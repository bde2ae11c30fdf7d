import Signet.Cipher.CounterStream
import Signet.Cipher.Gcm
import Signet.ByteStream.Writer

/-!
Galois/counter mode over a stream, without authenticated data beside the
ciphertext.

* `GcmStream` is the state after some bytes: what is left of the key stream, the hash
  of the whole blocks, the bytes of a block that is not whole yet, and the number of
  bytes. `GcmStream.start` sets it up from a key and an IV.
* `GcmStream.encrypt` and `GcmStream.decrypt` take a piece of any length;
  `GcmStream.tag` is the tag of all pieces.
* `SealingWriter` and `OpeningWriter` do so on the way to another writer.
-/

namespace Signet

/-- Galois/counter mode in the middle of a stream. -/
structure GcmStream where
  /-- The product of the hash. -/
  mul : Gf128 → Gf128 → Gf128
  /-- The key stream, as far as it is used up. -/
  keystream : CounterStream
  /-- The key of the hash. -/
  hashKey : Gf128
  /-- The hash of the whole blocks of ciphertext so far. -/
  hash : Gf128
  /-- The bytes of ciphertext after them. -/
  pending : Bytes
  /-- What is added to the hash of all to make it a tag. -/
  tagMask : Block
  /-- The number of bytes so far. -/
  length : Nat

namespace GcmStream

/-- The block that is kept for the tag: a one at the end of a block that begins with the IV. -/
def tagCounter (iv : FixedBytes 12) : Block := (FixedBytes.padRight 16 iv.toList).set 15 1

/-- The block that the key stream begins with. -/
def firstCounter (iv : FixedBytes 12) : Block := (tagCounter iv).set 15 2

/-- The beginning of a stream. -/
def start (g : GcmPrimitives) (key : FixedBytes 32) (iv : FixedBytes 12) : GcmStream where
  mul := g.mul
  keystream := ⟨g.cipher key, firstCounter iv, 0⟩
  hashKey := Gf128.ofBlock ((g.cipher key).encrypt (FixedBytes.zero 16))
  hash := 0#128
  pending := []
  tagMask := (g.cipher key).encrypt (tagCounter iv)
  length := 0

/-- Takes one block into the hash. -/
def hashBlock (s : GcmStream) (b : Block) : GcmStream :=
  { s with hash := Gcm.hashStep s.mul s.hashKey s.hash b }

/-- Takes the whole blocks of bytes into the hash and keeps the rest, where nothing is kept yet. -/
def absorbBlocks (s : GcmStream) (bytes : Bytes) : GcmStream :=
  let whole := bytes.length / 16 * 16
  { (Block.split (bytes.take whole)).foldl hashBlock s with pending := bytes.drop whole }

/-- Takes ciphertext into the hash. It fills up the block that is not whole yet, if there is one,
before it makes blocks of its own. -/
def absorb (s : GcmStream) (ciphertext : Bytes) : GcmStream :=
  let s := { s with length := s.length + ciphertext.length }
  if s.pending.isEmpty then s.absorbBlocks ciphertext
  else
    let missing := min (16 - s.pending.length) ciphertext.length
    let block := s.pending ++ ciphertext.take missing
    if block.length < 16 then { s with pending := block }
    else (s.hashBlock (FixedBytes.padRight 16 block)).absorbBlocks (ciphertext.drop missing)

/-- Encrypts the next piece, if there is key stream for it. -/
def encrypt (s : GcmStream) (piece : Bytes) : Option (GcmStream × Bytes) := do
  let (keystream, ciphertext) ← s.keystream.add? piece
  return ({ s with keystream }.absorb ciphertext, ciphertext)

/-- Decrypts the next piece, if there is key stream for it. -/
def decrypt (s : GcmStream) (piece : Bytes) : Option (GcmStream × Bytes) := do
  let (keystream, plaintext) ← s.keystream.add? piece
  return ({ s with keystream }.absorb piece, plaintext)

/-- The block that is hashed last: the length of no authenticated data, and that of the ciphertext
in bits. -/
def lengthBlock (length : Nat) : Block :=
  (FixedBytes.zero 8).append (FixedBytes.ofNatBE 8 (length * 8))

/-- The tag of all pieces. -/
def tag (s : GcmStream) : FixedBytes 16 :=
  let last := Block.split s.pending ++ [lengthBlock s.length]
  (Gf128.toBlock (last.foldl (Gcm.hashStep s.mul s.hashKey) s.hash)).xor s.tagMask

end GcmStream

/-- Encrypts what it takes and passes it on. -/
structure SealingWriter (σ : Type) where
  /-- The cipher after what was taken. -/
  stream : GcmStream
  /-- Where the ciphertext goes. -/
  inner : σ

/-- Decrypts what it takes and passes it on, before the tag is known to fit. -/
structure OpeningWriter (σ : Type) where
  /-- The cipher after what was taken. -/
  stream : GcmStream
  /-- Where the plaintext goes. -/
  inner : σ

variable {σ : Type} [ByteStream.Writer σ]

/-- Encrypts bytes and passes them on. -/
def SealingWriter.write (w : SealingWriter σ) (data : Bytes) :
    ByteStream.Outcome (SealingWriter σ) :=
  match w.stream.encrypt data with
  | none => (w, some .sealExhausted)
  | some (stream, ciphertext) =>
    match ByteStream.Writer.write w.inner ciphertext with
    | (inner, fault) => (⟨stream, inner⟩, fault)

/-- Flushes the inner writer. -/
def SealingWriter.flush (w : SealingWriter σ) : ByteStream.Outcome (SealingWriter σ) :=
  match ByteStream.Writer.flush w.inner with
  | (inner, fault) => ({ w with inner }, fault)

instance : ByteStream.Writer (SealingWriter σ) := ⟨SealingWriter.write, SealingWriter.flush⟩

/-- Decrypts bytes and passes them on. -/
def OpeningWriter.write (w : OpeningWriter σ) (data : Bytes) :
    ByteStream.Outcome (OpeningWriter σ) :=
  match w.stream.decrypt data with
  | none => (w, some .openExhausted)
  | some (stream, plaintext) =>
    match ByteStream.Writer.write w.inner plaintext with
    | (inner, fault) => (⟨stream, inner⟩, fault)

/-- Flushes the inner writer. -/
def OpeningWriter.flush (w : OpeningWriter σ) : ByteStream.Outcome (OpeningWriter σ) :=
  match ByteStream.Writer.flush w.inner with
  | (inner, fault) => ({ w with inner }, fault)

instance : ByteStream.Writer (OpeningWriter σ) := ⟨OpeningWriter.write, OpeningWriter.flush⟩

end Signet
