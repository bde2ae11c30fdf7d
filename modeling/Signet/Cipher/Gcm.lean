import Signet.Cipher.Aes
import Signet.Cipher.Gf128
import Signet.Error

/-!
Galois/counter mode with IVs of 96 bits: sealing and opening in one go.

* `GcmPrimitives` is what the mode is made of, a block cipher and a product;
  `aes256Gcm` takes AES and the product of `Gf128`.
* `Gcm.keystream` gives any stretch of the key stream of a key and an IV.
* `Gcm.hashInput` lays out what is authenticated, `Gcm.hash` evaluates it, and
  `Gcm.tag` masks the result.
* `Gcm.sealWithIv` and `Gcm.openSealed` turn a message into a `Sealed` one and
  back.
-/

namespace Signet

/-- What Galois/counter mode is made of. -/
structure GcmPrimitives where
  /-- The block cipher under a key. -/
  cipher : FixedBytes 32 → KeyedCipher
  /-- The product of the hash. -/
  mul : Gf128 → Gf128 → Gf128

/-- Galois/counter mode with AES. -/
def aes256Gcm : GcmPrimitives := ⟨aes256, Gf128.mul⟩

/-- A sealed message. Its ciphertext is as long as the message. -/
structure Sealed where
  /-- The IV. -/
  iv : FixedBytes 12
  /-- The encrypted message. -/
  ciphertext : Bytes
  /-- The tag, over the ciphertext and the authenticated data. -/
  tag : FixedBytes 16
  deriving DecidableEq

/-- A sealed message from its parts, if the IV and the tag have their sizes. -/
def Sealed.ofParts (iv ciphertext tag : Bytes) : Except Error Sealed :=
  match FixedBytes.ofList? 12 iv, FixedBytes.ofList? 16 tag with
  | none, _ => .error (.badLength "iv" 12 iv.length)
  | some _, none => .error (.badLength "tag" 16 tag.length)
  | some iv, some tag => .ok ⟨iv, ciphertext, tag⟩

namespace Gcm

/-! ### The key stream -/

/-- The block of an IV and a counter of 32 bits. -/
def counterBlock (iv : FixedBytes 12) (n : Nat) : Block := iv.append (FixedBytes.ofNatBE 4 n)

/-- Block `i` of the key stream. Counter 1 is kept for the tag, so the first one has counter 2. -/
def keystreamBlock (c : KeyedCipher) (iv : FixedBytes 12) (i : Nat) : Block :=
  c.encrypt (counterBlock iv (i + 2))

/-- The `n` bytes of the key stream from byte `start` on. -/
def keystream (c : KeyedCipher) (iv : FixedBytes 12) (start n : Nat) : Bytes :=
  Block.stretch (keystreamBlock c iv) start n

/-- Adds the key stream from byte `start` on. -/
def applyKeystream (c : KeyedCipher) (iv : FixedBytes 12) (start : Nat) (data : Bytes) : Bytes :=
  Bytes.xor data (keystream c iv start data.length)

/-! ### The tag -/

/-- The block that holds the lengths in bits of authenticated data and ciphertext. -/
def lengthBlock (aadLength length : Nat) : Block :=
  (FixedBytes.ofNatBE 8 (8 * aadLength)).append (FixedBytes.ofNatBE 8 (8 * length))

/-- The blocks that are hashed: the authenticated data, the ciphertext, and their lengths. -/
def hashInput (aad ciphertext : Bytes) : List Block :=
  Block.split aad ++ Block.split ciphertext ++ [lengthBlock aad.length ciphertext.length]

/-- Takes one block into a hash with key `h`. -/
def hashStep (mul : Gf128 → Gf128 → Gf128) (h y : Gf128) (b : Block) : Gf128 :=
  mul (y ^^^ Gf128.ofBlock b) h

/-- The hash of blocks with key `h`. -/
def hash (mul : Gf128 → Gf128 → Gf128) (h : Gf128) (blocks : List Block) : Gf128 :=
  blocks.foldl (hashStep mul h) 0#128

/-- The key of the hash is what the zero block is encrypted to. -/
def hashKey (c : KeyedCipher) : Gf128 := Gf128.ofBlock (c.encrypt (FixedBytes.zero 16))

/-- What is added to a hash to make it a tag. -/
def tagMask (c : KeyedCipher) (iv : FixedBytes 12) : Block := c.encrypt (counterBlock iv 1)

/-- The tag of authenticated data and ciphertext. -/
def tag (g : GcmPrimitives) (c : KeyedCipher) (iv : FixedBytes 12) (aad ciphertext : Bytes) :
    FixedBytes 16 :=
  (Gf128.toBlock (hash g.mul (hashKey c) (hashInput aad ciphertext))).xor (tagMask c iv)

/-! ### Messages -/

/-- The greatest length in bytes of a message and of its authenticated data. -/
def maxLength : Nat := Nat.pow 2 36

/-- Seals a message under a key with a given IV. -/
def sealWithIv (g : GcmPrimitives) (key : FixedBytes 32) (iv : FixedBytes 12)
    (message aad : Bytes) : Except Error Sealed :=
  if maxLength < message.length ∨ maxLength < aad.length then .error .sealFailed
  else
    let c := g.cipher key
    let ciphertext := applyKeystream c iv 0 message
    .ok ⟨iv, ciphertext, tag g c iv aad ciphertext⟩

/-- Opens a sealed message. Nothing of it comes out unless the tag fits. -/
def openSealed (g : GcmPrimitives) (key : FixedBytes 32) (s : Sealed) (aad : Bytes) :
    Except Error Bytes :=
  if maxLength + 16 < s.ciphertext.length ∨ maxLength < aad.length then .error .openFailed
  else
    let c := g.cipher key
    if tag g c s.iv aad s.ciphertext = s.tag then .ok (applyKeystream c s.iv 0 s.ciphertext)
    else .error .openFailed

end Gcm

end Signet
