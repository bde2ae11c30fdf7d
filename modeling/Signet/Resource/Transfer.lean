import Signet.Cipher.GcmStream
import Signet.Resource.Descriptor
import Signet.ByteStream.TailBuffer

/-!
Encrypting and decrypting resources of any length, from a source to a sink.

* `Resource.encrypt` draws a key and an IV and goes on with them:
  `Resource.encryptWith` writes the ciphertext and describes it. A buffer of the
  tag's size keeps the tag from the sink.
* `Resource.decrypt` writes the plaintext and checks the tag at the end. By
  then everything has been written, so the result of a failure is of no use.
-/

namespace Signet.Resource

open ByteStream

variable (g : GcmPrimitives) {σ : Type} [Writer σ]

/-- Writes the ciphertext of a source, and its tag into the buffer in front of the sink. -/
def writeSealed (key : SymmetricKey) (iv : FixedBytes 12) (source : Source) (sink : σ) :
    Outcome (TailBuffer σ) :=
  let start : SealingWriter (TailBuffer σ) := ⟨GcmStream.start g key iv, TailBuffer.empty sink 16⟩
  match source.copy start with
  | (w, some fault) => (w.inner, some fault)
  | (w, none) =>
    match w.inner.write w.stream.tag.toList with
    | (buffer, some fault) => (buffer, some fault)
    | (buffer, none) => buffer.flush

/-- Encrypts what a source yields with a key and an IV, and describes it. -/
def encryptWith (key : SymmetricKey) (iv : FixedBytes 12) (source : Source) (sink : σ)
    (uri : Option String) : Except Error Descriptor × σ :=
  match writeSealed g key iv source sink with
  | (buffer, some fault) => (.error (.streamFailed fault), buffer.inner)
  | (buffer, none) =>
    match Writer.flush buffer.inner with
    | (sink, some fault) => (.error (.streamFailed fault), sink)
    | (sink, none) =>
      match FixedBytes.ofList? 16 buffer.held with
      | some tag => (.ok ⟨iv, key, tag, uri⟩, sink)
      | none => (.error .sealFailed, sink)

/-- Encrypts what a source yields and describes it. The state of the sink is the second part of
the result, also of a failure. -/
def encrypt (source : Source) (sink : σ) (uri : Option String) :
    StateM Tape (Except Error Descriptor × σ) := do
  let key ← SymmetricKey.random
  let iv ← Tape.draw 12
  return encryptWith g key iv source sink uri

/-- Ends a decryption. What the buffer holds back has to be the tag of the stream; if it is shorter
than a tag there was none. -/
def finish (buffer : TailBuffer (OpeningWriter σ)) : Except Error Unit × σ :=
  let w := buffer.inner
  if buffer.held.length ≠ 16 then (.error .openFailed, w.inner)
  else if buffer.held = w.stream.tag.toList then
    match Writer.flush w.inner with
    | (sink, some fault) => (.error (.streamFailed fault), sink)
    | (sink, none) => (.ok (), sink)
  else (.error .openFailed, w.inner)

/-- Decrypts what a source yields. The state of the sink is the second part of the result, also of
a failure. -/
def decrypt (source : Source) (sink : σ) (d : Descriptor) : Except Error Unit × σ :=
  let start : TailBuffer (OpeningWriter σ) :=
    TailBuffer.empty ⟨GcmStream.start g d.key d.iv, sink⟩ 16
  match source.copy start with
  | (buffer, some fault) => (.error (.streamFailed fault), buffer.inner.inner)
  | (buffer, none) =>
    match buffer.write d.tag.toList with
    | (buffer, some fault) => (.error (.streamFailed fault), buffer.inner.inner)
    | (buffer, none) => finish buffer

end Signet.Resource
