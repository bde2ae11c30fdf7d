import Signet.ByteStream.Writer

/-!
A writer that holds back the last bytes of a stream.

* `TailBuffer` holds up to `capacity` bytes; what falls out goes to the inner
  writer. At the end of a stream of ciphertext and tag it holds the tag.
* `TailBuffer.write` first passes on the oldest bytes held, then the front of
  the new ones. The bytes held lie in a ring, so that they are passed on in two
  writes where they go over its end (`TailBuffer.passHeld`).
-/

namespace Signet.ByteStream

/-- A writer in front of another one that holds back the last bytes. -/
structure TailBuffer (σ : Type) where
  /-- Where bytes go that are not held any longer. -/
  inner : σ
  /-- The bytes held back, oldest first. -/
  held : Bytes
  /-- How many bytes are held back. -/
  capacity : Nat
  /-- The place of the oldest byte in a ring of so many places. -/
  head : Nat
  /-- How many bytes were passed on. This is a counter of 64 bits: fewer than 2^64 bytes are ever
  passed on. -/
  evicted : Nat

namespace TailBuffer

variable {σ : Type} [Writer σ]

/-- A buffer that holds nothing. -/
def empty (inner : σ) (capacity : Nat) : TailBuffer σ := ⟨inner, [], capacity, 0, 0⟩

/-- Passes bytes to the inner writer, which is left alone if there are none. -/
def pass (w : σ) (data : Bytes) : Outcome σ :=
  if data.isEmpty then (w, none) else Writer.write w data

/-- Passes on the oldest `n` bytes held: those up to the end of the ring, and then those from its
beginning on. -/
def passHeld (t : TailBuffer σ) (n : Nat) : Outcome σ :=
  match pass t.inner ((t.held.take n).take (t.capacity - t.head)) with
  | (inner, some fault) => (inner, some fault)
  | (inner, none) => pass inner ((t.held.take n).drop (t.capacity - t.head))

/-- Lets go of the oldest `n` bytes held. A ring that is empty begins anew. -/
def release (t : TailBuffer σ) (n : Nat) : TailBuffer σ :=
  { t with
    held := t.held.drop n
    head := if t.held.length ≤ n then 0 else (t.head + n) % t.capacity }

/-- Takes bytes. If the inner writer fails while taking bytes that were held, they stay held; if it
fails while taking new ones, all of the new ones are lost. -/
def write (t : TailBuffer σ) (data : Bytes) : Outcome (TailBuffer σ) :=
  let total := t.held.length + data.length
  if total ≤ t.capacity then ({ t with held := t.held ++ data }, none)
  else
    let evict := total - t.capacity
    let fromHeld := min evict t.held.length
    match t.passHeld fromHeld with
    | (inner, some fault) => ({ t with inner }, some fault)
    | (inner, none) =>
      let rest := t.release fromHeld
      let fromData := evict - fromHeld
      match pass inner (data.take fromData) with
      | (inner, some fault) => ({ rest with inner }, some fault)
      | (inner, none) =>
        ({ rest with
            inner
            held := rest.held ++ data.drop fromData
            evicted := t.evicted + evict },
          none)

/-- Flushes the inner writer and holds on to what is held. -/
def flush (t : TailBuffer σ) : Outcome (TailBuffer σ) :=
  match Writer.flush t.inner with
  | (inner, fault) => ({ t with inner }, fault)

instance : Writer (TailBuffer σ) := ⟨write, flush⟩

end TailBuffer

end Signet.ByteStream
