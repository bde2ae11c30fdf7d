import Signet.Error

/-!
Randomness, as a tape that is read from left to right.

* `Tape` is an endless tape with a position; `Tape.cyclic` repeats given bytes.
* `Tape.draw` reads the next bytes and moves on, `Tape.slice` are the bytes
  that it reads.
* `Random` are the computations that draw from a tape and may fail; what was
  drawn before a failure stays drawn.
-/

namespace Signet

/-- An endless tape of random bytes and how many of them are used up. -/
structure Tape where
  /-- The byte at each place. -/
  byteAt : Nat → UInt8
  /-- The number of bytes used up. -/
  used : Nat

namespace Tape

/-- The tape that repeats given bytes, or holds zeros if there are none. -/
def cyclic (bytes : Bytes) : Tape :=
  let array := bytes.toArray
  ⟨fun i => array.getD (i % array.size) 0, 0⟩

/-- The `n` bytes from a place on. -/
def slice (t : Tape) (start n : Nat) : FixedBytes n :=
  ⟨(List.range' start n).map t.byteAt, by simp⟩

/-- Draws the next `n` bytes. -/
def draw (n : Nat) : StateM Tape (FixedBytes n) := fun t =>
  (t.slice t.used n, { t with used := t.used + n })

end Tape

/-- A computation that draws from a tape and may fail. -/
abbrev Random := ExceptT Error (StateM Tape)

namespace Random

/-- Draws the next `n` bytes. -/
def draw (n : Nat) : Random (FixedBytes n) := monadLift (Tape.draw n)

end Random

end Signet
