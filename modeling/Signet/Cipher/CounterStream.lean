import Signet.Cipher.Block

/-!
Key streams in counter mode.

* `CounterStream` encrypts blocks that count up in their last 32 bits, and knows how
  much of its key stream is used up.
* `CounterStream.add?` adds what is next in the key stream to a piece of data, as long
  as there is enough of it.
-/

namespace Signet

/-- A key stream, part of which is used up. -/
structure CounterStream where
  /-- The cipher under the key. -/
  cipher : KeyedCipher
  /-- The block that is encrypted first. -/
  first : Block
  /-- The number of bytes used up. -/
  used : Nat

namespace CounterStream

/-- The most bytes that there are: one block less than a counter of 32 bits counts. -/
def maxLength : Nat := 16 * (Nat.pow 2 32 - 1)

/-- The block `i` places after the first one. The last 32 bits are the counter, which comes
round. -/
def counter (s : CounterStream) (i : Nat) : Block :=
  let count := Bytes.toNatBE (s.first.toList.drop 12)
  (FixedBytes.padRight 12 s.first.toList).append (FixedBytes.ofNatBE 4 (count + i))

/-- The next `n` bytes. -/
def next (s : CounterStream) (n : Nat) : Bytes :=
  Block.stretch (fun i => s.cipher.encrypt (s.counter i)) s.used n

/-- Uses up `n` more bytes. -/
def advance (s : CounterStream) (n : Nat) : CounterStream := { s with used := s.used + n }

/-- Adds the next bytes to data, if there are enough of them. -/
def add? (s : CounterStream) (data : Bytes) : Option (CounterStream × Bytes) :=
  if maxLength < s.used + data.length then none
  else some (s.advance data.length, Bytes.xor data (s.next data.length))

end CounterStream

end Signet
