import Signet.Bytes

/-!
Blocks of 128 bits and ciphers on them.

* `Block` is sixteen bytes; `Block.split` cuts a byte string into blocks and
  fills up the last one with zeros. `Block.stretch` is a part of the bytes of
  blocks one after another.
* `KeyedCipher` is a block cipher under one key.
-/

namespace Signet

/-- A block of 128 bits. -/
abbrev Block := FixedBytes 16

/-- A block cipher under one key. -/
structure KeyedCipher where
  /-- Encrypts a block. -/
  encrypt : Block → Block

namespace Block

/-- The blocks of a byte string; the last one is filled up with zeros. -/
def split (bs : Bytes) : List Block := (Bytes.chunks 16 bs).map (FixedBytes.padRight 16)

/-- Of blocks one after another, the `n` bytes from byte `start` on. -/
def stretch (block : Nat → Block) (start n : Nat) : Bytes :=
  let first := start / 16
  let blocks := List.range' first ((start % 16 + n + 15) / 16)
  ((blocks.flatMap fun i => (block i).toList).drop (start % 16)).take n

end Block

end Signet
