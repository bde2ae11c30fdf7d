import Signet.Random

/-!
Random key ids.

* `KeyId.random` draws an id of one of two sizes.
* `KeyId.randomRound` draws the id of a round key: a long id for its group and
  a short one for its round.
-/

namespace Signet.KeyId

/-- The two sizes of a random key id. -/
inductive Size where
  /-- 48 bits. -/
  | short
  /-- 96 bits. -/
  | long
  deriving DecidableEq, Repr

/-- The number of bytes of an id before they are written as base64. -/
def Size.byteLength : Size → Nat
  | short => 6
  | long => 12

/-- Draws a key id. -/
def random (size : Size) : StateM Tape String := do
  let bytes ← Tape.draw size.byteLength
  return Base64.encode bytes.toList

/-- Draws the id of a round key. -/
def randomRound : StateM Tape String := do
  let group ← random .long
  let round ← random .short
  return group ++ "." ++ round

end Signet.KeyId
