import Signet.Decimal.Binary

/-!
The shortest decimal that reads back as a given binary number.

* `Shortest.digits` goes down the powers of ten to the first of which a
  multiple rounds to the number, and takes the nearest such multiple.
* `Shortest.Tie` says which of two is taken that are equally near.
-/

namespace Signet.Shortest

open Binary (power)

/-- Which of two neighbours a number halfway between them is taken to. -/
inductive Tie where
  /-- The greater one. -/
  | up
  /-- The even one. -/
  | even
  deriving DecidableEq, Repr

/-- A number times a power of ten, `count * 10 ^ exponent`. -/
structure Digits where
  /-- The digits, as a whole number. -/
  count : Nat
  /-- The power of ten that it is multiplied by. -/
  exponent : Int
  deriving DecidableEq, Repr

/-- Twice as much as the distance from a mantissa to the lower end of what rounds to it, in
quarters of the last place: less below a power of two, where the numbers stand closer. -/
def gapBelow (fmt : BinaryFormat) (mantissa : Nat) (exponent : Int) : Nat :=
  if mantissa = Nat.pow 2 (fmt.precision - 1) ∧ fmt.minExponent < exponent then 1 else 2

/-- Whether `count * 10 ^ ten` rounds to `mantissa * 2 ^ two`. The ends of the interval belong
to an even mantissa. -/
def roundsTo (fmt : BinaryFormat) (mantissa : Nat) (two : Int) (count : Nat) (ten : Int) : Bool :=
  let unit := power 2 two * power 10 (-ten)
  let here := 4 * count * (power 2 (-two) * power 10 ten)
  let low := (4 * mantissa - gapBelow fmt mantissa two) * unit
  let high := (4 * mantissa + 2) * unit
  if mantissa % 2 = 0 then low ≤ here ∧ here ≤ high else low < here ∧ here < high

/-- The multiple of `10 ^ ten` that rounds to `mantissa * 2 ^ two` and is nearest to it, if there
is one. -/
def nearest? (fmt : BinaryFormat) (tie : Tie) (mantissa : Nat) (two ten : Int) : Option Nat :=
  let num := mantissa * power 2 two * power 10 (-ten)
  let den := power 2 (-two) * power 10 ten
  let below := num / den
  let rest := num % den
  match roundsTo fmt mantissa two below ten, roundsTo fmt mantissa two (below + 1) ten with
  | false, false => none
  | true, false => some below
  | false, true => some (below + 1)
  | true, true =>
    if 2 * rest < den then some below
    else if den < 2 * rest then some (below + 1)
    else
      match tie with
      | .up => some (below + 1)
      | .even => some (below + below % 2)

/-- The first multiple of a power of ten that rounds to a number, going down from `10 ^ ten` over
at most `fuel` powers. -/
def search (fmt : BinaryFormat) (tie : Tie) (mantissa : Nat) (two : Int) : Nat → Int → Digits
  | 0, ten => ⟨0, ten⟩
  | fuel + 1, ten =>
    match nearest? fmt tie mantissa two ten with
    | some count => ⟨count, ten⟩
    | none => search fmt tie mantissa two fuel (ten - 1)

/-- A power of ten above a power of two: a tenth of ten is below the cube of two. -/
def tenAbove (two : Int) : Int := if 0 ≤ two then two / 3 + 1 else two / 4 + 1

/-- A power of ten at most a quarter of a power of two. -/
def tenBelow (two : Int) : Int := if 2 ≤ two then (two - 2) / 4 else (two - 2) / 3 - 1

/-- The shortest decimal that rounds to a positive magnitude, and of the shortest ones the
nearest. -/
def digits (fmt : BinaryFormat) (tie : Tie) (mantissa : Nat) (two : Int) : Digits :=
  let top := tenAbove (two + Nat.log2 mantissa + 2)
  search fmt tie mantissa two ((top - tenBelow two).toNat + 1) top

end Signet.Shortest
