import Signet.Decimal.Binary
import Signet.Json.Number

/-!
Decimal texts: an optional sign, digits with at most one point among, before or
after them, and an optional exponent.

* `Decimal` is what such a text says, exactly; `Decimal.ofText?` reads it.
* `BinaryFormat.ofText?` is the nearest number of a format, if it is finite.
-/

namespace Signet

/-- A decimal number `coefficient * 10 ^ exponent` with a sign. -/
structure Decimal where
  /-- Whether the sign is a minus. -/
  negative : Bool
  /-- The digits, as a whole number. -/
  coefficient : Nat
  /-- The power of ten that the coefficient is multiplied by. -/
  exponent : Int
  deriving DecidableEq, Repr

namespace Decimal

/-- The number that decimal digits spell. -/
def digitsValue (digits : List Char) : Nat :=
  digits.foldl (fun n c => n * 10 + (c.toNat - '0'.toNat)) 0

/-- The exponent that is the rest of a text, zero if nothing is left. -/
def exponent? : List Char → Option Int
  | [] => some 0
  | c :: rest =>
    if c = 'e' ∨ c = 'E' then
      let digits := Json.Number.dropSign rest
      if digits.isEmpty ∨ !digits.all Char.isDigit then none
      else if rest.head? = some '-' then some (-(digitsValue digits : Int))
      else some (digitsValue digits)
    else none

/-- Reads a decimal text without its sign. -/
def unsigned? (negative : Bool) (s : List Char) : Option Decimal :=
  let whole := s.takeWhile Char.isDigit
  let rest := s.dropWhile Char.isDigit
  let (fraction, rest) := match rest with
    | '.' :: rest => (rest.takeWhile Char.isDigit, rest.dropWhile Char.isDigit)
    | rest => ([], rest)
  if whole.isEmpty ∧ fraction.isEmpty then none
  else
    (exponent? rest).map fun e =>
      ⟨negative, digitsValue (whole ++ fraction), e - fraction.length⟩

/-- Reads a decimal text. -/
def ofText? : List Char → Option Decimal
  | '-' :: s => unsigned? true s
  | '+' :: s => unsigned? false s
  | s => unsigned? false s

end Decimal

/-- The number of a format nearest to what a decimal text says; `none` if the text says no
number, or one beyond the range. -/
def BinaryFormat.ofText? (fmt : BinaryFormat) (s : List Char) : Option Binary := do
  let d ← Decimal.ofText? s
  fmt.roundDecimal d.negative d.coefficient d.exponent

end Signet
