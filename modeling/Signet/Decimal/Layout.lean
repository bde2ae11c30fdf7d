import Signet.Decimal.Shortest

/-!
Laying out the digits of a number as text.

* `Layout` holds the decisions of one way to write numbers.
* `Layout.text` writes a finite binary number with its shortest digits.
-/

namespace Signet

/-- One way to write binary numbers in decimal. -/
structure Layout where
  /-- The format of the numbers. -/
  format : BinaryFormat
  /-- Which of two equally near shortest decimals is written. -/
  tie : Shortest.Tie
  /-- The least number of places before the point that is written without an exponent; it is
  negative for zeros after the point. -/
  minPoint : Int
  /-- The greatest number of places before the point that is written without an exponent. -/
  maxPoint : Int
  /-- What follows a whole number. -/
  wholeEnd : String
  /-- What follows a single digit before an exponent. -/
  loneEnd : String
  /-- What announces an exponent. -/
  mark : Char
  /-- What stands before an exponent that is not negative. -/
  plus : String
  deriving Repr

namespace Layout

/-- Writes digits with a point after the first `point` of them, among zeros as needed. -/
def positional (l : Layout) (digits : List Char) (point : Int) : List Char :=
  if point ≤ 0 then '0' :: '.' :: List.replicate (-point).toNat '0' ++ digits
  else if digits.length ≤ point.toNat then
    digits ++ List.replicate (point.toNat - digits.length) '0' ++ l.wholeEnd.toList
  else digits.take point.toNat ++ '.' :: digits.drop point.toNat

/-- Writes digits with a point after the first one and an exponent. -/
def scientific (l : Layout) (digits : List Char) (point : Int) : List Char :=
  let mantissa := match digits with
    | d :: [] => d :: l.loneEnd.toList
    | d :: more => d :: '.' :: more
    | [] => []
  let exponent := point - 1
  let sign := if exponent < 0 then ['-'] else l.plus.toList
  mantissa ++ l.mark :: sign ++ Nat.toDigits 10 exponent.natAbs

/-- Writes a positive magnitude. -/
def magnitude (l : Layout) (mantissa : Nat) (two : Int) : List Char :=
  let d := Shortest.digits l.format l.tie mantissa two
  let digits := Nat.toDigits 10 d.count
  let point := digits.length + d.exponent
  if l.minPoint ≤ point ∧ point ≤ l.maxPoint then l.positional digits point
  else l.scientific digits point

/-- Writes a number. -/
def text (l : Layout) (x : Binary) : List Char :=
  let sign := if x.negative then ['-'] else []
  sign ++
    if x.mantissa = 0 then '0' :: l.wholeEnd.toList else l.magnitude x.mantissa x.exponent

end Layout

end Signet
