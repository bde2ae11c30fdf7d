/-!
Binary floating-point numbers as exact values.

* `BinaryFormat` gives the precision and the range; `binary64` and `binary32`
  are the usual two.
* `Binary` is a finite number: a sign and a magnitude `mantissa * 2 ^ exponent`.
* `BinaryFormat.round` takes a quotient to the nearest number of a format, to
  the one with an even mantissa if two are nearest.
-/

namespace Signet

/-- A binary floating-point format. -/
structure BinaryFormat where
  /-- The number of bits of a mantissa. -/
  precision : Nat
  /-- The exponent of the smallest positive number. -/
  minExponent : Int
  /-- Magnitudes are below the power of two with this exponent. -/
  maxExponent : Int
  deriving DecidableEq, Repr

/-- Numbers of 64 bits. -/
def binary64 : BinaryFormat := ⟨53, -1074, 1024⟩

/-- Numbers of 32 bits. -/
def binary32 : BinaryFormat := ⟨24, -149, 128⟩

/-- A finite binary number; zero has a sign too. -/
structure Binary where
  /-- Whether the sign is a minus. -/
  negative : Bool
  /-- The digits of the magnitude, as a whole number. -/
  mantissa : Nat
  /-- The power of two that the mantissa is multiplied by. -/
  exponent : Int
  deriving DecidableEq, Repr

namespace Binary

/-- A power; one for a negative exponent. A number `n * b ^ e` is the quotient of
`n * power b e` and `power b (-e)`. -/
def power (base : Nat) (exponent : Int) : Nat := Nat.pow base exponent.toNat

/-- A quotient times a power of two, as a quotient of whole numbers. -/
def scale (twos : Int) (num den : Nat) : Nat × Nat :=
  (num * power 2 twos, den * power 2 (-twos))

/-- The whole number nearest to `num / den`, an even one if two are nearest. -/
def roundHalfEven (num den : Nat) : Nat :=
  let below := num / den
  let rest := num % den
  if 2 * rest < den then below
  else if den < 2 * rest then below + 1
  else below + below % 2

/-- The exponent of the greatest power of two that is at most `num / den`, both positive. -/
def log2 (num den : Nat) : Int :=
  let guess : Int := (Nat.log2 num : Int) - (Nat.log2 den : Int)
  let (n, d) := scale (-guess) num den
  if d ≤ n then guess else guess - 1

end Binary

namespace BinaryFormat

/-- The number of a format nearest to `num / den`, for `den` positive; `none` if that lies
beyond the range. -/
def round (fmt : BinaryFormat) (negative : Bool) (num den : Nat) : Option Binary :=
  if num = 0 then some ⟨negative, 0, fmt.minExponent⟩
  else
    let exponent := max (Binary.log2 num den - (fmt.precision - 1)) fmt.minExponent
    let (n, d) := Binary.scale (-exponent) num den
    let mantissa := Binary.roundHalfEven n d
    let (mantissa, exponent) :=
      if mantissa = Nat.pow 2 fmt.precision then
        (Nat.pow 2 (fmt.precision - 1), exponent + 1)
      else (mantissa, exponent)
    if mantissa = 0 then some ⟨negative, 0, fmt.minExponent⟩
    else if fmt.maxExponent < exponent + fmt.precision then none
    else some ⟨negative, mantissa, exponent⟩

/-- The number of a format nearest to `coefficient * 10 ^ exponent`. As ten lies between the
third and the fourth power of two, the size of the power of ten tells in most cases beyond the
range that the result is too large, or zero. -/
def roundDecimal (fmt : BinaryFormat) (negative : Bool) (coefficient : Nat) (exponent : Int) :
    Option Binary :=
  if coefficient = 0 then some ⟨negative, 0, fmt.minExponent⟩
  else
    let size : Int := Nat.log2 coefficient
    if 0 ≤ exponent ∧ fmt.maxExponent ≤ size + 3 * exponent then none
    else if exponent < 0 ∧ size + 1 + 3 * exponent ≤ fmt.minExponent - 1 then
      some ⟨negative, 0, fmt.minExponent⟩
    else
      fmt.round negative (coefficient * Binary.power 10 exponent) (Binary.power 10 (-exponent))

end BinaryFormat

end Signet
