/-!
The texts of JSON numbers: an optional minus, an integer without leading zeros,
an optional fraction and an optional exponent.

* `Json.Number.isNumber` recognises them.
* `Json.Number.isInteger` recognises an optional minus before any digits,
  leading zeros included.
-/

namespace Signet.Json.Number

/-- Drops one minus. -/
def dropMinus : List Char → List Char
  | '-' :: rest => rest
  | s => s

/-- Drops one sign. -/
def dropSign : List Char → List Char
  | '-' :: rest => rest
  | '+' :: rest => rest
  | s => s

/-- What follows one or more digits. -/
def afterDigits? : List Char → Option (List Char)
  | [] => none
  | c :: rest => if c.isDigit then some (rest.dropWhile Char.isDigit) else none

/-- What follows an integer part: a zero, or digits that begin with another one. -/
def afterInteger? : List Char → Option (List Char)
  | '0' :: rest => some rest
  | s => afterDigits? s

/-- What follows an optional fraction. -/
def afterFraction? : List Char → Option (List Char)
  | '.' :: rest => afterDigits? rest
  | s => some s

/-- What follows an optional exponent. -/
def afterExponent? : List Char → Option (List Char)
  | c :: rest => if c = 'e' ∨ c = 'E' then afterDigits? (dropSign rest) else some (c :: rest)
  | [] => some []

/-- Whether characters spell a JSON number. -/
def isNumber (s : List Char) : Bool :=
  (afterInteger? (dropMinus s) >>= afterFraction? >>= afterExponent?) == some []

/-- Whether characters are an optional minus and at least one digit. -/
def isInteger (s : List Char) : Bool :=
  !(dropMinus s).isEmpty && (dropMinus s).all Char.isDigit

end Signet.Json.Number
