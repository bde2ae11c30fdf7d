/-!
Why a text is no JSON, or a value has none.

* `Json.Cause` lists the reasons.
* `Json.Fault` adds the line and the column, counted in bytes, where reading
  stopped.
-/

namespace Signet.Json

/-- What a place calls for. -/
inductive Expected where
  /-- An array of strings. -/
  | strings
  /-- A string. -/
  | string
  /-- A string with the text of a number. -/
  | numberText
  deriving DecidableEq, Repr

/-- What stands in a place that calls for something else. -/
inductive Misplaced where
  /-- The value `null`. -/
  | null
  /-- A truth value. -/
  | bool (value : Bool)
  /-- An integer that fits 64 bits, with or without a sign. -/
  | integer (value : Int)
  /-- Another number. -/
  | number
  /-- A string. -/
  | string (text : String)
  /-- An array. -/
  | array
  /-- An object. -/
  | object
  deriving DecidableEq, Repr

/-- A reason for which a text is refused as JSON, or a value cannot be written as JSON. -/
inductive Cause where
  /-- The text ends inside an array. -/
  | endInArray
  /-- The text ends inside an object. -/
  | endInObject
  /-- The text ends inside a string. -/
  | endInString
  /-- The text ends where a value is called for, or inside one. -/
  | endInValue
  /-- A member's name is not followed by a colon. -/
  | colonExpected
  /-- An item is followed neither by a comma nor by the end of its array. -/
  | arrayEndExpected
  /-- A member is followed neither by a comma nor by the end of its object. -/
  | objectEndExpected
  /-- A word begins like `true`, `false` or `null` and is another. -/
  | unknownWord
  /-- No value begins here. -/
  | valueExpected
  /-- A backslash begins no escape. -/
  | badEscape
  /-- A number is malformed. -/
  | badNumber
  /-- A string holds a control character. -/
  | controlCharacter
  /-- A member's name is not a string. -/
  | nameExpected
  /-- A member's name is a number that is not finite. -/
  | nameNotFinite
  /-- An escaped surrogate has no partner. -/
  | loneSurrogate
  /-- An escaped leading surrogate is not followed by another escape. -/
  | halfSurrogatePair
  /-- A comma is followed by the end of its array or object. -/
  | trailingComma
  /-- Text follows the value. -/
  | trailingText
  /-- Arrays and objects are nested too deep. -/
  | nestedTooDeep
  /-- A place calls for something else than what stands there. -/
  | misplaced (expected : Expected) (found : Misplaced)
  /-- A value declines to be written as JSON, for a reason of its own. -/
  | declined (reason : String)
  deriving DecidableEq, Repr

/-- A reason and the place where it was noticed; the place is line 0 and column 0 for a value
that never was text. -/
structure Fault where
  /-- The reason. -/
  cause : Cause
  /-- The line, from 1. -/
  line : Nat
  /-- The number of bytes of the line up to the place. -/
  column : Nat
  deriving DecidableEq, Repr

/-- A fault of a value that never was text. -/
def Fault.ofValue (cause : Cause) : Fault := ⟨cause, 0, 0⟩

/-- A fault after the first `offset` bytes of a text. -/
def Fault.atOffset (cause : Cause) (text : List UInt8) (offset : Nat) : Fault :=
  let seen := text.take offset
  ⟨cause, seen.count 0x0A + 1, (seen.reverse.takeWhile (· ≠ 0x0A)).length⟩

end Signet.Json
