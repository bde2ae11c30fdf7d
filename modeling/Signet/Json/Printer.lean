import Signet.Json.Basic

/-!
Writing JSON without blanks.

* `Json.quote` writes a string: quotes, backslashes and characters below a
  space are escaped, the rest stands for itself.
* `Json.write` writes a value with a given way to write numbers, members in
  the order in which they are kept; `Json.compact` writes numbers as they are.
-/

namespace Signet.Json

/-- A hexadecimal digit, in small letters. -/
def hexDigit (n : Nat) : Char := if n < 10 then Char.ofNat (0x30 + n) else Char.ofNat (0x57 + n)

/-- A character inside a string. -/
def escapeChar (c : Char) : List Char :=
  if c = '"' then ['\\', '"']
  else if c = '\\' then ['\\', '\\']
  else if c = '\t' then ['\\', 't']
  else if c = '\x08' then ['\\', 'b']
  else if c = '\n' then ['\\', 'n']
  else if c = '\r' then ['\\', 'r']
  else if c = '\x0c' then ['\\', 'f']
  else if c.toNat < 0x20 then
    ['\\', 'u', '0', '0', hexDigit (c.toNat / 16), hexDigit (c.toNat % 16)]
  else [c]

/-- A string with its quotes. -/
def quote (s : String) : List Char := '"' :: s.toList.flatMap escapeChar ++ ['"']

mutual

/-- The text of a value, whose numbers `number` writes. -/
def write (number : String → List Char) : Json → List Char
  | .null => ['n', 'u', 'l', 'l']
  | .bool true => ['t', 'r', 'u', 'e']
  | .bool false => ['f', 'a', 'l', 's', 'e']
  | .num text => number text
  | .str text => quote text
  | .arr items => '[' :: writeItems number items ++ [']']
  | .obj members => '\x7b' :: writeMembers number members ++ ['\x7d']
termination_by structural v => v

/-- The items of an array, with commas between them. -/
def writeItems (number : String → List Char) : List Json → List Char
  | [] => []
  | v :: rest => write number v ++ writeMoreItems number rest
termination_by structural items => items

/-- The further items of an array, with a comma before each. -/
def writeMoreItems (number : String → List Char) : List Json → List Char
  | [] => []
  | v :: rest => ',' :: write number v ++ writeMoreItems number rest
termination_by structural items => items

/-- The members of an object, with commas between them. -/
def writeMembers (number : String → List Char) : List (String × Json) → List Char
  | [] => []
  | m :: rest => writeMember number m ++ writeMoreMembers number rest
termination_by structural members => members

/-- The further members of an object, with a comma before each. -/
def writeMoreMembers (number : String → List Char) : List (String × Json) → List Char
  | [] => []
  | m :: rest => ',' :: writeMember number m ++ writeMoreMembers number rest
termination_by structural members => members

/-- A member: its name, a colon and its value. -/
def writeMember (number : String → List Char) : String × Json → List Char
  | (name, v) => quote name ++ ':' :: write number v
termination_by structural member => member

end

/-- The text of a value, with its numbers as they are kept. -/
def compact (v : Json) : String := String.ofList (v.write String.toList)

end Signet.Json
