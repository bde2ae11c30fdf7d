import Signet.Json.Basic
import Signet.Json.Fault
import Signet.Json.Number
import Signet.Text.Utf8

/-!
Reading JSON text.

* `Json.parse` reads a whole text as one value. The grammar is the strict one;
  arrays and objects may be nested up to `Json.maxDepth` deep; of a repeated
  name the last value counts; an exponent is kept as `e` with its sign.
* An object whose first member is named `Json.numberName` stands for the
  number in that member's string.
* `Json.parseStrings` reads a whole text as an array of strings, and stops at
  the first thing that is none.
-/

namespace Signet.Json

/-- How deep arrays and objects may be nested. -/
def maxDepth : Nat := 127

/-- The name of the only member of an object that stands for a number. -/
def numberName : String := "$serde_json::private::Number"

namespace Parser

/-- Why and where reading stopped. -/
inductive Stop where
  /-- A reason, with the number of bytes after its place. -/
  | here (cause : Cause) (left : Nat)
  /-- A reason that was noticed when the byte at its place had been taken already. -/
  | taken (cause : Cause) (left : Nat)
  /-- A fault inside the text of a string. -/
  | within (fault : Fault)

/-- The fault at which reading a text stopped. -/
def Stop.fault (text : String) : Stop → Fault
  | .here cause left => atLeft cause left
  | .taken cause left => atLeft cause left
  | .within fault => fault
where
  atLeft (cause : Cause) (left : Nat) : Fault :=
    Fault.atOffset cause (Utf8.encode text) (Utf8.size text.toList - left)

/-- What reads a part from the front of a text: it gives the part and the rest of the text. -/
abbrev Reader (α : Type) := List Char → Except Stop (α × List Char)

/-- Stops before the rest of the text. -/
def before (cause : Cause) (rest : List Char) : Stop := .here cause (Utf8.size rest)

/-- Stops after the first byte of the rest of the text, if there is one. -/
def after (cause : Cause) (rest : List Char) : Stop := .here cause (Utf8.size rest - 1)

/-- Stops after the first byte of the rest of the text, which is taken. -/
def past (cause : Cause) (rest : List Char) : Stop := .taken cause (Utf8.size rest - 1)

/-- Whether a character may stand between the parts of a value. -/
def isBlank (c : Char) : Bool := c = ' ' || c = '\t' || c = '\n' || c = '\r'

/-- Drops the blanks at the front. -/
def dropBlanks (s : List Char) : List Char := s.dropWhile isBlank

/-! ### Numbers -/

/-- Reads the integer part of a number. -/
def integer : Reader (List Char)
  | [] => .error (before .endInValue [])
  | '0' :: rest =>
    match rest with
    | c :: _ => if c.isDigit then .error (after .badNumber rest) else .ok (['0'], rest)
    | [] => .ok (['0'], rest)
  | c :: rest =>
    if c.isDigit then .ok (c :: rest.takeWhile Char.isDigit, rest.dropWhile Char.isDigit)
    else .error (past .badNumber (c :: rest))

/-- Reads an optional fraction. -/
def fraction : Reader (List Char)
  | '.' :: rest =>
    match rest with
    | [] => .error (before .endInValue [])
    | c :: _ =>
      if c.isDigit then
        .ok ('.' :: rest.takeWhile Char.isDigit, rest.dropWhile Char.isDigit)
      else .error (after .badNumber rest)
  | s => .ok ([], s)

/-- Reads an optional exponent and gives it a small `e` and a sign. -/
def exponent : Reader (List Char)
  | [] => .ok ([], [])
  | c :: rest =>
    if c = 'e' ∨ c = 'E' then
      let (sign, digits) := match rest with
        | '-' :: digits => ('-', digits)
        | '+' :: digits => ('+', digits)
        | digits => ('+', digits)
      match digits with
      | [] => .error (before .endInValue [])
      | d :: _ =>
        if d.isDigit then
          .ok ('e' :: sign :: digits.takeWhile Char.isDigit, digits.dropWhile Char.isDigit)
        else .error (past .badNumber digits)
    else .ok ([], c :: rest)

/-- Reads a number without its minus. -/
def unsigned : Reader (List Char) := fun s => do
  let (i, s) ← integer s
  let (f, s) ← fraction s
  let (e, s) ← exponent s
  return (i ++ f ++ e, s)

/-- Reads a number. -/
def number : Reader (List Char)
  | '-' :: rest => do
    let (digits, s) ← unsigned rest
    return ('-' :: digits, s)
  | s => unsigned s

/-- Reads a whole text as a number, without blanks around it. Where reading stops before the end,
the number is malformed at the next byte. -/
def wholeNumber (s : List Char) : Except Stop (List Char) :=
  match s with
  | [] => .error (before .endInValue [])
  | c :: _ =>
    if c = '-' ∨ c.isDigit then
      match number s with
      | .ok (digits, []) => .ok digits
      | .ok (_, rest) => .error (after .badNumber rest)
      | .error (.taken _ (left + 1)) => .error (.here .badNumber left)
      | .error stop => .error stop
    else .error (after .badNumber s)

/-- Reads the text of a string as a number. -/
def numberText (text : String) : Except Stop (List Char) :=
  (wholeNumber text.toList).mapError fun stop => .within (stop.fault text)

/-! ### Words and strings -/

/-- Reads the characters of a word. -/
def word : List Char → List Char → Except Stop (List Char)
  | [], s => .ok s
  | _ :: _, [] => .error (before .endInValue [])
  | e :: es, c :: s => if c = e then word es s else .error (after .unknownWord (c :: s))

/-- The value of a hexadecimal digit. -/
def hexDigit? (c : Char) : Option Nat :=
  if '0' ≤ c ∧ c ≤ '9' then some (c.toNat - '0'.toNat)
  else if 'a' ≤ c ∧ c ≤ 'f' then some (c.toNat - 'a'.toNat + 10)
  else if 'A' ≤ c ∧ c ≤ 'F' then some (c.toNat - 'A'.toNat + 10)
  else none

/-- The value of four hexadecimal digits. -/
def hex4? (a b c d : Char) : Option Nat := do
  let a ← hexDigit? a
  let b ← hexDigit? b
  let c ← hexDigit? c
  let d ← hexDigit? d
  return ((a * 16 + b) * 16 + c) * 16 + d

/-- Reads the four digits of an escape. They are four bytes, of whatever characters. -/
def codeUnit : Reader Nat := fun s =>
  let fault : Stop :=
    if Utf8.size s < 4 then before .endInString [] else .here .badEscape (Utf8.size s - 4)
  match s with
  | a :: b :: c :: d :: rest =>
    match hex4? a b c d with
    | some n => .ok (n, rest)
    | none => .error fault
  | _ => .error fault

/-- The character of a surrogate pair. -/
def ofSurrogates (lead trail : Nat) : Char :=
  Char.ofNat ((lead - 0xD800) * 0x400 + (trail - 0xDC00) + 0x10000)

/-- Reads the rest of an escape by number: a code unit, or two for a surrogate pair. -/
def unicodeEscape : Reader Char := fun s => do
  let (n, s) ← codeUnit s
  if 0xDC00 ≤ n ∧ n ≤ 0xDFFF then throw (before .loneSurrogate s)
  else if n < 0xD800 ∨ 0xDFFF < n then return (Char.ofNat n, s)
  else
    match s with
    | [] => throw (before .endInString [])
    | '\\' :: [] => throw (before .endInString [])
    | '\\' :: 'u' :: s => do
      let (m, s) ← codeUnit s
      if 0xDC00 ≤ m ∧ m ≤ 0xDFFF then return (ofSurrogates n m, s)
      else throw (before .loneSurrogate s)
    | '\\' :: s => throw (after .halfSurrogatePair s)
    | s => throw (after .halfSurrogatePair s)

/-- The character that a single letter after a backslash stands for. -/
def shortEscape? : Char → Option Char
  | '"' => some '"'
  | '\\' => some '\\'
  | '/' => some '/'
  | 'b' => some '\x08'
  | 'f' => some '\x0c'
  | 'n' => some '\n'
  | 'r' => some '\r'
  | 't' => some '\t'
  | _ => none

/-- Reads the rest of an escape. -/
def escape : Reader Char
  | [] => .error (before .endInString [])
  | 'u' :: rest => unicodeEscape rest
  | c :: rest =>
    match shortEscape? c with
    | some d => .ok (d, rest)
    | none => .error (after .badEscape (c :: rest))

/-- Reads a string after its opening quote, with at most `fuel` characters in it. -/
def characters : Nat → Reader (List Char)
  | 0, _ => .error (before .endInString [])
  | _ + 1, [] => .error (before .endInString [])
  | fuel + 1, c :: rest =>
    if c = '"' then .ok ([], rest)
    else if c = '\\' then do
      let (d, s) ← escape rest
      let (cs, s) ← characters fuel s
      return (d :: cs, s)
    else if c.toNat < 0x20 then .error (after .controlCharacter (c :: rest))
    else do
      let (cs, s) ← characters fuel rest
      return (c :: cs, s)

/-- Reads a string after its opening quote. -/
def string : Reader String := fun s => do
  let (cs, rest) ← characters (s.length + 1) s
  return (String.ofList cs, rest)

/-! ### Arrays and objects -/

/-- Reads the items of an array up to its end, of which there are at most `fuel`. -/
def items {α : Type} (item : Reader α) : Nat → Reader (List α)
  | 0, _ => .error (before .endInArray [])
  | fuel + 1, s => do
    let (v, s) ← item s
    match dropBlanks s with
    | [] => throw (before .endInArray [])
    | ']' :: s => return ([v], s)
    | ',' :: s =>
      match dropBlanks s with
      | [] => throw (before .endInValue [])
      | ']' :: s => throw (after .trailingComma (']' :: s))
      | s => do
        let (vs, s) ← items item fuel s
        return (v :: vs, s)
    | s => throw (after .arrayEndExpected s)

/-- Reads an array after its opening bracket. -/
def array {α : Type} (item : Reader α) : Reader (List α) := fun s =>
  match dropBlanks s with
  | [] => throw (before .endInArray [])
  | ']' :: s => return ([], s)
  | s => items item (s.length + 1) s

/-- Reads the colon after a member's name. -/
def colon (s : List Char) : Except Stop (List Char) :=
  match dropBlanks s with
  | [] => .error (before .endInObject [])
  | ':' :: s => .ok s
  | s => .error (after .colonExpected s)

/-- Reads the value of the member `name` and the members after it up to the end of the object;
there are at most `fuel`. -/
def members (item : Reader Json) : Nat → String → Reader Members
  | 0, _, _ => .error (before .endInObject [])
  | fuel + 1, name, s => do
    let s ← colon s
    let (v, s) ← item s
    match dropBlanks s with
    | [] => throw (before .endInObject [])
    | '\x7d' :: s => return ([(name, v)], s)
    | ',' :: s =>
      match dropBlanks s with
      | [] => throw (before .endInValue [])
      | '"' :: s => do
        let (next, s) ← string s
        let (ms, s) ← members item fuel next s
        return ((name, v) :: ms, s)
      | '\x7d' :: s => throw (after .trailingComma ('\x7d' :: s))
      | s => throw (after .nameExpected s)
    | s => throw (after .objectEndExpected s)

/-- What a misplaced number is: an integer, unless it is too large to be one or zero with a
minus. -/
def misplacedNumber (digits : List Char) : Misplaced :=
  match (String.ofList digits).toInt? with
  | some n =>
    if digits = ['-', '0'] then .number
    else if -0x8000000000000000 ≤ n ∧ n < 0x10000000000000000 then .integer n
    else .number
  | none => .number

/-- The reason for which a text does not begin with what is called for: what stands there, which
is read as far as it is a word, a number or a string. -/
def misplaced (expected : Expected) (s : List Char) : Stop :=
  let wrong (found : Misplaced) (rest : List Char) : Stop := before (.misplaced expected found) rest
  let wrongWord (letters : List Char) (found : Misplaced) (rest : List Char) : Stop :=
    match word letters rest with
    | .ok rest => wrong found rest
    | .error stop => stop
  match s with
  | [] => before .endInValue []
  | 'n' :: rest => wrongWord ['u', 'l', 'l'] .null rest
  | 't' :: rest => wrongWord ['r', 'u', 'e'] (.bool true) rest
  | 'f' :: rest => wrongWord ['a', 'l', 's', 'e'] (.bool false) rest
  | '"' :: rest =>
    match string rest with
    | .ok (text, rest) => wrong (.string text) rest
    | .error stop => stop
  | '[' :: _ => wrong .array s
  | '\x7b' :: _ => wrong .object s
  | c :: _ =>
    if c = '-' ∨ c.isDigit then
      match number s with
      | .ok (digits, rest) => wrong (misplacedNumber digits) rest
      | .error stop => stop
    else after .valueExpected s

/-- Reads the rest of an object that stands for a number, after the name of its member. -/
def numberObject : Reader Json := fun s => do
  let s ← colon s
  match dropBlanks s with
  | '"' :: s => do
    let (text, s) ← string s
    let digits ← numberText text
    match dropBlanks s with
    | '\x7d' :: s => return (.num (String.ofList digits), s)
    | [] => throw (before .endInObject [])
    | ',' :: s => throw (after .trailingComma (',' :: s))
    | s => throw (after .trailingText s)
  | s => throw (misplaced .numberText s)

/-- Reads an object after its opening brace. -/
def object (item : Reader Json) : Reader Json := fun s =>
  match dropBlanks s with
  | [] => throw (before .endInObject [])
  | '\x7d' :: s => return (.obj [], s)
  | '"' :: s => do
    let (name, s) ← string s
    if name = numberName then numberObject s
    else do
      let (ms, s) ← members item (s.length + 1) name s
      return (.obj (Members.ofList ms), s)
  | s => throw (after .nameExpected s)

/-- Reads a value in which arrays and objects are nested at most `depth` deep. -/
def value (depth : Nat) (s : List Char) : Except Stop (Json × List Char) :=
  match dropBlanks s with
  | [] => throw (before .endInValue [])
  | 'n' :: s => do
    let s ← word ['u', 'l', 'l'] s
    return (.null, s)
  | 't' :: s => do
    let s ← word ['r', 'u', 'e'] s
    return (.bool true, s)
  | 'f' :: s => do
    let s ← word ['a', 'l', 's', 'e'] s
    return (.bool false, s)
  | '"' :: s => do
    let (text, s) ← string s
    return (.str text, s)
  | '[' :: s =>
    match depth with
    | 0 => throw (after .nestedTooDeep ('[' :: s))
    | depth + 1 => do
      let (vs, s) ← array (value depth) s
      return (.arr vs, s)
  | '\x7b' :: s =>
    match depth with
    | 0 => throw (after .nestedTooDeep ('\x7b' :: s))
    | depth + 1 => object (value depth) s
  | c :: s =>
    if c = '-' ∨ c.isDigit then do
      let (digits, s) ← number (c :: s)
      return (.num (String.ofList digits), s)
    else throw (after .valueExpected (c :: s))

/-! ### Whole texts -/

/-- Reads a string, with blanks before it. -/
def stringItem : Reader String := fun s =>
  match dropBlanks s with
  | '"' :: s => string s
  | s => throw (misplaced .string s)

/-- Reads an array of strings. -/
def strings : Reader (List String) := fun s =>
  match dropBlanks s with
  | '[' :: s => array stringItem s
  | s => throw (misplaced .strings s)

/-- Reads a part of which a text consists, with blanks around it. -/
def whole {α : Type} (part : Reader α) (text : String) : Except Fault α :=
  Except.mapError (Stop.fault text) do
    let (v, rest) ← part text.toList
    match dropBlanks rest with
    | [] => return v
    | rest => throw (after .trailingText rest)

end Parser

/-- Reads a JSON text. -/
def parse (text : String) : Except Fault Json := Parser.whole (Parser.value maxDepth) text

/-- Reads a JSON text that has to be an array of strings. -/
def parseStrings (text : String) : Except Fault (List String) := Parser.whole Parser.strings text

end Signet.Json
