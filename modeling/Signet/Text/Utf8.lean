import Signet.Bytes

/-!
Text as bytes in UTF-8.

* `Utf8.encode` writes a string as bytes, `Utf8.decode` reads bytes as a string.
* `Utf8.Fault` tells where bytes stop being UTF-8: the length of the longest
  valid part at the front, and how many bytes after it are wrong together.
  Nothing is said about their number where the bytes end inside a character.
-/

namespace Signet.Utf8

/-- Where and how bytes fail to be UTF-8. -/
structure Fault where
  /-- The number of bytes at the front that are whole characters. -/
  validUpTo : Nat
  /-- The number of bytes after them that belong to no character, or `none` if the bytes end
  inside a character. -/
  wrong : Option Nat
  deriving DecidableEq, Repr

/-- The bytes of a string. -/
def encode (s : String) : Bytes := s.toList.flatMap String.utf8EncodeChar

/-- The number of bytes of a list of characters. -/
def size : List Char → Nat
  | [] => 0
  | c :: rest => c.utf8Size + size rest

/-- The range of each byte that has to follow a first byte; `none` if no character begins with
that byte. The bounds on the second byte exclude characters written longer than need be, the
surrogates, and what lies beyond the last code point. -/
def followers (first : UInt8) : Option (List (UInt8 × UInt8)) :=
  if first ≤ 0x7F then some []
  else if first < 0xC2 then none
  else if first ≤ 0xDF then some [(0x80, 0xBF)]
  else if first = 0xE0 then some [(0xA0, 0xBF), (0x80, 0xBF)]
  else if first = 0xED then some [(0x80, 0x9F), (0x80, 0xBF)]
  else if first ≤ 0xEF then some [(0x80, 0xBF), (0x80, 0xBF)]
  else if first = 0xF0 then some [(0x90, 0xBF), (0x80, 0xBF), (0x80, 0xBF)]
  else if first ≤ 0xF3 then some [(0x80, 0xBF), (0x80, 0xBF), (0x80, 0xBF)]
  else if first = 0xF4 then some [(0x80, 0x8F), (0x80, 0xBF), (0x80, 0xBF)]
  else none

/-- The first fault after a character that begins at offset `start`, of which `seen` bytes are
read and `expected` are to come. -/
def scan (start seen : Nat) : List (UInt8 × UInt8) → Bytes → Option Fault
  | [], [] => none
  | _ :: _, [] => some ⟨start, none⟩
  | [], b :: bs =>
    match followers b with
    | none => some ⟨start + seen, some 1⟩
    | some expected => scan (start + seen) 1 expected bs
  | (low, high) :: expected, b :: bs =>
    if low ≤ b ∧ b ≤ high then scan start (seen + 1) expected bs else some ⟨start, some seen⟩

/-- The first fault of a byte string. -/
def firstFault (bs : Bytes) : Option Fault := scan 0 0 [] bs

/-- Reads bytes as text. -/
def decode (bs : Bytes) : Except Fault String :=
  match String.fromUTF8? bs.toByteArray with
  | some s => .ok s
  | none => .error ((firstFault bs).getD ⟨bs.length, none⟩)

end Signet.Utf8
