import Signet.Text.Utf8

/-!
Base64 in the URL-safe alphabet.

* `Base64.encode` writes bytes without padding.
* `Base64.decode` reads symbols back. Padding may be there, partly there or
  missing, but only at the end and only as much as would fill the last group
  of four; a lone last symbol and set bits beyond the last whole byte are
  refused.
* `Base64.Fault` is the reason for a refusal.
-/

namespace Signet.Base64

/-- A value of six bits. -/
abbrev Sextet := Fin 64

/-- Why a text is no base64. -/
inductive Fault where
  /-- A byte at an offset is outside the alphabet, or is padding out of place. -/
  | invalidByte (offset : Nat) (byte : UInt8)
  /-- One symbol is left over after the groups of four. -/
  | invalidLength
  /-- The last symbol, at an offset, has bits set that belong to no byte. -/
  | invalidLastSymbol (offset : Nat) (byte : UInt8)
  deriving DecidableEq, Repr

/-! ### The alphabet -/

/-- The padding byte, an equals sign. -/
def padding : UInt8 := 0x3D

/-- The symbol of a value: capital letters, small letters, digits, `-` and `_`. -/
def symbol (v : Sextet) : UInt8 :=
  if v.val < 26 then UInt8.ofNat (0x41 + v.val)
  else if v.val < 52 then UInt8.ofNat (0x61 + (v.val - 26))
  else if v.val < 62 then UInt8.ofNat (0x30 + (v.val - 52))
  else if v.val = 62 then 0x2D
  else 0x5F

/-- The value of a symbol. -/
def value? (b : UInt8) : Option Sextet :=
  if 0x41 ≤ b ∧ b ≤ 0x5A then some (Fin.ofNat 64 (b.toNat - 0x41))
  else if 0x61 ≤ b ∧ b ≤ 0x7A then some (Fin.ofNat 64 (b.toNat - 0x61 + 26))
  else if 0x30 ≤ b ∧ b ≤ 0x39 then some (Fin.ofNat 64 (b.toNat - 0x30 + 52))
  else if b = 0x2D then some 62
  else if b = 0x5F then some 63
  else none

/-- The alphabet is read as it is written. -/
theorem value?_symbol : ∀ v : Sextet, value? (symbol v) = some v := by decide

/-! ### Bytes and sextets -/

/-- The sextets of a byte string: four for three bytes, and two or three for a rest of one or
two. -/
def sextets : Bytes → List Sextet
  | [] => []
  | [a] => [Fin.ofNat 64 (a.toNat / 4), Fin.ofNat 64 (a.toNat % 4 * 16)]
  | [a, b] =>
    [Fin.ofNat 64 (a.toNat / 4), Fin.ofNat 64 (a.toNat % 4 * 16 + b.toNat / 16),
      Fin.ofNat 64 (b.toNat % 16 * 4)]
  | a :: b :: c :: rest =>
    Fin.ofNat 64 (a.toNat / 4) :: Fin.ofNat 64 (a.toNat % 4 * 16 + b.toNat / 16)
      :: Fin.ofNat 64 (b.toNat % 16 * 4 + c.toNat / 64) :: Fin.ofNat 64 (c.toNat % 64)
      :: sextets rest

/-- The byte string of which these are the sextets; `none` if there is none, because one
sextet is left over or the last one has bits set that belong to no byte. -/
def octets? : List Sextet → Option Bytes
  | [] => some []
  | [_] => none
  | [x, y] => if y.val % 16 = 0 then some [UInt8.ofNat (x.val * 4 + y.val / 16)] else none
  | [x, y, z] =>
    if z.val % 4 = 0 then
      some [UInt8.ofNat (x.val * 4 + y.val / 16), UInt8.ofNat (y.val % 16 * 16 + z.val / 4)]
    else none
  | x :: y :: z :: w :: rest =>
    (octets? rest).map fun bs =>
      UInt8.ofNat (x.val * 4 + y.val / 16) :: UInt8.ofNat (y.val % 16 * 16 + z.val / 4)
        :: UInt8.ofNat (z.val % 4 * 64 + w.val) :: bs

/-! ### Texts -/

/-- The symbols of a byte string, as bytes. -/
def encodeBytes (bs : Bytes) : Bytes := (sextets bs).map symbol

/-- The text of a byte string. -/
def encode (bs : Bytes) : String :=
  String.ofList ((encodeBytes bs).map fun b => Char.ofNat b.toNat)

/-- The values of the symbols from an offset on, where `pad` is the offset of the first padding
seen so far. Padding has to stand third or fourth in its group of four, and only padding may
follow it. -/
def values (offset : Nat) (pad : Option Nat) : Bytes → Except Fault (List Sextet)
  | [] => .ok []
  | b :: bs =>
    if b = padding then
      if offset % 4 < 2 then .error (.invalidByte (pad.getD offset) b)
      else values (offset + 1) (some (pad.getD offset)) bs
    else
      match pad, value? b with
      | some first, _ => .error (.invalidByte first padding)
      | none, none => .error (.invalidByte offset b)
      | none, some v => do
        let vs ← values (offset + 1) none bs
        return v :: vs

/-- Reads base64 given as bytes. -/
def decodeBytes (text : Bytes) : Except Fault Bytes := do
  if text.length % 4 = 1 then
    match text.getLast? with
    | some b =>
      if b ≠ padding ∧ value? b = none then throw (.invalidByte (text.length - 1) b)
      else throw .invalidLength
    | none => throw .invalidLength
  let vs ← values 0 none text
  match octets? vs with
  | some bs => return bs
  | none => throw (.invalidLastSymbol (vs.length - 1) (text.getD (vs.length - 1) 0))

/-- Reads base64 text. -/
def decode (text : String) : Except Fault Bytes := decodeBytes (Utf8.encode text)

end Signet.Base64
