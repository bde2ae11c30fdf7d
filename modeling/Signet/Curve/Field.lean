import Signet.Bytes

/-!
The prime field of both curves.

* `Curve.prime` is `2^255 - 19`; `Curve.Element` are the residues, with the
  usual operations, `Element.pow` and `Element.inv`.
* `Element.ofBytes` reads 32 bytes, of which the last bit is not looked at;
  values from the prime on are reduced. `Element.toBytes` writes the residue.
-/

namespace Signet.Curve

/-- The number of elements. -/
def prime : Nat := Nat.pow 2 255 - 19

instance : @NeZero Nat Zero.ofOfNat0 prime := ⟨by decide⟩

/-- An element of the field. -/
abbrev Element := Fin prime

/-- The last `count` binary digits of a number, most significant first. -/
def bits (count n : Nat) : List Bool := (List.range count).reverse.map n.testBit

namespace Element

/-- The residue of a number. -/
def ofNat (n : Nat) : Element := Fin.ofNat prime n

/-- A power, for exponents below `2^255`. -/
def pow (x : Element) (n : Nat) : Element :=
  (bits 255 n).foldl (fun y bit => if bit then y * y * x else y * y) 1

/-- The inverse; zero for zero. -/
def inv (x : Element) : Element := x.pow (prime - 2)

/-- Reads 32 bytes, the least significant first. -/
def ofBytes (bs : FixedBytes 32) : Element := ofNat (Bytes.toNatLE bs.toList % Nat.pow 2 255)

/-- Writes 32 bytes, the least significant first. -/
def toBytes (x : Element) : FixedBytes 32 := FixedBytes.ofNatLE 32 x.val

end Element

end Signet.Curve
