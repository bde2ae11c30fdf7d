import Signet.Cipher.Block

/-!
The field of 2^128 elements in which Galois/counter mode hashes.

* `Gf128` is a polynomial over two elements of degree below 128; the first bit
  is the constant term, and addition is `^^^`.
* `Gf128.mul` multiplies modulo `x^128 + x^7 + x^2 + x + 1`.
-/

namespace Signet

/-- A polynomial of degree below 128 over the field of two elements, constant term first. -/
abbrev Gf128 := BitVec 128

namespace Gf128

/-- The polynomial that a block spells. -/
def ofBlock (b : Block) : Gf128 := BitVec.ofNat 128 (Bytes.toNatBE b.toList)

/-- The block that spells a polynomial. -/
def toBlock (x : Gf128) : Block := FixedBytes.ofNatBE 16 x.toNat

/-- What `x^128` reduces to. -/
def reduction : Gf128 := 0xE1000000000000000000000000000000#128

/-- Multiplies by `x`. -/
def timesX (v : Gf128) : Gf128 := v >>> 1 ^^^ if v.getLsbD 0 then reduction else 0#128

/-- The sum of `v`, `x v`, `x^2 v`, … over the places where a bit is set. -/
def mulBits : List Bool → Gf128 → Gf128
  | [], _ => 0#128
  | bit :: bits, v => (if bit then v else 0#128) ^^^ mulBits bits (timesX v)

/-- The coefficients of a polynomial, constant term first. -/
def coefficients (x : Gf128) : List Bool := (List.range 128).map x.getMsbD

/-- Multiplies two elements of the field. -/
def mul (x y : Gf128) : Gf128 := mulBits (coefficients x) y

end Gf128

end Signet
