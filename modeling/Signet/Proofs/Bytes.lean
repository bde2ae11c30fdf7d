import Mathlib.Tactic
import Signet.Bytes

/-!
Numbers as byte strings of fixed length.

* Least significant byte first: `toNatLE_lt`, `toNatLE_injective` and `toNatLE_ofNatLE`, by
  induction on the bytes. Most significant byte first they follow by reversal.
* `ofNatBE_injective`: numbers that fit are determined by their bytes.
-/

namespace Signet.Bytes

lemma toNatLE_lt (bs : Bytes) : toNatLE bs < 256 ^ bs.length := by
  induction bs with
  | nil => exact Nat.one_pos
  | cons b bs ih =>
      have hb := b.toNat_lt
      rw [toNatLE, List.length_cons, pow_succ]
      omega

lemma toNatLE_injective {a b : Bytes} (hlength : a.length = b.length)
    (h : toNatLE a = toNatLE b) : a = b := by
  induction a generalizing b with
  | nil => exact (List.eq_nil_of_length_eq_zero hlength.symm).symm
  | cons x a ih =>
      cases b with
      | nil => cases hlength
      | cons y b =>
          have hx := x.toNat_lt
          have hy := y.toNat_lt
          rw [toNatLE, toNatLE] at h
          have hfirst : x = y := UInt8.toNat_inj.mp (by omega)
          rw [hfirst, ih (Nat.succ.inj hlength) (by omega)]

lemma toNatLE_ofNatLE (n x : ℕ) : toNatLE (ofNatLE n x) = x % 256 ^ n := by
  induction n generalizing x with
  | zero => exact (Nat.mod_one x).symm
  | succ n ih =>
      calc toNatLE (ofNatLE (n + 1) x)
          = x % 256 + 256 * (x / 256 % 256 ^ n) := by rw [ofNatLE, toNatLE, ih, UInt8.toNat_ofNat']
        _ = x % (256 * 256 ^ n) := (Nat.mod_mul).symm
        _ = x % 256 ^ (n + 1) := by rw [pow_succ']

lemma toNatBE_lt (bs : Bytes) : toNatBE bs < 256 ^ bs.length := by
  rw [← List.length_reverse]
  exact toNatLE_lt bs.reverse

lemma toNatBE_injective {a b : Bytes} (hlength : a.length = b.length)
    (h : toNatBE a = toNatBE b) : a = b := by
  refine List.reverse_injective (toNatLE_injective ?_ h)
  rw [List.length_reverse, List.length_reverse, hlength]

lemma toNatBE_ofNatBE (n x : ℕ) : toNatBE (ofNatBE n x) = x % 256 ^ n := by
  rw [toNatBE, ofNatBE, List.reverse_reverse, toNatLE_ofNatLE]

/-- Numbers that fit into so many bytes are determined by them. -/
lemma ofNatBE_injective {n x y : ℕ} (hx : x < 256 ^ n) (hy : y < 256 ^ n)
    (h : ofNatBE n x = ofNatBE n y) : x = y := by
  rw [← Nat.mod_eq_of_lt hx, ← Nat.mod_eq_of_lt hy, ← toNatBE_ofNatBE, h, toNatBE_ofNatBE]

end Signet.Bytes
