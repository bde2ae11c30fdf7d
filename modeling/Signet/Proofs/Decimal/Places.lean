import Mathlib.Tactic
import Signet.Proofs.Decimal.Neighbours

/-!
Where the point stands among the shortest digits of a number.

* `near_value_digits`, `Holds.le_exponent_digits`: what the digits say is rounded to the number,
  and nothing shorter is.
* `Digits.length_add_le_iff`: the places before the point tell below which powers of ten the
  digits stay.
* `Holds.value_digits_lt_iff`: the digits stay below a power of ten just if the number does,
  though they say something else. This needs that the power is rounded upwards, and that it is
  what the digits of the number it is rounded to say.
* `Holds.exponent_digits_nonneg_iff`: no digit stands behind the point just if the number is whole.
-/
namespace Signet

namespace Shortest

/-- What digits say. -/
def Digits.value (d : Digits) : ℚ := d.count * 10 ^ d.exponent

/-- The places before the point tell below which powers of ten digits stay. -/
lemma Digits.length_add_le_iff {d : Digits} (hcount : 0 < d.count) (k : ℤ) :
    (Nat.toDigits 10 d.count).length + d.exponent ≤ k ↔ d.value < 10 ^ k := by
  have hpos : (0 : ℚ) < 10 ^ d.exponent := by positivity
  have hvalue : d.value < 10 ^ k ↔ (d.count : ℚ) < 10 ^ (k - d.exponent) := by
    rw [Digits.value, ← lt_div_iff₀ hpos, zpow_sub₀ (by norm_num)]
  have hlength : 0 < (Nat.toDigits 10 d.count).length :=
    List.length_pos_of_ne_nil Nat.toDigits_ne_nil
  rw [hvalue]
  by_cases hk : k ≤ d.exponent
  · -- There is no room for a digit.
    have hone : (1 : ℚ) ≤ d.count := by exact_mod_cast hcount
    have hle : (10 : ℚ) ^ (k - d.exponent) ≤ 1 :=
      zpow_le_one_of_nonpos₀ (by norm_num) (by omega)
    exact ⟨fun h => by omega, fun h => absurd (hle.trans hone) (not_le.mpr h)⟩
  · obtain ⟨n, hn⟩ : ∃ n : ℕ, k - d.exponent = n := ⟨(k - d.exponent).toNat, by omega⟩
    have hplaces : (Nat.toDigits 10 d.count).length + d.exponent ≤ k
        ↔ (Nat.toDigits 10 d.count).length ≤ n := by omega
    rw [hplaces, Nat.length_toDigits_le_iff (by norm_num) (by omega), hn, zpow_natCast]
    exact_mod_cast Iff.rfl

end Shortest

namespace BinaryFormat

open Binary Shortest

variable {fmt : BinaryFormat} {tie : Tie} {m m' : ℕ} {e e' : ℤ} {q : ℚ}

/-- What the digits of a magnitude say is rounded to it. -/
lemma near_value_digits (hm : 0 < m) : fmt.Near m e (digits fmt tie m e).value :=
  (roundsTo_iff_near hm).mp (roundsTo_digits hm)

/-- **The digits of a magnitude are the shortest**: nothing with a greater power of ten is rounded
to it. -/
theorem Holds.le_exponent_digits (hx : fmt.Holds m e) {count : ℕ} {ten : ℤ}
    (h : fmt.Near m e (count * 10 ^ ten)) : ten ≤ (digits fmt tie m e).exponent :=
  Shortest.le_exponent_digits hx.positive ((roundsTo_iff_near hx.positive).mpr h)

/-! ### Powers of ten -/

/-- **The digits of a magnitude stay below a power of ten just if it does**, if the magnitude that
the power is rounded to is not below it and has its digits. -/
theorem Holds.value_digits_lt_iff (hfmt : fmt.Regular) (hx : fmt.Holds m e)
    (hy : fmt.Holds m' e') {k : ℤ} (hle : (10 : ℚ) ^ k ≤ m' * 2 ^ e')
    (hdigits : digits fmt tie m' e' = ⟨1, k⟩) :
    (digits fmt tie m e).value < 10 ^ k ↔ (m * 2 ^ e : ℚ) < 10 ^ k := by
  have hvalue : (digits fmt tie m' e').value = 10 ^ k := by
    rw [hdigits, Digits.value, Nat.cast_one, one_mul]
  have hsaid : fmt.Near m e (digits fmt tie m e).value := near_value_digits hx.positive
  have hpower : fmt.Near m' e' (10 ^ k) := hvalue ▸ near_value_digits hy.positive
  constructor
  · intro hlt
    by_contra hge
    rw [not_lt] at hge
    -- The magnitude is the one that the power is rounded to, and has its digits.
    have heq : (m * 2 ^ e : ℚ) = m' * 2 ^ e' :=
      le_antisymm (hsaid.le_of_le hfmt hx hy hpower hlt.le)
        (hpower.le_of_le hfmt hy hx (near_self fmt m e) hge)
    obtain ⟨rfl, rfl⟩ := (near_self fmt m e).unique hfmt hx hy (heq ▸ near_self fmt m' e')
    exact absurd hvalue hlt.ne
  · intro hlt
    by_contra hge
    rw [not_lt] at hge
    exact absurd (hlt.trans_le hle) (not_lt.mpr (hpower.le_of_le hfmt hy hx hsaid hge))

/-! ### Whole numbers -/

/-- A whole number near a magnitude with places behind the point is the magnitude. -/
lemma Near.eq_of_nat {n : ℕ} (he : e ≤ 0) (h : fmt.Near m e n) : (m * 2 ^ e : ℚ) = n := by
  obtain ⟨k, rfl⟩ : ∃ k : ℕ, e = -(k : ℤ) := ⟨(-e).toNat, by omega⟩
  have hgap : (gapBelow fmt m (-k) : ℚ) ≤ 2 := by exact_mod_cast (gapBelow_mem fmt m (-k)).2
  have hlow := h.low
  have hhigh := h.high
  rw [neg_neg, zpow_natCast] at hlow hhigh
  have hle : (m : ℚ) < (n * 2 ^ k : ℕ) + 1 := by
    push_cast
    linarith
  have hge : ((n * 2 ^ k : ℕ) : ℚ) < m + 1 := by
    push_cast
    linarith
  have hm : m = n * 2 ^ k := by
    have hle' : m < n * 2 ^ k + 1 := by exact_mod_cast hle
    have hge' : n * 2 ^ k < m + 1 := by exact_mod_cast hge
    omega
  rw [hm, Nat.cast_mul, Nat.cast_pow, Nat.cast_ofNat, mul_assoc, ← zpow_natCast,
    ← zpow_add₀ (by norm_num), add_neg_cancel, zpow_zero, mul_one]

/-- **No digit stands behind the point just if a magnitude is whole.** -/
theorem Holds.exponent_digits_nonneg_iff (hx : fmt.Holds m e) (he : e ≤ 0) :
    0 ≤ (digits fmt tie m e).exponent ↔ ∃ n : ℕ, (m * 2 ^ e : ℚ) = n := by
  constructor
  · intro h
    obtain ⟨k, hk⟩ := Int.eq_ofNat_of_zero_le h
    have hnear : fmt.Near m e (digits fmt tie m e).value := near_value_digits hx.positive
    have hvalue : (digits fmt tie m e).value
        = ((digits fmt tie m e).count * 10 ^ k : ℕ) := by
      rw [Digits.value, hk, zpow_natCast]
      push_cast
      rfl
    rw [hvalue] at hnear
    exact ⟨_, hnear.eq_of_nat he⟩
  · rintro ⟨n, h⟩
    refine @Holds.le_exponent_digits _ _ _ _ hx n 0 ?_
    rw [zpow_zero, mul_one, ← h]
    exact near_self fmt m e

end BinaryFormat

end Signet
