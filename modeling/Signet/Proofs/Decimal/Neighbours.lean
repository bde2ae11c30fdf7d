import Mathlib.Tactic
import Signet.Decimal.Text
import Signet.Proofs.Decimal.Rounding

/-!
Numbers of a format and their neighbours.

* **Numbers.** `Binary.value` and `Decimal.value` are what numbers are worth. `Contains` are the
  finite numbers of a format, and `IsNearest` says which of them a value is rounded to.
* **Neighbours.** `Holds.add_two_zpow_le` and `Holds.add_gapBelow_le`: a greater magnitude is
  further away by a last place of the smaller one, and by the gap below the greater one.
  `Holds.isMagnitude_sub` and `Holds.isMagnitude_add`: there are magnitudes just that far away.
* **The middle between two numbers.** What is near a magnitude lies on its side of the middle
  (`Near.two_mul_le`, `Near.le_two_mul`), so that no magnitude is nearer (`Near.abs_sub_le`). What
  no magnitude is nearer to is near (`near_of_abs_sub_le`).
* **Order.** `Near.le_of_le`: of two values the greater one is not rounded to the smaller magnitude.
-/
namespace Signet

/-! ### Numbers -/

/-- A magnitude with a sign. -/
def signed (negative : Bool) (q : ℚ) : ℚ := if negative then -q else q

/-- What a binary number is worth. -/
def Binary.value (x : Binary) : ℚ := signed x.negative (x.mantissa * 2 ^ x.exponent)

/-- What a decimal number is worth. -/
def Decimal.value (d : Decimal) : ℚ := signed d.negative (d.coefficient * 10 ^ d.exponent)

lemma abs_signed (negative : Bool) {q : ℚ} (hq : 0 ≤ q) : |signed negative q| = q := by
  cases negative
  · exact abs_of_nonneg hq
  · rw [signed, if_pos rfl, abs_neg, abs_of_nonneg hq]

lemma abs_signed_sub_signed (negative : Bool) (q r : ℚ) :
    |signed negative q - signed negative r| = |q - r| := by
  cases negative
  · rfl
  · rw [signed, signed, if_pos rfl, if_pos rfl, ← abs_neg]
    congr 1
    ring

namespace BinaryFormat

open Binary Shortest

/-- A format in which a mantissa has several bits and the range is not empty. -/
structure Regular (fmt : BinaryFormat) : Prop where
  /-- A mantissa has several bits. -/
  one_lt : 1 < fmt.precision
  /-- The smallest numbers are in the range. -/
  range : fmt.minExponent + fmt.precision ≤ fmt.maxExponent

/-- The least magnitude that is not rounded to a finite number: halfway from the greatest one to
the power of two behind it. -/
def overflow (fmt : BinaryFormat) : ℚ :=
  2 ^ fmt.maxExponent - 2 ^ (fmt.maxExponent - fmt.precision - 1)

/-- A finite number of a format, in its one spelling. -/
inductive Contains (fmt : BinaryFormat) : Binary → Prop
  | zero (negative : Bool) : Contains fmt ⟨negative, 0, fmt.minExponent⟩
  | holds {x : Binary} (holds : fmt.Holds x.mantissa x.exponent) : Contains fmt x

/-- No number of a format is nearer to a value, and if two are nearest, the mantissa is even. -/
structure IsNearest (fmt : BinaryFormat) (x : Binary) (v : ℚ) : Prop where
  /-- The number is one of the format. -/
  contains : fmt.Contains x
  /-- No other one is nearer. -/
  nearest : ∀ y, fmt.Contains y → |v - x.value| ≤ |v - y.value|
  /-- If the mantissa is odd, no other one is as near. -/
  odd : x.mantissa % 2 = 1 → ∀ y, fmt.Contains y → y.value ≠ x.value →
    |v - x.value| < |v - y.value|

variable {fmt : BinaryFormat} {negative : Bool} {m m' num den : ℕ} {e e' : ℤ} {q r : ℚ}

/-- Zero or the magnitude of a number of a format. -/
inductive IsMagnitude (fmt : BinaryFormat) : ℚ → Prop
  | zero : IsMagnitude fmt 0
  | holds {m : ℕ} {e : ℤ} (holds : fmt.Holds m e) : IsMagnitude fmt (m * 2 ^ e)

lemma IsMagnitude.nonneg (h : fmt.IsMagnitude r) : 0 ≤ r := by
  cases h with
  | zero => exact le_rfl
  | holds => positivity

/-- A number of a format has a magnitude. -/
lemma Contains.exists_magnitude {y : Binary} (h : fmt.Contains y) :
    ∃ r, fmt.IsMagnitude r ∧ y.value = signed y.negative r := by
  cases h with
  | zero negative => exact ⟨0, .zero, by rw [Binary.value, Nat.cast_zero, zero_mul]⟩
  | holds holds => exact ⟨_, .holds holds, rfl⟩

/-- There is a number of a format with a given magnitude and sign. -/
lemma IsMagnitude.exists_contains (h : fmt.IsMagnitude r) (negative : Bool) :
    ∃ y, fmt.Contains y ∧ y.value = signed negative r := by
  cases h with
  | zero => exact ⟨_, .zero negative, by rw [Binary.value, Nat.cast_zero, zero_mul]⟩
  | @holds m e holds => exact ⟨⟨negative, m, e⟩, .holds holds, rfl⟩

lemma signed_injective (negative : Bool) : Function.Injective (signed negative) := by
  intro q r h
  cases negative
  · exact h
  · exact neg_injective h

/-- What is nearest among the numbers is nearest among the magnitudes. -/
lemma IsNearest.abs_sub_le {x : Binary} (h : fmt.IsNearest x (signed x.negative q))
    (hvalue : x.value = signed x.negative r) :
    (∀ s, fmt.IsMagnitude s → |q - r| ≤ |q - s|)
      ∧ (x.mantissa % 2 = 1 → ∀ s, fmt.IsMagnitude s → s ≠ r → |q - r| < |q - s|) := by
  constructor
  · intro s hs
    obtain ⟨y, hy, hyvalue⟩ := hs.exists_contains x.negative
    have hle := h.nearest y hy
    rwa [hvalue, hyvalue, abs_signed_sub_signed, abs_signed_sub_signed] at hle
  · intro hm s hs hne
    obtain ⟨y, hy, hyvalue⟩ := hs.exists_contains x.negative
    have hlt := h.odd hm y hy (by
      rw [hvalue, hyvalue]
      exact fun heq => hne (signed_injective _ heq))
    rwa [hvalue, hyvalue, abs_signed_sub_signed, abs_signed_sub_signed] at hlt

/-! ### Neighbours -/

lemma mul_two_zpow_add (m : ℕ) (e : ℤ) (k : ℕ) :
    (m : ℚ) * 2 ^ (e + k) = (m * 2 ^ k : ℕ) * 2 ^ e := by
  rw [← two_zpow_mul_pow]
  push_cast
  ring

/-- A greater magnitude has no smaller exponent. -/
lemma Holds.exponent_le (hfmt : fmt.Regular) (hx : fmt.Holds m e) (hy : fmt.Holds m' e')
    (h : (m' * 2 ^ e' : ℚ) < m * 2 ^ e) : e' ≤ e := by
  by_contra hlt
  obtain ⟨k, rfl⟩ : ∃ k : ℕ, e' = e + (k + 1 : ℕ) := ⟨(e' - e - 1).toNat, by omega⟩
  have hfull := hy.full (hx.minExponent_le.trans_lt (by omega))
  have hm : m ≤ m' * 2 ^ (k + 1) := by
    calc m ≤ 2 ^ fmt.precision := hx.lt.le
      _ = 2 ^ (fmt.precision - 1) * 2 := by
        rw [← pow_succ, Nat.sub_add_cancel hfmt.one_lt.le]
      _ ≤ m' * 2 ^ (k + 1) := Nat.mul_le_mul hfull (Nat.le_self_pow (Nat.succ_ne_zero k) 2)
  rw [mul_two_zpow_add] at h
  have hle : (m : ℚ) * 2 ^ e ≤ (m' * 2 ^ (k + 1) : ℕ) * 2 ^ e :=
    mul_le_mul_of_nonneg_right (by exact_mod_cast hm) (by positivity)
  exact absurd h (not_lt.mpr hle)

/-- A greater magnitude is further away by a last place of the smaller one. -/
lemma Holds.add_two_zpow_le (hfmt : fmt.Regular) (hx : fmt.Holds m e) (hy : fmt.Holds m' e')
    (h : (m' * 2 ^ e' : ℚ) < m * 2 ^ e) : (m' * 2 ^ e' + 2 ^ e' : ℚ) ≤ m * 2 ^ e := by
  have hexponent := hx.exponent_le hfmt hy h
  obtain ⟨k, rfl⟩ : ∃ k : ℕ, e = e' + k := ⟨(e - e').toNat, by omega⟩
  have hpos : (0 : ℚ) < 2 ^ e' := by positivity
  rw [mul_two_zpow_add] at h ⊢
  have hlt : m' + 1 ≤ m * 2 ^ k := by
    have := lt_of_mul_lt_mul_right h hpos.le
    exact_mod_cast this
  calc (m' * 2 ^ e' + 2 ^ e' : ℚ) = (m' + 1 : ℕ) * 2 ^ e' := by push_cast; ring
    _ ≤ (m * 2 ^ k : ℕ) * 2 ^ e' := mul_le_mul_of_nonneg_right (by exact_mod_cast hlt) hpos.le

/-- A smaller magnitude is further away by the gap below the greater one. -/
lemma Holds.add_gapBelow_le (hfmt : fmt.Regular) (hx : fmt.Holds m e) (hy : fmt.Holds m' e')
    (h : (m' * 2 ^ e' : ℚ) < m * 2 ^ e) :
    (2 * (m' * 2 ^ e') + gapBelow fmt m e * 2 ^ e : ℚ) ≤ 2 * (m * 2 ^ e) := by
  have hmin := hy.minExponent_le
  have hgap := (gapBelow_mem fmt m e).2
  have hexponent := hx.exponent_le hfmt hy h
  obtain ⟨k, rfl⟩ : ∃ k : ℕ, e = e' + k := ⟨(e - e').toNat, by omega⟩
  have hpos : (0 : ℚ) < 2 ^ e' := by positivity
  rw [mul_two_zpow_add] at h
  have hlt : m' + 1 ≤ m * 2 ^ k := by
    have := lt_of_mul_lt_mul_right h hpos.le
    exact_mod_cast this
  have hnat : 2 * m' + gapBelow fmt m (e' + k) * 2 ^ k ≤ 2 * (m * 2 ^ k) := by
    rcases Nat.eq_zero_or_pos k with rfl | hk
    · omega
    · -- The smaller magnitude stands on a finer grid, below the next power of two.
      have hfull := hx.full (by omega)
      have hm' : m' + 1 ≤ 2 * 2 ^ (fmt.precision - 1) := by
        rw [← pow_succ', Nat.sub_add_cancel hfmt.one_lt.le]
        exact hy.lt
      have htwo : 2 ≤ 2 ^ k := Nat.le_self_pow hk.ne' 2
      by_cases hpower : m = 2 ^ (fmt.precision - 1)
      · have hone : gapBelow fmt m (e' + k) = 1 := by
          rw [gapBelow, if_pos ⟨hpower, by omega⟩]
        rw [hone, hpower]
        rw [← hpower] at hm'
        nlinarith
      · nlinarith [Nat.lt_of_le_of_ne hfull (Ne.symm hpower)]
  rw [mul_two_zpow_add, mul_two_zpow_add]
  calc (2 * (m' * 2 ^ e') + (gapBelow fmt m (e' + k) * 2 ^ k : ℕ) * 2 ^ e' : ℚ)
      = (2 * m' + gapBelow fmt m (e' + k) * 2 ^ k : ℕ) * 2 ^ e' := by push_cast; ring
    _ ≤ (2 * (m * 2 ^ k) : ℕ) * 2 ^ e' :=
        mul_le_mul_of_nonneg_right (by exact_mod_cast hnat) hpos.le
    _ = 2 * ((m * 2 ^ k : ℕ) * 2 ^ e') := by push_cast; ring

/-- There is a magnitude at the lower end of the gap below a magnitude, or zero. -/
lemma Holds.exists_isMagnitude_sub (hfmt : fmt.Regular) (hx : fmt.Holds m e) :
    ∃ r, fmt.IsMagnitude r ∧ r < m * 2 ^ e
      ∧ 2 * r + gapBelow fmt m e * 2 ^ e = 2 * (m * 2 ^ e) := by
  have hpos : (0 : ℚ) < 2 ^ e := by positivity
  have hone := hfmt.one_lt
  by_cases hpower : m = Nat.pow 2 (fmt.precision - 1) ∧ fmt.minExponent < e
  · obtain ⟨hm, hmin⟩ := hpower
    have hgap : gapBelow fmt m e = 1 := if_pos ⟨hm, hmin⟩
    have hfull : 2 ^ fmt.precision = 2 * m := by
      rw [hm, Nat.pow_eq, ← pow_succ', Nat.sub_add_cancel hone.le]
    have hpositive := hx.positive
    have hrange := hx.inRange
    have hfine : (2 : ℚ) ^ e = 2 * 2 ^ (e - 1) := by
      rw [zpow_sub_one₀ (by norm_num)]
      ring
    have hcast : ((2 * m - 1 : ℕ) : ℚ) = 2 * m - 1 := by
      rw [Nat.cast_sub (by omega)]
      push_cast
      rfl
    refine ⟨_, .holds (m := 2 * m - 1) (e := e - 1) ⟨by omega, by omega, by omega, fun _ => ?_,
      by omega⟩, ?_, ?_⟩
    · rw [← Nat.pow_eq, ← hm]
      omega
    · rw [hcast, hfine]
      linarith
    · rw [hgap, hcast, hfine]
      push_cast
      ring
  · have hgap : gapBelow fmt m e = 2 := if_neg hpower
    have hcast : ((m - 1 : ℕ) : ℚ) = m - 1 := by
      rw [Nat.cast_sub hx.positive, Nat.cast_one]
    refine ⟨(m - 1 : ℕ) * 2 ^ e, ?_, ?_, ?_⟩
    · rcases Nat.eq_zero_or_pos (m - 1) with hzero | hpositive
      · rw [hzero, Nat.cast_zero, zero_mul]
        exact .zero
      · refine .holds ⟨hpositive, by have := hx.lt; omega, hx.minExponent_le, fun hmin => ?_,
          hx.inRange⟩
        have hne : m ≠ 2 ^ (fmt.precision - 1) := fun hm => hpower ⟨hm, hmin⟩
        have hfull := hx.full hmin
        omega
    · rw [hcast]
      linarith
    · rw [hgap, hcast]
      push_cast
      ring

/-- There is a magnitude a last place above every one but the greatest. -/
lemma Holds.isMagnitude_add (hfmt : fmt.Regular) (hx : fmt.Holds m e)
    (hlast : m + 1 < 2 ^ fmt.precision ∨ e + 1 + fmt.precision ≤ fmt.maxExponent) :
    fmt.IsMagnitude (m * 2 ^ e + 2 ^ e) := by
  have hmin := hx.minExponent_le
  have hsum : (m * 2 ^ e + 2 ^ e : ℚ) = (m + 1 : ℕ) * 2 ^ e := by push_cast; ring
  by_cases hm : m + 1 = 2 ^ fmt.precision
  · have hone := hfmt.one_lt
    have hcarry : (m * 2 ^ e + 2 ^ e : ℚ) = (2 ^ (fmt.precision - 1) : ℕ) * 2 ^ (e + 1) := by
      rw [hsum, hm, zpow_add_one₀ (by norm_num), ← Nat.sub_add_cancel hone.le]
      push_cast
      rw [pow_succ]
      ring
    rw [hcarry]
    exact .holds ⟨Nat.two_pow_pos _, Nat.pow_lt_pow_right (by norm_num) (by omega), by omega,
      fun _ => le_rfl, by omega⟩
  · rw [hsum]
    exact .holds ⟨Nat.succ_pos m, by have := hx.lt; omega, hmin,
      fun h => (hx.full h).trans (Nat.le_succ m), hx.inRange⟩

/-! ### The middle between two numbers -/

/-- The ends of the interval of what rounds to a magnitude, without the scale. -/
lemma near_iff : fmt.Near m e q ↔
    (4 * (m * 2 ^ e) - gapBelow fmt m e * 2 ^ e ≤ 4 * q ∧ 4 * q ≤ 4 * (m * 2 ^ e) + 2 * 2 ^ e)
      ∧ (m % 2 = 1 → 4 * (m * 2 ^ e) - gapBelow fmt m e * 2 ^ e < 4 * q
        ∧ 4 * q < 4 * (m * 2 ^ e) + 2 * 2 ^ e) := by
  have hpos : (0 : ℚ) < 2 ^ e := by positivity
  have hq : 4 * q = 4 * (q * 2 ^ (-e)) * 2 ^ e := by
    rw [mul_assoc 4, mul_assoc q, ← zpow_add₀ (by norm_num), neg_add_cancel, zpow_zero, mul_one]
  have hlow : (4 * (m * 2 ^ e) - gapBelow fmt m e * 2 ^ e : ℚ)
      = (4 * m - gapBelow fmt m e) * 2 ^ e := by ring
  have hhigh : (4 * (m * 2 ^ e) + 2 * 2 ^ e : ℚ) = (4 * m + 2) * 2 ^ e := by ring
  rw [hq, hlow, hhigh, mul_le_mul_iff_of_pos_right hpos, mul_le_mul_iff_of_pos_right hpos,
    mul_lt_mul_iff_of_pos_right hpos, mul_lt_mul_iff_of_pos_right hpos]
  exact ⟨fun h => ⟨⟨h.low, h.high⟩, h.odd⟩, fun h => ⟨h.1.1, h.1.2, h.2⟩⟩

/-- A magnitude is near itself. -/
lemma near_self (fmt : BinaryFormat) (m : ℕ) (e : ℤ) : fmt.Near m e (m * 2 ^ e) := by
  have hgap : (1 : ℚ) ≤ gapBelow fmt m e := by exact_mod_cast (gapBelow_mem fmt m e).1
  have hself : (m * 2 ^ e * 2 ^ (-e) : ℚ) = m := by
    rw [mul_assoc, ← zpow_add₀ (by norm_num), add_neg_cancel, zpow_zero, mul_one]
  refine ⟨?_, ?_, fun _ => ⟨?_, ?_⟩⟩ <;> rw [hself] <;> linarith

/-- What is near a magnitude is not beyond the middle to a greater one. -/
lemma Near.two_mul_le (hfmt : fmt.Regular) (hx : fmt.Holds m e) (hy : fmt.Holds m' e')
    (h : fmt.Near m e q) (hlt : (m * 2 ^ e : ℚ) < m' * 2 ^ e') :
    2 * q ≤ m * 2 ^ e + m' * 2 ^ e' ∧ (m % 2 = 1 → 2 * q < m * 2 ^ e + m' * 2 ^ e') := by
  have hplace := hy.add_two_zpow_le hfmt hx hlt
  obtain ⟨⟨-, hhigh⟩, hodd⟩ := near_iff.mp h
  refine ⟨by linarith, fun hm => ?_⟩
  have hhigh' := (hodd hm).2
  linarith

/-- What is near a magnitude is not beyond the middle to something smaller, if the gap below the
magnitude lies between. -/
lemma Near.le_two_mul (h : fmt.Near m e q)
    (hgap : 2 * r + gapBelow fmt m e * 2 ^ e ≤ 2 * (m * 2 ^ e)) :
    r + m * 2 ^ e ≤ 2 * q ∧ (m % 2 = 1 → r + m * 2 ^ e < 2 * q) := by
  obtain ⟨⟨hlow, -⟩, hodd⟩ := near_iff.mp h
  refine ⟨by linarith, fun hm => ?_⟩
  have hlow' := (hodd hm).1
  linarith

/-- The gap below a magnitude lies between it and zero. -/
lemma Holds.gapBelow_le (hx : fmt.Holds m e) :
    (2 * 0 + gapBelow fmt m e * 2 ^ e : ℚ) ≤ 2 * (m * 2 ^ e) := by
  have hgap : (gapBelow fmt m e : ℚ) ≤ 2 := by exact_mod_cast (gapBelow_mem fmt m e).2
  have hone : (1 : ℚ) ≤ m := by exact_mod_cast hx.positive
  have hpos : (0 : ℚ) < 2 ^ e := by positivity
  nlinarith

/-- Of two numbers the greater one is nearer to what is beyond their middle. -/
lemma abs_sub_lt_abs_sub_iff {x : ℚ} (h : r < x) : |q - x| < |q - r| ↔ r + x < 2 * q := by
  rw [← sq_lt_sq]
  constructor
  · intro hlt
    nlinarith
  · intro hlt
    nlinarith

lemma abs_sub_le_abs_sub_iff {x : ℚ} (h : r < x) : |q - x| ≤ |q - r| ↔ r + x ≤ 2 * q := by
  rw [← sq_le_sq]
  constructor
  · intro hle
    nlinarith
  · intro hle
    nlinarith

/-- **No magnitude is nearer to a value than the one that the value is near**, and if that has an
odd mantissa no other is as near. -/
theorem Near.abs_sub_le (hfmt : fmt.Regular) (hx : fmt.Holds m e) (h : fmt.Near m e q)
    (hr : fmt.IsMagnitude r) : |q - m * 2 ^ e| ≤ |q - r|
      ∧ (m % 2 = 1 → r ≠ m * 2 ^ e → |q - m * 2 ^ e| < |q - r|) := by
  rcases lt_trichotomy r (m * 2 ^ e) with hlt | heq | hgt
  · have hgap : 2 * r + gapBelow fmt m e * 2 ^ e ≤ 2 * (m * 2 ^ e) := by
      cases hr with
      | zero => exact hx.gapBelow_le
      | holds holds => exact hx.add_gapBelow_le hfmt holds hlt
    obtain ⟨hle, hodd⟩ := h.le_two_mul hgap
    exact ⟨(abs_sub_le_abs_sub_iff hlt).mpr hle,
      fun hm _ => (abs_sub_lt_abs_sub_iff hlt).mpr (hodd hm)⟩
  · exact ⟨by rw [heq], fun _ hne => absurd heq hne⟩
  · cases hr with
    | zero => exact absurd hgt (not_lt.mpr (by positivity))
    | holds holds =>
        obtain ⟨hle, hodd⟩ := h.two_mul_le hfmt hx holds hgt
        refine ⟨not_lt.mp fun hnearer => ?_, fun hm _ => not_le.mp fun hnearer => ?_⟩
        · exact absurd hle (not_le.mpr ((abs_sub_lt_abs_sub_iff hgt).mp hnearer))
        · exact absurd (hodd hm) (not_lt.mpr ((abs_sub_le_abs_sub_iff hgt).mp hnearer))

/-- The end of the range, in half places. -/
lemma overflow_eq (fmt : BinaryFormat) :
    fmt.overflow = (2 ^ fmt.precision - 1 / 2) * 2 ^ (fmt.maxExponent - fmt.precision) := by
  have hpower : (2 : ℚ) ^ fmt.maxExponent
      = 2 ^ fmt.precision * 2 ^ (fmt.maxExponent - fmt.precision) := by
    rw [mul_comm, two_zpow_mul_pow, sub_add_cancel]
  rw [overflow, hpower, zpow_sub_one₀ (by norm_num)]
  ring

lemma two_pow_sub_half_pos (p : ℕ) : (0 : ℚ) < 2 ^ p - 1 / 2 := by
  have hone : (1 : ℚ) ≤ 2 ^ p := one_le_pow₀ (by norm_num)
  linarith

/-- What is near a magnitude of a format is not beyond the range. -/
lemma Near.lt_overflow (hx : fmt.Holds m e) (h : fmt.Near m e q) : q < fmt.overflow := by
  have hpos : (0 : ℚ) < 2 ^ e := by positivity
  have hlt : q < (2 ^ fmt.precision - 1 / 2) * 2 ^ e := by
    obtain ⟨⟨-, hhigh⟩, hodd⟩ := near_iff.mp h
    by_cases hlast : m + 1 = 2 ^ fmt.precision
    · -- The greatest mantissa is odd, so that the end of its interval does not belong to it.
      have hm : (m : ℚ) + 1 = 2 ^ fmt.precision := by exact_mod_cast hlast
      have hp : (2 : ℕ) ^ fmt.precision % 2 = 0 := by
        cases hprecision : fmt.precision with
        | zero =>
            rw [hprecision, pow_zero] at hlast
            exact absurd hlast (by have := hx.positive; omega)
        | succ p => rw [pow_succ, Nat.mul_mod_left]
      have hhigh' := (hodd (by omega)).2
      rw [← hm]
      linarith
    · have hm : (m : ℚ) + 2 ≤ 2 ^ fmt.precision := by
        have := hx.lt
        exact_mod_cast (by omega : m + 2 ≤ 2 ^ fmt.precision)
      nlinarith
  have hrange := hx.inRange
  rw [overflow_eq]
  exact hlt.trans_le (mul_le_mul_of_nonneg_left
    (zpow_le_zpow_right₀ (by norm_num) (by omega)) (two_pow_sub_half_pos _).le)

/-- **A value is near the magnitude that no other is nearer than**, if it is not beyond the
range. -/
theorem near_of_abs_sub_le (hfmt : fmt.Regular) (hx : fmt.Holds m e) (hq : q < fmt.overflow)
    (hnearest : ∀ r, fmt.IsMagnitude r → |q - m * 2 ^ e| ≤ |q - r|)
    (hodd : m % 2 = 1 → ∀ r, fmt.IsMagnitude r → r ≠ m * 2 ^ e →
      |q - m * 2 ^ e| < |q - r|) : fmt.Near m e q := by
  have hpos : (0 : ℚ) < 2 ^ e := by positivity
  obtain ⟨r, hr, hlt, hgap⟩ := hx.exists_isMagnitude_sub hfmt
  have hlow := (abs_sub_le_abs_sub_iff hlt).mp (hnearest r hr)
  have hlowOdd (hm : m % 2 = 1) := (abs_sub_lt_abs_sub_iff hlt).mp (hodd hm r hr hlt.ne)
  by_cases hlast : m + 1 < 2 ^ fmt.precision ∨ e + 1 + fmt.precision ≤ fmt.maxExponent
  · have hs := hx.isMagnitude_add hfmt hlast
    have hgt : (m * 2 ^ e : ℚ) < m * 2 ^ e + 2 ^ e := by linarith
    have hhigh : 2 * q ≤ m * 2 ^ e + (m * 2 ^ e + 2 ^ e) := not_lt.mp fun h =>
      absurd (hnearest _ hs) (not_le.mpr ((abs_sub_lt_abs_sub_iff hgt).mpr h))
    have hhighOdd (hm : m % 2 = 1) : 2 * q < m * 2 ^ e + (m * 2 ^ e + 2 ^ e) :=
      not_le.mp fun h => absurd (hodd hm _ hs hgt.ne')
        (not_lt.mpr ((abs_sub_le_abs_sub_iff hgt).mpr h))
    refine near_iff.mpr ⟨⟨by linarith, by linarith⟩, fun hm => ⟨?_, ?_⟩⟩
    · linarith [hlowOdd hm]
    · linarith [hhighOdd hm]
  · -- The greatest magnitude has the end of the range behind it.
    obtain ⟨hm, he⟩ := not_or.mp hlast
    have hrange := hx.inRange
    have hexponent : fmt.maxExponent - fmt.precision = e := by omega
    have hmantissa : (m : ℚ) + 1 = 2 ^ fmt.precision := by
      have := hx.lt
      exact_mod_cast (by omega : m + 1 = 2 ^ fmt.precision)
    rw [overflow_eq, hexponent, ← hmantissa] at hq
    refine near_iff.mpr ⟨⟨by linarith, by linarith⟩, fun hm => ⟨?_, by linarith⟩⟩
    linarith [hlowOdd hm]

/-- What is nearest among the magnitudes is nearest among the numbers with both signs. -/
lemma isNearest_of_abs_sub_le {x : Binary} (hx : fmt.Contains x) (hq : 0 ≤ q)
    (hvalue : x.value = signed x.negative r)
    (hnearest : ∀ s, fmt.IsMagnitude s → |q - r| ≤ |q - s|)
    (hodd : x.mantissa % 2 = 1 → ∀ s, fmt.IsMagnitude s → s ≠ r → |q - r| < |q - s|)
    (hzero : x.mantissa % 2 = 1 → r ≠ 0) : fmt.IsNearest x (signed x.negative q) := by
  -- A number with the other sign is further away than zero.
  have hsplit {y : Binary} (hy : fmt.Contains y) :
      (∃ s, fmt.IsMagnitude s ∧ y.value = signed x.negative s)
        ∨ |q - 0| ≤ |signed x.negative q - y.value| := by
    obtain ⟨s, hs, hyvalue⟩ := hy.exists_magnitude
    by_cases hsign : y.negative = x.negative
    · exact .inl ⟨s, hs, by rw [hyvalue, hsign]⟩
    · have hother : y.value = signed x.negative (-s) := by
        rw [hyvalue, signed, signed]
        cases hy' : y.negative <;> cases hx' : x.negative <;> simp_all
      refine .inr ?_
      rw [hother, abs_signed_sub_signed, sub_zero, sub_neg_eq_add, abs_of_nonneg hq,
        abs_of_nonneg (add_nonneg hq hs.nonneg)]
      exact le_add_of_nonneg_right hs.nonneg
  refine ⟨hx, fun y hy => ?_, fun hm y hy hne => ?_⟩
  · rw [hvalue, abs_signed_sub_signed]
    obtain ⟨s, hs, hyvalue⟩ | hfar := hsplit hy
    · rw [hyvalue, abs_signed_sub_signed]
      exact hnearest s hs
    · exact (hnearest 0 .zero).trans hfar
  · rw [hvalue, abs_signed_sub_signed]
    obtain ⟨s, hs, hyvalue⟩ | hfar := hsplit hy
    · rw [hyvalue, abs_signed_sub_signed]
      refine hodd hm s hs fun heq => hne ?_
      rw [hyvalue, heq, hvalue]
    · exact (hodd hm 0 .zero (hzero hm).symm).trans_le hfar

/-! ### Order -/

lemma Near.pos (hx : fmt.Holds m e) (h : fmt.Near m e q) : 0 < q := by
  have hgap := hx.gapBelow_le
  have hlow := (near_iff.mp h).1.1
  have hpos : (0 : ℚ) < m * 2 ^ e := mul_pos (by exact_mod_cast hx.positive) (by positivity)
  linarith

/-- A value is near one magnitude, since it is rounded to it. -/
lemma Near.unique (hfmt : fmt.Regular) (hx : fmt.Holds m e) (hy : fmt.Holds m' e')
    (h : fmt.Near m e q) (h' : fmt.Near m' e' q) : m = m' ∧ e = e' := by
  have hnum : 0 < q.num := Rat.num_pos.mpr (h.pos hx)
  have hq : ((q.num.toNat : ℕ) : ℚ) / q.den = q := by
    have hcast : ((q.num.toNat : ℕ) : ℚ) = q.num := by exact_mod_cast Int.toNat_of_nonneg hnum.le
    rw [hcast, Rat.num_div_den]
  rw [← hq] at h h'
  have hround := @round_of_near fmt false _ _ _ _ hfmt.one_lt.le hx (by omega) q.den_pos h
  rw [round_of_near hfmt.one_lt.le hy (by omega) q.den_pos h'] at hround
  simp only [Option.some.injEq, Binary.mk.injEq, true_and] at hround
  exact ⟨hround.1.symm, hround.2.symm⟩

/-- **Rounding keeps the order**: of two values the greater one is not near the smaller
magnitude. -/
theorem Near.le_of_le (hfmt : fmt.Regular) (hx : fmt.Holds m e) (hy : fmt.Holds m' e')
    (h : fmt.Near m e q) (h' : fmt.Near m' e' r) (hqr : q ≤ r) :
    (m * 2 ^ e : ℚ) ≤ m' * 2 ^ e' := by
  by_contra hlt
  rw [not_le] at hlt
  have hupper := (h'.two_mul_le hfmt hy hx hlt).1
  have hlower := (h.le_two_mul (hx.add_gapBelow_le hfmt hy hlt)).1
  obtain rfl : q = r := le_antisymm hqr (by linarith)
  obtain ⟨rfl, rfl⟩ := h.unique hfmt hx hy h'
  exact lt_irrefl _ hlt

end BinaryFormat

end Signet
