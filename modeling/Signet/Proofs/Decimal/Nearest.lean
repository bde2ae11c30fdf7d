import Mathlib.Tactic
import Signet.Proofs.Decimal.Neighbours

/-!
Rounding goes to the nearest number.

* **Quotients.** `exists_rounds` says what rounding a quotient goes through, and `round_cases` what
  comes of it: nothing beyond the range, zero for very little, and otherwise a magnitude that the
  quotient is near.
* **Decimals.** `roundDecimal_cases` is the same for decimals, whatever their size.
  `roundDecimal_eq_some_iff`: the number that comes out is the nearest one, and
  `roundDecimal_eq_none_iff`: beyond the range there is none.
-/

namespace Signet.BinaryFormat

open Binary Shortest

variable {fmt : BinaryFormat} {negative : Bool} {m m' num den : ℕ} {e e' : ℤ} {q r : ℚ}

/-! ### Quotients -/

section

variable (hq : 0 < q)
include hq

/-- The exponent that rounding a quotient starts from. -/
lemma lt_two_zpow (fmt : BinaryFormat) :
    q < 2 ^ (max (Int.log 2 q - (fmt.precision - 1)) fmt.minExponent + fmt.precision) := by
  rw [lt_two_zpow_iff hq]
  omega

/-- Above the least exponent there is a bit for every place of the mantissa. -/
lemma two_zpow_le (h : fmt.minExponent < max (Int.log 2 q - (fmt.precision - 1)) fmt.minExponent) :
    2 ^ (max (Int.log 2 q - (fmt.precision - 1)) fmt.minExponent + (fmt.precision - 1)) ≤ q := by
  rw [two_zpow_le_iff hq]
  omega

end

/-- What rounding a quotient goes through: the exponent of a last place, and the whole number of
last places that is nearest. -/
structure Rounds (fmt : BinaryFormat) (q : ℚ) (e : ℤ) (r : ℕ) : Prop where
  /-- The last place is one of the format. -/
  minExponent_le : fmt.minExponent ≤ e
  /-- The quotient has no more digits than a mantissa. -/
  lt : q * 2 ^ (-e) < 2 ^ fmt.precision
  /-- It has as many, unless the last place is the least one. -/
  full : fmt.minExponent < e → 2 ^ (fmt.precision - 1) ≤ q * 2 ^ (-e)
  /-- The whole number is at most half a place away. -/
  near : 2 * (r : ℚ) - 1 ≤ 2 * (q * 2 ^ (-e)) ∧ 2 * (q * 2 ^ (-e)) ≤ 2 * r + 1
  /-- It is less than that away if it is odd. -/
  odd : r % 2 = 1 → 2 * (r : ℚ) - 1 < 2 * (q * 2 ^ (-e)) ∧ 2 * (q * 2 ^ (-e)) < 2 * r + 1

/-- The number with a given mantissa and exponent, unless it is beyond the range. -/
def inRange? (fmt : BinaryFormat) (negative : Bool) (m : ℕ) (e : ℤ) : Option Binary :=
  if fmt.maxExponent < e + fmt.precision then none else some ⟨negative, m, e⟩

/-- A quotient is rounded to a whole number of last places, with a carry if that has one digit too
many. -/
lemma exists_rounds (hfmt : fmt.Regular) (negative : Bool) (hnum : 0 < num) (hden : 0 < den) :
    ∃ e r, fmt.Rounds (num / den) e r ∧ fmt.round negative num den =
      if r = 2 ^ fmt.precision then fmt.inRange? negative (2 ^ (fmt.precision - 1)) (e + 1)
      else if r = 0 then some ⟨negative, 0, fmt.minExponent⟩
      else fmt.inRange? negative r e := by
  have hq : (0 : ℚ) < num / den := by positivity
  have hprecision := hfmt.one_lt.le
  set e : ℤ := max (Int.log 2 (num / den : ℚ) - (fmt.precision - 1)) fmt.minExponent with he
  obtain ⟨hnear, hodd⟩ := two_mul_roundHalfEven (scale_den_pos (-e) num hden)
    (scale_div (-e) num den)
  refine ⟨e, _, ⟨le_max_right _ _, ?_, fun hmin => ?_, hnear, hodd⟩, ?_⟩
  · rw [mul_two_zpow_neg_lt_iff]
    exact lt_two_zpow hq fmt
  · rw [two_pow_le_mul_iff, Nat.cast_sub hprecision, Nat.cast_one]
    exact two_zpow_le hq hmin
  · rw [round, if_neg hnum.ne', log2_eq_log hnum hden, ← he]
    simp only [Nat.pow_eq]
    split
    · exact if_neg (Nat.two_pow_pos (fmt.precision - 1)).ne'
    · rfl

namespace Rounds

/-- A quotient that is rounded to zero is at most half the smallest magnitude. -/
lemma le_of_zero (h : fmt.Rounds q e 0) : q ≤ 2 ^ (fmt.minExponent - 1) := by
  have hhigh := h.near.2
  rw [Nat.cast_zero, mul_zero, zero_add] at hhigh
  obtain heq | hmin := h.minExponent_le.eq_or_lt
  · have hpos : (0 : ℚ) < 2 ^ e := by positivity
    have hq : q = q * 2 ^ (-e) * 2 ^ e := by
      rw [mul_assoc, ← zpow_add₀ (by norm_num), neg_add_cancel, zpow_zero, mul_one]
    rw [heq, zpow_sub_one₀ (by norm_num), hq]
    nlinarith
  · have hfull := h.full hmin
    have hone : (1 : ℚ) ≤ 2 ^ (fmt.precision - 1) := one_le_pow₀ (by norm_num)
    linarith

/-- Without a carry the whole number is the mantissa of a magnitude that the quotient is near,
unless the last place is too great. -/
lemma holds_and_near (h : fmt.Rounds q e m) (hcarry : m ≠ 2 ^ fmt.precision) (hzero : m ≠ 0)
    (hrange : e + fmt.precision ≤ fmt.maxExponent) : fmt.Holds m e ∧ fmt.Near m e q := by
  obtain ⟨hlow, hhigh⟩ := h.near
  have hlt := h.lt
  refine ⟨⟨Nat.pos_of_ne_zero hzero, ?_, h.minExponent_le, fun hmin => ?_, hrange⟩, ?_⟩
  · have hle : m ≤ 2 ^ fmt.precision := by
      have hlt' : (m : ℚ) < 2 ^ fmt.precision + 1 := by linarith
      exact Nat.lt_succ_iff.mp (by exact_mod_cast hlt')
    exact lt_of_le_of_ne hle hcarry
  · have hfull := h.full hmin
    have hlt' : (2 : ℚ) ^ (fmt.precision - 1) < m + 1 := by linarith
    exact Nat.lt_succ_iff.mp (by exact_mod_cast hlt')
  · by_cases hpower : m = Nat.pow 2 (fmt.precision - 1) ∧ fmt.minExponent < e
    · -- Below a power of two the gap is smaller, but the quotient is not below it.
      have hgap : gapBelow fmt m e = 1 := if_pos hpower
      have hfull := h.full hpower.2
      have hm : (m : ℚ) = 2 ^ (fmt.precision - 1) := by exact_mod_cast hpower.1
      rw [← hm] at hfull
      refine ⟨?_, by linarith, fun hodd => ⟨?_, ?_⟩⟩
      · rw [hgap, Nat.cast_one]
        linarith
      · rw [hgap, Nat.cast_one]
        linarith
      · linarith [(h.odd hodd).2]
    · have hgap : gapBelow fmt m e = 2 := if_neg hpower
      refine ⟨?_, by linarith, fun hodd => ⟨?_, ?_⟩⟩
      · rw [hgap, Nat.cast_ofNat]
        linarith
      · rw [hgap, Nat.cast_ofNat]
        linarith [(h.odd hodd).1]
      · linarith [(h.odd hodd).2]

/-- With a carry the mantissa is a power of two, of twice the last place. -/
lemma holds_and_near_of_carry (hfmt : fmt.Regular) (h : fmt.Rounds q e (2 ^ fmt.precision))
    (hrange : e + 1 + fmt.precision ≤ fmt.maxExponent) :
    fmt.Holds (2 ^ (fmt.precision - 1)) (e + 1)
      ∧ fmt.Near (2 ^ (fmt.precision - 1)) (e + 1) q := by
  have hmin : fmt.minExponent < e + 1 := Int.lt_add_one_iff.mpr h.minExponent_le
  have hone := hfmt.one_lt
  have hlt := h.lt
  have hlow := h.near.1
  have hgap : gapBelow fmt (2 ^ (fmt.precision - 1)) (e + 1) = 1 := if_pos ⟨rfl, hmin⟩
  have hscale : q * 2 ^ (-(e + 1)) = q * 2 ^ (-e) / 2 := by
    rw [neg_add, zpow_add₀ (by norm_num), zpow_neg_one]
    ring
  have hpower : (2 : ℚ) ^ fmt.precision = 2 * 2 ^ (fmt.precision - 1) := by
    rw [← pow_succ', Nat.sub_add_cancel hone.le]
  have heven : 2 ^ (fmt.precision - 1) % 2 = 0 := by
    obtain ⟨p, hp⟩ : ∃ p, fmt.precision - 1 = p + 1 := ⟨fmt.precision - 2, by omega⟩
    rw [hp, pow_succ, Nat.mul_mod_left]
  push_cast at hlow
  rw [hpower] at hlow hlt
  refine ⟨⟨Nat.two_pow_pos _, Nat.pow_lt_pow_right (by norm_num) (by omega), hmin.le,
    fun _ => le_rfl, hrange⟩, ?_, ?_, fun hodd => absurd hodd (by omega)⟩
  · rw [hgap, hscale]
    push_cast
    linarith
  · rw [hscale]
    push_cast
    linarith

/-- If the last place is too great, the quotient is beyond the range. -/
lemma overflow_le (hfmt : fmt.Regular) (h : fmt.Rounds q e m)
    (hrange : fmt.maxExponent < e + fmt.precision) : fmt.overflow ≤ q := by
  have hfull := h.full (by have := hfmt.range; omega)
  have hone := hfmt.one_lt
  have hle : (2 : ℚ) ^ fmt.maxExponent ≤ q := by
    rw [two_pow_le_mul_iff] at hfull
    exact (zpow_le_zpow_right₀ (by norm_num) (by omega)).trans hfull
  have hpos : (0 : ℚ) < 2 ^ (fmt.maxExponent - fmt.precision - 1) := by positivity
  rw [overflow]
  linarith

/-- If the last place is too great after a carry, the quotient is beyond the range. -/
lemma overflow_le_of_carry (h : fmt.Rounds q e (2 ^ fmt.precision))
    (hrange : fmt.maxExponent < e + 1 + fmt.precision) : fmt.overflow ≤ q := by
  have hlow := h.near.1
  push_cast at hlow
  have hpos : (0 : ℚ) < 2 ^ e := by positivity
  have hq : q = q * 2 ^ (-e) * 2 ^ e := by
    rw [mul_assoc, ← zpow_add₀ (by norm_num), neg_add_cancel, zpow_zero, mul_one]
  calc fmt.overflow = (2 ^ fmt.precision - 1 / 2) * 2 ^ (fmt.maxExponent - fmt.precision) :=
        overflow_eq fmt
    _ ≤ (2 ^ fmt.precision - 1 / 2) * 2 ^ e :=
        mul_le_mul_of_nonneg_left (zpow_le_zpow_right₀ (by norm_num) (by omega))
          (two_pow_sub_half_pos _).le
    _ ≤ q * 2 ^ (-e) * 2 ^ e := mul_le_mul_of_nonneg_right (by linarith) hpos.le
    _ = q := hq.symm

end Rounds

/-- **What a quotient is rounded to**: nothing beyond the range, zero if it is at most half the
smallest magnitude, and otherwise a magnitude that it is near. -/
theorem round_cases (hfmt : fmt.Regular) (negative : Bool) (hnum : 0 < num) (hden : 0 < den) :
    (fmt.overflow ≤ (num / den : ℚ) ∧ fmt.round negative num den = none)
      ∨ ((num / den : ℚ) ≤ 2 ^ (fmt.minExponent - 1)
        ∧ fmt.round negative num den = some ⟨negative, 0, fmt.minExponent⟩)
      ∨ ∃ m e, fmt.Holds m e ∧ fmt.Near m e (num / den)
        ∧ fmt.round negative num den = some ⟨negative, m, e⟩ := by
  obtain ⟨e, r, hrounds, hround⟩ := exists_rounds hfmt negative hnum hden
  rw [hround]
  split
  · rename_i hcarry
    rw [hcarry] at hrounds
    rw [inRange?]
    split
    · rename_i hrange
      exact .inl ⟨hrounds.overflow_le_of_carry hrange, rfl⟩
    · rename_i hrange
      obtain ⟨hholds, hnear⟩ := hrounds.holds_and_near_of_carry hfmt (not_lt.mp hrange)
      exact .inr (.inr ⟨_, _, hholds, hnear, rfl⟩)
  rename_i hcarry
  split
  · rename_i hzero
    rw [hzero] at hrounds
    exact .inr (.inl ⟨hrounds.le_of_zero, rfl⟩)
  · rename_i hzero
    rw [inRange?]
    split
    · rename_i hrange
      exact .inl ⟨hrounds.overflow_le hfmt hrange, rfl⟩
    · rename_i hrange
      obtain ⟨hholds, hnear⟩ := hrounds.holds_and_near hcarry hzero (not_lt.mp hrange)
      exact .inr (.inr ⟨_, _, hholds, hnear, rfl⟩)

/-! ### Decimals -/

lemma overflow_lt (fmt : BinaryFormat) : fmt.overflow < 2 ^ fmt.maxExponent := by
  have hpos : (0 : ℚ) < 2 ^ (fmt.maxExponent - fmt.precision - 1) := by positivity
  rw [overflow]
  linarith

/-- Half the smallest magnitude is not beyond the range. -/
lemma two_zpow_lt_overflow (hfmt : fmt.Regular) : 2 ^ (fmt.minExponent - 1) < fmt.overflow := by
  have hrange := hfmt.range
  have hprecision := hfmt.one_lt
  have hone : (1 : ℚ) < 2 ^ fmt.precision := one_lt_pow₀ (by norm_num) (by omega)
  calc (2 : ℚ) ^ (fmt.minExponent - 1) = 1 / 2 * 2 ^ fmt.minExponent := by
        rw [zpow_sub_one₀ (by norm_num)]
        ring
    _ ≤ 1 / 2 * 2 ^ (fmt.maxExponent - fmt.precision) :=
        mul_le_mul_of_nonneg_left (zpow_le_zpow_right₀ (by norm_num) (by omega)) (by norm_num)
    _ < (2 ^ fmt.precision - 1 / 2) * 2 ^ (fmt.maxExponent - fmt.precision) :=
        mul_lt_mul_of_pos_right (by linarith) (by positivity)
    _ = fmt.overflow := (overflow_eq fmt).symm

/-- **What a decimal is rounded to.** -/
theorem roundDecimal_cases (hfmt : fmt.Regular) (negative : Bool) {coefficient : ℕ}
    (hcoefficient : 0 < coefficient) (ten : ℤ) :
    (fmt.overflow ≤ (coefficient * 10 ^ ten : ℚ)
        ∧ fmt.roundDecimal negative coefficient ten = none)
      ∨ ((coefficient * 10 ^ ten : ℚ) ≤ 2 ^ (fmt.minExponent - 1)
        ∧ fmt.roundDecimal negative coefficient ten = some ⟨negative, 0, fmt.minExponent⟩)
      ∨ ∃ m e, fmt.Holds m e ∧ fmt.Near m e (coefficient * 10 ^ ten)
        ∧ fmt.roundDecimal negative coefficient ten = some ⟨negative, m, e⟩ := by
  rw [roundDecimal, if_neg hcoefficient.ne']
  dsimp only
  split
  · rename_i hlarge
    have hle := two_zpow_le_decimal hcoefficient hlarge.1 hlarge.2
    exact .inl ⟨(overflow_lt fmt).le.trans hle, rfl⟩
  split
  · rename_i hsmall
    exact .inr (.inl ⟨(decimal_lt_two_zpow hsmall.1 hsmall.2).le, rfl⟩)
  · have hspec := round_cases hfmt negative
      (Nat.mul_pos hcoefficient (@power_pos 10 (by norm_num) ten))
      (@power_pos 10 (by norm_num) (-ten))
    rwa [decimal_div] at hspec

/-- Zero is nearest to what is at most half the smallest magnitude. -/
lemma abs_sub_zero_le (hq : 0 ≤ q) (h : q ≤ 2 ^ (fmt.minExponent - 1))
    (hr : fmt.IsMagnitude r) : |q - 0| ≤ |q - r| := by
  cases hr with
  | zero => exact le_rfl
  | @holds m e holds =>
      have hone : (1 : ℚ) ≤ m := by exact_mod_cast holds.positive
      have hleast : (2 : ℚ) ^ fmt.minExponent ≤ m * 2 ^ e := by
        calc (2 : ℚ) ^ fmt.minExponent ≤ 2 ^ e :=
              zpow_le_zpow_right₀ (by norm_num) holds.minExponent_le
          _ ≤ m * 2 ^ e := le_mul_of_one_le_left (by positivity) hone
      have hhalf : (2 : ℚ) ^ (fmt.minExponent - 1) = 2 ^ fmt.minExponent / 2 := by
        rw [zpow_sub_one₀ (by norm_num), div_eq_mul_inv]
      rw [hhalf] at h
      rw [sub_zero, abs_of_nonneg hq, abs_sub_comm, abs_of_nonneg (by linarith)]
      linarith

/-- **A decimal is rounded to the nearest number**, if it is not beyond the range. -/
theorem isNearest_of_roundDecimal (hfmt : fmt.Regular) {coefficient : ℕ} {ten : ℤ} {x : Binary}
    (h : fmt.roundDecimal negative coefficient ten = some x) :
    x.negative = negative ∧ fmt.IsNearest x (signed negative (coefficient * 10 ^ ten))
      ∧ (coefficient * 10 ^ ten : ℚ) < fmt.overflow := by
  have hoverflow : (0 : ℚ) < fmt.overflow :=
    lt_trans (by positivity) (two_zpow_lt_overflow hfmt)
  have hzero {q : ℚ} (hq : 0 ≤ q) (hsmall : q ≤ 2 ^ (fmt.minExponent - 1)) :
      fmt.IsNearest ⟨negative, 0, fmt.minExponent⟩ (signed negative q) :=
    @isNearest_of_abs_sub_le _ _ 0 ⟨negative, 0, fmt.minExponent⟩ (.zero negative) hq
      (by rw [Binary.value, Nat.cast_zero, zero_mul]) (fun s hs => abs_sub_zero_le hq hsmall hs)
      (fun hodd => absurd hodd Nat.zero_ne_one) (fun hodd => absurd hodd Nat.zero_ne_one)
  rcases Nat.eq_zero_or_pos coefficient with rfl | hcoefficient
  · rw [roundDecimal, if_pos rfl, Option.some.injEq] at h
    subst h
    rw [Nat.cast_zero, zero_mul]
    exact ⟨rfl, hzero le_rfl (by positivity), hoverflow⟩
  · have hq : (0 : ℚ) ≤ coefficient * 10 ^ ten := by positivity
    obtain ⟨-, hnone⟩ | ⟨hsmall, hsome⟩ | ⟨m, e, hholds, hnear, hsome⟩ :=
      roundDecimal_cases hfmt negative hcoefficient ten
    · cases hnone.symm.trans h
    · cases hsome.symm.trans h
      exact ⟨rfl, hzero hq hsmall, hsmall.trans_lt (two_zpow_lt_overflow hfmt)⟩
    · cases hsome.symm.trans h
      refine ⟨rfl, ?_, hnear.lt_overflow hholds⟩
      exact @isNearest_of_abs_sub_le _ _ _ ⟨negative, m, e⟩ (.holds hholds) hq rfl
        (fun s hs => (hnear.abs_sub_le hfmt hholds hs).1)
        (fun hodd s hs => (hnear.abs_sub_le hfmt hholds hs).2 hodd)
        (fun _ => (mul_pos (by exact_mod_cast hholds.positive) (by positivity)).ne')

/-- Nothing that is nearest to zero is near a magnitude. -/
lemma Near.not_nearest_zero (hx : fmt.Holds m e) (h : fmt.Near m e q) :
    ¬ |q - 0| ≤ |q - m * 2 ^ e| := by
  intro hzero
  have hpos : (0 : ℚ) < 2 ^ e := by positivity
  have hgt : (0 : ℚ) < m * 2 ^ e := mul_pos (by exact_mod_cast hx.positive) hpos
  have hle : 2 * q ≤ m * 2 ^ e := not_lt.mp fun hlt =>
    absurd hzero (not_le.mpr ((abs_sub_lt_abs_sub_iff hgt).mpr (by linarith)))
  obtain ⟨⟨hlow, -⟩, hodd⟩ := near_iff.mp h
  have hgap : (gapBelow fmt m e : ℚ) ≤ 2 := by exact_mod_cast (gapBelow_mem fmt m e).2
  have hgapPlace : (gapBelow fmt m e : ℚ) * 2 ^ e ≤ 2 * 2 ^ e :=
    mul_le_mul_of_nonneg_right hgap hpos.le
  by_cases hm : m = 1
  · subst hm
    have hlow' := (hodd rfl).1
    rw [Nat.cast_one] at hlow' hle
    linarith
  · have htwo : (2 : ℚ) * 2 ^ e ≤ m * 2 ^ e :=
      mul_le_mul_of_nonneg_right (by exact_mod_cast (by have := hx.positive; omega : 2 ≤ m)) hpos.le
    linarith

/-- **A decimal is rounded to the nearest number and to no other**, with its own sign. -/
theorem roundDecimal_eq_some_iff (hfmt : fmt.Regular) {coefficient : ℕ} {ten : ℤ} {x : Binary} :
    fmt.roundDecimal negative coefficient ten = some x ↔ x.negative = negative
      ∧ fmt.IsNearest x (signed negative (coefficient * 10 ^ ten))
      ∧ (coefficient * 10 ^ ten : ℚ) < fmt.overflow := by
  refine ⟨isNearest_of_roundDecimal hfmt, ?_⟩
  rintro ⟨rfl, hnearest, hrange⟩
  obtain ⟨negative, m, e⟩ := x
  dsimp only at hnearest ⊢
  cases hnearest.contains with
  | zero =>
      rcases Nat.eq_zero_or_pos coefficient with rfl | hcoefficient
      · rw [roundDecimal, if_pos rfl]
      have hzero := (hnearest.abs_sub_le (r := 0)
        (by rw [Binary.value, Nat.cast_zero, zero_mul])).1
      obtain ⟨hover, -⟩ | ⟨-, hsome⟩ | ⟨m, e, hholds, hnear, -⟩ :=
        roundDecimal_cases hfmt negative hcoefficient ten
      · exact absurd hrange (not_lt.mpr hover)
      · exact hsome
      · exact absurd (hzero _ (.holds hholds)) (hnear.not_nearest_zero hholds)
  | holds holds =>
      obtain ⟨hle, hodd⟩ := hnearest.abs_sub_le (r := m * 2 ^ e) rfl
      have hnear := near_of_abs_sub_le hfmt holds hrange hle hodd
      have hpos := hnear.pos holds
      have hcoefficient : 0 < coefficient := Nat.pos_of_ne_zero fun hzero => by
        rw [hzero, Nat.cast_zero, zero_mul] at hpos
        exact lt_irrefl _ hpos
      exact roundDecimal_of_near hfmt.one_lt.le holds hcoefficient hnear

/-- **Beyond the range there is no nearest number.** -/
theorem roundDecimal_eq_none_iff (hfmt : fmt.Regular) {coefficient : ℕ} {ten : ℤ} :
    fmt.roundDecimal negative coefficient ten = none
      ↔ fmt.overflow ≤ (coefficient * 10 ^ ten : ℚ) := by
  constructor
  · intro h
    rcases Nat.eq_zero_or_pos coefficient with rfl | hcoefficient
    · rw [roundDecimal, if_pos rfl] at h
      cases h
    obtain ⟨hover, -⟩ | ⟨-, hsome⟩ | ⟨m, e, -, -, hsome⟩ :=
      roundDecimal_cases hfmt negative hcoefficient ten
    · exact hover
    · cases h.symm.trans hsome
    · cases h.symm.trans hsome
  · intro h
    cases hround : fmt.roundDecimal negative coefficient ten with
    | none => rfl
    | some x => exact absurd (isNearest_of_roundDecimal hfmt hround).2.2 (not_lt.mpr h)

end Signet.BinaryFormat
