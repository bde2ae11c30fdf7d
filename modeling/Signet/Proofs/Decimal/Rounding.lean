import Mathlib.Data.Int.Log
import Mathlib.Tactic
import Signet.Proofs.Decimal.Shortest

/-!
What rounds to a binary number is rounded to it.

* **Quotients.** The power of two and the whole number that rounding goes through are
  said of the quotient itself, as a rational number: `log2_eq_log`, `roundHalfEven_eq`.
* **Numbers of a format.** `Holds` are the positive magnitudes of a format, each in one spelling.
* **Rounding.** `Near` is the interval of what rounds to a magnitude, and
  `round_of_near` takes a quotient in it to the magnitude. Just below a power of two the
  quotient is rounded on the finer grid and comes up to the power by a carry.
* **Decimals.** `roundDecimal_eq_round`: the size of the power of ten decides only what
  rounding would, so that `roundDecimal_digits` gives the number back from its digits.
-/

namespace Signet

namespace Binary

/-! ### Quotients -/

/-- A power is the quotient of its two parts. -/
lemma power_div_power {base : ℕ} (hbase : 0 < base) (e : ℤ) :
    (power base e : ℚ) / power base (-e) = (base : ℚ) ^ e := by
  have hne : (base : ℚ) ≠ 0 := by exact_mod_cast hbase.ne'
  rcases le_total 0 e with he | he
  · lift e to ℕ using he
    simp [power]
  · obtain ⟨n, rfl⟩ : ∃ n : ℕ, e = -(n : ℤ) := ⟨e.natAbs, by omega⟩
    simp [power]

/-- Scaling multiplies by a power of two. -/
lemma scale_div (twos : ℤ) (num den : ℕ) :
    ((scale twos num den).1 : ℚ) / (scale twos num den).2 = num / den * 2 ^ twos := by
  have hpower := @power_div_power 2 (by norm_num) twos
  rw [Nat.cast_ofNat] at hpower
  rw [scale, Nat.cast_mul, Nat.cast_mul, ← hpower, mul_div_mul_comm]

lemma scale_den_pos (twos : ℤ) (num : ℕ) {den : ℕ} (hden : 0 < den) :
    0 < (scale twos num den).2 :=
  Nat.mul_pos hden (Shortest.power_pos (by norm_num) _)

lemma two_zpow_mul_pow (e : ℤ) (n : ℕ) : (2 : ℚ) ^ e * 2 ^ n = 2 ^ (e + n) := by
  rw [zpow_add₀ (by norm_num), zpow_natCast]

lemma mul_two_zpow_neg_lt_iff {q : ℚ} {e : ℤ} {n : ℕ} :
    q * 2 ^ (-e) < 2 ^ n ↔ q < 2 ^ (e + n) := by
  rw [zpow_neg, ← div_eq_mul_inv, div_lt_iff₀ (by positivity), mul_comm, two_zpow_mul_pow]

lemma two_pow_le_mul_iff {q : ℚ} {e : ℤ} {n : ℕ} :
    2 ^ n ≤ q * 2 ^ (-e) ↔ 2 ^ (e + n) ≤ q := by
  rw [← not_lt, mul_two_zpow_neg_lt_iff, not_lt]

/-- A power of two is at most a number if its exponent is at most that of the greatest such. -/
lemma two_zpow_le_iff {q : ℚ} (hq : 0 < q) {e : ℤ} : 2 ^ e ≤ q ↔ e ≤ Int.log 2 q := by
  rw [← Int.zpow_le_iff_le_log (by norm_num) hq, Nat.cast_ofNat]

lemma lt_two_zpow_iff {q : ℚ} (hq : 0 < q) {e : ℤ} : q < 2 ^ e ↔ Int.log 2 q < e := by
  rw [← not_le, two_zpow_le_iff hq, not_le]

/-- The greatest power of two in a quotient. -/
lemma log2_eq_log {num den : ℕ} (hnum : 0 < num) (hden : 0 < den) :
    log2 num den = Int.log 2 (num / den : ℚ) := by
  have hq : (0 : ℚ) < num / den := by positivity
  set a := Nat.log2 num
  set b := Nat.log2 den
  -- The quotient lies between the quotients of the powers around its two parts.
  have hnumLow : ((2 : ℚ) ^ a) ≤ num := by exact_mod_cast Nat.log2_self_le hnum.ne'
  have hnumHigh : (num : ℚ) < 2 ^ (a + 1) := by exact_mod_cast Nat.lt_log2_self
  have hdenLow : ((2 : ℚ) ^ b) ≤ den := by exact_mod_cast Nat.log2_self_le hden.ne'
  have hdenHigh : (den : ℚ) < 2 ^ (b + 1) := by exact_mod_cast Nat.lt_log2_self
  have hdenPos : (0 : ℚ) < den := by exact_mod_cast hden
  have hhigh : (num / den : ℚ) < 2 ^ ((a : ℤ) - b + 1) := by
    rw [div_lt_iff₀ hdenPos]
    calc (num : ℚ) < 2 ^ (a + 1) := hnumHigh
      _ = 2 ^ ((a : ℤ) - b + 1) * 2 ^ b := by
        rw [two_zpow_mul_pow, ← zpow_natCast]
        congr 1
        push_cast
        ring
      _ ≤ 2 ^ ((a : ℤ) - b + 1) * den := mul_le_mul_of_nonneg_left hdenLow (by positivity)
  have hlow : (2 : ℚ) ^ ((a : ℤ) - b - 1) ≤ num / den := by
    rw [le_div_iff₀ hdenPos]
    calc (2 : ℚ) ^ ((a : ℤ) - b - 1) * den ≤ 2 ^ ((a : ℤ) - b - 1) * 2 ^ (b + 1) :=
        mul_le_mul_of_nonneg_left hdenHigh.le (by positivity)
      _ = 2 ^ a := by
        rw [two_zpow_mul_pow, ← zpow_natCast]
        congr 1
        push_cast
        ring
      _ ≤ num := hnumLow
  have htest : (scale (-((a : ℤ) - b)) num den).2 ≤ (scale (-((a : ℤ) - b)) num den).1
      ↔ (2 : ℚ) ^ ((a : ℤ) - b) ≤ num / den := by
    have hpos : (0 : ℚ) < (scale (-((a : ℤ) - b)) num den).2 := by
      exact_mod_cast scale_den_pos _ num hden
    rw [← @Nat.cast_le ℚ, ← one_le_div hpos, scale_div, zpow_neg,
      ← div_eq_mul_inv, one_le_div (by positivity)]
  rw [lt_two_zpow_iff hq] at hhigh
  rw [two_zpow_le_iff hq] at hlow htest
  rw [log2]
  dsimp only
  split
  · rename_i h
    have hguess := htest.mp h
    omega
  · rename_i h
    have hguess := mt htest.mpr h
    omega

/-- The whole number that a quotient is rounded to is at most a half away, and less than that if it
is odd. -/
lemma two_mul_roundHalfEven {n d : ℕ} {q : ℚ} (hd : 0 < d) (hq : (n : ℚ) / d = q) :
    (2 * (roundHalfEven n d : ℚ) - 1 ≤ 2 * q ∧ 2 * q ≤ 2 * roundHalfEven n d + 1)
      ∧ (roundHalfEven n d % 2 = 1 → 2 * (roundHalfEven n d : ℚ) - 1 < 2 * q
        ∧ 2 * q < 2 * roundHalfEven n d + 1) := by
  have hdq : (0 : ℚ) < d := by exact_mod_cast hd
  have hn : (n : ℚ) = q * d := by rw [← hq, div_mul_cancel₀ _ hdq.ne']
  have hsplit := Nat.div_add_mod n d
  have hrest := Nat.mod_lt n hd
  have hround := roundHalfEven.eq_def n d
  dsimp only at hround
  set below := n / d
  set rest := n % d
  set r := roundHalfEven n d
  -- The same for whole numbers, with the denominator cleared.
  have hnat : (2 * (r * d) ≤ 2 * n + d ∧ 2 * n ≤ 2 * (r * d) + d)
      ∧ (r % 2 = 1 → 2 * (r * d) < 2 * n + d ∧ 2 * n < 2 * (r * d) + d) := by
    split at hround
    · rw [hround, Nat.mul_comm below d]
      omega
    split at hround
    · rw [hround, Nat.add_mul, Nat.one_mul, Nat.mul_comm below d]
      omega
    · rcases Nat.mod_two_eq_zero_or_one below with heven | hodd
      · rw [hround, heven, Nat.add_zero, Nat.mul_comm below d]
        omega
      · rw [hround, hodd, Nat.add_mul, Nat.one_mul, Nat.mul_comm below d]
        omega
  have hcast : (2 * ((r * d : ℕ) : ℚ) ≤ 2 * n + d ∧ 2 * (n : ℚ) ≤ 2 * (r * d : ℕ) + d)
      ∧ (r % 2 = 1 → 2 * ((r * d : ℕ) : ℚ) < 2 * n + d ∧ 2 * (n : ℚ) < 2 * (r * d : ℕ) + d) := by
    exact_mod_cast hnat
  have hscale (a b : ℚ) : (a ≤ b ↔ a * d ≤ b * d) ∧ (a < b ↔ a * d < b * d) :=
    ⟨(mul_le_mul_iff_of_pos_right hdq).symm, (mul_lt_mul_iff_of_pos_right hdq).symm⟩
  have hleft : (2 * (r : ℚ) - 1) * d = 2 * (r * d : ℕ) - d := by push_cast; ring
  have hright : (2 * (r : ℚ) + 1) * d = 2 * (r * d : ℕ) + d := by push_cast; ring
  have hmiddle : 2 * q * d = 2 * n := by rw [hn]; ring
  rw [(hscale _ _).1, (hscale _ (2 * r + 1)).1, (hscale _ (2 * q)).2, (hscale _ (2 * r + 1)).2,
    hleft, hright, hmiddle, sub_le_iff_le_add, sub_lt_iff_lt_add]
  exact hcast

/-- The nearest whole number, an even one if it is as near as another. -/
lemma roundHalfEven_eq {n d r : ℕ} {q : ℚ} (hd : 0 < d) (hq : (n : ℚ) / d = q)
    (hlow : 2 * (r : ℚ) - 1 ≤ 2 * q) (hhigh : 2 * q ≤ 2 * r + 1)
    (hodd : r % 2 = 1 → 2 * (r : ℚ) - 1 < 2 * q ∧ 2 * q < 2 * r + 1) :
    roundHalfEven n d = r := by
  obtain ⟨⟨hlow', hhigh'⟩, hodd'⟩ := two_mul_roundHalfEven hd hq
  set s := roundHalfEven n d
  have hle : s ≤ r + 1 := by
    have h : (s : ℚ) ≤ r + 1 := by linarith
    exact_mod_cast h
  have hge : r ≤ s + 1 := by
    have h : (r : ℚ) ≤ s + 1 := by linarith
    exact_mod_cast h
  -- Of two neighbours with the quotient in the middle one is odd.
  obtain heq | heq | heq : s = r ∨ s = r + 1 ∨ r = s + 1 := by omega
  · exact heq
  · have hs : (s : ℚ) = r + 1 := by exact_mod_cast heq
    rcases Nat.mod_two_eq_zero_or_one r with heven | hr
    · linarith [(hodd' (by omega)).1]
    · linarith [(hodd hr).2]
  · have hr : (r : ℚ) = s + 1 := by exact_mod_cast heq
    rcases Nat.mod_two_eq_zero_or_one s with heven | hs
    · linarith [(hodd (by omega)).1]
    · linarith [(hodd' hs).2]

end Binary

namespace BinaryFormat

open Binary Shortest

variable {fmt : BinaryFormat} {negative : Bool} {mantissa num den : ℕ} {two : ℤ} {q : ℚ}

/-! ### Numbers of a format -/

/-- A positive magnitude is one of a format: the mantissa has all the bits that there is room for,
which are fewer for the smallest numbers only. -/
structure Holds (fmt : BinaryFormat) (mantissa : ℕ) (two : ℤ) : Prop where
  /-- Zero is not among them. -/
  positive : 0 < mantissa
  /-- The mantissa is not longer than the precision. -/
  lt : mantissa < 2 ^ fmt.precision
  /-- The exponent is not below the least one. -/
  minExponent_le : fmt.minExponent ≤ two
  /-- The mantissa is not shorter than the precision, unless the exponent is the least one. -/
  full : fmt.minExponent < two → 2 ^ (fmt.precision - 1) ≤ mantissa
  /-- The magnitude is below the greatest power of two. -/
  inRange : two + fmt.precision ≤ fmt.maxExponent

/-! ### Rounding -/

/-- A number lies in the interval of what rounds to a magnitude, in quarters of the last place of
the magnitude. The ends of the interval belong to an even mantissa. -/
structure Near (fmt : BinaryFormat) (mantissa : ℕ) (two : ℤ) (q : ℚ) : Prop where
  /-- The number is not below the interval. -/
  low : 4 * mantissa - gapBelow fmt mantissa two ≤ 4 * (q * 2 ^ (-two))
  /-- The number is not above the interval. -/
  high : 4 * (q * 2 ^ (-two)) ≤ 4 * mantissa + 2
  /-- Nor is it an end of it, for an odd mantissa. -/
  odd : mantissa % 2 = 1 → 4 * mantissa - gapBelow fmt mantissa two < 4 * (q * 2 ^ (-two))
    ∧ 4 * (q * 2 ^ (-two)) < 4 * mantissa + 2

/-- What rounds to a magnitude are the decimals in its interval. -/
lemma roundsTo_iff_near {count : ℕ} {ten : ℤ} (hmantissa : 0 < mantissa) :
    roundsTo fmt mantissa two count ten = true ↔ fmt.Near mantissa two (count * 10 ^ ten) := by
  have hgap := (gapBelow_mem fmt mantissa two).2
  have htwo : (0 : ℚ) < power 2 two := by exact_mod_cast power_pos (by norm_num) two
  have hten : (0 : ℚ) < power 10 (-ten) := by exact_mod_cast power_pos (by norm_num) (-ten)
  have hunit : (0 : ℚ) < power 2 two * power 10 (-ten) := mul_pos htwo hten
  have htwoDiv := @power_div_power 2 (by norm_num) (-two)
  have htenDiv := @power_div_power 10 (by norm_num) ten
  rw [neg_neg, Nat.cast_ofNat, div_eq_iff htwo.ne'] at htwoDiv
  rw [Nat.cast_ofNat, div_eq_iff hten.ne'] at htenDiv
  -- The comparisons are those of whole numbers, multiplied by both denominators.
  have hends (k : ℕ) : ((k * (power 2 two * power 10 (-ten)) : ℕ) : ℚ)
      = k * (power 2 two * power 10 (-ten)) := by push_cast; rfl
  have hhere : ((4 * count * (power 2 (-two) * power 10 ten) : ℕ) : ℚ)
      = 4 * (count * 10 ^ ten * 2 ^ (-two)) * (power 2 two * power 10 (-ten)) := by
    push_cast
    rw [htenDiv, htwoDiv]
    ring
  have hlow : ((4 * mantissa - gapBelow fmt mantissa two : ℕ) : ℚ)
      = 4 * mantissa - gapBelow fmt mantissa two := by
    rw [Nat.cast_sub (by omega)]
    push_cast
    rfl
  have hhigh : ((4 * mantissa + 2 : ℕ) : ℚ) = 4 * mantissa + 2 := by push_cast; rfl
  rw [roundsTo_iff]
  simp only [← @Nat.cast_le ℚ, ← @Nat.cast_lt ℚ, hends, hhere,
    mul_le_mul_iff_of_pos_right hunit, mul_lt_mul_iff_of_pos_right hunit, hlow, hhigh]
  exact ⟨fun h => ⟨h.1.1, h.1.2, h.2⟩, fun h => ⟨⟨h.low, h.high⟩, h.odd⟩⟩

/-- The greatest power of two in a quotient, from its place among the powers. -/
lemma log_eq_of_bounds {e : ℤ} {n : ℕ} (hq : 0 < q) (hlow : 2 ^ n ≤ q * 2 ^ (-e))
    (hhigh : q * 2 ^ (-e) < 2 ^ (n + 1)) : Int.log 2 q = e + n := by
  rw [two_pow_le_mul_iff, two_zpow_le_iff hq] at hlow
  rw [mul_two_zpow_neg_lt_iff, lt_two_zpow_iff hq] at hhigh
  push_cast at hhigh
  omega

/-- Just below a power of two a quotient is rounded on a grid twice as fine. -/
lemma round_of_near_below (hprecision : 0 < fmt.precision) (hx : fmt.Holds mantissa two)
    (hnum : 0 < num) (hden : 0 < den) (h : fmt.Near mantissa two (num / den))
    (hpower : mantissa = 2 ^ (fmt.precision - 1)) (hmin : fmt.minExponent < two)
    (hbelow : (num / den : ℚ) * 2 ^ (-two) < mantissa) :
    fmt.round negative num den = some ⟨negative, mantissa, two⟩ := by
  obtain ⟨k, hk⟩ : ∃ k, fmt.precision = k + 1 := ⟨fmt.precision - 1, by omega⟩
  rw [hk, Nat.add_sub_cancel] at hpower
  have hq : (0 : ℚ) < num / den := by positivity
  have hone : (1 : ℚ) ≤ mantissa := by exact_mod_cast hx.positive
  have hmantissa : (mantissa : ℚ) = 2 ^ k := by rw [hpower]; push_cast; rfl
  have hgap : gapBelow fmt mantissa two = 1 := by
    rw [gapBelow, if_pos ⟨by rw [hpower, hk, Nat.add_sub_cancel, Nat.pow_eq], hmin⟩]
  have hlow := h.low
  rw [hgap, Nat.cast_one] at hlow
  have hfine : (num / den : ℚ) * 2 ^ (-(two - 1)) = 2 * (num / den * 2 ^ (-two)) := by
    rw [neg_sub, sub_eq_add_neg, zpow_add₀ (by norm_num), zpow_one]
    ring
  have hlog : Int.log 2 (num / den : ℚ) = two - 1 + k := by
    refine log_eq_of_bounds hq ?_ ?_
    · rw [hfine, ← hmantissa]
      linarith
    · rw [hfine, pow_succ, ← hmantissa]
      linarith
  have hexponent : max (Int.log 2 (num / den : ℚ) - (fmt.precision - 1)) fmt.minExponent
      = two - 1 := by omega
  have hround : roundHalfEven (scale (-(two - 1)) num den).1 (scale (-(two - 1)) num den).2
      = 2 ^ fmt.precision := by
    have hpowerq : ((2 ^ fmt.precision : ℕ) : ℚ) = 2 * mantissa := by
      rw [hk, hmantissa]
      push_cast
      ring
    refine roundHalfEven_eq (scale_den_pos _ _ hden) ((scale_div _ _ _).trans hfine) ?_ ?_ ?_
    · rw [hpowerq]
      linarith
    · rw [hpowerq]
      linarith
    · intro hodd
      rw [hk, pow_succ] at hodd
      omega
  have hrange := hx.inRange
  rw [round, if_neg hnum.ne', log2_eq_log hnum hden, hexponent]
  simp only [hround, Nat.pow_eq, if_true]
  rw [hk, Nat.add_sub_cancel, ← hpower, sub_add_cancel, if_neg hx.positive.ne',
    if_neg (by omega)]

/-- Everywhere else the grid is that of the magnitude. -/
lemma round_of_near_above (hprecision : 0 < fmt.precision) (hx : fmt.Holds mantissa two)
    (hnum : 0 < num) (hden : 0 < den) (h : fmt.Near mantissa two (num / den))
    (habove : mantissa = 2 ^ (fmt.precision - 1) → fmt.minExponent < two →
      (mantissa : ℚ) ≤ num / den * 2 ^ (-two)) :
    fmt.round negative num den = some ⟨negative, mantissa, two⟩ := by
  obtain ⟨k, hk⟩ : ∃ k, fmt.precision = k + 1 := ⟨fmt.precision - 1, by omega⟩
  have hq : (0 : ℚ) < num / den := by positivity
  have hgap : (gapBelow fmt mantissa two : ℚ) ≤ 2 := by
    exact_mod_cast (gapBelow_mem fmt mantissa two).2
  have hlow := h.low
  have hhigh := h.high
  have hlt : (mantissa : ℚ) + 1 ≤ 2 ^ (k + 1) := by
    have := hx.lt
    rw [hk] at this
    exact_mod_cast this
  have hbound : (num / den : ℚ) * 2 ^ (-two) < 2 ^ (k + 1) := by linarith
  have hminExponent := hx.minExponent_le
  have hexponent : max (Int.log 2 (num / den : ℚ) - (fmt.precision - 1)) fmt.minExponent
      = two := by
    rcases hminExponent.eq_or_lt with hmin | hmin
    · rw [mul_two_zpow_neg_lt_iff, lt_two_zpow_iff hq] at hbound
      push_cast at hbound
      omega
    · have hfull := hx.full hmin
      rw [hk, Nat.add_sub_cancel] at hfull habove
      have hlower : (2 : ℚ) ^ k ≤ num / den * 2 ^ (-two) := by
        rcases hfull.eq_or_lt with hpower | hpower
        · have := habove hpower.symm hmin
          rw [← hpower] at this
          exact_mod_cast this
        · have : (2 : ℚ) ^ k + 1 ≤ mantissa := by exact_mod_cast hpower
          linarith
      have hlog := log_eq_of_bounds hq hlower hbound
      omega
  have hround : roundHalfEven (scale (-two) num den).1 (scale (-two) num den).2 = mantissa := by
    refine roundHalfEven_eq (scale_den_pos _ _ hden) (scale_div _ _ _) (by linarith)
      (by linarith) fun hodd => ?_
    obtain ⟨hl, hh⟩ := h.odd hodd
    exact ⟨by linarith, by linarith⟩
  have hrange := hx.inRange
  rw [round, if_neg hnum.ne', log2_eq_log hnum hden, hexponent]
  simp only [hround, Nat.pow_eq, if_neg hx.lt.ne]
  rw [if_neg hx.positive.ne', if_neg (by omega)]

/-- **What lies near a magnitude is rounded to it.** -/
theorem round_of_near (hprecision : 0 < fmt.precision) (hx : fmt.Holds mantissa two)
    (hnum : 0 < num) (hden : 0 < den) (h : fmt.Near mantissa two (num / den)) :
    fmt.round negative num den = some ⟨negative, mantissa, two⟩ := by
  by_cases hbelow : mantissa = 2 ^ (fmt.precision - 1) ∧ fmt.minExponent < two
    ∧ (num / den : ℚ) * 2 ^ (-two) < mantissa
  · obtain ⟨hpower, hmin, hlt⟩ := hbelow
    exact round_of_near_below hprecision hx hnum hden h hpower hmin hlt
  · exact round_of_near_above hprecision hx hnum hden h
      fun hpower hmin => not_lt.mp fun hlt => hbelow ⟨hpower, hmin, hlt⟩

/-! ### Decimals -/

/-- A decimal as a quotient. -/
lemma decimal_div (coefficient : ℕ) (ten : ℤ) :
    ((coefficient * power 10 ten : ℕ) : ℚ) / power 10 (-ten) = coefficient * 10 ^ ten := by
  have hten := @power_div_power 10 (by norm_num) ten
  rw [Nat.cast_ofNat] at hten
  rw [Nat.cast_mul, mul_div_assoc, hten]

lemma two_pow_mul_eight_zpow (e : ℤ) (n : ℕ) : (2 : ℚ) ^ n * 8 ^ e = 2 ^ (n + 3 * e) := by
  rw [zpow_add₀ (by norm_num), zpow_mul, zpow_natCast]
  norm_num

/-- Each ten that a number is multiplied by counts as eight at least. -/
lemma two_zpow_le_decimal {coefficient : ℕ} {ten e : ℤ} (hcoefficient : 0 < coefficient)
    (hten : 0 ≤ ten) (he : e ≤ Nat.log2 coefficient + 3 * ten) :
    (2 : ℚ) ^ e ≤ coefficient * 10 ^ ten := by
  have hsize : (2 : ℚ) ^ Nat.log2 coefficient ≤ coefficient := by
    exact_mod_cast Nat.log2_self_le hcoefficient.ne'
  calc (2 : ℚ) ^ e ≤ 2 ^ ((Nat.log2 coefficient : ℤ) + 3 * ten) :=
        zpow_le_zpow_right₀ (by norm_num) he
    _ = 2 ^ Nat.log2 coefficient * 8 ^ ten := (two_pow_mul_eight_zpow _ _).symm
    _ ≤ 2 ^ Nat.log2 coefficient * 10 ^ ten := by
        refine mul_le_mul_of_nonneg_left ?_ (by positivity)
        exact zpow_le_zpow_left₀ hten (by norm_num) (by norm_num)
    _ ≤ coefficient * 10 ^ ten := mul_le_mul_of_nonneg_right hsize (by positivity)

/-- Each ten that a number is divided by counts as eight at least. -/
lemma decimal_lt_two_zpow {coefficient : ℕ} {ten e : ℤ} (hten : ten < 0)
    (he : Nat.log2 coefficient + 1 + 3 * ten ≤ e) : (coefficient * 10 ^ ten : ℚ) < 2 ^ e := by
  have hsize : (coefficient : ℚ) < 2 ^ (Nat.log2 coefficient + 1) := by
    exact_mod_cast Nat.lt_log2_self
  calc (coefficient * 10 ^ ten : ℚ) < 2 ^ (Nat.log2 coefficient + 1) * 10 ^ ten :=
        mul_lt_mul_of_pos_right hsize (by positivity)
    _ ≤ 2 ^ (Nat.log2 coefficient + 1) * 8 ^ ten := by
        refine mul_le_mul_of_nonneg_left ?_ (by positivity)
        obtain ⟨n, rfl⟩ : ∃ n : ℕ, ten = -(n : ℤ) := ⟨ten.natAbs, by omega⟩
        rw [zpow_neg, zpow_neg, zpow_natCast, zpow_natCast]
        exact inv_anti₀ (by positivity) (pow_le_pow_left₀ (by norm_num) (by norm_num) n)
    _ = 2 ^ (((Nat.log2 coefficient + 1 : ℕ) : ℤ) + 3 * ten) := two_pow_mul_eight_zpow _ _
    _ ≤ 2 ^ e := zpow_le_zpow_right₀ (by norm_num) (by push_cast; omega)

/-- The size of the power of ten decides only what rounding would. -/
lemma roundDecimal_eq_round {coefficient : ℕ} {ten : ℤ} (hcoefficient : 0 < coefficient)
    (hlow : 2 ^ (fmt.minExponent - 1) ≤ (coefficient * 10 ^ ten : ℚ))
    (hhigh : (coefficient * 10 ^ ten : ℚ) < 2 ^ fmt.maxExponent) :
    fmt.roundDecimal negative coefficient ten
      = fmt.round negative (coefficient * power 10 ten) (power 10 (-ten)) := by
  rw [roundDecimal, if_neg hcoefficient.ne', if_neg, if_neg]
  · rintro ⟨hten, hsmall⟩
    exact absurd hlow (not_le.mpr (decimal_lt_two_zpow hten hsmall))
  · rintro ⟨hten, hlarge⟩
    exact absurd hhigh (not_lt.mpr (two_zpow_le_decimal hcoefficient hten hlarge))

/-- **A decimal near a magnitude of a format is rounded to it.** -/
theorem roundDecimal_of_near {coefficient : ℕ} {ten : ℤ} (hprecision : 0 < fmt.precision)
    (hx : fmt.Holds mantissa two) (hcoefficient : 0 < coefficient)
    (h : fmt.Near mantissa two (coefficient * 10 ^ ten)) :
    fmt.roundDecimal negative coefficient ten = some ⟨negative, mantissa, two⟩ := by
  have hgap : (gapBelow fmt mantissa two : ℚ) ≤ 2 := by
    exact_mod_cast (gapBelow_mem fmt mantissa two).2
  have hone : (1 : ℚ) ≤ mantissa := by exact_mod_cast hx.positive
  have hlt : (mantissa : ℚ) + 1 ≤ 2 ^ fmt.precision := by exact_mod_cast hx.lt
  have hlow := h.low
  have hhigh := h.high
  have hmin := hx.minExponent_le
  have hrange := hx.inRange
  -- The magnitude is at least half the smallest one, and below the end of the range.
  have hsmallest : (2 : ℚ) ^ (fmt.minExponent - 1) ≤ coefficient * 10 ^ ten := by
    have hhalf : (2 : ℚ) ^ (two - 1 + (0 : ℕ)) ≤ coefficient * 10 ^ ten := by
      rw [← two_pow_le_mul_iff, pow_zero, neg_sub, sub_eq_add_neg, zpow_add₀ (by norm_num),
        zpow_one]
      linarith
    exact (zpow_le_zpow_right₀ (by norm_num) (by push_cast; omega)).trans hhalf
  have hgreatest : (coefficient * 10 ^ ten : ℚ) < 2 ^ fmt.maxExponent := by
    have hfull : (coefficient * 10 ^ ten : ℚ) < 2 ^ (two + fmt.precision) := by
      rw [← mul_two_zpow_neg_lt_iff]
      linarith
    exact hfull.trans_le (zpow_le_zpow_right₀ (by norm_num) hrange)
  rw [roundDecimal_eq_round hcoefficient hsmallest hgreatest]
  refine round_of_near hprecision hx (Nat.mul_pos hcoefficient (power_pos (by norm_num) _))
    (power_pos (by norm_num) _) ?_
  rw [decimal_div]
  exact h

/-- **The digits of a number are rounded back to it**, whatever zeros are written after them. -/
theorem roundDecimal_digits {tie : Tie} (hprecision : 0 < fmt.precision)
    (hx : fmt.Holds mantissa two) (zeros : ℕ) :
    fmt.roundDecimal negative ((digits fmt tie mantissa two).count * 10 ^ zeros)
      ((digits fmt tie mantissa two).exponent - zeros) = some ⟨negative, mantissa, two⟩ := by
  refine roundDecimal_of_near hprecision hx
    (Nat.mul_pos (count_digits_pos hx.positive) (pow_pos (by norm_num) _)) ?_
  have hvalue (count : ℕ) (ten : ℤ) :
      ((count * 10 ^ zeros : ℕ) : ℚ) * 10 ^ (ten - zeros) = count * 10 ^ ten := by
    push_cast
    rw [mul_assoc, ← zpow_natCast, ← zpow_add₀ (by norm_num), add_sub_cancel]
  rw [hvalue]
  exact (roundsTo_iff_near hx.positive).mp (roundsTo_digits hx.positive)

end BinaryFormat

end Signet
