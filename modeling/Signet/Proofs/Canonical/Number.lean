import Mathlib.Tactic
import Signet.Canonical.Number
import Signet.Proofs.Decimal.Shortest
import Signet.Proofs.Decimal.Text

/-!
The canonical text of a number is the text of a number.

* `toDigits_eq_cons`: the digits of a positive number begin with another one than
  zero.
* `Says`: an integer part, a fraction and an exponent, and what they say.
  `says_positional`, `says_scientific`: both ways to lay digits out give such a text,
  which says what the digits do (`says_magnitude`); `isNumber_text` puts the sign
  before it.
* `isNumber_renderNumber`, `writeNumber_eq`: so that no number's text is ever
  written as a string.
-/

namespace Signet.Canonical

open Json.Number
open Decimal (digitsValue digitsValue_append digitsValue_replicate digitsValue_toDigits)

/-- An integer part, a fraction and an exponent that say `count * 10 ^ ten`, perhaps with zeros
after the digits of the count. -/
def Says (s : List Char) (count : ℕ) (ten : ℤ) : Prop :=
  ∃ (i f e : List Char) (n : ℤ) (zeros : ℕ), s = i ++ (f ++ e)
    ∧ IntegerPart i ∧ FractionPart f ∧ ExponentPart e
    ∧ Decimal.exponent? e = some n ∧ digitsValue (i ++ f.tail) = count * 10 ^ zeros
    ∧ n - f.tail.length = ten - zeros

lemma digits_toDigits (n : ℕ) : Digits (Nat.toDigits 10 n) :=
  ⟨Nat.toDigits_ne_nil, fun _ hc => Nat.isDigit_of_mem_toDigits (by norm_num) le_rfl hc⟩

/-- The digits of a positive number begin with another one than zero. -/
lemma toDigits_eq_cons {n : ℕ} (h : 0 < n) :
    ∃ d ds, Nat.toDigits 10 n = d :: ds ∧ d ≠ '0' := by
  induction n using Nat.strong_induction_on with
  | _ n ih =>
      by_cases hn : n < 10
      · refine ⟨n.digitChar, [], Nat.toDigits_of_lt_base hn, ?_⟩
        interval_cases n <;> decide
      · obtain ⟨d, ds, hds, hd⟩ := ih (n / 10) (by omega) (by omega)
        rw [Nat.toDigits_of_base_le (by norm_num) (by omega), hds]
        exact ⟨d, _, rfl, hd⟩

lemma isDigit_of_mem_replicate {k : ℕ} {c : Char} (h : c ∈ List.replicate k '0') : c.isDigit := by
  rw [List.eq_of_mem_replicate h]
  decide

section

variable {d : Char} {ds : List Char} (hd : d ≠ '0') (hall : ∀ c ∈ d :: ds, c.isDigit)
include hd hall

/-- Digits with a point among, before or after them. -/
lemma says_positional (point : ℤ) : Says (layout.positional (d :: ds) point)
    (digitsValue (d :: ds)) (point - (d :: ds).length) := by
  rw [Layout.positional]
  by_cases hpoint : point ≤ 0
  · rw [if_pos hpoint]
    refine ⟨['0'], '.' :: (List.replicate (-point).toNat '0' ++ d :: ds), [], 0, 0, by simp, .zero,
      .point ⟨by simp, fun c hc => ?_⟩, .none, rfl, ?_, ?_⟩
    · rcases List.mem_append.mp hc with hc | hc
      · exact isDigit_of_mem_replicate hc
      · exact hall c hc
    · rw [List.tail_cons, ← List.append_assoc, digitsValue_append, List.singleton_append,
        ← List.replicate_succ, digitsValue_replicate, Nat.zero_mul, Nat.zero_add, Nat.pow_zero,
        Nat.mul_one]
    · rw [List.tail_cons, List.length_append, List.length_replicate]
      push_cast
      omega
  rw [if_neg hpoint]
  by_cases hwhole : (d :: ds).length ≤ point.toNat
  · rw [if_pos hwhole]
    refine ⟨d :: (ds ++ List.replicate (point.toNat - (d :: ds).length) '0'), [], [], 0,
      point.toNat - (d :: ds).length, by simp [layout], .digits hd fun c hc => ?_, .none, .none,
      rfl, ?_, ?_⟩
    · rw [← List.cons_append] at hc
      rcases List.mem_append.mp hc with hc | hc
      · exact hall c hc
      · exact isDigit_of_mem_replicate hc
    · rw [List.tail_nil, List.append_nil, ← List.cons_append, digitsValue_append,
        digitsValue_replicate, List.length_replicate, Nat.add_zero]
    · rw [List.tail_nil, List.length_nil]
      push_cast
      omega
  · rw [if_neg hwhole]
    obtain ⟨k, hk⟩ : ∃ k, point.toNat = k + 1 := ⟨point.toNat - 1, by omega⟩
    rw [hk] at hwhole ⊢
    have hdrop : ds.drop k ≠ [] := by
      rw [ne_eq, List.drop_eq_nil_iff]
      simpa using hwhole
    refine ⟨d :: ds.take k, '.' :: ds.drop k, [], 0, 0, by simp, .digits hd fun c hc => hall c ?_,
      .point ⟨hdrop, fun c hc => hall c ?_⟩, .none, rfl, ?_, ?_⟩
    · exact @List.mem_of_mem_take _ (k + 1) _ _ hc
    · exact List.mem_cons_of_mem d (List.mem_of_mem_drop hc)
    · rw [List.tail_cons, List.cons_append, List.take_append_drop, Nat.pow_zero, Nat.mul_one]
    · rw [List.tail_cons, List.length_drop, List.length_cons]
      rw [List.length_cons] at hwhole
      omega

/-- Digits with a point after the first one, and an exponent. -/
lemma says_scientific (point : ℤ) : Says (layout.scientific (d :: ds) point)
    (digitsValue (d :: ds)) (point - (d :: ds).length) := by
  have hexponent : ExponentPart ('E' :: (if point - 1 < 0 then ['-'] else [])
      ++ Nat.toDigits 10 (point - 1).natAbs) := by
    refine .power (.inr rfl) ?_ (digits_toDigits _)
    by_cases hpoint : point - 1 < 0
    · exact .inr (.inl (if_pos hpoint))
    · exact .inl (if_neg hpoint)
  have hread : Decimal.exponent? ('E' :: (if point - 1 < 0 then ['-'] else [])
      ++ Nat.toDigits 10 (point - 1).natAbs) = some (point - 1) := by
    have hdigits := digits_toDigits (point - 1).natAbs
    by_cases hpoint : point - 1 < 0
    · rw [if_pos hpoint]
      refine (Decimal.exponent?_minus (.inr rfl) hdigits).trans ?_
      rw [digitsValue_toDigits]
      exact congrArg some (by omega)
    · rw [if_neg hpoint]
      refine (@Decimal.exponent?_plus _ [] _ (.inr rfl) (.inl rfl) hdigits).trans ?_
      rw [digitsValue_toDigits]
      exact congrArg some (by omega)
  have hfirst : IntegerPart [d] := .digits hd fun c hc =>
    List.mem_singleton.mp hc ▸ hall d List.mem_cons_self
  cases ds with
  | nil =>
      refine ⟨[d], ['.', '0'], _, point - 1, 1, rfl, hfirst, .point ⟨by simp, by simp⟩, hexponent,
        hread, ?_, ?_⟩
      · rw [List.tail_cons, digitsValue_append]
        rfl
      · rw [List.tail_cons, List.length_singleton, List.length_singleton]
        rfl
  | cons c ds =>
      refine ⟨[d], '.' :: c :: ds, _, point - 1, 0, by simp [Layout.scientific, layout], hfirst,
        .point ⟨by simp, fun c' hc' => ?_⟩, hexponent, hread, ?_, ?_⟩
      · exact hall c' (List.mem_cons_of_mem d hc')
      · rw [List.tail_cons, List.singleton_append, Nat.pow_zero, Nat.mul_one]
      · rw [List.tail_cons, @List.length_cons _ d]
        push_cast
        omega

end

/-- **A positive magnitude is laid out as what its digits say.** -/
theorem says_magnitude {mantissa : ℕ} (h : 0 < mantissa) (two : ℤ) :
    Says (layout.magnitude mantissa two)
      (Shortest.digits layout.format layout.tie mantissa two).count
      (Shortest.digits layout.format layout.tie mantissa two).exponent := by
  obtain ⟨d, ds, hds, hd⟩ := toDigits_eq_cons
    (@Shortest.count_digits_pos layout.format layout.tie mantissa two h)
  have hall := (digits_toDigits (Shortest.digits layout.format layout.tie mantissa two).count).2
  have hvalue := digitsValue_toDigits
    (Shortest.digits layout.format layout.tie mantissa two).count
  rw [Layout.magnitude]
  rw [hds] at hall hvalue ⊢
  split
  · have hsays := says_positional hd hall
      ((d :: ds).length + (Shortest.digits layout.format layout.tie mantissa two).exponent)
    rwa [hvalue, add_sub_cancel_left] at hsays
  · have hsays := says_scientific hd hall
      ((d :: ds).length + (Shortest.digits layout.format layout.tie mantissa two).exponent)
    rwa [hvalue, add_sub_cancel_left] at hsays

/-- **A binary number is laid out as the text of a number.** -/
theorem isNumber_text (x : Binary) : isNumber (layout.text x) = true := by
  have hbody : ∃ i f e, (if x.mantissa = 0 then '0' :: layout.wholeEnd.toList
      else layout.magnitude x.mantissa x.exponent) = i ++ (f ++ e)
        ∧ IntegerPart i ∧ FractionPart f ∧ ExponentPart e := by
    by_cases hzero : x.mantissa = 0
    · rw [if_pos hzero]
      exact ⟨['0'], [], [], rfl, .zero, .none, .none⟩
    · rw [if_neg hzero]
      obtain ⟨i, f, e, -, -, hs, hi, hf, he, -⟩ :=
        says_magnitude (Nat.pos_of_ne_zero hzero) x.exponent
      exact ⟨i, f, e, hs, hi, hf, he⟩
  obtain ⟨i, f, e, hs, hparts⟩ := hbody
  rw [isNumber_iff, Layout.text, hs]
  refine ⟨_, i, f, e, rfl, ?_, hparts⟩
  cases x.negative
  · exact .inl rfl
  · exact .inr rfl

/-- **The canonical text of a number is the text of a number.** -/
theorem isNumber_renderNumber {s : List Char} (h : isNumber s = true) :
    isNumber (renderNumber s) = true := by
  rw [renderNumber]
  split
  · exact h
  split
  · exact isNumber_text _
  · exact h

/-- It is therefore never written as a string. -/
lemma writeNumber_eq {text : String} (h : isNumber text.toList = true) :
    writeNumber text = renderNumber text.toList :=
  if_pos (isNumber_renderNumber h)

end Signet.Canonical
