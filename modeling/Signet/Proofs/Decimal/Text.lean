import Mathlib.Tactic
import Signet.Decimal.Text
import Signet.Proofs.Json.Spelling

/-!
What the parts of a decimal text say.

* `digitsValue_append`, `digitsValue_toDigits`: digits are read as the standard library
  reads them, so that they give back the number that they were written from.
* `ofText?_append`: the text of a number says its digits, with the digits of the
  fraction taken from the power of ten that the exponent says.
* `ofText?_eq_of_kept`: the spelling that is kept says the same.
-/

namespace Signet.Decimal

open Json (ExponentKept Kept)
open Json.Number (Digits IntegerPart FractionPart ExponentPart NoDigit)

variable {s t r : List Char}

/-! ### Digits -/

lemma digitsValue_eq_ofDigitChars (ds : List Char) :
    digitsValue ds = Nat.ofDigitChars 10 ds 0 := by
  rw [digitsValue, Nat.ofDigitChars]
  congr 1
  funext n c
  rw [Nat.mul_comm]

/-- Digits before others count a power of ten more for each of these. -/
lemma digitsValue_append (as bs : List Char) :
    digitsValue (as ++ bs) = digitsValue as * 10 ^ bs.length + digitsValue bs := by
  rw [digitsValue_eq_ofDigitChars, digitsValue_eq_ofDigitChars, digitsValue_eq_ofDigitChars,
    Nat.ofDigitChars_append, Nat.ofDigitChars_eq_ofDigitChars_zero, Nat.mul_comm]

/-- The digits of a number are read as the number. -/
lemma digitsValue_toDigits (n : ℕ) : digitsValue (Nat.toDigits 10 n) = n := by
  rw [digitsValue_eq_ofDigitChars, Nat.ofDigitChars_toDigits (by norm_num) le_rfl]

lemma digitsValue_replicate (k : ℕ) : digitsValue (List.replicate k '0') = 0 := by
  rw [digitsValue_eq_ofDigitChars, Nat.ofDigitChars_replicate_zero, Nat.mul_zero]

/-! ### The parts of a text -/

/-- An exponent without a minus. -/
lemma exponent?_plus {mark : Char} {sign ds : List Char} (letter : mark = 'e' ∨ mark = 'E')
    (signed : sign = [] ∨ sign = ['+']) (digits : Digits ds) :
    exponent? (mark :: (sign ++ ds)) = some (digitsValue ds) := by
  obtain ⟨d, ds, rfl⟩ := List.exists_cons_of_ne_nil digits.1
  have hall : (d :: ds).all Char.isDigit = true := List.all_eq_true.mpr digits.2
  have hminus : d ≠ '-' := Json.Number.ne_of_isDigit (digits.2 d List.mem_cons_self) (by decide)
  have hdrop : Json.Number.dropSign (sign ++ d :: ds) = d :: ds := by
    rcases signed with rfl | rfl
    · exact Json.Number.dropSign_digits digits
    · rfl
  have hhead : (sign ++ d :: ds).head? ≠ some '-' := by
    rcases signed with rfl | rfl
    · simpa using hminus
    · simp
  simp only [exponent?, if_pos letter, hdrop, hall, if_neg hhead]
  simp

/-- An exponent with a minus. -/
lemma exponent?_minus {mark : Char} {ds : List Char} (letter : mark = 'e' ∨ mark = 'E')
    (digits : Digits ds) : exponent? (mark :: '-' :: ds) = some (-(digitsValue ds : ℤ)) := by
  obtain ⟨d, ds, rfl⟩ := List.exists_cons_of_ne_nil digits.1
  have hall : (d :: ds).all Char.isDigit = true := List.all_eq_true.mpr digits.2
  simp only [exponent?, if_pos letter, Json.Number.dropSign, hall]
  simp

/-- The exponent that is kept says the same. -/
lemma exponent?_eq_of_kept (h : ExponentKept s t) : exponent? s = exponent? t := by
  cases h with
  | none => rfl
  | plus letter signed digits =>
      exact (exponent?_plus letter signed digits).trans
        (@exponent?_plus _ ['+'] _ (.inl rfl) (.inr rfl) digits).symm
  | minus letter digits =>
      exact (exponent?_minus letter digits).trans (exponent?_minus (.inl rfl) digits).symm

lemma exists_exponent (h : ExponentPart s) : ∃ n, exponent? s = some n := by
  obtain ⟨t, ht⟩ := Json.exists_exponentKept h
  cases ht with
  | none => exact ⟨0, rfl⟩
  | plus letter signed digits => exact ⟨_, exponent?_plus letter signed digits⟩
  | minus letter digits => exact ⟨_, exponent?_minus letter digits⟩

lemma IntegerPart.digits {i : List Char} (h : IntegerPart i) : Digits i := by
  cases h with
  | zero => exact ⟨by simp, by simp⟩
  | digits _ all => exact ⟨List.cons_ne_nil _ _, all⟩

/-- What a number's text without its sign says. -/
lemma unsigned?_append {i f e : List Char} (negative : Bool) (hi : IntegerPart i)
    (hf : FractionPart f) (he : ExponentPart e) :
    unsigned? negative (i ++ (f ++ e)) = (exponent? e).map fun n =>
      ⟨negative, digitsValue (i ++ f.tail), n - f.tail.length⟩ := by
  have hdigits := IntegerPart.digits hi
  have hnone := he.noDigit
  have hwhole := Json.takeWhile_isDigit hdigits.2 (hf.noDigit_append hnone)
  have hrest := Json.Number.dropWhile_isDigit hdigits.2 (hf.noDigit_append hnone)
  rw [unsigned?, hwhole, hrest]
  cases hf with
  | none =>
      cases he with
      | none => simp [hdigits.1]
      | power letter _ _ => rcases letter with rfl | rfl <;> simp [hdigits.1]
  | @point ds digits =>
      have htake := Json.takeWhile_isDigit digits.2 hnone
      have hdrop := Json.Number.dropWhile_isDigit digits.2 hnone
      simp [htake, hdrop, hdigits.1]

/-- **What a number's text says**: its digits, times the power of ten that is left of the exponent
when the digits after the point are taken from it. -/
theorem ofText?_append {sign i f e : List Char} (hsign : sign = [] ∨ sign = ['-'])
    (hi : IntegerPart i) (hf : FractionPart f) (he : ExponentPart e) :
    ofText? (sign ++ (i ++ (f ++ e))) = (exponent? e).map fun n =>
      ⟨decide (sign = ['-']), digitsValue (i ++ f.tail), n - f.tail.length⟩ := by
  rcases hsign with rfl | rfl
  · obtain ⟨d, ds, rfl⟩ := List.exists_cons_of_ne_nil (IntegerPart.digits hi).1
    have hd : d.isDigit := (IntegerPart.digits hi).2 d List.mem_cons_self
    have hminus : d ≠ '-' := Json.Number.ne_of_isDigit hd (by decide)
    have hplus : d ≠ '+' := Json.Number.ne_of_isDigit hd (by decide)
    rw [List.nil_append, List.cons_append, ofText?, ← List.cons_append, unsigned?_append _ hi hf he]
    · simp
    · exact fun rest heq => hminus (List.cons.inj heq).1
    · exact fun rest heq => hplus (List.cons.inj heq).1
  · rw [List.singleton_append, ofText?, unsigned?_append _ hi hf he]
    simp

/-- The spelling that is kept says the same. -/
theorem ofText?_eq_of_kept (h : Kept s t) : ofText? s = ofText? t := by
  obtain ⟨sign, i, f, e, e', rfl, rfl, hsign, hi, hf, he⟩ := h
  rw [ofText?_append hsign hi hf he.left, ofText?_append hsign hi hf he.right.left,
    exponent?_eq_of_kept he]

end Signet.Decimal
