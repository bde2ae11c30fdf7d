import Mathlib.Computability.RegularExpressions
import Mathlib.Tactic
import Signet.Proofs.Json.Number

/-!
The regular expression of JSON numbers.

* `Expression.number` is what a number's text has to match, made of `integer`, `fraction` and
  `exponent`. They match the parts that the recogniser finds (`mem_integer_iff`,
  `mem_fraction_iff`, `mem_exponent_iff`).
* `isNumber_iff_mem`: the recogniser accepts what the whole expression matches.
-/

namespace Signet.Json.Number.Expression

open RegularExpression (char star)

/-- One of some characters. -/
def oneOf (cs : List Char) : RegularExpression Char := (cs.map char).sum

/-- Something or nothing. -/
def optional (p : RegularExpression Char) : RegularExpression Char := 1 + p

/-- A digit, `[0-9]`. -/
def digit : RegularExpression Char := oneOf "0123456789".toList

/-- One or more digits, `[0-9]+`. -/
def digits : RegularExpression Char := digit * star digit

/-- The integer part, `0|[1-9][0-9]*`. -/
def integer : RegularExpression Char := char '0' + oneOf "123456789".toList * star digit

/-- The fraction, `\.[0-9]+`. -/
def fraction : RegularExpression Char := char '.' * digits

/-- The exponent, `[eE][+-]?[0-9]+`. -/
def exponent : RegularExpression Char := oneOf "eE".toList * optional (oneOf "+-".toList) * digits

/-- A number, `-?(0|[1-9][0-9]*)(\.[0-9]+)?([eE][+-]?[0-9]+)?`. -/
def number : RegularExpression Char :=
  optional (char '-') * integer * optional fraction * optional exponent

variable {s : List Char}

lemma mem_char_iff {c : Char} : s ∈ (char c).matches' ↔ s = [c] := by
  rw [RegularExpression.matches'_char]
  rfl

lemma mem_oneOf_iff {cs : List Char} : s ∈ (oneOf cs).matches' ↔ ∃ c ∈ cs, s = [c] := by
  induction cs with
  | nil => simp [oneOf]
  | cons c cs ih =>
      rw [oneOf, List.map_cons, List.sum_cons, RegularExpression.matches'_add, Language.mem_add,
        mem_char_iff, ← oneOf, ih, List.exists_mem_cons_iff]

lemma mem_optional_iff {p : RegularExpression Char} :
    s ∈ (optional p).matches' ↔ s = [] ∨ s ∈ p.matches' := by
  rw [optional, RegularExpression.matches'_add, Language.mem_add,
    RegularExpression.matches'_epsilon, Language.mem_one]

lemma mem_mul_iff {p q : RegularExpression Char} :
    s ∈ (p * q).matches' ↔ ∃ a ∈ p.matches', ∃ b ∈ q.matches', a ++ b = s := by
  rw [RegularExpression.matches'_mul, Language.mem_mul]

lemma isDigit_iff_mem {c : Char} : c.isDigit = true ↔ c ∈ "0123456789".toList := by
  constructor
  · intro h
    obtain ⟨hlow, hhigh⟩ : 48 ≤ c.toNat ∧ c.toNat ≤ 57 := by
      simpa [Char.isDigit, UInt32.le_iff_toNat_le] using h
    rw [← Char.ofNat_toNat c]
    interval_cases c.toNat <;> decide
  · intro h
    fin_cases h <;> rfl

lemma isDigit_and_ne_zero_iff_mem {c : Char} :
    c ≠ '0' ∧ c.isDigit = true ↔ c ∈ "123456789".toList := by
  rw [isDigit_iff_mem]
  constructor
  · rintro ⟨hne, h⟩
    exact (List.mem_cons.mp h).resolve_left hne
  · intro h
    exact ⟨by rintro rfl; simp at h, List.mem_cons_of_mem '0' h⟩

lemma mem_star_digit_iff : s ∈ (star digit).matches' ↔ ∀ c ∈ s, c.isDigit := by
  rw [RegularExpression.matches'_star, Language.mem_kstar]
  constructor
  · rintro ⟨parts, rfl, hparts⟩ c hc
    obtain ⟨part, hpart, hc⟩ := List.mem_flatten.mp hc
    obtain ⟨d, hd, rfl⟩ := mem_oneOf_iff.mp (hparts part hpart)
    rw [List.mem_singleton.mp hc]
    exact isDigit_iff_mem.mpr hd
  · intro h
    refine ⟨s.map fun c => [c], by rw [← List.flatMap_def, List.flatMap_singleton'],
      fun part hpart => ?_⟩
    obtain ⟨c, hc, rfl⟩ := List.mem_map.mp hpart
    exact mem_oneOf_iff.mpr ⟨c, isDigit_iff_mem.mp (h c hc), rfl⟩

lemma mem_digits_iff : s ∈ digits.matches' ↔ Digits s := by
  rw [digits, mem_mul_iff]
  constructor
  · rintro ⟨a, ha, b, hb, rfl⟩
    obtain ⟨c, hc, rfl⟩ := mem_oneOf_iff.mp ha
    refine ⟨List.cons_ne_nil c b, List.forall_mem_cons.mpr ⟨isDigit_iff_mem.mpr hc, ?_⟩⟩
    exact mem_star_digit_iff.mp hb
  · rintro ⟨hne, hall⟩
    obtain ⟨c, s, rfl⟩ := List.exists_cons_of_ne_nil hne
    rw [List.forall_mem_cons] at hall
    exact ⟨[c], mem_oneOf_iff.mpr ⟨c, isDigit_iff_mem.mp hall.1, rfl⟩, s,
      mem_star_digit_iff.mpr hall.2, rfl⟩

lemma mem_integer_iff : s ∈ integer.matches' ↔ IntegerPart s := by
  rw [integer, RegularExpression.matches'_add, Language.mem_add, mem_char_iff, mem_mul_iff]
  constructor
  · rintro (rfl | ⟨a, ha, b, hb, rfl⟩)
    · exact .zero
    · obtain ⟨c, hc, rfl⟩ := mem_oneOf_iff.mp ha
      obtain ⟨hne, hdigit⟩ := isDigit_and_ne_zero_iff_mem.mpr hc
      exact .digits hne (List.forall_mem_cons.mpr ⟨hdigit, mem_star_digit_iff.mp hb⟩)
  · intro h
    cases h with
    | zero => exact .inl rfl
    | @digits d ds first all =>
        rw [List.forall_mem_cons] at all
        have hd := isDigit_and_ne_zero_iff_mem.mp ⟨first, all.1⟩
        exact .inr ⟨[d], mem_oneOf_iff.mpr ⟨d, hd, rfl⟩, ds, mem_star_digit_iff.mpr all.2, rfl⟩

lemma mem_fraction_iff : s ∈ (optional fraction).matches' ↔ FractionPart s := by
  rw [mem_optional_iff, fraction, mem_mul_iff]
  constructor
  · rintro (rfl | ⟨a, ha, b, hb, rfl⟩)
    · exact .none
    · rw [mem_char_iff.mp ha]
      exact .point (mem_digits_iff.mp hb)
  · intro h
    cases h with
    | none => exact .inl rfl
    | point hds => exact .inr ⟨_, mem_char_iff.mpr rfl, _, mem_digits_iff.mpr hds, rfl⟩

lemma mem_exponent_iff : s ∈ (optional exponent).matches' ↔ ExponentPart s := by
  rw [mem_optional_iff, exponent, mem_mul_iff]
  constructor
  · rintro (rfl | ⟨a, ha, ds, hds, rfl⟩)
    · exact .none
    · obtain ⟨b, hb, sign, hsign, rfl⟩ := mem_mul_iff.mp ha
      obtain ⟨mark, hmark, rfl⟩ := mem_oneOf_iff.mp hb
      refine .power (by simpa using hmark) ?_ (mem_digits_iff.mp hds)
      rcases mem_optional_iff.mp hsign with rfl | hsign
      · exact .inl rfl
      · obtain ⟨c, hc, rfl⟩ := mem_oneOf_iff.mp hsign
        fin_cases hc
        · exact .inr (.inr rfl)
        · exact .inr (.inl rfl)
  · intro h
    cases h with
    | none => exact .inl rfl
    | @power mark sign ds letter signed hds =>
        have hmark : [mark] ∈ (oneOf "eE".toList).matches' :=
          mem_oneOf_iff.mpr ⟨mark, by simpa using letter, rfl⟩
        have hsign : sign ∈ (optional (oneOf "+-".toList)).matches' := by
          rw [mem_optional_iff, mem_oneOf_iff]
          rcases signed with rfl | rfl | rfl <;> simp
        exact .inr ⟨_, mem_mul_iff.mpr ⟨_, hmark, _, hsign, rfl⟩, ds, mem_digits_iff.mpr hds, rfl⟩

/-- **The recogniser accepts what the regular expression matches.** -/
theorem isNumber_iff_mem : isNumber s = true ↔ s ∈ number.matches' := by
  rw [isNumber_iff, number, mem_mul_iff]
  constructor
  · rintro ⟨sign, i, f, e, rfl, hsign, hi, hf, he⟩
    have hminus : sign ∈ (optional (char '-')).matches' := by
      rw [mem_optional_iff, mem_char_iff]
      exact hsign
    have hwhole : sign ++ i ∈ (optional (char '-') * integer).matches' :=
      mem_mul_iff.mpr ⟨_, hminus, _, mem_integer_iff.mpr hi, rfl⟩
    refine ⟨_, mem_mul_iff.mpr ⟨_, hwhole, _, mem_fraction_iff.mpr hf, rfl⟩, e,
      mem_exponent_iff.mpr he, ?_⟩
    rw [List.append_assoc, List.append_assoc]
  · rintro ⟨a, ha, e, he, rfl⟩
    obtain ⟨b, hb, f, hf, rfl⟩ := mem_mul_iff.mp ha
    obtain ⟨sign, hsign, i, hi, rfl⟩ := mem_mul_iff.mp hb
    rw [mem_optional_iff, mem_char_iff] at hsign
    exact ⟨sign, i, f, e, by rw [List.append_assoc, List.append_assoc], hsign,
      mem_integer_iff.mp hi, mem_fraction_iff.mp hf, mem_exponent_iff.mp he⟩

end Signet.Json.Number.Expression
