import Mathlib.Tactic
import Signet.Except
import Signet.Json.Parser
import Signet.Proofs.Json.Separated

/-!
How numbers are spelled when they are read.

* `Kept`: a number's text and the spelling that reading keeps. Only an exponent changes,
  which gets a small `e` and a sign. A spelling that is kept is kept again
  (`Kept.right`), and there is one for every number's text (`exists_kept`).
* `number_append`: a number's text is read as the spelling that is kept, up to what ends
  it. `kept_of_number`: nothing else comes out of reading a number.
* `Kept.eq_of_isInteger`: whole numbers are kept as they are.
-/

namespace Signet.Json

open Number (Digits IntegerPart FractionPart ExponentPart NoDigit isNumber isInteger)

/-- An exponent part as it is written and as it is kept. -/
inductive ExponentKept : List Char → List Char → Prop
  /-- There is none. -/
  | none : ExponentKept [] []
  /-- One without a sign is positive. -/
  | plus {mark : Char} {sign ds : List Char} (letter : mark = 'e' ∨ mark = 'E')
      (signed : sign = [] ∨ sign = ['+']) (digits : Digits ds) :
      ExponentKept (mark :: (sign ++ ds)) ('e' :: '+' :: ds)
  /-- A minus stays. -/
  | minus {mark : Char} {ds : List Char} (letter : mark = 'e' ∨ mark = 'E') (digits : Digits ds) :
      ExponentKept (mark :: '-' :: ds) ('e' :: '-' :: ds)

/-- A number's text as it is written and as it is kept. -/
def Kept (s t : List Char) : Prop :=
  ∃ sign i f e e', s = sign ++ (i ++ (f ++ e)) ∧ t = sign ++ (i ++ (f ++ e'))
    ∧ (sign = [] ∨ sign = ['-']) ∧ IntegerPart i ∧ FractionPart f ∧ ExponentKept e e'

variable {s t r e e' : List Char}

lemma ExponentKept.left (h : ExponentKept e e') : ExponentPart e := by
  cases h with
  | none => exact .none
  | plus letter signed digits => exact .power letter (signed.imp_right .inr) digits
  | minus letter digits => exact .power letter (.inr (.inl rfl)) digits

lemma ExponentKept.right (h : ExponentKept e e') : ExponentKept e' e' := by
  cases h with
  | none => exact .none
  | plus _ _ digits => exact .plus (.inl rfl) (.inr rfl) digits
  | minus _ digits => exact .minus (.inl rfl) digits

lemma exists_exponentKept (h : ExponentPart e) : ∃ e', ExponentKept e e' := by
  cases h with
  | none => exact ⟨[], .none⟩
  | power letter signed digits =>
      rcases signed with rfl | rfl | rfl
      · exact ⟨_, .plus letter (.inl rfl) digits⟩
      · exact ⟨_, .minus letter digits⟩
      · exact ⟨_, .plus letter (.inr rfl) digits⟩

/-- What is kept is a number's text, kept as it is. -/
lemma Kept.right (h : Kept s t) : Kept t t := by
  obtain ⟨sign, i, f, e, e', rfl, rfl, hsign, hi, hf, he⟩ := h
  exact ⟨sign, i, f, e', e', rfl, rfl, hsign, hi, hf, he.right⟩

lemma Kept.isNumber (h : Kept s t) : Number.isNumber s = true := by
  obtain ⟨sign, i, f, e, e', rfl, rfl, hsign, hi, hf, he⟩ := h
  exact Number.isNumber_iff.mpr ⟨sign, i, f, e, rfl, hsign, hi, hf, he.left⟩

lemma exists_kept (h : isNumber s = true) : ∃ t, Kept s t := by
  obtain ⟨sign, i, f, e, rfl, hsign, hi, hf, he⟩ := Number.isNumber_iff.mp h
  obtain ⟨e', he'⟩ := exists_exponentKept he
  exact ⟨_, sign, i, f, e, e', rfl, rfl, hsign, hi, hf, he'⟩

/-! ### Whole numbers -/

/-- A text with a character in it that is no digit and comes after the sign is none of a whole
number. -/
lemma isInteger_eq_false {sign i : List Char} (hsign : sign = [] ∨ sign = ['-'])
    (hi : IntegerPart i) {c : Char} (hc : ¬ c.isDigit) (hmem : c ∈ r) :
    isInteger (sign ++ (i ++ r)) = false := by
  have hminus : Number.dropMinus (sign ++ (i ++ r)) = i ++ r := by
    rcases hsign with rfl | rfl
    · exact Number.dropMinus_append hi r
    · rfl
  rw [isInteger, hminus, Bool.and_eq_false_iff]
  refine .inr (List.all_eq_false.mpr ⟨c, List.mem_append_right i hmem, hc⟩)

/-- A whole number is kept as it is, and nothing else becomes one. -/
lemma Kept.eq_of_isInteger (h : Kept s t) (hs : isInteger s = true ∨ isInteger t = true) :
    s = t := by
  obtain ⟨sign, i, f, e, e', rfl, rfl, hsign, hi, hf, he⟩ := h
  have hmark {mark : Char} (letter : mark = 'e' ∨ mark = 'E') : ¬ mark.isDigit := by
    rcases letter with rfl | rfl <;> decide
  cases he with
  | none => rfl
  | plus letter _ _ =>
      rw [isInteger_eq_false hsign hi (hmark letter) (by simp),
        isInteger_eq_false hsign hi (hmark (.inl rfl)) (by simp)] at hs
      simp at hs
  | minus letter _ =>
      rw [isInteger_eq_false hsign hi (hmark letter) (by simp),
        isInteger_eq_false hsign hi (hmark (.inl rfl)) (by simp)] at hs
      simp at hs

/-! ### Reading a number -/

lemma takeWhile_isDigit (hs : ∀ c ∈ s, c.isDigit) (hr : NoDigit r) :
    (s ++ r).takeWhile Char.isDigit = s := by
  rw [List.takeWhile_append_of_pos hs]
  cases r with
  | nil => simp
  | cons c r => rw [List.takeWhile_cons_of_neg (hr c rfl), List.append_nil]

lemma noDigit_of_ends (hr : Ends r) : NoDigit r := by
  intro c hc
  have hmem := hr c hc
  fin_cases hmem <;> decide

/-- What ends a value is neither a fraction nor an exponent. -/
lemma head?_ne_of_ends (hr : Ends r) {c : Char} (hc : c ∉ [',', ']', '\x7d']) :
    r.head? ≠ some c :=
  fun h => hc (hr c h)

lemma integer_append {i : List Char} (hi : IntegerPart i) (hr : NoDigit r) :
    Parser.integer (i ++ r) = .ok (i, r) := by
  cases hi with
  | zero =>
      cases r with
      | nil => rfl
      | cons c r =>
          have hc : ¬ c.isDigit := hr c rfl
          simp [Parser.integer, hc]
  | @digits d ds first all =>
      rw [List.forall_mem_cons] at all
      rw [List.cons_append, Parser.integer, if_pos all.1, takeWhile_isDigit all.2 hr,
        Number.dropWhile_isDigit all.2 hr]
      exact first

lemma fraction_append {f : List Char} (hf : FractionPart f) (hr : NoDigit r)
    (hpoint : r.head? ≠ some '.') : Parser.fraction (f ++ r) = .ok (f, r) := by
  cases hf with
  | none =>
      rw [List.nil_append, Parser.fraction]
      rintro rest rfl
      exact hpoint rfl
  | @point ds digits =>
      obtain ⟨d, ds, rfl⟩ := List.exists_cons_of_ne_nil digits.1
      have hd : d.isDigit := digits.2 d List.mem_cons_self
      have htake := takeWhile_isDigit digits.2 hr
      have hdrop := Number.dropWhile_isDigit digits.2 hr
      rw [List.cons_append] at htake hdrop
      simp only [List.cons_append, Parser.fraction, if_pos hd, htake, hdrop]

/-- The exponent after its mark and its sign, which is given. -/
lemma exponent_sign {mark : Char} (letter : mark = 'e' ∨ mark = 'E') {sign ds : List Char}
    {kept : Char} (digits : Digits ds)
    (hsign : sign = [] ∧ kept = '+' ∨ sign = [kept] ∧ (kept = '+' ∨ kept = '-'))
    (hr : NoDigit r) :
    Parser.exponent (mark :: (sign ++ (ds ++ r))) = .ok ('e' :: kept :: ds, r) := by
  obtain ⟨d, ds, rfl⟩ := List.exists_cons_of_ne_nil digits.1
  have hd : d.isDigit := digits.2 d List.mem_cons_self
  have htake := takeWhile_isDigit digits.2 hr
  have hdrop := Number.dropWhile_isDigit digits.2 hr
  rw [List.cons_append] at htake hdrop ⊢
  have hminus : d ≠ '-' := Number.ne_of_isDigit hd (by decide)
  have hplus : d ≠ '+' := Number.ne_of_isDigit hd (by decide)
  unfold Parser.exponent
  simp only [if_pos letter]
  rcases hsign with ⟨rfl, rfl⟩ | ⟨rfl, rfl | rfl⟩
  · simp [hd, htake, hdrop, hminus, hplus]
  · simp [hd, htake, hdrop]
  · simp [hd, htake, hdrop]

lemma exponent_append (he : ExponentKept e e') (hr : NoDigit r)
    (hmark : ∀ c, c = 'e' ∨ c = 'E' → r.head? ≠ some c) :
    Parser.exponent (e ++ r) = .ok (e', r) := by
  cases he with
  | none =>
      cases r with
      | nil => rfl
      | cons c r =>
          unfold Parser.exponent
          simp only [List.nil_append, if_neg fun hc => hmark c hc rfl]
  | @plus mark sign ds letter signed digits =>
      rw [List.cons_append, List.append_assoc]
      refine exponent_sign letter digits ?_ hr
      rcases signed with rfl | rfl
      · exact .inl ⟨rfl, rfl⟩
      · exact .inr ⟨rfl, .inl rfl⟩
  | @minus mark ds letter digits =>
      exact @exponent_sign _ _ letter ['-'] _ _ digits (.inr ⟨rfl, .inr rfl⟩) hr

/-- An exponent before an end begins neither as the digits nor as the fraction before it. -/
lemma exponentPart_head (he : ExponentPart e) (hr : Ends r) :
    NoDigit (e ++ r) ∧ (e ++ r).head? ≠ some '.' := by
  cases he with
  | none => exact ⟨noDigit_of_ends hr, head?_ne_of_ends hr (by decide)⟩
  | power letter _ _ =>
      have hhead : ∀ c, c = 'e' ∨ c = 'E' → ¬ c.isDigit ∧ c ≠ '.' := by
        rintro c (rfl | rfl) <;> decide
      refine ⟨fun c hc => ?_, fun hc => (hhead _ letter).2 (Option.some.inj hc)⟩
      cases hc
      exact (hhead _ letter).1

/-- **A number's text is read as the spelling that is kept**, up to what ends it. -/
theorem number_append (h : Kept s t) (hr : Ends r) : Parser.number (s ++ r) = .ok (t, r) := by
  obtain ⟨sign, i, f, e, e', rfl, rfl, hsign, hi, hf, he⟩ := h
  obtain ⟨hnone, hpoint⟩ := exponentPart_head he.left hr
  have hmark : ∀ c, c = 'e' ∨ c = 'E' → r.head? ≠ some c := by
    rintro c (rfl | rfl)
    · exact head?_ne_of_ends hr (by decide)
    · exact head?_ne_of_ends hr (by decide)
  have hunsigned : Parser.unsigned (i ++ (f ++ (e ++ r))) = .ok (i ++ (f ++ e'), r) := by
    simp only [Parser.unsigned, Except.bind_eq_ok_iff, Prod.exists]
    refine ⟨i, _, integer_append hi (hf.noDigit_append hnone), f, _,
      fraction_append hf hnone hpoint, e', r, exponent_append he (noDigit_of_ends hr) hmark, ?_⟩
    rw [List.append_assoc]
    rfl
  rw [List.append_assoc, List.append_assoc, List.append_assoc]
  rcases hsign with rfl | rfl
  · rw [List.nil_append, List.nil_append, Parser.number]
    · exact hunsigned
    · intro rest heq
      have hdrop := Number.dropMinus_append hi (f ++ (e ++ r))
      rw [heq, Number.dropMinus] at hdrop
      exact absurd (congrArg List.length hdrop) (by simp)
  · rw [List.singleton_append, Parser.number, hunsigned]
    rfl

/-! ### What comes out of reading a number -/

lemma integerPart_of_integer (h : Parser.integer s = .ok (t, r)) : IntegerPart t := by
  unfold Parser.integer at h
  split at h
  · cases h
  · split at h
    · split at h
      · cases h
      · cases h
        exact .zero
    · cases h
      exact .zero
  · rename_i c rest hne
    split at h
    · rename_i hc
      cases h
      refine .digits hne fun d hd => ?_
      rcases List.mem_cons.mp hd with rfl | hd
      · exact hc
      · exact List.mem_takeWhile_imp hd
    · cases h

lemma fractionPart_of_fraction (h : Parser.fraction s = .ok (t, r)) : FractionPart t := by
  unfold Parser.fraction at h
  split at h
  · split at h
    · cases h
    · split at h
      · rename_i c rest hc
        cases h
        refine .point ⟨?_, fun d hd => List.mem_takeWhile_imp hd⟩
        rw [List.takeWhile_cons_of_pos hc]
        exact List.cons_ne_nil _ _
      · cases h
  · cases h
    exact .none

/-- Digits are taken after the sign. -/
lemma digits_of_sign {sign : Char} (h : (match s with
      | [] => Except.error (Parser.before .endInValue [])
      | d :: _ =>
        if d.isDigit then
          Except.ok ('e' :: sign :: s.takeWhile Char.isDigit, s.dropWhile Char.isDigit)
        else Except.error (Parser.past .badNumber s)) = Except.ok (t, r)) :
    ∃ ds, Digits ds ∧ t = 'e' :: sign :: ds := by
  split at h
  · cases h
  split at h
  · rename_i d rest hd
    cases h
    refine ⟨_, ⟨?_, fun c hc => List.mem_takeWhile_imp hc⟩, rfl⟩
    rw [List.takeWhile_cons_of_pos hd]
    exact List.cons_ne_nil _ _
  · cases h

lemma exponentKept_of_exponent (h : Parser.exponent s = .ok (t, r)) : ExponentKept t t := by
  unfold Parser.exponent at h
  split at h
  · cases h
    exact .none
  split at h
  · obtain ⟨ds, digits, rfl⟩ := digits_of_sign h
    split
    · exact .minus (.inl rfl) digits
    · exact .plus (.inl rfl) (.inr rfl) digits
    · exact .plus (.inl rfl) (.inr rfl) digits
  · cases h
    exact .none

/-- What comes out of reading a number is a number's text, kept as it is. -/
lemma kept_of_number (h : Parser.number s = .ok (t, r)) : Kept t t := by
  have hunsigned {s t r} (h : Parser.unsigned s = .ok (t, r)) : ∃ i f e, t = i ++ (f ++ e)
      ∧ IntegerPart i ∧ FractionPart f ∧ ExponentKept e e := by
    simp only [Parser.unsigned, Except.bind_eq_ok_iff, Prod.exists] at h
    obtain ⟨i, _, hi, f, _, hf, e, _, he, heq⟩ := h
    cases heq
    exact ⟨i, f, e, List.append_assoc _ _ _, integerPart_of_integer hi,
      fractionPart_of_fraction hf, exponentKept_of_exponent he⟩
  unfold Parser.number at h
  split at h
  · simp only [Except.bind_eq_ok_iff, Prod.exists] at h
    obtain ⟨digits, rest, hread, heq⟩ := h
    cases heq
    obtain ⟨i, f, e, rfl, hi, hf, he⟩ := hunsigned hread
    exact ⟨['-'], i, f, e, e, rfl, rfl, .inr rfl, hi, hf, he⟩
  · obtain ⟨i, f, e, rfl, hi, hf, he⟩ := hunsigned h
    exact ⟨[], i, f, e, e, rfl, rfl, .inl rfl, hi, hf, he⟩

/-- So is what comes out of reading a whole text as a number. -/
lemma kept_of_numberText {text : String} (h : Parser.numberText text = .ok t) : Kept t t := by
  rw [Parser.numberText, Except.mapError_eq_ok_iff] at h
  unfold Parser.wholeNumber at h
  split at h
  · cases h
  split at h
  · split at h
    · rename_i hread
      cases h
      exact kept_of_number hread
    · cases h
    · cases h
    · cases h
  · cases h

end Signet.Json
