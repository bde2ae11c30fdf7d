import Mathlib.Data.List.TakeWhile
import Mathlib.Tactic
import Signet.Json.Number

/-!
The grammar of JSON numbers.

* `IntegerPart`, `FractionPart` and `ExponentPart` are the parts of a number's
  text, and `isNumber_iff` says that the recogniser accepts what is made of
  them. A part ends where the next one can begin, which is at no digit
  (`NoDigit`).
* `isNumber_numeric`, `isNumber_head`: what such texts begin with and consist of.
-/

namespace Signet.Json.Number

/-- One or more digits. -/
def Digits (ds : List Char) : Prop := ds ≠ [] ∧ ∀ c ∈ ds, c.isDigit

/-- A zero, or digits that begin with another one. -/
inductive IntegerPart : List Char → Prop
  | zero : IntegerPart ['0']
  | digits {d : Char} {ds : List Char} (first : d ≠ '0') (all : ∀ c ∈ d :: ds, c.isDigit) :
      IntegerPart (d :: ds)

/-- Nothing, or digits after a point. -/
inductive FractionPart : List Char → Prop
  | none : FractionPart []
  | point {ds : List Char} (digits : Digits ds) : FractionPart ('.' :: ds)

/-- Nothing, or digits after an `e` of either case and an optional sign. -/
inductive ExponentPart : List Char → Prop
  | none : ExponentPart []
  | power {mark : Char} {sign ds : List Char} (letter : mark = 'e' ∨ mark = 'E')
      (signed : sign = [] ∨ sign = ['-'] ∨ sign = ['+']) (digits : Digits ds) :
      ExponentPart (mark :: sign ++ ds)

lemma ne_of_isDigit {c d : Char} (hc : c.isDigit) (hd : ¬ d.isDigit) : c ≠ d := by
  rintro rfl
  exact hd hc

/-- A text that begins with no digit. -/
def NoDigit (s : List Char) : Prop := ∀ c ∈ s.head?, ¬ c.isDigit

variable {s r : List Char}

lemma FractionPart.noDigit_append (h : FractionPart s) (hr : NoDigit r) : NoDigit (s ++ r) := by
  cases h with
  | none => exact hr
  | point _ =>
      intro c hc
      cases hc
      simp

lemma ExponentPart.noDigit (h : ExponentPart s) : NoDigit s := by
  cases h with
  | none => exact fun c hc => absurd hc (by simp)
  | power letter _ _ =>
      intro c hc
      cases hc
      rcases letter with rfl | rfl <;> simp

/-! ### Reading the parts -/

lemma dropWhile_isDigit (hs : ∀ c ∈ s, c.isDigit) (hr : NoDigit r) :
    (s ++ r).dropWhile Char.isDigit = r := by
  rw [List.dropWhile_append_of_pos hs]
  cases r with
  | nil => rfl
  | cons c r => exact List.dropWhile_cons_of_neg (hr c rfl)

/-- Digits are followed by what begins with no digit. -/
lemma afterDigits?_append (hs : Digits s) (hr : NoDigit r) : afterDigits? (s ++ r) = some r := by
  obtain ⟨hne, hall⟩ := hs
  obtain ⟨c, s, rfl⟩ := List.exists_cons_of_ne_nil hne
  rw [List.forall_mem_cons] at hall
  rw [List.cons_append, afterDigits?, if_pos hall.1, dropWhile_isDigit hall.2 hr]

lemma afterDigits?_eq_some (h : afterDigits? s = some r) : ∃ ds, s = ds ++ r ∧ Digits ds := by
  cases s with
  | nil => cases h
  | cons c s =>
      rw [afterDigits?] at h
      split at h
      · rename_i hc
        cases h
        refine ⟨c :: s.takeWhile Char.isDigit, ?_, List.cons_ne_nil _ _, ?_⟩
        · rw [List.cons_append, List.takeWhile_append_dropWhile]
        · rw [List.forall_mem_cons]
          exact ⟨hc, fun d hd => List.mem_takeWhile_imp hd⟩
      · cases h

lemma afterInteger?_append (hs : IntegerPart s) (hr : NoDigit r) :
    afterInteger? (s ++ r) = some r := by
  cases hs with
  | zero => rfl
  | digits first all =>
      rw [List.cons_append, afterInteger?, ← List.cons_append]
      · exact afterDigits?_append ⟨List.cons_ne_nil _ _, all⟩ hr
      · rintro rest heq
        exact first (List.cons.inj heq).1

lemma afterInteger?_eq_some (h : afterInteger? s = some r) : ∃ i, s = i ++ r ∧ IntegerPart i := by
  rw [afterInteger?.eq_def] at h
  split at h
  · cases h
    exact ⟨['0'], rfl, .zero⟩
  · rename_i hne
    obtain ⟨ds, rfl, hds, hall⟩ := afterDigits?_eq_some h
    obtain ⟨d, ds, rfl⟩ := List.exists_cons_of_ne_nil hds
    exact ⟨d :: ds, rfl, .digits (fun hd => hne (ds ++ r) (by rw [hd, List.cons_append])) hall⟩

lemma afterFraction?_append (hs : FractionPart s) (hr : NoDigit r) (hpoint : r.head? ≠ some '.') :
    afterFraction? (s ++ r) = some r := by
  cases hs with
  | none =>
      rw [List.nil_append, afterFraction?]
      rintro rest rfl
      exact hpoint rfl
  | point digits =>
      rw [List.cons_append, afterFraction?]
      exact afterDigits?_append digits hr

lemma afterFraction?_eq_some (h : afterFraction? s = some r) :
    ∃ f, s = f ++ r ∧ FractionPart f := by
  rw [afterFraction?.eq_def] at h
  split at h
  · obtain ⟨ds, rfl, hds⟩ := afterDigits?_eq_some h
    exact ⟨'.' :: ds, rfl, .point hds⟩
  · cases h
    exact ⟨[], rfl, .none⟩

/-- Digits have no sign to drop. -/
lemma dropSign_digits (hs : Digits s) : dropSign s = s := by
  obtain ⟨hne, hall⟩ := hs
  obtain ⟨c, s, rfl⟩ := List.exists_cons_of_ne_nil hne
  have hc : c.isDigit := hall c List.mem_cons_self
  rw [dropSign]
  · rintro rest heq
    exact ne_of_isDigit hc (by simp) (List.cons.inj heq).1
  · rintro rest heq
    exact ne_of_isDigit hc (by simp) (List.cons.inj heq).1

lemma afterExponent?_of_part (hs : ExponentPart s) : afterExponent? s = some [] := by
  cases hs with
  | none => rfl
  | @power mark sign ds letter signed digits =>
      have hsign : dropSign (sign ++ ds) = ds := by
        rcases signed with rfl | rfl | rfl
        · exact dropSign_digits digits
        · rfl
        · rfl
      rw [List.cons_append, afterExponent?, if_pos letter, hsign]
      have hread := @afterDigits?_append ds [] digits (fun c hc => absurd hc (by simp))
      rwa [List.append_nil] at hread

lemma afterExponent?_eq_some (h : afterExponent? s = some []) : ExponentPart s := by
  cases s with
  | nil => exact .none
  | cons mark s =>
      rw [afterExponent?] at h
      split at h
      · rename_i letter
        obtain ⟨ds, hds, digits⟩ := afterDigits?_eq_some h
        rw [List.append_nil] at hds
        rw [dropSign.eq_def] at hds
        split at hds
        · exact .power letter (.inr (.inl rfl)) (hds ▸ digits)
        · exact .power letter (.inr (.inr rfl)) (hds ▸ digits)
        · exact .power letter (.inl rfl) (hds ▸ digits)
      · cases h

/-! ### Whole numbers' texts -/

/-- An integer part has no minus to drop. -/
lemma dropMinus_append (hs : IntegerPart s) (r : List Char) : dropMinus (s ++ r) = s ++ r := by
  cases hs with
  | zero => rfl
  | @digits d ds first all =>
      rw [dropMinus]
      rintro rest heq
      exact ne_of_isDigit (all d List.mem_cons_self) (by simp) (List.cons.inj heq).1

/-- **What is recognised as a number**: an optional minus, an integer part, an optional fraction
and an optional exponent. -/
theorem isNumber_iff : isNumber s = true ↔ ∃ sign i f e, s = sign ++ (i ++ (f ++ e))
    ∧ (sign = [] ∨ sign = ['-']) ∧ IntegerPart i ∧ FractionPart f ∧ ExponentPart e := by
  rw [isNumber, beq_iff_eq]
  constructor
  · intro h
    simp only [Option.bind_eq_bind, Option.bind_eq_some_iff] at h
    obtain ⟨r, ⟨r', hi, hf⟩, he⟩ := h
    obtain ⟨i, hs, hinteger⟩ := afterInteger?_eq_some hi
    obtain ⟨f, rfl, hfraction⟩ := afterFraction?_eq_some hf
    have hexponent := afterExponent?_eq_some he
    rw [dropMinus.eq_def] at hs
    split at hs
    · exact ⟨['-'], i, f, r, by rw [hs]; rfl, .inr rfl, hinteger, hfraction, hexponent⟩
    · exact ⟨[], i, f, r, hs, .inl rfl, hinteger, hfraction, hexponent⟩
  · rintro ⟨sign, i, f, e, rfl, hsign, hinteger, hfraction, hexponent⟩
    have hminus : dropMinus (sign ++ (i ++ (f ++ e))) = i ++ (f ++ e) := by
      rcases hsign with rfl | rfl
      · exact dropMinus_append hinteger _
      · rfl
    have hpoint : e.head? ≠ some '.' := by
      cases hexponent with
      | none => simp
      | power letter _ _ => rcases letter with rfl | rfl <;> simp
    rw [hminus, afterInteger?_append hinteger (hfraction.noDigit_append hexponent.noDigit)]
    simp [afterFraction?_append hfraction hexponent.noDigit hpoint,
      afterExponent?_of_part hexponent]

/-- A character that may stand in a number's text. -/
def IsNumeric (c : Char) : Prop := c.isDigit ∨ c ∈ ['-', '+', '.', 'e', 'E']

lemma Digits.numeric (h : Digits s) : ∀ c ∈ s, IsNumeric c := fun c hc => .inl (h.2 c hc)

lemma IntegerPart.numeric (h : IntegerPart s) : ∀ c ∈ s, IsNumeric c := by
  cases h with
  | zero => simp [IsNumeric]
  | digits _ all => exact fun c hc => .inl (all c hc)

lemma FractionPart.numeric (h : FractionPart s) : ∀ c ∈ s, IsNumeric c := by
  cases h with
  | none => simp
  | point digits =>
      rw [List.forall_mem_cons]
      exact ⟨by simp [IsNumeric], digits.numeric⟩

lemma ExponentPart.numeric (h : ExponentPart s) : ∀ c ∈ s, IsNumeric c := by
  cases h with
  | none => simp
  | @power mark sign ds letter signed digits =>
      have hmark : IsNumeric mark := by
        rcases letter with rfl | rfl <;> simp [IsNumeric]
      have hsign : ∀ c ∈ sign, IsNumeric c := by
        rcases signed with rfl | rfl | rfl <;> simp [IsNumeric]
      rw [List.cons_append, List.forall_mem_cons, List.forall_mem_append]
      exact ⟨hmark, hsign, digits.numeric⟩

/-- Nothing else stands in a number's text. -/
lemma isNumber_numeric (h : isNumber s = true) : ∀ c ∈ s, IsNumeric c := by
  obtain ⟨sign, i, f, e, rfl, hsign, hinteger, hfraction, hexponent⟩ := isNumber_iff.mp h
  have hminus : ∀ c ∈ sign, IsNumeric c := by
    rcases hsign with rfl | rfl <;> simp [IsNumeric]
  simp only [List.forall_mem_append]
  exact ⟨hminus, hinteger.numeric, hfraction.numeric, hexponent.numeric⟩

/-- It begins with a minus or a digit. -/
lemma isNumber_head (h : isNumber s = true) : ∃ c rest, s = c :: rest ∧ (c = '-' ∨ c.isDigit) := by
  obtain ⟨sign, i, f, e, rfl, hsign, hinteger, -, -⟩ := isNumber_iff.mp h
  rcases hsign with rfl | rfl
  · cases hinteger with
    | zero => exact ⟨'0', _, rfl, .inr rfl⟩
    | digits _ all => exact ⟨_, _, rfl, .inr (all _ List.mem_cons_self)⟩
  · exact ⟨'-', _, rfl, .inl rfl⟩

end Signet.Json.Number
