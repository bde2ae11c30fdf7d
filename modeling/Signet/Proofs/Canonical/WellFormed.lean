import Mathlib.Tactic
import Signet.Canonical.Form
import Signet.Proofs.Canonical.Layout
import Signet.Proofs.Json.Grammar

/-!
Canonical text is JSON, whatever the texts of its numbers are.

* `isNumber_renderNumber_iff`: besides numbers' texts, those have a number's text for their
  canonical text that are not only digits and are read as a number. Every other text is kept
  as it is (`renderNumber_eq_self`), and written as a string (`spells_writeNumber`).
* `value_writeNumber`, `tight_writeNumber`: one token either way.
* `canonicalize_wellFormed`: canonical text is therefore JSON, without blanks outside strings.
-/

namespace Signet.Canonical

open Json.Number
open Json (Tight outsideStrings quote)
open Json.Grammar (Value Spells)

variable {s : List Char} {text : String}

/-- What has a canonical text that is a number's: numbers' texts, and what is read as one without
being digits alone. -/
lemma isNumber_renderNumber_iff : isNumber (renderNumber s) = true ↔
    isNumber s = true ∨ ¬ isInteger s = true ∧ ∃ x, NearestTo s x := by
  simp only [← ofText?_eq_some_iff]
  constructor
  · intro h
    by_cases hinteger : isInteger s = true
    · rw [renderNumber_of_isInteger hinteger] at h
      exact .inl h
    cases hx : binary64.ofText? s with
    | some x => exact .inr ⟨hinteger, x, rfl⟩
    | none =>
        rw [renderNumber_of_none hx] at h
        exact .inl h
  · rintro (h | ⟨hinteger, x, hx⟩)
    · exact isNumber_renderNumber h
    · rw [renderNumber_of_some hinteger hx]
      exact isNumber_text x

/-- Every other text is kept. -/
lemma renderNumber_eq_self (h : ¬ isNumber (renderNumber s) = true) : renderNumber s = s := by
  rw [isNumber_renderNumber_iff, not_or, not_and] at h
  by_cases hinteger : isInteger s = true
  · exact renderNumber_of_isInteger hinteger
  cases hx : binary64.ofText? s with
  | some x => exact absurd ⟨x, ofText?_eq_some_iff.mp hx⟩ (h.2 hinteger)
  | none => exact renderNumber_of_none hx

/-- It is written as a string of its own characters. -/
lemma spells_writeNumber (h : ¬ isNumber (renderNumber text.toList) = true) :
    Spells (writeNumber text) text := by
  have hwrite : writeNumber text = quote text := by
    rw [writeNumber, if_neg h, renderNumber_eq_self h, String.ofList_toList]
  rw [hwrite]
  exact Json.Grammar.spells_quote text

/-- A string is no number. -/
lemma isNumber_writeNumber_iff :
    isNumber (writeNumber text) = true ↔ isNumber (renderNumber text.toList) = true := by
  refine ⟨fun h => ?_, fun h => by rwa [writeNumber, if_pos h]⟩
  by_contra hother
  obtain ⟨parts, -, hquote⟩ := spells_writeNumber hother
  obtain ⟨c, rest, hhead, hc⟩ := isNumber_head h
  rw [hquote, List.cons_append] at hhead
  rw [← (List.cons.inj hhead).1] at hc
  revert hc
  decide

/-- A number is written as a number or as a string. -/
lemma mem_expression_or_spells (text : String) :
    writeNumber text ∈ Expression.number.matches' ∨ Spells (writeNumber text) text := by
  by_cases h : isNumber (renderNumber text.toList) = true
  · exact .inl (Expression.isNumber_iff_mem.mp (isNumber_writeNumber_iff.mpr h))
  · exact .inr (spells_writeNumber h)

/-- A plus and a point at an end are read, and laid out anew. Zeros before other digits are kept,
and so is what is not finite. -/
example : ["007", "+5", ".5", "5.", "+1e400", "NaN", ""].map (String.ofList ∘ writeNumber)
    = ["\"007\"", "5", "0.5", "5", "\"+1e400\"", "\"NaN\"", "\"\""] := by
  decide +kernel

lemma value_writeNumber (text : String) : Value (writeNumber text) := by
  rcases mem_expression_or_spells text with h | h
  · exact .number h
  · exact .string h

lemma tight_writeNumber (text : String) : Tight (writeNumber text) := by
  rcases mem_expression_or_spells text with h | h
  · exact Json.tight_of_isNumber (Expression.isNumber_iff_mem.mpr h)
  · exact h.tight

/-- **Canonical text is JSON.** The recogniser of numbers accepts what their regular expression
matches. Whatever is kept as the text of a number is therefore written as one token: as a number if
it is one or, without being digits alone, is read as one, and as the string of its characters
otherwise. So the canonical text of any value is the text of a value, without blanks outside
strings. -/
theorem canonicalize_wellFormed :
    (∀ s : List Char, isNumber s = true ↔ s ∈ Expression.number.matches')
      ∧ (∀ text : String,
        (writeNumber text ∈ Expression.number.matches' ∨ Spells (writeNumber text) text)
        ∧ (writeNumber text ∈ Expression.number.matches' ↔ isNumber text.toList = true
          ∨ ¬ isInteger text.toList = true ∧ ∃ x, NearestTo text.toList x))
      ∧ ∀ (v : Json) (names : List String),
        Value (canonicalize v names).toList
        ∧ ∀ c ∈ outsideStrings .outside (canonicalize v names).toList,
          Json.Parser.isBlank c = false := by
  refine ⟨fun s => Expression.isNumber_iff_mem,
    fun text => ⟨mem_expression_or_spells text, ?_⟩, fun v names => ?_⟩
  · rw [← Expression.isNumber_iff_mem, isNumber_writeNumber_iff, isNumber_renderNumber_iff]
  · rw [canonicalize, String.toList_ofList]
    exact ⟨Json.Grammar.value_write value_writeNumber _,
      (Json.tight_write tight_writeNumber _).isBlank_eq_false⟩

end Signet.Canonical
