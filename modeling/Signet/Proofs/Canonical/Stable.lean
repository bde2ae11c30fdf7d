import Mathlib.Tactic
import Signet.Proofs.Canonical.Number
import Signet.Proofs.Decimal.Nearest

/-!
Canonical numbers stay as they are when they are read and written again.

* `ofText?_text`: a number of the format is read back from the text that it is laid out
  as, since its digits are rounded back to it.
* `renderNumber_renderNumber`: the canonical text of a number has itself for its canonical text.
  So it has in the spelling that reading keeps (`renderNumber_of_kept`). Whole numbers are kept
  and written as they are; so are numbers beyond the range.
-/

namespace Signet.Canonical

open Json (Kept)
open Json.Number

lemma regular_binary64 : binary64.Regular := ⟨by decide, by decide⟩

/-- What comes out of reading a number's text is zero or a number of the format. -/
lemma contains_of_ofText? {s : List Char} {x : Binary} (h : binary64.ofText? s = some x) :
    binary64.Contains x := by
  rw [BinaryFormat.ofText?, Option.bind_eq_bind, Option.bind_eq_some_iff] at h
  obtain ⟨d, -, hround⟩ := h
  exact (BinaryFormat.isNearest_of_roundDecimal regular_binary64 hround).2.1.contains

lemma ofText?_text_of_holds {x : Binary} (hx : binary64.Holds x.mantissa x.exponent) :
    binary64.ofText? (layout.text x) = some x := by
  obtain ⟨i, f, e, n, zeros, hs, hi, hf, he, hn, hcount, hten⟩ :=
    says_magnitude hx.positive x.exponent
  have hsign : (if x.negative then ['-'] else []) = [] ∨
      (if x.negative then ['-'] else []) = ['-'] := by
    cases x.negative
    · exact .inl rfl
    · exact .inr rfl
  have hnegative : decide ((if x.negative then ['-'] else []) = ['-']) = x.negative := by
    cases x.negative <;> rfl
  have htext : layout.text x = (if x.negative then ['-'] else []) ++ (i ++ (f ++ e)) := by
    rw [Layout.text, if_neg hx.positive.ne', hs]
  rw [BinaryFormat.ofText?, htext, Decimal.ofText?_append hsign hi hf he, hn, hnegative]
  simp only [Option.map_some, Option.bind_eq_bind, Option.bind_some]
  rw [hcount, hten]
  exact BinaryFormat.roundDecimal_digits regular_binary64.one_lt.le hx zeros

/-- **A number is read back from its text**, and zero with its sign. -/
theorem ofText?_text {x : Binary} (hx : binary64.Contains x) :
    binary64.ofText? (layout.text x) = some x := by
  cases hx with
  | zero negative => cases negative <;> rfl
  | holds holds => exact ofText?_text_of_holds holds

/-- What is kept of a text depends on the text alone. -/
lemma kept_unique {s t u : List Char} (ht : Kept s t) (hu : Kept s u) : t = u := by
  have hread := (Json.number_append ht Json.ends_nil).symm.trans
    (Json.number_append hu Json.ends_nil)
  exact congrArg Prod.fst (Except.ok.inj hread)

lemma renderNumber_of_isInteger {s : List Char} (hs : isInteger s = true) : renderNumber s = s :=
  if_pos hs

lemma renderNumber_of_some {s : List Char} {x : Binary} (hs : ¬ isInteger s = true)
    (hx : binary64.ofText? s = some x) : renderNumber s = layout.text x := by
  rw [renderNumber, if_neg hs, hx]

lemma renderNumber_of_none {s : List Char} (hx : binary64.ofText? s = none) :
    renderNumber s = s := by
  rw [renderNumber, hx]
  exact ite_self s

/-- The canonical text of a number is in canonical form. -/
lemma renderNumber_renderNumber (s : List Char) :
    renderNumber (renderNumber s) = renderNumber s := by
  by_cases hs : isInteger s = true
  · rw [renderNumber_of_isInteger hs, renderNumber_of_isInteger hs]
  cases hx : binary64.ofText? s with
  | none => rw [renderNumber_of_none hx, renderNumber_of_none hx]
  | some x =>
      rw [renderNumber_of_some hs hx]
      by_cases htext : isInteger (layout.text x) = true
      · exact renderNumber_of_isInteger htext
      · exact renderNumber_of_some htext (ofText?_text (contains_of_ofText? hx))

/-- **Canonical numbers are stable**: the canonical text of a number, spelled as reading keeps it,
has itself for its canonical text. -/
theorem renderNumber_of_kept {s t : List Char} (hs : Kept s s) (ht : Kept (renderNumber s) t) :
    renderNumber t = renderNumber s := by
  by_cases hinteger : isInteger (renderNumber s) = true
  · rw [← ht.eq_of_isInteger (.inl hinteger)]
    exact renderNumber_of_isInteger hinteger
  have hother : ¬ isInteger s = true := fun h => hinteger (by rwa [renderNumber, if_pos h])
  have hother' : ¬ isInteger t = true := fun h =>
    hinteger (by rwa [ht.eq_of_isInteger (.inr h)])
  cases hx : binary64.ofText? s with
  | none =>
      rw [renderNumber_of_none hx] at ht
      rw [← kept_unique hs ht]
  | some x =>
      rw [renderNumber_of_some hother hx] at ht hinteger ⊢
      refine renderNumber_of_some hother' ?_
      rw [← ofText?_text (contains_of_ofText? hx), BinaryFormat.ofText?, BinaryFormat.ofText?,
        Decimal.ofText?_eq_of_kept ht]

end Signet.Canonical
