import Mathlib.Tactic
import Signet.Proofs.Canonical.Stable
import Signet.Proofs.Decimal.Places

/-!
How canonical numbers look, and what they depend on.

* `not_mem_positional_iff`, `scientific_scientific`: both ways to lay digits out.
* `laidOut_text`: a number of the format is laid out without a power of ten from a thousandth up
  to ten million. The digits decide about this, and agree with the number
  (`value_digits_lt_thousandth_iff`, `value_digits_lt_tenMillion_iff`).
* `ofText?_eq_some_iff`, `ofText?_eq_none_iff`: a text is read as the nearest number, unless it
  is beyond the range.
* `writeNumber_laidOut` puts these together for the text of a number, spelled as reading keeps it.
-/

namespace Signet.Canonical

open Json (Kept)
open Json.Number
open Shortest (digits)

/-! ### Laying digits out -/

/-- A text with a power of ten in it. -/
def HasExponent (s : List Char) : Prop := 'e' ∈ s ∨ 'E' ∈ s

/-- An optional minus, one digit, a point, digits, and a power of ten that has no plus. -/
inductive Scientific : List Char → Prop
  | intro {sign ds minus n : List Char} {d : Char} (signed : sign = [] ∨ sign = ['-'])
      (first : d.isDigit) (fraction : Digits ds) (direction : minus = [] ∨ minus = ['-'])
      (power : Digits n) : Scientific (sign ++ d :: '.' :: ds ++ 'E' :: minus ++ n)

section

variable {ds : List Char} {d c : Char} {point : ℤ}

lemma not_mem_of_digits (hall : ∀ c ∈ ds, c.isDigit) (hc : ¬ c.isDigit) : c ∉ ds :=
  fun hmem => hc (hall c hmem)

lemma not_mem_replicate (hc : ¬ c.isDigit) (k : ℕ) : c ∉ List.replicate k '0' :=
  fun hmem => hc (isDigit_of_mem_replicate hmem)

/-- Only a point may stand among the digits, and stands there unless they end before it. -/
lemma not_mem_positional_iff (hds : Digits ds) (hc : ¬ c.isDigit) :
    c ∉ layout.positional ds point ↔ (c = '.' → (ds.length : ℤ) ≤ point) := by
  have hlength : 0 < ds.length := List.length_pos_of_ne_nil hds.1
  have hzero : c ≠ '0' := (ne_of_isDigit (by decide) hc).symm
  have hmem := not_mem_of_digits hds.2 hc
  have hreplicate := not_mem_replicate hc
  rw [Layout.positional]
  split
  · rename_i hpoint
    have hbehind : ¬ (ds.length : ℤ) ≤ point := by omega
    simp [hzero, hmem, hreplicate, hbehind]
  split
  · rename_i hpoint hwhole
    have hbefore : (ds.length : ℤ) ≤ point := by omega
    simp [hmem, hreplicate, hbefore, layout]
  · rename_i hpoint hwhole
    have hbehind : ¬ (ds.length : ℤ) ≤ point := by omega
    have htake : c ∉ ds.take point.toNat := fun h => hmem (List.mem_of_mem_take h)
    have hdrop : c ∉ ds.drop point.toNat := fun h => hmem (List.mem_of_mem_drop h)
    simp [htake, hdrop, hbehind]

lemma scientific_scientific {sign : List Char} (hsign : sign = [] ∨ sign = ['-'])
    (hall : ∀ c ∈ d :: ds, c.isDigit) (point : ℤ) :
    Scientific (sign ++ layout.scientific (d :: ds) point) := by
  have hdirection : (if point - 1 < 0 then ['-'] else []) = []
      ∨ (if point - 1 < 0 then ['-'] else []) = ['-'] := by
    split
    · exact .inr rfl
    · exact .inl rfl
  have hfirst : d.isDigit := hall d List.mem_cons_self
  have hpower := digits_toDigits (point - 1).natAbs
  cases ds with
  | nil =>
      have hfraction : Digits ['0'] := ⟨by simp, by simp⟩
      have h := Scientific.intro hsign hfirst hfraction hdirection hpower
      simpa [Layout.scientific, layout] using h
  | cons c ds =>
      have hfraction : Digits (c :: ds) :=
        ⟨List.cons_ne_nil c ds, fun c' hc' => hall c' (List.mem_cons_of_mem d hc')⟩
      have h := Scientific.intro hsign hfirst hfraction hdirection hpower
      simpa [Layout.scientific, layout] using h

lemma Scientific.hasExponent {s : List Char} (h : Scientific s) : HasExponent s := by
  cases h with
  | intro => exact .inr (by simp)

end

/-! ### Thousandths and millions -/

section

variable {m : ℕ} {e : ℤ} (hx : binary64.Holds m e)
include hx

lemma value_digits_lt_tenMillion_iff :
    (digits binary64 .up m e).value < 10 ^ (7 : ℤ) ↔ (m * 2 ^ e : ℚ) < 10 ^ (7 : ℤ) := by
  have hpower : binary64.Holds 5368709120000000 (-29) :=
    ⟨by norm_num, by decide, by decide, by decide, by decide⟩
  exact hx.value_digits_lt_iff regular_binary64 hpower (by norm_num) (by decide +kernel)

lemma value_digits_lt_thousandth_iff :
    (digits binary64 .up m e).value < 10 ^ (-3 : ℤ) ↔ (m * 2 ^ e : ℚ) < 10 ^ (-3 : ℤ) := by
  have hpower : binary64.Holds 4611686018427388 (-62) :=
    ⟨by norm_num, by decide, by decide, by decide, by decide⟩
  exact hx.value_digits_lt_iff regular_binary64 hpower (by norm_num) (by decide +kernel)

/-- Where the point stands tells whether a magnitude lies from a thousandth up to ten million. -/
lemma point_mem_iff :
    let d := digits binary64 .up m e
    (-2 ≤ (Nat.toDigits 10 d.count).length + d.exponent
        ∧ (Nat.toDigits 10 d.count).length + d.exponent ≤ 7)
      ↔ 10 ^ (-3 : ℤ) ≤ (m * 2 ^ e : ℚ) ∧ (m * 2 ^ e : ℚ) < 10 ^ (7 : ℤ) := by
  intro d
  have hcount : 0 < d.count := Shortest.count_digits_pos hx.positive
  rw [← value_digits_lt_tenMillion_iff hx, ← @not_lt ℚ, ← value_digits_lt_thousandth_iff hx,
    ← Shortest.Digits.length_add_le_iff hcount, ← Shortest.Digits.length_add_le_iff hcount]
  omega

/-- Below ten million there are places behind the point. -/
lemma exponent_nonpos_of_lt (h : (m * 2 ^ e : ℚ) < 10 ^ (7 : ℤ)) : e ≤ 0 := by
  by_contra hpos
  rw [not_le] at hpos
  have hfull : 2 ^ 52 ≤ m := hx.full (lt_trans (by decide) hpos)
  have hmantissa : (2 ^ 52 : ℚ) ≤ m := by exact_mod_cast hfull
  have hone : (1 : ℚ) ≤ 2 ^ e := one_le_zpow₀ (by norm_num) hpos.le
  have hle : (2 ^ 52 : ℚ) ≤ m * 2 ^ e :=
    hmantissa.trans (le_mul_of_one_le_right (by positivity) hone)
  norm_num at h hle
  linarith

/-- From a thousandth up to ten million there is no power of ten, and the digits end before the
point just for whole numbers. -/
lemma magnitude_positional
    (h : 10 ^ (-3 : ℤ) ≤ (m * 2 ^ e : ℚ) ∧ (m * 2 ^ e : ℚ) < 10 ^ (7 : ℤ)) :
    ∃ ds point, layout.magnitude m e = layout.positional ds point ∧ Digits ds
      ∧ ((ds.length : ℤ) ≤ point ↔ ∃ n : ℕ, (m * 2 ^ e : ℚ) = n) := by
  refine ⟨_, _, if_pos ((point_mem_iff hx).mpr h), digits_toDigits _, ?_⟩
  rw [← @BinaryFormat.Holds.exponent_digits_nonneg_iff _ .up _ _ hx (exponent_nonpos_of_lt hx h.2)]
  exact le_add_iff_nonneg_right _

/-- Everywhere else there is one. -/
lemma magnitude_scientific
    (h : ¬ (10 ^ (-3 : ℤ) ≤ (m * 2 ^ e : ℚ) ∧ (m * 2 ^ e : ℚ) < 10 ^ (7 : ℤ)))
    {sign : List Char} (hsign : sign = [] ∨ sign = ['-']) :
    Scientific (sign ++ layout.magnitude m e) := by
  obtain ⟨d, ds, hds, -⟩ := toDigits_eq_cons
    (@Shortest.count_digits_pos layout.format layout.tie m e hx.positive)
  have hall := (digits_toDigits (digits layout.format layout.tie m e).count).2
  have hmagnitude : layout.magnitude m e = layout.scientific _ _ :=
    if_neg ((point_mem_iff hx).not.mpr h)
  rw [hds] at hall
  rw [hmagnitude, hds]
  exact scientific_scientific hsign hall _

end

/-! ### The text of a number -/

lemma abs_value (x : Binary) : |x.value| = x.mantissa * 2 ^ x.exponent :=
  abs_signed x.negative (by positivity)

/-- A number with a sign is whole if its magnitude is. -/
lemma value_eq_int_iff (x : Binary) :
    (∃ n : ℤ, x.value = n) ↔ ∃ n : ℕ, (x.mantissa * 2 ^ x.exponent : ℚ) = n := by
  rw [← abs_value]
  constructor
  · rintro ⟨n, hn⟩
    exact ⟨n.natAbs, by rw [hn, Nat.cast_natAbs, Int.cast_abs]⟩
  · rintro ⟨n, hn⟩
    rcases abs_eq_abs.mp (hn.trans (Nat.abs_cast n).symm) with h | h
    · exact ⟨n, by rw [h, Int.cast_natCast]⟩
    · exact ⟨-n, by rw [h, Int.cast_neg, Int.cast_natCast]⟩

/-- How the canonical text of a number looks. -/
structure LaidOut (s : List Char) (x : Binary) : Prop where
  /-- The number is read back from it. -/
  read : binary64.ofText? s = some x
  /-- Zero and what lies from a thousandth up to ten million has no power of ten. -/
  plain : ¬ HasExponent s
    ↔ x.value = 0 ∨ 10 ^ (-3 : ℤ) ≤ |x.value| ∧ |x.value| < 10 ^ (7 : ℤ)
  /-- Of these, whole numbers have no fraction. -/
  whole : ¬ HasExponent s → ('.' ∉ s ↔ ∃ n : ℤ, x.value = n)
  /-- Everything else has one digit before the point. -/
  scientific : HasExponent s → Scientific s

lemma not_mem_sign {sign : List Char} (hsign : sign = [] ∨ sign = ['-']) {c : Char}
    (hc : c ≠ '-') : c ∉ sign := by
  rcases hsign with rfl | rfl
  · exact List.not_mem_nil
  · rwa [List.mem_singleton]

/-- Nothing else than a point stands among the characters of a number without a power of ten. -/
lemma not_mem_sign_positional_iff {sign ds : List Char} {c : Char} {point : ℤ}
    (hsign : sign = [] ∨ sign = ['-']) (hds : Digits ds) (hc : ¬ c.isDigit) (hminus : c ≠ '-') :
    c ∉ sign ++ layout.positional ds point ↔ (c = '.' → (ds.length : ℤ) ≤ point) := by
  rw [← not_mem_positional_iff hds hc, List.mem_append, or_iff_right (not_mem_sign hsign hminus)]

lemma not_hasExponent_positional {sign ds : List Char} {point : ℤ}
    (hsign : sign = [] ∨ sign = ['-']) (hds : Digits ds) :
    ¬ HasExponent (sign ++ layout.positional ds point) := by
  have hletter {c : Char} (hc : ¬ c.isDigit) (hminus : c ≠ '-') (hpoint : c ≠ '.') :=
    (@not_mem_sign_positional_iff _ _ _ point hsign hds hc hminus).mpr fun h => absurd h hpoint
  exact not_or.mpr ⟨hletter (by decide) (by decide) (by decide),
    hletter (by decide) (by decide) (by decide)⟩

lemma laidOut_text_of_holds {x : Binary} (hx : binary64.Holds x.mantissa x.exponent) :
    LaidOut (layout.text x) x := by
  have hread := ofText?_text (.holds hx)
  have hne : x.value ≠ 0 := by
    rw [← abs_ne_zero, abs_value]
    exact (mul_pos (by exact_mod_cast hx.positive) (by positivity)).ne'
  obtain ⟨sign, hsign, htext⟩ : ∃ sign : List Char, (sign = [] ∨ sign = ['-'])
      ∧ layout.text x = sign ++ layout.magnitude x.mantissa x.exponent := by
    refine ⟨if x.negative then ['-'] else [], ?_, by rw [Layout.text, if_neg hx.positive.ne']⟩
    cases x.negative
    · exact .inl rfl
    · exact .inr rfl
  rw [htext] at hread ⊢
  by_cases h : 10 ^ (-3 : ℤ) ≤ |x.value| ∧ |x.value| < 10 ^ (7 : ℤ)
  · obtain ⟨ds, point, hmagnitude, hds, hwhole⟩ :=
      magnitude_positional hx (by rwa [abs_value] at h)
    rw [hmagnitude] at hread ⊢
    have hplain := @not_hasExponent_positional _ _ point hsign hds
    refine ⟨hread, iff_of_true hplain (.inr h), fun _ => ?_, fun he => absurd he hplain⟩
    rw [value_eq_int_iff, ← hwhole,
      not_mem_sign_positional_iff hsign hds (by decide) (by decide)]
    exact ⟨fun himp => himp rfl, fun hle _ => hle⟩
  · have hscientific := magnitude_scientific hx (by rwa [abs_value] at h) hsign
    have hexponent := hscientific.hasExponent
    exact ⟨hread, iff_of_false (not_not.mpr hexponent) (not_or.mpr ⟨hne, h⟩),
      fun hplain => absurd hexponent hplain, fun _ => hscientific⟩

/-- **A number is laid out without a power of ten from a thousandth up to ten million**, and then
without a fraction if it is whole. -/
theorem laidOut_text {x : Binary} (hx : binary64.Contains x) : LaidOut (layout.text x) x := by
  have hread := ofText?_text hx
  cases hx with
  | zero negative =>
      have hvalue : (⟨negative, 0, binary64.minExponent⟩ : Binary).value = 0 := by
        rw [← abs_eq_zero, abs_value, Nat.cast_zero, zero_mul]
      have htext : ∀ c ∈ layout.text ⟨negative, 0, binary64.minExponent⟩, c = '-' ∨ c = '0' := by
        cases negative <;> simp [Layout.text, layout]
      have hplain : ¬ HasExponent (layout.text ⟨negative, 0, binary64.minExponent⟩) :=
        not_or.mpr ⟨fun h => by simpa using htext _ h, fun h => by simpa using htext _ h⟩
      refine ⟨hread, iff_of_true hplain (.inl hvalue), fun _ => ?_, fun h => absurd h hplain⟩
      exact iff_of_true (fun h => by simpa using htext _ h) ⟨0, by rw [hvalue, Int.cast_zero]⟩
  | holds holds => exact laidOut_text_of_holds holds

/-! ### Reading a number's text -/

/-- What a text says is beyond the range. -/
def Overflows (s : List Char) : Prop :=
  ∃ d, Decimal.ofText? s = some d ∧ binary64.overflow ≤ |d.value|

/-- A number is the nearest one to what a text says, and has its sign; what the text says is not
beyond the range. -/
def NearestTo (s : List Char) (x : Binary) : Prop :=
  ∃ d, Decimal.ofText? s = some d ∧ |d.value| < binary64.overflow
    ∧ x.negative = d.negative ∧ binary64.IsNearest x d.value

lemma abs_decimal_value (d : Decimal) : |d.value| = d.coefficient * 10 ^ d.exponent :=
  abs_signed d.negative (by positivity)

/-- **A text is read as the nearest number.** -/
theorem ofText?_eq_some_iff {s : List Char} {x : Binary} :
    binary64.ofText? s = some x ↔ NearestTo s x := by
  rw [BinaryFormat.ofText?, Option.bind_eq_bind, Option.bind_eq_some_iff]
  refine exists_congr fun d => and_congr_right fun _ => ?_
  rw [BinaryFormat.roundDecimal_eq_some_iff regular_binary64, abs_decimal_value]
  constructor
  · rintro ⟨hsign, hnearest, hrange⟩
    exact ⟨hrange, hsign, hnearest⟩
  · rintro ⟨hrange, hsign, hnearest⟩
    exact ⟨hsign, hnearest, hrange⟩

/-- The text of a number says a decimal. -/
lemma exists_decimal {s : List Char} (h : isNumber s = true) :
    ∃ d, Decimal.ofText? s = some d := by
  obtain ⟨sign, i, f, e, rfl, hsign, hi, hf, he⟩ := isNumber_iff.mp h
  obtain ⟨n, hn⟩ := Decimal.exists_exponent he
  rw [Decimal.ofText?_append hsign hi hf he, hn]
  exact ⟨_, rfl⟩

/-- **The text of a number is not read just if it says something beyond the range.** -/
theorem ofText?_eq_none_iff {s : List Char} (h : isNumber s = true) :
    binary64.ofText? s = none ↔ Overflows s := by
  obtain ⟨d, hd⟩ := exists_decimal h
  rw [BinaryFormat.ofText?, hd, Option.bind_eq_bind, Option.bind_some,
    BinaryFormat.roundDecimal_eq_none_iff regular_binary64, ← abs_decimal_value]
  refine ⟨fun hover => ⟨d, hd, hover⟩, ?_⟩
  rintro ⟨d', hd', hover⟩
  rwa [Option.some.inj (hd.symm.trans hd')]

/-! ### Canonical numbers -/

/-- **Canonical numbers.** The canonical text of a number's text, spelled as reading keeps it, is
the text of a number. Whole numbers stand for themselves, and so does what is beyond the range.
Everything else is laid out as the nearest number, in a way that depends on this number only. The
canonical text is its own, and has a spelling that reading keeps, of which it is the canonical text
too. -/
theorem writeNumber_laidOut {text : String} (h : Kept text.toList text.toList) :
    isNumber (writeNumber text) = true
      ∧ (isInteger text.toList = true ∨ Overflows text.toList → writeNumber text = text.toList)
      ∧ (¬ (isInteger text.toList = true ∨ Overflows text.toList) →
        ∃ x, NearestTo text.toList x ∧ LaidOut (writeNumber text) x
          ∧ ∀ text' : String, Kept text'.toList text'.toList → ¬ isInteger text'.toList = true →
            NearestTo text'.toList x → writeNumber text' = writeNumber text)
      ∧ writeNumber (String.ofList (writeNumber text)) = writeNumber text
      ∧ (∃ text' : String, Kept (writeNumber text) text'.toList)
      ∧ ∀ text' : String, Kept (writeNumber text) text'.toList →
        writeNumber text' = writeNumber text := by
  have hwrite := writeNumber_eq h.isNumber
  have hnumber := isNumber_renderNumber h.isNumber
  rw [hwrite]
  refine ⟨hnumber, ?_, ?_, ?_, ?_, fun text' ht => ?_⟩
  · rintro (hinteger | hover)
    · exact renderNumber_of_isInteger hinteger
    · exact renderNumber_of_none ((ofText?_eq_none_iff h.isNumber).mpr hover)
  · intro hother
    obtain ⟨hinteger, hover⟩ := not_or.mp hother
    rw [← ofText?_eq_none_iff h.isNumber, ← ne_eq, Option.ne_none_iff_exists'] at hover
    obtain ⟨x, hx⟩ := hover
    rw [renderNumber_of_some hinteger hx]
    refine ⟨x, ofText?_eq_some_iff.mp hx, laidOut_text (contains_of_ofText? hx), ?_⟩
    intro text' h' hinteger' hx'
    rw [writeNumber_eq h'.isNumber]
    exact renderNumber_of_some hinteger' (ofText?_eq_some_iff.mpr hx')
  · have hself := @writeNumber_eq (String.ofList (renderNumber text.toList))
    rw [String.toList_ofList] at hself
    rw [hself hnumber, renderNumber_renderNumber]
  · obtain ⟨t, ht⟩ := Json.exists_kept hnumber
    exact ⟨String.ofList t, by rwa [String.toList_ofList]⟩
  · rw [writeNumber_eq ht.right.isNumber, renderNumber_of_kept h ht]

/-- A text just below ten million is rounded up to it, and gets a power of ten. -/
theorem writeNumber_laidOut_tenMillion :
    let text := "9999999.9999999999"
    let x : Binary := ⟨false, 5368709120000000, -29⟩
    Kept text.toList text.toList
      ∧ ¬ (isInteger text.toList = true ∨ Overflows text.toList)
      ∧ NearestTo text.toList x ∧ x.value = 10 ^ (7 : ℤ)
      ∧ writeNumber text = "1.0E7".toList ∧ LaidOut (writeNumber text) x
      ∧ writeNumber "1.0E7" = "1.0E7".toList ∧ writeNumber "1.0e+7" = "1.0E7".toList := by
  intro text x
  have hkept : Kept text.toList text.toList :=
    ⟨[], '9' :: List.replicate 6 '9', '.' :: List.replicate 10 '9', [], [], by decide +kernel,
      by decide +kernel, .inl rfl, .digits (by decide) (by simp), .point ⟨by simp, by simp⟩, .none⟩
  have hkept' : Kept "1.0E7".toList "1.0e+7".toList :=
    ⟨[], ['1'], ['.', '0'], ['E', '7'], ['e', '+', '7'], rfl, rfl, .inl rfl,
      .digits (by decide) (by simp), .point ⟨by simp, by simp⟩,
      @Json.ExponentKept.plus 'E' [] ['7'] (.inr rfl) (.inl rfl) ⟨by simp, by simp⟩⟩
  have hread : binary64.ofText? text.toList = some x := by decide +kernel
  have hwrite : writeNumber text = "1.0E7".toList := by decide +kernel
  have hvalue : x.value = 10 ^ (7 : ℤ) := by
    rw [Binary.value, signed, if_neg (by decide)]
    norm_num [x]
  have hother : ¬ (isInteger text.toList = true ∨ Overflows text.toList) := by
    rw [← ofText?_eq_none_iff hkept.isNumber, hread]
    exact not_or.mpr ⟨by decide, Option.some_ne_none x⟩
  obtain ⟨-, -, hrounded, hself, -, hreread⟩ := writeNumber_laidOut hkept
  obtain ⟨x', hnearest, hlaid, -⟩ := hrounded hother
  obtain rfl : x = x' := Option.some.inj (hread.symm.trans (ofText?_eq_some_iff.mpr hnearest))
  rw [hwrite] at hself hreread hlaid ⊢
  exact ⟨hkept, hother, hnearest, hvalue, rfl, hlaid, hself, hreread "1.0e+7" hkept'⟩

end Signet.Canonical
