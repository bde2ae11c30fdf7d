import Mathlib.Tactic
import Signet.Except
import Signet.Json.Parser
import Signet.Json.Printer

/-!
Strings that were written are read back.

* `escape_of_control`, `escapeChar_cases`: a character is written as it is, or as
  an escape that stands for it.
* `characters_flatMap_escapeChar`, `string_quote`: the reader finds all the
  characters, and the text after the closing quote.
* `quote_append_inj`: what was quoted can therefore be told from what follows it.
-/

namespace Signet.Json

open Signet.Json.Parser

/-! ### A single character -/

lemma hexDigit?_hexDigit : ∀ n < 16, hexDigit? (hexDigit n) = some n := by
  decide

/-- The digits of a control character are read as its number. -/
lemma hex4?_hexDigit {n : ℕ} (h : n < 0x20) :
    hex4? '0' '0' (hexDigit (n / 16)) (hexDigit (n % 16)) = some n := by
  have hzero : hexDigit? '0' = some 0 := rfl
  rw [hex4?, hzero, hexDigit?_hexDigit _ (by omega), hexDigit?_hexDigit _ (by omega)]
  simp only [Option.bind_eq_bind, Option.bind_some, Option.pure_def, Option.some.injEq]
  omega

/-- The code unit of a control character. -/
lemma codeUnit_of_lt {n : ℕ} (h : n < 0x20) (rest : List Char) :
    codeUnit ('0' :: '0' :: hexDigit (n / 16) :: hexDigit (n % 16) :: rest)
      = .ok (n, rest) := by
  simp only [codeUnit, hex4?_hexDigit h]

/-- The escape of a control character by its number. -/
lemma escape_of_control {c : Char} (h : c.toNat < 0x20) (rest : List Char) :
    escape ('u' :: '0' :: '0' :: hexDigit (c.toNat / 16) :: hexDigit (c.toNat % 16) :: rest)
      = .ok (c, rest) := by
  have hlow : ¬ (0xDC00 ≤ c.toNat ∧ c.toNat ≤ 0xDFFF) := by omega
  have hsingle : c.toNat < 0xD800 ∨ 0xDFFF < c.toNat := by omega
  rw [escape, unicodeEscape, codeUnit_of_lt h]
  simp only [Except.bind_eq_ok_iff, Except.ok.injEq, Prod.mk.injEq, Prod.exists]
  refine ⟨c.toNat, rest, ⟨rfl, rfl⟩, ?_⟩
  rw [if_neg hlow, if_pos hsingle, Char.ofNat_toNat]
  rfl

/-- A character is escaped or stands for itself. -/
lemma escapeChar_cases (c : Char) :
    (∃ e, escapeChar c = '\\' :: e ∧ ∀ rest, escape (e ++ rest) = .ok (c, rest))
      ∨ escapeChar c = [c] ∧ c ≠ '"' ∧ c ≠ '\\' ∧ ¬ c.toNat < 0x20 := by
  by_cases hquote : c = '"'
  · subst hquote
    exact .inl ⟨['"'], rfl, fun _ => rfl⟩
  by_cases hslash : c = '\\'
  · subst hslash
    exact .inl ⟨['\\'], rfl, fun _ => rfl⟩
  by_cases htab : c = '\t'
  · subst htab
    exact .inl ⟨['t'], rfl, fun _ => rfl⟩
  by_cases hback : c = '\x08'
  · subst hback
    exact .inl ⟨['b'], rfl, fun _ => rfl⟩
  by_cases hline : c = '\n'
  · subst hline
    exact .inl ⟨['n'], rfl, fun _ => rfl⟩
  by_cases hreturn : c = '\r'
  · subst hreturn
    exact .inl ⟨['r'], rfl, fun _ => rfl⟩
  by_cases hfeed : c = '\x0c'
  · subst hfeed
    exact .inl ⟨['f'], rfl, fun _ => rfl⟩
  have hescape : escapeChar c = if c.toNat < 0x20 then
      ['\\', 'u', '0', '0', hexDigit (c.toNat / 16), hexDigit (c.toNat % 16)] else [c] := by
    rw [escapeChar, if_neg hquote, if_neg hslash, if_neg htab, if_neg hback, if_neg hline,
      if_neg hreturn, if_neg hfeed]
  by_cases hcontrol : c.toNat < 0x20
  · rw [hescape, if_pos hcontrol]
    exact .inl ⟨_, rfl, escape_of_control hcontrol⟩
  · rw [hescape, if_neg hcontrol]
    exact .inr ⟨rfl, hquote, hslash, hcontrol⟩

/-! ### A whole string -/

/-- All characters up to the closing quote are read back. -/
lemma characters_flatMap_escapeChar {cs : List Char} {fuel : ℕ} (h : cs.length < fuel)
    (rest : List Char) :
    characters fuel (cs.flatMap escapeChar ++ '"' :: rest) = .ok (cs, rest) := by
  induction cs generalizing fuel with
  | nil =>
      obtain ⟨fuel, rfl⟩ := Nat.exists_eq_succ_of_ne_zero (Nat.ne_of_gt h)
      simp [characters]
  | cons c cs ih =>
      obtain ⟨fuel, rfl⟩ := Nat.exists_eq_succ_of_ne_zero (Nat.ne_zero_of_lt h)
      have hrest := ih (Nat.lt_of_succ_lt_succ h)
      rw [List.flatMap_cons, List.append_assoc]
      rcases escapeChar_cases c with ⟨e, he, hread⟩ | ⟨hself, hquote, hslash, hcontrol⟩
      · rw [he, List.cons_append, characters, if_neg (by decide), if_pos rfl, hread]
        simp only [Except.bind_eq_ok_iff, Prod.exists]
        exact ⟨c, _, rfl, cs, rest, hrest, rfl⟩
      · rw [hself, List.singleton_append, characters, if_neg hquote, if_neg hslash,
          if_neg hcontrol]
        simp only [Except.bind_eq_ok_iff, Prod.exists]
        exact ⟨cs, rest, hrest, rfl⟩

lemma length_le_length_flatMap_escapeChar (cs : List Char) :
    cs.length ≤ (cs.flatMap escapeChar).length := by
  induction cs with
  | nil => exact le_rfl
  | cons c cs ih =>
      have hc : 1 ≤ (escapeChar c).length := by
        rcases escapeChar_cases c with ⟨e, he, -⟩ | ⟨hself, -⟩
        · simp [he]
        · simp [hself]
      rw [List.flatMap_cons, List.length_append, List.length_cons]
      omega

/-- No character takes more than six. -/
lemma length_flatMap_escapeChar_le (cs : List Char) :
    (cs.flatMap escapeChar).length ≤ 6 * cs.length := by
  induction cs with
  | nil => exact le_rfl
  | cons c cs ih =>
      have hc : (escapeChar c).length ≤ 6 := by
        unfold escapeChar
        split_ifs <;> simp
      rw [List.flatMap_cons, List.length_append, List.length_cons]
      omega

/-- **A string that was written is read back**, whatever follows it. -/
theorem string_quote (s : String) (rest : List Char) :
    string (s.toList.flatMap escapeChar ++ '"' :: rest) = .ok (s, rest) := by
  have hlength := length_le_length_flatMap_escapeChar s.toList
  have hread := @characters_flatMap_escapeChar s.toList
    ((s.toList.flatMap escapeChar ++ '"' :: rest).length + 1)
    (by rw [List.length_append]; omega) rest
  rw [string, hread]
  simp [pure, Except.pure]

/-- Two strings are the same if they and what follows them make the same text. -/
lemma quote_append_inj {s t : String} {r r' : List Char} (h : quote s ++ r = quote t ++ r') :
    s = t ∧ r = r' := by
  have htext : s.toList.flatMap escapeChar ++ '"' :: r
      = t.toList.flatMap escapeChar ++ '"' :: r' := by
    simpa [quote] using h
  have hread := (string_quote s r).symm.trans (htext ▸ string_quote t r')
  simpa using hread

end Signet.Json
