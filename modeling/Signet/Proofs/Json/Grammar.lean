import Mathlib.Tactic
import Signet.Proofs.Json.Expression
import Signet.Proofs.Json.Quote
import Signet.Proofs.Json.Separated

/-!
The grammar of JSON, and that what is written is JSON.

* **Strings.** `Grammar.Spells`: each character stands for itself or is escaped. Strings are
  written so (`spells_quote`).
* **Values.** `Grammar.Value`, with blanks where they may stand (`Grammar.Element`,
  `Grammar.Member`). Values are written so if numbers are (`value_write`).
* **Blanks.** `outsideStrings` leaves out the strings of a text. A `Tight` text is one in which
  every string ends and no blank stands outside them; `tight_write` says so of values.
-/

namespace Signet.Json

/-- What holds of a value if it holds of its parts holds of all values. -/
@[elab_as_elim]
theorem inductionOnParts {P : Json → Prop} (v : Json) (null : P .null)
    (bool : ∀ b, P (.bool b)) (num : ∀ text, P (.num text)) (str : ∀ text, P (.str text))
    (arr : ∀ items, (∀ v ∈ items, P v) → P (.arr items))
    (obj : ∀ members : Members, (∀ m ∈ members, P m.2) → P (.obj members)) : P v := by
  refine @Json.rec P (fun items => ∀ v ∈ items, P v) (fun members => ∀ m ∈ members, P m.2)
    (fun m => P m.2) null bool num str arr obj ?_ ?_ ?_ ?_ ?_ v
  · exact fun _ hv => absurd hv List.not_mem_nil
  · exact fun v rest hv hrest => List.forall_mem_cons.mpr ⟨hv, hrest⟩
  · exact fun _ hm => absurd hm List.not_mem_nil
  · exact fun m rest hm hrest => List.forall_mem_cons.mpr ⟨hm, hrest⟩
  · exact fun _ _ hv => hv

namespace Grammar

/-! ### Strings -/

/-- How a character may be written inside a string. -/
inductive Escapes (c : Char) : List Char → Prop
  /-- As it is. -/
  | plain (quote : c ≠ '"') (backslash : c ≠ '\\') (control : ¬ c.toNat < 0x20) : Escapes c [c]
  /-- As a letter after a backslash. -/
  | letter {l : Char} (mem : (l, c) ∈ [('"', '"'), ('\\', '\\'), ('/', '/'), ('b', '\x08'),
      ('f', '\x0c'), ('n', '\n'), ('r', '\r'), ('t', '\t')]) : Escapes c ['\\', l]
  /-- By its number, in four hexadecimal digits. -/
  | unit {h₀ h₁ h₂ h₃ : Char} (hex : Parser.hex4? h₀ h₁ h₂ h₃ = some c.toNat) :
      Escapes c ['\\', 'u', h₀, h₁, h₂, h₃]
  /-- By its number, as a pair of surrogates. -/
  | pair {h₀ h₁ h₂ h₃ l₀ l₁ l₂ l₃ : Char} {high low : ℕ}
      (lead : Parser.hex4? h₀ h₁ h₂ h₃ = some (0xD800 + high)) (lead_lt : high < 0x400)
      (trail : Parser.hex4? l₀ l₁ l₂ l₃ = some (0xDC00 + low)) (trail_lt : low < 0x400)
      (number : c.toNat = 0x10000 + 0x400 * high + low) :
      Escapes c ['\\', 'u', h₀, h₁, h₂, h₃, '\\', 'u', l₀, l₁, l₂, l₃]

/-- A text is a string in quotes, with these characters. -/
def Spells (t : List Char) (s : String) : Prop :=
  ∃ parts, List.Forall₂ Escapes s.toList parts ∧ t = '"' :: parts.flatten ++ ['"']

lemma escapes_escapeChar (c : Char) : Escapes c (escapeChar c) := by
  unfold escapeChar
  split_ifs with hquote hslash htab hback hline hreturn hfeed hcontrol
  · exact .letter (by simp [hquote])
  · exact .letter (by simp [hslash])
  · exact .letter (by simp [htab])
  · exact .letter (by simp [hback])
  · exact .letter (by simp [hline])
  · exact .letter (by simp [hreturn])
  · exact .letter (by simp [hfeed])
  · exact .unit (hex4?_hexDigit hcontrol)
  · exact .plain hquote hslash hcontrol

/-- Strings are written with their characters. -/
lemma spells_quote (s : String) : Spells (quote s) s := by
  refine ⟨s.toList.map escapeChar, ?_, by rw [quote, List.flatMap_def]⟩
  rw [List.forall₂_map_right_iff, List.forall₂_same]
  exact fun c _ => escapes_escapeChar c

/-! ### Values -/

/-- Nothing but blanks. -/
def Blanks (t : List Char) : Prop := ∀ c ∈ t, Parser.isBlank c = true

mutual

/-- The text of a value. -/
inductive Value : List Char → Prop
  /-- A word. -/
  | word {w : String} (mem : w ∈ ["null", "true", "false"]) : Value w.toList
  /-- A number. -/
  | number {t : List Char} (matched : t ∈ Number.Expression.number.matches') : Value t
  /-- A string. -/
  | string {t : List Char} {s : String} (spells : Spells t s) : Value t
  /-- An array without items. -/
  | emptyArray {between : List Char} (blank : Blanks between) : Value ('[' :: between ++ [']'])
  /-- An array, with commas between its items. -/
  | array {items : List (List Char)} (ne_nil : items ≠ []) (all : ∀ t ∈ items, Element t) :
      Value ('[' :: separated items ++ [']'])
  /-- An object without members. -/
  | emptyObject {between : List Char} (blank : Blanks between) :
      Value ('\x7b' :: between ++ ['\x7d'])
  /-- An object, with commas between its members. -/
  | object {members : List (List Char)} (ne_nil : members ≠ []) (all : ∀ t ∈ members, Member t) :
      Value ('\x7b' :: separated members ++ ['\x7d'])

/-- The text of a value with blanks around it. -/
inductive Element : List Char → Prop
  | intro {before t after : List Char} (blank_before : Blanks before) (value : Value t)
      (blank_after : Blanks after) : Element (before ++ t ++ after)

/-- The text of a member: its name, with blanks around it, a colon and its value. -/
inductive Member : List Char → Prop
  | intro {before t after element : List Char} {name : String} (blank_before : Blanks before)
      (spells : Spells t name) (blank_after : Blanks after) (value : Element element) :
      Member (before ++ t ++ after ++ ':' :: element)

end

lemma blanks_nil : Blanks [] := fun _ hc => absurd hc List.not_mem_nil

lemma Value.element {t : List Char} (h : Value t) : Element t := by
  have helement := Element.intro blanks_nil h blanks_nil
  rwa [List.nil_append, List.append_nil] at helement

/-- **What is written is JSON**, if what is written for numbers is. -/
theorem value_write {number : String → List Char} (hnumber : ∀ text, Value (number text))
    (v : Json) : Value (v.write number) := by
  induction v using inductionOnParts with
  | null => exact @Value.word "null" (by simp)
  | bool b =>
      cases b
      · exact @Value.word "false" (by simp)
      · exact @Value.word "true" (by simp)
  | num text => exact hnumber text
  | str text => exact .string (spells_quote text)
  | arr items ih =>
      rw [write, writeItems_eq_separated]
      cases items with
      | nil => exact .emptyArray blanks_nil
      | cons v rest =>
          refine .array (by simp) fun t ht => ?_
          obtain ⟨w, hw, rfl⟩ := List.mem_map.mp ht
          exact (ih w hw).element
  | obj members ih =>
      rw [write, writeMembers_eq_separated]
      cases members with
      | nil => exact .emptyObject blanks_nil
      | cons m rest =>
          refine .object (by simp) fun t ht => ?_
          obtain ⟨m', hm, rfl⟩ := List.mem_map.mp ht
          rw [writeMember_eq, ← List.append_nil (quote m'.1), ← List.nil_append (quote m'.1)]
          exact .intro blanks_nil (spells_quote m'.1) blanks_nil (ih m' hm).element

end Grammar

/-! ### Blanks outside strings -/

/-- Where a character stands, by the characters before it. -/
inductive Place where
  /-- Between strings. -/
  | outside
  /-- In a string. -/
  | inside
  /-- In a string, after a backslash. -/
  | escaped

/-- The characters of a text that stand in no string. Quotes count as parts of their strings. -/
def outsideStrings : Place → List Char → List Char
  | _, [] => []
  | .outside, c :: t =>
    if c = '"' then outsideStrings .inside t else c :: outsideStrings .outside t
  | .inside, c :: t =>
    outsideStrings (if c = '"' then .outside else if c = '\\' then .escaped else .inside) t
  | .escaped, _ :: t => outsideStrings .inside t

/-- A text in which all strings end, and no blank stands outside them. -/
def Tight (t : List Char) : Prop :=
  ∃ kept, (∀ r, outsideStrings .outside (t ++ r) = kept ++ outsideStrings .outside r)
    ∧ ∀ c ∈ kept, Parser.isBlank c = false

lemma Tight.append {a b : List Char} (ha : Tight a) (hb : Tight b) : Tight (a ++ b) := by
  obtain ⟨kept, hkept, hblank⟩ := ha
  obtain ⟨kept', hkept', hblank'⟩ := hb
  refine ⟨kept ++ kept', fun r => ?_, List.forall_mem_append.mpr ⟨hblank, hblank'⟩⟩
  rw [List.append_assoc, hkept, hkept', List.append_assoc]

/-- Nothing stands in strings where there are none. -/
lemma tight_of_forall {t : List Char} (h : ∀ c ∈ t, c ≠ '"' ∧ Parser.isBlank c = false) :
    Tight t := by
  refine ⟨t, fun r => ?_, fun c hc => (h c hc).2⟩
  induction t with
  | nil => rfl
  | cons c t ih =>
      rw [List.forall_mem_cons] at h
      rw [List.cons_append, outsideStrings, if_neg h.1.1, ih h.2, List.cons_append]

/-- A number has neither strings nor blanks in it. -/
lemma tight_of_isNumber {t : List Char} (h : Number.isNumber t = true) : Tight t := by
  have hother : ∀ c, c = '"' ∨ Parser.isBlank c = true → ¬ Number.IsNumeric c := by
    intro c hc
    have hmem : c ∈ ['"', ' ', '\t', '\n', '\r'] := by simpa [Parser.isBlank, or_assoc] using hc
    fin_cases hmem <;> simp [Number.IsNumeric]
  refine tight_of_forall fun c hc => ?_
  have hnumeric := Number.isNumber_numeric h c hc
  refine ⟨fun heq => hother c (.inl heq) hnumeric, ?_⟩
  rw [← Bool.not_eq_true]
  exact fun heq => hother c (.inr heq) hnumeric

/-- A hexadecimal digit neither ends a string nor escapes anything. -/
lemma outsideStrings_inside_hexDigit {c : Char} {n : ℕ} (h : Parser.hexDigit? c = some n)
    (t : List Char) : outsideStrings .inside (c :: t) = outsideStrings .inside t := by
  have hquote : c ≠ '"' := by
    rintro rfl
    cases h
  have hbackslash : c ≠ '\\' := by
    rintro rfl
    cases h
  rw [outsideStrings, if_neg hquote, if_neg hbackslash]

/-- Neither do four of them after the letter. -/
lemma outsideStrings_inside_unit {h₀ h₁ h₂ h₃ : Char} {n : ℕ}
    (h : Parser.hex4? h₀ h₁ h₂ h₃ = some n) (t : List Char) :
    outsideStrings .inside ('\\' :: 'u' :: h₀ :: h₁ :: h₂ :: h₃ :: t)
      = outsideStrings .inside t := by
  simp only [Parser.hex4?, Option.bind_eq_bind, Option.bind_eq_some_iff] at h
  obtain ⟨n₀, hex₀, n₁, hex₁, n₂, hex₂, n₃, hex₃, -⟩ := h
  rw [outsideStrings, if_neg (by decide), if_pos rfl, outsideStrings,
    outsideStrings_inside_hexDigit hex₀, outsideStrings_inside_hexDigit hex₁,
    outsideStrings_inside_hexDigit hex₂, outsideStrings_inside_hexDigit hex₃]

namespace Grammar

/-- No character ends the string that it is written in. -/
lemma Escapes.outsideStrings_append {c : Char} {part : List Char} (h : Escapes c part)
    (t : List Char) : outsideStrings .inside (part ++ t) = outsideStrings .inside t := by
  cases h with
  | plain quote backslash _ =>
      rw [List.singleton_append, outsideStrings, if_neg quote, if_neg backslash]
  | letter _ => rfl
  | unit hex => exact outsideStrings_inside_unit hex t
  | pair lead _ trail _ _ =>
      exact (outsideStrings_inside_unit lead _).trans (outsideStrings_inside_unit trail t)

/-- A string ends with its second quote. -/
lemma Spells.tight {t : List Char} {s : String} (h : Spells t s) : Tight t := by
  obtain ⟨parts, hparts, rfl⟩ := h
  refine ⟨[], fun r => ?_, fun _ hc => absurd hc List.not_mem_nil⟩
  have hinside : outsideStrings .inside (parts.flatten ++ '"' :: r)
      = outsideStrings .outside r := by
    generalize s.toList = cs at hparts
    induction hparts with
    | nil => rfl
    | cons hpart _ ih => rw [List.flatten_cons, List.append_assoc, hpart.outsideStrings_append, ih]
  rw [List.cons_append, List.cons_append, List.append_assoc, outsideStrings, if_pos rfl]
  exact hinside

end Grammar

lemma tight_flatten {parts : List (List Char)} (h : ∀ t ∈ parts, Tight t) :
    Tight parts.flatten := by
  induction parts with
  | nil => exact tight_of_forall (by simp)
  | cons t parts ih =>
      rw [List.forall_mem_cons] at h
      rw [List.flatten_cons]
      exact h.1.append (ih h.2)

lemma tight_separated {parts : List (List Char)} (h : ∀ t ∈ parts, Tight t) :
    Tight (separated parts) := by
  have hcomma : Tight [','] := tight_of_forall (by simp [Parser.isBlank])
  cases parts with
  | nil => exact tight_of_forall (by simp [separated])
  | cons t parts =>
      rw [List.forall_mem_cons] at h
      rw [separated, List.flatMap_def]
      refine h.1.append (tight_flatten (List.forall_mem_map.mpr fun t' ht' => ?_))
      exact hcomma.append (h.2 t' ht')

/-- A text between two characters that are neither quotes nor blanks. -/
lemma Tight.between {a b : Char} {t : List Char} (h : Tight t)
    (hends : ∀ c ∈ [a, b], c ≠ '"' ∧ Parser.isBlank c = false) : Tight (a :: t ++ [b]) := by
  have ha : Tight [a] := tight_of_forall fun c hc => hends c (by simp_all)
  have hb : Tight [b] := tight_of_forall fun c hc => hends c (by simp_all)
  exact (ha.append h).append hb

/-- **No blank is written outside strings**, if none is written for numbers. -/
theorem tight_write {number : String → List Char} (hnumber : ∀ text, Tight (number text))
    (v : Json) : Tight (v.write number) := by
  induction v using inductionOnParts with
  | null => exact tight_of_forall (by simp [write, Parser.isBlank])
  | bool b => cases b <;> exact tight_of_forall (by simp [write, Parser.isBlank])
  | num text => exact hnumber text
  | str text => exact (Grammar.spells_quote text).tight
  | arr items ih =>
      rw [write, writeItems_eq_separated]
      exact (tight_separated (List.forall_mem_map.mpr ih)).between (by simp [Parser.isBlank])
  | obj members ih =>
      have hcolon : Tight [':'] := tight_of_forall (by simp [Parser.isBlank])
      rw [write, writeMembers_eq_separated]
      refine (tight_separated (List.forall_mem_map.mpr fun m hm => ?_)).between
        (by simp [Parser.isBlank])
      rw [writeMember_eq, ← List.singleton_append]
      exact (Grammar.spells_quote m.1).tight.append (hcolon.append (ih m hm))

/-- No blank stands outside the strings of such a text. -/
lemma Tight.isBlank_eq_false {t : List Char} (h : Tight t) :
    ∀ c ∈ outsideStrings .outside t, Parser.isBlank c = false := by
  obtain ⟨kept, hkept, hblank⟩ := h
  have hall := hkept []
  rw [List.append_nil, outsideStrings, List.append_nil] at hall
  rwa [hall]

end Signet.Json
