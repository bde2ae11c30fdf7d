import Mathlib.Tactic
import Signet.Json.Access
import Signet.Proofs.Json.Members
import Signet.Proofs.Json.Quote
import Signet.Proofs.Json.Separated

/-!
What was written is read back.

* `ReadsAs`: a value, once written, is read as another one, whatever ends it. The
  other one differs in the order of members only, which reading changes.
* `readsAs_str`, `readsAs_arr`, `readsAs_obj`: strings are read as themselves, and
  arrays and objects as what their parts are read as. The inductions are on the
  parts after the first, each of which has its comma (`items_writeItems`,
  `members_writeMembers`). `readsAs_ofList`: an object of strings is read as itself.
* `ReadsAs.parse`: a whole text. `parseObject_compact`: an object of strings is read
  back as the members that it was written from, in the order of their names.
-/

namespace Signet.Json

open Signet.Json.Parser

lemma dropBlanks_cons {c : Char} (h : isBlank c = false) (s : List Char) :
    dropBlanks (c :: s) = c :: s := by
  rw [dropBlanks, List.dropWhile_cons_of_neg (by rw [h]; decide)]

lemma isBlank_comma : isBlank ',' = false := by decide

lemma isBlank_quote : isBlank '"' = false := by decide

lemma colon_cons (s : List Char) : colon (':' :: s) = .ok s := by
  rw [colon, dropBlanks_cons (by decide)]
  rfl

variable {number : String → List Char} {depth : ℕ}

variable (number depth) in
/-- A value that is written with given numbers is read as another one, within some depth. -/
structure ReadsAs (v w : Json) : Prop where
  /-- It begins with no blank, and not as the end of an array. -/
  head : ∃ c rest, v.write number = c :: rest ∧ isBlank c = false ∧ c ≠ ']'
  /-- It is read back, whatever ends it. -/
  value_write : ∀ r, Ends r → value depth (v.write number ++ r) = .ok (w, r)

variable (number depth) in
/-- Members are read as others of the same names. -/
def MemberReadsAs (m m' : String × Json) : Prop := m.1 = m'.1 ∧ ReadsAs number depth m.2 m'.2

/-- A string is read as itself. -/
lemma readsAs_str (text : String) : ReadsAs number depth (.str text) (.str text) where
  head := ⟨'"', _, rfl, rfl, by decide⟩
  value_write r _ := by
    have hquote : (Json.str text).write number ++ r
        = '"' :: (text.toList.flatMap escapeChar ++ '"' :: r) := by
      simp [write, quote]
    rw [hquote, value, dropBlanks_cons (by decide)]
    simp [string_quote]

/-! ### Arrays -/

/-- The items of an array are read back, up to its closing bracket. -/
lemma items_writeItems {v w : Json} {items items' : List Json} (hv : ReadsAs number depth v w)
    (hitems : List.Forall₂ (ReadsAs number depth) items items') {fuel : ℕ}
    (hfuel : items.length < fuel) (r : List Char) :
    Parser.items (value depth) fuel
      (v.write number ++ ((items.map (write number)).flatMap (',' :: ·) ++ ']' :: r))
      = .ok (w :: items', r) := by
  induction hitems generalizing v w fuel with
  | nil =>
      obtain ⟨fuel, rfl⟩ := Nat.exists_eq_succ_of_ne_zero (Nat.ne_of_gt hfuel)
      have hread := hv.value_write (']' :: r) (ends_cons (by simp) r)
      simp only [Parser.items, List.map_nil, List.flatMap_nil, List.nil_append,
        Except.bind_eq_ok_iff]
      refine ⟨_, hread, ?_⟩
      dsimp only
      rw [dropBlanks_cons (by decide)]
      rfl
  | @cons next w' items items' hnext hitems ih =>
      obtain ⟨fuel, rfl⟩ := Nat.exists_eq_succ_of_ne_zero (Nat.ne_zero_of_lt hfuel)
      have hends : Ends (((next :: items).map (write number)).flatMap (',' :: ·) ++ ']' :: r) :=
        ends_flatMap_append (by simp) _ r
      have hread := hv.value_write _ hends
      have hrest := ih hnext (Nat.lt_of_succ_lt_succ hfuel)
      obtain ⟨c, rest, hhead, hblank, hclose⟩ := hnext.head
      simp only [Parser.items, Except.bind_eq_ok_iff]
      refine ⟨_, hread, ?_⟩
      dsimp only
      rw [List.map_cons, List.flatMap_cons, List.cons_append, List.cons_append, List.append_assoc,
        dropBlanks_cons (by decide)]
      rw [hhead, List.cons_append] at hrest ⊢
      simp only [dropBlanks_cons hblank]
      -- The reader looks for the end of the array once more before each item.
      split
      · rename_i heq
        cases heq
      · rename_i heq
        exact absurd (List.cons.inj heq).1 hclose
      · rw [hrest]
        rfl

/-- There are enough characters for every part to count as one. -/
lemma length_le_length_flatMap (parts : List (List Char)) :
    parts.length ≤ (parts.flatMap (',' :: ·)).length := by
  induction parts with
  | nil => exact le_rfl
  | cons part parts ih =>
      rw [List.flatMap_cons, List.length_append, List.length_cons, List.length_cons]
      omega

/-- An array is read back after its opening bracket. -/
lemma array_writeItems {items items' : List Json}
    (h : List.Forall₂ (ReadsAs number depth) items items') (r : List Char) :
    array (value depth) (separated (items.map (write number)) ++ ']' :: r) = .ok (items', r) := by
  cases h with
  | nil =>
      rw [List.map_nil, separated, List.nil_append, array, dropBlanks_cons (by decide)]
      rfl
  | @cons v w items items' hv hitems =>
      have hread {fuel : ℕ} (hfuel : items.length < fuel) :=
        items_writeItems hv hitems hfuel r
      obtain ⟨c, rest, hhead, hblank, hclose⟩ := hv.head
      have hlength := length_le_length_flatMap (items.map (write number))
      rw [List.map_cons, separated, List.append_assoc, hhead, List.cons_append, array,
        dropBlanks_cons hblank]
      simp only [hhead, List.cons_append] at hread
      split
      · rename_i heq
        cases heq
      · rename_i heq
        exact absurd (List.cons.inj heq).1 hclose
      · refine hread ?_
        simp only [List.length_cons, List.length_append, List.length_map] at hlength ⊢
        omega

/-- An array is read as its items are. -/
lemma readsAs_arr {items items' : List Json}
    (h : List.Forall₂ (ReadsAs number depth) items items') :
    ReadsAs number (depth + 1) (.arr items) (.arr items') where
  head := ⟨'[', _, rfl, rfl, by decide⟩
  value_write r _ := by
    rw [write, writeItems_eq_separated, List.cons_append, List.cons_append, List.append_assoc,
      value, dropBlanks_cons (by decide)]
    simp only [Except.bind_eq_ok_iff]
    exact ⟨_, array_writeItems h r, rfl⟩

/-! ### Objects -/

variable (number) in
/-- The members of an object begin with a name. -/
lemma writeMembers_cons (name : String) (v : Json) (ms : Members) (r : List Char) :
    writeMembers number ((name, v) :: ms) ++ '\x7d' :: r
      = '"' :: (name.toList.flatMap escapeChar ++ '"' :: ':' :: (v.write number
        ++ ((ms.map (writeMember number)).flatMap (',' :: ·) ++ '\x7d' :: r))) := by
  simp [writeMembers, writeMoreMembers_eq_flatMap, writeMember, quote]

variable (number) in
/-- The members after the first one begin with a comma and a name. -/
lemma flatMap_member_cons (name : String) (v : Json) (ms : Members) (r : List Char) :
    (((name, v) :: ms).map (writeMember number)).flatMap (',' :: ·) ++ '\x7d' :: r
      = ',' :: '"' :: (name.toList.flatMap escapeChar ++ '"' :: ':' :: (v.write number
        ++ ((ms.map (writeMember number)).flatMap (',' :: ·) ++ '\x7d' :: r))) := by
  simp [writeMember, quote]

/-- The members of an object are read back, up to its closing brace. -/
lemma members_writeMembers {name : String} {v w : Json} {ms ms' : Members}
    (hv : ReadsAs number depth v w) (hms : List.Forall₂ (MemberReadsAs number depth) ms ms')
    {fuel : ℕ} (hfuel : ms.length < fuel) (r : List Char) :
    members (value depth) fuel name
      (':' :: (v.write number ++ ((ms.map (writeMember number)).flatMap (',' :: ·) ++ '\x7d' :: r)))
      = .ok ((name, w) :: ms', r) := by
  induction hms generalizing name v w fuel with
  | nil =>
      obtain ⟨fuel, rfl⟩ := Nat.exists_eq_succ_of_ne_zero (Nat.ne_of_gt hfuel)
      have hread := hv.value_write ('\x7d' :: r) (ends_cons (by simp) r)
      simp only [members, List.map_nil, List.flatMap_nil, List.nil_append, colon_cons,
        Except.bind_eq_ok_iff]
      refine ⟨_, rfl, _, hread, ?_⟩
      dsimp only
      rw [dropBlanks_cons (by decide)]
      rfl
  | @cons m m' ms ms' hm hms ih =>
      obtain ⟨fuel, rfl⟩ := Nat.exists_eq_succ_of_ne_zero (Nat.ne_zero_of_lt hfuel)
      obtain ⟨next, u⟩ := m
      obtain ⟨next', u'⟩ := m'
      obtain ⟨rfl, hu⟩ := hm
      have hends : Ends ((((next, u) :: ms).map (writeMember number)).flatMap (',' :: ·)
          ++ '\x7d' :: r) := ends_flatMap_append (by simp) _ r
      have hread := hv.value_write _ hends
      have hrest := @ih next u u' hu fuel (Nat.lt_of_succ_lt_succ hfuel)
      simp only [members, colon_cons, Except.bind_eq_ok_iff]
      refine ⟨_, rfl, _, hread, ?_⟩
      dsimp only
      rw [flatMap_member_cons, dropBlanks_cons isBlank_comma]
      simp only [dropBlanks_cons isBlank_quote, string_quote, Except.bind_eq_ok_iff]
      exact ⟨_, rfl, _, hrest, rfl⟩

/-- An object is read back after its opening brace, if it stands for no number. -/
lemma object_writeMembers {ms ms' : Members}
    (h : List.Forall₂ (MemberReadsAs number depth) ms ms')
    (hname : ∀ m ∈ ms.head?, m.1 ≠ numberName) (r : List Char) :
    object (value depth) (writeMembers number ms ++ '\x7d' :: r)
      = .ok (.obj (Members.ofList ms'), r) := by
  cases h with
  | nil =>
      rw [writeMembers, List.nil_append, object, dropBlanks_cons (by decide)]
      rfl
  | @cons m m' ms ms' hm hms =>
      obtain ⟨name, v⟩ := m
      obtain ⟨name', w⟩ := m'
      obtain ⟨rfl, hv⟩ := hm
      rw [writeMembers_cons, object, dropBlanks_cons isBlank_quote]
      simp only [string_quote, Except.bind_eq_ok_iff]
      refine ⟨_, rfl, ?_⟩
      dsimp only
      rw [if_neg (hname _ rfl)]
      simp only [Except.bind_eq_ok_iff]
      have hlength := length_le_length_flatMap (ms.map (writeMember number))
      refine ⟨_, members_writeMembers hv hms ?_ r, rfl⟩
      simp only [List.length_cons, List.length_append, List.length_map] at hlength ⊢
      omega

/-- An object is read as its members are, in the order of their names, if it stands for no
number. -/
lemma readsAs_obj {ms ms' : Members} (h : List.Forall₂ (MemberReadsAs number depth) ms ms')
    (hname : ∀ m ∈ ms.head?, m.1 ≠ numberName) :
    ReadsAs number (depth + 1) (.obj ms) (.obj (Members.ofList ms')) where
  head := ⟨'\x7b', _, rfl, rfl, by decide⟩
  value_write r _ := by
    rw [write, List.cons_append, List.cons_append, List.append_assoc, value,
      dropBlanks_cons (by decide)]
    exact object_writeMembers h hname r

/-- Members that are strings are read as themselves. -/
lemma memberReadsAs_strings {ms : Members} (h : ∀ m ∈ ms, ∃ text, m.2 = .str text) :
    List.Forall₂ (MemberReadsAs number depth) ms ms := by
  refine List.forall₂_same.mpr fun m hm => ⟨rfl, ?_⟩
  obtain ⟨text, htext⟩ := h m hm
  rw [htext]
  exact readsAs_str text

/-- An object of strings that were put in one after another is read as itself. -/
lemma readsAs_ofList {entries : Members}
    (h : ∀ m ∈ entries, m.1 ≠ numberName ∧ ∃ text, m.2 = .str text) :
    ReadsAs number (depth + 1) (.obj (Members.ofList entries))
      (.obj (Members.ofList entries)) := by
  have hentries : ∀ m ∈ Members.ofList entries, m.1 ≠ numberName ∧ ∃ text, m.2 = .str text :=
    fun m hm => h m (Members.mem_ofList hm)
  have hreads : ReadsAs number (depth + 1) (.obj (Members.ofList entries)) _ :=
    readsAs_obj (memberReadsAs_strings fun m hm => (hentries m hm).2)
      fun m hm => (hentries m (List.mem_of_mem_head? hm)).1
  rwa [Members.ofList_of_pairwise (Members.pairwise_ofList entries)] at hreads

/-! ### Whole texts -/

lemma parseObject_eq_ok_iff {text : String} {ms : Members} :
    parseObject text = .ok ms ↔ parse text = .ok (.obj ms) := by
  simp only [Json.parseObject, read, Except.bind_eq_ok_iff, Except.mapError_eq_ok_iff]
  constructor
  · rintro ⟨v, hv, h⟩
    cases v with
    | obj found => rw [hv, ← Except.pure_eq_ok_iff.mp h]
    | _ => simp [members?] at h
  · intro h
    exact ⟨_, h, rfl⟩

/-- **A text that was written is read as its value is.** -/
theorem ReadsAs.parse {v w : Json} (h : ReadsAs number maxDepth v w) :
    Json.parse (String.ofList (v.write number)) = .ok w := by
  have hvalue := h.value_write [] ends_nil
  rw [List.append_nil] at hvalue
  rw [Json.parse, whole, String.toList_ofList, hvalue]
  rfl

lemma ReadsAs.read {v w : Json} (h : ReadsAs String.toList maxDepth v w) :
    Json.read (compact v) = .ok w := by
  rw [Json.read, compact, h.parse]
  rfl

/-- It is read as an object, if its value is. -/
lemma ReadsAs.parseObject {v : Json} {ms : Members}
    (h : ReadsAs String.toList maxDepth v (.obj ms)) : parseObject (compact v) = .ok ms :=
  parseObject_eq_ok_iff.mpr h.parse

/-- **An object of strings is read back**, its members in the order of their names. -/
theorem parseObject_compact {ms : Members} (hms : ∀ m ∈ ms, ∃ text, m.2 = .str text)
    (hname : ∀ m ∈ ms.head?, m.1 ≠ numberName) :
    parseObject (compact (.obj ms)) = .ok (Members.ofList ms) :=
  (readsAs_obj (memberReadsAs_strings hms) hname).parseObject

end Signet.Json
