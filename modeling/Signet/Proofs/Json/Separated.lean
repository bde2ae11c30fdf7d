import Mathlib.Tactic
import Signet.Json.Printer
import Signet.Proofs.Json.Number

/-!
How the parts of written JSON are told apart.

* **Lists.** `separated` puts commas between texts, as arrays and objects do
  (`writeItems_eq_separated`, `writeMembers_eq_separated`).
* **Ends.** What follows a value `Ends` it: the end of the text, a comma or a
  closing bracket. `separated_append_inj`: if every part of a list can be told
  from an end, so can the list from what follows its closing bracket. The
  induction is on the parts after the first, each of which has its comma.
* **Beginnings.** `exists_head_write`: the first character of a value tells its
  `Kind`. `numeric_append_inj`: a number ends where no numeric character stands.
-/

namespace Signet.Json

/-! ### Lists with commas -/

/-- Texts with commas between them. -/
def separated : List (List Char) → List Char
  | [] => []
  | part :: parts => part ++ parts.flatMap (',' :: ·)

variable (number : String → List Char)

lemma writeMoreItems_eq_flatMap (items : List Json) :
    writeMoreItems number items = (items.map (write number)).flatMap (',' :: ·) := by
  induction items with
  | nil => rfl
  | cons v rest ih => rw [writeMoreItems, ih, List.map_cons, List.flatMap_cons]

lemma writeItems_eq_separated (items : List Json) :
    writeItems number items = separated (items.map (write number)) := by
  cases items with
  | nil => rfl
  | cons v rest => rw [writeItems, writeMoreItems_eq_flatMap, List.map_cons, separated]

lemma writeMoreMembers_eq_flatMap (members : Members) :
    writeMoreMembers number members
      = (members.map (writeMember number)).flatMap (',' :: ·) := by
  induction members with
  | nil => rfl
  | cons m rest ih => rw [writeMoreMembers, ih, List.map_cons, List.flatMap_cons]

lemma writeMembers_eq_separated (members : Members) :
    writeMembers number members = separated (members.map (writeMember number)) := by
  cases members with
  | nil => rfl
  | cons m rest => rw [writeMembers, writeMoreMembers_eq_flatMap, List.map_cons, separated]

lemma writeMember_eq (m : String × Json) :
    writeMember number m = quote m.1 ++ ':' :: m.2.write number := by
  obtain ⟨name, v⟩ := m
  rfl

/-! ### Ends -/

/-- What may follow a value: nothing, a comma or a closing bracket. -/
def Ends (r : List Char) : Prop := ∀ c ∈ r.head?, c ∈ [',', ']', '\x7d']

lemma ends_nil : Ends [] := fun _ hc => absurd hc (by simp)

lemma ends_cons {c : Char} (h : c ∈ [',', ']', '\x7d']) (r : List Char) : Ends (c :: r) := by
  intro d hd
  cases hd
  exact h

variable {α β : Type} {part : α → List Char} {image : α → β} {close : Char}

lemma ends_flatMap_append (hclose : close ∈ [',', ']', '\x7d']) (parts : List (List Char))
    (r : List Char) : Ends (parts.flatMap (',' :: ·) ++ close :: r) := by
  cases parts with
  | nil => exact ends_cons hclose r
  | cons p parts => exact ends_cons (by simp) _

/-- The further parts of a list are told from what follows its closing bracket. -/
lemma flatMap_append_inj (hclose : close ∈ [',', ']', '\x7d']) (hcomma : close ≠ ',')
    {as bs : List α}
    (hparts : ∀ a ∈ as, ∀ b ∈ bs, ∀ r s, Ends r → Ends s → part a ++ r = part b ++ s →
      image a = image b ∧ r = s) {r s : List Char}
    (h : (as.map part).flatMap (',' :: ·) ++ close :: r
      = (bs.map part).flatMap (',' :: ·) ++ close :: s) :
    as.map image = bs.map image ∧ r = s := by
  induction as generalizing bs with
  | nil =>
      cases bs with
      | nil => exact ⟨rfl, (List.cons.inj h).2⟩
      | cons b bs => exact absurd (List.cons.inj h).1 hcomma
  | cons a as ih =>
      cases bs with
      | nil => exact absurd (List.cons.inj h).1.symm hcomma
      | cons b bs =>
          simp only [List.map_cons, List.flatMap_cons, List.cons_append, List.append_assoc,
            List.cons.injEq, true_and] at h
          obtain ⟨hab, hrest⟩ := hparts a List.mem_cons_self b List.mem_cons_self _ _
            (ends_flatMap_append hclose _ _) (ends_flatMap_append hclose _ _) h
          obtain ⟨himage, hrs⟩ := ih (fun a' ha' b' hb' => hparts a' (List.mem_cons_of_mem a ha') b'
            (List.mem_cons_of_mem b hb')) hrest
          rw [List.map_cons, List.map_cons, hab, himage]
          exact ⟨rfl, hrs⟩

/-- **A list is told from what follows its closing bracket**, if each of its parts is told from
an end and none begins with the bracket. -/
lemma separated_append_inj (hclose : close ∈ [',', ']', '\x7d']) (hcomma : close ≠ ',')
    {as bs : List α}
    (hparts : ∀ a ∈ as, ∀ b ∈ bs, ∀ r s, Ends r → Ends s → part a ++ r = part b ++ s →
      image a = image b ∧ r = s)
    (has : ∀ a ∈ as, ∃ c rest, part a = c :: rest ∧ c ≠ close)
    (hbs : ∀ b ∈ bs, ∃ c rest, part b = c :: rest ∧ c ≠ close) {r s : List Char}
    (h : separated (as.map part) ++ close :: r = separated (bs.map part) ++ close :: s) :
    as.map image = bs.map image ∧ r = s := by
  cases as with
  | nil =>
      cases bs with
      | nil => exact ⟨rfl, (List.cons.inj h).2⟩
      | cons b bs =>
          obtain ⟨c, rest, hb, hc⟩ := hbs b List.mem_cons_self
          rw [List.map_cons, separated, hb] at h
          exact absurd (List.cons.inj h).1.symm hc
  | cons a as =>
      cases bs with
      | nil =>
          obtain ⟨c, rest, ha, hc⟩ := has a List.mem_cons_self
          rw [List.map_cons, separated, ha] at h
          exact absurd (List.cons.inj h).1 hc
      | cons b bs =>
          rw [List.map_cons, List.map_cons, separated, separated, List.append_assoc,
            List.append_assoc] at h
          obtain ⟨hab, hrest⟩ := hparts a List.mem_cons_self b List.mem_cons_self _ _
            (ends_flatMap_append hclose _ _) (ends_flatMap_append hclose _ _) h
          obtain ⟨himage, hrs⟩ := flatMap_append_inj hclose hcomma
            (fun a' ha' b' hb' => hparts a' (List.mem_cons_of_mem a ha') b'
              (List.mem_cons_of_mem b hb')) hrest
          rw [List.map_cons, List.map_cons, hab, himage]
          exact ⟨rfl, hrs⟩

/-! ### Beginnings -/

/-- The kinds of JSON values. -/
inductive Kind where
  | null
  | bool
  | num
  | str
  | arr
  | obj

/-- The kind of a value. -/
def kind : Json → Kind
  | .null => .null
  | .bool _ => .bool
  | .num _ => .num
  | .str _ => .str
  | .arr _ => .arr
  | .obj _ => .obj

/-- The kind of the value that begins with a character. -/
def Kind.ofHead? (c : Char) : Option Kind :=
  if c = 'n' then some .null
  else if c = 't' ∨ c = 'f' then some .bool
  else if c = '"' then some .str
  else if c = '[' then some .arr
  else if c = '\x7b' then some .obj
  else if c = '-' ∨ c.isDigit then some .num
  else none

lemma Kind.ofHead?_of_numeric {c : Char} (h : c = '-' ∨ c.isDigit) : ofHead? c = some .num := by
  have hne : ∀ d ∈ ['n', 't', 'f', '"', '[', '\x7b'], c ≠ d := by
    rintro d hd rfl
    revert h
    fin_cases hd <;> decide
  simp only [List.forall_mem_cons] at hne
  obtain ⟨hn, ht, hf, hquote, hbracket, hbrace, -⟩ := hne
  rw [ofHead?, if_neg hn, if_neg (not_or.mpr ⟨ht, hf⟩), if_neg hquote, if_neg hbracket,
    if_neg hbrace, if_pos h]

variable {number}

/-- The first character of a value tells its kind. -/
lemma exists_head_write {v : Json} (hnumber : ∀ text, v = .num text →
      ∃ c rest, number text = c :: rest ∧ (c = '-' ∨ c.isDigit)) :
    ∃ c rest, v.write number = c :: rest ∧ Kind.ofHead? c = some v.kind := by
  cases v with
  | null => exact ⟨'n', _, rfl, rfl⟩
  | bool b =>
      cases b with
      | true => exact ⟨'t', _, rfl, rfl⟩
      | false => exact ⟨'f', _, rfl, rfl⟩
  | num text =>
      obtain ⟨c, rest, htext, hc⟩ := hnumber text rfl
      exact ⟨c, rest, htext, Kind.ofHead?_of_numeric hc⟩
  | str text => exact ⟨'"', _, rfl, rfl⟩
  | arr items => exact ⟨'[', _, rfl, rfl⟩
  | obj members => exact ⟨'\x7b', _, rfl, rfl⟩

open Number in
/-- Numbers are told from an end. -/
lemma numeric_append_inj {a b r s : List Char} (ha : ∀ c ∈ a, IsNumeric c)
    (hb : ∀ c ∈ b, IsNumeric c) (hr : Ends r) (hs : Ends s) (h : a ++ r = b ++ s) :
    a = b ∧ r = s := by
  have hend : ∀ c, c ∈ [',', ']', '\x7d'] → ¬ IsNumeric c := by
    intro c hc
    fin_cases hc <;> simp [IsNumeric]
  induction a generalizing b with
  | nil =>
      cases b with
      | nil => exact ⟨rfl, h⟩
      | cons c b =>
          rw [List.nil_append] at h
          exact absurd (hb c List.mem_cons_self) (hend c (hr c (by rw [h]; rfl)))
  | cons c a ih =>
      rw [List.forall_mem_cons] at ha
      cases b with
      | nil =>
          rw [List.nil_append] at h
          exact absurd ha.1 (hend c (hs c (by rw [← h]; rfl)))
      | cons d b =>
          rw [List.forall_mem_cons] at hb
          obtain ⟨rfl, htail⟩ := List.cons.inj h
          obtain ⟨rfl, hrs⟩ := ih ha.2 hb.2 htail
          exact ⟨rfl, hrs⟩

end Signet.Json
