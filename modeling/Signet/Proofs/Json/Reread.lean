import Mathlib.Order.Bounds.Defs
import Mathlib.Tactic
import Signet.Proofs.Json.Parsed
import Signet.Proofs.Json.Written

/-!
Values that were read are written and read again.

* `Within`: a value stands somewhere in another one. `Marked` values have an object in them
  whose least name is the one that marks a number; members are written in the order of their
  names, so that this is where the reader takes the object for a number.
* `Alike`: values that differ in the spelling of numbers only.
* `Unread`: a value cannot be read again, whatever ends it. A list is not if one of its
  parts is not (`items_unread`, `members_unread`); the induction is on the parts, up to
  the first one that is not read.
* `reread_of_parsed`: what was read is read again as a value alike if it is not marked,
  and not at all if it is. `Reread.parse` says so of whole texts.
-/

namespace Signet.Json

open Signet.Json.Parser

/-- A value stands somewhere in another one, or is it. -/
inductive Within (u : Json) : Json → Prop
  | self : Within u u
  | item {items : List Json} {v : Json} (mem : v ∈ items) (within : Within u v) :
      Within u (.arr items)
  | member {members : Members} {m : String × Json} (mem : m ∈ members) (within : Within u m.2) :
      Within u (.obj members)

/-- The least name of members. -/
def Members.IsLeastName (name : String) (ms : Members) : Prop :=
  IsLeast {n | n ∈ ms.map Prod.fst} name

/-- Some object in a value has the name that marks a number for its least name. -/
def Marked (v : Json) : Prop :=
  ∃ members, Within (.obj members) v ∧ Members.IsLeastName numberName members

/-- Values are the same but for their numbers, which are related. -/
inductive Alike (same : String → String → Prop) : Json → Json → Prop
  | null : Alike same .null .null
  | bool (b : Bool) : Alike same (.bool b) (.bool b)
  | num {text text' : String} (number : same text text') : Alike same (.num text) (.num text')
  | str (text : String) : Alike same (.str text) (.str text)
  | arr {items items' : List Json} (all : List.Forall₂ (Alike same) items items') :
      Alike same (.arr items) (.arr items')
  | obj {members members' : Members} (names : members.map Prod.fst = members'.map Prod.fst)
      (values : List.Forall₂ (Alike same) (members.map Prod.snd) (members'.map Prod.snd)) :
      Alike same (.obj members) (.obj members')

/-! ### Marked values -/

lemma marked_arr_iff {items : List Json} : Marked (.arr items) ↔ ∃ v ∈ items, Marked v := by
  constructor
  · rintro ⟨ms, hwithin, hleast⟩
    cases hwithin with
    | item mem within => exact ⟨_, mem, ms, within, hleast⟩
  · rintro ⟨v, hv, ms, hwithin, hleast⟩
    exact ⟨ms, .item hv hwithin, hleast⟩

lemma marked_obj_iff {members : Members} : Marked (.obj members) ↔
    Members.IsLeastName numberName members ∨ ∃ m ∈ members, Marked m.2 := by
  constructor
  · rintro ⟨ms, hwithin, hleast⟩
    cases hwithin with
    | self => exact .inl hleast
    | member mem within => exact .inr ⟨_, mem, ms, within, hleast⟩
  · rintro (hleast | ⟨m, hm, ms, hwithin, hleast⟩)
    · exact ⟨members, .self, hleast⟩
    · exact ⟨ms, .member hm hwithin, hleast⟩

/-- Nothing else is marked. -/
lemma not_marked {v : Json} (harr : ∀ items, v ≠ .arr items) (hobj : ∀ members, v ≠ .obj members) :
    ¬ Marked v := by
  rintro ⟨ms, hwithin, -⟩
  cases hwithin with
  | self => exact hobj ms rfl
  | item _ _ => exact harr _ rfl
  | member _ _ => exact hobj _ rfl

/-- Of members in order the first one has the least name. -/
lemma isLeastName_iff_head {name : String} {ms : Members}
    (h : ms.Pairwise fun a b => a.1 < b.1) :
    ms.IsLeastName name ↔ ∃ m ∈ ms.head?, m.1 = name := by
  cases ms with
  | nil => simp [Members.IsLeastName, IsLeast]
  | cons first rest =>
      have hfirst : Members.IsLeastName first.1 (first :: rest) := by
        refine ⟨List.mem_cons_self, ?_⟩
        rintro n hn
        obtain ⟨m, hm, rfl⟩ := List.mem_map.mp hn
        rcases List.mem_cons.mp hm with rfl | hm
        · exact le_rfl
        · exact ((List.pairwise_cons.mp h).1 m hm).le
      constructor
      · exact fun hleast => ⟨first, rfl, hfirst.unique hleast⟩
      · rintro ⟨m, hm, rfl⟩
        cases hm
        exact hfirst

variable {number : String → List Char} {depth : ℕ}

/-! ### Values that cannot be read again -/

variable (number depth) in
/-- A value that is written with given numbers is not read, whatever ends it. -/
structure Unread (v : Json) : Prop where
  /-- It begins with no blank, and not as the end of an array. -/
  head : ∃ c rest, v.write number = c :: rest ∧ isBlank c = false ∧ c ≠ ']'
  /-- It is not read. -/
  value_write : ∀ r, Ends r → ∀ p, value depth (v.write number ++ r) ≠ .ok p

variable (number depth) in
/-- A value is read or not, the same whatever ends it. -/
def Settled (v : Json) : Prop := (∃ w, ReadsAs number depth v w) ∨ Unread number depth v

lemma Settled.head {v : Json} (h : Settled number depth v) :
    ∃ c rest, v.write number = c :: rest ∧ isBlank c = false ∧ c ≠ ']' := by
  rcases h with ⟨w, h⟩ | h
  · exact h.head
  · exact h.head

lemma Unread.not_readsAs {v w : Json} (h : Unread number depth v) : ¬ ReadsAs number depth v w :=
  fun hread => h.value_write [] ends_nil _ (hread.value_write [] ends_nil)

/-- Items are not read if one of them is not. -/
lemma items_unread {v : Json} {items : List Json}
    (hsettled : ∀ u ∈ v :: items, Settled number depth u)
    (hunread : ∃ u ∈ v :: items, Unread number depth u) {fuel : ℕ} (r : List Char)
    (p : List Json × List Char) : Parser.items (value depth) fuel
      (v.write number ++ ((items.map (write number)).flatMap (',' :: ·) ++ ']' :: r)) ≠ .ok p := by
  intro h
  induction items generalizing v fuel p with
  | nil =>
      obtain ⟨u, hu, hunread⟩ := hunread
      rw [List.mem_singleton.mp hu] at hunread
      cases fuel with
      | zero => cases h
      | succ fuel =>
          simp only [Parser.items, Except.bind_eq_ok_iff] at h
          obtain ⟨q, hq, -⟩ := h
          exact hunread.value_write _ (ends_cons (by simp) r) q hq
  | cons next items ih =>
      cases fuel with
      | zero => cases h
      | succ fuel =>
          have hends : Ends (((next :: items).map (write number)).flatMap (',' :: ·)
              ++ ']' :: r) := ends_flatMap_append (by simp) _ r
          simp only [Parser.items, Except.bind_eq_ok_iff] at h
          obtain ⟨q, hq, h⟩ := h
          rw [List.forall_mem_cons] at hsettled
          rcases hsettled.1 with ⟨w, hv⟩ | hv
          · have hrest : ∃ u ∈ next :: items, Unread number depth u := by
              obtain ⟨u, hu, hunread⟩ := hunread
              rcases List.mem_cons.mp hu with rfl | hu
              · exact absurd hv hunread.not_readsAs
              · exact ⟨u, hu, hunread⟩
            rw [hv.value_write _ hends] at hq
            cases hq
            obtain ⟨c, rest, hhead, hblank, hclose⟩ := (hsettled.2 next List.mem_cons_self).head
            rw [List.map_cons, List.flatMap_cons, List.cons_append, List.cons_append,
              List.append_assoc] at h
            have hih := @ih next hsettled.2 hrest fuel
            rw [hhead, List.cons_append] at h hih
            simp only [dropBlanks_cons isBlank_comma, dropBlanks_cons hblank] at h
            split at h
            · cases h
            · cases h
            · simp only [Except.bind_eq_ok_iff] at h
              obtain ⟨q, hq, -⟩ := h
              exact hih q hq
          · exact hv.value_write _ hends q hq

/-- An array is not read if one of its items is not. -/
lemma unread_arr {items : List Json} (hsettled : ∀ u ∈ items, Settled number depth u)
    (hunread : ∃ u ∈ items, Unread number depth u) : Unread number (depth + 1) (.arr items) where
  head := ⟨'[', _, rfl, rfl, by decide⟩
  value_write r _ p h := by
    rw [write, writeItems_eq_separated, List.cons_append, List.cons_append, List.append_assoc,
      value, dropBlanks_cons (by decide)] at h
    simp only [Except.bind_eq_ok_iff] at h
    obtain ⟨q, hq, -⟩ := h
    cases items with
    | nil =>
        obtain ⟨u, hu, -⟩ := hunread
        cases hu
    | cons v items =>
        obtain ⟨c, rest, hhead, hblank, hclose⟩ := (hsettled v List.mem_cons_self).head
        have hitems := @items_unread _ _ v items hsettled hunread
        rw [List.map_cons, separated, List.append_assoc, hhead, List.cons_append, array,
          dropBlanks_cons hblank] at hq
        simp only [hhead, List.cons_append] at hitems
        split at hq
        · cases hq
        · rename_i heq
          exact hclose (List.cons.inj heq).1
        · exact hitems _ _ hq

/-! ### Objects that cannot be read again -/

/-- Members are not read if the value of one of them is not. -/
lemma members_unread {name : String} {v : Json} {ms : Members}
    (hsettled : ∀ m ∈ (name, v) :: ms, Settled number depth m.2)
    (hunread : ∃ m ∈ (name, v) :: ms, Unread number depth m.2) {fuel : ℕ} (r : List Char)
    (p : Members × List Char) : members (value depth) fuel name
      (':' :: (v.write number ++ ((ms.map (writeMember number)).flatMap (',' :: ·) ++ '\x7d' :: r)))
      ≠ .ok p := by
  intro h
  induction ms generalizing name v fuel p with
  | nil =>
      obtain ⟨m, hm, hunread⟩ := hunread
      rw [List.mem_singleton.mp hm] at hunread
      cases fuel with
      | zero => cases h
      | succ fuel =>
          simp only [members, colon_cons, Except.bind_eq_ok_iff] at h
          obtain ⟨rest, hrest, q, hq, -⟩ := h
          cases hrest
          exact hunread.value_write _ (ends_cons (by simp) r) q hq
  | cons next ms ih =>
      cases fuel with
      | zero => cases h
      | succ fuel =>
          obtain ⟨next, u⟩ := next
          have hends : Ends ((((next, u) :: ms).map (writeMember number)).flatMap (',' :: ·)
              ++ '\x7d' :: r) := ends_flatMap_append (by simp) _ r
          simp only [members, colon_cons, Except.bind_eq_ok_iff] at h
          obtain ⟨rest, hrest, q, hq, h⟩ := h
          cases hrest
          rw [List.forall_mem_cons] at hsettled
          rcases hsettled.1 with ⟨w, hv⟩ | hv
          · have hrest : ∃ m ∈ (next, u) :: ms, Unread number depth m.2 := by
              obtain ⟨m, hm, hunread⟩ := hunread
              rcases List.mem_cons.mp hm with rfl | hm
              · exact absurd hv hunread.not_readsAs
              · exact ⟨m, hm, hunread⟩
            rw [hv.value_write _ hends] at hq
            cases hq
            rw [flatMap_member_cons, dropBlanks_cons isBlank_comma] at h
            simp only [dropBlanks_cons isBlank_quote, string_quote, Except.bind_eq_ok_iff] at h
            obtain ⟨q, hq, q', hq', -⟩ := h
            cases hq
            exact ih hsettled.2 hrest q' hq'
          · exact hv.value_write _ hends q hq

/-- Members are not read if the first one has the name that marks a number. The number in its value
would have to be all there is in the object. -/
lemma numberObject_unread {u : Json} {m : String × Json} {ms : Members}
    (hkind : ∃ c rest, u.write number = c :: rest ∧ Kind.ofHead? c = some u.kind)
    (hblank : ∃ c rest, u.write number = c :: rest ∧ isBlank c = false ∧ c ≠ ']') (r : List Char)
    (p : Json × List Char) : numberObject (':' :: (u.write number
      ++ (((m :: ms).map (writeMember number)).flatMap (',' :: ·) ++ '\x7d' :: r))) ≠ .ok p := by
  intro h
  obtain ⟨c, rest, hc, hkind⟩ := hkind
  obtain ⟨c', rest', hc', hblank, -⟩ := hblank
  obtain ⟨rfl, rfl⟩ := List.cons.inj (hc.symm.trans hc')
  simp only [numberObject, colon_cons, Except.bind_eq_ok_iff] at h
  obtain ⟨s, hs, h⟩ := h
  cases hs
  have htext := flatMap_member_cons number m.1 m.2 ms r
  rw [hc, List.cons_append, dropBlanks_cons hblank] at h
  split at h
  · rename_i heq
    obtain ⟨rfl, rfl⟩ := List.cons.inj heq
    have hstr : u.kind = .str := (Option.some.inj hkind).symm
    cases u with
    | str text =>
        rw [write, quote, List.cons_append] at hc
        rw [← (List.cons.inj hc).2, List.append_assoc, List.singleton_append] at h
        simp only [string_quote, Except.bind_eq_ok_iff] at h
        obtain ⟨q, hq, digits, -, h⟩ := h
        cases hq
        rw [htext] at h
        simp only [dropBlanks_cons isBlank_comma] at h
        cases h
    | _ => cases hstr
  · cases h

/-- An object is not read if the value of one of its members is not. -/
lemma unread_obj {ms : Members} (hsettled : ∀ m ∈ ms, Settled number depth m.2)
    (hunread : ∃ m ∈ ms, Unread number depth m.2)
    (hname : ∀ m ∈ ms.head?, m.1 ≠ numberName) : Unread number (depth + 1) (.obj ms) where
  head := ⟨'\x7b', _, rfl, rfl, by decide⟩
  value_write r _ p h := by
    cases ms with
    | nil =>
        obtain ⟨m, hm, -⟩ := hunread
        cases hm
    | cons m ms =>
        obtain ⟨name, v⟩ := m
        rw [write, List.cons_append, List.cons_append, List.append_assoc, List.singleton_append,
          value, dropBlanks_cons (by decide)] at h
        simp only [writeMembers_cons, object, dropBlanks_cons isBlank_quote, string_quote,
          Except.bind_eq_ok_iff] at h
        obtain ⟨q, hq, h⟩ := h
        cases hq
        rw [if_neg (hname _ rfl)] at h
        simp only [Except.bind_eq_ok_iff] at h
        obtain ⟨q, hq, -⟩ := h
        exact members_unread hsettled hunread r q hq

/-- An object is not read if its first member has the name that marks a number, and is not the
only one. -/
lemma unread_obj_of_head {u : Json} {m : String × Json} {ms : Members}
    (hkind : ∃ c rest, u.write number = c :: rest ∧ Kind.ofHead? c = some u.kind)
    (hsettled : Settled number depth u) :
    Unread number (depth + 1) (.obj ((numberName, u) :: m :: ms)) where
  head := ⟨'\x7b', _, rfl, rfl, by decide⟩
  value_write r _ p h := by
    rw [write, List.cons_append, List.cons_append, List.append_assoc, List.singleton_append,
      value, dropBlanks_cons (by decide)] at h
    simp only [writeMembers_cons, object, dropBlanks_cons isBlank_quote, string_quote,
      Except.bind_eq_ok_iff] at h
    obtain ⟨q, hq, h⟩ := h
    cases hq
    rw [if_pos rfl] at h
    exact numberObject_unread hkind hsettled.head r p h

/-! ### Values that are read again -/

lemma readsAs_null : ReadsAs number depth .null .null where
  head := ⟨'n', _, rfl, rfl, by decide⟩
  value_write r _ := by
    rw [write, value]
    rfl

lemma readsAs_bool (b : Bool) : ReadsAs number depth (.bool b) (.bool b) where
  head := by
    cases b
    · exact ⟨'f', _, rfl, rfl, by decide⟩
    · exact ⟨'t', _, rfl, rfl, by decide⟩
  value_write r _ := by
    cases b
    · rw [write, value]
      rfl
    · rw [write, value]
      rfl

/-- A number is read as the spelling that is kept of what is written for it. -/
lemma readsAs_num {text text' : String} (h : Kept (number text) text'.toList) :
    ReadsAs number depth (.num text) (.num text') := by
  obtain ⟨c, rest, hhead, hc⟩ := Number.isNumber_head h.isNumber
  have hne : ∀ d, ¬ (d = '-' ∨ d.isDigit) → c ≠ d := by
    rintro d hd rfl
    exact hd hc
  have hblank : isBlank c = false := by
    simp [isBlank, hne ' ' (by decide), hne '\t' (by decide), hne '\n' (by decide),
      hne '\r' (by decide)]
  refine ⟨⟨c, rest, hhead, hblank, hne ']' (by decide)⟩, fun r hr => ?_⟩
  have hread := number_append h hr
  rw [hhead, List.cons_append] at hread
  rw [write, hhead, List.cons_append, value.eq_def, dropBlanks_cons hblank]
  split
  · rename_i heq
    cases heq
  · rename_i heq
    exact absurd (List.cons.inj heq).1 (hne 'n' (by decide))
  · rename_i heq
    exact absurd (List.cons.inj heq).1 (hne 't' (by decide))
  · rename_i heq
    exact absurd (List.cons.inj heq).1 (hne 'f' (by decide))
  · rename_i heq
    exact absurd (List.cons.inj heq).1 (hne '"' (by decide))
  · rename_i heq
    exact absurd (List.cons.inj heq).1 (hne '[' (by decide))
  · rename_i heq
    exact absurd (List.cons.inj heq).1 (hne '\x7b' (by decide))
  · rename_i heq
    obtain ⟨rfl, rfl⟩ := List.cons.inj heq
    simp only [if_pos hc, hread, Except.bind_eq_ok_iff]
    exact ⟨_, rfl, by rw [String.ofList_toList]; rfl⟩

/-- Lists of related elements, from one for each element. -/
lemma exists_forall₂ {α β : Type} {R : α → β → Prop} {as : List α} (h : ∀ a ∈ as, ∃ b, R a b) :
    ∃ bs, List.Forall₂ R as bs := by
  induction as with
  | nil => exact ⟨[], .nil⟩
  | cons a as ih =>
      rw [List.forall_mem_cons] at h
      obtain ⟨⟨b, hb⟩, hrest⟩ := h
      obtain ⟨bs, hbs⟩ := ih hrest
      exact ⟨b :: bs, .cons hb hbs⟩

variable {same : String → String → Prop}

variable (number same depth) in
/-- What becomes of a value that was read when it is written and read again. -/
structure Reread (v : Json) : Prop where
  /-- It is read as a value alike if it is not marked. -/
  alike : ¬ Marked v → ∃ w, Alike same v w ∧ ReadsAs number depth v w
  /-- It is not read if it is marked. -/
  unread : Marked v → Unread number depth v

lemma Reread.settled {v : Json} (h : Reread number depth same v) : Settled number depth v := by
  by_cases hmarked : Marked v
  · exact .inr (h.unread hmarked)
  · obtain ⟨w, -, hw⟩ := h.alike hmarked
    exact .inl ⟨w, hw⟩

lemma reread_of_readsAs {v w : Json} (hmarked : ¬ Marked v) (halike : Alike same v w)
    (hread : ReadsAs number depth v w) : Reread number depth same v :=
  ⟨fun _ => ⟨w, halike, hread⟩, fun h => absurd h hmarked⟩

lemma reread_arr {items : List Json} (h : ∀ v ∈ items, Reread number depth same v) :
    Reread number (depth + 1) same (.arr items) where
  alike hmarked := by
    rw [marked_arr_iff] at hmarked
    obtain ⟨items', hitems⟩ :=
      exists_forall₂ fun v hv => (h v hv).alike fun hm => hmarked ⟨v, hv, hm⟩
    exact ⟨.arr items', .arr (hitems.imp fun _ _ h => h.1),
      readsAs_arr (hitems.imp fun _ _ h => h.2)⟩
  unread hmarked := by
    rw [marked_arr_iff] at hmarked
    obtain ⟨v, hv, hm⟩ := hmarked
    exact unread_arr (fun u hu => (h u hu).settled) ⟨v, hv, (h v hv).unread hm⟩

/-- An object is read again in the order that its members were read in. -/
lemma readsAs_obj_of_pairwise {ms ms' : Members} (hsorted : ms.Pairwise fun a b => a.1 < b.1)
    (hname : ∀ m ∈ ms.head?, m.1 ≠ numberName)
    (h : List.Forall₂ (MemberReadsAs number depth) ms ms') :
    ReadsAs number (depth + 1) (.obj ms) (.obj ms') := by
  have hnames : ms.map Prod.fst = ms'.map Prod.fst := by
    rw [← List.forall₂_eq_eq_eq, List.forall₂_map_left_iff, List.forall₂_map_right_iff]
    exact h.imp fun _ _ h => h.1
  have hsorted' : ms'.Pairwise fun a b => a.1 < b.1 := by
    rw [← List.pairwise_map (f := Prod.fst) (R := (· < ·))] at hsorted ⊢
    rwa [← hnames]
  have hread := readsAs_obj h hname
  rwa [Members.ofList_of_pairwise hsorted'] at hread

lemma reread_obj {ms : Members} (hsorted : ms.Pairwise fun a b => a.1 < b.1)
    (hunmarked : ms.map Prod.fst ≠ [numberName]) (h : ∀ m ∈ ms, Reread number depth same m.2)
    (hkind : ∀ m ∈ ms, ∃ c rest, m.2.write number = c :: rest
      ∧ Kind.ofHead? c = some m.2.kind) : Reread number (depth + 1) same (.obj ms) where
  alike hmarked := by
    rw [marked_obj_iff, not_or, isLeastName_iff_head hsorted] at hmarked
    obtain ⟨hhead, hvalues⟩ := hmarked
    have hmembers : ∀ m ∈ ms, ∃ m' : String × Json,
        m.1 = m'.1 ∧ Alike same m.2 m'.2 ∧ ReadsAs number depth m.2 m'.2 := by
      intro m hm
      obtain ⟨w, halike, hread⟩ := (h m hm).alike fun hmarked => hvalues ⟨m, hm, hmarked⟩
      exact ⟨(m.1, w), rfl, halike, hread⟩
    obtain ⟨ms', hms⟩ := exists_forall₂ hmembers
    refine ⟨.obj ms', .obj ?_ ?_, readsAs_obj_of_pairwise hsorted
      (fun m hm hname => hhead ⟨m, hm, hname⟩) (hms.imp fun _ _ h => ⟨h.1, h.2.2⟩)⟩
    · rw [← List.forall₂_eq_eq_eq, List.forall₂_map_left_iff, List.forall₂_map_right_iff]
      exact hms.imp fun _ _ h => h.1
    · rw [List.forall₂_map_left_iff, List.forall₂_map_right_iff]
      exact hms.imp fun _ _ h => h.2.1
  unread hmarked := by
    rw [marked_obj_iff, isLeastName_iff_head hsorted] at hmarked
    have hsettled := fun m hm => (h m hm).settled
    by_cases hhead : ∃ m ∈ ms.head?, m.1 = numberName
    · cases ms with
      | nil => simp at hhead
      | cons first ms =>
          obtain ⟨m, hm, hname⟩ := hhead
          cases hm
          obtain ⟨name, u⟩ := first
          subst hname
          cases ms with
          | nil => exact absurd rfl hunmarked
          | cons m ms =>
              exact unread_obj_of_head (hkind _ List.mem_cons_self)
                (hsettled _ List.mem_cons_self)
    · obtain ⟨m, hm, hmarked⟩ := hmarked.resolve_left hhead
      exact unread_obj hsettled ⟨m, hm, (h m hm).unread hmarked⟩
        fun m hm hname => hhead ⟨m, hm, hname⟩

/-- **A value that was read is read again as a value alike if it is not marked, and not at all if
it is**, when a number's text is written as one that is kept as a related text. -/
theorem reread_of_parsed (hnumber : ∀ {text : String}, Kept text.toList text.toList →
      ∃ text', Kept (number text) text'.toList ∧ same text text') {v : Json}
    (hv : Parsed depth v) : Reread number depth same v := by
  have hkind {d : ℕ} {u : Json} (hu : Parsed d u) : ∃ c rest, u.write number = c :: rest
      ∧ Kind.ofHead? c = some u.kind := by
    refine exists_head_write fun text htext => ?_
    subst htext
    cases hu with
    | num kept =>
        obtain ⟨text', hkept, -⟩ := hnumber kept
        exact Number.isNumber_head hkept.isNumber
  induction hv with
  | null => exact reread_of_readsAs (not_marked (by simp) (by simp)) .null readsAs_null
  | bool b => exact reread_of_readsAs (not_marked (by simp) (by simp)) (.bool b) (readsAs_bool b)
  | num kept =>
      obtain ⟨text', hkept, hsame⟩ := hnumber kept
      exact reread_of_readsAs (not_marked (by simp) (by simp)) (.num hsame) (readsAs_num hkept)
  | str text =>
      exact reread_of_readsAs (not_marked (by simp) (by simp)) (.str text) (readsAs_str text)
  | arr _ ih => exact reread_arr ih
  | obj sorted unmarked values ih =>
      exact reread_obj sorted unmarked ih fun m hm => hkind (values m hm)

/-! ### Whole texts -/

/-- What is not read as a part of a text is not read as a whole text. -/
lemma Unread.parse {v : Json} (h : Unread number maxDepth v) (w : Json) :
    Json.parse (String.ofList (v.write number)) ≠ .ok w := by
  intro hparse
  simp only [Json.parse, whole, Except.mapError_eq_ok_iff, Except.bind_eq_ok_iff,
    String.toList_ofList] at hparse
  obtain ⟨p, hp, -⟩ := hparse
  refine h.value_write [] ends_nil p ?_
  rw [List.append_nil]
  exact hp

/-- **A text that was written is read as a value alike, if anything, and only if the value is not
marked.** -/
theorem Reread.parse {v : Json} (h : Reread number maxDepth same v) :
    ((∃ w, Json.parse (String.ofList (v.write number)) = .ok w) ↔ ¬ Marked v)
      ∧ ∀ w, Json.parse (String.ofList (v.write number)) = .ok w → Alike same v w := by
  by_cases hmarked : Marked v
  · have hunread := (h.unread hmarked).parse
    refine ⟨⟨fun ⟨w, hw⟩ => absurd hw (hunread w), fun hnot => absurd hmarked hnot⟩, ?_⟩
    exact fun w hw => absurd hw (hunread w)
  · obtain ⟨u, halike, hread⟩ := h.alike hmarked
    refine ⟨⟨fun _ => hmarked, fun _ => ⟨u, hread.parse⟩⟩, fun w hw => ?_⟩
    rw [hread.parse] at hw
    cases hw
    exact halike

end Signet.Json
