import Mathlib.Data.String.Basic
import Mathlib.Tactic
import Signet.Json.Basic

/-!
Members of an object that are put in and left out.

* `get?_eq_none_iff`: a name without a value is no member's name.
* `without_eq_self`: leaving out a name that is not there changes nothing.
* `without_insert`: neither does giving a value to a name that is then left out.
* `get?_without`, `get?_map`: what a name's value is afterwards.
* `get?_eq_some_iff_mem`, `get?_of_perm`: where no name occurs twice, the values
  do not depend on the order of the members.
* `get?_ofList_of_nodup`, `pairwise_ofList`: members put in one after another keep their
  values, and come out in the order of distinct names. The induction is on the members
  put in; each step keeps the order (`pairwise_insert`). `ofList_of_pairwise`: members that
  are in order already come out as they are.
-/

namespace Signet.Json.Members

variable {ms : Members} {name : String} {names : List String} {v : Json}

/-- A name has no value if no member has it. -/
lemma get?_eq_none_iff : get? name ms = none ↔ ∀ m ∈ ms, m.1 ≠ name := by
  induction ms with
  | nil => simp
  | cons m rest ih =>
      rw [get?_cons, List.forall_mem_cons]
      by_cases h : m.1 = name
      · simp [h]
      · rw [if_neg h, ih]
        simp [h]

lemma contains_eq_false_iff : contains ms name = false ↔ get? name ms = none := by
  rw [contains, Option.isSome_eq_false_iff, Option.isNone_iff_eq_none]

/-- Nothing is left out of an object that has none of the names. -/
lemma without_eq_self (h : ∀ n ∈ names, get? n ms = none) : without names ms = ms := by
  refine List.filter_eq_self.mpr fun m hm => ?_
  have hmem : m.1 ∉ names := fun hn => get?_eq_none_iff.mp (h m.1 hn) m hm rfl
  simpa using hmem

/-- A name that is left out afterwards may be given a value. -/
lemma without_insert (h : get? name ms = none) (hname : name ∈ names) :
    without names (ms.insert name v) = without names ms := by
  induction ms with
  | nil => simp [insert, without, hname]
  | cons m rest ih =>
      rw [get?_eq_none_iff, List.forall_mem_cons] at h
      obtain ⟨n, w⟩ := m
      have hrest : without names (insert name v rest) = without names rest :=
        ih (get?_eq_none_iff.mpr h.2)
      rw [insert, if_neg (Ne.symm h.1)]
      split
      · simp [without, hname]
      · simp only [without, List.filter_cons] at hrest ⊢
        rw [hrest]

/-- A further name to leave out makes no difference where it is not there. -/
lemma without_append_singleton (h : get? name ms = none) :
    without (names ++ [name]) ms = without names ms := by
  refine List.filter_congr fun m hm => ?_
  have hne : m.1 ≠ name := get?_eq_none_iff.mp h m hm
  simp [hne]

/-- Names that are left out have no value, and the others have theirs. -/
lemma get?_without (names : List String) (ms : Members) (name : String) :
    get? name (without names ms) = if name ∈ names then none else get? name ms := by
  induction ms with
  | nil => simp [without]
  | cons m rest ih =>
      obtain ⟨n, w⟩ := m
      rw [without] at ih ⊢
      by_cases hn : n ∈ names
      · rw [List.filter_cons_of_neg (by simpa using hn), ih, get?_cons]
        by_cases hname : name ∈ names
        · rw [if_pos hname, if_pos hname]
        · have hne : n ≠ name := fun h => hname (h ▸ hn)
          rw [if_neg hname, if_neg hname, if_neg hne]
      · rw [List.filter_cons_of_pos (by simpa using hn), get?_cons, get?_cons, ih]
        by_cases hname : name ∈ names
        · have hne : n ≠ name := fun h => hn (h ▸ hname)
          rw [if_pos hname, if_pos hname, if_neg hne]
        · rw [if_neg hname, if_neg hname]

/-- The values are changed one by one. -/
lemma get?_map (f : Json → Json) (ms : Members) (name : String) :
    get? name (ms.map fun m => (m.1, f m.2)) = (get? name ms).map f := by
  induction ms with
  | nil => rfl
  | cons m rest ih =>
      obtain ⟨n, w⟩ := m
      rw [List.map_cons, get?_cons, get?_cons, ih]
      split <;> rfl

/-- Where no name occurs twice, every member is found. -/
lemma get?_eq_some_iff_mem (h : (ms.map Prod.fst).Nodup) :
    get? name ms = some v ↔ (name, v) ∈ ms := by
  induction ms with
  | nil => simp
  | cons m rest ih =>
      obtain ⟨n, w⟩ := m
      rw [List.map_cons, List.nodup_cons] at h
      rw [get?_cons, List.mem_cons, Prod.mk.injEq]
      by_cases hn : n = name
      · subst hn
        rw [if_pos rfl, Option.some.injEq]
        refine ⟨fun hw => .inl ⟨rfl, hw.symm⟩, ?_⟩
        rintro (⟨-, hw⟩ | hmem)
        · exact hw.symm
        · exact absurd (List.mem_map_of_mem hmem) h.1
      · rw [if_neg hn, ih h.2]
        exact ⟨.inr, fun hmem => hmem.resolve_left fun heq => hn heq.1.symm⟩

/-- The order of the members makes no difference then. -/
lemma get?_of_perm {ms' : Members} (hperm : ms.Perm ms') (h : (ms.map Prod.fst).Nodup)
    (name : String) : get? name ms = get? name ms' := by
  have h' : (ms'.map Prod.fst).Nodup := (hperm.map Prod.fst).nodup_iff.mp h
  refine Option.ext fun v => ?_
  rw [get?_eq_some_iff_mem h, get?_eq_some_iff_mem h', hperm.mem_iff]

/-! ### Members in order -/

/-- The last value of a name is the one that is kept. -/
lemma get?_ofList (entries : Members) (name : String) :
    get? name (ofList entries) = get? name entries.reverse := by
  rw [ofList, ← List.foldr_reverse]
  induction entries.reverse with
  | nil => rfl
  | cons m rest ih =>
      obtain ⟨n, w⟩ := m
      rw [List.foldr_cons, get?_cons]
      split
      · rename_i h
        rw [h, get?_insert_self]
      · rename_i h
        rw [get?_insert_of_ne (Ne.symm h), ih]

/-- Where no name occurs twice, every value is kept. -/
lemma get?_ofList_of_nodup {entries : Members} (h : (entries.map Prod.fst).Nodup)
    (name : String) : get? name (ofList entries) = get? name entries := by
  rw [get?_ofList]
  exact (get?_of_perm entries.reverse_perm.symm h name).symm

lemma mem_insert {m : String × Json} (h : m ∈ ms.insert name v) : m = (name, v) ∨ m ∈ ms := by
  induction ms with
  | nil => exact .inl (List.mem_singleton.mp h)
  | cons first rest ih =>
      obtain ⟨n, w⟩ := first
      rw [insert] at h
      split at h
      · rcases List.mem_cons.mp h with hm | hm
        · exact .inl hm
        · exact .inr (List.mem_cons_of_mem _ hm)
      · split at h
        · exact List.mem_cons.mp h
        · rcases List.mem_cons.mp h with hm | hm
          · exact .inr (hm ▸ List.mem_cons_self)
          · exact (ih hm).imp_right (List.mem_cons_of_mem _)

/-- There are no members but those that were put in. -/
lemma mem_ofList {entries : Members} {m : String × Json} (h : m ∈ ofList entries) :
    m ∈ entries := by
  rw [ofList, ← List.foldr_reverse] at h
  rw [← List.mem_reverse]
  generalize entries.reverse = last at h ⊢
  induction last with
  | nil => exact h
  | cons e rest ih =>
      rcases mem_insert h with rfl | hm
      · exact List.mem_cons_self
      · exact List.mem_cons_of_mem _ (ih hm)

/-- Members in the order of their names stay so when one is put in. -/
lemma pairwise_insert (h : ms.Pairwise fun a b => a.1 < b.1) (name : String) (v : Json) :
    (ms.insert name v).Pairwise fun a b => a.1 < b.1 := by
  induction ms with
  | nil => exact List.pairwise_singleton _ _
  | cons first rest ih =>
      obtain ⟨n, w⟩ := first
      have hfirst := (List.pairwise_cons.mp h).1
      have hrest := (List.pairwise_cons.mp h).2
      rw [insert]
      split
      · rename_i heq
        subst heq
        exact List.pairwise_cons.mpr ⟨hfirst, hrest⟩
      · split
        · rename_i hlt
          refine List.pairwise_cons.mpr ⟨fun m hm => ?_, h⟩
          rcases List.mem_cons.mp hm with rfl | hm
          · exact hlt
          · exact hlt.trans (hfirst m hm)
        · rename_i hne hle
          refine List.pairwise_cons.mpr ⟨fun m hm => ?_, ih hrest⟩
          rcases mem_insert hm with rfl | hm
          · exact lt_of_le_of_ne (not_lt.mp hle) (Ne.symm hne)
          · exact hfirst m hm

/-- **Members are kept in the order of their names.** -/
theorem pairwise_ofList (entries : Members) :
    (ofList entries).Pairwise fun a b => a.1 < b.1 := by
  have hsorted : ∀ (rest ms : Members), ms.Pairwise (fun a b => a.1 < b.1) →
      (rest.foldl (fun ms e => ms.insert e.1 e.2) ms).Pairwise fun a b => a.1 < b.1 := by
    intro rest
    induction rest with
    | nil => exact fun _ h => h
    | cons e rest ih => exact fun ms h => ih _ (pairwise_insert h e.1 e.2)
  exact hsorted entries [] List.Pairwise.nil

/-- Names in order are distinct. -/
lemma nodup_of_pairwise (h : ms.Pairwise fun a b => a.1 < b.1) : (ms.map Prod.fst).Nodup :=
  List.pairwise_map.mpr (h.imp fun hlt => ne_of_lt hlt)

/-- Each name is kept once. -/
lemma nodup_ofList (entries : Members) : ((ofList entries).map Prod.fst).Nodup :=
  nodup_of_pairwise (pairwise_ofList entries)

/-- A name that was put in is there. -/
lemma mem_map_fst_ofList {entries : Members} (h : name ∈ entries.map Prod.fst) :
    name ∈ (ofList entries).map Prod.fst := by
  obtain ⟨m, hm, rfl⟩ := List.mem_map.mp h
  by_contra hnone
  have hget : get? m.1 (ofList entries) = none :=
    get?_eq_none_iff.mpr fun m' hm' heq => hnone (heq ▸ List.mem_map_of_mem hm')
  rw [get?_ofList, get?_eq_none_iff] at hget
  exact hget m (List.mem_reverse.mpr hm) rfl

/-- Members that are in order already are kept as they are. -/
lemma ofList_of_pairwise (h : ms.Pairwise fun a b => a.1 < b.1) : ofList ms = ms := by
  have hperm : (ofList ms).Perm ms := by
    have hnodup := nodup_of_pairwise h
    refine (List.perm_ext_iff_of_nodup (List.Nodup.of_map _ (nodup_ofList ms))
      (List.Nodup.of_map _ hnodup)).mpr fun m => ?_
    rw [← get?_eq_some_iff_mem (nodup_ofList ms), ← get?_eq_some_iff_mem hnodup,
      get?_ofList_of_nodup hnodup]
  exact hperm.eq_of_pairwise (fun a b _ _ hab hba => absurd hab (not_lt.mpr hba.le))
    (pairwise_ofList ms) h

end Signet.Json.Members
