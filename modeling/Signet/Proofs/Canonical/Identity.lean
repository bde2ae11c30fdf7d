import Mathlib.Tactic
import Signet.Proofs.Canonical.Tree
import Signet.Proofs.Json.Quote
import Signet.Proofs.Json.Separated

/-!
Canonical text identifies what is written.

* **Reading.** `told_of_proper`: the text of a value can be told from what follows
  it, and gives the tree of the value. The induction is on the value, with what
  follows arbitrary; `kind_eq_of_write_append` sorts out values of two kinds.
* **Writing.** `text_eq_of_tree_eq`: values with one tree have one text. The members
  of objects are lists in the order of their names with the same elements then
  (`sorted_ext`).
* **Both.** `canonicalize_eq_iff`: the canonical texts are the same if the trees
  without the members left out are.
-/

namespace Signet.Canonical

open Json (Proper Ends separated quote)

/-! ### Reading -/

lemma exists_head_write {v : Json} (h : Proper v) :
    ∃ c rest, v.write writeNumber = c :: rest ∧ Json.Kind.ofHead? c = some v.kind := by
  refine Json.exists_head_write fun text hv => ?_
  subst hv
  cases h with
  | num number =>
      rw [writeNumber_eq number]
      exact Json.Number.isNumber_head (isNumber_renderNumber number)

/-- Values of two kinds have different texts. -/
lemma kind_eq_of_write_append {v w : Json} (hv : Proper v) (hw : Proper w) {r s : List Char}
    (h : v.write writeNumber ++ r = w.write writeNumber ++ s) : v.kind = w.kind := by
  obtain ⟨c, rest, hvtext, hvkind⟩ := exists_head_write hv
  obtain ⟨d, rest', hwtext, hwkind⟩ := exists_head_write hw
  rw [hvtext, hwtext] at h
  rw [(List.cons.inj h).1] at hvkind
  exact Option.some.inj (hvkind.symm.trans hwkind)

/-- No value begins with a closing bracket. -/
lemma exists_head_write_ne {v : Json} (h : Proper v) {close : Char}
    (hclose : Json.Kind.ofHead? close = none) :
    ∃ c rest, v.write writeNumber = c :: rest ∧ c ≠ close := by
  obtain ⟨c, rest, htext, hkind⟩ := exists_head_write h
  refine ⟨c, rest, htext, ?_⟩
  rintro rfl
  rw [hclose] at hkind
  cases hkind

/-- Nor does any member begin with one. -/
lemma exists_head_writeMember_ne (m : String × Json) :
    ∃ c rest, Json.writeMember writeNumber m = c :: rest ∧ c ≠ '\x7d' := by
  rw [Json.writeMember_eq]
  exact ⟨'"', _, rfl, by simp⟩

/-- A member is told from what follows it, if its value is. -/
lemma writeMember_append_inj {m m' : String × Json}
    (hvalue : ∀ r s, Ends r → Ends s →
      m.2.write writeNumber ++ r = m'.2.write writeNumber ++ s → tree m.2 = tree m'.2 ∧ r = s)
    {r s : List Char} (hr : Ends r) (hs : Ends s)
    (h : Json.writeMember writeNumber m ++ r = Json.writeMember writeNumber m' ++ s) :
    (m.1, tree m.2) = (m'.1, tree m'.2) ∧ r = s := by
  rw [Json.writeMember_eq, Json.writeMember_eq, List.append_assoc, List.append_assoc] at h
  obtain ⟨hname, hrest⟩ := Json.quote_append_inj h
  obtain ⟨htree, hrs⟩ := hvalue r s hr hs (List.cons.inj hrest).2
  rw [hname, htree]
  exact ⟨rfl, hrs⟩

/-- Members with one list of names and trees have one tree. -/
lemma tree_obj_eq_of_map_eq {a b : Json.Members}
    (h : a.map (fun m => (m.1, tree m.2)) = b.map (fun m => (m.1, tree m.2))) :
    tree (.obj a) = tree (.obj b) := by
  rw [tree_obj_eq_iff]
  intro name
  induction a generalizing b with
  | nil =>
      rw [List.map_nil, eq_comm, List.map_eq_nil_iff] at h
      rw [h]
  | cons m a ih =>
      cases b with
      | nil => cases h
      | cons m' b =>
          obtain ⟨hm, hrest⟩ := List.cons.inj h
          obtain ⟨hname, htree⟩ := Prod.mk.inj hm
          rw [Json.Members.get?_cons, Json.Members.get?_cons, hname]
          split
          · rw [Option.map_some, Option.map_some, htree]
          · exact ih hrest

/-- Two values are told apart by their trees, whatever follows them. -/
def Told (v w : Json) : Prop :=
  ∀ r s, Ends r → Ends s → v.write writeNumber ++ r = w.write writeNumber ++ s →
    tree v = tree w ∧ r = s

/-- Arrays are told apart if their items are. -/
lemma told_arr {items items' : List Json} (h : ∀ v ∈ items, ∀ w ∈ items', Told v w)
    (hproper : ∀ v ∈ items, Proper v) (hproper' : ∀ v ∈ items', Proper v) :
    Told (.arr items) (.arr items') := by
  intro r s _ _ htext
  simp only [Json.write, Json.writeItems_eq_separated, List.cons_append, List.append_assoc,
    List.cons.injEq, true_and] at htext
  obtain ⟨htree, hrs⟩ := Json.separated_append_inj (by simp) (by simp) h
    (fun v hv => exists_head_write_ne (hproper v hv) (by decide))
    (fun w hw => exists_head_write_ne (hproper' w hw) (by decide)) htext
  rw [tree, tree, treeItems_eq_map, treeItems_eq_map, htree]
  exact ⟨rfl, hrs⟩

/-- Objects are told apart if the values in them are. -/
lemma told_obj {members members' : Json.Members}
    (h : ∀ m ∈ members, ∀ m' ∈ members', Told m.2 m'.2) :
    Told (.obj members) (.obj members') := by
  intro r s _ _ htext
  simp only [Json.write, Json.writeMembers_eq_separated, List.cons_append, List.append_assoc,
    List.cons.injEq, true_and] at htext
  obtain ⟨htree, hrs⟩ := Json.separated_append_inj (by simp) (by simp)
    (fun m hm m' hm' r s hr hs heq => writeMember_append_inj (h m hm m' hm') hr hs heq)
    (fun m _ => exists_head_writeMember_ne m) (fun m _ => exists_head_writeMember_ne m) htext
  exact ⟨tree_obj_eq_of_map_eq htree, hrs⟩

/-- **The text of a value gives its tree**, and where the text ends. -/
theorem told_of_proper {v w : Json} (hv : Proper v) (hw : Proper w) : Told v w := by
  induction hv generalizing w with
  | null =>
      intro r s hr hs h
      have hkind := kind_eq_of_write_append .null hw h
      cases hw with
      | null => exact ⟨rfl, List.append_cancel_left h⟩
      | _ => cases hkind
  | bool b =>
      intro r s hr hs h
      have hkind := kind_eq_of_write_append (.bool b) hw h
      cases hw with
      | bool b' =>
          cases b <;> cases b'
          · exact ⟨rfl, List.append_cancel_left h⟩
          · exact absurd (List.cons.inj h).1 (by simp)
          · exact absurd (List.cons.inj h).1 (by simp)
          · exact ⟨rfl, List.append_cancel_left h⟩
      | _ => cases hkind
  | num number =>
      intro r s hr hs h
      have hkind := kind_eq_of_write_append (.num number) hw h
      cases hw with
      | num number' =>
          rw [Json.write, Json.write, writeNumber_eq number, writeNumber_eq number'] at h
          obtain ⟨htext, hrs⟩ := Json.numeric_append_inj
            (Json.Number.isNumber_numeric (isNumber_renderNumber number))
            (Json.Number.isNumber_numeric (isNumber_renderNumber number')) hr hs h
          rw [tree, tree, htext]
          exact ⟨rfl, hrs⟩
      | _ => cases hkind
  | str text =>
      intro r s hr hs h
      have hkind := kind_eq_of_write_append (.str text) hw h
      cases hw with
      | str text' =>
          obtain ⟨rfl, hrs⟩ := Json.quote_append_inj h
          exact ⟨rfl, hrs⟩
      | _ => cases hkind
  | arr all ih =>
      intro r s hr hs h
      have hkind := kind_eq_of_write_append (.arr all) hw h
      cases hw with
      | arr all' =>
          exact told_arr (fun v hv w hw => ih v hv (all' w hw)) all all' r s hr hs h
      | _ => cases hkind
  | obj distinct values ih =>
      intro r s hr hs h
      have hkind := kind_eq_of_write_append (.obj distinct values) hw h
      cases hw with
      | obj distinct' values' =>
          exact told_obj (fun m hm m' hm' => ih m hm (values' m' hm')) r s hr hs h
      | _ => cases hkind

/-! ### Writing -/

/-- Lists in the order of distinct names are the same if their elements are. -/
lemma sorted_ext {γ : Type} {as bs : List (String × γ)} (ha : as.Pairwise fun a b => a.1 ≤ b.1)
    (hb : bs.Pairwise fun a b => a.1 ≤ b.1) (hanames : (as.map Prod.fst).Nodup)
    (hbnames : (bs.map Prod.fst).Nodup) (h : ∀ p, p ∈ as ↔ p ∈ bs) : as = bs := by
  have hperm : as.Perm bs :=
    (List.perm_ext_iff_of_nodup (List.Nodup.of_map _ hanames) (List.Nodup.of_map _ hbnames)).mpr h
  refine hperm.eq_of_pairwise (fun a b hamem hbmem hab hba => ?_) ha hb
  exact List.inj_on_of_nodup_map hanames hamem ((h b).mpr hbmem) (le_antisymm hab hba)

/-- The canonical text of a value from which nothing is left out. -/
def text (v : Json) : List Char := (sortNames v).write writeNumber

/-- The names of the members of a sorted object, with the texts of their values. -/
def entries (members : Json.Members) : List (String × List Char) :=
  ((sortMembers members).mergeSort nameLe).map fun m => (m.1, m.2.write writeNumber)

lemma text_obj (members : Json.Members) :
    text (.obj members) = '\x7b' :: separated ((entries members).map
      fun e => quote e.1 ++ ':' :: e.2) ++ ['\x7d'] := by
  have hentry : ((sortMembers members).mergeSort nameLe).map (Json.writeMember writeNumber)
      = (entries members).map fun e => quote e.1 ++ ':' :: e.2 := by
    rw [entries, List.map_map]
    exact List.map_congr_left fun m _ => Json.writeMember_eq writeNumber m
  rw [text, sortNames, Json.write, Json.writeMembers_eq_separated, hentry]

/-- The entry of a name is the text of its value. -/
lemma mem_entries_iff {members : Json.Members} (h : (members.map Prod.fst).Nodup)
    {e : String × List Char} :
    e ∈ entries members ↔ (members.get? e.1).map text = some e.2 := by
  obtain ⟨name, entry⟩ := e
  have hget := get?_sortMembers h name
  rw [entries, List.mem_map, Option.map_eq_some_iff]
  constructor
  · rintro ⟨m, hm, heq⟩
    obtain ⟨rfl, rfl⟩ := Prod.mk.inj heq
    rw [(Json.Members.get?_eq_some_iff_mem (nodup_sortMembers h)).mpr hm, eq_comm,
      Option.map_eq_some_iff] at hget
    obtain ⟨v, hv, hsorted⟩ := hget
    exact ⟨v, hv, by rw [text, hsorted]⟩
  · rintro ⟨v, hv, rfl⟩
    rw [hv, Option.map_some, Json.Members.get?_eq_some_iff_mem (nodup_sortMembers h)] at hget
    exact ⟨_, hget, rfl⟩

lemma pairwise_entries (members : Json.Members) :
    (entries members).Pairwise fun a b => a.1 ≤ b.1 := by
  rw [entries, List.pairwise_map]
  exact pairwise_sortMembers members

lemma nodup_entries {members : Json.Members} (h : (members.map Prod.fst).Nodup) :
    ((entries members).map Prod.fst).Nodup := by
  have hnames := nodup_sortMembers h
  rw [entries, List.map_map]
  exact hnames

/-- Related lists have one list of images, if related elements have one image. -/
lemma map_eq_map_of_forall₂ {α β γ : Type} {R : α → β → Prop} {f : α → γ} {g : β → γ}
    {as : List α} {bs : List β} (h : List.Forall₂ R as bs)
    (himage : ∀ a ∈ as, ∀ b ∈ bs, R a b → f a = g b) : as.map f = bs.map g := by
  rw [← List.forall₂_eq_eq_eq, List.forall₂_map_left_iff, List.forall₂_map_right_iff]
  refine List.forall₂_iff_zip.mpr ⟨h.length_eq, fun hmem => ?_⟩
  obtain ⟨ha, hb⟩ := List.of_mem_zip hmem
  exact himage _ ha _ hb ((List.forall₂_iff_zip.mp h).2 hmem)

/-- Arrays have one text if items with one tree have one text. -/
lemma text_arr_eq {items items' : List Json}
    (himp : ∀ v ∈ items, ∀ w ∈ items', tree v = tree w → text v = text w)
    (h : tree (.arr items) = tree (.arr items')) : text (.arr items) = text (.arr items') := by
  rw [tree, tree, Tree.arr.injEq, treeItems_eq_map, treeItems_eq_map, ← List.forall₂_eq_eq_eq,
    List.forall₂_map_left_iff, List.forall₂_map_right_iff] at h
  have htexts : items.map text = items'.map text := map_eq_map_of_forall₂ h himp
  rw [text, text, sortNames, sortNames, Json.write, Json.write, Json.writeItems_eq_separated,
    Json.writeItems_eq_separated, sortItems_eq_map, sortItems_eq_map, List.map_map, List.map_map]
  exact congrArg (fun texts => '[' :: separated texts ++ [']']) htexts

/-- Objects have one text if values with one tree have one text. -/
lemma text_obj_eq {members members' : Json.Members} (hdistinct : (members.map Prod.fst).Nodup)
    (hdistinct' : (members'.map Prod.fst).Nodup)
    (himp : ∀ m ∈ members, ∀ m' ∈ members', tree m.2 = tree m'.2 → text m.2 = text m'.2)
    (h : tree (.obj members) = tree (.obj members')) :
    text (.obj members) = text (.obj members') := by
  rw [tree_obj_eq_iff] at h
  have htexts (name : String) : (members.get? name).map text = (members'.get? name).map text := by
    have hname := h name
    cases hv : members.get? name with
    | none =>
        rw [hv, Option.map_none, eq_comm, Option.map_eq_none_iff] at hname
        rw [hname]
    | some v =>
        rw [hv, Option.map_some, eq_comm, Option.map_eq_some_iff] at hname
        obtain ⟨w, hw, htree⟩ := hname
        have hvmem := (Json.Members.get?_eq_some_iff_mem hdistinct).mp hv
        have hwmem := (Json.Members.get?_eq_some_iff_mem hdistinct').mp hw
        rw [hw, Option.map_some, Option.map_some,
          himp (name, v) hvmem (name, w) hwmem htree.symm]
  have hentries : entries members = entries members' := by
    refine sorted_ext (pairwise_entries _) (pairwise_entries _) (nodup_entries hdistinct)
      (nodup_entries hdistinct') fun e => ?_
    rw [mem_entries_iff hdistinct, mem_entries_iff hdistinct', htexts]
  rw [text_obj, text_obj, hentries]

/-- **Values with one tree have one text.** -/
theorem text_eq_of_tree_eq {v w : Json} (hv : Proper v) (hw : Proper w)
    (h : tree v = tree w) : text v = text w := by
  induction hv generalizing w with
  | null =>
      cases hw with
      | null => rfl
      | _ => cases h
  | bool b =>
      cases hw with
      | bool b' =>
          cases h
          rfl
      | _ => cases h
  | num number =>
      cases hw with
      | num number' =>
          rw [tree, tree, Tree.num.injEq] at h
          rw [text, text, sortNames, sortNames, Json.write, Json.write, writeNumber_eq number,
            writeNumber_eq number', h]
      | _ => cases h
  | str text =>
      cases hw with
      | str text' =>
          cases h
          rfl
      | _ => cases h
  | arr all ih =>
      cases hw with
      | arr all' => exact text_arr_eq (fun v hv w hw => ih v hv (all' w hw)) h
      | _ => cases h
  | obj distinct values ih =>
      cases hw with
      | obj distinct' values' =>
          exact text_obj_eq distinct distinct' (fun m hm m' hm' => ih m hm (values' m' hm')) h
      | _ => cases h

/-! ### Canonical text -/

lemma canonicalize_eq_iff_tree {v w : Json} (names : List String) (hv : Proper v)
    (hw : Proper w) : canonicalize v names = canonicalize w names ↔
      (tree v).without names = (tree w).without names := by
  have hv' := proper_omitNames hv names
  have hw' := proper_omitNames hw names
  rw [canonicalize, canonicalize, String.ofList_inj, ← tree_omitNames, ← tree_omitNames]
  refine ⟨fun h => ?_, text_eq_of_tree_eq hv' hw'⟩
  have htold := told_of_proper (proper_sortNames hv') (proper_sortNames hw')
  have htree := (htold [] [] Json.ends_nil Json.ends_nil (by rw [h])).1
  rw [tree_sortNames hv', tree_sortNames hw'] at htree
  exact htree

/-- **Canonical text identifies what is signed.** Two values have one canonical text if they have
one tree once the members left out are taken from the outermost object, and only then; so have two
objects. -/
theorem canonicalize_eq_iff (v w : Json) (a b : Json.Members) (names : List String)
    (hv : Proper v) (hw : Proper w) (ha : Proper (.obj a)) (hb : Proper (.obj b)) :
    (canonicalizeObject a names = canonicalizeObject b names ↔
      (tree (.obj a)).without names = (tree (.obj b)).without names)
    ∧ (canonicalize v names = canonicalize w names ↔
      (tree v).without names = (tree w).without names) :=
  ⟨canonicalize_eq_iff_tree names ha hb, canonicalize_eq_iff_tree names hv hw⟩

/-- The order of members, the spelling of a number and a member that is left out make no
difference, but the order of items does. -/
theorem canonicalize_reordered :
    let a : Json.Members := [("b", .num "1.50"), ("private", .null), ("a", .str "x")]
    let b : Json.Members := [("a", .str "x"), ("b", .num "1.5")]
    let v : Json := .arr [.num "1", .num "2"]
    let w : Json := .arr [.num "2", .num "1"]
    (Proper v ∧ Proper w ∧ Proper (.obj a) ∧ Proper (.obj b))
      ∧ canonicalizeObject a ["private"] = canonicalizeObject b ["private"]
      ∧ canonicalize v ["private"] ≠ canonicalize w ["private"] := by
  intro a b v w
  have hone : Proper (.num "1") := .num (by decide)
  have htwo : Proper (.num "2") := .num (by decide)
  have hv : Proper v := .arr (by simp [hone, htwo])
  have hw : Proper w := .arr (by simp [hone, htwo])
  have ha : Proper (.obj a) := by
    have hnumber : Proper (.num "1.50") := .num (by decide)
    exact .obj (by decide) (by simp [a, hnumber, Proper.null, Proper.str])
  have hb : Proper (.obj b) := by
    have hnumber : Proper (.num "1.5") := .num (by decide)
    exact .obj (by decide) (by simp [b, hnumber, Proper.str])
  obtain ⟨hobjects, hvalues⟩ := canonicalize_eq_iff v w a b ["private"] hv hw ha hb
  refine ⟨⟨hv, hw, ha, hb⟩, hobjects.mpr ?_, fun h => ?_⟩
  · refine congrArg Tree.obj (funext fun name => ?_)
    by_cases hfirst : name = "a"
    · subst hfirst
      rfl
    by_cases hsecond : name = "b"
    · subst hsecond
      rfl
    by_cases hprivate : name = "private"
    · subst hprivate
      rfl
    · simp [a, b, treeMembers, treeMember, hprivate, Ne.symm hprivate, Ne.symm hfirst,
        Ne.symm hsecond]
  · have htree := hvalues.mp h
    have hnumber : renderNumber "1".toList ≠ renderNumber "2".toList := by decide
    simp only [v, w, tree, treeItems, Tree.without, Tree.arr.injEq, List.cons.injEq,
      Tree.num.injEq] at htree
    exact hnumber htree.1

end Signet.Canonical
