import Mathlib.Tactic
import Signet.Proofs.Canonical.Identity
import Signet.Proofs.Canonical.Stable
import Signet.Proofs.Json.Reread

/-!
Reading canonical text.

* `canonicalize_of_parsed`: a value that was read has its members in order, so that its
  canonical text is the value as it stands.
* `exists_kept_writeNumber`: reading keeps a spelling of a canonical number that has the
  same canonical text.
* `tree_eq_of_alike`: values that differ in the spelling of numbers only have one tree.
* `parse_canonicalize`: canonical text is read as a value alike, with the same canonical
  text, unless an object begins with the name that marks a number.
-/

namespace Signet.Canonical

open Json (Kept Parsed Alike Proper Marked)

/-! ### Writing what was read -/

lemma proper_of_parsed {depth : ℕ} {v : Json} (h : Parsed depth v) : Proper v := by
  induction h with
  | null => exact .null
  | bool b => exact .bool b
  | num kept => exact .num kept.isNumber
  | str text => exact .str text
  | arr _ ih => exact .arr ih
  | obj sorted _ _ ih => exact .obj (Json.Members.nodup_of_pairwise sorted) ih

/-- Members that are in order stay where they are. -/
lemma sortNames_of_parsed {depth : ℕ} {v : Json} (h : Parsed depth v) : sortNames v = v := by
  induction h with
  | null => rfl
  | bool b => rfl
  | num kept => rfl
  | str text => rfl
  | arr _ ih =>
      rw [sortNames, sortItems_eq_map]
      exact congrArg Json.arr ((List.map_congr_left ih).trans (List.map_id' _))
  | @obj depth members sorted _ _ ih =>
      have hmembers : sortMembers members = members := by
        rw [sortMembers_eq_map]
        exact (List.map_congr_left fun m hm => congrArg (m.1, ·) (ih m hm)).trans (List.map_id' _)
      have hle : members.Pairwise fun a b => nameLe a b = true :=
        sorted.imp fun h => by
          rw [nameLe, Bool.not_eq_true', decide_eq_false_iff_not]
          exact not_lt.mpr h.le
      rw [sortNames, hmembers, List.mergeSort_of_pairwise hle]

lemma omitNames_nil (v : Json) : omitNames [] v = v := by
  cases v with
  | obj members => exact congrArg Json.obj (Json.Members.without_eq_self (by simp))
  | _ => rfl

/-- The canonical text of a value that was read is the value as it stands. -/
lemma canonicalize_of_parsed {depth : ℕ} {v : Json} (h : Parsed depth v) :
    canonicalize v [] = String.ofList (v.write writeNumber) := by
  rw [canonicalize, omitNames_nil, sortNames_of_parsed h]

/-! ### Numbers -/

/-- Two spellings of a number, by its canonical text. -/
def SameNumber (text text' : String) : Prop :=
  renderNumber text.toList = renderNumber text'.toList

/-- A canonical number is read as a spelling of the number. -/
lemma exists_kept_writeNumber {text : String} (h : Kept text.toList text.toList) :
    ∃ text', Kept (writeNumber text) text'.toList ∧ SameNumber text text' := by
  obtain ⟨t, ht⟩ := Json.exists_kept (isNumber_renderNumber h.isNumber)
  rw [← String.toList_ofList (l := t)] at ht
  refine ⟨String.ofList t, ?_, (renderNumber_of_kept h ht).symm⟩
  rw [writeNumber_eq h.isNumber]
  exact ht

/-- Values that differ in the spelling of numbers only have one tree. -/
lemma tree_eq_of_alike {v w : Json} (hv : Proper v) (h : Alike SameNumber v w) :
    tree v = tree w := by
  induction hv generalizing w with
  | null => cases h; rfl
  | bool b => cases h; rfl
  | num number =>
      cases h with
      | num same => exact congrArg Tree.num same
  | str text => cases h; rfl
  | arr all ih =>
      cases h with
      | arr alike =>
          rw [tree, tree, treeItems_eq_map, treeItems_eq_map,
            map_eq_map_of_forall₂ alike fun v hv w _ hvw => ih v hv hvw]
  | @obj members distinct values ih =>
      cases h with
      | @obj _ members' names alike =>
          have htrees : (members.map Prod.snd).map tree = (members'.map Prod.snd).map tree := by
            refine map_eq_map_of_forall₂ alike fun v hv w _ hvw => ?_
            obtain ⟨m, hm, rfl⟩ := List.mem_map.mp hv
            exact ih m hm hvw
          refine tree_obj_eq_of_map_eq ?_
          rw [List.map_map, List.map_map] at htrees
          rw [← List.zip_map', ← List.zip_map', names]
          exact congrArg _ htrees

/-! ### Canonical text -/

/-- **Canonical text is read as what it was written from.** The canonical text of a value that was
read is read again just if no object in the value has for its least name the one that marks a
number. What is then read differs from the value in the spelling of numbers only, and has the same
canonical text. -/
theorem parse_canonicalize {text : String} {v : Json} (h : Json.parse text = .ok v) :
    ((∃ v', Json.parse (canonicalize v []) = .ok v') ↔ ¬ ∃ members,
        Json.Within (.obj members) v ∧ IsLeast {n | n ∈ members.map Prod.fst} Json.numberName)
      ∧ ∀ v', Json.parse (canonicalize v []) = .ok v' →
        Alike SameNumber v v' ∧ canonicalize v' [] = canonicalize v [] := by
  have hv := Json.parsed_of_parse h
  have hreread := (Json.reread_of_parsed exists_kept_writeNumber hv).parse
  rw [← canonicalize_of_parsed hv] at hreread
  refine ⟨hreread.1, fun v' hv' => ?_⟩
  have halike := hreread.2 v' hv'
  have hproper := proper_of_parsed hv
  have hproper' := proper_of_parsed (Json.parsed_of_parse hv')
  refine ⟨halike, ?_⟩
  rw [canonicalize_eq_iff_tree [] hproper' hproper, tree_eq_of_alike hproper halike]

/-- Of two texts the one with a marked object in it is not read again. -/
theorem parse_canonicalize_marked :
    let v : Json := .obj [("$serde_json::private::Number", .str "2"), ("b", .num "1")]
    let w : Json := .arr [.obj [("a", .num "1.50"), ("b", .num "2e+3")]]
    (Json.parse "\x7b\"b\":1,\"$serde_json::private::Number\":\"2\"\x7d" = .ok v
        ∧ ∀ v', Json.parse (canonicalize v []) ≠ .ok v')
      ∧ Json.parse " [\x7b\"b\":2E3,\"a\":1.50\x7d]" = .ok w
        ∧ ∃ w', Json.parse (canonicalize w []) = .ok w' ∧ Alike SameNumber w w'
          ∧ canonicalize w' [] = canonicalize w [] := by
  intro v w
  have hv : Json.parse "\x7b\"b\":1,\"$serde_json::private::Number\":\"2\"\x7d" = .ok v := rfl
  have hw : Json.parse " [\x7b\"b\":2E3,\"a\":1.50\x7d]" = .ok w := rfl
  have hmarked : Marked v :=
    ⟨_, .self, (Json.isLeastName_iff_head (by decide)).mpr ⟨_, rfl, rfl⟩⟩
  have hunmarked : ¬ Marked w := by
    simp only [w, Json.marked_arr_iff, List.mem_singleton, exists_eq_left, Json.marked_obj_iff]
    rw [Json.isLeastName_iff_head (by decide)]
    simp [Json.numberName, Json.not_marked]
  obtain ⟨w', hw'⟩ := (parse_canonicalize hw).1.mpr hunmarked
  exact ⟨⟨hv, fun v' hv' => (parse_canonicalize hv).1.mp ⟨v', hv'⟩ hmarked⟩, hw, w', hw',
    (parse_canonicalize hw).2 w' hw'⟩

end Signet.Canonical
