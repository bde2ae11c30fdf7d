import Mathlib.Tactic
import Signet.Proofs.Json.Members
import Signet.Proofs.Json.Spelling

/-!
What comes out of reading JSON.

* `Parsed`: numbers are spelled as reading keeps them, the members of objects are in the
  order of distinct names, the name that marks a number is not the only one in an object, and
  arrays and objects are nested no deeper than reading goes.
* `parsed_of_value`: whatever is read is such a value. The induction is on the depth; the
  loops over items and members hand on what is known of every part
  (`forall_mem_of_items`, `forall_mem_of_members`).
-/

namespace Signet.Json

open Signet.Json.Parser

/-- A value as it comes out of reading, in which arrays and objects are nested at most `depth`
deep. -/
inductive Parsed : ℕ → Json → Prop
  | null {depth : ℕ} : Parsed depth .null
  | bool {depth : ℕ} (b : Bool) : Parsed depth (.bool b)
  | num {depth : ℕ} {text : String} (kept : Kept text.toList text.toList) :
      Parsed depth (.num text)
  | str {depth : ℕ} (text : String) : Parsed depth (.str text)
  | arr {depth : ℕ} {items : List Json} (all : ∀ v ∈ items, Parsed depth v) :
      Parsed (depth + 1) (.arr items)
  | obj {depth : ℕ} {members : Members} (sorted : members.Pairwise fun a b => a.1 < b.1)
      (unmarked : members.map Prod.fst ≠ [numberName])
      (values : ∀ m ∈ members, Parsed depth m.2) : Parsed (depth + 1) (.obj members)

variable {s r : List Char}

/-! ### Arrays -/

section

variable {α : Type} {item : Reader α} {P : α → Prop}
  (hitem : ∀ {s v r}, item s = .ok (v, r) → P v)
include hitem

/-- What holds of every item that is read holds of all. -/
lemma forall_mem_of_items {fuel : ℕ} {vs : List α}
    (h : Parser.items item fuel s = .ok (vs, r)) : ∀ v ∈ vs, P v := by
  induction fuel generalizing s vs with
  | zero => cases h
  | succ fuel ih =>
      simp only [Parser.items, Except.bind_eq_ok_iff, Prod.exists] at h
      obtain ⟨v, rest, hv, h⟩ := h
      split at h
      · cases h
      · cases h
        simpa using hitem hv
      · split at h
        · cases h
        · cases h
        · simp only [Except.bind_eq_ok_iff, Prod.exists] at h
          obtain ⟨vs, rest, hvs, heq⟩ := h
          cases heq
          rw [List.forall_mem_cons]
          exact ⟨hitem hv, ih hvs⟩
      · cases h

lemma forall_mem_of_array {vs : List α} (h : array item s = .ok (vs, r)) : ∀ v ∈ vs, P v := by
  unfold array at h
  split at h
  · cases h
  · cases h
    simp
  · exact forall_mem_of_items hitem h

end

/-! ### Objects -/

/-- What holds of every value that is read holds of all, and the first member has the name that
was read before. -/
lemma forall_mem_of_members {item : Reader Json} {P : Json → Prop}
    (hitem : ∀ {s v r}, item s = .ok (v, r) → P v) {fuel : ℕ} {name : String} {ms : Members}
    (h : members item fuel name s = .ok (ms, r)) :
    (∀ m ∈ ms, P m.2) ∧ name ∈ ms.map Prod.fst := by
  induction fuel generalizing s name ms with
  | zero => cases h
  | succ fuel ih =>
      simp only [members, Except.bind_eq_ok_iff, Prod.exists] at h
      obtain ⟨rest, -, v, rest', hv, h⟩ := h
      split at h
      · cases h
      · cases h
        simpa using hitem hv
      · split at h
        · cases h
        · simp only [Except.bind_eq_ok_iff, Prod.exists] at h
          obtain ⟨next, rest, -, ms, rest', hms, heq⟩ := h
          cases heq
          rw [List.forall_mem_cons, List.map_cons]
          exact ⟨⟨hitem hv, (ih hms).1⟩, List.mem_cons_self⟩
        · cases h
        · cases h
      · cases h

/-- What stands for a number is one. -/
lemma parsed_of_numberObject {depth : ℕ} {v : Json} (h : numberObject s = .ok (v, r)) :
    Parsed depth v := by
  simp only [numberObject, Except.bind_eq_ok_iff] at h
  obtain ⟨rest, -, h⟩ := h
  split at h
  · simp only [Except.bind_eq_ok_iff, Prod.exists] at h
    obtain ⟨text, rest, -, digits, hdigits, h⟩ := h
    split at h
    · cases h
      refine .num ?_
      rw [String.toList_ofList]
      exact kept_of_numberText hdigits
    all_goals cases h
  · cases h

lemma parsed_of_object {depth : ℕ} {item : Reader Json} {v : Json}
    (hitem : ∀ {s v r}, item s = .ok (v, r) → Parsed depth v) (h : object item s = .ok (v, r)) :
    Parsed (depth + 1) v := by
  unfold object at h
  split at h
  · cases h
  · cases h
    exact .obj List.Pairwise.nil (by simp) (by simp)
  · simp only [Except.bind_eq_ok_iff, Prod.exists] at h
    obtain ⟨name, rest, -, h⟩ := h
    split at h
    · exact parsed_of_numberObject h
    · rename_i hname
      simp only [Except.bind_eq_ok_iff, Prod.exists] at h
      obtain ⟨ms, rest, hms, heq⟩ := h
      cases heq
      obtain ⟨hvalues, hfirst⟩ := forall_mem_of_members hitem hms
      refine .obj (Members.pairwise_ofList ms) (fun hnames => ?_)
        fun m hm => hvalues m (Members.mem_ofList hm)
      have hmem := Members.mem_map_fst_ofList hfirst
      rw [hnames, List.mem_singleton] at hmem
      exact hname hmem
  · cases h

/-! ### Values -/

/-- One step of reading, from what is known of the parts, which are nested less deep. -/
lemma parsed_of_value_step {depth : ℕ}
    (hitem : ∀ d, depth = d + 1 → ∀ {s v r}, value d s = .ok (v, r) → Parsed d v) {v : Json}
    (h : value depth s = .ok (v, r)) : Parsed depth v := by
  rw [value.eq_def] at h
  split at h
  · cases h
  · simp only [Except.bind_eq_ok_iff] at h
    obtain ⟨rest, -, heq⟩ := h
    cases heq
    exact .null
  · simp only [Except.bind_eq_ok_iff] at h
    obtain ⟨rest, -, heq⟩ := h
    cases heq
    exact .bool true
  · simp only [Except.bind_eq_ok_iff] at h
    obtain ⟨rest, -, heq⟩ := h
    cases heq
    exact .bool false
  · simp only [Except.bind_eq_ok_iff, Prod.exists] at h
    obtain ⟨text, rest, -, heq⟩ := h
    cases heq
    exact .str text
  · split at h
    · cases h
    · rename_i depth
      simp only [Except.bind_eq_ok_iff, Prod.exists] at h
      obtain ⟨vs, rest, hvs, heq⟩ := h
      cases heq
      exact .arr (forall_mem_of_array (hitem depth rfl) hvs)
  · split at h
    · cases h
    · rename_i depth
      exact parsed_of_object (hitem depth rfl) h
  · split at h
    · simp only [Except.bind_eq_ok_iff, Prod.exists] at h
      obtain ⟨digits, rest, hdigits, heq⟩ := h
      cases heq
      refine .num ?_
      rw [String.toList_ofList]
      exact kept_of_number hdigits
    · cases h

/-- **Whatever is read is a value as it comes out of reading.** -/
theorem parsed_of_value {depth : ℕ} {v : Json} (h : value depth s = .ok (v, r)) :
    Parsed depth v := by
  induction depth generalizing s v r with
  | zero => exact parsed_of_value_step (fun d hd => absurd hd (Nat.succ_ne_zero d).symm) h
  | succ depth ih =>
      refine parsed_of_value_step (fun d hd => ?_) h
      cases hd
      exact ih

lemma parsed_of_parse {text : String} {v : Json} (h : parse text = .ok v) :
    Parsed maxDepth v := by
  simp only [parse, whole, Except.mapError_eq_ok_iff, Except.bind_eq_ok_iff, Prod.exists] at h
  obtain ⟨w, rest, hvalue, h⟩ := h
  split at h
  · cases h
    exact parsed_of_value hvalue
  · cases h

end Signet.Json
