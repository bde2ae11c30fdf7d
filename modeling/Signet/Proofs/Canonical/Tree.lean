import Mathlib.Data.String.Basic
import Mathlib.Tactic
import Signet.Canonical.Form
import Signet.Proofs.Canonical.Number
import Signet.Proofs.Json.Members

/-!
What a JSON value says, apart from how it is written down.

* `Json.Proper`: the numbers of a value are numbers' texts, and no object has two
  members with one name.
* `Tree` is what is left of a value when the order of members does not count and
  numbers count by their canonical text. An object is a function that gives
  names values, so that equality of trees is equality name by name; `tree` takes a
  value to its tree.
* `tree_sortNames`, `tree_omitNames`: neither sorting nor the kind of list that an
  object is kept in changes the tree, and leaving out names does to it what
  `Tree.without` does.
-/

namespace Signet

/-- Numbers are numbers' texts, and the names in an object are distinct. -/
inductive Json.Proper : Json → Prop
  | null : Proper .null
  | bool (b : Bool) : Proper (.bool b)
  | num {text : String} (number : Number.isNumber text.toList = true) : Proper (.num text)
  | str (text : String) : Proper (.str text)
  | arr {items : List Json} (all : ∀ v ∈ items, Proper v) : Proper (.arr items)
  | obj {members : Members} (distinct : (members.map Prod.fst).Nodup)
      (values : ∀ m ∈ members, Proper m.2) : Proper (.obj members)

namespace Canonical

open Json (Proper)

/-- A JSON value up to the order of members and the spelling of numbers. -/
inductive Tree where
  /-- The value `null`. -/
  | null
  /-- A truth value. -/
  | bool (value : Bool)
  /-- A number, as its canonical text. -/
  | num (text : List Char)
  /-- A string. -/
  | str (text : String)
  /-- An array. -/
  | arr (items : List Tree)
  /-- An object, as the values of all names. -/
  | obj (members : String → Option Tree)

/-- Takes the values from some names, if the tree is an object. -/
def Tree.without (names : List String) : Tree → Tree
  | .obj members => .obj fun name => if name ∈ names then none else members name
  | t => t

mutual

/-- The tree of a value. -/
def tree : Json → Tree
  | .null => .null
  | .bool b => .bool b
  | .num text => .num (renderNumber text.toList)
  | .str text => .str text
  | .arr items => .arr (treeItems items)
  | .obj members => .obj (treeMembers members)
termination_by structural v => v

/-- The trees of items. -/
def treeItems : List Json → List Tree
  | [] => []
  | v :: rest => tree v :: treeItems rest
termination_by structural items => items

/-- The trees of the values of names. -/
def treeMembers : List (String × Json) → String → Option Tree
  | [], _ => none
  | m :: rest, name => treeMember m name <|> treeMembers rest name
termination_by structural members => members

/-- The tree of the value of a name, in a member. -/
def treeMember : String × Json → String → Option Tree
  | (n, v), name => if n = name then some (tree v) else none
termination_by structural member => member

end

lemma treeItems_eq_map (items : List Json) : treeItems items = items.map tree := by
  induction items with
  | nil => rfl
  | cons v rest ih => rw [treeItems, ih, List.map_cons]

/-- The tree of an object is looked up in it. -/
lemma treeMembers_eq_map (members : Json.Members) (name : String) :
    treeMembers members name = (members.get? name).map tree := by
  induction members with
  | nil => rfl
  | cons m rest ih =>
      obtain ⟨n, v⟩ := m
      rw [treeMembers, treeMember, ih, Json.Members.get?_cons]
      split <;> rfl

/-- Objects have one tree if every name has one tree in them. -/
lemma tree_obj_eq_iff {a b : Json.Members} :
    tree (.obj a) = tree (.obj b) ↔ ∀ name, (a.get? name).map tree = (b.get? name).map tree := by
  rw [tree, tree, Tree.obj.injEq, funext_iff]
  simp only [treeMembers_eq_map]

/-- Leaving out members takes the values from their names. -/
lemma tree_omitNames (names : List String) (v : Json) :
    tree (omitNames names v) = (tree v).without names := by
  cases v with
  | obj members =>
      rw [omitNames, tree, tree, Tree.without, Tree.obj.injEq]
      funext name
      rw [treeMembers_eq_map, treeMembers_eq_map, Json.Members.get?_without]
      split <;> rfl
  | _ => rfl

lemma proper_omitNames {v : Json} (h : Proper v) (names : List String) :
    Proper (omitNames names v) := by
  cases h with
  | @obj members distinct values =>
      have hsublist : (members.without names).Sublist members := List.filter_sublist
      exact .obj ((hsublist.map Prod.fst).nodup distinct)
        fun m hm => values m (hsublist.subset hm)
  | null => exact .null
  | bool b => exact .bool b
  | num number => exact .num number
  | str text => exact .str text
  | arr all => exact .arr all

/-! ### Sorting -/

lemma sortItems_eq_map (items : List Json) : sortItems items = items.map sortNames := by
  induction items with
  | nil => rfl
  | cons v rest ih => rw [sortItems, ih, List.map_cons]

lemma sortMembers_eq_map (members : Json.Members) :
    sortMembers members = members.map fun m => (m.1, sortNames m.2) := by
  induction members with
  | nil => rfl
  | cons m rest ih => rw [sortMembers, ih, List.map_cons, sortMember]

lemma sortMembers_perm (members : Json.Members) :
    ((sortMembers members).mergeSort nameLe).Perm (members.map fun m => (m.1, sortNames m.2)) := by
  rw [sortMembers_eq_map]
  exact List.mergeSort_perm _ _

/-- The names of members are those that they are sorted by. -/
lemma map_fst_sortMembers (members : Json.Members) :
    (members.map fun m => (m.1, sortNames m.2)).map Prod.fst = members.map Prod.fst := by
  rw [List.map_map]
  rfl

lemma nodup_sortMembers {members : Json.Members} (h : (members.map Prod.fst).Nodup) :
    (((sortMembers members).mergeSort nameLe).map Prod.fst).Nodup := by
  rw [((sortMembers_perm members).map Prod.fst).nodup_iff, map_fst_sortMembers]
  exact h

lemma pairwise_sortMembers (members : Json.Members) :
    ((sortMembers members).mergeSort nameLe).Pairwise fun a b => a.1 ≤ b.1 := by
  have hnameLe : ∀ a b : String × Json, nameLe a b = true ↔ a.1 ≤ b.1 := by
    intro a b
    rw [nameLe, Bool.not_eq_true', decide_eq_false_iff_not, not_lt]
  have hsorted := List.pairwise_mergeSort
    (fun a b c hab hbc => (hnameLe a c).mpr (((hnameLe a b).mp hab).trans ((hnameLe b c).mp hbc)))
    (fun a b => by
      rw [Bool.or_eq_true, hnameLe, hnameLe]
      exact le_total a.1 b.1) (sortMembers members)
  exact hsorted.imp fun {a b} h => (hnameLe a b).mp h

/-- The value of a name is sorted, wherever it stands. -/
lemma get?_sortMembers {members : Json.Members} (h : (members.map Prod.fst).Nodup)
    (name : String) :
    Json.Members.get? name ((sortMembers members).mergeSort nameLe)
      = (members.get? name).map sortNames := by
  rw [Json.Members.get?_of_perm (sortMembers_perm members) (nodup_sortMembers h),
    Json.Members.get?_map]

lemma proper_sortNames {v : Json} (h : Proper v) : Proper (sortNames v) := by
  induction h with
  | null => exact .null
  | bool b => exact .bool b
  | num number => exact .num number
  | str text => exact .str text
  | arr _ ih =>
      rw [sortNames, sortItems_eq_map]
      refine .arr fun v hv => ?_
      obtain ⟨w, hw, rfl⟩ := List.mem_map.mp hv
      exact ih w hw
  | @obj members distinct _ ih =>
      rw [sortNames]
      refine .obj (nodup_sortMembers distinct) fun m hm => ?_
      obtain ⟨m', hm', rfl⟩ := List.mem_map.mp ((sortMembers_perm members).mem_iff.mp hm)
      exact ih m' hm'

/-- **Sorting does not change the tree.** -/
theorem tree_sortNames {v : Json} (h : Proper v) : tree (sortNames v) = tree v := by
  induction h with
  | null => rfl
  | bool b => rfl
  | num number => rfl
  | str text => rfl
  | arr _ ih =>
      rw [sortNames, tree, tree, treeItems_eq_map, treeItems_eq_map, sortItems_eq_map,
        List.map_map]
      exact congrArg Tree.arr (List.map_congr_left ih)
  | @obj members distinct _ ih =>
      rw [sortNames, tree_obj_eq_iff]
      intro name
      rw [get?_sortMembers distinct, Option.map_map]
      refine Option.map_congr fun v hv => ?_
      exact ih (name, v) ((Json.Members.get?_eq_some_iff_mem distinct).mp hv)

end Canonical

end Signet
