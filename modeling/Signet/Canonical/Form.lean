import Signet.Canonical.Number

/-!
The canonical form of JSON, over which signatures are made.

* `Canonical.sortNames` puts the members of every object in the order of
  their names.
* `Canonical.canonicalize` writes a value without blanks, with sorted members
  and canonical numbers, leaving out members of the outermost object by name.
-/

namespace Signet.Canonical

/-- Whether a member comes before another, or has its name. -/
def nameLe (a b : String × Json) : Bool := !decide (b.1 < a.1)

mutual

/-- A value with the members of every object in the order of their names. -/
def sortNames : Json → Json
  | .null => .null
  | .bool b => .bool b
  | .num text => .num text
  | .str text => .str text
  | .arr items => .arr (sortItems items)
  | .obj members => .obj ((sortMembers members).mergeSort nameLe)
termination_by structural v => v

/-- Items with the members of every object in the order of their names. -/
def sortItems : List Json → List Json
  | [] => []
  | v :: rest => sortNames v :: sortItems rest
termination_by structural items => items

/-- Members whose values have the members of every object in the order of their names. -/
def sortMembers : List (String × Json) → List (String × Json)
  | [] => []
  | m :: rest => sortMember m :: sortMembers rest
termination_by structural members => members

/-- A member whose value has the members of every object in the order of their names. -/
def sortMember : String × Json → String × Json
  | (name, v) => (name, sortNames v)
termination_by structural member => member

end

/-- A value without the members of given names, if it is an object. -/
def omitNames (names : List String) : Json → Json
  | .obj members => .obj (Json.Members.without names members)
  | v => v

/-- The canonical text of a value without the members of given names. -/
def canonicalize (v : Json) (names : List String) : String :=
  String.ofList ((sortNames (omitNames names v)).write writeNumber)

/-- The canonical text of an object without the members of given names. -/
def canonicalizeObject (members : Json.Members) (names : List String) : String :=
  canonicalize (.obj members) names

end Signet.Canonical
