/-!
JSON values.

* `Json` is the tree. A number is kept as its text, so that no digit is lost.
* `Json.Members` are the members of an object. `insert` keeps them in the
  order of their names by code point, with one value for each name; `get?`
  looks a name up and `without` leaves names out.
-/

namespace Signet

/-- A JSON value. -/
inductive Json where
  /-- The value `null`. -/
  | null
  /-- A truth value. -/
  | bool (value : Bool)
  /-- A number, as it is written. -/
  | num (text : String)
  /-- A string. -/
  | str (text : String)
  /-- An array. -/
  | arr (items : List Json)
  /-- An object, as its members in order. -/
  | obj (members : List (String × Json))
  deriving Repr, Inhabited

namespace Json

/-- The members of an object. -/
abbrev Members := List (String × Json)

namespace Members

/-- The value of a name. -/
def get? (name : String) : Members → Option Json
  | [] => none
  | (n, v) :: rest => if n = name then some v else get? name rest

/-- Whether a name has a value. -/
def contains (ms : Members) (name : String) : Bool := (get? name ms).isSome

/-- Gives a name a value, in the place that the order of names asks for. An earlier value of
the name is replaced. -/
def insert (name : String) (value : Json) : Members → Members
  | [] => [(name, value)]
  | (n, v) :: rest =>
    if name = n then (name, value) :: rest
    else if name < n then (name, value) :: (n, v) :: rest
    else (n, v) :: insert name value rest

/-- Members in the order of their names, the last value of a repeated name. -/
def ofList (entries : List (String × Json)) : Members :=
  entries.foldl (fun ms e => ms.insert e.1 e.2) []

/-- Leaves out the members with given names. -/
def without (names : List String) (ms : Members) : Members :=
  ms.filter fun m => !names.contains m.1

@[simp] theorem get?_nil (name : String) : get? name [] = none := rfl

theorem get?_cons (name n : String) (v : Json) (rest : Members) :
    get? name ((n, v) :: rest) = if n = name then some v else get? name rest := rfl

/-- A name that was given a value has it. -/
theorem get?_insert_self (name : String) (value : Json) (ms : Members) :
    get? name (ms.insert name value) = some value := by
  induction ms with
  | nil => simp [insert, get?]
  | cons m rest ih =>
    obtain ⟨n, v⟩ := m
    unfold insert
    split
    · simp [get?]
    · split
      · simp [get?]
      · rename_i h _
        simp [get?, ih, Ne.symm h]

/-- Other names keep their values. -/
theorem get?_insert_of_ne {name other : String} (h : other ≠ name) (value : Json)
    (ms : Members) : get? other (ms.insert name value) = get? other ms := by
  induction ms with
  | nil => simp [insert, get?, Ne.symm h]
  | cons m rest ih =>
    obtain ⟨n, v⟩ := m
    unfold insert
    split
    · rename_i hn
      subst hn
      simp [get?, Ne.symm h]
    · split
      · simp [get?, Ne.symm h]
      · simp [get?, ih]

end Members

/-- The members of an object, if the value is one. -/
def members? : Json → Option Members
  | .obj ms => some ms
  | _ => none

/-- The items of an array, if the value is one. -/
def items? : Json → Option (List Json)
  | .arr items => some items
  | _ => none

/-- The text of a string, if the value is one. -/
def text? : Json → Option String
  | .str s => some s
  | _ => none

end Json

end Signet
