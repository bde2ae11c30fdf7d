import Signet.Decimal.Layout
import Signet.Json.Basic
import Signet.Json.Fault

/-!
Values of a program, on their way to JSON.

* `Datum` is what a program may hand in: numbers of several widths, bytes,
  maps with keys that are no strings.
* `Datum.name` is the member's name that such a key becomes, `Datum.toJson` the
  JSON value, if there is one.
-/

namespace Signet

/-- A value to be written as JSON. -/
inductive Datum where
  /-- The absence of a value. -/
  | null
  /-- A value that might have been absent. -/
  | present (value : Datum)
  /-- A truth value. -/
  | bool (value : Bool)
  /-- A whole number. -/
  | int (value : Int)
  /-- A number of 64 bits, or nothing for one that is not finite. -/
  | float64 (value : Option Binary)
  /-- A number of 32 bits, or nothing for one that is not finite. -/
  | float32 (value : Option Binary)
  /-- A character. -/
  | char (value : Char)
  /-- A string. -/
  | str (value : String)
  /-- A byte string. -/
  | bytes (value : List UInt8)
  /-- A sequence. -/
  | seq (items : List Datum)
  /-- A map, in the order of its entries. -/
  | map (entries : List (Datum × Datum))
  /-- A value that declines to be written, for a reason of its own. -/
  | declined (reason : String)

namespace Datum

/-- Numbers of 64 bits have a fraction of at least one digit, and a signed power of ten below a
hundred-thousandth and from ten to the sixteenth on. -/
def layout64 : Layout where
  format := binary64
  tie := .even
  minPoint := -4
  maxPoint := 16
  wholeEnd := ".0"
  loneEnd := ""
  mark := 'e'
  plus := "+"

/-- Numbers of 32 bits are written alike, with bounds of their own for the power of ten. -/
def layout32 : Layout := { layout64 with format := binary32, minPoint := -5, maxPoint := 13 }

/-- The member's name that a key of a map becomes. -/
def name : Datum → Except Json.Cause String
  | .bool b => .ok (if b then "true" else "false")
  | .int n => .ok (toString n)
  | .char c => .ok (String.singleton c)
  | .str s => .ok s
  | .float64 (some x) => .ok (String.ofList (layout64.text x))
  | .float32 (some x) => .ok (String.ofList (layout32.text x))
  | .float64 none => .error .nameNotFinite
  | .float32 none => .error .nameNotFinite
  | .declined reason => .error (.declined reason)
  | _ => .error .nameExpected

mutual

/-- The JSON value. A number that is not finite becomes `null`. -/
def toJson : Datum → Except Json.Cause Json
  | .null => .ok .null
  | .present d => toJson d
  | .bool b => .ok (.bool b)
  | .int n => .ok (.num (toString n))
  | .float64 (some x) => .ok (.num (String.ofList (layout64.text x)))
  | .float64 none => .ok .null
  | .float32 (some x) => .ok (.num (String.ofList (layout32.text x)))
  | .float32 none => .ok .null
  | .char c => .ok (.str (String.singleton c))
  | .str s => .ok (.str s)
  | .bytes bs => .ok (.arr (bs.map fun b => .num (toString b.toNat)))
  | .seq items => do return .arr (← itemsToJson items)
  | .map entries => do return .obj (Json.Members.ofList (← entriesToJson entries))
  | .declined reason => .error (.declined reason)
termination_by structural d => d

/-- The JSON values of the items of a sequence. -/
def itemsToJson : List Datum → Except Json.Cause (List Json)
  | [] => .ok []
  | d :: rest => do
    let v ← toJson d
    let vs ← itemsToJson rest
    return v :: vs
termination_by structural items => items

/-- The members that the entries of a map become. -/
def entriesToJson : List (Datum × Datum) → Except Json.Cause (List (String × Json))
  | [] => .ok []
  | e :: rest => do
    let m ← entryToJson e
    let ms ← entriesToJson rest
    return m :: ms
termination_by structural entries => entries

/-- The member that an entry of a map becomes. -/
def entryToJson : Datum × Datum → Except Json.Cause (String × Json)
  | (k, v) => do
    let n ← name k
    let w ← toJson v
    return (n, w)
termination_by structural entry => entry

end

end Datum

end Signet
