import Signet.Error
import Signet.Except
import Signet.Json.Parser

/-!
Reading members of an object by name and type. Each look-up gives a value of
the type it asks for, or the error that names the member.

* `Members.require`, `requireText`, `requireMembers`, `requireItems`: a member
  that has to be there, of any type or of one.
* `Members.optionalText`: a string that may be absent or `null`.
* `Members.requireBytes`, `requireFixed`: bytes in base64, of any length or of
  a given one.
* `Json.parseObject`, `Json.readStrings`: a text that has to be an object or an
  array of strings.
-/

namespace Signet

/-- Reads base64 text. -/
def Base64.read (text : String) : Except Error Bytes := (Base64.decode text).mapError .badBase64

/-- Reads base64 text that stands for exactly `n` bytes; `field` is how an error names them. -/
def Base64.readFixed (n : Nat) (field text : String) : Except Error (FixedBytes n) := do
  let bytes ← Base64.read text
  match FixedBytes.ofList? n bytes with
  | some value => return value
  | none => throw (.badLength field n bytes.length)

/-- Bytes of fixed length are read from text that decodes to them. -/
theorem Base64.readFixed_eq_ok_iff {n : Nat} {field text : String} {value : FixedBytes n} :
    Base64.readFixed n field text = .ok value ↔ Base64.decode text = .ok value.toList := by
  simp only [readFixed, read, Except.bind_eq_ok_iff, Except.mapError_eq_ok_iff]
  constructor
  · rintro ⟨bytes, hbytes, h⟩
    split at h
    · rename_i found hfound
      rw [hbytes, FixedBytes.ofList?_eq_some_iff.1 hfound, Except.pure_eq_ok_iff.1 h]
    · simp at h
  · intro h
    exact ⟨_, h, by simp⟩

/-- Reads bytes as text. -/
def Utf8.read (bytes : Bytes) : Except Error String := (Utf8.decode bytes).mapError (.badUtf8 bytes)

namespace Json

namespace Members

/-- The value of a member. -/
def require (ms : Members) (name : String) : Except Error Json :=
  match ms.get? name with
  | some v => .ok v
  | none => .error (.missingMember name)

/-- The text of a member that is a string. -/
def requireText (ms : Members) (name : String) : Except Error String := do
  match (← ms.require name).text? with
  | some s => return s
  | none => throw (.wrongType name)

/-- The members of a member that is an object. -/
def requireMembers (ms : Members) (name : String) : Except Error Members := do
  match (← ms.require name).members? with
  | some inner => return inner
  | none => throw (.wrongType name)

/-- The items of a member that is an array. -/
def requireItems (ms : Members) (name : String) : Except Error (List Json) := do
  match (← ms.require name).items? with
  | some items => return items
  | none => throw (.wrongType name)

/-- The text of a member that is a string, if it is there and not `null`. -/
def optionalText (ms : Members) (name : String) : Except Error (Option String) :=
  match ms.get? name with
  | none => .ok none
  | some .null => .ok none
  | some (.str s) => .ok (some s)
  | some _ => .error (.wrongType name)

/-- The bytes of a member that is base64. -/
def requireBytes (ms : Members) (name : String) : Except Error Bytes := do
  Base64.read (← ms.requireText name)

/-- The bytes of a member that is base64 of exactly `n` bytes. -/
def requireFixed (n : Nat) (ms : Members) (name : String) : Except Error (FixedBytes n) := do
  Base64.readFixed n name (← ms.requireText name)

variable {ms : Members} {name : String}

theorem require_eq_ok_iff {v : Json} : ms.require name = .ok v ↔ ms.get? name = some v := by
  unfold require
  split <;> simp_all

theorem requireText_eq_ok_iff {s : String} :
    ms.requireText name = .ok s ↔ ms.get? name = some (.str s) := by
  simp only [requireText, Except.bind_eq_ok_iff, require_eq_ok_iff]
  constructor
  · rintro ⟨v, hv, h⟩
    cases v with
    | str t => rw [hv, ← Except.pure_eq_ok_iff.1 h]
    | _ => simp [text?] at h
  · intro h
    exact ⟨_, h, by simp [text?]⟩

theorem requireMembers_eq_ok_iff {inner : Members} :
    ms.requireMembers name = .ok inner ↔ ms.get? name = some (.obj inner) := by
  simp only [requireMembers, Except.bind_eq_ok_iff, require_eq_ok_iff]
  constructor
  · rintro ⟨v, hv, h⟩
    cases v with
    | obj found => rw [hv, ← Except.pure_eq_ok_iff.1 h]
    | _ => simp [members?] at h
  · intro h
    exact ⟨_, h, by simp [members?]⟩

theorem requireItems_eq_ok_iff {items : List Json} :
    ms.requireItems name = .ok items ↔ ms.get? name = some (.arr items) := by
  simp only [requireItems, Except.bind_eq_ok_iff, require_eq_ok_iff]
  constructor
  · rintro ⟨v, hv, h⟩
    cases v with
    | arr found => rw [hv, ← Except.pure_eq_ok_iff.1 h]
    | _ => simp [items?] at h
  · intro h
    exact ⟨_, h, by simp [items?]⟩

theorem optionalText_eq_ok_iff {found : Option String} :
    ms.optionalText name = .ok found ↔
      (ms.get? name = none ∨ ms.get? name = some .null) ∧ found = none
        ∨ ∃ s, ms.get? name = some (.str s) ∧ found = some s := by
  unfold optionalText
  cases ms.get? name with
  | none => simp [eq_comm]
  | some v => cases v <;> simp [eq_comm]

theorem requireBytes_eq_ok_iff {bytes : Bytes} :
    requireBytes ms name = .ok bytes ↔
      ∃ s, ms.get? name = some (.str s) ∧ Base64.decode s = .ok bytes := by
  simp only [requireBytes, Except.bind_eq_ok_iff, requireText_eq_ok_iff, Base64.read,
    Except.mapError_eq_ok_iff]

theorem requireFixed_eq_ok_iff {n : Nat} {value : FixedBytes n} :
    requireFixed n ms name = .ok value ↔
      ∃ s, ms.get? name = some (.str s) ∧ Base64.decode s = .ok value.toList := by
  simp only [requireFixed, Except.bind_eq_ok_iff, requireText_eq_ok_iff,
    Base64.readFixed_eq_ok_iff]

end Members

/-- Reads a JSON text. -/
def read (text : String) : Except Error Json := (parse text).mapError .badJson

/-- Reads a JSON text that has to be an array of strings. -/
def readStrings (text : String) : Except Error (List String) :=
  (parseStrings text).mapError .badJson

/-- Reads a JSON text that has to be an object. -/
def parseObject (text : String) : Except Error Members := do
  match (← read text).members? with
  | some ms => return ms
  | none => throw (.wrongType "<root>")

end Json

end Signet
