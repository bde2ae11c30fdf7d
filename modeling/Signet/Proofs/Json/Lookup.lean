import Mathlib.Tactic
import Signet.Json.Access

/-!
Look-ups that find bytes, and look-ups that fail with the errors that they fail with.

* `HasBytes`: a member spells out bytes.
* `Lacks`: a member is not there, or not of the type that is asked for. The look-ups of each type
  fail for one of these two reasons (`requireText_eq_error_iff`, `requireItems_eq_error_iff`).
* `LacksBytes`: a member lacks a text, or the text is no base64 (`requireBytes_eq_error_iff`).
* `LacksFixed`: a member lacks bytes, or has another number of them
  (`requireFixed_eq_error_iff`).
* `NoObject`: a text that has to be an object is none (`parseObject_eq_error_iff`).
* `Error.isAboutContents`: the errors that say what is wrong with the contents of an object. No
  look-up fails with another one.
-/

namespace Signet

/-- Whether an error says what is wrong with the contents of an object. -/
def Error.isAboutContents : Error → Bool
  | notSigned | permissionMissing _ | missingMember _ | wrongType _ | badBase64 _
  | badLength _ _ _ | badKeyLength _ _ | keyMismatch _ => true
  | _ => false

namespace Json

namespace Members

variable {α : Type} {ms : Members} {name : String} {e : Error}

/-- A member is a string that spells out bytes. -/
def HasBytes (ms : Members) (name : String) (bytes : Bytes) : Prop :=
  ∃ text, ms.get? name = some (.str text) ∧ Base64.decode text = .ok bytes

/-- A member spells out one byte string. -/
lemma HasBytes.eq {bytes bytes' : Bytes} (h : ms.HasBytes name bytes)
    (h' : ms.HasBytes name bytes') : bytes = bytes' := by
  obtain ⟨text, htext, hdecode⟩ := h
  obtain ⟨text', htext', hdecode'⟩ := h'
  cases htext.symm.trans htext'
  exact Except.ok.inj (hdecode.symm.trans hdecode')

/-- A member is not there, or not of the type that `read` asks for. -/
inductive Lacks (read : Json → Option α) (ms : Members) (name : String) : Error → Prop
  /-- It is not there. -/
  | absent (absent : ms.get? name = none) : Lacks read ms name (.missingMember name)
  /-- It is of another type. -/
  | otherType {v : Json} (found : ms.get? name = some v) (otherType : read v = none) :
      Lacks read ms name (.wrongType name)

/-- A member lacks a text in base64. -/
inductive LacksBytes (ms : Members) (name : String) : Error → Prop
  /-- It lacks a text. -/
  | text {e : Error} (lacks : Lacks Json.text? ms name e) : LacksBytes ms name e
  /-- Its text is no base64. -/
  | notBase64 {text : String} {fault : Base64.Fault} (found : ms.get? name = some (.str text))
      (invalid : Base64.decode text = .error fault) : LacksBytes ms name (.badBase64 fault)

/-- A member lacks `n` bytes in base64. -/
inductive LacksFixed (n : ℕ) (ms : Members) (name : String) : Error → Prop
  /-- It lacks bytes. -/
  | bytes {e : Error} (lacks : LacksBytes ms name e) : LacksFixed n ms name e
  /-- Its bytes are fewer or more. -/
  | length {text : String} {bytes : Bytes} (found : ms.get? name = some (.str text))
      (decodes : Base64.decode text = .ok bytes) (length : bytes.length ≠ n) :
      LacksFixed n ms name (.badLength name n bytes.length)

lemma Lacks.isAboutContents {read : Json → Option α} (h : Lacks read ms name e) :
    e.isAboutContents = true := by
  cases h <;> rfl

lemma LacksBytes.isAboutContents (h : LacksBytes ms name e) : e.isAboutContents = true := by
  cases h with
  | text lacks => exact lacks.isAboutContents
  | notBase64 => rfl

lemma LacksFixed.isAboutContents {n : ℕ} (h : LacksFixed n ms name e) :
    e.isAboutContents = true := by
  cases h with
  | bytes lacks => exact lacks.isAboutContents
  | length => rfl

lemma require_eq_error_iff :
    ms.require name = .error e ↔ ms.get? name = none ∧ e = .missingMember name := by
  unfold require
  cases ms.get? name with
  | none => simp [eq_comm]
  | some v => simp

/-- A look-up of any type fails where the member is not there, or of another type. -/
lemma lacks_iff {read : Json → Option α} :
    (ms.require name >>= fun v => (read v).elim (.error (.wrongType name)) .ok) = .error e
      ↔ Lacks read ms name e := by
  simp only [Except.bind_eq_error_iff, require_eq_error_iff, require_eq_ok_iff]
  constructor
  · rintro (⟨habsent, rfl⟩ | ⟨v, hfound, h⟩)
    · exact .absent habsent
    · cases hread : read v with
      | some a =>
          rw [hread] at h
          cases h
      | none =>
          rw [hread] at h
          cases h
          exact .otherType hfound hread
  · rintro (habsent | ⟨hfound, hother⟩)
    · exact .inl ⟨habsent, rfl⟩
    · exact .inr ⟨_, hfound, by rw [hother, Option.elim_none]⟩

lemma requireText_eq_error_iff :
    ms.requireText name = .error e ↔ Lacks Json.text? ms name e := by
  rw [← lacks_iff, requireText]
  refine iff_of_eq (congrArg (· = _) (congrArg _ (funext fun v => ?_)))
  cases v.text? <;> rfl

lemma requireItems_eq_error_iff :
    ms.requireItems name = .error e ↔ Lacks Json.items? ms name e := by
  rw [← lacks_iff, requireItems]
  refine iff_of_eq (congrArg (· = _) (congrArg _ (funext fun v => ?_)))
  cases v.items? <;> rfl

lemma requireBytes_eq_error_iff :
    requireBytes ms name = .error e ↔ LacksBytes ms name e := by
  simp only [requireBytes, Except.bind_eq_error_iff, requireText_eq_error_iff,
    requireText_eq_ok_iff, Base64.read, Except.mapError_eq_error_iff]
  constructor
  · rintro (hlacks | ⟨text, hfound, fault, hinvalid, rfl⟩)
    · exact .text hlacks
    · exact .notBase64 hfound hinvalid
  · rintro (hlacks | ⟨hfound, hinvalid⟩)
    · exact .inl hlacks
    · exact .inr ⟨_, hfound, _, hinvalid, rfl⟩

/-- Bytes of fixed length are missing, or there is another number of them. -/
lemma requireFixed_eq_error_iff {n : ℕ} :
    requireFixed n ms name = .error e ↔ LacksFixed n ms name e := by
  have hsplit : requireFixed n ms name = requireBytes ms name >>= fun bytes =>
      (FixedBytes.ofList? n bytes).elim (.error (.badLength name n bytes.length)) .ok := by
    rw [requireFixed, requireBytes]
    cases ms.requireText name with
    | error e => rfl
    | ok text =>
        show Base64.read text >>= _ = Base64.read text >>= _
        refine congrArg _ (funext fun bytes => ?_)
        cases FixedBytes.ofList? n bytes <;> rfl
  simp only [hsplit, Except.bind_eq_error_iff, requireBytes_eq_error_iff, requireBytes_eq_ok_iff]
  constructor
  · rintro (hlacks | ⟨bytes, ⟨text, hfound, hdecode⟩, h⟩)
    · exact .bytes hlacks
    · cases hread : FixedBytes.ofList? n bytes with
      | some value =>
          rw [hread] at h
          cases h
      | none =>
          rw [hread] at h
          cases h
          exact .length hfound hdecode (FixedBytes.ofList?_eq_none_iff.mp hread)
  · rintro (hlacks | ⟨hfound, hdecode, hlength⟩)
    · exact .inl hlacks
    · refine .inr ⟨_, ⟨_, hfound, hdecode⟩, ?_⟩
      rw [FixedBytes.ofList?_eq_none_iff.mpr hlength, Option.elim_none]

end Members

/-! ### Texts of objects -/

/-- A text is no JSON, or JSON that is no object. -/
inductive NoObject (text : String) : Error → Prop
  /-- It is no JSON. -/
  | notJson {fault : Fault} (invalid : Json.parse text = .error fault) :
      NoObject text (.badJson fault)
  /-- It is no object. -/
  | otherType {v : Json} (found : Json.parse text = .ok v) (noObject : v.members? = none) :
      NoObject text (.wrongType "<root>")

/-- A text that has to be an object is refused if it is none. -/
lemma parseObject_eq_error_iff {text : String} {e : Error} :
    parseObject text = .error e ↔ NoObject text e := by
  simp only [parseObject, read, Except.bind_eq_error_iff, Except.mapError_eq_error_iff,
    Except.mapError_eq_ok_iff]
  constructor
  · rintro (⟨fault, hinvalid, rfl⟩ | ⟨v, hfound, h⟩)
    · exact .notJson hinvalid
    · split at h
      · cases h
      · rename_i hother
        cases h
        exact .otherType hfound hother
  · rintro (hinvalid | ⟨hfound, hother⟩)
    · exact .inl ⟨_, hinvalid, rfl⟩
    · refine .inr ⟨_, hfound, ?_⟩
      rw [hother]
      rfl

end Json

end Signet
