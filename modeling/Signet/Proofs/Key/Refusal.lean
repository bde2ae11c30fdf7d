import Mathlib.Tactic
import Signet.Proofs.Json.Lookup
import Signet.Proofs.Key.Jwk

/-!
Public keys that are not imported, and the errors.

* `Jwk.Unexpected`: a member lacks the text that the kind of key calls for.
* `Jwk.NotOnCurve`: an object does not say that it is a key on the curve for a use. The type is
  looked at before the curve.
* `PublicKey.NoKey`: every way in which the import of a public key fails, in the order in which the
  members are looked at (`PublicKey.ofJwk_eq_error_iff`).
-/

namespace Signet

open Json.Members (Lacks LacksBytes requireText_eq_error_iff requireText_eq_ok_iff
  requireBytes_eq_error_iff requireBytes_eq_ok_iff)

variable {use : KeyUse} {e : Error}

namespace Jwk

/-- A member has not the text that is expected. -/
inductive Unexpected (ms : Json.Members) (name expected : String) : Error → Prop
  /-- It lacks a text. -/
  | text {e : Error} (lacks : Lacks Json.text? ms name e) : Unexpected ms name expected e
  /-- It has another one. -/
  | other {text : String} (found : ms.get? name = some (.str text)) (other : text ≠ expected) :
      Unexpected ms name expected (.keyMismatch (.member name expected text))

/-- An object says that it is a key on the curve for a use. -/
structure OnCurve (use : KeyUse) (ms : Json.Members) : Prop where
  /-- It says that it is on a curve. -/
  type : ms.get? "kty" = some (.str onCurve)
  /-- It says on which. -/
  curve : ms.get? "crv" = some (.str use.curveName)

/-- A value is no key on the curve for a use. -/
inductive NotOnCurve (use : KeyUse) (jwk : Json) : Error → Prop
  /-- It is no object. -/
  | noObject (noObject : jwk.members? = none) : NotOnCurve use jwk (.wrongType "<jwk>")
  /-- It does not say that it is on a curve. -/
  | type {ms : Json.Members} {e : Error} (object : jwk = .obj ms)
      (type : Unexpected ms "kty" onCurve e) : NotOnCurve use jwk e
  /-- It does not say that it is on this curve. -/
  | curve {ms : Json.Members} {e : Error} (object : jwk = .obj ms)
      (type : ms.get? "kty" = some (.str onCurve)) (curve : Unexpected ms "crv" use.curveName e) :
      NotOnCurve use jwk e

lemma Unexpected.isAboutContents {ms : Json.Members} {name expected : String}
    (h : Unexpected ms name expected e) : e.isAboutContents = true := by
  cases h with
  | text lacks => exact lacks.isAboutContents
  | other => rfl

lemma NotOnCurve.isAboutContents {jwk : Json} (h : NotOnCurve use jwk e) :
    e.isAboutContents = true := by
  cases h with
  | noObject => rfl
  | type _ type => exact type.isAboutContents
  | curve _ _ curve => exact curve.isAboutContents

lemma expect_eq_error_iff {ms : Json.Members} {name expected : String} :
    expect ms name expected = .error e ↔ Unexpected ms name expected e := by
  simp only [expect, Except.bind_eq_error_iff, requireText_eq_error_iff, requireText_eq_ok_iff]
  constructor
  · rintro (hlacks | ⟨text, hfound, h⟩)
    · exact .text hlacks
    · split at h
      · exact absurd h Except.pure_ne_error
      · rename_i hother
        obtain rfl := Except.throw_eq_error_iff.mp h
        exact .other hfound hother
  · rintro (hlacks | ⟨hfound, hother⟩)
    · exact .inl hlacks
    · exact .inr ⟨_, hfound, by rw [if_neg hother]; rfl⟩

lemma members_eq_error_iff {jwk : Json} :
    members jwk = .error e ↔ jwk.members? = none ∧ e = .wrongType "<jwk>" := by
  unfold members
  cases jwk.members? with
  | none => simp [eq_comm]
  | some ms => simp

lemma membersOnCurve_eq_error_iff {jwk : Json} :
    membersOnCurve use jwk = .error e ↔ NotOnCurve use jwk e := by
  simp only [membersOnCurve, Except.bind_eq_error_iff, members_eq_error_iff, members_eq_ok_iff,
    expect_eq_error_iff, Except.pure_ne_error, and_false, exists_false, or_false]
  constructor
  · rintro (⟨hobject, rfl⟩ | ⟨ms, hobject, htype | ⟨⟨⟩, htype, hcurve⟩⟩)
    · exact .noObject hobject
    · exact .type hobject htype
    · exact .curve hobject (expect_eq_ok_iff.mp htype) hcurve
  · rintro (hobject | ⟨hobject, htype⟩ | ⟨hobject, htype, hcurve⟩)
    · exact .inl ⟨hobject, rfl⟩
    · exact .inr ⟨_, hobject, .inl htype⟩
    · exact .inr ⟨_, hobject, .inr ⟨(), expect_eq_ok_iff.mpr htype, hcurve⟩⟩

end Jwk

namespace PublicKey

/-- A value is no public key for a use. -/
inductive NoKey (use : KeyUse) (jwk : Json) : Error → Prop
  /-- It is no key on the curve. -/
  | curve {e : Error} (curve : Jwk.NotOnCurve use jwk e) : NoKey use jwk e
  /-- It has no id. -/
  | id {ms : Json.Members} {e : Error} (object : jwk = .obj ms) (onCurve : Jwk.OnCurve use ms)
      (lacks : Lacks Json.text? ms "kid" e) : NoKey use jwk e
  /-- It has no bytes. -/
  | point {ms : Json.Members} {id : String} {e : Error}
      (object : jwk = .obj ms) (onCurve : Jwk.OnCurve use ms) (id : ms.get? "kid" = some (.str id))
      (lacks : LacksBytes ms "x" e) : NoKey use jwk e
  /-- Its bytes are fewer or more than those of a key. -/
  | length {ms : Json.Members} {id text : String} {bytes : Bytes}
      (object : jwk = .obj ms) (onCurve : Jwk.OnCurve use ms) (id : ms.get? "kid" = some (.str id))
      (found : ms.get? "x" = some (.str text)) (decodes : Base64.decode text = .ok bytes)
      (length : bytes.length ≠ 32) : NoKey use jwk (.badKeyLength 32 bytes.length)

lemma NoKey.isAboutContents {jwk : Json} (h : NoKey use jwk e) : e.isAboutContents = true := by
  cases h with
  | curve curve => exact curve.isAboutContents
  | id _ _ lacks => exact lacks.isAboutContents
  | point _ _ _ lacks => exact lacks.isAboutContents
  | length => rfl

lemma ofBytes_eq_error_iff {id : String} {bytes : Bytes} :
    (ofBytes id bytes : Except Error (PublicKey use)) = .error e
      ↔ bytes.length ≠ 32 ∧ e = .badKeyLength 32 bytes.length := by
  simp only [ofBytes, readKeyBytes, Except.bind_eq_error_iff, Except.pure_ne_error, and_false,
    exists_false, or_false]
  split
  · rename_i key h
    simp [FixedBytes.ofList?_eq_some_iff.mp h, key.length_eq]
  · rename_i h
    simp [FixedBytes.ofList?_eq_none_iff.mp h, eq_comm]

/-- **A value that is not imported as a public key fails in one of these ways.** -/
theorem ofJwk_eq_error_iff {jwk : Json} :
    (ofJwk jwk : Except Error (PublicKey use)) = .error e ↔ NoKey use jwk e := by
  simp only [ofJwk, Except.bind_eq_error_iff, Jwk.membersOnCurve_eq_error_iff,
    Jwk.membersOnCurve_eq_ok_iff, requireText_eq_error_iff, requireText_eq_ok_iff,
    requireBytes_eq_error_iff, requireBytes_eq_ok_iff, ofBytes_eq_error_iff]
  constructor
  · rintro (hcurve | ⟨ms, ⟨hobject, htype, hcurve⟩, h⟩)
    · exact .curve hcurve
    · rcases h with hid | ⟨id, hid, hpoint | ⟨bytes, ⟨text, hfound, hdecode⟩, hlength, rfl⟩⟩
      · exact .id hobject ⟨htype, hcurve⟩ hid
      · exact .point hobject ⟨htype, hcurve⟩ hid hpoint
      · exact .length hobject ⟨htype, hcurve⟩ hid hfound hdecode hlength
  · rintro (hcurve | ⟨hobject, ⟨htype, hcurve⟩, hid⟩ | ⟨hobject, ⟨htype, hcurve⟩, hid, hpoint⟩
      | ⟨hobject, ⟨htype, hcurve⟩, hid, hfound, hdecode, hlength⟩)
    · exact .inl hcurve
    · exact .inr ⟨_, ⟨hobject, htype, hcurve⟩, .inl hid⟩
    · exact .inr ⟨_, ⟨hobject, htype, hcurve⟩, .inr ⟨_, hid, .inl hpoint⟩⟩
    · exact .inr ⟨_, ⟨hobject, htype, hcurve⟩,
        .inr ⟨_, hid, .inr ⟨_, ⟨_, hfound, hdecode⟩, hlength, rfl⟩⟩⟩

end PublicKey

end Signet
