import Mathlib.Tactic
import Signet.Key.Jwk
import Signet.Proofs.Text.Base64

/-!
Import of keys, type by type.

* **Accepted.** `NamedKey.ofJwk_eq_ok_iff`, `PublicKey.ofJwk_eq_ok_iff`,
  `KeyPair.ofJwk_eq_ok_iff`: what an object has to say to be imported as a given key.
* **Refused.** `NamedKey.ofJwk_of_kty`, `Jwk.membersOnCurve_of_kty`, `Jwk.membersOnCurve_of_crv`:
  an object that says that it is of another type or on another curve;
  `KeyPair.ofJwk_of_no_secret`: one without the secret of a key pair.
-/

namespace Signet

open Json.Members (requireText_eq_ok_iff requireBytes_eq_ok_iff)

variable {use : KeyUse}

/-- Keys for different uses are on curves with different names. -/
lemma KeyUse.curveName_injective : Function.Injective KeyUse.curveName := by
  intro use other
  cases use <;> cases other <;> simp [curveName]

lemma readKeyBytes_eq_ok_iff {bytes : Bytes} {key : FixedBytes 32} :
    readKeyBytes bytes = .ok key ↔ bytes = key.toList := by
  rw [← FixedBytes.ofList?_eq_some_iff, readKeyBytes]
  split
  · rename_i found hfound
    simp [hfound]
  · rename_i hnone
    simp [hnone]

namespace Jwk

lemma expect_eq_ok_iff {ms : Json.Members} {name expected : String} :
    expect ms name expected = .ok () ↔ ms.get? name = some (.str expected) := by
  simp only [expect, Except.bind_eq_ok_iff, requireText_eq_ok_iff]
  constructor
  · rintro ⟨found, hfound, h⟩
    split at h
    · rename_i heq
      rw [hfound, heq]
    · simp at h
  · intro h
    exact ⟨expected, h, by simp⟩

/-- A member with another text is refused. -/
lemma expect_eq_error {ms : Json.Members} {name expected found : String}
    (h : ms.get? name = some (.str found)) (hne : found ≠ expected) :
    expect ms name expected = .error (.keyMismatch (.member name expected found)) := by
  rw [expect, requireText_eq_ok_iff.mpr h]
  exact if_neg hne

lemma members_eq_ok_iff {jwk : Json} {ms : Json.Members} :
    members jwk = .ok ms ↔ jwk = .obj ms := by
  cases jwk <;> simp [members, Json.members?]

lemma membersOnCurve_eq_ok_iff {jwk : Json} {ms : Json.Members} :
    membersOnCurve use jwk = .ok ms ↔ jwk = .obj ms ∧ ms.get? "kty" = some (.str onCurve)
      ∧ ms.get? "crv" = some (.str use.curveName) := by
  simp only [membersOnCurve, Except.bind_eq_ok_iff, members_eq_ok_iff, Except.pure_eq_ok_iff]
  constructor
  · rintro ⟨_, rfl, ⟨⟩, hkty, ⟨⟩, hcrv, rfl⟩
    exact ⟨rfl, expect_eq_ok_iff.mp hkty, expect_eq_ok_iff.mp hcrv⟩
  · rintro ⟨rfl, hkty, hcrv⟩
    exact ⟨ms, rfl, (), expect_eq_ok_iff.mpr hkty, (), expect_eq_ok_iff.mpr hcrv, rfl⟩

/-- A key that says that it is not on a curve is refused. -/
lemma membersOnCurve_of_kty {ms : Json.Members} {found : String}
    (h : ms.get? "kty" = some (.str found)) (hne : found ≠ onCurve) :
    membersOnCurve use (.obj ms) = .error (.keyMismatch (.member "kty" onCurve found)) := by
  simp [membersOnCurve, members, Json.members?, expect_eq_error h hne, bind, Except.bind]

/-- A key that says that it is on another curve is refused. -/
lemma membersOnCurve_of_crv {ms : Json.Members} {found : String}
    (hkty : ms.get? "kty" = some (.str onCurve)) (h : ms.get? "crv" = some (.str found))
    (hne : found ≠ use.curveName) :
    membersOnCurve use (.obj ms)
      = .error (.keyMismatch (.member "crv" use.curveName found)) := by
  simp [membersOnCurve, members, Json.members?, expect_eq_ok_iff.mpr hkty, expect_eq_error h hne,
    bind, Except.bind]

end Jwk

namespace NamedKey

/-- An object is imported as the key that it names and spells out, if it says that it is a
symmetric key. -/
lemma ofJwk_eq_ok_iff {jwk : Json} {key : NamedKey} :
    ofJwk jwk = .ok key ↔ ∃ ms : Json.Members, jwk = .obj ms
      ∧ (ms.get? "kid" = some (.str key.id) ∧ ms.get? "kty" = some (.str Jwk.octets)
        ∧ ms.get? "alg" = some (.str Jwk.symmetricAlgorithm))
      ∧ ∃ k, ms.get? "k" = some (.str k) ∧ Base64.decode k = .ok key.key.toList := by
  simp only [ofJwk, ofBytes, Except.bind_eq_ok_iff, Jwk.members_eq_ok_iff,
    requireText_eq_ok_iff, requireBytes_eq_ok_iff, readKeyBytes_eq_ok_iff, Except.pure_eq_ok_iff]
  constructor
  · rintro ⟨ms, rfl, ⟨⟩, hkty, ⟨⟩, halg, _, hk, id, hid, _, rfl, rfl⟩
    exact ⟨ms, rfl, ⟨hid, Jwk.expect_eq_ok_iff.mp hkty, Jwk.expect_eq_ok_iff.mp halg⟩, hk⟩
  · rintro ⟨ms, rfl, ⟨hid, hkty, halg⟩, hk⟩
    exact ⟨ms, rfl, (), Jwk.expect_eq_ok_iff.mpr hkty, (), Jwk.expect_eq_ok_iff.mpr halg, _, hk,
      key.id, hid, key.key, rfl, rfl⟩

/-- A key that says that it is of another type is refused. -/
lemma ofJwk_of_kty {ms : Json.Members} {found : String}
    (h : ms.get? "kty" = some (.str found)) (hne : found ≠ Jwk.octets) :
    ofJwk (.obj ms) = .error (.keyMismatch (.member "kty" Jwk.octets found)) := by
  simp [ofJwk, Jwk.members, Json.members?, Jwk.expect_eq_error h hne, bind, Except.bind]

end NamedKey

namespace PublicKey

/-- An object is imported as the key that it names and spells out, if it says that it is a key of
this kind. -/
lemma ofJwk_eq_ok_iff {jwk : Json} {key : PublicKey use} :
    ofJwk jwk = .ok key ↔ ∃ ms : Json.Members, jwk = .obj ms
      ∧ (ms.get? "kid" = some (.str key.id) ∧ ms.get? "kty" = some (.str Jwk.onCurve)
        ∧ ms.get? "crv" = some (.str use.curveName))
      ∧ ∃ x, ms.get? "x" = some (.str x) ∧ Base64.decode x = .ok key.point.toList := by
  simp only [ofJwk, ofBytes, Except.bind_eq_ok_iff, Jwk.membersOnCurve_eq_ok_iff,
    requireText_eq_ok_iff, requireBytes_eq_ok_iff, readKeyBytes_eq_ok_iff, Except.pure_eq_ok_iff]
  constructor
  · rintro ⟨ms, ⟨rfl, hkty, hcrv⟩, id, hid, _, hx, point, rfl, rfl⟩
    exact ⟨ms, rfl, ⟨hid, hkty, hcrv⟩, hx⟩
  · rintro ⟨ms, rfl, ⟨hid, hkty, hcrv⟩, hx⟩
    exact ⟨ms, ⟨rfl, hkty, hcrv⟩, key.id, hid, _, hx, key.point, rfl, rfl⟩

end PublicKey

namespace KeyPair

/-- An object is imported as the key pair that it names and spells out, if it says that it is a
key of this kind. -/
lemma ofJwk_eq_ok_iff {jwk : Json} {key : KeyPair use} :
    ofJwk jwk = .ok key ↔ ∃ ms : Json.Members, jwk = .obj ms
      ∧ (ms.get? "kid" = some (.str key.id) ∧ ms.get? "kty" = some (.str Jwk.onCurve)
        ∧ ms.get? "crv" = some (.str use.curveName))
      ∧ (∃ x, ms.get? "x" = some (.str x) ∧ Base64.decode x = .ok key.point.toList)
      ∧ ∃ d, ms.get? "d" = some (.str d) ∧ Base64.decode d = .ok key.secret.toList := by
  simp only [ofJwk, ofBytes, Except.bind_eq_ok_iff, Jwk.membersOnCurve_eq_ok_iff,
    requireText_eq_ok_iff, requireBytes_eq_ok_iff, readKeyBytes_eq_ok_iff, Except.pure_eq_ok_iff]
  constructor
  · rintro ⟨ms, ⟨rfl, hkty, hcrv⟩, _, hd, id, hid, _, hx, secret, rfl, point, rfl, rfl⟩
    exact ⟨ms, rfl, ⟨hid, hkty, hcrv⟩, hx, hd⟩
  · rintro ⟨ms, rfl, ⟨hid, hkty, hcrv⟩, hx, hd⟩
    exact ⟨ms, ⟨rfl, hkty, hcrv⟩, _, hd, key.id, hid, _, hx, key.secret, rfl, key.point, rfl, rfl⟩

/-- A key on the curve is no key pair if there is no secret. -/
lemma ofJwk_of_no_secret {ms : Json.Members} (hkty : ms.get? "kty" = some (.str Jwk.onCurve))
    (hcrv : ms.get? "crv" = some (.str use.curveName)) (hd : ms.get? "d" = none) :
    (ofJwk (.obj ms) : Except Error (KeyPair use)) = .error (.missingMember "d") := by
  have hmembers : Jwk.membersOnCurve use (.obj ms) = .ok ms :=
    Jwk.membersOnCurve_eq_ok_iff.mpr ⟨rfl, hkty, hcrv⟩
  simp [ofJwk, hmembers, Json.Members.requireBytes, Json.Members.requireText,
    Json.Members.require, hd, bind, Except.bind]

end KeyPair

end Signet
