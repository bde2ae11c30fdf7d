import Mathlib.Tactic
import Signet.Proofs.Json.Members
import Signet.Proofs.Key.Jwk
import Signet.Proofs.Signature.Path

/-!
What signing does to an object, and what a check finds of it.

* **The object.** `AddsSignature`: nothing changes but the member `signature`.
  `attach_of_unsigned` and `signWithCertificate_of_subject` say when signing
  succeeds; when it fails the object stays as it was (`attach_of_signed`,
  `signWithCertificate_of_other`).
* **The bytes.** Signing leaves out two members and a check three, the signature
  among them. `coveredBytes_insert_signature`: that is the same text.
* **The reader's side.** `isSigned_insert`: the signature and the key are found
  again. `verifies_insert`: of a sound scheme, the signature verifies.
-/

namespace Signet

/-- Signatures made with a seed are verified by the public key of that seed. -/
def SignatureScheme.Sound (scheme : SignatureScheme) : Prop :=
  ∀ seed message, scheme.verify (scheme.publicOf seed) (scheme.sign seed message) message = true

namespace Signing

open Chain Json.Members

/-- An object has a signature where it had none before, and is the same otherwise. -/
structure AddsSignature (before after : Json.Members) : Prop where
  /-- There was no signature. -/
  unsigned : before.get? "signature" = none
  /-- There is one. -/
  signed : ∃ v, after.get? "signature" = some v
  /-- Nothing else changed. -/
  rest : after.without ["signature"] = before

lemma addsSignature_insert {object : Json.Members} (h : object.get? "signature" = none)
    (v : Json) : AddsSignature object (object.insert "signature" v) where
  unsigned := h
  signed := ⟨v, get?_insert_self _ _ _⟩
  rest := by
    rw [without_insert h (by simp)]
    exact without_eq_self (by simpa using h)

/-! ### The bytes -/

/-- The members that are left out when a signature is checked are those that signing leaves out
and the signature, so that the same text is covered. -/
lemma coveredBytes_insert_signature {object : Json.Members}
    (h : object.get? "signature" = none) (v : Json) :
    coveredBytes (object.insert "signature" v) = signedBytes object := by
  have hwithout : without uncoveredOrSignature (object.insert "signature" v)
      = without uncovered object := by
    rw [without_insert h (by simp [uncoveredOrSignature])]
    exact without_append_singleton h
  simp only [coveredBytes, signedBytes, Canonical.canonicalizeObject, Canonical.canonicalize,
    Canonical.omitNames, hwithout]

/-! ### Signing -/

variable {scheme : SignatureScheme} {object : Json.Members} {pair : KeyPair .profile}

lemma attach_of_unsigned (h : object.get? "signature" = none) (key : Json) :
    attach scheme object pair key = (object.insert "signature"
      (signatureJson key (pair.sign scheme (signedBytes object))), none) := by
  rw [attach, contains_eq_false_iff.mpr h]
  simp

/-- An object that is signed is not signed again. -/
lemma attach_of_signed (h : object.contains "signature" = true) (key : Json) :
    attach scheme object pair key = (object, some .alreadySigned) := by
  rw [attach, if_pos h]

/-- A certificate for the key itself is put into the signature. -/
lemma signWithCertificate_of_subject {certificate : Json.Members} {signer : PublicKey .profile}
    (hsubject : IsSubject certificate signer) (hpoint : signer.point = pair.point) :
    signWithCertificate scheme object pair certificate
      = attach scheme object pair (.obj certificate) := by
  rw [signWithCertificate, subject_eq_ok_iff.mpr hsubject]
  simp [hpoint]

/-- No object is signed with a certificate that is not for the key, and it stays as it was. -/
lemma signWithCertificate_of_other {certificate : Json.Members}
    (h : ∀ signer, IsSubject certificate signer → signer.point ≠ pair.point) :
    ∃ e, signWithCertificate scheme object pair certificate = (object, some e) := by
  rw [signWithCertificate]
  split
  · exact ⟨_, rfl⟩
  · rename_i signer hsigner
    rw [if_pos (h signer (subject_eq_ok_iff.mp hsigner))]
    exact ⟨_, rfl⟩

/-- Nor is one that is signed. -/
lemma signWithCertificate_of_signed (h : object.contains "signature" = true)
    (certificate : Json.Members) :
    ∃ e, signWithCertificate scheme object pair certificate = (object, some e) := by
  by_cases hother : ∀ signer, IsSubject certificate signer → signer.point ≠ pair.point
  · exact signWithCertificate_of_other hother
  · push Not at hother
    obtain ⟨signer, hsubject, hpoint⟩ := hother
    rw [signWithCertificate_of_subject hsubject hpoint]
    exact ⟨_, attach_of_signed h _⟩

/-! ### What is read of it -/

/-- The signature and the key are found in a signed object. -/
lemma isSigned_insert (object : Json.Members) (key : Json) (signature : FixedBytes 64) :
    IsSigned (object.insert "signature" (signatureJson key signature)) key signature := by
  refine ⟨_, Base64.encode signature.toList, get?_insert_self _ _ _, ?_,
    Base64.decode_encode _, ?_⟩
  · simp [ofList, get?_insert_self]
  · simp [ofList, get?_insert_self, get?_insert_of_ne]

/-- A signature made with a seed is verified by the public key that was derived from it. -/
lemma verifies_insert (hscheme : scheme.Sound) (h : object.get? "signature" = none)
    (id : String) (seed : FixedBytes 32) (key : Json) :
    Verifies scheme (KeyPair.ofSecret scheme.publicOf id seed).publicKey
      (scheme.sign seed (signedBytes object))
      (object.insert "signature"
        (signatureJson key (scheme.sign seed (signedBytes object)))) := by
  have hbytes := coveredBytes_insert_signature h
    (signatureJson key (scheme.sign seed (signedBytes object)))
  rw [coveredBytes] at hbytes
  exact (congrArg _ hbytes).trans (hscheme seed (signedBytes object))

/-- The members of a certificate before it is signed. -/
lemma get?_certificateBody (subject : PublicKey .profile) (grants : List Permission) :
    (certificateBody subject grants).get? "publicKey" = some subject.toJwk
      ∧ (certificateBody subject grants).get? "grant"
        = some (.arr (grants.map fun p => .str p.name))
      ∧ (certificateBody subject grants).get? "signature" = none := by
  simp [certificateBody, ofList, get?_insert_self, get?_insert_of_ne]

end Signing

end Signet
