import Signet.Except
import Signet.Json.Access
import Signet.Signature.Signing

/-!
Checking signatures, along the certificates up to a root key.

* `Chain.Link` is a signed object of a chain with the key that has to have
  signed it.
* `Chain.Walk` follows the certificates from an object to the root key, each
  with what it has to grant: `Walk.step` goes on by one certificate, `Walk.run`
  goes all the way. `Chain.checkLinks` then checks every signature.
* `Verifier` bounds the number of certificates, by default to eight.
-/

namespace Signet

namespace Chain

/-- A signed object and the key that has to have signed it. -/
structure Link where
  /-- The signed object. -/
  object : Json.Members
  /-- Its signature. -/
  signature : FixedBytes 64
  /-- The key that has to have made it. -/
  signer : PublicKey .profile

/-- The signature of an object and what it says about the key. -/
def readSignature (object : Json.Members) : Except Error (FixedBytes 64 × Json) :=
  match object.get? "signature" with
  | none => .error .notSigned
  | some (.obj members) => do
    let signature ← Json.Members.requireFixed 64 members "sig"
    let key ← Json.Members.require members "key"
    return (signature, key)
  | some _ => .error (.wrongType "signature")

/-- Checks that a certificate grants permissions. -/
def checkGrants (certificate : Json.Members) (required : List Permission) : Except Error Unit := do
  let granted ← certificate.requireItems "grant"
  match required.find? fun p => !granted.any fun g => g.text? = some p.name with
  | none => return ()
  | some p => throw (.permissionMissing p.name)

/-- Where a walk from an object towards the root key stands. -/
structure Walk where
  /-- The links found so far, that of the first object first. -/
  links : List Link
  /-- What the next certificate has to grant; without permissions none is followed. -/
  required : Option (List Permission)
  /-- The object that is looked at next. -/
  current : Json.Members

namespace Walk

variable (root : PublicKey .profile) (limit : Nat)

/-- Puts down the key that has to have signed the current object. -/
def record (w : Walk) (signature : FixedBytes 64) (signer : PublicKey .profile) : List Link :=
  w.links ++ [⟨w.current, signature, signer⟩]

/-- Goes on to the certificate of the key that signed the current object. -/
def follow (w : Walk) (signature : FixedBytes 64) (certificate : Json.Members) :
    Except Error Walk :=
  if limit ≤ w.links.length then .error (.chainTooDeep limit)
  else
    match w.required with
    | none => .error .certificateNotAllowed
    | some needed => do
      checkGrants certificate needed
      let signer ← Signing.subject certificate
      return ⟨w.record signature signer, some (Permission.escalate needed), certificate⟩

/-- One step: all the links if the root key has to have signed the current object, or else the
walk that goes on from its certificate. -/
def step (w : Walk) : Except Error (List Link ⊕ Walk) := do
  let (signature, key) ← readSignature w.current
  match key with
  | .str id => if id = root.id then return .inl (w.record signature root) else throw (.noSuchKey id)
  | .obj certificate => return .inr (← w.follow limit signature certificate)
  | _ => throw (.wrongType "signature.key")

variable {root limit}

/-- A certificate is followed if the limit allows it, permissions are given, it grants them and it
is about a key. -/
theorem follow_eq_ok_iff {w next : Walk} {signature : FixedBytes 64}
    {certificate : Json.Members} :
    w.follow limit signature certificate = .ok next ↔
      w.links.length < limit ∧ ∃ needed signer, w.required = some needed ∧
        checkGrants certificate needed = .ok () ∧ Signing.subject certificate = .ok signer ∧
        next = ⟨w.record signature signer, some (Permission.escalate needed), certificate⟩ := by
  unfold follow
  split
  · rename_i h
    simp [Nat.not_lt.2 h]
  · rename_i h
    cases hrequired : w.required with
    | none => simp
    | some needed =>
      simp only [Except.bind_eq_ok_iff, Except.pure_eq_ok_iff, Option.some.injEq]
      constructor
      · rintro ⟨⟨⟩, hgrants, signer, hsubject, rfl⟩
        exact ⟨Nat.not_le.1 h, needed, signer, rfl, hgrants, hsubject, rfl⟩
      · rintro ⟨-, _, signer, rfl, hgrants, hsubject, rfl⟩
        exact ⟨(), hgrants, signer, hsubject, rfl⟩

/-- A walk ends where the id of the root key stands, with one link more. -/
theorem step_eq_inl_iff {w : Walk} {links : List Link} :
    w.step root limit = .ok (.inl links) ↔
      ∃ signature, readSignature w.current = .ok (signature, .str root.id) ∧
        links = w.record signature root := by
  simp only [step, Except.bind_eq_ok_iff, Prod.exists]
  constructor
  · rintro ⟨signature, key, hread, h⟩
    cases key with
    | str id =>
      dsimp only at h
      split at h
      · rename_i hid
        exact ⟨signature, hid ▸ hread, (Sum.inl.inj (Except.pure_eq_ok_iff.1 h)).symm⟩
      · simp at h
    | _ => simp at h
  · rintro ⟨signature, hread, rfl⟩
    exact ⟨signature, _, hread, by simp⟩

/-- A walk goes on where a certificate stands that can be followed. -/
theorem step_eq_inr_iff {w next : Walk} :
    w.step root limit = .ok (.inr next) ↔
      ∃ signature certificate, readSignature w.current = .ok (signature, .obj certificate) ∧
        w.follow limit signature certificate = .ok next := by
  simp only [step, Except.bind_eq_ok_iff, Prod.exists]
  constructor
  · rintro ⟨signature, key, hread, h⟩
    cases key with
    | str id => dsimp only at h; split at h <;> simp at h
    | obj certificate => exact ⟨signature, certificate, hread, by simpa using h⟩
    | _ => simp at h
  · rintro ⟨signature, certificate, hread, h⟩
    exact ⟨signature, _, hread, by simpa using h⟩

/-- A walk goes on only while there are fewer links than certificates allowed, and has one more
link then. -/
theorem length_links_of_step {w next : Walk} (h : w.step root limit = .ok (.inr next)) :
    w.links.length < limit ∧ next.links.length = w.links.length + 1 := by
  obtain ⟨signature, certificate, -, hfollow⟩ := step_eq_inr_iff.1 h
  obtain ⟨hlimit, needed, signer, -, -, -, rfl⟩ := follow_eq_ok_iff.1 hfollow
  exact ⟨hlimit, by simp [record]⟩

variable (root limit)

/-- Walks to the root key and gives all the links on the way. -/
def run (w : Walk) : Except Error (List Link) :=
  match _h : w.step root limit with
  | .error e => .error e
  | .ok (.inl links) => .ok links
  | .ok (.inr next) => run next
termination_by limit - w.links.length
decreasing_by
  have := length_links_of_step _h
  omega

end Walk

variable (scheme : SignatureScheme)

/-- Checks the signature of a link. -/
def Link.check (l : Link) : Except Error Unit :=
  l.signer.verify scheme l.signature (Signing.coveredBytes l.object)

/-- Checks the signatures of links one after another. -/
def checkLinks : List Link → Except Error Unit
  | [] => .ok ()
  | l :: rest => do
    l.check scheme
    checkLinks rest

end Chain

/-- Checks signed objects. -/
structure Verifier where
  /-- The most certificates that are followed. -/
  maxDepth : Nat

namespace Verifier

/-- The verifier that follows up to eight certificates. -/
def standard : Verifier := ⟨8⟩

variable (scheme : SignatureScheme)

/-- Checks that an object is signed by a root key, or along certificates that grant what is
required. -/
def check (v : Verifier) (object : Json.Members) (root : PublicKey .profile)
    (required : Option (List Permission)) : Except Error Unit := do
  let links ← Chain.Walk.run root v.maxDepth ⟨[], required, object⟩
  Chain.checkLinks scheme links

/-- Whether the check succeeds. -/
def verify (v : Verifier) (object : Json.Members) (root : PublicKey .profile)
    (required : Option (List Permission)) : Bool :=
  match v.check scheme object root required with
  | .ok () => true
  | .error _ => false

end Verifier

end Signet
