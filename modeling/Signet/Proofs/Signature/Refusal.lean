import Mathlib.Tactic
import Signet.Proofs.Key.Refusal
import Signet.Proofs.Signature.Path

/-!
Where a walk towards the root key fails, and why.

* **One hop.** `Unreadable`, `Ungranted` and `NoSubject` are the ways in which reading a signature,
  its certificate's grants and its subject fail. `Refused` puts them in their order: the signature,
  the key beside it, the number of certificates, the permissions that are required, the grants, the
  subject. `Walk.step_eq_error_iff`: a step fails for one of these reasons.
* **Many hops.** `Climbs`: some certificates are followed from an object to another. `FailsAt`: a
  hop is reached by that, and refused. `Walk.run_eq_error_iff`: a walk fails at a hop. One direction
  is by induction on the walk, the other by induction on the certificates that are followed.
* **One failure.** `FailsAt.unique`: a walk fails at one hop only and with one error, since an
  object whose certificate is followed is not refused (`Climbs.not_refused`).
-/

namespace Signet.Chain

open Json.Members (Lacks LacksFixed require_eq_error_iff requireItems_eq_error_iff
  requireFixed_eq_error_iff requireItems_eq_ok_iff requireFixed_eq_ok_iff require_eq_ok_iff)

variable {root : PublicKey .profile} {limit : ℕ} {e : Error}

/-! ### The checks of one hop -/

/-- An object says nothing of its signature and its key. -/
inductive Unreadable (object : Json.Members) : Error → Prop
  /-- There is no signature. -/
  | unsigned (unsigned : object.get? "signature" = none) : Unreadable object .notSigned
  /-- The signature is no object. -/
  | noObject {v : Json} (found : object.get? "signature" = some v)
      (noObject : v.members? = none) : Unreadable object (.wrongType "signature")
  /-- It lacks the 64 bytes of a signature. -/
  | signature {members : Json.Members} {e : Error}
      (found : object.get? "signature" = some (.obj members))
      (lacks : LacksFixed 64 members "sig" e) : Unreadable object e
  /-- It has these, but no key. -/
  | key {members : Json.Members} {text : String} {signature : FixedBytes 64}
      (found : object.get? "signature" = some (.obj members))
      (listed : members.get? "sig" = some (.str text))
      (decodes : Base64.decode text = .ok signature.toList) (absent : members.get? "key" = none) :
      Unreadable object (.missingMember "key")

/-- A certificate does not grant some permissions; the first of them is reported. -/
inductive Ungranted (certificate : Json.Members) (needed : List Permission) : Error → Prop
  /-- It lacks a list of what it grants. -/
  | lacks {e : Error} (lacks : Lacks Json.items? certificate "grant" e) :
      Ungranted certificate needed e
  /-- A permission is not in that list. -/
  | permission {granted : List Json} {before after : List Permission} {p : Permission}
      (found : certificate.get? "grant" = some (.arr granted))
      (split : needed = before ++ p :: after) (before : ∀ q ∈ before, Json.str q.name ∈ granted)
      (missing : Json.str p.name ∉ granted) :
      Ungranted certificate needed (.permissionMissing p.name)

/-- A certificate is about no public key. -/
inductive NoSubject (certificate : Json.Members) : Error → Prop
  /-- It does not say what it is about. -/
  | absent (absent : certificate.get? "publicKey" = none) :
      NoSubject certificate (.missingMember "publicKey")
  /-- What it is about is no public key. -/
  | key {jwk : Json} {e : Error} (found : certificate.get? "publicKey" = some jwk)
      (noKey : PublicKey.NoKey .profile jwk e) : NoSubject certificate e

lemma Unreadable.isAboutContents {object : Json.Members} (h : Unreadable object e) :
    e.isAboutContents = true := by
  cases h with
  | signature _ lacks => exact lacks.isAboutContents
  | _ => rfl

lemma Ungranted.isAboutContents {certificate : Json.Members} {needed : List Permission}
    (h : Ungranted certificate needed e) : e.isAboutContents = true := by
  cases h with
  | lacks lacks => exact lacks.isAboutContents
  | permission => rfl

lemma NoSubject.isAboutContents {certificate : Json.Members} (h : NoSubject certificate e) :
    e.isAboutContents = true := by
  cases h with
  | absent => rfl
  | key _ noKey => exact noKey.isAboutContents

lemma readSignature_eq_error_iff {object : Json.Members} :
    readSignature object = .error e ↔ Unreadable object e := by
  unfold readSignature
  constructor
  · intro h
    split at h
    · rename_i hnone
      cases h
      exact .unsigned hnone
    · rename_i members hmembers
      simp only [Except.bind_eq_error_iff, requireFixed_eq_error_iff, requireFixed_eq_ok_iff,
        require_eq_error_iff, Except.pure_ne_error, and_false, exists_false, or_false] at h
      obtain hlacks | ⟨signature, ⟨text, htext, hdecode⟩, habsent, rfl⟩ := h
      · exact .signature hmembers hlacks
      · exact .key hmembers htext hdecode habsent
    · rename_i v hother hv
      cases h
      refine .noObject hv ?_
      cases v with
      | obj members => exact absurd rfl (hother members)
      | _ => rfl
  · intro h
    cases h with
    | unsigned unsigned => rw [unsigned]
    | @noObject v found noObject =>
        rw [found]
        cases v with
        | obj members => cases noObject
        | _ => rfl
    | signature found lacks =>
        rw [found]
        exact Except.bind_eq_error_iff.mpr (.inl (requireFixed_eq_error_iff.mpr lacks))
    | key found listed decodes absent =>
        rw [found]
        refine Except.bind_eq_error_iff.mpr
          (.inr ⟨_, requireFixed_eq_ok_iff.mpr ⟨_, listed, decodes⟩, ?_⟩)
        exact Except.bind_eq_error_iff.mpr (.inl (require_eq_error_iff.mpr ⟨absent, rfl⟩))

lemma Unreadable.not_isSigned {object : Json.Members} (h : Unreadable object e) {key : Json}
    {signature : FixedBytes 64} : ¬ IsSigned object key signature := by
  intro hsigned
  cases (readSignature_eq_ok_iff.mpr hsigned).symm.trans (readSignature_eq_error_iff.mpr h)

/-- The first permission that is not listed is the one that is missed. -/
lemma find?_missing_eq_some_iff {granted : List Json} {needed : List Permission}
    {p : Permission} :
    (needed.find? fun p => !granted.any fun g => g.text? = some p.name) = some p
      ↔ Json.str p.name ∉ granted ∧ ∃ before after, needed = before ++ p :: after
        ∧ ∀ q ∈ before, Json.str q.name ∈ granted := by
  have hlisted (q : Permission) :
      (granted.any fun g => g.text? = some q.name) = true ↔ Json.str q.name ∈ granted := by
    simp [text?_eq_some_iff]
  simp only [List.find?_eq_some_iff_append, Bool.not_eq_eq_eq_not, Bool.not_true,
    ← Bool.not_eq_true, hlisted, not_not]

lemma checkGrants_eq_error_iff {certificate : Json.Members} {needed : List Permission} :
    checkGrants certificate needed = .error e ↔ Ungranted certificate needed e := by
  simp only [checkGrants, Except.bind_eq_error_iff, requireItems_eq_error_iff,
    requireItems_eq_ok_iff]
  constructor
  · rintro (hlacks | ⟨granted, hfound, h⟩)
    · exact .lacks hlacks
    · split at h
      · exact absurd h Except.pure_ne_error
      · rename_i p hp
        obtain rfl := Except.throw_eq_error_iff.mp h
        obtain ⟨hmissing, before, after, hsplit, hbefore⟩ := find?_missing_eq_some_iff.mp hp
        exact .permission hfound hsplit hbefore hmissing
  · rintro (hlacks | ⟨hfound, hsplit, hbefore, hmissing⟩)
    · exact .inl hlacks
    · refine .inr ⟨_, hfound, ?_⟩
      rw [find?_missing_eq_some_iff.mpr ⟨hmissing, _, _, hsplit, hbefore⟩]
      rfl

lemma subject_eq_error_iff {certificate : Json.Members} :
    Signing.subject certificate = .error e ↔ NoSubject certificate e := by
  simp only [Signing.subject, Except.bind_eq_error_iff, require_eq_error_iff, require_eq_ok_iff,
    PublicKey.ofJwk_eq_error_iff]
  constructor
  · rintro (⟨habsent, rfl⟩ | ⟨jwk, hfound, hkey⟩)
    · exact .absent habsent
    · exact .key hfound hkey
  · rintro (habsent | ⟨hfound, hkey⟩)
    · exact .inl ⟨habsent, rfl⟩
    · exact .inr ⟨_, hfound, hkey⟩

/-! ### One hop -/

/-- A certificate is not followed from the object at a hop. -/
inductive NotFollowed (limit hop : ℕ) (certificate : Json.Members) :
    Option (List Permission) → Error → Prop
  /-- No more certificates are followed, whatever is required. -/
  | tooDeep {required : Option (List Permission)} (deep : limit ≤ hop) :
      NotFollowed limit hop certificate required (.chainTooDeep limit)
  /-- No certificates are followed at all. -/
  | notAllowed (shallow : hop < limit) :
      NotFollowed limit hop certificate none .certificateNotAllowed
  /-- It does not grant what is required. -/
  | ungranted {needed : List Permission} {e : Error} (shallow : hop < limit)
      (ungranted : Ungranted certificate needed e) :
      NotFollowed limit hop certificate (some needed) e
  /-- It grants that, but to nobody. -/
  | noSubject {needed : List Permission} {e : Error} (shallow : hop < limit)
      (grants : Grants certificate needed.toFinset) (noSubject : NoSubject certificate e) :
      NotFollowed limit hop certificate (some needed) e

/-- The object at a hop is refused: it is not signed by the root key, nor with a certificate that
is followed. -/
inductive Refused (root : PublicKey .profile) (limit hop : ℕ) (required : Option (List Permission))
    (object : Json.Members) : Error → Prop
  /-- Its signature is not read. -/
  | unreadable {e : Error} (unreadable : Unreadable object e) :
      Refused root limit hop required object e
  /-- Another key than the root key is named. -/
  | otherRoot {id : String} {signature : FixedBytes 64}
      (signed : IsSigned object (.str id) signature) (other : id ≠ root.id) :
      Refused root limit hop required object (.noSuchKey id)
  /-- Neither is a key named nor is there a certificate. -/
  | noKey {key : Json} {signature : FixedBytes 64} (signed : IsSigned object key signature)
      (noText : key.text? = none) (noObject : key.members? = none) :
      Refused root limit hop required object (.wrongType "signature.key")
  /-- There is a certificate that is not followed. -/
  | certificate {certificate : Json.Members} {signature : FixedBytes 64} {e : Error}
      (signed : IsSigned object (.obj certificate) signature)
      (notFollowed : NotFollowed limit hop certificate required e) :
      Refused root limit hop required object e

/-- Errors that are not about the contents of the object or its certificate have three reasons. -/
lemma Refused.reason {hop : ℕ} {required : Option (List Permission)} {object : Json.Members}
    (h : Refused root limit hop required object e) (he : e.isAboutContents = false) :
    (∃ id, e = .noSuchKey id)
      ∨ ∃ certificate signature, IsSigned object (.obj certificate) signature
        ∧ (e = .chainTooDeep limit ∧ limit ≤ hop
          ∨ e = .certificateNotAllowed ∧ hop < limit ∧ required = none) := by
  cases h with
  | unreadable unreadable => exact absurd unreadable.isAboutContents (by rw [he]; decide)
  | @otherRoot id => exact .inl ⟨id, rfl⟩
  | noKey => cases he
  | @certificate certificate signature _ signed notFollowed =>
      refine .inr ⟨certificate, signature, signed, ?_⟩
      cases notFollowed with
      | tooDeep deep => exact .inl ⟨rfl, deep⟩
      | notAllowed shallow => exact .inr ⟨rfl, shallow, rfl⟩
      | ungranted _ ungranted => exact absurd ungranted.isAboutContents (by rw [he]; decide)
      | noSubject _ _ noSubject => exact absurd noSubject.isAboutContents (by rw [he]; decide)

namespace Walk

lemma follow_eq_error_iff {w : Walk} {signature : FixedBytes 64} {certificate : Json.Members} :
    w.follow limit signature certificate = .error e
      ↔ NotFollowed limit w.links.length certificate w.required e := by
  unfold follow
  constructor
  · intro h
    split at h
    · rename_i hdeep
      cases h
      exact .tooDeep hdeep
    · rename_i hshallow
      rw [not_le] at hshallow
      split at h
      · rename_i hnone
        cases h
        rw [hnone]
        exact .notAllowed hshallow
      · rename_i needed hneeded
        simp only [Except.bind_eq_error_iff, checkGrants_eq_error_iff, subject_eq_error_iff,
          Except.pure_ne_error, and_false, exists_false, or_false] at h
        rw [hneeded]
        rcases h with hgrants | ⟨⟨⟩, hgrants, hsubject⟩
        · exact .ungranted hshallow hgrants
        · exact .noSubject hshallow (checkGrants_eq_ok_iff.mp hgrants) hsubject
  · intro h
    generalize hrequired : w.required = required at h
    cases h with
    | tooDeep deep => rw [if_pos deep]
    | notAllowed shallow => rw [if_neg (not_le.mpr shallow)]
    | ungranted shallow ungranted =>
        rw [if_neg (not_le.mpr shallow)]
        exact Except.bind_eq_error_iff.mpr (.inl (checkGrants_eq_error_iff.mpr ungranted))
    | noSubject shallow grants noSubject =>
        rw [if_neg (not_le.mpr shallow)]
        refine Except.bind_eq_error_iff.mpr (.inr ⟨(), checkGrants_eq_ok_iff.mpr grants, ?_⟩)
        exact Except.bind_eq_error_iff.mpr (.inl (subject_eq_error_iff.mpr noSubject))

/-- **A step fails where the current object is refused**, and for that reason. -/
theorem step_eq_error_iff {w : Walk} :
    w.step root limit = .error e ↔ Refused root limit w.links.length w.required w.current e := by
  simp only [step, Except.bind_eq_error_iff, readSignature_eq_error_iff, Prod.exists]
  constructor
  · rintro (hunreadable | ⟨signature, key, hread, h⟩)
    · exact .unreadable hunreadable
    · have hsigned := readSignature_eq_ok_iff.mp hread
      cases key with
      | str id =>
          dsimp only at h
          split at h
          · exact absurd h Except.pure_ne_error
          · rename_i hid
            obtain rfl := Except.throw_eq_error_iff.mp h
            exact .otherRoot hsigned hid
      | obj certificate =>
          simp only [Except.bind_eq_error_iff, follow_eq_error_iff, Except.pure_ne_error,
            and_false, exists_false, or_false] at h
          exact .certificate hsigned h
      | _ =>
          obtain rfl := Except.throw_eq_error_iff.mp h
          exact .noKey hsigned rfl rfl
  · rintro (hunreadable | ⟨hsigned, hother⟩ | ⟨hsigned, htext, hobject⟩ | ⟨hsigned, hfollow⟩)
    · exact .inl hunreadable
    · refine .inr ⟨_, _, readSignature_eq_ok_iff.mpr hsigned, ?_⟩
      exact (if_neg hother).trans rfl
    · refine .inr ⟨_, _, readSignature_eq_ok_iff.mpr hsigned, ?_⟩
      rename_i key _
      cases key with
      | str id => cases htext
      | obj certificate => cases hobject
      | _ => rfl
    · refine .inr ⟨_, _, readSignature_eq_ok_iff.mpr hsigned, ?_⟩
      exact Except.bind_eq_error_iff.mpr (.inl (follow_eq_error_iff.mpr hfollow))

end Walk

/-! ### Many hops -/

/-- So many certificates are followed from an object, each of which grants what is required of it;
then another object is looked at, and something else is required. -/
inductive Climbs : ℕ → Option (List Permission) → Json.Members →
    Option (List Permission) → Json.Members → Prop
  | refl (required : Option (List Permission)) (object : Json.Members) :
      Climbs 0 required object required object
  | certificate {n : ℕ} {needed : List Permission} {object certificate object' : Json.Members}
      {signature : FixedBytes 64} {signer : PublicKey .profile}
      {required' : Option (List Permission)}
      (signed : IsSigned object (.obj certificate) signature)
      (grants : Grants certificate needed.toFinset) (subject : IsSubject certificate signer)
      (rest : Climbs n (some (Permission.escalate needed)) certificate required' object') :
      Climbs (n + 1) (some needed) object required' object'

/-- A walk from an object fails at a hop. -/
def FailsAt (root : PublicKey .profile) (limit : ℕ) (required : Option (List Permission))
    (object : Json.Members) (hop : ℕ) (e : Error) : Prop :=
  ∃ required' object', hop ≤ limit ∧ Climbs hop required object required' object'
    ∧ Refused root limit hop required' object' e

namespace Walk

/-- A walk that fails has followed certificates up to an object that is refused. -/
lemma climbs_of_run {w : Walk} (h : w.run root limit = .error e) (hlimit : w.links.length ≤ limit) :
    ∃ n required' object', w.links.length + n ≤ limit
      ∧ Climbs n w.required w.current required' object'
      ∧ Refused root limit (w.links.length + n) required' object' e := by
  induction w using run.induct root limit with
  | case1 w e' hstep =>
      rw [run_of_step_error hstep] at h
      cases h
      exact ⟨0, _, _, hlimit, .refl _ _, step_eq_error_iff.mp hstep⟩
  | case2 w links hstep =>
      rw [run_of_step_inl hstep] at h
      cases h
  | case3 w next hstep ih =>
      rw [run_of_step_inr hstep] at h
      obtain ⟨needed, certificate, signature, signer, hneeded, hlength, hsigned, hgrants, hsubject,
        rfl⟩ := certificate_of_step hstep
      dsimp only at ih
      rw [length_record] at ih
      obtain ⟨n, required', object', hn, hclimbs, hrefused⟩ := ih h hlength
      have hhop : w.links.length + (n + 1) = w.links.length + 1 + n := by omega
      refine ⟨n + 1, required', object', hhop.trans_le hn, ?_, hhop ▸ hrefused⟩
      rw [hneeded]
      exact .certificate hsigned hgrants hsubject hclimbs

/-- A walk that reaches an object that is refused fails there. -/
lemma run_of_climbs {n : ℕ} {required required' : Option (List Permission)}
    {object object' : Json.Members} (h : Climbs n required object required' object')
    (links : List Link) (hlimit : links.length + n ≤ limit)
    (hrefused : Refused root limit (links.length + n) required' object' e) :
    run root limit ⟨links, required, object⟩ = .error e := by
  induction h generalizing links with
  | refl required object => exact run_of_step_error (step_eq_error_iff.mpr hrefused)
  | @certificate n needed object certificate object' signature signer required' signed grants
      subject _ ih =>
      have hlength : links.length < limit := by omega
      have hhop : links.length + (n + 1) = links.length + 1 + n := by omega
      rw [run_of_step_inr (step_of_certificate (w := ⟨links, some needed, object⟩) rfl hlength
        signed grants subject)]
      refine ih _ ?_ ?_
      · rw [length_record]
        exact hhop.symm.trans_le hlimit
      · rw [length_record]
        exact hhop ▸ hrefused

/-- **A walk fails at a hop**, with the error of that hop. -/
theorem run_eq_error_iff {required : Option (List Permission)} {object : Json.Members} :
    run root limit ⟨[], required, object⟩ = .error e
      ↔ ∃ hop, FailsAt root limit required object hop e := by
  constructor
  · intro h
    obtain ⟨n, required', object', hn, hclimbs, hrefused⟩ := climbs_of_run h (Nat.zero_le _)
    rw [List.length_nil, Nat.zero_add] at hn hrefused
    exact ⟨n, required', object', hn, hclimbs, hrefused⟩
  · rintro ⟨n, required', object', hn, hclimbs, hrefused⟩
    rw [← Nat.zero_add n] at hn hrefused
    exact run_of_climbs hclimbs [] hn hrefused

end Walk

/-! ### One failure -/

/-- An object whose certificate is followed is not refused. -/
lemma Climbs.not_refused {n hop : ℕ} {required required' : Option (List Permission)}
    {object object' : Json.Members} (h : Climbs (n + 1) required object required' object')
    (hhop : hop < limit) : ¬ Refused root limit hop required object e := by
  cases h with
  | certificate signed grants subject _ =>
      intro hrefused
      cases hrefused with
      | unreadable unreadable => exact unreadable.not_isSigned signed
      | otherRoot signed' _ => cases (signed.unique signed').1
      | noKey signed' _ noObject =>
          cases (signed.unique signed').1
          cases noObject
      | certificate signed' notFollowed =>
          cases (signed.unique signed').1
          cases notFollowed with
          | tooDeep deep => exact absurd deep (not_le.mpr hhop)
          | ungranted _ ungranted =>
              cases (checkGrants_eq_ok_iff.mpr grants).symm.trans
                (checkGrants_eq_error_iff.mpr ungranted)
          | noSubject _ _ noSubject =>
              cases (subject_eq_ok_iff.mpr subject).symm.trans
                (subject_eq_error_iff.mpr noSubject)

/-- Two objects on the way are refused only if they are reached after as many certificates. -/
lemma Climbs.hop_unique {n₁ n₂ : ℕ} {required required₁ required₂ : Option (List Permission)}
    {object object₁ object₂ : Json.Members} {e₁ e₂ : Error}
    (h₁ : Climbs n₁ required object required₁ object₁)
    (h₂ : Climbs n₂ required object required₂ object₂) (hop : ℕ) (hn₁ : hop + n₁ ≤ limit)
    (hn₂ : hop + n₂ ≤ limit) (hrefused₁ : Refused root limit (hop + n₁) required₁ object₁ e₁)
    (hrefused₂ : Refused root limit (hop + n₂) required₂ object₂ e₂) : n₁ = n₂ := by
  induction h₁ generalizing n₂ hop with
  | refl required object =>
      cases n₂ with
      | zero => rfl
      | succ n₂ => exact absurd hrefused₁ (h₂.not_refused (by omega))
  | @certificate n₁ needed object certificate object' signature signer required' signed grants
      subject rest ih =>
      cases h₂ with
      | refl =>
          have hclimbs := Climbs.certificate signed grants subject rest
          exact absurd hrefused₂ (hclimbs.not_refused (by omega))
      | @certificate n₂ _ _ _ _ _ _ _ signed' _ _ rest' =>
          cases (signed.unique signed').1
          rw [Nat.add_left_inj]
          have hhop (n : ℕ) : hop + (n + 1) = hop + 1 + n := by omega
          rw [hhop] at hn₁ hn₂ hrefused₁ hrefused₂
          exact ih rest' (hop + 1) hn₁ hn₂ hrefused₁ hrefused₂

/-- **A walk fails at one hop only**, and with one error. -/
theorem FailsAt.unique {required : Option (List Permission)} {object : Json.Members}
    {hop₁ hop₂ : ℕ} {e₁ e₂ : Error} (h₁ : FailsAt root limit required object hop₁ e₁)
    (h₂ : FailsAt root limit required object hop₂ e₂) : hop₁ = hop₂ ∧ e₁ = e₂ := by
  have hrun₁ := Walk.run_eq_error_iff.mpr ⟨_, h₁⟩
  have hrun₂ := Walk.run_eq_error_iff.mpr ⟨_, h₂⟩
  obtain ⟨required₁, object₁, hn₁, hclimbs₁, hrefused₁⟩ := h₁
  obtain ⟨required₂, object₂, hn₂, hclimbs₂, hrefused₂⟩ := h₂
  rw [← Nat.zero_add hop₁] at hn₁ hrefused₁
  rw [← Nat.zero_add hop₂] at hn₂ hrefused₂
  exact ⟨hclimbs₁.hop_unique hclimbs₂ 0 hn₁ hn₂ hrefused₁ hrefused₂,
    Except.error.inj (hrun₁.symm.trans hrun₂)⟩

end Signet.Chain
