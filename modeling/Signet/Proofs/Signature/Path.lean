import Mathlib.Tactic
import Signet.Signature.Chain

/-!
What the walk along a chain of certificates finds, and what the checks on the
way mean.

* **The checks.** `IsSigned`, `Grants` and `IsSubject` say of an object what
  reading its signature, its grants and its subject establishes
  (`readSignature_eq_ok_iff`, `checkGrants_eq_ok_iff`, `subject_eq_ok_iff`).
* **The walk.** `Path` are the links from an object to the root key, along a
  bounded number of certificates. `Walk.run_eq_ok_iff`: a walk that has some
  links already ends with these and the links of a path from where it stands.
  The induction is on the walk itself, with the links found so far arbitrary.
* **The signatures.** `Verifies` is what the signature of a link has to satisfy;
  `checkLinks_eq_ok_iff`: all of them are checked.
-/

namespace Signet.Chain

/-! ### The checks on the way -/

/-- An object has a signature, and names a key or a certificate beside it. -/
def IsSigned (object : Json.Members) (key : Json) (signature : FixedBytes 64) : Prop :=
  ∃ (members : Json.Members) (text : String), object.get? "signature" = some (.obj members)
    ∧ members.get? "sig" = some (.str text) ∧ Base64.decode text = .ok signature.toList
    ∧ members.get? "key" = some key

/-- A certificate lists every one of some permissions. -/
def Grants (certificate : Json.Members) (required : Finset Permission) : Prop :=
  ∃ granted, certificate.get? "grant" = some (.arr granted)
    ∧ ∀ p ∈ required, Json.str p.name ∈ granted

/-- A certificate is about a public key. -/
def IsSubject (certificate : Json.Members) (signer : PublicKey .profile) : Prop :=
  ∃ jwk, certificate.get? "publicKey" = some jwk ∧ PublicKey.ofJwk jwk = .ok signer

lemma readSignature_eq_ok_iff {object : Json.Members} {key : Json}
    {signature : FixedBytes 64} :
    readSignature object = .ok (signature, key) ↔ IsSigned object key signature := by
  unfold readSignature IsSigned
  split
  · rename_i h
    simp [h]
  · rename_i members h
    simp only [h, Except.bind_eq_ok_iff, Except.pure_eq_ok_iff, Json.Members.requireFixed_eq_ok_iff,
      Json.Members.require_eq_ok_iff, Prod.mk.injEq, Option.some.injEq, Json.obj.injEq]
    constructor
    · rintro ⟨_, ⟨text, hsig, hdecode⟩, _, hkey, rfl, rfl⟩
      exact ⟨members, text, rfl, hsig, hdecode, hkey⟩
    · rintro ⟨_, text, rfl, hsig, hdecode, hkey⟩
      exact ⟨signature, ⟨text, hsig, hdecode⟩, key, hkey, rfl, rfl⟩
  · rename_i v hne h
    refine ⟨fun herr => by simp at herr, ?_⟩
    rintro ⟨members, _, hmembers, -⟩
    exact absurd (Option.some.inj (h.symm.trans hmembers)) (hne members)

/-- An object says one thing of its signature. -/
lemma IsSigned.unique {object : Json.Members} {key key' : Json}
    {signature signature' : FixedBytes 64} (h : IsSigned object key signature)
    (h' : IsSigned object key' signature') : key = key' ∧ signature = signature' := by
  have heq := (readSignature_eq_ok_iff.mpr h).symm.trans (readSignature_eq_ok_iff.mpr h')
  rw [Except.ok.injEq, Prod.mk.injEq] at heq
  exact ⟨heq.2, heq.1⟩

lemma text?_eq_some_iff {v : Json} {s : String} : v.text? = some s ↔ v = .str s := by
  cases v <;> simp [Json.text?]

/-- A list of required permissions is granted if each of them is listed. -/
lemma checkGrants_eq_ok_iff {certificate : Json.Members} {required : List Permission} :
    checkGrants certificate required = .ok () ↔ Grants certificate required.toFinset := by
  simp only [checkGrants, Grants, Except.bind_eq_ok_iff, Json.Members.requireItems_eq_ok_iff]
  refine exists_congr fun granted => and_congr_right fun _ => ?_
  have hfind : (required.find? fun p => !granted.any fun g => g.text? = some p.name) = none
      ↔ ∀ p ∈ required.toFinset, Json.str p.name ∈ granted := by
    simp [List.find?_eq_none, text?_eq_some_iff]
  rw [← hfind]
  split
  · rename_i hnone
    simp [hnone]
  · rename_i p hsome
    simp [hsome]

lemma subject_eq_ok_iff {certificate : Json.Members} {signer : PublicKey .profile} :
    Signing.subject certificate = .ok signer ↔ IsSubject certificate signer := by
  simp only [Signing.subject, IsSubject, Except.bind_eq_ok_iff, Json.Members.require_eq_ok_iff]

/-! ### The walk -/

/-- The links from an object to the root key along at most `depth` certificates, each of which
grants what is required of it. -/
inductive Path (root : PublicKey .profile) :
    ℕ → Option (List Permission) → Json.Members → List Link → Prop
  | root {depth : ℕ} {required : Option (List Permission)} {object : Json.Members}
      {signature : FixedBytes 64} (signed : IsSigned object (.str root.id) signature) :
      Path root depth required object [⟨object, signature, root⟩]
  | certificate {depth : ℕ} {required : List Permission} {object certificate : Json.Members}
      {signature : FixedBytes 64} {signer : PublicKey .profile} {links : List Link}
      (signed : IsSigned object (.obj certificate) signature)
      (grants : Grants certificate required.toFinset) (subject : IsSubject certificate signer)
      (rest : Path root depth (some (Permission.escalate required)) certificate links) :
      Path root (depth + 1) (some required) object (⟨object, signature, signer⟩ :: links)

namespace Walk

variable {root : PublicKey .profile} {limit : ℕ}

lemma run_of_step_error {w : Walk} {e : Error} (h : w.step root limit = .error e) :
    w.run root limit = .error e := by
  rw [run]
  split <;> simp_all

lemma run_of_step_inl {w : Walk} {links : List Link} (h : w.step root limit = .ok (.inl links)) :
    w.run root limit = .ok links := by
  rw [run]
  split <;> simp_all

lemma run_of_step_inr {w next : Walk} (h : w.step root limit = .ok (.inr next)) :
    w.run root limit = next.run root limit := by
  conv_lhs => rw [run]
  split <;> simp_all

/-- A walk goes on to a certificate that can be followed. -/
lemma step_of_certificate {w : Walk} {needed : List Permission} {certificate : Json.Members}
    {signature : FixedBytes 64} {signer : PublicKey .profile} (hneeded : w.required = some needed)
    (hlimit : w.links.length < limit) (signed : IsSigned w.current (.obj certificate) signature)
    (grants : Grants certificate needed.toFinset) (subject : IsSubject certificate signer) :
    w.step root limit = .ok (.inr
      ⟨w.record signature signer, some (Permission.escalate needed), certificate⟩) := by
  refine step_eq_inr_iff.mpr ⟨signature, certificate, readSignature_eq_ok_iff.mpr signed, ?_⟩
  exact follow_eq_ok_iff.mpr ⟨hlimit, needed, signer, hneeded, checkGrants_eq_ok_iff.mpr grants,
    subject_eq_ok_iff.mpr subject, rfl⟩

/-- A walk that goes on has followed a certificate. -/
lemma certificate_of_step {w next : Walk} (h : w.step root limit = .ok (.inr next)) :
    ∃ needed certificate signature signer, w.required = some needed ∧ w.links.length < limit
      ∧ IsSigned w.current (.obj certificate) signature ∧ Grants certificate needed.toFinset
      ∧ IsSubject certificate signer
      ∧ next = ⟨w.record signature signer, some (Permission.escalate needed), certificate⟩ := by
  obtain ⟨signature, certificate, hread, hfollow⟩ := step_eq_inr_iff.mp h
  obtain ⟨hlimit, needed, signer, hneeded, hgrants, hsubject, rfl⟩ :=
    follow_eq_ok_iff.mp hfollow
  exact ⟨needed, certificate, signature, signer, hneeded, hlimit, readSignature_eq_ok_iff.mp hread,
    checkGrants_eq_ok_iff.mp hgrants, subject_eq_ok_iff.mp hsubject, rfl⟩

lemma length_record (w : Walk) (signature : FixedBytes 64) (signer : PublicKey .profile) :
    (w.record signature signer).length = w.links.length + 1 := by
  rw [record, List.length_append, List.length_singleton]

/-- A walk that ends has added the links of a path to those that it had. -/
lemma path_of_run {w : Walk} {links : List Link} (h : w.run root limit = .ok links) :
    ∃ more, links = w.links ++ more
      ∧ Path root (limit - w.links.length) w.required w.current more := by
  induction w using run.induct root limit with
  | case1 w e hstep =>
      rw [run_of_step_error hstep] at h
      cases h
  | case2 w found hstep =>
      rw [run_of_step_inl hstep] at h
      cases h
      obtain ⟨signature, hread, rfl⟩ := step_eq_inl_iff.mp hstep
      exact ⟨_, rfl, .root (readSignature_eq_ok_iff.mp hread)⟩
  | case3 w next hstep ih =>
      rw [run_of_step_inr hstep] at h
      obtain ⟨more, rfl, hpath⟩ := ih h
      obtain ⟨needed, certificate, signature, signer, hneeded, hlimit, hsigned, hgrants, hsubject,
        rfl⟩ := certificate_of_step hstep
      refine ⟨⟨w.current, signature, signer⟩ :: more, by simp [record], ?_⟩
      have hdepth : limit - w.links.length = limit - (w.links.length + 1) + 1 := by omega
      rw [hneeded, hdepth]
      refine .certificate hsigned hgrants hsubject ?_
      simpa only [length_record] using hpath

/-- A walk takes the path that there is. -/
lemma run_of_path {depth : ℕ} {required : Option (List Permission)} {object : Json.Members}
    {more : List Link} (hpath : Path root depth required object more) (links : List Link)
    (hdepth : links.length + depth = limit) :
    run root limit ⟨links, required, object⟩ = .ok (links ++ more) := by
  induction hpath generalizing links with
  | root signed =>
      exact run_of_step_inl (step_eq_inl_iff.mpr ⟨_, readSignature_eq_ok_iff.mpr signed, rfl⟩)
  | @certificate depth required object certificate signature signer more signed grants subject _
      ih =>
      have hlimit : links.length < limit := by omega
      rw [run_of_step_inr (step_of_certificate (w := ⟨links, some required, object⟩) rfl hlimit
        signed grants subject)]
      have hnext := ih (links ++ [⟨object, signature, signer⟩])
        (by rw [List.length_append, List.length_singleton]; omega)
      rw [List.append_assoc] at hnext
      exact hnext

/-- **The walk from an object finds the path to the root key**, along as many certificates as the
limit allows. -/
theorem run_eq_ok_iff {required : Option (List Permission)} {object : Json.Members}
    {links : List Link} :
    run root limit ⟨[], required, object⟩ = .ok links ↔ Path root limit required object links := by
  constructor
  · intro h
    obtain ⟨more, rfl, hpath⟩ := path_of_run h
    exact hpath
  · intro h
    exact run_of_path h [] (by simp)

end Walk

/-! ### The signatures -/

/-- A key verifies the signature of an object. Three members are never covered by it. -/
def Verifies (scheme : SignatureScheme) (signer : PublicKey .profile)
    (signature : FixedBytes 64) (object : Json.Members) : Prop :=
  scheme.verify signer.point signature
    (Utf8.encode (Canonical.canonicalizeObject object ["private", "seqts", "signature"])) = true

variable {scheme : SignatureScheme}

lemma verify_eq_ok_iff {signer : PublicKey .profile} {signature : FixedBytes 64}
    {message : Bytes} : signer.verify scheme signature message = .ok ()
      ↔ scheme.verify signer.point signature message = true := by
  unfold PublicKey.verify
  split <;> simp_all

/-- All signatures have to verify. -/
lemma checkLinks_eq_ok_iff {links : List Link} :
    checkLinks scheme links = .ok () ↔
      ∀ l ∈ links, Verifies scheme l.signer l.signature l.object := by
  induction links with
  | nil => simp [checkLinks]
  | cons l rest ih =>
      simp only [checkLinks, Except.bind_eq_ok_iff, ih, Link.check, List.forall_mem_cons]
      constructor
      · rintro ⟨_, hl, hrest⟩
        exact ⟨verify_eq_ok_iff.mp hl, hrest⟩
      · rintro ⟨hl, hrest⟩
        exact ⟨(), verify_eq_ok_iff.mpr hl, hrest⟩

/-- A check succeeds if there is a path to the root key, all of whose signatures verify. -/
lemma check_eq_ok_iff {v : Verifier} {object : Json.Members} {root : PublicKey .profile}
    {required : Option (List Permission)} :
    v.check scheme object root required = .ok () ↔
      ∃ links, Path root v.maxDepth required object links
        ∧ ∀ l ∈ links, Verifies scheme l.signer l.signature l.object := by
  simp only [Verifier.check, Except.bind_eq_ok_iff, Walk.run_eq_ok_iff, checkLinks_eq_ok_iff]

/-- Verification is a check that succeeds. -/
lemma verify_eq_true_iff {v : Verifier} {object : Json.Members} {root : PublicKey .profile}
    {required : Option (List Permission)} :
    v.verify scheme object root required = true ↔
      v.check scheme object root required = .ok () := by
  unfold Verifier.verify
  split <;> simp_all

end Signet.Chain
