import Mathlib.Tactic
import Signet.Proofs.Signature.Path

/-!
When a signed object is accepted, said by recursion along its certificates, and
that the check decides it.

* **Acceptance.** `Accepted` has one constructor for each kind of signer. A
  root key may sign anything. A key with a certificate may sign what the
  certificate grants, if the certificate is accepted in turn, one certificate
  less being allowed there and one permission more asked for (`delegation`).
  The permissions are a finite set, so neither their order nor a repetition
  counts.
* **Two passes in one.** The check first walks to the root key and then turns to
  the signatures. `accepted_iff_exists_path` takes acceptance apart in that way,
  by induction on both sides.
* **The check decides acceptance**: `check_eq_ok_iff_accepted`.
-/

namespace Signet

/-- What the signer of a certificate has to be granted beyond the permissions that the
certificate is used for. -/
def Permission.delegation (required : Finset Permission) : Permission :=
  if grant ∈ required then ca else grant

/-- The permissions asked for one certificate further up are those asked for here and the right
to delegate them. -/
lemma Permission.toFinset_escalate (required : List Permission) :
    (escalate required).toFinset = insert (delegation required.toFinset) required.toFinset := by
  have hdelegation : delegation required.toFinset = if grant ∈ required then ca else grant := by
    simp only [delegation, List.mem_toFinset]
  rw [hdelegation, escalate]
  by_cases hmem : (if grant ∈ required then ca else grant) ∈ required
  · rw [if_pos hmem, Finset.insert_eq_of_mem (List.mem_toFinset.mpr hmem)]
  · rw [if_neg hmem, List.toFinset_append, List.toFinset_cons, List.toFinset_nil,
      Finset.union_comm, Finset.insert_union, Finset.empty_union]

namespace Chain

variable (scheme : SignatureScheme) (root : PublicKey .profile)

/-- **Acceptance of a signed object**, along at most `depth` certificates, for the required
permissions. Without any set of permissions no certificate is accepted. -/
inductive Accepted : ℕ → Option (Finset Permission) → Json.Members → Prop
  | byRoot {depth : ℕ} {required : Option (Finset Permission)} {object : Json.Members}
      {signature : FixedBytes 64} (signed : IsSigned object (.str root.id) signature)
      (verifies : Verifies scheme root signature object) : Accepted depth required object
  | byCertificate {depth : ℕ} {required : Finset Permission}
      {object certificate : Json.Members} {signature : FixedBytes 64}
      {signer : PublicKey .profile} (signed : IsSigned object (.obj certificate) signature)
      (grants : Grants certificate required) (subject : IsSubject certificate signer)
      (accepted : Accepted depth (some (insert (Permission.delegation required) required))
        certificate)
      (verifies : Verifies scheme signer signature object) :
      Accepted (depth + 1) (some required) object

variable {scheme root}

/-- An object signed with a certificate is accepted in one way only. -/
lemma accepted_iff_of_isSigned_certificate {depth : ℕ} {required : Option (Finset Permission)}
    {object certificate : Json.Members} {signature : FixedBytes 64}
    (hsigned : IsSigned object (.obj certificate) signature) {signer : PublicKey .profile}
    (hsubject : IsSubject certificate signer)
    (hverifies : Verifies scheme signer signature object) :
    Accepted scheme root depth required object ↔
      ∃ depth' needed, depth = depth' + 1 ∧ required = some needed ∧ Grants certificate needed
        ∧ Accepted scheme root depth' (some (insert (Permission.delegation needed) needed))
          certificate := by
  constructor
  · intro h
    cases h with
    | byRoot signed _ => cases (hsigned.unique signed).1
    | byCertificate signed grants subject accepted _ =>
        cases (hsigned.unique signed).1
        exact ⟨_, _, rfl, rfl, grants, accepted⟩
  · rintro ⟨depth', needed, rfl, rfl, hgrants, haccepted⟩
    exact .byCertificate hsigned hgrants hsubject haccepted hverifies

/-- Along a path whose signatures verify, the object is accepted. -/
lemma accepted_of_path {depth : ℕ} {required : Option (List Permission)}
    {object : Json.Members} {links : List Link} (hpath : Path root depth required object links)
    (hverify : ∀ l ∈ links, Verifies scheme l.signer l.signature l.object) :
    Accepted scheme root depth (required.map List.toFinset) object := by
  induction hpath with
  | root signed => exact .byRoot signed (hverify _ (List.mem_singleton_self _))
  | certificate signed grants subject _ ih =>
      have haccepted := ih fun l hl => hverify l (List.mem_cons_of_mem _ hl)
      rw [Option.map_some, Permission.toFinset_escalate] at haccepted
      exact .byCertificate signed grants subject haccepted (hverify _ List.mem_cons_self)

/-- An accepted object has a path whose signatures verify, whatever list the required permissions
are given as. -/
lemma exists_path_of_accepted {depth : ℕ} {set : Option (Finset Permission)}
    {object : Json.Members} (h : Accepted scheme root depth set object)
    (required : Option (List Permission)) (hset : required.map List.toFinset = set) :
    ∃ links, Path root depth required object links
      ∧ ∀ l ∈ links, Verifies scheme l.signer l.signature l.object := by
  induction h generalizing required with
  | byRoot signed verifies =>
      exact ⟨_, .root signed, by simpa using verifies⟩
  | byCertificate signed grants subject _ verifies ih =>
      obtain ⟨needed, rfl, rfl⟩ := Option.map_eq_some_iff.mp hset
      obtain ⟨links, hpath, hlinks⟩ := ih (some (Permission.escalate needed))
        (by rw [Option.map_some, Permission.toFinset_escalate])
      exact ⟨_, .certificate signed grants subject hpath, List.forall_mem_cons.mpr
        ⟨verifies, hlinks⟩⟩

/-- Acceptance is a path to the root key and, apart from it, the signatures on the way. -/
lemma accepted_iff_exists_path {depth : ℕ} {required : Option (List Permission)}
    {object : Json.Members} :
    Accepted scheme root depth (required.map List.toFinset) object ↔
      ∃ links, Path root depth required object links
        ∧ ∀ l ∈ links, Verifies scheme l.signer l.signature l.object :=
  ⟨fun h => exists_path_of_accepted h required rfl,
    fun ⟨_, hpath, hlinks⟩ => accepted_of_path hpath hlinks⟩

/-- Verification decides acceptance. -/
lemma verify_eq_true_iff_accepted {v : Verifier} {object : Json.Members}
    {required : Option (List Permission)} : v.verify scheme object root required = true ↔
      Accepted scheme root v.maxDepth (required.map List.toFinset) object := by
  rw [verify_eq_true_iff, check_eq_ok_iff, accepted_iff_exists_path]

end Chain

/-- **The check decides acceptance**: it succeeds on exactly the objects that are accepted along
as many certificates as the verifier follows. -/
theorem Verifier.check_eq_ok_iff_accepted (scheme : SignatureScheme) (v : Verifier)
    (object : Json.Members) (root : PublicKey .profile) (required : Option (List Permission)) :
    v.check scheme object root required = .ok () ↔
      Chain.Accepted scheme root v.maxDepth (required.map List.toFinset) object := by
  rw [Chain.check_eq_ok_iff, Chain.accepted_iff_exists_path]

end Signet
