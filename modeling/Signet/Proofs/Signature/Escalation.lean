import Mathlib.Tactic
import Signet.Proofs.Signature.Delegation

/-!
What each certificate of a chain has to grant, and that asking for less is never refused.

* **The law.** The permissions that are asked for change from one certificate to the next by a rule
  that looks at the permissions themselves. `Permission.mem_iterate_escalate` says what has become
  of them after any number of certificates, by induction on that number; after two the rule adds
  nothing (`Permission.iterate_escalate_add_two`).
* **Chains.** `Certified` are the certificates from an object to the root key with all signatures
  verified, whatever they grant. `exists_certified_of_accepted` and `accepted_of_certified` split
  acceptance into such a chain and what is granted along it, by induction on either side.
* **The closed form**: `Verifier.check_eq_ok_iff_grants`.
* **Asking for less.** `Permission.insert_delegation_subset` is the step from one certificate to the
  next: the rule may add another permission for fewer ones, but only one that is asked for
  anyway. `Accepted.mono` carries it along a chain to `Verifier.verify_mono`.
-/

namespace Signet

/-! ### The law -/

namespace Permission

variable {required : List Permission}

lemma mem_escalate {p : Permission} :
    p ∈ escalate required ↔ p ∈ required ∨ p = if grant ∈ required then ca else grant := by
  rw [← List.mem_toFinset, toFinset_escalate, Finset.mem_insert, List.mem_toFinset, or_comm]
  simp only [delegation, List.mem_toFinset]

/-- Two certificates up both the right to delegate and the right to delegate that are asked for. -/
lemma mem_escalate_escalate {p : Permission} :
    p ∈ escalate (escalate required) ↔ p ∈ required ∨ p = grant ∨ p = ca := by
  by_cases hgrant : grant ∈ required
  · have hp : p = grant → p ∈ required := fun h => h ▸ hgrant
    simp only [mem_escalate, hgrant, true_or, if_true, or_assoc, or_self]
    rw [← or_assoc, or_iff_left_of_imp hp]
  · simp [mem_escalate, hgrant, or_assoc]

/-- Nothing is added where both are asked for already. -/
lemma escalate_eq_self (hgrant : grant ∈ required) (hca : ca ∈ required) :
    escalate required = required := by
  rw [escalate, if_pos hgrant, if_pos hca]

/-- **Two certificates up the permissions no longer change.** -/
theorem iterate_escalate_add_two (n : ℕ) (required : List Permission) :
    escalate^[n + 2] required = escalate^[2] required := by
  rw [Function.iterate_add_apply]
  refine Function.iterate_fixed (escalate_eq_self ?_ ?_) n
  · exact mem_escalate_escalate.mpr (.inr (.inl rfl))
  · exact mem_escalate_escalate.mpr (.inr (.inr rfl))

/-- **The permissions that the certificate with the number `i` is asked for**: those asked for at
first, `grant` from the second certificate on, and `ca` from the third one on, or from the second
one on if `grant` was asked for at first. -/
theorem mem_iterate_escalate (i : ℕ) {p : Permission} :
    p ∈ escalate^[i] required ↔
      p ∈ required ∨ 1 ≤ i ∧ p = grant ∨ (2 ≤ i ∨ 1 ≤ i ∧ grant ∈ required) ∧ p = ca := by
  rcases i with - | - | n
  · simp
  · rw [Nat.zero_add, Function.iterate_one, mem_escalate]
    by_cases hgrant : grant ∈ required
    · have hp : p = grant → p ∈ required := fun h => h ▸ hgrant
      simp only [hgrant, if_true, le_refl, true_and, or_true]
      rw [← or_assoc, or_iff_left_of_imp hp]
    · simp [hgrant]
  · rw [iterate_escalate_add_two]
    simpa using mem_escalate_escalate

/-- Who asks for less at one certificate asks for less at the next one. -/
lemma insert_delegation_subset {s t : Finset Permission} (h : s ⊆ t) :
    insert (delegation s) s ⊆ insert (delegation t) t := by
  have hmem : delegation s ∈ insert (delegation t) t := by
    by_cases hs : grant ∈ s
    · rw [delegation, delegation, if_pos hs, if_pos (h hs)]
      exact Finset.mem_insert_self _ _
    · rw [delegation, delegation, if_neg hs]
      -- Only here may the two add different permissions, and `grant` is then in the larger set.
      split
      · rename_i ht
        exact Finset.mem_insert_of_mem ht
      · exact Finset.mem_insert_self _ _
  exact Finset.insert_subset hmem (h.trans (Finset.subset_insert _ _))

end Permission

namespace Chain

variable {scheme : SignatureScheme} {root : PublicKey .profile}

/-! ### Chains -/

variable (scheme root) in
/-- The certificates from an object to the root key, that of the object's own key first. Every
signature on the way verifies. -/
inductive Certified : Json.Members → List Json.Members → Prop
  | byRoot {object : Json.Members} {signature : FixedBytes 64}
      (signed : IsSigned object (.str root.id) signature)
      (verifies : Verifies scheme root signature object) : Certified object []
  | byCertificate {object certificate : Json.Members} {certificates : List Json.Members}
      {signature : FixedBytes 64} {signer : PublicKey .profile}
      (signed : IsSigned object (.obj certificate) signature)
      (subject : IsSubject certificate signer)
      (verifies : Verifies scheme signer signature object)
      (rest : Certified certificate certificates) : Certified object (certificate :: certificates)

/-- An object has one chain of certificates. -/
lemma Certified.unique {object : Json.Members} {certificates certificates' : List Json.Members}
    (h : Certified scheme root object certificates)
    (h' : Certified scheme root object certificates') : certificates = certificates' := by
  induction h generalizing certificates' with
  | byRoot signed _ =>
      cases h' with
      | byRoot _ _ => rfl
      | byCertificate signed' _ _ _ => cases (signed.unique signed').1
  | byCertificate signed _ _ _ ih =>
      cases h' with
      | byRoot signed' _ => cases (signed.unique signed').1
      | byCertificate signed' _ _ rest' =>
          cases (signed.unique signed').1
          rw [ih rest']

/-- Permissions are granted together if each is granted alone. -/
lemma grants_iff_forall {certificate : Json.Members} {required : Finset Permission} :
    Grants certificate required ↔
      Grants certificate ∅ ∧ ∀ p ∈ required, Grants certificate {p} := by
  constructor
  · rintro ⟨granted, hget, hall⟩
    refine ⟨⟨granted, hget, by simp⟩, fun p hp => ⟨granted, hget, ?_⟩⟩
    simpa using hall p hp
  · rintro ⟨⟨granted, hget, -⟩, hall⟩
    refine ⟨granted, hget, fun p hp => ?_⟩
    obtain ⟨granted', hget', hp'⟩ := hall p hp
    rw [hget] at hget'
    cases hget'
    exact hp' p (Finset.mem_singleton_self p)

/-- What the certificate with the number `i` has to grant, permission by permission. -/
lemma grants_iterate_escalate_iff {certificate : Json.Members} {required : List Permission}
    (i : ℕ) : Grants certificate (Permission.escalate^[i] required).toFinset ↔
      Grants certificate required.toFinset ∧ (1 ≤ i → Grants certificate {Permission.grant})
        ∧ (2 ≤ i ∨ 1 ≤ i ∧ .grant ∈ required → Grants certificate {Permission.ca}) := by
  rw [grants_iff_forall, @grants_iff_forall certificate required.toFinset]
  have hone (needed : Prop) (q : Permission) : (∀ p, needed ∧ p = q → Grants certificate {p}) ↔
      (needed → Grants certificate {q}) :=
    ⟨fun h hneeded => h q ⟨hneeded, rfl⟩, fun h p hp => hp.2 ▸ h hp.1⟩
  rw [← hone, ← hone, and_assoc, ← forall_and, ← forall_and]
  simp only [List.mem_toFinset, Permission.mem_iterate_escalate, or_imp]

/-- An accepted object has a chain that grants enough, whatever list the required permissions are
given as. -/
lemma exists_certified_of_accepted {depth : ℕ} {set : Option (Finset Permission)}
    {object : Json.Members} (h : Accepted scheme root depth set object)
    (required : List Permission) (hset : set = some required.toFinset) :
    ∃ certificates, Certified scheme root object certificates ∧ certificates.length ≤ depth
      ∧ ∀ i (h : i < certificates.length),
        Grants certificates[i] (Permission.escalate^[i] required).toFinset := by
  induction h generalizing required with
  | byRoot signed verifies =>
      exact ⟨[], .byRoot signed verifies, Nat.zero_le _, fun i hi => absurd hi i.not_lt_zero⟩
  | byCertificate signed grants subject _ verifies ih =>
      cases hset
      obtain ⟨certificates, hrest, hlength, hgrants⟩ := ih (Permission.escalate required)
        (by rw [Permission.toFinset_escalate])
      refine ⟨_ :: certificates, .byCertificate signed subject verifies hrest,
        Nat.succ_le_succ hlength, fun i hi => ?_⟩
      cases i with
      | zero => exact grants
      | succ i => exact hgrants i (Nat.lt_of_succ_lt_succ hi)

/-- An object whose chain is short enough and grants enough is accepted. -/
lemma accepted_of_certified {depth : ℕ} {required : List Permission} {object : Json.Members}
    {certificates : List Json.Members} (h : Certified scheme root object certificates)
    (hlength : certificates.length ≤ depth)
    (hgrants : ∀ i (h : i < certificates.length),
      Grants certificates[i] (Permission.escalate^[i] required).toFinset) :
    Accepted scheme root depth (some required.toFinset) object := by
  induction h generalizing depth required with
  | byRoot signed verifies => exact .byRoot signed verifies
  | @byCertificate object certificate certificates signature signer signed subject verifies _ ih =>
      obtain ⟨depth, rfl⟩ := Nat.exists_eq_add_of_le' (Nat.le_of_add_left_le hlength)
      have haccepted : Accepted scheme root depth
          (some (Permission.escalate required).toFinset) certificate :=
        ih (Nat.le_of_succ_le_succ hlength) fun i hi => hgrants (i + 1) (Nat.succ_lt_succ hi)
      rw [Permission.toFinset_escalate] at haccepted
      exact .byCertificate signed (hgrants 0 (Nat.succ_pos _)) subject haccepted verifies

/-! ### Asking for less -/

/-- **An object that is accepted is also accepted** along more certificates and for fewer
permissions, an object that was accepted without any for all of them. -/
theorem Accepted.mono {depth depth' : ℕ} {required required' : Option (Finset Permission)}
    {object : Json.Members} (h : Accepted scheme root depth required object)
    (hdepth : depth ≤ depth') (hrequired : ∀ t ∈ required, ∃ s ∈ required', s ⊆ t) :
    Accepted scheme root depth' required' object := by
  induction h generalizing depth' required' with
  | byRoot signed verifies => exact .byRoot signed verifies
  | byCertificate signed grants subject _ verifies ih =>
      obtain ⟨depth', rfl⟩ := Nat.exists_eq_add_of_le' (Nat.le_of_add_left_le hdepth)
      obtain ⟨s, hs, hsubset⟩ := hrequired _ rfl
      cases hs
      obtain ⟨granted, hget, hall⟩ := grants
      refine .byCertificate signed ⟨granted, hget, fun p hp => hall p (hsubset hp)⟩ subject
        (ih (Nat.le_of_succ_le_succ hdepth) ?_) verifies
      rintro _ ⟨⟩
      exact ⟨_, rfl, Permission.insert_delegation_subset hsubset⟩

/-- Without permissions only a root key is accepted, and it is for everything. -/
lemma Accepted.of_none {depth : ℕ} {object : Json.Members}
    (h : Accepted scheme root depth none object) (depth' : ℕ)
    (required : Option (Finset Permission)) : Accepted scheme root depth' required object := by
  cases h with
  | byRoot signed verifies => exact .byRoot signed verifies

end Chain

open Chain in
/-- **What a chain of certificates has to grant.** An object is accepted for some required
permissions if and only if it has a chain of no more certificates than the verifier follows, on
which every certificate grants those permissions, every one but the first `grant` as well, and
every one from the third on `ca` too, or from the second on if `grant` is among those required.
The permissions asked for do not change after two certificates, and neither the order of those
required nor a repetition counts. -/
theorem Verifier.check_eq_ok_iff_grants (scheme : SignatureScheme) (v : Verifier)
    (object : Json.Members) (root : PublicKey .profile) (required : List Permission) :
    (v.check scheme object root (some required) = .ok () ↔
      ∃ certificates, Certified scheme root object certificates
        ∧ certificates.length ≤ v.maxDepth
        ∧ ∀ i (h : i < certificates.length), Grants certificates[i] required.toFinset
          ∧ (1 ≤ i → Grants certificates[i] {Permission.grant})
          ∧ (2 ≤ i ∨ 1 ≤ i ∧ .grant ∈ required → Grants certificates[i] {Permission.ca}))
    ∧ (∀ certificates certificates', Certified scheme root object certificates →
      Certified scheme root object certificates' → certificates = certificates')
    ∧ (∀ n, Permission.escalate^[n + 2] required = Permission.escalate^[2] required)
    ∧ ∀ required' : List Permission, required'.toFinset = required.toFinset →
      (v.check scheme object root (some required') = .ok () ↔
        v.check scheme object root (some required) = .ok ()) := by
  have hcheck (required : List Permission) : v.check scheme object root (some required) = .ok () ↔
      Accepted scheme root v.maxDepth (some required.toFinset) object :=
    verify_eq_true_iff.symm.trans verify_eq_true_iff_accepted
  refine ⟨?_, fun _ _ h h' => h.unique h', fun n => Permission.iterate_escalate_add_two n required,
    fun required' hsame => by rw [hcheck, hcheck, hsame]⟩
  simp only [hcheck, ← grants_iterate_escalate_iff]
  constructor
  · intro h
    exact exists_certified_of_accepted h required rfl
  · rintro ⟨certificates, hcertified, hlength, hgrants⟩
    exact accepted_of_certified hcertified hlength hgrants

open Chain in
/-- **Verification is monotone.** What is verified for some permissions along some certificates is
verified for any of these permissions along more certificates, and what is verified without any
permissions is verified for all. -/
theorem Verifier.verify_mono (scheme : SignatureScheme) (object : Json.Members)
    (root : PublicKey .profile) :
    (∀ depth depth' required required', depth ≤ depth' → required' ⊆ required →
      (Verifier.mk depth).verify scheme object root (some required) = true →
        (Verifier.mk depth').verify scheme object root (some required') = true)
    ∧ ∀ depth, (Verifier.mk depth).verify scheme object root none = true →
      ∀ depth' required, (Verifier.mk depth').verify scheme object root required = true := by
  simp only [verify_eq_true_iff_accepted]
  constructor
  · intro depth depth' required required' hdepth hsubset h
    have hfinset : required'.toFinset ⊆ required.toFinset := fun p hp =>
      List.mem_toFinset.mpr (hsubset (List.mem_toFinset.mp hp))
    refine h.mono hdepth ?_
    rintro _ ⟨⟩
    exact ⟨_, rfl, hfinset⟩
  · intro depth h depth' required
    exact h.of_none depth' _

open Signing Chain in
/-- Along `leaf` and `middle` a post is verified for posting and issuing certificates, which asks
`middle` for `ca`; so it is for posting alone, which does not. -/
theorem Verifier.verify_post_of_verify_grant :
    let root : KeyPair .profile := .ofSecret recorded.publicOf "root" (.ofNatBE 32 1)
    let post : Json.Members := .ofList [("type", .str "post")]
    ∃ signed, signUnder recorded root post [.leaf, .middle] = (signed, none)
      ∧ (Verifier.mk 2).verify recorded signed root.publicKey (some [.post, .grant]) = true
      ∧ (Verifier.mk 3).verify recorded signed root.publicKey (some [.post]) = true := by
  intro root post
  have hsound : recorded.Sound := SignatureScheme.sound_ofRecords _
  have hunsigned : post.get? "signature" = none := rfl
  obtain ⟨v, hv⟩ := signUnder_eq_insert recorded root hunsigned [.leaf, .middle]
  have hverify : (Verifier.mk 2).verify recorded _ root.publicKey (some [.post, .grant]) = true :=
    (verify_of_signUnder_iff hsound hunsigned hv 2 [.post, .grant]).mpr
      ⟨le_rfl, by decide, by decide, trivial⟩
  exact ⟨_, hv, hverify, (verify_mono recorded _ root.publicKey).1 2 3 _ _ (by decide) (by decide)
    hverify⟩

end Signet
