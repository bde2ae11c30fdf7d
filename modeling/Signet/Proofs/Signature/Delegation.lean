import Mathlib.Tactic
import Signet.Proofs.Key.Export
import Signet.Proofs.Signature.Acceptance
import Signet.Proofs.Signature.Signed

/-!
Chains of certificates that are made with the library itself, and which of them
are accepted.

* **The chain.** A `Delegation` is a key made from a seed, with what is granted
  to it. Of some delegations in a row each certificate is signed with the key of
  the next one, and the last with the root key (`certify`); an object is then
  signed with the key of the first one (`signUnder`).
* **It can be made.** `certify_eq_ok`, `signUnder_eq_insert`: every signing on
  the way succeeds, and adds nothing but a signature.
* **It is accepted if it grants enough.** `accepted_signUnder_iff` goes along the
  row with the permissions that are asked for, escalated at each certificate;
  `sufficient_iff` says of each certificate by its number what that comes to.
* `Verifier.verify_signUnder` states all of it. A chain of two certificates that
  were made with Ed25519 is an instance.
-/

namespace Signet

namespace Signing

open Chain Json.Members

/-- A key that is made from a seed, and what its certificate grants. -/
structure Delegation where
  /-- The key id. -/
  id : String
  /-- The seed. -/
  seed : FixedBytes 32
  /-- What is granted to the key. -/
  grants : List Permission

namespace Delegation

variable (scheme : SignatureScheme) (d : Delegation)

/-- The key pair of a delegation. -/
def pair : KeyPair .profile := .ofSecret scheme.publicOf d.id d.seed

/-- Its certificate before it is signed. -/
def body : Json.Members := certificateBody (d.pair scheme).publicKey d.grants

end Delegation

section

variable (scheme : SignatureScheme) (root : KeyPair .profile)

/-- The certificate of a delegation, signed with the key of the next one, or with the root key
after the last. -/
def certify (d : Delegation) : List Delegation → Except Error Json.Members
  | [] => issueCertificate scheme (d.pair scheme).publicKey d.grants root
  | issuer :: rest => do
    let certificate ← certify issuer rest
    (signWithCertificate scheme (d.body scheme) (issuer.pair scheme) certificate).toExcept

/-- An object signed with the key of the first delegation, or with the root key if there is
none. -/
def signUnder (object : Json.Members) : List Delegation → Outcome
  | [] => sign scheme object root
  | d :: rest =>
    match certify scheme root d rest with
    | .ok certificate => signWithCertificate scheme object (d.pair scheme) certificate
    | .error e => (object, some e)

end

variable {scheme : SignatureScheme} {root : KeyPair .profile}

/-! ### The chain can be made -/

lemma get?_body (d : Delegation) :
    (d.body scheme).get? "publicKey" = some (d.pair scheme).publicKey.toJwk
      ∧ (d.body scheme).get? "grant" = some (.arr (d.grants.map fun p => .str p.name))
      ∧ (d.body scheme).get? "signature" = none :=
  get?_certificateBody _ _

/-- A signed certificate is about the key that it was made for. -/
lemma isSubject_insert_body (d : Delegation) (v : Json) :
    IsSubject ((d.body scheme).insert "signature" v) (d.pair scheme).publicKey := by
  refine ⟨(d.pair scheme).publicKey.toJwk, ?_, Jwk.Form.ofJwk_toJwk (.publicKey .profile) _⟩
  rw [get?_insert_of_ne (by simp)]
  exact (get?_body d).1

/-- A signed certificate grants what it was made to grant. -/
lemma grants_insert_body_iff (d : Delegation) (v : Json) (required : List Permission) :
    Grants ((d.body scheme).insert "signature" v) required.toFinset ↔ required ⊆ d.grants := by
  have hget : get? "grant" ((d.body scheme).insert "signature" v)
      = some (.arr (d.grants.map fun p => .str p.name)) := by
    rw [get?_insert_of_ne (by simp)]
    exact (get?_body d).2.1
  have hinjective : Function.Injective fun p : Permission => Json.str p.name := by
    rintro ⟨name⟩ ⟨name'⟩ heq
    cases heq
    rfl
  constructor
  · rintro ⟨granted, hgranted, hall⟩ p hp
    rw [hget] at hgranted
    cases hgranted
    exact (List.mem_map_of_injective hinjective).mp (hall p (List.mem_toFinset.mpr hp))
  · intro h
    exact ⟨_, hget, fun p hp => List.mem_map_of_mem (h (List.mem_toFinset.mp hp))⟩

/-- A certificate is its body, signed along the rest of the chain. -/
lemma certify_eq_toExcept (d : Delegation) (rest : List Delegation) :
    certify scheme root d rest = (signUnder scheme root (d.body scheme) rest).toExcept := by
  cases rest with
  | nil => rfl
  | cons issuer rest =>
      rw [certify, signUnder]
      cases certify scheme root issuer rest <;> rfl

/-- An object signed with the root key. -/
lemma signUnder_nil {object : Json.Members} (h : object.get? "signature" = none) :
    signUnder scheme root object [] = (object.insert "signature"
      (signatureJson (.str root.id) (root.sign scheme (signedBytes object))), none) := by
  rw [signUnder, sign, attach_of_unsigned h]

/-- An object signed along a chain, the certificate that the chain begins with being made. -/
lemma signUnder_of_certify {object : Json.Members} (h : object.get? "signature" = none)
    {d : Delegation} {rest : List Delegation} {v : Json}
    (hv : certify scheme root d rest = .ok ((d.body scheme).insert "signature" v)) :
    signUnder scheme root object (d :: rest) = (object.insert "signature"
      (signatureJson (.obj ((d.body scheme).insert "signature" v))
        (scheme.sign d.seed (signedBytes object))), none) := by
  rw [signUnder, hv]
  dsimp only
  rw [signWithCertificate_of_subject (isSubject_insert_body d v) rfl, attach_of_unsigned h]
  rfl

variable (scheme root) in
/-- **Every certificate of a chain can be made**, and is its body with a signature. -/
theorem certify_eq_ok (d : Delegation) (rest : List Delegation) :
    ∃ v, certify scheme root d rest = .ok ((d.body scheme).insert "signature" v) := by
  have hbody (d : Delegation) : (d.body scheme).get? "signature" = none := (get?_body d).2.2
  induction rest generalizing d with
  | nil =>
      rw [certify_eq_toExcept, signUnder_nil (hbody d)]
      exact ⟨_, rfl⟩
  | cons issuer rest ih =>
      obtain ⟨v, hv⟩ := ih issuer
      rw [certify_eq_toExcept, signUnder_of_certify (hbody d) hv]
      exact ⟨_, rfl⟩

variable (scheme root) in
/-- So can the object be signed along it. -/
lemma signUnder_eq_insert {object : Json.Members} (h : object.get? "signature" = none)
    (ds : List Delegation) :
    ∃ v, signUnder scheme root object ds = (object.insert "signature" v, none) := by
  cases ds with
  | nil => exact ⟨_, signUnder_nil h⟩
  | cons d rest =>
      obtain ⟨v, hv⟩ := certify_eq_ok scheme root d rest
      exact ⟨_, signUnder_of_certify h hv⟩

/-! ### What it is accepted for -/

/-- Every certificate of a chain grants the permissions that are asked for where it stands. -/
def Sufficient : List Permission → List Delegation → Prop
  | _, [] => True
  | required, d :: rest =>
    required ⊆ d.grants ∧ Sufficient (Permission.escalate required) rest

/-- The certificate with the number `i` has to grant the permissions escalated `i` times. -/
lemma sufficient_iff {required : List Permission} {ds : List Delegation} :
    Sufficient required ds ↔
      ∀ i (h : i < ds.length), Permission.escalate^[i] required ⊆ ds[i].grants := by
  induction ds generalizing required with
  | nil => simp [Sufficient]
  | cons d rest ih =>
      rw [Sufficient, ih]
      constructor
      · rintro ⟨hd, hrest⟩ i hi
        cases i with
        | zero => exact hd
        | succ i => exact hrest i (Nat.lt_of_succ_lt_succ hi)
      · intro h
        exact ⟨h 0 (Nat.succ_pos _), fun i hi => h (i + 1) (Nat.succ_lt_succ hi)⟩

variable {id : String} {seed : FixedBytes 32}

/-- An object signed with a root key is accepted, whatever is required. -/
lemma accepted_signUnder_nil (hscheme : scheme.Sound) {object : Json.Members}
    (h : object.get? "signature" = none) (depth : ℕ) (required : Option (Finset Permission)) :
    Accepted scheme (KeyPair.ofSecret scheme.publicOf id seed).publicKey depth required
      (signUnder scheme (.ofSecret scheme.publicOf id seed) object []).1 := by
  rw [signUnder_nil h]
  exact .byRoot (isSigned_insert _ _ _) (verifies_insert hscheme h _ _ _)

/-- An object signed with a certificate is accepted if the certificate grants what is required
and is accepted itself. -/
lemma accepted_signUnder_cons_iff (hscheme : scheme.Sound) {object : Json.Members}
    (h : object.get? "signature" = none) (depth : ℕ) (required : Option (List Permission))
    (d : Delegation) (rest : List Delegation) :
    Accepted scheme root.publicKey depth (required.map List.toFinset)
        (signUnder scheme root object (d :: rest)).1 ↔
      ∃ depth' needed, depth = depth' + 1 ∧ required = some needed ∧ needed ⊆ d.grants
        ∧ Accepted scheme root.publicKey depth'
          (some (Permission.escalate needed).toFinset)
          (signUnder scheme root (d.body scheme) rest).1 := by
  obtain ⟨v, hv⟩ := certify_eq_ok scheme root d rest
  have hcertificate : (signUnder scheme root (d.body scheme) rest).1
      = (d.body scheme).insert "signature" v := by
    obtain ⟨v', hv'⟩ := signUnder_eq_insert scheme root (get?_body d).2.2 rest
    rw [certify_eq_toExcept, hv'] at hv
    rw [hv']
    exact Except.ok.inj hv
  rw [signUnder_of_certify h hv, hcertificate, accepted_iff_of_isSigned_certificate
    (isSigned_insert _ _ _) (isSubject_insert_body d v) (verifies_insert hscheme h d.id d.seed _)]
  constructor
  · rintro ⟨depth', needed, hdepth, hneeded, hgrants, haccepted⟩
    obtain ⟨list, rfl, rfl⟩ := Option.map_eq_some_iff.mp hneeded
    rw [← Permission.toFinset_escalate] at haccepted
    exact ⟨depth', list, hdepth, rfl, (grants_insert_body_iff d v list).mp hgrants, haccepted⟩
  · rintro ⟨depth', list, hdepth, rfl, hgrants, haccepted⟩
    rw [Permission.toFinset_escalate] at haccepted
    exact ⟨depth', list.toFinset, hdepth, rfl, (grants_insert_body_iff d v list).mpr hgrants,
      haccepted⟩

/-- **A chain is accepted if it is short enough and every certificate grants enough.** -/
theorem accepted_signUnder_iff (hscheme : scheme.Sound) {object : Json.Members}
    (h : object.get? "signature" = none) (depth : ℕ) (required : List Permission)
    (ds : List Delegation) :
    Accepted scheme (KeyPair.ofSecret scheme.publicOf id seed).publicKey depth
        (some required.toFinset)
        (signUnder scheme (.ofSecret scheme.publicOf id seed) object ds).1 ↔
      ds.length ≤ depth ∧ Sufficient required ds := by
  induction ds generalizing object depth required with
  | nil =>
      have haccepted : Accepted scheme (KeyPair.ofSecret scheme.publicOf id seed).publicKey depth
          (some required.toFinset) _ := accepted_signUnder_nil hscheme h depth _
      simpa [Sufficient] using haccepted
  | cons d rest ih =>
      have hcons := @accepted_signUnder_cons_iff scheme (.ofSecret scheme.publicOf id seed)
        hscheme object h depth (some required) d rest
      rw [Option.map_some] at hcons
      rw [hcons, Sufficient, List.length_cons]
      constructor
      · rintro ⟨depth', needed, rfl, hneeded, hgrants, haccepted⟩
        cases hneeded
        obtain ⟨hlength, hrest⟩ := (ih (get?_body d).2.2 depth' _).mp haccepted
        exact ⟨Nat.succ_le_succ hlength, hgrants, hrest⟩
      · rintro ⟨hlength, hgrants, hrest⟩
        obtain ⟨depth', rfl⟩ := Nat.exists_eq_add_of_le' (Nat.le_of_add_left_le hlength)
        exact ⟨depth', required, rfl, rfl, hgrants,
          (ih (get?_body d).2.2 depth' _).mpr ⟨Nat.le_of_succ_le_succ hlength, hrest⟩⟩

/-- What was signed along a chain is verified if the chain is short enough and grants enough. -/
lemma verify_of_signUnder_iff (hscheme : scheme.Sound) {object signed : Json.Members}
    (h : object.get? "signature" = none) {ds : List Delegation}
    (hsigned : signUnder scheme (.ofSecret scheme.publicOf id seed) object ds = (signed, none))
    (depth : ℕ) (required : List Permission) :
    (Verifier.mk depth).verify scheme signed (KeyPair.ofSecret scheme.publicOf id seed).publicKey
        (some required) = true ↔ ds.length ≤ depth ∧ Sufficient required ds := by
  have haccepted := @accepted_signUnder_iff scheme id seed hscheme object h depth required ds
  rw [hsigned] at haccepted
  rw [verify_eq_true_iff_accepted, Option.map_some, haccepted]

/-- If nothing is asked for, only the root key may have signed. -/
lemma accepted_signUnder_none_iff (hscheme : scheme.Sound) {object : Json.Members}
    (h : object.get? "signature" = none) (depth : ℕ) (ds : List Delegation) :
    Accepted scheme (KeyPair.ofSecret scheme.publicOf id seed).publicKey depth none
        (signUnder scheme (.ofSecret scheme.publicOf id seed) object ds).1 ↔ ds = [] := by
  cases ds with
  | nil => exact iff_of_true (accepted_signUnder_nil hscheme h depth none) rfl
  | cons d rest =>
      have hcons := @accepted_signUnder_cons_iff scheme (.ofSecret scheme.publicOf id seed)
        hscheme object h depth none d rest
      rw [Option.map_none] at hcons
      refine iff_of_false (fun haccepted => ?_) (List.cons_ne_nil d rest)
      obtain ⟨_, _, _, hneeded, _⟩ := hcons.mp haccepted
      cases hneeded

end Signing

open Signing Chain in
/-- **What is signed along a chain of certificates is verified for what the chain grants.** Every
signing succeeds and adds nothing but a signature. The verifier accepts the object for some
required permissions if it follows as many certificates as there are, and each of them grants the
permissions escalated once for every certificate before it; without permissions it accepts none.
Nothing that is signed is signed again, nor is anything signed with a certificate for another
key. -/
theorem Verifier.verify_signUnder (scheme : SignatureScheme) (hscheme : scheme.Sound)
    (id : String) (seed : FixedBytes 32) (ds : List Delegation) (object : Json.Members)
    (hunsigned : object.get? "signature" = none) :
    let root : KeyPair .profile := .ofSecret scheme.publicOf id seed
    (∀ d rest, ∃ certificate, certify scheme root d rest = .ok certificate
      ∧ AddsSignature (d.body scheme) certificate)
    ∧ (∃ signed, signUnder scheme root object ds = (signed, none) ∧ AddsSignature object signed
      ∧ (∀ depth required, (Verifier.mk depth).verify scheme signed root.publicKey (some required)
          = true ↔ ds.length ≤ depth
            ∧ ∀ i (h : i < ds.length), Permission.escalate^[i] required ⊆ ds[i].grants)
      ∧ ∀ depth, (Verifier.mk depth).verify scheme signed root.publicKey none = true ↔ ds = [])
    ∧ (∀ (signed : Json.Members) (pair : KeyPair .profile) (certificate : Json.Members),
      signed.contains "signature" = true →
        (∃ e, sign scheme signed pair = (signed, some e))
        ∧ ∃ e, signWithCertificate scheme signed pair certificate = (signed, some e))
    ∧ ∀ (other : Json.Members) (pair : KeyPair .profile) (certificate : Json.Members),
      (∀ signer, IsSubject certificate signer → signer.point ≠ pair.point) →
        ∃ e, signWithCertificate scheme other pair certificate = (other, some e) := by
  intro root
  refine ⟨fun d rest => ?_, ?_, fun signed pair certificate hsigned => ?_,
    fun other pair certificate hother => signWithCertificate_of_other hother⟩
  · obtain ⟨v, hv⟩ := certify_eq_ok scheme root d rest
    exact ⟨_, hv, addsSignature_insert (get?_body d).2.2 v⟩
  · obtain ⟨v, hv⟩ := signUnder_eq_insert scheme root hunsigned ds
    refine ⟨_, hv, addsSignature_insert hunsigned v, fun depth required => ?_, fun depth => ?_⟩
    · have haccepted : Accepted scheme root.publicKey depth _ (signUnder scheme root object ds).1
          ↔ _ := accepted_signUnder_iff hscheme hunsigned depth required ds
      rw [hv] at haccepted
      rw [verify_eq_true_iff_accepted, Option.map_some, haccepted, sufficient_iff]
    · have haccepted : Accepted scheme root.publicKey depth _ (signUnder scheme root object ds).1
          ↔ _ := accepted_signUnder_none_iff hscheme hunsigned depth ds
      rw [hv] at haccepted
      rw [verify_eq_true_iff_accepted, Option.map_none, haccepted]
  · exact ⟨⟨_, attach_of_signed hsigned _⟩, signWithCertificate_of_signed hsigned certificate⟩

/-! ### A chain of two certificates -/

/-- A signature that was made once. -/
structure SignatureScheme.Record where
  /-- The seed it was made with. -/
  seed : FixedBytes 32
  /-- The public key of that seed. -/
  point : FixedBytes 32
  /-- What was signed. -/
  message : Bytes
  /-- The signature. -/
  signature : FixedBytes 64

/-- The public key that was recorded for a seed, or else the seed. -/
def SignatureScheme.recordedPoint (records : List Record) (seed : FixedBytes 32) :
    FixedBytes 32 :=
  match records.find? (·.seed = seed) with
  | some r => r.point
  | none => seed

/-- The signatures that were recorded, and a placeholder for every other one. -/
def SignatureScheme.ofRecords (records : List Record) : SignatureScheme where
  publicOf := recordedPoint records
  sign seed message :=
    match records.find? fun r => r.seed = seed ∧ r.message = message with
    | some r => r.signature
    | none => .padRight 64 (recordedPoint records seed).toList
  verify point signature message := signature = .padRight 64 point.toList
    ∨ ∃ r ∈ records, recordedPoint records r.seed = point ∧ r.message = message
      ∧ r.signature = signature

lemma SignatureScheme.sound_ofRecords (records : List Record) : (ofRecords records).Sound := by
  intro seed message
  simp only [ofRecords, decide_eq_true_eq]
  cases hfind : records.find? fun r => r.seed = seed ∧ r.message = message with
  | none => exact .inl rfl
  | some r =>
      have hr := List.find?_some hfind
      rw [decide_eq_true_eq] at hr
      exact .inr ⟨r, List.mem_of_find?_eq_some hfind, by rw [hr.1], hr.2, rfl⟩

namespace Signing.Delegation

/-- A key that may issue certificates for issuing certificates. -/
def middle : Delegation := ⟨"middle", .ofNatBE 32 2, [.post, .grant, .ca]⟩

/-- A key that may issue certificates for posting. -/
def leaf : Delegation := ⟨"leaf", .ofNatBE 32 3, [.post, .grant]⟩

end Signing.Delegation

open Signing in
/-- The Ed25519 signatures of a post, which the root key of the seed 1 signs along the keys
`middle` and `leaf`. -/
def Signing.recorded : SignatureScheme :=
  let middlePoint : FixedBytes 32 :=
    .ofNatBE 32 0x7422b9887598068e32c4448a949adb290d0f4e35b9e01b0ee5f1a1e600fe2674
  let leafPoint : FixedBytes 32 :=
    .ofNatBE 32 0xf381626e41e7027ea431bfe3009e94bdd25a746beec468948d6c3c7c5dc9a54b
  .ofRecords [
    { seed := .ofNatBE 32 1
      point := .ofNatBE 32 0x4cb5abf6ad79fbf5abbccafcc269d85cd2651ed4b885b5869f241aedf0a5ba29
      message := signedBytes (certificateBody ⟨"middle", middlePoint⟩ [.post, .grant, .ca])
      signature := (FixedBytes.ofNatBE 32
          0x8596311dd31d2b6a8c9bd079a76b3a3a3508830544153f047cfb11b40641d9d4).append (.ofNatBE 32
          0x22e501ba7340fd3eed7992568fd11f1f41055482e84f3ae23b135bf9442e680e) },
    { seed := .ofNatBE 32 2
      point := middlePoint
      message := signedBytes (certificateBody ⟨"leaf", leafPoint⟩ [.post, .grant])
      signature := (FixedBytes.ofNatBE 32
          0x20f1ad934eea672c13e02542c58b571536f02dd1d2f95014a04d48cc327998d2).append (.ofNatBE 32
          0xb91f84f09636e9b55fde2b9741b940eac19499f2f708541b2deac6639c076401) },
    { seed := .ofNatBE 32 3
      point := leafPoint
      message := signedBytes (.ofList [("type", .str "post")])
      signature := (FixedBytes.ofNatBE 32
          0xb911422ea00c9c8b7ea538e798dacb885da4216a6e1ea8e7acb5a7042412bd68).append (.ofNatBE 32
          0xcb0ab9a093d49c52151353edef4f3e8adfd7e5e8d60cea88a4bdd50c7256110f) }]

open Signing in
/-- Along `middle` and `leaf` a post is verified for posting if two certificates are followed, and
not if only one is, nor for anything that `leaf` may not do. -/
theorem Verifier.verify_post_signUnder_leaf_middle :
    let root : KeyPair .profile := .ofSecret recorded.publicOf "root" (.ofNatBE 32 1)
    let post : Json.Members := .ofList [("type", .str "post")]
    recorded.Sound ∧ post.get? "signature" = none ∧
    ∃ signed, signUnder recorded root post [.leaf, .middle] = (signed, none)
      ∧ (Verifier.mk 2).verify recorded signed root.publicKey (some [.post]) = true
      ∧ (Verifier.mk 1).verify recorded signed root.publicKey (some [.post]) = false
      ∧ (Verifier.mk 2).verify recorded signed root.publicKey (some [.comment]) = false
      ∧ (Verifier.mk 2).verify recorded signed root.publicKey none = false := by
  intro root post
  have hsound : recorded.Sound := SignatureScheme.sound_ofRecords _
  have hunsigned : post.get? "signature" = none := rfl
  obtain ⟨-, ⟨signed, hsigned, -, hsome, hnone⟩, -⟩ :=
    verify_signUnder recorded hsound "root" (.ofNatBE 32 1) [.leaf, .middle] post hunsigned
  refine ⟨hsound, hunsigned, signed, hsigned, (hsome 2 [.post]).mpr (by decide), ?_, ?_, ?_⟩
  · exact Bool.eq_false_iff.mpr fun h => absurd ((hsome 1 [.post]).mp h) (by decide)
  · exact Bool.eq_false_iff.mpr fun h => absurd ((hsome 2 [.comment]).mp h) (by decide)
  · exact Bool.eq_false_iff.mpr fun h => absurd ((hnone 2).mp h) (by decide)

end Signet
