import Mathlib.Tactic
import Signet.Proofs.Key.Export
import Signet.Proofs.Signature.Refusal

/-!
Which error a check reports.

* **Signatures.** `checkLinks_eq_error_iff`: signatures are checked when a walk has ended, and
  `Refused.ne_signatureInvalid`: no hop is refused for a signature that does not verify.
* **What has no influence.** `Resigned`: objects are the same but for the bytes of signatures along
  the chain. `ReplacedAt`: they are the same but for the certificate of a hop, whose contents are
  others. `Climbs.of_resigned` and `Climbs.of_replacedAt` follow the certificates of both objects
  side by side, by induction on those that are followed; where a hop of one is refused, so is that
  of the other.
* **The end.** `Walk.runWithin` goes so many steps only. `Walk.runWithin_eq_some`: one step more
  than certificates are followed is enough.
* `Verifier.check_eq_error_iff`: all of this about a whole check.
-/

namespace Signet

namespace Chain

variable {root : PublicKey .profile} {limit : ℕ} {e : Error} {scheme : SignatureScheme}

/-! ### Signatures -/

lemma verify_eq_error_iff {signer : PublicKey .profile} {signature : FixedBytes 64}
    {message : Bytes} : signer.verify scheme signature message = .error e
      ↔ e = .signatureInvalid ∧ ¬ scheme.verify signer.point signature message = true := by
  unfold PublicKey.verify
  split
  · rename_i h
    simp [h]
  · rename_i h
    simp [h, eq_comm]

lemma exists_of_checkLinks {links : List Link} (h : checkLinks scheme links = .error e) :
    e = .signatureInvalid ∧ ∃ l ∈ links, ¬ Verifies scheme l.signer l.signature l.object := by
  induction links with
  | nil => cases h
  | cons l rest ih =>
      rw [checkLinks, Except.bind_eq_error_iff] at h
      rcases h with h | ⟨-, -, h⟩
      · obtain ⟨he, hl⟩ := verify_eq_error_iff.mp h
        exact ⟨he, l, List.mem_cons_self, hl⟩
      · obtain ⟨he, l', hmem, hl'⟩ := ih h
        exact ⟨he, l', List.mem_cons_of_mem l hmem, hl'⟩

/-- Checking signatures fails if one of them does not verify. -/
lemma checkLinks_eq_error_iff {links : List Link} : checkLinks scheme links = .error e ↔
    e = .signatureInvalid ∧ ∃ l ∈ links, ¬ Verifies scheme l.signer l.signature l.object := by
  refine ⟨exists_of_checkLinks, ?_⟩
  rintro ⟨rfl, l, hmem, hl⟩
  cases h : checkLinks scheme links with
  | ok _ => exact absurd (checkLinks_eq_ok_iff.mp h l hmem) hl
  | error e => rw [(exists_of_checkLinks h).1]

lemma Refused.ne_signatureInvalid {hop : ℕ} {required : Option (List Permission)}
    {object : Json.Members} (h : Refused root limit hop required object e) :
    e ≠ .signatureInvalid := by
  rintro rfl
  obtain ⟨id, hid⟩ | ⟨_, _, -, ⟨he, -⟩ | ⟨he, -⟩⟩ := h.reason rfl
  · cases hid
  · cases he
  · cases he

/-! ### What has no influence -/

/-- Each of two objects is signed, beside some key or certificate, and they are the same
otherwise. -/
structure SameBeside (object object' : Json.Members) (key key' : Json) : Prop where
  /-- The first object is signed. -/
  signed : ∃ signature, IsSigned object key signature
  /-- The second object is signed. -/
  signed' : ∃ signature, IsSigned object' key' signature
  /-- They have the same members but for the signature. -/
  others : ∀ name, name ≠ "signature" → object'.get? name = object.get? name

/-- Two objects are the same but for the bytes of their signatures, and of those of the
certificates along the chain. -/
inductive Resigned : Json.Members → Json.Members → Prop
  | refl (object : Json.Members) : Resigned object object
  /-- The signature of this object is another one. -/
  | here {object object' : Json.Members} {key : Json} (same : SameBeside object object' key key) :
      Resigned object object'
  /-- Signatures along the chain are other ones. -/
  | along {object object' certificate certificate' : Json.Members}
      (same : SameBeside object object' (.obj certificate) (.obj certificate'))
      (rest : Resigned certificate certificate') : Resigned object object'

/-- Two objects are the same but for the bytes of signatures and the certificate of a hop, which
is any other one. -/
inductive ReplacedAt : ℕ → Json.Members → Json.Members → Prop
  | here {object object' certificate certificate' : Json.Members}
      (same : SameBeside object object' (.obj certificate) (.obj certificate')) :
      ReplacedAt 0 object object'
  | along {n : ℕ} {object object' certificate certificate' : Json.Members}
      (same : SameBeside object object' (.obj certificate) (.obj certificate'))
      (rest : ReplacedAt n certificate certificate') : ReplacedAt (n + 1) object object'

lemma Resigned.others {object object' : Json.Members} (h : Resigned object object') :
    ∀ name, name ≠ "signature" → object'.get? name = object.get? name := by
  cases h with
  | refl => exact fun _ _ => rfl
  | here same => exact same.others
  | along same => exact same.others

lemma ReplacedAt.others {n : ℕ} {object object' : Json.Members} (h : ReplacedAt n object object') :
    ∀ name, name ≠ "signature" → object'.get? name = object.get? name := by
  cases h with
  | here same => exact same.others
  | along same => exact same.others

variable {required required₁ : Option (List Permission)} {object object' object₁ : Json.Members}

/-- What a certificate grants does not depend on its signature. -/
lemma Grants.of_others {certificate certificate' : Json.Members} {needed : Finset Permission}
    (h : Grants certificate needed)
    (hothers : ∀ name, name ≠ "signature" → certificate'.get? name = certificate.get? name) :
    Grants certificate' needed := by
  rwa [Grants, hothers "grant" (by decide)]

lemma IsSubject.of_others {certificate certificate' : Json.Members} {signer : PublicKey .profile}
    (h : IsSubject certificate signer)
    (hothers : ∀ name, name ≠ "signature" → certificate'.get? name = certificate.get? name) :
    IsSubject certificate' signer := by
  rwa [IsSubject, hothers "publicKey" (by decide)]

/-- Whether a certificate is followed does not depend on its signature. -/
lemma NotFollowed.of_others {hop : ℕ} {certificate certificate' : Json.Members}
    (h : NotFollowed limit hop certificate required e)
    (hothers : ∀ name, name ≠ "signature" → certificate'.get? name = certificate.get? name) :
    NotFollowed limit hop certificate' required e := by
  have hgrants (needed : List Permission) :
      checkGrants certificate' needed = checkGrants certificate needed := by
    rw [checkGrants, checkGrants, Json.Members.requireItems, Json.Members.requireItems,
      Json.Members.require, Json.Members.require, hothers "grant" (by decide)]
  have hsubject : Signing.subject certificate' = Signing.subject certificate := by
    rw [Signing.subject, Signing.subject, Json.Members.require, Json.Members.require,
      hothers "publicKey" (by decide)]
  cases h with
  | tooDeep deep => exact .tooDeep deep
  | notAllowed shallow => exact .notAllowed shallow
  | ungranted shallow ungranted =>
      refine .ungranted shallow (checkGrants_eq_error_iff.mp ?_)
      rw [hgrants, checkGrants_eq_error_iff.mpr ungranted]
  | noSubject shallow grants noSubject =>
      refine .noSubject shallow (grants.of_others hothers) (subject_eq_error_iff.mp ?_)
      rw [hsubject, subject_eq_error_iff.mpr noSubject]

/-- An object is refused whatever the bytes of signatures are. -/
lemma Refused.of_resigned {hop : ℕ} (h : Refused root limit hop required object e)
    (hsame : Resigned object object') : Refused root limit hop required object' e := by
  cases hsame with
  | refl => exact h
  | here same =>
      obtain ⟨signature, hsigned⟩ := same.signed
      obtain ⟨signature', hsigned'⟩ := same.signed'
      cases h with
      | unreadable unreadable => exact absurd hsigned unreadable.not_isSigned
      | otherRoot signed other =>
          cases (hsigned.unique signed).1
          exact .otherRoot hsigned' other
      | noKey signed noText noObject =>
          cases (hsigned.unique signed).1
          exact .noKey hsigned' noText noObject
      | certificate signed notFollowed =>
          cases (hsigned.unique signed).1
          exact .certificate hsigned' notFollowed
  | along same rest =>
      obtain ⟨signature, hsigned⟩ := same.signed
      obtain ⟨signature', hsigned'⟩ := same.signed'
      cases h with
      | unreadable unreadable => exact absurd hsigned unreadable.not_isSigned
      | otherRoot signed _ => cases (hsigned.unique signed).1
      | noKey signed _ noObject =>
          cases (hsigned.unique signed).1
          cases noObject
      | certificate signed notFollowed =>
          cases (hsigned.unique signed).1
          exact .certificate hsigned' (notFollowed.of_others rest.others)

/-- The same certificates are followed whatever the bytes of signatures are. -/
lemma Climbs.of_resigned {n : ℕ} (h : Climbs n required object required₁ object₁)
    (hsame : Resigned object object') :
    ∃ object₁', Climbs n required object' required₁ object₁' ∧ Resigned object₁ object₁' := by
  induction h generalizing object' with
  | refl required object => exact ⟨object', .refl _ _, hsame⟩
  | certificate signed grants subject rest ih =>
      cases hsame with
      | refl => exact ⟨_, .certificate signed grants subject rest, .refl _⟩
      | here same =>
          obtain ⟨signature, hsigned⟩ := same.signed
          obtain ⟨signature', hsigned'⟩ := same.signed'
          cases (hsigned.unique signed).1
          exact ⟨_, .certificate hsigned' grants subject rest, .refl _⟩
      | along same hrest =>
          obtain ⟨signature, hsigned⟩ := same.signed
          obtain ⟨signature', hsigned'⟩ := same.signed'
          cases (hsigned.unique signed).1
          obtain ⟨object₁', hclimbs, hsame₁⟩ := ih hrest
          exact ⟨object₁', .certificate hsigned' (grants.of_others hrest.others)
            (subject.of_others hrest.others) hclimbs, hsame₁⟩

/-- The same certificates are followed up to the one that is another one. -/
lemma Climbs.of_replacedAt {n : ℕ} (h : Climbs n required object required₁ object₁)
    (hsame : ReplacedAt n object object') :
    ∃ object₁', Climbs n required object' required₁ object₁' ∧ ReplacedAt 0 object₁ object₁' := by
  induction h generalizing object' with
  | refl required object => exact ⟨object', .refl _ _, hsame⟩
  | certificate signed grants subject rest ih =>
      cases hsame with
      | along same hrest =>
          obtain ⟨signature, hsigned⟩ := same.signed
          obtain ⟨signature', hsigned'⟩ := same.signed'
          cases (hsigned.unique signed).1
          obtain ⟨object₁', hclimbs, hsame₁⟩ := ih hrest
          exact ⟨object₁', .certificate hsigned' (grants.of_others hrest.others)
            (subject.of_others hrest.others) hclimbs, hsame₁⟩

/-- **The bytes of signatures have no influence on where a walk fails.** -/
theorem FailsAt.of_resigned {hop : ℕ} (h : FailsAt root limit required object hop e)
    (hsame : Resigned object object') : FailsAt root limit required object' hop e := by
  obtain ⟨required₁, object₁, hhop, hclimbs, hrefused⟩ := h
  obtain ⟨object₁', hclimbs', hsame₁⟩ := hclimbs.of_resigned hsame
  exact ⟨required₁, object₁', hhop, hclimbs', hrefused.of_resigned hsame₁⟩

/-- **A certificate that is not looked at has no influence either.** -/
theorem FailsAt.of_replacedAt {hop : ℕ} (h : FailsAt root limit required object hop e)
    (he : e = .chainTooDeep limit ∨ e = .certificateNotAllowed)
    (hsame : ReplacedAt hop object object') : FailsAt root limit required object' hop e := by
  obtain ⟨required₁, object₁, hhop, hclimbs, hrefused⟩ := h
  obtain ⟨object₁', hclimbs', hsame₁⟩ := hclimbs.of_replacedAt hsame
  refine ⟨required₁, object₁', hhop, hclimbs', ?_⟩
  cases hsame₁ with
  | here same =>
      obtain ⟨signature', hsigned'⟩ := same.signed'
      refine .certificate hsigned' ?_
      obtain ⟨id, rfl⟩ | ⟨_, _, -, ⟨rfl, hdeep⟩ | ⟨rfl, hshallow, rfl⟩⟩ :=
        hrefused.reason (by rcases he with rfl | rfl <;> rfl)
      · rcases he with he | he <;> cases he
      · exact .tooDeep hdeep
      · exact .notAllowed hshallow

/-! ### The end -/

/-- What a walk ends with, if it ends within so many steps. -/
def Walk.runWithin (root : PublicKey .profile) (limit : ℕ) :
    ℕ → Walk → Option (Except Error (List Link))
  | 0, _ => none
  | n + 1, w =>
    match w.step root limit with
    | .error e => some (.error e)
    | .ok (.inl links) => some (.ok links)
    | .ok (.inr next) => runWithin root limit n next

/-- A walk ends when as many certificates were followed as the limit allows. -/
theorem Walk.runWithin_eq_some (w : Walk) {n : ℕ} (hn : limit < w.links.length + n)
    (hlinks : w.links.length ≤ limit) :
    runWithin root limit n w = some (w.run root limit) := by
  induction w using run.induct root limit generalizing n with
  | case1 w e hstep =>
      obtain ⟨n, rfl⟩ : ∃ m, n = m + 1 := ⟨n - 1, by omega⟩
      rw [run_of_step_error hstep, runWithin, hstep]
  | case2 w found hstep =>
      obtain ⟨n, rfl⟩ : ∃ m, n = m + 1 := ⟨n - 1, by omega⟩
      rw [run_of_step_inl hstep, runWithin, hstep]
  | case3 w next hstep ih =>
      obtain ⟨n, rfl⟩ : ∃ m, n = m + 1 := ⟨n - 1, by omega⟩
      obtain ⟨hlimit, hlength⟩ := length_links_of_step hstep
      rw [run_of_step_inr hstep, runWithin, hstep]
      exact ih (by omega) (by omega)

end Chain

/-! ### Whole checks -/

open Chain

/-- **Which error a check reports.** If the walk fails, the check fails with the error of the hop at
which it does; that hop is the only one. Otherwise the walk has reached the root key, and the check
fails if a signature does not verify. The error of a hop does not depend on the bytes of signatures;
if it is that there are too many certificates or that none is allowed, it does not depend on the
contents of the certificate either. There are too many if the object at the last hop has a
certificate again. The walk ends within one step more than certificates are followed. -/
theorem Verifier.check_eq_error_iff (scheme : SignatureScheme) (v : Verifier)
    (object : Json.Members) (root : PublicKey .profile) (required : Option (List Permission)) :
    (∀ e, v.check scheme object root required = .error e ↔
      (∃ hop, FailsAt root v.maxDepth required object hop e)
        ∨ e = .signatureInvalid ∧ ∃ links, Path root v.maxDepth required object links
          ∧ ∃ l ∈ links, ¬ Verifies scheme l.signer l.signature l.object)
    ∧ (v.check scheme object root required = .error .signatureInvalid ↔
      ∃ links, Path root v.maxDepth required object links
        ∧ ∃ l ∈ links, ¬ Verifies scheme l.signer l.signature l.object)
    ∧ (∀ hop e, FailsAt root v.maxDepth required object hop e →
      (∀ hop' e', FailsAt root v.maxDepth required object hop' e' → hop' = hop ∧ e' = e)
      ∧ (∀ object', Resigned object object' → v.check scheme object' root required = .error e)
      ∧ (e = .chainTooDeep v.maxDepth ∨ e = .certificateNotAllowed →
        ∀ object', ReplacedAt hop object object' →
          v.check scheme object' root required = .error e))
    ∧ (v.check scheme object root required = .error (.chainTooDeep v.maxDepth) ↔
      ∃ required' object' certificate signature,
        Climbs v.maxDepth required object required' object'
          ∧ IsSigned object' (.obj certificate) signature)
    ∧ Walk.runWithin root v.maxDepth (v.maxDepth + 1) ⟨[], required, object⟩
      = some (Walk.run root v.maxDepth ⟨[], required, object⟩) := by
  have hcheck (object : Json.Members) (e : Error) :
      v.check scheme object root required = .error e ↔
        (∃ hop, FailsAt root v.maxDepth required object hop e)
          ∨ e = .signatureInvalid ∧ ∃ links, Path root v.maxDepth required object links
            ∧ ∃ l ∈ links, ¬ Verifies scheme l.signer l.signature l.object := by
    simp only [Verifier.check, Except.bind_eq_error_iff, Walk.run_eq_error_iff, Walk.run_eq_ok_iff,
      checkLinks_eq_error_iff]
    refine or_congr_right ?_
    constructor
    · rintro ⟨links, hpath, he, hinvalid⟩
      exact ⟨he, links, hpath, hinvalid⟩
    · rintro ⟨he, links, hpath, hinvalid⟩
      exact ⟨links, hpath, he, hinvalid⟩
  refine ⟨hcheck object, ?_, fun hop e hfails => ⟨fun hop' e' hfails' => hfails'.unique hfails,
    fun object' hsame => (hcheck object' e).mpr (.inl ⟨hop, hfails.of_resigned hsame⟩),
    fun he object' hsame => (hcheck object' e).mpr (.inl ⟨hop, hfails.of_replacedAt he hsame⟩)⟩,
    ?_, ?_⟩
  · rw [hcheck]
    constructor
    · rintro (⟨hop, _, _, _, _, hrefused⟩ | ⟨-, hinvalid⟩)
      · exact absurd rfl hrefused.ne_signatureInvalid
      · exact hinvalid
    · exact fun hinvalid => .inr ⟨rfl, hinvalid⟩
  · rw [hcheck]
    constructor
    · rintro (⟨hop, required', object', hhop, hclimbs, hrefused⟩ | ⟨he, -⟩)
      · obtain ⟨id, hid⟩ | ⟨certificate, signature, hsigned, ⟨-, hdeep⟩ | ⟨he, -⟩⟩ :=
          hrefused.reason rfl
        · cases hid
        · obtain rfl := le_antisymm hhop hdeep
          exact ⟨required', object', certificate, signature, hclimbs, hsigned⟩
        · cases he
      · cases he
    · rintro ⟨required', object', certificate, signature, hclimbs, hsigned⟩
      exact .inl ⟨_, required', object', le_rfl, hclimbs, .certificate hsigned (.tooDeep le_rfl)⟩
  · exact Walk.runWithin_eq_some _ (by simp) (Nat.zero_le _)

/-- No signature of a post with a certificate for posting verifies. That is reported only if the
post is checked for posting, with one certificate allowed. -/
theorem Verifier.check_post_rejected :
    let scheme : SignatureScheme := ⟨id, fun _ _ => .zero 64, fun _ _ _ => false⟩
    let root : PublicKey .profile := ⟨"root", .ofNatBE 32 1⟩
    let leaf : PublicKey .profile := ⟨"leaf", .ofNatBE 32 2⟩
    let signature (key : Json) : Json :=
      .obj [("key", key), ("sig", .str (Base64.encode (FixedBytes.zero 64).toList))]
    let certificate : Json.Members := [("grant", .arr [.str "post"]), ("publicKey", leaf.toJwk),
      ("signature", signature (.str "root"))]
    let post : Json.Members := [("signature", signature (.obj certificate)), ("type", .str "post")]
    (Verifier.mk 1).check scheme post root (some [.post]) = .error .signatureInvalid
      ∧ (Verifier.mk 1).check scheme post root (some [.post, .comment])
        = .error (.permissionMissing "comment")
      ∧ (Verifier.mk 1).check scheme post root none = .error .certificateNotAllowed
      ∧ (Verifier.mk 0).check scheme post root (some [.comment]) = .error (.chainTooDeep 0) := by
  intro scheme root leaf signature certificate post
  have hsigned (ms : Json.Members) (key : Json) (h : ms.get? "signature" = some (signature key)) :
      IsSigned ms key (.zero 64) :=
    ⟨_, _, h, rfl, Base64.decode_encode _, rfl⟩
  have hpost : IsSigned post (.obj certificate) (.zero 64) := hsigned post _ rfl
  have hcertificate : IsSigned certificate (.str root.id) (.zero 64) := hsigned certificate _ rfl
  have hgrants : Grants certificate [Permission.post].toFinset :=
    ⟨[.str "post"], rfl, by simp [Permission.post]⟩
  have hsubject : IsSubject certificate leaf :=
    ⟨leaf.toJwk, rfl, Jwk.Form.ofJwk_toJwk (.publicKey .profile) leaf⟩
  refine ⟨?_, ?_, ?_, ?_⟩
  · refine (check_eq_error_iff scheme ⟨1⟩ post root _).2.1.mpr
      ⟨_, .certificate hpost hgrants hsubject (.root hcertificate), _, List.mem_cons_self, ?_⟩
    exact Bool.false_ne_true
  · have hungranted : Ungranted certificate [.post, .comment] (.permissionMissing "comment") :=
      @Ungranted.permission _ _ [.str "post"] [.post] [] .comment rfl rfl
        (by simp [Permission.post]) (by simp [Permission.comment])
    exact ((check_eq_error_iff scheme ⟨1⟩ post root _).1 _).mpr
      (.inl ⟨0, _, _, by simp, .refl _ _, .certificate hpost (.ungranted (by simp) hungranted)⟩)
  · exact ((check_eq_error_iff scheme ⟨1⟩ post root _).1 _).mpr
      (.inl ⟨0, _, _, by simp, .refl _ _, .certificate hpost (.notAllowed (by simp))⟩)
  · exact (check_eq_error_iff scheme ⟨0⟩ post root _).2.2.2.1.mpr
      ⟨_, _, _, _, .refl _ _, hpost⟩

end Signet
