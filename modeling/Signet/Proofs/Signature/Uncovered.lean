import Mathlib.Tactic
import Signet.Proofs.Signature.Delegation

/-!
What no signature covers has no influence on a check.

* **Trimming.** `trim` leaves out of a signed object, and of every certificate along its chain, the
  members that no signature covers, and of every signature on the way all but the key and the
  signature itself. `get?_trim` and `get?_trimSignatureMembers` say what each member becomes.
* **The bytes.** `coveredBytes_trim`: the signature of a trimmed object covers the same bytes.
* **The walk.** `Walk.step_trim`: a step from a trimmed object fails with the same error, or finds
  the same links and the same certificate, trimmed. `Walk.run_trim` carries this along the whole
  walk, by induction on it.
* `Verifier.check_eq_of_trim_eq`: objects that are the same once trimmed are checked alike.
-/

namespace Signet

/-! ### Members that are looked up -/

namespace Json.Members

variable {ms ms' : Members} {name : String}

lemma require_congr (h : ms.get? name = ms'.get? name) : ms.require name = ms'.require name := by
  rw [require, require, h]

lemma requireItems_congr (h : ms.get? name = ms'.get? name) :
    ms.requireItems name = ms'.requireItems name := by
  rw [requireItems, requireItems, require_congr h]

lemma requireFixed_congr {n : ℕ} (h : ms.get? name = ms'.get? name) :
    requireFixed n ms name = requireFixed n ms' name := by
  rw [requireFixed, requireFixed, requireText, requireText, require_congr h]

end Json.Members

namespace Chain

open Json.Members (get? get?_cons require require_congr requireItems_congr requireFixed
  requireFixed_congr)

/-! ### Trimming -/

mutual

/-- The members of a signed object without those that no signature covers. -/
def trim : Json.Members → Json.Members
  | [] => []
  | (name, v) :: rest =>
    if name ∈ Signing.uncovered then trim rest
    else if name = "signature" then (name, trimSignature v) :: trim rest
    else (name, v) :: trim rest
termination_by structural object => object

/-- A signature without what does not belong to it. -/
def trimSignature : Json → Json
  | .obj members => .obj (trimSignatureMembers members)
  | v => v
termination_by structural v => v

/-- The key and the signature itself among the members of a signature. -/
def trimSignatureMembers : Json.Members → Json.Members
  | [] => []
  | (name, v) :: rest =>
    if name = "key" then (name, trimKey v) :: trimSignatureMembers rest
    else if name = "sig" then (name, v) :: trimSignatureMembers rest
    else trimSignatureMembers rest
termination_by structural members => members

/-- The certificate in a signature, trimmed like the object that it signs. -/
def trimKey : Json → Json
  | .obj certificate => .obj (trim certificate)
  | v => v
termination_by structural v => v

end

/-- What the members of a trimmed object are. -/
lemma get?_trim (object : Json.Members) (name : String) :
    (trim object).get? name =
      if name ∈ Signing.uncovered then none
      else if name = "signature" then (object.get? name).map trimSignature
      else object.get? name := by
  induction object with
  | nil => simp [trim]
  | cons m rest ih =>
      obtain ⟨n, v⟩ := m
      rw [trim, get?_cons]
      by_cases hn : n = name
      · subst hn
        split
        · rename_i hu
          rw [ih, if_pos hu]
        · split <;> simp [get?_cons]
      · rw [if_neg hn]
        split
        · exact ih
        · split <;> rw [get?_cons, if_neg hn, ih]

/-- What the members of a trimmed signature are. -/
lemma get?_trimSignatureMembers (members : Json.Members) (name : String) :
    (trimSignatureMembers members).get? name =
      if name = "key" then (members.get? name).map trimKey
      else if name = "sig" then members.get? name
      else none := by
  induction members with
  | nil => simp [trimSignatureMembers]
  | cons m rest ih =>
      obtain ⟨n, v⟩ := m
      rw [trimSignatureMembers, get?_cons]
      by_cases hn : n = name
      · subst hn
        split
        · simp [get?_cons]
        · split
          · simp [get?_cons]
          · rename_i hkey hsig
            rw [ih, if_neg hkey, if_neg hsig]
      · rw [if_neg hn]
        split
        · rw [get?_cons, if_neg hn, ih]
        · split
          · rw [get?_cons, if_neg hn, ih]
          · exact ih

/-- Other members than the signature are left as they are, or left out. -/
lemma get?_trim_of_ne {name : String} (hcovered : name ∉ Signing.uncovered)
    (hsignature : name ≠ "signature") (object : Json.Members) :
    (trim object).get? name = object.get? name := by
  rw [get?_trim, if_neg hcovered, if_neg hsignature]

lemma get?_signature_trim (object : Json.Members) :
    (trim object).get? "signature" = (object.get? "signature").map trimSignature := by
  rw [get?_trim, if_neg (by decide), if_pos rfl]

/-! ### The bytes -/

lemma without_trim (object : Json.Members) :
    (trim object).without Signing.uncoveredOrSignature
      = object.without Signing.uncoveredOrSignature := by
  induction object with
  | nil => rw [trim]
  | cons m rest ih =>
      obtain ⟨n, v⟩ := m
      rw [trim]
      split
      · rename_i hu
        simpa [Json.Members.without, Signing.uncoveredOrSignature, hu] using ih
      · rename_i hu
        split
        · rename_i hsignature
          simpa [Json.Members.without, Signing.uncoveredOrSignature, hsignature] using ih
        · rename_i hsignature
          simpa [Json.Members.without, Signing.uncoveredOrSignature, hu, hsignature] using ih

/-- **The signature of a trimmed object covers the same bytes.** -/
theorem coveredBytes_trim (object : Json.Members) :
    Signing.coveredBytes (trim object) = Signing.coveredBytes object := by
  simp only [Signing.coveredBytes, Canonical.canonicalizeObject, Canonical.canonicalize,
    Canonical.omitNames, without_trim]

/-! ### One step -/

lemma readSignature_trim (object : Json.Members) :
    readSignature (trim object) = (readSignature object).map (Prod.map id trimKey) := by
  rw [readSignature, readSignature, get?_signature_trim]
  cases object.get? "signature" with
  | none => rfl
  | some v =>
      cases v with
      | obj members =>
          have hsig : requireFixed 64 (trimSignatureMembers members) "sig"
              = requireFixed 64 members "sig" := requireFixed_congr <| by
            rw [get?_trimSignatureMembers, if_neg (by decide), if_pos rfl]
          have hkey : require (trimSignatureMembers members) "key"
              = (require members "key").map trimKey := by
            rw [require, require, get?_trimSignatureMembers, if_pos rfl]
            cases get? "key" members <;> rfl
          simp only [Option.map_some, trimSignature, hsig, hkey]
          cases requireFixed 64 members "sig" with
          | error e => rfl
          | ok signature => cases require members "key" <;> rfl
      | _ => rfl

lemma checkGrants_trim (certificate : Json.Members) (required : List Permission) :
    checkGrants (trim certificate) required = checkGrants certificate required := by
  rw [checkGrants, checkGrants,
    requireItems_congr (get?_trim_of_ne (by decide) (by decide) certificate)]

lemma subject_trim (certificate : Json.Members) :
    Signing.subject (trim certificate) = Signing.subject certificate := by
  rw [Signing.subject, Signing.subject,
    require_congr (get?_trim_of_ne (by decide) (by decide) certificate)]

/-- A link whose object is trimmed. -/
def Link.trim (l : Link) : Link := { l with object := Chain.trim l.object }

namespace Walk

/-- A walk whose objects are trimmed. -/
def trim (w : Walk) : Walk := ⟨w.links.map Link.trim, w.required, Chain.trim w.current⟩

variable {root : PublicKey .profile} {limit : ℕ}

lemma record_trim (w : Walk) (signature : FixedBytes 64) (signer : PublicKey .profile) :
    w.trim.record signature signer = (w.record signature signer).map Link.trim := by
  simp [record, trim, Link.trim]

lemma follow_trim (w : Walk) (signature : FixedBytes 64) (certificate : Json.Members) :
    w.trim.follow limit signature (Chain.trim certificate)
      = (w.follow limit signature certificate).map trim := by
  have hlength : w.trim.links.length = w.links.length := List.length_map _
  have hrequired : w.trim.required = w.required := rfl
  rw [follow, follow, hlength, hrequired]
  split
  · rfl
  · cases w.required with
    | none => rfl
    | some needed =>
        simp only [checkGrants_trim, subject_trim, record_trim]
        cases checkGrants certificate needed with
        | error e => rfl
        | ok _ => cases Signing.subject certificate <;> rfl

/-- **A step from a trimmed object comes to the same**, with the objects found trimmed. -/
theorem step_trim (w : Walk) :
    w.trim.step root limit
      = (w.step root limit).map (Sum.map (List.map Link.trim) trim) := by
  have hread : readSignature w.trim.current = _ := readSignature_trim w.current
  rw [step, step, hread]
  cases readSignature w.current with
  | error e => rfl
  | ok found =>
      obtain ⟨signature, key⟩ := found
      cases key with
      | str id =>
          by_cases hid : id = root.id
          · simp [Except.map, bind, Except.bind, trimKey, hid, record_trim, pure, Except.pure]
          · simp [Except.map, bind, Except.bind, trimKey, hid, throw, throwThe, MonadExceptOf.throw]
      | obj certificate =>
          have hfollow := @follow_trim limit w signature certificate
          simp only [Except.map, bind, Except.bind, Prod.map, trimKey, id_eq, hfollow]
          cases w.follow limit signature certificate <;> rfl
      | _ => rfl

/-- **A walk from a trimmed object comes to the same**, with the objects found trimmed. -/
theorem run_trim (w : Walk) :
    w.trim.run root limit = (w.run root limit).map (List.map Link.trim) := by
  induction w using run.induct root limit with
  | case1 w e hstep =>
      have htrim : w.trim.step root limit = .error e := by rw [step_trim, hstep]; rfl
      rw [run_of_step_error hstep, run_of_step_error htrim]
      rfl
  | case2 w found hstep =>
      have htrim : w.trim.step root limit = .ok (.inl (found.map Link.trim)) := by
        rw [step_trim, hstep]
        rfl
      rw [run_of_step_inl hstep, run_of_step_inl htrim]
      rfl
  | case3 w next hstep ih =>
      have htrim : w.trim.step root limit = .ok (.inr next.trim) := by
        rw [step_trim, hstep]
        rfl
      rw [run_of_step_inr hstep, run_of_step_inr htrim, ih]

end Walk

/-! ### Whole checks -/

variable {scheme : SignatureScheme}

lemma Link.check_trim (l : Link) : l.trim.check scheme = l.check scheme := by
  rw [Link.check, Link.check, Link.trim, coveredBytes_trim]

lemma checkLinks_map_trim (links : List Link) :
    checkLinks scheme (links.map Link.trim) = checkLinks scheme links := by
  induction links with
  | nil => rfl
  | cons l rest ih => rw [List.map_cons, checkLinks, checkLinks, l.check_trim, ih]

/-- **A trimmed object is checked like the object itself.** -/
theorem check_trim (v : Verifier) (object : Json.Members) (root : PublicKey .profile)
    (required : Option (List Permission)) :
    v.check scheme (trim object) root required = v.check scheme object root required := by
  have hrun : Walk.run root v.maxDepth ⟨[], required, trim object⟩ = _ :=
    Walk.run_trim ⟨[], required, object⟩
  rw [Verifier.check, Verifier.check, hrun]
  cases Walk.run root v.maxDepth ⟨[], required, object⟩ with
  | error e => rfl
  | ok links => exact checkLinks_map_trim links

end Chain

/-- **What no signature covers has no influence on a check.** Two objects are checked with the same
outcome if they are the same once the members `private` and `seqts` of each and of every
certificate along its chain are left out, and all members but `key` and `sig` of every signature on
the way. -/
theorem Verifier.check_eq_of_trim_eq (scheme : SignatureScheme) (v : Verifier)
    (root : PublicKey .profile) (required : Option (List Permission))
    {object object' : Json.Members} (h : Chain.trim object = Chain.trim object') :
    v.check scheme object root required = v.check scheme object' root required := by
  rw [← Chain.check_trim, h, Chain.check_trim]

open Signing Chain in
/-- A post that is signed along `leaf` and `middle` may be dated anew, a note put into its
signature and something private into the certificate of `leaf`. -/
theorem Verifier.check_post_of_trim_eq :
    let root : KeyPair .profile := .ofSecret recorded.publicOf "root" (.ofNatBE 32 1)
    let post : Json.Members := .ofList [("type", .str "post")]
    ∃ (grant key signature : Json) (sig : String),
      let certificate := [("grant", grant), ("publicKey", key), ("signature", signature)]
      let signed := [("signature", .obj [("key", .obj certificate), ("sig", .str sig)]),
        ("type", .str "post")]
      let certificate' := [("grant", grant), ("private", .null), ("publicKey", key),
        ("signature", signature)]
      let changed := [("seqts", .str "2024"),
        ("signature", .obj [("key", .obj certificate'), ("note", .num "1"), ("sig", .str sig)]),
        ("type", .str "post")]
      signUnder recorded root post [.leaf, .middle] = (signed, none)
        ∧ trim changed = trim signed
        ∧ (Verifier.mk 2).check recorded changed root.publicKey (some [.post]) = .ok () := by
  intro root post
  have hsound : recorded.Sound := SignatureScheme.sound_ofRecords _
  have hunsigned : post.get? "signature" = none := rfl
  obtain ⟨v, hv⟩ := certify_eq_ok recorded root .leaf [.middle]
  have hbody (key : PublicKey .profile) (grants : List Permission) :
      (certificateBody key grants).insert "signature" v
        = [("grant", .arr (grants.map (.str ·.name))), ("publicKey", key.toJwk),
          ("signature", v)] := by
    have hgrant : "grant" < "publicKey" := by decide
    have hlast : ¬ "signature" < "grant" ∧ ¬ "signature" < "publicKey" := by decide
    simp only [certificateBody, Json.Members.ofList, List.foldl_cons, List.foldl_nil,
      Json.Members.insert, String.reduceEq, hgrant, hlast, if_true, if_false]
  have hobject (key : Json) (signature : FixedBytes 64) :
      post.insert "signature" (signatureJson key signature) = [("signature",
        .obj [("key", key), ("sig", .str (Base64.encode signature.toList))]),
        ("type", .str "post")] := by
    have hsignature : "signature" < "type" := by decide
    have hsig : ¬ "sig" < "key" := by decide
    simp only [post, signatureJson, Json.Members.ofList, List.foldl_cons, List.foldl_nil,
      Json.Members.insert, String.reduceEq, hsignature, hsig, if_true, if_false]
  have hsigned := signUnder_of_certify hunsigned hv
  rw [hobject, Delegation.body, hbody] at hsigned
  have hcheck : (Verifier.mk 2).check recorded _ root.publicKey (some [.post]) = .ok () :=
    verify_eq_true_iff.mp ((verify_of_signUnder_iff hsound hunsigned hsigned 2 [.post]).mpr
      ⟨le_rfl, by decide, by decide, trivial⟩)
  refine ⟨_, _, v, _, hsigned, rfl, ?_⟩
  rw [← hcheck]
  exact check_eq_of_trim_eq recorded ⟨2⟩ root.publicKey (some [.post]) rfl

end Signet
