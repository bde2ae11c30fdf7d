import Mathlib.Tactic
import Signet.Envelope.Message
import Signet.Proofs.Cipher.Sealing
import Signet.Proofs.Json.Members
import Signet.Proofs.Json.Written
import Signet.Proofs.Text.Utf8

/-!
Envelopes in JSON that were written and are read again.

* `entries`: the members of an envelope in the order in which they are written. Their
  names are distinct (`nodup_entries`), so that all of them are found again.
* `parse_compact_toJson`: an envelope that was written is read, its recipients as what
  their entries are read as, and its payload is opened with what it was sealed with.
* `gives_sealPayload`: what sealing a payload comes to.
-/

namespace Signet.Message

open Json (ReadsAs MemberReadsAs)
open Json.Members (requireText_eq_ok_iff requireMembers_eq_ok_iff
  requireItems_eq_ok_iff requireBytes requireBytes_eq_ok_iff optionalText)

variable {algorithm : String} {extra : Option Bytes} {recipients recipients' : List Json}
  {s : Sealed}

/-! ### Members -/

/-- The members of an envelope, in the order in which they are written. -/
def entries (algorithm : String) (extra : Option Bytes) (recipients : List Json) (s : Sealed) :
    Json.Members :=
  [("ciphertext", .str (Base64.encode s.ciphertext)),
      ("protected", .str (Base64.encode (Utf8.encode headerText)))]
    ++ extraMember extra
    ++ [("unprotected", .obj [("alg", .str algorithm)]),
      ("tag", .str (Base64.encode s.tag.toList)),
      ("iv", .str (Base64.encode s.iv.toList)),
      ("recipients", .arr recipients)]

lemma toJson_eq :
    toJson algorithm extra recipients s = .obj (entries algorithm extra recipients s) := rfl

lemma nodup_entries : ((entries algorithm extra recipients s).map Prod.fst).Nodup := by
  unfold entries extraMember
  cases Envelope.nonempty extra <;> simp

/-- The members of an envelope that was read, by name. -/
lemma get?_ofList_entries {ms : Json.Members}
    (h : Json.Members.ofList (entries algorithm extra recipients s) = ms) :
    ms.get? "ciphertext" = some (.str (Base64.encode s.ciphertext))
      ∧ ms.get? "protected" = some (.str (Base64.encode (Utf8.encode headerText)))
      ∧ ms.get? "aad" = (Envelope.nonempty extra).map (.str ∘ Base64.encode)
      ∧ ms.get? "unprotected" = some (.obj [("alg", .str algorithm)])
      ∧ ms.get? "tag" = some (.str (Base64.encode s.tag.toList))
      ∧ ms.get? "iv" = some (.str (Base64.encode s.iv.toList))
      ∧ ms.get? "recipients" = some (.arr recipients) := by
  subst h
  simp only [Json.Members.get?_ofList_of_nodup nodup_entries]
  unfold entries extraMember
  cases Envelope.nonempty extra <;> simp [Json.Members.get?_cons]

/-- The members of an envelope are read as they were written, apart from its recipients. -/
lemma readsAs_toJson (h : List.Forall₂ (ReadsAs String.toList 125) recipients recipients') :
    ReadsAs String.toList Json.maxDepth (toJson algorithm extra recipients s)
      (.obj (Json.Members.ofList (entries algorithm extra recipients' s))) := by
  have hfirst : ∀ m ∈ [("ciphertext", Json.str (Base64.encode s.ciphertext)),
      ("protected", .str (Base64.encode (Utf8.encode headerText)))] ++ extraMember extra,
      ∃ text, m.2 = .str text := by
    unfold extraMember
    cases Envelope.nonempty extra <;> simp
  have hunprotected : ReadsAs String.toList 126 (.obj [("alg", .str algorithm)])
      (.obj [("alg", .str algorithm)]) :=
    Json.readsAs_obj (Json.memberReadsAs_strings (by simp)) (by simp [Json.numberName])
  rw [toJson_eq]
  refine Json.readsAs_obj ?_ (by simp [entries, Json.numberName])
  refine List.rel_append (Json.memberReadsAs_strings hfirst) ?_
  exact .cons ⟨rfl, hunprotected⟩ (.cons ⟨rfl, Json.readsAs_str _⟩ (.cons ⟨rfl, Json.readsAs_str _⟩
    (.cons ⟨rfl, Json.readsAs_arr h⟩ .nil)))

/-! ### Envelopes -/

/-- An envelope is read if its unprotected header names the algorithm and its protected header
names the cipher. -/
lemma parse_eq_ok_iff {envelope : String} {e : Message} : parse algorithm envelope = .ok e ↔
    Json.parseObject envelope = .ok e.members
      ∧ (∃ ms : Json.Members, e.members.get? "unprotected" = some (.obj ms)
        ∧ ms.get? "alg" = some (.str algorithm))
      ∧ (∃ text, e.members.get? "protected" = some (.str text)
        ∧ Base64.decode text = .ok (Utf8.encode e.header))
      ∧ ∃ ms, Json.parseObject e.header = .ok ms
        ∧ ms.get? "enc" = some (.str Envelope.encryption) := by
  simp only [parse, Except.bind_eq_ok_iff, requireMembers_eq_ok_iff, requireText_eq_ok_iff]
  constructor
  · rintro ⟨ms, hms, unprotected, hunprotected, found, hfound, h⟩
    split_ifs at h with halgorithm
    simp only [Except.bind_eq_ok_iff, requireText_eq_ok_iff, requireBytes_eq_ok_iff,
      Utf8.read_eq_ok_iff] at h
    obtain ⟨_, hprotected, header, rfl, inner, hinner, encryption, hencryption, h⟩ := h
    split_ifs at h with hcipher
    cases h
    rw [not_not.mp halgorithm] at hfound
    rw [not_not.mp hcipher] at hencryption
    exact ⟨hms, ⟨_, hunprotected, hfound⟩, hprotected, inner, hinner, hencryption⟩
  · rintro ⟨hms, ⟨unprotected, hunprotected, hfound⟩, hprotected, inner, hinner, hencryption⟩
    refine ⟨_, hms, _, hunprotected, _, hfound, ?_⟩
    rw [if_neg (not_not.mpr rfl)]
    simp only [Except.bind_eq_ok_iff, requireText_eq_ok_iff, requireBytes_eq_ok_iff,
      Utf8.read_eq_ok_iff]
    refine ⟨_, hprotected, _, rfl, inner, hinner, _, hencryption, ?_⟩
    rw [if_neg (not_not.mpr rfl)]
    rfl

/-- An envelope with the same headers is read as well. -/
lemma parse_of_same_headers {envelope envelope' : String} {e : Message} {ms : Json.Members}
    (hparse : parse algorithm envelope = .ok e)
    (hms : Json.parseObject envelope' = .ok ms)
    (hunprotected : ms.get? "unprotected" = e.members.get? "unprotected")
    (hprotected : ms.get? "protected" = e.members.get? "protected") :
    parse algorithm envelope' = .ok ⟨ms, e.header⟩ := by
  obtain ⟨-, hunprotected', hprotected', hheader⟩ := parse_eq_ok_iff.mp hparse
  rw [← hunprotected] at hunprotected'
  rw [← hprotected] at hprotected'
  exact parse_eq_ok_iff.mpr ⟨hms, hunprotected', hprotected', hheader⟩

/-- The payload of an envelope is put together from three of its members. -/
lemma payload_eq_ok_iff {e : Message} : e.payload = .ok s ↔
    requireBytes e.members "iv" = .ok s.iv.toList
      ∧ requireBytes e.members "ciphertext" = .ok s.ciphertext
      ∧ requireBytes e.members "tag" = .ok s.tag.toList := by
  simp only [payload, Except.bind_eq_ok_iff, Sealed.ofParts_eq_ok_iff]
  constructor
  · rintro ⟨_, hiv, _, hciphertext, _, htag, rfl, rfl, rfl⟩
    exact ⟨hiv, hciphertext, htag⟩
  · rintro ⟨hiv, hciphertext, htag⟩
    exact ⟨_, hiv, _, hciphertext, _, htag, rfl, rfl, rfl⟩

/-- The protected header is read as naming the cipher. -/
lemma parseObject_headerText :
    Json.parseObject headerText = .ok [("enc", .str Envelope.encryption)] :=
  Json.parseObject_compact (by simp) (by simp [Json.numberName])

/-- Empty further data are authenticated as none. -/
lemma aad_nonempty (header : String) (extra : Option Bytes) :
    aad header (Envelope.nonempty extra) = aad header extra := by
  have hnonempty : Envelope.nonempty (Envelope.nonempty extra) = Envelope.nonempty extra := by
    rw [Envelope.nonempty, Envelope.nonempty, Option.filter_filter]
    simp
  rw [aad, Envelope.aad, hnonempty, aad, Envelope.aad]

/-- Further data are read back, unless they are empty. -/
lemma extra_eq {e : Message}
    (h : e.members.get? "aad" = (Envelope.nonempty extra).map (.str ∘ Base64.encode)) :
    e.extra = .ok (Envelope.nonempty extra) := by
  rw [Message.extra, optionalText, h]
  cases Envelope.nonempty extra with
  | none => rfl
  | some bytes =>
      simp only [Option.map_some, Function.comp_apply]
      simp [bind, Except.bind, pure, Except.pure]

/-- **An envelope that was written is read**, its recipients as what their entries are read as, and
its payload with the authenticated data that it was sealed with. -/
theorem parse_compact_toJson
    (h : List.Forall₂ (ReadsAs String.toList 125) recipients recipients') :
    ∃ e, parse algorithm (Json.compact (toJson algorithm extra recipients s)) = .ok e
      ∧ e.recipients = .ok recipients'
      ∧ ∀ (g : GcmPrimitives) (key : SymmetricKey),
        e.openPayload g key = Gcm.openSealed g key s (aad headerText extra) := by
  obtain ⟨hciphertext, hprotected, haad, hunprotected, htag, hiv, hrecipients⟩ :=
    @get?_ofList_entries algorithm extra recipients' s _ rfl
  refine ⟨⟨_, headerText⟩, ?_, requireItems_eq_ok_iff.mpr hrecipients, fun g key => ?_⟩
  · exact parse_eq_ok_iff.mpr ⟨(readsAs_toJson h).parseObject, ⟨_, hunprotected, rfl⟩,
      ⟨_, hprotected, Base64.decode_encode _⟩, _, parseObject_headerText, rfl⟩
  · have hbytes {ms : Json.Members} {name : String} {bytes : Bytes}
        (hname : ms.get? name = some (.str (Base64.encode bytes))) :
        requireBytes ms name = .ok bytes :=
      requireBytes_eq_ok_iff.mpr ⟨_, hname, Base64.decode_encode bytes⟩
    have hextra := @extra_eq extra ⟨_, headerText⟩ haad
    have hpayload := @payload_eq_ok_iff s ⟨_, headerText⟩ |>.mpr
      ⟨hbytes hiv, hbytes hciphertext, hbytes htag⟩
    rw [openPayload, hextra, hpayload]
    change Gcm.openSealed g key s (aad headerText (Envelope.nonempty extra)) = _
    rw [aad_nonempty]

/-- **What is sealed opens with the content key**, unless there is too much to seal. -/
theorem gives_sealPayload (g : GcmPrimitives) (key : SymmetricKey) (payload : Bytes) (t : Tape)
    (h : List.Forall₂ (ReadsAs String.toList 125) recipients recipients') :
    (∃ envelope e,
        (sealPayload g algorithm key payload extra recipients).Gives t (.ok envelope) 12
          ∧ parse algorithm envelope = .ok e ∧ e.recipients = .ok recipients'
          ∧ e.openPayload g key = .ok payload)
      ∨ ¬ Gcm.Fits payload (aad headerText extra)
        ∧ (sealPayload g algorithm key payload extra recipients).Gives t
          (.error .sealFailed) 12 := by
  obtain ⟨s, hgives, hopen⟩ | ⟨hfits, hgives⟩ :=
    SymmetricKey.gives_sealMessage g key payload (aad headerText extra) t
  · obtain ⟨e, hparse, hrecipients, hopenPayload⟩ := @parse_compact_toJson algorithm extra _ _ s h
    refine .inl ⟨_, e, hgives.bind (m := 0) (Random.gives_pure _ _), hparse, hrecipients, ?_⟩
    rw [hopenPayload, hopen]
  · exact .inr ⟨hfits, hgives.bind_error⟩

end Signet.Message
