import Mathlib.Tactic
import Signet.Proofs.Envelope.Agreed
import Signet.Proofs.Envelope.Wrapped
import Signet.Proofs.Json.Lookup

/-!
An envelope in JSON opens only as what was sealed in it, whoever wrote it.

* `Gcm.SealedAs`: a sealed message is what sealing makes of a message;
  `Gcm.sealedAs_of_openSealed`: it opens as nothing else.
* **Payloads.** `Message.Authentic`: an envelope of an algorithm holds a payload sealed under
  a content key. `Message.authentic_of_openPayload` goes through the members that opening
  looks at.
* **Content keys.** `Wrapped.exists_entry_of_contentKey`, by induction on the entries: the
  content key was wrapped in one of them. `Agreed.exists_epk_of_decrypt`: it follows from an
  agreement with the key in the only entry.
* `Message.authentic_of_decrypt`: the two kinds of envelopes.
-/

namespace Signet

open Json.Members (requireBytes requireBytes_eq_ok_iff requireText_eq_ok_iff
  requireMembers_eq_ok_iff requireItems_eq_ok_iff require_eq_ok_iff optionalText_eq_ok_iff)

/-! ### Sealed messages -/

namespace Gcm

variable {g : GcmPrimitives} {key : FixedBytes 32} {message aad : Bytes} {s : Sealed}

/-- A sealed message is a message with the key stream added, and the tag of that: it is what sealing
makes of the message under its IV. Opening takes up to sixteen bytes more than sealing does, so that
the last point is about messages that can be sealed. -/
structure SealedAs (g : GcmPrimitives) (key : FixedBytes 32) (message aad : Bytes) (s : Sealed) :
    Prop where
  /-- The ciphertext. -/
  ciphertext_eq : s.ciphertext = applyKeystream (g.cipher key) s.iv 0 message
  /-- The tag. -/
  tag_eq : s.tag = tag g (g.cipher key) s.iv aad s.ciphertext
  /-- Sealing gives both. -/
  seal_eq : message.length ≤ maxLength → sealWithIv g key s.iv message aad = .ok s

/-- A sealed message opens only as what it was made of. -/
lemma sealedAs_of_openSealed (h : openSealed g key s aad = .ok message) :
    SealedAs g key message aad s := by
  have hseal : message.length ≤ maxLength → sealWithIv g key s.iv message aad = .ok s :=
    fun hmessage => (openSealed_eq_ok_iff hmessage).mp h
  rw [openSealed] at h
  split at h
  · cases h
  · dsimp only at h
    split at h
    · rename_i htag
      cases h
      exact ⟨(applyKeystream_applyKeystream _ _ _ _).symm, htag.symm, hseal⟩
    · cases h

end Gcm

/-! ### Payloads -/

namespace Message

/-- The further data that an envelope has to authenticate, none if the member is absent or
`null`. -/
def HasExtra (ms : Json.Members) (extra : Bytes) : Prop :=
  extra = [] ∧ (ms.get? "aad" = none ∨ ms.get? "aad" = some .null) ∨ ms.HasBytes "aad" extra

/-- What is authenticated beside a payload: the protected header in base64, and after a dot further
data, if there are any. -/
def authenticated (header extra : Bytes) : Bytes :=
  Utf8.encode (Base64.encode header) ++ if extra = [] then [] else Utf8.encode "." ++ extra

/-- An envelope of an algorithm is an object with certain members, and holds a payload sealed under
a content key. -/
structure Authentic (g : GcmPrimitives) (algorithm envelope : String) (key : SymmetricKey)
    (payload : Bytes) (ms : Json.Members) : Prop where
  /-- The envelope is an object. -/
  parse_eq : Json.parseObject envelope = .ok ms
  /-- It names the algorithm. -/
  algorithm_eq : ∃ unprotected : Json.Members,
    ms.get? "unprotected" = some (.obj unprotected)
      ∧ unprotected.get? "alg" = some (.str algorithm)
  /-- Its protected header names the cipher, and the payload is sealed with that header. -/
  sealed : ∃ (header : String) (inner : Json.Members) (extra : Bytes) (s : Sealed),
    ms.HasBytes "protected" (Utf8.encode header)
      ∧ Json.parseObject header = .ok inner ∧ inner.get? "enc" = some (.str "A256GCM")
      ∧ HasExtra ms extra
      ∧ ms.HasBytes "iv" s.iv.toList ∧ ms.HasBytes "ciphertext" s.ciphertext
      ∧ ms.HasBytes "tag" s.tag.toList
      ∧ Gcm.SealedAs g key payload (authenticated (Utf8.encode header) extra) s

lemma aad_eq_authenticated (header : String) (extra : Option Bytes) :
    aad header extra = authenticated (Utf8.encode header) (extra.getD []) := by
  rw [aad, Envelope.aad, authenticated, Base64.utf8_encode]
  cases extra with
  | none => rfl
  | some bytes => cases bytes <;> rfl

/-- Further data are what the member spells out. -/
lemma hasExtra_of_extra {e : Message} {extra : Option Bytes} (h : e.extra = .ok extra) :
    HasExtra e.members (extra.getD []) := by
  simp only [Message.extra, Except.bind_eq_ok_iff] at h
  obtain ⟨found, hfound, h⟩ := h
  obtain ⟨hnone, rfl⟩ | ⟨text, htext, rfl⟩ := optionalText_eq_ok_iff.mp hfound
  · cases h
    exact .inl ⟨rfl, hnone⟩
  · simp only [Except.bind_eq_ok_iff, Base64.read, Except.mapError_eq_ok_iff] at h
    obtain ⟨bytes, hbytes, h⟩ := h
    cases h
    exact .inr ⟨text, htext, hbytes⟩

variable {g : GcmPrimitives} {algorithm envelope : String} {key : SymmetricKey} {payload : Bytes}

/-- **A payload opens only as what was sealed**, with the authenticated data that the envelope
carries. -/
theorem authentic_of_openPayload {e : Message} (hparse : parse algorithm envelope = .ok e)
    (h : e.openPayload g key = .ok payload) :
    Authentic g algorithm envelope key payload e.members := by
  obtain ⟨hmembers, halgorithm, hprotected, inner, hinner, henc⟩ := parse_eq_ok_iff.mp hparse
  simp only [openPayload, Except.bind_eq_ok_iff] at h
  obtain ⟨extra, hextra, s, hs, hopen⟩ := h
  obtain ⟨hiv, hciphertext, htag⟩ := payload_eq_ok_iff.mp hs
  rw [aad_eq_authenticated] at hopen
  exact ⟨hmembers, halgorithm, e.header, inner, _, s, hprotected, hinner, henc,
    hasExtra_of_extra hextra, requireBytes_eq_ok_iff.mp hiv, requireBytes_eq_ok_iff.mp hciphertext,
    requireBytes_eq_ok_iff.mp htag, Gcm.sealedAs_of_openSealed hopen⟩

end Message

/-! ### Content keys -/

namespace WrappedKey

/-- The entry of a recipient is an object that spells out the id of a key and a sealed message. -/
def IsEntry (entry : Json) (k : WrappedKey) : Prop :=
  ∃ ms header : Json.Members, entry = .obj ms ∧ ms.get? "header" = some (.obj header)
    ∧ header.get? "kid" = some (.str k.keyId) ∧ header.HasBytes "iv" k.wrapped.iv.toList
    ∧ header.HasBytes "tag" k.wrapped.tag.toList
    ∧ ms.HasBytes "encrypted_key" k.wrapped.ciphertext

lemma isEntry_of_ofJson {entry : Json} {k : WrappedKey} (h : ofJson entry = .ok k) :
    IsEntry entry k := by
  cases entry with
  | obj ms =>
      simp only [ofJson, Json.members?, Except.bind_eq_ok_iff, requireMembers_eq_ok_iff,
        requireText_eq_ok_iff, requireBytes_eq_ok_iff, Sealed.ofParts_eq_ok_iff,
        Except.pure_eq_ok_iff] at h
      obtain ⟨header, hheader, id, hid, _, hiv, _, htag, _, hkey, s, ⟨rfl, rfl, rfl⟩, rfl⟩ := h
      exact ⟨ms, header, rfl, hheader, hid, hiv, htag, hkey⟩
  | _ => cases h

end WrappedKey

namespace Wrapped

variable {g : GcmPrimitives} {keys : KeyProvider} {key : SymmetricKey}

/-- A content key that was found was wrapped in an entry, under the key that the entry names. -/
lemma exists_entry_of_contentKey {entries : List Json} {tried : List String}
    (h : contentKey g keys tried entries = .ok key) :
    ∃ entry ∈ entries, ∃ (k : WrappedKey) (kek : SymmetricKey), WrappedKey.IsEntry entry k
      ∧ keys k.keyId = .ok kek ∧ SymmetricKey.unwrap g kek k.wrapped = .ok key := by
  induction entries generalizing tried with
  | nil => cases h
  | cons entry rest ih =>
      have hlater {tried : List String} (h : contentKey g keys tried rest = .ok key) :
          ∃ later ∈ entry :: rest, ∃ (k : WrappedKey) (kek : SymmetricKey),
            WrappedKey.IsEntry later k ∧ keys k.keyId = .ok kek
              ∧ SymmetricKey.unwrap g kek k.wrapped = .ok key := by
        obtain ⟨later, hmem, hfound⟩ := ih h
        exact ⟨later, List.mem_cons_of_mem entry hmem, hfound⟩
      rw [contentKey] at h
      split at h
      · exact hlater h
      · rename_i k hentry
        split at h
        · rename_i kek hkek
          exact ⟨entry, List.mem_cons_self, k, kek, WrappedKey.isEntry_of_ofJson hentry, hkek, h⟩
        · split at h
          · exact hlater h
          · cases h

/-- A wrapped key opens only as what was sealed. -/
lemma sealedAs_of_unwrap {kek : SymmetricKey} {wrapped : Sealed}
    (h : SymmetricKey.unwrap g kek wrapped = .ok key) :
    Gcm.sealWithIv g kek wrapped.iv key.toList [] = .ok wrapped := by
  simp only [SymmetricKey.unwrap, Except.bind_eq_ok_iff, readKeyBytes_eq_ok_iff] at h
  obtain ⟨_, hopen, rfl⟩ := h
  refine (Gcm.sealedAs_of_openSealed hopen).seal_eq ?_
  rw [key.length_eq]
  decide

end Wrapped

namespace Agreed

variable {g : GcmPrimitives} {scheme : AgreementScheme} {k : KeyPair .connect}

lemma recipientHeader_eq_ok {e : Message} {header : Json.Members}
    (h : recipientHeader e = .ok header) :
    ∃ entry : Json.Members, e.members.get? "recipients" = some (.arr [.obj entry])
      ∧ entry.get? "header" = some (.obj header) := by
  simp only [recipientHeader, Except.bind_eq_ok_iff, Message.recipients,
    requireItems_eq_ok_iff] at h
  obtain ⟨entries, hentries, h⟩ := h
  split at h
  · rename_i entry
    cases entry with
    | obj entry => exact ⟨entry, hentries, requireMembers_eq_ok_iff.mp h⟩
    | _ => cases h
  · cases h

/-- The key from an agreement is derived from what two keys have in common, and that is not zero. -/
lemma ofAgreement_of_contentKey {drawn : PublicKey .connect} {key : SymmetricKey}
    (h : contentKey scheme k drawn = .ok key) :
    scheme.shared k.secret drawn.point ≠ FixedBytes.zero 32
      ∧ Derivation.ofAgreement (scheme.shared k.secret drawn.point).toList "A256GCM" [] [] 256
        = .ok key.toList := by
  rw [contentKey_eq] at h
  split at h
  · cases h
  · rename_i hzero
    cases h
    exact ⟨hzero, Derivation.ofAgreement_maxBits _ _⟩

end Agreed

/-! ### Envelopes -/

namespace Message

/-- **An envelope opens only as what was sealed in it.** With keys that a provider gives: the
payload was sealed under a content key that was itself sealed, without further data, for a key that
the provider has. By agreement: the envelope has one recipient, which is this key pair, and the
payload was sealed under the key that follows from the agreement with the key in the envelope. -/
theorem authentic_of_decrypt (g : GcmPrimitives) (scheme : AgreementScheme) (envelope : String)
    (payload : Bytes) :
    (∀ keys : KeyProvider, Wrapped.decrypt g envelope keys = .ok payload →
      ∃ (key : SymmetricKey) (ms : Json.Members) (entries : List Json) (k : WrappedKey)
          (kek : SymmetricKey),
        Authentic g "A256GCMKW" envelope key payload ms
          ∧ ms.get? "recipients" = some (.arr entries)
          ∧ (∃ entry ∈ entries, WrappedKey.IsEntry entry k) ∧ keys k.keyId = .ok kek
          ∧ Gcm.sealWithIv g kek k.wrapped.iv key.toList [] = .ok k.wrapped)
    ∧ ∀ pair : KeyPair .connect, Agreed.decrypt g scheme envelope pair = .ok payload →
      ∃ (key : SymmetricKey) (ms entry header : Json.Members) (epk : Json)
          (drawn : PublicKey .connect),
        Authentic g "ECDH-ES" envelope key payload ms
          ∧ ms.get? "recipients" = some (.arr [.obj entry])
          ∧ entry.get? "header" = some (.obj header)
          ∧ header.get? "kid" = some (.str pair.id)
          ∧ header.get? "epk" = some epk ∧ PublicKey.ofJwk epk = .ok drawn
          ∧ scheme.shared pair.secret drawn.point ≠ FixedBytes.zero 32
          ∧ Derivation.ofAgreement (scheme.shared pair.secret drawn.point).toList "A256GCM" [] [] 256
            = .ok key.toList := by
  constructor
  · intro keys h
    simp only [Wrapped.decrypt, Except.bind_eq_ok_iff] at h
    obtain ⟨e, hparse, entries, hentries, key, hkey, hopen⟩ := h
    obtain ⟨entry, hmem, k, kek, hentry, hkek, hunwrap⟩ :=
      Wrapped.exists_entry_of_contentKey hkey
    exact ⟨key, e.members, entries, k, kek, authentic_of_openPayload hparse hopen,
      requireItems_eq_ok_iff.mp hentries, ⟨entry, hmem, hentry⟩, hkek,
      Wrapped.sealedAs_of_unwrap hunwrap⟩
  · intro pair h
    simp only [Agreed.decrypt, Except.bind_eq_ok_iff, requireText_eq_ok_iff,
      require_eq_ok_iff] at h
    obtain ⟨e, hparse, header, hheader, id, hid, epk, hepk, h⟩ := h
    split_ifs at h with hpair
    simp only [Except.bind_eq_ok_iff] at h
    obtain ⟨drawn, hdrawn, key, hkey, hopen⟩ := h
    obtain ⟨entry, hrecipients, hentry⟩ := Agreed.recipientHeader_eq_ok hheader
    obtain ⟨hshared, hderive⟩ := Agreed.ofAgreement_of_contentKey hkey
    rw [not_not.mp hpair] at hid
    exact ⟨key, e.members, entry, header, epk, drawn, authentic_of_openPayload hparse hopen,
      hrecipients, hentry, hid, hepk, hdrawn, hshared, hderive⟩

/-- An envelope for one key, and one by an agreement on the curve, both of which open. -/
theorem authentic_of_decrypt_one_recipient :
    ∃ (a : NamedKey) (pair : KeyPair .connect) (wrapped agreed : String),
      (Wrapped.decrypt aes256Gcm wrapped (KeyProvider.ofKey a) = .ok [1, 2, 3]
          ∧ ∃ key ms, Authentic aes256Gcm "A256GCMKW" wrapped key [1, 2, 3] ms)
        ∧ Agreed.decrypt aes256Gcm x25519 agreed pair = .ok [1, 2, 3]
          ∧ ∃ key ms, Authentic aes256Gcm "ECDH-ES" agreed key [1, 2, 3] ms := by
  let a : NamedKey := ⟨"a", FixedBytes.ofNatBE 32 1⟩
  let pair : KeyPair .connect := ⟨"me", FixedBytes.ofNatBE 32 2, FixedBytes.zero 32⟩
  let drawn : PublicKey .connect := ⟨"drawn", FixedBytes.ofNatLE 32 9⟩
  have hfits : Gcm.Fits [1, 2, 3] (aad headerText none) := by
    constructor <;> decide +kernel
  obtain ⟨s, hs⟩ := Gcm.sealWithIv_of_fits aes256Gcm (.zero 32) (.zero 12) hfits
  obtain ⟨k, -, hk⟩ := Wrapped.exists_gives_wrapFor aes256Gcm (.zero 32) a (Tape.cyclic [7])
  have hwrapped : Wrapped.decrypt aes256Gcm
      (Json.compact (toJson Envelope.wrappingAlgorithm none ([k].map WrappedKey.toJson) s))
      (KeyProvider.ofKey a) = .ok [1, 2, 3] := by
    obtain ⟨e, hparse, hrecipients, hopen⟩ := @parse_compact_toJson Envelope.wrappingAlgorithm none
      _ _ s (WrappedKey.forall₂_readsAs_toJson [k])
    have hfound : KeyProvider.ofKey a k.keyId = .ok a.key := if_pos hk.keyId_eq.symm
    rw [Wrapped.decrypt_of_parse hparse hrecipients, Wrapped.contentKey_cons_of_ok hfound,
      hk.unwrap_eq]
    exact (hopen aes256Gcm (.zero 32)).trans (Gcm.openSealed_of_sealWithIv hs)
  have hshared : x25519.shared pair.secret drawn.point ≠ FixedBytes.zero 32 := by
    decide +kernel
  have hkey := @Agreed.contentKey_eq x25519 pair drawn
  rw [if_neg hshared] at hkey
  obtain ⟨s', hs'⟩ := Gcm.sealWithIv_of_fits aes256Gcm
    (Derivation.agreementKey (x25519.shared pair.secret drawn.point) Envelope.encryption)
    (.zero 12) hfits
  obtain ⟨jwk, hreads, hjwk⟩ := @PublicKey.exists_readsAs_toJwk _ String.toList 122 drawn
  have hagreed : Agreed.decrypt aes256Gcm x25519
      (Json.compact (toJson Envelope.agreementAlgorithm none
        [Agreed.recipientJson pair.publicKey drawn] s')) pair = .ok [1, 2, 3] := by
    obtain ⟨e, hparse, hrecipients, hopen⟩ := @parse_compact_toJson Envelope.agreementAlgorithm none
      _ _ s' (.cons (Agreed.readsAs_recipientJson hreads) .nil)
    have hid : ¬ pair.publicKey.id ≠ pair.id := not_not.mpr rfl
    rw [Agreed.decrypt_of_parse hparse hrecipients hjwk, if_neg hid, hkey]
    exact (hopen aes256Gcm _).trans (Gcm.openSealed_of_sealWithIv hs')
  obtain ⟨key, ms, -, -, -, hms, -⟩ :=
    (authentic_of_decrypt aes256Gcm x25519 _ [1, 2, 3]).1 _ hwrapped
  obtain ⟨key', ms', -, -, -, -, hms', -⟩ :=
    (authentic_of_decrypt aes256Gcm x25519 _ [1, 2, 3]).2 _ hagreed
  exact ⟨a, pair, _, _, ⟨hwrapped, key, ms, hms⟩, hagreed, key', ms', hms'⟩

end Message

end Signet
