import Mathlib.Tactic
import Signet.Proofs.Envelope.Wrapped
import Signet.Proofs.Json.Reread

/-!
One entry of an envelope decides what comes of opening it.

* **Entries.** `Wrapped.Skippable`: an entry is malformed, or there is no key for its id.
  `WrappedKey.keyId?` is the id that an entry is tried with, and `Wrapped.IsDeciding` singles out
  the first entry that is not skippable.
* **Going through the entries.** One step passes over an entry that is skippable
  (`contentKey_cons_of_skippable`) and ends at one that is not (`contentKey_cons_of_final`).
  `contentKey_skippable_append` takes this through all entries before the deciding one, by
  induction on them; the ids that were tried are all that remains.
* **Envelopes.** `Message.openPayload_of_same_members`: the payload does not depend on the
  recipients. So `Wrapped.decrypt_of_isDeciding` says what an envelope comes to, and
  `Wrapped.decrypt_decided` that among its recipients only the deciding one matters.
-/

namespace Signet

variable {g : GcmPrimitives} {keys : KeyProvider}

/-! ### Entries -/

/-- The id of the key that an entry is for, unless the entry is malformed. -/
def WrappedKey.keyId? (entry : Json) : Option String :=
  (WrappedKey.ofJson entry).toOption.map WrappedKey.keyId

namespace Wrapped

/-- An entry is passed over. -/
inductive Skippable (keys : KeyProvider) (entry : Json) : Prop
  /-- It is malformed. -/
  | malformed {e : Error} (malformed : WrappedKey.ofJson entry = .error e) :
      Skippable keys entry
  /-- There is no key for the id that it names. -/
  | unknown {k : WrappedKey} {id : String} (wellFormed : WrappedKey.ofJson entry = .ok k)
      (unknown : keys k.keyId = .error (.noSuchKey id)) : Skippable keys entry

/-- An entry is well-formed, and what the provider says about its key is not that there is none. -/
structure Final (keys : KeyProvider) (entry : Json) (k : WrappedKey) : Prop where
  /-- The entry says what is wrapped, and for which key. -/
  wellFormed : WrappedKey.ofJson entry = .ok k
  /-- There is a key, or another error. -/
  known : ∀ id, keys k.keyId ≠ .error (.noSuchKey id)

lemma exists_final_iff {entry : Json} : (∃ k, Final keys entry k) ↔ ¬ Skippable keys entry := by
  constructor
  · rintro ⟨k, hwell, hknown⟩ hskip
    cases hskip with
    | malformed malformed => cases hwell.symm.trans malformed
    | unknown wellFormed unknown =>
        cases hwell.symm.trans wellFormed
        exact hknown _ unknown
  · intro hskip
    cases hentry : WrappedKey.ofJson entry with
    | error e => exact absurd (.malformed hentry) hskip
    | ok k => exact ⟨k, hentry, fun id hid => hskip (.unknown hentry hid)⟩

/-- The first entry that is not skippable. -/
def IsDeciding (keys : KeyProvider) (entries : List Json) (d : Json) : Prop :=
  ∃ before after, entries = before ++ d :: after ∧ (∀ entry ∈ before, Skippable keys entry)
    ∧ ¬ Skippable keys d

/-- There is a deciding entry unless all entries are skippable. -/
lemma exists_isDeciding_iff {entries : List Json} :
    (∃ d, IsDeciding keys entries d) ↔ ∃ entry ∈ entries, ¬ Skippable keys entry := by
  constructor
  · rintro ⟨d, before, after, rfl, -, hd⟩
    exact ⟨d, by simp, hd⟩
  · intro h
    induction entries with
    | nil =>
        obtain ⟨entry, hmem, -⟩ := h
        cases hmem
    | cons first rest ih =>
        by_cases hfirst : Skippable keys first
        · obtain ⟨entry, hmem, hentry⟩ := h
          rcases List.mem_cons.mp hmem with rfl | hmem
          · exact absurd hfirst hentry
          · obtain ⟨d, before, after, rfl, hbefore, hd⟩ := ih ⟨entry, hmem, hentry⟩
            exact ⟨d, first :: before, after, rfl, List.forall_mem_cons.mpr ⟨hfirst, hbefore⟩, hd⟩
        · exact ⟨first, [], rest, rfl, by simp, hfirst⟩

/-! ### Going through the entries -/

/-- An entry that is skippable is passed over, and its id noted. -/
lemma contentKey_cons_of_skippable {entry : Json} (h : Skippable keys entry)
    (tried : List String) (rest : List Json) :
    contentKey g keys tried (entry :: rest)
      = contentKey g keys (tried ++ (WrappedKey.keyId? entry).toList) rest := by
  cases h with
  | malformed malformed =>
      have hnone : WrappedKey.keyId? entry = none := by
        rw [WrappedKey.keyId?, malformed]
        rfl
      rw [contentKey, malformed, hnone, Option.toList_none, List.append_nil]
  | @unknown k id wellFormed unknown =>
      have hsome : WrappedKey.keyId? entry = some k.keyId := by
        rw [WrappedKey.keyId?, wellFormed]
        rfl
      simp only [contentKey, wellFormed, unknown, hsome, Error.isNoSuchKey, if_true,
        Option.toList_some]

/-- At an entry that is not skippable it is decided, and what follows is not looked at. -/
lemma contentKey_cons_of_final {entry : Json} {k : WrappedKey} (h : Final keys entry k)
    (tried : List String) (rest : List Json) :
    contentKey g keys tried (entry :: rest)
      = keys k.keyId >>= fun key => SymmetricKey.unwrap g key k.wrapped := by
  simp only [contentKey, h.wellFormed]
  cases hkey : keys k.keyId with
  | ok key => rfl
  | error e =>
      cases e with
      | noSuchKey id => exact absurd hkey (h.known id)
      | _ => rfl

/-- **All entries that are skippable are passed over**, and their ids noted. -/
theorem contentKey_skippable_append {before : List Json}
    (h : ∀ entry ∈ before, Skippable keys entry) (tried : List String) (rest : List Json) :
    contentKey g keys tried (before ++ rest)
      = contentKey g keys (tried ++ before.filterMap WrappedKey.keyId?) rest := by
  induction before generalizing tried with
  | nil => rw [List.nil_append, List.filterMap_nil, List.append_nil]
  | cons entry before ih =>
      obtain ⟨hentry, hbefore⟩ := List.forall_mem_cons.mp h
      rw [List.cons_append, contentKey_cons_of_skippable hentry, ih hbefore, List.append_assoc]
      cases hid : WrappedKey.keyId? entry with
      | none => rw [List.filterMap_cons_none hid, Option.toList_none, List.nil_append]
      | some id => rw [List.filterMap_cons_some hid, Option.toList_some, List.singleton_append]

end Wrapped

/-! ### Envelopes -/

namespace Message

variable {e e' : Message}

/-- The payload of an envelope does not depend on its recipients. -/
lemma openPayload_of_same_members (hheader : e'.header = e.header)
    (h : ∀ name, name ≠ "recipients" → e'.members.get? name = e.members.get? name)
    (g : GcmPrimitives) (key : SymmetricKey) : e'.openPayload g key = e.openPayload g key := by
  have hextra : e'.extra = e.extra := by
    rw [extra, extra, Json.Members.optionalText, h "aad" (by decide)]
    rfl
  have hpayload : e'.payload = e.payload := by
    simp only [payload, Json.Members.requireBytes, Json.Members.requireText,
      Json.Members.require, h "iv" (by decide), h "ciphertext" (by decide), h "tag" (by decide)]
  rw [openPayload, openPayload, hextra, hpayload, hheader]

end Message

namespace Wrapped

/-- What an envelope comes to whose deciding entry is known. -/
lemma decrypt_of_isDeciding {envelope : String} {e : Message} {entries : List Json} {d : Json}
    {k : WrappedKey} (hparse : Message.parse Envelope.wrappingAlgorithm envelope = .ok e)
    (hrecipients : e.recipients = .ok entries) (hd : IsDeciding keys entries d)
    (hk : Final keys d k) :
    decrypt g envelope keys
      = (keys k.keyId >>= fun key => SymmetricKey.unwrap g key k.wrapped) >>= e.openPayload g := by
  obtain ⟨before, after, rfl, hbefore, -⟩ := hd
  rw [decrypt_of_parse hparse hrecipients, contentKey_skippable_append hbefore,
    contentKey_cons_of_final hk]

/-- **One entry decides.** Whether an envelope that is read opens depends on the first of its
entries that is not skippable: an error of the provider or of unwrapping is final, and a content key
that comes out is the one that the payload is opened with. Any envelope with the same deciding entry
and the same members beside the recipients comes to the same, whatever is skippable before that
entry and whatever stands behind it. If all entries are skippable, the ids of those that are not
malformed are reported in their order. -/
theorem decrypt_decided (g : GcmPrimitives) (keys : KeyProvider) {envelope : String}
    {e : Message} {entries : List Json}
    (hparse : Message.parse Envelope.wrappingAlgorithm envelope = .ok e)
    (hrecipients : e.recipients = .ok entries) :
    ((∃ d, IsDeciding keys entries d) ↔ ∃ entry ∈ entries, ¬ Skippable keys entry)
    ∧ (∀ d, IsDeciding keys entries d → ∃ k, WrappedKey.ofJson d = .ok k
      ∧ (∀ err, keys k.keyId = .error err → decrypt g envelope keys = .error err)
      ∧ (∀ key, keys k.keyId = .ok key →
        (∀ err, SymmetricKey.unwrap g key k.wrapped = .error err →
          decrypt g envelope keys = .error err)
        ∧ ∀ unwrapped, SymmetricKey.unwrap g key k.wrapped = .ok unwrapped →
          decrypt g envelope keys = e.openPayload g unwrapped)
      ∧ ∀ (envelope' : String) (ms : Json.Members) (entries' : List Json),
        Json.parseObject envelope' = .ok ms →
        (∀ name, name ≠ "recipients" → ms.get? name = e.members.get? name) →
        ms.get? "recipients" = some (.arr entries') → IsDeciding keys entries' d →
        decrypt g envelope' keys = decrypt g envelope keys)
    ∧ ((∀ entry ∈ entries, Skippable keys entry) → decrypt g envelope keys
      = .error (.noSuchKey (",".intercalate (entries.filterMap WrappedKey.keyId?)))) := by
  refine ⟨exists_isDeciding_iff, fun d hd => ?_, fun hall => ?_⟩
  · obtain ⟨k, hk⟩ : ∃ k, Final keys d k := by
      obtain ⟨before, after, -, -, hfinal⟩ := hd
      exact exists_final_iff.mpr hfinal
    have hdecrypt := decrypt_of_isDeciding (g := g) hparse hrecipients hd hk
    refine ⟨k, hk.wellFormed, fun err herr => ?_, fun key hkey => ⟨fun err herr => ?_,
      fun unwrapped hunwrapped => ?_⟩, ?_⟩
    · rw [hdecrypt, herr]
      rfl
    · rw [hdecrypt, hkey]
      simp only [bind, Except.bind, herr]
    · rw [hdecrypt, hkey]
      simp only [bind, Except.bind, hunwrapped]
    · intro envelope' ms entries' hms hsame hrecipients' hd'
      have hparse' := Message.parse_of_same_headers hparse hms (hsame _ (by decide))
        (hsame _ (by decide))
      have hpayload : Message.openPayload g ⟨ms, e.header⟩ = e.openPayload g := by
        funext key
        exact @Message.openPayload_of_same_members e ⟨ms, e.header⟩ rfl hsame g key
      have hdecrypt' := decrypt_of_isDeciding (g := g) hparse'
        (Json.Members.requireItems_eq_ok_iff.mpr hrecipients') hd' hk
      rw [hdecrypt, hdecrypt', hpayload]
  · have hskipped := contentKey_skippable_append (g := g) hall [] []
    rw [List.append_nil, List.nil_append] at hskipped
    rw [decrypt_of_parse hparse hrecipients, hskipped]
    rfl

/-- A malformed entry and one for a key that is not there are passed over. At the third entry the
provider fails, and that is final although it has the key of the fourth. A provider without keys is
asked for all three ids. -/
theorem decrypt_decided_third_entry :
    let k (id : String) : WrappedKey := ⟨id, ⟨.ofNatBE 12 1, [], .ofNatBE 16 2⟩⟩
    let entries : List Json := [.null, (k "a").ordered, (k "b").ordered, (k "c").ordered]
    let keys : KeyProvider := fun id =>
      if id = "b" then .error .agreementFailed else KeyProvider.ofKey ⟨"c", .ofNatBE 32 3⟩ id
    ∃ envelope e, Message.parse Envelope.wrappingAlgorithm envelope = .ok e
      ∧ e.recipients = .ok entries
      ∧ decrypt aes256Gcm envelope keys = .error .agreementFailed
      ∧ decrypt aes256Gcm envelope (KeyProvider.ofList []) = .error (.noSuchKey "a,b,c") := by
  intro k entries keys
  have hreads : List.Forall₂ (Json.ReadsAs String.toList 125)
      (.null :: [k "a", k "b", k "c"].map WrappedKey.toJson) entries :=
    .cons Json.readsAs_null (WrappedKey.forall₂_readsAs_toJson _)
  obtain ⟨e, hparse, hrecipients, -⟩ := @Message.parse_compact_toJson Envelope.wrappingAlgorithm
    none _ _ (k "a").wrapped hreads
  have hentry (id : String) := (k id).ofJson_ordered
  have hnull : WrappedKey.ofJson .null = .error (.wrongType "recipients[]") := rfl
  refine ⟨_, e, hparse, hrecipients, ?_, ?_⟩
  · have hdeciding : IsDeciding keys entries (k "b").ordered := by
      refine ⟨[.null, (k "a").ordered], [(k "c").ordered], rfl, ?_, ?_⟩
      · have ha : Skippable keys (k "a").ordered := .unknown (hentry "a") rfl
        exact List.forall_mem_cons.mpr ⟨.malformed hnull, List.forall_mem_singleton.mpr ha⟩
      · exact exists_final_iff.mp ⟨k "b", hentry "b", fun id hid => by cases hid⟩
    obtain ⟨kb, hkb, herror, -⟩ :=
      (decrypt_decided aes256Gcm keys hparse hrecipients).2.1 _ hdeciding
    cases (hentry "b").symm.trans hkb
    exact herror _ rfl
  · have hall : ∀ entry ∈ entries, Skippable (KeyProvider.ofList []) entry := by
      refine List.forall_mem_cons.mpr ⟨.malformed hnull, ?_⟩
      have hunknown (id : String) : Skippable (KeyProvider.ofList []) (k id).ordered :=
        .unknown (hentry id) rfl
      simp [hunknown]
    have hids : entries.filterMap WrappedKey.keyId? = ["a", "b", "c"] := by
      simp [entries, WrappedKey.keyId?, hentry, hnull, Except.toOption, k]
    rw [(decrypt_decided aes256Gcm _ hparse hrecipients).2.2 hall, hids]
    rfl

end Wrapped

end Signet
