import Mathlib.Tactic
import Signet.Proofs.Cipher.Tampered
import Signet.Proofs.Envelope.Authentic
import Signet.Proofs.Envelope.Compact
import Signet.Proofs.Envelope.Deciding

/-!
Envelopes in which one bit was flipped are not opened.

* `Compact.Tampered`, `Message.Tampered`, `Wrapped.EntryTampered`: two envelopes say the same
  but for one bit of a sealed message, namely of the payload or of the content key in an entry. The
  texts may differ in any way that does not change what they say.
* **Payloads.** `Message.parse_tampered`: what was tampered with is still read, and apart from the
  payload as before. So the content key is found as before, and opening the payload fails
  (`Compact.decrypt_tampered`, `Wrapped.decrypt_tampered`, `Agreed.decrypt_tampered`).
* **Entries.** `Wrapped.skippable_of_not_answers`: the entries of recipients without an answer are
  passed over, so that opening fails at the entry behind them (`Wrapped.decrypt_entryTampered`).
-/

namespace Signet

open Json.Members (requireBytes requireBytes_eq_ok_iff requireText_eq_ok_iff
  requireMembers_eq_ok_iff requireItems_eq_ok_iff)

variable {g : GcmPrimitives}

/-! ### Compact envelopes -/

namespace Compact

/-- Two envelopes have the same header, and one bit of the sealed message is another one. -/
def Tampered (envelope envelope' : String) : Prop :=
  ∃ (header : Bytes) (s s' : Sealed), Spells envelope header s ∧ Spells envelope' header s'
    ∧ s.Tampered s'

/-- An envelope spells one header and one sealed message. -/
lemma Spells.eq {envelope : String} {header header' : Bytes} {s s' : Sealed}
    (h : Spells envelope header s) (h' : Spells envelope header' s') :
    header = header' ∧ s = s' := by
  have hbytes {field : String} {bytes bytes' : Bytes} (hf : Field field bytes)
      (hf' : Field field bytes') : bytes = bytes' :=
    Except.ok.inj (hf.decodes.symm.trans hf'.decodes)
  obtain ⟨f₁, f₂, f₃, f₄, f₅, henvelope, h₁, h₂, h₃, h₄, h₅⟩ := h
  obtain ⟨k₁, k₂, k₃, k₄, k₅, henvelope', h₁', h₂', h₃', h₄', h₅'⟩ := h'
  have hfields := (@map_fields_eq_iff envelope [f₁, f₂, f₃, f₄, f₅] (by simp)).mpr
    ⟨henvelope, by simp [h₁.noDot, h₂.noDot, h₃.noDot, h₄.noDot, h₅.noDot]⟩
  have hfields' := (@map_fields_eq_iff envelope [k₁, k₂, k₃, k₄, k₅] (by simp)).mpr
    ⟨henvelope', by simp [h₁'.noDot, h₂'.noDot, h₃'.noDot, h₄'.noDot, h₅'.noDot]⟩
  rw [hfields] at hfields'
  simp only [List.cons.injEq] at hfields'
  obtain ⟨rfl, rfl, rfl, rfl, rfl, -⟩ := hfields'
  obtain ⟨iv, ciphertext, tag⟩ := s
  obtain ⟨iv', ciphertext', tag'⟩ := s'
  have hiv : iv = iv' := FixedBytes.ext (hbytes h₃ h₃')
  have hciphertext : ciphertext = ciphertext' := hbytes h₄ h₄'
  have htag : tag = tag' := FixedBytes.ext (hbytes h₅ h₅')
  exact ⟨hbytes h₁ h₁', by rw [hiv, hciphertext, htag]⟩

/-- An envelope is opened with the key that its header names. -/
lemma decrypt_of_spells {envelope header id : String} {s : Sealed} {keys : KeyProvider}
    {key : SymmetricKey} (hspells : Spells envelope (Utf8.encode header) s)
    (hheader : IsHeader (Utf8.encode header) id) (hkey : keys id = .ok key) :
    decrypt g envelope keys = Gcm.openSealed g key s (aad header) := by
  have hparse : parse envelope = .ok ⟨header, id, s⟩ := parse_eq_ok_iff.mpr ⟨hspells, hheader⟩
  rw [decrypt, hparse]
  simp only [bind, Except.bind, hkey]

/-- **A tampered envelope is not opened.** -/
theorem decrypt_tampered (hg : g.Lawful) {message : Bytes} {k : NamedKey} {t : Tape}
    {envelope envelope' : String} {n : ℕ} (hkey : (g.cipher k.key).MovesZero)
    (hencrypt : (encrypt g message k).Gives t (.ok envelope) n) {keys : KeyProvider}
    (hkeys : keys k.id = .ok k.key) (ht : Tampered envelope envelope') :
    decrypt g envelope' keys = .error .openFailed := by
  obtain ⟨s, hgives, hopen⟩ | ⟨-, hgives⟩ := gives_encrypt g message k t
  · obtain rfl := Except.ok.inj (hencrypt.outcome_eq hgives)
    obtain ⟨header, s₀, s', hspells, hspells', ht⟩ := ht
    obtain ⟨hheader, hs⟩ := hspells.eq (spells_text (headerText k.id) s)
    rw [hheader] at hspells hspells'
    rw [hs] at hspells ht
    have hopen := hopen keys hkeys
    rw [decrypt_of_spells hspells (isHeader_headerText k.id) hkeys] at hopen
    rw [decrypt_of_spells hspells' (isHeader_headerText k.id) hkeys]
    exact Gcm.openSealed_tampered hg hkey hopen ht
  · cases hencrypt.outcome_eq hgives

/-- What is sealed can be tampered with. -/
lemma exists_gives_tampered (g : GcmPrimitives) {message : Bytes} {k : NamedKey}
    (hfits : Gcm.Fits message (aad (headerText k.id))) (t : Tape) :
    ∃ envelope envelope', (encrypt g message k).Gives t (.ok envelope) 12
      ∧ Tampered envelope envelope' := by
  obtain ⟨s, hgives, -⟩ | ⟨hlong, -⟩ := gives_encrypt g message k t
  · exact ⟨_, _, hgives, _, s, _, spells_text _ s, spells_text _ _, .iv 95 (by norm_num)⟩
  · exact absurd hfits hlong

end Compact

/-! ### Payloads -/

/-- Members spell out a sealed message. -/
structure Json.Members.HasSealed (ms : Json.Members) (s : Sealed) : Prop where
  /-- The IV. -/
  iv : ms.HasBytes "iv" s.iv.toList
  /-- The ciphertext. -/
  ciphertext : ms.HasBytes "ciphertext" s.ciphertext
  /-- The tag. -/
  tag : ms.HasBytes "tag" s.tag.toList

namespace Message

/-- Two envelopes have the same members but for a sealed payload, of which one bit is another
one. -/
def Tampered (envelope envelope' : String) : Prop :=
  ∃ (ms ms' : Json.Members) (s s' : Sealed), Json.parseObject envelope = .ok ms
    ∧ Json.parseObject envelope' = .ok ms'
    ∧ (∀ name, name ∉ ["iv", "ciphertext", "tag"] → ms'.get? name = ms.get? name)
    ∧ ms.HasSealed s ∧ ms'.HasSealed s' ∧ s.Tampered s'

variable {algorithm envelope envelope' : String} {e : Message} {key : SymmetricKey}
  {payload : Bytes}

lemma payload_eq_ok_iff_hasSealed {s : Sealed} : e.payload = .ok s ↔ e.members.HasSealed s := by
  rw [payload_eq_ok_iff, requireBytes_eq_ok_iff, requireBytes_eq_ok_iff, requireBytes_eq_ok_iff]
  exact ⟨fun ⟨hiv, hciphertext, htag⟩ => ⟨hiv, hciphertext, htag⟩,
    fun h => ⟨h.iv, h.ciphertext, h.tag⟩⟩

/-- **Apart from its payload, a tampered envelope is read as before.** -/
theorem parse_tampered (hparse : parse algorithm envelope = .ok e)
    (ht : Tampered envelope envelope') :
    ∃ e' s s', parse algorithm envelope' = .ok e' ∧ e'.recipients = e.recipients
      ∧ e'.header = e.header ∧ e'.extra = e.extra ∧ e.payload = .ok s ∧ e'.payload = .ok s'
      ∧ s.Tampered s' := by
  obtain ⟨ms, ms', s, s', hms, hms', hsame, hs, hs', ht⟩ := ht
  cases hms.symm.trans (parse_eq_ok_iff.mp hparse).1
  refine ⟨⟨ms', e.header⟩, s, s', ?_, ?_, rfl, ?_, payload_eq_ok_iff_hasSealed.mpr hs,
    payload_eq_ok_iff_hasSealed.mpr hs', ht⟩
  · exact parse_of_same_headers hparse hms' (hsame _ (by decide)) (hsame _ (by decide))
  · rw [recipients, recipients, Json.Members.requireItems, Json.Members.require,
      hsame "recipients" (by decide)]
    rfl
  · rw [extra, extra, Json.Members.optionalText, hsame "aad" (by decide)]
    rfl

/-- A tampered payload is not opened. -/
lemma openPayload_tampered (hg : g.Lawful) (hkey : (g.cipher key).MovesZero)
    (hparse : parse algorithm envelope = .ok e) (hopen : e.openPayload g key = .ok payload)
    (ht : Tampered envelope envelope') :
    ∃ e', parse algorithm envelope' = .ok e' ∧ e'.recipients = e.recipients
      ∧ e'.openPayload g key = .error .openFailed := by
  obtain ⟨e', s, s', hparse', hrecipients, hheader, hextra, hs, hs', ht⟩ := parse_tampered hparse ht
  refine ⟨e', hparse', hrecipients, ?_⟩
  simp only [openPayload, Except.bind_eq_ok_iff] at hopen
  obtain ⟨extra, hextra', s₀, hs₀, hopen⟩ := hopen
  cases hs.symm.trans hs₀
  rw [openPayload, hextra, hextra', hs', hheader]
  exact Gcm.openSealed_tampered hg hkey hopen ht

/-- What is written with a sealed payload, and with one bit of it flipped, is tampered with. -/
lemma tampered_toJson {extra : Option Bytes} {recipients recipients' : List Json} {s s' : Sealed}
    (h : List.Forall₂ (Json.ReadsAs String.toList 125) recipients recipients')
    (ht : s.Tampered s') : Tampered (Json.compact (toJson algorithm extra recipients s))
      (Json.compact (toJson algorithm extra recipients s')) := by
  have hsealed (s₀ : Sealed) : Json.Members.HasSealed
      (Json.Members.ofList (entries algorithm extra recipients' s₀)) s₀ := by
    obtain ⟨hciphertext, -, -, -, htag, hiv, -⟩ :=
      @get?_ofList_entries algorithm extra recipients' s₀ _ rfl
    exact ⟨⟨_, hiv, Base64.decode_encode _⟩, ⟨_, hciphertext, Base64.decode_encode _⟩,
      ⟨_, htag, Base64.decode_encode _⟩⟩
  refine ⟨_, _, s, s', (readsAs_toJson h).parseObject, (readsAs_toJson h).parseObject, ?_,
    hsealed s, hsealed s', ht⟩
  intro name hname
  simp only [List.mem_cons, List.not_mem_nil, or_false, not_or] at hname
  obtain ⟨hiv, hciphertext, htag⟩ := hname
  simp only [Json.Members.get?_ofList_of_nodup nodup_entries]
  unfold entries extraMember
  cases Envelope.nonempty extra <;>
    simp [Json.Members.get?_cons, Ne.symm hiv, Ne.symm hciphertext, Ne.symm htag]

/-- What is sealed can be tampered with. -/
lemma exists_gives_tampered {extra : Option Bytes} {recipients recipients' : List Json} {t : Tape}
    (h : List.Forall₂ (Json.ReadsAs String.toList 125) recipients recipients')
    (hfits : Gcm.Fits payload (aad headerText extra)) :
    ∃ s envelope', (sealPayload g algorithm key payload extra recipients).Gives t
        (.ok (Json.compact (toJson algorithm extra recipients s))) 12
      ∧ Tampered (Json.compact (toJson algorithm extra recipients s)) envelope' := by
  obtain ⟨s, hgives, -⟩ | ⟨hlong, -⟩ :=
    SymmetricKey.gives_sealMessage g key payload (aad headerText extra) t
  · exact ⟨s, _, hgives.bind (m := 0) (Random.gives_pure _ _),
      tampered_toJson h (.tag 0 (by norm_num))⟩
  · exact absurd hfits hlong

end Message

/-! ### Envelopes for several recipients -/

namespace WrappedKey

/-- Two entries are for the same key, and one bit of what is wrapped is another one. -/
def Tampered (entry entry' : Json) : Prop :=
  ∃ k k' : WrappedKey, IsEntry entry k ∧ IsEntry entry' k' ∧ k'.keyId = k.keyId
    ∧ k.wrapped.Tampered k'.wrapped

lemma ofJson_of_isEntry {entry : Json} {k : WrappedKey} (h : IsEntry entry k) :
    ofJson entry = .ok k := by
  obtain ⟨ms, header, rfl, hheader, hid, hiv, htag, hkey⟩ := h
  simp only [ofJson, Json.members?, Except.bind_eq_ok_iff, requireMembers_eq_ok_iff,
    requireText_eq_ok_iff, requireBytes_eq_ok_iff, Sealed.ofParts_eq_ok_iff,
    Except.pure_eq_ok_iff]
  exact ⟨header, hheader, k.keyId, hid, _, hiv, _, htag, _, hkey, k.wrapped, ⟨rfl, rfl, rfl⟩, rfl⟩

lemma isEntry_ordered (k : WrappedKey) : IsEntry k.ordered k :=
  isEntry_of_ofJson (ofJson_ordered k)

end WrappedKey

namespace Wrapped

variable {keys : KeyProvider} {key : SymmetricKey} {payload : Bytes}
  {recipients rs rs' : List NamedKey} {r : NamedKey} {extra : Option Bytes} {t : Tape}
  {envelope envelope' : String} {n : ℕ}

/-- Two envelopes have the same members but for the entry behind `i` others, in which one bit of
what is wrapped is another one. -/
def EntryTampered (i : ℕ) (envelope envelope' : String) : Prop :=
  ∃ (ms ms' : Json.Members) (before after : List Json) (entry entry' : Json),
    Json.parseObject envelope = .ok ms ∧ Json.parseObject envelope' = .ok ms'
      ∧ (∀ name, name ≠ "recipients" → ms'.get? name = ms.get? name)
      ∧ ms.get? "recipients" = some (.arr (before ++ entry :: after))
      ∧ ms'.get? "recipients" = some (.arr (before ++ entry' :: after))
      ∧ before.length = i ∧ WrappedKey.Tampered entry entry'

/-- What was sealed is an envelope for the recipients, and its payload opens with the content
key. -/
lemma exists_of_gives_encrypt
    (hencrypt : (encrypt g payload recipients extra).Gives t (.ok envelope) n) :
    ∃ ks e, List.Forall₂ (WrapsFor g (t.slice t.used 32)) recipients ks
      ∧ Message.parse Envelope.wrappingAlgorithm envelope = .ok e
      ∧ e.recipients = .ok (ks.map WrappedKey.ordered)
      ∧ e.openPayload g (t.slice t.used 32) = .ok payload := by
  have hne : recipients ≠ [] := by
    rintro rfl
    have hthrow : (encrypt g payload [] extra).Gives t (.error (.badEnvelope .noRecipient)) 0 := rfl
    cases hencrypt.outcome_eq hthrow
  obtain ⟨ks, hks, hrun⟩ := @gives_encrypt_of_sealPayload g recipients payload hne extra t
  obtain ⟨sealed, e, hseal, hparse, hrecipients, hopen⟩ | ⟨-, hseal⟩ :=
    Message.gives_sealPayload g (t.slice t.used 32) payload
      ((t.advance 32).advance (12 * recipients.length)) (WrappedKey.forall₂_readsAs_toJson ks)
  · obtain rfl := Except.ok.inj (hencrypt.outcome_eq (hrun _ hseal))
    exact ⟨ks, e, hks, hparse, hrecipients, hopen⟩
  · cases hencrypt.outcome_eq (hrun _ hseal)

/-- The entries of recipients without an answer are skippable. -/
lemma skippable_of_not_answers {ks : List WrappedKey} (h : List.Forall₂ (WrapsFor g key) rs ks)
    (hrs : ∀ r ∈ rs, answers keys r = false) :
    ∀ entry ∈ ks.map WrappedKey.ordered, Skippable keys entry := by
  induction h with
  | nil => simp
  | @cons r k rs ks hk hks ih =>
      obtain ⟨hr, hrs⟩ := List.forall_mem_cons.mp hrs
      refine List.forall_mem_cons.mpr ⟨?_, ih hrs⟩
      rw [answers, ← hk.keyId_eq] at hr
      split at hr
      · cases hr
      · rename_i e he
        cases e with
        | noSuchKey id => exact .unknown k.ofJson_ordered he
        | _ => cases hr

/-- The first recipient with an answer gets the content key. -/
lemma contentKey_eq_ok {ks : List WrappedKey}
    (h : List.Forall₂ (WrapsFor g key) (rs ++ r :: rs') ks)
    (hrs : ∀ r ∈ rs, answers keys r = false) (hkeys : keys r.id = .ok r.key) :
    contentKey g keys [] (ks.map WrappedKey.ordered) = .ok key := by
  have hfind : (rs ++ r :: rs').find? (answers keys) = some r := by
    rw [List.find?_append, List.find?_eq_none.mpr fun r hr => by simp [hrs r hr], Option.none_or]
    exact List.find?_cons_of_pos (by rw [answers, hkeys])
  exact (contentKey_of_find?_eq_some h hfind []).1 hkeys

/-- **An envelope whose payload was tampered with is not opened.** -/
theorem decrypt_tampered (hg : g.Lawful)
    (hencrypt : (encrypt g payload (rs ++ r :: rs') extra).Gives t (.ok envelope) n)
    (hkey : (g.cipher (t.slice t.used 32)).MovesZero)
    (hrs : ∀ r ∈ rs, answers keys r = false) (hkeys : keys r.id = .ok r.key)
    (ht : Message.Tampered envelope envelope') :
    decrypt g envelope' keys = .error .openFailed := by
  obtain ⟨ks, e, hks, hparse, hrecipients, hopen⟩ := exists_of_gives_encrypt hencrypt
  obtain ⟨e', hparse', hrecipients', hopen'⟩ := Message.openPayload_tampered hg hkey hparse hopen ht
  rw [decrypt_of_parse hparse' (hrecipients'.trans hrecipients),
    contentKey_eq_ok hks hrs hkeys]
  exact hopen'

/-- What is related one by one to a list with an element in it has an element at the same place. -/
lemma exists_append_of_forall₂ {α β : Type} {R : α → β → Prop} {as as' : List α} {a : α}
    {bs : List β} (h : List.Forall₂ R (as ++ a :: as') bs) :
    ∃ before b after, bs = before ++ b :: after ∧ List.Forall₂ R as before ∧ R a b := by
  induction as generalizing bs with
  | nil =>
      cases h with
      | @cons _ b _ after hb _ => exact ⟨[], b, after, rfl, .nil, hb⟩
  | cons first as ih =>
      cases h with
      | @cons _ b _ bs hb hrest =>
          obtain ⟨before, b', after, rfl, hbefore, hb'⟩ := ih hrest
          exact ⟨b :: before, b', after, rfl, .cons hb hbefore, hb'⟩

/-- A tampered entry ends the search for the content key, if those before it are passed over. -/
lemma contentKey_tampered (hg : g.Lawful) (hkey : (g.cipher r.key).MovesZero)
    {ks : List WrappedKey} (hks : List.Forall₂ (WrapsFor g key) (rs ++ r :: rs') ks)
    (hrs : ∀ r ∈ rs, answers keys r = false) (hkeys : keys r.id = .ok r.key)
    {before after : List Json} {entry entry' : Json}
    (hentries : ks.map WrappedKey.ordered = before ++ entry :: after)
    (hlength : before.length = rs.length) (ht : WrappedKey.Tampered entry entry') :
    contentKey g keys [] (before ++ entry' :: after) = .error .openFailed := by
  obtain ⟨ksBefore, k, ksAfter, rfl, hbefore, hk⟩ := exists_append_of_forall₂ hks
  rw [List.map_append, List.map_cons] at hentries
  have hsame : (ksBefore.map WrappedKey.ordered).length = before.length := by
    rw [List.length_map, ← hbefore.length_eq, hlength]
  obtain ⟨rfl, hrest⟩ := List.append_inj hentries hsame
  rw [List.cons.injEq] at hrest
  obtain ⟨rfl, rfl⟩ := hrest
  obtain ⟨k₀, k', hk₀, hk', hid, hwrapped⟩ := ht
  obtain rfl : k = k₀ :=
    Except.ok.inj ((WrappedKey.ofJson_ordered k).symm.trans (WrappedKey.ofJson_of_isEntry hk₀))
  have hkeys' : keys k'.keyId = .ok r.key := by rw [hid, hk.keyId_eq, hkeys]
  have hfinal : Final keys entry' k' :=
    ⟨WrappedKey.ofJson_of_isEntry hk', fun id hnone => by cases hkeys'.symm.trans hnone⟩
  obtain ⟨bytes, hopen, -⟩ := Except.bind_eq_ok_iff.mp hk.unwrap_eq
  rw [contentKey_skippable_append (skippable_of_not_answers hbefore hrs),
    contentKey_cons_of_final hfinal, hkeys']
  show SymmetricKey.unwrap g r.key k'.wrapped = _
  rw [SymmetricKey.unwrap, Gcm.openSealed_tampered hg hkey hopen hwrapped]
  rfl

/-- **An envelope is not opened if the entry was tampered with whose key is used.** -/
theorem decrypt_entryTampered (hg : g.Lawful)
    (hencrypt : (encrypt g payload (rs ++ r :: rs') extra).Gives t (.ok envelope) n)
    (hkey : (g.cipher r.key).MovesZero)
    (hrs : ∀ r ∈ rs, answers keys r = false) (hkeys : keys r.id = .ok r.key)
    (ht : EntryTampered rs.length envelope envelope') :
    decrypt g envelope' keys = .error .openFailed := by
  obtain ⟨ks, e, hks, hparse, hrecipients, -⟩ := exists_of_gives_encrypt hencrypt
  obtain ⟨ms, ms', before, after, entry, entry', hms, hms', hsame, hentries, hentries', hlength,
    ht⟩ := ht
  cases hms.symm.trans (Message.parse_eq_ok_iff.mp hparse).1
  have hparse' := Message.parse_of_same_headers hparse hms' (hsame _ (by decide))
    (hsame _ (by decide))
  have hordered : ks.map WrappedKey.ordered = before ++ entry :: after := by
    rw [Message.recipients, requireItems_eq_ok_iff] at hrecipients
    simpa using hrecipients.symm.trans hentries
  rw [decrypt_of_parse hparse' (requireItems_eq_ok_iff.mpr hentries'),
    contentKey_tampered hg hkey hks hrs hkeys hordered hlength ht]
  rfl

/-- What is written with an entry, and with one bit of it flipped, is tampered with. -/
lemma entryTampered_toJson {before after : List WrappedKey} {k k' : WrappedKey} {s : Sealed}
    (hid : k'.keyId = k.keyId) (ht : k.wrapped.Tampered k'.wrapped) :
    EntryTampered before.length
      (Json.compact (Message.toJson Envelope.wrappingAlgorithm extra
        ((before ++ k :: after).map WrappedKey.toJson) s))
      (Json.compact (Message.toJson Envelope.wrappingAlgorithm extra
        ((before ++ k' :: after).map WrappedKey.toJson) s)) := by
  have hparse (ks : List WrappedKey) :=
    (@Message.readsAs_toJson Envelope.wrappingAlgorithm extra _ _ s
      (WrappedKey.forall₂_readsAs_toJson ks)).parseObject
  have hentries (ks : List WrappedKey) :=
    (@Message.get?_ofList_entries Envelope.wrappingAlgorithm extra (ks.map WrappedKey.ordered) s _
      rfl).2.2.2.2.2.2
  refine ⟨_, _, before.map WrappedKey.ordered, after.map WrappedKey.ordered, k.ordered, k'.ordered,
    hparse _, hparse _, ?_, ?_, ?_, List.length_map _, k, k', k.isEntry_ordered, k'.isEntry_ordered,
    hid, ht⟩
  · intro name hname
    simp only [Json.Members.get?_ofList_of_nodup Message.nodup_entries]
    unfold Message.entries Message.extraMember
    cases Envelope.nonempty extra <;> simp [Json.Members.get?_cons, Ne.symm hname]
  · rw [hentries, List.map_append, List.map_cons]
  · rw [hentries, List.map_append, List.map_cons]

/-- What is sealed for recipients can be tampered with, in the payload and in any entry. -/
lemma exists_gives_tampered (hfits : Gcm.Fits payload (Message.aad Message.headerText extra)) :
    ∃ envelope withPayload withEntry,
      (encrypt g payload (rs ++ r :: rs') extra).Gives t (.ok envelope)
          (32 + (12 * (rs ++ r :: rs').length + 12))
        ∧ Message.Tampered envelope withPayload ∧ EntryTampered rs.length envelope withEntry := by
  obtain ⟨ks, hks, hrun⟩ :=
    @gives_encrypt_of_sealPayload g (rs ++ r :: rs') payload (by simp) extra t
  obtain ⟨s, envelope', hseal, ht⟩ := Message.exists_gives_tampered
    (WrappedKey.forall₂_readsAs_toJson ks) hfits
  obtain ⟨before, k, after, rfl, hbefore, -⟩ := exists_append_of_forall₂ hks
  let k' : WrappedKey := ⟨k.keyId, { k.wrapped with iv := k.wrapped.iv.flipBit 0 }⟩
  have hentry := @entryTampered_toJson extra before after k k' s rfl (.iv 0 (by norm_num))
  rw [← hbefore.length_eq] at hentry
  exact ⟨_, envelope', _, hrun _ hseal, ht, hentry⟩

end Wrapped

/-! ### Envelopes by key agreement -/

namespace Agreed

variable {scheme : AgreementScheme} {payload : Bytes} {id : String} {secret : FixedBytes 32}
  {t : Tape} {envelope : String} {n : ℕ}

/-- **An envelope for a recipient that was tampered with is not opened** with its key pair. -/
theorem decrypt_tampered (hg : g.Lawful)
    (hscheme : scheme.Commutes (drawnPair scheme t).secret secret) {pair : KeyPair .connect}
    (hpair : pair = .ofSecret scheme.publicOf id secret)
    (hencrypt : (encrypt g scheme payload pair.publicKey).Gives t (.ok envelope) n) :
    ∃ key, contentKey scheme (drawnPair scheme t) pair.publicKey = .ok key
      ∧ ((g.cipher key).MovesZero → ∀ envelope', Message.Tampered envelope envelope' →
        decrypt g scheme envelope' pair = .error .openFailed) := by
  have hkey := @contentKey_eq scheme (drawnPair scheme t) pair.publicKey
  -- The recipient comes to the same key from the other side.
  have hshared : scheme.shared pair.secret (drawnPair scheme t).publicKey.point
      = scheme.shared (drawnPair scheme t).secret pair.publicKey.point := by
    rw [hpair]
    exact hscheme.symm
  have hkey' := @contentKey_eq scheme pair (drawnPair scheme t).publicKey
  rw [hshared, ← hkey] at hkey'
  split at hkey
  · cases hencrypt.outcome_eq (gives_encrypt_of_error hkey)
  · refine ⟨_, hkey, fun hmoves envelope' ht => ?_⟩
    obtain ⟨sealed, e, jwk, hgives, hparse, hrecipients, hjwk, hopen⟩ | ⟨-, hgives⟩ :=
      gives_encrypt payload hkey
    · obtain rfl := Except.ok.inj (hencrypt.outcome_eq hgives)
      obtain ⟨e', hparse', hrecipients', hopen'⟩ :=
        Message.openPayload_tampered hg hmoves hparse hopen ht
      have hid : ¬ pair.publicKey.id ≠ pair.id := not_not.mpr rfl
      rw [decrypt_of_parse hparse' (hrecipients'.trans hrecipients) hjwk, if_neg hid, hkey', hkey]
      exact hopen'
    · cases hencrypt.outcome_eq hgives

/-- What is sealed for a recipient can be tampered with. -/
lemma exists_gives_tampered {recipient : PublicKey .connect} {key : SymmetricKey}
    (hkey : contentKey scheme (drawnPair scheme t) recipient = .ok key)
    (hfits : Gcm.Fits payload (Message.aad Message.headerText none)) :
    ∃ envelope envelope', (encrypt g scheme payload recipient).Gives t (.ok envelope) 56
      ∧ Message.Tampered envelope envelope' := by
  obtain ⟨jwk, hreads, -⟩ := (drawnPair scheme t).publicKey.exists_readsAs_toJwk
  obtain ⟨s, envelope', hseal, ht⟩ := Message.exists_gives_tampered
    (.cons (readsAs_recipientJson hreads) .nil) hfits
  exact ⟨_, envelope', gives_encrypt_of_sealPayload hkey hseal, ht⟩

end Agreed

end Signet
