import Mathlib.Tactic
import Signet.Envelope.Wrapped
import Signet.Proofs.Envelope.Message

/-!
Envelopes for several recipients, and who can open them.

* **Entries.** `WrappedKey.ordered` is what the entry of a recipient is read as, and
  `WrappedKey.ofJson_ordered`: it says what was written in it.
* `Wrapped.WrapsFor`: an entry is for a recipient. `exists_gives_wrapFor` is one step of
  sealing, and `Random.gives_mapM` goes through all recipients.
* `Wrapped.answers`: a provider says something about the key of a recipient.
  `contentKey_of_find?_eq_some` and `contentKey_of_find?_eq_none`: going through the
  entries ends at the first recipient of that sort, or with the ids of all of them. The
  inductions are on the recipients together with their entries.
* `Wrapped.gives_encrypt_of_mapM`, `Wrapped.gives_encrypt_of_sealPayload` and
  `Wrapped.decrypt_of_parse`: sealing and opening, up to what they share with other envelopes.
* `Wrapped.decrypt_encrypt_recipients`: what comes of opening an envelope, for any provider.
-/

namespace Signet

/-! ### Entries -/

namespace WrappedKey

open Json.Members (requireText_eq_ok_iff requireMembers_eq_ok_iff requireBytes_eq_ok_iff
  get?_ofList_of_nodup get?_cons)

/-- The header of an entry, with its members in the order of their names. -/
def orderedHeader (k : WrappedKey) : Json.Members :=
  Json.Members.ofList
    [("kid", .str k.keyId), ("iv", .str (Base64.encode k.wrapped.iv.toList)),
      ("tag", .str (Base64.encode k.wrapped.tag.toList))]

/-- The entry of a recipient as it is read, with its members in the order of their names. -/
def ordered (k : WrappedKey) : Json :=
  .obj (Json.Members.ofList
    [("header", .obj k.orderedHeader),
      ("encrypted_key", .str (Base64.encode k.wrapped.ciphertext))])

lemma readsAs_toJson (k : WrappedKey) : Json.ReadsAs String.toList 125 k.toJson k.ordered := by
  refine Json.readsAs_obj (.cons ⟨rfl, ?_⟩ (.cons ⟨rfl, Json.readsAs_str _⟩ .nil))
    (by simp [Json.numberName])
  exact Json.readsAs_obj (Json.memberReadsAs_strings (by simp)) (by simp [Json.numberName])

lemma forall₂_readsAs_toJson (ks : List WrappedKey) :
    List.Forall₂ (Json.ReadsAs String.toList 125) (ks.map toJson) (ks.map ordered) := by
  rw [List.forall₂_map_left_iff, List.forall₂_map_right_iff, List.forall₂_same]
  exact fun k _ => k.readsAs_toJson

/-- The entry of a recipient says what was written in it. -/
lemma ofJson_ordered (k : WrappedKey) : ofJson k.ordered = .ok k := by
  have hheader : k.orderedHeader.get? "kid" = some (.str k.keyId)
      ∧ k.orderedHeader.get? "iv" = some (.str (Base64.encode k.wrapped.iv.toList))
      ∧ k.orderedHeader.get? "tag" = some (.str (Base64.encode k.wrapped.tag.toList)) := by
    simp [orderedHeader, get?_ofList_of_nodup, get?_cons]
  obtain ⟨hid, hiv, htag⟩ := hheader
  simp only [ofJson, ordered, Json.members?, Except.bind_eq_ok_iff, requireMembers_eq_ok_iff,
    requireText_eq_ok_iff, requireBytes_eq_ok_iff, Sealed.ofParts_eq_ok_iff]
  refine ⟨k.orderedHeader, ?_, _, hid, _, ⟨_, hiv, Base64.decode_encode _⟩, _,
    ⟨_, htag, Base64.decode_encode _⟩, _, ⟨_, ?_, Base64.decode_encode _⟩, k.wrapped,
    ⟨rfl, rfl, rfl⟩, rfl⟩ <;> simp [get?_ofList_of_nodup, get?_cons]

end WrappedKey

namespace Wrapped

/-- An entry gives a recipient the content key. -/
structure WrapsFor (g : GcmPrimitives) (key : SymmetricKey) (r : NamedKey) (k : WrappedKey) :
    Prop where
  /-- It names the key of the recipient. -/
  keyId_eq : k.keyId = r.id
  /-- With that key the content key comes out of it. -/
  unwrap_eq : SymmetricKey.unwrap g r.key k.wrapped = .ok key

/-- Wrapping makes an entry for the recipient. -/
lemma exists_gives_wrapFor (g : GcmPrimitives) (key : SymmetricKey) (r : NamedKey) (t : Tape) :
    ∃ k, (wrapFor g key r).Gives t (.ok k) 12 ∧ WrapsFor g key r k := by
  obtain ⟨s, hs, hgives⟩ := SymmetricKey.exists_gives_wrap g r.key key t
  exact ⟨⟨r.id, s⟩, hgives.bind (m := 0) (Random.gives_pure _ _), rfl,
    SymmetricKey.unwrap_of_sealWithIv hs⟩

/-! ### Providers -/

/-- A provider says something about the key of a recipient, other than that there is none. -/
def answers (keys : KeyProvider) (r : NamedKey) : Bool :=
  match keys r.id with
  | .ok _ => true
  | .error e => !e.isNoSuchKey

variable {g : GcmPrimitives} {key : SymmetricKey} {keys : KeyProvider}
  {recipients : List NamedKey} {ks : List WrappedKey}

/-- The entry of a recipient whose key is known is unwrapped. -/
lemma contentKey_cons_of_ok {k : WrappedKey} {found : SymmetricKey}
    (h : keys k.keyId = .ok found) (tried : List String) :
    contentKey g keys tried ((k :: ks).map WrappedKey.ordered)
      = SymmetricKey.unwrap g found k.wrapped := by
  simp only [List.map_cons, contentKey, WrappedKey.ofJson_ordered, h]

/-- The entry of a recipient whose key is unknown is passed over, and any other error is final. -/
lemma contentKey_cons_of_error {k : WrappedKey} {e : Error}
    (h : keys k.keyId = .error e) (tried : List String) :
    contentKey g keys tried ((k :: ks).map WrappedKey.ordered) =
      if e.isNoSuchKey then
        contentKey g keys (tried ++ [k.keyId]) (ks.map WrappedKey.ordered)
      else .error e := by
  simp only [List.map_cons, contentKey, WrappedKey.ofJson_ordered, h]

/-- A recipient without an answer is passed over. -/
lemma contentKey_of_not_answers {r : NamedKey} {k : WrappedKey} (h : WrapsFor g key r k)
    (hr : answers keys r = false) (tried : List String) :
    contentKey g keys tried ((k :: ks).map WrappedKey.ordered)
      = contentKey g keys (tried ++ [r.id]) (ks.map WrappedKey.ordered) := by
  rw [answers, ← h.keyId_eq] at hr
  split at hr
  · cases hr
  · rename_i e he
    have hnone : e.isNoSuchKey = true := by simpa using hr
    rw [contentKey_cons_of_error he, if_pos hnone, h.keyId_eq]

/-- The first recipient with an answer decides. -/
lemma contentKey_of_find?_eq_some (h : List.Forall₂ (WrapsFor g key) recipients ks)
    {r : NamedKey} (hr : recipients.find? (answers keys) = some r) (tried : List String) :
    (keys r.id = .ok r.key → contentKey g keys tried (ks.map WrappedKey.ordered) = .ok key)
      ∧ ∀ e, keys r.id = .error e →
        contentKey g keys tried (ks.map WrappedKey.ordered) = .error e := by
  induction h generalizing tried with
  | nil => cases hr
  | @cons first k recipients ks hk hks ih =>
      cases hfirst : answers keys first with
      | false =>
          rw [List.find?_cons_of_neg (by simp [hfirst])] at hr
          rw [contentKey_of_not_answers hk hfirst]
          exact ih hr _
      | true =>
          rw [List.find?_cons_of_pos hfirst] at hr
          cases hr
          rw [← hk.keyId_eq]
          constructor
          · intro hkey
            rw [contentKey_cons_of_ok hkey]
            exact hk.unwrap_eq
          · intro e he
            rw [answers, ← hk.keyId_eq, he] at hfirst
            have hfinal : ¬ e.isNoSuchKey = true := by simpa using hfirst
            rw [contentKey_cons_of_error he, if_neg hfinal]

/-- Without any answer, all ids are reported. -/
lemma contentKey_of_find?_eq_none (h : List.Forall₂ (WrapsFor g key) recipients ks)
    (hr : recipients.find? (answers keys) = none) (tried : List String) :
    contentKey g keys tried (ks.map WrappedKey.ordered)
      = .error (.noSuchKey (",".intercalate (tried ++ recipients.map NamedKey.id))) := by
  induction h generalizing tried with
  | nil => rw [List.map_nil, contentKey, List.map_nil, List.append_nil]
  | @cons first k recipients ks hk hks ih =>
      rw [List.find?_eq_none, List.forall_mem_cons] at hr
      have hfirst : answers keys first = false := Bool.eq_false_iff.mpr hr.1
      rw [contentKey_of_not_answers hk hfirst, ih (List.find?_eq_none.mpr hr.2), List.map_cons,
        List.append_assoc, List.singleton_append]

/-! ### Sealing and opening -/

/-- Sealing draws a content key, wraps it for the recipients and seals the payload. -/
lemma gives_encrypt_of_mapM {payload : Bytes} (hne : recipients ≠ []) {extra : Option Bytes}
    {t : Tape} {outcome : Except Error String} {n : ℕ}
    (hwrap : (recipients.mapM (wrapFor g (t.slice t.used 32))).Gives (t.advance 32) (.ok ks) n)
    (hseal : (Message.sealPayload g Envelope.wrappingAlgorithm (t.slice t.used 32) payload extra
      (ks.map WrappedKey.toJson)).Gives ((t.advance 32).advance n) outcome 12) :
    (encrypt g payload recipients extra).Gives t outcome (32 + (n + 12)) := by
  have hdraw : (monadLift SymmetricKey.random : Random SymmetricKey).Gives t
      (.ok (t.slice t.used 32)) 32 := Random.gives_liftState rfl
  have hnonempty : recipients.isEmpty = false := by simpa using hne
  rw [encrypt, hnonempty]
  exact hdraw.bind (hwrap.bind hseal)

/-- Sealing makes an entry for each recipient. What comes of it is what comes of sealing the payload
with the content key. -/
lemma gives_encrypt_of_sealPayload (payload : Bytes) (hne : recipients ≠ [])
    (extra : Option Bytes) (t : Tape) :
    ∃ ks, List.Forall₂ (WrapsFor g (t.slice t.used 32)) recipients ks
      ∧ ∀ outcome, (Message.sealPayload g Envelope.wrappingAlgorithm (t.slice t.used 32) payload
          extra (ks.map WrappedKey.toJson)).Gives
            ((t.advance 32).advance (12 * recipients.length)) outcome 12 →
        (encrypt g payload recipients extra).Gives t outcome
          (32 + (12 * recipients.length + 12)) := by
  obtain ⟨ks, hwrap, hks⟩ := Random.gives_mapM (exists_gives_wrapFor g (t.slice t.used 32))
    recipients (t.advance 32)
  exact ⟨ks, hks, fun outcome hseal => gives_encrypt_of_mapM hne hwrap hseal⟩

/-- An envelope is opened with the content key that its entries lead to. -/
lemma decrypt_of_parse {envelope : String} {e : Message} {entries : List Json}
    (hparse : Message.parse Envelope.wrappingAlgorithm envelope = .ok e)
    (hrecipients : e.recipients = .ok entries) (keys : KeyProvider) :
    decrypt g envelope keys = contentKey g keys [] entries >>= e.openPayload g := by
  simp only [decrypt, hparse, hrecipients, bind, Except.bind]

/-- **The first recipient about whose key a provider says anything decides**, whatever it says
about later ones: if it gives the key of that recipient the payload comes out, and an error is
passed on. If it knows none of the keys, all ids are reported. -/
theorem decrypt_encrypt_recipients (g : GcmPrimitives) (payload : Bytes)
    (recipients : List NamedKey) (hne : recipients ≠ []) :
    encrypt g payload recipients (some []) = encrypt g payload recipients none
    ∧ ∀ (extra : Option Bytes) (t : Tape),
      (∃ envelope, (encrypt g payload recipients extra).Gives t (.ok envelope)
          (32 + (12 * recipients.length + 12))
        ∧ ∀ keys : KeyProvider,
          (∀ r, recipients.find? (answers keys) = some r →
            (keys r.id = .ok r.key → decrypt g envelope keys = .ok payload)
            ∧ ∀ e, keys r.id = .error e → decrypt g envelope keys = .error e)
          ∧ (recipients.find? (answers keys) = none → decrypt g envelope keys
            = .error (.noSuchKey (",".intercalate (recipients.map NamedKey.id)))))
      ∨ ¬ Gcm.Fits payload (Message.aad Message.headerText extra)
        ∧ (encrypt g payload recipients extra).Gives t (.error .sealFailed)
          (32 + (12 * recipients.length + 12)) := by
  refine ⟨rfl, fun extra t => ?_⟩
  obtain ⟨ks, hks, hrun⟩ := @gives_encrypt_of_sealPayload g recipients payload hne extra t
  obtain ⟨envelope, e, hseal, hparse, hrecipients, hopen⟩ | ⟨hfits, hseal⟩ :=
    Message.gives_sealPayload g (t.slice t.used 32) payload
      ((t.advance 32).advance (12 * recipients.length)) (WrappedKey.forall₂_readsAs_toJson ks)
  · have hdecrypt := @decrypt_of_parse g envelope e _ hparse hrecipients
    refine .inl ⟨envelope, hrun _ hseal, fun keys => ⟨fun r hr => ?_, fun hnone => ?_⟩⟩
    · obtain ⟨hkey, herror⟩ := contentKey_of_find?_eq_some hks hr []
      constructor
      · intro h
        rw [hdecrypt, hkey h]
        exact hopen
      · intro e h
        rw [hdecrypt, herror e h]
        rfl
    · rw [hdecrypt, contentKey_of_find?_eq_none hks hnone]
      rfl
  · exact .inr ⟨hfits, hrun _ hseal⟩

/-- Of three recipients two have keys of one id, and the provider knows the first of these. -/
theorem decrypt_encrypt_repeated_id :
    ∃ (a b b' : NamedKey) (envelope : String), [a, b, b'] ≠ [] ∧ b.id = b'.id ∧ b.key ≠ b'.key
      ∧ (encrypt aes256Gcm [1, 2, 3] [a, b, b'] (some [9])).Gives (Tape.cyclic [7, 8, 9])
          (.ok envelope) 80
      ∧ decrypt aes256Gcm envelope (KeyProvider.ofKey b) = .ok [1, 2, 3]
      ∧ decrypt aes256Gcm envelope (KeyProvider.ofKey ⟨"c", b.key⟩)
          = .error (.noSuchKey "a,b,b") := by
  let a : NamedKey := ⟨"a", FixedBytes.ofNatBE 32 1⟩
  let b : NamedKey := ⟨"b", FixedBytes.ofNatBE 32 2⟩
  let b' : NamedKey := ⟨"b", FixedBytes.ofNatBE 32 3⟩
  have hne : [a, b, b'] ≠ [] := List.cons_ne_nil _ _
  have hfits : Gcm.Fits [1, 2, 3] (Message.aad Message.headerText (some [9])) := by
    constructor <;> decide +kernel
  obtain ⟨envelope, hgives, hdecrypt⟩ | ⟨hlong, -⟩ :=
    (decrypt_encrypt_recipients aes256Gcm [1, 2, 3] [a, b, b'] hne).2 (some [9])
      (Tape.cyclic [7, 8, 9])
  · refine ⟨a, b, b', envelope, hne, rfl, by decide +kernel, hgives, ?_, ?_⟩
    · exact ((hdecrypt (KeyProvider.ofKey b)).1 b (by decide +kernel)).1 (if_pos rfl)
    · exact (hdecrypt (KeyProvider.ofKey ⟨"c", b.key⟩)).2 (by decide +kernel)
  · exact absurd hfits hlong

end Wrapped

end Signet
