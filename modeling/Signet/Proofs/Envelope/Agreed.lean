import Mathlib.Tactic
import Signet.Envelope.Agreed
import Signet.Proofs.Envelope.Message
import Signet.Proofs.Key.Export

/-!
Envelopes by key agreement, and that the recipient opens them.

* `AgreementScheme.Commutes`: two secrets have the same in common, seen from either side.
  This is what is assumed of key agreement.
* **Entries.** `Agreed.ordered` is what the entry of the recipient is read as;
  `Agreed.decrypt_of_parse`: opening an envelope with such an entry. The key in it is
  still the one that was drawn (`PublicKey.exists_readsAs_toJwk`).
* `Agreed.gives_encrypt`: sealing, with the key pair that is drawn (`Agreed.drawnPair`);
  `Agreed.gives_encrypt_of_error`: without an agreement there is nothing to seal with.
* `Agreed.decrypt_encrypt_agreed`: what comes of sealing and opening. It fails only where
  the agreement does or there is too much to seal.
-/

namespace Signet

/-- Two secrets have the same in common with each other's public keys. -/
def AgreementScheme.Commutes (scheme : AgreementScheme) (a b : FixedBytes 32) : Prop :=
  scheme.shared a (scheme.publicOf b) = scheme.shared b (scheme.publicOf a)

/-! ### Entries -/

/-- An exported key is still imported as itself after it was written and read. -/
lemma PublicKey.exists_readsAs_toJwk {use : KeyUse} {number : String → List Char} {depth : ℕ}
    (k : PublicKey use) : ∃ jwk, Json.ReadsAs number (depth + 1) k.toJwk jwk
      ∧ ofJwk jwk = .ok k :=
  ⟨_, Jwk.Form.readsAs_toJwk (.publicKey use) k, Jwk.Form.ofJwk_toJwk (.publicKey use) k⟩

namespace Agreed

open Json.Members (requireText requireText_eq_ok_iff requireMembers_eq_ok_iff require
  require_eq_ok_iff get?_ofList_of_nodup get?_cons)

/-- The header of the recipient as it is read, with its members in the order of their names. -/
def orderedHeader (id : String) (jwk : Json) : Json.Members :=
  Json.Members.ofList [("kid", .str id), ("epk", jwk)]

/-- The entry of the recipient as it is read. -/
def ordered (id : String) (jwk : Json) : Json :=
  .obj (Json.Members.ofList [("header", .obj (orderedHeader id jwk))])

lemma readsAs_recipientJson {recipient drawn : PublicKey .connect} {jwk : Json}
    (h : Json.ReadsAs String.toList 123 drawn.toJwk jwk) :
    Json.ReadsAs String.toList 125 (recipientJson recipient drawn) (ordered recipient.id jwk) := by
  have hheader : Json.ReadsAs String.toList 124
      (.obj [("kid", .str recipient.id), ("epk", drawn.toJwk)])
      (.obj (orderedHeader recipient.id jwk)) :=
    Json.readsAs_obj (.cons ⟨rfl, Json.readsAs_str _⟩ (.cons ⟨rfl, h⟩ .nil))
      (by simp [Json.numberName])
  exact Json.readsAs_obj (.cons ⟨rfl, hheader⟩ .nil) (by simp [Json.numberName])

/-- The header of the only recipient is found. -/
lemma recipientHeader_eq {e : Message} {id : String} {jwk : Json}
    (h : e.recipients = .ok [ordered id jwk]) :
    recipientHeader e = .ok (orderedHeader id jwk) := by
  simp only [recipientHeader, Except.bind_eq_ok_iff]
  refine ⟨_, h, ?_⟩
  simp only [ordered, Json.members?, requireMembers_eq_ok_iff]
  rw [get?_ofList_of_nodup (by simp)]
  rfl

variable {g : GcmPrimitives} {scheme : AgreementScheme}

/-- An envelope for a recipient is for nobody with another id, and the recipient opens it with the
key from the agreement. -/
lemma decrypt_of_parse {envelope : String} {e : Message} {id : String} {jwk : Json}
    {drawn : PublicKey .connect}
    (hparse : Message.parse Envelope.agreementAlgorithm envelope = .ok e)
    (hrecipients : e.recipients = .ok [ordered id jwk]) (hjwk : PublicKey.ofJwk jwk = .ok drawn)
    (k : KeyPair .connect) :
    decrypt g scheme envelope k =
      if id ≠ k.id then .error (.noSuchKey id)
      else contentKey scheme k drawn >>= e.openPayload g := by
  have hid : requireText (orderedHeader id jwk) "kid" = .ok id := by
    rw [requireText_eq_ok_iff, orderedHeader, get?_ofList_of_nodup (by simp)]
    simp [get?_cons]
  have hepk : require (orderedHeader id jwk) "epk" = .ok jwk := by
    rw [require_eq_ok_iff, orderedHeader, get?_ofList_of_nodup (by simp)]
    simp [get?_cons]
  simp only [decrypt, hparse, recipientHeader_eq hrecipients, hid, hepk, hjwk, bind, Except.bind]
  split <;> rfl

/-! ### Sealing and opening -/

/-- What the two sides have in common decides about the content key. -/
lemma contentKey_eq (ours : KeyPair .connect) (theirs : PublicKey .connect) :
    contentKey scheme ours theirs =
      if scheme.shared ours.secret theirs.point = FixedBytes.zero 32 then .error .agreementFailed
      else .ok (Derivation.agreementKey (scheme.shared ours.secret theirs.point)
        Envelope.encryption) := by
  rw [contentKey, KeyPair.agree]
  split <;> rfl

/-- The key pair that is drawn for an envelope. -/
def drawnPair (scheme : AgreementScheme) (t : Tape) : KeyPair .connect :=
  .ofSecret scheme.publicOf (Base64.encode (t.slice t.used 12).toList) (t.slice (t.used + 12) 32)

lemma gives_random (scheme : AgreementScheme) (t : Tape) :
    (monadLift (KeyPair.random scheme.publicOf : StateM Tape (KeyPair .connect)) :
      Random (KeyPair .connect)).Gives t (.ok (drawnPair scheme t)) 44 :=
  Random.gives_liftState rfl

/-- Sealing draws a key pair, agrees on the content key and seals the payload. -/
lemma gives_encrypt_of_sealPayload {payload : Bytes} {recipient : PublicKey .connect} {t : Tape}
    {key : SymmetricKey} {outcome : Except Error String}
    (hkey : contentKey scheme (drawnPair scheme t) recipient = .ok key)
    (hseal : (Message.sealPayload g Envelope.agreementAlgorithm key payload none
      [recipientJson recipient (drawnPair scheme t).publicKey]).Gives (t.advance 44) outcome 12) :
    (encrypt g scheme payload recipient).Gives t outcome 56 := by
  refine (gives_random scheme t).bind (m := 12) ?_
  rw [hkey]
  exact hseal

/-- Without an agreement nothing is sealed. -/
lemma gives_encrypt_of_error {payload : Bytes} {recipient : PublicKey .connect} {t : Tape}
    {e : Error} (hkey : contentKey scheme (drawnPair scheme t) recipient = .error e) :
    (encrypt g scheme payload recipient).Gives t (.error e) 44 := by
  refine (gives_random scheme t).bind (m := 0) ?_
  rw [hkey]
  exact (Random.gives_liftExcept _ _).bind_error

/-- Sealing gives the recipient the public half of the drawn key pair, unless there is too much to
seal. -/
lemma gives_encrypt (payload : Bytes) {recipient : PublicKey .connect} {t : Tape}
    {key : SymmetricKey} (hkey : contentKey scheme (drawnPair scheme t) recipient = .ok key) :
    (∃ (envelope : String) (e : Message) (jwk : Json),
        (encrypt g scheme payload recipient).Gives t (.ok envelope) 56
          ∧ Message.parse Envelope.agreementAlgorithm envelope = .ok e
          ∧ e.recipients = .ok [ordered recipient.id jwk]
          ∧ PublicKey.ofJwk jwk = .ok (drawnPair scheme t).publicKey
          ∧ e.openPayload g key = .ok payload)
      ∨ Gcm.maxLength < payload.length
        ∧ (encrypt g scheme payload recipient).Gives t (.error .sealFailed) 56 := by
  obtain ⟨jwk, hreads, hjwk⟩ := (drawnPair scheme t).publicKey.exists_readsAs_toJwk
  have hentry := @readsAs_recipientJson recipient _ jwk hreads
  obtain ⟨envelope, e, hseal, hparse, hrecipients, hopen⟩ | ⟨hfits, hseal⟩ :=
    Message.gives_sealPayload g key payload (t.advance 44) (.cons hentry .nil)
  · exact .inl ⟨envelope, e, jwk, gives_encrypt_of_sealPayload hkey hseal, hparse, hrecipients,
      hjwk, hopen⟩
  · have haad : (Message.aad Message.headerText none).length ≤ Gcm.maxLength := by decide +kernel
    exact .inr ⟨not_le.mp fun h => hfits ⟨h, haad⟩, gives_encrypt_of_sealPayload hkey hseal⟩

/-- **What is sealed for a recipient opens with its key pair**, and is for nobody with another id.
Sealing fails if the drawn secret and the recipient's key have nothing in common, or if there is
too much to seal. -/
theorem decrypt_encrypt_agreed (g : GcmPrimitives) (scheme : AgreementScheme) (payload : Bytes)
    (id : String) (secret : FixedBytes 32) (t : Tape)
    (hscheme : scheme.Commutes (drawnPair scheme t).secret secret) :
    let pair : KeyPair .connect := .ofSecret scheme.publicOf id secret
    scheme.shared (drawnPair scheme t).secret pair.point = FixedBytes.zero 32
        ∧ (encrypt g scheme payload pair.publicKey).Gives t (.error .agreementFailed) 44
      ∨ (∃ envelope, (encrypt g scheme payload pair.publicKey).Gives t (.ok envelope) 56
        ∧ decrypt g scheme envelope pair = .ok payload
        ∧ ∀ other : KeyPair .connect, other.id ≠ id →
          decrypt g scheme envelope other = .error (.noSuchKey id))
      ∨ Gcm.maxLength < payload.length
        ∧ (encrypt g scheme payload pair.publicKey).Gives t (.error .sealFailed) 56 := by
  intro pair
  have hkey := @contentKey_eq scheme (drawnPair scheme t) pair.publicKey
  -- The recipient comes to the same key from the other side.
  have hshared : scheme.shared pair.secret (drawnPair scheme t).publicKey.point
      = scheme.shared (drawnPair scheme t).secret pair.publicKey.point := hscheme.symm
  have hkey' := @contentKey_eq scheme pair (drawnPair scheme t).publicKey
  rw [hshared, ← hkey] at hkey'
  split at hkey
  · rename_i hzero
    exact .inl ⟨hzero, gives_encrypt_of_error hkey⟩
  · refine .inr ((gives_encrypt payload hkey).imp_left ?_)
    rintro ⟨envelope, e, jwk, hgives, hparse, hrecipients, hjwk, hopen⟩
    refine ⟨envelope, hgives, ?_, fun other hother => ?_⟩
    · have hid : ¬ pair.publicKey.id ≠ pair.id := not_not.mpr rfl
      rw [decrypt_of_parse hparse hrecipients hjwk, if_neg hid, hkey', hkey]
      exact hopen
    · rw [decrypt_of_parse hparse hrecipients hjwk]
      exact if_pos (Ne.symm hother)

/-- With the curve itself, for a recipient whose key id has quotes. -/
theorem decrypt_encrypt_x25519 :
    ∃ (pair : KeyPair .connect) (t : Tape) (envelope : String),
      x25519.Commutes (drawnPair x25519 t).secret pair.secret
        ∧ (encrypt aes256Gcm x25519 [1, 2, 3] pair.publicKey).Gives t (.ok envelope) 56
        ∧ decrypt aes256Gcm x25519 envelope pair = .ok [1, 2, 3]
        ∧ decrypt aes256Gcm x25519 envelope ⟨"you", pair.secret, pair.point⟩
          = .error (.noSuchKey "\"me\"") := by
  let t := Tape.cyclic [7, 8, 9]
  have hcommutes : x25519.Commutes (drawnPair x25519 t).secret (FixedBytes.ofNatBE 32 2) := by
    rw [AgreementScheme.Commutes]
    decide +kernel
  refine ⟨.ofSecret x25519.publicOf "\"me\"" (.ofNatBE 32 2), t, ?_⟩
  obtain ⟨hzero, -⟩ | ⟨envelope, hgives, hdecrypt, hother⟩ | ⟨hlong, -⟩ :=
    decrypt_encrypt_agreed aes256Gcm x25519 [1, 2, 3] "\"me\"" (FixedBytes.ofNatBE 32 2) t hcommutes
  · have hne : x25519.shared (drawnPair x25519 t).secret (x25519.publicOf (.ofNatBE 32 2))
        ≠ FixedBytes.zero 32 := by
      decide +kernel
    exact absurd hzero hne
  · exact ⟨envelope, hcommutes, hgives, hdecrypt, hother _ (by decide)⟩
  · exact absurd hlong (by decide)

end Agreed

end Signet
