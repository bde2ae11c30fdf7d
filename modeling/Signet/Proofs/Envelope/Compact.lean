import Mathlib.Tactic
import Signet.Envelope.Compact
import Signet.Proofs.Cipher.Sealing
import Signet.Proofs.Json.Members
import Signet.Proofs.Json.Written
import Signet.Proofs.Text.Padding

/-!
Compact envelopes: which texts are opened, and that what was sealed is.

* **Fields.** `map_fields_eq_iff`: the fields of a text are what it is joined of.
* **Texts.** `Spells` and `IsHeader` say what an envelope and its header are, with no
  reference to how they are read; `parse_eq_ok_iff`: reading finds just that.
  `Spells.unpadded_eq`: up to padding an envelope has one text.
* `decrypt_eq_ok_iff_sealed`: an envelope is opened exactly if sealing makes it.
* `decrypt_encrypt`: what is sealed for a key or with a shared secret opens again. Both go
  through the one text that is written (`spells_append`, `isHeader_headerText`), and
  `length_aad_headerText_le` bounds what its header adds to the sealed data.
-/

namespace Signet

namespace Compact

open Json.Members (requireText_eq_ok_iff contains_eq_false_iff)

/-! ### Fields -/

lemma fields_of_notMem {f : List Char} (h : '.' ∉ f) : fields f = [f] := by
  induction f with
  | nil => rfl
  | cons c f ih =>
      rw [List.mem_cons, not_or] at h
      rw [fields, if_neg (Ne.symm h.1), ih h.2]

lemma fields_append {f : List Char} (h : '.' ∉ f) (rest : List Char) :
    fields (f ++ '.' :: rest) = f :: fields rest := by
  induction f with
  | nil => rfl
  | cons c f ih =>
      rw [List.mem_cons, not_or] at h
      rw [List.cons_append, fields, if_neg (Ne.symm h.1), ih h.2]

/-- Fields that were joined by dots are told apart again, if there are no dots in them. -/
lemma fields_intercalate {fs : List (List Char)} (hne : fs ≠ []) (h : ∀ f ∈ fs, '.' ∉ f) :
    fields (['.'].intercalate fs) = fs := by
  induction fs with
  | nil => exact absurd rfl hne
  | cons f fs ih =>
      rw [List.forall_mem_cons] at h
      cases fs with
      | nil =>
          rw [List.intercalate_singleton]
          exact fields_of_notMem h.1
      | cons f' fs =>
          rw [List.intercalate_cons_cons, List.append_assoc, List.singleton_append,
            fields_append h.1, ih (List.cons_ne_nil _ _) h.2]

/-- The fields of a text have no dots in them, and joined by dots they make the text. -/
lemma intercalate_fields (s : List Char) :
    fields s ≠ [] ∧ (∀ f ∈ fields s, '.' ∉ f) ∧ ['.'].intercalate (fields s) = s := by
  induction s with
  | nil => simp [fields]
  | cons c s ih =>
      obtain ⟨hne, hdots, hjoin⟩ := ih
      rw [fields]
      cases hs : fields s with
      | nil => exact absurd hs hne
      | cons f fs =>
          rw [hs] at hdots hjoin
          dsimp only
          -- A dot begins another field; any other character belongs to the first one.
          split
          · rename_i hc
            refine ⟨List.cons_ne_nil _ _, ?_, ?_⟩
            · exact List.forall_mem_cons.mpr ⟨List.not_mem_nil, hdots⟩
            · rw [List.intercalate_cons_cons, hjoin, hc]
              rfl
          · rename_i hc
            rw [List.forall_mem_cons] at hdots
            refine ⟨List.cons_ne_nil _ _, List.forall_mem_cons.mpr ⟨?_, hdots.2⟩, ?_⟩
            · rw [List.mem_cons, not_or]
              exact ⟨Ne.symm hc, hdots.1⟩
            · rw [← hjoin]
              cases fs <;> simp [List.intercalate_cons_cons]

/-- A text has certain fields if it is those fields joined by dots. -/
lemma map_fields_eq_iff {text : String} {fs : List String} (hne : fs ≠ []) :
    (fields text.toList).map String.ofList = fs ↔
      text = ".".intercalate fs ∧ ∀ f ∈ fs, '.' ∉ f.toList := by
  have hjoined : (".".intercalate fs).toList = ['.'].intercalate (fs.map String.toList) :=
    String.toList_intercalate
  constructor
  · rintro rfl
    obtain ⟨-, hdots, hjoin⟩ := intercalate_fields text.toList
    refine ⟨String.toList_injective ?_, ?_⟩
    · rw [hjoined, List.map_map]
      simpa [Function.comp_def] using hjoin.symm
    · simpa using hdots
  · rintro ⟨rfl, hdots⟩
    rw [hjoined, fields_intercalate (by simpa using hne) (by simpa using hdots), List.map_map]
    simp [Function.comp_def]

/-! ### What an envelope says -/

/-- A field stands for bytes: it has no dot, and is read as them. -/
structure Field (text : String) (bytes : Bytes) : Prop where
  /-- There is no dot in it. -/
  noDot : '.' ∉ text.toList
  /-- It is base64 of the bytes. -/
  decodes : Base64.decode text = .ok bytes

/-- An envelope is five fields with dots between them: a header, no encrypted key, and a sealed
message. -/
def Spells (envelope : String) (header : Bytes) (s : Sealed) : Prop :=
  ∃ f₁ f₂ f₃ f₄ f₅ : String, envelope = ".".intercalate [f₁, f₂, f₃, f₄, f₅]
    ∧ Field f₁ header ∧ Field f₂ [] ∧ Field f₃ s.iv.toList ∧ Field f₄ s.ciphertext
    ∧ Field f₅ s.tag.toList

/-- A header is the JSON text of an object that names the algorithm, the cipher and the id of a
key, and holds no further authenticated data. -/
def IsHeader (header : Bytes) (id : String) : Prop :=
  ∃ (text : String) (ms : Json.Members), header = Utf8.encode text
    ∧ Json.parse text = .ok (.obj ms)
    ∧ ms.get? "alg" = some (.str "dir") ∧ ms.get? "enc" = some (.str "A256GCM")
    ∧ ms.get? "kid" = some (.str id) ∧ ms.get? "aad" = none

/-- The parts of an envelope are accepted if they are a header and a sealed message, and nothing
stands where an encrypted key might. -/
lemma ofParts_eq_ok_iff {header : String} {encryptedKey iv ciphertext tag : Bytes} {e : Compact} :
    ofParts header encryptedKey iv ciphertext tag = .ok e ↔
      header = e.header ∧ IsHeader (Utf8.encode header) e.keyId ∧ encryptedKey = []
        ∧ iv = e.message.iv.toList ∧ ciphertext = e.message.ciphertext
        ∧ tag = e.message.tag.toList := by
  simp only [ofParts, Except.bind_eq_ok_iff, Json.parseObject_eq_ok_iff, requireText_eq_ok_iff]
  constructor
  · rintro ⟨ms, hms, alg, halg, enc, henc, id, hid, h⟩
    split_ifs at h with halgorithm hkey haad
    obtain ⟨s, hs, h⟩ := Except.bind_eq_ok_iff.mp h
    cases h
    rw [not_or, not_not, not_not] at halgorithm
    obtain ⟨rfl, rfl⟩ := halgorithm
    exact ⟨rfl, ⟨header, ms, rfl, hms, halg, henc, hid,
      contains_eq_false_iff.mp (Bool.eq_false_iff.mpr haad)⟩, not_not.mp hkey,
      Sealed.ofParts_eq_ok_iff.mp hs⟩
  · rintro ⟨rfl, ⟨text, ms, htext, hms, halg, henc, hid, haad⟩, rfl, hparts⟩
    cases Utf8.encode_injective htext
    refine ⟨ms, hms, _, halg, _, henc, _, hid, ?_⟩
    rw [if_neg (by decide), if_neg (by simp), contains_eq_false_iff.mpr haad]
    simp only [Bool.false_eq_true, if_false, Except.bind_eq_ok_iff]
    exact ⟨e.message, Sealed.ofParts_eq_ok_iff.mpr hparts, rfl⟩

/-- **An envelope is read if it spells a header and a sealed message.** -/
theorem parse_eq_ok_iff {envelope : String} {e : Compact} : parse envelope = .ok e ↔
    Spells envelope (Utf8.encode e.header) e.message
      ∧ IsHeader (Utf8.encode e.header) e.keyId := by
  simp only [parse]
  constructor
  · intro h
    split at h
    · rename_i f₁ f₂ f₃ f₄ f₅ hfields
      obtain ⟨henvelope, hdots⟩ := (map_fields_eq_iff (by simp)).mp hfields
      simp only [List.forall_mem_cons] at hdots
      obtain ⟨hdot₁, hdot₂, hdot₃, hdot₄, hdot₅, -⟩ := hdots
      simp only [Except.bind_eq_ok_iff, Base64.read_eq_ok_iff, Utf8.read_eq_ok_iff,
        ofParts_eq_ok_iff] at h
      obtain ⟨_, h₁, _, rfl, _, h₂, _, h₃, _, h₄, _, h₅, rfl, hheader, rfl, rfl, rfl, rfl⟩ := h
      exact ⟨⟨f₁, f₂, f₃, f₄, f₅, henvelope, ⟨hdot₁, h₁⟩, ⟨hdot₂, h₂⟩, ⟨hdot₃, h₃⟩,
        ⟨hdot₄, h₄⟩, ⟨hdot₅, h₅⟩⟩, hheader⟩
    · cases h
  · rintro ⟨⟨f₁, f₂, f₃, f₄, f₅, henvelope, h₁, h₂, h₃, h₄, h₅⟩, hheader⟩
    have hfields : (fields envelope.toList).map String.ofList = [f₁, f₂, f₃, f₄, f₅] := by
      refine (map_fields_eq_iff (by simp)).mpr ⟨henvelope, ?_⟩
      simp [h₁.noDot, h₂.noDot, h₃.noDot, h₄.noDot, h₅.noDot]
    simp only [hfields, Except.bind_eq_ok_iff, Base64.read_eq_ok_iff, Utf8.read_eq_ok_iff,
      ofParts_eq_ok_iff]
    exact ⟨_, h₁.decodes, _, rfl, _, h₂.decodes, _, h₃.decodes, _, h₄.decodes, _, h₅.decodes, rfl,
      hheader, rfl, rfl, rfl, rfl⟩

/-- Apart from padding, an envelope has one text. -/
lemma Spells.unpadded_eq {envelope : String} {header : Bytes} {s : Sealed}
    (h : Spells envelope header s) :
    Base64.unpadded envelope = Base64.encode header ++ ".." ++ Base64.encode s.iv.toList ++ "."
      ++ Base64.encode s.ciphertext ++ "." ++ Base64.encode s.tag.toList := by
  obtain ⟨f₁, f₂, f₃, f₄, f₅, rfl, h₁, h₂, h₃, h₄, h₅⟩ := h
  have hdot : Base64.unpadded "." = "." := by decide
  have hdots : ".." = "." ++ Base64.encode [] ++ "." := by decide
  rw [hdots]
  simp only [String.intercalate_cons_cons, String.intercalate_singleton, String.append_assoc,
    Base64.unpadded_append, hdot, Base64.unpadded_of_decode h₁.decodes,
    Base64.unpadded_of_decode h₂.decodes, Base64.unpadded_of_decode h₃.decodes,
    Base64.unpadded_of_decode h₄.decodes, Base64.unpadded_of_decode h₅.decodes]

/-! ### Envelopes that are written -/

lemma aad_eq (header : String) :
    aad header = Utf8.encode (Base64.encode (Utf8.encode header)) := by
  rw [aad, Envelope.aad, Base64.utf8_encode]
  exact List.append_nil _

/-- The header for a key is a header that names it. -/
lemma isHeader_headerText (id : String) : IsHeader (Utf8.encode (headerText id)) id := by
  have hparse := @Json.parseObject_compact
    [("alg", .str Envelope.directAlgorithm), ("enc", .str Envelope.encryption), ("kid", .str id)]
    (by simp) (by simp [Json.numberName])
  refine ⟨_, _, rfl, Json.parseObject_eq_ok_iff.mp hparse, ?_⟩
  simp [Json.Members.get?_ofList_of_nodup, Json.Members.get?_cons, Envelope.directAlgorithm,
    Envelope.encryption]

lemma field_encode (bytes : Bytes) : Field (Base64.encode bytes) bytes :=
  ⟨Base64.dot_notMem_encode bytes, Base64.decode_encode bytes⟩

lemma spells_append {field : String} {header : Bytes} (hfield : Field field header) (s : Sealed) :
    Spells (field ++ ".." ++ Base64.encode s.iv.toList ++ "." ++ Base64.encode s.ciphertext ++ "."
      ++ Base64.encode s.tag.toList) header s := by
  have hdots : ".." = "." ++ Base64.encode [] ++ "." := by decide
  refine ⟨_, _, _, _, _, ?_, hfield, field_encode [], field_encode _, field_encode _,
    field_encode _⟩
  rw [hdots]
  simp only [String.intercalate_cons_cons, String.intercalate_singleton, String.append_assoc]

lemma spells_text (header : String) (s : Sealed) :
    Spells (text header s) (Utf8.encode header) s :=
  spells_append (field_encode _) s

lemma length_headerText_le (id : String) : (headerText id).length ≤ 6 * id.length + 50 := by
  have hid := Json.length_flatMap_escapeChar_le id.toList
  have htext : ∃ start : List Char, start.length ≤ 48 ∧ (headerText id).toList
      = start ++ (id.toList.flatMap Json.escapeChar ++ ['"', '\x7d']) := by
    refine ⟨"\x7b\"alg\":\"dir\",\"enc\":\"A256GCM\",\"kid\":\"".toList, by decide, ?_⟩
    rw [headerText, Json.compact, String.toList_ofList]
    simp [Json.write, Json.writeMembers, Json.writeMoreMembers, Json.writeMember, Json.quote,
      Json.escapeChar, Envelope.directAlgorithm, Envelope.encryption]
  obtain ⟨start, hstart, htext⟩ := htext
  rw [String.length_toList] at hid
  rw [← String.length_toList, htext, List.length_append, List.length_append, List.length_cons,
    List.length_singleton]
  omega

/-- Only for a very long key id there is too much to authenticate. -/
lemma length_aad_headerText_le {id : String} (h : id.length ≤ 2 ^ 30) :
    (aad (headerText id)).length ≤ Gcm.maxLength := by
  have hheader := length_headerText_le id
  have hutf8 := Utf8.length_encode_le (headerText id)
  have hbase64 := Base64.length_encodeBytes_le (Utf8.encode (headerText id))
  have hmax : Gcm.maxLength = 2 ^ 36 := rfl
  rw [aad_eq, Base64.utf8_encode]
  omega

/-! ### Acceptance -/

variable {g : GcmPrimitives}

/-- An envelope opens as a message if it was sealed with the key that its header names. -/
lemma decrypt_eq_ok_iff {envelope : String} {keys : KeyProvider} {message : Bytes} :
    decrypt g envelope keys = .ok message ↔ ∃ header id s key, Spells envelope header s
      ∧ IsHeader header id ∧ keys id = .ok key
      ∧ Gcm.openSealed g key s (Utf8.encode (Base64.encode header)) = .ok message := by
  simp only [decrypt, Except.bind_eq_ok_iff, parse_eq_ok_iff, aad_eq]
  constructor
  · rintro ⟨e, ⟨hspells, hheader⟩, key, hkey, hopen⟩
    exact ⟨_, _, _, key, hspells, hheader, hkey, hopen⟩
  · rintro ⟨header, id, s, key, hspells, hheader, hkey, hopen⟩
    have hheader' := hheader
    obtain ⟨text, -, rfl, -⟩ := hheader'
    exact ⟨⟨text, id, s⟩, ⟨hspells, hheader⟩, key, hkey, hopen⟩

/-- **An envelope opens as a message exactly if sealing that message makes it**, up to padding. -/
theorem decrypt_eq_ok_iff_sealed (g : GcmPrimitives) (envelope : String) (keys : KeyProvider)
    (message : Bytes) (hmessage : message.length ≤ Gcm.maxLength) :
    (decrypt g envelope keys = .ok message ↔
      ∃ (header : Bytes) (id : String) (s : Sealed) (key : SymmetricKey),
        Spells envelope header s ∧ IsHeader header id ∧ keys id = .ok key
          ∧ Gcm.sealWithIv g key s.iv message (Utf8.encode (Base64.encode header)) = .ok s)
    ∧ ∀ (header : Bytes) (s : Sealed), Spells envelope header s →
      Base64.unpadded envelope = Base64.encode header ++ ".." ++ Base64.encode s.iv.toList ++ "."
        ++ Base64.encode s.ciphertext ++ "." ++ Base64.encode s.tag.toList := by
  refine ⟨?_, fun header s h => h.unpadded_eq⟩
  simp only [decrypt_eq_ok_iff, Gcm.openSealed_eq_ok_iff hmessage]

/-- The sender pads the header, and the envelope is still the one that sealing makes. -/
theorem decrypt_padded_header :
    [1, 2, 3].length ≤ Gcm.maxLength
      ∧ ∃ s : Sealed, decrypt aes256Gcm
          (Base64.encode (Utf8.encode (headerText "me")) ++ "==" ++ ".."
            ++ Base64.encode s.iv.toList ++ "." ++ Base64.encode s.ciphertext ++ "."
            ++ Base64.encode s.tag.toList)
          (KeyProvider.ofKey ⟨"me", FixedBytes.zero 32⟩) = .ok [1, 2, 3] := by
  have hmessage : [(1 : UInt8), 2, 3].length ≤ Gcm.maxLength := by decide
  have hfits : Gcm.Fits [1, 2, 3] (aad (headerText "me")) :=
    ⟨hmessage, length_aad_headerText_le (by decide)⟩
  obtain ⟨s, hs⟩ :=
    Gcm.sealWithIv_of_fits aes256Gcm (FixedBytes.zero 32) (FixedBytes.zero 12) hfits
  have hiv := (Gcm.sealWithIv_eq_ok_iff.mp hs).2.1
  rw [aad_eq, ← hiv] at hs
  have hfield : Field (Base64.encode (Utf8.encode (headerText "me")) ++ "==")
      (Utf8.encode (headerText "me")) := by
    constructor <;> decide +kernel
  exact ⟨hmessage, s, (decrypt_eq_ok_iff_sealed aes256Gcm _ _ [1, 2, 3] hmessage).1.mpr
    ⟨_, "me", s, FixedBytes.zero 32, spells_append hfield s, isHeader_headerText "me", if_pos rfl,
      hs⟩⟩

/-! ### Sealing and opening -/

/-- What is sealed for a key is an envelope that names the key and opens with it, unless there is
too much to seal. -/
lemma gives_encrypt (g : GcmPrimitives) (message : Bytes) (k : NamedKey) (t : Tape) :
    (∃ s, (encrypt g message k).Gives t (.ok (text (headerText k.id) s)) 12
        ∧ ∀ keys : KeyProvider, keys k.id = .ok k.key →
          decrypt g (text (headerText k.id) s) keys = .ok message)
      ∨ ¬ Gcm.Fits message (aad (headerText k.id))
        ∧ (encrypt g message k).Gives t (.error .sealFailed) 12 := by
  obtain ⟨s, hgives, hopen⟩ | ⟨hfits, hgives⟩ :=
    SymmetricKey.gives_sealMessage g k.key message (aad (headerText k.id)) t
  · refine .inl ⟨s, hgives.bind (m := 0) (Random.gives_pure _ _), fun keys hkeys => ?_⟩
    rw [aad_eq] at hopen
    exact decrypt_eq_ok_iff.mpr
      ⟨_, k.id, s, k.key, spells_text _ s, isHeader_headerText k.id, hkeys, hopen⟩
  · exact .inr ⟨hfits, hgives.bind_error⟩

/-- **What is sealed for a key opens with that key**, whatever characters its id has, and what is
sealed with a shared secret opens with that secret and with the key that follows from it. Only
for an id of more than `2 ^ 30` characters the header may be too long to seal. -/
theorem decrypt_encrypt (g : GcmPrimitives) (message : Bytes)
    (hmessage : message.length ≤ Gcm.maxLength) :
    (∀ (k : NamedKey) (t : Tape),
      (∃ envelope, (encrypt g message k).Gives t (.ok envelope) 12
        ∧ ∀ keys : KeyProvider, keys k.id = .ok k.key →
          decrypt g envelope keys = .ok message)
      ∨ 2 ^ 30 < k.id.length ∧ Gcm.maxLength < (aad (headerText k.id)).length
        ∧ (encrypt g message k).Gives t (.error .sealFailed) 12)
    ∧ ∀ (secret : Bytes) (t : Tape), ∃ (envelope : String) (e : Compact) (key : SymmetricKey),
        (encryptShared g message secret).Gives t (.ok envelope) 20
          ∧ decryptShared g envelope secret = .ok message
          ∧ parse envelope = .ok e
          ∧ Derivation.ofSharedSecret secret e.keyId 256 = .ok key.toList
          ∧ ∀ keys : KeyProvider, keys e.keyId = .ok key →
            decrypt g envelope keys = .ok message := by
  constructor
  · intro k t
    obtain ⟨s, hgives, hdecrypt⟩ | ⟨hfits, hgives⟩ := gives_encrypt g message k t
    · exact .inl ⟨_, hgives, hdecrypt⟩
    · have haad : ¬ (aad (headerText k.id)).length ≤ Gcm.maxLength := fun h => hfits ⟨hmessage, h⟩
      exact .inr ⟨not_le.mp fun h => haad (length_aad_headerText_le h), not_le.mp haad, hgives⟩
  · intro secret t
    let id := Base64.encode (t.slice t.used 8).toList
    let k : NamedKey := ⟨id, Derivation.sharedSecretKey secret id⟩
    have hid : id.length ≤ 2 ^ 30 := by
      have h := Base64.length_encode_le (t.slice t.used 8).toList
      rw [(t.slice t.used 8).length_eq] at h
      exact h.trans (by decide)
    obtain ⟨s, hgives, hdecrypt⟩ | ⟨hfits, -⟩ := gives_encrypt g message k (t.advance 8)
    · refine ⟨_, ⟨headerText id, id, s⟩, k.key, ?_, hdecrypt _ rfl, ?_, ?_, hdecrypt⟩
      · refine Random.Gives.bind (m := 12) (Random.gives_draw 8 t) ?_
        exact hgives
      · exact parse_eq_ok_iff.mpr ⟨spells_text _ s, isHeader_headerText id⟩
      · exact Derivation.ofSharedSecret_maxBits secret id
    · exact absurd ⟨hmessage, length_aad_headerText_le hid⟩ hfits

/-- The id of the key has dots, quotes, a backslash and control characters. -/
theorem decrypt_encrypt_punctuated :
    [1, 2, 3].length ≤ Gcm.maxLength ∧ ∃ (k : NamedKey) (envelope : String),
      k.id = "a.\"b\\c\".\n\x01é"
        ∧ (encrypt aes256Gcm [1, 2, 3] k).Gives (Tape.cyclic [7, 8, 9]) (.ok envelope) 12
        ∧ decrypt aes256Gcm envelope (KeyProvider.ofKey k) = .ok [1, 2, 3] := by
  let k : NamedKey := ⟨"a.\"b\\c\".\n\x01é", FixedBytes.zero 32⟩
  have hmessage : [(1 : UInt8), 2, 3].length ≤ Gcm.maxLength := by decide
  obtain ⟨envelope, hgives, hdecrypt⟩ | ⟨hlong, -⟩ :=
    (decrypt_encrypt aes256Gcm [1, 2, 3] hmessage).1 k (Tape.cyclic [7, 8, 9])
  · exact ⟨hmessage, k, envelope, rfl, hgives, hdecrypt _ (if_pos rfl)⟩
  · exact absurd hlong (by decide)

end Compact

end Signet
