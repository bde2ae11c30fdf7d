import Mathlib.Tactic
import Signet.Proofs.Cipher.Keystream
import Signet.Proofs.Key.Jwk
import Signet.Proofs.Random

/-!
Sealing in one go, and opening as its inverse.

* `Sealed.Misfit`: what keeps parts from being a sealed message (`Sealed.ofParts_eq_error_iff`).
* `Gcm.Fits`: a message and its authenticated data are short enough to seal.
  `sealWithIv_of_fits`, `sealWithIv_of_not_fits`: nothing else makes sealing fail.
* `openSealed_eq_ok_iff`: a sealed message opens as a message exactly if that message
  is sealed as it, under its own IV. `openSealed_eq_error`: otherwise there is one error.
* `SymmetricKey.gives_sealWithIv`, `SymmetricKey.exists_gives_wrap`: a message and another
  key are sealed with the IV that is drawn. `SymmetricKey.gives_sealMessage`,
  `SymmetricKey.unwrap_of_sealWithIv`: so they can be opened.
-/

namespace Signet

/-- A sealed message has the parts that it is put together from. -/
lemma Sealed.ofParts_eq_ok_iff {iv ciphertext tag : Bytes} {s : Sealed} :
    ofParts iv ciphertext tag = .ok s ↔
      iv = s.iv.toList ∧ ciphertext = s.ciphertext ∧ tag = s.tag.toList := by
  obtain ⟨iv', ciphertext', tag'⟩ := s
  rw [ofParts, ← FixedBytes.ofList?_eq_some_iff, ← FixedBytes.ofList?_eq_some_iff]
  split <;> simp_all

/-- An IV or a tag has not its size. -/
inductive Sealed.Misfit (iv tag : Bytes) : Error → Prop
  /-- It is the IV. -/
  | iv (length : iv.length ≠ 12) : Misfit iv tag (.badLength "iv" 12 iv.length)
  /-- It is the tag. -/
  | tag (fits : iv.length = 12) (length : tag.length ≠ 16) :
      Misfit iv tag (.badLength "tag" 16 tag.length)

/-- A message whose IV or tag has not its size is no sealed message. -/
lemma Sealed.ofParts_eq_error_iff {iv ciphertext tag : Bytes} {e : Error} :
    ofParts iv ciphertext tag = .error e ↔ Misfit iv tag e := by
  rw [ofParts]
  constructor
  · intro h
    split at h
    · rename_i hiv
      cases h
      exact .iv (FixedBytes.ofList?_eq_none_iff.mp hiv)
    · rename_i iv' hiv htag
      cases h
      rw [FixedBytes.ofList?_eq_some_iff] at hiv
      exact .tag (hiv ▸ iv'.length_eq) (FixedBytes.ofList?_eq_none_iff.mp htag)
    · cases h
  · rintro (hiv | ⟨hiv, htag⟩)
    · rw [FixedBytes.ofList?_eq_none_iff.mpr hiv]
    · have hfits : FixedBytes.ofList? 12 iv = some ⟨iv, hiv⟩ :=
        FixedBytes.ofList?_eq_some_iff.mpr rfl
      rw [hfits, FixedBytes.ofList?_eq_none_iff.mpr htag]

namespace Gcm

/-- A message and its authenticated data are short enough to seal. -/
def Fits (message aad : Bytes) : Prop := message.length ≤ maxLength ∧ aad.length ≤ maxLength

variable (g : GcmPrimitives) (key : FixedBytes 32) (iv : FixedBytes 12) {message aad : Bytes}

lemma sealWithIv_of_not_fits (h : ¬ Fits message aad) :
    sealWithIv g key iv message aad = .error .sealFailed := by
  rw [Fits, not_and_or, not_le, not_le] at h
  rw [sealWithIv, if_pos h]

lemma sealWithIv_of_fits (h : Fits message aad) :
    ∃ s, sealWithIv g key iv message aad = .ok s := by
  have hfits : ¬ (maxLength < message.length ∨ maxLength < aad.length) := by
    rw [not_or, not_lt, not_lt]
    exact h
  rw [sealWithIv, if_neg hfits]
  exact ⟨_, rfl⟩

variable {g key iv}

/-- A sealed message holds its IV, the message with the key stream added, and the tag of that. -/
lemma sealWithIv_eq_ok_iff {s : Sealed} : sealWithIv g key iv message aad = .ok s ↔
    Fits message aad ∧ s.iv = iv ∧ s.ciphertext = applyKeystream (g.cipher key) iv 0 message
      ∧ s.tag = tag g (g.cipher key) iv aad s.ciphertext := by
  by_cases hfits : Fits message aad
  · have hshort : ¬ (maxLength < message.length ∨ maxLength < aad.length) := by
      rw [not_or, not_lt, not_lt]
      exact hfits
    obtain ⟨iv', ciphertext, tag'⟩ := s
    rw [sealWithIv, if_neg hshort]
    simp only [Except.ok.injEq, Sealed.mk.injEq]
    constructor
    · rintro ⟨rfl, rfl, rfl⟩
      exact ⟨hfits, rfl, rfl, rfl⟩
    · rintro ⟨-, rfl, rfl, rfl⟩
      exact ⟨rfl, rfl, rfl⟩
  · simp [sealWithIv_of_not_fits _ _ _ hfits, hfits]

/-- **Opening undoes sealing, and opens nothing else.** -/
theorem openSealed_eq_ok_iff (hmessage : message.length ≤ maxLength) {s : Sealed} :
    openSealed g key s aad = .ok message ↔ sealWithIv g key s.iv message aad = .ok s := by
  rw [sealWithIv_eq_ok_iff, openSealed]
  constructor
  · intro h
    split at h
    · cases h
    · rename_i hlength
      dsimp only at h
      split at h
      · rename_i htag
        cases h
        refine ⟨⟨hmessage, ?_⟩, rfl, (applyKeystream_applyKeystream _ _ _ _).symm, htag.symm⟩
        exact not_lt.mp (not_or.mp hlength).2
      · cases h
  · rintro ⟨hfits, -, hciphertext, htag⟩
    have hlength : s.ciphertext.length = message.length := by
      rw [hciphertext, length_applyKeystream]
    have haad := hfits.2
    rw [if_neg (by omega), if_pos htag.symm, hciphertext, applyKeystream_applyKeystream]

/-- Opening fails in one way only. -/
lemma openSealed_eq_error {s : Sealed} {e : Error} (h : openSealed g key s aad = .error e) :
    e = .openFailed := by
  rw [openSealed] at h
  split at h
  · cases h
    rfl
  · dsimp only at h
    split at h
    · cases h
    · cases h
      rfl

lemma openSealed_of_sealWithIv {s : Sealed} (h : sealWithIv g key iv message aad = .ok s) :
    openSealed g key s aad = .ok message := by
  obtain ⟨hfits, hiv, -⟩ := sealWithIv_eq_ok_iff.mp h
  rw [openSealed_eq_ok_iff hfits.1, hiv, h]

end Gcm

namespace SymmetricKey

variable (g : GcmPrimitives) (key : SymmetricKey)

/-- The IV is what is drawn next. -/
lemma gives_sealWithIv (message aad : Bytes) (t : Tape) : (sealMessage g key message aad).Gives t
    (Gcm.sealWithIv g key (t.slice t.used 12) message aad) 12 := by
  refine Random.Gives.bind (m := 0) (Random.gives_draw 12 t) ?_
  exact Random.gives_liftExcept _ _

/-- **A message is sealed so that it can be opened**, unless there is too much to seal. -/
theorem gives_sealMessage (message aad : Bytes) (t : Tape) :
    (∃ s, (sealMessage g key message aad).Gives t (.ok s) 12
        ∧ Gcm.openSealed g key s aad = .ok message)
      ∨ ¬ Gcm.Fits message aad
        ∧ (sealMessage g key message aad).Gives t (.error .sealFailed) 12 := by
  have hgives := gives_sealWithIv g key message aad t
  by_cases hfits : Gcm.Fits message aad
  · obtain ⟨s, hs⟩ := Gcm.sealWithIv_of_fits g key (t.slice t.used 12) hfits
    rw [hs] at hgives
    exact .inl ⟨s, hgives, Gcm.openSealed_of_sealWithIv hs⟩
  · rw [Gcm.sealWithIv_of_not_fits _ _ _ hfits] at hgives
    exact .inr ⟨hfits, hgives⟩

/-- A key is wrapped with the IV that is drawn, since it is never too long. -/
lemma exists_gives_wrap (other : SymmetricKey) (t : Tape) :
    ∃ s, Gcm.sealWithIv g key (t.slice t.used 12) other.toList [] = .ok s
      ∧ (wrap g key other).Gives t (.ok s) 12 := by
  have hfits : Gcm.Fits other.toList [] := by
    rw [Gcm.Fits, other.length_eq]
    decide
  obtain ⟨s, hs⟩ := Gcm.sealWithIv_of_fits g key (t.slice t.used 12) hfits
  exact ⟨s, hs, hs ▸ gives_sealWithIv g key other.toList [] t⟩

variable {g key}

/-- A wrapped key is unwrapped with the key that it was wrapped with. -/
lemma unwrap_of_sealWithIv {other : SymmetricKey} {iv : FixedBytes 12} {s : Sealed}
    (h : Gcm.sealWithIv g key iv other.toList [] = .ok s) : unwrap g key s = .ok other := by
  simp only [unwrap, Except.bind_eq_ok_iff, readKeyBytes_eq_ok_iff]
  exact ⟨_, Gcm.openSealed_of_sealWithIv h, rfl⟩

end SymmetricKey

end Signet
