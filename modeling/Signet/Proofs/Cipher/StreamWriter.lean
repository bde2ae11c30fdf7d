import Mathlib.Tactic
import Signet.Proofs.ByteStream.Writer
import Signet.Proofs.Cipher.GcmStream

/-!
Writers that encrypt or decrypt on the way take what the writers behind them take,
as long as there is key stream.

* `SealingWriter.takes_after`: the ciphertext of all that was written is passed on.
* `OpeningWriter.takes_after`: so is the plaintext, before anything is known of the
  tag.
* `SealingWriter.idle`: nothing is encrypted when nothing is written.
-/

namespace Signet

open ByteStream

variable {σ : Type} [ByteStream.Writer σ] {limit : ℕ} {after : Bytes → σ → Prop}
variable {g : GcmPrimitives} {key : FixedBytes 32} {iv : FixedBytes 12}

/-- What is known of an encrypting writer after some plaintext. -/
structure SealingWriter.After (g : GcmPrimitives) (key : FixedBytes 32) (iv : FixedBytes 12)
    (after : Bytes → σ → Prop) (plaintext : Bytes) (w : SealingWriter σ) : Prop where
  /-- The stream holds the ciphertext. -/
  stream : GcmStream.Absorbed g key iv (Gcm.applyKeystream (g.cipher key) iv 0 plaintext) w.stream
  /-- The ciphertext was passed on. -/
  inner : after (Gcm.applyKeystream (g.cipher key) iv 0 plaintext) w.inner

omit [ByteStream.Writer σ] in
lemma SealingWriter.after_start {inner : σ} (h : after [] inner) :
    After g key iv after [] ⟨GcmStream.start g key iv, inner⟩ :=
  ⟨GcmStream.absorbed_start g key iv, h⟩

/-- **An encrypting writer takes what the writer behind it takes.** -/
theorem SealingWriter.takes_after (h : Takes limit after)
    (hlimit : limit ≤ CounterStream.maxLength) : Takes limit (After g key iv after) := by
  intro done piece w hw hlength
  obtain ⟨stream, hencrypt, hstream⟩ := hw.stream.encrypt_message_eq (hlength.trans hlimit)
  have hsplit := Gcm.applyKeystream_zero_append (g.cipher key) iv done piece
  have hciphertext : (Gcm.applyKeystream (g.cipher key) iv 0 done
      ++ Gcm.applyKeystream (g.cipher key) iv done.length piece).length ≤ limit := by
    rw [← hsplit, Gcm.length_applyKeystream]
    exact hlength
  obtain ⟨inner, hwrite, hinner⟩ := h _ _ w.inner hw.inner hciphertext
  refine ⟨⟨stream, inner⟩, ?_, hstream, by rw [hsplit]; exact hinner⟩
  show w.write piece = _
  rw [SealingWriter.write, hencrypt]
  dsimp only
  rw [hwrite]

/-- Nothing is encrypted to nothing, as long as there was key stream for what was written. -/
lemma SealingWriter.idle {inv : σ → Prop} (h : Idle inv) :
    Idle fun w : SealingWriter σ => inv w.inner ∧ ∃ done, GcmStream.Absorbed g key iv done w.stream
      ∧ done.length ≤ CounterStream.maxLength where
  write_nil := by
    rintro w ⟨hinner, done, hstream, hlimit⟩
    show w.write [] = (w, none)
    rw [SealingWriter.write, hstream.encrypt_nil hlimit]
    dsimp only
    rw [h.write_nil w.inner hinner]
  preserved := by
    rintro w data w' ⟨hinner, done, hstream, -⟩ hwrite
    have hwrite' : w.write data = (w', none) := hwrite
    by_cases hlimit : (done ++ data).length ≤ CounterStream.maxLength
    · obtain ⟨stream, hencrypt, hstream'⟩ := hstream.encrypt_eq hlimit
      rw [SealingWriter.write, hencrypt] at hwrite'
      dsimp only at hwrite'
      rcases hpass : Writer.write w.inner (Gcm.applyKeystream (g.cipher key) iv done.length data)
        with ⟨inner, fault⟩
      rw [hpass] at hwrite'
      obtain ⟨rfl, rfl⟩ := Prod.mk.inj hwrite'
      refine ⟨h.preserved _ _ _ hinner hpass, _, hstream', ?_⟩
      rwa [List.length_append, Gcm.length_applyKeystream, ← List.length_append]
    · rw [List.length_append] at hlimit
      rw [SealingWriter.write, hstream.encrypt_eq_none hlimit] at hwrite'
      cases hwrite'

/-- What is known of a decrypting writer after some ciphertext. -/
structure OpeningWriter.After (g : GcmPrimitives) (key : FixedBytes 32) (iv : FixedBytes 12)
    (after : Bytes → σ → Prop) (ciphertext : Bytes) (w : OpeningWriter σ) : Prop where
  /-- The stream holds the ciphertext. -/
  stream : GcmStream.Absorbed g key iv ciphertext w.stream
  /-- The plaintext was passed on. -/
  inner : after (Gcm.applyKeystream (g.cipher key) iv 0 ciphertext) w.inner

omit [ByteStream.Writer σ] in
lemma OpeningWriter.after_start {inner : σ} (h : after [] inner) :
    After g key iv after [] ⟨GcmStream.start g key iv, inner⟩ :=
  ⟨GcmStream.absorbed_start g key iv, h⟩

/-- **A decrypting writer takes what the writer behind it takes.** -/
theorem OpeningWriter.takes_after (h : Takes limit after)
    (hlimit : limit ≤ CounterStream.maxLength) : Takes limit (After g key iv after) := by
  intro done piece w hw hlength
  obtain ⟨stream, hdecrypt, hstream⟩ := hw.stream.decrypt_eq (hlength.trans hlimit)
  have hsplit := Gcm.applyKeystream_zero_append (g.cipher key) iv done piece
  have hplaintext : (Gcm.applyKeystream (g.cipher key) iv 0 done
      ++ Gcm.applyKeystream (g.cipher key) iv done.length piece).length ≤ limit := by
    rw [← hsplit, Gcm.length_applyKeystream]
    exact hlength
  obtain ⟨inner, hwrite, hinner⟩ := h _ _ w.inner hw.inner hplaintext
  refine ⟨⟨stream, inner⟩, ?_, hstream, by rw [hsplit]; exact hinner⟩
  show w.write piece = _
  rw [OpeningWriter.write, hdecrypt]
  dsimp only
  rw [hwrite]

end Signet
