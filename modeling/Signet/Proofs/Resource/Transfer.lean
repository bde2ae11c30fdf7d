import Mathlib.Tactic
import Signet.Proofs.Cipher.StreamWriter
import Signet.Proofs.Random
import Signet.Proofs.Resource.Descriptor
import Signet.Resource.Transfer

/-!
A resource that is encrypted and decrypted in pieces.

* `writeSealed_eq`: the ciphertext of the whole resource arrives at the sink, and
  the buffer in front of it holds the tag. The writers are taken one in front of
  another, each with what is known of it (`Takes`), so that the pieces in which the
  resource comes do not matter.
* `run_encrypt`: encryption draws a key and an IV and goes on with them.
* `encrypt_eq`, `decrypt_eq`: what encryption and decryption come to therefore.
  `decrypt_ciphertext`: the one undoes the other.
* `encrypt_uninterrupted`, `decrypt_uninterrupted`: reads that were interrupted change
  nothing.
* `encrypt_decrypt`: encryption in pieces is what sealing does in one go.
-/

namespace Signet.Resource

open ByteStream

variable {g : GcmPrimitives} {σ : Type} [ByteStream.Writer σ]

/-- The ciphertext of a message. -/
def ciphertext (g : GcmPrimitives) (key : SymmetricKey) (iv : FixedBytes 12) (data : Bytes) :
    Bytes :=
  Gcm.applyKeystream (g.cipher key) iv 0 data

/-- The tag of a message. -/
def tag (g : GcmPrimitives) (key : SymmetricKey) (iv : FixedBytes 12) (data : Bytes) :
    FixedBytes 16 :=
  Gcm.tag g (g.cipher key) iv [] (ciphertext g key iv data)

omit [ByteStream.Writer σ] in
/-- Once a tag was written behind other bytes, a buffer of its size holds it and has passed on the
others. -/
lemma held_eq_tag {after : Bytes → σ → Prop} {bytes : Bytes} {tag : FixedBytes 16}
    {t : TailBuffer σ} (h : TailBuffer.Holding after 16 (bytes ++ tag.toList) t) :
    t.held = tag.toList ∧ after bytes t.inner := by
  obtain ⟨passed, hpassed, hafter, -⟩ := h.passed
  have hlength : tag.toList.length = t.held.length := by
    rw [h.length_held, List.length_append, tag.length_eq]
    omega
  obtain ⟨rfl, hheld⟩ := List.append_inj' hpassed hlength
  exact ⟨hheld.symm, hafter⟩

/-- **The ciphertext arrives at the sink, and the tag in the buffer.** -/
lemma writeSealed_eq (a : Accepting σ) {key : SymmetricKey} {iv : FixedBytes 12}
    {source : Source} (hfails : source.fails = false)
    (hlength : source.reads.flatten.length ≤ CounterStream.maxLength) {sink : σ}
    (hready : a.ready sink) :
    ∃ t, writeSealed g key iv source sink = (t, none)
      ∧ a.After (a.received sink) (ciphertext g key iv source.reads.flatten) t.inner
      ∧ t.held = (tag g key iv source.reads.flatten).toList := by
  have hbuffer : Takes (CounterStream.maxLength + 16)
      (TailBuffer.Holding (a.After (a.received sink)) 16) :=
    TailBuffer.takes_holding (a.takes (a.received sink) CounterStream.maxLength)
  have hsink : a.After (a.received sink) [] sink := ⟨hready, (List.append_nil _).symm⟩
  have hseal := @SealingWriter.takes_after _ _ _ _ g key iv (hbuffer.mono (Nat.le_add_right _ _))
    le_rfl
  obtain ⟨w, hcopy, hw⟩ := hseal.copy hfails
    (SealingWriter.after_start (TailBuffer.holding_empty hsink)) hlength
  have hfits : (Gcm.applyKeystream (g.cipher key) iv 0 source.reads.flatten
      ++ w.stream.tag.toList).length ≤ CounterStream.maxLength + 16 := by
    rw [List.length_append, Gcm.length_applyKeystream, w.stream.tag.length_eq]
    exact Nat.add_le_add_right hlength 16
  obtain ⟨t, hwrite, ht⟩ := hbuffer _ _ w.inner hw.inner hfits
  obtain ⟨hheld, hafter⟩ := held_eq_tag ht
  obtain ⟨inner, hflush, hready', hreceived⟩ := a.flush t.inner hafter.1
  refine ⟨{ t with inner }, ?_, ⟨hready', hreceived.trans hafter.2⟩, ?_⟩
  · have hwrite' : w.inner.write w.stream.tag.toList = (t, none) := hwrite
    rw [writeSealed, hcopy]
    dsimp only
    rw [hwrite']
    dsimp only
    rw [TailBuffer.flush, hflush]
  · rw [tag, ciphertext, ← hw.stream.tag_eq]
    exact hheld

/-- Encryption draws the key and the IV first, and nothing after them. -/
lemma run_encrypt (source : Source) (sink : σ) (uri : Option String) (t : Tape) :
    (encrypt g source sink uri).run t
      = (encryptWith g (t.slice t.used 32) (t.slice (t.used + 32) 12) source sink uri,
        t.advance 44) := rfl

/-- What encryption comes to, for a sink that takes everything. -/
lemma encrypt_eq (a : Accepting σ) {source : Source} (hfails : source.fails = false)
    (hlength : source.reads.flatten.length ≤ CounterStream.maxLength) {sink : σ}
    (hready : a.ready sink) (uri : Option String) (t : Tape) :
    let key := t.slice t.used 32
    let iv := t.slice (t.used + 32) 12
    ∃ sink', (encrypt g source sink uri).run t
        = ((.ok ⟨iv, key, tag g key iv source.reads.flatten, uri⟩, sink'),
          { t with used := t.used + 44 })
      ∧ a.received sink' = a.received sink ++ ciphertext g key iv source.reads.flatten := by
  intro key iv
  obtain ⟨buffer, hsealed, hafter, hheld⟩ := @writeSealed_eq g _ _ a key iv source hfails hlength
    sink hready
  obtain ⟨sink', hflush, -, hreceived⟩ := a.flush buffer.inner hafter.1
  refine ⟨sink', ?_, hreceived.trans hafter.2⟩
  have htag : FixedBytes.ofList? 16 buffer.held = some (tag g key iv source.reads.flatten) := by
    rw [hheld, FixedBytes.ofList?_toList]
  rw [run_encrypt, encryptWith, hsealed]
  dsimp only
  rw [hflush]
  dsimp only
  rw [htag]
  rfl

/-- A buffer that holds a tag holds as many bytes as a tag has. -/
lemma finish_eq {t : TailBuffer (OpeningWriter σ)} {tag : FixedBytes 16}
    (hheld : t.held = tag.toList) :
    finish t = if t.held = t.inner.stream.tag.toList then
        match Writer.flush t.inner.inner with
        | (sink, some fault) => (.error (.streamFailed fault), sink)
        | (sink, none) => (.ok (), sink)
      else (.error .openFailed, t.inner.inner) := by
  have hlength : t.held.length = 16 := by rw [hheld, tag.length_eq]
  unfold finish
  exact if_neg (not_not.mpr hlength)

/-- Decryption looks at the tag once the plaintext has arrived, for a sink that takes it. -/
lemma decrypt_eq_if_tag_eq {limit : ℕ} {after : Bytes → σ → Prop} (h : Takes limit after)
    (hlimit : limit ≤ CounterStream.maxLength) {source : Source} (hfails : source.fails = false)
    (hlength : source.reads.flatten.length ≤ limit) {sink : σ} (hsink : after [] sink)
    (d : Descriptor) :
    ∃ w, after (Gcm.applyKeystream (g.cipher d.key) d.iv 0 source.reads.flatten) w
      ∧ decrypt g source sink d =
        if Gcm.tag g (g.cipher d.key) d.iv [] source.reads.flatten = d.tag then
          match Writer.flush w with
          | (sink, some fault) => (.error (.streamFailed fault), sink)
          | (sink, none) => (.ok (), sink)
        else (.error .openFailed, w) := by
  have hopen := @OpeningWriter.takes_after _ _ _ _ g d.key d.iv h hlimit
  have hbuffer := @TailBuffer.takes_holding _ _ _ _ 16 hopen
  obtain ⟨t, hcopy, ht⟩ := hbuffer.copy hfails
    (TailBuffer.holding_empty (OpeningWriter.after_start hsink)) (by omega)
  have hfits : (source.reads.flatten ++ d.tag.toList).length ≤ limit + 16 := by
    rw [List.length_append, d.tag.length_eq]
    exact Nat.add_le_add_right hlength 16
  obtain ⟨t', hwrite, ht'⟩ := hbuffer _ _ t ht hfits
  obtain ⟨hheld, hafter⟩ := held_eq_tag ht'
  have hwrite' : t.write d.tag.toList = (t', none) := hwrite
  have hmatch : t'.held = t'.inner.stream.tag.toList
      ↔ Gcm.tag g (g.cipher d.key) d.iv [] source.reads.flatten = d.tag := by
    rw [hheld, hafter.stream.tag_eq]
    exact ⟨fun htag => (FixedBytes.ext htag).symm, fun htag => by rw [htag]⟩
  refine ⟨t'.inner.inner, hafter.inner, ?_⟩
  rw [decrypt, hcopy]
  dsimp only
  rw [hwrite']
  dsimp only
  rw [finish_eq hheld]
  exact if_congr hmatch rfl rfl

/-- What decryption comes to, for a sink that takes everything. -/
lemma decrypt_eq (a : Accepting σ) {source : Source} (hfails : source.fails = false)
    (hlength : source.reads.flatten.length ≤ CounterStream.maxLength) {sink : σ}
    (hready : a.ready sink) (d : Descriptor)
    (htag : Gcm.tag g (g.cipher d.key) d.iv [] source.reads.flatten = d.tag) :
    ∃ sink', decrypt g source sink d = (.ok (), sink')
      ∧ a.received sink' = a.received sink
        ++ Gcm.applyKeystream (g.cipher d.key) d.iv 0 source.reads.flatten := by
  obtain ⟨w, hafter, hdecrypt⟩ := decrypt_eq_if_tag_eq (g := g)
    (a.takes (a.received sink) CounterStream.maxLength) le_rfl hfails hlength
    ⟨hready, (List.append_nil _).symm⟩ d
  obtain ⟨sink', hflush, -, hreceived⟩ := a.flush w hafter.1
  refine ⟨sink', ?_, hreceived.trans hafter.2⟩
  rw [hdecrypt, if_pos htag, hflush]

/-- What sealing comes to, for a message that is short enough. -/
lemma sealWithIv_eq {data : Bytes} (h : data.length ≤ Gcm.maxLength) (key : SymmetricKey)
    (iv : FixedBytes 12) : Gcm.sealWithIv g key iv data []
      = .ok ⟨iv, ciphertext g key iv data, tag g key iv data⟩ := by
  have hshort : ¬ (Gcm.maxLength < data.length ∨ Gcm.maxLength < ([] : Bytes).length) := by
    rw [List.length_nil]
    omega
  rw [Gcm.sealWithIv, if_neg hshort]
  rfl

/-- What was encrypted is decrypted. -/
lemma decrypt_ciphertext (a : Accepting σ) {key : SymmetricKey} {iv : FixedBytes 12}
    {data : Bytes} (hlength : data.length ≤ CounterStream.maxLength) {source : Source}
    (hreads : source.reads.flatten = ciphertext g key iv data) (hfails : source.fails = false)
    {sink : σ} (hready : a.ready sink) (uri : Option String) :
    ∃ sink', decrypt g source sink ⟨iv, key, tag g key iv data, uri⟩ = (.ok (), sink')
      ∧ a.received sink' = a.received sink ++ data := by
  have hsource : source.reads.flatten.length ≤ CounterStream.maxLength := by
    rw [hreads, ciphertext, Gcm.length_applyKeystream]
    exact hlength
  have htag : Gcm.tag g (g.cipher key) iv [] source.reads.flatten = tag g key iv data := by
    rw [hreads, tag]
  obtain ⟨sink', hdecrypt, hreceived⟩ :=
    decrypt_eq a hfails hsource hready ⟨iv, key, tag g key iv data, uri⟩ htag
  refine ⟨sink', hdecrypt, ?_⟩
  rw [hreceived, hreads, ciphertext, Gcm.applyKeystream_applyKeystream]

/-! ### Interrupted reads -/

lemma encryptWith_uninterrupted (key : SymmetricKey) (iv : FixedBytes 12) (source : Source)
    (sink : σ) (uri : Option String) :
    encryptWith g key iv source.uninterrupted sink uri = encryptWith g key iv source sink uri := by
  have hcopy := (SealingWriter.idle TailBuffer.idle).copy source
    (⟨GcmStream.start g key iv, .empty sink 16⟩ : SealingWriter (TailBuffer σ))
    ⟨Nat.zero_le 16, [], GcmStream.absorbed_start g key iv, Nat.zero_le _⟩
  rw [encryptWith, writeSealed, hcopy, encryptWith, writeSealed]

/-- **A read that is interrupted changes nothing**: encryption goes on as if there had been none. -/
theorem encrypt_uninterrupted (source : Source) (sink : σ) (uri : Option String) :
    encrypt g source.uninterrupted sink uri = encrypt g source sink uri := by
  simp only [encrypt, encryptWith_uninterrupted]

/-- So does decryption. -/
theorem decrypt_uninterrupted (source : Source) (sink : σ) (d : Descriptor) :
    decrypt g source.uninterrupted sink d = decrypt g source sink d := by
  have hcopy := TailBuffer.idle.copy source
    (.empty (⟨GcmStream.start g d.key d.iv, sink⟩ : OpeningWriter σ) 16) (Nat.zero_le 16)
  rw [decrypt, hcopy, decrypt]

/-! ### The whole way -/

/-- **Encryption in pieces is sealing in one go, and decryption in pieces undoes it.** Of all data
that sealing takes, in whatever pieces it comes, the ciphertext arrives at the sink, under the next
44 random bytes as key and IV; the descriptor says how to read it. From the ciphertext, in whatever
pieces it comes, and the descriptor as it is written, the data arrives. -/
theorem encrypt_decrypt (g : GcmPrimitives) (t : Tape) (data : Bytes)
    (hdata : data.length ≤ 2 ^ 36 - 32) (source : Source) (hreads : source.reads.flatten = data)
    (hfails : source.fails = false) (a : Accepting σ) (sink : σ) (hsink : a.ready sink)
    (uri : Option String) :
    let key := t.slice t.used 32
    let iv := t.slice (t.used + 32) 12
    ∃ s, Gcm.sealWithIv g key iv data [] = .ok s ∧ s.iv = iv
      ∧ (∃ sink', (encrypt g source sink uri).run t
          = ((.ok ⟨iv, key, s.tag, uri⟩, sink'), { t with used := t.used + 44 })
        ∧ a.received sink' = a.received sink ++ s.ciphertext)
      ∧ ∃ d, Descriptor.ofText (Descriptor.toText ⟨iv, key, s.tag, uri⟩) = .ok d
        ∧ ∀ (τ : Type) (_ : ByteStream.Writer τ) (b : Accepting τ) (dest : τ) (again : Source),
          b.ready dest → again.reads.flatten = s.ciphertext → again.fails = false →
            ∃ dest', decrypt g again dest d = (.ok (), dest')
              ∧ b.received dest' = b.received dest ++ data := by
  intro key iv
  have hseal : data.length ≤ Gcm.maxLength := by
    have hmax : Gcm.maxLength = 2 ^ 36 := rfl
    omega
  have hstream : data.length ≤ CounterStream.maxLength := by
    have hmax : CounterStream.maxLength = 2 ^ 36 - 16 := rfl
    omega
  refine ⟨_, sealWithIv_eq hseal key iv, rfl, ?_, _, Descriptor.ofText_toText _, ?_⟩
  · have hencrypt := encrypt_eq (g := g) a hfails (hreads ▸ hstream) hsink uri t
    rw [hreads] at hencrypt
    exact hencrypt
  · intro τ _ b dest again hdest hagain hagainFails
    exact decrypt_ciphertext b hstream hagain hagainFails hdest uri

/-- Data in pieces of three and twenty bytes, with an interrupted read between them, is encrypted
with AES, and decrypted from a single piece. -/
theorem encrypt_decrypt_three_pieces :
    let t : Tape := .cyclic [1, 2, 3]
    let source : Source := ⟨[[0x61, 0x62, 0x63], [], List.replicate 20 0x7a], false⟩
    let sink : Sink := .empty none false
    (source.reads.flatten.length ≤ 2 ^ 36 - 32 ∧ source.fails = false
        ∧ Sink.accepting.ready sink)
      ∧ ∃ d encrypted decrypted,
        (encrypt aes256Gcm source sink (some "place")).run t
          = ((.ok d, encrypted), { t with used := 44 })
        ∧ decrypt aes256Gcm ⟨[encrypted.received], false⟩ sink d = (.ok (), decrypted)
        ∧ decrypted.received = source.reads.flatten := by
  intro t source sink
  have hlength : source.reads.flatten.length ≤ 2 ^ 36 - 32 := by decide
  have hready : Sink.accepting.ready sink := ⟨rfl, rfl⟩
  obtain ⟨s, -, -, ⟨encrypted, hencrypt, hreceived⟩, d, hd, hdecrypt⟩ := encrypt_decrypt aes256Gcm t
    source.reads.flatten hlength source rfl rfl Sink.accepting sink hready
    (some "place")
  have hciphertext : encrypted.received = s.ciphertext := hreceived
  rw [Descriptor.ofText_toText] at hd
  cases hd
  obtain ⟨decrypted, hrun, hplaintext⟩ := hdecrypt Sink inferInstance Sink.accepting sink
    ⟨[encrypted.received], false⟩ hready (by simp [hciphertext]) rfl
  exact ⟨⟨hlength, rfl, hready⟩, _, encrypted, decrypted, hencrypt, hrun, hplaintext⟩

end Signet.Resource
