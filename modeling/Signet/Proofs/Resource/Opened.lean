import Mathlib.Tactic
import Signet.Proofs.Cipher.Sealing
import Signet.Proofs.Cipher.Tampered
import Signet.Proofs.Resource.Transfer

/-!
Decryption in pieces is opening in one go, of any bytes whatever.

* `Gcm.openSealed_eq_ite`: opening looks at the length and at the tag. What is no ciphertext of
  anything is taken apart like any other.
* **The end of a stream.** `Ends`: all that comes from a source was taken, and the tag of the
  descriptor after it. `length_held_of_ends`: then the buffer holds as much as a tag, whatever the
  length of the stream and whatever the sink does.
* `decrypt_eq_openSealed`: both succeed on the same bytes, and the plaintext arrives in any case.
-/

namespace Signet

/-- Of a message that is not too long the tag decides whether it is opened. -/
lemma Gcm.openSealed_eq_ite (g : GcmPrimitives) (key : FixedBytes 32) {s : Sealed}
    (h : s.ciphertext.length ≤ maxLength) : openSealed g key s [] =
      if tag g (g.cipher key) s.iv [] s.ciphertext = s.tag then
        .ok (applyKeystream (g.cipher key) s.iv 0 s.ciphertext)
      else .error .openFailed := by
  have hfits : ¬ (maxLength + 16 < s.ciphertext.length ∨ maxLength < ([] : Bytes).length) := by
    rw [List.length_nil]
    omega
  rw [openSealed, if_neg hfits]

namespace Resource

open ByteStream

variable {g : GcmPrimitives} {σ : Type} [Writer σ]

/-! ### The end of a stream -/

/-- A decryption comes to its end with a buffer: all that a source yields was taken, and the tag
after it. -/
def Ends (g : GcmPrimitives) (source : Source) (sink : σ) (d : Descriptor)
    (buffer : TailBuffer (OpeningWriter σ)) : Prop :=
  ∃ before : TailBuffer (OpeningWriter σ),
    source.copy (TailBuffer.empty (⟨GcmStream.start g d.key d.iv, sink⟩ : OpeningWriter σ) 16)
        = (before, none)
      ∧ before.write d.tag.toList = (buffer, none)

/-- No write changes the capacity of a buffer. -/
lemma capacity_of_writeAll {pieces : List Bytes} {t t' : TailBuffer σ}
    (h : Source.writeAll pieces t = (t', none)) : t'.capacity = t.capacity := by
  induction pieces generalizing t with
  | nil =>
      cases h
      rfl
  | cons piece rest ih =>
      rw [Source.writeAll] at h
      split at h
      · rename_i next hwrite
        rw [ih h, (TailBuffer.length_held_of_write hwrite).1]
      · cases h

/-- **At its end a decryption holds as many bytes as a tag has**, even of a stream that is
shorter. -/
lemma length_held_of_ends {source : Source} {sink : σ} {d : Descriptor}
    {buffer : TailBuffer (OpeningWriter σ)} (h : Ends g source sink d buffer) :
    buffer.held.length = 16 := by
  obtain ⟨before, hcopy, hwrite⟩ := h
  have hcapacity : before.capacity = 16 := by
    rw [Source.copy] at hcopy
    split at hcopy
    · rename_i hall
      cases (Prod.mk.inj hcopy).1
      exact capacity_of_writeAll hall
    · cases hcopy
  rw [(TailBuffer.length_held_of_write hwrite).2, hcapacity, d.tag.length_eq]
  omega

/-- What comes of a decryption that comes to its end. -/
lemma decrypt_of_ends {source : Source} {sink : σ} {d : Descriptor}
    {buffer : TailBuffer (OpeningWriter σ)} (h : Ends g source sink d buffer) :
    decrypt g source sink d = finish buffer := by
  obtain ⟨before, hcopy, hwrite⟩ := h
  rw [decrypt, hcopy]
  dsimp only
  rw [hwrite]

/-! ### Decryption and opening -/

/-- **Decryption in pieces is opening in one go.** Of any bytes that sealing could have written, in
whatever pieces they come, decryption succeeds exactly if they open with the tag, and fails like
opening if they do not. In both cases the bytes with the key stream added have arrived at the sink,
which is what they open as. At the end as many bytes are held back as a tag has, so that no stream
is ever too short. -/
theorem decrypt_eq_openSealed (g : GcmPrimitives) (ciphertext : Bytes)
    (hciphertext : ciphertext.length ≤ 2 ^ 36 - 32) (d : Descriptor) (source : Source)
    (hreads : source.reads.flatten = ciphertext) (hfails : source.fails = false)
    (a : Accepting σ) (sink : σ) (hsink : a.ready sink) :
    let plaintext := ciphertext.xor (Gcm.keystream (g.cipher d.key) d.iv 0 ciphertext.length)
    let opened := Gcm.openSealed g d.key ⟨d.iv, ciphertext, d.tag⟩ []
    (∃ result sink', decrypt g source sink d = (result, sink')
      ∧ (opened = .ok plaintext ∧ result = .ok ()
        ∨ opened = .error .openFailed ∧ result = .error .openFailed)
      ∧ a.received sink' = a.received sink ++ plaintext
      ∧ plaintext.length = ciphertext.length)
    ∧ ∀ (τ : Type) (_ : Writer τ) (other : Source) (dest : τ) (d' : Descriptor)
        (buffer : TailBuffer (OpeningWriter τ)), Ends g other dest d' buffer →
      decrypt g other dest d' = finish buffer ∧ buffer.held.length = 16 := by
  intro plaintext opened
  constructor
  · have hshort : ciphertext.length ≤ Gcm.maxLength := by
      have hmax : Gcm.maxLength = 2 ^ 36 := rfl
      omega
    have hstream : ciphertext.length ≤ CounterStream.maxLength := by
      have hmax : CounterStream.maxLength = 2 ^ 36 - 16 := rfl
      omega
    have hopened : opened = _ :=
      Gcm.openSealed_eq_ite g d.key (s := ⟨d.iv, ciphertext, d.tag⟩) hshort
    have hplaintext : plaintext.length = ciphertext.length :=
      Gcm.length_applyKeystream _ _ _ _
    obtain ⟨w, hafter, hdecrypt⟩ := decrypt_eq_if_tag_eq (g := g)
      (a.takes (a.received sink) CounterStream.maxLength) le_rfl hfails (hreads ▸ hstream)
      ⟨hsink, (List.append_nil _).symm⟩ d
    rw [hreads] at hafter hdecrypt
    dsimp only at hopened
    by_cases htag : Gcm.tag g (g.cipher d.key) d.iv [] ciphertext = d.tag
    · rw [if_pos htag] at hopened hdecrypt
      obtain ⟨sink', hflush, -, hreceived⟩ := a.flush w hafter.1
      rw [hflush] at hdecrypt
      exact ⟨_, sink', hdecrypt, .inl ⟨hopened, rfl⟩, hreceived.trans hafter.2, hplaintext⟩
    · rw [if_neg htag] at hopened hdecrypt
      exact ⟨_, w, hdecrypt, .inr ⟨hopened, rfl⟩, hafter.2, hplaintext⟩
  · intro τ _ other dest d' buffer hends
    exact ⟨decrypt_of_ends hends, length_held_of_ends hends⟩

/-- Three bytes in two pieces, fewer than a tag has, are decrypted with their tag. With one bit of
the tag flipped the same bytes arrive, and decryption fails. -/
theorem decrypt_eq_openSealed_three_bytes :
    let ciphertext : Bytes := [0x61, 0x62, 0x63]
    let source : Source := ⟨[[0x61], [0x62, 0x63]], false⟩
    let sink : Sink := .empty none false
    let key : SymmetricKey := .ofNatBE 32 1
    let iv : FixedBytes 12 := .ofNatBE 12 2
    let tag := Gcm.tag aes256Gcm (aes256Gcm.cipher key) iv [] ciphertext
    (ciphertext.length ≤ 2 ^ 36 - 32 ∧ source.reads.flatten = ciphertext ∧ source.fails = false
        ∧ Sink.accepting.ready sink)
      ∧ ∃ genuine tampered, decrypt aes256Gcm source sink ⟨iv, key, tag, none⟩ = (.ok (), genuine)
        ∧ decrypt aes256Gcm source sink ⟨iv, key, tag.flipBit 0, none⟩
          = (.error .openFailed, tampered)
        ∧ genuine.received = tampered.received ∧ genuine.received.length = 3 := by
  intro ciphertext source sink key iv tag
  have hlength : ciphertext.length ≤ 2 ^ 36 - 32 := by decide
  have hready : Sink.accepting.ready sink := ⟨rfl, rfl⟩
  have hdecrypt (tag : FixedBytes 16) := (decrypt_eq_openSealed aes256Gcm ciphertext hlength
    ⟨iv, key, tag, none⟩ source rfl rfl Sink.accepting sink hready).1
  have hopen (tag' : FixedBytes 16) :
      Gcm.openSealed aes256Gcm key ⟨iv, ciphertext, tag'⟩ [] = _ :=
    Gcm.openSealed_eq_ite aes256Gcm key (hlength.trans (by decide))
  obtain ⟨result, genuine, hgenuine, hresult, hreceived, hplaintext⟩ := hdecrypt tag
  obtain ⟨result', tampered, htampered, hresult', hreceived', -⟩ := hdecrypt (tag.flipBit 0)
  have hgenuineOk : result = .ok () := by
    rcases hresult with ⟨-, h⟩ | ⟨h, -⟩
    · exact h
    · rw [hopen, if_pos rfl] at h
      cases h
  have htamperedFails : result' = .error .openFailed := by
    rcases hresult' with ⟨h, -⟩ | ⟨-, h⟩
    · rw [hopen, if_neg (FixedBytes.flipBit_ne (by decide)).symm] at h
      cases h
    · exact h
  rw [hgenuineOk] at hgenuine
  rw [htamperedFails] at htampered
  refine ⟨⟨hlength, rfl, rfl, hready⟩, genuine, tampered, hgenuine, htampered, ?_, ?_⟩
  · exact hreceived.trans hreceived'.symm
  · have harrived : genuine.received = _ := hreceived
    rw [harrived]
    exact hplaintext

end Resource

end Signet
