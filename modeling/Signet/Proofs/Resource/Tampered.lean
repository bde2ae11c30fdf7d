import Mathlib.Tactic
import Signet.Proofs.Cipher.Tampered
import Signet.Proofs.Resource.Descriptor
import Signet.Proofs.Resource.Failing

/-!
A resource in which one bit was flipped is not decrypted.

* `exists_stream_of_encrypt_eq_ok`: what encryption that succeeds has written and describes is a
  sealed message, since there was key stream for all of the source.
* `decrypt_tampered`: the IV and the tag in the descriptor and the stream are a sealed message
  (`Sealed.Tampered`), so that the tag does not fit after a bit was flipped in any of them.
  Decryption finds out at the end of the stream.
-/

namespace Signet

open ByteStream

variable {σ : Type} [Writer σ] {g : GcmPrimitives}

/-- A flipped bit changes no lengths. -/
lemma Sealed.Tampered.length_eq {s s' : Sealed} (h : s.Tampered s') :
    s'.ciphertext.length = s.ciphertext.length := by
  cases h with
  | iv => rfl
  | ciphertext => exact Bytes.length_flipBit _ _
  | tag => rfl

namespace Descriptor

open Json.Members (HasBytes)

/-- Two texts have the same members but for an IV and a tag, of which one bit is another one. -/
def Tampered (text text' : String) : Prop :=
  ∃ (ms ms' : Json.Members) (iv iv' : FixedBytes 12) (tag tag' : FixedBytes 16),
    Json.parseObject text = .ok ms ∧ Json.parseObject text' = .ok ms'
      ∧ (∀ name, name ∉ ["iv", "tag"] → ms'.get? name = ms.get? name)
      ∧ ms.HasBytes "iv" iv.toList ∧ ms.HasBytes "tag" tag.toList
      ∧ ms'.HasBytes "iv" iv'.toList ∧ ms'.HasBytes "tag" tag'.toList
      ∧ ((∃ i < 8 * 12, iv' = iv.flipBit i ∧ tag' = tag)
        ∨ ∃ i < 8 * 16, iv' = iv ∧ tag' = tag.flipBit i)

/-- The text of a descriptor that was tampered with is still read. -/
lemma ofText_tampered {text text' : String} {d : Descriptor} (hread : ofText text = .ok d)
    (ht : Tampered text text') :
    ∃ d', ofText text' = .ok d' ∧ d'.key = d.key
      ∧ ∀ stream, Sealed.Tampered ⟨d.iv, stream, d.tag⟩ ⟨d'.iv, stream, d'.tag⟩ := by
  obtain ⟨ms, ms', iv, iv', tag, tag', hms, hms', hsame, hiv, htag, hiv', htag', ht⟩ := ht
  obtain ⟨ms₀, hms₀, hsays⟩ := ofText_eq_ok_iff.mp hread
  cases hms.symm.trans (Json.parseObject_eq_ok_iff.mpr hms₀)
  obtain rfl : iv = d.iv := FixedBytes.ext (hiv.eq hsays.iv)
  obtain rfl : tag = d.tag := FixedBytes.ext (htag.eq hsays.tag)
  have hkey : ms'.HasBytes "k" d.key.toList := by
    rw [HasBytes, hsame "k" (by decide)]
    exact hsays.key
  have hplace : HasPlace ms' d.uri := by
    rw [HasPlace, hsame "uri" (by decide)]
    exact hsays.place
  refine ⟨⟨iv', d.key, tag', d.uri⟩, ?_, rfl, ?_⟩
  · rw [ofText_eq_ok_iff]
    exact ⟨ms', Json.parseObject_eq_ok_iff.mp hms', hiv', hkey, htag', hplace⟩
  · intro stream
    obtain ⟨i, hi, rfl, rfl⟩ | ⟨i, hi, rfl, rfl⟩ := ht
    · exact .iv i hi
    · exact .tag i hi

/-- The text of a descriptor, and its text with one bit flipped, are tampered with. -/
lemma tampered_toText (d : Descriptor) {iv : FixedBytes 12} {tag : FixedBytes 16}
    (h : (∃ i < 8 * 12, iv = d.iv.flipBit i ∧ tag = d.tag)
      ∨ ∃ i < 8 * 16, iv = d.iv ∧ tag = d.tag.flipBit i) :
    Tampered d.toText { d with iv, tag }.toText := by
  have hsays := says_members d
  have hsays' := says_members { d with iv, tag }
  refine ⟨_, _, d.iv, iv, d.tag, tag, parseObject_toText d, parseObject_toText _, ?_,
    hsays.iv, hsays.tag, hsays'.iv, hsays'.tag, h⟩
  intro name hname
  simp only [List.mem_cons, List.not_mem_nil, or_false, not_or] at hname
  rw [Json.Members.get?_ofList, Json.Members.get?_ofList, members, members]
  cases d.uri <;>
    simp [Json.Members.get?_cons, Ne.symm hname.1, Ne.symm hname.2]

end Descriptor

namespace Resource

variable {source : Source} {sink sink' : σ} {uri : Option String} {t t' : Tape} {d : Descriptor}

/-- Encryption that succeeds has read all of the source, and there was key stream for it. -/
lemma length_le_of_encrypt_eq_ok (b : Bounded σ)
    (hencrypt : (encrypt g source sink uri).run t = ((.ok d, sink'), t')) :
    source.reads.flatten.length ≤ CounterStream.maxLength := by
  by_contra hlong
  have hcopy := (@SealingWriter.fills_within _ _ _ _ _ g (t.slice t.used 32)
    (t.slice (t.used + 32) 12) (@TailBuffer.fills_holding _ _ _ _ _ 16 (b.fills sink))).copy
    ⟨SealingWriter.after_start (TailBuffer.holding_empty (b.after_start sink)), Nat.zero_le _⟩
    source
  obtain ⟨w, fault, -, hfault, -⟩ := hcopy.exists_fault fun hok => hlong hok.1.2
  rw [run_encrypt, encryptWith, writeSealed, hfault] at hencrypt
  cases hencrypt

/-- What encryption that succeeds has written and describes is a sealed message. -/
lemma exists_stream_of_encrypt_eq_ok (b : Bounded σ)
    (hencrypt : (encrypt g source sink uri).run t = ((.ok d, sink'), t')) :
    ∃ stream, b.received sink' = b.received sink ++ stream
      ∧ stream.length ≤ CounterStream.maxLength
      ∧ Gcm.tag g (g.cipher d.key) d.iv [] stream = d.tag := by
  have hlength := length_le_of_encrypt_eq_ok b hencrypt
  obtain ⟨result, sink₀, part, hrun, hreceived, -, -, hok⟩ :=
    @encrypt_reaches σ _ g b sink source hlength uri t
  have hsame := hencrypt.symm.trans hrun
  rw [Prod.mk.injEq, Prod.mk.injEq] at hsame
  obtain ⟨⟨hresult, hsink⟩, -⟩ := hsame
  obtain ⟨rfl, hd⟩ := hok d hresult.symm
  rw [← hsink] at hreceived
  refine ⟨_, hreceived, ?_, ?_⟩
  · rw [ciphertext, Gcm.length_applyKeystream]
    exact hlength
  · rw [hd, tag]

/-- What encryption writes is as long as the source, and its key is drawn first. -/
lemma exists_encrypt_eq_ok (g : GcmPrimitives) (a : Accepting σ) (hfails : source.fails = false)
    (hlength : source.reads.flatten.length ≤ CounterStream.maxLength) (hready : a.ready sink)
    (uri : Option String) (t : Tape) :
    ∃ d sink' stream, (encrypt g source sink uri).run t
        = ((.ok d, sink'), { t with used := t.used + 44 })
      ∧ d.key = t.slice t.used 32 ∧ a.received sink' = a.received sink ++ stream
      ∧ stream.length = source.reads.flatten.length := by
  obtain ⟨sink', hrun, hreceived⟩ := @encrypt_eq g _ _ a source hfails hlength sink hready uri t
  exact ⟨_, sink', _, hrun, rfl, hreceived, Gcm.length_applyKeystream _ _ _ _⟩

/-- **A resource that was tampered with is not decrypted**, in whatever pieces it comes. -/
theorem decrypt_tampered (hg : g.Lawful) (b : Bounded σ)
    (hencrypt : (encrypt g source sink uri).run t = ((.ok d, sink'), t'))
    (hkey : (g.cipher d.key).MovesZero) :
    ∃ stream, b.received sink' = b.received sink ++ stream
      ∧ ∀ (τ : Type) (_ : Writer τ) (b' : Bounded τ) (dest : τ) (again : Source)
          (d' : Descriptor), again.fails = false → b'.Fits dest again.reads.flatten.length →
        d'.key = d.key →
        Sealed.Tampered ⟨d.iv, stream, d.tag⟩ ⟨d'.iv, again.reads.flatten, d'.tag⟩ →
        (decrypt g again dest d').1 = .error .openFailed := by
  obtain ⟨stream, hreceived, hlength, htag⟩ := exists_stream_of_encrypt_eq_ok b hencrypt
  refine ⟨stream, hreceived, ?_⟩
  intro τ _ b' dest again d' hagain hfits hsame ht
  have hshort : again.reads.flatten.length ≤ CounterStream.maxLength := by
    have hsame := ht.length_eq
    dsimp only at hsame
    rw [hsame]
    exact hlength
  have hne := @Gcm.tag_ne_of_tampered g [] hg d.key hkey ⟨d.iv, stream, d.tag⟩
    ⟨d'.iv, again.reads.flatten, d'.tag⟩ htag ht
  obtain ⟨w, -, hdecrypt⟩ := @decrypt_eq_if_tag_eq g _ _ _ _ ((b'.fills dest).takes hfits) hshort
    again hagain le_rfl dest (b'.after_start dest) d'
  rw [hdecrypt, hsame, if_neg hne]

end Resource

end Signet
