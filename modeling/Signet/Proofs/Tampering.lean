import Mathlib.Tactic
import Signet.Proofs.Envelope.Tampered
import Signet.Proofs.Resource.Tampered

/-!
One flipped bit is always noticed, in everything that is sealed.

* `openFailed_of_tampered`: in sealed messages, in the three kinds of envelopes and in resources.
  Base64 and JSON take nothing away from it, since the parts that were tampered with are still read.
-/

namespace Signet

open ByteStream

/-- **A flipped bit is always noticed**, with a key under which the zero block is not encrypted to
itself. Opening fails in the same way wherever the bit is:

* in the IV, the ciphertext or the tag of a sealed message;
* in these fields of an envelope, with the key of the recipient, the first key that is known of the
  recipients or the key pair of the recipient;
* in the IV, the tag or the wrapped key of the entry whose key is used;
* in the stream of a resource or in the IV or the tag of its descriptor, also as text. -/
theorem openFailed_of_tampered (g : GcmPrimitives) (hg : g.Lawful) (scheme : AgreementScheme) :
    (∀ (key : SymmetricKey) (iv : FixedBytes 12) (message aad : Bytes) (s s' : Sealed),
      (g.cipher key).MovesZero → Gcm.sealWithIv g key iv message aad = .ok s → s.Tampered s' →
      Gcm.openSealed g key s' aad = .error .openFailed)
    ∧ (∀ (message : Bytes) (k : NamedKey) (t : Tape) (n : ℕ) (envelope envelope' : String)
        (keys : KeyProvider),
      (g.cipher k.key).MovesZero → (Compact.encrypt g message k).Gives t (.ok envelope) n →
      keys k.id = .ok k.key → Compact.Tampered envelope envelope' →
      Compact.decrypt g envelope' keys = .error .openFailed)
    ∧ (∀ (payload : Bytes) (rs rs' : List NamedKey) (r : NamedKey) (extra : Option Bytes) (t : Tape)
        (n : ℕ) (envelope envelope' : String) (keys : KeyProvider),
      (Wrapped.encrypt g payload (rs ++ r :: rs') extra).Gives t (.ok envelope) n →
      (∀ r ∈ rs, Wrapped.answers keys r = false) → keys r.id = .ok r.key →
      (g.cipher (t.slice t.used 32)).MovesZero ∧ Message.Tampered envelope envelope'
        ∨ (g.cipher r.key).MovesZero ∧ Wrapped.EntryTampered rs.length envelope envelope' →
      Wrapped.decrypt g envelope' keys = .error .openFailed)
    ∧ (∀ (payload : Bytes) (id : String) (secret : FixedBytes 32) (t : Tape) (n : ℕ)
        (envelope : String), scheme.Commutes (Agreed.drawnPair scheme t).secret secret →
      let pair : KeyPair .connect := .ofSecret scheme.publicOf id secret
      (Agreed.encrypt g scheme payload pair.publicKey).Gives t (.ok envelope) n →
      ∃ key, Agreed.contentKey scheme (Agreed.drawnPair scheme t) pair.publicKey = .ok key
        ∧ ((g.cipher key).MovesZero → ∀ envelope', Message.Tampered envelope envelope' →
          Agreed.decrypt g scheme envelope' pair = .error .openFailed))
    ∧ ∀ (σ : Type) (_ : Writer σ) (b : Bounded σ) (source : Source) (sink sink' : σ)
        (uri : Option String) (t t' : Tape) (d : Descriptor),
      (Resource.encrypt g source sink uri).run t = ((.ok d, sink'), t') →
      (g.cipher d.key).MovesZero →
      ∃ stream, b.received sink' = b.received sink ++ stream
        ∧ ∀ (τ : Type) (_ : Writer τ) (b' : Bounded τ) (dest : τ) (again : Source),
          again.fails = false → b'.Fits dest again.reads.flatten.length →
          (∀ d' : Descriptor, d'.key = d.key →
            Sealed.Tampered ⟨d.iv, stream, d.tag⟩ ⟨d'.iv, again.reads.flatten, d'.tag⟩ →
            (Resource.decrypt g again dest d').1 = .error .openFailed)
          ∧ ∀ text text', Descriptor.ofText text = .ok d → Descriptor.Tampered text text' →
            again.reads.flatten = stream → ∃ d', Descriptor.ofText text' = .ok d'
              ∧ (Resource.decrypt g again dest d').1 = .error .openFailed := by
  refine ⟨?_, ?_, ?_, ?_, ?_⟩
  · intro key iv message aad s s' hkey hseal ht
    exact Gcm.openSealed_tampered hg hkey (Gcm.openSealed_of_sealWithIv hseal) ht
  · intro message k t n envelope envelope' keys hkey hencrypt hkeys ht
    exact Compact.decrypt_tampered hg hkey hencrypt hkeys ht
  · intro payload rs rs' r extra t n envelope envelope' keys hencrypt hrs hkeys ht
    obtain ⟨hkey, ht⟩ | ⟨hkey, ht⟩ := ht
    · exact Wrapped.decrypt_tampered hg hencrypt hkey hrs hkeys ht
    · exact Wrapped.decrypt_entryTampered hg hencrypt hkey hrs hkeys ht
  · intro payload id secret t n envelope hscheme pair hencrypt
    exact Agreed.decrypt_tampered hg hscheme rfl hencrypt
  · intro σ _ b source sink sink' uri t t' d hencrypt hkey
    obtain ⟨stream, hreceived, hdecrypt⟩ := Resource.decrypt_tampered hg b hencrypt hkey
    refine ⟨stream, hreceived, ?_⟩
    intro τ _ b' dest again hagain hfits
    refine ⟨fun d' => hdecrypt τ _ b' dest again d' hagain hfits, ?_⟩
    intro text text' hread ht hstream
    obtain ⟨d', hread', hkey', ht'⟩ := Descriptor.ofText_tampered hread ht
    refine ⟨d', hread', hdecrypt τ _ b' dest again d' hagain hfits hkey' ?_⟩
    rw [hstream]
    exact ht' stream

/-- Two secrets on the curve have something in common, and under the content key that follows from
it the zero block is not encrypted to itself. -/
lemma agreed_on_curve : ∃ (secret : FixedBytes 32) (t : Tape),
    let shared := x25519.shared (Agreed.drawnPair x25519 t).secret (x25519.publicOf secret)
    x25519.Commutes (Agreed.drawnPair x25519 t).secret secret ∧ shared ≠ .zero 32
      ∧ (aes256Gcm.cipher (Derivation.agreementKey shared Envelope.encryption)).MovesZero := by
  refine ⟨.ofNatBE 32 2, .cyclic [7, 8, 9], ?_, ?_, ?_⟩
  · rw [AgreementScheme.Commutes]
    decide +kernel
  · decide +kernel
  · rw [KeyedCipher.MovesZero]
    decide +kernel

/-- With AES: the first bit of a tag, the last bit of an IV, a payload and the entry of the second
recipient, an envelope for a key pair on the curve, and the fourth bit of a stream. -/
theorem openFailed_of_tampered_aes :
    aes256Gcm.Lawful
    ∧ (∃ key iv s s', (aes256Gcm.cipher key).MovesZero
      ∧ Gcm.sealWithIv aes256Gcm key iv [1, 2, 3] [] = .ok s ∧ s.Tampered s'
      ∧ Gcm.openSealed aes256Gcm key s' [] = .error .openFailed)
    ∧ (∃ (k : NamedKey) (t : Tape) (envelope envelope' : String),
      (aes256Gcm.cipher k.key).MovesZero
      ∧ (Compact.encrypt aes256Gcm [1, 2, 3] k).Gives t (.ok envelope) 12
      ∧ Compact.Tampered envelope envelope'
      ∧ Compact.decrypt aes256Gcm envelope' (KeyProvider.ofKey k) = .error .openFailed)
    ∧ (∃ (a b : NamedKey) (t : Tape) (envelope payload entry : String),
      (Wrapped.encrypt aes256Gcm [1, 2, 3] [a, b] none).Gives t (.ok envelope) 68
      ∧ (aes256Gcm.cipher (t.slice t.used 32)).MovesZero ∧ Message.Tampered envelope payload
      ∧ (aes256Gcm.cipher b.key).MovesZero ∧ Wrapped.EntryTampered 1 envelope entry
      ∧ Wrapped.decrypt aes256Gcm payload (KeyProvider.ofKey b) = .error .openFailed
      ∧ Wrapped.decrypt aes256Gcm entry (KeyProvider.ofKey b) = .error .openFailed)
    ∧ (∃ (pair : KeyPair .connect) (t : Tape) (key : SymmetricKey) (envelope envelope' : String),
      x25519.Commutes (Agreed.drawnPair x25519 t).secret pair.secret
      ∧ (Agreed.encrypt aes256Gcm x25519 [1, 2, 3] pair.publicKey).Gives t (.ok envelope) 56
      ∧ Agreed.contentKey x25519 (Agreed.drawnPair x25519 t) pair.publicKey = .ok key
      ∧ (aes256Gcm.cipher key).MovesZero ∧ Message.Tampered envelope envelope'
      ∧ Agreed.decrypt aes256Gcm x25519 envelope' pair = .error .openFailed)
    ∧ ∃ (t t' : Tape) (d d' : Descriptor) (encrypted : Sink),
      (Resource.encrypt aes256Gcm ⟨[[1, 2, 3]], false⟩ (Sink.empty none false) none).run t
          = ((.ok d, encrypted), t')
      ∧ (aes256Gcm.cipher d.key).MovesZero
      ∧ (Resource.decrypt aes256Gcm ⟨[Bytes.flipBit 3 encrypted.received], false⟩
          (Sink.empty none false) d).1 = .error .openFailed
      ∧ Descriptor.Tampered d.toText d'.toText
      ∧ (Resource.decrypt aes256Gcm ⟨[encrypted.received], false⟩ (Sink.empty none false) d').1
        = .error .openFailed := by
  obtain ⟨hsealed, hcompact, hwrapped, hagreed, hresource⟩ :=
    openFailed_of_tampered aes256Gcm lawful_aes256Gcm x25519
  let t := Tape.cyclic [0]
  have hzeros : t.slice t.used 32 = .zero 32 := by decide +kernel
  have hzero : (aes256Gcm.cipher (.zero 32)).MovesZero := by
    rw [KeyedCipher.MovesZero]
    decide +kernel
  have hfits : Gcm.Fits [1, 2, 3] (Message.aad Message.headerText none) := by
    constructor <;> decide +kernel
  refine ⟨lawful_aes256Gcm, ?_, ?_, ?_, ?_, ?_⟩
  · have hshort : Gcm.Fits [1, 2, 3] [] := by
      constructor <;> decide
    obtain ⟨s, hs⟩ := Gcm.sealWithIv_of_fits aes256Gcm (.zero 32) (.zero 12) hshort
    have ht := @Sealed.Tampered.tag s 0 (by norm_num)
    exact ⟨_, _, s, _, hzero, hs, ht, hsealed _ _ _ _ s _ hzero hs ht⟩
  · let k : NamedKey := ⟨"me", .zero 32⟩
    have hlength : (Compact.aad (Compact.headerText k.id)).length ≤ Gcm.maxLength :=
      Compact.length_aad_headerText_le (by decide)
    obtain ⟨envelope, envelope', hgives, ht⟩ :=
      @Compact.exists_gives_tampered aes256Gcm [1, 2, 3] k ⟨by decide, hlength⟩ t
    exact ⟨k, t, envelope, envelope', hzero, hgives, ht,
      hcompact _ k t 12 envelope envelope' _ hzero hgives (if_pos rfl) ht⟩
  · let a : NamedKey := ⟨"a", .zero 32⟩
    let b : NamedKey := ⟨"b", .zero 32⟩
    have hdrawn : (aes256Gcm.cipher (t.slice t.used 32)).MovesZero := by
      rw [hzeros]
      exact hzero
    obtain ⟨envelope, payload, entry, hgives, hpayload, hentry⟩ :=
      @Wrapped.exists_gives_tampered aes256Gcm [1, 2, 3] [a] [] b none t hfits
    have hpassed : ∀ r ∈ [a], Wrapped.answers (KeyProvider.ofKey b) r = false := by decide
    have hopen (envelope' : String) := hwrapped [1, 2, 3] [a] [] b none t _ envelope envelope'
      (KeyProvider.ofKey b) hgives hpassed (if_pos rfl)
    exact ⟨a, b, t, envelope, payload, entry, hgives, hdrawn, hpayload, hzero, hentry,
      hopen payload (.inl ⟨hdrawn, hpayload⟩), hopen entry (.inr ⟨hzero, hentry⟩)⟩
  · obtain ⟨secret, t, hcommutes, hne, hmoves⟩ := agreed_on_curve
    let pair : KeyPair .connect := .ofSecret x25519.publicOf "me" secret
    have hkey := (@Agreed.contentKey_eq x25519 (Agreed.drawnPair x25519 t) pair.publicKey).trans
      (if_neg hne)
    obtain ⟨envelope, envelope', hgives, ht⟩ :=
      @Agreed.exists_gives_tampered aes256Gcm x25519 [1, 2, 3] t pair.publicKey _ hkey hfits
    obtain ⟨key, hfound, hopen⟩ := hagreed [1, 2, 3] "me" secret t 56 envelope hcommutes hgives
    have hsame := Except.ok.inj (hkey.symm.trans hfound)
    have hmoves' : (aes256Gcm.cipher key).MovesZero := by
      rw [← hsame]
      exact hmoves
    exact ⟨pair, t, key, envelope, envelope', hcommutes, hgives, hfound, hmoves', ht,
      hopen hmoves' envelope' ht⟩
  · let sink := Sink.empty none false
    have hdrawn : (aes256Gcm.cipher (t.slice t.used 32)).MovesZero := by
      rw [hzeros]
      exact hzero
    obtain ⟨d, encrypted, bytes, hrun, hkey, hbytes, hlength⟩ := @Resource.exists_encrypt_eq_ok
      Sink _ ⟨[[1, 2, 3]], false⟩ sink aes256Gcm Sink.accepting rfl (by decide) ⟨rfl, rfl⟩ none t
    rw [← hkey] at hdrawn
    obtain ⟨stream, hstream, hopen⟩ := hresource Sink _ Sink.bounded _ sink encrypted none t _ d
      hrun hdrawn
    have hencrypted : encrypted.received = stream := hstream
    have hsame : encrypted.received = bytes := hbytes
    let d' : Descriptor := { d with iv := d.iv.flipBit 0 }
    have hdescriptor : Descriptor.Tampered d.toText d'.toText :=
      d.tampered_toText (.inl ⟨0, by norm_num, rfl, rfl⟩)
    have hroom (n : ℕ) : Sink.bounded.Fits sink n := fun m hm => nomatch hm
    have hflipped := (hopen Sink _ Sink.bounded sink ⟨[Bytes.flipBit 3 stream], false⟩ rfl
      (hroom _)).1 d rfl
    have hread := (hopen Sink _ Sink.bounded sink ⟨[stream], false⟩ rfl (hroom _)).1 d' rfl
    rw [List.flatten_singleton] at hflipped hread
    refine ⟨t, _, d, d', encrypted, hrun, hdrawn, ?_, hdescriptor, ?_⟩
    · rw [hencrypted]
      exact hflipped (.ciphertext 3 (by rw [← hencrypted, hsame, hlength]; decide))
    · rw [hencrypted]
      exact hread (.iv 0 (by norm_num))

end Signet
