import Mathlib.Tactic
import Signet.Proofs.ByteStream.Failing
import Signet.Proofs.Resource.Transfer

/-!
Resources whose source or sink fails on the way.

* **Writers.** `SealingWriter.fills_after`, `OpeningWriter.fills_after`: a writer that encrypts or
  decrypts fails where there is no key stream left or where the writer behind it does, and what has
  arrived there belongs to a part of what was offered.
* **Encryption.** `writeSealed_reaches`: whatever fails, the tag included, what has arrived at the
  sink is a part of the ciphertext. `encrypt_reaches` adds the flushes.
* **Decryption.** `decrypt_reaches`: a part of the plaintext has arrived, and all of it where the
  tag fits.
* `Resource.transfer_fails_safely` says both of a source and a sink of any kind.
-/

namespace Signet

open ByteStream

variable {σ : Type} [ByteStream.Writer σ] {fits : ℕ → Prop} {after arrived : Bytes → σ → Prop}
variable {g : GcmPrimitives} {key : FixedBytes 32} {iv : FixedBytes 12}

/-! ### Writers -/

/-- A part of a message is encrypted as that part of the ciphertext. -/
lemma Gcm.applyKeystream_take (c : KeyedCipher) (iv : FixedBytes 12) (data : Bytes) (n : ℕ) :
    applyKeystream c iv 0 (data.take n) = (applyKeystream c iv 0 data).take n := by
  obtain hle | hle := Nat.le_total n data.length
  · have hsplit := applyKeystream_zero_append c iv (data.take n) (data.drop n)
    rw [List.take_append_drop] at hsplit
    have hlength : (applyKeystream c iv 0 (data.take n)).length = n := by simp [hle]
    rw [hsplit, List.take_left' hlength]
  · rw [List.take_of_length_le hle, List.take_of_length_le (by simpa using hle)]

lemma Gcm.applyKeystream_prefix {c : KeyedCipher} {iv : FixedBytes 12} {part data : Bytes}
    (h : part <+: data) : applyKeystream c iv 0 part <+: applyKeystream c iv 0 data := by
  rw [List.prefix_iff_eq_take.mp h, applyKeystream_take]
  exact List.take_prefix _ _

/-- A part of a ciphertext is the ciphertext of a part. -/
lemma Gcm.exists_applyKeystream_eq {c : KeyedCipher} {iv : FixedBytes 12} {part data : Bytes}
    (h : part <+: applyKeystream c iv 0 data) :
    ∃ offered, offered <+: data ∧ applyKeystream c iv 0 offered = part := by
  refine ⟨data.take part.length, List.take_prefix _ _, ?_⟩
  rw [applyKeystream_take, ← List.prefix_iff_eq_take.mp h]

/-- So many bytes fit behind a writer with a stream, and there is key stream for them. -/
def FitsStream (fits : ℕ → Prop) (n : ℕ) : Prop := fits n ∧ n ≤ CounterStream.maxLength

/-- What has arrived behind a writer with a stream belongs to a part of what was offered. -/
def ArrivedBehind (g : GcmPrimitives) (key : FixedBytes 32) (iv : FixedBytes 12)
    (arrived : Bytes → σ → Prop) (part : Bytes) (inner : σ) : Prop :=
  arrived (Gcm.applyKeystream (g.cipher key) iv 0 part) inner

/-- A piece for which there is too little room is passed on in part. -/
lemma ByteStream.Fills.exists_fault_behind (h : Fills fits after arrived) {done piece : Bytes}
    {inner : σ} (hinner : after (Gcm.applyKeystream (g.cipher key) iv 0 done) inner)
    (hfull : ¬ fits (done ++ piece).length) :
    ∃ inner' fault offered,
      Writer.write inner (Gcm.applyKeystream (g.cipher key) iv done.length piece)
          = (inner', some fault)
        ∧ offered <+: done ++ piece ∧ ArrivedBehind g key iv arrived offered inner' := by
  have hwrite := h.write (Gcm.applyKeystream (g.cipher key) iv done.length piece) hinner
  rw [← Gcm.applyKeystream_zero_append, Gcm.length_applyKeystream] at hwrite
  obtain ⟨inner', fault, part, hfault, hpart, harrived⟩ := hwrite.exists_fault hfull
  obtain ⟨offered, hoffered, rfl⟩ := Gcm.exists_applyKeystream_eq hpart
  exact ⟨inner', fault, offered, hfault, hoffered, harrived⟩

namespace SealingWriter

/-- What is known of an encrypting writer for which there was key stream enough. -/
def Within (g : GcmPrimitives) (key : FixedBytes 32) (iv : FixedBytes 12)
    (after : Bytes → σ → Prop) (done : Bytes) (w : SealingWriter σ) : Prop :=
  After g key iv after done w ∧ done.length ≤ CounterStream.maxLength

/-- **An encrypting writer fails where the writer behind it does**, or where there is no key stream
left. -/
theorem fills_within (h : Fills fits after arrived) :
    Fills (FitsStream fits) (Within g key iv after)
      (fun part w => ArrivedBehind g key iv arrived part w.inner) where
  mono hle hfits := ⟨h.mono hle hfits.1, hle.trans hfits.2⟩
  fits_length {done w} hw := by
    have hinner := h.fits_length hw.1.inner
    rw [Gcm.length_applyKeystream] at hinner
    exact ⟨hinner, hw.2⟩
  arrived_of_after hw := h.arrived_of_after hw.1.inner
  write := by
    intro done w piece ⟨hw, _⟩
    refine reaches_of (fun ⟨hfits, hlimit⟩ => ?_) (fun hw' => h.arrived_of_after hw'.1.inner)
      fun hfull => ?_
    · obtain ⟨w', hwrite, hw'⟩ := takes_after (h.takes hfits) hlimit done piece w hw le_rfl
      exact ⟨w', hwrite, hw', hlimit⟩
    · show ∃ w' fault part, w.write piece = (w', some fault) ∧ _
      by_cases hlimit : (done ++ piece).length ≤ CounterStream.maxLength
      · obtain ⟨stream, hencrypt, -⟩ := hw.stream.encrypt_message_eq hlimit
        obtain ⟨inner, fault, offered, hwrite, hoffered, hbehind⟩ :=
          h.exists_fault_behind hw.inner fun hfits => hfull ⟨hfits, hlimit⟩
        refine ⟨⟨stream, inner⟩, fault, offered, ?_, hoffered, hbehind⟩
        rw [SealingWriter.write, hencrypt]
        dsimp only
        rw [hwrite]
      · have hnone : w.stream.encrypt piece = none := hw.stream.encrypt_eq_none
          (by rwa [Gcm.length_applyKeystream, ← List.length_append])
        refine ⟨w, .sealExhausted, done, ?_, List.prefix_append _ _,
          h.arrived_of_after hw.inner⟩
        rw [SealingWriter.write, hnone]

end SealingWriter

namespace OpeningWriter

/-- What is known of a decrypting writer for which there was key stream enough. -/
def Within (g : GcmPrimitives) (key : FixedBytes 32) (iv : FixedBytes 12)
    (after : Bytes → σ → Prop) (done : Bytes) (w : OpeningWriter σ) : Prop :=
  After g key iv after done w ∧ done.length ≤ CounterStream.maxLength

/-- **A decrypting writer fails where the writer behind it does**, or where there is no key stream
left. -/
theorem fills_within (h : Fills fits after arrived) :
    Fills (FitsStream fits) (Within g key iv after)
      (fun part w => ArrivedBehind g key iv arrived part w.inner) where
  mono hle hfits := ⟨h.mono hle hfits.1, hle.trans hfits.2⟩
  fits_length {done w} hw := by
    have hinner := h.fits_length hw.1.inner
    rw [Gcm.length_applyKeystream] at hinner
    exact ⟨hinner, hw.2⟩
  arrived_of_after hw := h.arrived_of_after hw.1.inner
  write := by
    intro done w piece ⟨hw, _⟩
    refine reaches_of (fun ⟨hfits, hlimit⟩ => ?_) (fun hw' => h.arrived_of_after hw'.1.inner)
      fun hfull => ?_
    · obtain ⟨w', hwrite, hw'⟩ := takes_after (h.takes hfits) hlimit done piece w hw le_rfl
      exact ⟨w', hwrite, hw', hlimit⟩
    · show ∃ w' fault part, w.write piece = (w', some fault) ∧ _
      by_cases hlimit : (done ++ piece).length ≤ CounterStream.maxLength
      · obtain ⟨stream, hdecrypt, -⟩ := hw.stream.decrypt_eq hlimit
        obtain ⟨inner, fault, offered, hwrite, hoffered, hbehind⟩ :=
          h.exists_fault_behind hw.inner fun hfits => hfull ⟨hfits, hlimit⟩
        refine ⟨⟨stream, inner⟩, fault, offered, ?_, hoffered, hbehind⟩
        rw [OpeningWriter.write, hdecrypt]
        dsimp only
        rw [hwrite]
      · have hnone : w.stream.decrypt piece = none :=
          hw.stream.decrypt_eq_none (by rwa [← List.length_append])
        refine ⟨w, .openExhausted, done, ?_, List.prefix_append _ _,
          h.arrived_of_after hw.inner⟩
        rw [OpeningWriter.write, hnone]

end OpeningWriter

namespace Resource

/-- What is known of a writer after bytes and after `n` flushes. -/
structure Flushed (b : Bounded σ) (start : σ) (n : ℕ) (done : Bytes) (w : σ) : Prop where
  /-- The bytes have arrived. -/
  received_eq : b.received w = b.received start ++ done
  /-- The flushes to come. -/
  faults_eq : b.faults w = fun i => b.faults start (i + n)

variable {b : Bounded σ} {start : σ}

lemma flushed_of_after {done : Bytes} {w : σ} (h : b.After start done w) :
    Flushed b start 0 done w :=
  ⟨h.received_eq, h.faults_eq⟩

/-- One flush more, which fails or not. -/
lemma Flushed.flush {n : ℕ} {done : Bytes} {w : σ} (h : Flushed b start n done w) :
    Reaches (b.faults start n = none) (Flushed b start (n + 1)) (b.Arrived start) done
      (Writer.flush w) := by
  obtain ⟨hfault, hreceived, hfaults⟩ := b.flush w
  simp only [h.faults_eq, Nat.zero_add] at hfault hfaults
  have hdone := hreceived.trans h.received_eq
  refine ⟨by rw [hfault], ⟨done, List.prefix_rfl, hdone⟩, fun _ => ⟨hdone, ?_⟩⟩
  rw [hfaults]
  funext i
  rw [Nat.add_right_comm, Nat.add_assoc]

/-- The last bytes that were offered to a buffer have not arrived behind it. -/
lemma take_prefix_of_prefix_append {part bytes : Bytes} {tag : FixedBytes 16}
    (h : part <+: bytes ++ tag.toList) : part.take (part.length - 16) <+: bytes := by
  have hle := h.length_le
  rw [List.length_append, tag.length_eq] at hle
  have hpart := (List.take_prefix (part.length - 16) part).trans h
  refine List.prefix_of_prefix_length_le hpart (List.prefix_append _ _) ?_
  rw [List.length_take]
  omega

/-! ### Encryption -/

/-- What is known once the ciphertext was written: it has arrived, and the buffer holds the tag. -/
structure Written (g : GcmPrimitives) (key : SymmetricKey) (iv : FixedBytes 12) (b : Bounded σ)
    (start : σ) (data : Bytes) (t : TailBuffer σ) : Prop where
  /-- The ciphertext has arrived, and one flush has not failed. -/
  inner : Flushed b start 1 (ciphertext g key iv data) t.inner
  /-- The buffer holds the tag. -/
  held_eq : t.held = (tag g key iv data).toList

/-- There is room for the ciphertext of a source, and the source does not fail. -/
def Transfers (b : Bounded σ) (start : σ) (source : Source) : Prop :=
  b.Fits start source.reads.flatten.length ∧ source.fails = false

/-- **No byte of the tag arrives at the sink**, and the ciphertext does so as far as nothing
fails. -/
theorem writeSealed_reaches (b : Bounded σ) (sink : σ) {source : Source}
    (hlength : source.reads.flatten.length ≤ CounterStream.maxLength) :
    Reaches (Transfers b sink source ∧ b.faults sink 0 = none)
      (fun _ => Written g key iv b sink source.reads.flatten)
      (fun part t => b.Arrived sink part t.inner) (ciphertext g key iv source.reads.flatten)
      (writeSealed g key iv source sink) := by
  have hbuffer := @TailBuffer.fills_holding _ _ _ _ _ 16 (b.fills sink)
  have hcopy := (@SealingWriter.fills_within _ _ _ _ _ g key iv hbuffer).copy
    ⟨SealingWriter.after_start (TailBuffer.holding_empty (b.after_start sink)), Nat.zero_le _⟩
    source
  rw [writeSealed]
  by_cases hsource : FitsStream (fun n => b.Fits sink (n - 16)) source.reads.flatten.length
      ∧ source.fails = false
  · obtain ⟨w, hrun, hw, -⟩ := hcopy.exists_ok hsource
    rw [hrun]
    dsimp only
    have htag := hbuffer.write w.stream.tag.toList hw.inner
    have hall : (Gcm.applyKeystream (g.cipher key) iv 0 source.reads.flatten
        ++ w.stream.tag.toList).length - 16 = source.reads.flatten.length := by
      rw [List.length_append, Gcm.length_applyKeystream, w.stream.tag.length_eq, Nat.add_sub_cancel]
    rw [hall] at htag
    change Reaches _ _ _ _ (w.inner.write w.stream.tag.toList) at htag
    by_cases hfits : b.Fits sink source.reads.flatten.length
    · obtain ⟨t, hwrite, ht⟩ := htag.exists_ok hfits
      obtain ⟨hheld, hafter⟩ := held_eq_tag ht
      have hflush := (flushed_of_after hafter).flush
      rw [hwrite]
      dsimp only
      rw [TailBuffer.flush]
      refine ⟨?_, hflush.part, fun hnone => ⟨hflush.of_ok hnone, ?_⟩⟩
      · exact hflush.ok_iff.trans (and_iff_right ⟨hfits, hsource.2⟩).symm
      · rw [tag, ciphertext, ← hw.stream.tag_eq]
        exact hheld
    · obtain ⟨t, fault, part, hwrite, hpart, harrived⟩ := htag.exists_fault hfits
      rw [hwrite]
      refine reaches_of (fun hok => absurd hok.1.1 hfits) (fun h => h.inner.received_eq) fun _ =>
        ⟨t, fault, _, rfl, take_prefix_of_prefix_append hpart, harrived⟩
  · obtain ⟨w, fault, part, hrun, hpart, harrived⟩ := hcopy.exists_fault hsource
    rw [hrun]
    refine reaches_of (fun hok => ?_) (fun h => h.inner.received_eq) fun _ =>
      ⟨w.inner, fault, _, rfl, ?_, harrived⟩
    · have hfits : b.Fits sink (source.reads.flatten.length - 16) :=
        (b.fills sink).mono (Nat.sub_le _ _) hok.1.1
      exact absurd ⟨⟨hfits, hlength⟩, hok.1.2⟩ hsource
    · exact (List.take_prefix _ _).trans (Gcm.applyKeystream_prefix hpart)

/-- What encryption comes to, whatever fails. -/
theorem encrypt_reaches (b : Bounded σ) (sink : σ) {source : Source}
    (hlength : source.reads.flatten.length ≤ CounterStream.maxLength) (uri : Option String)
    (t : Tape) :
    let key := t.slice t.used 32
    let iv := t.slice (t.used + 32) 12
    ∃ result sink' part, (encrypt g source sink uri).run t
        = ((result, sink'), { t with used := t.used + 44 })
      ∧ b.received sink' = b.received sink ++ part
      ∧ part <+: ciphertext g key iv source.reads.flatten
      ∧ ((∃ d, result = .ok d) ↔
        Transfers b sink source ∧ b.faults sink 0 = none ∧ b.faults sink 1 = none)
      ∧ ∀ d, result = .ok d → part = ciphertext g key iv source.reads.flatten
        ∧ d = ⟨iv, key, tag g key iv source.reads.flatten, uri⟩ := by
  intro key iv
  have hfailed (e : Error) :
      ¬ ∃ d, (Except.error e : Except Error Descriptor) = .ok d := by
    rintro ⟨d, hd⟩
    cases hd
  have hsealed := @writeSealed_reaches σ _ g key iv b sink source hlength
  rw [run_encrypt, encryptWith]
  by_cases hok : Transfers b sink source ∧ b.faults sink 0 = none
  · obtain ⟨buffer, hwrite, hbuffer⟩ := hsealed.exists_ok hok
    have hflush := hbuffer.inner.flush
    have htag : FixedBytes.ofList? 16 buffer.held = some (tag g key iv source.reads.flatten) := by
      rw [hbuffer.held_eq, FixedBytes.ofList?_toList]
    rw [hwrite]
    dsimp only
    by_cases hfault : b.faults sink 1 = none
    · obtain ⟨sink', hrun, hsink'⟩ := hflush.exists_ok hfault
      rw [hrun]
      dsimp only
      rw [htag]
      refine ⟨_, sink', _, rfl, hsink'.received_eq, List.prefix_rfl, ?_, fun d hd => ⟨rfl, ?_⟩⟩
      · exact iff_of_true ⟨_, rfl⟩ ⟨hok.1, hok.2, hfault⟩
      · cases hd
        rfl
    · obtain ⟨sink', fault, part, hrun, hpart, harrived⟩ := hflush.exists_fault hfault
      rw [hrun]
      refine ⟨_, sink', part, rfl, harrived, hpart, ?_, fun d hd => absurd ⟨d, hd⟩ (hfailed _)⟩
      exact iff_of_false (hfailed _) fun h => hfault h.2.2
  · obtain ⟨buffer, fault, part, hwrite, hpart, harrived⟩ := hsealed.exists_fault hok
    rw [hwrite]
    refine ⟨_, buffer.inner, part, rfl, harrived, hpart, ?_,
      fun d hd => absurd ⟨d, hd⟩ (hfailed _)⟩
    exact iff_of_false (hfailed _) fun h => hok ⟨h.1, h.2.1⟩

/-! ### Decryption -/

/-- The plaintext of a ciphertext, before the tag is known to fit. -/
def plaintext (g : GcmPrimitives) (d : Descriptor) (bytes : Bytes) : Bytes :=
  Gcm.applyKeystream (g.cipher d.key) d.iv 0 bytes

/-- **Nothing but plaintext arrives at the sink**, in order and without gaps; where decryption
succeeds all of it has arrived and the tag fits. -/
theorem decrypt_reaches (b : Bounded σ) (sink : σ) (source : Source) (d : Descriptor) :
    ∃ result sink' part, decrypt g source sink d = (result, sink')
      ∧ b.received sink' = b.received sink ++ part ∧ part <+: plaintext g d source.reads.flatten
      ∧ (result = .ok () → source.fails = false ∧ part = plaintext g d source.reads.flatten
        ∧ Gcm.tag g (g.cipher d.key) d.iv [] source.reads.flatten = d.tag) := by
  have hfailed (e : Error) : (Except.error e : Except Error Unit) ≠ .ok () := by
    intro h
    cases h
  have hopen := @OpeningWriter.fills_within _ _ _ _ _ g d.key d.iv (b.fills sink)
  have hbuffer := @TailBuffer.fills_holding _ _ _ _ _ 16 hopen
  have hcopy := hbuffer.copy (TailBuffer.holding_empty
    ⟨OpeningWriter.after_start (b.after_start sink), Nat.zero_le _⟩) source
  rw [decrypt]
  by_cases hsource : FitsStream (b.Fits sink) (source.reads.flatten.length - 16)
      ∧ source.fails = false
  · obtain ⟨t, hrun, ht⟩ := hcopy.exists_ok hsource
    rw [hrun]
    dsimp only
    have hwrite := hbuffer.write d.tag.toList ht
    change Reaches _ _ _ _ (t.write d.tag.toList) at hwrite
    by_cases hfits : FitsStream (b.Fits sink)
        ((source.reads.flatten ++ d.tag.toList).length - 16)
    · obtain ⟨t', hwrite', ht'⟩ := hwrite.exists_ok hfits
      obtain ⟨hheld, hafter, -⟩ := held_eq_tag ht'
      have hflush := (flushed_of_after hafter.inner).flush
      rw [hwrite']
      dsimp only
      rw [finish_eq hheld]
      by_cases htag : t'.held = t'.inner.stream.tag.toList
      · have hfit : Gcm.tag g (g.cipher d.key) d.iv [] source.reads.flatten = d.tag := by
          rw [← hafter.stream.tag_eq]
          exact FixedBytes.ext (htag.symm.trans hheld)
        rw [if_pos htag]
        by_cases hfault : b.faults sink 0 = none
        · obtain ⟨sink', hrun', hsink'⟩ := hflush.exists_ok hfault
          rw [hrun']
          exact ⟨_, sink', _, rfl, hsink'.received_eq, List.prefix_rfl,
            fun _ => ⟨hsource.2, rfl, hfit⟩⟩
        · obtain ⟨sink', fault, part, hrun', hpart, harrived⟩ := hflush.exists_fault hfault
          rw [hrun']
          exact ⟨_, sink', part, rfl, harrived, hpart, fun hok => absurd hok (hfailed _)⟩
      · rw [if_neg htag]
        exact ⟨_, _, _, rfl, hafter.inner.received_eq, List.prefix_rfl,
          fun hok => absurd hok (hfailed _)⟩
    · obtain ⟨t', fault, part, hwrite', hpart, harrived⟩ := hwrite.exists_fault hfits
      rw [hwrite']
      exact ⟨_, _, _, rfl, harrived,
        Gcm.applyKeystream_prefix (take_prefix_of_prefix_append hpart),
        fun hok => absurd hok (hfailed _)⟩
  · obtain ⟨t, fault, part, hrun, hpart, harrived⟩ := hcopy.exists_fault hsource
    rw [hrun]
    exact ⟨_, _, _, rfl, harrived,
      Gcm.applyKeystream_prefix ((List.take_prefix _ _).trans hpart),
      fun hok => absurd hok (hfailed _)⟩

/-- **Whatever fails on the way, nothing arrives at the sink that should not be there.** The source
may fail after any part of the data, the sink may have room for some bytes only, and its flushes may
fail. What encryption has written is a part of the ciphertext that it writes where nothing fails;
it succeeds exactly if nothing fails, and then that is all of it. What decryption has written is
a part of the plaintext; where it succeeds that is all of it, and the tag fits. -/
theorem transfer_fails_safely (g : GcmPrimitives) (b : Bounded σ) (sink : σ) :
    (∀ (t : Tape) (data : Bytes) (source : Source) (uri : Option String),
      data.length ≤ 2 ^ 36 - 32 → source.reads.flatten <+: data →
      (source.fails = false → source.reads.flatten = data) →
      ∃ (d : Descriptor) (whole : Bytes) (result : Except Error Descriptor) (sink' : σ)
          (part : Bytes),
        (∀ clean : Source, clean.reads.flatten = data → clean.fails = false →
          ∃ all, (encrypt g clean (Sink.empty none false) uri).run t
              = ((.ok d, all), { t with used := t.used + 44 })
            ∧ all.received = whole)
        ∧ (encrypt g source sink uri).run t = ((result, sink'), { t with used := t.used + 44 })
        ∧ b.received sink' = b.received sink ++ part ∧ part <+: whole
        ∧ ((∃ found, result = .ok found) ↔ source.fails = false
          ∧ (∀ m ∈ b.room sink, data.length ≤ m)
          ∧ b.faults sink 0 = none ∧ b.faults sink 1 = none)
        ∧ ∀ found, result = .ok found → found = d ∧ part = whole)
    ∧ ∀ (d : Descriptor) (source : Source), ∃ (result : Except Error Unit) (sink' : σ)
        (part : Bytes),
      decrypt g source sink d = (result, sink')
        ∧ b.received sink' = b.received sink ++ part
        ∧ part <+: plaintext g d source.reads.flatten
        ∧ (result = .ok () → source.fails = false ∧ part = plaintext g d source.reads.flatten
          ∧ Gcm.tag g (g.cipher d.key) d.iv [] source.reads.flatten = d.tag) := by
  refine ⟨fun t data source uri hdata hpart hwhole => ?_, fun d source =>
    decrypt_reaches b sink source d⟩
  have hlimit : data.length ≤ CounterStream.maxLength := by
    have hmax : CounterStream.maxLength = 2 ^ 36 - 16 := rfl
    omega
  let key := t.slice t.used 32
  let iv := t.slice (t.used + 32) 12
  obtain ⟨result, sink', part, hrun, hreceived, hprefix, hok, hall⟩ :=
    @encrypt_reaches σ _ g b sink source (hpart.length_le.trans hlimit) uri t
  refine ⟨⟨iv, key, tag g key iv data, uri⟩, ciphertext g key iv data, result, sink', part,
    fun clean hclean hcleanFails => ?_, hrun, hreceived,
    hprefix.trans (Gcm.applyKeystream_prefix hpart), hok.trans ?_, fun found hfound => ?_⟩
  · have hencrypt := @encrypt_eq g _ _ Sink.accepting clean hcleanFails (hclean ▸ hlimit)
      (Sink.empty none false) ⟨rfl, rfl⟩ uri t
    rw [hclean] at hencrypt
    exact hencrypt
  · rw [Transfers, Bounded.Fits]
    constructor
    · rintro ⟨⟨hfits, hfails⟩, hflush⟩
      exact ⟨hfails, hwhole hfails ▸ hfits, hflush⟩
    · rintro ⟨hfails, hfits, hflush⟩
      exact ⟨⟨(hwhole hfails).symm ▸ hfits, hfails⟩, hflush⟩
  · obtain ⟨hpart', rfl⟩ := hall found hfound
    have hfails : source.fails = false := (hok.mp ⟨_, hfound⟩).1.2
    rw [hwhole hfails] at hpart'
    exact ⟨by rw [hwhole hfails], hpart'⟩

/-- A source that fails after eighteen of twenty bytes, and a sink with room for ten. -/
theorem transfer_fails_safely_twenty_bytes :
    let t : Tape := .cyclic [1, 2, 3]
    let data : Bytes := List.replicate 20 7
    let source : Source := ⟨[List.replicate 3 7, List.replicate 15 7], true⟩
    data.length ≤ 2 ^ 36 - 32 ∧ source.reads.flatten <+: data
      ∧ (source.fails = false → source.reads.flatten = data)
      ∧ ∃ result sink d all,
        (encrypt aes256Gcm source (Sink.empty (some 10) false) none).run t
          = ((result, sink), { t with used := 44 })
        ∧ (encrypt aes256Gcm ⟨[data], false⟩ (Sink.empty none false) none).run t
          = ((.ok d, all), { t with used := 44 })
        ∧ sink.received <+: all.received ∧ ¬ ∃ found, result = .ok found := by
  intro t data source
  have hlength : data.length ≤ 2 ^ 36 - 32 := by decide
  have hpart : source.reads.flatten <+: data := by decide
  have hwhole : source.fails = false → source.reads.flatten = data := by decide
  obtain ⟨d, whole, result, sink, part, hclean, hrun, hreceived, hprefix, hok, -⟩ :=
    (transfer_fails_safely aes256Gcm Sink.bounded (Sink.empty (some 10) false)).1 t data source none
      hlength hpart hwhole
  obtain ⟨all, hall, rfl⟩ := hclean ⟨[data], false⟩ (by simp) rfl
  refine ⟨hlength, hpart, hwhole, result, sink, d, all, hrun, hall, ?_, fun h => ?_⟩
  · have harrived : sink.received = part := hreceived
    rw [harrived]
    exact hprefix
  · cases (hok.mp h).1

end Resource

end Signet
