import Mathlib.Tactic
import Signet.Proofs.ByteStream.Writer

/-!
Writers that may fail, and what has arrived by then.

* `Reaches`: the outcome of a step after which a writer was offered certain bytes in all. Some of
  them from the front have arrived, and all of them if nothing failed.
* `Fills`: a kind of writer that fails exactly where it is offered too much. `Fills.writeAll` and
  `Fills.copy` go on from one write to a source that may fail itself, by induction on its
  pieces; `after` is what carries the induction as long as nothing fails.
* `Bounded` is a writer with so much room that may take part of a write and whose flushes may
  fail; `Bounded.fills` and `Sink.bounded`.
* `TailBuffer.fills_holding`: a buffer fails where the writer behind it does, in whichever of its
  writes that is. What is held has not arrived then, and nothing has arrived that should be held.
-/

namespace Signet.ByteStream

variable {σ : Type} [Writer σ]

/-- The outcome of a step after which a writer was offered `bytes` in all. The step succeeds exactly
under the condition `ok`. -/
structure Reaches (ok : Prop) (after arrived : Bytes → σ → Prop) (bytes : Bytes) (o : Outcome σ) :
    Prop where
  /-- When the step succeeds. -/
  ok_iff : o.2 = none ↔ ok
  /-- What has arrived is a part from the front. -/
  part : ∃ part, part <+: bytes ∧ arrived part o.1
  /-- What is known if the step succeeds. -/
  of_ok : o.2 = none → after bytes o.1

/-- A writer takes as many bytes in all as `fits` says, and fails where it is offered more. What
is known after bytes that were taken is `after`, and `arrived` is what is known of the bytes that
have arrived, also where something failed. -/
structure Fills (fits : ℕ → Prop) (after arrived : Bytes → σ → Prop) : Prop where
  /-- Where more bytes fit, fewer do. -/
  mono : ∀ {m n : ℕ}, n ≤ m → fits m → fits n
  /-- Bytes that were taken did fit. -/
  fits_length : ∀ {done : Bytes} {w : σ}, after done w → fits done.length
  /-- Bytes that were taken have arrived. -/
  arrived_of_after : ∀ {done : Bytes} {w : σ}, after done w → arrived done w
  /-- One write more. -/
  write : ∀ {done : Bytes} {w : σ} (data : Bytes), after done w →
    Reaches (fits (done ++ data).length) after arrived (done ++ data) (Writer.write w data)

variable {fits : ℕ → Prop} {after arrived : Bytes → σ → Prop}

omit [Writer σ] in
lemma reaches_of {ok : Prop} {bytes : Bytes} {o : Outcome σ}
    (hok : ok → ∃ w, o = (w, none) ∧ after bytes w)
    (hafter : ∀ {w : σ}, after bytes w → arrived bytes w)
    (hfault : ¬ ok → ∃ w fault part, o = (w, some fault) ∧ part <+: bytes ∧ arrived part w) :
    Reaches ok after arrived bytes o := by
  by_cases h : ok
  · obtain ⟨w, rfl, hw⟩ := hok h
    exact ⟨iff_of_true rfl h, ⟨bytes, List.prefix_rfl, hafter hw⟩, fun _ => hw⟩
  · obtain ⟨w, fault, part, rfl, hpart, hw⟩ := hfault h
    exact ⟨iff_of_false (Option.some_ne_none fault) h, ⟨part, hpart, hw⟩,
      fun hnone => absurd hnone (Option.some_ne_none fault)⟩

omit [Writer σ] in
/-- A step in which something failed ends at a part of what was offered. -/
lemma Reaches.exists_fault {ok : Prop} {bytes : Bytes} {o : Outcome σ}
    (h : Reaches ok after arrived bytes o) (hok : ¬ ok) :
    ∃ w fault part, o = (w, some fault) ∧ part <+: bytes ∧ arrived part w := by
  obtain ⟨part, hpart, harrived⟩ := h.part
  obtain ⟨fault, hfault⟩ := Option.ne_none_iff_exists'.mp (mt h.ok_iff.mp hok)
  exact ⟨o.1, fault, part, Prod.ext rfl hfault, hpart, harrived⟩

omit [Writer σ] in
lemma Reaches.exists_ok {ok : Prop} {bytes : Bytes} {o : Outcome σ}
    (h : Reaches ok after arrived bytes o) (hok : ok) : ∃ w, o = (w, none) ∧ after bytes w :=
  ⟨o.1, Prod.ext rfl (h.ok_iff.mpr hok), h.of_ok (h.ok_iff.mpr hok)⟩

namespace Fills

/-- Where bytes fit, they are taken. -/
lemma takes (h : Fills fits after arrived) {limit : ℕ} (hlimit : fits limit) :
    Takes limit after :=
  fun _ data _ hw hlength => (h.write data hw).exists_ok (h.mono hlength hlimit)

/-- Pieces are taken one after another as long as they fit. -/
lemma writeAll (h : Fills fits after arrived) {done : Bytes} {w : σ} (hw : after done w)
    (pieces : List Bytes) :
    Reaches (fits (done ++ pieces.flatten).length) after arrived (done ++ pieces.flatten)
      (Source.writeAll pieces w) := by
  refine reaches_of (fun hfits => (h.takes hfits).writeAll hw le_rfl) h.arrived_of_after ?_
  intro hfull
  induction pieces generalizing done w with
  | nil =>
      rw [List.flatten_nil, List.append_nil] at hfull
      exact absurd (h.fits_length hw) hfull
  | cons piece rest ih =>
      rw [List.flatten_cons, ← List.append_assoc] at hfull ⊢
      have hpiece := h.write piece hw
      by_cases hfits : fits (done ++ piece).length
      · obtain ⟨w', hwrite, hw'⟩ := hpiece.exists_ok hfits
        obtain ⟨w'', fault, part, hrest, hpart, hw''⟩ := ih hw' hfull
        exact ⟨w'', fault, part, by rw [Source.writeAll, hwrite]; exact hrest, hpart, hw''⟩
      · obtain ⟨w', fault, part, hwrite, hpart, hw'⟩ := hpiece.exists_fault hfits
        exact ⟨w', fault, part, by rw [Source.writeAll, hwrite],
          hpart.trans (List.prefix_append _ _), hw'⟩

/-- **A source is copied as far as it goes and as its bytes fit**, in whatever pieces it comes. -/
theorem copy (h : Fills fits after arrived) {w : σ} (hw : after [] w) (source : Source) :
    Reaches (fits source.reads.flatten.length ∧ source.fails = false) after arrived
      source.reads.flatten (source.copy w) := by
  have hall := h.writeAll hw source.reads
  rw [List.nil_append] at hall
  refine reaches_of ?_ h.arrived_of_after fun hok => ?_
  · rintro ⟨hfits, hfails⟩
    exact (h.takes hfits).copy hfails hw le_rfl
  · by_cases hfits : fits source.reads.flatten.length
    · obtain ⟨w', hwrite, hw'⟩ := hall.exists_ok hfits
      have hfails : source.fails = true := Bool.eq_true_of_not_eq_false fun h => hok ⟨hfits, h⟩
      exact ⟨w', .readFailed, _, by rw [Source.copy, hwrite, hfails]; rfl, List.prefix_rfl,
        h.arrived_of_after hw'⟩
    · obtain ⟨w', fault, part, hwrite, hpart, hw'⟩ := hall.exists_fault hfits
      exact ⟨w', fault, part, by rw [Source.copy, hwrite], hpart, hw'⟩

end Fills

/-! ### Writers with so much room -/

/-- How one knows of a writer what has arrived at it, how much room it still has, if not for any
number of bytes, and which of its next flushes fail. Of a write for which there is too little room
it may take any part from the front. -/
structure Bounded (σ : Type) [Writer σ] where
  /-- What has arrived. -/
  received : σ → Bytes
  /-- How many more bytes there is room for. -/
  room : σ → Option ℕ
  /-- What fails in the flushes to come. -/
  faults : σ → ℕ → Option Fault
  /-- A write succeeds where there is room for it. -/
  write_ok_iff : ∀ w data, (Writer.write w data).2 = none ↔ ∀ m ∈ room w, data.length ≤ m
  /-- What arrives is a part of it from the front. -/
  received_write : ∀ w data, ∃ part, part <+: data
    ∧ received (Writer.write w data).1 = received w ++ part
  /-- A write that succeeds arrives and takes up room. -/
  write_ok : ∀ w data, (Writer.write w data).2 = none →
    received (Writer.write w data).1 = received w ++ data
      ∧ room (Writer.write w data).1 = (room w).map (· - data.length)
      ∧ faults (Writer.write w data).1 = faults w
  /-- A flush fails or not, and changes nothing of what has arrived. -/
  flush : ∀ w, (Writer.flush w).2 = faults w 0
    ∧ received (Writer.flush w).1 = received w
    ∧ faults (Writer.flush w).1 = fun n => faults w (n + 1)

namespace Bounded

/-- A writer has room for `n` more bytes. -/
def Fits (b : Bounded σ) (w : σ) (n : ℕ) : Prop := ∀ m ∈ b.room w, n ≤ m

/-- What is known of a writer after it took bytes. -/
structure After (b : Bounded σ) (start : σ) (done : Bytes) (w : σ) : Prop where
  /-- They have arrived. -/
  received_eq : b.received w = b.received start ++ done
  /-- They did fit. -/
  fits : b.Fits start done.length
  /-- They have taken up room. -/
  room_eq : b.room w = (b.room start).map (· - done.length)
  /-- Nothing was flushed. -/
  faults_eq : b.faults w = b.faults start

/-- What has arrived since the beginning. -/
def Arrived (b : Bounded σ) (start : σ) (part : Bytes) (w : σ) : Prop :=
  b.received w = b.received start ++ part

lemma after_start (b : Bounded σ) (start : σ) : b.After start [] start where
  received_eq := (List.append_nil _).symm
  fits _ _ := Nat.zero_le _
  room_eq := by simp
  faults_eq := rfl

/-- A writer with so much room takes as much as there is room for. -/
theorem fills (b : Bounded σ) (start : σ) :
    Fills (b.Fits start) (b.After start) (b.Arrived start) where
  mono hle h m hm := hle.trans (h m hm)
  fits_length h := h.fits
  arrived_of_after h := h.received_eq
  write := by
    intro done w data hw
    have hfits : (∀ m ∈ b.room w, data.length ≤ m) ↔ b.Fits start (done ++ data).length := by
      rw [hw.room_eq, Fits, List.length_append]
      have hdone := hw.fits
      cases hroom : b.room start with
      | none => simp
      | some m =>
          have hle : done.length ≤ m := hdone m hroom
          simp only [Option.map_some, Option.mem_some_iff, forall_eq']
          omega
    obtain ⟨part, hpart, hreceived⟩ := b.received_write w data
    refine ⟨(b.write_ok_iff w data).trans hfits, ⟨done ++ part, ?_, ?_⟩, fun hok => ?_⟩
    · exact List.prefix_append_right_inj done |>.mpr hpart
    · rw [Arrived, hreceived, hw.received_eq, List.append_assoc]
    · obtain ⟨hall, hroom, hfaults⟩ := b.write_ok w data hok
      refine ⟨?_, hfits.mp ((b.write_ok_iff w data).mp hok), ?_, hfaults.trans hw.faults_eq⟩
      · rw [hall, hw.received_eq, List.append_assoc]
      · rw [hroom, hw.room_eq, Option.map_map, List.length_append]
        exact congrArg (Option.map · _) (funext fun m => Nat.sub_sub m _ _)

end Bounded

/-- A sink has so much room, and its flushes all fail or none does. -/
def Sink.bounded : Bounded Sink where
  received := Sink.received
  room := Sink.room
  faults s _ := if s.flushFails then some .flushFailed else none
  write_ok_iff := by
    rintro ⟨latestFirst, room, flushFails⟩ data
    cases room <;> simp [Writer.write, Sink.write]
  received_write := by
    intro s data
    refine ⟨_, ?_, received_write s data⟩
    split
    · exact List.prefix_rfl
    · exact List.take_prefix _ _
  write_ok := by
    rintro ⟨latestFirst, room, flushFails⟩ data hok
    refine ⟨(received_write _ data).trans ?_, ?_⟩
    · cases room with
      | none => rfl
      | some m =>
          have hle : data.length ≤ m := by simpa [Writer.write, Sink.write] using hok
          exact congrArg (_ ++ ·) (List.take_of_length_le hle)
    · cases room <;> exact ⟨rfl, rfl⟩
  flush _ := ⟨rfl, rfl, rfl⟩

/-! ### The buffer -/

namespace TailBuffer

variable {capacity : ℕ}

lemma pass_reaches (h : Fills fits after arrived) {done : Bytes} {w : σ} (hw : after done w)
    (data : Bytes) :
    Reaches (fits (done ++ data).length) after arrived (done ++ data) (pass w data) := by
  rw [pass]
  by_cases hnil : data = []
  · rw [hnil, List.append_nil]
    exact reaches_of (fun _ => ⟨w, rfl, hw⟩) h.arrived_of_after
      fun hfull => absurd (h.fits_length hw) hfull
  · rw [if_neg (by simpa using hnil)]
    exact h.write data hw

/-- A failure may strike on either side of the end of the ring. -/
lemma passHeld_reaches (h : Fills fits after arrived) {done : Bytes} {t : TailBuffer σ}
    (ht : after done t.inner) (n : ℕ) :
    Reaches (fits (done ++ t.held.take n).length) after arrived (done ++ t.held.take n)
      (t.passHeld n) := by
  refine reaches_of (fun hfits => passHeld_of_takes (h.takes hfits) ht le_rfl) h.arrived_of_after
    fun hfull => ?_
  set front := (t.held.take n).take (t.capacity - t.head) with hfront
  set back := (t.held.take n).drop (t.capacity - t.head) with hback
  have hsplit : done ++ t.held.take n = done ++ front ++ back := by
    rw [List.append_assoc, List.take_append_drop]
  rw [hsplit] at hfull ⊢
  have hfirst := pass_reaches h ht front
  rw [passHeld]
  by_cases hfits : fits (done ++ front).length
  · obtain ⟨w, hpass, hw⟩ := hfirst.exists_ok hfits
    rw [← hfront, hpass]
    exact (pass_reaches h hw back).exists_fault hfull
  · obtain ⟨w, fault, part, hpass, hpart, hw⟩ := hfirst.exists_fault hfits
    rw [← hfront, hpass]
    exact ⟨w, fault, part, rfl, hpart.trans (List.prefix_append _ _), hw⟩

/-- Bytes that were offered to a buffer have arrived behind it, apart from the last ones. -/
def Arrived (arrived : Bytes → σ → Prop) (capacity : ℕ) (part : Bytes) (t : TailBuffer σ) : Prop :=
  arrived (part.take (part.length - capacity)) t.inner

omit [Writer σ] in
/-- Of bytes that were offered to a buffer a part has arrived without the last ones. -/
lemma exists_arrived {bytes part : Bytes} (hpart : part <+: bytes.take (bytes.length - capacity))
    (hcapacity : capacity ≤ bytes.length) {t : TailBuffer σ} (h : arrived part t.inner) :
    ∃ offered, offered <+: bytes ∧ Arrived arrived capacity offered t := by
  have hle := hpart.length_le
  rw [List.length_take] at hle
  refine ⟨bytes.take (part.length + capacity), List.take_prefix _ _, ?_⟩
  have hlength : (bytes.take (part.length + capacity)).length - capacity = part.length := by
    rw [List.length_take]
    omega
  have hpart' : bytes.take part.length = part :=
    (List.prefix_iff_eq_take.mp (hpart.trans (List.take_prefix _ _))).symm
  rw [Arrived, hlength, List.take_take, Nat.min_eq_left (Nat.le_add_right _ _), hpart']
  exact h

omit [Writer σ] in
/-- What a buffer has passed on is all but the last bytes. -/
lemma Holding.passed_eq {written : Bytes} {t : TailBuffer σ}
    (ht : Holding after capacity written t) :
    after (written.take (written.length - capacity)) t.inner := by
  obtain ⟨passed, hwritten, hafter, -⟩ := ht.passed
  have hheld := ht.length_held
  have hlength : written.length - capacity = passed.length := by
    have h := congrArg List.length hwritten
    rw [List.length_append] at h
    omega
  rw [hlength, hwritten, List.take_left]
  exact hafter

/-- **A buffer fails where the writer behind it does.** It takes as many bytes more as it holds,
and what has arrived at the writer behind it is never any of these. -/
theorem fills_holding (h : Fills fits after arrived) :
    Fills (fun n => fits (n - capacity)) (Holding after capacity) (Arrived arrived capacity) where
  mono hle hfits := h.mono (Nat.sub_le_sub_right hle capacity) hfits
  fits_length {done t} ht := by
    have hpassed := h.fits_length ht.passed_eq
    rw [List.length_take, Nat.min_eq_left (Nat.sub_le _ _)] at hpassed
    exact hpassed
  arrived_of_after ht := h.arrived_of_after ht.passed_eq
  write := by
    intro written t data ht
    have hbuffer (hfits : fits ((written ++ data).length - capacity)) :
        Takes ((written ++ data).length - capacity + capacity) (Holding after capacity) :=
      takes_holding (h.takes hfits)
    refine reaches_of (fun hfits => hbuffer hfits written data t ht (by omega))
      (fun ht' => h.arrived_of_after ht'.passed_eq) fun hfull => ?_
    obtain ⟨passed, hwritten, hafter, -⟩ := ht.passed
    have hheld := ht.length_held
    have hlength : written.length = passed.length + t.held.length := by
      rw [hwritten, List.length_append]
    have hpassed : fits passed.length := h.fits_length hafter
    show ∃ t' fault part, t.write data = (t', some fault) ∧ _
    rw [TailBuffer.write]
    by_cases hroom : t.held.length + data.length ≤ t.capacity
    · -- nothing is passed on, so that nothing can fail
      rw [ht.capacity_eq] at hroom
      refine absurd (h.mono ?_ hpassed) hfull
      rw [List.length_append]
      omega
    rw [if_neg hroom]
    rw [ht.capacity_eq] at hroom ⊢
    dsimp only
    set evict := t.held.length + data.length - capacity with hevict
    set fromHeld := min evict t.held.length with hfromHeld
    set fromData := evict - fromHeld with hfromData
    -- all that is passed on is what was offered without the last bytes
    have hall : passed ++ t.held.take fromHeld ++ data.take fromData
        = (written ++ data).take ((written ++ data).length - capacity) := by
      have horder := @take_append_drop_append t.held data fromHeld fromData (by omega)
      have hwhole : passed ++ t.held.take fromHeld ++ data.take fromData
          ++ (t.held.drop fromHeld ++ data.drop fromData) = written ++ data := by
        rw [List.append_assoc passed, List.append_assoc passed, horder, ← List.append_assoc,
          ← hwritten]
      rw [← hwhole]
      refine (List.take_left' ?_).symm
      simp only [List.length_append, List.length_take, List.length_drop]
      omega
    have hcapacity : capacity ≤ (written ++ data).length := by
      rw [List.length_append]
      omega
    have hfirst := passHeld_reaches h hafter fromHeld
    by_cases hfits : fits (passed ++ t.held.take fromHeld).length
    · obtain ⟨inner, hpass, hinner⟩ := hfirst.exists_ok hfits
      have hsecond := pass_reaches h hinner (data.take fromData)
      rw [hall, List.length_take, Nat.min_eq_left (Nat.sub_le _ _)] at hsecond
      obtain ⟨inner', fault, part, hpass', hpart, harrived⟩ := hsecond.exists_fault hfull
      obtain ⟨offered, hoffered, hreached⟩ := exists_arrived hpart hcapacity
        (t := { t.release fromHeld with inner := inner' }) harrived
      rw [hpass]
      dsimp only
      rw [hpass']
      exact ⟨_, fault, offered, rfl, hoffered, hreached⟩
    · obtain ⟨inner, fault, part, hpass, hpart, harrived⟩ := hfirst.exists_fault hfits
      have hpart' := hpart.trans (List.prefix_append _ (data.take fromData))
      rw [hall] at hpart'
      obtain ⟨offered, hoffered, hreached⟩ := exists_arrived hpart' hcapacity
        (t := { t with inner }) harrived
      rw [hpass]
      exact ⟨_, fault, offered, rfl, hoffered, hreached⟩

end TailBuffer

end Signet.ByteStream
