import Mathlib.Tactic
import Signet.ByteStream.TailBuffer

/-!
Writers that take what is written to them.

* `Takes`: what is known of a writer after some bytes is known again after some
  more, up to a number of bytes in all. `Takes.writeAll` and `Takes.copy` go on
  from one write to all pieces of a source, however it is cut.
* `Idle` is a kind of writer that does nothing when nothing is written. `Idle.copy`:
  reads that were interrupted are of no consequence for it.
* `Accepting` is a kind of writer that takes everything; `Sink.accepting` is a sink
  with room for any number of bytes.
* `TailBuffer.takes_holding`: in front of a writer that takes what is written to it,
  a buffer does so too, and `Holding` says what it has passed on and what it has kept.
  `TailBuffer.length_held_of_write`: how much it holds, in front of any writer.
-/

namespace Signet.ByteStream

variable {σ : Type} [Writer σ]

/-- After some bytes a writer takes some more, if they are not more than `limit` in all; `after`
is what is known of it. -/
def Takes (limit : ℕ) (after : Bytes → σ → Prop) : Prop :=
  ∀ done data w, after done w → (done ++ data).length ≤ limit →
    ∃ w', Writer.write w data = (w', none) ∧ after (done ++ data) w'

variable {limit : ℕ} {after : Bytes → σ → Prop}

lemma Takes.mono (h : Takes limit after) {limit' : ℕ} (hle : limit' ≤ limit) :
    Takes limit' after :=
  fun done data w hw hlength => h done data w hw (hlength.trans hle)

/-- All pieces are taken one after another. -/
lemma Takes.writeAll (h : Takes limit after) {pieces : List Bytes} {done : Bytes} {w : σ}
    (hw : after done w) (hlimit : (done ++ pieces.flatten).length ≤ limit) :
    ∃ w', Source.writeAll pieces w = (w', none) ∧ after (done ++ pieces.flatten) w' := by
  induction pieces generalizing done w with
  | nil => exact ⟨w, rfl, by rwa [List.flatten_nil, List.append_nil]⟩
  | cons piece rest ih =>
      rw [List.flatten_cons, ← List.append_assoc] at hlimit ⊢
      have hpiece : (done ++ piece).length ≤ limit := by
        rw [List.length_append] at hlimit
        omega
      obtain ⟨w', hwrite, hw'⟩ := h done piece w hw hpiece
      obtain ⟨w'', hrest, hw''⟩ := ih hw' hlimit
      exact ⟨w'', by rw [Source.writeAll, hwrite]; exact hrest, hw''⟩

/-- **All that a source yields is taken**, in whatever pieces it comes. -/
theorem Takes.copy (h : Takes limit after) {source : Source} (hfails : source.fails = false)
    {w : σ} (hw : after [] w) (hlimit : source.reads.flatten.length ≤ limit) :
    ∃ w', source.copy w = (w', none) ∧ after source.reads.flatten w' := by
  obtain ⟨w', hwrite, hw'⟩ := @Takes.writeAll _ _ _ _ h source.reads [] w hw hlimit
  refine ⟨w', ?_, hw'⟩
  rw [Source.copy, hwrite, hfails]
  rfl

/-! ### Interrupted reads -/

/-- A kind of writer that does nothing when nothing is written; `inv` is what is known of it. -/
structure Idle (inv : σ → Prop) : Prop where
  /-- Nothing is done. -/
  write_nil : ∀ w, inv w → Writer.write w [] = (w, none)
  /-- The writer stays one that does so. -/
  preserved : ∀ w data w', inv w → Writer.write w data = (w', none) → inv w'

/-- A source as it would be if no read had been interrupted. -/
def Source.uninterrupted (s : Source) : Source :=
  { s with reads := s.reads.filter fun piece => !piece.isEmpty }

variable {inv : σ → Prop}

lemma Idle.writeAll (h : Idle inv) {pieces : List Bytes} {w : σ} (hw : inv w) :
    Source.writeAll (pieces.filter fun piece => !piece.isEmpty) w = Source.writeAll pieces w := by
  induction pieces generalizing w with
  | nil => rfl
  | cons piece rest ih =>
      by_cases hpiece : piece = []
      · rw [hpiece, List.filter_cons_of_neg (by simp), Source.writeAll, h.write_nil w hw]
        exact ih hw
      · rw [List.filter_cons_of_pos (by simpa using hpiece), Source.writeAll, Source.writeAll]
        rcases hwrite : Writer.write w piece with ⟨w', _ | fault⟩
        · exact ih (h.preserved w piece w' hw hwrite)
        · rfl

/-- **Reads that were interrupted change nothing.** -/
theorem Idle.copy (h : Idle inv) (source : Source) (w : σ) (hw : inv w) :
    source.uninterrupted.copy w = source.copy w := by
  rw [Source.copy, Source.uninterrupted, h.writeAll hw, Source.copy]

/-! ### Writers that take everything -/

/-- How one knows of a writer that it takes everything, and what has arrived at it. -/
structure Accepting (σ : Type) [Writer σ] where
  /-- The writer is one that does. -/
  ready : σ → Prop
  /-- What has arrived. -/
  received : σ → Bytes
  /-- Bytes arrive as they are written. -/
  write : ∀ w data, ready w →
    ∃ w', Writer.write w data = (w', none) ∧ ready w' ∧ received w' = received w ++ data
  /-- Flushing changes nothing. -/
  flush : ∀ w, ready w →
    ∃ w', Writer.flush w = (w', none) ∧ ready w' ∧ received w' = received w

/-- What is known of a writer that takes everything: the bytes arrive after earlier ones. -/
def Accepting.After (a : Accepting σ) (before done : Bytes) (w : σ) : Prop :=
  a.ready w ∧ a.received w = before ++ done

lemma Accepting.takes (a : Accepting σ) (before : Bytes) (limit : ℕ) :
    Takes limit (a.After before) := by
  intro done data w hw _
  obtain ⟨w', hwrite, hready, hreceived⟩ := a.write w data hw.1
  refine ⟨w', hwrite, hready, ?_⟩
  rw [hreceived, hw.2, List.append_assoc]

/-- A sink with room for any number of bytes, which can be flushed. -/
def Sink.accepting : Accepting Sink where
  ready s := s.room = none ∧ s.flushFails = false
  received := Sink.received
  write := by
    rintro ⟨latestFirst, room, flushFails⟩ data ⟨rfl, rfl⟩
    exact ⟨_, rfl, ⟨rfl, rfl⟩, received_write ⟨latestFirst, none, false⟩ data⟩
  flush := by
    rintro ⟨latestFirst, room, flushFails⟩ ⟨rfl, rfl⟩
    exact ⟨_, rfl, ⟨rfl, rfl⟩, rfl⟩

/-! ### The buffer -/

namespace TailBuffer

variable {capacity : ℕ}

/-- What is known of a buffer after some bytes: all but the last of them were passed on. -/
structure Holding (after : Bytes → σ → Prop) (capacity : ℕ) (written : Bytes)
    (t : TailBuffer σ) : Prop where
  /-- What was written is what was passed on and what is held. -/
  passed : ∃ passed, written = passed ++ t.held ∧ after passed t.inner
    ∧ t.evicted = passed.length
  /-- The capacity stays the same. -/
  capacity_eq : t.capacity = capacity
  /-- As much is held as there is room for. -/
  length_held : t.held.length = min capacity written.length

omit [Writer σ] in
lemma holding_empty {inner : σ} (h : after [] inner) :
    Holding after capacity [] (empty inner capacity) :=
  ⟨⟨[], rfl, h, rfl⟩, rfl, by simp [empty]⟩

lemma pass_of_takes (h : Takes limit after) {done data : Bytes} {w : σ} (hw : after done w)
    (hlimit : (done ++ data).length ≤ limit) :
    ∃ w', pass w data = (w', none) ∧ after (done ++ data) w' := by
  rw [pass]
  by_cases hnil : data = []
  · rw [hnil, List.append_nil]
    exact ⟨w, rfl, hw⟩
  · rw [if_neg (by simpa using hnil)]
    exact h done data w hw hlimit

/-- The oldest bytes held are passed on, over the end of the ring or not. -/
lemma passHeld_of_takes (h : Takes limit after) {done : Bytes} {t : TailBuffer σ}
    (ht : after done t.inner) {n : ℕ} (hlimit : (done ++ t.held.take n).length ≤ limit) :
    ∃ w', t.passHeld n = (w', none) ∧ after (done ++ t.held.take n) w' := by
  set front := (t.held.take n).take (t.capacity - t.head)
  set back := (t.held.take n).drop (t.capacity - t.head)
  have hsplit : done ++ t.held.take n = done ++ front ++ back := by
    rw [List.append_assoc, List.take_append_drop]
  rw [hsplit] at hlimit ⊢
  have hfront : (done ++ front).length ≤ limit := by
    rw [List.length_append] at hlimit
    omega
  obtain ⟨w, hpass, hw⟩ := pass_of_takes h ht hfront
  rw [passHeld, hpass]
  exact pass_of_takes h hw hlimit

omit [Writer σ] in
/-- As long as there is room, all bytes are held. -/
lemma Holding.append {written data : Bytes} {t : TailBuffer σ}
    (ht : Holding after capacity written t) (hroom : t.held.length + data.length ≤ capacity) :
    Holding after capacity (written ++ data) { t with held := t.held ++ data } := by
  obtain ⟨passed, hwritten, hafter, hevicted⟩ := ht.passed
  have hheld := ht.length_held
  refine ⟨⟨passed, by rw [hwritten, List.append_assoc], hafter, hevicted⟩, ht.capacity_eq, ?_⟩
  rw [List.length_append, List.length_append]
  omega

/-- Old bytes are passed on before new ones, so that they stay in order. -/
lemma take_append_drop_append {held data : Bytes} {fromHeld fromData : ℕ}
    (h : fromData = 0 ∨ held.length ≤ fromHeld) :
    held.take fromHeld ++ data.take fromData ++ (held.drop fromHeld ++ data.drop fromData)
      = held ++ data := by
  rcases h with rfl | hall
  · rw [List.take_zero, List.append_nil, List.drop_zero, ← List.append_assoc,
      List.take_append_drop]
  · rw [List.take_of_length_le hall, List.drop_of_length_le hall, List.nil_append,
      List.append_assoc, List.take_append_drop]

/-- **A buffer takes bytes if the writer behind it does**, and as many more as it holds. -/
theorem takes_holding (h : Takes limit after) :
    Takes (limit + capacity) (Holding after capacity) := by
  intro written data t ht hlimit
  obtain ⟨passed, hwritten, hafter, hevicted⟩ := ht.passed
  have hheld := ht.length_held
  have hlength : written.length = passed.length + t.held.length := by
    rw [hwritten, List.length_append]
  rw [List.length_append] at hlimit
  show ∃ t', t.write data = (t', none) ∧ _
  rw [TailBuffer.write]
  by_cases hroom : t.held.length + data.length ≤ t.capacity
  · rw [if_pos hroom]
    rw [ht.capacity_eq] at hroom
    exact ⟨_, rfl, ht.append hroom⟩
  rw [if_neg hroom]
  rw [ht.capacity_eq] at hroom ⊢
  dsimp only
  set evict := t.held.length + data.length - capacity with hevict
  set fromHeld := min evict t.held.length with hfromHeld
  set fromData := evict - fromHeld with hfromData
  have htakeHeld : (passed ++ t.held.take fromHeld).length ≤ limit := by
    rw [List.length_append, List.length_take]
    omega
  obtain ⟨inner, hpass, hinner⟩ := passHeld_of_takes h hafter htakeHeld
  have htakeData : (passed ++ t.held.take fromHeld ++ data.take fromData).length ≤ limit := by
    rw [List.length_append, List.length_append, List.length_take, List.length_take]
    omega
  obtain ⟨inner', hpass', hinner'⟩ := pass_of_takes h hinner htakeData
  rw [hpass]
  dsimp only
  rw [hpass']
  have horder := @take_append_drop_append t.held data fromHeld fromData (by omega)
  refine ⟨_, rfl, ⟨passed ++ t.held.take fromHeld ++ data.take fromData, ?_, hinner', ?_⟩,
    ht.capacity_eq, ?_⟩
  · show written ++ data = _ ++ (t.held.drop fromHeld ++ data.drop fromData)
    rw [List.append_assoc passed, List.append_assoc passed, horder, ← List.append_assoc, hwritten]
  · show t.evicted + evict = _
    rw [List.length_append, List.length_append, List.length_take, List.length_take, hevicted]
    omega
  · show (t.held.drop fromHeld ++ data.drop fromData).length = _
    rw [List.length_append, List.length_append, List.length_drop, List.length_drop]
    omega

/-- Whatever the writer behind it does, after a write that succeeds a buffer holds as many bytes as
there is room for. -/
lemma length_held_of_write {t t' : TailBuffer σ} {data : Bytes} (h : t.write data = (t', none)) :
    t'.capacity = t.capacity
      ∧ t'.held.length = min t.capacity (t.held.length + data.length) := by
  rw [TailBuffer.write] at h
  by_cases hroom : t.held.length + data.length ≤ t.capacity
  · rw [if_pos hroom] at h
    cases h
    exact ⟨rfl, by rw [List.length_append, min_eq_right hroom]⟩
  rw [if_neg hroom] at h
  dsimp only at h
  set evict := t.held.length + data.length - t.capacity with hevict
  split at h
  · cases h
  split at h
  · cases h
  cases h
  refine ⟨rfl, ?_⟩
  show (t.held.drop (min evict t.held.length)
    ++ data.drop (evict - min evict t.held.length)).length = _
  rw [List.length_append, List.length_drop, List.length_drop]
  omega

/-- A buffer that does not hold more than it may lets nothing go when nothing is written. -/
lemma idle : Idle fun t : TailBuffer σ => t.held.length ≤ t.capacity where
  write_nil t ht := by
    show t.write [] = (t, none)
    rw [TailBuffer.write, List.length_nil, Nat.add_zero, if_pos ht, List.append_nil]
  preserved t data t' _ hwrite := by
    obtain ⟨hcapacity, hlength⟩ := length_held_of_write hwrite
    rw [hlength, hcapacity]
    exact min_le_left _ _

end TailBuffer

end Signet.ByteStream
