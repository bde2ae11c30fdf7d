import Mathlib.Tactic
import Signet.Proofs.ByteStream.Failing

/-!
A buffer that holds back the last bytes, call after call and in front of any writer.

* **Calls.** `run`: writes and flushes one after another, whether they fail or not. `offered` and
  `taken` are the bytes of all writes and of those that do not fail.
* `Receiving`: how one knows of a writer which bytes it has accepted. It may take part of a write
  and fail, as often as it likes.
* **One write.** `wrote_write`: the three ways in which a write of a buffer ends. All that follows
  about calls goes through these.
* `run_holds_last`: as long as no write has failed, what has arrived and what is held are the bytes
  written, in order. The invariant is `Holding`.
* `run_accounted`: what is left of that once writes have failed. No byte of a write that did not
  fail is lost, but bytes that arrive in a write that fails are not counted (`uncounted`), and may
  be held still. The invariant is `Accounted`. `evicted_ne_arrived`: in front of a sink that fills
  up the count falls behind.
-/

namespace Signet.ByteStream

variable {σ : Type} [Writer σ]

/-! ### Calls -/

/-- A call of a writer. -/
inductive Call where
  /-- Takes bytes. -/
  | write (data : Bytes)
  /-- Passes on what is kept back for efficiency. -/
  | flush

namespace Call

/-- The bytes that a call offers. -/
def data : Call → Bytes
  | write data => data
  | flush => []

/-- The outcome of a call. -/
def perform (w : σ) : Call → Outcome σ
  | write data => Writer.write w data
  | flush => Writer.flush w

end Call

/-- The writer after calls, which go on whether one of them fails or not. -/
def run : List Call → σ → σ
  | [], w => w
  | call :: calls, w => run calls (call.perform w).1

/-- The bytes that calls offer. -/
def offered (calls : List Call) : Bytes := calls.flatMap Call.data

/-- No write among the calls fails. A flush may. -/
def AllTaken : List Call → σ → Prop
  | [], _ => True
  | call :: calls, w =>
    ((call.perform w).2 = none ∨ call = .flush) ∧ AllTaken calls (call.perform w).1

/-- The bytes of a call, unless it fails. -/
def Call.taken (w : σ) (call : Call) : Bytes := if (call.perform w).2 = none then call.data else []

/-- The bytes of the writes that do not fail. -/
def taken : List Call → σ → Bytes
  | [], _ => []
  | call :: calls, w => call.taken w ++ taken calls (call.perform w).1

/-! ### What a writer has accepted -/

/-- What a step has accepted of some bytes: a part from the front, and all of them if nothing
failed. -/
structure Accepts (received : σ → Bytes) (w : σ) (data : Bytes) (o : Outcome σ) : Prop where
  /-- A part comes after what was accepted before. -/
  part : ∃ part, part <+: data ∧ received o.1 = received w ++ part
  /-- It is all if nothing failed. -/
  all : o.2 = none → received o.1 = received w ++ data

/-- How one knows of a writer which bytes it has accepted. It may fail at any time, and go on
afterwards. -/
structure Receiving (σ : Type) [Writer σ] where
  /-- What it has accepted. -/
  received : σ → Bytes
  /-- Of each write it accepts a part. -/
  write : ∀ w data, Accepts received w data (Writer.write w data)
  /-- A flush brings no bytes. -/
  flush : ∀ w, received (Writer.flush w).1 = received w

/-- Of a writer with so much room one knows it. -/
def Bounded.receiving (b : Bounded σ) : Receiving σ where
  received := b.received
  write w data := ⟨b.received_write w data, fun hok => (b.write_ok w data hok).1⟩
  flush w := (b.flush w).2.1

namespace TailBuffer

lemma accepts_pass (r : Receiving σ) (w : σ) (data : Bytes) :
    Accepts r.received w data (pass w data) := by
  rw [pass]
  split
  · rename_i hnil
    rw [List.isEmpty_iff.mp hnil]
    have hsame : r.received w = r.received w ++ [] := (List.append_nil _).symm
    exact ⟨⟨[], List.prefix_rfl, hsame⟩, fun _ => hsame⟩
  · exact r.write w data

/-- Over the end of the ring bytes go in two writes, and the first of them may be the last. -/
lemma accepts_passHeld (r : Receiving σ) (t : TailBuffer σ) (n : ℕ) :
    Accepts r.received t.inner (t.held.take n) (t.passHeld n) := by
  set front := (t.held.take n).take (t.capacity - t.head) with hfront
  set back := (t.held.take n).drop (t.capacity - t.head) with hback
  have hsplit : t.held.take n = front ++ back := (List.take_append_drop _ _).symm
  have hfirst := accepts_pass r t.inner front
  rw [hsplit, passHeld, ← hfront, ← hback]
  rcases hpass : pass t.inner front with ⟨inner, _ | fault⟩
  · rw [hpass] at hfirst
    have hinner : r.received inner = r.received t.inner ++ front := hfirst.all rfl
    have hsecond := accepts_pass r inner back
    constructor
    · obtain ⟨part, hpart, hreceived⟩ := hsecond.part
      refine ⟨front ++ part, (List.prefix_append_right_inj front).mpr hpart, ?_⟩
      rw [← List.append_assoc, ← hinner]
      exact hreceived
    · intro hok
      rw [← List.append_assoc, ← hinner]
      exact hsecond.all hok
  · rw [hpass] at hfirst
    obtain ⟨part, hpart, hreceived⟩ := hfirst.part
    exact ⟨⟨part, hpart.trans (List.prefix_append _ _), hreceived⟩, by rintro ⟨⟩⟩

/-! ### One write -/

/-- How many of the bytes held and of new ones there is no room for. -/
def excess (t : TailBuffer σ) (data : Bytes) : ℕ := t.held.length + data.length - t.capacity

/-- The ways in which a write of a buffer ends. -/
inductive Wrote (received : σ → Bytes) (t : TailBuffer σ) (data : Bytes)
    (o : Outcome (TailBuffer σ)) : Prop
  /-- All bytes are taken. Those that there is no room for are passed on, the oldest first. -/
  | taken (ok : o.2 = none)
      (received_eq : received o.1.inner
        = received t.inner ++ (t.held ++ data).take (t.excess data))
      (held_eq : o.1.held = (t.held ++ data).drop (t.excess data))
      (evicted_eq : o.1.evicted = t.evicted + t.excess data)
  /-- The writer behind fails on bytes that were held. All of these stay held, also those that it
  has accepted. -/
  | failedOld {part : Bytes} (failed : o.2 ≠ none) (isPart : part <+: t.held)
      (received_eq : received o.1.inner = received t.inner ++ part)
      (held_eq : o.1.held = t.held) (evicted_eq : o.1.evicted = t.evicted)
  /-- The writer behind fails on new bytes. It has accepted all that was held, which is held no
  longer and not counted. -/
  | failedNew {part : Bytes} (failed : o.2 ≠ none) (isPart : part <+: data)
      (received_eq : received o.1.inner = received t.inner ++ t.held ++ part)
      (held_eq : o.1.held = []) (evicted_eq : o.1.evicted = t.evicted)

/-- **What one write of a buffer comes to**, whatever the writer behind it does. -/
lemma wrote_write (r : Receiving σ) (t : TailBuffer σ) (data : Bytes) :
    Wrote r.received t data (t.write data) ∧ (t.write data).1.capacity = t.capacity := by
  rw [write]
  by_cases hroom : t.held.length + data.length ≤ t.capacity
  · rw [if_pos hroom]
    have hexcess : t.excess data = 0 := Nat.sub_eq_zero_of_le hroom
    refine ⟨.taken rfl ?_ ?_ ?_, rfl⟩
    · rw [hexcess, List.take_zero, List.append_nil]
    · rw [hexcess, List.drop_zero]
    · rw [hexcess, Nat.add_zero]
  rw [if_neg hroom]
  dsimp only
  have hexcess : t.held.length + data.length - t.capacity = t.excess data := rfl
  rw [hexcess]
  set fromHeld := min (t.excess data) t.held.length with hfromHeld
  set fromData := t.excess data - fromHeld with hfromData
  have hfirst := accepts_passHeld r t fromHeld
  rcases hpass : t.passHeld fromHeld with ⟨inner, _ | fault⟩
  swap
  · rw [hpass] at hfirst
    obtain ⟨part, hpart, hreceived⟩ := hfirst.part
    exact ⟨.failedOld (Option.some_ne_none fault) (hpart.trans (List.take_prefix _ _)) hreceived
      rfl rfl, rfl⟩
  rw [hpass] at hfirst
  have hinner : r.received inner = r.received t.inner ++ t.held.take fromHeld := hfirst.all rfl
  have hsecond := accepts_pass r inner (data.take fromData)
  dsimp only
  rcases hpass' : pass inner (data.take fromData) with ⟨inner', _ | fault⟩
  · rw [hpass'] at hsecond
    set passed := t.held.take fromHeld ++ data.take fromData with hpassed
    set rest := t.held.drop fromHeld ++ data.drop fromData with hrest
    have hsplit : passed ++ rest = t.held ++ data := take_append_drop_append (by omega)
    have hlength : passed.length = t.excess data := by
      rw [hpassed, List.length_append, List.length_take, List.length_take]
      omega
    refine ⟨.taken rfl ?_ ?_ rfl, rfl⟩
    · rw [← hsplit, List.take_left' hlength, hpassed, ← List.append_assoc, ← hinner]
      exact hsecond.all rfl
    · rw [← hsplit, List.drop_left' hlength]
      rfl
  · rw [hpass'] at hsecond
    -- new bytes are passed on only once nothing is held any longer
    have hall : t.held.length ≤ fromHeld := by
      by_contra hsome
      have hzero : fromData = 0 := by omega
      rw [hzero, List.take_zero, pass] at hpass'
      cases hpass'
    obtain ⟨part, hpart, hreceived⟩ := hsecond.part
    refine ⟨.failedNew (Option.some_ne_none fault)
      (hpart.trans (List.take_prefix _ _)) ?_ (List.drop_of_length_le hall) rfl, rfl⟩
    rw [← List.take_of_length_le hall, ← hinner]
    exact hreceived

omit [Writer σ] in
lemma Wrote.length_held_le {received : σ → Bytes} {t : TailBuffer σ} {data : Bytes}
    {o : Outcome (TailBuffer σ)} (h : Wrote received t data o)
    (ht : t.held.length ≤ t.capacity) : o.1.held.length ≤ t.capacity := by
  cases h with
  | taken _ _ held_eq =>
      rw [held_eq, List.length_drop, List.length_append, excess]
      omega
  | failedOld _ _ _ held_eq => rwa [held_eq]
  | failedNew _ _ _ held_eq => simp [held_eq]

/-- A buffer never holds more than there is room for. -/
lemma length_held_run_le (r : Receiving σ) (calls : List Call) {t : TailBuffer σ}
    (ht : t.held.length ≤ t.capacity) : (run calls t).held.length ≤ t.capacity := by
  induction calls generalizing t with
  | nil => exact ht
  | cons call calls ih =>
      cases call with
      | write data =>
          obtain ⟨hwrote, hcapacity⟩ := wrote_write r t data
          have hheld := hwrote.length_held_le ht
          rw [← hcapacity] at hheld ⊢
          exact ih hheld
      | flush => exact @ih t.flush.1 ht

/-! ### Where a write fails -/

lemma write_eq_of_pass {w w' : σ} {data : Bytes} {fault : Fault}
    (h : pass w data = (w', some fault)) : Writer.write w data = (w', some fault) := by
  rw [pass] at h
  split at h
  · cases h
  · exact h

lemma exists_write_eq_of_passHeld {t : TailBuffer σ} {n : ℕ} {w' : σ} {fault : Fault}
    (h : t.passHeld n = (w', some fault)) :
    ∃ w piece, Writer.write w piece = (w', some fault) := by
  rw [passHeld] at h
  split at h
  · rename_i hpass
    cases h
    exact ⟨_, _, write_eq_of_pass hpass⟩
  · exact ⟨_, _, write_eq_of_pass h⟩

/-- A buffer fails only where the writer behind it does, and as that does. -/
lemma exists_write_eq {t : TailBuffer σ} {data : Bytes} {fault : Fault}
    (h : (t.write data).2 = some fault) :
    ∃ w piece, Writer.write w piece = ((t.write data).1.inner, some fault) := by
  rw [write] at h ⊢
  dsimp only at h ⊢
  split at h
  · cases h
  rename_i hroom
  rw [if_neg hroom]
  split at h
  · rename_i hpass
    cases h
    exact exists_write_eq_of_passHeld hpass
  split at h
  · rename_i hpass
    cases h
    exact ⟨_, _, write_eq_of_pass hpass⟩
  · cases h

/-! ### As long as no write fails -/

/-- What is known of a writer that has accepted bytes since the beginning. -/
def Behind (r : Receiving σ) (start done : Bytes) (w : σ) : Prop := r.received w = start ++ done

variable {r : Receiving σ} {start written : Bytes} {capacity : ℕ} {t : TailBuffer σ}

/-- A write that does not fail passes on what there is no room for. -/
lemma Holding.write (ht : Holding (Behind r start) capacity written t) {data : Bytes}
    (hok : (t.write data).2 = none) :
    Holding (Behind r start) capacity (written ++ data) (t.write data).1 := by
  obtain ⟨passed, hwritten, hpassed, hevicted⟩ := ht.passed
  have hheld := ht.length_held
  have hlength : written.length = passed.length + t.held.length := by
    rw [hwritten, List.length_append]
  have hexcess : t.excess data = t.held.length + data.length - capacity := by
    rw [excess, ht.capacity_eq]
  obtain ⟨hwrote, hcapacity⟩ := wrote_write r t data
  cases hwrote with
  | taken _ received_eq held_eq evicted_eq =>
      refine ⟨⟨passed ++ (t.held ++ data).take (t.excess data), ?_, ?_, ?_⟩,
        hcapacity.trans ht.capacity_eq, ?_⟩
      · rw [held_eq, List.append_assoc, List.take_append_drop, hwritten, List.append_assoc]
      · rw [Behind, received_eq, hpassed, List.append_assoc]
      · rw [evicted_eq, hevicted, List.length_append, List.length_take, List.length_append]
        omega
      · rw [held_eq, List.length_drop, List.length_append, List.length_append]
        omega
  | failedOld failed => exact absurd hok failed
  | failedNew failed => exact absurd hok failed

lemma Holding.flush (ht : Holding (Behind r start) capacity written t) :
    Holding (Behind r start) capacity written t.flush.1 := by
  obtain ⟨passed, hwritten, hpassed, hevicted⟩ := ht.passed
  exact ⟨⟨passed, hwritten, (r.flush t.inner).trans hpassed, hevicted⟩, ht.capacity_eq,
    ht.length_held⟩

lemma Holding.run {calls : List Call} (ht : Holding (Behind r start) capacity written t)
    (hcalls : AllTaken calls t) :
    Holding (Behind r start) capacity (written ++ offered calls) (run calls t) := by
  induction calls generalizing t written with
  | nil => rwa [offered, List.flatMap_nil, List.append_nil]
  | cons call calls ih =>
      obtain ⟨hcall, hcalls⟩ := hcalls
      rw [offered, List.flatMap_cons, ← List.append_assoc]
      refine ih ?_ hcalls
      cases call with
      | write data => exact ht.write (hcall.resolve_right (by rintro ⟨⟩))
      | flush =>
          rw [Call.data, List.append_nil]
          exact ht.flush

/-- At the first write that fails nothing has arrived out of order. -/
lemma Holding.prefix_of_failed (ht : Holding (Behind r start) capacity written t) {data : Bytes}
    (hfailed : (t.write data).2 ≠ none) :
    r.received (t.write data).1.inner <+: start ++ (written ++ data) := by
  obtain ⟨passed, hwritten, hpassed, -⟩ := ht.passed
  have hall : start ++ (written ++ data) = r.received t.inner ++ (t.held ++ data) := by
    rw [hpassed, hwritten, List.append_assoc, List.append_assoc]
  rw [hall]
  cases (wrote_write r t data).1 with
  | taken ok => exact absurd ok hfailed
  | failedOld _ isPart received_eq =>
      rw [received_eq, List.prefix_append_right_inj]
      exact isPart.trans (List.prefix_append _ _)
  | failedNew _ isPart received_eq =>
      rw [received_eq, List.append_assoc, List.prefix_append_right_inj,
        List.prefix_append_right_inj]
      exact isPart

/-- **A buffer holds back the last bytes**, after any calls and in front of any writer. As long as
no write has failed, what has arrived and what is held are the bytes written, in order, as much is
held as there is room for, and the rest is counted. What has arrived after the first write that
fails is a part of the bytes from the front. A write fails only if one of the writer behind does,
and never is more held than there is room for. -/
theorem run_holds_last (r : Receiving σ) (inner : σ) (capacity : ℕ) (calls : List Call) :
    let t := run calls (empty inner capacity)
    (AllTaken calls (empty inner capacity) →
      r.received t.inner ++ t.held = r.received inner ++ offered calls
        ∧ t.held.length = min capacity (offered calls).length
        ∧ t.evicted = (offered calls).length - t.held.length
        ∧ ∀ data, (t.write data).2 ≠ none →
          r.received (t.write data).1.inner <+: r.received inner ++ (offered calls ++ data))
    ∧ (∀ data fault, (t.write data).2 = some fault →
      ∃ w piece, Writer.write w piece = ((t.write data).1.inner, some fault))
    ∧ t.held.length ≤ capacity := by
  intro t
  refine ⟨fun hcalls => ?_, fun data fault => exists_write_eq,
    length_held_run_le r calls (Nat.zero_le _)⟩
  have hstart : Behind r (r.received inner) [] inner := (List.append_nil _).symm
  have hrun := (holding_empty hstart).run hcalls
  rw [List.nil_append] at hrun
  obtain ⟨passed, hoffered, hpassed, hevicted⟩ := hrun.passed
  refine ⟨?_, hrun.length_held, ?_, fun data => hrun.prefix_of_failed⟩
  · rw [hoffered, hpassed, List.append_assoc]
  · rw [hevicted, hoffered, List.length_append, Nat.add_sub_cancel]

/-- A sink with room for four bytes takes the second write and fails on the third. -/
theorem run_holds_last_four_bytes :
    ∃ (calls : List Call) (sink : Sink) (t : TailBuffer Sink),
      calls = [.write [1, 2], .flush, .write [3, 4, 5]] ∧ sink = Sink.empty (some 4) false
        ∧ t = run calls (empty sink 2) ∧ AllTaken calls (empty sink 2)
        ∧ t.inner.received ++ t.held = sink.received ++ offered calls
        ∧ (t.write [6, 7]).2 ≠ none
        ∧ (t.write [6, 7]).1.inner.received <+: sink.received ++ (offered calls ++ [6, 7]) := by
  obtain ⟨calls, hcalls⟩ : ∃ calls : List Call, calls = [.write [1, 2], .flush, .write [3, 4, 5]] :=
    ⟨_, rfl⟩
  obtain ⟨sink, hsink⟩ : ∃ sink, sink = Sink.empty (some 4) false := ⟨_, rfl⟩
  have htaken : AllTaken calls (empty sink 2) := by
    rw [hcalls, hsink]
    exact ⟨.inl rfl, .inr rfl, .inl rfl, trivial⟩
  have hfailed : ((run calls (empty sink 2)).write [6, 7]).2 ≠ none := by
    rw [hcalls, hsink]
    decide
  obtain ⟨hall, -, -, hprefix⟩ := (run_holds_last Sink.bounded.receiving sink 2 calls).1 htaken
  exact ⟨calls, sink, _, hcalls, hsink, rfl, htaken, hall, hfailed, hprefix [6, 7] hfailed⟩

/-! ### Once writes have failed -/

/-- How many bytes arrive in a call that fails. -/
def uncountedIn (received : σ → Bytes) (t : TailBuffer σ) (call : Call) : ℕ :=
  if (call.perform t).2 = none then 0
  else (received (call.perform t).1.inner).length - (received t.inner).length

/-- How many bytes arrive in calls that fail. -/
def uncounted (received : σ → Bytes) : List Call → TailBuffer σ → ℕ
  | [], _ => 0
  | call :: calls, t =>
    uncountedIn received t call + uncounted received calls (call.perform t).1

/-- What is known of a buffer after calls that may have failed. Of the bytes that were taken those
that are held no longer have arrived, in order. Not all that has arrived was counted. -/
def Accounted (r : Receiving σ) (start taken : Bytes) (uncounted : ℕ) (t : TailBuffer σ) : Prop :=
  ∃ passed arrived, taken = passed ++ t.held ∧ r.received t.inner = start ++ arrived
    ∧ passed.Sublist arrived ∧ t.evicted ≤ passed.length ∧ arrived.length = t.evicted + uncounted

lemma accounted_empty (r : Receiving σ) (inner : σ) (capacity : ℕ) :
    Accounted r (r.received inner) [] 0 (empty inner capacity) :=
  ⟨[], [], rfl, (List.append_nil _).symm, List.Sublist.refl _, le_rfl, rfl⟩

variable {before : ℕ}

lemma Accounted.write (ht : Accounted r start written before t) (data : Bytes) :
    Accounted r start (written ++ (Call.write data).taken t)
      (before + uncountedIn r.received t (.write data)) (t.write data).1 := by
  obtain ⟨passed, arrived, hwritten, hreceived, hsublist, hevicted, hlength⟩ := ht
  have htaken : (Call.write data).taken t = if (t.write data).2 = none then data else [] := rfl
  have hin : uncountedIn r.received t (.write data) = if (t.write data).2 = none then 0
      else (r.received (t.write data).1.inner).length - (r.received t.inner).length := rfl
  rw [htaken, hin]
  cases (wrote_write r t data).1 with
  | taken ok received_eq held_eq evicted_eq =>
      set gone := (t.held ++ data).take (t.excess data) with hgone
      have hlength' : gone.length = t.excess data := by
        rw [hgone, List.length_take, List.length_append, excess]
        omega
      rw [if_pos ok, if_pos ok]
      refine ⟨passed ++ gone, arrived ++ gone, ?_, ?_, hsublist.append_right _, ?_, ?_⟩
      · rw [held_eq, List.append_assoc, List.take_append_drop, hwritten, List.append_assoc]
      · rw [received_eq, hreceived, List.append_assoc]
      · rw [evicted_eq, List.length_append]
        omega
      · rw [evicted_eq, List.length_append]
        omega
  | @failedOld part failed _ received_eq held_eq evicted_eq =>
      rw [if_neg failed, if_neg failed, List.append_nil]
      refine ⟨passed, arrived ++ part, ?_, ?_, ?_, ?_, ?_⟩
      · rw [held_eq, hwritten]
      · rw [received_eq, hreceived, List.append_assoc]
      · exact hsublist.trans (List.sublist_append_left _ _)
      · rw [evicted_eq]
        exact hevicted
      · rw [evicted_eq, received_eq, List.length_append, List.length_append]
        omega
  | @failedNew part failed _ received_eq held_eq evicted_eq =>
      rw [if_neg failed, if_neg failed, List.append_nil]
      -- what was held has arrived now, so that it belongs to what was passed on
      refine ⟨passed ++ t.held, arrived ++ (t.held ++ part), ?_, ?_, ?_, ?_, ?_⟩
      · rw [held_eq, hwritten, List.append_nil]
      · rw [received_eq, hreceived, List.append_assoc, List.append_assoc]
      · exact hsublist.append (List.sublist_append_left _ _)
      · rw [evicted_eq, List.length_append]
        omega
      · rw [evicted_eq, received_eq, List.length_append, List.length_append, List.length_append,
          List.length_append]
        omega

lemma Accounted.flush (ht : Accounted r start written before t) :
    Accounted r start (written ++ Call.flush.taken t)
      (before + uncountedIn r.received t .flush) t.flush.1 := by
  have htaken : Call.flush.taken t = [] := ite_self _
  have hreceived : r.received t.flush.1.inner = r.received t.inner := r.flush t.inner
  have hin : uncountedIn r.received t .flush = 0 := by
    have harrived : r.received (Call.flush.perform t).1.inner = r.received t.inner := hreceived
    rw [uncountedIn, harrived, Nat.sub_self, ite_self]
  rw [htaken, hin, List.append_nil]
  obtain ⟨passed, arrived, hwritten, hbehind, hrest⟩ := ht
  exact ⟨passed, arrived, hwritten, hreceived.trans hbehind, hrest⟩

lemma Accounted.run (ht : Accounted r start written before t) (calls : List Call) :
    Accounted r start (written ++ taken calls t) (before + uncounted r.received calls t)
      (run calls t) := by
  induction calls generalizing t written before with
  | nil => rwa [ByteStream.taken, uncounted, List.append_nil]
  | cons call calls ih =>
      rw [ByteStream.taken, uncounted, ← List.append_assoc, ← Nat.add_assoc]
      refine ih ?_
      cases call with
      | write data => exact ht.write data
      | flush => exact ht.flush

/-- **A buffer loses nothing that it took**, whichever writes fail: what is held no longer has
arrived, in order. But what arrives in a write that fails is not counted (`uncounted`). Only where
that is nothing, the count is right and each byte is there just once. After a write that fails
either all is held that was held before, also what has arrived of it, or nothing is. -/
theorem run_accounted (r : Receiving σ) (inner : σ) (capacity : ℕ) (calls : List Call) :
    let t := run calls (empty inner capacity)
    (∃ passed arrived, taken calls (empty inner capacity) = passed ++ t.held
      ∧ r.received t.inner = r.received inner ++ arrived ∧ passed.Sublist arrived
      ∧ arrived.length = t.evicted + uncounted r.received calls (empty inner capacity)
      ∧ (uncounted r.received calls (empty inner capacity) = 0 → passed = arrived))
    ∧ ∀ data, Wrote r.received t data (t.write data) := by
  intro t
  refine ⟨?_, fun data => (wrote_write r t data).1⟩
  obtain ⟨passed, arrived, htaken, hreceived, hsublist, hevicted, hlength⟩ :=
    (accounted_empty r inner capacity).run calls
  rw [List.nil_append] at htaken
  rw [Nat.zero_add] at hlength
  refine ⟨passed, arrived, htaken, hreceived, hsublist, hlength, fun hnone => ?_⟩
  exact hsublist.eq_of_length_le (by omega)

/-- A sink with room for two bytes takes both that were held and fails on a new one, and none of
them is counted. A sink with room for one byte takes the first of those that are held still. -/
theorem evicted_ne_arrived :
    let calls : List Call := [.write [1, 2], .write [3, 4, 5]]
    let two := run calls (empty (Sink.empty (some 2) false) 2)
    let one := run calls (empty (Sink.empty (some 1) false) 2)
    two.inner.received = [1, 2] ∧ two.held = [] ∧ two.evicted = 0
      ∧ two.evicted ≠ two.inner.received.length
      ∧ one.evicted ≠ one.inner.received.length
      ∧ one.inner.received ++ one.held = [1, 1, 2] := by
  decide

end TailBuffer

end Signet.ByteStream
