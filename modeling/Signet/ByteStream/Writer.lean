import Signet.Bytes
import Signet.ByteStream.Fault

/-!
Where streams of bytes come from and go to.

* `Writer` is what takes bytes in order and may fail; `Outcome` is its state
  afterwards and the failure, if there was one.
* `Sink` is the last writer of a chain. It may have room for some bytes only,
  and takes as many of a write as it has room for.
* `Source` yields pieces one after another and may fail at the end;
  `Source.copy` writes them all. Where a source ends or fails, it has no more pieces.
-/

namespace Signet.ByteStream

/-- The state after a step, and what failed in it. -/
abbrev Outcome (σ : Type) := σ × Option Fault

/-- What takes bytes in order. -/
class Writer (σ : Type) where
  /-- Takes all of some bytes, or fails having taken some of them from the front. -/
  write : σ → Bytes → Outcome σ
  /-- Passes on what is kept back for efficiency. -/
  flush : σ → Outcome σ

/-- The end of a stream. -/
structure Sink where
  /-- The bytes that arrived, latest first. -/
  latestFirst : Bytes
  /-- How many more bytes there is room for, if not for any number. -/
  room : Option Nat
  /-- Whether flushing fails. -/
  flushFails : Bool

namespace Sink

/-- A sink at which nothing has arrived. -/
def empty (room : Option Nat) (flushFails : Bool) : Sink := ⟨[], room, flushFails⟩

/-- The bytes that arrived. -/
def received (s : Sink) : Bytes := s.latestFirst.reverse

/-- Takes bytes, as many as there is room for. -/
def write (s : Sink) (data : Bytes) : Outcome Sink :=
  match s.room with
  | none => ({ s with latestFirst := data.reverseAux s.latestFirst }, none)
  | some room =>
    ({ s with
        latestFirst := (data.take room).reverseAux s.latestFirst
        room := some (room - data.length) },
      if data.length ≤ room then none else some .sinkFull)

/-- Fails or does nothing. -/
def flush (s : Sink) : Outcome Sink := (s, if s.flushFails then some .flushFailed else none)

instance : Writer Sink := ⟨write, flush⟩

/-- Bytes arrive in order. -/
theorem received_write (s : Sink) (data : Bytes) :
    (s.write data).1.received
      = s.received ++ match s.room with
        | none => data
        | some room => data.take room := by
  unfold write received
  cases s.room <;> simp

end Sink

/-- The beginning of a stream. -/
structure Source where
  /-- The pieces in which the bytes are read, up to the first read that finds no byte or fails for
  good. A read that finds no byte is the end of the data, and no piece of it. A piece without bytes
  is a read that was interrupted, after which reading goes on. -/
  reads : List Bytes
  /-- Whether reading fails after the last piece. -/
  fails : Bool

namespace Source

/-- The most bytes that are asked for at once. -/
def askLimit : Nat := 8192

/-- Cuts data into pieces of the sizes that come round in `sizes`, none larger than is asked for
and none empty. There are at most `fuel` pieces. -/
def cut (sizes : Nat → Nat) : Nat → Nat → Bytes → List Bytes
  | 0, _, _ => []
  | _ + 1, _, [] => []
  | fuel + 1, i, data =>
    let size := min (max (sizes i) 1) askLimit
    data.take size :: cut sizes fuel (i + 1) (data.drop size)

/-- A source of data in pieces of given sizes, over and over, or as large as is asked for if none
are given; it fails after `failsAt` bytes if it has that many. -/
def ofData (data : Bytes) (sizes : List Nat) (failsAt : Option Nat) : Source :=
  let array := sizes.toArray
  let size (i : Nat) : Nat := array.getD (i % array.size) askLimit
  let fails := failsAt.any fun n => n ≤ data.length
  let data := match failsAt with
    | some n => data.take n
    | none => data
  ⟨cut size data.length 0 data, fails⟩

variable {σ : Type} [Writer σ]

/-- Writes pieces one after another up to the first failure. -/
def writeAll : List Bytes → σ → Outcome σ
  | [], w => (w, none)
  | piece :: rest, w =>
    match Writer.write w piece with
    | (w, none) => writeAll rest w
    | (w, some fault) => (w, some fault)

/-- Writes all that a source yields. -/
def copy (s : Source) (w : σ) : Outcome σ :=
  match writeAll s.reads w with
  | (w, none) => (w, if s.fails then some .readFailed else none)
  | (w, some fault) => (w, some fault)

end Source

end Signet.ByteStream
