/-
**Byte sinks and the buffer in front of them.**

A sink takes bytes in one piece or refuses them as a whole; which attempts it refuses is part of the
sink.  The writer does not write to the sink directly but through a buffer, so that many short
records become few long writes.  Bytes wait in the buffer until there is no room for the next ones,
until a flush, or until the buffer is given up, which tries a last time to pass them on.

Main definitions:

* `Sink`, `Sink.write` — the bytes taken so far; one attempt to add some;
* `BufferedSink`, `BufferedSink.write`, `BufferedSink.flush` — a sink behind a buffer;
* `BufferedSink.contents` — the bytes taken with those that wait;
* `BufferedSink.abandon` — the sink after the buffer is given up.

Main results:

* `BufferedSink.contents_flush`, `BufferedSink.waiting_flush` — a flush loses nothing, and nothing
  waits after a successful one.
-/

import TraceLog.Error
import TraceLog.Spool

set_option relaxedAutoImplicit false
set_option autoImplicit false

namespace TraceLog

/-! ### Sinks -/

/-- Which attempts a sink refuses: given the number of earlier attempts, how many bytes the sink
holds and how many more it is offered. -/
abbrev Refusal := (attempt held offered : Nat) → Option StorageFault

/-- The bytes that were taken so far. -/
structure Sink where
  taken : Spool
  attempts : Nat
  refusal : Refusal

namespace Sink

/-- A sink that takes everything and holds some bytes already. -/
def reliable (bs : Spool) : Sink := ⟨bs, 0, fun _ _ _ => none⟩

/-- An empty sink that refuses what would take it beyond `limit` bytes. -/
def limited (limit : Nat) : Sink where
  taken := .empty
  attempts := 0
  refusal _ held offered := if limit < held + offered then some (.other "disk full") else none

/-- An empty sink that refuses all bytes. -/
def full : Sink where
  taken := .empty
  attempts := 0
  refusal _ _ offered := if 0 < offered then some .noSpace else none

/-- The bytes that were taken so far. -/
def bytes (s : Sink) : Bytes := s.taken.toBytes

/-- One attempt to add bytes: all of them are taken, or none. -/
def write (s : Sink) (bs : Bytes) : Except StorageFault Unit × Sink :=
  match s.refusal s.attempts s.taken.size bs.length with
  | some fault => (.error fault, { s with attempts := s.attempts + 1 })
  | none => (.ok (), { s with taken := s.taken.append bs, attempts := s.attempts + 1 })

/-- A sink adds what it is offered or keeps what it has. -/
theorem bytes_write (s : Sink) (bs : Bytes) :
    (s.write bs).2.bytes = if (s.write bs).1.isOk then s.bytes ++ bs else s.bytes := by
  unfold write
  split <;> simp [bytes, Except.isOk, Except.toBool]

end Sink

/-! ### Buffers -/

/-- A sink behind a buffer. -/
structure BufferedSink where
  sink : Sink
  waiting : Spool

namespace BufferedSink

/-- How many bytes may wait. -/
def capacity : Nat := 262144

/-- A sink with an empty buffer. -/
def ofSink (sink : Sink) : BufferedSink := ⟨sink, .empty⟩

/-- The bytes that were taken with those that wait. -/
def contents (b : BufferedSink) : Bytes := b.sink.bytes ++ b.waiting.toBytes

/-- The room left in the buffer. -/
def room (b : BufferedSink) : Nat := capacity - b.waiting.size

/-- Pass on what waits.  If it is refused, it goes on waiting. -/
def flush (b : BufferedSink) : Except StorageFault Unit × BufferedSink :=
  if b.waiting.size = 0 then (.ok (), b)
  else
    match b.sink.write b.waiting.toBytes with
    | (.error fault, sink) => (.error fault, { b with sink })
    | (.ok (), sink) => (.ok (), ⟨sink, .empty⟩)

/-- Let bytes wait. -/
def hold (b : BufferedSink) (bs : Bytes) : BufferedSink :=
  { b with waiting := b.waiting.append bs }

/-- Add bytes for which room has been made: those that could never wait go on at once. -/
def place (b : BufferedSink) (bs : Bytes) : Except StorageFault Unit × BufferedSink :=
  if capacity ≤ bs.length then
    match b.sink.write bs with
    | (.error fault, sink) => (.error fault, { b with sink })
    | (.ok (), sink) => (.ok (), { b with sink })
  else (.ok (), b.hold bs)

/-- Add bytes.  They wait if there is more than enough room; otherwise what waits is passed on
first, if the bytes do not fit. -/
def write (b : BufferedSink) (bs : Bytes) : Except StorageFault Unit × BufferedSink :=
  if bs.length < b.room then (.ok (), b.hold bs)
  else if b.room < bs.length then
    match b.flush with
    | (.error fault, b) => (.error fault, b)
    | (.ok (), b) => b.place bs
  else b.place bs

/-- Give up the buffer.  What waits is passed on, or lost if it is refused. -/
def abandon (b : BufferedSink) : Sink := b.flush.2.sink

theorem contents_hold (b : BufferedSink) (bs : Bytes) :
    (b.hold bs).contents = b.contents ++ bs := by
  simp [contents, hold]

/-- A flush neither adds nor loses bytes, whether it succeeds or not. -/
@[simp] theorem contents_flush (b : BufferedSink) : b.flush.2.contents = b.contents := by
  unfold flush
  split
  · rfl
  · have := b.sink.bytes_write b.waiting.toBytes
    split <;> simp_all [contents, Except.isOk, Except.toBool]

/-- After a successful flush nothing waits. -/
theorem waiting_flush {b b' : BufferedSink} (h : b.flush = (.ok (), b')) :
    b'.waiting.toBytes = [] := by
  unfold flush at h
  split at h
  · rename_i hz
    simp only [Prod.mk.injEq, true_and] at h
    subst h
    exact List.eq_nil_of_length_eq_zero (by simp [hz])
  · split at h
    · simp at h
    · simp only [Prod.mk.injEq, true_and] at h
      rw [← h]
      rfl

end BufferedSink

end TraceLog
