/-
**Containers.**

A container is a batch of framed events under one number.  The builder fills it and seals it once;
from then on it travels through the pipeline as a whole.

Main definitions:

* `Container` — the framed bytes of a batch with what its record will say about them;
* `Container.fresh`, `Container.push` — an empty container; one more event;
* `Container.isEmpty`, `Container.length` — whether it holds an event; its number of framed bytes.
-/

import TraceLog.Event
import TraceLog.Spool

set_option relaxedAutoImplicit false
set_option autoImplicit false

namespace TraceLog

/-- A batch of framed events. -/
structure Container where
  /-- The number of the container in its file. -/
  sequence : Nat
  raw : Spool
  eventCount : UInt32
  firstTimestamp : UInt64
  lastTimestamp : UInt64

namespace Container

/-- An empty container. -/
def fresh (sequence : Nat) : Container := ⟨sequence, .empty, 0, 0, 0⟩

instance : Inhabited Container := ⟨fresh 0⟩

/-- A container with one more event at its end. -/
def push (c : Container) (e : Event) : Container where
  sequence := c.sequence
  raw := c.raw.append e.encode
  eventCount := c.eventCount + 1
  firstTimestamp := if c.eventCount = 0 then e.timestamp else c.firstTimestamp
  lastTimestamp := e.timestamp

/-- The container of some events. -/
def ofEvents (sequence : Nat) (es : List Event) : Container := es.foldl push (fresh sequence)

/-- The framed bytes. -/
def bytes (c : Container) : Bytes := c.raw.toBytes

/-- The number of framed bytes. -/
def length (c : Container) : Nat := c.raw.size

/-- Whether no event was pushed. -/
def isEmpty (c : Container) : Bool := c.eventCount == 0

@[simp] theorem bytes_fresh (sequence : Nat) : (fresh sequence).bytes = [] := rfl

@[simp] theorem bytes_push (c : Container) (e : Event) :
    (c.push e).bytes = c.bytes ++ e.encode := by
  simp [bytes, push]

@[simp] theorem length_push (c : Container) (e : Event) :
    (c.push e).length = c.length + e.encode.length := by
  simp [length, push]

@[simp] theorem length_bytes (c : Container) : c.bytes.length = c.length := by
  simp [bytes, length]

@[simp] theorem sequence_push (c : Container) (e : Event) : (c.push e).sequence = c.sequence := rfl

/-- The bytes of a container are the frames of its events, one after the other. -/
theorem bytes_foldl_push (c : Container) (es : List Event) :
    (es.foldl push c).bytes = c.bytes ++ es.flatMap Event.encode := by
  induction es generalizing c with
  | nil => simp
  | cons e es ih => simp [ih]

end Container

end TraceLog
