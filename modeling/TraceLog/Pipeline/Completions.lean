/-
**From the workers to the writer.**

The workers report to the writer through a queue of limited capacity.  It ends on the side of the
workers when all of them have hung up, and on the side of the writer when the writer stops
listening; what nobody will receive is dropped then.

Main definitions:

* `Completions` — the queue with the two ends;
* `Completions.send`, `Completions.hangUp` — a worker reports; a worker leaves;
* `Completions.receive`, `Completions.ignore` — the writer receives; the writer stops listening.
-/

import TraceLog.Record

set_option relaxedAutoImplicit false
set_option autoImplicit false

namespace TraceLog

/-- The queue between the workers and the writer. -/
structure Completions where
  capacity : Nat
  /-- What waits for the writer, the oldest report first. -/
  items : List Completion
  /-- How many workers can still report. -/
  senders : Nat
  /-- Whether the writer listens. -/
  listening : Bool

namespace Completions

/-- An empty queue for a number of workers. -/
def start (capacity workers : Nat) : Completions := ⟨capacity, [], workers, true⟩

/-- What becomes of a report. -/
inductive Delivery where
  | accepted (completions : Completions)
  | full
  /-- The writer does not listen any more. -/
  | ignored

/-- A worker reports. -/
def send (c : Completions) (completion : Completion) : Delivery :=
  if !c.listening then .ignored
  else if c.items.length < c.capacity then
    .accepted { c with items := c.items ++ [completion] }
  else .full

/-- A worker leaves. -/
def hangUp (c : Completions) : Completions := { c with senders := c.senders - 1 }

/-- What there is to receive. -/
inductive Receipt where
  | item (completion : Completion) (completions : Completions)
  | empty
  /-- Nothing is left and nobody can report any more. -/
  | disconnected

/-- The writer receives. -/
def receive (c : Completions) : Receipt :=
  match c.items with
  | completion :: items => .item completion { c with items }
  | [] => if c.senders = 0 then .disconnected else .empty

/-- The writer stops listening. -/
def ignore (c : Completions) : Completions := { c with items := [], listening := false }

end Completions

end TraceLog
