/-
**Batching events into containers.**

The builder keeps one container open.  It seals the container as soon as the number of framed bytes
reaches a threshold, or when it is told to; an event is never split, so that an event larger than
the threshold makes a container larger than the threshold.

Main definitions:

* `Builder`, `Builder.start` — a threshold with the open container; the state before any event;
* `Builder.append` — one more event, and the container that it completes;
* `Builder.sealCurrent` — the open container, whatever its size;
* `Builder.sealedCount` — the number that the open container will carry;
* `Command`, `Builder.obey` — what the builder is told to do; carry out one command;
* `Builder.batches` — the containers that some commands make when nothing follows them.

Main results:

* `Builder.obeyAll_append` — commands can be carried out in two goes.
-/

import TraceLog.Container

set_option relaxedAutoImplicit false
set_option autoImplicit false

namespace TraceLog

/-- What the builder is told to do. -/
inductive Command where
  /-- Put an event into the open container. -/
  | event (e : Event)
  /-- Seal the open container and tell the holder of the ticket how many were sealed. -/
  | flush (ticket : Nat)
  deriving DecidableEq

/-- A threshold with the open container. -/
structure Builder where
  threshold : UInt32
  current : Container

namespace Builder

/-- No event yet; the first container sealed will carry the number `first`. -/
def start (threshold : UInt32) (first : Nat) : Builder := ⟨threshold, .fresh first⟩

/-- How many containers were sealed, counted from the beginning of the file. -/
def sealedCount (b : Builder) : Nat := b.current.sequence

/-- The number of framed bytes in the open container. -/
def openLength (b : Builder) : Nat := b.current.length

/-- Seal the open container, unless it holds no event. -/
def sealCurrent (b : Builder) : Option Container × Builder :=
  if b.current.isEmpty then (none, b)
  else (some b.current, { b with current := .fresh (b.current.sequence + 1) })

/-- Put an event into the open container, and seal it if it has reached the threshold. -/
def append (b : Builder) (e : Event) : Option Container × Builder :=
  let b := { b with current := b.current.push e }
  if b.threshold.toNat ≤ b.current.length then b.sealCurrent else (none, b)

/-- Carry out a command: the container that it completes, and the builder behind it. -/
def obey (b : Builder) : Command → Option Container × Builder
  | .event e => b.append e
  | .flush _ => b.sealCurrent

/-- Carry out some commands: the containers that they complete, and the builder behind them. -/
def obeyAll (b : Builder) : List Command → List Container × Builder
  | [] => ([], b)
  | command :: commands =>
      let (done, b) := b.obey command
      let (later, b) := b.obeyAll commands
      (done.toList ++ later, b)

/-- The containers that some commands make when nothing follows them. -/
def batches (b : Builder) (commands : List Command) : List Container :=
  let (done, b) := b.obeyAll commands
  done ++ b.sealCurrent.1.toList

theorem obeyAll_append (b : Builder) (xs ys : List Command) :
    b.obeyAll (xs ++ ys) =
      ((b.obeyAll xs).1 ++ ((b.obeyAll xs).2.obeyAll ys).1, ((b.obeyAll xs).2.obeyAll ys).2) := by
  induction xs generalizing b with
  | nil => rfl
  | cons x xs ih => simp [obeyAll, ih]

end Builder

end TraceLog
