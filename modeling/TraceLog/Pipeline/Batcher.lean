/-
**The thread that batches events.**

The batcher runs the builder on the commands that producers hand in.  A container that was sealed is
admitted to the bytes in flight and handed to the workers before the next command is looked at.
When the commands come to an end, what is left in the builder makes the last container, unless the
pipeline is to stop.

Main definitions:

* `Batcher`, `Batcher.start` — a builder with the place where its thread stands;
* `Batcher.step?` — one step of the thread, or `none` while it has to wait and after its end.
-/

import TraceLog.Pipeline.Shared

set_option relaxedAutoImplicit false
set_option autoImplicit false

namespace TraceLog

/-- What the batcher does when a container has been handed to the workers. -/
inductive AfterHandover where
  /-- Look at the next command. -/
  | receive
  /-- Answer a flush command. -/
  | reply (ticket : Nat)
  /-- End: it was the last container. -/
  | finish
  deriving DecidableEq

/-- Where the batcher stands. -/
inductive BatcherStage where
  /-- Waits for a command. -/
  | receiving
  /-- Waits for a container to be admitted. -/
  | admitting (c : Container) (after : AfterHandover)
  /-- Waits for room in the work channel. -/
  | handing (c : Container) (after : AfterHandover)
  /-- Is about to answer a flush command. -/
  | replying (ticket : Nat)
  /-- Has seen the end of the commands. -/
  | ending
  /-- Is about to close the work channel. -/
  | closingWork
  | finished

/-- Where the batcher goes once a container has been handed over. -/
def AfterHandover.stage : AfterHandover → BatcherStage
  | .receive => .receiving
  | .reply ticket => .replying ticket
  | .finish => .closingWork

/-- Where the batcher goes if a container is not accepted any more. -/
def AfterHandover.stageOnRefusal : AfterHandover → BatcherStage
  | .receive | .reply _ => .ending
  | .finish => .closingWork

/-- A builder with the place where its thread stands. -/
structure Batcher where
  builder : Builder
  stage : BatcherStage

namespace Batcher

/-- The thread before its first step. -/
def start (threshold : UInt32) (first : Nat) : Batcher := ⟨.start threshold first, .receiving⟩

/-- Where the batcher goes with what the builder may have sealed. -/
def submitting (done : Option Container) (after : AfterHandover) : BatcherStage :=
  match done with
  | some c => .admitting c after
  | none => after.stage

/-- What follows once a command has been carried out. -/
def afterwards : Command → AfterHandover
  | .event _ => .receive
  | .flush ticket => .reply ticket

/-- Carry out a command. -/
def obey (b : Builder) (command : Command) : Batcher :=
  let (done, b) := b.obey command
  ⟨b, submitting done (afterwards command)⟩

/-- One step of the thread, or `none` while it has to wait and after its end. -/
def step? (t : Batcher) (s : Shared) : Option (Batcher × Shared) :=
  match t.stage with
  | .receiving =>
      match s.commands.receive with
      | .item command commands => some (obey t.builder command, { s with commands })
      | .drained => some ({ t with stage := .ending }, s)
      | .empty => none
  | .admitting c after =>
      match s.budget.acquire? c.length with
      | some (true, budget) => some ({ t with stage := .handing c after }, { s with budget })
      | some (false, budget) => some ({ t with stage := after.stageOnRefusal }, { s with budget })
      | none => none
  | .handing c after =>
      match s.work.offer c with
      | .accepted work => some ({ t with stage := after.stage }, { s with work })
      | .closed => some ({ t with stage := after.stageOnRefusal }, s)
      | .full => none
  | .replying ticket =>
      some ({ t with stage := .receiving }, s.reply ticket t.builder.sealedCount)
  | .ending =>
      if s.stopped then some ({ t with stage := .closingWork }, s)
      else
        let (done, builder) := t.builder.sealCurrent
        some (⟨builder, submitting done .finish⟩, s)
  | .closingWork => some ({ t with stage := .finished }, { s with work := s.work.close })
  | .finished => none

/-- Whether the thread has ended, and how many containers it sealed. -/
def sealedCount? (t : Batcher) : Option Nat :=
  match t.stage with
  | .finished => some t.builder.sealedCount
  | _ => none

/-- Whether the thread still owes an answer to a flush command. -/
def owes (t : Batcher) (ticket : Nat) : Bool :=
  match t.stage with
  | .admitting _ (.reply owed) | .handing _ (.reply owed) | .replying owed => owed == ticket
  | _ => false

end Batcher

end TraceLog
