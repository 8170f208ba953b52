/-
**The threads that compress containers.**

A worker takes a container, compresses it and reports to the writer, until no container is left,
the pipeline is to stop, or the writer does not listen any more.  If the codec crashes, the worker
loses its connection to the writer, and what is left of it stops the pipeline.

Main definitions:

* `Worker` — where a worker stands;
* `Worker.step?` — one step of a worker, or `none` while it has to wait and after its end;
* `Crew`, `Crew.step?` — some workers whose reports are received at once; one step of one of them.
-/

import TraceLog.Pipeline.Completions
import TraceLog.Pipeline.Shared

set_option relaxedAutoImplicit false
set_option autoImplicit false

namespace TraceLog

/-- Where a worker stands. -/
inductive Worker where
  /-- Waits for a container. -/
  | idle
  /-- Has taken a container. -/
  | holding (c : Container)
  /-- Is compressing a container. -/
  | compressing (c : Container)
  /-- Waits for room to report. -/
  | reporting (completion : Completion)
  /-- The codec has crashed, and the pipeline is being stopped. -/
  | crashed (steps : List HaltStep)
  | gone

namespace Worker

/-- What a crash of the codec leads to. -/
def crashSteps : List HaltStep := failSteps (.internal .workerCrashed)

/-- A worker that stops the pipeline; behind the last step it is gone. -/
def halting (steps : List HaltStep) : Worker :=
  if steps.isEmpty then .gone else .crashed steps

/-- One step of a worker, or `none` while it has to wait and after its end. -/
def step? (codec : Codec) (w : Worker) (s : Shared) (out : Completions) :
    Option (Worker × Shared × Completions) :=
  match w with
  | .idle =>
      match s.work.receive with
      | .item c work => some (.holding c, { s with work }, out)
      | .drained => some (.gone, s, out.hangUp)
      | .empty => none
  | .holding c =>
      if s.stopped then some (.gone, s, out.hangUp) else some (.compressing c, s, out)
  | .compressing c =>
      match c.complete? codec with
      | some completion => some (.reporting completion, s, out)
      | none => some (.crashed crashSteps, s, out.hangUp)
  | .reporting completion =>
      match out.send completion with
      | .accepted out => some (.idle, s, out)
      | .ignored => some (.gone, s, out.hangUp)
      | .full => none
  | .crashed [] => some (.gone, s, out)
  | .crashed (step :: steps) => some (halting steps, step.apply s, out)
  | .gone => none

/-- Whether the next step of a worker is a call of the codec. -/
def isCompressing : Worker → Bool
  | .compressing _ => true
  | _ => false

/-- Whether a worker has left. -/
def isGone : Worker → Bool
  | .gone => true
  | _ => false

end Worker

/-! ### Workers on their own -/

/-- Some workers whose reports are received at once. -/
structure Crew where
  codec : Codec
  workers : List Worker
  completions : Completions
  /-- What was received, the latest report first. -/
  reports : List Completion

namespace Crew

/-- Some workers that have done nothing yet.  There has to be at least one. -/
def start (codec : Codec) (threads : Nat) : Except Error Crew :=
  if threads = 0 then .error (.config .emptyPool)
  else .ok ⟨codec, List.replicate threads .idle, .start 1 threads, []⟩

/-- One step of the worker with a given index. -/
def stepAt? (t : Crew) (s : Shared) (index : Nat) : Option (Crew × Shared) := do
  let w ← t.workers[index]?
  let (w, s, completions) ← w.step? t.codec s t.completions
  return ({ t with
    workers := t.workers.set index w
    completions := { completions with items := [] }
    reports := completions.items ++ t.reports }, s)

/-- One step of the first worker that can take one. -/
def step? (t : Crew) (s : Shared) : Option (Crew × Shared) :=
  (List.range t.workers.length).findSome? (t.stepAt? s)

/-- All reports, in the order in which they came, once every worker has left. -/
def reports? (t : Crew) : Option (List Completion) :=
  if t.workers.all (·.isGone) then some t.reports.reverse else none

end Crew

end TraceLog
