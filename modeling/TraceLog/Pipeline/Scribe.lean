/-
**The thread that writes the file.**

The scribe receives the reports of the workers and passes the records on to the resequencer.  What
it has written is flushed when no report is waiting, when someone waits for a flush that is now
possible, and at the end.  The first error stops the pipeline and ends the thread.

Main definitions:

* `Scribe`, `Scribe.start` — a resequencer with the place where its thread stands;
* `Scribe.step?` — one step of the thread, or `none` while it has to wait and after its end;
* `Scribe.run` — the steps that the thread takes when nobody else takes any.
-/

import TraceLog.Pipeline.Completions
import TraceLog.Pipeline.Shared
import TraceLog.Resequencer

set_option relaxedAutoImplicit false
set_option autoImplicit false

namespace TraceLog

/-- Where the scribe stands. -/
inductive ScribeStage where
  /-- Looks whether a report is waiting. -/
  | polling
  /-- Is about to flush because no report is waiting. -/
  | flushingIdle
  /-- Waits for a report. -/
  | waiting
  /-- Has received a report. -/
  | handling (completion : Completion)
  /-- Is about to put the bytes of written containers back into the budget. -/
  | releasing (bytes : Nat)
  /-- Is about to look whether someone waits for a flush. -/
  | checking
  /-- Is about to flush because someone waits for it. -/
  | flushingOnRequest
  /-- No report will be looked at any more. -/
  | ending
  /-- Is about to flush for the last time. -/
  | flushingLast
  /-- Is stopping the pipeline. -/
  | halting (steps : List HaltStep)
  | finished

/-- A resequencer with the place where its thread stands. -/
structure Scribe where
  writer : Resequencer
  stage : ScribeStage

namespace Scribe

/-- The thread before its first step. -/
def start (writer : Resequencer) : Scribe := ⟨writer, .polling⟩

/-- Flush what was written and publish how far the file is flushed.  An error stops the pipeline. -/
def publish (t : Scribe) (s : Shared) (onward : ScribeStage) : Scribe × Shared :=
  match t.writer.flush with
  | (.ok (), writer) =>
      (⟨writer, onward⟩, { s with progress := s.progress.publish writer.next })
  | (.error error, writer) => (⟨writer, .halting (failSteps error)⟩, s)

/-- Look at a report. -/
def handle (t : Scribe) : Completion → Scribe
  | .done record =>
      match t.writer.accept record with
      | (.ok bytes, writer) => ⟨writer, .releasing bytes⟩
      | (.error error, writer) => ⟨writer, .halting (failSteps error)⟩
  | .failed _ error => { t with stage := .halting (failSteps error) }

/-- The scribe leaves, and with it the end of the queue at which it listened. -/
def leave (t : Scribe) (s : Shared) (inbox : Completions) : Scribe × Shared × Completions :=
  ({ t with stage := .finished }, s, inbox.ignore)

/-- One step of the thread, or `none` while it has to wait and after its end. -/
def step? (t : Scribe) (s : Shared) (inbox : Completions) :
    Option (Scribe × Shared × Completions) :=
  match t.stage with
  | .polling =>
      match inbox.receive with
      | .item completion inbox => some ({ t with stage := .handling completion }, s, inbox)
      | .empty => some ({ t with stage := .flushingIdle }, s, inbox)
      | .disconnected => some ({ t with stage := .ending }, s, inbox)
  | .flushingIdle =>
      let (t, s) := t.publish s .waiting
      some (t, s, inbox)
  | .waiting =>
      match inbox.receive with
      | .item completion inbox => some ({ t with stage := .handling completion }, s, inbox)
      | .empty => none
      | .disconnected => some ({ t with stage := .ending }, s, inbox)
  | .handling completion =>
      if s.stopped then some ({ t with stage := .ending }, s, inbox)
      else some (t.handle completion, s, inbox)
  | .releasing bytes =>
      some ({ t with stage := .checking }, { s with budget := s.budget.release bytes }, inbox)
  | .checking =>
      if s.progress.wantsFlush t.writer.next then
        some ({ t with stage := .flushingOnRequest }, s, inbox)
      else some ({ t with stage := .polling }, s, inbox)
  | .flushingOnRequest =>
      let (t, s) := t.publish s .polling
      some (t, s, inbox)
  | .ending =>
      if s.stopped then some (t.leave s inbox)
      else some ({ t with stage := .flushingLast }, s, inbox)
  | .flushingLast =>
      let (t, s) := t.publish s .finished
      match t.stage with
      | .finished => some (t.leave s inbox)
      | _ => some (t, s, inbox)
  | .halting (step :: steps) => some ({ t with stage := .halting steps }, step.apply s, inbox)
  | .halting [] => some ({ t with stage := .ending }, s, inbox)
  | .finished => none

/-- Whether the thread has ended. -/
def isFinished (t : Scribe) : Bool :=
  match t.stage with
  | .finished => true
  | _ => false

/-- At most `fuel` steps. -/
def runFor : (fuel : Nat) → Scribe → Shared → Completions → Scribe × Shared × Completions
  | 0, t, s, inbox => (t, s, inbox)
  | fuel + 1, t, s, inbox =>
      match t.step? s inbox with
      | some (t, s, inbox) => runFor fuel t s inbox
      | none => (t, s, inbox)

/-- Let the thread run until it waits or ends.  A report takes at most five steps. -/
def run (t : Scribe) (s : Shared) (inbox : Completions) : Scribe × Shared × Completions :=
  t.runFor (5 * inbox.items.length + 16) s inbox

end Scribe

end TraceLog
