/-
**The pipeline of an open file.**

An open file is served by a batcher, some workers and a scribe, each a thread of its own, while any
number of calls are under way.  A step of the pipeline is one step of one of the threads or calls:
it touches what is shared at most once, and any thread or call that does not have to wait may take
the next step.

Main definitions:

* `Pipeline`, `Pipeline.start` — the threads, what they share, and the calls; a newly opened file;
* `Actor`, `Pipeline.step?` — who takes a step; the step, if it does not have to wait;
* `Pipeline.Reachable` — the states that threads and callers can bring about;
* `Pipeline.settle` — the steps that are taken when everyone proceeds who can.
-/

import TraceLog.Pipeline.Batcher
import TraceLog.Pipeline.Call
import TraceLog.Pipeline.Scribe
import TraceLog.Pipeline.Worker
import TraceLog.Settings

set_option relaxedAutoImplicit false
set_option autoImplicit false

namespace TraceLog

/-- The threads of an open file, what they share, and the calls that are under way. -/
structure Pipeline where
  codec : Codec
  shared : Shared
  batcher : Batcher
  workers : List Worker
  completions : Completions
  scribe : Scribe
  desk : Desk
  /-- The calls with their tickets, the one that came first in front. -/
  calls : List (Nat × CallStage)
  /-- The file after it was finished or given up. -/
  closedFile : Option Sink

/-- Who takes a step. -/
inductive Actor where
  | call (id : Nat)
  | batcher
  | worker (index : Nat)
  | scribe
  deriving DecidableEq

namespace Pipeline

/-- A newly opened file that holds records with the given totals. -/
def start (settings : Settings) (sink : Sink) (totals : Totals) : Except Error Pipeline :=
  match Shared.make settings.queueSize settings.threads settings.bufferSize
      totals.containers.toNat with
  | .error error => .error error
  | .ok shared =>
      if settings.threads = 0 then .error (.config .emptyPool)
      else
        .ok
          { codec := settings.codec
            shared
            batcher := .start settings.containerSize totals.containers.toNat
            workers := List.replicate settings.threads .idle
            completions := .start settings.threads settings.threads
            scribe := .start (.resume sink totals)
            desk := .start totals.events.toNat
            calls := []
            closedFile := none }

/-- The file: as it was left, or as the scribe has it. -/
def file (p : Pipeline) : Sink := p.closedFile.getD p.scribe.writer.out.sink

/-! ### Calls -/

/-- Where a call stands. -/
def stage? (p : Pipeline) (id : Nat) : Option CallStage := p.calls.lookup id

/-- The pipeline with a call at another stage. -/
def setStage (p : Pipeline) (id : Nat) (stage : CallStage) : Pipeline :=
  { p with calls := p.calls.map fun c => if c.1 = id then (id, stage) else c }

/-- Someone calls. -/
def arrive (p : Pipeline) (id : Nat) (request : Request) : Pipeline :=
  { p with calls := p.calls ++ [(id, request.stage)] }

/-- The result of a call that is over. -/
def result? (p : Pipeline) (id : Nat) : Option (Except Error Answer) :=
  match p.stage? id with
  | some (.returned result) => some result
  | _ => none

/-- The caller of a call that is over goes away. -/
def leave (p : Pipeline) (id : Nat) : Pipeline :=
  { p with calls := p.calls.filter (·.1 ≠ id) }

/-- A call is over. -/
def answer (p : Pipeline) (id : Nat) (result : Except Error Answer) : Pipeline :=
  p.setStage id (.returned result)

/-- Whether somebody may still answer a flush command. -/
def mayReply (p : Pipeline) (ticket : Nat) : Bool :=
  p.shared.commands.items.contains (.flush ticket) || p.batcher.owes ticket

/-- The call at the desk is served: an event is looked at further, a flush is submitted, and the
count is told. -/
def serve (p : Pipeline) (id : Nat) : Request → Pipeline
  | .write timestamp payload =>
      { p with desk := p.desk.hold id }.setStage id (.checking timestamp payload)
  | .flush => { p with desk := p.desk.hold id }.setStage id (.submitting (.flush id))
  | .submitted => p.answer id (.ok (.counted p.desk.next))
  | .close | .abort => p

/-- A command has found room in the channel: an event has its number, a flush awaits a reply. -/
def submitted (p : Pipeline) (id : Nat) : Command → Pipeline
  | .event _ =>
      { p with desk := p.desk.advance }.answer id (.ok (.numbered p.desk.next))
  | .flush _ => { p with desk := p.desk.release }.setStage id .awaitingReply

/-- Finish the file, or give it up if the pipeline has failed.  Records written before the failure
are brought into a file that was to be drained. -/
def conclude (p : Pipeline) (id : Nat) (ending : Ending) (sealedCount : Nat) : Pipeline :=
  let writer := p.scribe.writer
  match p.shared.failure, ending with
  | some error, .drained =>
      { p with closedFile := some writer.flush.2.abandon }.answer id (.error error)
  | some error, .truncated =>
      { p with closedFile := some writer.abandon }.answer id (.error error)
  | none, ending =>
      let (result, file) :=
        match ending with
        | .drained => writer.finish sealedCount
        | .truncated => writer.finishTruncated
      let p := { p with closedFile := some file }
      match result with
      | .ok totals => p.answer id (.ok (.finished ⟨totals, file.taken.size, ending = .truncated⟩))
      | .error error => p.answer id (.error error)

/-- One step of a call at a given stage, or `none` while it has to wait and after its end. -/
def stepCall? (p : Pipeline) (id : Nat) : CallStage → Option Pipeline
  | .entering request =>
      if p.desk.holder.isSome then none
      else
        match request, p.desk.closed with
        | .submitted, _ | _, false => some (p.serve id request)
        | _, true => some (p.answer id (.error .closed))
  | .checking timestamp payload =>
      match p.shared.failure with
      | some error => some ({ p with desk := p.desk.release }.answer id (.error error))
      | none =>
          let e : Event := ⟨UInt64.ofNat p.desk.next, timestamp, payload⟩
          some (p.setStage id (.submitting (.event e)))
  | .submitting command =>
      match p.shared.commands.offer command with
      | .accepted commands =>
          some ({ p with shared := { p.shared with commands } }.submitted id command)
      | .closed => some (p.setStage id .refused)
      | .full => none
  | .refused =>
      some ({ p with desk := p.desk.release }.answer id (.error p.shared.failureOrClosed))
  | .awaitingReply =>
      match p.shared.takeReply? id with
      | some (target, shared) => some ({ p with shared }.setStage id (.leavingWord target))
      | none => if p.mayReply id then none else some (p.setStage id .unanswered)
  | .leavingWord target =>
      let shared := { p.shared with progress := p.shared.progress.request target }
      some ({ p with shared }.setStage id (.awaitingFlush target))
  | .awaitingFlush target =>
      (p.shared.awaitFlushed? target).map fun result => p.answer id (result.map fun _ => .flushed)
  | .unanswered => some (p.answer id (.error p.shared.failureOrClosed))
  | .halting [] => some (p.setStage id (.closingDesk .truncated))
  | .halting (step :: steps) =>
      some ({ p with shared := step.apply p.shared }.setStage id (.halting steps))
  | .closingDesk ending =>
      if p.desk.holder.isSome then none
      else if p.desk.closed then some (p.answer id (.error .closed))
      else
        let p := { p with desk := p.desk.shut }
        match ending with
        | .drained => some (p.setStage id .closingCommands)
        | .truncated => some (p.setStage id (.joiningBatcher .truncated))
  | .closingCommands =>
      let shared := { p.shared with commands := p.shared.commands.close }
      some ({ p with shared }.setStage id (.joiningBatcher .drained))
  | .joiningBatcher ending =>
      p.batcher.sealedCount?.map fun n => p.setStage id (.joiningScribe ending n)
  | .joiningScribe ending sealedCount =>
      if p.scribe.isFinished then some (p.setStage id (.concluding ending sealedCount)) else none
  | .concluding ending sealedCount => some (p.conclude id ending sealedCount)
  | .returned _ => none

/-! ### Steps -/

/-- One step of a thread or a call, or `none` if it has to wait or has ended. -/
def step? (p : Pipeline) : Actor → Option Pipeline
  | .call id => (p.stage? id).bind (p.stepCall? id)
  | .batcher =>
      (p.batcher.step? p.shared).map fun (batcher, shared) => { p with batcher, shared }
  | .worker index =>
      p.workers[index]?.bind fun w =>
        (w.step? p.codec p.shared p.completions).map fun (w, shared, completions) =>
          { p with workers := p.workers.set index w, shared, completions }
  | .scribe =>
      (p.scribe.step? p.shared p.completions).map fun (scribe, shared, completions) =>
        { p with scribe, shared, completions }

/-- The states that threads and callers can bring about from a given one.  Calls that are over stay
in sight. -/
inductive Reachable (origin : Pipeline) : Pipeline → Prop where
  | start : Reachable origin origin
  | arrive {p : Pipeline} {id : Nat} (request : Request) (reached : Reachable origin p)
      (fresh : p.stage? id = none) : Reachable origin (p.arrive id request)
  | step {p p' : Pipeline} {actor : Actor} (reached : Reachable origin p)
      (stepped : p.step? actor = some p') : Reachable origin p'

/-! ### Running a pipeline -/

/-- Everyone who may take a step, in a fixed order.  Calls of the codec can be held back. -/
def actors (p : Pipeline) (compressing : Bool) : List Actor :=
  p.calls.map (fun c => .call c.1) ++ .batcher ::
    ((List.range p.workers.length).filter fun i =>
      compressing || !(p.workers[i]?.any (·.isCompressing))).map .worker ++ [.scribe]

/-- The step of the first in order who can take one. -/
def advance? (p : Pipeline) (compressing : Bool) : Option Pipeline :=
  (p.actors compressing).findSome? p.step?

/-- At most `fuel` steps. -/
def runFor (compressing : Bool) : (fuel : Nat) → Pipeline → Pipeline
  | 0, p => p
  | fuel + 1, p =>
      match p.advance? compressing with
      | some p => runFor compressing fuel p
      | none => p

/-- More steps than can be taken before everyone waits: whatever is under way takes a limited
number of steps through all the stages that are left to it. -/
def patience (p : Pipeline) : Nat :=
  32 * (p.shared.commands.items.length + p.shared.work.items.length +
    p.completions.items.length + 2 * p.calls.length + p.workers.length + 4)

/-- Let everyone proceed until everyone waits or has ended. -/
def settle (p : Pipeline) (compressing : Bool) : Pipeline := p.runFor compressing p.patience

/-- Make a call and let everyone proceed. -/
def call (p : Pipeline) (compressing : Bool) (id : Nat) (request : Request) : Pipeline :=
  (p.arrive id request).settle compressing

end Pipeline

end TraceLog
