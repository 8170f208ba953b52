/-
**What one step can do.**

The threads and calls of a pipeline are functions that take a step if they do not have to wait.
Here each of them is taken apart once, into the moves that it can make: under which condition, from
which stage to which, and what becomes of the things that are shared.  Whatever is proved about the
steps of a pipeline is proved about these moves.

Main definitions:

* `CallMove`, `BatcherMove`, `WorkerMove`, `ScribeMove` — the moves of a call and of the threads;
* `Pipeline.conclusion` — the result of a file that is brought to its end, and what is left of it.

Main results:

* `Pipeline.callMove_of_stepCall?`, `Batcher.move_of_step?`, `Worker.move_of_step?`,
  `Scribe.move_of_step?` — **every step is one of the moves**.
-/

import TraceLog.Pipeline

set_option relaxedAutoImplicit false
set_option autoImplicit false

namespace TraceLog

/-! ### Calls -/

namespace Pipeline

/-- The result of a file that is brought to its end, and what is left of it. -/
def conclusion (p : Pipeline) (ending : Ending) (sealedCount : Nat) : Except Error Answer × Sink :=
  let writer := p.scribe.writer
  match p.shared.failure, ending with
  | some error, .drained => (.error error, writer.flush.2.abandon)
  | some error, .truncated => (.error error, writer.abandon)
  | none, ending =>
      let (result, file) :=
        match ending with
        | .drained => writer.finish sealedCount
        | .truncated => writer.finishTruncated
      (result.map fun totals => .finished ⟨totals, file.taken.size, ending = .truncated⟩, file)

theorem conclude_eq (p : Pipeline) (id : Nat) (ending : Ending) (sealedCount : Nat) :
    p.conclude id ending sealedCount =
      { p with closedFile := some (p.conclusion ending sealedCount).2 }.answer id
        (p.conclusion ending sealedCount).1 := by
  unfold conclude conclusion
  cases p.shared.failure with
  | some error => cases ending <;> rfl
  | none =>
      cases ending with
      | drained =>
          rcases hfinish : p.scribe.writer.finish sealedCount with ⟨result, file⟩
          simp only [hfinish]
          cases result <;> rfl
      | truncated =>
          rcases hfinish : p.scribe.writer.finishTruncated with ⟨result, file⟩
          simp only [hfinish]
          cases result <;> rfl

end Pipeline

/-- The move of a call: from a stage, to what is shared, the desk, the finished file and the next
stage, with the command that has found its place in the channel. -/
inductive CallMove (p : Pipeline) (id : Nat) :
    CallStage → Shared → Desk → Option Sink → CallStage → Option Command → Prop where
  | serveWrite {timestamp : UInt64} {payload : Bytes} (free : p.desk.holder = none)
      (opened : p.desk.closed = false) :
      CallMove p id (.entering (.write timestamp payload)) p.shared (p.desk.hold id) p.closedFile
        (.checking timestamp payload) none
  | serveFlush (free : p.desk.holder = none) (opened : p.desk.closed = false) :
      CallMove p id (.entering .flush) p.shared (p.desk.hold id) p.closedFile
        (.submitting (.flush id)) none
  | count (free : p.desk.holder = none) :
      CallMove p id (.entering .submitted) p.shared p.desk p.closedFile
        (.returned (.ok (.counted p.desk.next))) none
  | turnAway {request : Request} (free : p.desk.holder = none) (shut : p.desk.closed = true) :
      CallMove p id (.entering request) p.shared p.desk p.closedFile
        (.returned (.error .closed)) none
  | failed {timestamp : UInt64} {payload : Bytes} {error : Error}
      (failure : p.shared.failure = some error) :
      CallMove p id (.checking timestamp payload) p.shared p.desk.release p.closedFile
        (.returned (.error error)) none
  | number {timestamp : UInt64} {payload : Bytes} (failure : p.shared.failure = none) :
      CallMove p id (.checking timestamp payload) p.shared p.desk p.closedFile
        (.submitting (.event ⟨UInt64.ofNat p.desk.next, timestamp, payload⟩)) none
  | enterEvent {e : Event} {commands : Channel Command}
      (offered : p.shared.commands.offer (.event e) = .accepted commands) :
      CallMove p id (.submitting (.event e)) { p.shared with commands } p.desk.advance p.closedFile
        (.returned (.ok (.numbered p.desk.next))) (some (.event e))
  | enterFlush {ticket : Nat} {commands : Channel Command}
      (offered : p.shared.commands.offer (.flush ticket) = .accepted commands) :
      CallMove p id (.submitting (.flush ticket)) { p.shared with commands } p.desk.release
        p.closedFile .awaitingReply (some (.flush ticket))
  | refuse {command : Command} (offered : p.shared.commands.offer command = .closed) :
      CallMove p id (.submitting command) p.shared p.desk p.closedFile .refused none
  | giveUp :
      CallMove p id .refused p.shared p.desk.release p.closedFile
        (.returned (.error p.shared.failureOrClosed)) none
  | takeReply {target : Nat} {shared : Shared}
      (replied : p.shared.takeReply? id = some (target, shared)) :
      CallMove p id .awaitingReply shared p.desk p.closedFile (.leavingWord target) none
  | noReply (silent : p.shared.takeReply? id = none) (hopeless : p.mayReply id = false) :
      CallMove p id .awaitingReply p.shared p.desk p.closedFile .unanswered none
  | leaveWord {target : Nat} :
      CallMove p id (.leavingWord target)
        { p.shared with progress := p.shared.progress.request target } p.desk p.closedFile
        (.awaitingFlush target) none
  | awaited {target : Nat} {result : Except Error Unit}
      (answer : p.shared.awaitFlushed? target = some result) :
      CallMove p id (.awaitingFlush target) p.shared p.desk p.closedFile
        (.returned (result.map fun _ => .flushed)) none
  | unanswered :
      CallMove p id .unanswered p.shared p.desk p.closedFile
        (.returned (.error p.shared.failureOrClosed)) none
  | halt {step : HaltStep} {steps : List HaltStep} :
      CallMove p id (.halting (step :: steps)) (step.apply p.shared) p.desk p.closedFile
        (.halting steps) none
  | halted :
      CallMove p id (.halting []) p.shared p.desk p.closedFile (.closingDesk .truncated) none
  | alreadyShut {ending : Ending} (free : p.desk.holder = none) (shut : p.desk.closed = true) :
      CallMove p id (.closingDesk ending) p.shared p.desk p.closedFile
        (.returned (.error .closed)) none
  | shutToDrain (free : p.desk.holder = none) (opened : p.desk.closed = false) :
      CallMove p id (.closingDesk .drained) p.shared p.desk.shut p.closedFile .closingCommands none
  | shutToTruncate (free : p.desk.holder = none) (opened : p.desk.closed = false) :
      CallMove p id (.closingDesk .truncated) p.shared p.desk.shut p.closedFile
        (.joiningBatcher .truncated) none
  | closeCommands :
      CallMove p id .closingCommands { p.shared with commands := p.shared.commands.close } p.desk
        p.closedFile (.joiningBatcher .drained) none
  | joinBatcher {ending : Ending} {sealedCount : Nat}
      (ended : p.batcher.sealedCount? = some sealedCount) :
      CallMove p id (.joiningBatcher ending) p.shared p.desk p.closedFile
        (.joiningScribe ending sealedCount) none
  | joinScribe {ending : Ending} {sealedCount : Nat} (ended : p.scribe.isFinished = true) :
      CallMove p id (.joiningScribe ending sealedCount) p.shared p.desk p.closedFile
        (.concluding ending sealedCount) none
  | conclude {ending : Ending} {sealedCount : Nat} :
      CallMove p id (.concluding ending sealedCount) p.shared p.desk
        (some (p.conclusion ending sealedCount).2)
        (.returned (p.conclusion ending sealedCount).1) none

/-- No call goes back to where it came in. -/
theorem CallMove.stage_ne_entering {p : Pipeline} {id : Nat} {stage stage' : CallStage}
    {shared : Shared} {desk : Desk} {file : Option Sink} {command : Option Command}
    (move : CallMove p id stage shared desk file stage' command) (request : Request) :
    stage' ≠ .entering request := by
  cases move <;> simp

namespace Pipeline

/-- The command that a call submits, if there is room for it. -/
def entering? (p : Pipeline) (id : Nat) : Option Command :=
  match p.stage? id with
  | some (.submitting command) =>
      match p.shared.commands.offer command with
      | .accepted _ => some command
      | _ => none
  | _ => none

/-- A call does not queue up at the desk to close the file or to abort it. -/
def Orderly (p : Pipeline) : Prop :=
  ∀ id request, p.stage? id = some (.entering request) → request ≠ .close ∧ request ≠ .abort

theorem entering?_eq_none {p : Pipeline} {id : Nat} {stage : CallStage}
    (hstage : p.stage? id = some stage) (h : ∀ command, stage ≠ .submitting command) :
    p.entering? id = none := by
  unfold entering?
  split
  · rename_i command hsubmitting
    rw [hstage, Option.some.injEq] at hsubmitting
    exact absurd hsubmitting (h command)
  · rfl

/-- **Every step of a call is one of its moves.** -/
theorem callMove_of_stepCall? {p p' : Pipeline} {id : Nat} {stage : CallStage}
    (orderly : p.Orderly) (hstage : p.stage? id = some stage)
    (h : p.stepCall? id stage = some p') :
    ∃ shared desk file stage', CallMove p id stage shared desk file stage' (p.entering? id) ∧
      p' = { p with shared, desk, closedFile := file }.setStage id stage' := by
  have hquiet := entering?_eq_none hstage
  cases stage with
  | entering request =>
      rw [hquiet (by simp)]
      simp only [stepCall?] at h
      split at h
      · simp at h
      rename_i hholder
      have free : p.desk.holder = none := by simpa using hholder
      cases request with
      | submitted =>
          cases h
          exact ⟨_, _, _, _, .count free, rfl⟩
      | close => exact absurd rfl (orderly id .close hstage).1
      | abort => exact absurd rfl (orderly id .abort hstage).2
      | write timestamp payload =>
          cases hclosed : p.desk.closed with
          | false =>
              rw [hclosed] at h
              cases h
              exact ⟨_, _, _, _, .serveWrite free hclosed, rfl⟩
          | true =>
              rw [hclosed] at h
              cases h
              exact ⟨_, _, _, _, .turnAway free hclosed, rfl⟩
      | flush =>
          cases hclosed : p.desk.closed with
          | false =>
              rw [hclosed] at h
              cases h
              exact ⟨_, _, _, _, .serveFlush free hclosed, rfl⟩
          | true =>
              rw [hclosed] at h
              cases h
              exact ⟨_, _, _, _, .turnAway free hclosed, rfl⟩
  | checking timestamp payload =>
      rw [hquiet (by simp)]
      simp only [stepCall?] at h
      split at h
      · rename_i error failure
        cases h
        exact ⟨_, _, _, _, .failed failure, rfl⟩
      · rename_i failure
        cases h
        exact ⟨_, _, _, _, .number failure, rfl⟩
  | submitting command =>
      simp only [stepCall?] at h
      split at h
      · rename_i commands offered
        have hentering : p.entering? id = some command := by simp [entering?, hstage, offered]
        rw [hentering]
        cases command with
        | event e =>
            cases h
            exact ⟨_, _, _, _, .enterEvent offered, rfl⟩
        | flush ticket =>
            cases h
            exact ⟨_, _, _, _, .enterFlush offered, rfl⟩
      · rename_i offered
        have hentering : p.entering? id = none := by simp [entering?, hstage, offered]
        rw [hentering]
        cases h
        exact ⟨_, _, _, _, .refuse offered, rfl⟩
      · simp at h
  | refused =>
      rw [hquiet (by simp)]
      cases h
      exact ⟨_, _, _, _, .giveUp, rfl⟩
  | awaitingReply =>
      rw [hquiet (by simp)]
      simp only [stepCall?] at h
      split at h
      · rename_i target shared replied
        cases h
        exact ⟨_, _, _, _, .takeReply replied, rfl⟩
      · rename_i silent
        split at h
        · simp at h
        · rename_i hopeless
          cases h
          exact ⟨_, _, _, _, .noReply silent (by simpa using hopeless), rfl⟩
  | leavingWord target =>
      rw [hquiet (by simp)]
      cases h
      exact ⟨_, _, _, _, .leaveWord, rfl⟩
  | awaitingFlush target =>
      rw [hquiet (by simp)]
      obtain ⟨result, answer, rfl⟩ := Option.map_eq_some_iff.1 h
      exact ⟨_, _, _, _, .awaited answer, rfl⟩
  | unanswered =>
      rw [hquiet (by simp)]
      cases h
      exact ⟨_, _, _, _, .unanswered, rfl⟩
  | halting steps =>
      rw [hquiet (by simp)]
      cases steps with
      | nil =>
          cases h
          exact ⟨_, _, _, _, .halted, rfl⟩
      | cons step steps =>
          cases h
          exact ⟨_, _, _, _, .halt, rfl⟩
  | closingDesk ending =>
      rw [hquiet (by simp)]
      simp only [stepCall?] at h
      split at h
      · simp at h
      rename_i hholder
      have free : p.desk.holder = none := by simpa using hholder
      split at h
      · rename_i shut
        cases h
        exact ⟨_, _, _, _, .alreadyShut free shut, rfl⟩
      · rename_i hopen
        have opened : p.desk.closed = false := by simpa using hopen
        cases ending with
        | drained =>
            cases h
            exact ⟨_, _, _, _, .shutToDrain free opened, rfl⟩
        | truncated =>
            cases h
            exact ⟨_, _, _, _, .shutToTruncate free opened, rfl⟩
  | closingCommands =>
      rw [hquiet (by simp)]
      cases h
      exact ⟨_, _, _, _, .closeCommands, rfl⟩
  | joiningBatcher ending =>
      rw [hquiet (by simp)]
      obtain ⟨sealedCount, ended, rfl⟩ := Option.map_eq_some_iff.1 h
      exact ⟨_, _, _, _, .joinBatcher ended, rfl⟩
  | joiningScribe ending sealedCount =>
      rw [hquiet (by simp)]
      simp only [stepCall?, Option.ite_none_right_eq_some, Option.some.injEq] at h
      obtain ⟨ended, rfl⟩ := h
      exact ⟨_, _, _, _, .joinScribe ended, rfl⟩
  | concluding ending sealedCount =>
      rw [hquiet (by simp)]
      simp only [stepCall?, conclude_eq, Option.some.injEq] at h
      subst h
      exact ⟨_, _, _, _, .conclude, rfl⟩
  | returned result => simp [stepCall?] at h

end Pipeline

/-! ### The batcher -/

/-- The move of the batcher: from a stage, to its builder, the next stage and what is shared, with
the command that it has carried out and the container that it has sealed. -/
inductive BatcherMove (b : Builder) (s : Shared) :
    BatcherStage → Builder → BatcherStage → Shared → Option Command → Option Container → Prop where
  | obey {command : Command} {commands : Channel Command}
      (received : s.commands.receive = .item command commands) :
      BatcherMove b s .receiving (b.obey command).2
        (Batcher.submitting (b.obey command).1 (Batcher.afterwards command)) { s with commands }
        (some command) (b.obey command).1
  | drained (received : s.commands.receive = .drained) :
      BatcherMove b s .receiving b .ending s none none
  | grantAdmission {c : Container} {after : AfterHandover} {budget : Budget}
      (acquired : s.budget.acquire? c.length = some (true, budget)) :
      BatcherMove b s (.admitting c after) b (.handing c after) { s with budget } none none
  | refuseAdmission {c : Container} {after : AfterHandover} {budget : Budget}
      (acquired : s.budget.acquire? c.length = some (false, budget)) :
      BatcherMove b s (.admitting c after) b after.stageOnRefusal { s with budget } none none
  | handOver {c : Container} {after : AfterHandover} {work : Channel Container}
      (offered : s.work.offer c = .accepted work) :
      BatcherMove b s (.handing c after) b after.stage { s with work } none none
  | refuseWork {c : Container} {after : AfterHandover} (offered : s.work.offer c = .closed) :
      BatcherMove b s (.handing c after) b after.stageOnRefusal s none none
  | reply {ticket : Nat} :
      BatcherMove b s (.replying ticket) b .receiving (s.reply ticket b.sealedCount) none none
  | stop (stopped : s.stopped = true) : BatcherMove b s .ending b .closingWork s none none
  | sealLast (running : s.stopped = false) :
      BatcherMove b s .ending b.sealCurrent.2 (Batcher.submitting b.sealCurrent.1 .finish) s none
        b.sealCurrent.1
  | closeWork :
      BatcherMove b s .closingWork b .finished { s with work := s.work.close } none none

namespace Batcher

/-- The command that the batcher is about to carry out. -/
def obeying? (t : Batcher) (s : Shared) : Option Command :=
  match t.stage with
  | .receiving =>
      match s.commands.receive with
      | .item command _ => some command
      | _ => none
  | _ => none

/-- The container that the batcher has just sealed. -/
def sealed? (t : Batcher) : Option Container :=
  match t.stage with
  | .admitting c _ => some c
  | _ => none

theorem sealed?_submitting (b : Builder) (done : Option Container) (after : AfterHandover) :
    sealed? ⟨b, submitting done after⟩ = done := by
  cases done with
  | none => cases after <;> rfl
  | some c => rfl

theorem sealed?_stage (b : Builder) (after : AfterHandover) :
    sealed? ⟨b, after.stage⟩ = none := by
  cases after <;> rfl

theorem sealed?_stageOnRefusal (b : Builder) (after : AfterHandover) :
    sealed? ⟨b, after.stageOnRefusal⟩ = none := by
  cases after <;> rfl

/-- **Every step of the batcher is one of its moves.** -/
theorem move_of_step? {t t' : Batcher} {s s' : Shared} (h : t.step? s = some (t', s')) :
    BatcherMove t.builder s t.stage t'.builder t'.stage s' (t.obeying? s) t'.sealed? := by
  obtain ⟨b, stage⟩ := t
  cases stage with
  | receiving =>
      simp only [step?] at h
      simp only [obeying?]
      split at h
      · rename_i command commands received
        simp only [Option.some.injEq, Prod.mk.injEq] at h
        obtain ⟨rfl, rfl⟩ := h
        simp only [received, Batcher.obey, sealed?_submitting]
        exact .obey received
      · rename_i received
        simp only [Option.some.injEq, Prod.mk.injEq] at h
        obtain ⟨rfl, rfl⟩ := h
        simp only [received]
        exact .drained received
      · simp at h
  | admitting c after =>
      simp only [step?] at h
      split at h
      · rename_i budget acquired
        cases h
        exact .grantAdmission acquired
      · rename_i budget acquired
        cases h
        rw [sealed?_stageOnRefusal]
        exact .refuseAdmission acquired
      · simp at h
  | handing c after =>
      simp only [step?] at h
      split at h
      · rename_i work offered
        cases h
        rw [sealed?_stage]
        exact .handOver offered
      · rename_i offered
        cases h
        rw [sealed?_stageOnRefusal]
        exact .refuseWork offered
      · simp at h
  | replying ticket =>
      cases h
      exact .reply
  | ending =>
      simp only [step?] at h
      split at h
      · rename_i stopped
        cases h
        exact .stop stopped
      · rename_i running
        simp only [Option.some.injEq, Prod.mk.injEq] at h
        obtain ⟨rfl, rfl⟩ := h
        rw [sealed?_submitting]
        exact .sealLast (by simpa using running)
  | closingWork =>
      cases h
      exact .closeWork
  | finished => simp [step?] at h

end Batcher

/-! ### The workers -/

/-- The move of a worker: to its next stage, what is shared, and the queue to the writer. -/
inductive WorkerMove (codec : Codec) (s : Shared) (out : Completions) :
    Worker → Worker → Shared → Completions → Prop where
  | take {c : Container} {work : Channel Container} (received : s.work.receive = .item c work) :
      WorkerMove codec s out .idle (.holding c) { s with work } out
  | drained (received : s.work.receive = .drained) :
      WorkerMove codec s out .idle .gone s out.hangUp
  | begin {c : Container} (running : s.stopped = false) :
      WorkerMove codec s out (.holding c) (.compressing c) s out
  | abandon {c : Container} (stopped : s.stopped = true) :
      WorkerMove codec s out (.holding c) .gone s out.hangUp
  | compress {c : Container} {completion : Completion}
      (completed : c.complete? codec = some completion) :
      WorkerMove codec s out (.compressing c) (.reporting completion) s out
  | crash {c : Container} (lost : c.complete? codec = none) :
      WorkerMove codec s out (.compressing c) (.crashed Worker.crashSteps) s out.hangUp
  | report {completion : Completion} {out' : Completions}
      (sent : out.send completion = .accepted out') :
      WorkerMove codec s out (.reporting completion) .idle s out'
  | ignored {completion : Completion} (sent : out.send completion = .ignored) :
      WorkerMove codec s out (.reporting completion) .gone s out.hangUp
  | vanish : WorkerMove codec s out (.crashed []) .gone s out
  | halt {step : HaltStep} {steps : List HaltStep} :
      WorkerMove codec s out (.crashed (step :: steps)) (Worker.halting steps) (step.apply s) out

/-- **Every step of a worker is one of its moves.** -/
theorem Worker.move_of_step? {codec : Codec} {w w' : Worker} {s s' : Shared}
    {out out' : Completions} (h : w.step? codec s out = some (w', s', out')) :
    WorkerMove codec s out w w' s' out' := by
  cases w with
  | idle =>
      simp only [step?] at h
      split at h
      · rename_i c work received
        cases h
        exact .take received
      · rename_i received
        cases h
        exact .drained received
      · simp at h
  | holding c =>
      simp only [step?] at h
      split at h
      · rename_i stopped
        cases h
        exact .abandon stopped
      · rename_i running
        cases h
        exact .begin (by simpa using running)
  | compressing c =>
      simp only [step?] at h
      split at h
      · rename_i completion completed
        cases h
        exact .compress completed
      · rename_i lost
        cases h
        exact .crash lost
  | reporting completion =>
      simp only [step?] at h
      split at h
      · rename_i sent
        cases h
        exact .report sent
      · rename_i sent
        cases h
        exact .ignored sent
      · simp at h
  | crashed steps =>
      cases steps with
      | nil =>
          cases h
          exact .vanish
      | cons step steps =>
          cases h
          exact .halt
  | gone => simp [step?] at h

/-! ### The scribe -/

/-- Where the scribe goes after a flush, if that is not its end. -/
inductive ScribeStage.FlushesOnTo : ScribeStage → ScribeStage → Prop where
  | idle : FlushesOnTo .flushingIdle .waiting
  | onRequest : FlushesOnTo .flushingOnRequest .polling

/-- The scribe is about to look for a report. -/
inductive ScribeStage.Listens : ScribeStage → Prop where
  | polling : Listens .polling
  | waiting : Listens .waiting

/-- The scribe is about to flush. -/
inductive ScribeStage.Flushes : ScribeStage → Prop where
  | idle : Flushes .flushingIdle
  | onRequest : Flushes .flushingOnRequest
  | last : Flushes .flushingLast

/-- The move of the scribe: from a stage, to its resequencer, the next stage, what is shared, and
the queue from the workers, with the record that it has taken. -/
inductive ScribeMove (w : Resequencer) (s : Shared) (inbox : Completions) :
    ScribeStage → Resequencer → ScribeStage → Shared → Completions → Option Record → Prop where
  | receive {stage : ScribeStage} {completion : Completion} {inbox' : Completions}
      (listens : stage.Listens) (received : inbox.receive = .item completion inbox') :
      ScribeMove w s inbox stage w (.handling completion) s inbox' none
  | rest (received : inbox.receive = .empty) :
      ScribeMove w s inbox .polling w .flushingIdle s inbox none
  | disconnected {stage : ScribeStage} (listens : stage.Listens)
      (received : inbox.receive = .disconnected) : ScribeMove w s inbox stage w .ending s inbox none
  | publish {stage onward : ScribeStage} {w' : Resequencer} (goes : stage.FlushesOnTo onward)
      (flushed : w.flush = (.ok (), w')) :
      ScribeMove w s inbox stage w' onward { s with progress := s.progress.publish w'.next } inbox
        none
  | publishLast {w' : Resequencer} (flushed : w.flush = (.ok (), w')) :
      ScribeMove w s inbox .flushingLast w' .finished
        { s with progress := s.progress.publish w'.next } inbox.ignore none
  | flushFailed {stage : ScribeStage} {error : Error} {w' : Resequencer} (flushes : stage.Flushes)
      (flushed : w.flush = (.error error, w')) :
      ScribeMove w s inbox stage w' (.halting (failSteps error)) s inbox none
  | drop {completion : Completion} (stopped : s.stopped = true) :
      ScribeMove w s inbox (.handling completion) w .ending s inbox none
  | take {record : Record} {size : Nat} {w' : Resequencer} (running : s.stopped = false)
      (accepted : w.accept record = (.ok size, w')) :
      ScribeMove w s inbox (.handling (.done record)) w' (.releasing size) s inbox (some record)
  | refuse {record : Record} {error : Error} {w' : Resequencer} (running : s.stopped = false)
      (accepted : w.accept record = (.error error, w')) :
      ScribeMove w s inbox (.handling (.done record)) w' (.halting (failSteps error)) s inbox none
  | failed {sequence : Nat} {error : Error} (running : s.stopped = false) :
      ScribeMove w s inbox (.handling (.failed sequence error)) w (.halting (failSteps error)) s
        inbox none
  | release {bytes : Nat} :
      ScribeMove w s inbox (.releasing bytes) w .checking
        { s with budget := s.budget.release bytes } inbox none
  | wanted (wants : s.progress.wantsFlush w.next = true) :
      ScribeMove w s inbox .checking w .flushingOnRequest s inbox none
  | unwanted (wants : s.progress.wantsFlush w.next = false) :
      ScribeMove w s inbox .checking w .polling s inbox none
  | leave (stopped : s.stopped = true) :
      ScribeMove w s inbox .ending w .finished s inbox.ignore none
  | last (running : s.stopped = false) :
      ScribeMove w s inbox .ending w .flushingLast s inbox none
  | halt {step : HaltStep} {steps : List HaltStep} :
      ScribeMove w s inbox (.halting (step :: steps)) w (.halting steps) (step.apply s) inbox none
  | halted : ScribeMove w s inbox (.halting []) w .ending s inbox none

namespace Scribe

/-- The record that the scribe is about to take. -/
def taking? (t : Scribe) (s : Shared) : Option Record :=
  match t.stage with
  | .handling (.done record) =>
      if s.stopped then none
      else
        match t.writer.accept record with
        | (.ok _, _) => some record
        | (.error _, _) => none
  | _ => none

/-- **Every step of the scribe is one of its moves.** -/
theorem move_of_step? {t t' : Scribe} {s s' : Shared} {inbox inbox' : Completions}
    (h : t.step? s inbox = some (t', s', inbox')) :
    ScribeMove t.writer s inbox t.stage t'.writer t'.stage s' inbox' (t.taking? s) := by
  obtain ⟨w, stage⟩ := t
  cases stage with
  | polling =>
      simp only [step?] at h
      split at h
      · rename_i received
        cases h
        exact .receive .polling received
      · rename_i received
        cases h
        exact .rest received
      · rename_i received
        cases h
        exact .disconnected .polling received
  | waiting =>
      simp only [step?] at h
      split at h
      · rename_i received
        cases h
        exact .receive .waiting received
      · simp at h
      · rename_i received
        cases h
        exact .disconnected .waiting received
  | flushingIdle =>
      simp only [step?, publish] at h
      rcases hflush : w.flush with ⟨result, w'⟩
      rw [hflush] at h
      cases result with
      | ok u =>
          cases h
          exact .publish .idle hflush
      | error error =>
          cases h
          exact .flushFailed .idle hflush
  | flushingOnRequest =>
      simp only [step?, publish] at h
      rcases hflush : w.flush with ⟨result, w'⟩
      rw [hflush] at h
      cases result with
      | ok u =>
          cases h
          exact .publish .onRequest hflush
      | error error =>
          cases h
          exact .flushFailed .onRequest hflush
  | flushingLast =>
      simp only [step?, publish] at h
      rcases hflush : w.flush with ⟨result, w'⟩
      rw [hflush] at h
      cases result with
      | ok u =>
          cases h
          exact .publishLast hflush
      | error error =>
          cases h
          exact .flushFailed .last hflush
  | handling completion =>
      simp only [step?] at h
      split at h
      · rename_i stopped
        cases h
        have htaking : taking? ⟨w, .handling completion⟩ s = none := by
          cases completion <;> simp [taking?, stopped]
        rw [htaking]
        exact .drop stopped
      · rename_i hstopped
        have running : s.stopped = false := by simpa using hstopped
        simp only [Option.some.injEq, Prod.mk.injEq] at h
        obtain ⟨rfl, rfl, rfl⟩ := h
        cases completion with
        | failed sequence error => exact .failed running
        | done record =>
            rcases haccept : w.accept record with ⟨result, w'⟩
            cases result with
            | ok size =>
                simp only [handle, taking?, haccept, running]
                exact .take running haccept
            | error error =>
                simp only [handle, taking?, haccept, running]
                exact .refuse running haccept
  | releasing bytes =>
      cases h
      exact .release
  | checking =>
      simp only [step?] at h
      split at h
      · rename_i wants
        cases h
        exact .wanted wants
      · rename_i wants
        cases h
        exact .unwanted (by simpa using wants)
  | ending =>
      simp only [step?] at h
      split at h
      · rename_i stopped
        cases h
        exact .leave stopped
      · rename_i running
        cases h
        exact .last (by simpa using running)
  | halting steps =>
      cases steps with
      | nil =>
          cases h
          exact .halted
      | cons step steps =>
          cases h
          exact .halt
  | finished => simp [step?] at h

end Scribe

end TraceLog
