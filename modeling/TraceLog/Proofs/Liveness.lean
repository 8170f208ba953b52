/-
**Nobody waits for ever.**

Batcher, workers and scribe wait for each other at three queues and at the budget, calls queue up at
the desk, and those who flush wait for the scribe.  Nevertheless there is always someone who can
take a step while a call is not over, whatever the codec and the file do.  If the pipeline is to
stop, then whoever stops it goes on until nothing is left to wait for.  If it is not, then
everything that was admitted arrives, up to what the batcher has in its hands; so nothing is parked
and nothing is in flight when the batcher waits to be admitted, and everything that was sealed is in
the file when someone waits for a flush.

Main definitions:

* `Pipeline.Roomy` — the queues have room;
* `Pipeline.Stuck` — nobody can take a step.

Main results:

* `Pipeline.Stuck.call_cases` and its kin — **what those wait for who cannot take a step**;
* `Pipeline.exists_step` — **no pipeline gets stuck**.
-/

import TraceLog.Proofs.Pipeline.Concluding
import TraceLog.Proofs.Pipeline.Flushing
import TraceLog.Proofs.Pipeline.Ledger

set_option relaxedAutoImplicit false
set_option autoImplicit false

namespace TraceLog

/-! ### Room in the queues -/

theorem HaltStep.capacity_apply (step : HaltStep) (s : Shared) :
    (step.apply s).commands.capacity = s.commands.capacity ∧
      (step.apply s).work.capacity = s.work.capacity := by
  cases step <;> exact ⟨rfl, rfl⟩

theorem CallMove.capacity_eq {p : Pipeline} {id : Nat} {stage stage' : CallStage} {shared : Shared}
    {desk : Desk} {file : Option Sink} {command : Option Command}
    (move : CallMove p id stage shared desk file stage' command) :
    shared.commands.capacity = p.shared.commands.capacity ∧
      shared.work.capacity = p.shared.work.capacity := by
  cases move with
  | enterEvent offered => exact ⟨(Channel.items_of_offer offered).2.1, rfl⟩
  | enterFlush offered => exact ⟨(Channel.items_of_offer offered).2.1, rfl⟩
  | takeReply replied =>
      obtain ⟨replies, rfl⟩ := Shared.eq_of_takeReply? replied
      exact ⟨rfl, rfl⟩
  | halt => exact HaltStep.capacity_apply _ _
  | _ => exact ⟨rfl, rfl⟩

theorem BatcherMove.capacity_eq {b b' : Builder} {s s' : Shared} {stage stage' : BatcherStage}
    {command : Option Command} {c : Option Container}
    (move : BatcherMove b s stage b' stage' s' command c) :
    s'.commands.capacity = s.commands.capacity ∧ s'.work.capacity = s.work.capacity := by
  cases move with
  | obey received => exact ⟨(Channel.items_of_receive received).2.1, rfl⟩
  | handOver offered => exact ⟨rfl, (Channel.items_of_offer offered).2.1⟩
  | _ => exact ⟨rfl, rfl⟩

theorem Completions.capacity_of_send {c c' : Completions} {completion : Completion}
    (h : c.send completion = .accepted c') : c'.capacity = c.capacity := by
  unfold send at h
  split at h
  · cases h
  · split at h <;> cases h
    rfl

theorem WorkerMove.capacity_eq {codec : Codec} {s s' : Shared} {out out' : Completions}
    {w w' : Worker} (move : WorkerMove codec s out w w' s' out') :
    s'.commands.capacity = s.commands.capacity ∧ s'.work.capacity = s.work.capacity ∧
      out'.capacity = out.capacity := by
  cases move with
  | take received => exact ⟨rfl, (Channel.items_of_receive received).2.1, rfl⟩
  | report sent => exact ⟨rfl, rfl, Completions.capacity_of_send sent⟩
  | halt => exact ⟨(HaltStep.capacity_apply _ _).1, (HaltStep.capacity_apply _ _).2, rfl⟩
  | _ => exact ⟨rfl, rfl, rfl⟩

theorem ScribeMove.capacity_eq {w w' : Resequencer} {s s' : Shared} {inbox inbox' : Completions}
    {stage stage' : ScribeStage} {record : Option Record}
    (move : ScribeMove w s inbox stage w' stage' s' inbox' record) :
    s'.commands.capacity = s.commands.capacity ∧ s'.work.capacity = s.work.capacity ∧
      inbox'.capacity = inbox.capacity := by
  cases move with
  | receive listens received =>
      refine ⟨rfl, rfl, ?_⟩
      unfold Completions.receive at received
      split at received
      · cases received
        rfl
      · split at received <;> cases received
  | halt => exact ⟨(HaltStep.capacity_apply _ _).1, (HaltStep.capacity_apply _ _).2, rfl⟩
  | _ => exact ⟨rfl, rfl, rfl⟩

/-- A scribe that ends stops listening. -/
theorem ScribeMove.deaf {w w' : Resequencer} {s s' : Shared} {inbox inbox' : Completions}
    {stage stage' : ScribeStage} {record : Option Record}
    (move : ScribeMove w s inbox stage w' stage' s' inbox' record) (ended : stage' = .finished) :
    inbox'.listening = false := by
  cases move with
  | publishLast flushed => rfl
  | leave stopped => rfl
  | publish goes flushed => cases goes <;> cases ended
  | _ => cases ended

theorem Completions.full_of_send {c : Completions} {completion : Completion}
    (h : c.send completion = .full) : c.listening = true ∧ c.capacity ≤ c.items.length := by
  unfold send at h
  split at h
  · cases h
  · rename_i hlistening
    split at h
    · cases h
    · rename_i hfull
      exact ⟨by simpa using hlistening, Nat.le_of_not_lt hfull⟩

theorem Completions.empty_of_receive {c : Completions} (h : c.receive = .empty) :
    c.senders ≠ 0 ∧ c.items = [] := by
  unfold receive at h
  split at h
  · cases h
  · rename_i hitems
    split at h
    · cases h
    · rename_i hsenders
      exact ⟨hsenders, hitems⟩

/-- A scribe that cannot take a step has ended, or waits for a report. -/
theorem Scribe.waits_of_step? {t : Scribe} {s : Shared} {inbox : Completions}
    (h : t.step? s inbox = none) :
    t.stage = .finished ∨ (t.stage = .waiting ∧ inbox.receive = .empty) := by
  cases hstage : t.stage with
  | finished => exact Or.inl rfl
  | waiting =>
      cases hreceive : inbox.receive with
      | empty => exact Or.inr ⟨rfl, rfl⟩
      | _ => simp [step?, hstage, hreceive] at h
  | polling => cases hreceive : inbox.receive <;> simp [step?, hstage, hreceive] at h
  | handling completion => cases hstopped : s.stopped <;> simp [step?, hstage, hstopped] at h
  | checking =>
      cases hwants : s.progress.wantsFlush t.writer.next <;> simp [step?, hstage, hwants] at h
  | ending => cases hstopped : s.stopped <;> simp [step?, hstage, hstopped] at h
  | flushingLast =>
      rcases hflush : t.writer.flush with ⟨_ | _, w⟩ <;>
        simp [step?, hstage, publish, hflush] at h
  | halting steps => cases steps <;> simp [step?, hstage] at h
  | _ => simp [step?, hstage] at h

theorem Budget.pos_of_mustWait {b : Budget} {bytes : Nat} (h : b.mustWait bytes = true) :
    b.closed = false ∧ 0 < b.inFlight := by
  simp only [mustWait, Bool.and_eq_true, Bool.not_eq_true', decide_eq_true_eq] at h
  exact h.1

namespace Pipeline

variable {p p' : Pipeline} {actor : Actor} {log ms : History}

/-- Every queue has room for one item at least, and nobody listens any more behind the end of the
scribe. -/
structure Roomy (p : Pipeline) : Prop where
  commands : 0 < p.shared.commands.capacity
  work : 0 < p.shared.work.capacity
  completions : 0 < p.completions.capacity
  deaf : p.scribe.stage = .finished → p.completions.listening = false

theorem Roomy.move (h : Roomy p) (move : p.Move actor p' ms) : Roomy p' := by
  obtain ⟨hcommands, hwork, hcompletions, hdeaf⟩ := h
  cases move with
  | call present move =>
      obtain ⟨hc, hw⟩ := move.capacity_eq
      exact ⟨by rwa [shared_moved, hc], by rwa [shared_moved, hw], hcompletions, hdeaf⟩
  | batcher move =>
      obtain ⟨hc, hw⟩ := move.capacity_eq
      exact ⟨by rwa [hc], by rwa [hw], hcompletions, hdeaf⟩
  | worker present move =>
      obtain ⟨hc, hw, ho⟩ := move.capacity_eq
      exact ⟨by rwa [hc], by rwa [hw], by rwa [ho], fun h => move.listening_eq.trans (hdeaf h)⟩
  | scribe move =>
      obtain ⟨hc, hw, ho⟩ := move.capacity_eq
      exact ⟨by rwa [hc], by rwa [hw], by rwa [ho], move.deaf⟩

section

variable {settings : Settings} {sink : Sink} {base : Totals} {origin : Pipeline}

theorem Run.roomy (run : Run origin log p) (queues : 0 < settings.queueSize)
    (opened : Pipeline.start settings sink base = .ok origin) : Roomy p := by
  refine run.invariant (fun _ p => Roomy p) (fresh_of_start opened).idle ?_
    (fun _ _ _ _ _ h _ => ⟨h.1, h.2, h.3, h.4⟩) (fun _ _ _ _ _ _ h move => h.move move)
  obtain ⟨hthreads, rfl⟩ := eq_of_start opened
  have hpos := Nat.pos_of_ne_zero hthreads
  exact ⟨queues, hpos, hpos, by simp [Scribe.start]⟩

end

/-! ### What those wait for who cannot take a step -/

/-- Nobody can take a step. -/
def Stuck (p : Pipeline) : Prop := ∀ actor, p.step? actor = none

/-- Whoever stops the pipeline does not wait. -/
theorem Stuck.halting (stuck : Stuck p) (actor : Actor) : p.halting? actor = none := by
  rw [Option.eq_none_iff_forall_ne_some]
  intro steps hsteps
  have hnone := stuck actor
  cases actor with
  | call id =>
      rw [step?, halting?_call_iff.1 hsteps] at hnone
      cases steps <;> simp [stepCall?] at hnone
  | batcher => cases hsteps
  | worker index =>
      rw [step?, halting?_worker_iff.1 hsteps] at hnone
      cases steps <;> simp [Worker.step?] at hnone
  | scribe =>
      rw [step?, Option.map_eq_none_iff, Scribe.step?, halting?_scribe_iff.1 hsteps] at hnone
      cases steps <;> simp at hnone

/-- The batcher waits for a command, for admission or for room. -/
theorem Stuck.batcher_cases (stuck : Stuck p) :
    p.batcher.stage = .finished ∨
      (p.batcher.stage = .receiving ∧ p.shared.commands.receive = .empty) ∨
      (∃ c after, p.batcher.stage = .admitting c after ∧
        p.shared.budget.mustWait c.length = true) ∨
      ∃ c after, p.batcher.stage = .handing c after ∧ p.shared.work.offer c = .full := by
  have hnone := stuck .batcher
  rw [step?, Option.map_eq_none_iff] at hnone
  cases hstage : p.batcher.stage with
  | finished => exact Or.inl rfl
  | receiving =>
      cases hreceive : p.shared.commands.receive with
      | empty => exact Or.inr (Or.inl ⟨rfl, rfl⟩)
      | _ => simp [Batcher.step?, hstage, hreceive] at hnone
  | admitting c after =>
      cases hwait : p.shared.budget.mustWait c.length with
      | true => exact Or.inr (Or.inr (Or.inl ⟨c, after, rfl, hwait⟩))
      | false =>
          cases hclosed : p.shared.budget.closed <;>
            simp [Batcher.step?, hstage, Budget.acquire?, hwait, hclosed] at hnone
  | handing c after =>
      cases hoffer : p.shared.work.offer c with
      | full => exact Or.inr (Or.inr (Or.inr ⟨c, after, rfl, hoffer⟩))
      | _ => simp [Batcher.step?, hstage, hoffer] at hnone
  | replying ticket => simp [Batcher.step?, hstage] at hnone
  | ending =>
      cases hstopped : p.shared.stopped <;> simp [Batcher.step?, hstage, hstopped] at hnone
  | closingWork => simp [Batcher.step?, hstage] at hnone

/-- A worker waits for a container or for room to report. -/
theorem Stuck.worker_cases (stuck : Stuck p) {w : Worker} (hw : w ∈ p.workers) :
    w = .gone ∨ (w = .idle ∧ p.shared.work.receive = .empty) ∨
      ∃ completion, w = .reporting completion ∧ p.completions.send completion = .full := by
  obtain ⟨index, hindex⟩ := List.mem_iff_getElem?.1 hw
  have hnone := stuck (.worker index)
  rw [step?, hindex, Option.bind_some, Option.map_eq_none_iff] at hnone
  cases w with
  | gone => exact Or.inl rfl
  | idle =>
      cases hreceive : p.shared.work.receive with
      | empty => exact Or.inr (Or.inl ⟨rfl, rfl⟩)
      | _ => simp [Worker.step?, hreceive] at hnone
  | holding c => cases hstopped : p.shared.stopped <;> simp [Worker.step?, hstopped] at hnone
  | compressing c =>
      cases hcomplete : c.complete? p.codec <;> simp [Worker.step?, hcomplete] at hnone
  | reporting completion =>
      cases hsend : p.completions.send completion with
      | full => exact Or.inr (Or.inr ⟨completion, rfl, hsend⟩)
      | _ => simp [Worker.step?, hsend] at hnone
  | crashed steps => cases steps <;> simp [Worker.step?] at hnone

/-- The scribe waits for a report. -/
theorem Stuck.scribe_cases (stuck : Stuck p) :
    p.scribe.stage = .finished ∨
      (p.scribe.stage = .waiting ∧ p.completions.receive = .empty) := by
  have hnone := stuck .scribe
  rw [step?, Option.map_eq_none_iff] at hnone
  exact Scribe.waits_of_step? hnone

/-- **A call that is not over waits** for the desk, for room, for an answer, for a flush, or for the
end of the threads. -/
theorem Stuck.call_cases (stuck : Stuck p) {id : Nat} {stage : CallStage}
    (present : p.stage? id = some stage) :
    (∃ result, stage = .returned result) ∨
      (stage.holdsDesk = false ∧ p.desk.holder.isSome = true) ∨
      (∃ command, stage = .submitting command ∧ p.shared.commands.offer command = .full) ∨
      (stage = .awaitingReply ∧ p.mayReply id = true) ∨
      (∃ target, stage = .awaitingFlush target ∧ p.shared.progress.flushed < target ∧
        p.shared.stopped = false) ∨
      (∃ ending, stage = .joiningBatcher ending ∧ p.batcher.sealedCount? = none) ∨
      ∃ ending sealedCount, stage = .joiningScribe ending sealedCount ∧
        p.scribe.isFinished = false := by
  have hnone := stuck (.call id)
  rw [step?, present, Option.bind_some] at hnone
  cases stage with
  | returned result => exact Or.inl ⟨result, rfl⟩
  | entering request =>
      cases hholder : p.desk.holder.isSome with
      | true => exact Or.inr (Or.inl ⟨rfl, rfl⟩)
      | false =>
          cases hclosed : p.desk.closed <;> cases request <;>
            simp [stepCall?, hholder, hclosed] at hnone
  | checking timestamp payload =>
      cases hfailure : p.shared.failure <;> simp [stepCall?, hfailure] at hnone
  | submitting command =>
      cases hoffer : p.shared.commands.offer command with
      | full => exact Or.inr (Or.inr (Or.inl ⟨command, rfl, hoffer⟩))
      | _ => simp [stepCall?, hoffer] at hnone
  | awaitingReply =>
      cases hreply : p.shared.takeReply? id with
      | some reply => simp [stepCall?, hreply] at hnone
      | none =>
          cases hmay : p.mayReply id with
          | true => exact Or.inr (Or.inr (Or.inr (Or.inl ⟨rfl, rfl⟩)))
          | false => simp [stepCall?, hreply, hmay] at hnone
  | awaitingFlush target =>
      simp only [stepCall?, Option.map_eq_none_iff, Shared.awaitFlushed?] at hnone
      split at hnone
      · cases hnone
      · rename_i hlt
        split at hnone
        · cases hnone
        · rename_i hrunning
          exact Or.inr (Or.inr (Or.inr (Or.inr (Or.inl
            ⟨target, rfl, Nat.lt_of_not_le hlt, by simpa using hrunning⟩))))
  | closingDesk ending =>
      cases hholder : p.desk.holder.isSome with
      | true => exact Or.inr (Or.inl ⟨rfl, rfl⟩)
      | false =>
          cases hclosed : p.desk.closed <;> cases ending <;>
            simp [stepCall?, hholder, hclosed] at hnone
  | joiningBatcher ending =>
      simp only [stepCall?, Option.map_eq_none_iff] at hnone
      exact Or.inr (Or.inr (Or.inr (Or.inr (Or.inr (Or.inl ⟨ending, rfl, hnone⟩)))))
  | joiningScribe ending sealedCount =>
      cases hfinished : p.scribe.isFinished with
      | true => simp [stepCall?, hfinished] at hnone
      | false =>
          exact Or.inr (Or.inr (Or.inr (Or.inr (Or.inr (Or.inr ⟨ending, sealedCount, rfl, rfl⟩)))))
  | halting steps => cases steps <;> simp [stepCall?] at hnone
  | _ => simp [stepCall?] at hnone

/-! ### Stuck pipelines -/

/-- Workers do not wait for room to report: either the scribe takes reports, or it does not listen
any more. -/
theorem Stuck.worker_idle (stuck : Stuck p) (roomy : Roomy p) {w : Worker} (hw : w ∈ p.workers) :
    w = .gone ∨ (w = .idle ∧ p.shared.work.closed = false ∧ p.shared.work.items = []) := by
  rcases stuck.worker_cases hw with rfl | ⟨rfl, hreceive⟩ | ⟨completion, -, hsend⟩
  · exact Or.inl rfl
  · exact Or.inr ⟨rfl, Channel.empty_of_receive hreceive⟩
  · exfalso
    obtain ⟨hlistening, hfull⟩ := Completions.full_of_send hsend
    have hcapacity := roomy.completions
    rcases stuck.scribe_cases with hended | ⟨-, hreceive⟩
    · rw [roomy.deaf hended] at hlistening
      cases hlistening
    · rw [(Completions.empty_of_receive hreceive).2, List.length_nil] at hfull
      omega

/-- When the work channel is closed, the scribe has ended. -/
theorem Stuck.scribe_finished (stuck : Stuck p) (roomy : Roomy p)
    (senders : p.completions.senders = p.workers.countP (·.isConnected))
    (closed : p.shared.work.closed = true) : p.scribe.stage = .finished := by
  rcases stuck.scribe_cases with hended | ⟨-, hreceive⟩
  · exact hended
  · refine absurd ?_ (Completions.empty_of_receive hreceive).1
    rw [senders, List.countP_eq_zero]
    intro w hw
    rcases stuck.worker_idle roomy hw with rfl | ⟨-, hopen, -⟩
    · simp [Worker.isConnected]
    · rw [closed] at hopen
      cases hopen

/-- **Every call is over**, if no command waits, the batcher owes no answer, nobody waits for a
flush in vain, and whoever waits for the end of a thread is told of it. -/
theorem Stuck.returned (stuck : Stuck p) (atDesk : AtDesk p) (roomy : Roomy p)
    (empty : p.shared.commands.items = []) (answered : ∀ ticket, p.batcher.owes ticket = false)
    (flushed : p.shared.stopped = false → ∀ id target,
      p.stage? id = some (.awaitingFlush target) → target ≤ p.shared.progress.flushed)
    (batcher : ∀ id ending, p.stage? id = some (.joiningBatcher ending) →
      p.batcher.sealedCount? ≠ none)
    (scribe : ∀ id ending sealedCount, p.stage? id = some (.joiningScribe ending sealedCount) →
      p.scribe.isFinished = true) {id : Nat} {stage : CallStage}
    (present : p.stage? id = some stage) : ∃ result, stage = .returned result := by
  have hroom (command : Command) : p.shared.commands.offer command ≠ .full := fun hfull => by
    have hlen := (Channel.full_of_offer hfull).2
    have hcapacity := roomy.commands
    rw [empty, List.length_nil] at hlen
    omega
  have hmay (ticket : Nat) : p.mayReply ticket = false := by simp [mayReply, empty, answered]
  -- whoever holds the desk would wait for room
  have hfree : p.desk.holder.isSome = false := by
    cases hholder : p.desk.holder with
    | none => rfl
    | some holder =>
        obtain ⟨stage', hstage', hholds⟩ := (atDesk.holder_iff holder).1 hholder
        rcases stuck.call_cases hstage' with ⟨result, rfl⟩ | ⟨hnot, -⟩ | ⟨command, -, hfull⟩ |
          ⟨rfl, -⟩ | ⟨target, rfl, -⟩ | ⟨ending, rfl, -⟩ | ⟨ending, n, rfl, -⟩
        · cases hholds
        · rw [hholds] at hnot
          cases hnot
        · exact absurd hfull (hroom command)
        all_goals cases hholds
  rcases stuck.call_cases present with hover | ⟨-, hholder⟩ | ⟨command, -, hfull⟩ | ⟨rfl, hreply⟩ |
    ⟨target, rfl, hlt, hrunning⟩ | ⟨ending, rfl, hgoing⟩ | ⟨ending, n, rfl, hgoing⟩
  · exact hover
  · rw [hfree] at hholder
    cases hholder
  · exact absurd hfull (hroom command)
  · rw [hmay] at hreply
    cases hreply
  · have := flushed hrunning id target present
    omega
  · exact absurd hgoing (batcher id ending present)
  · rw [scribe id ending n present] at hgoing
    cases hgoing

/-- What nobody stops is calm, if nobody can take a step. -/
theorem Stuck.calm (stuck : Stuck p) (running : p.shared.stopped = false) : Calm p := by
  refine ⟨running, fun actor steps hsteps => ?_⟩
  rw [stuck.halting actor] at hsteps
  cases hsteps

/-- When the batcher has ended and no more commands come, everyone has ended but those who wait for
a flush. -/
theorem Stuck.returned_of_finished (stuck : Stuck p) (atDesk : AtDesk p) (roomy : Roomy p)
    (senders : p.completions.senders = p.workers.countP (·.isConnected))
    (ended : p.batcher.stage = .finished) (empty : p.shared.commands.items = [])
    (closed : p.shared.work.closed = true)
    (flushed : p.scribe.stage = .finished → p.shared.stopped = false → ∀ id target,
      p.stage? id = some (.awaitingFlush target) → target ≤ p.shared.progress.flushed)
    {id : Nat} {stage : CallStage} (present : p.stage? id = some stage) :
    ∃ result, stage = .returned result := by
  have hscribe := stuck.scribe_finished roomy senders closed
  refine stuck.returned atDesk roomy empty (fun ticket => ?_) (flushed hscribe) ?_ ?_ present
  · simp [Batcher.owes, ended]
  · simp [Batcher.sealedCount?, ended]
  · exact fun _ _ _ _ => Scribe.isFinished_iff.2 hscribe

section

variable {settings : Settings} {sink : Sink} {base : Totals} {origin : Pipeline}

/-- In a stuck pipeline that nobody stops, no container waits for a worker. -/
theorem Stuck.work_empty (stuck : Stuck p) (roomy : Roomy p) (intact : Intact log p)
    (staffed : p.workers ≠ []) : p.shared.work.items = [] := by
  obtain ⟨w, hw⟩ := List.exists_mem_of_ne_nil _ staffed
  rcases stuck.worker_idle roomy hw with rfl | ⟨-, -, hempty⟩
  · exact (intact.gone _ hw rfl).2.2
  · exact hempty

/-- So the batcher does not wait for room. -/
theorem Stuck.batcher_waits (stuck : Stuck p) (roomy : Roomy p) (intact : Intact log p)
    (staffed : p.workers ≠ []) :
    p.batcher.stage = .finished ∨
      (p.batcher.stage = .receiving ∧ p.shared.commands.receive = .empty) ∨
      ∃ c after, p.batcher.stage = .admitting c after ∧
        p.shared.budget.mustWait c.length = true := by
  rcases stuck.batcher_cases with hended | hreceiving | hadmitting | ⟨c, after, -, hfull⟩
  · exact Or.inl hended
  · exact Or.inr (Or.inl hreceiving)
  · exact Or.inr (Or.inr hadmitting)
  · have hlen := (Channel.full_of_offer hfull).2
    have hcapacity := roomy.work
    rw [stuck.work_empty roomy intact staffed, List.length_nil] at hlen
    omega

/-- In a stuck pipeline that nobody stops, all that was sealed has arrived, up to what waits to be
admitted. -/
theorem Stuck.underway_eq (stuck : Stuck p) (roomy : Roomy p) (intact : Intact log p)
    (staffed : p.workers ≠ []) :
    p.underway = (p.batcher.stage.unadmitted : Multiset Container).map (·.complete? p.codec) ∧
      p.scribe.stage.isResting = true ∧ p.scribe.stage.owed = 0 := by
  have hloads : p.workers.flatMap (·.load p.codec) = [] := by
    refine List.flatMap_eq_nil_iff.2 fun w hw => ?_
    rcases stuck.worker_idle roomy hw with rfl | ⟨rfl, -⟩ <;> rfl
  have hscribe : p.completions.items = [] ∧ p.scribe.stage.hand = [] ∧
      p.scribe.stage.isResting = true ∧ p.scribe.stage.owed = 0 := by
    rcases stuck.scribe_cases with hended | ⟨hwaiting, hreceive⟩
    · refine ⟨(intact.ended (by rw [hended]; rfl)).2, ?_, ?_, ?_⟩ <;> rw [hended] <;> rfl
    · refine ⟨(Completions.empty_of_receive hreceive).2, ?_, ?_, ?_⟩ <;> rw [hwaiting] <;> rfl
  have hhand : p.batcher.stage.hand = p.batcher.stage.unadmitted := by
    rcases stuck.batcher_waits roomy intact staffed with hstage | ⟨hstage, -⟩ |
      ⟨c, after, hstage, -⟩ <;> rw [hstage] <;> rfl
  refine ⟨?_, hscribe.2.2⟩
  rw [underway, unclaimed, reported, stuck.work_empty roomy intact staffed, hloads, hscribe.1,
    hscribe.2.1, hhand]
  simp

/-- **A pipeline that nobody stops does not get stuck** while a call is not over. -/
theorem Stuck.returned_of_running (stuck : Stuck p) (run : Run origin log p)
    (opened : Pipeline.start settings sink base = .ok origin) (roomy : Roomy p)
    (running : p.shared.stopped = false) {id : Nat} {stage : CallStage}
    (present : p.stage? id = some stage) : ∃ result, stage = .returned result := by
  have calm := stuck.calm running
  have intact := run.intact opened calm
  have atDesk := (run.served (fresh_of_start opened)).atDesk
  have senders := run.senders_of_start opened
  have staffed := run.staffed_of_start opened
  have joined := run.joined_of_start opened
  have batched := run.batched_of_start opened
  obtain ⟨written, admitted, ledger⟩ := run.ledger opened calm
  obtain ⟨hunderway, hresting, howed⟩ := stuck.underway_eq roomy intact staffed
  obtain ⟨-, hnext, hidle⟩ := ledger.settled batched base.containers.toNat_lt intact.kept hunderway
  -- who waits for a flush waits for what is in the file, unless a container waits to be admitted
  have hflushed (hnone : p.batcher.stage.unadmitted = []) (id target : Nat)
      (hstage : p.stage? id = some (.awaitingFlush target)) :
      target ≤ p.shared.progress.flushed := by
    have htarget := ((run.targets opened).words id _ target hstage rfl).le_sealedCount
    have hcount := batched.numbers.2.1
    rw [ledger.sealed_eq, hnone, List.append_nil, ← hnext] at hcount
    have hle : target ≤ p.batcher.builder.sealedCount := by
      rcases batched.made with ⟨-, hbuilder, -⟩ | ⟨-, -, hbuilder⟩
      · rwa [hbuilder]
      · rw [hbuilder]
        exact htarget.trans (Builder.sealedCount_le_sealCurrent _)
    rcases (run.published opened).resting hresting with hstopped | hpublished
    · rw [running] at hstopped
      cases hstopped
    · omega
  rcases stuck.batcher_waits roomy intact staffed with hended | ⟨hreceiving, hreceive⟩ |
    ⟨c, after, -, hwait⟩
  · have hpast := intact.past (by rw [hended]; rfl)
    exact stuck.returned_of_finished atDesk roomy senders hended hpast.2 (joined.work hended)
      (fun _ _ => hflushed (by rw [hended]; rfl)) present
  · obtain ⟨hopen, hempty⟩ := Channel.empty_of_receive hreceive
    refine stuck.returned atDesk roomy hempty (fun ticket => ?_)
      (fun _ => hflushed (by rw [hreceiving]; rfl)) (fun id ending hjoining => ?_)
      (fun id ending n hjoining => ?_) present
    · simp [Batcher.owes, hreceiving]
    · -- who joins the batcher has closed the channel
      rw [run.leaving opened id _ hjoining rfl] at hopen
      cases hopen
    · have hcount := joined.batcher id ending n hjoining
      rw [Batcher.sealedCount?_eq_some_iff, hreceiving] at hcount
      cases hcount.1
  · -- nothing is in flight, so that nobody waits for admission
    have hflight := (Budget.pos_of_mustWait hwait).2
    omega

/-- **A pipeline that is to stop does not get stuck** either. -/
theorem Stuck.returned_of_stopped (stuck : Stuck p) (run : Run origin log p)
    (opened : Pipeline.start settings sink base = .ok origin) (roomy : Roomy p)
    (stopped : p.shared.stopped = true) {id : Nat} {stage : CallStage}
    (present : p.stage? id = some stage) : ∃ result, stage = .returned result := by
  have hdone := (run.stopping opened).halted stopped stuck.halting
  obtain ⟨hcommands, hempty⟩ := hdone .discardCommands (by simp [haltSteps])
  obtain ⟨hwork, -⟩ := hdone .discardWork (by simp [haltSteps])
  have hbudget := hdone .closeBudget (by simp [haltSteps])
  have hended : p.batcher.stage = .finished := by
    rcases stuck.batcher_cases with hended | ⟨-, hreceive⟩ | ⟨c, after, -, hwait⟩ |
      ⟨c, after, -, hfull⟩
    · exact hended
    · rw [(Channel.empty_of_receive hreceive).1] at hcommands
      cases hcommands
    · rw [HaltStep.Done, (Budget.pos_of_mustWait hwait).1] at hbudget
      cases hbudget
    · rw [(Channel.full_of_offer hfull).1] at hwork
      cases hwork
  refine stuck.returned_of_finished (run.served (fresh_of_start opened)).atDesk roomy
    (run.senders_of_start opened) hended hempty hwork (fun _ running => ?_) present
  rw [stopped] at running
  cases running

/-- A pipeline does not get stuck while a call is not over. -/
theorem Run.not_stuck (run : Run origin log p) (queues : 0 < settings.queueSize)
    (opened : Pipeline.start settings sink base = .ok origin) {id : Nat} {stage : CallStage}
    (present : p.stage? id = some stage) (pending : ∀ result, stage ≠ .returned result) :
    ∃ actor p', p.step? actor = some p' := by
  have roomy := run.roomy queues opened
  by_contra hnobody
  have stuck : Stuck p := fun actor =>
    Option.eq_none_iff_forall_ne_some.2 fun p' hstep => hnobody ⟨actor, p', hstep⟩
  have hover : ∃ result, stage = .returned result := by
    cases hstopped : p.shared.stopped with
    | true => exact stuck.returned_of_stopped run opened roomy hstopped present
    | false => exact stuck.returned_of_running run opened roomy hstopped present
  obtain ⟨result, hresult⟩ := hover
  exact pending result hresult

end

end Pipeline

end TraceLog
