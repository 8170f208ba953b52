/-
**Every call comes to its end.**

Nobody is served in turn: any thread and any call that does not have to wait may take the next step,
and one of them may take all of them.  Yet nothing can go on for ever.  Every command, every
container and every report that waits somewhere costs the one who takes it a limited number of
steps, and every stage of a thread or of a call is followed by a limited number of others; so there
is an effort that every step makes smaller.  As somebody can take a step while a call is not over,
every call is over in the end, in whichever order the steps are taken, unless somebody new keeps
calling.

Main definitions:

* `Pipeline.effort` — how many steps are left to be taken at most;
* `Pipeline.Inevitable` — what happens in whichever order the steps are taken.

Main results:

* `Pipeline.Move.effort_lt` — **every step makes the effort smaller**;
* `Pipeline.Inevitable.exists_run` — what is inevitable can be brought about;
* `Pipeline.Run.returns` — **every call is over in the end**.
-/

import TraceLog.Proofs.Liveness

set_option relaxedAutoImplicit false
set_option autoImplicit false

namespace TraceLog

/-! ### The effort that is left

A report weighs 7, which brings the scribe back to where it waits for the next one; a container
weighs 11, which a worker needs with the report that it makes; and a command weighs 15, which the
batcher needs with the container that it may seal. -/

/-- The effort of a call behind a stage.  To submit a command costs the steps that the command costs
the threads as well. -/
def CallStage.effort : CallStage → Nat
  | .entering _ => 21
  | .checking _ _ => 20
  | .submitting _ => 19
  | .awaitingReply => 3
  | .leavingWord _ => 2
  | .refused | .awaitingFlush _ | .unanswered => 1
  | .halting steps => steps.length + 6
  | .closingDesk _ => 5
  | .closingCommands => 4
  | .joiningBatcher _ => 3
  | .joiningScribe _ _ => 2
  | .concluding _ _ => 1
  | .returned _ => 0

/-- The effort that the batcher has with a container before it looks at the next command. -/
def AfterHandover.effort : AfterHandover → Nat
  | .receive => 28
  | .reply _ => 29
  | .finish => 13

/-- The effort of the batcher behind a stage. -/
def BatcherStage.effort : BatcherStage → Nat
  | .receiving => 16
  | .admitting _ after => after.effort + 1
  | .handing _ after => after.effort
  | .replying _ => 17
  | .ending => 15
  | .closingWork => 1
  | .finished => 0

@[simp] theorem BatcherStage.effort_receiving : receiving.effort = 16 := rfl

@[simp] theorem BatcherStage.effort_admitting (c : Container) (after : AfterHandover) :
    (admitting c after).effort = after.effort + 1 := rfl

@[simp] theorem BatcherStage.effort_handing (c : Container) (after : AfterHandover) :
    (handing c after).effort = after.effort := rfl

/-- The effort of a worker, that of the scribe with its report included. -/
def Worker.effort : Worker → Nat
  | .idle => 1
  | .holding _ => 11
  | .compressing _ => 10
  | .reporting _ => 9
  | .crashed steps => steps.length + 1
  | .gone => 0

@[simp] theorem Worker.effort_crashed (steps : List HaltStep) :
    (crashed steps).effort = steps.length + 1 := rfl

/-- The effort of the scribe behind a stage.  It flushes for the last time unless the pipeline is to
stop. -/
def ScribeStage.effort (stopped : Bool) : ScribeStage → Nat
  | .polling => 12
  | .flushingIdle => 11
  | .waiting => 10
  | .handling _ => 16
  | .releasing _ => 15
  | .checking => 14
  | .flushingOnRequest => 13
  | .ending => if stopped then 1 else 9
  | .flushingLast => 8
  | .halting steps => steps.length + 2
  | .finished => 0

/-- The effort with what waits in the channels. -/
def Shared.effort (s : Shared) : Nat := 15 * s.commands.items.length + 11 * s.work.items.length

/-- The effort with what waits for the scribe. -/
def Completions.effort (c : Completions) : Nat := 7 * c.items.length

/-! ### What one move does -/

theorem HaltStep.effort_apply (step : HaltStep) (s : Shared) :
    (step.apply s).effort ≤ s.effort := by
  cases step <;> simp [apply, Shared.effort, Channel.discard]

/-- A call goes on to a stage from which less is left. -/
theorem CallMove.effort_lt {p : Pipeline} {id : Nat} {stage stage' : CallStage} {shared : Shared}
    {desk : Desk} {file : Option Sink} {command : Option Command}
    (move : CallMove p id stage shared desk file stage' command) :
    shared.effort + stage'.effort < p.shared.effort + stage.effort := by
  cases move with
  | enterEvent offered =>
      simp only [Shared.effort, (Channel.items_of_offer offered).1, List.length_append,
        List.length_singleton, CallStage.effort]
      omega
  | enterFlush offered =>
      simp only [Shared.effort, (Channel.items_of_offer offered).1, List.length_append,
        List.length_singleton, CallStage.effort]
      omega
  | takeReply replied =>
      obtain ⟨replies, rfl⟩ := Shared.eq_of_takeReply? replied
      simp [Shared.effort, CallStage.effort]
  | halt =>
      rename_i step steps
      have hle := step.effort_apply p.shared
      simp only [CallStage.effort, List.length_cons]
      omega
  | _ => simp [Shared.effort, CallStage.effort, Channel.close]

/-- With what is left to do behind a container, it costs more than the container costs the
workers. -/
theorem AfterHandover.effort_stage (after : AfterHandover) :
    after.stage.effort + 11 < after.effort ∧ after.stageOnRefusal.effort < after.effort := by
  cases after <;> simp [stage, stageOnRefusal, effort, BatcherStage.effort]

/-- The batcher looks at the next command at once, if nothing was sealed. -/
theorem Batcher.effort_submitting (done : Option Container) (after : AfterHandover) :
    (submitting done after).effort ≤ after.effort + 1 := by
  cases done with
  | some c => exact Nat.le_refl _
  | none =>
      have hafter := after.effort_stage
      simp only [submitting]
      omega

/-- The batcher goes on to a stage from which less is left. -/
theorem BatcherMove.effort_lt {b b' : Builder} {s s' : Shared} {stage stage' : BatcherStage}
    {command : Option Command} {c : Option Container}
    (move : BatcherMove b s stage b' stage' s' command c) :
    s'.effort + stage'.effort < s.effort + stage.effort := by
  cases move with
  | obey received =>
      rename_i command commands
      have hle := Batcher.effort_submitting (b.obey command).1 (Batcher.afterwards command)
      have hafter : (Batcher.afterwards command).effort ≤ 29 := by
        cases command <;> simp [Batcher.afterwards, AfterHandover.effort]
      simp only [Shared.effort, (Channel.items_of_receive received).1, List.length_cons,
        BatcherStage.effort_receiving]
      omega
  | refuseAdmission acquired =>
      rename_i c after budget
      have hafter := after.effort_stage
      simp only [Shared.effort, BatcherStage.effort_admitting]
      omega
  | handOver offered =>
      rename_i c after work
      have hafter := after.effort_stage
      simp only [Shared.effort, (Channel.items_of_offer offered).1, List.length_append,
        List.length_singleton, BatcherStage.effort_handing]
      omega
  | refuseWork offered =>
      rename_i c after
      have hafter := after.effort_stage
      rw [BatcherStage.effort_handing]
      omega
  | sealLast running =>
      have hle := Batcher.effort_submitting b.sealCurrent.1 .finish
      simp only [AfterHandover.effort, BatcherStage.effort] at hle ⊢
      omega
  | _ => simp [Shared.effort, Shared.reply, BatcherStage.effort, Channel.close]

theorem Worker.effort_halting (steps : List HaltStep) :
    (halting steps).effort ≤ steps.length + 1 := by
  cases steps with
  | nil => exact Nat.zero_le _
  | cons step steps => exact Nat.le_refl _

/-- A worker goes on to a stage from which less is left. -/
theorem WorkerMove.effort_lt {codec : Codec} {s s' : Shared} {out out' : Completions}
    {w w' : Worker} (move : WorkerMove codec s out w w' s' out') :
    s'.effort + out'.effort + w'.effort < s.effort + out.effort + w.effort := by
  cases move with
  | take received =>
      simp only [Shared.effort, (Channel.items_of_receive received).1, List.length_cons,
        Worker.effort]
      omega
  | report sent =>
      simp only [Completions.effort, (Completions.items_of_send sent).1, List.length_append,
        List.length_singleton, Worker.effort]
      omega
  | halt =>
      rename_i step steps
      have hle := step.effort_apply s
      have hsteps := Worker.effort_halting steps
      rw [Worker.effort_crashed, List.length_cons]
      omega
  | _ => simp [Completions.effort, Completions.hangUp, Worker.effort, Worker.crashSteps, failSteps,
      haltSteps]

/-- A flag that is raised leaves the scribe less to do. -/
theorem ScribeStage.effort_le {stopped stopped' : Bool}
    (raised : stopped = true → stopped' = true) (stage : ScribeStage) :
    stage.effort stopped' ≤ stage.effort stopped := by
  cases stage with
  | ending => cases stopped <;> cases stopped' <;> simp_all [effort]
  | _ => exact Nat.le_refl _

/-- The scribe goes on to a stage from which less is left.  Who has come to the end of stopping the
pipeline finds the flag raised. -/
theorem ScribeMove.effort_lt {w w' : Resequencer} {s s' : Shared} {inbox inbox' : Completions}
    {stage stage' : ScribeStage} {record : Option Record}
    (move : ScribeMove w s inbox stage w' stage' s' inbox' record)
    (halted : stage = .halting [] → s.stopped = true) :
    s'.effort + inbox'.effort + stage'.effort s'.stopped <
      s.effort + inbox.effort + stage.effort s.stopped := by
  cases move with
  | receive listens received =>
      cases listens <;>
        simp only [Completions.effort, (Completions.items_of_receive received).1, List.length_cons,
          ScribeStage.effort] <;>
        omega
  | disconnected listens received =>
      cases listens <;> cases s.stopped <;> simp [ScribeStage.effort]
  | publish goes flushed => cases goes <;> simp [Shared.effort, ScribeStage.effort]
  | flushFailed flushes flushed =>
      cases flushes <;> simp [ScribeStage.effort, failSteps, haltSteps]
  | halt =>
      rename_i step steps
      have hle := step.effort_apply s
      simp only [ScribeStage.effort, List.length_cons]
      omega
  | halted => simp [ScribeStage.effort, halted rfl]
  | drop stopped => simp [ScribeStage.effort, stopped]
  | leave stopped =>
      simp only [ScribeStage.effort, stopped, Completions.effort, Completions.ignore,
        List.length_nil, if_true]
      omega
  | last running => simp [ScribeStage.effort, running]
  | publishLast flushed =>
      simp only [Shared.effort, ScribeStage.effort, Completions.effort, Completions.ignore,
        List.length_nil]
      omega
  | _ => simp [Shared.effort, ScribeStage.effort, failSteps, haltSteps]

namespace Pipeline

variable {origin p p' : Pipeline} {actor : Actor} {log ms : History} {id : Nat}

/-! ### The effort of a pipeline -/

/-- How many steps are left to be taken at most. -/
def effort (p : Pipeline) : Nat :=
  p.shared.effort + p.completions.effort + p.batcher.stage.effort +
    p.scribe.stage.effort p.shared.stopped + (p.workers.map (·.effort)).sum +
    (p.calls.map (·.2.effort)).sum

/-- No ticket is given to two calls. -/
def Ticketed (p : Pipeline) : Prop := (p.calls.map (·.1)).Nodup

/-- Somebody who calls is given a ticket that nobody has. -/
theorem Ticketed.arrive (h : Ticketed p) (fresh : p.stage? id = none) (request : Request) :
    Ticketed (p.arrive id request) := by
  rw [stage?] at fresh
  exact Entries.nodup_enrol h fresh request.stage

theorem Ticketed.move (h : Ticketed p) (move : p.Move actor p' ms) : Ticketed p' := by
  cases move with
  | call present move =>
      rw [Ticketed, moved, setStage, Entries.keys_assign]
      exact h
  | _ => exact h

theorem Run.ticketed (run : Run origin log p) (idle : origin.calls = []) : Ticketed p :=
  run.invariant (fun _ p => Ticketed p) idle (by simp [Ticketed, idle])
    (fun _ _ _ request _ h fresh => h.arrive fresh request) (fun _ _ _ _ _ _ h move => h.move move)

/-- **Every step makes the effort smaller.** -/
theorem Move.effort_lt (ticketed : Ticketed p) (stopping : Stopping p) (move : p.Move actor p' ms) :
    p'.effort < p.effort := by
  have hscribe := ScribeStage.effort_le move.shuts.stopped p.scribe.stage
  cases move with
  | call present move =>
      rename_i id stage stage' shared desk file command
      have hcalls := Entries.sum_assign ticketed present CallStage.effort stage'
      have hlt := move.effort_lt
      simp only [effort, moved, setStage] at hscribe ⊢
      omega
  | batcher move =>
      have hlt := move.effort_lt
      simp only [effort] at hscribe ⊢
      omega
  | worker present move =>
      rename_i index w w' shared completions
      obtain ⟨front, behind, hworkers, hset⟩ := exists_append_of_getElem? present
      have hsum : ((p.workers.set index w').map (·.effort)).sum + w.effort =
          (p.workers.map (·.effort)).sum + w'.effort := by
        rw [hset, hworkers]
        simp only [List.map_append, List.map_cons, List.sum_append, List.sum_cons]
        omega
      have hlt := move.effort_lt
      simp only [effort] at hscribe ⊢
      omega
  | scribe move =>
      have hlt := move.effort_lt fun hstage =>
        stopping.done_of_nil (halting?_scribe_iff.2 hstage) .raiseFlag List.mem_cons_self
      simp only [effort]
      omega

/-! ### What cannot be put off -/

/-- Something happens in whichever order the steps are taken: it is so already, or somebody can take
a step and behind every step it is inevitable. -/
inductive Inevitable (goal : Pipeline → Prop) : Pipeline → Prop where
  | now {p : Pipeline} (reached : goal p) : Inevitable goal p
  | later {p : Pipeline} (goes : ∃ actor p', p.step? actor = some p')
      (behind : ∀ actor p', p.step? actor = some p' → Inevitable goal p') : Inevitable goal p

/-- What is inevitable can be brought about. -/
theorem Inevitable.exists_run {goal : Pipeline → Prop} (h : Inevitable goal p) :
    ∃ log p', Run p log p' ∧ goal p' := by
  induction h with
  | now reached => exact ⟨_, _, .start, reached⟩
  | later goes _ ih =>
      obtain ⟨actor, p', stepped⟩ := goes
      obtain ⟨log, p'', run, hgoal⟩ := ih actor p' stepped
      exact ⟨_, p'', (Run.start.step stepped).append run, hgoal⟩

section

variable {settings : Settings} {sink : Sink} {base : Totals}

/-- A step makes the effort smaller, in every run from a newly opened file. -/
theorem Run.effort_lt (run : Run origin log p)
    (opened : Pipeline.start settings sink base = .ok origin) (stepped : p.step? actor = some p') :
    p'.effort < p.effort := by
  have idle := (fresh_of_start opened).idle
  exact (move_of_step? (run.orderly idle) stepped).effort_lt (run.ticketed idle)
    (run.stopping opened)

/-- **Every call is over in the end**, in whichever order the steps are taken. -/
theorem Run.returns (run : Run origin log p) (queues : 0 < settings.queueSize)
    (opened : Pipeline.start settings sink base = .ok origin) {request : Request}
    (asked : .asked id request ∈ log) :
    Inevitable (fun p => ∃ result, p.stage? id = some (.returned result)) p := by
  -- on the effort that is left
  induction hn : p.effort using Nat.strongRecOn generalizing log p with
  | ind n ih =>
      subst hn
      have callers := (run.served (fresh_of_start opened)).callers
      obtain ⟨stage, present⟩ := Option.ne_none_iff_exists'.1 (callers.present id request asked)
      by_cases hover : ∃ result, stage = .returned result
      · obtain ⟨result, rfl⟩ := hover
        exact .now ⟨result, present⟩
      · refine .later (run.not_stuck queues opened present fun result hresult =>
          hover ⟨result, hresult⟩) fun actor p' stepped => ?_
        exact ih _ (run.effort_lt opened stepped) (run.step stepped)
          (List.mem_append_left _ asked) rfl

end

end Pipeline

end TraceLog
