/-
**How a pipeline is stopped.**

Someone who aborts, a worker whose codec has crashed, or the scribe that has met an error stops the
pipeline step by step, while all others go on; several may do so at once.  What one step of stopping
brings about is never undone, so whoever has come to the end of the steps has left a pipeline in
which nothing waits any more.  As long as neither a worker nor the scribe stops the pipeline and the
flag is not raised, the pipeline is calm: nobody has seen yet that it is to stop.

Main definitions:

* `HaltStep.Done` — what a step of stopping brings about;
* `Scribe.Fails` — what makes the scribe stop the pipeline;
* `Pipeline.halting?` — the steps of stopping that someone has still to take;
* `Pipeline.Begins` — why someone begins to stop the pipeline;
* `Pipeline.Stopping` — the invariant: those who are stopping the pipeline have taken the steps
  before these, and a pipeline that is to stop is being stopped or has been stopped;
* `Pipeline.Barred`, `Pipeline.Heard` — nothing is closed without a reason; no command is dropped;
* `Pipeline.Calm` — nobody has seen yet that the pipeline is to stop.

Main results:

* `Pipeline.Move.halting_cases` — **what a step does to those who stop the pipeline**;
* `Pipeline.Run.stopping`, `Pipeline.Run.barred` — the invariants hold at the end of every run;
* `Pipeline.Run.failure_of_stopped` — if nobody aborts, a pipeline that is to stop has failed;
* `Pipeline.Run.heard` — **no command is dropped before the pipeline is to stop**;
* `Pipeline.Stopping.halted` — **when nobody is at it any more, the pipeline has been stopped**;
* `Pipeline.Calm.of_move`, `Pipeline.Calm.idle` — what is calm was calm before.
-/

import TraceLog.Proofs.Pipeline.Endings

set_option relaxedAutoImplicit false
set_option autoImplicit false

namespace TraceLog

/-! ### Steps of stopping -/

/-- What a step of stopping brings about. -/
def HaltStep.Done (s : Shared) : HaltStep → Prop
  | .record _ => s.failure.isSome = true
  | .raiseFlag => s.stopped = true
  | .discardCommands => s.commands.closed = true ∧ s.commands.items = []
  | .discardWork => s.work.closed = true ∧ s.work.items = []
  | .closeBudget => s.budget.closed = true

theorem HaltStep.done_apply (step : HaltStep) (s : Shared) : step.Done (step.apply s) := by
  cases step <;> simp [Done, apply, Channel.discard, Budget.close]

/-- An error that was recorded stays. -/
theorem HaltStep.failure_apply (step : HaltStep) {s : Shared} {error : Error}
    (h : s.failure = some error) : (step.apply s).failure = some error := by
  cases step <;> simp [apply, h]

theorem HaltStep.budget_apply (step : HaltStep) {s : Shared} (h : s.budget.closed = true) :
    (step.apply s).budget.closed = true := by
  cases step <;> first | exact h | rfl

/-- The program of someone who stops the pipeline: calls do so without an error, all others with
one. -/
def HaltStep.Program (actor : Actor) (steps : List HaltStep) : Prop :=
  (∃ id, actor = .call id) ∧ steps = haltSteps ∨
    (∀ id, actor ≠ .call id) ∧ ∃ error, steps = failSteps error

/-- Every program has all the steps of stopping a pipeline. -/
theorem HaltStep.Program.subset {actor : Actor} {steps : List HaltStep} (h : Program actor steps) :
    ∀ step ∈ haltSteps, step ∈ steps := by
  intro step hstep
  rcases h with ⟨-, rfl⟩ | ⟨-, error, rfl⟩
  · exact hstep
  · exact List.mem_cons_of_mem _ hstep

/-- The flag is raised before anything is closed, and an error is recorded before that. -/
theorem HaltStep.Program.cases {actor : Actor} {front back : List HaltStep} {step : HaltStep}
    (h : Program actor (front ++ step :: back)) :
    (∃ error, step = .record error) ∨
      (step = .raiseFlag ∧ ((∃ id, actor = .call id) ∨ ∃ error, .record error ∈ front)) ∨
      .raiseFlag ∈ front := by
  rcases h with ⟨hcall, h⟩ | ⟨-, error, h⟩
  · rcases front with _ | ⟨a, front⟩
    · simp only [List.nil_append, haltSteps, List.cons.injEq] at h
      exact Or.inr (Or.inl ⟨h.1, Or.inl hcall⟩)
    · simp only [List.cons_append, haltSteps, List.cons.injEq] at h
      exact Or.inr (Or.inr (h.1 ▸ List.mem_cons_self))
  · rcases front with _ | ⟨a, _ | ⟨b, front⟩⟩
    · simp only [List.nil_append, failSteps, List.cons.injEq] at h
      exact Or.inl ⟨error, h.1⟩
    · simp only [List.cons_append, List.nil_append, failSteps, haltSteps, List.cons.injEq] at h
      exact Or.inr (Or.inl ⟨h.2.1, Or.inr ⟨error, h.1 ▸ List.mem_cons_self⟩⟩)
    · simp only [List.cons_append, failSteps, haltSteps, List.cons.injEq] at h
      exact Or.inr (Or.inr (h.2.1 ▸ List.mem_cons_of_mem _ List.mem_cons_self))

/-! ### What one move does -/

/-- A call goes on with stopping the pipeline, comes to the end of that, or has nothing to do with
it. -/
theorem CallMove.halting_cases {p : Pipeline} {id : Nat} {stage stage' : CallStage}
    {shared : Shared} {desk : Desk} {file : Option Sink} {command : Option Command}
    (move : CallMove p id stage shared desk file stage' command) :
    (p.shared.Undisturbed shared ∧ (∀ steps, stage ≠ .halting steps) ∧
        ∀ steps, stage' ≠ .halting steps) ∨
      (∃ step steps, stage = .halting (step :: steps) ∧ shared = step.apply p.shared ∧
        stage' = .halting steps) ∨
      (stage = .halting [] ∧ shared = p.shared ∧ stage' = .closingDesk .truncated) := by
  cases move with
  | halt => exact Or.inr (Or.inl ⟨_, _, rfl, rfl, rfl⟩)
  | halted => exact Or.inr (Or.inr ⟨rfl, rfl, rfl⟩)
  | takeReply replied =>
      obtain ⟨replies, rfl⟩ := Shared.eq_of_takeReply? replied
      exact Or.inl ⟨⟨rfl, rfl, rfl⟩, by simp, by simp⟩
  | _ => exact Or.inl ⟨⟨rfl, rfl, rfl⟩, by simp, by simp⟩

/-- The batcher never stops the pipeline. -/
theorem BatcherMove.undisturbed {b b' : Builder} {s s' : Shared} {stage stage' : BatcherStage}
    {command : Option Command} {c : Option Container}
    (move : BatcherMove b s stage b' stage' s' command c) : s.Undisturbed s' := by
  cases move with
  | grantAdmission acquired => exact ⟨rfl, rfl, Budget.closed_acquire? acquired⟩
  | refuseAdmission acquired => exact ⟨rfl, rfl, Budget.closed_acquire? acquired⟩
  | _ => exact ⟨rfl, rfl, rfl⟩

theorem WorkerMove.halting_cases {codec : Codec} {s s' : Shared} {out out' : Completions}
    {w w' : Worker} (move : WorkerMove codec s out w w' s' out') :
    (s.Undisturbed s' ∧ (∀ steps, w ≠ .crashed steps) ∧
        ∀ steps, w' = .crashed steps → steps = Worker.crashSteps ∧
          ∃ c, w = .compressing c ∧ c.complete? codec = none) ∨
      (∃ step steps, w = .crashed (step :: steps) ∧ s' = step.apply s ∧
        w' = Worker.halting steps) ∨
      (w = .crashed [] ∧ s' = s ∧ w' = .gone) := by
  cases move with
  | halt => exact Or.inr (Or.inl ⟨_, _, rfl, rfl, rfl⟩)
  | vanish => exact Or.inr (Or.inr ⟨rfl, rfl, rfl⟩)
  | crash lost =>
      refine Or.inl ⟨⟨rfl, rfl, rfl⟩, by simp, ?_⟩
      rintro steps ⟨⟩
      exact ⟨rfl, _, rfl, lost⟩
  | _ => exact Or.inl ⟨⟨rfl, rfl, rfl⟩, by simp, by simp⟩

/-- What makes the scribe stop the pipeline because of an error: the file has refused something, a
record came too late or twice, or a container has none. -/
inductive Scribe.Fails (t : Scribe) : Error → Prop where
  | flush {error : Error} (refusal : t.writer.flush.1 = .error error) : Fails t error
  | accept {record : Record} {error : Error} (handles : t.stage = .handling (.done record))
      (refusal : (t.writer.accept record).1 = .error error) : Fails t error
  | report {sequence : Nat} {error : Error}
      (handles : t.stage = .handling (.failed sequence error)) : Fails t error

theorem ScribeMove.halting_cases {w w' : Resequencer} {s s' : Shared}
    {inbox inbox' : Completions} {stage stage' : ScribeStage} {record : Option Record}
    (move : ScribeMove w s inbox stage w' stage' s' inbox' record) :
    (s.Undisturbed s' ∧ (∀ steps, stage ≠ .halting steps) ∧
        ∀ steps, stage' = .halting steps → ∃ error, steps = failSteps error ∧
          Scribe.Fails ⟨w, stage⟩ error) ∨
      (∃ step steps, stage = .halting (step :: steps) ∧ s' = step.apply s ∧
        stage' = .halting steps) ∨
      (stage = .halting [] ∧ s' = s ∧ stage' = .ending) := by
  have hundisturbed : s.Undisturbed s := ⟨rfl, rfl, rfl⟩
  cases move with
  | halt => exact Or.inr (Or.inl ⟨_, _, rfl, rfl, rfl⟩)
  | halted => exact Or.inr (Or.inr ⟨rfl, rfl, rfl⟩)
  | receive listens received => cases listens <;> exact Or.inl ⟨hundisturbed, by simp, by simp⟩
  | disconnected listens received => cases listens <;> exact Or.inl ⟨hundisturbed, by simp, by simp⟩
  | publish goes flushed => cases goes <;> exact Or.inl ⟨⟨rfl, rfl, rfl⟩, by simp, by simp⟩
  | flushFailed flushes flushed =>
      refine Or.inl ⟨hundisturbed, by cases flushes <;> simp, ?_⟩
      rintro steps ⟨⟩
      exact ⟨_, rfl, .flush (by rw [flushed])⟩
  | refuse running accepted =>
      refine Or.inl ⟨hundisturbed, by simp, ?_⟩
      rintro steps ⟨⟩
      exact ⟨_, rfl, .accept rfl (by rw [accepted])⟩
  | failed running =>
      refine Or.inl ⟨hundisturbed, by simp, ?_⟩
      rintro steps ⟨⟩
      exact ⟨_, rfl, .report rfl⟩
  | _ => exact Or.inl ⟨⟨rfl, rfl, rfl⟩, by simp, by simp⟩

namespace Pipeline

/-! ### What a step does -/

variable {p p' : Pipeline} {actor : Actor} {ms : History}

/-- A step is none of those who take no step. -/
theorem Move.halting?_other (move : p.Move actor p' ms) {other : Actor} (hne : other ≠ actor) :
    p'.halting? other = p.halting? other := by
  cases move with
  | call present move =>
      cases other with
      | call id' =>
          have hid : id' ≠ _ := fun h => hne (congrArg Actor.call h)
          simp only [halting?, stage?_moved present, if_neg hid]
      | _ => rfl
  | batcher move => cases other <;> rfl
  | worker present move =>
      cases other with
      | worker index' =>
          have hindex : ¬ _ = index' := fun h => hne (congrArg Actor.worker h.symm)
          simp only [halting?, List.getElem?_set_ne hindex]
      | _ => rfl
  | scribe move =>
      cases other with
      | scribe => exact absurd rfl hne
      | _ => rfl

/-- Why someone begins to stop the pipeline by a step: the codec has crashed under a worker, or the
scribe has met an error. -/
inductive Begins (p : Pipeline) : Actor → List HaltStep → Prop where
  | crash {index : Nat} {c : Container} (compressing : p.workers[index]? = some (.compressing c))
      (lost : c.complete? p.codec = none) : Begins p (.worker index) Worker.crashSteps
  | fail {error : Error} (fails : p.scribe.Fails error) : Begins p .scribe (failSteps error)

theorem Begins.program {steps : List HaltStep} (h : Begins p actor steps) :
    HaltStep.Program actor steps := by
  cases h with
  | crash compressing lost => exact Or.inr ⟨by simp, _, rfl⟩
  | fail fails => exact Or.inr ⟨by simp, _, rfl⟩

/-- **What a step does to those who stop the pipeline**: someone begins to stop it or goes on with
that, and all others leave it alone. -/
theorem Move.halting_cases (move : p.Move actor p' ms) :
    (p.halting? actor = none ∧ p.shared.Undisturbed p'.shared ∧ ∀ steps,
        p'.halting? actor = some steps → Begins p actor steps) ∨
      (∃ step steps, p.halting? actor = some (step :: steps) ∧ p'.shared = step.apply p.shared ∧
        (p'.halting? actor = some steps ∨ steps = [] ∧ p'.halting? actor = none)) ∨
      (p.halting? actor = some [] ∧ p'.shared = p.shared ∧ p'.halting? actor = none) := by
  cases move with
  | call present move =>
      rename_i id stage stage' shared desk file command
      have hbefore (steps : List HaltStep) :
          p.halting? (.call id) = some steps ↔ stage = .halting steps := by
        rw [halting?_call_iff, present, Option.some.injEq]
      have hafter (steps : List HaltStep) :
          (p.moved id shared desk file stage').halting? (.call id) = some steps ↔
            stage' = .halting steps := by
        rw [halting?_call_iff, stage?_moved present, if_pos rfl, Option.some.injEq]
      simp only [Option.eq_none_iff_forall_ne_some, ne_eq, hbefore, hafter, shared_moved]
      rcases move.halting_cases with ⟨hkept, hs, hs'⟩ | ⟨step, steps, hs, hkept, hs'⟩ |
        ⟨hs, hkept, rfl⟩
      · exact Or.inl ⟨hs, hkept, fun steps h => absurd h (hs' steps)⟩
      · exact Or.inr (Or.inl ⟨step, steps, hs, hkept, Or.inl hs'⟩)
      · exact Or.inr (Or.inr ⟨hs, hkept, by simp⟩)
  | batcher move =>
      exact Or.inl ⟨rfl, move.undisturbed, by simp [halting?]⟩
  | worker present move =>
      rename_i index w w' shared completions
      have hindex := (List.getElem?_eq_some_iff.1 present).1
      have hbefore (steps : List HaltStep) :
          p.halting? (.worker index) = some steps ↔ w = .crashed steps := by
        rw [halting?_worker_iff, present, Option.some.injEq]
      have hafter (steps : List HaltStep) :
          halting? { p with workers := p.workers.set index w', shared, completions }
            (.worker index) = some steps ↔ w' = .crashed steps := by
        rw [halting?_worker_iff]
        simp [List.getElem?_set_self hindex]
      simp only [Option.eq_none_iff_forall_ne_some, ne_eq, hbefore, hafter]
      rcases move.halting_cases with ⟨hkept, hs, hs'⟩ | ⟨step, steps, hs, hkept, rfl⟩ |
        ⟨hs, hkept, rfl⟩
      · refine Or.inl ⟨hs, hkept, fun steps h => ?_⟩
        obtain ⟨rfl, c, rfl, lost⟩ := hs' steps h
        exact .crash present lost
      · refine Or.inr (Or.inl ⟨step, steps, hs, hkept, ?_⟩)
        cases steps with
        | nil => exact Or.inr ⟨rfl, by simp [Worker.halting]⟩
        | cons step' steps => exact Or.inl rfl
      · exact Or.inr (Or.inr ⟨hs, hkept, by simp⟩)
  | scribe move =>
      rename_i writer stage shared completions record
      simp only [Option.eq_none_iff_forall_ne_some, ne_eq, halting?_scribe_iff]
      rcases move.halting_cases with ⟨hkept, hs, hs'⟩ | ⟨step, steps, hs, hkept, hs'⟩ |
        ⟨hs, hkept, rfl⟩
      · refine Or.inl ⟨hs, hkept, fun steps h => ?_⟩
        obtain ⟨error, rfl, fails⟩ := hs' steps h
        exact .fail fails
      · exact Or.inr (Or.inl ⟨step, steps, hs, hkept, Or.inl hs'⟩)
      · exact Or.inr (Or.inr ⟨hs, hkept, by simp⟩)

/-! ### What is done stays done -/

/-- A work channel that is closed and empty stays empty. -/
theorem Move.work_empty (move : p.Move actor p' ms) (closed : p.shared.work.closed = true)
    (empty : p.shared.work.items = []) : p'.shared.work.items = [] := by
  cases move with
  | call present move =>
      rcases move.custody with hkept | ⟨-, hempty⟩
      · exact hkept.trans empty
      · exact hempty
  | batcher move =>
      generalize p.batcher.stage = stage at move
      cases move with
      | handOver offered =>
          rw [Channel.open_of_offer offered] at closed
          cases closed
      | _ => exact empty
  | worker present move =>
      cases move with
      | take received =>
          rw [(Channel.items_of_receive received).1] at empty
          cases empty
      | halt =>
          rename_i index step steps
          rcases step.work_apply p.shared with hkept | hempty
          · exact hkept.trans empty
          · exact hempty
      | _ => exact empty
  | scribe move =>
      rcases move.custody with ⟨hkept, -⟩ | ⟨-, hle, -⟩
      · exact hkept.trans empty
      · rw [empty, Multiset.coe_nil] at hle
        exact (Multiset.coe_eq_zero _).1 (Multiset.le_zero.1 hle)

theorem Move.failure_eq (move : p.Move actor p' ms) {error : Error}
    (h : p.shared.failure = some error) : p'.shared.failure = some error := by
  rcases move.halting_cases with ⟨-, hkept, -⟩ | ⟨step, steps, -, hkept, -⟩ | ⟨-, hkept, -⟩
  · exact hkept.failure_eq.trans h
  · rw [hkept]
    exact step.failure_apply h
  · rw [hkept]
    exact h

theorem Move.budget_closed (move : p.Move actor p' ms) (h : p.shared.budget.closed = true) :
    p'.shared.budget.closed = true := by
  rcases move.halting_cases with ⟨-, hkept, -⟩ | ⟨step, steps, -, hkept, -⟩ | ⟨-, hkept, -⟩
  · exact hkept.budget_eq.trans h
  · rw [hkept]
    exact step.budget_apply h
  · rw [hkept]
    exact h

/-- A channel of commands that is closed and empty stays empty. -/
theorem Move.commands_empty (move : p.Move actor p' ms) (closed : p.shared.commands.closed = true)
    (empty : p.shared.commands.items = []) : p'.shared.commands.items = [] := by
  rcases move.commands_cases with ⟨hitems, -, hentered⟩ | ⟨hitems, -⟩ | ⟨-, -, hempty, -⟩
  · rw [hitems, empty, hentered closed, List.append_nil]
  · rw [empty] at hitems
    exact (List.append_eq_nil_iff.1 hitems.symm).2
  · exact hempty

/-- **What a step of stopping has brought about is never undone.** -/
theorem Move.done (move : p.Move actor p' ms) {step : HaltStep} (h : step.Done p.shared) :
    step.Done p'.shared := by
  cases step with
  | record error =>
      obtain ⟨error', herror⟩ := Option.isSome_iff_exists.1 h
      exact Option.isSome_iff_exists.2 ⟨error', move.failure_eq herror⟩
  | raiseFlag => exact move.shuts.stopped h
  | discardCommands => exact ⟨move.shuts.commands h.1, move.commands_empty h.1 h.2⟩
  | discardWork => exact ⟨move.shuts.work h.1, move.work_empty h.1 h.2⟩
  | closeBudget => exact move.budget_closed h

/-! ### The invariant -/

/-- Those who are stopping the pipeline have taken the steps before those that they have still to
take, and a pipeline that is to stop is being stopped by someone, unless nothing is left to be
done. -/
structure Stopping (p : Pipeline) : Prop where
  partway : ∀ actor steps, p.halting? actor = some steps → ∃ done,
    HaltStep.Program actor (done ++ steps) ∧ ∀ step ∈ done, step.Done p.shared
  settled : p.shared.stopped = true → (∃ actor steps, p.halting? actor = some steps) ∨
    ∀ step ∈ haltSteps, step.Done p.shared

/-- Whoever has come to the end of the steps has stopped the pipeline. -/
theorem Stopping.done_of_nil (h : Stopping p) (hover : p.halting? actor = some []) :
    ∀ step ∈ haltSteps, step.Done p.shared := by
  obtain ⟨done, hprogram, hdone⟩ := h.partway actor [] hover
  rw [List.append_nil] at hprogram
  exact fun step hstep => hdone step (hprogram.subset step hstep)

theorem Stopping.done_of_last {step : HaltStep} (h : Stopping p) (move : p.Move actor p' ms)
    (last : p.halting? actor = some [step]) (taken : p'.shared = step.apply p.shared) :
    ∀ step ∈ haltSteps, step.Done p'.shared := by
  obtain ⟨done, hprogram, hdone⟩ := h.partway actor [step] last
  intro step' hstep
  rcases List.mem_append.1 (hprogram.subset step' hstep) with hin | hin
  · exact move.done (hdone step' hin)
  · rw [List.mem_singleton.1 hin, taken]
    exact step.done_apply p.shared

theorem Stopping.move (h : Stopping p) (move : p.Move actor p' ms) : Stopping p' := by
  have hcases := move.halting_cases
  refine ⟨fun other steps hsteps => ?_, fun stopped => ?_⟩
  · by_cases hother : other = actor
    · subst hother
      rcases hcases with ⟨-, -, hfresh⟩ | ⟨step, rest, hbefore, hkept, hrest⟩ | ⟨-, -, hnone⟩
      · exact ⟨[], (hfresh steps hsteps).program, by simp⟩
      · rcases hrest with hrest | ⟨-, hnone⟩
        · rw [hrest, Option.some.injEq] at hsteps
          subst hsteps
          obtain ⟨done, hprogram, hdone⟩ := h.partway other _ hbefore
          refine ⟨done ++ [step], by simpa using hprogram, fun step' hstep => ?_⟩
          rcases List.mem_append.1 hstep with hin | hin
          · exact move.done (hdone step' hin)
          · rw [List.mem_singleton.1 hin, hkept]
            exact step.done_apply p.shared
        · rw [hnone] at hsteps
          cases hsteps
      · rw [hnone] at hsteps
        cases hsteps
    · rw [move.halting?_other hother] at hsteps
      obtain ⟨done, hprogram, hdone⟩ := h.partway other steps hsteps
      exact ⟨done, hprogram, fun step hstep => move.done (hdone step hstep)⟩
  · -- someone else goes on with it, or it has been done
    have hothers (other : Actor) (steps : List HaltStep) (hsteps : p.halting? other = some steps)
        (hother : other ≠ actor) : ∃ actor steps, p'.halting? actor = some steps :=
      ⟨other, steps, (move.halting?_other hother).trans hsteps⟩
    rcases hcases with ⟨hnone, hkept, -⟩ | ⟨step, rest, hbefore, hkept, hrest⟩ |
      ⟨hover, hkept, -⟩
    · rcases h.settled (hkept.stopped_eq.symm.trans stopped) with ⟨other, steps, hsteps⟩ | hdone
      · refine Or.inl (hothers other steps hsteps ?_)
        rintro rfl
        rw [hnone] at hsteps
        cases hsteps
      · exact Or.inr fun step hstep => move.done (hdone step hstep)
    · rcases hrest with hrest | ⟨rfl, -⟩
      · exact Or.inl ⟨actor, rest, hrest⟩
      · exact Or.inr (h.done_of_last move hbefore hkept)
    · exact Or.inr fun step hstep => move.done (h.done_of_nil hover step hstep)

/-- Whoever stops the pipeline when someone calls did so before, or is about to abort. -/
theorem halting?_arrive {id : Nat} (fresh : p.stage? id = none) {request : Request}
    {steps : List HaltStep} (hsteps : (p.arrive id request).halting? actor = some steps) :
    p.halting? actor = some steps ∨ actor = .call id ∧ steps = haltSteps := by
  cases actor with
  | call id' =>
      rw [halting?_call_iff, stage?_arrive fresh] at hsteps
      split at hsteps
      · rename_i hid
        cases request <;> cases hsteps
        exact Or.inr ⟨by rw [hid], rfl⟩
      · exact Or.inl (halting?_call_iff.2 hsteps)
  | _ => exact Or.inl hsteps

theorem Stopping.arrive {id : Nat} (h : Stopping p) (fresh : p.stage? id = none)
    (request : Request) : Stopping (p.arrive id request) := by
  refine ⟨fun actor steps hsteps => ?_, fun stopped => ?_⟩
  · rcases halting?_arrive fresh hsteps with hsteps | ⟨rfl, rfl⟩
    · exact h.partway actor steps hsteps
    · exact ⟨[], Or.inl ⟨⟨id, rfl⟩, rfl⟩, by simp⟩
  · rcases h.settled stopped with ⟨actor, steps, hsteps⟩ | hdone
    · refine Or.inl ⟨actor, steps, ?_⟩
      cases actor with
      | call id' =>
          rw [halting?_call_iff] at hsteps ⊢
          exact stage?_arrive_of_some fresh hsteps request
      | _ => exact hsteps
    · exact Or.inr hdone

/-- **When nobody is at it any more, a pipeline that is to stop has been stopped.** -/
theorem Stopping.halted (h : Stopping p) (stopped : p.shared.stopped = true)
    (idle : ∀ actor, p.halting? actor = none) : ∀ step ∈ haltSteps, step.Done p.shared := by
  rcases h.settled stopped with ⟨actor, steps, hsteps⟩ | hdone
  · rw [idle actor] at hsteps
    cases hsteps
  · exact hdone

/-- Nobody stops a pipeline that was just started. -/
theorem halting?_of_start {settings : Settings} {sink : Sink} {base : Totals} {origin : Pipeline}
    (opened : Pipeline.start settings sink base = .ok origin) (actor : Actor) :
    origin.halting? actor = none := by
  obtain ⟨-, rfl⟩ := eq_of_start opened
  rw [Option.eq_none_iff_forall_ne_some]
  intro steps hsteps
  cases actor with
  | call id => simp [halting?, stage?] at hsteps
  | worker index =>
      rw [halting?_worker_iff] at hsteps
      cases List.eq_of_mem_replicate (List.mem_of_getElem? hsteps)
  | _ => cases hsteps

/-- **Those who stop the pipeline are in order at the end of every run.** -/
theorem Run.stopping {settings : Settings} {sink : Sink} {base : Totals} {origin : Pipeline}
    {log : History} (run : Run origin log p)
    (opened : Pipeline.start settings sink base = .ok origin) : Stopping p := by
  refine run.invariant (fun _ p => Stopping p) (fresh_of_start opened).idle ?_
    (fun _ _ _ request _ h fresh => h.arrive fresh request) (fun _ _ _ _ _ _ h move => h.move move)
  have hidle := halting?_of_start opened
  obtain ⟨-, rfl⟩ := eq_of_start opened
  refine ⟨fun actor steps hsteps => ?_, by simp⟩
  rw [hidle actor] at hsteps
  cases hsteps

/-- **If nobody aborts, a pipeline that is to stop has failed**: the error is recorded before the
flag is raised. -/
theorem Run.failure_of_stopped {settings : Settings} {sink : Sink} {base : Totals}
    {origin : Pipeline} {log : History} (run : Run origin log p)
    (opened : Pipeline.start settings sink base = .ok origin) (unaborted : log.Unaborted)
    (stopped : p.shared.stopped = true) : p.shared.failure.isSome = true := by
  have fresh := fresh_of_start opened
  refine run.invariant (fun log p => log.Unaborted → p.shared.stopped = true →
    p.shared.failure.isSome = true) fresh.idle (fun _ stopped => ?_) ?_ ?_ unaborted stopped
  · obtain ⟨-, rfl⟩ := eq_of_start opened
    cases stopped
  · intro log p id request _ failed _ unaborted stopped
    exact failed unaborted.of_append stopped
  · intro log p actor p' ms run failed move unaborted stopped
    have hbefore : log.Unaborted := unaborted.of_append
    have hkept (hstopped : p.shared.stopped = true) : p'.shared.failure.isSome = true := by
      obtain ⟨error, herror⟩ := Option.isSome_iff_exists.1 (failed hbefore hstopped)
      rw [move.failure_eq herror]
      rfl
    have stopping := run.stopping opened
    rcases move.halting_cases with ⟨-, hkept', -⟩ | ⟨step, rest, hsteps, hshared, -⟩ |
      ⟨-, hkept', -⟩
    · exact hkept (hkept'.stopped_eq.symm.trans stopped)
    · obtain ⟨done, hprogram, hdone⟩ := stopping.partway actor _ hsteps
      rcases hprogram.cases with ⟨error, rfl⟩ | ⟨rfl, ⟨id, rfl⟩ | ⟨error, hin⟩⟩ | hraised
      · rw [hshared]
        rfl
      · -- only those who abort stop the pipeline without an error
        obtain ⟨request, hasked, hpermits⟩ :=
          (run.served fresh).callers.permitted id _ (halting?_call_iff.1 hsteps)
        cases hpermits
        exact absurd hasked (hbefore id)
      · exact move.done (hdone _ hin)
      · exact hkept (hdone _ hraised)
    · rw [hkept'] at stopped
      exact hkept stopped

/-! ### What is closed -/

/-- The budget is closed by those who stop the pipeline. -/
theorem Move.budget_closed_cases (move : p.Move actor p' ms) :
    p'.shared.budget.closed = p.shared.budget.closed ∨ ∃ steps, p.halting? actor = some steps := by
  rcases move.halting_cases with ⟨-, hkept, -⟩ | ⟨step, rest, hbefore, -⟩ | ⟨hover, -⟩
  · exact Or.inl hkept.budget_eq
  · exact Or.inr ⟨_, hbefore⟩
  · exact Or.inr ⟨_, hover⟩

/-- The work channel is closed by the batcher that ends, unless the pipeline is stopped. -/
theorem Move.work_closed_cases (move : p.Move actor p' ms) :
    p'.shared.work.closed = p.shared.work.closed ∨ p'.batcher.stage = .finished ∨
      ∃ steps, p.halting? actor = some steps := by
  cases move with
  | call present move =>
      cases move with
      | halt => exact Or.inr (Or.inr ⟨_, halting?_call_iff.2 present⟩)
      | takeReply replied =>
          obtain ⟨replies, rfl⟩ := Shared.eq_of_takeReply? replied
          exact Or.inl rfl
      | _ => exact Or.inl rfl
  | batcher move =>
      generalize p.batcher.stage = stage at move
      cases move with
      | handOver offered => exact Or.inl (Channel.items_of_offer offered).2.2
      | closeWork => exact Or.inr (Or.inl rfl)
      | _ => exact Or.inl rfl
  | worker present move =>
      cases move with
      | take received => exact Or.inl (Channel.items_of_receive received).2.2
      | halt => exact Or.inr (Or.inr ⟨_, halting?_worker_iff.2 present⟩)
      | _ => exact Or.inl rfl
  | scribe move =>
      generalize hstage : p.scribe.stage = stage at move
      cases move with
      | halt => exact Or.inr (Or.inr ⟨_, halting?_scribe_iff.2 hstage⟩)
      | _ => exact Or.inl rfl

/-- The channel of commands is closed by the call that brings the file to its end, unless the
pipeline is stopped. -/
theorem Move.commands_closed_cases (move : p.Move actor p' ms) :
    p'.shared.commands.closed = p.shared.commands.closed ∨
      (∃ id, p.stage? id = some .closingCommands) ∨ ∃ steps, p.halting? actor = some steps := by
  cases move with
  | call present move =>
      cases move with
      | enterEvent offered => exact Or.inl (Channel.items_of_offer offered).2.2
      | enterFlush offered => exact Or.inl (Channel.items_of_offer offered).2.2
      | halt => exact Or.inr (Or.inr ⟨_, halting?_call_iff.2 present⟩)
      | takeReply replied =>
          obtain ⟨replies, rfl⟩ := Shared.eq_of_takeReply? replied
          exact Or.inl rfl
      | closeCommands => exact Or.inr (Or.inl ⟨_, present⟩)
      | _ => exact Or.inl rfl
  | batcher move =>
      generalize p.batcher.stage = stage at move
      cases move with
      | obey received => exact Or.inl (Channel.items_of_receive received).2.2
      | _ => exact Or.inl rfl
  | worker present move =>
      cases move with
      | halt => exact Or.inr (Or.inr ⟨_, halting?_worker_iff.2 present⟩)
      | _ => exact Or.inl rfl
  | scribe move =>
      generalize hstage : p.scribe.stage = stage at move
      cases move with
      | halt => exact Or.inr (Or.inr ⟨_, halting?_scribe_iff.2 hstage⟩)
      | _ => exact Or.inl rfl

/-- Behind a step of stopping the flag is raised, unless the step was to record an error. -/
theorem Stopping.stopped_of_halting (h : Stopping p) (move : p.Move actor p' ms)
    {steps : List HaltStep} (halting : p.halting? actor = some steps) :
    p'.shared.stopped = true ∨ ∃ error, p'.shared = (HaltStep.record error).apply p.shared := by
  rcases move.halting_cases with ⟨hnone, -⟩ | ⟨step, rest, hbefore, hkept, -⟩ | ⟨hover, -⟩
  · rw [halting] at hnone
    cases hnone
  · obtain ⟨done, hprogram, hdone⟩ := h.partway actor _ hbefore
    rcases hprogram.cases with ⟨error, rfl⟩ | ⟨rfl, -⟩ | hraised
    · exact Or.inr ⟨error, hkept⟩
    · rw [hkept]
      exact Or.inl rfl
    · exact Or.inl (move.shuts.stopped (hdone _ hraised))
  · exact Or.inl (move.shuts.stopped (h.done_of_nil hover .raiseFlag List.mem_cons_self))

/-- Unless the pipeline is to stop, the budget is open, the work channel is closed by the batcher
that has ended only, and the channel of commands only when the desk is closed. -/
structure Barred (p : Pipeline) : Prop where
  budget : p.shared.budget.closed = true → p.shared.stopped = true
  work : p.shared.work.closed = true → p.shared.stopped = true ∨ p.batcher.stage = .finished
  commands : p.shared.commands.closed = true → p.shared.stopped = true ∨ p.desk.closed = true

/-- A desk that is closed stays closed. -/
theorem Move.desk_shut (move : p.Move actor p' ms) (shut : p.desk.closed = true) :
    p'.desk.closed = true := by
  cases move with
  | call present move => exact move.desk_shut shut
  | _ => exact shut

/-- A batcher that has ended does not go on. -/
theorem Move.batcher_finished (move : p.Move actor p' ms) (ended : p.batcher.stage = .finished) :
    p'.batcher = p.batcher := by
  cases move with
  | batcher move => exact absurd ended move.stage_ne_finished
  | _ => rfl

theorem Barred.move (h : Barred p) (stopping : Stopping p) (atDesk : AtDesk p)
    (move : p.Move actor p' ms) : Barred p' := by
  have hstopped := move.shuts.stopped
  have hfinished (ended : p.batcher.stage = .finished) : p'.batcher.stage = .finished := by
    rw [move.batcher_finished ended, ended]
  refine ⟨fun closed => ?_, fun closed => ?_, fun closed => ?_⟩
  · rcases move.budget_closed_cases with hkept | ⟨steps, hsteps⟩
    · exact hstopped (h.budget (hkept.symm.trans closed))
    · rcases stopping.stopped_of_halting move hsteps with hraised | ⟨error, hrecord⟩
      · exact hraised
      · rw [hrecord] at closed ⊢
        exact h.budget closed
  · rcases move.work_closed_cases with hkept | hended | ⟨steps, hsteps⟩
    · exact (h.work (hkept.symm.trans closed)).imp hstopped hfinished
    · exact Or.inr hended
    · rcases stopping.stopped_of_halting move hsteps with hraised | ⟨error, hrecord⟩
      · exact Or.inl hraised
      · rw [hrecord] at closed
        exact (h.work closed).imp hstopped hfinished
  · rcases move.commands_closed_cases with hkept | ⟨id, hclosing⟩ | ⟨steps, hsteps⟩
    · exact (h.commands (hkept.symm.trans closed)).imp hstopped move.desk_shut
    · exact Or.inr (move.desk_shut (atDesk.closed_of_closing id _ hclosing rfl).1)
    · rcases stopping.stopped_of_halting move hsteps with hraised | ⟨error, hrecord⟩
      · exact Or.inl hraised
      · rw [hrecord] at closed
        exact (h.commands closed).imp hstopped move.desk_shut

/-- **Nothing is closed without a reason**, at the end of every run. -/
theorem Run.barred {settings : Settings} {sink : Sink} {base : Totals} {origin : Pipeline}
    {log : History} (run : Run origin log p)
    (opened : Pipeline.start settings sink base = .ok origin) : Barred p := by
  have fresh := fresh_of_start opened
  refine run.invariant (fun _ p => Barred p) fresh.idle ?_ (fun _ _ _ _ _ h _ => ⟨h.1, h.2, h.3⟩)
    (fun _ _ _ _ _ run h move => h.move (run.stopping opened) (run.served fresh).atDesk move)
  obtain ⟨-, rfl⟩ := eq_of_start opened
  constructor <;> simp [Budget.start]

/-! ### The commands of a pipeline that is not to stop -/

/-- Nobody refuses the container in the batcher's hands. -/
theorem Barred.keeps (h : Barred p) (running : p.shared.stopped = false) : ¬ p.Drops .batcher := by
  intro hdrops
  cases hdrops with
  | barred shut =>
      rw [h.budget shut] at running
      cases running
  | shutOut shut busy =>
      rcases h.work shut with hstopped | hended
      · rw [hstopped] at running
        cases running
      · rw [hended] at busy
        exact busy rfl

/-- No command was dropped, and the batcher ends behind the last one. -/
structure Heard (log : History) (p : Pipeline) : Prop where
  order : log.entered = log.obeyed ++ p.shared.commands.items
  past : p.batcher.stage.isPast = true →
    p.shared.commands.closed = true ∧ p.shared.commands.items = []

variable {log : History}

/-- Behind the last command, every command that has entered the channel was carried out. -/
theorem Heard.entered_eq (h : Heard log p) (past : p.batcher.stage.isPast = true) :
    log.entered = log.obeyed := by
  rw [h.order, (h.past past).2, List.append_nil]

/-- Behind the last container, all that the commands make was sealed. -/
theorem Heard.sealed_eq {b₀ : Builder} (h : Heard log p) (batched : Batched b₀ log p)
    (running : p.shared.stopped = false) (last : p.batcher.stage.isLast = true) :
    log.sealed = b₀.batches log.entered := by
  rcases batched.made with ⟨-, -, hstopped⟩ | ⟨-, hsealed, -⟩
  · rw [running] at hstopped
    cases hstopped last
  · rw [hsealed, h.entered_eq (BatcherStage.isPast_of_isLast last)]

theorem Heard.move (h : Heard log p) (move : p.Move actor p' ms)
    (kept : (∃ steps, p.halting? actor = some steps) →
      p'.shared.commands.items = p.shared.commands.items)
    (keeps : ¬ p.Drops .batcher) : Heard (log ++ ms) p' := by
  -- behind the last command, none enters and none is left to be carried out
  have hstay (hpast : p.batcher.stage.isPast = true) :
      p'.shared.commands.closed = true ∧ p'.shared.commands.items = [] := by
    obtain ⟨hclosed, hempty⟩ := h.past hpast
    exact ⟨move.shuts.commands hclosed, move.commands_empty hclosed hempty⟩
  constructor
  · rw [History.entered_append, History.obeyed_append, h.order]
    rcases move.commands_cases with ⟨hitems, hobeyed, -⟩ | ⟨hitems, hentered⟩ |
      ⟨hhalting, -, -, hentered, hobeyed⟩
    · rw [hitems, hobeyed, List.append_nil, List.append_assoc]
    · rw [hitems, hentered, List.append_nil, List.append_assoc]
    · rw [kept hhalting, hentered, hobeyed, List.append_nil, List.append_nil]
  · intro past
    cases move with
    | batcher move =>
        rcases move.isPast_cases past with hpast | hdrained | hdrops
        · exact hstay hpast
        · exact hdrained
        · exact absurd hdrops keeps
    | _ => exact hstay past

/-- **No command is dropped before the pipeline is to stop.** -/
theorem Run.heard {settings : Settings} {sink : Sink} {base : Totals} {origin : Pipeline}
    (run : Run origin log p) (opened : Pipeline.start settings sink base = .ok origin)
    (running : p.shared.stopped = false) : Heard log p := by
  refine run.invariant (fun log p => p.shared.stopped = false → Heard log p)
    (fresh_of_start opened).idle (fun _ => ?_) ?_ ?_ running
  · obtain ⟨-, rfl⟩ := eq_of_start opened
    exact ⟨rfl, by simp [Batcher.start, BatcherStage.isPast]⟩
  · intro log p id request _ heard _ running
    refine ⟨?_, (heard running).past⟩
    rw [History.entered_asked, History.obeyed_asked]
    exact (heard running).order
  · intro log p actor p' ms run heard move running
    have hbefore : p.shared.stopped = false := by
      by_contra hstopped
      rw [move.shuts.stopped (by simpa using hstopped)] at running
      cases running
    refine (heard hbefore).move move ?_ ((run.barred opened).keeps hbefore)
    rintro ⟨steps, hsteps⟩
    rcases (run.stopping opened).stopped_of_halting move hsteps with hstopped | ⟨error, hrecord⟩
    · rw [hstopped] at running
      cases running
    · rw [hrecord]
      rfl

/-! ### Calm -/

/-- Nobody has seen yet that the pipeline is to stop: the flag is not raised, and only calls may be
about to raise it. -/
structure Calm (p : Pipeline) : Prop where
  running : p.shared.stopped = false
  callers : ∀ actor steps, p.halting? actor = some steps → ∃ id, actor = .call id

/-- **Nobody takes a step of stopping** in a pipeline that is calm behind it. -/
theorem Calm.idle (calm : Calm p') (stopping : Stopping p) (move : p.Move actor p' ms) :
    p.halting? actor = none := by
  have hrunning (stopped : p'.shared.stopped = true) : False := by
    rw [calm.running] at stopped
    cases stopped
  rcases move.halting_cases with ⟨hnone, -⟩ | ⟨step, rest, hbefore, hkept, hrest⟩ | ⟨hover, -⟩
  · exact hnone
  · exfalso
    rcases hrest with hrest | ⟨rfl, -⟩
    · -- only a call goes on with it, and its first step is to raise the flag
      obtain ⟨done, hprogram, hdone⟩ := stopping.partway actor _ hbefore
      have hcall := calm.callers actor rest hrest
      rcases hprogram.cases with ⟨error, rfl⟩ | ⟨rfl, -⟩ | hraised
      · rcases hprogram with ⟨-, hsteps⟩ | ⟨hother, -⟩
        · have hin : HaltStep.record error ∈ haltSteps := hsteps ▸ by simp
          simp [haltSteps] at hin
        · obtain ⟨id, rfl⟩ := hcall
          exact hother id rfl
      · exact hrunning (by rw [hkept]; rfl)
      · exact hrunning (move.shuts.stopped (hdone _ hraised))
    · exact hrunning (stopping.done_of_last move hbefore hkept .raiseFlag List.mem_cons_self)
  · exact absurd (move.shuts.stopped (stopping.done_of_nil hover .raiseFlag List.mem_cons_self))
      hrunning

/-- **What is calm was calm before.** -/
theorem Calm.of_move (calm : Calm p') (stopping : Stopping p) (move : p.Move actor p' ms) :
    Calm p := by
  constructor
  · by_contra hstopped
    have hraised := move.shuts.stopped (by simpa using hstopped)
    rw [calm.running] at hraised
    cases hraised
  · intro other steps hsteps
    refine calm.callers other steps ?_
    rw [move.halting?_other, hsteps]
    rintro rfl
    rw [calm.idle stopping move] at hsteps
    cases hsteps

theorem Calm.of_arrive {id : Nat} {request : Request} (calm : Calm (p.arrive id request)) :
    Calm p := by
  refine ⟨calm.running, fun actor steps hsteps => ?_⟩
  cases actor with
  | call id => exact ⟨id, rfl⟩
  | _ => exact calm.callers _ steps hsteps

end Pipeline

end TraceLog
