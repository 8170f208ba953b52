/-
**What the batcher makes of the commands.**

Commands are carried out in the order in which they entered the channel, as long as nobody drops
those that wait.  Whatever happens, the containers that were sealed are those that the builder makes
of the commands that were carried out; the last one is among them unless the pipeline was stopped.

Main definitions:

* `Shared.Shuts`, `Shared.Undisturbed` — what is closed stays closed; nobody stops the pipeline;
* `BatcherStage.isPast`, `BatcherStage.isLast` — no command, and no container, is still to come;
* `Batcher.Made`, `Pipeline.Batched` — what was made of the commands; what has become of them.

Main results:

* `Pipeline.Move.commands_cases` — **what a step does to the commands that wait**;
* `Pipeline.Run.batched` — what has become of the commands at the end of every run;
* `Batcher.Made.exists_row` — the containers that were sealed have successive numbers.
-/

import TraceLog.Proofs.Pipeline.Custody

set_option relaxedAutoImplicit false
set_option autoImplicit false

namespace TraceLog

/-! ### Stopping -/

/-- What is closed stays closed. -/
structure Shared.Shuts (s s' : Shared) : Prop where
  stopped : s.stopped = true → s'.stopped = true
  commands : s.commands.closed = true → s'.commands.closed = true
  work : s.work.closed = true → s'.work.closed = true

/-- Nobody stops the pipeline. -/
structure Shared.Undisturbed (s s' : Shared) : Prop where
  stopped_eq : s'.stopped = s.stopped
  failure_eq : s'.failure = s.failure
  budget_eq : s'.budget.closed = s.budget.closed

theorem HaltStep.shuts_apply (step : HaltStep) (s : Shared) : s.Shuts (step.apply s) := by
  cases step <;> constructor <;> simp [HaltStep.apply, Channel.discard]

theorem Budget.closed_acquire? {b b' : Budget} {bytes : Nat} {admitted : Bool}
    (h : b.acquire? bytes = some (admitted, b')) : b'.closed = b.closed := by
  unfold acquire? at h
  split at h
  · cases h
  · split at h <;> cases h <;> rfl

theorem Shared.eq_of_takeReply? {s s' : Shared} {ticket target : Nat}
    (h : s.takeReply? ticket = some (target, s')) :
    ∃ replies, s' = { s with replies } := by
  obtain ⟨sealedCount, -, hreply⟩ := Option.map_eq_some_iff.1 h
  cases hreply
  exact ⟨_, rfl⟩

theorem CallMove.shuts {p : Pipeline} {caller : Nat} {stage stage' : CallStage} {shared : Shared}
    {desk : Desk} {file : Option Sink} {command : Option Command}
    (move : CallMove p caller stage shared desk file stage' command) : p.shared.Shuts shared := by
  cases move with
  | enterEvent offered =>
      exact ⟨id, fun h => (Channel.items_of_offer offered).2.2.trans h, id⟩
  | enterFlush offered =>
      exact ⟨id, fun h => (Channel.items_of_offer offered).2.2.trans h, id⟩
  | takeReply replied =>
      obtain ⟨replies, rfl⟩ := Shared.eq_of_takeReply? replied
      exact ⟨id, id, id⟩
  | halt => exact HaltStep.shuts_apply _ _
  | closeCommands => exact ⟨id, fun _ => rfl, id⟩
  | _ => exact ⟨id, id, id⟩

theorem BatcherMove.shuts {b b' : Builder} {s s' : Shared} {stage stage' : BatcherStage}
    {command : Option Command} {c : Option Container}
    (move : BatcherMove b s stage b' stage' s' command c) : s.Shuts s' := by
  cases move with
  | obey received => exact ⟨id, fun h => (Channel.items_of_receive received).2.2.trans h, id⟩
  | handOver offered => exact ⟨id, id, fun h => (Channel.items_of_offer offered).2.2.trans h⟩
  | closeWork => exact ⟨id, id, fun _ => rfl⟩
  | _ => exact ⟨id, id, id⟩

theorem WorkerMove.shuts {codec : Codec} {s s' : Shared} {out out' : Completions} {w w' : Worker}
    (move : WorkerMove codec s out w w' s' out') : s.Shuts s' := by
  cases move with
  | take received => exact ⟨id, id, fun h => (Channel.items_of_receive received).2.2.trans h⟩
  | halt => exact HaltStep.shuts_apply _ _
  | _ => exact ⟨id, id, id⟩

theorem ScribeMove.shuts {w w' : Resequencer} {s s' : Shared} {inbox inbox' : Completions}
    {stage stage' : ScribeStage} {record : Option Record}
    (move : ScribeMove w s inbox stage w' stage' s' inbox' record) : s.Shuts s' := by
  cases move with
  | halt => exact HaltStep.shuts_apply _ _
  | _ => exact ⟨id, id, id⟩

namespace Pipeline

theorem Move.shuts {p p' : Pipeline} {actor : Actor} {ms : History}
    (move : p.Move actor p' ms) : p.shared.Shuts p'.shared := by
  cases move with
  | call present move => exact move.shuts
  | batcher move => exact move.shuts
  | worker present move => exact move.shuts
  | scribe move => exact move.shuts

/-- Only those who stop the pipeline disturb it. -/
theorem Move.undisturbed_or_halting {p p' : Pipeline} {actor : Actor} {ms : History}
    (move : p.Move actor p' ms) :
    p.shared.Undisturbed p'.shared ∨ ∃ steps, p.halting? actor = some steps := by
  cases move with
  | call present move =>
      cases move with
      | halt => exact Or.inr ⟨_, halting?_call_iff.2 present⟩
      | takeReply replied =>
          obtain ⟨replies, rfl⟩ := Shared.eq_of_takeReply? replied
          exact Or.inl ⟨rfl, rfl, rfl⟩
      | _ => exact Or.inl ⟨rfl, rfl, rfl⟩
  | batcher move =>
      left
      generalize p.batcher.stage = stage at move
      cases move with
      | grantAdmission acquired => exact ⟨rfl, rfl, Budget.closed_acquire? acquired⟩
      | refuseAdmission acquired => exact ⟨rfl, rfl, Budget.closed_acquire? acquired⟩
      | _ => exact ⟨rfl, rfl, rfl⟩
  | worker present move =>
      cases move with
      | halt => exact Or.inr ⟨_, halting?_worker_iff.2 present⟩
      | _ => exact Or.inl ⟨rfl, rfl, rfl⟩
  | scribe move =>
      generalize hstage : p.scribe.stage = stage at move
      cases move with
      | halt => exact Or.inr ⟨_, halting?_scribe_iff.2 hstage⟩
      | _ => exact Or.inl ⟨rfl, rfl, rfl⟩

end Pipeline

/-! ### The commands that wait -/

theorem HaltStep.commands_apply (step : HaltStep) (s : Shared) :
    (step.apply s).commands = s.commands ∨ (step.apply s).commands = s.commands.discard := by
  cases step <;> first | exact Or.inl rfl | exact Or.inr rfl

namespace Pipeline

/-- **What a step does to the commands that wait**: one enters at the end if the channel is open, or
the first is carried out, or all are dropped by someone who stops the pipeline. -/
theorem Move.commands_cases {p p' : Pipeline} {actor : Actor} {ms : History}
    (move : p.Move actor p' ms) :
    (p'.shared.commands.items = p.shared.commands.items ++ ms.entered ∧ ms.obeyed = [] ∧
      (p.shared.commands.closed = true → ms.entered = [])) ∨
    (p.shared.commands.items = ms.obeyed ++ p'.shared.commands.items ∧ ms.entered = []) ∨
    ((∃ steps, p.halting? actor = some steps) ∧ p'.shared.commands.closed = true ∧
      p'.shared.commands.items = [] ∧ ms.entered = [] ∧ ms.obeyed = []) := by
  cases move with
  | call present move =>
      rw [History.entered_call, History.obeyed_call, shared_moved]
      cases move with
      | enterEvent offered =>
          refine Or.inl ⟨(Channel.items_of_offer offered).1, rfl, fun hclosed => ?_⟩
          rw [Channel.open_of_offer offered] at hclosed
          cases hclosed
      | enterFlush offered =>
          refine Or.inl ⟨(Channel.items_of_offer offered).1, rfl, fun hclosed => ?_⟩
          rw [Channel.open_of_offer offered] at hclosed
          cases hclosed
      | takeReply replied =>
          obtain ⟨replies, rfl⟩ := Shared.eq_of_takeReply? replied
          exact Or.inl ⟨(List.append_nil _).symm, rfl, fun _ => rfl⟩
      | halt =>
          rename_i step steps
          rcases step.commands_apply p.shared with hkept | hgone
          · exact Or.inl ⟨by rw [hkept, Option.toList_none, List.append_nil], rfl, fun _ => rfl⟩
          · exact Or.inr (Or.inr ⟨⟨_, halting?_call_iff.2 present⟩,
              congrArg Channel.closed hgone, congrArg Channel.items hgone, rfl, rfl⟩)
      | _ => exact Or.inl ⟨(List.append_nil _).symm, rfl, fun _ => rfl⟩
  | batcher move =>
      rw [History.entered_batcher, History.obeyed_batcher]
      generalize p.batcher.stage = stage at move
      cases move with
      | obey received => exact Or.inr (Or.inl ⟨(Channel.items_of_receive received).1, rfl⟩)
      | _ => exact Or.inr (Or.inl ⟨rfl, rfl⟩)
  | worker present move =>
      cases move with
      | halt =>
          rename_i index step steps
          rcases step.commands_apply p.shared with hkept | hgone
          · exact Or.inr (Or.inl ⟨(congrArg Channel.items hkept).symm, rfl⟩)
          · exact Or.inr (Or.inr ⟨⟨_, halting?_worker_iff.2 present⟩,
              congrArg Channel.closed hgone, congrArg Channel.items hgone, rfl, rfl⟩)
      | _ => exact Or.inr (Or.inl ⟨rfl, rfl⟩)
  | scribe move =>
      rw [History.entered_scribe, History.obeyed_scribe]
      generalize hstage : p.scribe.stage = stage at move
      cases move with
      | halt =>
          rename_i step steps
          rcases step.commands_apply p.shared with hkept | hgone
          · exact Or.inr (Or.inl ⟨(congrArg Channel.items hkept).symm, rfl⟩)
          · exact Or.inr (Or.inr ⟨⟨_, halting?_scribe_iff.2 hstage⟩,
              congrArg Channel.closed hgone, congrArg Channel.items hgone, rfl, rfl⟩)
      | _ => exact Or.inr (Or.inl ⟨rfl, rfl⟩)

/-- Nothing enters a channel that is closed. -/
theorem Move.entered_of_closed {p p' : Pipeline} {actor : Actor} {ms : History}
    (move : p.Move actor p' ms) (closed : p.shared.commands.closed = true) : ms.entered = [] := by
  rcases move.commands_cases with ⟨-, -, hnone⟩ | ⟨-, hnone⟩ | ⟨-, -, -, hnone, -⟩
  · exact hnone closed
  · exact hnone
  · exact hnone

end Pipeline

/-! ### What was made of the commands -/

/-- The batcher looks at no command any more. -/
def BatcherStage.isPast : BatcherStage → Bool
  | .ending | .admitting _ .finish | .handing _ .finish | .closingWork | .finished => true
  | _ => false

/-- The batcher seals no container any more. -/
def BatcherStage.isLast : BatcherStage → Bool
  | .admitting _ .finish | .handing _ .finish | .closingWork | .finished => true
  | _ => false

theorem AfterHandover.isLast_stage (after : AfterHandover) :
    after.stage.isLast = decide (after = .finish) := by
  cases after <;> rfl

theorem AfterHandover.isLast_stageOnRefusal (after : AfterHandover) :
    after.stageOnRefusal.isLast = decide (after = .finish) := by
  cases after <;> rfl

theorem BatcherStage.isLast_admitting (c : Container) (after : AfterHandover) :
    (admitting c after).isLast = decide (after = .finish) := by
  cases after <;> rfl

theorem BatcherStage.isLast_handing (c : Container) (after : AfterHandover) :
    (handing c after).isLast = decide (after = .finish) := by
  cases after <;> rfl

theorem Batcher.isLast_submitting (done : Option Container) (after : AfterHandover) :
    (submitting done after).isLast = decide (after = .finish) := by
  cases done with
  | none => exact after.isLast_stage
  | some c => exact BatcherStage.isLast_admitting c after

theorem BatcherStage.isPast_of_isLast {stage : BatcherStage} (last : stage.isLast = true) :
    stage.isPast = true := by
  cases stage with
  | admitting c after => cases after <;> first | rfl | cases last
  | handing c after => cases after <;> first | rfl | cases last
  | closingWork => rfl
  | finished => rfl
  | _ => cases last

/-- The batcher ends behind the last command, unless a container was refused. -/
theorem BatcherMove.isPast_cases {b b' : Builder} {s s' : Shared} {stage stage' : BatcherStage}
    {command : Option Command} {c : Option Container}
    (move : BatcherMove b s stage b' stage' s' command c) (past : stage'.isPast = true) :
    stage.isPast = true ∨ (s'.commands.closed = true ∧ s'.commands.items = []) ∨
      Batcher.Drops stage s := by
  cases move with
  | obey received =>
      rename_i command commands
      cases hdone : (b.obey command).1 <;> rw [hdone] at past <;> cases command <;> cases past
  | drained received => exact Or.inr (Or.inl (Channel.drained_of_receive received))
  | grantAdmission acquired =>
      rename_i c after budget
      cases after with
      | finish => exact Or.inl rfl
      | receive => cases past
      | reply ticket => cases past
  | refuseAdmission acquired => exact Or.inr (Or.inr (.barred (Budget.closed_of_acquire? acquired)))
  | handOver offered =>
      rename_i c after work
      cases after with
      | finish => exact Or.inl rfl
      | receive => cases past
      | reply ticket => cases past
  | refuseWork offered =>
      refine Or.inr (Or.inr (.shutOut (Channel.closed_of_offer offered) ?_))
      simp [BatcherStage.hand]
  | reply => cases past
  | stop stopped => exact Or.inl rfl
  | sealLast running => exact Or.inl rfl
  | closeWork => exact Or.inl rfl

/-- Behind the last container, the batcher carries out no command and seals nothing. -/
theorem BatcherMove.isLast {b b' : Builder} {s s' : Shared} {stage stage' : BatcherStage}
    {command : Option Command} {c : Option Container}
    (move : BatcherMove b s stage b' stage' s' command c)
    (last : stage.isLast = true) : command = none ∧ c = none ∧ stage'.isLast = true := by
  cases move with
  | grantAdmission acquired =>
      refine ⟨rfl, rfl, ?_⟩
      rw [BatcherStage.isLast_handing, ← BatcherStage.isLast_admitting, last]
  | refuseAdmission acquired =>
      refine ⟨rfl, rfl, ?_⟩
      rw [AfterHandover.isLast_stageOnRefusal, ← BatcherStage.isLast_admitting, last]
  | handOver offered =>
      refine ⟨rfl, rfl, ?_⟩
      rw [AfterHandover.isLast_stage, ← BatcherStage.isLast_handing, last]
  | refuseWork offered =>
      refine ⟨rfl, rfl, ?_⟩
      rw [AfterHandover.isLast_stageOnRefusal, ← BatcherStage.isLast_handing, last]
  | closeWork => exact ⟨rfl, rfl, rfl⟩
  | _ => cases last

/-- What the batcher has made of the commands that it has carried out: the containers that the
builder completes, and the last one if the batcher has come to it. -/
def Batcher.Made (b₀ : Builder) (obeyed : List Command) (done : List Container) (t : Batcher)
    (s : Shared) : Prop :=
  (done = (b₀.obeyAll obeyed).1 ∧ t.builder = (b₀.obeyAll obeyed).2 ∧
      (t.stage.isLast = true → s.stopped = true)) ∨
    (t.stage.isLast = true ∧ done = b₀.batches obeyed ∧
      t.builder = (b₀.obeyAll obeyed).2.sealCurrent.2)

theorem Batcher.Made.go_on {b₀ b : Builder} {obeyed : List Command} {done : List Container}
    {stage stage' : BatcherStage} {s s' : Shared} (h : Made b₀ obeyed done ⟨b, stage⟩ s)
    (hlast : stage'.isLast = stage.isLast) (hstopped : s.stopped = true → s'.stopped = true) :
    Made b₀ obeyed done ⟨b, stage'⟩ s' := by
  rcases h with ⟨hdone, hbuilder, hrunning⟩ | ⟨hin, hdone, hbuilder⟩
  · exact Or.inl ⟨hdone, hbuilder, fun hin => hstopped (hrunning (hlast ▸ hin))⟩
  · exact Or.inr ⟨hlast.trans hin, hdone, hbuilder⟩

/-- The containers that were made have successive numbers, and the builder knows the next one. -/
theorem Batcher.Made.exists_row {threshold : UInt32} {first : Nat} {obeyed : List Command}
    {done : List Container} {t : Batcher} {s : Shared}
    (h : Made (.start threshold first) obeyed done t s) :
    ∃ groups, done = Container.row first groups ∧ (∀ g ∈ groups, Event.Group g) ∧
      t.builder.sealedCount = first + groups.length ∧
      groups.flatten <+: Command.events obeyed := by
  rcases h with ⟨rfl, hbuilder, -⟩ | ⟨-, rfl, hbuilder⟩
  · obtain ⟨groups, rest, hdone, hgroups, hevents, -, hcount⟩ :=
      Builder.cuts_obeyAll (Builder.holds_start threshold first) obeyed
    rw [List.nil_append] at hevents
    exact ⟨groups, hdone, hgroups, by rw [hbuilder]; exact hcount, rest, hevents⟩
  · obtain ⟨groups, hdone, hgroups, hevents, hcount⟩ :=
      Builder.exists_batches_eq_row threshold first obeyed
    exact ⟨groups, hdone, hgroups, by rw [hbuilder, hcount],
      [], by rw [List.append_nil, hevents]⟩

/-- **One move of the batcher makes of a command what the builder makes of it.** -/
theorem BatcherMove.made {b₀ b b' : Builder} {obeyed : List Command} {done : List Container}
    {stage stage' : BatcherStage} {s s' : Shared} {command : Option Command}
    {c : Option Container} (h : Batcher.Made b₀ obeyed done ⟨b, stage⟩ s)
    (move : BatcherMove b s stage b' stage' s' command c) :
    Batcher.Made b₀ (obeyed ++ command.toList) (done ++ c.toList) ⟨b', stage'⟩ s' := by
  have hstopped := move.shuts.stopped
  -- most moves carry out no command and seal nothing
  have hkept {stage' : BatcherStage} {s' : Shared}
      (hmade : Batcher.Made b₀ obeyed done ⟨b, stage'⟩ s') :
      Batcher.Made b₀ (obeyed ++ (none : Option Command).toList)
        (done ++ (none : Option Container).toList) ⟨b, stage'⟩ s' := by
    simpa using hmade
  cases move with
  | obey received =>
      rename_i command commands
      rcases h with ⟨hdone, hbuilder, -⟩ | ⟨hin, -⟩
      · replace hbuilder : b = _ := hbuilder
        have hlast : (Batcher.submitting (b.obey command).1 (Batcher.afterwards command)).isLast =
            false := by
          rw [Batcher.isLast_submitting]
          cases command <;> rfl
        refine Or.inl ⟨?_, ?_, fun hin => ?_⟩
        · rw [Option.toList_some, Builder.obeyAll_append, ← hdone, ← hbuilder]
          simp [Builder.obeyAll]
        · rw [Option.toList_some, Builder.obeyAll_append, ← hbuilder]
          rfl
        · rw [hlast] at hin
          cases hin
      · cases hin
  | sealLast running =>
      rcases h with ⟨hdone, hbuilder, -⟩ | ⟨hin, -⟩
      · replace hbuilder : b = _ := hbuilder
        refine Or.inr ⟨Batcher.isLast_submitting _ _, ?_, ?_⟩
        · rw [Option.toList_none, List.append_nil, Builder.batches_eq, ← hdone, ← hbuilder]
        · rw [Option.toList_none, List.append_nil, ← hbuilder]
      · cases hin
  | stop stopped =>
      rcases h with ⟨hdone, hbuilder, -⟩ | ⟨hin, -⟩
      · exact hkept (Or.inl ⟨hdone, hbuilder, fun _ => stopped⟩)
      · cases hin
  | drained received => exact hkept (h.go_on rfl hstopped)
  | grantAdmission acquired =>
      exact hkept (h.go_on ((BatcherStage.isLast_handing _ _).trans
        (BatcherStage.isLast_admitting _ _).symm) hstopped)
  | refuseAdmission acquired =>
      exact hkept (h.go_on ((AfterHandover.isLast_stageOnRefusal _).trans
        (BatcherStage.isLast_admitting _ _).symm) hstopped)
  | handOver offered =>
      exact hkept (h.go_on ((AfterHandover.isLast_stage _).trans
        (BatcherStage.isLast_handing _ _).symm) hstopped)
  | refuseWork offered =>
      exact hkept (h.go_on ((AfterHandover.isLast_stageOnRefusal _).trans
        (BatcherStage.isLast_handing _ _).symm) hstopped)
  | reply => exact hkept (h.go_on rfl hstopped)
  | closeWork => exact hkept (h.go_on rfl hstopped)

namespace Pipeline

/-- What has become of the commands: those that were carried out are the first that entered the
channel, and the others wait unless they were dropped. -/
structure Batched (b₀ : Builder) (log : History) (p : Pipeline) : Prop where
  queue : log.entered = log.obeyed ++ p.shared.commands.items ∨
    p.shared.commands.closed = true ∧ p.shared.commands.items = [] ∧ log.obeyed <+: log.entered
  made : p.batcher.Made b₀ log.obeyed log.sealed p.shared

theorem Batched.queue_move {b₀ : Builder} {log ms : History} {p p' : Pipeline} {actor : Actor}
    (h : Batched b₀ log p) (move : p.Move actor p' ms) :
    (log ++ ms).entered = (log ++ ms).obeyed ++ p'.shared.commands.items ∨
      p'.shared.commands.closed = true ∧ p'.shared.commands.items = [] ∧
        (log ++ ms).obeyed <+: (log ++ ms).entered := by
  have hclosed := move.shuts.commands
  rw [History.entered_append, History.obeyed_append]
  -- Either nothing was dropped so far, or nothing enters the channel any more.
  rcases h.queue with hqueue | ⟨hshut, hempty, hprefix⟩
  · rcases move.commands_cases with ⟨hitems, hobeyed, -⟩ | ⟨hitems, hentered⟩ |
      ⟨-, hshut', hempty', hentered, hobeyed⟩
    · left
      rw [hobeyed, List.append_nil, hitems, hqueue, List.append_assoc]
    · left
      rw [hentered, List.append_nil, hqueue, hitems, List.append_assoc]
    · refine Or.inr ⟨hshut', hempty', ?_⟩
      rw [hobeyed, hentered, List.append_nil, List.append_nil, hqueue]
      exact List.prefix_append ..
  · rcases move.commands_cases with ⟨hitems, hobeyed, hentered⟩ | ⟨hitems, hentered⟩ |
      ⟨-, hshut', hempty', hentered, hobeyed⟩
    · refine Or.inr ⟨hclosed hshut, ?_, ?_⟩
      · rw [hitems, hempty, hentered hshut, List.append_nil]
      · rw [hobeyed, hentered hshut, List.append_nil, List.append_nil]
        exact hprefix
    · rw [hempty] at hitems
      obtain ⟨hobeyed, hempty'⟩ := List.append_eq_nil_iff.1 hitems.symm
      refine Or.inr ⟨hclosed hshut, hempty', ?_⟩
      rw [hobeyed, hentered, List.append_nil, List.append_nil]
      exact hprefix
    · refine Or.inr ⟨hshut', hempty', ?_⟩
      rw [hobeyed, hentered, List.append_nil, List.append_nil]
      exact hprefix

theorem Batched.move {b₀ : Builder} {log ms : History} {p p' : Pipeline} {actor : Actor}
    (h : Batched b₀ log p) (move : p.Move actor p' ms) : Batched b₀ (log ++ ms) p' := by
  refine ⟨h.queue_move move, ?_⟩
  have hstopped := move.shuts.stopped
  rw [History.obeyed_append, History.sealed_append]
  cases move with
  | call present move =>
      rw [History.obeyed_call, History.sealed_call, List.append_nil, List.append_nil]
      exact h.made.go_on rfl hstopped
  | batcher move =>
      rw [History.obeyed_batcher, History.sealed_batcher]
      exact move.made h.made
  | worker present move =>
      have hnothing : History.obeyed [] = [] ∧ History.sealed [] = [] := ⟨rfl, rfl⟩
      rw [hnothing.1, hnothing.2, List.append_nil, List.append_nil]
      exact h.made.go_on rfl hstopped
  | scribe move =>
      rw [History.obeyed_scribe, History.sealed_scribe, List.append_nil, List.append_nil]
      exact h.made.go_on rfl hstopped

/-- **What has become of the commands**, at the end of every run. -/
theorem Run.batched {origin p : Pipeline} {log : History} (run : Run origin log p)
    (idle : origin.calls = []) (empty : origin.shared.commands.items = [])
    (receiving : origin.batcher.stage = .receiving) :
    Batched origin.batcher.builder log p := by
  refine run.invariant (Batched origin.batcher.builder) idle ⟨Or.inl ?_, Or.inl ⟨rfl, rfl, ?_⟩⟩
    ?_ (fun _ _ _ _ _ _ h move => h.move move)
  · rw [empty]
    rfl
  · rw [receiving]
    simp [BatcherStage.isLast]
  · rintro log p id request - ⟨hqueue, hmade⟩ -
    constructor
    · rw [History.entered_asked, History.obeyed_asked]
      exact hqueue
    · rw [History.obeyed_asked, History.sealed_asked]
      exact hmade

end Pipeline

end TraceLog
