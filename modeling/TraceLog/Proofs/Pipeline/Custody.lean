/-
**Every container is in one place.**

From the moment at which it is sealed until its record is taken, a container is in the hands of one
of the threads or waits in one of the queues between them.  No step makes a container or doubles
one; a thread drops one only if something has gone wrong, and what can have gone wrong is said here.

A worker makes a report of a container, so that what is followed has to be the same for both.  It
may be the report, which is determined by the codec, or the number that both of them carry.

Main definitions:

* `BatcherStage.hand`, `Worker.load`, `ScribeStage.hand` — what a thread has in its hands;
* `Pipeline.aboard` — what was handed to the workers and has not come to the resequencer, by
  whatever is the same for a container and the report on it;
* `Pipeline.underway` — the reports on all containers between the batcher and the resequencer;
* `Pipeline.Drops` — what makes someone drop a container.

Main results:

* `Pipeline.Move.aboard_eq`, `Pipeline.Move.aboard_of_batcher` — what a step does to it;
* `Pipeline.Move.custody` — **a step loses no container**, unless someone drops it;
* `Pipeline.Run.custody` — what is under way and what has arrived was sealed, container by
  container.
-/

import TraceLog.Proofs.Pipeline.History
import Mathlib.Algebra.Order.Group.Multiset
import Mathlib.Tactic.Abel

set_option relaxedAutoImplicit false
set_option autoImplicit false

namespace TraceLog

/-! ### Where containers are -/

/-- The container that the batcher has in its hands. -/
def BatcherStage.hand : BatcherStage → List Container
  | .admitting c _ | .handing c _ => [c]
  | _ => []

/-- The report on the container that a worker has in its hands; there will be none if the codec
crashes. -/
def Worker.load (codec : Codec) : Worker → List (Option Completion)
  | .holding c | .compressing c => [c.complete? codec]
  | .reporting completion => [some completion]
  | .idle | .crashed _ | .gone => []

/-- What is the same for a container and the report on it, of the one that a worker has in its
hands. -/
def Worker.cargo {β : Type} (ofContainer : Container → β) (ofReport : Completion → β) :
    Worker → List β
  | .holding c | .compressing c => [ofContainer c]
  | .reporting completion => [ofReport completion]
  | .idle | .crashed _ | .gone => []

theorem Worker.load_eq (codec : Codec) (w : Worker) :
    w.load codec = w.cargo (·.complete? codec) some := by
  cases w <;> rfl

/-- The report that the scribe has in its hands. -/
def ScribeStage.hand : ScribeStage → List Completion
  | .handling completion => [completion]
  | _ => []

theorem hand_submitting (done : Option Container) (after : AfterHandover) :
    (Batcher.submitting done after).hand = done.toList := by
  cases done with
  | none => cases after <;> rfl
  | some c => rfl

@[simp] theorem AfterHandover.hand_stage (after : AfterHandover) : after.stage.hand = [] := by
  cases after <;> rfl

@[simp] theorem AfterHandover.hand_stageOnRefusal (after : AfterHandover) :
    after.stageOnRefusal.hand = [] := by
  cases after <;> rfl

@[simp] theorem Worker.cargo_halting {β : Type} (ofContainer : Container → β)
    (ofReport : Completion → β) (steps : List HaltStep) :
    (Worker.halting steps).cargo ofContainer ofReport = [] := by
  cases steps <;> rfl

namespace Pipeline

/-- The containers that no worker has taken yet. -/
def unclaimed (p : Pipeline) : Multiset Container := ↑p.batcher.stage.hand + ↑p.shared.work.items

/-- The reports that the scribe has not looked at yet. -/
def reported (p : Pipeline) : Multiset Completion :=
  ↑p.completions.items + ↑p.scribe.stage.hand

/-- What was handed to the workers and has not come to the resequencer, by whatever is the same for
a container and the report on it. -/
def aboard {β : Type} (ofContainer : Container → β) (ofReport : Completion → β) (p : Pipeline) :
    Multiset β :=
  (p.shared.work.items : Multiset Container).map ofContainer +
    ↑(p.workers.flatMap (·.cargo ofContainer ofReport)) + p.reported.map ofReport

/-- Nothing was handed to the workers that has not arrived if the workers have nothing in their
hands, and nothing waits on either side of them. -/
theorem aboard_eq_zero {p : Pipeline} {β : Type} {ofContainer : Container → β}
    {ofReport : Completion → β} (work : p.shared.work.items = [])
    (free : ∀ w ∈ p.workers, w.cargo ofContainer ofReport = [])
    (reported : p.completions.items = []) (hand : p.scribe.stage.hand = []) :
    p.aboard ofContainer ofReport = 0 := by
  rw [aboard, Pipeline.reported, work, List.flatMap_eq_nil_iff.2 free, reported, hand]
  rfl

/-- The reports on all containers between the batcher and the resequencer, those included that have
still to be made. -/
def underway (p : Pipeline) : Multiset (Option Completion) :=
  p.unclaimed.map (·.complete? p.codec) + ↑(p.workers.flatMap (·.load p.codec)) +
    p.reported.map some

theorem underway_eq (p : Pipeline) :
    p.underway = (p.batcher.stage.hand : Multiset Container).map (·.complete? p.codec) +
      p.aboard (·.complete? p.codec) some := by
  simp only [underway, unclaimed, aboard, Worker.load_eq, Multiset.map_add, add_assoc]

end Pipeline

namespace History

/-- The reports on the containers that were sealed. -/
def departed (log : History) (codec : Codec) : Multiset (Option Completion) :=
  (log.sealed : Multiset Container).map (·.complete? codec)

/-- The reports whose records were taken. -/
def arrived (log : History) : Multiset (Option Completion) :=
  (log.taken : Multiset Record).map fun r => some (.done r)

@[simp] theorem departed_append (xs ys : History) (codec : Codec) :
    departed (xs ++ ys) codec = departed xs codec + departed ys codec := by
  rw [departed, sealed_append, ← Multiset.coe_add, Multiset.map_add, departed, departed]

@[simp] theorem arrived_append (xs ys : History) :
    arrived (xs ++ ys) = arrived xs + arrived ys := by
  rw [arrived, taken_append, ← Multiset.coe_add, Multiset.map_add, arrived, arrived]

end History

/-! ### What makes someone drop a container -/

/-- What makes the batcher drop the container in its hands. -/
inductive Batcher.Drops (stage : BatcherStage) (s : Shared) : Prop where
  | barred (shut : s.budget.closed = true)
  | shutOut (shut : s.work.closed = true) (busy : stage.hand ≠ [])

/-- What makes a worker drop the container in its hands, or those that wait. -/
inductive Worker.Drops (codec : Codec) (s : Shared) (out : Completions) (w : Worker) : Prop where
  | stopped (stopped : s.stopped = true)
  | crashing {c : Container} (runs : w = .compressing c) (crashes : c.complete? codec = none)
  | unheard (deaf : out.listening = false) (busy : w.load codec ≠ [])
  | halting {steps : List HaltStep} (halts : w = .crashed steps)

/-- What makes the scribe drop reports, or containers that wait. -/
inductive Scribe.Drops (t : Scribe) (s : Shared) (inbox : Completions) : Prop where
  | stopped (stopped : s.stopped = true)
  | leaving (last : t.stage = .flushingLast) (late : inbox.items ≠ [])
  | refused {record : Record} {error : Error} (handles : t.stage = .handling (.done record))
      (refusal : (t.writer.accept record).1 = .error error)
  | failed {sequence : Nat} {error : Error}
      (handles : t.stage = .handling (.failed sequence error))
  | halting {steps : List HaltStep} (halts : t.stage = .halting steps)

/-- What makes someone drop a container. -/
def Pipeline.Drops (p : Pipeline) : Actor → Prop
  | .call id => ∃ steps, p.stage? id = some (.halting steps)
  | .batcher => Batcher.Drops p.batcher.stage p.shared
  | .worker index =>
      ∃ w, p.workers[index]? = some w ∧ w.Drops p.codec p.shared p.completions
  | .scribe => p.scribe.Drops p.shared p.completions

namespace Pipeline

/-- The steps of stopping the pipeline that someone has still to take. -/
def halting? (p : Pipeline) : Actor → Option (List HaltStep)
  | .call id =>
      match p.stage? id with
      | some (.halting steps) => some steps
      | _ => none
  | .batcher => none
  | .worker index =>
      match p.workers[index]? with
      | some (.crashed steps) => some steps
      | _ => none
  | .scribe =>
      match p.scribe.stage with
      | .halting steps => some steps
      | _ => none

theorem halting?_call_iff {p : Pipeline} {id : Nat} {steps : List HaltStep} :
    p.halting? (.call id) = some steps ↔ p.stage? id = some (.halting steps) := by
  simp only [halting?]
  split
  · rename_i hstage
    simp [hstage]
  · rename_i hother
    simp only [reduceCtorEq, false_iff]
    exact fun hstage => hother _ hstage

theorem halting?_worker_iff {p : Pipeline} {index : Nat} {steps : List HaltStep} :
    p.halting? (.worker index) = some steps ↔ p.workers[index]? = some (.crashed steps) := by
  simp only [halting?]
  split
  · rename_i hw
    simp [hw]
  · rename_i hother
    simp only [reduceCtorEq, false_iff]
    exact fun hw => hother _ hw

theorem halting?_scribe_iff {p : Pipeline} {steps : List HaltStep} :
    p.halting? .scribe = some steps ↔ p.scribe.stage = .halting steps := by
  simp only [halting?]
  split
  · rename_i hstage
    simp [hstage]
  · rename_i hother
    simp only [reduceCtorEq, false_iff]
    exact fun hstage => hother _ hstage

/-- Who stops the pipeline drops what waits. -/
theorem drops_of_halting {p : Pipeline} {actor : Actor} {steps : List HaltStep}
    (h : p.halting? actor = some steps) : p.Drops actor := by
  cases actor with
  | call id => exact ⟨steps, halting?_call_iff.1 h⟩
  | batcher => cases h
  | worker index => exact ⟨_, halting?_worker_iff.1 h, .halting rfl⟩
  | scribe => exact .halting (halting?_scribe_iff.1 h)

end Pipeline

/-! ### Queues -/

namespace Completions

theorem items_of_send {c c' : Completions} {completion : Completion}
    (h : c.send completion = .accepted c') :
    c'.items = c.items ++ [completion] ∧ c'.senders = c.senders ∧ c'.listening = c.listening := by
  unfold send at h
  split at h
  · cases h
  · split at h
    · cases h
      exact ⟨rfl, rfl, rfl⟩
    · cases h

theorem items_of_receive {c c' : Completions} {completion : Completion}
    (h : c.receive = .item completion c') :
    c.items = completion :: c'.items ∧ c'.senders = c.senders ∧ c'.listening = c.listening := by
  unfold receive at h
  split at h
  · rename_i hitems
    cases h
    exact ⟨hitems, rfl, rfl⟩
  · split at h <;> cases h

theorem not_listening_of_ignored {c : Completions} {completion : Completion}
    (h : c.send completion = .ignored) : c.listening = false := by
  unfold send at h
  split at h
  · rename_i hlistening
    simpa using hlistening
  · split at h <;> cases h

end Completions

theorem Budget.closed_of_acquire? {b b' : Budget} {bytes : Nat}
    (h : b.acquire? bytes = some (false, b')) : b.closed = true := by
  unfold acquire? at h
  split at h
  · cases h
  · split at h
    · rename_i hclosed
      exact hclosed
    · cases h

/-- Stopping drops the containers that wait, or leaves them alone. -/
theorem HaltStep.work_apply (step : HaltStep) (s : Shared) :
    (step.apply s).work.items = s.work.items ∨ (step.apply s).work.items = [] := by
  cases step <;> first | exact Or.inl rfl | exact Or.inr rfl

/-! ### What one move does -/

/-- The batcher hands on what it has in its hands, and takes what it has sealed. -/
theorem BatcherMove.custody {b b' : Builder} {s s' : Shared} {stage stage' : BatcherStage}
    {command : Option Command} {c : Option Container}
    (move : BatcherMove b s stage b' stage' s' command c) :
    (↑stage'.hand + ↑s'.work.items : Multiset Container) =
        ↑stage.hand + ↑s.work.items + ↑c.toList ∨
      Batcher.Drops stage s ∧ (↑stage'.hand + ↑s'.work.items : Multiset Container) ≤
        ↑stage.hand + ↑s.work.items + ↑c.toList := by
  cases move with
  | obey received =>
      left
      rw [hand_submitting]
      simp [BatcherStage.hand, add_comm]
  | drained received => left; simp [BatcherStage.hand]
  | grantAdmission acquired => left; simp [BatcherStage.hand]
  | refuseAdmission acquired =>
      right
      refine ⟨.barred (Budget.closed_of_acquire? acquired), ?_⟩
      rw [AfterHandover.hand_stageOnRefusal]
      simpa [BatcherStage.hand] using (List.sublist_cons_self _ _).subperm
  | handOver offered =>
      left
      rw [(Channel.items_of_offer offered).1, AfterHandover.hand_stage]
      simp [BatcherStage.hand, ← Multiset.coe_add, add_comm]
  | refuseWork offered =>
      right
      refine ⟨.shutOut (Channel.closed_of_offer offered) (by simp [BatcherStage.hand]), ?_⟩
      rw [AfterHandover.hand_stageOnRefusal]
      simpa [BatcherStage.hand] using (List.sublist_cons_self _ _).subperm
  | reply => left; simp [BatcherStage.hand, Shared.reply]
  | stop stopped => left; simp [BatcherStage.hand]
  | sealLast running =>
      left
      rw [hand_submitting]
      simp [BatcherStage.hand, add_comm]
  | closeWork => left; simp [BatcherStage.hand, Channel.close]

/-- A worker takes a container and passes on the report on it. -/
theorem WorkerMove.custody {β : Type} {ofContainer : Container → β} {ofReport : Completion → β}
    {codec : Codec} {s s' : Shared} {out out' : Completions} {w w' : Worker}
    (move : WorkerMove codec s out w w' s' out')
    (agrees : ∀ c completion, w = .compressing c → c.complete? codec = some completion →
      ofReport completion = ofContainer c) :
    ((s'.work.items : Multiset Container).map ofContainer + ↑(w'.cargo ofContainer ofReport) +
        (out'.items : Multiset Completion).map ofReport =
      (s.work.items : Multiset Container).map ofContainer + ↑(w.cargo ofContainer ofReport) +
        (out.items : Multiset Completion).map ofReport) ∨
    w.Drops codec s out ∧
      (s'.work.items : Multiset Container).map ofContainer + ↑(w'.cargo ofContainer ofReport) +
        (out'.items : Multiset Completion).map ofReport ≤
      (s.work.items : Multiset Container).map ofContainer + ↑(w.cargo ofContainer ofReport) +
        (out.items : Multiset Completion).map ofReport := by
  -- whoever leaves with a container drops just that one
  have hgone (a b c : Multiset β) : a + (([] : List β) : Multiset β) + c ≤ a + b + c := by
    gcongr
    exact Multiset.zero_le b
  cases move with
  | take received =>
      left
      rw [(Channel.items_of_receive received).1, ← Multiset.cons_coe, Multiset.map_cons,
        Worker.cargo, Worker.cargo, Multiset.coe_nil, Multiset.coe_singleton,
        ← Multiset.singleton_add]
      abel
  | drained received => exact Or.inl rfl
  | begin running => exact Or.inl rfl
  | abandon stopped => exact Or.inr ⟨.stopped stopped, hgone ..⟩
  | compress completed =>
      left
      rw [Worker.cargo, Worker.cargo, agrees _ _ rfl completed]
  | crash lost => exact Or.inr ⟨.crashing rfl lost, hgone ..⟩
  | report sent =>
      left
      rw [(Completions.items_of_send sent).1, ← Multiset.coe_add, Multiset.map_add, Worker.cargo,
        Worker.cargo, Multiset.coe_nil, Multiset.coe_singleton, Multiset.coe_singleton,
        Multiset.map_singleton]
      abel
  | ignored sent =>
      have hdeaf := Completions.not_listening_of_ignored sent
      exact Or.inr ⟨.unheard hdeaf (by simp [Worker.load]), hgone ..⟩
  | vanish => exact Or.inl rfl
  | halt =>
      rename_i step steps
      rw [Worker.cargo_halting, Worker.cargo]
      rcases step.work_apply s with hwork | hwork
      · exact Or.inl (by rw [hwork])
      · right
        refine ⟨.halting rfl, ?_⟩
        rw [hwork]
        gcongr
        exact Multiset.zero_le _

/-- The scribe receives a report and takes the record. -/
theorem ScribeMove.custody {w w' : Resequencer} {s s' : Shared} {inbox inbox' : Completions}
    {stage stage' : ScribeStage} {record : Option Record}
    (move : ScribeMove w s inbox stage w' stage' s' inbox' record) :
    (s'.work.items = s.work.items ∧
      (↑inbox'.items + ↑stage'.hand + ↑(record.map Completion.done).toList : Multiset Completion) =
        ↑inbox.items + ↑stage.hand) ∨
    Scribe.Drops ⟨w, stage⟩ s inbox ∧ (s'.work.items : Multiset Container) ≤ s.work.items ∧
      (↑inbox'.items + ↑stage'.hand + ↑(record.map Completion.done).toList : Multiset Completion) ≤
        ↑inbox.items + ↑stage.hand := by
  cases move with
  | receive listens received =>
      left
      rw [(Completions.items_of_receive received).1, ← Multiset.cons_coe,
        ← Multiset.singleton_add]
      cases listens <;> simp [ScribeStage.hand, add_comm]
  | rest received => left; simp [ScribeStage.hand]
  | disconnected listens received => left; cases listens <;> simp [ScribeStage.hand]
  | publish goes flushed => left; cases goes <;> simp [ScribeStage.hand]
  | publishLast flushed =>
      by_cases hitems : inbox.items = []
      · left
        simp [ScribeStage.hand, Completions.ignore, hitems]
      · right
        exact ⟨.leaving rfl hitems, le_refl _, Multiset.zero_le _⟩
  | flushFailed flushes flushed => left; cases flushes <;> simp [ScribeStage.hand]
  | drop stopped =>
      right
      refine ⟨.stopped stopped, le_refl _, ?_⟩
      simp [ScribeStage.hand]
  | take running accepted => left; simp [ScribeStage.hand]
  | refuse running accepted =>
      right
      refine ⟨.refused rfl (by rw [accepted]), le_refl _, ?_⟩
      simp [ScribeStage.hand]
  | failed running =>
      right
      refine ⟨.failed rfl, le_refl _, ?_⟩
      simp [ScribeStage.hand]
  | release => left; simp [ScribeStage.hand]
  | wanted wants => left; simp [ScribeStage.hand]
  | unwanted wants => left; simp [ScribeStage.hand]
  | leave stopped =>
      right
      exact ⟨.stopped stopped, le_refl _, Multiset.zero_le _⟩
  | last running => left; simp [ScribeStage.hand]
  | halt =>
      rename_i step steps
      rcases step.work_apply s with hwork | hwork
      · left
        simp [ScribeStage.hand, hwork]
      · right
        refine ⟨.halting rfl, ?_, by simp [ScribeStage.hand]⟩
        rw [hwork]
        exact Multiset.zero_le _
  | halted => left; simp [ScribeStage.hand]

/-- A call does nothing to containers, unless it stops the pipeline. -/
theorem CallMove.custody {p : Pipeline} {id : Nat} {stage stage' : CallStage} {shared : Shared}
    {desk : Desk} {file : Option Sink} {command : Option Command}
    (move : CallMove p id stage shared desk file stage' command) :
    shared.work.items = p.shared.work.items ∨
      (∃ steps, stage = .halting steps) ∧ shared.work.items = [] := by
  cases move with
  | halt =>
      rename_i step steps
      rcases step.work_apply p.shared with hwork | hwork
      · exact Or.inl hwork
      · exact Or.inr ⟨⟨_, rfl⟩, hwork⟩
  | takeReply replied =>
      obtain ⟨sealedCount, -, hreply⟩ := Option.map_eq_some_iff.1 replied
      cases hreply
      exact Or.inl rfl
  | _ => exact Or.inl rfl

/-! ### What one step does -/

/-- The list with one worker replaced by another. -/
theorem exists_append_of_getElem? {α : Type} {xs : List α} {index : Nat} {x : α}
    (present : xs[index]? = some x) :
    ∃ before behind, xs = before ++ x :: behind ∧
      ∀ y, xs.set index y = before ++ y :: behind := by
  obtain ⟨hindex, hx⟩ := List.getElem?_eq_some_iff.1 present
  refine ⟨xs.take index, xs.drop (index + 1), ?_, fun y => ?_⟩
  · rw [← hx, ← List.drop_eq_getElem_cons hindex, List.take_append_drop]
  · rw [List.set_eq_take_append_cons_drop, if_pos hindex]

namespace Pipeline

/-- What a step does to what was handed to the workers, if it is not one of the batcher: nothing is
sealed, and nothing is lost unless someone drops it. -/
theorem Move.aboard_eq {p p' : Pipeline} {actor : Actor} {ms : History} (move : p.Move actor p' ms)
    (other : actor ≠ .batcher) {β : Type} (ofContainer : Container → β) (ofReport : Completion → β)
    (agrees : ∀ c completion, .compressing c ∈ p.workers → c.complete? p.codec = some completion →
      ofReport completion = ofContainer c) :
    p'.batcher = p.batcher ∧ ms.sealed = [] ∧
      (p'.aboard ofContainer ofReport +
            (ms.taken : Multiset Record).map (fun r => ofReport (.done r)) =
          p.aboard ofContainer ofReport ∨
        p.Drops actor ∧ p'.aboard ofContainer ofReport +
            (ms.taken : Multiset Record).map (fun r => ofReport (.done r)) ≤
          p.aboard ofContainer ofReport) := by
  cases move with
  | batcher move => exact absurd rfl other
  | call present move =>
      rename_i id stage stage' shared desk file command
      rw [History.taken_call, Multiset.coe_nil, Multiset.map_zero, add_zero]
      refine ⟨rfl, History.sealed_call _ _ _, ?_⟩
      simp only [aboard, reported, shared_moved, workers_moved, completions_moved, scribe_moved]
      rcases move.custody with hwork | ⟨⟨steps, hsteps⟩, hwork⟩
      · exact Or.inl (by rw [hwork])
      · refine Or.inr ⟨⟨steps, by rw [present, hsteps]⟩, ?_⟩
        rw [hwork]
        gcongr
        exact Multiset.zero_le _
  | worker present move =>
      rename_i index w w' shared completions
      refine ⟨rfl, rfl, ?_⟩
      obtain ⟨before, behind, hold, hnew⟩ := exists_append_of_getElem? present
      -- the queues on both sides of the worker, apart from everything else
      have hsplit (v : Worker) (work : List Container) (items : List Completion) :
          (work : Multiset Container).map ofContainer +
              ↑((before ++ v :: behind).flatMap (·.cargo ofContainer ofReport)) +
              (↑items + ↑p.scribe.stage.hand : Multiset Completion).map ofReport =
            ((work : Multiset Container).map ofContainer + ↑(v.cargo ofContainer ofReport) +
              (items : Multiset Completion).map ofReport) +
            (↑(before.flatMap (·.cargo ofContainer ofReport)) +
              ↑(behind.flatMap (·.cargo ofContainer ofReport)) +
              (p.scribe.stage.hand : Multiset Completion).map ofReport) := by
        rw [List.flatMap_append, List.flatMap_cons, ← Multiset.coe_add, ← Multiset.coe_add,
          Multiset.map_add]
        abel
      have htaken : History.taken [] = [] := rfl
      rw [htaken, Multiset.coe_nil, Multiset.map_zero, add_zero]
      have hagrees : ∀ c completion, w = .compressing c → c.complete? p.codec = some completion →
          ofReport completion = ofContainer c := fun c completion hw =>
        agrees c completion (hw ▸ List.mem_of_getElem? present)
      simp only [aboard, reported, hnew w']
      rw [hold, hsplit, hsplit]
      rcases move.custody hagrees with heq | ⟨hdrops, hle⟩
      · exact Or.inl (by rw [heq])
      · exact Or.inr ⟨⟨w, present, hdrops⟩, by gcongr⟩
  | scribe move =>
      rename_i writer stage shared completions record
      have htaken : ((History.taken (record.map Moment.taken).toList : List Record) :
          Multiset Record).map (fun r => ofReport (.done r)) =
            ((record.map Completion.done).toList : Multiset Completion).map ofReport := by
        cases record <;> rfl
      rw [htaken]
      refine ⟨rfl, History.sealed_scribe _, ?_⟩
      simp only [aboard, reported]
      rw [add_assoc, ← Multiset.map_add]
      rcases move.custody with ⟨hwork, heq⟩ | ⟨hdrops, hwork, hle⟩
      · exact Or.inl (by rw [hwork, heq])
      · refine Or.inr ⟨hdrops, ?_⟩
        gcongr

/-- What a step of the batcher does to what was handed to the workers: it adds what leaves the
batcher's hands, and nothing is lost unless it is dropped. -/
theorem Move.aboard_of_batcher {p p' : Pipeline} {ms : History} (move : p.Move .batcher p' ms)
    {β : Type} (ofContainer : Container → β) (ofReport : Completion → β) :
    ms.taken = [] ∧
      ((p'.batcher.stage.hand : Multiset Container).map ofContainer +
            p'.aboard ofContainer ofReport =
          (p.batcher.stage.hand : Multiset Container).map ofContainer +
            p.aboard ofContainer ofReport + (ms.sealed : Multiset Container).map ofContainer ∨
        p.Drops .batcher ∧ (p'.batcher.stage.hand : Multiset Container).map ofContainer +
            p'.aboard ofContainer ofReport ≤
          (p.batcher.stage.hand : Multiset Container).map ofContainer +
            p.aboard ofContainer ofReport + (ms.sealed : Multiset Container).map ofContainer) := by
  cases move with
  | batcher move =>
      rename_i builder stage shared command c
      refine ⟨History.taken_batcher _ _, ?_⟩
      rw [History.sealed_batcher]
      -- the containers that no worker has taken, apart from everything else
      have hsplit (hand work more : List Container) (others : Multiset β) :
          (hand : Multiset Container).map ofContainer +
              ((work : Multiset Container).map ofContainer + others) +
              (more : Multiset Container).map ofContainer =
            (↑hand + ↑work + ↑more : Multiset Container).map ofContainer + others := by
        rw [Multiset.map_add, Multiset.map_add]
        abel
      have hsplit' (hand work : List Container) (others : Multiset β) :
          (hand : Multiset Container).map ofContainer +
              ((work : Multiset Container).map ofContainer + others) =
            (↑hand + ↑work : Multiset Container).map ofContainer + others := by
        rw [Multiset.map_add, add_assoc]
      simp only [aboard, reported]
      rw [add_assoc, hsplit', add_assoc _ _ (Multiset.map ofReport _), hsplit]
      rcases move.custody with heq | ⟨hdrops, hle⟩
      · exact Or.inl (by rw [heq])
      · refine Or.inr ⟨hdrops, ?_⟩
        gcongr

/-- The codec stays. -/
theorem Move.codec_eq {p p' : Pipeline} {actor : Actor} {ms : History}
    (move : p.Move actor p' ms) : p'.codec = p.codec := by
  cases move <;> rfl

/-- **A step loses no container**, unless someone drops it; and it makes none and doubles none. -/
theorem Move.custody {p p' : Pipeline} {actor : Actor} {ms : History}
    (move : p.Move actor p' ms) :
    p'.codec = p.codec ∧
      (p'.underway + History.arrived ms = p.underway + History.departed ms p.codec ∨
        p.Drops actor ∧
          p'.underway + History.arrived ms ≤ p.underway + History.departed ms p.codec) := by
  have hcodec := move.codec_eq
  refine ⟨hcodec, ?_⟩
  rw [underway_eq, underway_eq, hcodec, History.arrived, History.departed]
  by_cases hactor : actor = .batcher
  · subst hactor
    obtain ⟨htaken, hcargo⟩ := move.aboard_of_batcher (·.complete? p.codec) some
    rw [htaken, Multiset.coe_nil, Multiset.map_zero, add_zero]
    exact hcargo
  · obtain ⟨hbatcher, hsealed, hcargo⟩ := move.aboard_eq hactor (·.complete? p.codec) some
      fun c completion _ completed => completed.symm
    rw [hsealed, hbatcher, Multiset.coe_nil, Multiset.map_zero, add_zero, add_assoc]
    rcases hcargo with heq | ⟨hdrops, hle⟩
    · exact Or.inl (by rw [heq])
    · exact Or.inr ⟨hdrops, by gcongr⟩

/-- What is under way and what has arrived was sealed, container by container. -/
theorem Run.custody {origin p : Pipeline} {log : History} (run : Run origin log p)
    (idle : origin.calls = []) (empty : origin.underway = 0) :
    p.codec = origin.codec ∧ p.underway + log.arrived ≤ log.departed p.codec := by
  -- The codec is carried along, for the reports are those of one and the same codec.
  refine run.invariant (fun log p => p.codec = origin.codec ∧
    p.underway + log.arrived ≤ log.departed p.codec) idle ⟨rfl, by rw [empty]; rfl⟩ ?_ ?_
  · rintro log p id request - ⟨hcodec, hle⟩ -
    rw [History.arrived, History.taken_asked, History.departed, History.sealed_asked]
    exact ⟨hcodec, hle⟩
  · rintro log p actor p' ms - ⟨hcodec, hle⟩ move
    obtain ⟨hcodec', hmove⟩ := move.custody
    have hle' : p'.underway + History.arrived ms ≤ p.underway + History.departed ms p.codec := by
      rcases hmove with heq | ⟨-, hle'⟩
      · exact le_of_eq heq
      · exact hle'
    refine ⟨hcodec'.trans hcodec, ?_⟩
    rw [History.arrived_append, History.departed_append, hcodec']
    calc p'.underway + (log.arrived + History.arrived ms)
        = (p'.underway + History.arrived ms) + log.arrived := by abel
      _ ≤ (p.underway + History.departed ms p.codec) + log.arrived := by gcongr
      _ = (p.underway + log.arrived) + History.departed ms p.codec := by abel
      _ ≤ log.departed p.codec + History.departed ms p.codec := by gcongr

end Pipeline

end TraceLog
