/-
**Bytes that are taken out and put back.**

A container that was sealed waits until the budget admits it; then its framed bytes are in flight.
The scribe puts bytes back after it has taken a record.  These are the only moves that change the
books, and the limit is kept by whoever is admitted unless nothing else is in flight.

Main definitions:

* `Container.weight`, `Record.weight` — the framed bytes of containers, and of those that became
  records;
* `BatcherStage.unadmitted`, `BatcherStage.admitted` — the container that waits to be admitted, and
  the one that was admitted;
* `Pipeline.admitting?`, `Pipeline.releasing?` — what a step has admitted, and what it puts back.

Main results:

* `Budget.le_limit_of_acquire?` — who is admitted keeps the limit, or is alone;
* `BatcherMove.admitting_cases`, `ScribeMove.releasing_cases` — **what a move does to the books**;
* `Pipeline.Run.limit_eq` — the limit stays.
-/

import TraceLog.Proofs.Pipeline.Endings
import TraceLog.Proofs.Records
import Mathlib.Algebra.BigOperators.Group.Multiset.Basic
import Mathlib.Algebra.Order.BigOperators.Group.List
import Mathlib.Algebra.Order.Group.Nat

set_option relaxedAutoImplicit false
set_option autoImplicit false

namespace TraceLog

/-! ### What is weighed -/

/-- The framed bytes of some containers. -/
def Container.weight (cs : List Container) : Nat := (cs.map (·.length)).sum

/-- The framed bytes of the containers that some records were made of. -/
def Record.weight (rs : List Record) : Nat := (rs.map (·.header.rawSize.toNat)).sum

theorem Container.weight_append (xs ys : List Container) :
    weight (xs ++ ys) = weight xs + weight ys := by
  simp [weight]

theorem Record.weight_append (xs ys : List Record) : weight (xs ++ ys) = weight xs + weight ys := by
  simp [weight]

theorem Container.weight_perm {xs ys : List Container} (h : xs.Perm ys) : weight xs = weight ys :=
  (h.map _).sum_eq

theorem Record.weight_perm {xs ys : List Record} (h : xs.Perm ys) : weight xs = weight ys :=
  (h.map _).sum_eq

theorem Record.weight_flatten (rows : List (List Record)) :
    weight rows.flatten = (rows.map weight).sum := by
  induction rows with
  | nil => rfl
  | cons row rows ih => rw [List.flatten_cons, weight_append, ih, List.map_cons, List.sum_cons]

/-- Containers that are not empty have bytes. -/
theorem Container.eq_nil_of_weight {cs : List Container} (positive : ∀ c ∈ cs, 0 < c.length)
    (h : weight cs = 0) : cs = [] := by
  cases cs with
  | nil => rfl
  | cons c cs =>
      have := positive c List.mem_cons_self
      simp only [weight, List.map_cons, List.sum_cons] at h
      omega

/-- A record says how many framed bytes its container had. -/
theorem Container.rawSize_of_complete? {codec : Codec} {c : Container} {r : Record}
    (h : c.complete? codec = some (.done r)) : r.header.rawSize.toNat = c.length := by
  obtain ⟨answer, -, hraw, -, rfl⟩ := complete?_eq_done_iff.1 h
  exact UInt32.toNat_ofNat_of_lt' hraw

/-! ### The budget -/

theorem Budget.inFlight_of_acquire? {b b' : Budget} {bytes : Nat}
    (h : b.acquire? bytes = some (true, b')) : b'.inFlight = b.inFlight + bytes := by
  unfold acquire? at h
  split at h
  · cases h
  · split at h
    · cases h
    · cases h
      rfl

theorem Budget.eq_of_acquire?_false {b b' : Budget} {bytes : Nat}
    (h : b.acquire? bytes = some (false, b')) : b' = b := by
  unfold acquire? at h
  split at h
  · cases h
  · split at h <;> cases h
    rfl

theorem Budget.limit_of_acquire? {b b' : Budget} {bytes : Nat} {admitted : Bool}
    (h : b.acquire? bytes = some (admitted, b')) : b'.limit = b.limit := by
  unfold acquire? at h
  split at h
  · cases h
  · split at h <;> cases h <;> rfl

/-- Who is admitted keeps the limit, unless nothing else is in flight. -/
theorem Budget.le_limit_of_acquire? {b b' : Budget} {bytes : Nat}
    (h : b.acquire? bytes = some (true, b')) :
    b.inFlight = 0 ∨ b'.inFlight ≤ b'.limit := by
  unfold acquire? at h
  split at h
  · cases h
  · rename_i hwait
    split at h
    · cases h
    · rename_i hclosed
      cases h
      simp only [mustWait, hclosed, Bool.and_eq_true, decide_eq_true_eq] at hwait
      simp only
      by_contra hboth
      rw [not_or] at hboth
      exact hwait ⟨⟨by decide, by omega⟩, by omega⟩

/-! ### What leaves the books alone -/

/-- Stopping leaves the books alone. -/
theorem HaltStep.books_apply (step : HaltStep) (s : Shared) :
    (step.apply s).budget.inFlight = s.budget.inFlight ∧
      (step.apply s).budget.limit = s.budget.limit := by
  cases step <;> exact ⟨rfl, rfl⟩

theorem CallMove.books_eq {p : Pipeline} {id : Nat} {stage stage' : CallStage} {shared : Shared}
    {desk : Desk} {file : Option Sink} {command : Option Command}
    (move : CallMove p id stage shared desk file stage' command) :
    shared.budget.inFlight = p.shared.budget.inFlight ∧
      shared.budget.limit = p.shared.budget.limit := by
  cases move with
  | takeReply replied =>
      obtain ⟨replies, rfl⟩ := Shared.eq_of_takeReply? replied
      exact ⟨rfl, rfl⟩
  | halt => exact HaltStep.books_apply _ _
  | _ => exact ⟨rfl, rfl⟩

theorem WorkerMove.books_eq {codec : Codec} {s s' : Shared} {out out' : Completions}
    {w w' : Worker} (move : WorkerMove codec s out w w' s' out') :
    s'.budget.inFlight = s.budget.inFlight ∧ s'.budget.limit = s.budget.limit := by
  cases move with
  | halt => exact HaltStep.books_apply _ _
  | _ => exact ⟨rfl, rfl⟩

/-! ### What a step admits and puts back -/

/-- The container that waits to be admitted. -/
def BatcherStage.unadmitted : BatcherStage → List Container
  | .admitting c _ => [c]
  | _ => []

/-- The container that the batcher has in its hands after it was admitted. -/
def BatcherStage.admitted : BatcherStage → List Container
  | .handing c _ => [c]
  | _ => []

/-- The bytes that the scribe is about to put back. -/
def ScribeStage.releasing? : ScribeStage → Option Nat
  | .releasing bytes => some bytes
  | _ => none

/-- The container that the batcher is about to have admitted. -/
def Batcher.admitting? (t : Batcher) (s : Shared) : Option Container :=
  match t.stage with
  | .admitting c _ =>
      match s.budget.acquire? c.length with
      | some (true, _) => some c
      | _ => none
  | _ => none

namespace Pipeline

/-- The container that a step has admitted. -/
def admitting? (p : Pipeline) : Actor → Option Container
  | .batcher => p.batcher.admitting? p.shared
  | _ => none

/-- The bytes that a step puts back. -/
def releasing? (p : Pipeline) : Actor → Option Nat
  | .scribe => p.scribe.stage.releasing?
  | _ => none

end Pipeline

theorem unadmitted_submitting (done : Option Container) (after : AfterHandover) :
    (Batcher.submitting done after).unadmitted = done.toList := by
  cases done with
  | none => cases after <;> rfl
  | some c => rfl

@[simp] theorem AfterHandover.unadmitted_stage (after : AfterHandover) :
    after.stage.unadmitted = [] := by
  cases after <;> rfl

@[simp] theorem AfterHandover.admitted_stage (after : AfterHandover) :
    after.stage.admitted = [] := by
  cases after <;> rfl

@[simp] theorem AfterHandover.admitted_stageOnRefusal (after : AfterHandover) :
    after.stageOnRefusal.admitted = [] := by
  cases after <;> rfl

@[simp] theorem AfterHandover.unadmitted_stageOnRefusal (after : AfterHandover) :
    after.stageOnRefusal.unadmitted = [] := by
  cases after <;> rfl

theorem admitted_submitting (done : Option Container) (after : AfterHandover) :
    (Batcher.submitting done after).admitted = [] := by
  cases done with
  | none => exact after.admitted_stage
  | some c => rfl

/-- What is about to be admitted waits for it. -/
theorem Batcher.admitting?_sublist (t : Batcher) (s : Shared) :
    (t.admitting? s).toList.Sublist t.stage.unadmitted := by
  unfold admitting?
  split
  · rename_i c after hstage
    rw [hstage]
    split
    · exact .refl _
    · exact List.nil_sublist _
  · exact List.nil_sublist _

section

variable {b b' : Builder} {s s' : Shared} {stage stage' : BatcherStage} {command : Option Command}
  {c : Option Container}

/-- What waits to be admitted has just been sealed. -/
theorem BatcherMove.unadmitted_eq (move : BatcherMove b s stage b' stage' s' command c) :
    stage'.unadmitted = c.toList := by
  cases move with
  | obey received => exact unadmitted_submitting _ _
  | sealLast running => exact unadmitted_submitting _ _
  | refuseAdmission acquired => exact AfterHandover.unadmitted_stageOnRefusal _
  | handOver offered => exact AfterHandover.unadmitted_stage _
  | refuseWork offered => exact AfterHandover.unadmitted_stageOnRefusal _
  | _ => rfl

/-- What was admitted goes to the workers, unless it is dropped. -/
theorem BatcherMove.admitted_le (move : BatcherMove b s stage b' stage' s' command c) :
    (↑stage'.admitted + ↑s'.work.items : Multiset Container) ≤
      ↑stage.admitted + ↑s.work.items + ↑(Batcher.admitting? ⟨b, stage⟩ s).toList := by
  cases move with
  | obey received =>
      rw [admitted_submitting]
      exact Multiset.le_add_right _ _
  | sealLast running =>
      rw [admitted_submitting]
      exact Multiset.le_add_right _ _
  | grantAdmission acquired =>
      simp only [Batcher.admitting?, acquired]
      rw [add_comm _ (((some _ : Option Container).toList : List Container) : Multiset Container)]
      exact le_of_eq rfl
  | refuseAdmission acquired =>
      rw [AfterHandover.admitted_stageOnRefusal]
      exact Multiset.le_add_right _ _
  | handOver offered =>
      rw [AfterHandover.admitted_stage, (Channel.items_of_offer offered).1, ← Multiset.coe_add,
        add_comm (s.work.items : Multiset Container)]
      exact Multiset.le_add_right _ _
  | refuseWork offered =>
      rw [AfterHandover.admitted_stageOnRefusal, add_assoc]
      exact (Multiset.le_add_right _ _).trans (Multiset.le_add_left _ _)
  | _ => exact Multiset.le_add_right _ _

/-- The batcher has a container admitted, or leaves the budget alone. -/
theorem BatcherMove.admitting_cases (move : BatcherMove b s stage b' stage' s' command c) :
    (Batcher.admitting? ⟨b, stage⟩ s = none ∧ s'.budget = s.budget) ∨
      ∃ c₀, Batcher.admitting? ⟨b, stage⟩ s = some c₀ ∧
        s.budget.acquire? c₀.length = some (true, s'.budget) := by
  cases move with
  | grantAdmission acquired =>
      refine Or.inr ⟨_, ?_, acquired⟩
      simp only [Batcher.admitting?, acquired]
  | refuseAdmission acquired =>
      refine Or.inl ⟨?_, Budget.eq_of_acquire?_false acquired⟩
      simp only [Batcher.admitting?, acquired]
  | _ => exact Or.inl ⟨rfl, rfl⟩

end

section

variable {w w' : Resequencer} {s s' : Shared} {inbox inbox' : Completions}
  {stage stage' : ScribeStage} {record : Option Record}

theorem ScribeMove.taking?_eq (move : ScribeMove w s inbox stage w' stage' s' inbox' record) :
    Scribe.taking? ⟨w, stage⟩ s = record := by
  cases move with
  | take running accepted => simp [Scribe.taking?, running, accepted]
  | refuse running accepted => simp [Scribe.taking?, running, accepted]
  | drop stopped =>
      rename_i completion
      cases completion <;> simp [Scribe.taking?, stopped]
  | receive listens received => cases listens <;> rfl
  | disconnected listens received => cases listens <;> rfl
  | publish goes flushed => cases goes <;> rfl
  | flushFailed flushes flushed => cases flushes <;> rfl
  | _ => rfl

/-- The scribe takes a record, puts bytes back, or does nothing to what is counted. -/
theorem ScribeMove.releasing_cases (move : ScribeMove w s inbox stage w' stage' s' inbox' record) :
    (record = none ∧ stage.releasing? = none ∧ stage'.releasing? = none ∧
        s'.budget.inFlight = s.budget.inFlight) ∨
      (∃ r size, record = some r ∧ stage = .handling (.done r) ∧ w.accept r = (.ok size, w') ∧
        stage'.releasing? = some size ∧ s' = s) ∨
      ∃ bytes, record = none ∧ stage.releasing? = some bytes ∧ stage'.releasing? = none ∧
        s'.budget.inFlight = s.budget.inFlight - bytes := by
  cases move with
  | take running accepted => exact Or.inr (Or.inl ⟨_, _, rfl, rfl, accepted, rfl, rfl⟩)
  | release => exact Or.inr (Or.inr ⟨_, rfl, rfl, rfl, rfl⟩)
  | receive listens received => cases listens <;> exact Or.inl ⟨rfl, rfl, rfl, rfl⟩
  | disconnected listens received => cases listens <;> exact Or.inl ⟨rfl, rfl, rfl, rfl⟩
  | publish goes flushed => cases goes <;> exact Or.inl ⟨rfl, rfl, rfl, rfl⟩
  | flushFailed flushes flushed => cases flushes <;> exact Or.inl ⟨rfl, rfl, rfl, rfl⟩
  | halt => exact Or.inl ⟨rfl, rfl, rfl, (HaltStep.books_apply _ _).1⟩
  | _ => exact Or.inl ⟨rfl, rfl, rfl, rfl⟩

end

/-! ### The limit -/

namespace Pipeline

variable {settings : Settings} {sink : Sink} {base : Totals} {origin p p' : Pipeline}
  {actor : Actor} {log ms : History}

/-- The limit stays. -/
theorem Move.limit_eq (move : p.Move actor p' ms) :
    p'.shared.budget.limit = p.shared.budget.limit := by
  cases move with
  | call present move => exact move.books_eq.2
  | batcher move =>
      rcases move.admitting_cases with ⟨-, hkept⟩ | ⟨c, -, hacquired⟩
      · exact congrArg Budget.limit hkept
      · exact Budget.limit_of_acquire? hacquired
  | worker present move => exact move.books_eq.2
  | scribe move =>
      generalize p.scribe.stage = stage at move
      cases move with
      | halt => exact (HaltStep.books_apply _ _).2
      | _ => rfl

theorem Run.limit_eq (run : Run origin log p)
    (opened : Pipeline.start settings sink base = .ok origin) :
    p.shared.budget.limit = settings.bufferSize := by
  refine run.invariant (fun _ p => p.shared.budget.limit = settings.bufferSize)
    (fresh_of_start opened).idle ?_ (fun _ _ _ _ _ h _ => h)
    fun _ _ _ _ _ _ h move => move.limit_eq.trans h
  obtain ⟨-, rfl⟩ := eq_of_start opened
  rfl

end Pipeline

end TraceLog
