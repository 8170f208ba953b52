/-
**Runs with all their steps.**

The history of a run says what became of the requests and of the file.  How often something was
asked of one of the parts, and what the part answered, is seen only if every step is kept: the state
in which it was taken, and who took it.  What the steps have brought about is then collected step by
step, in the order in which it happened.

Main definitions:

* `Pipeline.Trail`, `Pipeline.itinerary` — a run with its steps; the steps of a schedule;
* `Pipeline.collect` — what some steps have brought about;
* `Pipeline.offering?` — the record that a step offers to the resequencer.

Main results:

* `Pipeline.Run.exists_trail`, `Pipeline.Trail.run` — the runs are what is left of trails;
* `Pipeline.Trail.invariant` — **what every move preserves holds at the end of every trail**;
* `ScribeMove.offering_cases` — what becomes of a record that is offered.
-/

import TraceLog.Proofs.Pipeline.History

set_option relaxedAutoImplicit false
set_option autoImplicit false

namespace TraceLog

namespace Pipeline

/-- The runs from a state with their steps, each with the state in which it was taken. -/
inductive Trail (origin : Pipeline) : History → List (Pipeline × Actor) → Pipeline → Prop where
  | start : Trail origin [] [] origin
  | arrive {log : History} {steps : List (Pipeline × Actor)} {p : Pipeline} {id : Nat}
      (request : Request) (trail : Trail origin log steps p) (fresh : p.stage? id = none) :
      Trail origin (log ++ [.asked id request]) steps (p.arrive id request)
  | step {log : History} {steps : List (Pipeline × Actor)} {p p' : Pipeline} {actor : Actor}
      (trail : Trail origin log steps p) (stepped : p.step? actor = some p') :
      Trail origin (log ++ p.moments p' actor) (steps ++ [(p, actor)]) p'

variable {origin p : Pipeline} {log : History} {steps : List (Pipeline × Actor)}

theorem Trail.run (trail : Trail origin log steps p) : Run origin log p := by
  induction trail with
  | start => exact .start
  | arrive request _ fresh ih => exact .arrive request ih fresh
  | step _ stepped ih => exact .step ih stepped

theorem Run.exists_trail (run : Run origin log p) : ∃ steps, Trail origin log steps p := by
  induction run with
  | start => exact ⟨[], .start⟩
  | arrive request _ fresh ih =>
      obtain ⟨steps, trail⟩ := ih
      exact ⟨steps, .arrive request trail fresh⟩
  | step _ stepped ih =>
      obtain ⟨steps, trail⟩ := ih
      exact ⟨_, .step trail stepped⟩

/-- What every move preserves holds at the end of every trail from a state with orderly callers. -/
theorem Trail.invariant_of_orderly (trail : Trail origin log steps p)
    (Inv : History → List (Pipeline × Actor) → Pipeline → Prop) (orderly : origin.Orderly)
    (start : Inv [] [] origin)
    (arrive : ∀ log steps p id request, Trail origin log steps p → Inv log steps p →
      p.stage? id = none → Inv (log ++ [.asked id request]) steps (p.arrive id request))
    (move : ∀ log steps p actor p' ms, Trail origin log steps p → Inv log steps p →
      p.Move actor p' ms → Inv (log ++ ms) (steps ++ [(p, actor)]) p') :
    Inv log steps p := by
  -- that callers are orderly is carried along, for the moves to be all the steps
  have hboth : p.Orderly ∧ Inv log steps p := by
    induction trail with
    | start => exact ⟨orderly, start⟩
    | arrive request trail fresh ih =>
        exact ⟨ih.1.arrive fresh request, arrive _ _ _ _ request trail ih.2 fresh⟩
    | step trail stepped ih =>
        have hmove := move_of_step? ih.1 stepped
        exact ⟨ih.1.move hmove, move _ _ _ _ _ _ trail ih.2 hmove⟩
  exact hboth.2

/-- **What every move preserves holds at the end of every trail** of a pipeline that starts without
calls. -/
theorem Trail.invariant (trail : Trail origin log steps p)
    (Inv : History → List (Pipeline × Actor) → Pipeline → Prop) (idle : origin.calls = [])
    (start : Inv [] [] origin)
    (arrive : ∀ log steps p id request, Trail origin log steps p → Inv log steps p →
      p.stage? id = none → Inv (log ++ [.asked id request]) steps (p.arrive id request))
    (move : ∀ log steps p actor p' ms, Trail origin log steps p → Inv log steps p →
      p.Move actor p' ms → Inv (log ++ ms) (steps ++ [(p, actor)]) p') :
    Inv log steps p :=
  trail.invariant_of_orderly Inv (orderly_of_calls_nil idle) start arrive move

/-- The steps of a schedule. -/
def itinerary : List Turn → Pipeline → List (Pipeline × Actor)
  | [], _ => []
  | .arrive id request :: turns, p => itinerary turns (p.arrive id request)
  | .step actor :: turns, p =>
      match p.step? actor with
      | some p' => (p, actor) :: itinerary turns p'
      | none => []

/-- A schedule makes a trail. -/
theorem Trail.follow {p' : Pipeline} {log' : History} {turns : List Turn}
    (trail : Trail origin log steps p) (h : follow? turns log p = some (log', p')) :
    Trail origin log' (steps ++ itinerary turns p) p' := by
  induction turns generalizing log steps p with
  | nil =>
      cases h
      rwa [itinerary, List.append_nil]
  | cons turn turns ih =>
      cases turn with
      | arrive id request =>
          rw [follow?] at h
          split at h
          · cases h
          · rename_i fresh
            exact ih (.arrive request trail fresh) h
      | step actor =>
          rw [follow?] at h
          split at h
          · rename_i p₁ stepped
            rw [itinerary, stepped, List.append_cons]
            exact ih (.step trail stepped) h
          · cases h

/-! ### What steps bring about -/

/-- What some steps have brought about, in the order in which it happened. -/
def collect {α : Type} (f : Pipeline → Actor → Option α) (steps : List (Pipeline × Actor)) :
    List α :=
  steps.flatMap fun step => (f step.1 step.2).toList

@[simp] theorem collect_concat {α : Type} (f : Pipeline → Actor → Option α)
    (steps : List (Pipeline × Actor)) (p : Pipeline) (actor : Actor) :
    collect f (steps ++ [(p, actor)]) = collect f steps ++ (f p actor).toList := by
  rw [collect, List.flatMap_append, List.flatMap_singleton, collect]

end Pipeline

/-! ### Offers to the resequencer -/

/-- The record that the scribe is about to offer to the resequencer. -/
def Scribe.offering? (t : Scribe) (s : Shared) : Option Record :=
  match t.stage with
  | .handling (.done record) => if s.stopped then none else some record
  | _ => none

/-- The record that a step offers to the resequencer. -/
def Pipeline.offering? (p : Pipeline) : Actor → Option Record
  | .scribe => p.scribe.offering? p.shared
  | _ => none

/-- What becomes of a record that the scribe offers: it is taken, or the scribe stops the
pipeline. -/
theorem ScribeMove.offering_cases {w w' : Resequencer} {s s' : Shared} {inbox inbox' : Completions}
    {stage stage' : ScribeStage} {record : Option Record}
    (move : ScribeMove w s inbox stage w' stage' s' inbox' record) :
    (Scribe.offering? ⟨w, stage⟩ s = none ∧ record = none) ∨
      ∃ r, Scribe.offering? ⟨w, stage⟩ s = some r ∧ stage = .handling (.done r) ∧
        ((∃ size, w.accept r = (.ok size, w') ∧ record = some r ∧ stage' = .releasing size) ∨
          ∃ error, w.accept r = (.error error, w') ∧ record = none ∧
            stage' = .halting (failSteps error)) := by
  cases move with
  | take running accepted =>
      refine Or.inr ⟨_, ?_, rfl, Or.inl ⟨_, accepted, rfl, rfl⟩⟩
      simp [Scribe.offering?, running]
  | refuse running accepted =>
      refine Or.inr ⟨_, ?_, rfl, Or.inr ⟨_, accepted, rfl, rfl⟩⟩
      simp [Scribe.offering?, running]
  | drop stopped =>
      rename_i completion
      cases completion <;> exact Or.inl ⟨by simp [Scribe.offering?, stopped], rfl⟩
  | receive listens received => cases listens <;> exact Or.inl ⟨rfl, rfl⟩
  | disconnected listens received => cases listens <;> exact Or.inl ⟨rfl, rfl⟩
  | publish goes flushed => cases goes <;> exact Or.inl ⟨rfl, rfl⟩
  | flushFailed flushes flushed => cases flushes <;> exact Or.inl ⟨rfl, rfl⟩
  | _ => exact Or.inl ⟨rfl, rfl⟩

end TraceLog
