/-
**Runs of a pipeline and what is seen of them.**

A run is a sequence of arrivals and steps, in any order in which they are possible.  Beside the
state that it leads to, its history is kept: what was asked, which command entered the channel and
was carried out, which container was sealed and which record taken, and what was answered, in the
order in which it happened.  The history is not part of the pipeline and has no influence on it; it
is what statements about a whole run are about.

Main definitions:

* `Moment`, `History` — what happens in a run; everything that has happened, the latest at the end;
* `History.entered`, `History.obeyed`, `History.sealed`, `History.taken`, `History.numbers` — the
  parts of a history;
* `Pipeline.moments`, `Pipeline.Run` — what a step adds to the history; the runs;
* `Pipeline.Turn`, `Pipeline.follow?` — a schedule, and the run that it makes;
* `Pipeline.Move` — the steps, taken apart into moves.

Main results:

* `Pipeline.reachable_iff` — the states that runs lead to are the reachable ones;
* `Pipeline.Run.invariant`, `Pipeline.Run.invariant_from` — **what every move preserves holds at the
  end of every run**, and from any time on.
-/

import TraceLog.Proofs.Batches
import TraceLog.Proofs.Entries
import TraceLog.Proofs.Pipeline.Moves

set_option relaxedAutoImplicit false
set_option autoImplicit false

namespace TraceLog

/-! ### Histories -/

/-- What happens in a run. -/
inductive Moment where
  /-- Someone calls. -/
  | asked (id : Nat) (request : Request)
  /-- A command of a call enters the channel. -/
  | entered (id : Nat) (command : Command)
  /-- The batcher carries out a command. -/
  | obeyed (command : Command)
  /-- The batcher seals a container. -/
  | sealed (c : Container)
  /-- The scribe takes a record. -/
  | taken (record : Record)
  /-- A call is over. -/
  | answered (id : Nat) (result : Except Error Answer)

/-- What has happened in a run, the latest at the end. -/
abbrev History := List Moment

namespace Moment

/-- The command that enters the channel. -/
def entered? : Moment → Option Command
  | .entered _ command => some command
  | _ => none

/-- The command that is carried out. -/
def obeyed? : Moment → Option Command
  | .obeyed command => some command
  | _ => none

/-- The container that is sealed. -/
def sealed? : Moment → Option Container
  | .sealed c => some c
  | _ => none

/-- The record that is taken. -/
def taken? : Moment → Option Record
  | .taken record => some record
  | _ => none

/-- The number that a call to write is answered with. -/
def number? : Moment → Option Nat
  | .answered _ (.ok (.numbered n)) => some n
  | _ => none

end Moment

namespace History

/-- The commands that entered the channel. -/
def entered (log : History) : List Command := log.filterMap Moment.entered?

/-- The commands that were carried out. -/
def obeyed (log : History) : List Command := log.filterMap Moment.obeyed?

/-- The containers that were sealed. -/
def sealed (log : History) : List Container := log.filterMap Moment.sealed?

/-- The records that were taken. -/
def taken (log : History) : List Record := log.filterMap Moment.taken?

/-- The numbers that calls to write were answered with. -/
def numbers (log : History) : List Nat := log.filterMap Moment.number?

/-- The events that entered the channel. -/
def events (log : History) : List Event := Command.events log.entered

/-- Nobody has asked to abort. -/
def Unaborted (log : History) : Prop := ∀ id, .asked id .abort ∉ log

theorem Unaborted.of_append {log more : History} (h : Unaborted (log ++ more)) : log.Unaborted :=
  fun id hin => h id (List.mem_append_left _ hin)

@[simp] theorem entered_append (xs ys : History) :
    entered (xs ++ ys) = entered xs ++ entered ys := List.filterMap_append ..

@[simp] theorem obeyed_append (xs ys : History) :
    obeyed (xs ++ ys) = obeyed xs ++ obeyed ys := List.filterMap_append ..

@[simp] theorem sealed_append (xs ys : History) :
    sealed (xs ++ ys) = sealed xs ++ sealed ys := List.filterMap_append ..

@[simp] theorem taken_append (xs ys : History) : taken (xs ++ ys) = taken xs ++ taken ys :=
  List.filterMap_append ..

@[simp] theorem numbers_append (xs ys : History) :
    numbers (xs ++ ys) = numbers xs ++ numbers ys := List.filterMap_append ..

@[simp] theorem events_append (xs ys : History) : events (xs ++ ys) = events xs ++ events ys := by
  rw [events, entered_append, Command.events_append, events, events]

end History

/-! ### What an arrival or a move adds to the history -/

namespace History

section

variable (log : History) (id : Nat) (request : Request)

@[simp] theorem entered_asked : entered (log ++ [.asked id request]) = log.entered := by
  rw [entered_append]
  exact List.append_nil _

@[simp] theorem obeyed_asked : obeyed (log ++ [.asked id request]) = log.obeyed := by
  rw [obeyed_append]
  exact List.append_nil _

@[simp] theorem sealed_asked : sealed (log ++ [.asked id request]) = log.sealed := by
  rw [sealed_append]
  exact List.append_nil _

@[simp] theorem taken_asked : taken (log ++ [.asked id request]) = log.taken := by
  rw [taken_append]
  exact List.append_nil _

end

section

variable (id : Nat) (command : Option Command) (result : Option (Except Error Answer))

theorem entered_call : entered ((command.map (.entered id)).toList ++
    (result.map (.answered id)).toList) = command.toList := by
  cases command <;> cases result <;> rfl

theorem obeyed_call : obeyed ((command.map (.entered id)).toList ++
    (result.map (.answered id)).toList) = [] := by
  cases command <;> cases result <;> rfl

theorem sealed_call : sealed ((command.map (.entered id)).toList ++
    (result.map (.answered id)).toList) = [] := by
  cases command <;> cases result <;> rfl

theorem taken_call : taken ((command.map (.entered id)).toList ++
    (result.map (.answered id)).toList) = [] := by
  cases command <;> cases result <;> rfl

end

section

variable (command : Option Command) (c : Option Container)

theorem entered_batcher :
    entered ((command.map .obeyed).toList ++ (c.map .sealed).toList) = [] := by
  cases command <;> cases c <;> rfl

theorem obeyed_batcher :
    obeyed ((command.map .obeyed).toList ++ (c.map .sealed).toList) = command.toList := by
  cases command <;> cases c <;> rfl

theorem sealed_batcher :
    sealed ((command.map .obeyed).toList ++ (c.map .sealed).toList) = c.toList := by
  cases command <;> cases c <;> rfl

theorem taken_batcher :
    taken ((command.map .obeyed).toList ++ (c.map .sealed).toList) = [] := by
  cases command <;> cases c <;> rfl

end

section

variable (record : Option Record)

theorem entered_scribe : entered (record.map .taken).toList = [] := by cases record <;> rfl

theorem obeyed_scribe : obeyed (record.map .taken).toList = [] := by cases record <;> rfl

theorem sealed_scribe : sealed (record.map .taken).toList = [] := by cases record <;> rfl

theorem taken_scribe : taken (record.map .taken).toList = record.toList := by
  cases record <;> rfl

end

end History

/-- The result of a call that is over. -/
def CallStage.result? : CallStage → Option (Except Error Answer)
  | .returned result => some result
  | _ => none

namespace Pipeline

/-! ### Runs -/

/-- What a step from one state to another adds to the history. -/
def moments (p p' : Pipeline) : Actor → History
  | .call id =>
      ((p.entering? id).map (.entered id)).toList ++ ((p'.result? id).map (.answered id)).toList
  | .batcher =>
      ((p.batcher.obeying? p.shared).map .obeyed).toList ++
        (p'.batcher.sealed?.map .sealed).toList
  | .worker _ => []
  | .scribe => ((p.scribe.taking? p.shared).map .taken).toList

/-- The runs from a state: what has happened, and the state that it has led to. -/
inductive Run (origin : Pipeline) : History → Pipeline → Prop where
  | start : Run origin [] origin
  | arrive {log : History} {p : Pipeline} {id : Nat} (request : Request) (run : Run origin log p)
      (fresh : p.stage? id = none) :
      Run origin (log ++ [.asked id request]) (p.arrive id request)
  | step {log : History} {p p' : Pipeline} {actor : Actor} (run : Run origin log p)
      (stepped : p.step? actor = some p') : Run origin (log ++ p.moments p' actor) p'

/-- Whose turn it is: someone calls, or a thread or a call takes a step. -/
inductive Turn where
  | arrive (id : Nat) (request : Request)
  | step (actor : Actor)

/-- What a schedule adds to a run, if nobody in it has to wait. -/
def follow? : List Turn → History → Pipeline → Option (History × Pipeline)
  | [], log, p => some (log, p)
  | .arrive id request :: turns, log, p =>
      match p.stage? id with
      | some _ => none
      | none => follow? turns (log ++ [.asked id request]) (p.arrive id request)
  | .step actor :: turns, log, p =>
      match p.step? actor with
      | some p' => follow? turns (log ++ p.moments p' actor) p'
      | none => none

/-- A schedule makes a run. -/
theorem Run.follow {origin p p' : Pipeline} {log log' : History} {turns : List Turn}
    (run : Run origin log p) (h : follow? turns log p = some (log', p')) :
    Run origin log' p' := by
  induction turns generalizing log p with
  | nil =>
      cases h
      exact run
  | cons turn turns ih =>
      cases turn with
      | arrive id request =>
          rw [follow?] at h
          split at h
          · cases h
          · rename_i fresh
            exact ih (.arrive request run fresh) h
      | step actor =>
          rw [follow?] at h
          split at h
          · rename_i p₁ stepped
            exact ih (.step run stepped) h
          · cases h

/-! ### Stages of calls -/

/-- The pipeline behind a move of a call. -/
def moved (p : Pipeline) (id : Nat) (shared : Shared) (desk : Desk) (file : Option Sink)
    (stage : CallStage) : Pipeline :=
  { p with shared, desk, closedFile := file }.setStage id stage

section moved

variable (p : Pipeline) (id : Nat) (shared : Shared) (desk : Desk) (file : Option Sink)
  (stage : CallStage)

@[simp] theorem codec_moved : (p.moved id shared desk file stage).codec = p.codec := rfl

@[simp] theorem shared_moved : (p.moved id shared desk file stage).shared = shared := rfl

@[simp] theorem batcher_moved : (p.moved id shared desk file stage).batcher = p.batcher := rfl

@[simp] theorem workers_moved : (p.moved id shared desk file stage).workers = p.workers := rfl

@[simp] theorem completions_moved :
    (p.moved id shared desk file stage).completions = p.completions := rfl

@[simp] theorem scribe_moved : (p.moved id shared desk file stage).scribe = p.scribe := rfl

@[simp] theorem desk_moved : (p.moved id shared desk file stage).desk = desk := rfl

@[simp] theorem closedFile_moved : (p.moved id shared desk file stage).closedFile = file := rfl

end moved

/-- The stages of the calls when one of them goes on. -/
theorem stage?_moved {p : Pipeline} {id : Nat} {old : CallStage} (present : p.stage? id = some old)
    (shared : Shared) (desk : Desk) (file : Option Sink) (stage : CallStage) (id' : Nat) :
    (p.moved id shared desk file stage).stage? id' =
      if id' = id then some stage else p.stage? id' := by
  rw [stage?] at present
  rw [stage?, moved, setStage, Entries.lookup_assign, present]
  rfl

/-- The stages of the calls when someone calls. -/
theorem stage?_arrive {p : Pipeline} {id : Nat} (fresh : p.stage? id = none) (request : Request)
    (id' : Nat) :
    (p.arrive id request).stage? id' = if id' = id then some request.stage else p.stage? id' := by
  rw [stage?] at fresh
  rw [stage?, arrive, stage?]
  exact Entries.lookup_enrol fresh request.stage id'

/-- Who is there stays there when someone calls. -/
theorem stage?_arrive_of_some {p : Pipeline} {id id' : Nat} {stage : CallStage}
    (fresh : p.stage? id = none) (present : p.stage? id' = some stage) (request : Request) :
    (p.arrive id request).stage? id' = some stage := by
  have hne : id' ≠ id := by
    rintro rfl
    rw [fresh] at present
    cases present
  rw [stage?_arrive fresh, if_neg hne, present]

/-- Who is not where calls start was there before. -/
theorem of_stage?_arrive {p : Pipeline} {id id' : Nat} {stage : CallStage} {request : Request}
    (fresh : p.stage? id = none) (h : (p.arrive id request).stage? id' = some stage)
    (later : stage ≠ request.stage) : id' ≠ id ∧ p.stage? id' = some stage := by
  rw [stage?_arrive fresh] at h
  split at h
  · exact absurd (Option.some.inj h).symm later
  · rename_i hne
    exact ⟨hne, h⟩

theorem returned_ne_stage (result : Except Error Answer) (request : Request) :
    CallStage.returned result ≠ request.stage := by
  cases request <;> simp [Request.stage]

/-! ### Moves of a pipeline -/

/-- The steps of a pipeline, each by a move of one of the threads or calls, with what they add to
the history. -/
inductive Move (p : Pipeline) : Actor → Pipeline → History → Prop where
  | call {id : Nat} {stage stage' : CallStage} {shared : Shared} {desk : Desk}
      {file : Option Sink} {command : Option Command} (present : p.stage? id = some stage)
      (move : CallMove p id stage shared desk file stage' command) :
      Move p (.call id) (p.moved id shared desk file stage')
        ((command.map (.entered id)).toList ++ (stage'.result?.map (.answered id)).toList)
  | batcher {builder : Builder} {stage : BatcherStage} {shared : Shared}
      {command : Option Command} {c : Option Container}
      (move : BatcherMove p.batcher.builder p.shared p.batcher.stage builder stage shared command
        c) :
      Move p .batcher { p with batcher := ⟨builder, stage⟩, shared }
        ((command.map .obeyed).toList ++ (c.map .sealed).toList)
  | worker {index : Nat} {w w' : Worker} {shared : Shared} {completions : Completions}
      (present : p.workers[index]? = some w)
      (move : WorkerMove p.codec p.shared p.completions w w' shared completions) :
      Move p (.worker index) { p with workers := p.workers.set index w', shared, completions } []
  | scribe {writer : Resequencer} {stage : ScribeStage} {shared : Shared}
      {completions : Completions} {record : Option Record}
      (move : ScribeMove p.scribe.writer p.shared p.completions p.scribe.stage writer stage shared
        completions record) :
      Move p .scribe { p with scribe := ⟨writer, stage⟩, shared, completions }
        (record.map .taken).toList

/-- **Every step of a pipeline is one of the moves.** -/
theorem move_of_step? {p p' : Pipeline} {actor : Actor} (orderly : p.Orderly)
    (h : p.step? actor = some p') : p.Move actor p' (p.moments p' actor) := by
  cases actor with
  | call id =>
      obtain ⟨stage, hstage, hstep⟩ := Option.bind_eq_some_iff.1 h
      obtain ⟨shared, desk, file, stage', hmove, hp'⟩ :=
        callMove_of_stepCall? orderly hstage hstep
      change p' = p.moved id shared desk file stage' at hp'
      subst hp'
      have hresult : (p.moved id shared desk file stage').result? id = stage'.result? := by
        rw [result?, stage?_moved hstage, if_pos rfl]
        cases stage' <;> rfl
      rw [moments, hresult]
      exact .call hstage hmove
  | batcher =>
      obtain ⟨⟨t, shared⟩, hstep, rfl⟩ := Option.map_eq_some_iff.1 h
      exact .batcher (Batcher.move_of_step? hstep)
  | worker index =>
      obtain ⟨w, hw, hstep⟩ := Option.bind_eq_some_iff.1 h
      obtain ⟨⟨w', shared, completions⟩, hmove, rfl⟩ := Option.map_eq_some_iff.1 hstep
      exact .worker hw (Worker.move_of_step? hmove)
  | scribe =>
      obtain ⟨⟨t, shared, completions⟩, hstep, rfl⟩ := Option.map_eq_some_iff.1 h
      exact .scribe (Scribe.move_of_step? hstep)

/-! ### Invariants -/

theorem orderly_of_calls_nil {p : Pipeline} (h : p.calls = []) : p.Orderly := by
  intro id request hstage
  simp [stage?, h] at hstage

theorem Orderly.arrive {p : Pipeline} {id : Nat} (h : p.Orderly) (fresh : p.stage? id = none)
    (request : Request) : (p.arrive id request).Orderly := by
  intro id' request' hstage
  rw [stage?_arrive fresh] at hstage
  split at hstage
  · cases request <;> cases hstage <;> simp
  · exact h id' request' hstage

theorem Orderly.move {p p' : Pipeline} {actor : Actor} {ms : History} (h : p.Orderly)
    (move : p.Move actor p' ms) : p'.Orderly := by
  cases move with
  | call present move =>
      intro id' request hstage
      rw [stage?_moved present] at hstage
      split at hstage
      · exact absurd (Option.some.inj hstage) (move.stage_ne_entering request)
      · exact h id' request hstage
  | batcher move => exact h
  | worker present move => exact h
  | scribe move => exact h

/-- What every move preserves holds at the end of every run from a state with orderly callers. -/
theorem Run.invariant_of_orderly {origin p : Pipeline} {log : History} (run : Run origin log p)
    (Inv : History → Pipeline → Prop) (orderly : origin.Orderly) (start : Inv [] origin)
    (arrive : ∀ log p id request, Run origin log p → Inv log p → p.stage? id = none →
      Inv (log ++ [.asked id request]) (p.arrive id request))
    (move : ∀ log p actor p' ms, Run origin log p → Inv log p → p.Move actor p' ms →
      Inv (log ++ ms) p') :
    Inv log p := by
  -- that callers are orderly is carried along, for the moves to be all the steps
  have hboth : p.Orderly ∧ Inv log p := by
    induction run with
    | start => exact ⟨orderly, start⟩
    | arrive request run fresh ih =>
        exact ⟨ih.1.arrive fresh request, arrive _ _ _ request run ih.2 fresh⟩
    | step run stepped ih =>
        have hmove := move_of_step? ih.1 stepped
        exact ⟨ih.1.move hmove, move _ _ _ _ _ run ih.2 hmove⟩
  exact hboth.2

/-- **What every move preserves holds at the end of every run** of a pipeline that starts without
calls. -/
theorem Run.invariant {origin p : Pipeline} {log : History} (run : Run origin log p)
    (Inv : History → Pipeline → Prop) (idle : origin.calls = []) (start : Inv [] origin)
    (arrive : ∀ log p id request, Run origin log p → Inv log p → p.stage? id = none →
      Inv (log ++ [.asked id request]) (p.arrive id request))
    (move : ∀ log p actor p' ms, Run origin log p → Inv log p → p.Move actor p' ms →
      Inv (log ++ ms) p') :
    Inv log p :=
  run.invariant_of_orderly Inv (orderly_of_calls_nil idle) start arrive move

theorem Run.orderly {origin p : Pipeline} {log : History} (run : Run origin log p)
    (idle : origin.calls = []) : p.Orderly :=
  run.invariant (fun _ p => p.Orderly) idle (orderly_of_calls_nil idle)
    (fun _ _ _ request _ h fresh => h.arrive fresh request) (fun _ _ _ _ _ _ h move => h.move move)

/-- A run goes on with another one. -/
theorem Run.append {origin q p : Pipeline} {before behind : History} (run : Run origin before q)
    (more : Run q behind p) : Run origin (before ++ behind) p := by
  induction more with
  | start =>
      rw [List.append_nil]
      exact run
  | arrive request _ fresh ih =>
      rw [← List.append_assoc]
      exact .arrive request ih fresh
  | step _ stepped ih =>
      rw [← List.append_assoc]
      exact .step ih stepped

/-- What holds at some time in a run and is preserved by every move holds at the end. -/
theorem Run.invariant_from {origin q p : Pipeline} {before behind : History}
    (run : Run origin before q) (more : Run q behind p) (Inv : History → Pipeline → Prop)
    (idle : origin.calls = []) (start : Inv before q)
    (arrive : ∀ log p id request, Run origin log p → Inv log p → p.stage? id = none →
      Inv (log ++ [.asked id request]) (p.arrive id request))
    (move : ∀ log p actor p' ms, Run origin log p → Inv log p → p.Move actor p' ms →
      Inv (log ++ ms) p') :
    Inv (before ++ behind) p := by
  refine more.invariant_of_orderly (fun behind p => Inv (before ++ behind) p) (run.orderly idle) ?_
    (fun behind p id request more h fresh => ?_) fun behind p actor p' ms more h hmove => ?_
  · rw [List.append_nil]
    exact start
  · rw [← List.append_assoc]
    exact arrive _ p id request (run.append more) h fresh
  · rw [← List.append_assoc]
    exact move _ p actor p' ms (run.append more) h hmove

end Pipeline

end TraceLog
