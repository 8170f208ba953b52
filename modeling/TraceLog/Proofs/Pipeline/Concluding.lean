/-
**How a file comes to its end.**

Whoever closes or aborts an open file closes the desk, waits for the end of the batcher and then of
the scribe, and concludes the file.  Only one call gets that far.  When it does, both threads have
ended and no command can come any more, so that whatever is still under way does not concern the
file: it stays as it was concluded.  Every other call to close or to abort is turned away because
the file is closed.  All this holds whatever fails, and whoever stops the pipeline.

Main definitions:

* `Pipeline.Leaving` — who waits for the threads has seen to it that no more commands come;
* `Pipeline.AtRest`, `Pipeline.Still` — everyone who can touch the file has ended; nothing has
  happened to it since;
* `Pipeline.Concluded` — the state in which a call has concluded the file;
* `Pipeline.Ended` — what calls to close and to abort have brought about.

Main results:

* `Pipeline.AtRest.still` — **nothing happens to a file that is at rest**;
* `Pipeline.Run.ended` — **what calls to close and to abort are answered**, in every run.
-/

import TraceLog.Proofs.Pipeline.Stopping

set_option relaxedAutoImplicit false
set_option autoImplicit false

namespace TraceLog

/-! ### The call that concludes the file -/

/-- Whether a call at this stage has seen to it that no more commands come. -/
def CallStage.isLeaving : CallStage → Bool
  | .closingDesk .truncated | .joiningBatcher _ | .joiningScribe _ _ | .concluding _ _ => true
  | _ => false

namespace CallMove

variable {p : Pipeline} {id : Nat} {stage stage' : CallStage} {shared : Shared} {desk : Desk}
  {file : Option Sink} {command : Option Command}

/-- A file is finished by the call that concludes it. -/
theorem file_cases (move : CallMove p id stage shared desk file stage' command) :
    file = p.closedFile ∧ (∀ ending sealedCount, stage ≠ .concluding ending sealedCount) ∨
      ∃ ending sealedCount, stage = .concluding ending sealedCount ∧ command = none ∧
        shared = p.shared ∧ desk = p.desk ∧ file = some (p.conclusion ending sealedCount).2 ∧
        stage' = .returned (p.conclusion ending sealedCount).1 := by
  cases move with
  | conclude => exact Or.inr ⟨_, _, rfl, rfl, rfl, rfl, rfl, rfl⟩
  | _ => exact Or.inl ⟨rfl, by simp⟩

/-- A call to close or to abort that does not conclude the file is turned away because it is
closed. -/
theorem turned_away (move : CallMove p id stage shared desk file stage' command)
    {request : Request} {ending : Ending} (ends : request.ending? = some ending)
    (permits : request.Permits stage)
    (unconcluded : ∀ ending sealedCount, stage ≠ .concluding ending sealedCount)
    {result : Except Error Answer} (returned : stage' = .returned result) :
    result = .error .closed ∧ p.desk.closed = true := by
  cases permits with
  | entering lasting =>
      rw [ends] at lasting
      cases lasting
  | refused lasting =>
      rw [ends] at lasting
      cases lasting
  | closingDesk _ =>
      cases move with
      | alreadyShut free shut =>
          cases returned
          exact ⟨rfl, shut⟩
      | _ => cases returned
  | halting => cases move <;> cases returned
  | closingCommands =>
      cases move
      cases returned
  | joiningBatcher _ =>
      cases move
      cases returned
  | joiningScribe _ =>
      cases move
      cases returned
  | concluding _ => exact absurd rfl (unconcluded _ _)
  | returned => cases move
  | _ => cases ends

end CallMove

namespace Pipeline

variable {origin p p' q : Pipeline} {actor : Actor} {before log ms : History}

/-! ### Nobody enters any more -/

/-- Whoever waits for the end of the threads has seen to it that no more commands come. -/
def Leaving (p : Pipeline) : Prop :=
  ∀ id stage, p.stage? id = some stage → stage.isLeaving = true → p.shared.commands.closed = true

theorem Leaving.move (h : Leaving p) (stopping : Stopping p) (move : p.Move actor p' ms) :
    Leaving p' := by
  have hclosed := move.shuts.commands
  cases move with
  | call present move =>
      intro id' stage'' hstage leaving
      rw [stage?_moved present] at hstage
      split at hstage
      · cases hstage
        cases move with
        | halted =>
            -- the call has come to the end of stopping the pipeline
            exact (stopping.done_of_nil (halting?_call_iff.2 present) .discardCommands
              (by simp [haltSteps])).1
        | closeCommands => rfl
        | shutToTruncate free opened => exact h _ _ present rfl
        | joinBatcher ended => exact h _ _ present rfl
        | joinScribe ended => exact h _ _ present rfl
        | _ => cases leaving
      · exact hclosed (h id' stage'' hstage leaving)
  | batcher move => exact fun id stage hs leaving => hclosed (h id stage hs leaving)
  | worker present move => exact fun id stage hs leaving => hclosed (h id stage hs leaving)
  | scribe move => exact fun id stage hs leaving => hclosed (h id stage hs leaving)

theorem Leaving.arrive {id : Nat} (h : Leaving p) (fresh : p.stage? id = none)
    (request : Request) : Leaving (p.arrive id request) := by
  intro id' stage hstage leaving
  rw [stage?_arrive fresh] at hstage
  split at hstage
  · cases request <;> cases hstage <;> cases leaving
  · exact h id' stage hstage leaving

theorem Run.leaving {settings : Settings} {sink : Sink} {base : Totals}
    (run : Run origin log p) (opened : Pipeline.start settings sink base = .ok origin) :
    Leaving p := by
  have fresh := fresh_of_start opened
  refine run.invariant (fun _ p => Leaving p) fresh.idle ?_
    (fun _ _ _ request _ h free => h.arrive free request)
    (fun _ _ _ _ _ run h move => h.move (run.stopping opened) move)
  intro id stage hstage
  simp [stage?, fresh.idle] at hstage

/-- Behind the last container, and behind the last command, nothing is added to either. -/
theorem Run.nothing_more (run : Run q log p) (orderly : q.Orderly)
    (last : q.batcher.stage.isLast = true) (closed : q.shared.commands.closed = true) :
    log.entered = [] ∧ log.sealed = [] := by
  have h := run.invariant_of_orderly (fun log p => p.batcher.stage.isLast = true ∧
    p.shared.commands.closed = true ∧ log.entered = [] ∧ log.sealed = []) orderly
    ⟨last, closed, rfl, rfl⟩ ?_ ?_
  · exact h.2.2
  · rintro log p id request - ⟨last, closed, hentered, hsealed⟩ -
    rw [History.entered_asked, History.sealed_asked]
    exact ⟨last, closed, hentered, hsealed⟩
  · rintro log p actor p' ms - ⟨last, closed, hentered, hsealed⟩ move
    have hclosed := move.shuts.commands closed
    rw [History.entered_append, History.sealed_append, hentered, hsealed,
      move.entered_of_closed closed]
    cases move with
    | call present move => exact ⟨last, hclosed, rfl, by rw [History.sealed_call]; rfl⟩
    | batcher move =>
        obtain ⟨rfl, rfl, hlast⟩ := move.isLast last
        exact ⟨hlast, hclosed, rfl, rfl⟩
    | worker present move => exact ⟨last, hclosed, rfl, rfl⟩
    | scribe move => exact ⟨last, hclosed, rfl, by rw [History.sealed_scribe]; rfl⟩

/-! ### Files at rest -/

/-- Everyone who can touch the file has ended. -/
structure AtRest (p : Pipeline) : Prop where
  batcher : p.batcher.stage = .finished
  scribe : p.scribe.stage = .finished
  commands : p.shared.commands.closed = true

/-- Nothing has happened to the file since a state. -/
structure Still (before : History) (q : Pipeline) (log : History) (p : Pipeline) : Prop where
  earlier : before <+: log
  batcher_eq : p.batcher = q.batcher
  scribe_eq : p.scribe = q.scribe
  codec_eq : p.codec = q.codec
  entered_eq : log.entered = before.entered
  sealed_eq : log.sealed = before.sealed
  kept : ∀ error, q.shared.failure = some error → p.shared.failure = some error
  gone : (∀ w ∈ q.workers, w.isConnected = false) → ∀ w ∈ p.workers, w.isConnected = false

/-- Workers that cannot report do not come back. -/
theorem Move.gone (move : p.Move actor p' ms) (gone : ∀ w ∈ p.workers, w.isConnected = false) :
    ∀ w ∈ p'.workers, w.isConnected = false := by
  cases move with
  | worker present move =>
      intro v hv
      have hbefore := gone _ (List.mem_of_getElem? present)
      rcases List.mem_or_eq_of_mem_set hv with hv | rfl
      · exact gone v hv
      · rcases move.senders_cases with ⟨-, hsame⟩ | ⟨-, hconnected, -⟩
        · exact hsame.trans hbefore
        · rw [hbefore] at hconnected
          cases hconnected
  | _ => exact gone

/-- **Nothing happens to a file that is at rest**, and it stays at rest. -/
theorem AtRest.still (rest : AtRest p) (log : History) (move : p.Move actor p' ms) :
    AtRest p' ∧ Still log p (log ++ ms) p' := by
  have hcommands := move.shuts.commands rest.commands
  have hentered : (log ++ ms).entered = log.entered := by
    rw [History.entered_append, move.entered_of_closed rest.commands, List.append_nil]
  have hfailure (error : Error) (h : p.shared.failure = some error) := move.failure_eq h
  have hgone := move.gone
  cases move with
  | call present move =>
      refine ⟨⟨rest.batcher, rest.scribe, hcommands⟩, List.prefix_append .., rfl, rfl, rfl,
        hentered, ?_, hfailure, hgone⟩
      rw [History.sealed_append, History.sealed_call, List.append_nil]
  | batcher move => exact absurd rest.batcher move.stage_ne_finished
  | worker present move =>
      exact ⟨⟨rest.batcher, rest.scribe, hcommands⟩, List.prefix_append .., rfl, rfl, rfl,
        hentered, by rw [List.append_nil], hfailure, hgone⟩
  | scribe move => exact absurd rest.scribe move.stage_ne_finished

theorem Still.trans {mid : History} {r : Pipeline} (h : Still before q mid r)
    (more : Still mid r log p) : Still before q log p :=
  ⟨h.earlier.trans more.earlier, more.batcher_eq.trans h.batcher_eq,
    more.scribe_eq.trans h.scribe_eq, more.codec_eq.trans h.codec_eq,
    more.entered_eq.trans h.entered_eq, more.sealed_eq.trans h.sealed_eq,
    fun error failure => more.kept error (h.kept error failure),
    fun gone => more.gone (h.gone gone)⟩

/-- A call has concluded the file in the state `q`, and nothing has happened to the file since. -/
structure Concluded (origin : Pipeline) (log : History) (p : Pipeline) (id : Nat)
    (before : History) (q : Pipeline) (ending : Ending) (sealedCount : Nat) : Prop where
  run : Run origin before q
  concluding : q.stage? id = some (.concluding ending sealedCount)
  asked : ∃ request, .asked id request ∈ log ∧ request.ending? = some ending
  answered : p.stage? id = some (.returned (q.conclusion ending sealedCount).1)
  file : p.closedFile = some (q.conclusion ending sealedCount).2
  still : Still before q log p
  rest : AtRest p

/-- A call has concluded the file. -/
def HasConcluded (origin : Pipeline) (log : History) (p : Pipeline) (id : Nat) : Prop :=
  ∃ before q ending sealedCount, Concluded origin log p id before q ending sealedCount

/-- A call has closed the desk, and it is bringing the file to its end or has concluded it. -/
def Closer (origin : Pipeline) (log : History) (p : Pipeline) : Prop :=
  ∃ id stage, p.stage? id = some stage ∧ (stage.isClosing = true ∨ HasConcluded origin log p id)

/-- What calls to close and to abort have brought about: each of them that is over has concluded the
file or was turned away, and one of them has closed the desk. -/
structure Ended (origin : Pipeline) (log : History) (p : Pipeline) : Prop where
  answer : ∀ id request ending result, .asked id request ∈ log → request.ending? = some ending →
    p.stage? id = some (.returned result) →
    (result = .error .closed ∧ p.desk.closed = true) ∨ HasConcluded origin log p id
  closer : p.desk.closed = true → Closer origin log p

/-! ### What a step preserves -/

variable {id : Nat} {ending : Ending} {sealedCount : Nat}

/-- Who has concluded the file is over and done with. -/
theorem Concluded.move (h : Concluded origin log p id before q ending sealedCount)
    (callers : Callers log p) (atDesk : AtDesk p) (move : p.Move actor p' ms) :
    Concluded origin (log ++ ms) p' id before q ending sealedCount := by
  obtain ⟨run, hconcluding, ⟨request, hasked, hends⟩, hanswered, hfile, hstill, hrest⟩ := h
  obtain ⟨hrest', hmove⟩ := hrest.still log move
  have hanswered' : p'.stage? id = some (.returned (q.conclusion ending sealedCount).1) :=
    ((callers.move move).answered_iff id _).1
      (List.mem_append_left _ ((callers.answered_iff id _).2 hanswered))
  refine ⟨run, hconcluding, ⟨request, List.mem_append_left _ hasked, hends⟩, hanswered', ?_,
    hstill.trans hmove, hrest'⟩
  cases move with
  | call present move =>
      rcases move.file_cases with ⟨rfl, -⟩ | ⟨ending', n, rfl, -⟩
      · exact hfile
      · -- the file would not have been concluded yet
        rw [(atDesk.closed_of_closing _ _ present rfl).2] at hfile
        cases hfile
  | _ => exact hfile

theorem Concluded.arrive {id' : Nat} (h : Concluded origin log p id before q ending sealedCount)
    (fresh : p.stage? id' = none) (request : Request) :
    Concluded origin (log ++ [.asked id' request]) (p.arrive id' request) id before q ending
      sealedCount := by
  obtain ⟨run, hconcluding, ⟨request', hasked, hends⟩, hanswered, hfile, hstill, hrest⟩ := h
  obtain ⟨hearlier, hbatcher, hscribe, hcodec, hentered, hsealed, hkept, hgone⟩ := hstill
  refine ⟨run, hconcluding, ⟨request', List.mem_append_left _ hasked, hends⟩, ?_, hfile,
    ⟨hearlier.trans (List.prefix_append ..), hbatcher, hscribe, hcodec, ?_, ?_, hkept, hgone⟩,
    hrest.1, hrest.2, hrest.3⟩
  · exact stage?_arrive_of_some fresh hanswered request
  · rw [History.entered_asked, hentered]
  · rw [History.sealed_asked, hsealed]

/-- A call that has the file to itself concludes it. -/
theorem Concluded.of_conclude {shared : Shared} {desk : Desk} {file : Option Sink}
    {stage' : CallStage} {command : Option Command} (run : Run origin log p)
    (callers : Callers log p) (joined : Joined p) (leaving : Leaving p)
    (present : p.stage? id = some (.concluding ending sealedCount))
    (move : CallMove p id (.concluding ending sealedCount) shared desk file stage' command) :
    Concluded origin (log ++ ((command.map (Moment.entered id)).toList ++
        (stage'.result?.map (Moment.answered id)).toList))
      (p.moved id shared desk file stage') id log p ending sealedCount := by
  obtain ⟨hcount, hscribe⟩ := joined.both id ending sealedCount present
  have hrest : AtRest p := ⟨(Batcher.sealedCount?_eq_some_iff.1 hcount).1,
    Scribe.isFinished_iff.1 hscribe, leaving id _ present rfl⟩
  obtain ⟨request, hasked, hpermits⟩ := callers.permitted id _ present
  have hends : request.ending? = some ending := by
    cases hpermits with
    | concluding ends => exact ends
  obtain ⟨hrest', hstill⟩ := hrest.still log (.call present move)
  cases move with
  | conclude =>
      refine ⟨run, present, ⟨request, List.mem_append_left _ hasked, hends⟩, ?_, rfl, hstill,
        hrest'⟩
      rw [stage?_moved present, if_pos rfl]

theorem HasConcluded.arrive {id' : Nat} (h : HasConcluded origin log p id)
    (fresh : p.stage? id' = none) (request : Request) :
    HasConcluded origin (log ++ [.asked id' request]) (p.arrive id' request) id := by
  obtain ⟨before, q, ending, n, hconcluded⟩ := h
  exact ⟨before, q, ending, n, hconcluded.arrive fresh request⟩

theorem HasConcluded.move (h : HasConcluded origin log p id) (callers : Callers log p)
    (atDesk : AtDesk p) (move : p.Move actor p' ms) : HasConcluded origin (log ++ ms) p' id := by
  obtain ⟨before, q, ending, n, hconcluded⟩ := h
  exact ⟨before, q, ending, n, hconcluded.move callers atDesk move⟩

theorem Ended.arrive {id' : Nat} (h : Ended origin log p) (fresh : p.stage? id' = none)
    (request : Request) : Ended origin (log ++ [.asked id' request]) (p.arrive id' request) := by
  constructor
  · intro id request' ending result hasked hends hstage
    obtain ⟨hne, hstage⟩ := of_stage?_arrive fresh hstage (returned_ne_stage result request)
    have hasked' : .asked id request' ∈ log := by simpa [hne] using hasked
    exact (h.answer id request' ending result hasked' hends hstage).imp_right
      fun hconcluded => hconcluded.arrive fresh request
  · intro shut
    obtain ⟨id, stage, hstage, hs⟩ := h.closer shut
    exact ⟨id, stage, stage?_arrive_of_some fresh hstage request,
      hs.imp_right fun hconcluded => hconcluded.arrive fresh request⟩

/-- The call that has closed the desk goes on to conclude the file. -/
theorem Ended.closer_move (h : Ended origin log p) (run : Run origin log p)
    (callers : Callers log p) (atDesk : AtDesk p) (joined : Joined p) (leaving : Leaving p)
    (move : p.Move actor p' ms) (shut : p'.desk.closed = true) : Closer origin (log ++ ms) p' := by
  have hconcluded {id : Nat} (hc : HasConcluded origin log p id) :=
    hc.move callers atDesk move
  -- whoever is not the closer leaves it alone
  have hkept (hshut : p.desk.closed = true) (hstages : ∀ id, p'.stage? id = p.stage? id) :
      Closer origin (log ++ ms) p' := by
    obtain ⟨id, stage, hstage, hs⟩ := h.closer hshut
    exact ⟨id, stage, (hstages id).trans hstage, hs.imp_right hconcluded⟩
  cases move with
  | call present move =>
      rename_i id stage stage' shared desk file command
      have hself : (p.moved id shared desk file stage').stage? id = some stage' := by
        rw [stage?_moved present, if_pos rfl]
      rcases move.closing_cases with ⟨-, heq, hsame⟩ | ⟨-, -, -, -, hs'⟩ |
        ⟨-, -, -, ⟨ending, n, rfl⟩, -⟩
      · obtain ⟨other, s, hstage, hs⟩ := h.closer (hsame.symm.trans shut)
        by_cases hother : other = id
        · subst hother
          rw [present, Option.some.injEq] at hstage
          subst hstage
          exact ⟨other, stage', hself, hs.imp heq.trans hconcluded⟩
        · refine ⟨other, s, ?_, hs.imp_right hconcluded⟩
          rw [stage?_moved present, if_neg hother, hstage]
      · exact ⟨id, stage', hself, Or.inl hs'⟩
      · exact ⟨id, stage', hself, Or.inr
          ⟨log, p, ending, n, .of_conclude run callers joined leaving present move⟩⟩
  | batcher move => exact hkept shut fun _ => rfl
  | worker present move => exact hkept shut fun _ => rfl
  | scribe move => exact hkept shut fun _ => rfl

theorem Ended.answer_move (h : Ended origin log p) (run : Run origin log p)
    (callers : Callers log p) (atDesk : AtDesk p) (joined : Joined p) (leaving : Leaving p)
    (move : p.Move actor p' ms) {request : Request} {result : Except Error Answer}
    (asked : .asked id request ∈ log) (ends : request.ending? = some ending)
    (hstage : p'.stage? id = some (.returned result)) :
    (result = .error .closed ∧ p'.desk.closed = true) ∨ HasConcluded origin (log ++ ms) p' id := by
  -- whoever was over before is so still
  have hearlier (hstage : p.stage? id = some (.returned result)) :
      (result = .error .closed ∧ p'.desk.closed = true) ∨ HasConcluded origin (log ++ ms) p' id :=
    (h.answer id request ending result asked ends hstage).imp
      (fun ⟨hresult, hshut⟩ => ⟨hresult, move.desk_shut hshut⟩)
      fun hconcluded => hconcluded.move callers atDesk move
  cases move with
  | call present move =>
      rw [stage?_moved present] at hstage
      split at hstage
      · rename_i hid
        subst hid
        cases hstage
        obtain ⟨request', hrequest, hpermits⟩ := callers.permitted id _ present
        obtain rfl := callers.asked_once id request request' asked hrequest
        rcases move.file_cases with ⟨-, hother⟩ | ⟨ending', n, rfl, -⟩
        · obtain ⟨hresult, hshut⟩ := move.turned_away ends hpermits hother rfl
          exact Or.inl ⟨hresult, move.desk_shut hshut⟩
        · exact Or.inr ⟨log, p, ending', n, .of_conclude run callers joined leaving present move⟩
      · exact hearlier hstage
  | batcher move => exact hearlier hstage
  | worker present move => exact hearlier hstage
  | scribe move => exact hearlier hstage

theorem Move.not_asked (move : p.Move actor p' ms) (request : Request) :
    .asked id request ∉ ms := by
  cases move <;> simp

theorem Ended.move (h : Ended origin log p) (run : Run origin log p) (callers : Callers log p)
    (atDesk : AtDesk p) (joined : Joined p) (leaving : Leaving p) (move : p.Move actor p' ms) :
    Ended origin (log ++ ms) p' := by
  refine ⟨fun id request ending result hasked hends hstage => ?_,
    h.closer_move run callers atDesk joined leaving move⟩
  rw [List.mem_append, or_iff_left (move.not_asked request)] at hasked
  exact h.answer_move run callers atDesk joined leaving move hasked hends hstage

/-- Who brings the file to its end has asked to close it, if nobody aborts. -/
theorem Callers.asked_close {request : Request} {ending : Ending} (unaborted : log.Unaborted)
    (hasked : .asked id request ∈ log) (ends : request.ending? = some ending) :
    .asked id .close ∈ log ∧ ending = .drained := by
  cases request with
  | close =>
      cases ends
      exact ⟨hasked, rfl⟩
  | abort => exact absurd hasked (unaborted id)
  | _ => cases ends

/-- **What calls to close and to abort are answered**, at the end of every run from a newly opened
file. -/
theorem Run.ended {settings : Settings} {sink : Sink} {base : Totals} (run : Run origin log p)
    (opened : Pipeline.start settings sink base = .ok origin) : Ended origin log p := by
  have fresh := fresh_of_start opened
  refine run.invariant (Ended origin) fresh.idle ⟨by simp, by simp [fresh.opened]⟩
    (fun _ _ _ request _ h free => h.arrive free request) fun log p actor p' ms run h move => ?_
  have served := run.served fresh
  exact h.move run served.callers served.atDesk (run.joined_of_start opened) (run.leaving opened)
    move

/-- The desk was closed by a call to close, if nobody aborts. -/
theorem Ended.exists_closer (h : Ended origin log p) (callers : Callers log p)
    (unaborted : log.Unaborted) (shut : p.desk.closed = true) :
    ∃ id stage, .asked id .close ∈ log ∧ p.stage? id = some stage ∧
      (stage.isClosing = true ∨ HasConcluded origin log p id) := by
  obtain ⟨id, stage, hstage, hs⟩ := h.closer shut
  obtain ⟨request, ending, hasked, hends⟩ : ∃ request ending, .asked id request ∈ log ∧
      request.ending? = some ending := by
    rcases hs with hs | ⟨_, _, ending, _, hconcluded⟩
    · obtain ⟨request, hasked, hpermits⟩ := callers.permitted id stage hstage
      cases hpermits <;> first | exact ⟨_, _, hasked, ‹_›⟩ | exact ⟨_, _, hasked, rfl⟩ | cases hs
    · obtain ⟨request, hasked, hends⟩ := hconcluded.asked
      exact ⟨request, ending, hasked, hends⟩
  exact ⟨id, stage, (Callers.asked_close unaborted hasked hends).1, hstage, hs⟩

/-- The pipeline was not to stop when the file was concluded without a failure, if nobody aborts;
and all that the commands make was sealed. -/
theorem Concluded.sealed_eq {settings : Settings} {sink : Sink} {base : Totals}
    (h : Concluded origin log p id before q ending sealedCount)
    (opened : Pipeline.start settings sink base = .ok origin) (unaborted : log.Unaborted)
    (faultless : q.shared.failure = none) :
    q.shared.stopped = false ∧ log.sealed =
      (Builder.start settings.containerSize base.containers.toNat).batches log.entered := by
  have hrunning : q.shared.stopped = false := by
    by_contra hstopped
    have hfailed := h.run.failure_of_stopped opened
      (fun id hin => unaborted id (h.still.earlier.subset hin)) (by simpa using hstopped)
    rw [faultless] at hfailed
    cases hfailed
  have hlast : q.batcher.stage.isLast = true := by
    rw [← h.still.batcher_eq, h.rest.batcher]
    rfl
  rw [h.still.sealed_eq, h.still.entered_eq]
  exact ⟨hrunning,
    (h.run.heard opened hrunning).sealed_eq (h.run.batched_of_start opened) hrunning hlast⟩

/-- A file that was concluded was concluded by a call. -/
theorem Ended.of_file (h : Ended origin log p) (atDesk : AtDesk p)
    (finished : p.closedFile.isSome = true) : ∃ id, HasConcluded origin log p id := by
  obtain ⟨id, stage, hstage, hs⟩ := h.closer (atDesk.closed_of_file finished)
  rcases hs with hs | hs
  · rw [(atDesk.closed_of_closing id stage hstage hs).2] at finished
    cases finished
  · exact ⟨id, hs⟩

end Pipeline

end TraceLog
