/-
**What calls are told that fail.**

A call to write or to flush can fail at several places: before its event is numbered, at a channel
that is closed, while it waits for an answer of the batcher, or while it waits for the scribe.  If
nobody aborts, then the pipeline has failed wherever that happens, and the call is told the error
that was recorded first.  It is told that the file is closed only if it was still waiting for the
desk when somebody closed that.

Main definitions:

* `Pipeline.Owed`, `Pipeline.Waiting` — whoever waits for an answer of the batcher is owed one;
* `Pipeline.Told`, `Pipeline.Attended` — what calls to write and to flush are told that fail, and
  those of them that were served at the desk.

Main results:

* `CallMove.error_cases` — where a call can fail, and with which error;
* `Pipeline.Run.told` — **who fails is told the error that was recorded**, or has found the desk
  closed;
* `Pipeline.Run.attended` — whoever was served before the desk was closed is told the error that was
  recorded.
-/

import TraceLog.Proofs.Pipeline.Concluding
import TraceLog.Proofs.Pipeline.Flushing

set_option relaxedAutoImplicit false
set_option autoImplicit false

namespace TraceLog

/-! ### What one move does -/

/-- **Where a call can fail**, and with which error. -/
theorem CallMove.error_cases {p : Pipeline} {id : Nat} {stage stage' : CallStage} {shared : Shared}
    {desk : Desk} {file : Option Sink} {command : Option Command} {error : Error}
    (move : CallMove p id stage shared desk file stage' command)
    (failed : stage' = .returned (.error error)) :
    p.shared.failure = some error ∨
      ((stage = .refused ∨ stage = .unanswered ∨
          (∃ target, stage = .awaitingFlush target) ∧ p.shared.stopped = true) ∧
        error = p.shared.failureOrClosed) ∨
      (((∃ request, stage = .entering request) ∨ ∃ ending, stage = .closingDesk ending) ∧
        error = .closed ∧ p.desk.closed = true) ∨
      ∃ ending sealedCount, stage = .concluding ending sealedCount := by
  cases move with
  | turnAway free shut =>
      cases failed
      exact Or.inr (Or.inr (Or.inl ⟨Or.inl ⟨_, rfl⟩, rfl, shut⟩))
  | failed failure =>
      cases failed
      exact Or.inl failure
  | giveUp =>
      cases failed
      exact Or.inr (Or.inl ⟨Or.inl rfl, rfl⟩)
  | unanswered =>
      cases failed
      exact Or.inr (Or.inl ⟨Or.inr (Or.inl rfl), rfl⟩)
  | awaited answer =>
      rename_i target result
      unfold Shared.awaitFlushed? at answer
      split at answer
      · cases answer
        cases failed
      · split at answer
        · rename_i stopped
          cases answer
          cases failed
          exact Or.inr (Or.inl ⟨Or.inr (Or.inr ⟨⟨target, rfl⟩, stopped⟩), rfl⟩)
        · cases answer
  | alreadyShut free shut =>
      cases failed
      exact Or.inr (Or.inr (Or.inl ⟨Or.inr ⟨_, rfl⟩, rfl, shut⟩))
  | conclude => exact Or.inr (Or.inr (Or.inr ⟨_, _, rfl⟩))
  | _ => cases failed

/-- The batcher keeps what it owes until it answers, unless a container is refused meanwhile. -/
theorem BatcherMove.owes_kept {b b' : Builder} {s s' : Shared} {stage stage' : BatcherStage}
    {command : Option Command} {c : Option Container}
    (move : BatcherMove b s stage b' stage' s' command c) {ticket : Nat}
    (owes : Batcher.owes ⟨b, stage⟩ ticket = true) :
    Batcher.owes ⟨b', stage'⟩ ticket = true ∨ (∃ n, (ticket, n) ∈ s'.replies) ∨
      s.budget.closed = true ∨ s.work.closed = true ∧ stage ≠ .finished := by
  cases move with
  | grantAdmission acquired =>
      rename_i c after budget
      cases after <;> first | cases owes | exact Or.inl owes
  | handOver offered =>
      rename_i c after work
      cases after <;> first | cases owes | exact Or.inl owes
  | refuseAdmission acquired => exact Or.inr (Or.inr (Or.inl (Budget.closed_of_acquire? acquired)))
  | refuseWork offered =>
      exact Or.inr (Or.inr (Or.inr ⟨Channel.closed_of_offer offered, by simp⟩))
  | reply =>
      rename_i ticket'
      obtain rfl : ticket' = ticket := by simpa [Batcher.owes] using owes
      exact Or.inr (Or.inl ⟨_, List.mem_cons_self⟩)
  | _ => cases owes

/-- The batcher owes an answer to a flush command that it has carried out. -/
theorem Batcher.owes_obey (b : Builder) (ticket : Nat) :
    (obey b (.flush ticket)).owes ticket = true := by
  unfold obey
  rcases b.obey (.flush ticket) with ⟨_ | c, b'⟩ <;> simp [afterwards, submitting,
    AfterHandover.stage, owes]

namespace Pipeline

variable {origin p p' q : Pipeline} {actor : Actor} {before behind log ms : History} {id : Nat}

/-! ### Who waits for an answer -/

/-- The flush command of a call waits in the channel, or the batcher owes an answer to it, or the
answer is there. -/
def Owed (p : Pipeline) (id : Nat) : Prop :=
  .flush id ∈ p.shared.commands.items ∨ p.batcher.owes id = true ∨ ∃ n, (id, n) ∈ p.shared.replies

/-- A step of somebody else leaves a call its answer, unless the pipeline is to stop. -/
theorem Owed.move (h : Owed p id) (stopping : Stopping p) (barred : Barred p)
    (move : p.Move actor p' ms) (other : actor ≠ .call id) :
    p'.shared.stopped = true ∨ Owed p' id := by
  have hstopped := move.shuts.stopped
  have hhalting {steps : List HaltStep} (hsteps : p.halting? actor = some steps)
      (hbatcher : p'.batcher = p.batcher) : p'.shared.stopped = true ∨ Owed p' id := by
    rcases stopping.stopped_of_halting move hsteps with hraised | ⟨error, hrecord⟩
    · exact Or.inl hraised
    · rw [Owed, hbatcher, hrecord]
      exact Or.inr h
  cases move with
  | call present move =>
      rename_i id' stage stage' shared desk file command
      cases move with
      | halt => exact hhalting (halting?_call_iff.2 present) rfl
      | enterEvent offered =>
          refine Or.inr (h.imp_left fun hin => ?_)
          rw [shared_moved, (Channel.items_of_offer offered).1]
          exact List.mem_append_left _ hin
      | enterFlush offered =>
          refine Or.inr (h.imp_left fun hin => ?_)
          rw [shared_moved, (Channel.items_of_offer offered).1]
          exact List.mem_append_left _ hin
      | takeReply replied =>
          obtain ⟨sealedCount, -, hreplied⟩ := Option.map_eq_some_iff.1 replied
          cases hreplied
          have hne : id ≠ id' := fun heq => other (congrArg Actor.call heq.symm)
          refine Or.inr (h.imp_right fun h => h.imp_right fun ⟨n, hin⟩ => ⟨n, ?_⟩)
          exact List.mem_filter.2 ⟨hin, by simpa using hne⟩
      | _ => exact Or.inr h
  | batcher move =>
      rcases h with hin | howes | ⟨n, hin⟩
      · generalize p.batcher.stage = stage at move
        cases move with
        | obey received =>
            rename_i command commands
            rw [(Channel.items_of_receive received).1] at hin
            rcases List.mem_cons.1 hin with rfl | hin
            · exact Or.inr (Or.inr (Or.inl (Batcher.owes_obey _ _)))
            · exact Or.inr (Or.inl hin)
        | _ => exact Or.inr (Or.inl hin)
      · rcases move.owes_kept howes with howes' | hreply | hbudget | ⟨hwork, hbusy⟩
        · exact Or.inr (Or.inr (Or.inl howes'))
        · exact Or.inr (Or.inr (Or.inr hreply))
        · exact Or.inl (hstopped (barred.budget hbudget))
        · exact Or.inl (hstopped ((barred.work hwork).resolve_right hbusy))
      · refine Or.inr (Or.inr (Or.inr ⟨n, ?_⟩))
        rcases move.replies_cases with hkept | ⟨ticket, -, -, -, hadded⟩
        · rwa [hkept]
        · rw [hadded]
          exact List.mem_cons_of_mem _ hin
  | worker present move =>
      cases move with
      | halt => exact hhalting (halting?_worker_iff.2 present) rfl
      | _ => exact Or.inr h
  | scribe move =>
      generalize hstage : p.scribe.stage = stage at move
      cases move with
      | halt => exact hhalting (halting?_scribe_iff.2 hstage) rfl
      | _ => exact Or.inr h

/-- Whoever found the channel closed was right, and whoever waits for an answer of the batcher is
owed one unless the pipeline is to stop. -/
structure Waiting (p : Pipeline) : Prop where
  refused : ∀ id, p.stage? id = some .refused → p.shared.commands.closed = true
  owed : ∀ id, p.stage? id = some .awaitingReply → p.shared.stopped = true ∨ Owed p id
  unanswered : ∀ id, p.stage? id = some .unanswered → p.shared.stopped = true

/-- Nobody who waits is concerned by a step of anybody but the calls. -/
theorem Waiting.of_stages (h : Waiting p) (stopping : Stopping p) (barred : Barred p)
    (move : p.Move actor p' ms) (hactor : ∀ id, actor ≠ .call id)
    (hstages : ∀ id, p'.stage? id = p.stage? id) : Waiting p' := by
  refine ⟨fun id hstage => move.shuts.commands (h.refused id (hstages id ▸ hstage)),
    fun id hstage => ?_,
    fun id hstage => move.shuts.stopped (h.unanswered id (hstages id ▸ hstage))⟩
  rcases h.owed id (hstages id ▸ hstage) with hstopped | howed
  · exact Or.inl (move.shuts.stopped hstopped)
  · exact howed.move stopping barred move (hactor id)

theorem Waiting.move (h : Waiting p) (posted : Posted log p) (stopping : Stopping p)
    (barred : Barred p) (move : p.Move actor p' ms) : Waiting p' := by
  have hstopped := move.shuts.stopped
  have hclosed := move.shuts.commands
  cases move with
  | call present move =>
      refine ⟨fun id' hstage => ?_, fun id' hstage => ?_, fun id' hstage => ?_⟩
      all_goals rw [stage?_moved present] at hstage; split at hstage
      · cases move with
        | refuse offered => exact Channel.closed_of_offer offered
        | _ => cases hstage
      · exact hclosed (h.refused id' hstage)
      · rename_i hid
        subst hid
        cases move with
        | enterFlush offered =>
            -- the command of the call is the last one in the channel
            obtain rfl := posted.ticket _ _ present
            refine Or.inr (Or.inl ?_)
            rw [shared_moved, (Channel.items_of_offer offered).1]
            simp
        | _ => cases hstage
      · rename_i hid
        rcases h.owed id' hstage with hraised | howed
        · exact Or.inl (hstopped hraised)
        · exact howed.move stopping barred (.call present move)
            fun heq => hid (Actor.call.inj heq).symm
      · rename_i hid
        subst hid
        cases move with
        | noReply silent hopeless =>
            -- nothing of what the call could be owed is there
            refine (h.owed _ present).resolve_right ?_
            rintro (hin | howes | ⟨n, hin⟩)
            · simp [mayReply, hin] at hopeless
            · simp [mayReply, howes] at hopeless
            · rw [Shared.takeReply?, Option.map_eq_none_iff, List.lookup_eq_none_iff] at silent
              simpa using silent _ hin
        | _ => cases hstage
      · exact hstopped (h.unanswered id' hstage)
  | batcher move => exact h.of_stages stopping barred (.batcher move) (by simp) fun _ => rfl
  | worker present move =>
      exact h.of_stages stopping barred (.worker present move) (by simp) fun _ => rfl
  | scribe move => exact h.of_stages stopping barred (.scribe move) (by simp) fun _ => rfl

theorem Waiting.arrive (h : Waiting p) (fresh : p.stage? id = none) (request : Request) :
    Waiting (p.arrive id request) := by
  constructor
  · intro id' hstage
    exact h.refused id'
      (of_stage?_arrive fresh hstage (by cases request <;> simp [Request.stage])).2
  · intro id' hstage
    exact h.owed id' (of_stage?_arrive fresh hstage (by cases request <;> simp [Request.stage])).2
  · intro id' hstage
    exact h.unanswered id'
      (of_stage?_arrive fresh hstage (by cases request <;> simp [Request.stage])).2

section

variable {settings : Settings} {sink : Sink} {base : Totals}

/-- **Whoever waits for an answer of the batcher is owed one**, at the end of every run. -/
theorem Run.waiting (run : Run origin log p)
    (opened : Pipeline.start settings sink base = .ok origin) : Waiting p := by
  have fresh := fresh_of_start opened
  refine run.invariant (fun _ p => Waiting p) fresh.idle ?_
    (fun _ _ _ request _ h free => h.arrive free request)
    (fun _ _ _ _ _ run h move =>
      h.move (run.posted fresh.idle) (run.stopping opened) (run.barred opened) move)
  constructor <;> simp [stage?, fresh.idle]

/-! ### What those are told who fail -/

/-- Whoever fails at one of the places behind the desk is told the error that was recorded. -/
theorem Run.error_cases (run : Run origin log p)
    (opened : Pipeline.start settings sink base = .ok origin) (unaborted : log.Unaborted)
    {stage stage' : CallStage} {shared : Shared} {desk : Desk} {file : Option Sink}
    {command : Option Command} {error : Error} (present : p.stage? id = some stage)
    (move : CallMove p id stage shared desk file stage' command)
    (failed : stage' = .returned (.error error)) :
    p.shared.failure = some error ∨
      (((∃ request, stage = .entering request) ∨ ∃ ending, stage = .closingDesk ending) ∧
        error = .closed ∧ p.desk.closed = true) ∨
      ∃ ending sealedCount, stage = .concluding ending sealedCount := by
  have waiting := run.waiting opened
  have hfailed (stopped : p.shared.stopped = true) (herror : error = p.shared.failureOrClosed) :
      p.shared.failure = some error := by
    obtain ⟨first, hfirst⟩ :=
      Option.isSome_iff_exists.1 (run.failure_of_stopped opened unaborted stopped)
    rw [herror, Shared.failureOrClosed, hfirst, Option.getD_some]
  rcases move.error_cases failed with hfailure | ⟨hstage, herror⟩ | hturned | hconcluding
  · exact Or.inl hfailure
  · left
    rcases hstage with rfl | rfl | ⟨-, stopped⟩
    · -- the call holds the desk, so that nobody has closed the channel to end the file
      have atDesk := (run.served (fresh_of_start opened)).atDesk
      have hholder := (atDesk.holder_iff id).2 ⟨_, present, rfl⟩
      refine hfailed (((run.barred opened).commands (waiting.refused id present)).resolve_right
        fun shut => ?_) herror
      rw [atDesk.free_of_closed shut] at hholder
      cases hholder
    · exact hfailed (waiting.unanswered id present) herror
    · exact hfailed stopped herror
  · exact Or.inr (Or.inl hturned)
  · exact Or.inr (Or.inr hconcluding)

/-- What calls to write and to flush are told that fail. -/
def Told (log : History) (p : Pipeline) : Prop :=
  ∀ id request error, .asked id request ∈ log → request.ending? = none →
    p.stage? id = some (.returned (.error error)) →
    p.shared.failure = some error ∨ error = .closed ∧ p.desk.closed = true

/-- A call to write or to flush never concludes the file. -/
theorem Callers.not_concluding (callers : Callers log p) {request : Request}
    (asked : .asked id request ∈ log) (lasting : request.ending? = none) {stage : CallStage}
    (present : p.stage? id = some stage) :
    (∀ ending, stage ≠ .closingDesk ending) ∧
      ∀ ending sealedCount, stage ≠ .concluding ending sealedCount := by
  obtain ⟨request', hasked, hpermits⟩ := callers.permitted id stage present
  obtain rfl := callers.asked_once id _ _ asked hasked
  cases hpermits with
  | closingDesk ends =>
      rw [lasting] at ends
      cases ends
  | concluding ends =>
      rw [lasting] at ends
      cases ends
  | _ => simp

/-- **Who fails is told the error that was recorded**, or has found the desk closed, in every run in
which nobody aborts. -/
theorem Run.told (run : Run origin log p)
    (opened : Pipeline.start settings sink base = .ok origin) (unaborted : log.Unaborted) :
    Told log p := by
  have fresh := fresh_of_start opened
  refine run.invariant (fun log p => log.Unaborted → Told log p) fresh.idle
    (fun _ id request error asked => by simp at asked) ?_ ?_ unaborted
  · intro log p id request _ told free unaborted id' request' error asked lasting hstage
    obtain ⟨hne, hstage⟩ := of_stage?_arrive free hstage (returned_ne_stage _ request)
    exact told unaborted.of_append id' request' error
      (by simpa [hne] using asked) lasting hstage
  · intro log p actor p' ms run told move unaborted id request error asked lasting hstage
    have hbefore : log.Unaborted := unaborted.of_append
    rw [List.mem_append, or_iff_left (move.not_asked request)] at asked
    -- whoever was over before was told the error that is still recorded
    have hearlier (hstage : p.stage? id = some (.returned (.error error))) :
        p'.shared.failure = some error ∨ error = .closed ∧ p'.desk.closed = true :=
      (told hbefore id request error asked lasting hstage).imp move.failure_eq
        fun ⟨herror, shut⟩ => ⟨herror, move.desk_shut shut⟩
    have hfailure := @Move.failure_eq _ _ _ _ move error
    have hshut := move.desk_shut
    cases move with
    | call present move =>
        rw [stage?_moved present] at hstage
        split at hstage
        · rename_i hid
          subst hid
          cases hstage
          obtain ⟨-, hother⟩ :=
            (run.served fresh).callers.not_concluding asked lasting present
          rcases run.error_cases opened hbefore present move rfl with hrecorded |
            ⟨-, herror, shut⟩ | ⟨ending, n, hconcluding⟩
          · exact Or.inl (hfailure hrecorded)
          · exact Or.inr ⟨herror, hshut shut⟩
          · exact absurd hconcluding (hother ending n)
        · exact hearlier hstage
    | batcher move => exact hearlier hstage
    | worker present move => exact hearlier hstage
    | scribe move => exact hearlier hstage

/-- A call was served at the desk; if it has failed, it was told the error that was recorded. -/
def Attended (p : Pipeline) (id : Nat) : Prop :=
  ∃ stage, p.stage? id = some stage ∧ (∀ request, stage ≠ .entering request) ∧
    ∀ error, stage = .returned (.error error) → p.shared.failure = some error

theorem Attended.arrive {id' : Nat} (h : Attended p id) (fresh : p.stage? id' = none)
    (request : Request) : Attended (p.arrive id' request) id := by
  obtain ⟨stage, hstage, hrest⟩ := h
  exact ⟨stage, stage?_arrive_of_some fresh hstage request, hrest⟩

/-- A call that was served is not turned away any more. -/
theorem Attended.move (h : Attended p id) (run : Run origin log p)
    (opened : Pipeline.start settings sink base = .ok origin) (unaborted : log.Unaborted)
    {request : Request} (asked : .asked id request ∈ log) (lasting : request.ending? = none)
    (move : p.Move actor p' ms) : Attended p' id := by
  obtain ⟨stage, hstage, hserved, hrecorded⟩ := h
  have hkept (hsame : p'.stage? id = p.stage? id) : Attended p' id :=
    ⟨stage, hsame.trans hstage, hserved,
      fun error hover => move.failure_eq (hrecorded error hover)⟩
  have hfailure {error : Error} := @Move.failure_eq _ _ _ _ move error
  cases move with
  | call present move =>
      rename_i id' old new shared desk file command
      by_cases hid : id = id'
      · subst hid
        rw [present, Option.some.injEq] at hstage
        subst hstage
        obtain ⟨hdesk, hother⟩ :=
          (run.served (fresh_of_start opened)).callers.not_concluding asked lasting present
        refine ⟨new, by rw [stage?_moved present, if_pos rfl], move.stage_ne_entering,
          fun error hover => hfailure ?_⟩
        rcases run.error_cases opened unaborted present move hover with hrecorded |
          ⟨⟨request, hentering⟩ | ⟨ending, hclosing⟩, -⟩ | ⟨ending, n, hconcluding⟩
        · exact hrecorded
        · exact absurd hentering (hserved request)
        · exact absurd hclosing (hdesk ending)
        · exact absurd hconcluding (hother ending n)
      · exact hkept (by rw [stage?_moved present, if_neg hid])
  | batcher move => exact hkept rfl
  | worker present move => exact hkept rfl
  | scribe move => exact hkept rfl

/-- **Whoever was served before the desk was closed is told the error that was recorded**, if the
call fails, in every run in which nobody aborts. -/
theorem Run.attended (run : Run origin before q) (more : Run q behind p)
    (opened : Pipeline.start settings sink base = .ok origin)
    (unaborted : History.Unaborted (before ++ behind)) (undecided : q.desk.closed = false)
    {request : Request} (asked : .asked id request ∈ before) (lasting : request.ending? = none)
    {stage : CallStage} (present : q.stage? id = some stage)
    (served : ∀ request, stage ≠ .entering request) : Attended p id := by
  suffices h : .asked id request ∈ before ++ behind ∧ Attended p id from h.2
  refine run.invariant_from more
    (fun log p => log.Unaborted → .asked id request ∈ log ∧ Attended p id)
    (fresh_of_start opened).idle (fun unaborted => ⟨asked, ?_⟩)
    (fun _ _ _ request _ h free unaborted => (h unaborted.of_append).imp (List.mem_append_left _)
      fun attended => attended.arrive free request)
    (fun _ _ _ _ _ run h move unaborted => (h unaborted.of_append).imp (List.mem_append_left _)
      fun attended => attended.move run opened unaborted.of_append (h unaborted.of_append).1 lasting
        move) unaborted
  refine ⟨stage, present, served, fun error hstage => ?_⟩
  subst hstage
  refine (run.told opened unaborted id request error asked lasting present).resolve_right
    fun ⟨_, shut⟩ => ?_
  rw [undecided] at shut
  cases shut

end

end Pipeline

end TraceLog
