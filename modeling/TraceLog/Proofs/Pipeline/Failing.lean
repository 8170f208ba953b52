/-
**Who is to blame for a failure.**

If the file refuses nothing, the scribe meets no error but those that the workers report.  So the
error that is recorded is that of a container which was sealed and has no record, however many of
them there are and in whichever order they are found out.  A report on such a container is not lost
on its way to the scribe, unless an error was recorded before; so whoever concludes the file finds
an error recorded.  What is written then are some of the first records that the commands lead to.

Main definitions:

* `History.Blames` — the error of a container that was sealed and has no record;
* `Pipeline.Blamed` — the invariant: only such errors are recorded;
* `Pipeline.Announced` — a bad report is on its way to the scribe;
* `Pipeline.Faulted` — the codec has returned an error, and what calls to close were told.

Main results:

* `Pipeline.Run.blamed` — **what was recorded is the error of a container without a record**;
* `Pipeline.Announced.move` — a bad report is not lost;
* `Pipeline.Run.faulted` — **calls to close are told the error that was recorded**;
* `Pipeline.Run.sealed_prefix` — what was sealed are the first of the containers that the commands
  make, whatever was dropped;
* `Pipeline.Concluded.unfinished` — what is left of a file when the codec has returned an error.
-/

import TraceLog.Proofs.Pipeline.Concluding
import TraceLog.Proofs.Pipeline.Flushing
import TraceLog.Proofs.Pipeline.Intact

set_option relaxedAutoImplicit false
set_option autoImplicit false

namespace TraceLog

/-- An error is that of a container which was sealed and has no record. -/
def History.Blames (log : History) (codec : Codec) (error : Error) : Prop :=
  ∃ c ∈ log.sealed, c.Fails codec error

theorem History.Blames.append {log : History} {codec : Codec} {error : Error}
    (h : log.Blames codec error) (more : History) : Blames (log ++ more) codec error := by
  obtain ⟨c, hc, hfails⟩ := h
  exact ⟨c, by rw [History.sealed_append]; exact List.mem_append_left _ hc, hfails⟩

namespace Pipeline

variable {origin p p' q : Pipeline} {actor : Actor} {before log ms : History} {id : Nat}
  {settings : Settings} {sink : Sink} {base : Totals} {threshold : UInt32}

/-! ### Errors -/

/-- Only the errors of containers without a record are recorded or about to be recorded. -/
structure Blamed (log : History) (p : Pipeline) : Prop where
  recorded : ∀ error, p.shared.failure = some error → log.Blames p.codec error
  pending : ∀ actor steps error, p.halting? actor = some steps → .record error ∈ steps →
    log.Blames p.codec error

/-- **Whoever begins to stop the pipeline has met a container without a record.** -/
theorem Begins.blames {steps : List HaltStep} (h : Begins p actor steps)
    (batched : Batched (.start threshold base.containers.toNat) log p)
    (few : base.containers.toNat + log.events.length ≤ UInt64.size)
    (custody : p.underway + log.arrived ≤ log.departed p.codec)
    (exact : ∃ written returned,
      Watched.Exact sink base written ⟨p.scribe.writer, log.taken, returned⟩)
    {error : Error} (records : .record error ∈ steps) :
    log.Blames p.codec error := by
  cases h with
  | crash compressing lost =>
      rename_i index c
      have hload : none ∈ (Worker.compressing c).load p.codec := by simp [Worker.load, lost]
      obtain ⟨c', hc', hlost⟩ := exists_of_underway custody
        (mem_underway_of_mem_load (List.mem_of_getElem? compressing) hload)
      obtain rfl : error = .internal .workerCrashed := by
        simpa [Worker.crashSteps, failSteps, haltSteps] using records
      exact ⟨c', hc', .crashed hlost⟩
  | fail fails =>
      rename_i error'
      obtain rfl : error = error' := by simpa [failSteps, haltSteps] using records
      obtain ⟨written, returned, hexact⟩ := exact
      cases fails with
      | flush refusal =>
          obtain ⟨w', hflush, -⟩ := Resequencer.wrote_flush hexact.wrote
          rw [hflush] at refusal
          cases refusal
      | accept handles refusal =>
          rename_i record
          have hhand : .done record ∈ p.scribe.stage.hand := by
            rw [handles]
            exact List.mem_singleton_self _
          obtain ⟨size, w, hok⟩ :=
            accept_of_underway hexact batched few custody (mem_underway_of_mem_hand hhand)
          rw [hok] at refusal
          cases refusal
      | report handles =>
          rename_i sequence
          have hhand : .failed sequence error ∈ p.scribe.stage.hand := by
            rw [handles]
            exact List.mem_singleton_self _
          obtain ⟨c, hc, hreport⟩ := exists_of_underway custody (mem_underway_of_mem_hand hhand)
          exact ⟨c, hc, .refused hreport⟩

theorem Blamed.move (h : Blamed log p)
    (batched : Batched (.start threshold base.containers.toNat) log p)
    (few : base.containers.toNat + log.events.length ≤ UInt64.size)
    (custody : p.underway + log.arrived ≤ log.departed p.codec)
    (exact : ∃ written returned,
      Watched.Exact sink base written ⟨p.scribe.writer, log.taken, returned⟩)
    (move : p.Move actor p' ms) : Blamed (log ++ ms) p' := by
  have hcodec := move.codec_eq
  have hcases := move.halting_cases
  refine ⟨fun error failure => ?_, fun other steps error hsteps records => ?_⟩ <;> rw [hcodec]
  · refine History.Blames.append ?_ ms
    rcases hcases with ⟨-, hkept, -⟩ | ⟨step, rest, hbefore, hkept, -⟩ | ⟨-, hkept, -⟩
    · exact h.recorded error (hkept.failure_eq.symm.trans failure)
    · rw [hkept] at failure
      cases hrecorded : p.shared.failure with
      | some first =>
          rw [step.failure_apply hrecorded] at failure
          exact h.recorded error (hrecorded.trans failure)
      | none =>
          cases step with
          | record error' =>
              obtain rfl : error' = error := by
                simpa [HaltStep.apply, hrecorded] using failure
              exact h.pending actor _ error' hbefore List.mem_cons_self
          | _ => exact absurd (hrecorded.symm.trans failure) (by simp)
    · rw [hkept] at failure
      exact h.recorded error failure
  · refine History.Blames.append ?_ ms
    by_cases hother : other = actor
    · subst hother
      rcases hcases with ⟨-, -, hbegins⟩ | ⟨step, rest, hbefore, -, hrest⟩ | ⟨-, -, hnone⟩
      · exact (hbegins steps hsteps).blames batched few custody exact records
      · rcases hrest with hrest | ⟨-, hnone⟩
        · rw [hrest, Option.some.injEq] at hsteps
          subst hsteps
          exact h.pending other _ error hbefore (List.mem_cons_of_mem _ records)
        · rw [hnone] at hsteps
          cases hsteps
      · rw [hnone] at hsteps
        cases hsteps
    · rw [move.halting?_other hother] at hsteps
      exact h.pending other steps error hsteps records

theorem Blamed.arrive (h : Blamed log p) (fresh : p.stage? id = none) (request : Request) :
    Blamed (log ++ [.asked id request]) (p.arrive id request) := by
  refine ⟨fun error failure => (h.recorded error failure).append _,
    fun actor steps error hsteps records => ?_⟩
  rcases halting?_arrive fresh hsteps with hsteps | ⟨-, rfl⟩
  · exact (h.pending actor steps error hsteps records).append _
  · -- who asks to abort records no error
    simp [haltSteps] at records

/-- **What was recorded is the error of a container without a record**, in every run from a newly
opened file that refuses nothing. -/
theorem Run.blamed (run : Run origin log p)
    (opened : Pipeline.start settings sink base = .ok origin) (reliable : sink.Reliable)
    (few : base.containers.toNat + log.events.length ≤ UInt64.size) : Blamed log p := by
  have fresh := fresh_of_start opened
  refine run.invariant (fun log p =>
    base.containers.toNat + log.events.length ≤ UInt64.size → Blamed log p) fresh.idle
    (fun _ => ?_) (fun log p id request _ h free few => ?_)
    (fun log p actor p' ms run h move few => ?_) few
  · have hidle := halting?_of_start opened
    obtain ⟨-, rfl⟩ := eq_of_start opened
    refine ⟨by simp, fun actor steps error hsteps => ?_⟩
    rw [hidle] at hsteps
    cases hsteps
  · rw [History.events, History.entered_asked] at few
    exact (h few).arrive free request
  · rw [History.events_append, List.length_append] at few
    have hbefore : base.containers.toNat + log.events.length ≤ UInt64.size := by omega
    exact (h hbefore).move (run.batched_of_start opened) hbefore
      (run.custody fresh.idle (underway_of_start opened)).2 (run.exact opened reliable) move

/-! ### Bad reports -/

/-- The codec has returned an error, and the report on that is under way to the scribe or has just
arrived. -/
inductive Announced (p : Pipeline) : Prop where
  | reporting {index sequence : Nat} {error : Error}
      (reports : p.workers[index]? = some (.reporting (.failed sequence error)))
  | waiting {sequence : Nat} {error : Error} (waits : .failed sequence error ∈ p.completions.items)
  | handling {sequence : Nat} {error : Error}
      (handles : p.scribe.stage = .handling (.failed sequence error))
  | halting {error : Error} (halts : p.scribe.stage = .halting (failSteps error))

/-- It is not concerned by those who are not on its way. -/
theorem Announced.of_eq (h : Announced p) (workers : p'.workers = p.workers)
    (items : p'.completions.items = p.completions.items)
    (stage : p'.scribe.stage = p.scribe.stage) : Announced p' := by
  cases h with
  | reporting reports => exact .reporting (workers ▸ reports)
  | waiting waits => exact .waiting (items ▸ waits)
  | handling handles => exact .handling (stage.trans handles)
  | halting halts => exact .halting (stage.trans halts)

/-- **A bad report is not lost** on its way, unless the pipeline is to stop. -/
theorem Announced.move (h : Announced p) (trailing : Trailing p)
    (senders : p.completions.senders = p.workers.countP (·.isConnected))
    (running : p.shared.stopped = false) (move : p.Move actor p' ms) :
    p'.shared.failure.isSome = true ∨ Announced p' := by
  cases move with
  | call present move => exact Or.inr (h.of_eq rfl rfl rfl)
  | batcher move => exact Or.inr (h.of_eq rfl rfl rfl)
  | worker present move =>
      rename_i index w w' shared completions
      right
      cases h with
      | reporting reports =>
          rename_i index' sequence error
          by_cases hindex : index = index'
          · subst hindex
            rw [present, Option.some.injEq] at reports
            subst reports
            cases move with
            | report sent =>
                have hin : .failed sequence error ∈ completions.items := by
                  rw [(Completions.items_of_send sent).1]
                  simp
                exact .waiting hin
            | ignored sent =>
                have hgone := trailing.gone_of_over senders
                  (by rw [trailing.listening (Completions.not_listening_of_ignored sent)]; rfl)
                cases hgone _ (List.mem_of_getElem? present)
          · exact .reporting (by rw [List.getElem?_set_ne hindex]; exact reports)
      | waiting waits =>
          cases move with
          | report sent =>
              rename_i sequence error completion
              have hin : .failed sequence error ∈ completions.items := by
                rw [(Completions.items_of_send sent).1]
                exact List.mem_append_left _ waits
              exact .waiting hin
          | _ => exact .waiting waits
      | handling handles => exact .handling handles
      | halting halts => exact .halting halts
  | scribe move =>
      cases h with
      | reporting reports => exact Or.inr (.reporting reports)
      | waiting waits =>
          have hover (ending : p.scribe.stage.isOver = true) : False := by
            rw [(trailing.ended ending).2] at waits
            cases waits
          generalize hstage : p.scribe.stage = stage at move
          cases move with
          | receive listens received =>
              rw [(Completions.items_of_receive received).1] at waits
              rcases List.mem_cons.1 waits with rfl | waits
              · exact Or.inr (.handling rfl)
              · exact Or.inr (.waiting waits)
          | publishLast flushed => exact (hover (by rw [hstage]; rfl)).elim
          | leave stopped => exact (hover (by rw [hstage]; rfl)).elim
          | _ => exact Or.inr (.waiting waits)
      | handling handles =>
          generalize hstage : p.scribe.stage = stage at move handles
          subst handles
          cases move with
          | drop stopped =>
              rw [running] at stopped
              cases stopped
          | failed running => exact Or.inr (.halting rfl)
          | receive listens received => cases listens
          | disconnected listens received => cases listens
          | publish goes flushed => cases goes
          | flushFailed flushes flushed => cases flushes
      | halting halts =>
          generalize hstage : p.scribe.stage = stage at move halts
          subst halts
          cases move with
          | halt => exact Or.inl rfl
          | receive listens received => cases listens
          | disconnected listens received => cases listens
          | publish goes flushed => cases goes
          | flushFailed flushes flushed => cases flushes

/-- As long as it is on its way, the scribe has not ended. -/
theorem Announced.not_finished (h : Announced p) (trailing : Trailing p)
    (senders : p.completions.senders = p.workers.countP (·.isConnected)) :
    p.scribe.stage ≠ .finished := by
  intro hfinished
  have hover : p.scribe.stage.isOver = true := by rw [hfinished]; rfl
  cases h with
  | reporting reports =>
      cases trailing.gone_of_over senders hover _ (List.mem_of_getElem? reports)
  | waiting waits =>
      rw [(trailing.ended hover).2] at waits
      cases waits
  | handling handles =>
      rw [hfinished] at handles
      cases handles
  | halting halts =>
      rw [hfinished] at halts
      cases halts

/-! ### Calls to close -/

/-- The codec has returned an error, and calls to close were told the error that was recorded. -/
structure Faulted (log : History) (p : Pipeline) : Prop where
  noted : p.shared.failure.isSome = true ∨ Announced p
  told : ∀ id result, .asked id .close ∈ log → p.stage? id = some (.returned result) →
    result = .error .closed ∨ ∃ error, result = .error error ∧ p.shared.failure = some error

theorem conclusion_of_failure {error : Error} (failure : p.shared.failure = some error)
    (ending : Ending) (sealedCount : Nat) :
    (p.conclusion ending sealedCount).1 = .error error := by
  unfold conclusion
  rw [failure]
  cases ending <;> rfl

/-- When the scribe has ended, the error was recorded. -/
theorem Faulted.failure (h : Faulted log p) (run : Run origin log p)
    (opened : Pipeline.start settings sink base = .ok origin) (unaborted : log.Unaborted)
    (ended : p.scribe.stage = .finished) : p.shared.failure.isSome = true := by
  refine h.noted.elim id fun announced => ?_
  cases hstopped : p.shared.stopped with
  | true => exact run.failure_of_stopped opened unaborted hstopped
  | false =>
      exact absurd ended (announced.not_finished (run.trailing opened hstopped)
        (run.senders_of_start opened))

/-- Nobody has concluded the file without an error while a worker could still report. -/
theorem Run.faulted_of_reporting (run : Run origin log p)
    (opened : Pipeline.start settings sink base = .ok origin) (unaborted : log.Unaborted)
    {index sequence : Nat} {error : Error}
    (reports : p.workers[index]? = some (.reporting (.failed sequence error))) :
    Faulted log p := by
  refine ⟨Or.inr (.reporting reports), fun id result hasked hstage => ?_⟩
  rcases (run.ended opened).answer id .close .drained result hasked rfl hstage with
    ⟨hresult, -⟩ | ⟨before, q, ending, n, h⟩
  · exact Or.inl hresult
  · right
    cases hfailure : q.shared.failure with
    | some first =>
        have hanswered := h.answered
        rw [hstage, conclusion_of_failure hfailure, Option.some.injEq, CallStage.returned.injEq]
          at hanswered
        exact ⟨first, hanswered, h.still.kept first hfailure⟩
    | none =>
        -- the workers had all ended then
        have hrunning := (h.sealed_eq opened unaborted hfailure).1
        have hended : q.scribe.stage = .finished := by rw [← h.still.scribe_eq, h.rest.scribe]
        have hgone := (h.run.trailing opened hrunning).gone_of_over (h.run.senders_of_start opened)
          (by rw [hended]; rfl)
        cases h.still.gone hgone _ (List.mem_of_getElem? reports)

theorem Faulted.arrive (h : Faulted log p) (fresh : p.stage? id = none) (request : Request) :
    Faulted (log ++ [.asked id request]) (p.arrive id request) := by
  refine ⟨h.noted.imp_right fun announced => announced.of_eq rfl rfl rfl,
    fun id' result hasked hstage => ?_⟩
  obtain ⟨hne, hstage⟩ := of_stage?_arrive fresh hstage (returned_ne_stage result request)
  exact h.told id' result (by simpa [hne] using hasked) hstage

theorem Faulted.move (h : Faulted log p) (run : Run origin log p)
    (opened : Pipeline.start settings sink base = .ok origin) (unaborted : log.Unaborted)
    (move : p.Move actor p' ms) : Faulted (log ++ ms) p' := by
  have hfailure {error : Error} := @Move.failure_eq _ _ _ _ move error
  constructor
  · have hrecorded (recorded : p.shared.failure.isSome = true) :
        p'.shared.failure.isSome = true := by
      obtain ⟨error, herror⟩ := Option.isSome_iff_exists.1 recorded
      rw [hfailure herror]
      rfl
    rcases h.noted with recorded | announced
    · exact Or.inl (hrecorded recorded)
    · cases hstopped : p.shared.stopped with
      | true => exact Or.inl (hrecorded (run.failure_of_stopped opened unaborted hstopped))
      | false =>
          exact announced.move (run.trailing opened hstopped) (run.senders_of_start opened)
            hstopped move
  · intro id result hasked hstage
    rw [List.mem_append, or_iff_left (move.not_asked .close)] at hasked
    have hearlier (hstage : p.stage? id = some (.returned result)) :
        result = .error .closed ∨
          ∃ error, result = .error error ∧ p'.shared.failure = some error :=
      (h.told id result hasked hstage).imp_right
        fun ⟨error, hresult, hrecorded⟩ => ⟨error, hresult, hfailure hrecorded⟩
    cases move with
    | call present move =>
        rw [stage?_moved present] at hstage
        split at hstage
        · rename_i hid
          subst hid
          cases hstage
          obtain ⟨request, hrequest, hpermits⟩ :=
            (run.served (fresh_of_start opened)).callers.permitted id _ present
          have callers := (run.served (fresh_of_start opened)).callers
          obtain rfl := callers.asked_once id _ _ hasked hrequest
          rcases move.file_cases with ⟨-, hother⟩ |
            ⟨ending, n, rfl, -, hshared, -, -, hreturned⟩
          · exact Or.inl (move.turned_away rfl hpermits hother rfl).1
          · -- the scribe has ended when the file is concluded
            have hended := Scribe.isFinished_iff.1
              ((run.joined_of_start opened).both id ending n present).2
            obtain ⟨error, herror⟩ :=
              Option.isSome_iff_exists.1 (h.failure run opened unaborted hended)
            rw [conclusion_of_failure herror, CallStage.returned.injEq] at hreturned
            exact Or.inr ⟨error, hreturned, hfailure herror⟩
        · exact hearlier hstage
    | batcher move => exact hearlier hstage
    | worker present move => exact hearlier hstage
    | scribe move => exact hearlier hstage

/-- **Calls to close are told the error that was recorded**, in every run in which nobody aborts and
the codec has returned an error, unless they find the desk closed. -/
theorem Run.faulted {behind : History} (run : Run origin before q) (more : Run q behind p)
    (opened : Pipeline.start settings sink base = .ok origin)
    (unaborted : History.Unaborted (before ++ behind)) {index sequence : Nat} {error : Error}
    (reports : q.workers[index]? = some (.reporting (.failed sequence error))) :
    Faulted (before ++ behind) p := by
  exact run.invariant_from more (fun log p => log.Unaborted → Faulted log p)
    (fresh_of_start opened).idle
    (fun unaborted => run.faulted_of_reporting opened unaborted reports)
    (fun _ _ _ request _ h free unaborted => (h unaborted.of_append).arrive free request)
    (fun _ _ _ _ _ run h move unaborted =>
      (h unaborted.of_append).move run opened unaborted.of_append move) unaborted

/-! ### Containers -/

/-- As long as not all commands were carried out, only what they complete was sealed; and behind the
last command no more of them come. -/
def Sealing (b₀ : Builder) (log : History) (p : Pipeline) : Prop :=
  log.sealed = (b₀.obeyAll log.obeyed).1 ∨
    log.obeyed = log.entered ∧ p.shared.commands.closed = true

theorem Sealing.move {b₀ : Builder} (h : Sealing b₀ log p)
    (heard : p.shared.stopped = false → Heard log p) (move : p.Move actor p' ms)
    (batched : Batched b₀ (log ++ ms) p') : Sealing b₀ (log ++ ms) p' := by
  rcases h with hsealed | ⟨hobeyed, hclosed⟩
  · -- whoever is not the batcher neither carries out a command nor seals a container
    have hkept (hobeyed' : History.obeyed ms = []) (hsealed' : History.sealed ms = []) :
        Sealing b₀ (log ++ ms) p' := by
      left
      rw [History.sealed_append, History.obeyed_append, hobeyed', hsealed', List.append_nil,
        List.append_nil, hsealed]
    cases move with
    | call present move => exact hkept (History.obeyed_call _ _ _) (History.sealed_call _ _ _)
    | worker present move => exact hkept rfl rfl
    | scribe move => exact hkept (History.obeyed_scribe _) (History.sealed_scribe _)
    | batcher move =>
        rename_i builder stage' shared command c
        generalize hstage : p.batcher.stage = stage at move
        cases move with
        | obey received =>
            rename_i command commands
            rcases batched.made with ⟨hmade, -⟩ | ⟨hlast, -⟩
            · exact Or.inl hmade
            · rw [Batcher.isLast_submitting] at hlast
              cases command <;> cases hlast
        | sealLast running =>
            have hheard := heard running
            have hpast : p.batcher.stage.isPast = true := by rw [hstage]; rfl
            refine Or.inr ⟨?_, (hheard.past hpast).1⟩
            rw [History.obeyed_append, History.obeyed_batcher, History.entered_append,
              History.entered_batcher, Option.toList_none, List.append_nil, List.append_nil,
              hheard.entered_eq hpast]
        | _ => exact hkept rfl rfl
  · right
    have hentered : (log ++ ms).entered = log.entered := by
      rw [History.entered_append, move.entered_of_closed hclosed, List.append_nil]
    have hprefix' := batched.obeyed_prefix
    rw [hentered, History.obeyed_append, hobeyed] at hprefix'
    refine ⟨?_, move.shuts.commands hclosed⟩
    rw [hentered, History.obeyed_append, hobeyed]
    exact ((List.prefix_append ..).eq_of_length_le hprefix'.length_le).symm

/-- **What was sealed are the first of the containers that the commands make**, in every run. -/
theorem Run.sealed_prefix (run : Run origin log p)
    (opened : Pipeline.start settings sink base = .ok origin) :
    log.sealed <+:
      (Builder.start settings.containerSize base.containers.toNat).batches log.entered := by
  have fresh := fresh_of_start opened
  have batched := run.batched_of_start opened
  have hsealing :
      Sealing (.start settings.containerSize base.containers.toNat) log p := by
    refine run.invariant (Sealing (.start settings.containerSize base.containers.toNat)) fresh.idle
      (Or.inl rfl) (fun log p id request _ h _ => ?_)
      (fun log p actor p' ms run h move => h.move (run.heard opened) move
        ((run.batched_of_start opened).move move))
    rw [Sealing, History.sealed_asked, History.obeyed_asked, History.entered_asked]
    exact h
  have hfirst (hsealed : log.sealed =
      ((Builder.start settings.containerSize base.containers.toNat).obeyAll log.obeyed).1) :
      log.sealed <+:
        (Builder.start settings.containerSize base.containers.toNat).batches log.entered := by
    obtain ⟨rest, hrest⟩ := batched.obeyed_prefix
    rw [hsealed, Builder.batches_eq, ← hrest, Builder.obeyAll_append, List.append_assoc]
    exact List.prefix_append ..
  rcases hsealing with hsealed | ⟨hobeyed, -⟩
  · exact hfirst hsealed
  · rcases batched.made with ⟨hsealed, -⟩ | ⟨-, hsealed, -⟩
    · exact hfirst hsealed
    · exact hobeyed ▸ hsealed ▸ List.prefix_rfl

/-! ### What is left of the file -/

/-- **What is left of a file when the codec has returned an error**: some of the first records that
the commands lead to, with everything that was granted to calls to flush; and whoever has concluded
the file was told the error that was recorded. -/
theorem Concluded.unfinished {ending : Ending} {sealedCount : Nat}
    (h : Concluded origin log p id before q ending sealedCount) (faulted : Faulted log p)
    (run : Run origin log p) (opened : Pipeline.start settings sink base = .ok origin)
    (reliable : sink.Reliable) (unaborted : log.Unaborted)
    (few : base.containers.toNat + log.events.length ≤ UInt64.size) :
    ∃ error written, p.stage? id = some (.returned (.error error)) ∧
      p.shared.failure = some error ∧ log.Blames p.codec error ∧
      p.file.bytes = sink.bytes ++ Image.unfinished written ∧
      written <+: Image.records p.codec
        ((Builder.start settings.containerSize base.containers.toNat).batches log.entered) ∧
      written.map (·.sequence.toNat) = List.range' base.containers.toNat written.length ∧
      p.shared.progress.flushed ≤ base.containers.toNat + written.length := by
  obtain ⟨request, hasked, hends⟩ := h.asked
  obtain ⟨hclose, rfl⟩ := Callers.asked_close unaborted hasked hends
  have hfew : base.containers.toNat + before.events.length ≤ UInt64.size := by
    rwa [History.events, h.still.entered_eq] at few
  obtain ⟨written, returned, hexact⟩ := h.run.exact opened reliable
  obtain ⟨file, ⟨-, -, hconclusion, -⟩ | ⟨error, hfailed, hconclusion, hbytes⟩⟩ :=
    conclusion_cases hexact.wrote .drained sealedCount
  · -- nobody is told that the file is finished
    have hanswered := h.answered
    rw [hconclusion] at hanswered
    rcases faulted.told id _ hclose hanswered with hresult | ⟨error, hresult, -⟩ <;> cases hresult
  · have hanswered := h.answered
    have hfile := h.file
    rw [hconclusion] at hanswered hfile
    have hrecorded : p.shared.failure = some error := by
      rcases hfailed with hfailure | ⟨-, -, hopen⟩
      · exact h.still.kept error hfailure
      · rcases faulted.told id _ hclose hanswered with hresult | ⟨error', hresult, hrecorded⟩
        · cases hresult
          exact absurd rfl hopen
        · cases hresult
          exact hrecorded
    refine ⟨error, written, hanswered, hrecorded,
      (run.blamed opened reliable few).recorded error hrecorded, ?_, ?_, hexact.wrote.numbers, ?_⟩
    · rw [Pipeline.file, hfile, Option.getD_some, hbytes]
    · have hfront := written_prefix hexact (h.run.batched_of_start opened) hfew
        (h.run.custody (fresh_of_start opened).idle (underway_of_start opened)).2
      rw [h.still.codec_eq]
      rw [← h.still.sealed_eq] at hfront
      exact hfront.trans (Image.records_prefix (run.sealed_prefix opened))
    · have hnext := hexact.wrote.next_eq
      rw [← hnext, ← h.still.scribe_eq]
      exact (run.published opened).flushed_le

end Pipeline

end TraceLog
