/-
**Runs in which nothing is dropped.**

As long as nobody has seen that the pipeline is to stop, no container is dropped: whoever comes to
an end does so because there is nothing left to do for it.  The invariant says this of all stages at
once, because each of them relies on the others.  The batcher ends behind the last command, the
workers behind the last container, and the scribe behind the last worker.  None of this depends on
what the file does with the records.

Main definitions:

* `ScribeStage.isOver` — the scribe looks at no report any more;
* `Pipeline.Trailing` — the scribe ends behind the last worker;
* `Pipeline.Intact` — everyone goes on until nothing is left to do, and nothing is lost.

Main results:

* `Pipeline.Run.trailing` — the scribe ends behind the last worker unless the pipeline is to stop;
* `Pipeline.Intact.drained` — when the scribe has ended, nothing is under way;
* `Pipeline.Intact.move` — **a step by which nothing is dropped keeps the invariant**;
* `Pipeline.Calm.keeps` — nobody drops a container in a pipeline that is calm behind it;
* `Pipeline.Run.intact` — **the invariant holds at the end of every run that ends calm**.
-/

import TraceLog.Proofs.Pipeline.Stopping

set_option relaxedAutoImplicit false
set_option autoImplicit false

namespace TraceLog

/-! ### Coming to an end -/

/-- The scribe looks at no report any more. -/
def ScribeStage.isOver : ScribeStage → Bool
  | .ending | .flushingLast | .finished => true
  | _ => false

theorem Completions.disconnected_of_receive {c : Completions} (h : c.receive = .disconnected) :
    c.senders = 0 ∧ c.items = [] := by
  unfold receive at h
  split at h
  · cases h
  · rename_i hitems
    split at h
    · rename_i hsenders
      exact ⟨hsenders, hitems⟩
    · cases h

/-- A worker ends behind the last container, unless something has gone wrong. -/
theorem WorkerMove.gone_cases {codec : Codec} {s s' : Shared} {out out' : Completions}
    {w w' : Worker} (move : WorkerMove codec s out w w' s' out') (gone : w'.isConnected = false) :
    (w' = .gone ∧ s.work.closed = true ∧ s.work.items = [] ∧ s' = s) ∨ w.Drops codec s out := by
  cases move with
  | drained received =>
      obtain ⟨hclosed, hempty⟩ := Channel.drained_of_receive received
      exact Or.inl ⟨rfl, hclosed, hempty, rfl⟩
  | abandon stopped => exact Or.inr (.stopped stopped)
  | crash lost => exact Or.inr (.crashing rfl lost)
  | ignored sent =>
      have hdeaf := Completions.not_listening_of_ignored sent
      exact Or.inr (.unheard hdeaf (by simp [Worker.load]))
  | vanish => exact Or.inr (.halting rfl)
  | halt => exact Or.inr (.halting rfl)
  | _ => cases gone

/-- A worker that cannot report leaves the reports alone. -/
theorem WorkerMove.out_eq {codec : Codec} {s s' : Shared} {out out' : Completions}
    {w w' : Worker} (move : WorkerMove codec s out w w' s' out') (gone : w.isConnected = false) :
    out' = out := by
  cases move <;> first | rfl | cases gone

theorem WorkerMove.listening_eq {codec : Codec} {s s' : Shared} {out out' : Completions}
    {w w' : Worker} (move : WorkerMove codec s out w w' s' out') :
    out'.listening = out.listening := by
  cases move with
  | report sent => exact (Completions.items_of_send sent).2.2
  | _ => rfl

/-- The scribe ends behind the last worker, unless something has gone wrong. -/
theorem ScribeMove.isOver_cases {w w' : Resequencer} {s s' : Shared} {inbox inbox' : Completions}
    {stage stage' : ScribeStage} {record : Option Record}
    (move : ScribeMove w s inbox stage w' stage' s' inbox' record) (ended : stage'.isOver = true) :
    (stage.isOver = true ∧ (inbox'.items = inbox.items ∨ inbox'.items = [])) ∨
      (inbox.senders = 0 ∧ inbox'.items = []) ∨ s.stopped = true ∨ stage = .halting [] := by
  cases move with
  | disconnected listens received =>
      exact Or.inr (Or.inl (Completions.disconnected_of_receive received))
  | publish goes flushed => cases goes <;> cases ended
  | publishLast flushed => exact Or.inl ⟨rfl, Or.inr rfl⟩
  | drop stopped => exact Or.inr (Or.inr (Or.inl stopped))
  | leave stopped => exact Or.inr (Or.inr (Or.inl stopped))
  | last running => exact Or.inl ⟨rfl, Or.inl rfl⟩
  | halted => exact Or.inr (Or.inr (Or.inr rfl))
  | _ => cases ended

theorem ScribeMove.listening_cases {w w' : Resequencer} {s s' : Shared}
    {inbox inbox' : Completions} {stage stage' : ScribeStage} {record : Option Record}
    (move : ScribeMove w s inbox stage w' stage' s' inbox' record) :
    inbox'.listening = inbox.listening ∨ stage' = .finished := by
  cases move with
  | receive listens received => exact Or.inl (Completions.items_of_receive received).2.2
  | publishLast flushed => exact Or.inr rfl
  | leave stopped => exact Or.inr rfl
  | _ => exact Or.inl rfl

namespace Pipeline

variable {log ms : History} {p p' : Pipeline} {actor : Actor}

/-! ### The scribe comes last -/

/-- The scribe ends behind the last worker. -/
structure Trailing (p : Pipeline) : Prop where
  ended : p.scribe.stage.isOver = true → p.completions.senders = 0 ∧ p.completions.items = []
  listening : p.completions.listening = false → p.scribe.stage = .finished

/-- When the scribe has come to its end, all workers have. -/
theorem Trailing.gone_of_over (h : Trailing p)
    (senders : p.completions.senders = p.workers.countP (·.isConnected))
    (ending : p.scribe.stage.isOver = true) : ∀ w ∈ p.workers, w.isConnected = false := by
  intro w hw
  rw [(h.ended ending).1] at senders
  simpa using List.countP_eq_zero.1 senders.symm w hw

/-- **A step keeps the scribe behind the last worker**, unless the pipeline is to stop. -/
theorem Trailing.move (h : Trailing p)
    (senders : p.completions.senders = p.workers.countP (·.isConnected))
    (running : p.shared.stopped = false) (unhalted : p.halting? actor ≠ some [])
    (move : p.Move actor p' ms) : Trailing p' := by
  constructor
  · intro ending
    cases move with
    | call present move => exact h.ended ending
    | batcher move => exact h.ended ending
    | worker present move =>
        -- the scribe has waited for this worker, so that it has nothing to report
        have hgone := h.gone_of_over senders ending _ (List.mem_of_getElem? present)
        have hout := move.out_eq hgone
        subst hout
        exact h.ended ending
    | scribe move =>
        have hsenders := move.senders_eq
        rcases move.isOver_cases ending with ⟨hover, hitems⟩ | ⟨hnone, hitems⟩ | hstopped | hhalted
        · refine ⟨hsenders.trans (h.ended hover).1, ?_⟩
          rcases hitems with hitems | hitems
          · exact hitems.trans (h.ended hover).2
          · exact hitems
        · exact ⟨hsenders.trans hnone, hitems⟩
        · rw [running] at hstopped
          cases hstopped
        · exact absurd (halting?_scribe_iff.2 hhalted) unhalted
  · intro deaf
    cases move with
    | call present move => exact h.listening deaf
    | batcher move => exact h.listening deaf
    | worker present move => exact h.listening (move.listening_eq.symm.trans deaf)
    | scribe move =>
        rcases move.listening_cases with hkept | hfinished
        · exact absurd (h.listening (hkept.symm.trans deaf)) move.stage_ne_finished
        · exact hfinished

theorem trailing_of_start {settings : Settings} {sink : Sink} {base : Totals} {origin : Pipeline}
    (opened : Pipeline.start settings sink base = .ok origin) : Trailing origin := by
  obtain ⟨-, rfl⟩ := eq_of_start opened
  constructor <;> simp [Scribe.start, ScribeStage.isOver, Completions.start]

/-- **The scribe ends behind the last worker**, in every run of a pipeline that is not to stop. -/
theorem Run.trailing {settings : Settings} {sink : Sink} {base : Totals} {origin : Pipeline}
    (run : Run origin log p) (opened : Pipeline.start settings sink base = .ok origin)
    (running : p.shared.stopped = false) : Trailing p := by
  refine run.invariant (fun _ p => p.shared.stopped = false → Trailing p)
    (fresh_of_start opened).idle (fun _ => trailing_of_start opened)
    (fun _ _ _ _ _ h _ running => ⟨(h running).1, (h running).2⟩)
    (fun log p actor p' ms run h move running => ?_) running
  have hstopped := move.shuts.stopped
  have hbefore : p.shared.stopped = false := by
    by_contra hraised
    rw [hstopped (by simpa using hraised)] at running
    cases running
  refine (h hbefore).move (run.senders_of_start opened) hbefore (fun hover => ?_) move
  have hraised := (run.stopping opened).done_of_nil hover .raiseFlag (by simp [haltSteps])
  rw [HaltStep.Done, hbefore] at hraised
  cases hraised

/-! ### The invariant -/

/-- Everyone goes on until nothing is left to do, and nothing is lost. -/
structure Intact (log : History) (p : Pipeline) : Prop extends Heard log p where
  running : p.shared.stopped = false
  faultless : p.shared.failure = none
  admitting : p.shared.budget.closed = false
  working : p.shared.work.closed = true → p.batcher.stage = .finished
  /-- A worker ends behind the last container. -/
  gone : ∀ w ∈ p.workers, w.isConnected = false →
    w = .gone ∧ p.shared.work.closed = true ∧ p.shared.work.items = []
  /-- The scribe ends behind the last worker. -/
  ended : p.scribe.stage.isOver = true → p.completions.senders = 0 ∧ p.completions.items = []
  listening : p.completions.listening = false → p.scribe.stage = .finished
  kept : p.underway + log.arrived = log.departed p.codec

theorem load_of_disconnected {w : Worker} (codec : Codec) (gone : w.isConnected = false) :
    w.load codec = [] := by
  cases w <;> first | rfl | cases gone

theorem mem_underway_of_mem_load {w : Worker} (hw : w ∈ p.workers) {report : Option Completion}
    (hin : report ∈ w.load p.codec) : report ∈ p.underway :=
  Multiset.mem_add.2 (Or.inl (Multiset.mem_add.2 (Or.inr (List.mem_flatMap.2 ⟨w, hw, hin⟩))))

theorem mem_underway_of_mem_hand {completion : Completion}
    (hin : completion ∈ p.scribe.stage.hand) : some completion ∈ p.underway :=
  Multiset.mem_add.2 (Or.inr (Multiset.mem_map_of_mem some (Multiset.mem_add.2 (Or.inr hin))))

theorem Intact.trailing (intact : Intact log p) : Trailing p := ⟨intact.ended, intact.listening⟩

/-- When the scribe has ended, the batcher has, and nothing is under way. -/
theorem Intact.drained (intact : Intact log p)
    (senders : p.completions.senders = p.workers.countP (·.isConnected))
    (staffed : p.workers ≠ []) (ended : p.scribe.stage = .finished) :
    p.batcher.stage = .finished ∧ p.underway = 0 := by
  have hover : p.scribe.stage.isOver = true := by rw [ended]; rfl
  have hgone := intact.trailing.gone_of_over senders hover
  obtain ⟨w, hw⟩ := List.exists_mem_of_ne_nil _ staffed
  obtain ⟨-, hclosed, hempty⟩ := intact.gone w hw (hgone w hw)
  have hfinished := intact.working hclosed
  refine ⟨hfinished, ?_⟩
  have hloads : p.workers.flatMap (·.load p.codec) = [] :=
    List.flatMap_eq_nil_iff.2 fun v hv => load_of_disconnected _ (hgone v hv)
  rw [underway, unclaimed, reported, hfinished, hempty, hloads, (intact.ended hover).2, ended]
  rfl

/-! ### What a step preserves -/

/-- Nobody refuses the container in the batcher's hands. -/
theorem Intact.batcher_keeps (intact : Intact log p) : ¬ p.Drops .batcher := by
  intro hdrops
  cases hdrops with
  | barred shut =>
      rw [intact.admitting] at shut
      cases shut
  | shutOut shut busy =>
      rw [intact.working shut] at busy
      exact busy rfl

theorem Intact.working_move (intact : Intact log p) (keeps : ¬ p.Drops actor)
    (move : p.Move actor p' ms) (closed : p'.shared.work.closed = true) :
    p'.batcher.stage = .finished := by
  rcases move.work_closed_cases with hkept | hended | ⟨steps, hsteps⟩
  · have hfinished := intact.working (hkept.symm.trans closed)
    cases move with
    | batcher move => exact absurd hfinished move.stage_ne_finished
    | _ => exact hfinished
  · exact hended
  · exact absurd (drops_of_halting hsteps) keeps

theorem Intact.gone_move (intact : Intact log p) (keeps : ¬ p.Drops actor)
    (move : p.Move actor p' ms) : ∀ w ∈ p'.workers, w.isConnected = false →
      w = .gone ∧ p'.shared.work.closed = true ∧ p'.shared.work.items = [] := by
  have hwork := move.shuts.work
  have hempty := move.work_empty
  have hstay (w : Worker) (hw : w ∈ p.workers) (hgone : w.isConnected = false) :
      w = .gone ∧ p'.shared.work.closed = true ∧ p'.shared.work.items = [] := by
    obtain ⟨rfl, hclosed, hitems⟩ := intact.gone w hw hgone
    exact ⟨rfl, hwork hclosed, hempty hclosed hitems⟩
  cases move with
  | call present move => exact hstay
  | batcher move => exact hstay
  | worker present move =>
      intro v hv hgone
      rcases List.mem_or_eq_of_mem_set hv with hv | rfl
      · exact hstay v hv hgone
      · rcases move.gone_cases hgone with ⟨rfl, hclosed, hitems, -⟩ | hdrops
        · exact ⟨rfl, hwork hclosed, hempty hclosed hitems⟩
        · exact absurd ⟨_, present, hdrops⟩ keeps
  | scribe move => exact hstay

theorem Intact.kept_move (intact : Intact log p) (keeps : ¬ p.Drops actor)
    (move : p.Move actor p' ms) :
    p'.underway + (log ++ ms).arrived = (log ++ ms).departed p'.codec := by
  obtain ⟨hcodec, heq | ⟨hdrops, -⟩⟩ := move.custody
  · rw [History.arrived_append, History.departed_append, hcodec, ← intact.kept]
    calc p'.underway + (log.arrived + History.arrived ms)
        = (p'.underway + History.arrived ms) + log.arrived := by abel
      _ = (p.underway + History.departed ms p.codec) + log.arrived := by rw [heq]
      _ = p.underway + log.arrived + History.departed ms p.codec := by abel
  · exact absurd hdrops keeps

/-- **A step by which nothing is dropped keeps the invariant.** -/
theorem Intact.move (intact : Intact log p)
    (senders : p.completions.senders = p.workers.countP (·.isConnected))
    (keeps : ¬ p.Drops actor) (move : p.Move actor p' ms) : Intact (log ++ ms) p' := by
  have hundisturbed : p.shared.Undisturbed p'.shared :=
    move.undisturbed_or_halting.resolve_right fun ⟨_, hsteps⟩ => keeps (drops_of_halting hsteps)
  have hkept : (∃ steps, p.halting? actor = some steps) →
      p'.shared.commands.items = p.shared.commands.items :=
    fun ⟨_, hsteps⟩ => absurd (drops_of_halting hsteps) keeps
  have htrailing := intact.trailing.move senders intact.running
    (fun hover => keeps (drops_of_halting hover)) move
  exact
    { toHeard := intact.toHeard.move move hkept intact.batcher_keeps
      running := hundisturbed.stopped_eq.trans intact.running
      faultless := hundisturbed.failure_eq.trans intact.faultless
      admitting := hundisturbed.budget_eq.trans intact.admitting
      working := intact.working_move keeps move
      gone := intact.gone_move keeps move
      ended := htrailing.ended
      listening := htrailing.listening
      kept := intact.kept_move keeps move }

theorem Intact.arrive {id : Nat} (intact : Intact log p) (request : Request) :
    Intact (log ++ [.asked id request]) (p.arrive id request) := by
  obtain ⟨⟨order, past⟩, running, faultless, admitting, working, gone, ended, listening, kept⟩ :=
    intact
  refine ⟨⟨?_, past⟩, running, faultless, admitting, working, gone, ended, listening, ?_⟩
  · rw [History.entered_asked, History.obeyed_asked]
    exact order
  · rw [History.arrived, History.taken_asked, History.departed, History.sealed_asked]
    exact kept

theorem intact_of_start {settings : Settings} {sink : Sink} {base : Totals} {origin : Pipeline}
    (opened : Pipeline.start settings sink base = .ok origin) : Intact [] origin := by
  have hunderway := underway_of_start opened
  have htrailing := trailing_of_start opened
  obtain ⟨-, rfl⟩ := eq_of_start opened
  constructor
  case toHeard => exact ⟨rfl, by simp [Batcher.start, BatcherStage.isPast]⟩
  case kept => rw [hunderway]; rfl
  case gone =>
    intro w hw hgone
    rw [List.eq_of_mem_replicate hw] at hgone
    cases hgone
  case ended => exact htrailing.ended
  case listening => exact htrailing.listening
  all_goals simp [Budget.start]

/-! ### Calm runs -/

/-- Someone who is in the middle of stopping the pipeline, and is no call, would not leave it
calm. -/
theorem Calm.not_halting (calm : Calm p) {steps : List HaltStep}
    (hactor : ∀ id, actor ≠ .call id) : p.halting? actor ≠ some steps := by
  intro hsteps
  obtain ⟨id, hid⟩ := calm.callers actor steps hsteps
  exact hactor id hid

/-- **Nobody drops a container** in a pipeline that is calm behind it. -/
theorem Calm.keeps (calm : Calm p') (stopping : Stopping p) (intact : Intact log p)
    (senders : p.completions.senders = p.workers.countP (·.isConnected))
    (move : p.Move actor p' ms) : ¬ p.Drops actor := by
  have hidle := calm.idle stopping move
  have hrunning := intact.running
  cases move with
  | call present move =>
      rintro ⟨steps, hstage⟩
      rw [halting?_call_iff.2 hstage] at hidle
      cases hidle
  | batcher move => exact intact.batcher_keeps
  | worker present move =>
      rename_i index w w' shared completions
      rintro ⟨v, hv, hdrops⟩
      rw [present, Option.some.injEq] at hv
      subst hv
      cases hdrops with
      | stopped stopped =>
          rw [hrunning] at stopped
          cases stopped
      | crashing runs crashes =>
          -- the worker would be stopping the pipeline now
          subst runs
          cases move with
          | compress completed =>
              rw [crashes] at completed
              cases completed
          | crash lost =>
              have hindex := (List.getElem?_eq_some_iff.1 present).1
              exact calm.not_halting (by simp)
                (halting?_worker_iff.2 (List.getElem?_set_self hindex))
      | unheard deaf busy =>
          have hover : p.scribe.stage.isOver = true := by
            rw [intact.listening deaf]
            rfl
          exact busy (load_of_disconnected _
            (intact.trailing.gone_of_over senders hover w (List.mem_of_getElem? present)))
      | halting halts =>
          rw [halts] at present
          rw [halting?_worker_iff.2 present] at hidle
          cases hidle
  | scribe move =>
      intro hdrops
      cases hdrops with
      | stopped stopped =>
          rw [hrunning] at stopped
          cases stopped
      | leaving last late =>
          have hover : p.scribe.stage.isOver = true := by
            rw [last]
            rfl
          exact late (intact.ended hover).2
      | refused handles refusal =>
          -- the scribe would be stopping the pipeline now
          rw [handles] at move
          cases move with
          | receive listens received => cases listens
          | disconnected listens received => cases listens
          | publish goes flushed => cases goes
          | flushFailed flushes flushed => cases flushes
          | drop stopped =>
              rw [hrunning] at stopped
              cases stopped
          | take running accepted =>
              rw [accepted] at refusal
              cases refusal
          | refuse running accepted =>
              exact calm.not_halting (by simp) (halting?_scribe_iff.2 rfl)
      | failed handles =>
          rw [handles] at move
          cases move with
          | receive listens received => cases listens
          | disconnected listens received => cases listens
          | publish goes flushed => cases goes
          | flushFailed flushes flushed => cases flushes
          | drop stopped =>
              rw [hrunning] at stopped
              cases stopped
          | failed running => exact calm.not_halting (by simp) (halting?_scribe_iff.2 rfl)
      | halting halts =>
          rw [halting?_scribe_iff.2 halts] at hidle
          cases hidle

/-- **Everyone goes on until nothing is left to do, and nothing is lost**, in every run from a newly
opened file that ends calm. -/
theorem Run.intact {settings : Settings} {sink : Sink} {base : Totals} {origin : Pipeline}
    (run : Run origin log p) (opened : Pipeline.start settings sink base = .ok origin)
    (calm : Calm p) : Intact log p := by
  refine run.invariant (fun log p => Calm p → Intact log p) (fresh_of_start opened).idle
    (fun _ => intact_of_start opened) ?_ ?_ calm
  · intro log p id request _ intact _ calm
    exact (intact calm.of_arrive).arrive request
  · intro log p actor p' ms run intact move calm
    have hstopping := run.stopping opened
    have hsenders := run.senders_of_start opened
    have hbefore := intact (calm.of_move hstopping move)
    exact hbefore.move hsenders (calm.keeps hstopping hbefore hsenders move) move

end Pipeline

end TraceLog
