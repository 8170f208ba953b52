/-
**Who has ended.**

A worker that has ended cannot report any more, and the queue to the scribe knows how many workers
still can.  A call that brings the file to its end joins the batcher first and then the scribe; what
it has learned of them stays true, because a thread that has ended does not start again.

Main definitions:

* `Worker.isConnected` — whether a worker can still report;
* `Pipeline.Joined` — what those who have joined the threads know.

Main results:

* `Pipeline.Run.senders_eq` — **the queue counts the workers that can report**;
* `Pipeline.Run.joined` — what those know who have joined the threads, at the end of every run.
-/

import TraceLog.Proofs.Pipeline.Batching
import TraceLog.Proofs.Pipeline.Callers
import TraceLog.Session

set_option relaxedAutoImplicit false
set_option autoImplicit false

namespace TraceLog

/-! ### Workers -/

/-- Whether a worker can still report. -/
def Worker.isConnected : Worker → Bool
  | .idle | .holding _ | .compressing _ | .reporting _ => true
  | .crashed _ | .gone => false

/-- A worker that hangs up cannot report any more. -/
theorem WorkerMove.senders_cases {codec : Codec} {s s' : Shared} {out out' : Completions}
    {w w' : Worker} (move : WorkerMove codec s out w w' s' out') :
    (out'.senders = out.senders ∧ w'.isConnected = w.isConnected) ∨
      (out'.senders = out.senders - 1 ∧ w.isConnected = true ∧ w'.isConnected = false) := by
  cases move with
  | drained received => exact Or.inr ⟨rfl, rfl, rfl⟩
  | abandon stopped => exact Or.inr ⟨rfl, rfl, rfl⟩
  | crash lost => exact Or.inr ⟨rfl, rfl, rfl⟩
  | ignored sent => exact Or.inr ⟨rfl, rfl, rfl⟩
  | report sent => exact Or.inl ⟨(Completions.items_of_send sent).2.1, rfl⟩
  | halt =>
      rename_i step steps
      left
      cases steps <;> exact ⟨rfl, rfl⟩
  | _ => exact Or.inl ⟨rfl, rfl⟩

theorem ScribeMove.senders_eq {w w' : Resequencer} {s s' : Shared} {inbox inbox' : Completions}
    {stage stage' : ScribeStage} {record : Option Record}
    (move : ScribeMove w s inbox stage w' stage' s' inbox' record) :
    inbox'.senders = inbox.senders := by
  cases move with
  | receive listens received => exact (Completions.items_of_receive received).2.1
  | _ => rfl

namespace Pipeline

theorem Move.senders_eq {p p' : Pipeline} {actor : Actor} {ms : History}
    (h : p.completions.senders = p.workers.countP (·.isConnected))
    (move : p.Move actor p' ms) :
    p'.completions.senders = p'.workers.countP (·.isConnected) := by
  cases move with
  | call present move => exact h
  | batcher move => exact h
  | worker present move =>
      rename_i index w w' shared completions
      obtain ⟨before, behind, hold, hnew⟩ := exists_append_of_getElem? present
      rw [hold] at h
      simp only [hnew w']
      rw [List.countP_append, List.countP_cons] at h ⊢
      rcases move.senders_cases with ⟨hsenders, hsame⟩ | ⟨hsenders, hbefore, hafter⟩
      · rw [hsenders, h, hsame]
      · rw [hsenders, h, hbefore, hafter]
        simp
  | scribe move => exact move.senders_eq.trans h

/-- **The queue counts the workers that can report.** -/
theorem Run.senders_eq {origin p : Pipeline} {log : History} (run : Run origin log p)
    (idle : origin.calls = [])
    (start : origin.completions.senders = origin.workers.countP (·.isConnected)) :
    p.completions.senders = p.workers.countP (·.isConnected) :=
  run.invariant (fun _ p => p.completions.senders = p.workers.countP (·.isConnected)) idle start
    (fun _ _ _ _ _ h _ => h) (fun _ _ _ _ _ _ h move => move.senders_eq h)

/-- No worker comes or goes. -/
theorem Run.length_workers {origin p : Pipeline} {log : History} (run : Run origin log p)
    (idle : origin.calls = []) : p.workers.length = origin.workers.length := by
  refine run.invariant (fun _ p => p.workers.length = origin.workers.length) idle rfl
    (fun _ _ _ _ _ h _ => h) ?_
  intro log p actor p' ms _ h move
  cases move with
  | worker present move => exact (List.length_set ..).trans h
  | _ => exact h

end Pipeline

/-! ### Joining the threads -/

theorem Batcher.sealedCount?_eq_some_iff {t : Batcher} {sealedCount : Nat} :
    t.sealedCount? = some sealedCount ↔
      t.stage = .finished ∧ t.builder.sealedCount = sealedCount := by
  obtain ⟨b, stage⟩ := t
  cases stage <;> simp [sealedCount?]

theorem Scribe.isFinished_iff {t : Scribe} : t.isFinished = true ↔ t.stage = .finished := by
  obtain ⟨w, stage⟩ := t
  cases stage <;> simp [isFinished]

/-- A batcher that has ended does not go on. -/
theorem BatcherMove.stage_ne_finished {b b' : Builder} {s s' : Shared}
    {stage stage' : BatcherStage} {command : Option Command} {c : Option Container}
    (move : BatcherMove b s stage b' stage' s' command c) : stage ≠ .finished := by
  cases move <;> simp

/-- A batcher that ends closes the work channel behind it. -/
theorem BatcherMove.work_closed {b b' : Builder} {s s' : Shared} {stage stage' : BatcherStage}
    {command : Option Command} {c : Option Container}
    (move : BatcherMove b s stage b' stage' s' command c) (ended : stage' = .finished) :
    s'.work.closed = true := by
  cases move with
  | closeWork => rfl
  | obey received =>
      rename_i command commands
      have hlast := Batcher.isLast_submitting (b.obey command).1 (Batcher.afterwards command)
      rw [ended] at hlast
      cases command <;> cases hlast
  | sealLast running =>
      cases hseal : b.sealCurrent.1 with
      | none =>
          rw [hseal] at ended
          cases ended
      | some c =>
          rw [hseal] at ended
          cases ended
  | handOver offered =>
      rename_i c after work
      cases after <;> cases ended
  | refuseAdmission acquired =>
      rename_i c after budget
      cases after <;> cases ended
  | refuseWork offered =>
      rename_i c after
      cases after <;> cases ended
  | _ => cases ended

/-- A scribe that has ended does not go on. -/
theorem ScribeMove.stage_ne_finished {w w' : Resequencer} {s s' : Shared}
    {inbox inbox' : Completions} {stage stage' : ScribeStage} {record : Option Record}
    (move : ScribeMove w s inbox stage w' stage' s' inbox' record) : stage ≠ .finished := by
  cases move with
  | receive listens received => cases listens <;> simp
  | disconnected listens received => cases listens <;> simp
  | publish goes flushed => cases goes <;> simp
  | flushFailed flushes flushed => cases flushes <;> simp
  | _ => simp

namespace Pipeline

/-- What those know who have joined the threads. -/
structure Joined (p : Pipeline) : Prop where
  batcher : ∀ id ending sealedCount, p.stage? id = some (.joiningScribe ending sealedCount) →
    p.batcher.sealedCount? = some sealedCount
  both : ∀ id ending sealedCount, p.stage? id = some (.concluding ending sealedCount) →
    p.batcher.sealedCount? = some sealedCount ∧ p.scribe.isFinished = true
  /-- A batcher that has ended has closed the work channel behind it. -/
  work : p.batcher.stage = .finished → p.shared.work.closed = true

/-- What is known of a thread that has ended stays true. -/
theorem Joined.move {p p' : Pipeline} {actor : Actor} {ms : History} (h : Joined p)
    (move : p.Move actor p' ms) : Joined p' := by
  have hwork := move.shuts.work
  cases move with
  | call present move =>
      rename_i id stage stage' shared desk file command
      refine ⟨fun id' ending n hstage => ?_, fun id' ending n hstage => ?_, fun hfinished => ?_⟩
      · rw [stage?_moved present] at hstage
        split at hstage
        · cases move <;> cases hstage
          rename_i ended
          exact ended
        · exact h.batcher id' ending n hstage
      · rw [stage?_moved present] at hstage
        split at hstage
        · cases move <;> cases hstage
          rename_i ended
          exact ⟨h.batcher id _ _ present, ended⟩
        · exact h.both id' ending n hstage
      · exact hwork (h.work hfinished)
  | batcher move =>
      -- nobody has joined a batcher that is still going on
      have hgoing (n : Nat) : p.batcher.sealedCount? ≠ some n := fun hcount =>
        move.stage_ne_finished (Batcher.sealedCount?_eq_some_iff.1 hcount).1
      refine ⟨fun id ending n hstage => ?_, fun id ending n hstage => ?_, fun hfinished => ?_⟩
      · exact absurd (h.batcher id ending n hstage) (hgoing n)
      · exact absurd (h.both id ending n hstage).1 (hgoing n)
      · exact move.work_closed hfinished
  | worker present move =>
      exact ⟨h.batcher, h.both, fun hfinished => hwork (h.work hfinished)⟩
  | scribe move =>
      have hgoing : p.scribe.isFinished ≠ true := fun hfinished =>
        move.stage_ne_finished (Scribe.isFinished_iff.1 hfinished)
      refine ⟨h.batcher, fun id ending n hstage => ?_, fun hfinished => hwork (h.work hfinished)⟩
      exact absurd (h.both id ending n hstage).2 hgoing

/-- **What those know who have joined the threads**, at the end of every run. -/
theorem Run.joined {origin p : Pipeline} {log : History} (run : Run origin log p)
    (idle : origin.calls = []) (receiving : origin.batcher.stage = .receiving) : Joined p := by
  refine run.invariant (fun _ p => Joined p) idle ⟨?_, ?_, ?_⟩ ?_
    (fun _ _ _ _ _ _ h move => h.move move)
  · simp [stage?, idle]
  · simp [stage?, idle]
  · simp [receiving]
  · intro log p id request _ h fresh
    refine ⟨fun id' ending n hstage => ?_, fun id' ending n hstage => ?_, h.work⟩
    · rw [stage?_arrive fresh] at hstage
      split at hstage
      · cases request <;> cases hstage
      · exact h.batcher id' ending n hstage
    · rw [stage?_arrive fresh] at hstage
      split at hstage
      · cases request <;> cases hstage
      · exact h.both id' ending n hstage

/-! ### Newly opened files -/

/-- The pipeline of a newly opened file. -/
theorem eq_of_start {settings : Settings} {sink : Sink} {base : Totals} {origin : Pipeline}
    (opened : Pipeline.start settings sink base = .ok origin) :
    settings.threads ≠ 0 ∧ origin =
      { codec := settings.codec
        shared := ⟨⟨settings.queueSize, [], false⟩, ⟨settings.threads, [], false⟩,
          .start settings.bufferSize, .start base.containers.toNat, false, none, []⟩
        batcher := .start settings.containerSize base.containers.toNat
        workers := List.replicate settings.threads .idle
        completions := .start settings.threads settings.threads
        scribe := .start (.resume sink base)
        desk := .start base.events.toNat
        calls := []
        closedFile := none } := by
  by_cases hqueue : settings.queueSize = 0
  · simp [start, Shared.make, Channel.make, hqueue] at opened
  by_cases hthreads : settings.threads = 0
  · simp [start, Shared.make, Channel.make, hqueue, hthreads] at opened
  · simp only [start, Shared.make, Channel.make, if_neg hqueue, if_neg hthreads,
      Except.ok.injEq] at opened
    exact ⟨hthreads, opened.symm⟩

/-- A file is opened with every choice of settings that is found usable. -/
theorem exists_start {options : Options} {settings : Settings}
    (accepted : options.check = .ok settings) (sink : Sink) (base : Totals) :
    ∃ origin, start settings sink base = .ok origin := by
  obtain ⟨hqueue, -, hthreads, -⟩ := Options.of_check accepted
  simp only [start, Shared.make, Channel.make, if_neg (Nat.ne_of_gt hqueue),
    if_neg (Nat.ne_of_gt hthreads)]
  exact ⟨_, rfl⟩

/-- A file can be opened without its former content with every such choice. -/
theorem exists_launch {options : Options} {settings : Settings} {storage : Storage}
    (accepted : options.check = .ok settings) (regular : storage.place = .regular) :
    ∃ origin, launch storage .truncate settings .none = (.ok origin, storage.put .empty) ∧
      start settings (.reliable .empty) .zero = .ok origin := by
  obtain ⟨origin, opened⟩ := exists_start accepted (.reliable .empty) .zero
  refine ⟨origin, ?_, opened⟩
  simp only [launch, Storage.openFor, Storage.create, regular, opened, Mishaps.none,
    Mishaps.thread?]
  rfl

section

variable {settings : Settings} {sink : Sink} {base : Totals} {origin p : Pipeline} {log : History}

theorem fresh_of_start (opened : Pipeline.start settings sink base = .ok origin) :
    origin.Fresh := by
  obtain ⟨-, rfl⟩ := eq_of_start opened
  exact ⟨rfl, rfl, rfl, rfl⟩

theorem underway_of_start (opened : Pipeline.start settings sink base = .ok origin) :
    origin.underway = 0 := by
  obtain ⟨-, rfl⟩ := eq_of_start opened
  simp [underway, unclaimed, reported, Batcher.start, BatcherStage.hand, Worker.load,
    Completions.start, Scribe.start, ScribeStage.hand]

theorem Run.codec_eq (run : Run origin log p)
    (opened : Pipeline.start settings sink base = .ok origin) : p.codec = settings.codec := by
  have hcodec := (run.custody (fresh_of_start opened).idle (underway_of_start opened)).1
  obtain ⟨-, rfl⟩ := eq_of_start opened
  exact hcodec

theorem Run.batched_of_start (run : Run origin log p)
    (opened : Pipeline.start settings sink base = .ok origin) :
    Batched (.start settings.containerSize base.containers.toNat) log p := by
  obtain ⟨-, rfl⟩ := eq_of_start opened
  exact run.batched rfl rfl rfl

theorem Run.senders_of_start (run : Run origin log p)
    (opened : Pipeline.start settings sink base = .ok origin) :
    p.completions.senders = p.workers.countP (·.isConnected) := by
  obtain ⟨-, rfl⟩ := eq_of_start opened
  refine run.senders_eq rfl ?_
  simp [Completions.start, List.countP_replicate, Worker.isConnected]

theorem Run.staffed_of_start (run : Run origin log p)
    (opened : Pipeline.start settings sink base = .ok origin) : p.workers ≠ [] := by
  have hlength := run.length_workers (fresh_of_start opened).idle
  obtain ⟨hthreads, rfl⟩ := eq_of_start opened
  rw [List.length_replicate] at hlength
  rw [← List.length_pos_iff, hlength]
  exact Nat.pos_of_ne_zero hthreads

theorem Run.joined_of_start (run : Run origin log p)
    (opened : Pipeline.start settings sink base = .ok origin) : Joined p := by
  obtain ⟨-, rfl⟩ := eq_of_start opened
  exact run.joined rfl rfl

end

end Pipeline

end TraceLog
