/-
**What an abort takes from a file.**

Whoever aborts raises the flag and empties the channels before it waits for the desk, and meanwhile
another call may close the file.  That call compares the containers that were written with those
that were sealed, so a container that was dropped is noticed.  An event that was dropped before it
was sealed is not: the file is finished without it, and nothing in the footer says so.  What can be
said of a file without the mark is that it holds everything that was sealed, which is a first part
of the events in the order of the channel, and everything if the flag was raised late or not at all.

Main results:

* `Pipeline.Concluded.finished` — **what a finished file holds**, whoever stops the pipeline;
* `Pipeline.close_eq_sealed` — **a file that was closed holds what was sealed**;
* `Pipeline.close_hides_discarded` — an event can be missing from it.
-/

import TraceLog.Proofs.Pipeline.Closing

set_option relaxedAutoImplicit false
set_option autoImplicit false

namespace TraceLog

namespace Pipeline

variable {settings : Settings} {sink : Sink} {base : Totals} {origin p q : Pipeline}
  {before log : History} {id sealedCount : Nat} {ending : Ending}

/-- **What a finished file holds**: the first of the records of the containers that were sealed,
with a footer that says whether it was closed or aborted; and all of these records if it was
closed. -/
theorem Concluded.finished (h : Concluded origin log p id before q ending sealedCount)
    (opened : Pipeline.start settings sink base = .ok origin) (reliable : sink.Reliable)
    (few : base.containers.toNat + log.events.length ≤ UInt64.size) {answer : Answer}
    (ok : p.stage? id = some (.returned (.ok answer))) :
    q.shared.failure = none ∧ ∃ rs totals, rs <+: Image.records p.codec log.sealed ∧
      (ending = .drained → (∀ c ∈ log.sealed, c.Storable p.codec) ∧
        rs = Image.records p.codec log.sealed) ∧
      totals = (rs.map (·.header)).foldl Totals.add base ∧
      answer = .finished ⟨totals, p.file.taken.size, ending = .truncated⟩ ∧
      p.file.bytes = sink.bytes ++ Image.unfinished rs ++
        (Footer.ofTotals totals (ending = .truncated)).encode := by
  obtain ⟨run, hconcluding, -, hanswered, hfile, hstill, -⟩ := h
  have hcounted := ((run.joined_of_start opened).both id _ _ hconcluding).1
  have hbatched := run.batched_of_start opened
  have hcustody := (run.custody (fresh_of_start opened).idle (underway_of_start opened)).2
  have hfew : base.containers.toNat + before.events.length ≤ UInt64.size := by
    rwa [History.events, hstill.entered_eq] at few
  obtain ⟨written, returned, hexact⟩ := run.exact opened reliable
  have hfront := written_prefix hexact hbatched hfew hcustody
  rw [ok] at hanswered
  obtain ⟨file, ⟨hfailure, hgapless, hconclusion, hbytes⟩ | ⟨error, -, hconclusion, -⟩⟩ :=
    conclusion_cases hexact.wrote ending sealedCount
  · rw [hconclusion] at hanswered hfile
    have hp : p.file = file := by rw [Pipeline.file, hfile, Option.getD_some]
    obtain rfl : answer = _ := Except.ok.inj (CallStage.returned.inj (Option.some.inj hanswered))
    rw [hstill.codec_eq, hstill.sealed_eq, hp]
    refine ⟨hfailure, written, q.scribe.writer.totals, hfront, fun hdrained => ?_,
      hexact.wrote.totals_eq, rfl, hbytes⟩
    refine written_eq_records hexact hbatched hfew hcustody ?_
    rw [(hgapless hdrained).2, ← (Batcher.sealedCount?_eq_some_iff.1 hcounted).2,
      hbatched.numbers.2.1]
  · rw [hconclusion] at hanswered
    cases hanswered

/-- Nothing is lost if the pipeline was not to stop when the batcher had come to its last
container. -/
theorem Run.sealed_eq {behind : History} (run : Run origin before q) (more : Run q behind p)
    (opened : Pipeline.start settings sink base = .ok origin) (running : q.shared.stopped = false)
    (last : q.batcher.stage.isLast = true) :
    (before ++ behind).sealed =
      (Builder.start settings.containerSize base.containers.toNat).batches
        (before ++ behind).entered := by
  have hheard := run.heard opened running
  obtain ⟨hentered, hsealed⟩ := more.nothing_more (run.orderly (fresh_of_start opened).idle) last
    (hheard.past (BatcherStage.isPast_of_isLast last)).1
  rw [History.sealed_append, History.entered_append, hentered, hsealed, List.append_nil,
    List.append_nil, hheard.sealed_eq (run.batched_of_start opened) running last]

/-- **A file that was closed holds what was sealed**, whoever aborts meanwhile.

For every choice of settings that is found usable, a file can be opened without its former content;
and in every run of its pipeline in which a call to close is answered without an error, the call is
told that the file is finished and nothing was discarded.  The file then holds the records of all
containers that were sealed, and their events are the first of those that entered the channel.
These are all events if nobody has asked to abort, or if the pipeline was not to stop yet when the
batcher had come to its last container.  A call to abort that is answered without an error has
marked the file. -/
theorem close_eq_sealed {options : Options} {settings : Settings} {storage : Storage}
    (accepted : options.check = .ok settings) (regular : storage.place = .regular) :
    ∃ origin storage', launch storage .truncate settings .none = (.ok origin, storage') ∧
      ∀ log p, Run origin log p → log.events.length ≤ UInt64.size →
        ∀ id answer, .answered id (.ok answer) ∈ log →
          (.asked id .close ∈ log →
            answer = .finished ⟨Image.totals (Image.records settings.codec log.sealed),
              p.file.bytes.length, false⟩ ∧
            p.file.bytes = Image.finished (Image.records settings.codec log.sealed) false ∧
            (∀ c ∈ log.sealed, c.Storable settings.codec) ∧
            (∃ groups lost, log.sealed = Container.row 0 groups ∧
              log.events = groups.flatten ++ lost) ∧
            (log.Unaborted ∨ (∃ before q behind, log = before ++ behind ∧ Run origin before q ∧
                Run q behind p ∧ q.shared.stopped = false ∧ q.batcher.stage.isLast = true) →
              p.file.bytes = Image.ofCommands settings.codec settings.containerSize log.entered)) ∧
          (.asked id .abort ∈ log → ∃ rs, rs <+: Image.records settings.codec log.sealed ∧
            answer = .finished ⟨Image.totals rs, p.file.bytes.length, true⟩ ∧
            p.file.bytes = Image.finished rs true) := by
  obtain ⟨origin, hlaunch, opened⟩ := exists_launch accepted regular
  refine ⟨origin, storage.put .empty, hlaunch, fun log p run few id answer hin => ?_⟩
  have served := run.served (fresh_of_start opened)
  have hstage := (served.callers.answered_iff id _).1 hin
  have hsize : p.file.taken.size = p.file.bytes.length := by simp [Sink.bytes]
  have reliable := Sink.reliable_reliable .empty
  have hfew : Totals.zero.containers.toNat + log.events.length ≤ UInt64.size := by
    simpa [Totals.zero] using few
  -- a call that is answered without an error was not turned away
  have hconcluded {request : Request} {ending : Ending} (hasked : .asked id request ∈ log)
      (hends : request.ending? = some ending) :
      ∃ before q n, Concluded origin log p id before q ending n := by
    rcases (run.ended opened).answer id request ending _ hasked hends hstage with
      ⟨hresult, -⟩ | ⟨before, q, ending', n, h⟩
    · cases hresult
    · obtain ⟨request', hasked', hends'⟩ := h.asked
      obtain rfl := served.callers.asked_once id _ _ hasked hasked'
      obtain rfl : ending' = ending := Option.some.inj (hends'.symm.trans hends)
      exact ⟨before, q, n, h⟩
  refine ⟨fun hclose => ?_, fun habort => ?_⟩
  · obtain ⟨before, q, n, h⟩ := hconcluded hclose rfl
    obtain ⟨hfailure, rs, totals, -, hall, rfl, rfl, hbytes⟩ :=
      h.finished opened reliable hfew hstage
    obtain ⟨hstorable, rfl⟩ := hall rfl
    rw [run.codec_eq opened] at hstorable hbytes
    have hbytes' : p.file.bytes = Image.finished (Image.records settings.codec log.sealed) false :=
      hbytes
    refine ⟨?_, hbytes', hstorable, ?_, fun hlate => ?_⟩
    · rw [run.codec_eq opened, hsize]
      rfl
    · have hbatched := run.batched_of_start opened
      obtain ⟨groups, hsealed, -, -, lost, hlost⟩ := hbatched.made.exists_row
      obtain ⟨rest, hrest⟩ := hbatched.obeyed_prefix
      refine ⟨groups, lost ++ Command.events rest, hsealed, ?_⟩
      rw [History.events, ← hrest, Command.events_append, ← hlost, List.append_assoc]
    · have hsealed : log.sealed = (Builder.start settings.containerSize 0).batches log.entered := by
        rcases hlate with unaborted | ⟨before', q', behind, rfl, run', more, running, last⟩
        · exact (h.sealed_eq opened unaborted hfailure).2
        · exact run'.sealed_eq more opened running last
      rw [hbytes', hsealed]
      rfl
  · obtain ⟨before, q, n, h⟩ := hconcluded habort rfl
    obtain ⟨-, rs, totals, hfront, -, rfl, rfl, hbytes⟩ := h.finished opened reliable hfew hstage
    rw [run.codec_eq opened] at hfront
    exact ⟨rs, hfront, by rw [hsize]; rfl, hbytes⟩

/-- Someone aborts when the batcher has come to its end: the file that is closed meanwhile holds the
event. -/
theorem close_eq_sealed_late :
    ∃ origin storage' log p answer,
      launch ⟨"log", .regular, none⟩ .truncate ⟨1, 1, 1, 64, .identity⟩ .none =
        (.ok origin, storage') ∧
      Run origin log p ∧ .asked 2 .abort ∈ log ∧ p.shared.stopped = true ∧
      .asked 3 .close ∈ log ∧ .answered 3 (.ok answer) ∈ log ∧
      p.file.bytes = Image.ofCommands .identity 1 [.event ⟨0, 5, [7]⟩] := by
  obtain ⟨origin, storage', hlaunch, hruns⟩ := @close_eq_sealed ⟨1, 1, 1, some 64, .identity⟩
    ⟨1, 1, 1, 64, .identity⟩ ⟨"log", .regular, none⟩ rfl rfl
  have hopened : Pipeline.start ⟨1, 1, 1, 64, .identity⟩ (.reliable .empty) .zero =
      .ok origin := congrArg Prod.fst hlaunch
  obtain ⟨-, horigin⟩ := eq_of_start hopened
  obtain ⟨c, r, answer, q, p, hturns, hmore, hrunning, hlast, hstopped⟩ :
      ∃ c r answer q p, follow?
        [.arrive 1 (.write 5 [7]), .step (.call 1), .step (.call 1), .step (.call 1),
          .step .batcher, .step .batcher, .step .batcher, .step (.worker 0), .step (.worker 0),
          .step (.worker 0), .step (.worker 0), .arrive 3 .close, .step (.call 3),
          .step (.call 3), .step .batcher, .step .batcher, .step .batcher] [] origin =
        some ([.asked 1 (.write 5 [7]), .entered 1 (.event ⟨0, 5, [7]⟩),
          .answered 1 (.ok (.numbered 0)), .obeyed (.event ⟨0, 5, [7]⟩), .sealed c,
          .asked 3 .close], q) ∧
      follow? [.step (.worker 0), .step .scribe, .step .scribe, .step .scribe, .step .scribe,
          .step .scribe, .step .scribe, .step .scribe, .arrive 2 .abort, .step (.call 2),
          .step (.call 3), .step (.call 3), .step (.call 3)] [] q =
        some ([.taken r, .asked 2 .abort, .answered 3 (.ok answer)], p) ∧
      q.shared.stopped = false ∧ q.batcher.stage.isLast = true ∧ p.shared.stopped = true := by
    rw [horigin]
    exact ⟨_, _, _, _, _, rfl, rfl, rfl, rfl, rfl⟩
  have run := Run.start.follow hturns
  have more := Run.start.follow hmore
  have hfew : 1 ≤ UInt64.size := by decide
  obtain ⟨hclose, -⟩ := hruns _ _ (run.append more) hfew 3 answer (by simp)
  obtain ⟨-, -, -, -, hall⟩ := hclose (by simp)
  exact ⟨origin, storage', _, p, answer, hlaunch, run.append more, by simp, hstopped, by simp,
    by simp, hall (Or.inr ⟨_, q, _, rfl, run, more, hrunning, hlast⟩)⟩

/-- **An event can be missing.**  Someone aborts while an event waits in the channel, and another
call closes the file before the desk is closed to it: the file is finished without the event and
without the mark. -/
theorem close_hides_discarded :
    ∃ origin storage' log p,
      launch ⟨"log", .regular, none⟩ .truncate ⟨1, 64, 1, 64, .identity⟩ .none =
        (.ok origin, storage') ∧
      Run origin log p ∧ .asked 1 (.write 5 [7]) ∈ log ∧ .answered 1 (.ok (.numbered 0)) ∈ log ∧
      log.events = [⟨0, 5, [7]⟩] ∧ .asked 2 .abort ∈ log ∧ .answered 2 (.error .closed) ∈ log ∧
      .asked 3 .close ∈ log ∧ .answered 3 (.ok (.finished ⟨.zero, 64, false⟩)) ∈ log ∧
      p.file.bytes = Image.finished [] false := by
  obtain ⟨origin, storage', hlaunch, opened⟩ : ∃ origin storage',
      launch ⟨"log", .regular, none⟩ .truncate ⟨1, 64, 1, 64, .identity⟩ .none =
        (.ok origin, storage') ∧
      Pipeline.start ⟨1, 64, 1, 64, .identity⟩ (.reliable .empty) .zero = .ok origin :=
    ⟨_, _, rfl, rfl⟩
  obtain ⟨-, horigin⟩ := eq_of_start opened
  obtain ⟨p, hturns⟩ : ∃ p, follow?
        [.arrive 1 (.write 5 [7]), .step (.call 1), .step (.call 1), .step (.call 1),
          .arrive 2 .abort, .step (.call 2), .step (.call 2), .step (.call 2), .step (.call 2),
          .arrive 3 .close, .step (.call 3), .step (.call 3), .step (.call 2), .step (.call 2),
          .step .batcher, .step .batcher, .step .batcher, .step (.call 3), .step (.worker 0),
          .step .scribe, .step .scribe, .step (.call 3), .step (.call 3)] [] origin =
        some ([.asked 1 (.write 5 [7]), .entered 1 (.event ⟨0, 5, [7]⟩),
          .answered 1 (.ok (.numbered 0)), .asked 2 .abort, .asked 3 .close,
          .answered 2 (.error .closed), .answered 3 (.ok (.finished ⟨.zero, 64, false⟩))], p) := by
    rw [horigin]
    exact ⟨_, rfl⟩
  have run := Run.start.follow hturns
  refine ⟨origin, storage', _, p, hlaunch, run, by simp, by simp, rfl, by simp, by simp, by simp,
    by simp, ?_⟩
  have hstage := ((run.served (fresh_of_start opened)).callers.answered_iff 3
    (.ok (.finished ⟨.zero, 64, false⟩))).1 (by simp)
  have hfew : 0 + 1 ≤ UInt64.size := by decide
  rcases (run.ended opened).answer 3 .close .drained _ (by simp) rfl hstage with
    ⟨hturned, -⟩ | ⟨before, q, ending, n, hconcluded⟩
  · cases hturned
  · -- nothing was sealed, so the file has no record
    obtain ⟨-, rs, totals, hfront, -, htotals, hanswer, hbytes⟩ :=
      hconcluded.finished opened (Sink.reliable_reliable .empty) hfew hstage
    obtain rfl : rs = [] := List.prefix_nil.1 hfront
    simp only [Answer.finished.injEq, Summary.mk.injEq] at hanswer
    rw [hbytes, ← hanswer.1, ← hanswer.2.2]
    rfl

end Pipeline

end TraceLog
