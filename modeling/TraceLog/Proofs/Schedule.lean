/-
**A file does not depend on its schedule.**

Producers, batcher, workers and scribe take their steps in any order, the queues between them have
any sizes, and reports overtake each other.  What a file holds when it is closed is nevertheless
what one thread would have written that takes the commands in the order in which they entered the
channel; and that order is the one of the numbers that the producers were given.

Main results:

* `Pipeline.close_eq_ofCommands` — **what a closed file holds**, whatever the schedule.
-/

import TraceLog.Proofs.Pipeline.Closing
import TraceLog.Session

set_option relaxedAutoImplicit false
set_option autoImplicit false

namespace TraceLog

namespace Pipeline

/-- A run is favourable if nobody has aborted and the containers that its commands make have
records. -/
theorem Run.favourable {settings : Settings} {sink : Sink} {base : Totals} {origin p : Pipeline}
    {log : History} (run : Run origin log p)
    (opened : Pipeline.start settings sink base = .ok origin) (unaborted : log.Unaborted)
    (storable : ∀ c ∈ (Builder.start settings.containerSize base.containers.toNat).batches
      log.entered, c.Storable settings.codec)
    (few : base.containers.toNat + log.events.length ≤ UInt64.size) :
    Favourable (.start settings.containerSize base.containers.toNat) log p := by
  rw [← run.codec_eq opened] at storable
  refine ⟨unaborted, fun c hc => storable c ?_, fun _ c hc => storable c ?_, few⟩
  · rw [Builder.batches_eq]
    exact List.mem_append_left _ hc
  · rw [Builder.batches_eq]
    exact List.mem_append_right _ (Option.mem_toList.2 hc)

/-- **What a closed file holds**, whatever the schedule.

For every choice of settings that is found usable, a file can be opened without its former content;
and in every run of its pipeline the numbers that calls to write are answered with run from zero
without a gap, they are those of the events in the order of the channel, and a call that is made
when another one has its number gets a higher one.  If moreover nobody aborts, the containers that
the commands make have records, and the events are no more than there are numbers for them, then a
call to close that has its answer has finished the file, which holds what one builder makes of the
commands in the order of the channel.  Such a call is turned away only if another one has asked to
close the file, and that one is not. -/
theorem close_eq_ofCommands {options : Options} {settings : Settings} {storage : Storage}
    (accepted : options.check = .ok settings) (regular : storage.place = .regular) :
    ∃ origin storage', launch storage .truncate settings .none = (.ok origin, storage') ∧
      ∀ log p, Run origin log p →
        log.numbers = List.range log.events.length ∧
        (∀ i e, log.events[i]? = some e → e.sequence = UInt64.ofNat i ∧
          ∃ id, .asked id (.write e.timestamp e.payload) ∈ log ∧
            .answered id (.ok (.numbered i)) ∈ log) ∧
        (∀ before behind id id' n n' request, log = before ++ .asked id' request :: behind →
          .answered id (.ok (.numbered n)) ∈ before →
          .answered id' (.ok (.numbered n')) ∈ log → n < n') ∧
        (log.Unaborted →
          (∀ c ∈ (Builder.start settings.containerSize 0).batches log.entered,
            c.Storable settings.codec) →
          log.events.length ≤ UInt64.size →
          ∀ id result, .asked id .close ∈ log → .answered id result ∈ log →
            (result = .ok (.finished
                ⟨Image.totals (Image.records settings.codec
                  ((Builder.start settings.containerSize 0).batches log.entered)),
                  p.file.bytes.length, false⟩) ∧
              p.file.bytes = Image.ofCommands settings.codec settings.containerSize log.entered) ∨
            (result = .error .closed ∧ ∃ other, other ≠ id ∧ .asked other .close ∈ log ∧
              ∀ result', .answered other result' ∈ log →
                ∃ summary, result' = .ok (.finished summary))) := by
  obtain ⟨origin, opened⟩ := exists_start accepted (.reliable .empty) .zero
  have hlaunch : launch storage .truncate settings .none = (.ok origin, storage.put .empty) := by
    simp only [launch, Storage.openFor, Storage.create, regular, opened, Mishaps.none,
      Mishaps.thread?]
    rfl
  refine ⟨origin, storage.put .empty, hlaunch, fun log p run => ?_⟩
  have fresh := fresh_of_start opened
  have hfirst : origin.desk.next = 0 := by
    obtain ⟨-, rfl⟩ := eq_of_start opened
    rfl
  obtain ⟨callers, -, numbered⟩ := run.served fresh
  rw [hfirst] at numbered
  refine ⟨?_, fun i e he => ?_, fun before behind id id' n n' request hlog hn hn' =>
    run.number_lt fresh hlog hn hn', fun unaborted storable few id result hasked hanswered => ?_⟩
  · rw [numbered.numbers_eq, List.range_eq_range']
  · obtain ⟨hsequence, id, hid⟩ := numbered.event_of_getElem? i e he
    rw [Nat.zero_add] at hsequence hid
    exact ⟨hsequence, id, hid⟩
  · have favourable := run.favourable opened unaborted storable (by simpa [Totals.zero] using few)
    have closed := run.closed opened (Sink.reliable_reliable .empty) favourable
    rw [← run.codec_eq opened]
    rcases closed.answer id result hasked hanswered with ⟨file, hfile, hresult⟩ | ⟨rfl, hshut⟩
    · have hp : p.file = file := by rw [Pipeline.file, hfile, Option.getD_some]
      have hsize : file.taken.size = file.bytes.length := by simp [Sink.bytes]
      rw [hp, ← hsize]
      refine Or.inl ⟨hresult, ?_⟩
      exact (closed.file file hfile).2
    · exact Or.inr ⟨rfl, closed.exists_other callers hanswered hshut⟩

/-- Two producers write an event each, two workers compress them, and the second container overtakes
the first: the file that is closed then holds them in the order of the channel. -/
theorem close_eq_ofCommands_overtaken :
    ∃ origin storage' log p result,
      launch ⟨"log", .regular, none⟩ .truncate ⟨1, 1, 2, 64, .identity⟩ .none =
        (.ok origin, storage') ∧
      Run origin log p ∧ log.Unaborted ∧ log.taken.map (·.sequence) = [1, 0] ∧
      (∀ c ∈ (Builder.start 1 0).batches log.entered, c.Storable .identity) ∧
      .asked 3 .close ∈ log ∧ .answered 3 result ∈ log ∧ (∃ summary, result = .ok summary) ∧
      p.file.bytes =
        Image.ofCommands .identity 1 [.event ⟨0, 5, [7]⟩, .event ⟨1, 6, [8]⟩] := by
  obtain ⟨origin, storage', hlaunch, hruns⟩ := @close_eq_ofCommands ⟨1, 1, 2, some 64, .identity⟩
    ⟨1, 1, 2, 64, .identity⟩ ⟨"log", .regular, none⟩ rfl rfl
  have hopened : Pipeline.start ⟨1, 1, 2, 64, .identity⟩ (.reliable .empty) .zero =
      .ok origin := congrArg Prod.fst hlaunch
  obtain ⟨-, horigin⟩ := eq_of_start hopened
  obtain ⟨c₀, c₁, r₁, r₀, result, p, hturns, hr₁, hr₀⟩ : ∃ c₀ c₁ r₁ r₀ result p, follow?
      [.arrive 1 (.write 5 [7]), .step (.call 1), .step (.call 1), .step (.call 1),
        .arrive 2 (.write 6 [8]), .step (.call 2), .step (.call 2), .step .batcher,
        .step (.call 2), .step .batcher, .step .batcher, .step .batcher, .step .batcher,
        .step .batcher, .step (.worker 0), .step (.worker 0), .step (.worker 1),
        .step (.worker 1), .step (.worker 1), .step (.worker 1), .step (.worker 0),
        .step (.worker 0), .arrive 3 .close, .step .scribe, .step .scribe, .step .scribe,
        .step .scribe, .step .scribe, .step .scribe, .step .scribe, .step .scribe,
        .step (.call 3), .step (.call 3), .step .batcher, .step .batcher, .step .batcher,
        .step (.worker 0), .step (.worker 1), .step .scribe, .step .scribe, .step .scribe,
        .step (.call 3), .step (.call 3), .step (.call 3)] [] origin =
      some ([.asked 1 (.write 5 [7]), .entered 1 (.event ⟨0, 5, [7]⟩),
        .answered 1 (.ok (.numbered 0)), .asked 2 (.write 6 [8]), .obeyed (.event ⟨0, 5, [7]⟩),
        .sealed c₀, .entered 2 (.event ⟨1, 6, [8]⟩), .answered 2 (.ok (.numbered 1)),
        .obeyed (.event ⟨1, 6, [8]⟩), .sealed c₁, .asked 3 .close, .taken r₁, .taken r₀,
        .answered 3 result], p) ∧ r₁.sequence = 1 ∧ r₀.sequence = 0 := by
    rw [horigin]
    exact ⟨_, _, _, _, _, _, rfl, rfl, rfl⟩
  have run := Run.start.follow hturns
  have hstorable : ∀ c ∈ (Builder.start 1 0).batches [.event ⟨0, 5, [7]⟩, .event ⟨1, 6, [8]⟩],
      c.Storable .identity := fun c hc => Container.storable_plain (by
    have hlength : ((Builder.start 1 0).batches [.event ⟨0, 5, [7]⟩, .event ⟨1, 6, [8]⟩]).all
        (fun c => decide (c.length < UInt32.size)) = true := by decide
    exact of_decide_eq_true (List.all_eq_true.1 hlength c hc))
  have hfew : 2 ≤ UInt64.size := by decide
  have htaken : [r₁.sequence, r₀.sequence] = [1, 0] := by rw [hr₁, hr₀]
  obtain ⟨-, -, -, hclose⟩ := hruns _ _ run
  refine ⟨origin, storage', _, p, result, hlaunch, run, by simp [History.Unaborted], htaken,
    hstorable, by simp, by simp, ?_⟩
  rcases hclose (by simp [History.Unaborted]) hstorable hfew 3 result (by simp) (by simp) with
    ⟨hresult, hfile⟩ | ⟨-, other, hne, hother, -⟩
  · exact ⟨⟨_, hresult⟩, hfile⟩
  · -- nobody else has asked to close the file
    simp only [List.mem_cons, reduceCtorEq, Moment.asked.injEq, and_false, false_or, and_true,
      or_false, List.not_mem_nil] at hother
    exact absurd hother hne

end Pipeline

end TraceLog
