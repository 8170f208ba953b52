/-
**What a failure of the codec leaves of a file.**

The codec may refuse any of the containers, several workers may find that out about different ones,
in any order, and containers with lower numbers may still be on their way then.  Still there is one
error, that of one of these containers: it is recorded before the pipeline is stopped, and everybody
who fails behind it is told that error, as is whoever closes the file.  And what is left of the file
has no gap: some of the first records that the commands lead to, at least those that somebody was
told to be in the file, and none from the first container on that has no record.

Main definitions:

* `History.containers` — the containers that the commands of a run make;
* `Pipeline.Rejected` — the codec has returned an error in a run;
* `Pipeline.Remnant` — what is left of a file, and what those were told who failed.

Main results:

* `Pipeline.Concluded.remnant` — **what is left when the file is concluded**;
* `Pipeline.close_eq_unfinished` — **a call to close is told the error**, and what it leaves.
-/

import TraceLog.Proofs.Pipeline.Answering
import TraceLog.Proofs.Pipeline.Failing
import TraceLog.Proofs.RoundTrip
import TraceLog.Proofs.Termination

set_option relaxedAutoImplicit false
set_option autoImplicit false

namespace TraceLog

/-- The containers that the commands of a run make, in the order of the channel. -/
def History.containers (log : History) (threshold : UInt32) : List Container :=
  (Builder.start threshold 0).batches log.entered

/-- The first of the records are accepted as an unfinished file. -/
theorem Image.exists_read_unfinished {codec : Codec} {cs : List Container} {rs : List Record}
    (hfront : rs <+: records codec cs)
    (numbered : rs.map (·.sequence.toNat) = List.range rs.length) :
    ∃ read, Log.read (unfinished rs) = .ok read ∧ read.footer = none ∧
      read.entries.map (fun e => Record.mk e.header e.stored) = rs := by
  refine ⟨_, read_unfinished (fun r hr => ?_) numbered, rfl, Layout.map_record_log_unfinished rs⟩
  obtain ⟨c, -, hc⟩ := exists_of_mem_records (hfront.subset hr)
  exact Container.length_data_of_complete? hc

namespace Pipeline

variable {settings : Settings} {origin p q : Pipeline} {before log : History} {id : Nat}

/-- The codec has returned an error in a run: a worker was about to report it. -/
def Rejected (origin : Pipeline) (log : History) (p : Pipeline) : Prop :=
  ∃ (before : History) (q : Pipeline) (behind : History) (index sequence : Nat) (error : Error),
    log = before ++ behind ∧ Run origin before q ∧ Run q behind p ∧
      q.workers[index]? = some (.reporting (.failed sequence error))

/-- What is left of a file with `m` records when the codec has returned an error, and what those
were told who failed. -/
structure Remnant (settings : Settings) (origin : Pipeline) (log : History) (p : Pipeline)
    (error : Error) (m : Nat) : Prop where
  /-- The error is that of a container which was sealed and has no record. -/
  culprit : log.Blames settings.codec error ∧ log.sealed <+: log.containers settings.containerSize
  bytes_eq : p.file.bytes = Image.unfinished
    ((Image.records settings.codec (log.containers settings.containerSize)).take m)
  count_le : m ≤ (Image.records settings.codec (log.containers settings.containerSize)).length
  below : ∀ c ∈ log.containers settings.containerSize, ¬ c.Storable settings.codec →
    m ≤ c.sequence
  /-- What a flush was granted is in the file. -/
  flushed : ∀ id, .answered id (.ok .flushed) ∈ log → .flush id ∈ log.entered ∧
    ∀ n, Target (.start settings.containerSize 0) log.entered id n → n ≤ m
  read : ∃ read, Log.read p.file.bytes = .ok read ∧ read.footer = none ∧
    read.entries.map (fun e => Record.mk e.header e.stored) =
      (Image.records settings.codec (log.containers settings.containerSize)).take m
  /-- Whoever was served at the desk before that was closed is told the error if the call fails, and
  that the file is closed only if the codec says so. -/
  told : ∀ before q behind id request stage error', log = before ++ behind → Run origin before q →
    Run q behind p → q.desk.closed = false → .asked id request ∈ before →
    request.ending? = none → q.stage? id = some stage →
    (∀ request, stage ≠ .entering request) → .answered id (.error error') ∈ log →
    error' = error ∧ (error' = .closed → log.Blames settings.codec .closed)

/-- Calls to close have been told the error that was recorded, if the codec has returned one. -/
theorem Rejected.faulted (h : Rejected origin log p) {sink : Sink} {base : Totals}
    (opened : Pipeline.start settings sink base = .ok origin) (unaborted : log.Unaborted) :
    Faulted log p := by
  obtain ⟨before, q, behind, index, sequence, error, rfl, run, more, reports⟩ := h
  exact run.faulted more opened unaborted reports

/-- What calls to flush were granted is in a file with so many records as were published. -/
theorem Run.flushed_le {sink : Sink} {base : Totals} (run : Run origin log p)
    (opened : Pipeline.start settings sink base = .ok origin) {m : Nat}
    (published : p.shared.progress.flushed ≤ m) (granted : .answered id (.ok .flushed) ∈ log) :
    .flush id ∈ log.entered ∧ ∀ n,
      Target (.start settings.containerSize base.containers.toNat) log.entered id n → n ≤ m := by
  have batched := run.batched_of_start opened
  obtain ⟨n, htarget, hle⟩ := (run.targets opened).granted id granted
  replace htarget := htarget.of_prefix batched.obeyed_prefix
  refine ⟨?_, fun n' htarget' => ?_⟩
  · obtain ⟨front, behind, hsplit, -⟩ := htarget
    rw [hsplit]
    simp
  · obtain rfl := htarget.eq_of_posted (run.posted (fresh_of_start opened).idle) htarget'
    exact hle.trans published

/-- **What is left when the file is concluded** and the codec has returned an error. -/
theorem Concluded.remnant {ending : Ending} {sealedCount : Nat}
    (h : Concluded origin log p id before q ending sealedCount) (rejected : Rejected origin log p)
    (run : Run origin log p)
    (opened : Pipeline.start settings (.reliable .empty) .zero = .ok origin)
    (unaborted : log.Unaborted) (few : log.events.length ≤ UInt64.size) :
    ∃ error m, p.stage? id = some (.returned (.error error)) ∧
      Remnant settings origin log p error m := by
  obtain ⟨error, written, hstage, hrecorded, hblames, hbytes, hfront, hnumbers, hpublished⟩ :=
    h.unfinished (rejected.faulted opened unaborted) run opened (Sink.reliable_reliable .empty)
      unaborted (by simpa [Totals.zero] using few)
  rw [run.codec_eq opened] at hblames hfront
  have hsealed := run.sealed_prefix opened
  have hwritten : written =
      (Image.records settings.codec (log.containers settings.containerSize)).take written.length :=
    List.prefix_iff_eq_take.1 hfront
  replace hbytes : p.file.bytes = Image.unfinished written := hbytes
  refine ⟨error, written.length, hstage, ?_⟩
  constructor
  case culprit => exact ⟨hblames, hsealed⟩
  case bytes_eq => rw [← hwritten, hbytes]
  case count_le => exact hfront.length_le
  case below =>
    intro c hc unstorable
    obtain ⟨groups, hrow, -⟩ :=
      Builder.exists_batches_eq_row settings.containerSize 0 log.entered
    rw [History.containers, hrow] at hc
    have hbelow := Image.length_records_le_sequence hc unstorable
    rw [← hrow] at hbelow
    exact hfront.length_le.trans hbelow
  case flushed =>
    intro id granted
    exact run.flushed_le opened (by simpa [Totals.zero] using hpublished) granted
  case read =>
    rw [← hwritten, hbytes]
    refine Image.exists_read_unfinished hfront ?_
    rw [hnumbers, List.range_eq_range']
    rfl
  case told =>
    intro before q behind id request stage error' hlog run' more undecided asked lasting present
      served failed
    subst hlog
    obtain ⟨stage', hstage', -, htold⟩ :=
      run'.attended more opened unaborted undecided asked lasting present served
    have callers := (run.served (fresh_of_start opened)).callers
    rw [callers.answered_iff, hstage', Option.some.injEq] at failed
    obtain rfl : error' = error :=
      Option.some.inj ((htold error' failed).symm.trans hrecorded)
    refine ⟨rfl, ?_⟩
    rintro rfl
    exact hblames

/-- **A call to close is told the error**, if the codec has returned one, and leaves the first
records.

For every choice of settings that is found usable, a file can be opened without its former content;
and in every run of its pipeline in which nobody aborts, the events are no more than there are
numbers for them, and the codec has returned an error for one of the containers or for several,
every call to close is over in the end.  It is told the error of one of these containers, which is
the one that all calls were told that failed and were served before the desk was closed; the file
has no footer and holds the first records that the commands lead to, none of them from the first
container on that has no record, and all that calls to flush were granted; and the reader accepts
it.  A call to close is turned away only if another one has asked to close the file, of which all
this is true. -/
theorem close_eq_unfinished {options : Options} {settings : Settings} {storage : Storage}
    (accepted : options.check = .ok settings) (regular : storage.place = .regular) :
    ∃ origin storage', launch storage .truncate settings .none = (.ok origin, storage') ∧
      ∀ log p, Run origin log p → log.Unaborted → log.events.length ≤ UInt64.size →
        Rejected origin log p → ∀ id, .asked id .close ∈ log →
          Inevitable (fun p => ∃ result, p.stage? id = some (.returned result)) p ∧
          ∀ result, .answered id result ∈ log →
            (∃ error m, result = .error error ∧ Remnant settings origin log p error m) ∨
            (result = .error .closed ∧ ∃ other, other ≠ id ∧ .asked other .close ∈ log ∧
              ∀ result', .answered other result' ∈ log →
                ∃ error m, result' = .error error ∧ Remnant settings origin log p error m) := by
  obtain ⟨origin, hlaunch, opened⟩ := exists_launch accepted regular
  refine ⟨origin, storage.put .empty, hlaunch, ?_⟩
  intro log p run unaborted few rejected id asked
  refine ⟨run.returns (Options.of_check accepted).1 opened asked, ?_⟩
  intro result answered
  have callers := (run.served (fresh_of_start opened)).callers
  have ended := run.ended opened
  -- whoever has concluded the file was told the error
  have hconcluded {id : Nat} {result : Except Error Answer} (h : HasConcluded origin log p id)
      (hstage : p.stage? id = some (.returned result)) :
      ∃ error m, result = .error error ∧ Remnant settings origin log p error m := by
    obtain ⟨before, q, ending, n, h⟩ := h
    obtain ⟨error, m, hreturned, remnant⟩ := h.remnant rejected run opened unaborted few
    rw [hstage, Option.some.injEq, CallStage.returned.injEq] at hreturned
    exact ⟨error, m, hreturned, remnant⟩
  have hstage := (callers.answered_iff id result).1 answered
  rcases ended.answer id .close .drained result asked rfl hstage with ⟨rfl, shut⟩ | h
  · obtain ⟨other, stage, hasked, hother, hs⟩ := ended.exists_closer callers unaborted shut
    by_cases hid : other = id
    · subst hid
      rw [hstage, Option.some.injEq] at hother
      subst hother
      rcases hs with hs | h
      · cases hs
      · exact Or.inl (hconcluded h hstage)
    · refine Or.inr ⟨rfl, other, hid, hasked, ?_⟩
      intro result' hanswered
      rw [callers.answered_iff, hother, Option.some.injEq] at hanswered
      subst hanswered
      rcases hs with hs | h
      · cases hs
      · exact hconcluded h hother
  · exact Or.inl (hconcluded h hstage)

/-- The second container is refused while a flush waits for it: the flush and the call to close are
told so, and the first container, which another flush was granted, is what is left. -/
theorem close_eq_unfinished_refused :
    ∃ origin storage' log p error,
      launch ⟨"log", .regular, none⟩ .truncate ⟨1, 1, 2, 64, .rejecting [9] 2⟩ .none =
        (.ok origin, storage') ∧
      Run origin log p ∧ log.Unaborted ∧ log.events.length ≤ UInt64.size ∧
      Rejected origin log p ∧ .answered 2 (.ok .flushed) ∈ log ∧
      .answered 4 (.error error) ∈ log ∧ .asked 5 .close ∈ log ∧
      .answered 5 (.error error) ∈ log ∧
      Remnant ⟨1, 1, 2, 64, .rejecting [9] 2⟩ origin log p error 1 := by
  obtain ⟨origin, storage', hlaunch, hruns⟩ := @close_eq_unfinished
    ⟨1, 1, 2, some 64, .rejecting [9] 2⟩ ⟨1, 1, 2, 64, .rejecting [9] 2⟩ ⟨"log", .regular, none⟩
    rfl rfl
  have hopened : Pipeline.start ⟨1, 1, 2, 64, .rejecting [9] 2⟩ (.reliable .empty) .zero =
      .ok origin := congrArg Prod.fst hlaunch
  obtain ⟨-, horigin⟩ := eq_of_start hopened
  obtain ⟨c₀, c₁, r, error, q, p, hturns, hmore, hreports⟩ : ∃ c₀ c₁ r error q p, follow?
      [.arrive 1 (.write 5 [7]), .step (.call 1), .step (.call 1), .step (.call 1),
        .step .batcher, .step .batcher, .step .batcher, .step (.worker 0), .step (.worker 0),
        .step (.worker 0), .step (.worker 0), .step .scribe, .step .scribe, .step .scribe,
        .step .scribe, .step .scribe, .step .scribe, .arrive 2 .flush, .step (.call 2),
        .step (.call 2), .step .batcher, .step .batcher, .step (.call 2), .step (.call 2),
        .step (.call 2), .arrive 3 (.write 6 [9]), .step (.call 3), .step (.call 3),
        .step (.call 3), .step .batcher, .step .batcher, .step .batcher, .step (.worker 0),
        .step (.worker 0), .step (.worker 0), .arrive 4 .flush, .step (.call 4),
        .step (.call 4), .step .batcher, .step .batcher, .step (.call 4), .step (.call 4)]
        [] origin =
      some ([.asked 1 (.write 5 [7]), .entered 1 (.event ⟨0, 5, [7]⟩),
        .answered 1 (.ok (.numbered 0)), .obeyed (.event ⟨0, 5, [7]⟩), .sealed c₀, .taken r,
        .asked 2 .flush, .entered 2 (.flush 2), .obeyed (.flush 2), .answered 2 (.ok .flushed),
        .asked 3 (.write 6 [9]), .entered 3 (.event ⟨1, 6, [9]⟩), .answered 3 (.ok (.numbered 1)),
        .obeyed (.event ⟨1, 6, [9]⟩), .sealed c₁, .asked 4 .flush, .entered 4 (.flush 4),
        .obeyed (.flush 4)], q) ∧
      follow? [.step (.worker 0), .step .scribe, .step .scribe, .step .scribe, .step .scribe,
        .step (.call 4), .arrive 5 .close, .step (.call 5), .step (.call 5), .step .scribe,
        .step .scribe, .step .scribe, .step .scribe, .step .scribe, .step .batcher,
        .step .batcher, .step .batcher, .step (.call 5), .step (.call 5), .step (.call 5)] [] q =
      some ([.answered 4 (.error error), .asked 5 .close, .answered 5 (.error error)], p) ∧
      q.workers[0]? = some (.reporting (.failed 1 error)) := by
    rw [horigin]
    exact ⟨_, _, _, _, _, _, rfl, rfl, rfl⟩
  have run := Run.start.follow hturns
  have more := Run.start.follow hmore
  have hrejected : Rejected origin _ p := ⟨_, q, _, 0, 1, error, rfl, run, more, hreports⟩
  have hfew : 2 ≤ UInt64.size := by decide
  obtain ⟨-, hanswers⟩ :=
    hruns _ p (run.append more) (fun id => by simp) hfew hrejected 5 (by simp)
  obtain ⟨error', m, herror, remnant⟩ := (hanswers (.error error) (by simp)).resolve_right
    fun ⟨_, other, hne, hasked, _⟩ => hne (by simpa using hasked)
  obtain rfl := Except.error.inj herror
  -- one record is granted, and the second container has none
  have hgranted : 1 ≤ m := (remnant.flushed 2 (by simp)).2 1
    ⟨[.event ⟨0, 5, [7]⟩], [.event ⟨1, 6, [9]⟩, .flush 4], rfl, rfl⟩
  have hunstorable : ¬ (Container.ofEvents 1 [⟨1, 6, [9]⟩]).Storable (.rejecting [9] 2) := by
    rw [Container.storable_iff]
    rintro ⟨record, hrecord⟩
    cases hrecord
  have hbelow : m ≤ 1 := remnant.below _ (List.mem_cons_of_mem _ List.mem_cons_self) hunstorable
  obtain rfl : m = 1 := Nat.le_antisymm hbelow hgranted
  exact ⟨origin, storage', _, p, error, hlaunch, run.append more, fun id => by simp, hfew,
    hrejected, by simp, by simp, by simp, by simp, remnant⟩

end Pipeline

end TraceLog
