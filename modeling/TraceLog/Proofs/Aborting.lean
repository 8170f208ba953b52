/-
**What an abort leaves of a file.**

Whoever aborts stops the pipeline at any moment: while reports are parked, while records wait in the
buffer, while the batcher holds a container that has no room yet.  What has come to the resequencer
in its order by then stays, and everything else is dropped.  As the totals are kept up record by
record, the footer agrees with the records in front of it wherever that was; it carries the mark of
a file that was aborted, and the mark keeps anybody from going on with the file.

Main definitions:

* `History.AbortedBy` — a call aborts, and no other call does so or closes;
* `Pipeline.Truncated` — a file that holds the first of the records, with the mark in its footer.

Main results:

* `Image.read_truncated` — what the reader makes of records with the mark behind them;
* `Pipeline.conclusion_truncated` — a file that is aborted without a failure is finished;
* `Pipeline.Concluded.truncated` — **what it holds then**;
* `Pipeline.abort_eq_truncated` — **a call to abort leaves a valid part of the file**.
-/

import TraceLog.Proofs.Failures
import TraceLog.Proofs.Resuming

set_option relaxedAutoImplicit false
set_option autoImplicit false

namespace TraceLog

/-! ### Calls to abort -/

/-- A call aborts, and no other call does so or closes. -/
structure History.AbortedBy (log : History) (id : Nat) : Prop where
  asked : .asked id .abort ∈ log
  once : ∀ other, .asked other .abort ∈ log → other = id
  unclosed : ∀ other, .asked other .close ∉ log

/-- So that call is the only one that can bring the file to its end. -/
theorem History.AbortedBy.eq_of_ending {log : History} {id other : Nat} {request : Request}
    {ending : Ending} (h : log.AbortedBy id) (asked : .asked other request ∈ log)
    (ends : request.ending? = some ending) : other = id ∧ ending = .truncated := by
  cases request with
  | close => exact absurd asked (h.unclosed other)
  | abort =>
      cases ends
      exact ⟨h.once other asked, rfl⟩
  | _ => cases ends

/-! ### Files with the mark -/

/-- **The reader accepts the first of some records with the mark behind them** as a file that was
aborted, and finds the events in them. -/
theorem Image.read_truncated {codec : Codec} {groups : List (List Event)} {rs : List Record}
    (hid : codec.id.toNat ≤ maxCodecId) (faithful : codec.Faithful)
    (hgroups : ∀ g ∈ groups, Event.Group g)
    (front : rs <+: Image.records codec (Container.row 0 groups)) (few : rs.length ≤ UInt64.size) :
    ∃ registry read, Registry.builtin.register codec = .ok registry ∧
      Log.read (Image.finished rs true) = .ok read ∧ read.isTruncated = true ∧
      read.isComplete = false ∧ read.footer.map (·.totals) = some read.totals ∧
      read.events registry = .ok (groups.take rs.length).flatten := by
  have hregister : Registry.builtin.register codec =
      .ok ⟨codec :: Registry.builtin.codecs⟩ := by
    rw [Registry.register, if_neg (by omega)]
  obtain ⟨hnumbers, hcomplete⟩ := Image.numbers_of_prefix front
    (show 0 + rs.length ≤ UInt64.size by omega)
  rw [← List.range_eq_range'] at hnumbers
  refine ⟨_, _, hregister, Image.read_finished true hcomplete hnumbers, ?_, ?_, ?_, ?_⟩
  · simp [Log.isTruncated, Layout.log, Layout.ofRecords, Footer.isTruncated_ofTotals]
  · simp [Log.isComplete, Layout.log, Layout.ofRecords, Footer.isTruncated_ofTotals]
  · rw [Layout.totals_log_ofRecords]
    rfl
  · have hentries := Slot.mapM_events_of_prefix hid faithful (Registry.get_register hregister)
      hgroups front 0
    rw [Log.events, Layout.log, Layout.ofRecords, hentries]
    rfl

namespace Pipeline

variable {settings : Settings} {sink : Sink} {base : Totals} {origin p q : Pipeline}
  {before log : History} {id sealedCount : Nat}

/-- The only call that can bring the file to its end does so, if it is over. -/
theorem Ended.aborted (h : Ended origin log p) (callers : Callers log p)
    (aborted : log.AbortedBy id) {result : Except Error Answer}
    (answered : .answered id result ∈ log) :
    ∃ before q sealedCount, Concluded origin log p id before q .truncated sealedCount := by
  have hstage := (callers.answered_iff id result).1 answered
  have hconcluded : HasConcluded origin log p id := by
    rcases h.answer id .abort .truncated result aborted.asked rfl hstage with ⟨-, shut⟩ | h'
    · -- it was not turned away, for nobody else has closed the desk
      obtain ⟨other, stage, hother, hcloser⟩ := h.closer shut
      have hsame : other = id := by
        rcases hcloser with hcloser | ⟨_, _, ending, _, hconcluded⟩
        · obtain ⟨request, hasked, hpermits⟩ := callers.permitted other stage hother
          cases hpermits <;>
            first
            | exact (aborted.eq_of_ending hasked ‹_›).1
            | exact (aborted.eq_of_ending hasked rfl).1
            | cases hcloser
        · obtain ⟨request, hasked, hends⟩ := hconcluded.asked
          exact (aborted.eq_of_ending hasked hends).1
      subst hsame
      rcases hcloser with hcloser | hcloser
      · rw [hstage, Option.some.injEq] at hother
        rw [← hother] at hcloser
        cases hcloser
      · exact hcloser
    · exact h'
  obtain ⟨before, q, ending, n, hconcluded⟩ := hconcluded
  obtain ⟨request, hasked, hends⟩ := hconcluded.asked
  obtain ⟨-, rfl⟩ := aborted.eq_of_ending hasked hends
  exact ⟨before, q, n, hconcluded⟩

/-! ### What becomes of the file -/

/-- A file that is aborted without a failure is finished with the mark. -/
theorem conclusion_truncated {written : List Record}
    (wrote : Resequencer.Wrote sink base written p.scribe.writer)
    (faultless : p.shared.failure = none) (sealedCount : Nat) :
    ∃ file : Sink, p.conclusion .truncated sealedCount =
        (.ok (.finished ⟨p.scribe.writer.totals, file.taken.size, true⟩), file) ∧
      file.bytes = sink.bytes ++ Image.unfinished written ++
        (Footer.ofTotals p.scribe.writer.totals true).encode := by
  obtain ⟨file, hfinish, hbytes⟩ := Resequencer.writeFooter_eq wrote true
  refine ⟨file, ?_, hbytes⟩
  simp only [conclusion, faultless, Resequencer.finishTruncated, hfinish, Except.map]
  rfl

/-- Nothing is recorded as a failure if every container that was sealed has a record. -/
theorem Blamed.faultless (h : Blamed log p) (storable : ∀ c ∈ log.sealed, c.Storable p.codec) :
    p.shared.failure = none := by
  refine Option.eq_none_iff_forall_ne_some.2 fun error hfailure => ?_
  obtain ⟨c, hc, hfails⟩ := h.recorded error hfailure
  obtain ⟨record, hrecord⟩ := Container.storable_iff.1 (storable c hc)
  cases hfails with
  | refused completed =>
      rw [hrecord] at completed
      cases completed
  | crashed lost =>
      rw [hrecord] at lost
      cases lost

/-- **What a file holds that was aborted**: the first of the records of the containers that were
sealed, all those among them that were published, with totals and a mark behind them. -/
theorem Concluded.truncated (h : Concluded origin log p id before q .truncated sealedCount)
    (run : Run origin log p) (opened : Pipeline.start settings sink base = .ok origin)
    (reliable : sink.Reliable) (storable : ∀ c ∈ log.sealed, c.Storable settings.codec)
    (few : base.containers.toNat + log.events.length ≤ UInt64.size) :
    ∃ rs totals, rs <+: Image.records settings.codec log.sealed ∧
      p.shared.progress.flushed ≤ base.containers.toNat + rs.length ∧
      totals = (rs.map (·.header)).foldl Totals.add base ∧
      p.stage? id = some (.returned (.ok (.finished ⟨totals, p.file.taken.size, true⟩))) ∧
      p.file.bytes =
        sink.bytes ++ Image.unfinished rs ++ (Footer.ofTotals totals true).encode := by
  obtain ⟨run', -, -, hanswered, hfile, hstill, -⟩ := h
  have hfew : base.containers.toNat + before.events.length ≤ UInt64.size := by
    rwa [History.events, hstill.entered_eq] at few
  have hcodec := run.codec_eq opened
  obtain ⟨written, returned, hexact⟩ := run'.exact opened reliable
  have hfront := written_prefix hexact (run'.batched_of_start opened) hfew
    (run'.custody (fresh_of_start opened).idle (underway_of_start opened)).2
  have hfaultless : q.shared.failure = none := by
    refine (run'.blamed opened reliable hfew).faultless ?_
    rw [← hstill.codec_eq, ← hstill.sealed_eq, hcodec]
    exact storable
  obtain ⟨file, hconclusion, hbytes⟩ :=
    conclusion_truncated hexact.wrote hfaultless sealedCount
  rw [hconclusion] at hanswered hfile
  have hp : p.file = file := by rw [Pipeline.file, hfile, Option.getD_some]
  rw [← hstill.codec_eq, ← hstill.sealed_eq, hcodec] at hfront
  refine ⟨written, q.scribe.writer.totals, hfront, ?_, hexact.wrote.totals_eq, ?_, ?_⟩
  · have hpublished := (run.published opened).flushed_le
    have hnext : q.scribe.writer.next = _ := hexact.wrote.next_eq
    rwa [hstill.scribe_eq, hnext] at hpublished
  · rw [hp]
    exact hanswered
  · rw [hp]
    exact hbytes

/-- A file that holds the first `m` of the records that the commands of a run lead to, with the mark
of a file that was aborted in its footer. -/
structure Truncated (settings : Settings) (log : History) (p : Pipeline) (m : Nat) : Prop where
  count_le : m ≤ (Image.records settings.codec (log.containers settings.containerSize)).length
  bytes_eq : p.file.bytes = Image.finished
    ((Image.records settings.codec (log.containers settings.containerSize)).take m) true
  /-- What a flush was granted is in the file. -/
  flushed : ∀ id, .answered id (.ok .flushed) ∈ log → .flush id ∈ log.entered ∧
    ∀ n, Target (.start settings.containerSize 0) log.entered id n → n ≤ m
  /-- The reader accepts the file as one that was aborted, and finds the first of the events. -/
  read : ∃ registry read events, Registry.builtin.register settings.codec = .ok registry ∧
    Log.read p.file.bytes = .ok read ∧ read.isTruncated = true ∧ read.isComplete = false ∧
    read.footer.map (·.totals) = some read.totals ∧
    read.events registry = .ok events ∧ events <+: log.events
  /-- Nobody can go on with the file, and trying leaves it as it is. -/
  refused : ∀ (storage : Storage) (settings' : Settings) (mishaps : Mishaps),
    storage.place = .regular → mishaps.reading = none →
    launch (storage.put p.file.taken) .append settings' mishaps =
      (.error (.format (.aborted storage.path)), storage.put p.file.taken)

/-- **A call to abort leaves a valid part of the file.**

For every choice of settings that is found usable, a file can be opened without its former content;
and in every run of its pipeline in which one call aborts and nobody closes, the codec keeps its
contract, the containers that were sealed have records, and the events are no more than there are
numbers for them, the call to abort is over in the end, whatever the others were doing.  It is told
that the file is finished and something may be missing.  The file then holds the first of the
records that the commands lead to, no fewer than any call to flush was granted, and a footer with
their totals, which are those that the call is told, and with the mark of a file that was aborted;
the reader accepts it as such and finds the first of the events; and opening it to go on is refused
and leaves it as it is. -/
theorem abort_eq_truncated {options : Options} {settings : Settings} {storage : Storage}
    (accepted : options.check = .ok settings) (regular : storage.place = .regular) :
    ∃ origin storage', launch storage .truncate settings .none = (.ok origin, storage') ∧
      ∀ log p id, Run origin log p → log.AbortedBy id → settings.codec.Faithful →
        (∀ c ∈ log.sealed, c.Storable settings.codec) → log.events.length ≤ UInt64.size →
          Inevitable (fun p => ∃ result, p.stage? id = some (.returned result)) p ∧
          ∀ result, .answered id result ∈ log → ∃ m, Truncated settings log p m ∧
            result = .ok (.finished ⟨Image.totals ((Image.records settings.codec
              (log.containers settings.containerSize)).take m), p.file.bytes.length, true⟩) := by
  obtain ⟨origin, hlaunch, opened⟩ := exists_launch accepted regular
  obtain ⟨queues, -, -, hid, -⟩ := Options.of_check accepted
  refine ⟨origin, storage.put .empty, hlaunch, ?_⟩
  intro log p id run aborted faithful storable few
  refine ⟨run.returns queues opened aborted.asked, fun result answered => ?_⟩
  have callers := (run.served (fresh_of_start opened)).callers
  have hfew : Totals.zero.containers.toNat + log.events.length ≤ UInt64.size := by
    simpa [Totals.zero] using few
  obtain ⟨before, q, n, hconcluded⟩ := (run.ended opened).aborted callers aborted answered
  obtain ⟨rs, totals, hsealed, hpublished, rfl, hstage, hbytes⟩ :=
    hconcluded.truncated run opened (Sink.reliable_reliable .empty) storable hfew
  -- what was sealed are the first of the containers
  have hfront : rs <+:
      Image.records settings.codec (log.containers settings.containerSize) :=
    hsealed.trans (Image.records_prefix (run.sealed_prefix opened))
  have hrs : rs =
      (Image.records settings.codec (log.containers settings.containerSize)).take rs.length :=
    List.prefix_iff_eq_take.1 hfront
  replace hbytes : p.file.bytes = Image.finished rs true := hbytes
  refine ⟨rs.length, ⟨hfront.length_le, ?_, ?_, ?_, ?_⟩, ?_⟩
  case refine_1 => rw [← hrs, hbytes]
  case refine_2 =>
    intro id granted
    exact run.flushed_le opened (by simpa [Totals.zero] using hpublished) granted
  case refine_3 =>
    obtain ⟨groups, hrow, hgroups, -, lost, hlost⟩ := (run.batched_of_start opened).made.exists_row
    obtain ⟨rest, hrest⟩ := Batched.obeyed_prefix (run.batched_of_start opened)
    rw [show Totals.zero.containers.toNat = 0 from rfl] at hrow
    rw [hrow] at hsealed
    have hevents : groups.flatten ++ (lost ++ Command.events rest) = log.events := by
      rw [History.events, ← hrest, Command.events_append, ← hlost, List.append_assoc]
    have hlength : rs.length ≤ UInt64.size := by
      have hgroups := Totals.length_le_length_flatten hgroups
      have hrecords := hsealed.length_le.trans (Image.length_records_le_length ..)
      have hall := congrArg List.length hevents
      rw [Container.length_row] at hrecords
      rw [List.length_append] at hall
      omega
    obtain ⟨registry, read, hregister, hread, htruncated, hcomplete, htotals, hfound⟩ :=
      Image.read_truncated hid faithful hgroups hsealed hlength
    refine ⟨registry, read, _, hregister, hbytes ▸ hread, htruncated, hcomplete, htotals, hfound,
      ?_⟩
    rw [← hevents]
    exact ((List.take_prefix ..).flatten).trans (List.prefix_append ..)
  case refine_4 =>
    intro storage settings' mishaps regular readable
    rw [launch, Storage.openFor, readable]
    simp only [Storage.resume_footer regular hbytes, if_true]
  case refine_5 =>
    have hreturned := (callers.answered_iff id result).1 answered
    rw [hstage, Option.some.injEq, CallStage.returned.injEq] at hreturned
    rw [← hreturned, ← hrs, show p.file.taken.size = p.file.bytes.length by simp [Sink.bytes]]
    rfl

/-- Someone aborts while one container is being compressed and the next one waits for it: what a
flush was granted is left. -/
theorem abort_eq_truncated_parked :
    ∃ origin storage' log p result m,
      launch ⟨"log", .regular, none⟩ .truncate ⟨1, 1, 2, 64, .identity⟩ .none =
        (.ok origin, storage') ∧
      Run origin log p ∧ log.AbortedBy 5 ∧ Codec.identity.Faithful ∧
      (∀ c ∈ log.sealed, c.Storable .identity) ∧ log.events.length ≤ UInt64.size ∧
      .answered 2 (.ok .flushed) ∈ log ∧ log.taken.map (·.sequence) = [0, 2] ∧
      .answered 5 result ∈ log ∧ (∃ summary, result = .ok (.finished summary)) ∧
      Truncated ⟨1, 1, 2, 64, .identity⟩ log p m ∧ 1 ≤ m := by
  obtain ⟨origin, storage', hlaunch, hruns⟩ := @abort_eq_truncated
    ⟨1, 1, 2, some 64, .identity⟩ ⟨1, 1, 2, 64, .identity⟩ ⟨"log", .regular, none⟩ rfl rfl
  have hopened : Pipeline.start ⟨1, 1, 2, 64, .identity⟩ (.reliable .empty) .zero =
      .ok origin := congrArg Prod.fst hlaunch
  obtain ⟨-, horigin⟩ := eq_of_start hopened
  obtain ⟨c₀, c₁, c₂, r₀, r₂, result, q, p, hturns, hmore, hshort, hr₀, hr₂, hok⟩ :
      ∃ c₀ c₁ c₂ r₀ r₂ result q p, follow?
        [.arrive 1 (.write 5 [7]), .step (.call 1), .step (.call 1), .step (.call 1),
          .step .batcher, .step .batcher, .step .batcher, .step (.worker 0), .step (.worker 0),
          .step (.worker 0), .step (.worker 0), .step .scribe, .step .scribe, .step .scribe,
          .step .scribe, .step .scribe, .step .scribe, .arrive 2 .flush, .step (.call 2),
          .step (.call 2), .step .batcher, .step .batcher, .step (.call 2), .step (.call 2),
          .step (.call 2)] [] origin =
        some ([.asked 1 (.write 5 [7]), .entered 1 (.event ⟨0, 5, [7]⟩),
          .answered 1 (.ok (.numbered 0)), .obeyed (.event ⟨0, 5, [7]⟩), .sealed c₀, .taken r₀,
          .asked 2 .flush, .entered 2 (.flush 2), .obeyed (.flush 2),
          .answered 2 (.ok .flushed)], q) ∧
      follow?
        [.arrive 3 (.write 6 [9]), .step (.call 3), .step (.call 3), .step (.call 3),
          .step .batcher, .step .batcher, .step .batcher, .step (.worker 0), .step (.worker 0),
          .arrive 4 (.write 7 [8]), .step (.call 4), .step (.call 4), .step (.call 4),
          .step .batcher, .step .batcher, .step .batcher, .step (.worker 1), .step (.worker 1),
          .step (.worker 1), .step (.worker 1), .step .scribe, .step .scribe, .step .scribe,
          .arrive 5 .abort, .step (.call 5), .step (.call 5), .step (.call 5), .step (.call 5),
          .step (.call 5), .step (.call 5), .step .batcher, .step .batcher, .step .batcher,
          .step (.call 5), .step (.worker 0), .step (.worker 0), .step (.worker 0),
          .step (.worker 1), .step .scribe, .step .scribe, .step .scribe, .step .scribe,
          .step (.call 5), .step (.call 5)] [] q =
        some ([.asked 3 (.write 6 [9]), .entered 3 (.event ⟨1, 6, [9]⟩),
          .answered 3 (.ok (.numbered 1)), .obeyed (.event ⟨1, 6, [9]⟩), .sealed c₁,
          .asked 4 (.write 7 [8]), .entered 4 (.event ⟨2, 7, [8]⟩),
          .answered 4 (.ok (.numbered 2)), .obeyed (.event ⟨2, 7, [8]⟩), .sealed c₂, .taken r₂,
          .asked 5 .abort, .answered 5 result], p) ∧
      [c₀, c₁, c₂].all (fun c => decide (c.length < UInt32.size)) = true ∧ r₀.sequence = 0 ∧
      r₂.sequence = 2 ∧ ∃ summary, result = .ok (.finished summary) := by
    rw [horigin]
    exact ⟨_, _, _, _, _, _, _, _, rfl, rfl, rfl, rfl, rfl, _, rfl⟩
  obtain ⟨log, run, haborted, hsealed, hfew, hgranted, htaken, hanswered, htarget⟩ :
      ∃ log, Run origin log p ∧ log.AbortedBy 5 ∧ log.sealed = [c₀, c₁, c₂] ∧
        log.events.length ≤ UInt64.size ∧ .answered 2 (.ok .flushed) ∈ log ∧
        log.taken = [r₀, r₂] ∧ .answered 5 result ∈ log ∧ Target (.start 1 0) log.entered 2 1 := by
    have hfew : 3 ≤ UInt64.size := by decide
    exact ⟨_, (Run.start.follow hturns).append (Run.start.follow hmore),
      ⟨by simp, by simp, by simp⟩, rfl, hfew, by simp, rfl, by simp,
      [.event ⟨0, 5, [7]⟩], [.event ⟨1, 6, [9]⟩, .event ⟨2, 7, [8]⟩], rfl, rfl⟩
  have hstorable : ∀ c ∈ log.sealed, c.Storable .identity := fun c hc =>
    Container.storable_plain (of_decide_eq_true (List.all_eq_true.1 hshort c (hsealed ▸ hc)))
  obtain ⟨-, hanswer⟩ :=
    hruns log p 5 run haborted (Codec.plain_faithful 0) hstorable hfew
  obtain ⟨m, truncated, -⟩ := hanswer result hanswered
  exact ⟨origin, storage', log, p, result, m, hlaunch, run, haborted, Codec.plain_faithful 0,
    hstorable, hfew, hgranted, by rw [htaken, ← hr₀, ← hr₂]; rfl, hanswered, hok, truncated,
    (truncated.flushed 2 hgranted).2 1 htarget⟩

end Pipeline

end TraceLog
