/-
**What a session puts behind a file.**

A file that is opened to go on is judged by its last 64 bytes.  Whatever stands in front of them,
the session puts its records there, and a footer with totals that go on from those it found.  If the
file was one that the reader accepts as complete, so is the file that the session leaves, and it
holds the records of both.  Otherwise nothing can be said of it: a file that lacks a footer may
still end like one, because a record may hold any bytes; these are then taken off, and the record is
lost with all that follows.

Main results:

* `Pipeline.launch_append_eq_ok_iff` — when a file can be opened to go on;
* `Pipeline.append_eq_extended` — **what a session leaves that is closed**: what was found without
  its footer, the records of the session, and a footer; a complete file stays one;
* `Pipeline.append_eq_extended_unreadable` — an unfinished file that ends like a finished one.
-/

import TraceLog.Proofs.Discards
import TraceLog.Proofs.Resuming

set_option relaxedAutoImplicit false
set_option autoImplicit false

namespace TraceLog

/-- A file is not accepted if its first record ends where neither another record begins nor a footer
is left. -/
theorem Log.read_ne_ok {s : Slot} {rest : Bytes} (complete : s.Complete) (nonempty : rest ≠ [])
    (size : rest.length ≠ Footer.size) (magic : rest.take 4 ≠ Header.magic) (log : Log) :
    read (s.bytes ++ rest) ≠ .ok log := by
  intro hread
  obtain ⟨⟨slots, footer⟩, wf, hbytes, -⟩ := read_eq_ok_iff.1 hread
  cases slots with
  | nil =>
      match footer with
      | none => exact slot_bytes_ne_nil s rest hbytes.symm
      | some (reserved, f) =>
          rw [Layout.bytes_footer, ← List.append_nil (f.encodeWith reserved)] at hbytes
          exact Layout.encodeWith_ne_slot s [] rest hbytes
  | cons s' slots =>
      rw [Layout.bytes_cons] at hbytes
      obtain ⟨-, rfl⟩ := Slot.bytes_append_inj (wf.complete s' List.mem_cons_self) complete hbytes
      match slots, footer with
      | [], none => exact nonempty rfl
      | [], some (reserved, f) =>
          exact size (Footer.length_encodeWith (wf.footer reserved f rfl).length_reserved f)
      | s'' :: slots, footer =>
          rw [Layout.bytes_cons, Slot.take_bytes] at magic
          exact magic rfl

namespace Pipeline

/-! ### Opening a file to go on -/

/-- **When a file can be opened to go on.** -/
theorem launch_append_eq_ok_iff {storage storage' : Storage} {settings : Settings}
    {mishaps : Mishaps} {origin : Pipeline} :
    launch storage .append settings mishaps = (.ok origin, storage') ↔
      mishaps.reading = none ∧ mishaps.thread? = none ∧ ∃ sink totals,
        storage.resume = (.ok (sink, totals), storage') ∧
          Pipeline.start settings sink totals = .ok origin := by
  unfold launch Storage.openFor
  rcases mishaps.reading with _ | fault
  · rcases storage.resume with ⟨error | ⟨sink, totals⟩, s⟩
    · simp
    · rcases hstart : Pipeline.start settings sink totals with error | pipeline
      · simp [hstart]
      · rcases mishaps.thread? with _ | fault
        · simp only [hstart, Prod.mk.injEq, Except.ok.injEq, true_and]
          constructor
          · rintro ⟨rfl, rfl⟩
            exact ⟨sink, totals, ⟨⟨rfl, rfl⟩, rfl⟩, hstart⟩
          · rintro ⟨_, _, ⟨⟨rfl, rfl⟩, rfl⟩, hopened⟩
            rw [hstart] at hopened
            exact ⟨Except.ok.inj hopened, rfl⟩
        · simp [hstart]
  · simp

/-- A file that can be written is opened without its former content. -/
theorem launch_truncate_eq_ok_iff {storage storage' : Storage} {settings : Settings}
    {origin : Pipeline} (regular : storage.place = .regular) :
    launch storage .truncate settings .none = (.ok origin, storage') ↔
      Pipeline.start settings (.reliable .empty) .zero = .ok origin ∧
        storage' = storage.put .empty := by
  simp only [launch, Storage.openFor, Storage.create, regular, Mishaps.none, Mishaps.thread?]
  rcases Pipeline.start settings (.reliable .empty) .zero with error | pipeline
  · simp
  · simp [eq_comm]

/-! ### What is left -/

variable {settings : Settings} {sink : Sink} {base : Totals} {origin p : Pipeline} {log : History}
  {id : Nat}

/-- A call to close that is answered without an error has concluded the file. -/
theorem Ended.concluded (h : Ended origin log p) (callers : Callers log p) {answer : Answer}
    (asked : .asked id .close ∈ log) (answered : .answered id (.ok answer) ∈ log) :
    ∃ before q sealedCount, Concluded origin log p id before q .drained sealedCount := by
  have hstage := (callers.answered_iff id _).1 answered
  rcases h.answer id .close .drained _ asked rfl hstage with
    ⟨hturned, -⟩ | ⟨before, q, ending, n, h⟩
  · cases hturned
  · obtain ⟨request, hasked, hends⟩ := h.asked
    obtain rfl := callers.asked_once id _ _ asked hasked
    obtain rfl := Option.some.inj hends
    exact ⟨before, q, n, h⟩

/-- **What a session leaves that is closed**, on a file that refuses nothing: the records of all
containers that were sealed behind what the file held, and a footer. -/
theorem Run.closed_eq (run : Run origin log p)
    (opened : Pipeline.start settings sink base = .ok origin) (reliable : sink.Reliable)
    (few : base.containers.toNat + log.events.length ≤ UInt64.size) {answer : Answer}
    (asked : .asked id .close ∈ log) (answered : .answered id (.ok answer) ∈ log) :
    (∀ c ∈ log.sealed, c.Storable settings.codec) ∧
      (log.Unaborted → log.sealed =
        (Builder.start settings.containerSize base.containers.toNat).batches log.entered) ∧
      ∃ totals, totals = ((Image.records settings.codec log.sealed).map (·.header)).foldl
          Totals.add base ∧
        answer = .finished ⟨totals, p.file.bytes.length, false⟩ ∧
        p.file.bytes = sink.bytes ++ Image.unfinished (Image.records settings.codec log.sealed) ++
          (Footer.ofTotals totals false).encode := by
  have callers := (run.served (fresh_of_start opened)).callers
  obtain ⟨before, q, n, h⟩ := (run.ended opened).concluded callers asked answered
  obtain ⟨hfailure, rs, totals, -, hall, htotals, hanswer, hbytes⟩ :=
    h.finished opened reliable few ((callers.answered_iff id _).1 answered)
  obtain ⟨hstorable, rfl⟩ := hall rfl
  rw [run.codec_eq opened] at hstorable hbytes htotals
  refine ⟨hstorable, fun unaborted => (h.sealed_eq opened unaborted hfailure).2, totals, htotals,
    ?_, hbytes⟩
  rw [hanswer, show p.file.taken.size = p.file.bytes.length by simp [Sink.bytes]]
  rfl

/-- **The records of a session are accepted behind those of a complete file.** -/
theorem Run.read_extended {slots : List Slot} (run : Run origin log p)
    (opened : Pipeline.start settings sink (.ofHeaders (slots.map (·.record.header))) =
      .ok origin)
    (wf : Layout.WellFormed ⟨slots, none⟩)
    (few : slots.length + log.events.length < UInt64.size)
    (storable : ∀ c ∈ log.sealed, c.Storable settings.codec) :
    Log.read (Layout.extended slots (Image.records settings.codec log.sealed) true).bytes =
      .ok (Layout.extended slots (Image.records settings.codec log.sealed) true).log := by
  have batched := run.batched_of_start opened
  obtain ⟨groups, hrow, -⟩ := batched.made.exists_row
  rw [Storage.toNat_containers (by omega)] at hrow
  have hcount : (Image.records settings.codec log.sealed).length ≤ log.events.length := by
    rw [Image.length_records storable]
    exact batched.numbers.2.2
  have hfront : Image.records settings.codec log.sealed <+:
      Image.records settings.codec (Container.row slots.length groups) := hrow ▸ List.prefix_rfl
  obtain ⟨hnumbers, hcomplete⟩ := Image.numbers_of_prefix hfront (by omega)
  exact Log.read_extended wf true hcomplete hnumbers

/-- **What a session leaves that is closed.**

Whatever a file holds that can be opened to go on, in every run of its pipeline in which a call to
close is answered without an error, the call is told that the file is finished and nothing was
discarded, and all containers that were sealed have records; these are the containers that the
commands make, if nobody has aborted.  The file then holds what it held in front of its footer, the
records, and a footer with totals that go on from those in the old one.  If the reader had accepted
the file as complete, or if it was missing or empty, then it accepts it as complete again: it finds
the records that were there followed by those of the session, and the totals in the footer are those
of all of them. -/
theorem append_eq_extended {storage storage' : Storage} {mishaps : Mishaps} {answer : Answer}
    (regular : storage.place = .regular)
    (launched : launch storage .append settings mishaps = (.ok origin, storage'))
    (run : Run origin log p) (asked : .asked id .close ∈ log)
    (answered : .answered id (.ok answer) ∈ log) :
    ∃ front base,
      (storage.bytes = [] ∧ front = [] ∧ base = .zero ∨
        ∃ reserved f, Footer.Sound reserved f ∧ f.isTruncated = false ∧ f.totals = base ∧
          storage.bytes = front ++ f.encodeWith reserved) ∧
      (base.containers.toNat + log.events.length ≤ UInt64.size →
        (∀ c ∈ log.sealed, c.Storable settings.codec) ∧
        (log.Unaborted → log.sealed =
          (Builder.start settings.containerSize base.containers.toNat).batches log.entered) ∧
        ∃ totals, totals = ((Image.records settings.codec log.sealed).map (·.header)).foldl
            Totals.add base ∧
          answer = .finished ⟨totals, p.file.bytes.length, false⟩ ∧
          p.file.bytes = front ++ Image.unfinished (Image.records settings.codec log.sealed) ++
            (Footer.ofTotals totals false).encode) ∧
      ∀ entries, storage.Finished entries → entries.length + log.events.length < UInt64.size →
        base.containers.toNat = entries.length ∧
        ∃ read more, Log.read p.file.bytes = .ok read ∧ read.isComplete = true ∧
          read.entries = entries ++ more ∧
          more.map (fun e => Record.mk e.header e.stored) =
            Image.records settings.codec log.sealed ∧
          read.footer.map (·.totals) = some read.totals ∧
          answer = .finished ⟨read.totals, p.file.bytes.length, false⟩ := by
  obtain ⟨-, -, sink, base, hresume, opened⟩ := launch_append_eq_ok_iff.1 launched
  obtain ⟨hfound, reliable⟩ := Storage.found_of_resume regular hresume
  refine ⟨sink.bytes, base, hfound, fun few => run.closed_eq opened reliable few asked answered, ?_⟩
  intro entries finished few
  -- the records of a complete file are where they were found
  obtain ⟨slots, sink', content, wf, rfl, hresume', -, hsink⟩ := finished.exists_slots regular
  rw [hresume] at hresume'
  cases hresume'
  rw [Slot.length_entriesFrom] at few ⊢
  have hfirst := @Storage.toNat_containers slots (by omega)
  refine ⟨hfirst, ?_⟩
  obtain ⟨hstorable, -, totals, rfl, hanswer, hbytes⟩ :=
    run.closed_eq opened reliable (by rw [hfirst]; omega) asked answered
  have hread := run.read_extended opened wf few hstorable
  rw [(Layout.bytes_extended slots _).2, ← hsink, ← hbytes] at hread
  have htotals := Layout.totals_log_extended slots (Image.records settings.codec log.sealed) true
  refine ⟨_, _, hread, Layout.isComplete_log_extended _ _ true,
    Layout.entries_log_extended _ _ true, ?_, ?_, ?_⟩
  · rw [Slot.map_record_entriesFrom, List.map_map]
    exact List.map_id' _
  · rw [htotals]
    rfl
  · rw [htotals]
    exact hanswer

/-- An event is put behind a file of one record, and the reader finds both. -/
theorem append_eq_extended_complete :
    ∃ storage origin storage' log p answer entries,
      storage.place = .regular ∧ storage.Finished entries ∧ entries.length = 1 ∧
      launch storage .append ⟨1, 64, 1, 64, .identity⟩ .none = (.ok origin, storage') ∧
      Run origin log p ∧ .asked 2 .close ∈ log ∧ .answered 2 (.ok answer) ∈ log ∧
      entries.length + log.events.length < UInt64.size ∧
      ∃ read, Log.read p.file.bytes = .ok read ∧ read.isComplete = true ∧
        read.entries.length = 2 := by
  obtain ⟨zero, hzero⟩ : ∃ r : Record, r = ⟨⟨.ofId 0, 0, 1, 3, 3, 4, 4⟩, [0, 3, 1, 8]⟩ := ⟨_, rfl⟩
  obtain ⟨storage, hstorage⟩ : ∃ s : Storage,
      s = (Storage.vacant "log" .regular).put (.ofBytes (Image.finished [zero] false)) := ⟨_, rfl⟩
  have hread : Log.read storage.bytes = .ok (Layout.ofRecords [zero] false).log := by
    rw [hstorage, Storage.bytes_put, Spool.toBytes_ofBytes]
    exact Image.read_finished false (by simp [hzero]) (by simp [hzero]; rfl)
  have hfinished : storage.Finished (Layout.ofRecords [zero] false).log.entries :=
    Or.inr ⟨_, hread, by simp [Log.isComplete, Layout.log, Layout.ofRecords], rfl⟩
  have hregular : storage.place = .regular := by rw [hstorage]; rfl
  obtain ⟨origin, opened⟩ : ∃ origin, Pipeline.start ⟨1, 64, 1, 64, .identity⟩
      (.reliable (.ofBytes (Image.unfinished [zero]))) (Image.totals [zero]) = .ok origin :=
    exists_start (show Options.check ⟨1, 64, 1, some 64, .identity⟩ = .ok _ from rfl) _ _
  have hresume : storage.resume =
      (.ok (.reliable (.ofBytes (Image.unfinished [zero])), Image.totals [zero]),
        (Storage.vacant "log" .regular).put (.ofBytes (Image.unfinished [zero]))) := by
    rw [hstorage]
    exact Storage.resume_footer rfl (Spool.toBytes_ofBytes _)
  have hlaunch : launch storage .append ⟨1, 64, 1, 64, .identity⟩ .none = (.ok origin, _) :=
    launch_append_eq_ok_iff.2 ⟨rfl, rfl, _, _, hresume, opened⟩
  obtain ⟨-, horigin⟩ := eq_of_start opened
  obtain ⟨c, r, answer, p, hturns, hrecords⟩ : ∃ c r answer p, follow?
      [.arrive 1 (.write 9 [7]), .step (.call 1), .step (.call 1), .step (.call 1),
        .arrive 2 .close, .step (.call 2), .step (.call 2), .step .batcher, .step .batcher,
        .step .batcher, .step .batcher, .step .batcher, .step .batcher, .step (.call 2),
        .step (.worker 0), .step (.worker 0), .step (.worker 0), .step (.worker 0),
        .step (.worker 0), .step .scribe, .step .scribe, .step .scribe, .step .scribe,
        .step .scribe, .step .scribe, .step .scribe, .step (.call 2), .step (.call 2)]
        [] origin =
      some ([.asked 1 (.write 9 [7]), .entered 1 (.event ⟨1, 9, [7]⟩),
        .answered 1 (.ok (.numbered 1)), .asked 2 .close, .obeyed (.event ⟨1, 9, [7]⟩),
        .sealed c, .taken r, .answered 2 (.ok answer)], p) ∧
      (Image.records .identity [c]).length = 1 := by
    rw [horigin, hzero]
    exact ⟨_, _, _, _, rfl, rfl⟩
  obtain ⟨log, run, hasked, hanswered, hsealed, hfew⟩ : ∃ log, Run origin log p ∧
      .asked 2 .close ∈ log ∧ .answered 2 (.ok answer) ∈ log ∧ log.sealed = [c] ∧
      1 + log.events.length < UInt64.size := by
    have hfew : 1 + 1 < UInt64.size := by decide
    exact ⟨_, Run.start.follow hturns, by simp, by simp, rfl, hfew⟩
  obtain ⟨_, _, -, -, hcomplete⟩ := append_eq_extended hregular hlaunch run hasked hanswered
  obtain ⟨-, read, more, hread', hall, hentries, hmore, -⟩ := hcomplete _ hfinished hfew
  refine ⟨storage, origin, _, log, p, answer, _, hregular, hfinished, rfl, hlaunch, run, hasked,
    hanswered, hfew, read, hread', hall, ?_⟩
  have hlength := congrArg List.length hmore
  rw [List.length_map, hsealed] at hlength
  rw [hentries, List.length_append, hlength]
  exact congrArg (1 + ·) hrecords

/-- **A file that only looks finished is destroyed.**  A session has left one record and no footer,
so the reader takes the file for an unfinished one; but the event in the record ends like a footer.
The file can be opened to go on, one more event is written, the call to close is told that the file
is finished, and the reader does not accept it any more. -/
theorem append_eq_extended_unreadable :
    ∃ storage before origin storage' log p answer,
      storage.place = .regular ∧
      storage.bytes = Image.unfinished (Image.records .identity ((Builder.start 64 0).batches
        [.event ⟨0, 5, (Footer.ofTotals .zero false).encode⟩])) ∧
      Log.read storage.bytes = .ok before ∧ before.footer = none ∧ before.entries.length = 1 ∧
      launch storage .append ⟨1, 64, 1, 64, .identity⟩ .none = (.ok origin, storage') ∧
      Run origin log p ∧ log.Unaborted ∧ .answered 1 (.ok (.numbered 0)) ∈ log ∧
      .asked 2 .close ∈ log ∧ .answered 2 (.ok answer) ∈ log ∧
      ∀ read, Log.read p.file.bytes ≠ .ok read := by
  obtain ⟨payload, hpayload⟩ : ∃ bs : Bytes, bs = (Footer.ofTotals .zero false).encode := ⟨_, rfl⟩
  obtain ⟨header, hheader⟩ : ∃ h : Header, h = ⟨.ofId 0, 0, 1, 5, 5, 67, 67⟩ := ⟨_, rfl⟩
  obtain ⟨front, hfront⟩ : ∃ bs : Bytes, bs = header.encode ++ [0, 5, 64] := ⟨_, rfl⟩
  obtain ⟨one, hone⟩ : ∃ r : Record, r = ⟨⟨.ofId 0, 0, 1, 9, 9, 4, 4⟩, [0, 9, 1, 7]⟩ := ⟨_, rfl⟩
  have hlength : payload.length = 64 := by rw [hpayload]; exact Footer.length_encode _
  -- what a session has left that was given one event
  have hrecords : Image.records .identity ((Builder.start 64 0).batches
      [.event ⟨0, 5, payload⟩]) = [⟨header, [0, 5, 64] ++ payload⟩] := by
    rw [hheader, hpayload]
    rfl
  have hbytes : Image.unfinished [⟨header, [0, 5, 64] ++ payload⟩] =
      front ++ payload := by
    simp [hfront, Image.unfinished, Record.bytes]
  have hread : Log.read (front ++ payload) =
      .ok (Layout.unfinished [⟨header, [0, 5, 64] ++ payload⟩]).log := by
    rw [← hbytes]
    exact Image.read_unfinished (by simp [hlength, hheader]) (by simp [hheader]; rfl)
  -- the last bytes are taken off
  obtain ⟨origin, opened⟩ : ∃ origin, Pipeline.start ⟨1, 64, 1, 64, .identity⟩
      (.reliable (.ofBytes front)) .zero = .ok origin :=
    exists_start (show Options.check ⟨1, 64, 1, some 64, .identity⟩ = .ok _ from rfl) _ _
  have hends : (Spool.ofBytes (front ++ payload)).toBytes =
      front ++ (Footer.ofTotals .zero false).encode := by
    rw [Spool.toBytes_ofBytes, hpayload]
  have hresume := Storage.resume_footer (s := Storage.vacant "log" .regular) rfl hends
  obtain ⟨storage, hstorage⟩ : ∃ s : Storage,
      s = (Storage.vacant "log" .regular).put (.ofBytes (front ++ payload)) := ⟨_, rfl⟩
  rw [← hstorage] at hresume
  have hlaunch : launch storage .append ⟨1, 64, 1, 64, .identity⟩ .none = (.ok origin, _) :=
    launch_append_eq_ok_iff.2 ⟨rfl, rfl, _, _, hresume, opened⟩
  obtain ⟨-, horigin⟩ := eq_of_start opened
  obtain ⟨c, r, answer, p, hturns, hone'⟩ : ∃ c r answer p, follow?
      [.arrive 1 (.write 9 [7]), .step (.call 1), .step (.call 1), .step (.call 1),
        .arrive 2 .close, .step (.call 2), .step (.call 2), .step .batcher, .step .batcher,
        .step .batcher, .step .batcher, .step .batcher, .step .batcher, .step (.call 2),
        .step (.worker 0), .step (.worker 0), .step (.worker 0), .step (.worker 0),
        .step (.worker 0), .step .scribe, .step .scribe, .step .scribe, .step .scribe,
        .step .scribe, .step .scribe, .step .scribe, .step (.call 2), .step (.call 2)]
        [] origin =
      some ([.asked 1 (.write 9 [7]), .entered 1 (.event ⟨0, 9, [7]⟩),
        .answered 1 (.ok (.numbered 0)), .asked 2 .close, .obeyed (.event ⟨0, 9, [7]⟩),
        .sealed c, .taken r, .answered 2 (.ok answer)], p) ∧
      Image.records .identity [c] = [one] := by
    rw [horigin, hone, hfront, hheader]
    exact ⟨_, _, _, _, rfl, rfl⟩
  obtain ⟨log, run, unaborted, hnumbered, hasked, hanswered, hsealed, hfew⟩ : ∃ log,
      Run origin log p ∧ log.Unaborted ∧ .answered 1 (.ok (.numbered 0)) ∈ log ∧
      .asked 2 .close ∈ log ∧ .answered 2 (.ok answer) ∈ log ∧ log.sealed = [c] ∧
      0 + log.events.length ≤ UInt64.size := by
    have hfew : 0 + 1 ≤ UInt64.size := by decide
    exact ⟨_, Run.start.follow hturns, by simp [History.Unaborted], by simp, by simp, by simp, rfl,
      hfew⟩
  obtain ⟨-, -, totals, htotals, -, hfile⟩ :=
    run.closed_eq opened (Sink.reliable_reliable _) hfew hasked hanswered
  rw [hsealed, hone'] at htotals hfile
  obtain ⟨footer, hfooter⟩ : ∃ bs : Bytes, bs = (Footer.ofTotals totals false).encode := ⟨_, rfl⟩
  have hsize : footer.length = 64 := by rw [hfooter]; exact Footer.length_encode _
  -- the first record reaches into the footer that was written behind it
  have hsplit : p.file.bytes =
      (Slot.mk 0 ⟨header, [0, 5, 64] ++ one.bytes ++ footer.take 16⟩).bytes ++ footer.drop 16 := by
    rw [hfile, ← hfooter]
    simp [hfront, Sink.bytes, Sink.reliable, Slot.bytes, Image.unfinished, Header.encode]
  have hfound : storage.bytes = front ++ payload := by
    rw [hstorage, Storage.bytes_put, Spool.toBytes_ofBytes]
  refine ⟨storage, (Layout.unfinished [⟨header, [0, 5, 64] ++ payload⟩]).log, origin, _, log, p,
    answer, by rw [hstorage]; rfl, by rw [hfound, ← hpayload, hrecords, hbytes],
    hfound ▸ hread, rfl, rfl, hlaunch, run, unaborted, hnumbered, hasked, hanswered, ?_⟩
  rw [hsplit]
  have hrest : (footer.drop 16).length = 48 := by rw [List.length_drop, hsize]
  refine Log.read_ne_ok ?_ (List.ne_nil_of_length_pos (by omega)) (by simp [hrest, Footer.size]) ?_
  · show List.length _ = header.storedSize.toNat
    simp [Record.bytes, hsize, hone, hheader, Header.size]
  · rw [hfooter, htotals, hone]
    decide

end Pipeline

end TraceLog
