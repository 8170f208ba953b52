/-
**What a flush has achieved.**

A call to flush is told that it succeeded when the containers that were sealed in front of its
command have been published, and what was published is in the file for good.  The events that were
numbered before the call was made stand in the channel in front of that command, so each of them is
in one of these containers.  If the flush command is the last one in the channel, nothing is left in
the builder behind it: the file is level with the channel, and the reader finds in it all the events
that were accepted.

The file may refuse anything at any time, and the codec may fail or crash.  It makes no difference:
a flush that was granted has been granted by a number that was published.

Main definitions:

* `Record.Carries`, `History.SavedIn` — an event is in a record; events are in some records;
* `Pipeline.Awaited` — what a flush that was granted has waited for;
* `Pipeline.Level` — the file holds the records of all containers, and these all the events.

Main results:

* `Pipeline.Run.split_asked` — a run, cut at the time of a call;
* `Pipeline.Run.event_of_numbered` — whoever was told a number has an event in the channel;
* `Pipeline.Run.awaited`, `Pipeline.Awaited.carries`, `Pipeline.Awaited.records_eq` — what a flush
  has waited for;
* `Pipeline.flush_secures` — **what a flush has achieved**.
-/

import TraceLog.Proofs.Appending
import TraceLog.Proofs.Pipeline.Failing
import TraceLog.Proofs.Pipeline.Securing

set_option relaxedAutoImplicit false
set_option autoImplicit false

namespace TraceLog

/-! ### Events in records -/

/-- A record carries an event: it was made of a container in which the event is. -/
def Record.Carries (codec : Codec) (e : Event) (r : Record) : Prop :=
  ∃ sequence es, Event.Group es ∧ e ∈ es ∧
    (Container.ofEvents sequence es).complete? codec = some (.done r)

/-- Whatever was written by calls that have got a number is in some records. -/
def History.SavedIn (log : History) (codec : Codec) (rs : List Record) : Prop :=
  ∀ id n, .answered id (.ok (.numbered n)) ∈ log → ∃ timestamp payload,
    .asked id (.write timestamp payload) ∈ log ∧
      ∃ r ∈ rs, r.Carries codec ⟨UInt64.ofNat n, timestamp, payload⟩

namespace Pipeline

variable {settings : Settings} {sink : Sink} {base : Totals} {origin p : Pipeline}
  {before behind log : History} {id : Nat}

/-! ### The time of a call -/

theorem not_asked_moments (p p' : Pipeline) (actor : Actor) (id : Nat) (request : Request) :
    .asked id request ∉ p.moments p' actor := by
  cases actor <;> simp [moments]

/-- A run, cut at the time of a call. -/
theorem Run.split_asked {request : Request} (run : Run origin log p)
    (hlog : log = before ++ .asked id request :: behind) :
    ∃ q, Run origin before q ∧ q.stage? id = none ∧ Run (q.arrive id request) behind p := by
  induction run generalizing behind with
  | start => simp at hlog
  | arrive request' run fresh ih =>
      rcases List.eq_nil_or_concat behind with rfl | ⟨front, last, rfl⟩
      · obtain ⟨rfl, hsame⟩ := List.append_inj' hlog rfl
        cases hsame
        exact ⟨_, run, fresh, .start⟩
      · rw [List.concat_eq_append, ← List.cons_append, ← List.append_assoc] at hlog
        obtain ⟨hfront, hlast⟩ := List.append_inj' hlog rfl
        obtain ⟨q, before_q, free, more⟩ := ih hfront
        cases hlast
        rw [List.concat_eq_append]
        exact ⟨q, before_q, free, .arrive request' more fresh⟩
  | step run stepped ih =>
      -- a step asks for nothing, so the call was made before it
      rename_i log p p' actor
      have hquiet := not_asked_moments p p' actor id request
      rcases List.append_eq_append_iff.1 hlog with ⟨more, -, hms⟩ | ⟨more, hfront, hbehind⟩
      · refine absurd ?_ hquiet
        rw [hms]
        simp
      · cases more with
        | nil =>
            refine absurd ?_ hquiet
            rw [← hbehind.trans (List.nil_append _)]
            simp
        | cons m more =>
            obtain ⟨rfl, rfl⟩ := List.cons.inj hbehind
            obtain ⟨q, before_q, free, more⟩ := ih hfront
            exact ⟨q, before_q, free, .step more stepped⟩

/-! ### Events that have a number -/

theorem eq_of_nodup_filterMap {α β : Type} {f : α → Option β} {xs : List α}
    (nodup : (xs.filterMap f).Nodup) {x y : α} {b : β} (hx : x ∈ xs) (hy : y ∈ xs)
    (hfx : f x = some b) (hfy : f y = some b) : x = y := by
  induction xs with
  | nil => cases hx
  | cons z xs ih =>
      have htail := nodup.sublist ((List.sublist_cons_self z xs).filterMap f)
      have honce (h : f z = some b) {x : α} (hx : x ∈ xs) : f x ≠ some b := by
        rw [List.filterMap_cons_some h, List.nodup_cons] at nodup
        exact fun hfx => nodup.1 (List.mem_filterMap.2 ⟨x, hx, hfx⟩)
      rcases List.mem_cons.1 hx with rfl | hx <;> rcases List.mem_cons.1 hy with rfl | hy
      · rfl
      · exact absurd hfy (honce hfx ‹_›)
      · exact absurd hfx (honce hfy ‹_›)
      · exact ih htail hx hy

/-- **Whoever was told a number has an event in the channel**, with that number and with what the
call was given. -/
theorem Run.event_of_numbered (run : Run origin log p) (fresh : origin.Fresh) {n : Nat}
    (numbered : .answered id (.ok (.numbered n)) ∈ log) :
    ∃ timestamp payload, .asked id (.write timestamp payload) ∈ log ∧
      ⟨UInt64.ofNat n, timestamp, payload⟩ ∈ log.events := by
  have desk := (run.served fresh).numbered
  have hn : n ∈ log.numbers := List.mem_filterMap.2 ⟨_, numbered, rfl⟩
  rw [desk.numbers_eq, List.mem_range'_1] at hn
  obtain ⟨i, rfl⟩ := Nat.exists_eq_add_of_le hn.1
  have hlt : i < log.events.length := by omega
  have hat := List.getElem?_eq_getElem hlt
  obtain ⟨hsequence, other, hasked, hanswered⟩ := desk.event_of_getElem? i _ hat
  -- no two calls are told the same number
  have nodup : log.numbers.Nodup := desk.numbers_eq ▸ List.nodup_range'
  have hsame := eq_of_nodup_filterMap nodup hanswered numbered rfl rfl
  obtain ⟨rfl, -⟩ := Moment.answered.inj hsame
  refine ⟨_, _, hasked, ?_⟩
  rw [← hsequence]
  exact List.mem_of_getElem? hat

/-! ### What a flush has waited for -/

/-- A flush that was granted has waited for the containers that the commands in front of its own
make; commands that entered the channel before the call was made are among these. -/
structure Awaited (threshold : UInt32) (first : Nat) (before log : History) (p : Pipeline)
    (id : Nat) (front : List Command) (groups : List (List Event)) : Prop where
  earlier : before.entered <+: front
  entered : front ++ [.flush id] <+: log.entered
  row_eq : (Builder.start threshold first).batches front = Container.row first groups
  group : ∀ g ∈ groups, Event.Group g
  events_eq : groups.flatten = Command.events front
  flushed : first + groups.length ≤ p.shared.progress.flushed

/-- **What a flush has waited for**, if it was granted. -/
theorem Run.awaited (run : Run origin log p)
    (opened : Pipeline.start settings sink base = .ok origin)
    (hlog : log = before ++ .asked id .flush :: behind)
    (granted : .answered id (.ok .flushed) ∈ log) :
    ∃ front groups, Awaited settings.containerSize base.containers.toNat before log p id front
      groups := by
  have fresh := fresh_of_start opened
  have batched := run.batched_of_start opened
  obtain ⟨n, ⟨front, back, hobeyed, hn⟩, hle⟩ := (run.targets opened).granted id granted
  have hentered : front ++ [.flush id] <+: log.entered :=
    .trans ⟨back, by rw [hobeyed]; simp⟩ (Batched.obeyed_prefix batched)
  obtain ⟨groups, hrow, hgroups, hevents, hcount⟩ :=
    Builder.exists_batches_eq_row settings.containerSize base.containers.toNat front
  refine ⟨front, groups, ?_, hentered, hrow, hgroups, hevents, ?_⟩
  · -- the command was sent after the call was made
    obtain ⟨q, run_q, free, -⟩ := run.split_asked hlog
    have hnew : .flush id ∉ before.entered := by
      intro hin
      obtain ⟨stage, hstage, -⟩ := (run_q.posted fresh.idle).posted id hin
      rw [free] at hstage
      cases hstage
    have hbefore : before.entered <+: log.entered := by
      rw [hlog, History.entered_append]
      exact List.prefix_append ..
    rcases List.prefix_or_prefix_of_prefix hbefore hentered with h | h
    · rcases List.prefix_concat_iff.1 h with h | h
      · exact absurd (h ▸ by simp) hnew
      · exact h
    · exact absurd (h.subset (by simp)) hnew
  · rw [Builder.obeyAll_append] at hn
    exact (hcount.symm.trans hn.symm).trans_le hle

namespace Awaited

variable {threshold : UInt32} {first : Nat} {front : List Command} {groups : List (List Event)}
  {codec : Codec} {rs : List Record}

/-- These containers are the first that all the commands make. -/
theorem row_le (h : Awaited threshold first before log p id front groups) :
    Container.row first groups <+: (Builder.start threshold first).batches log.entered := by
  obtain ⟨back, hback⟩ := h.entered
  rw [← hback, List.append_assoc, List.singleton_append, Builder.batches_flush, h.row_eq]
  exact List.prefix_append ..

/-- **An event that was in the channel when the call was made is in one of the records** that were
published. -/
theorem carries (h : Awaited threshold first before log p id front groups)
    (sealed : log.sealed <+: (Builder.start threshold first).batches log.entered)
    (records : rs <+: Image.records codec log.sealed)
    (flushed : p.shared.progress.flushed = first + rs.length) {e : Event} (he : e ∈ before.events) :
    ∃ r ∈ rs, r.Carries codec e := by
  have hin : e ∈ groups.flatten := by
    obtain ⟨more, hmore⟩ := h.earlier
    rw [h.events_eq, ← hmore, Command.events_append]
    exact List.mem_append_left _ he
  obtain ⟨g, hg, heg⟩ := List.mem_flatten.1 hin
  obtain ⟨i, hi, rfl⟩ := List.getElem_of_mem hg
  have hlt : i < rs.length := by
    have := h.flushed
    omega
  -- the record at this place is that of the container with these events
  obtain ⟨c, hc, hreport⟩ := Image.getElem?_records (List.prefix_iff_getElem?.1 records i hlt)
  obtain ⟨hsealed, rfl⟩ := List.getElem?_eq_some_iff.1 hc
  have hcontainer : log.sealed[i] = Container.ofEvents (first + i) groups[i] := by
    have hrow : i < (Container.row first groups).length := by rwa [Container.length_row]
    have hbatch := List.prefix_iff_getElem?.1 sealed i hsealed
    rw [List.prefix_iff_getElem?.1 h.row_le i hrow, Option.some.injEq] at hbatch
    have hgroup := Container.getElem?_row first groups i
    rw [List.getElem?_eq_getElem hi, List.getElem?_eq_getElem hrow, hbatch] at hgroup
    exact Option.some.inj hgroup
  rw [hcontainer] at hreport
  exact ⟨rs[i], List.getElem_mem hlt, first + i, groups[i], h.group _ hg, heg, hreport⟩

/-- **If the flush command is the last one, nothing is left in the builder** behind it: all
containers that the commands make have been sealed, and the records that were published are those of
all of them. -/
theorem records_eq (h : Awaited threshold first before log p id front groups)
    (last : log.entered = before.entered ++ [.flush id])
    (sealed : log.sealed <+: (Builder.start threshold first).batches log.entered)
    (records : rs <+: Image.records codec log.sealed)
    (flushed : p.shared.progress.flushed = first + rs.length) :
    log.sealed = Container.row first groups ∧ groups.flatten = log.events ∧
      (∀ c ∈ log.sealed, c.Storable codec) ∧ rs = Image.records codec log.sealed := by
  have hfront : before.entered = front := by
    have hentered := h.entered.length_le
    rw [last, List.length_append, List.length_append] at hentered
    exact h.earlier.eq_of_length (Nat.le_antisymm h.earlier.length_le (by omega))
  subst hfront
  have hbatches : (Builder.start threshold first).batches log.entered =
      Container.row first groups := by
    rw [last, Builder.batches_flush, h.row_eq]
    simp [Builder.batches, Builder.obeyAll, Builder.start, Builder.sealCurrent, Container.fresh,
      Container.isEmpty]
  have hrecords := records.length_le
  have hall := Image.length_records_le_length codec log.sealed
  have hrow := sealed.length_le
  have hflushed := h.flushed
  rw [hbatches, Container.length_row] at hrow
  have hevents : groups.flatten = log.events := by
    rw [h.events_eq, History.events, last, Command.events_append]
    simp
  refine ⟨?_, hevents, ?_, ?_⟩
  · rw [← hbatches]
    refine sealed.eq_of_length ?_
    rw [hbatches, Container.length_row]
    omega
  · exact Image.storable_of_length_le (by omega)
  · exact records.eq_of_length (by omega)

end Awaited

/-! ### A file that is level with the channel -/

/-- The file holds the records of all containers that were sealed, behind what it held at first, and
the reader finds in it the events that were there and behind them all those that were accepted. -/
structure Level (codec : Codec) (start : Bytes) (entries : List Entry) (log : History)
    (p : Pipeline) : Prop where
  storable : ∀ c ∈ log.sealed, c.Storable codec
  bytes_eq : p.file.bytes = start ++ Image.unfinished (Image.records codec log.sealed)
  read : ∃ read more, Log.read p.file.bytes = .ok read ∧ read.footer = none ∧
    read.entries = entries ++ more ∧
    more.map (fun e => Record.mk e.header e.stored) = Image.records codec log.sealed ∧
    ∀ registry earlier events, codec.Faithful → registry.get codec.id = .ok codec →
      earlier.entries = entries → Log.events earlier registry = .ok events →
      read.events registry = .ok (events ++ log.events)

/-- A file is level if it holds the records of all containers that the events make. -/
theorem level_of_bytes_eq {codec : Codec} {slots : List Slot} {groups : List (List Event)}
    (wf : Layout.WellFormed ⟨slots, none⟩) (hid : codec.id.toNat ≤ maxCodecId)
    (row_eq : log.sealed = Container.row slots.length groups)
    (group : ∀ g ∈ groups, Event.Group g) (events_eq : groups.flatten = log.events)
    (storable : ∀ c ∈ log.sealed, c.Storable codec)
    (few : slots.length + log.events.length ≤ UInt64.size)
    (bytes_eq : p.file.bytes =
      Layout.slotBytes slots ++ Image.unfinished (Image.records codec log.sealed)) :
    Level codec (Layout.slotBytes slots) (Slot.entriesFrom 0 slots) log p := by
  have hcount : (Image.records codec log.sealed).length = groups.length := by
    rw [Image.length_records storable, row_eq, Container.length_row]
  have hfront : Image.records codec log.sealed <+:
      Image.records codec (Container.row slots.length groups) := row_eq ▸ List.prefix_rfl
  have hgroups := Totals.length_le_length_flatten group
  rw [events_eq] at hgroups
  obtain ⟨hnumbers, hcomplete⟩ := Image.numbers_of_prefix hfront (by omega)
  have hread := Log.read_extended wf false hcomplete hnumbers
  rw [(Layout.bytes_extended slots _).1, ← bytes_eq] at hread
  have hentries := Layout.entries_log_extended slots (Image.records codec log.sealed) false
  refine ⟨storable, bytes_eq, _, _, hread, rfl, hentries, ?_, ?_⟩
  · rw [Slot.map_record_entriesFrom, List.map_map]
    exact List.map_id' _
  · intro registry earlier events faithful hget hearlier hevents
    rw [Log.events, hearlier] at hevents
    obtain ⟨found, hfound, rfl⟩ : ∃ found, (Slot.entriesFrom 0 slots).mapM
        (fun (e : Entry) => e.events registry) = .ok found ∧ found.flatten = events := by
      cases hmap : (Slot.entriesFrom 0 slots).mapM (fun (e : Entry) => e.events registry) with
      | error error =>
          rw [hmap] at hevents
          cases hevents
      | ok found =>
          rw [hmap] at hevents
          exact ⟨found, rfl, Except.ok.inj hevents⟩
    have hmore := Slot.mapM_events_of_prefix hid faithful hget group hfront (Layout.span slots)
    rw [hcount, List.take_length] at hmore
    rw [Log.events, hentries, List.mapM_append, hfound, hmore, ← events_eq, ← List.flatten_append]
    rfl

/-! ### Opened files -/

/-- A file that is opened without its former content, or behind the records of a complete file. -/
theorem exists_opened {storage : Storage} {mode : Mode} {entries : List Entry}
    (regular : storage.place = .regular)
    (found : mode = .truncate ∧ entries = [] ∨ mode = .append ∧ storage.Finished entries) :
    ∃ slots sink storage', Layout.WellFormed ⟨slots, none⟩ ∧ Slot.entriesFrom 0 slots = entries ∧
      sink.bytes = Layout.slotBytes slots ∧
      storage.openFor .none mode =
        (.ok (sink, .ofHeaders (slots.map (·.record.header))), storage') := by
  rcases found with ⟨rfl, rfl⟩ | ⟨rfl, finished⟩
  · refine ⟨[], .reliable .empty, storage.put .empty, ?_, rfl, rfl, ?_⟩
    · constructor <;> simp [Layout.FooterSound]
    · simp [Storage.openFor, Storage.create, regular, Totals.ofHeaders]
  · obtain ⟨slots, sink, content, wf, hentries, hresume, -, hbytes⟩ := finished.exists_slots regular
    exact ⟨slots, sink, _, wf, hentries, hbytes, hresume⟩

/-! ### What a flush has achieved -/

/-- **What a flush has achieved.**

For every choice of settings that is found usable, a file is opened without its former content or to
go on behind the records of a complete file, and from then on it may refuse any piece of bytes at
any time, and the codec may fail or crash.  At the end of every run, if all the containers can be
numbered, the number that was published counts, behind the records that were there, records that the
file holds as a whole; they are the first of those that the containers lead to, and they stay where
they are for ever.  If a call to flush was told that it succeeded, then each event that somebody was
told the number of before that call was made is in one of these records.  And if no other command
has entered the channel since then, and the file has not been finished meanwhile, it is level with
the channel. -/
theorem flush_secures {options : Options} {settings : Settings} {storage : Storage} {mode : Mode}
    {entries : List Entry} (accepted : options.check = .ok settings)
    (regular : storage.place = .regular)
    (found : mode = .truncate ∧ entries = [] ∨ mode = .append ∧ storage.Finished entries) :
    ∃ sink totals storage', storage.openFor .none mode = (.ok (sink, totals), storage') ∧
      ∀ refusal, ∃ origin, Pipeline.start settings { sink with refusal } totals = .ok origin ∧
        ∀ log p, Run origin log p → entries.length + log.events.length < UInt64.size →
          ∃ rs, rs <+: Image.records settings.codec log.sealed ∧
            p.shared.progress.flushed = entries.length + rs.length ∧
            (∀ later p', Run p later p' → sink.bytes ++ Image.unfinished rs <+: p'.file.bytes) ∧
            ∀ (before behind : History) id, log = before ++ .asked id .flush :: behind →
              .answered id (.ok .flushed) ∈ log →
                before.SavedIn settings.codec rs ∧
                (behind.entered = [.flush id] → p.closedFile = none →
                  Level settings.codec sink.bytes entries log p) := by
  obtain ⟨slots, sink, storage', wf, rfl, hbytes, hopen⟩ := exists_opened regular found
  refine ⟨sink, _, storage', hopen, fun refusal => ?_⟩
  obtain ⟨origin, opened⟩ := exists_start accepted { sink with refusal }
    (.ofHeaders (slots.map (·.record.header)))
  refine ⟨origin, opened, fun log p run few => ?_⟩
  rw [Slot.length_entriesFrom] at few ⊢
  have hfirst := @Storage.toNat_containers slots (by omega)
  obtain ⟨rs, records, flushed, kept, unfinished⟩ := run.secured opened (by rw [hfirst]; omega)
  refine ⟨rs, records, hfirst ▸ flushed, kept, fun before behind id hlog granted => ?_⟩
  obtain ⟨front, groups, awaited⟩ := run.awaited opened hlog granted
  have sealed := run.sealed_prefix opened
  constructor
  · intro other n numbered
    obtain ⟨q, run_q, -, -⟩ := run.split_asked hlog
    obtain ⟨timestamp, payload, hasked, he⟩ :=
      run_q.event_of_numbered (fresh_of_start opened) numbered
    exact ⟨timestamp, payload, hasked, awaited.carries sealed records flushed he⟩
  · intro quiet unclosed
    have last : log.entered = before.entered ++ [.flush id] := by
      rw [hlog, History.entered_append, ← quiet]
      rfl
    obtain ⟨hrow, hevents, storable, rfl⟩ := awaited.records_eq last sealed records flushed
    rw [hfirst] at hrow
    rw [hbytes]
    have hid := (Options.of_check accepted).2.2.2.1
    refine level_of_bytes_eq wf hid hrow awaited.group hevents storable (by omega) ?_
    -- the file holds all the records, and nothing else
    rw [← hbytes]
    exact (unfinished unclosed).eq_of_length_le (kept [] p .start).length_le

/-- A flush is granted on a file that has room for little more than one record: the reader finds the
event in it that was written before. -/
theorem flush_secures_one :
    ∃ sink totals storage' origin log p read,
      Storage.openFor ⟨"log", .regular, none⟩ .none .truncate = (.ok (sink, totals), storage') ∧
      Pipeline.start ⟨1, 64, 1, 64, .identity⟩ { sink with refusal := (Sink.limited 100).refusal }
        totals = .ok origin ∧
      Run origin log p ∧ .answered 1 (.ok (.numbered 0)) ∈ log ∧
      .answered 2 (.ok .flushed) ∈ log ∧ p.closedFile = none ∧
      Log.read p.file.bytes = .ok read ∧ read.footer = none ∧
      read.events .builtin = .ok [⟨0, 5, [7]⟩] := by
  obtain ⟨sink, totals, storage', hopen, hruns⟩ := @flush_secures
    ⟨1, 64, 1, some 64, .identity⟩ ⟨1, 64, 1, 64, .identity⟩ ⟨"log", .regular, none⟩ .truncate []
    rfl rfl (Or.inl ⟨rfl, rfl⟩)
  obtain ⟨origin, opened, hrun⟩ := hruns (Sink.limited 100).refusal
  obtain ⟨-, horigin⟩ := eq_of_start opened
  obtain ⟨rfl, rfl⟩ : sink = .reliable .empty ∧ totals = .zero := by
    have := congrArg Prod.fst hopen
    cases this
    exact ⟨rfl, rfl⟩
  obtain ⟨c, r, p, hturns, hunclosed⟩ : ∃ c r p, follow?
      [.arrive 1 (.write 5 [7]), .step (.call 1), .step (.call 1), .step (.call 1),
        .step .batcher, .arrive 2 .flush, .step (.call 2), .step (.call 2), .step .batcher,
        .step .batcher, .step .batcher, .step .batcher, .step (.call 2), .step (.call 2),
        .step (.worker 0), .step (.worker 0), .step (.worker 0), .step (.worker 0),
        .step .scribe, .step .scribe, .step .scribe, .step .scribe, .step .scribe,
        .step (.call 2)] [] origin =
      some ([.asked 1 (.write 5 [7]), .entered 1 (.event ⟨0, 5, [7]⟩),
        .answered 1 (.ok (.numbered 0)), .obeyed (.event ⟨0, 5, [7]⟩), .asked 2 .flush,
        .entered 2 (.flush 2), .obeyed (.flush 2), .sealed c, .taken r,
        .answered 2 (.ok .flushed)], p) ∧ p.closedFile = none := by
    rw [horigin]
    exact ⟨_, _, _, rfl, rfl⟩
  have run := Run.start.follow hturns
  have hfew : 0 + 1 < UInt64.size := by decide
  obtain ⟨rs, -, -, -, hflush⟩ := hrun _ p run hfew
  obtain ⟨-, hlevel⟩ := hflush
    [.asked 1 (.write 5 [7]), .entered 1 (.event ⟨0, 5, [7]⟩), .answered 1 (.ok (.numbered 0)),
      .obeyed (.event ⟨0, 5, [7]⟩)] _ 2 rfl (by simp)
  obtain ⟨read, more, hread, hfooter, -, -, hevents⟩ := (hlevel rfl hunclosed).read
  exact ⟨_, _, storage', origin, _, p, read, hopen, opened, run, by simp, by simp, hunclosed, hread,
    hfooter, hevents .builtin ⟨0, [], none⟩ [] (Codec.plain_faithful 0) rfl rfl rfl⟩

end Pipeline

end TraceLog
