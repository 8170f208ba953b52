/-
**Counts agree.**

How many events a file holds is said in several places: by the headers of its records, whose sum is
what a report shows; by the totals that the reader computes from them; by the footer; and by the
frames themselves, once a codec has restored them.  The reader compares the headers with the footer
while it walks over the file, and with the frames when it restores a container.  So all of them say
the same of a file that was accepted and whose events were returned, whatever it holds and whichever
codecs are known, and a record of which the header says anything else keeps its events from being
returned.

Main definitions:

* `Content`, `Entry.Restores` — the framed bytes of a container with the events in them; a record
  from which they are restored, as many as its header says;
* `Entry.Broken` — why nothing is restored from a record;
* `ContainerReport.Describes` — what a report says of a record is what its header says.

Main results:

* `Entry.events_eq_ok_iff`, `Entry.events_eq_error_iff` — when the events of a record are returned,
  and which;
* `Log.events_eq_ok_iff`, `Log.events_eq_error_iff` — the same for all the events of a file;
* `Log.counts_agree` — **the counts agree along all the ways to read a file**.
-/

import TraceLog.Proofs.RoundTrip
import TraceLog.Report
import Mathlib.Data.List.Forall2

set_option relaxedAutoImplicit false
set_option autoImplicit false

namespace TraceLog

/-! ### One record -/

/-- The framed bytes of a container, with the events in them. -/
structure Content where
  payload : Bytes
  events : List Event

namespace Entry

/-- A container is restored from a record, and it is as the header of the record says. -/
structure Restores (registry : Registry) (e : Entry) (content : Content) : Prop where
  decompressed : ∃ codec, registry.get e.header.tag.id = .ok codec ∧
    codec.decompress e.stored = .ok content.payload
  size : content.payload.length = e.header.rawSize.toNat
  frames : Event.decodeAll content.payload = .ok content.events
  count : content.events.length = e.header.eventCount.toNat

/-- Why nothing is restored from a record: there is no codec for it, the codec refuses the stored
bytes, what it makes of them has another length than the header says, or is no row of frames, or
holds another number of events than the header says. -/
inductive Broken (registry : Registry) (e : Entry) : Prop where
  | unregistered {error : Error} (absent : registry.get e.header.tag.id = .error error)
  | refused {codec : Codec} {error : Error} (found : registry.get e.header.tag.id = .ok codec)
      (undone : codec.decompress e.stored = .error error)
  | otherSize {codec : Codec} {payload : Bytes} (found : registry.get e.header.tag.id = .ok codec)
      (restored : codec.decompress e.stored = .ok payload)
      (differs : payload.length ≠ e.header.rawSize.toNat)
  | torn {codec : Codec} {payload : Bytes} {fault : Event.Fault}
      (found : registry.get e.header.tag.id = .ok codec)
      (restored : codec.decompress e.stored = .ok payload)
      (cut : Event.decodeAll payload = .error fault)
  | otherCount {codec : Codec} {payload : Bytes} {events : List Event}
      (found : registry.get e.header.tag.id = .ok codec)
      (restored : codec.decompress e.stored = .ok payload)
      (frames : Event.decodeAll payload = .ok events)
      (differs : events.length ≠ e.header.eventCount.toNat)

variable {registry : Registry} {e : Entry}

/-- The framed bytes of a record are returned exactly if a codec makes them of the stored bytes, and
as many as the header says. -/
theorem payload_eq_ok_iff {payload : Bytes} :
    e.payload registry = .ok payload ↔
      (∃ codec, registry.get e.header.tag.id = .ok codec ∧
        codec.decompress e.stored = .ok payload) ∧
      payload.length = e.header.rawSize.toNat := by
  unfold Entry.payload
  cases hget : registry.get e.header.tag.id with
  | error error => simp
  | ok codec =>
      cases hrestored : codec.decompress e.stored with
      | error error => simp [hrestored]
      | ok restored =>
          by_cases hsize : restored.length = e.header.rawSize.toNat
          · simp only [hsize, ne_eq, not_true_eq_false, if_false, Except.ok.injEq,
              exists_eq_left', hrestored]
            constructor
            · rintro rfl
              exact ⟨rfl, hsize⟩
            · rintro ⟨rfl, -⟩
              rfl
          · simp only [ne_eq, hsize, not_false_eq_true, if_true, reduceCtorEq, Except.ok.injEq,
              exists_eq_left', hrestored, false_iff, not_and]
            rintro rfl
            exact hsize

/-- **When the events of a record are returned**, and which. -/
theorem events_eq_ok_iff {events : List Event} :
    e.events registry = .ok events ↔ ∃ payload, e.Restores registry ⟨payload, events⟩ := by
  unfold Entry.events
  constructor
  · intro h
    split at h
    · cases h
    rename_i payload hpayload
    split at h
    · cases h
    rename_i found hframes
    split at h
    · cases h
    rename_i hcount
    cases h
    obtain ⟨hrestored, hsize⟩ := payload_eq_ok_iff.1 hpayload
    exact ⟨payload, hrestored, hsize, hframes, not_not.1 hcount⟩
  · rintro ⟨payload, hrestored, hsize, hframes, hcount⟩
    have hpayload : e.payload registry = .ok payload := payload_eq_ok_iff.2 ⟨hrestored, hsize⟩
    simp only [hpayload, hframes, hcount, ne_eq, not_true_eq_false, if_false]

/-- From a broken record nothing is restored. -/
theorem Broken.not_restores (broken : e.Broken registry) (content : Content) :
    ¬ e.Restores registry content := by
  rintro ⟨⟨codec, hget, hrestored⟩, hsize, hframes, hcount⟩
  cases broken with
  | unregistered absent => simp [hget] at absent
  | refused found undone =>
      rw [hget, Except.ok.injEq] at found
      simp [← found, hrestored] at undone
  | otherSize found restored differs =>
      rw [hget, Except.ok.injEq] at found
      rw [← found, hrestored, Except.ok.injEq] at restored
      exact differs (restored ▸ hsize)
  | torn found restored cut =>
      rw [hget, Except.ok.injEq] at found
      rw [← found, hrestored, Except.ok.injEq] at restored
      simp [← restored, hframes] at cut
  | otherCount found restored frames differs =>
      rw [hget, Except.ok.injEq] at found
      rw [← found, hrestored, Except.ok.injEq] at restored
      rw [← restored, hframes, Except.ok.injEq] at frames
      exact differs (frames ▸ hcount)

/-- A record is broken, or a container is restored from it. -/
theorem broken_or_restores (registry : Registry) (e : Entry) :
    e.Broken registry ∨ ∃ content, e.Restores registry content := by
  cases hget : registry.get e.header.tag.id with
  | error error => exact Or.inl (.unregistered hget)
  | ok codec =>
  cases hrestored : codec.decompress e.stored with
  | error error => exact Or.inl (.refused hget hrestored)
  | ok payload =>
  by_cases hsize : payload.length = e.header.rawSize.toNat
  swap
  · exact Or.inl (.otherSize hget hrestored hsize)
  cases hframes : Event.decodeAll payload with
  | error fault => exact Or.inl (.torn hget hrestored hframes)
  | ok events =>
  by_cases hcount : events.length = e.header.eventCount.toNat
  · exact Or.inr ⟨⟨payload, events⟩, ⟨codec, hget, hrestored⟩, hsize, hframes, hcount⟩
  · exact Or.inl (.otherCount hget hrestored hframes hcount)

/-- **The events of a record are refused exactly if it is broken.** -/
theorem events_eq_error_iff :
    (∃ error, e.events registry = .error error) ↔ e.Broken registry := by
  constructor
  · rintro ⟨error, h⟩
    rcases broken_or_restores registry e with broken | ⟨⟨payload, events⟩, restores⟩
    · exact broken
    · rw [events_eq_ok_iff.2 ⟨payload, restores⟩] at h
      cases h
  · intro broken
    cases h : e.events registry with
    | error error => exact ⟨error, rfl⟩
    | ok events =>
        obtain ⟨payload, restores⟩ := events_eq_ok_iff.1 h
        exact absurd restores (broken.not_restores _)

end Entry

/-! ### All the records of a file -/

namespace Log

variable {registry : Registry}

/-- One after the other, the events of all records are returned exactly if each record gives its
own. -/
theorem mapM_events_eq_ok_iff {entries : List Entry} {groups : List (List Event)} :
    entries.mapM (fun (e : Entry) => e.events registry) = .ok groups ↔
      ∃ contents, List.Forall₂ (Entry.Restores registry) entries contents ∧
        contents.map (·.events) = groups := by
  induction entries generalizing groups with
  | nil => simp [pure, Except.pure, List.forall₂_nil_left_iff]
  | cons e entries ih =>
      rw [List.mapM_cons]
      constructor
      · intro h
        cases he : e.events registry with
        | error error => simp [he, bind, Except.bind] at h
        | ok events =>
            cases hrest : entries.mapM fun (e : Entry) => e.events registry with
            | error error => simp [he, hrest, bind, Except.bind] at h
            | ok rest =>
                simp only [he, hrest, bind, Except.bind, pure, Except.pure,
                  Except.ok.injEq] at h
                obtain ⟨payload, restores⟩ := Entry.events_eq_ok_iff.1 he
                obtain ⟨contents, all, rfl⟩ := ih.1 hrest
                exact ⟨⟨payload, events⟩ :: contents, .cons restores all, h⟩
      · rintro ⟨contents, all, rfl⟩
        cases all with
        | cons restores all =>
            rw [Entry.events_eq_ok_iff.2 ⟨_, restores⟩, ih.2 ⟨_, all, rfl⟩]
            rfl

/-- The events of all records are refused exactly if one of the records is broken. -/
theorem mapM_events_eq_error_iff {entries : List Entry} :
    (∃ error, entries.mapM (fun (e : Entry) => e.events registry) = .error error) ↔
      ∃ e ∈ entries, e.Broken registry := by
  induction entries with
  | nil => simp [pure, Except.pure]
  | cons e entries ih =>
      rw [List.mapM_cons, List.exists_mem_cons_iff, ← Entry.events_eq_error_iff, ← ih]
      cases he : e.events registry with
      | error error => simp [bind, Except.bind]
      | ok events =>
          cases hrest : entries.mapM fun (e : Entry) => e.events registry <;>
            simp [bind, Except.bind, pure, Except.pure]

/-- **When the events of a file are returned**, and which: those of its records, in file order. -/
theorem events_eq_ok_iff {log : Log} {events : List Event} :
    log.events registry = .ok events ↔
      ∃ contents, List.Forall₂ (Entry.Restores registry) log.entries contents ∧
        contents.flatMap (·.events) = events := by
  unfold Log.events
  cases h : log.entries.mapM fun (e : Entry) => e.events registry with
  | error error =>
      simp only [Except.map, reduceCtorEq, false_iff, not_exists, not_and]
      intro contents all
      rw [mapM_events_eq_ok_iff.2 ⟨contents, all, rfl⟩] at h
      cases h
  | ok groups =>
      simp only [Except.map, Except.ok.injEq]
      constructor
      · rintro rfl
        obtain ⟨contents, all, rfl⟩ := mapM_events_eq_ok_iff.1 h
        exact ⟨contents, all, rfl⟩
      · rintro ⟨contents, all, rfl⟩
        rw [mapM_events_eq_ok_iff.2 ⟨contents, all, rfl⟩, Except.ok.injEq] at h
        rw [← h, List.flatMap_def]

/-- **The events of a file are refused exactly if one of its records is broken.** -/
theorem events_eq_error_iff {log : Log} :
    (∃ error, log.events registry = .error error) ↔ ∃ e ∈ log.entries, e.Broken registry := by
  rw [← mapM_events_eq_error_iff]
  unfold Log.events
  cases log.entries.mapM fun (e : Entry) => e.events registry <;> simp [Except.map]

/-- Restored containers hold as many events, and as many bytes, as the headers say. -/
theorem sums_of_restores {entries : List Entry} {contents : List Content}
    (all : List.Forall₂ (Entry.Restores registry) entries contents) :
    (entries.map (·.header.eventCount.toNat)).sum = (contents.flatMap (·.events)).length ∧
      (entries.map (·.header.rawSize.toNat)).sum = (contents.map (·.payload.length)).sum := by
  induction all with
  | nil => exact ⟨rfl, rfl⟩
  | cons restores _ ih =>
      simp only [List.map_cons, List.sum_cons, List.flatMap_cons, List.length_append, ih.1, ih.2,
        restores.count, restores.size, and_self]

/-- The counters of the reader hold what the headers add up to, modulo 2^64. -/
theorem totals_eq_sums (log : Log) :
    log.totals.containers = UInt64.ofNat log.entries.length ∧
      log.totals.events = UInt64.ofNat (log.entries.map (·.header.eventCount.toNat)).sum ∧
      log.totals.rawBytes = UInt64.ofNat (log.entries.map (·.header.rawSize.toNat)).sum := by
  rw [totals, totalsOf, Totals.containers_ofHeaders, Totals.events_ofHeaders,
    Totals.rawBytes_ofHeaders, List.length_map, List.map_map, List.map_map]
  exact ⟨rfl, rfl, rfl⟩

end Log

/-! ### Reports -/

/-- What a report says of a record is where it stands and what its header says. -/
structure ContainerReport.Describes (report : ContainerReport) (e : Entry) : Prop where
  offset : report.offset = e.offset
  sequence : report.sequence = e.header.sequence
  eventCount : report.eventCount = e.header.eventCount
  firstTimestamp : report.firstTimestamp = e.header.firstTimestamp
  lastTimestamp : report.lastTimestamp = e.header.lastTimestamp
  rawSize : report.rawSize = e.header.rawSize
  storedSize : report.storedSize = e.header.storedSize
  codec : report.codec = Registry.nameOf e.header.tag.id

namespace Report

/-- A report describes the records of a file in file order. -/
theorem describes_ofLog (log : Log) :
    List.Forall₂ ContainerReport.Describes (ofLog log).containers log.entries := by
  rw [ofLog, List.forall₂_map_left_iff, List.forall₂_same]
  intro e _
  exact ⟨rfl, rfl, rfl, rfl, rfl, rfl, rfl, rfl⟩

/-- It shows as many events as the reader counts. -/
theorem eventCount_ofLog (log : Log) : (ofLog log).eventCount = log.totals.events := by
  rw [Log.totals, Log.totalsOf, Totals.ofHeaders, List.foldl_map]
  change List.foldl _ Totals.zero.events _ = _
  exact List.foldl_hom Totals.events fun _ _ => rfl

end Report

/-! ### The counts agree -/

namespace Log

/-- **The counts agree along all the ways to read a file.**

For any bytes that the reader accepts and any codecs that it knows.  If it returns events, then from
every record a container was restored, with the length and the number of events that the header
says, and the events are those of the containers, in file order.  A report shows the number that the
totals hold, and this is the number of the events, as the totals hold that of the bytes of the
containers, each as long as 64 bits suffice; a footer holds these totals.  It returns an error
exactly if one of the records is broken.  The headers and the stored bytes are those that stand at
the offsets, and a report lists all of them. -/
theorem counts_agree {bs : Bytes} {log : Log} (accepted : read bs = .ok log)
    (registry : Registry) :
    (∀ events, log.events registry = .ok events →
      ∃ contents, List.Forall₂ (Entry.Restores registry) log.entries contents ∧
        events = contents.flatMap (·.events) ∧
        (Report.ofLog log).eventCount = UInt64.ofNat events.length ∧
        log.totals.events = UInt64.ofNat events.length ∧
        (events.length < UInt64.size →
          (Report.ofLog log).eventCount.toNat = events.length ∧
            log.totals.events.toNat = events.length) ∧
        ((contents.map (·.payload.length)).sum < UInt64.size →
          log.totals.rawBytes.toNat = (contents.map (·.payload.length)).sum)) ∧
    ((∃ error, log.events registry = .error error) ↔ ∃ e ∈ log.entries, e.Broken registry) ∧
    (∀ e ∈ log.entries, Header.decode (bs.drop e.offset) = .ok e.header ∧
      e.stored = (bs.drop (e.offset + Header.size)).take e.header.storedSize.toNat) ∧
    List.Forall₂ ContainerReport.Describes (Report.ofLog log).containers log.entries ∧
    (log.entries.length < UInt64.size →
      log.totals.containers.toNat = log.entries.length) ∧
    ∀ footer, log.footer = some footer → footer.totals = log.totals := by
  obtain ⟨l, wf, rfl, rfl⟩ := read_eq_ok_iff.1 accepted
  obtain ⟨hcontainers, hevents, hrawBytes⟩ := totals_eq_sums l.log
  refine ⟨?_, events_eq_error_iff, ?_, Report.describes_ofLog l.log, ?_, ?_⟩
  · intro events h
    obtain ⟨contents, all, rfl⟩ := events_eq_ok_iff.1 h
    obtain ⟨hcount, hsize⟩ := sums_of_restores all
    rw [hcount] at hevents
    have hreport := (Report.eventCount_ofLog l.log).trans hevents
    refine ⟨contents, all, rfl, hreport, hevents, ?_, ?_⟩
    · intro few
      rw [hreport, hevents, UInt64.toNat_ofNat_of_lt' few]
      exact ⟨rfl, rfl⟩
    · intro few
      rw [hrawBytes, hsize, UInt64.toNat_ofNat_of_lt' few]
  · intro e he
    exact ⟨Layout.decode_header wf he, (Layout.stored_eq wf he).2⟩
  · intro few
    rw [hcontainers, UInt64.toNat_ofNat_of_lt' few]
  · intro footer hfooter
    obtain ⟨⟨reserved, f⟩, hf, rfl⟩ := Option.map_eq_some_iff.1 hfooter
    rw [totals, totalsOf, Layout.log, Slot.headers_entriesFrom]
    exact wf.totals reserved f hf

/-- Two records of different codecs: their two events are counted in all places, as long as the
reader knows both codecs. -/
theorem counts_agree_mixed :
    ∃ registry log, Registry.builtin.register (.xor 85 3) = .ok registry ∧
      read (Image.finished [⟨⟨.ofId 0, 0, 1, 3, 3, 4, 4⟩, [0, 3, 1, 8]⟩,
        ⟨⟨.ofId 3, 1, 1, 5, 5, 3, 3⟩, [84, 80, 85]⟩] false) = .ok log ∧
      log.events registry = .ok [⟨0, 3, [8]⟩, ⟨1, 5, []⟩] ∧
      (Report.ofLog log).eventCount = 2 ∧ log.totals.events.toNat = 2 ∧
      log.totals.rawBytes.toNat = 7 ∧ (∃ error, log.events .builtin = .error error) ∧
      ∀ footer, log.footer = some footer → footer.totals = log.totals := by
  have hregister : Registry.builtin.register (.xor 85 3) =
      .ok ⟨.xor 85 3 :: Registry.builtin.codecs⟩ := rfl
  obtain ⟨log, hlog⟩ : ∃ log, log = (Layout.ofRecords [⟨⟨.ofId 0, 0, 1, 3, 3, 4, 4⟩, [0, 3, 1, 8]⟩,
    ⟨⟨.ofId 3, 1, 1, 5, 5, 3, 3⟩, [84, 80, 85]⟩] false).log := ⟨_, rfl⟩
  have hread : read (Image.finished [⟨⟨.ofId 0, 0, 1, 3, 3, 4, 4⟩, [0, 3, 1, 8]⟩,
      ⟨⟨.ofId 3, 1, 1, 5, 5, 3, 3⟩, [84, 80, 85]⟩] false) = .ok log := by
    rw [hlog]
    exact Image.read_finished false (by decide) (by decide)
  -- each of the two containers is restored by the codec that its record names
  have hframes (e : Event) (h : e.payload.length < UInt64.size) :
      Event.decodeAll e.encode = .ok [e] := by
    simpa using Event.decodeAll_flatMap_encode (List.forall_mem_singleton.2 h)
  have hentries : List.Forall₂ (Entry.Restores ⟨.xor 85 3 :: Registry.builtin.codecs⟩) log.entries
      [⟨[0, 3, 1, 8], [⟨0, 3, [8]⟩]⟩, ⟨[1, 5, 0], [⟨1, 5, []⟩]⟩] := by
    rw [hlog]
    exact .cons ⟨⟨.identity, rfl, rfl⟩, rfl, hframes ⟨0, 3, [8]⟩ (by decide), rfl⟩
      (.cons ⟨⟨.xor 85 3, rfl, rfl⟩, rfl, hframes ⟨1, 5, []⟩ (by decide), rfl⟩ .nil)
  have hevents : log.events ⟨.xor 85 3 :: Registry.builtin.codecs⟩ =
      .ok [⟨0, 3, [8]⟩, ⟨1, 5, []⟩] :=
    events_eq_ok_iff.2 ⟨_, hentries, rfl⟩
  obtain ⟨hcounts, -, -, -, -, hfooter⟩ := counts_agree hread ⟨.xor 85 3 :: _⟩
  obtain ⟨contents, -, -, hreport, -, hfew, -⟩ := hcounts _ hevents
  obtain ⟨-, hbroken, -⟩ := counts_agree hread .builtin
  refine ⟨_, log, hregister, hread, hevents, hreport, (hfew (by decide)).2, ?_, hbroken.2 ?_,
    hfooter⟩
  · rw [hlog]
    decide
  · -- without the second codec, the second record is broken
    rw [hlog]
    exact ⟨_, List.mem_cons_of_mem _ List.mem_cons_self, .unregistered rfl⟩

end Log

end TraceLog
