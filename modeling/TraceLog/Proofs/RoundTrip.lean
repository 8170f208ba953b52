/-
**What is written is read.**

The bytes of finished records are a file of the grammar, so that the reader accepts them; the stored
bytes of a record are restored by the codec that made them, and the frames in it are taken apart
into the events that were put in.  Put together, the reader returns the events that the builder was
given.

Main definitions:

* `Layout.ofRecords` — the layout of the file that is made of some records;
* `Layout.unfinished` — the layout of a file that lacks a footer.

Main results:

* `Image.read_finished` — **finished records are accepted**;
* `Image.read_unfinished` — records without a footer are accepted as an unfinished file;
* `Entry.events_of_complete?` — **the events of a container are restored** from its record;
* `Log.read_ofCommands` — **the events of some commands are restored** from the file that they make.
-/

import TraceLog.Proofs.Grammar
import TraceLog.Proofs.Records

set_option relaxedAutoImplicit false
set_option autoImplicit false

namespace TraceLog

/-! ### Finished records -/

namespace Layout

/-- The layout of the file that is made of some records; nothing stands in reserved places. -/
def ofRecords (rs : List Record) (truncated : Bool) : Layout where
  slots := rs.map (Slot.mk 0)
  footer :=
    some (List.replicate Footer.reservedSize 0, Footer.ofTotals (Image.totals rs) truncated)

theorem headers_ofRecords (rs : List Record) (truncated : Bool) :
    (ofRecords rs truncated).headers = rs.map (·.header) := by
  simp [headers, ofRecords]

theorem bytes_ofRecords (rs : List Record) (truncated : Bool) :
    (ofRecords rs truncated).bytes = Image.finished rs truncated := by
  rw [Image.finished, bytes, Footer.encode_eq_encodeWith]
  simp only [ofRecords, footerBytes, slotBytes, Image.unfinished, List.flatMap_map]
  rfl

/-- Complete records with numbers from zero on make a log file. -/
theorem wellFormed_ofRecords {rs : List Record} (truncated : Bool)
    (complete : ∀ r ∈ rs, r.data.length = r.header.storedSize.toNat)
    (numbered : rs.map (·.sequence.toNat) = List.range rs.length) :
    (ofRecords rs truncated).WellFormed where
  complete s hs := by
    obtain ⟨r, hr, rfl⟩ := List.mem_map.1 hs
    exact complete r hr
  numbered := by
    rw [ofRecords, List.map_map, List.length_map, ← numbered]
    rfl
  footer := by
    rintro reserved f ⟨⟩
    exact Footer.sound_ofTotals _ truncated
  totals := by
    rintro reserved f ⟨⟩
    rw [headers_ofRecords]
    rfl

end Layout

/-- **Finished records are accepted.** -/
theorem Image.read_finished {rs : List Record} (truncated : Bool)
    (complete : ∀ r ∈ rs, r.data.length = r.header.storedSize.toNat)
    (numbered : rs.map (·.sequence.toNat) = List.range rs.length) :
    Log.read (finished rs truncated) = .ok (Layout.ofRecords rs truncated).log :=
  Log.read_eq_ok_iff.2 ⟨_, Layout.wellFormed_ofRecords truncated complete numbered,
    Layout.bytes_ofRecords rs truncated, rfl⟩

/-- The layout of a file that was not finished. -/
def Layout.unfinished (rs : List Record) : Layout := ⟨rs.map (Slot.mk 0), none⟩

theorem Layout.bytes_unfinished (rs : List Record) :
    (unfinished rs).bytes = Image.unfinished rs := by
  simp only [bytes, unfinished, footerBytes, slotBytes, Image.unfinished, List.flatMap_map,
    List.append_nil]
  rfl

/-- Complete records with numbers from zero on make a log file without a footer. -/
theorem Layout.wellFormed_unfinished {rs : List Record}
    (complete : ∀ r ∈ rs, r.data.length = r.header.storedSize.toNat)
    (numbered : rs.map (·.sequence.toNat) = List.range rs.length) :
    (unfinished rs).WellFormed := by
  have hcut := (wellFormed_ofRecords false complete numbered).cut rs.length
  have hall : (rs.map (Slot.mk 0)).take rs.length = rs.map (Slot.mk 0) :=
    List.take_of_length_le (by simp)
  rwa [cut, ofRecords, hall] at hcut

/-- **Records without a footer are accepted** as an unfinished file. -/
theorem Image.read_unfinished {rs : List Record}
    (complete : ∀ r ∈ rs, r.data.length = r.header.storedSize.toNat)
    (numbered : rs.map (·.sequence.toNat) = List.range rs.length) :
    Log.read (unfinished rs) = .ok (Layout.unfinished rs).log :=
  Log.read_eq_ok_iff.2
    ⟨_, Layout.wellFormed_unfinished complete numbered, Layout.bytes_unfinished rs, rfl⟩

/-- The reader finds the records that stand in a file. -/
theorem Slot.map_record_entriesFrom (offset : Nat) (slots : List Slot) :
    (entriesFrom offset slots).map (fun e => Record.mk e.header e.stored) =
      slots.map (·.record) := by
  induction slots generalizing offset with
  | nil => rfl
  | cons s slots ih => rw [entriesFrom, List.map_cons, ih, List.map_cons]; rfl

/-- The reader finds the records of an unfinished file. -/
theorem Layout.map_record_log_unfinished (rs : List Record) :
    (unfinished rs).log.entries.map (fun e => Record.mk e.header e.stored) = rs := by
  rw [log, Slot.map_record_entriesFrom, unfinished, List.map_map]
  exact List.map_id' rs

/-- The totals that a reader computes are those in the footer. -/
theorem Layout.totals_log_ofRecords (rs : List Record) (truncated : Bool) :
    (ofRecords rs truncated).log.totals = Image.totals rs := by
  rw [Log.totals, Log.totalsOf, log, Slot.headers_entriesFrom, Image.totals, ofRecords,
    List.map_map]
  rfl

/-- The numbers that a reader finds are those of the records. -/
theorem Layout.map_sequence_log_ofRecords (rs : List Record) (truncated : Bool) :
    (ofRecords rs truncated).log.entries.map (·.header.sequence.toNat) =
      rs.map (·.sequence.toNat) := by
  have hheaders := Slot.headers_entriesFrom 0 (rs.map (Slot.mk 0))
  have hnumbers := congrArg (List.map fun h : Header => h.sequence.toNat) hheaders
  rw [List.map_map, List.map_map, List.map_map] at hnumbers
  exact hnumbers

/-! ### Records are restored -/

/-- The tag of a record holds the id of its codec. -/
theorem CodecTag.id_ofId {id : UInt8} (h : id.toNat ≤ maxCodecId) : (ofId id).id = id := by
  -- Few ids can be registered, so all of them are tried.
  have hall : ∀ n ≤ maxCodecId, (ofId (UInt8.ofNat n)).id = UInt8.ofNat n := by decide
  simpa using hall id.toNat h

namespace Entry

/-- **The events of a container are restored** from its record, by a codec that keeps its
contract. -/
theorem events_of_complete? {codec : Codec} {registry : Registry} {sequence : Nat}
    {es : List Event} {record : Record} (hid : codec.id.toNat ≤ maxCodecId)
    (faithful : codec.Faithful) (hget : registry.get codec.id = .ok codec)
    (hlt : es.length < UInt32.size)
    (hrecord : (Container.ofEvents sequence es).complete? codec = some (.done record))
    (offset : Nat) :
    events ⟨offset, record.header, record.data⟩ registry = .ok es := by
  obtain ⟨answer, hanswer, hraw, -, rfl⟩ := Container.complete?_eq_done_iff.1 hrecord
  obtain ⟨hrestored, hshown⟩ := faithful _ answer hanswer
  rw [Container.bytes_ofEvents] at hrestored hshown
  rw [Container.length_ofEvents] at hraw
  have hraw' : (UInt32.ofNat (es.flatMap Event.encode).length).toNat =
      (es.flatMap Event.encode).length := UInt32.toNat_ofNat_of_lt' hraw
  -- A payload lies within the framed bytes, and these have been counted in 32 bits.
  have hpayload (e : Event) (he : e ∈ es) : e.payload.length < UInt64.size := by
    have hle := Event.length_payload_le he
    simp only [UInt32.size, UInt64.size] at hraw ⊢
    omega
  have hcount := UInt32.toNat_ofNat_of_lt' hlt
  simp only [events, payload, Container.recordOf, CodecTag.id_ofId hid, hget,
    Container.bytes_ofEvents, Container.length_ofEvents, Container.eventCount_ofEvents, hshown,
    hrestored, hraw', Event.decodeAll_flatMap_encode hpayload, hcount, ne_eq, not_true_eq_false,
    if_false]

end Entry

/-- The events of a row of containers are restored from their records. -/
theorem Slot.mapM_events_entriesFrom {codec : Codec} {registry : Registry} {first : Nat}
    {groups : List (List Event)} (hid : codec.id.toNat ≤ maxCodecId) (faithful : codec.Faithful)
    (hget : registry.get codec.id = .ok codec) (hgroups : ∀ g ∈ groups, Event.Group g)
    (storable : ∀ c ∈ Container.row first groups, c.Storable codec) (offset : Nat) :
    (entriesFrom offset ((Image.records codec (Container.row first groups)).map (Slot.mk 0))).mapM
      (fun (e : Entry) => e.events registry) = .ok groups := by
  induction groups generalizing first offset with
  | nil => rfl
  | cons es groups ih =>
      rw [Container.row] at storable
      obtain ⟨record, hrecord⟩ := Container.storable_iff.1 (storable _ List.mem_cons_self)
      have hes := Entry.events_of_complete? hid faithful hget
        (hgroups es List.mem_cons_self).length_lt hrecord offset
      have hrest := ih (fun g hg => hgroups g (List.mem_cons_of_mem es hg))
        (fun c hc => storable c (List.mem_cons_of_mem _ hc))
        (offset + record.header.recordLength)
      rw [Container.row, Image.records_cons hrecord, List.map_cons, entriesFrom, List.mapM_cons,
        entryAt, hes, hrest]
      rfl

/-- The events in the first of the records of a row are restored. -/
theorem Slot.mapM_events_of_prefix {codec : Codec} {registry : Registry} {first : Nat}
    {groups : List (List Event)} {rs : List Record} (hid : codec.id.toNat ≤ maxCodecId)
    (faithful : codec.Faithful) (hget : registry.get codec.id = .ok codec)
    (hgroups : ∀ g ∈ groups, Event.Group g)
    (front : rs <+: Image.records codec (Container.row first groups)) (offset : Nat) :
    (entriesFrom offset (rs.map (Slot.mk 0))).mapM (fun (e : Entry) => e.events registry) =
      .ok (groups.take rs.length) := by
  obtain ⟨hrs, hstorable⟩ := Image.eq_records_of_prefix front
  have hentries := mapM_events_entriesFrom hid faithful hget
    (fun g hg => hgroups g (List.mem_of_mem_take hg)) hstorable offset
  rwa [← hrs] at hentries

/-! ### The round trip -/

/-- Events that are numbered from zero are no more than there are numbers. -/
theorem Event.length_le_of_numbered {es : List Event}
    (numbered : es.map (·.sequence.toNat) = List.range es.length) : es.length ≤ UInt64.size := by
  rcases Nat.lt_or_ge UInt64.size es.length with hlong | hle
  · have hmem : UInt64.size ∈ es.map (·.sequence.toNat) := by
      rw [numbered]
      exact List.mem_range.2 hlong
    obtain ⟨e, -, he⟩ := List.mem_map.1 hmem
    exact absurd he (Nat.ne_of_lt e.sequence.toNat_lt)
  · exact hle

/-- The totals of events are the numbers themselves, as long as the framed bytes can be counted in
64 bits. -/
theorem Totals.toNat_ofEvents {containers : Nat} {es : List Event}
    (hcontainers : containers ≤ es.length)
    (hlt : (es.flatMap Event.encode).length < UInt64.size) :
    (ofEvents containers es).containers.toNat = containers ∧
      (ofEvents containers es).events.toNat = es.length ∧
      (ofEvents containers es).rawBytes.toNat = (es.flatMap Event.encode).length := by
  have hthird := Event.three_mul_length_le es
  exact ⟨UInt64.toNat_ofNat_of_lt' (by omega), UInt64.toNat_ofNat_of_lt' (by omega),
    UInt64.toNat_ofNat_of_lt' hlt⟩

/-- **The events of some commands are restored** from the file that they make.

For any threshold, any commands with events numbered from zero, and any codec that keeps its
contract under an id that can be registered, if all the containers can be stored: the reader accepts
the file as complete, returns the events in their order, finds the numbers of the containers from
zero on, and computes the totals of the events, which the footer holds as well.  The counters are
the numbers themselves as long as the framed bytes can be counted. -/
theorem Log.read_ofCommands {codec : Codec} {threshold : UInt32} {commands : List Command}
    (hid : codec.id.toNat ≤ maxCodecId) (faithful : codec.Faithful)
    (numbered : (Command.events commands).map (·.sequence.toNat) =
      List.range (Command.events commands).length)
    (storable : ∀ c ∈ (Builder.start threshold 0).batches commands, c.Storable codec) :
    ∃ registry log, Registry.builtin.register codec = .ok registry ∧
      read (Image.ofCommands codec threshold commands) = .ok log ∧
      log.isComplete = true ∧
      log.events registry = .ok (Command.events commands) ∧
      log.entries.map (·.header.sequence.toNat) =
        List.range ((Builder.start threshold 0).batches commands).length ∧
      log.totals = .ofEvents ((Builder.start threshold 0).batches commands).length
        (Command.events commands) ∧
      log.footer.map (·.totals) = some log.totals ∧
      (((Command.events commands).flatMap Event.encode).length < UInt64.size →
        log.totals.containers.toNat = ((Builder.start threshold 0).batches commands).length ∧
        log.totals.events.toNat = (Command.events commands).length ∧
        log.totals.rawBytes.toNat = ((Command.events commands).flatMap Event.encode).length) := by
  obtain ⟨groups, hbatches, hgroups, hevents, -⟩ :=
    Builder.exists_batches_eq_row threshold 0 commands
  have hregister : Registry.builtin.register codec = .ok ⟨codec :: Registry.builtin.codecs⟩ := by
    rw [Registry.register, if_neg (by omega)]
  have hlen : groups.flatten.length ≤ UInt64.size := by
    rw [hevents]
    exact Event.length_le_of_numbered numbered
  have hcontainers := Totals.length_le_length_flatten hgroups
  rw [Image.ofCommands, hbatches, ← hevents, Container.length_row]
  rw [hbatches] at storable
  -- From here on the records matter by their number, their numbers and their lengths only.
  generalize hrs : Image.records codec (Container.row 0 groups) = rs
  have hlength : rs.length = groups.length := by
    rw [← hrs, Image.length_records storable, Container.length_row]
  have hnumbers : rs.map (·.sequence.toNat) = List.range rs.length := by
    rw [← hrs, Image.map_toNat_sequence_records storable (by omega), hrs, hlength,
      List.range_eq_range']
  have hcomplete : ∀ r ∈ rs, r.data.length = r.header.storedSize.toNat := by
    intro r hr
    rw [← hrs] at hr
    obtain ⟨c, -, hc⟩ := Image.exists_of_mem_records hr
    exact Container.length_data_of_complete? hc
  have hread := Image.read_finished false hcomplete hnumbers
  have htotals : (Layout.ofRecords rs false).log.totals =
      .ofEvents groups.length groups.flatten := by
    rw [Layout.totals_log_ofRecords, ← hrs, Totals.ofHeaders_eq_ofEvents hgroups storable hlen]
  refine ⟨_, _, hregister, hread, ?_, ?_, ?_, htotals, ?_, ?_⟩
  · simp [Log.isComplete, Layout.log, Layout.ofRecords, Footer.isTruncated_ofTotals]
  · have hget := Registry.get_register hregister
    have hentries := Slot.mapM_events_entriesFrom hid faithful hget hgroups storable 0
    rw [hrs] at hentries
    rw [Log.events, Layout.log, Layout.ofRecords, hentries]
    rfl
  · rw [Layout.map_sequence_log_ofRecords, hnumbers, hlength]
  · rw [Layout.totals_log_ofRecords]
    rfl
  · intro hlt
    rw [htotals]
    exact Totals.toNat_ofEvents hcontainers hlt

/-- Two events with a flush between them come back from two containers. -/
theorem Log.read_ofCommands_flushed :
    ∃ registry log, Registry.builtin.register (.plain 3) = .ok registry ∧
      read (Image.ofCommands (.plain 3) 64
        [.event ⟨0, 7, [1, 2]⟩, .flush 0, .event ⟨1, 9, []⟩]) = .ok log ∧
      log.events registry = .ok [⟨0, 7, [1, 2]⟩, ⟨1, 9, []⟩] ∧
      log.entries.map (·.header.sequence.toNat) = [0, 1] := by
  have hsmall : ∀ c ∈ (Builder.start 64 0).batches
      [.event ⟨0, 7, [1, 2]⟩, .flush 0, .event ⟨1, 9, []⟩], c.length < UInt32.size := by decide
  obtain ⟨registry, log, hregister, hread, -, hevents, hnumbers, -⟩ :=
    read_ofCommands (by decide) (Codec.plain_faithful 3) (by decide)
      fun c hc => Container.storable_plain (hsmall c hc)
  exact ⟨registry, log, hregister, hread, hevents, hnumbers⟩

end TraceLog
