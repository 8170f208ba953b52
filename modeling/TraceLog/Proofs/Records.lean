/-
**From containers to records.**

A worker turns a container into a record, if the codec answers and both sizes fit into the header.
This module says when that is so and what the record then consists of, and adds up what the records
of a row of containers say: their totals are those of the events inside.

Main definitions:

* `Container.Storable`, `Container.Fails` — the codec answers and the sizes fit; why they do not;
* `Container.recordOf` — the record of a container with given stored bytes;
* `Totals.ofEvents` — the totals of some events in some containers.

Main results:

* `Container.complete?_eq_done_iff` — **when there is a record**, and which one;
* `Image.map_complete?_eq` — the records of storable containers;
* `Image.prefix_records`, `Image.length_records_le`, `Image.numbers_of_prefix` — which records are
  the first ones, where they end, and how they are numbered;
* `Totals.events_ofHeaders`, `Totals.rawBytes_ofHeaders` — what the counters hold over any headers;
* `Totals.ofHeaders_eq_ofEvents` — **the totals of the records are those of the events**.
-/

import TraceLog.Image
import TraceLog.Proofs.Batches

set_option relaxedAutoImplicit false
set_option autoImplicit false

namespace TraceLog

/-! ### When there is a record -/

namespace Container

/-- The codec answers, and the sizes before and after it fit into the header of a record. -/
def Storable (codec : Codec) (c : Container) : Prop :=
  ∃ answer, codec.compress c.bytes = .done answer ∧ c.length < UInt32.size ∧
    (answer.stored c.bytes).length < UInt32.size

/-- The record of a container with given stored bytes. -/
def recordOf (codecId : UInt8) (data : Bytes) (c : Container) : Record where
  header :=
    { tag := .ofId codecId
      sequence := UInt64.ofNat c.sequence
      eventCount := c.eventCount
      firstTimestamp := c.firstTimestamp
      lastTimestamp := c.lastTimestamp
      rawSize := UInt32.ofNat c.length
      storedSize := UInt32.ofNat data.length }
  data := data

/-- **When there is a record**: the codec answered, and the sizes fit. -/
theorem complete?_eq_done_iff {codec : Codec} {c : Container} {record : Record} :
    c.complete? codec = some (.done record) ↔
      ∃ answer, codec.compress c.bytes = .done answer ∧ c.length < UInt32.size ∧
        (answer.stored c.bytes).length < UInt32.size ∧
        record = c.recordOf codec.id (answer.stored c.bytes) := by
  unfold complete?
  cases hc : codec.compress c.bytes with
  | failed error => simp
  | crashed => simp
  | done answer =>
      simp only [Compression.done.injEq, exists_eq_left']
      by_cases hraw : UInt32.size ≤ c.length
      · simp [Record.make, hraw, Nat.not_lt.2 hraw]
      by_cases hstored : UInt32.size ≤ (answer.stored c.bytes).length
      · simp [Record.make, hraw, hstored, Nat.not_lt.2 hstored]
      · simp only [Record.make, if_neg hraw, if_neg hstored, Option.some.injEq,
          Completion.done.injEq, Nat.lt_of_not_le hraw, Nat.lt_of_not_le hstored, true_and]
        exact eq_comm

theorem storable_iff {codec : Codec} {c : Container} :
    c.Storable codec ↔ ∃ record, c.complete? codec = some (.done record) := by
  constructor
  · rintro ⟨answer, hanswer, hraw, hstored⟩
    exact ⟨_, complete?_eq_done_iff.2 ⟨answer, hanswer, hraw, hstored, rfl⟩⟩
  · rintro ⟨record, h⟩
    obtain ⟨answer, hanswer, hraw, hstored, -⟩ := complete?_eq_done_iff.1 h
    exact ⟨answer, hanswer, hraw, hstored⟩

/-- A codec that keeps its input stores every container whose frames are counted in 32 bits. -/
theorem storable_plain {id : UInt8} {c : Container} (h : c.length < UInt32.size) :
    c.Storable (.plain id) :=
  ⟨.borrowed c.bytes, rfl, h, by simpa [Compressed.stored] using h⟩

/-- The record has as many stored bytes as its header says. -/
theorem length_data_of_complete? {codec : Codec} {c : Container} {record : Record}
    (h : c.complete? codec = some (.done record)) :
    record.data.length = record.header.storedSize.toNat := by
  obtain ⟨answer, -, -, hstored, rfl⟩ := complete?_eq_done_iff.1 h
  exact (UInt32.toNat_ofNat_of_lt' hstored).symm

theorem sequence_of_complete? {codec : Codec} {c : Container} {record : Record}
    (h : c.complete? codec = some (.done record)) :
    record.sequence = UInt64.ofNat c.sequence := by
  obtain ⟨answer, -, -, -, rfl⟩ := complete?_eq_done_iff.1 h
  rfl

/-- Why there is no record: the codec has refused the container, one of the sizes does not fit, or
the codec has crashed. -/
inductive Fails (codec : Codec) (c : Container) : Error → Prop where
  | refused {sequence : Nat} {error : Error}
      (completed : c.complete? codec = some (.failed sequence error)) : Fails codec c error
  | crashed (lost : c.complete? codec = none) : Fails codec c (.internal .workerCrashed)

end Container

/-! ### The records of storable containers -/

namespace Image

theorem records_cons {codec : Codec} {c : Container} {record : Record}
    (h : c.complete? codec = some (.done record)) (cs : List Container) :
    records codec (c :: cs) = record :: records codec cs := by
  rw [records, h]

/-- Storable containers have a record each. -/
theorem map_complete?_eq {codec : Codec} {cs : List Container}
    (storable : ∀ c ∈ cs, c.Storable codec) :
    cs.map (·.complete? codec) = (records codec cs).map fun r => some (.done r) := by
  induction cs with
  | nil => rfl
  | cons c cs ih =>
      obtain ⟨record, hrecord⟩ := Container.storable_iff.1 (storable c List.mem_cons_self)
      have hcs := ih fun c' hc' => storable c' (List.mem_cons_of_mem c hc')
      rw [records_cons hrecord, List.map_cons, List.map_cons, hrecord, hcs]

theorem length_records {codec : Codec} {cs : List Container}
    (storable : ∀ c ∈ cs, c.Storable codec) : (records codec cs).length = cs.length := by
  simpa using (congrArg List.length (map_complete?_eq storable)).symm

/-- There are no more records than containers. -/
theorem length_records_le_length (codec : Codec) (cs : List Container) :
    (records codec cs).length ≤ cs.length := by
  induction cs with
  | nil => exact Nat.le_refl 0
  | cons c cs ih =>
      rw [records]
      split
      · exact Nat.succ_le_succ ih
      · exact Nat.zero_le _

/-- Every record comes from a container. -/
theorem exists_of_mem_records {codec : Codec} {cs : List Container} {record : Record}
    (h : record ∈ records codec cs) : ∃ c ∈ cs, c.complete? codec = some (.done record) := by
  induction cs with
  | nil => simp [records] at h
  | cons c cs ih =>
      rw [records] at h
      split at h
      · rename_i r hr
        rcases List.mem_cons.1 h with rfl | h
        · exact ⟨c, List.mem_cons_self, hr⟩
        · obtain ⟨c', hc', hrecord⟩ := ih h
          exact ⟨c', List.mem_cons_of_mem c hc', hrecord⟩
      · simp at h

/-- The records stand in the order of their containers. -/
theorem getElem?_records {codec : Codec} {cs : List Container} {i : Nat} {record : Record}
    (h : (records codec cs)[i]? = some record) :
    ∃ c, cs[i]? = some c ∧ c.complete? codec = some (.done record) := by
  induction cs generalizing i with
  | nil => simp [records] at h
  | cons c cs ih =>
      rw [records] at h
      split at h
      · rename_i r hr
        cases i with
        | zero =>
            obtain rfl := Option.some.inj h
            exact ⟨c, rfl, hr⟩
        | succ i => exact ih h
      · simp at h

/-- Records that belong to the first containers, one by one, are the first of the records. -/
theorem prefix_records {codec : Codec} {cs : List Container} {rs : List Record}
    (h : ∀ (i : Nat) (r : Record), rs[i]? = some r →
      ∃ c, cs[i]? = some c ∧ c.complete? codec = some (.done r)) :
    rs <+: records codec cs := by
  induction rs generalizing cs with
  | nil => exact List.nil_prefix
  | cons r rs ih =>
      obtain ⟨c, hc, hr⟩ := h 0 r rfl
      obtain ⟨cs, rfl⟩ : ∃ rest, cs = c :: rest := by
        cases cs with
        | nil => cases hc
        | cons c' rest =>
            obtain rfl := Option.some.inj hc
            exact ⟨rest, rfl⟩
      rw [records_cons hr, List.cons_prefix_cons]
      exact ⟨rfl, ih fun i r' hr' => h (i + 1) r' hr'⟩

/-- More containers have no fewer records. -/
theorem records_prefix {codec : Codec} {cs cs' : List Container} (h : cs <+: cs') :
    records codec cs <+: records codec cs' := by
  refine prefix_records fun i r hr => ?_
  obtain ⟨c, hc, hrecord⟩ := getElem?_records hr
  obtain ⟨more, rfl⟩ := h
  exact ⟨c, by rw [List.getElem?_append_left (List.getElem?_eq_some_iff.1 hc).1, hc], hrecord⟩

/-- The first of the records are those of the first containers. -/
theorem take_records (codec : Codec) (cs : List Container) (count : Nat) :
    (records codec cs).take count = records codec (cs.take count) := by
  induction cs generalizing count with
  | nil => simp [records]
  | cons c cs ih =>
      cases count with
      | zero => simp [records]
      | succ count =>
          rw [List.take_succ_cons, records, records]
          split
          · rw [List.take_succ_cons, ih]
          · rfl

/-- There are no records behind a container that has none. -/
theorem length_records_le {codec : Codec} {cs : List Container} {i : Nat} {c : Container}
    (hc : cs[i]? = some c) (unstorable : ¬ c.Storable codec) : (records codec cs).length ≤ i := by
  by_contra hlt
  have hi : i < (records codec cs).length := by omega
  obtain ⟨c', hc', hrecord⟩ := getElem?_records (List.getElem?_eq_getElem hi)
  obtain rfl := Option.some.inj (hc.symm.trans hc')
  exact unstorable (Container.storable_iff.2 ⟨_, hrecord⟩)

/-- If there are as many records as containers, then all of these have one. -/
theorem storable_of_length_le {codec : Codec} {cs : List Container}
    (h : cs.length ≤ (records codec cs).length) : ∀ c ∈ cs, c.Storable codec := by
  intro c hc
  obtain ⟨i, hi⟩ := List.mem_iff_getElem?.1 hc
  by_contra hc'
  have hle := length_records_le hi hc'
  have hlt := (List.getElem?_eq_some_iff.1 hi).1
  omega

/-- So there are no more records than the number of such a container says, if the numbers run from
zero. -/
theorem length_records_le_sequence {codec : Codec} {groups : List (List Event)} {c : Container}
    (hc : c ∈ Container.row 0 groups) (unstorable : ¬ c.Storable codec) :
    (records codec (Container.row 0 groups)).length ≤ c.sequence := by
  obtain ⟨i, hi⟩ := List.mem_iff_getElem?.1 hc
  have hsequence : (List.range' 0 groups.length)[i]? = some c.sequence := by
    rw [← Container.map_sequence_row, List.getElem?_map, hi, Option.map_some]
  obtain ⟨hlt, hnumber⟩ := List.getElem?_eq_some_iff.1 hsequence
  rw [List.getElem_range', Nat.zero_add, Nat.one_mul] at hnumber
  rw [← hnumber]
  exact length_records_le hi unstorable

/-- The records of storable containers carry the numbers of the containers. -/
theorem map_sequence_records {codec : Codec} {cs : List Container}
    (storable : ∀ c ∈ cs, c.Storable codec) :
    (records codec cs).map (·.sequence) = cs.map fun c => UInt64.ofNat c.sequence := by
  induction cs with
  | nil => rfl
  | cons c cs ih =>
      obtain ⟨record, hrecord⟩ := Container.storable_iff.1 (storable c List.mem_cons_self)
      have hcs := ih fun c' hc' => storable c' (List.mem_cons_of_mem c hc')
      rw [records_cons hrecord, List.map_cons, List.map_cons, hcs,
        Container.sequence_of_complete? hrecord]

/-- The records of a row of containers are numbered as the row is, if the numbers fit into 64
bits. -/
theorem map_toNat_sequence_records {codec : Codec} {first : Nat} {groups : List (List Event)}
    (storable : ∀ c ∈ Container.row first groups, c.Storable codec)
    (hlen : first + groups.length ≤ UInt64.size) :
    (records codec (Container.row first groups)).map (·.sequence.toNat) =
      List.range' first groups.length := by
  have hfits (n : Nat) (hn : n ∈ List.range' first groups.length) :
      (UInt64.ofNat n).toNat = n := by
    have := List.mem_range'_1.1 hn
    exact UInt64.toNat_ofNat_of_lt' (by omega)
  calc (records codec (Container.row first groups)).map (·.sequence.toNat)
      = ((records codec (Container.row first groups)).map (·.sequence)).map UInt64.toNat := by
        rw [List.map_map]; rfl
    _ = ((Container.row first groups).map (·.sequence)).map fun n => (UInt64.ofNat n).toNat := by
        rw [map_sequence_records storable, List.map_map, List.map_map]; rfl
    _ = List.range' first groups.length := by
        rw [Container.map_sequence_row, List.map_congr_left hfits, List.map_id']

section

variable {codec : Codec} {first : Nat} {groups : List (List Event)} {rs : List Record}

/-- The first of the records of a row of containers are those of the first containers, all of which
have a record. -/
theorem eq_records_of_prefix (front : rs <+: records codec (Container.row first groups)) :
    rs = records codec (Container.row first (groups.take rs.length)) ∧
      ∀ c ∈ Container.row first (groups.take rs.length), c.Storable codec := by
  have hrs : rs = records codec (Container.row first (groups.take rs.length)) := by
    rw [← Container.take_row, ← take_records]
    exact List.prefix_iff_eq_take.1 front
  refine ⟨hrs, storable_of_length_le ?_⟩
  rw [← hrs, Container.length_row]
  exact List.length_take_le ..

/-- The first of the records are numbered as the row is, if the numbers fit into 64 bits; and they
are complete. -/
theorem numbers_of_prefix (front : rs <+: records codec (Container.row first groups))
    (few : first + rs.length ≤ UInt64.size) :
    rs.map (·.sequence.toNat) = List.range' first rs.length ∧
      ∀ r ∈ rs, r.data.length = r.header.storedSize.toNat := by
  obtain ⟨hrs, hstorable⟩ := eq_records_of_prefix front
  have hlength : (groups.take rs.length).length = rs.length := by
    have := length_records hstorable
    rw [← hrs, Container.length_row] at this
    exact this.symm
  constructor
  · have hnumbers := map_toNat_sequence_records hstorable (by rw [hlength]; exact few)
    rwa [← hrs, hlength] at hnumbers
  · intro r hr
    obtain ⟨c, -, hc⟩ := exists_of_mem_records (front.subset hr)
    exact Container.length_data_of_complete? hc

end

end Image

/-! ### What the records add up to -/

namespace Totals

section

variable {counter : Totals → UInt64} {part : Header → Nat}

/-- A counter to which every record adds its part ends up with the sum of the parts. -/
theorem counter_foldl_add
    (step : ∀ t h, counter (t.add h) = counter t + UInt64.ofNat (part h)) (hs : List Header)
    (t : Totals) : counter (hs.foldl add t) = counter t + UInt64.ofNat (hs.map part).sum := by
  induction hs generalizing t with
  | nil => simp
  | cons h hs ih =>
      rw [List.foldl_cons, ih, step, List.map_cons, List.sum_cons, UInt64.ofNat_add,
        UInt64.add_assoc]

/-- Over all the records of a file this is so modulo 2^64. -/
theorem counter_ofHeaders
    (step : ∀ t h, counter (t.add h) = counter t + UInt64.ofNat (part h))
    (fresh : counter zero = 0) (hs : List Header) :
    counter (ofHeaders hs) = UInt64.ofNat (hs.map part).sum := by
  rw [ofHeaders, counter_foldl_add step, fresh, UInt64.zero_add]

end

/-- The records are counted in 64 bits. -/
theorem containers_ofHeaders (hs : List Header) :
    (ofHeaders hs).containers = UInt64.ofNat hs.length := by
  have hones : (hs.map fun _ => 1).sum = hs.length := by
    rw [List.map_const', List.sum_replicate_nat, Nat.mul_one]
  rw [← hones]
  exact counter_ofHeaders (fun _ _ => rfl) rfl hs

/-- So are the events that the headers speak of. -/
theorem events_ofHeaders (hs : List Header) :
    (ofHeaders hs).events = UInt64.ofNat (hs.map (·.eventCount.toNat)).sum :=
  counter_ofHeaders (fun _ h => by rw [UInt64.ofNat_uInt32ToNat, add]) rfl hs

/-- So are the framed bytes that they speak of. -/
theorem rawBytes_ofHeaders (hs : List Header) :
    (ofHeaders hs).rawBytes = UInt64.ofNat (hs.map (·.rawSize.toNat)).sum :=
  counter_ofHeaders (fun _ h => by rw [UInt64.ofNat_uInt32ToNat, add]) rfl hs

/-- The totals of some events that are held by so many containers. -/
def ofEvents (containers : Nat) (es : List Event) : Totals where
  containers := UInt64.ofNat containers
  events := UInt64.ofNat es.length
  rawBytes := UInt64.ofNat (es.flatMap Event.encode).length
  firstTimestamp := (es.head?.map Event.timestamp).getD 0
  lastTimestamp := (es.getLast?.map Event.timestamp).getD 0

@[simp] theorem ofEvents_nil : ofEvents 0 [] = zero := rfl

/-- The record of one more container adds its events to the totals. -/
theorem add_ofEvents {codec : Codec} (containers : Nat) {sequence : Nat} (es : List Event)
    {group : List Event} {record : Record} (hgroup : Event.Group group)
    (hlen : es.length + group.length ≤ UInt64.size)
    (hrecord : (Container.ofEvents sequence group).complete? codec = some (.done record)) :
    (ofEvents containers es).add record.header = ofEvents (containers + 1) (es ++ group) := by
  obtain ⟨answer, -, hraw, -, rfl⟩ := Container.complete?_eq_done_iff.1 hrecord
  obtain ⟨hne, hlt⟩ := hgroup
  have hpos : 0 < group.length := List.length_pos_iff.2 hne
  have hcount : 0 < UInt32.ofNat group.length := by
    rw [UInt32.lt_iff_toNat_lt, UInt32.toNat_ofNat_of_lt' hlt]
    exact hpos
  have hevents : (UInt32.ofNat group.length).toUInt64 = UInt64.ofNat group.length := by
    rw [UInt32.toUInt64_ofNat' hlt]
  have hsize : (UInt32.ofNat (group.flatMap Event.encode).length).toUInt64 =
      UInt64.ofNat (group.flatMap Event.encode).length := by
    rw [Container.length_ofEvents] at hraw
    rw [UInt32.toUInt64_ofNat' hraw]
  -- The first timestamp is taken over while no events are counted; with few enough of them, the
  -- counter is zero in front of the first one only.
  have hnone : UInt64.ofNat es.length = 0 ↔ es = [] := by
    rw [← UInt64.toNat_inj, UInt64.toNat_ofNat_of_lt' (by omega), UInt64.toNat_zero,
      List.length_eq_zero_iff]
  simp only [add, ofEvents, Container.recordOf, Container.eventCount_ofEvents,
    Container.length_ofEvents, hevents, hsize, hnone, hcount, and_true, if_true,
    Container.firstTimestamp_ofEvents hlt, Container.lastTimestamp_ofEvents, List.length_append,
    List.flatMap_append, UInt64.ofNat_add, mk.injEq, true_and]
  refine ⟨rfl, ?_, ?_⟩
  · cases es <;> simp
  · rw [List.getLast?_append]
    cases hlast : group.getLast? with
    | none => exact absurd (List.getLast?_eq_none_iff.1 hlast) hne
    | some e => simp

/-- The records of a row of containers add the events in it to the totals. -/
theorem foldl_add_ofEvents {codec : Codec} {groups : List (List Event)} {first : Nat}
    (containers : Nat) (es : List Event) (hgroups : ∀ g ∈ groups, Event.Group g)
    (storable : ∀ c ∈ Container.row first groups, c.Storable codec)
    (hlen : es.length + groups.flatten.length ≤ UInt64.size) :
    ((Image.records codec (Container.row first groups)).map (·.header)).foldl add
        (ofEvents containers es) =
      ofEvents (containers + groups.length) (es ++ groups.flatten) := by
  induction groups generalizing first containers es with
  | nil => simp [Container.row, Image.records]
  | cons group groups ih =>
      rw [Container.row] at storable
      obtain ⟨record, hrecord⟩ := Container.storable_iff.1 (storable _ List.mem_cons_self)
      rw [List.flatten_cons, List.length_append] at hlen
      have hadd := add_ofEvents containers es (hgroups group List.mem_cons_self) (by omega) hrecord
      rw [Container.row, Image.records_cons hrecord, List.map_cons, List.foldl_cons, hadd,
        ih _ _ (fun g hg => hgroups g (List.mem_cons_of_mem group hg))
          (fun c hc => storable c (List.mem_cons_of_mem _ hc))
          (by rw [List.length_append]; omega)]
      simp only [List.flatten_cons, List.append_assoc, List.length_cons, Nat.add_assoc,
        Nat.add_comm 1]

/-- **The totals of the records are those of the events** in them. -/
theorem ofHeaders_eq_ofEvents {codec : Codec} {groups : List (List Event)} {first : Nat}
    (hgroups : ∀ g ∈ groups, Event.Group g)
    (storable : ∀ c ∈ Container.row first groups, c.Storable codec)
    (hlen : groups.flatten.length ≤ UInt64.size) :
    Image.totals (Image.records codec (Container.row first groups)) =
      ofEvents groups.length groups.flatten := by
  have := foldl_add_ofEvents 0 [] hgroups storable (by simpa using hlen)
  simpa [Image.totals, ofHeaders] using this

/-- A container holds one event at least. -/
theorem length_le_length_flatten {groups : List (List Event)}
    (hgroups : ∀ g ∈ groups, Event.Group g) : groups.length ≤ groups.flatten.length := by
  induction groups with
  | nil => simp
  | cons group groups ih =>
      have hpos := List.length_pos_iff.2 (hgroups group List.mem_cons_self).ne_nil
      have hrest := ih fun g hg => hgroups g (List.mem_cons_of_mem group hg)
      rw [List.flatten_cons, List.length_append, List.length_cons]
      omega

end Totals

end TraceLog
