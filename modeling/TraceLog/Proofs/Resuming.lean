/-
**Going on with a file.**

A file that was closed is opened again by taking its footer off, and the totals in the footer say
with which number the next container goes on.  Nothing but the footer is looked at.  If the reader
has accepted the file as complete, then what stands in front of the footer are its records, and the
totals are theirs; so whatever is put behind them makes a file of the grammar again, as long as its
numbers go on from there.

Main definitions:

* `Storage.bytes`, `Storage.Finished` — the content of a file; a file that holds certain records and
  was closed, or holds nothing yet;
* `Layout.extended` — a file in which records stand behind those of another one.

Main results:

* `Storage.splitFooter_eq_ok_iff`, `Storage.resume_footer` — **which footers are taken off**;
* `Storage.Finished.exists_slots` — a file that was closed is opened behind its records;
* `Log.read_extended` — **records that go on with the numbers are accepted** behind those of a file.
-/

import TraceLog.Proofs.Pipeline.Endings
import TraceLog.Proofs.Resequencing
import TraceLog.Proofs.RoundTrip

set_option relaxedAutoImplicit false
set_option autoImplicit false

namespace TraceLog

/-! ### The footer is taken off -/

namespace Storage

/-- What stands in front of a footer is found again, with the totals in it, unless the file was
aborted. -/
theorem splitFooter_append (path : String) (front : Bytes) {reserved : Bytes} {f : Footer}
    (sound : f.Sound reserved) :
    splitFooter path (front ++ f.encodeWith reserved) =
      if f.isTruncated then .error (.format (.aborted path)) else .ok (front, f.totals) := by
  have hlen := Footer.length_encodeWith sound.length_reserved f
  have hstart : (front ++ f.encodeWith reserved).length - Footer.size = front.length := by
    rw [List.length_append, hlen, Nat.add_sub_cancel]
  have hdecode : Footer.decode (f.encodeWith reserved) = .ok f :=
    Footer.decode_eq_ok_iff.2 ⟨reserved, sound, rfl⟩
  have hroom : ¬ (front ++ f.encodeWith reserved).length < Footer.size := by
    rw [List.length_append, hlen]
    omega
  simp only [splitFooter, if_neg hroom, hstart, List.drop_left, List.take_left, hdecode]

/-- **Which footers are taken off**: those that a reader asks for, except the ones of files that
were aborted. -/
theorem splitFooter_eq_ok_iff {path : String} {bs front : Bytes} {totals : Totals} :
    splitFooter path bs = .ok (front, totals) ↔ ∃ reserved f, Footer.Sound reserved f ∧
      f.isTruncated = false ∧ f.totals = totals ∧ bs = front ++ f.encodeWith reserved := by
  constructor
  · intro h
    unfold splitFooter at h
    split at h
    · cases h
    dsimp only at h
    split at h
    · cases h
    rename_i footer hdecode
    split at h
    · cases h
    rename_i hflag
    simp only [Except.ok.injEq, Prod.mk.injEq] at h
    obtain ⟨reserved, sound, hbytes⟩ := Footer.decode_eq_ok_iff.1 hdecode
    refine ⟨reserved, footer, sound, by simpa using hflag, h.2, ?_⟩
    rw [← h.1, ← hbytes, List.take_append_drop]
  · rintro ⟨reserved, f, sound, hflag, rfl, rfl⟩
    rw [splitFooter_append path front sound, hflag]
    rfl

/-- The content of a file; a missing file has none. -/
def bytes (s : Storage) : Bytes := (s.content.getD .empty).toBytes

@[simp] theorem bytes_put (s : Storage) (content : Spool) :
    (s.put content).bytes = content.toBytes := rfl

variable {s : Storage}

/-- A file goes on in the same way once it is there. -/
theorem resume_put (regular : s.place = .regular) :
    (s.put (s.content.getD .empty)).resume = s.resume := by
  have hplace : (s.put (s.content.getD .empty)).place = .regular := regular
  rw [resume, resume, regular, hplace]
  rfl

/-- An empty file is gone on with from the beginning. -/
theorem resume_of_empty (regular : s.place = .regular) (empty : s.bytes = []) :
    s.resume = (.ok (.reliable .empty, .zero), s.put (s.content.getD .empty)) := by
  have hsize : (s.content.getD .empty).size = 0 := by
    rw [← Spool.length_toBytes, show Spool.toBytes _ = [] from empty, List.length_nil]
  simp only [resume, regular, if_pos hsize]

/-- Of any other file the footer is looked at. -/
theorem resume_of_nonempty (regular : s.place = .regular) (nonempty : s.bytes ≠ []) :
    s.resume = match splitFooter s.path s.bytes with
      | .error error => (.error error, s.put (s.content.getD .empty))
      | .ok (records, totals) =>
          (.ok (.reliable (.ofBytes records), totals), s.put (.ofBytes records)) := by
  have hsize : (s.content.getD .empty).size ≠ 0 := by
    intro hzero
    refine nonempty (List.eq_nil_of_length_eq_zero ?_)
    rw [bytes, Spool.length_toBytes, hzero]
  simp only [resume, regular, if_neg hsize]
  rfl

/-- **A file with a footer is gone on with behind what stands in front of it**; but a file that was
aborted is refused, and nothing happens to it. -/
theorem resume_footer (regular : s.place = .regular) {content : Spool} {front : Bytes}
    {totals : Totals} {truncated : Bool}
    (ends : content.toBytes = front ++ (Footer.ofTotals totals truncated).encode) :
    (s.put content).resume =
      if truncated then (.error (.format (.aborted s.path)), s.put content)
      else (.ok (.reliable (.ofBytes front), totals), s.put (.ofBytes front)) := by
  have hbytes : (s.put content).bytes = front ++
      (Footer.ofTotals totals truncated).encodeWith (List.replicate Footer.reservedSize 0) := ends
  have hnonempty : (s.put content).bytes ≠ [] := by
    intro hnil
    have hlen := congrArg List.length hnil
    rw [bytes_put, ends, List.length_append, Footer.length_encode] at hlen
    simp [Footer.size] at hlen
  have hplace : (s.put content).place = .regular := regular
  rw [resume_of_nonempty hplace hnonempty, hbytes,
    splitFooter_append _ _ (Footer.sound_ofTotals totals truncated), Footer.isTruncated_ofTotals]
  cases truncated <;> rfl

end Storage

/-! ### Records behind those of a file -/

theorem Slot.entriesFrom_append (offset : Nat) (xs ys : List Slot) :
    entriesFrom offset (xs ++ ys) =
      entriesFrom offset xs ++ entriesFrom (offset + Layout.span xs) ys := by
  induction xs generalizing offset with
  | nil => simp [entriesFrom, Layout.span]
  | cons s xs ih => simp [entriesFrom, ih, Layout.span, Nat.add_assoc]

namespace Layout

/-- A file in which records stand behind those of another one, with a footer or without. -/
def extended (slots : List Slot) (rs : List Record) (finished : Bool) : Layout where
  slots := slots ++ rs.map (Slot.mk 0)
  footer :=
    if finished then
      some (List.replicate Footer.reservedSize 0, Footer.ofTotals
        ((rs.map (·.header)).foldl Totals.add (.ofHeaders (slots.map (·.record.header)))) false)
    else none

variable {slots : List Slot} {rs : List Record}

theorem bytes_extended (slots : List Slot) (rs : List Record) :
    (extended slots rs false).bytes = slotBytes slots ++ Image.unfinished rs ∧
      (extended slots rs true).bytes = slotBytes slots ++ Image.unfinished rs ++
        (Footer.ofTotals ((rs.map (·.header)).foldl Totals.add
          (.ofHeaders (slots.map (·.record.header)))) false).encode := by
  have hslots : slotBytes (slots ++ rs.map (Slot.mk 0)) =
      slotBytes slots ++ Image.unfinished rs := by
    rw [slotBytes, List.flatMap_append, List.flatMap_map]
    rfl
  constructor
  · simp only [bytes, extended, hslots, footerBytes, Bool.false_eq_true, if_false, List.append_nil]
  · simp only [bytes, extended, hslots, footerBytes, if_true, Footer.encode_eq_encodeWith]

/-- Complete records that go on with the numbers make a log file. -/
theorem wellFormed_extended (wf : WellFormed ⟨slots, none⟩) (finished : Bool)
    (complete : ∀ r ∈ rs, r.data.length = r.header.storedSize.toNat)
    (numbered : rs.map (·.sequence.toNat) = List.range' slots.length rs.length) :
    (extended slots rs finished).WellFormed where
  complete s hs := by
    rcases List.mem_append.1 hs with hs | hs
    · exact wf.complete s hs
    · obtain ⟨r, hr, rfl⟩ := List.mem_map.1 hs
      exact complete r hr
  numbered := by
    have hfront : slots.map Slot.number = List.range' 0 slots.length :=
      wf.numbered.trans List.range_eq_range'
    have hbehind : (rs.map (Slot.mk 0)).map Slot.number = List.range' slots.length rs.length := by
      rw [← numbered, List.map_map]
      rfl
    rw [extended, List.map_append, List.length_append, List.length_map, hfront, hbehind,
      List.range_eq_range', ← List.range'_append_1, Nat.zero_add]
  footer reserved f hf := by
    cases finished with
    | false => cases hf
    | true =>
        cases hf
        exact Footer.sound_ofTotals _ false
  totals reserved f hf := by
    cases finished with
    | false => cases hf
    | true =>
        cases hf
        rw [headers, extended, List.map_append, List.map_map, Totals.ofHeaders_append]
        rfl

/-- The file is complete exactly if it has the footer. -/
theorem isComplete_log_extended (slots : List Slot) (rs : List Record) (finished : Bool) :
    (extended slots rs finished).log.isComplete = finished := by
  cases finished with
  | false => rfl
  | true => simp [Log.isComplete, log, extended, Footer.isTruncated_ofTotals]

/-- The reader finds the records of the other file and then those behind them. -/
theorem entries_log_extended (slots : List Slot) (rs : List Record) (finished : Bool) :
    (extended slots rs finished).log.entries =
      Slot.entriesFrom 0 slots ++ Slot.entriesFrom (span slots) (rs.map (Slot.mk 0)) := by
  rw [log, extended, Slot.entriesFrom_append, Nat.zero_add]

/-- It computes the totals that go on from those of the other file. -/
theorem totals_log_extended (slots : List Slot) (rs : List Record) (finished : Bool) :
    (extended slots rs finished).log.totals =
      (rs.map (·.header)).foldl Totals.add (.ofHeaders (slots.map (·.record.header))) := by
  have hheaders : (rs.map (Slot.mk 0)).map (·.record.header) = rs.map (·.header) := by
    rw [List.map_map]
    rfl
  rw [Log.totals, Log.totalsOf, entries_log_extended, List.map_append, Slot.headers_entriesFrom,
    Slot.headers_entriesFrom, Totals.ofHeaders_append, hheaders]

end Layout

/-- **Records that go on with the numbers are accepted** behind those of a file. -/
theorem Log.read_extended {slots : List Slot} {rs : List Record}
    (wf : Layout.WellFormed ⟨slots, none⟩) (finished : Bool)
    (complete : ∀ r ∈ rs, r.data.length = r.header.storedSize.toNat)
    (numbered : rs.map (·.sequence.toNat) = List.range' slots.length rs.length) :
    read (Layout.extended slots rs finished).bytes = .ok (Layout.extended slots rs finished).log :=
  read_eq_ok_iff.2 ⟨_, Layout.wellFormed_extended wf finished complete numbered, rfl, rfl⟩

/-! ### Files that were closed -/

namespace Storage

/-- A file holds certain records and was closed, or it holds nothing yet. -/
def Finished (s : Storage) (entries : List Entry) : Prop :=
  s.bytes = [] ∧ entries = [] ∨
    ∃ log, Log.read s.bytes = .ok log ∧ log.isComplete = true ∧ log.entries = entries

/-- **What a file is taken for that is opened to go on**: it holds nothing, or it ends in a footer,
and this is taken off. -/
theorem found_of_resume {s s' : Storage} {sink : Sink} {base : Totals}
    (regular : s.place = .regular) (resumed : s.resume = (.ok (sink, base), s')) :
    (s.bytes = [] ∧ sink.bytes = [] ∧ base = .zero ∨
      ∃ reserved f, Footer.Sound reserved f ∧ f.isTruncated = false ∧ f.totals = base ∧
        s.bytes = sink.bytes ++ f.encodeWith reserved) ∧ sink.Reliable := by
  by_cases hempty : s.bytes = []
  · rw [resume_of_empty regular hempty] at resumed
    cases resumed
    exact ⟨Or.inl ⟨hempty, rfl, rfl⟩, Sink.reliable_reliable _⟩
  · rw [resume_of_nonempty regular hempty] at resumed
    split at resumed
    · cases resumed
    · rename_i records totals hsplit
      cases resumed
      refine ⟨Or.inr ?_, Sink.reliable_reliable _⟩
      rw [Sink.bytes, Sink.reliable, Spool.toBytes_ofBytes]
      exact splitFooter_eq_ok_iff.1 hsplit

/-- **A file that was closed is opened behind its records**, with the totals over them. -/
theorem Finished.exists_slots {s : Storage} {entries : List Entry} (h : s.Finished entries)
    (regular : s.place = .regular) :
    ∃ slots sink content, Layout.WellFormed ⟨slots, none⟩ ∧ Slot.entriesFrom 0 slots = entries ∧
      s.resume = (.ok (sink, .ofHeaders (slots.map (·.record.header))), s.put content) ∧
      sink.Reliable ∧ sink.bytes = Layout.slotBytes slots := by
  rcases h with ⟨hempty, rfl⟩ | ⟨log, hread, hcomplete, rfl⟩
  · exact ⟨[], _, _, ⟨by simp, rfl, by simp [Layout.FooterSound], by simp⟩, rfl,
      resume_of_empty regular hempty, Sink.reliable_reliable _, rfl⟩
  · obtain ⟨l, wf, hbytes, rfl⟩ := Log.read_eq_ok_iff.1 hread
    obtain ⟨slots, footer⟩ := l
    -- a complete file has a footer
    rcases footer with _ | ⟨reserved, f⟩
    · cases hcomplete
    · have hflag : f.isTruncated = false := by
        simpa [Log.isComplete, Layout.log] using hcomplete
      have hsound := wf.footer reserved f rfl
      have htotals : f.totals = .ofHeaders (slots.map (·.record.header)) :=
        wf.totals reserved f rfl
      have hsplit : s.bytes = Layout.slotBytes slots ++ f.encodeWith reserved := hbytes.symm
      have hnonempty : s.bytes ≠ [] := by
        intro hnil
        have hlen := congrArg List.length (hsplit.symm.trans hnil)
        rw [List.length_append, Footer.length_encodeWith hsound.length_reserved] at hlen
        simp [Footer.size] at hlen
      refine ⟨slots, .reliable (.ofBytes (Layout.slotBytes slots)),
        .ofBytes (Layout.slotBytes slots),
        ⟨wf.complete, wf.numbered, by simp [Layout.FooterSound], by simp⟩, rfl, ?_,
        Sink.reliable_reliable _, Spool.toBytes_ofBytes _⟩
      rw [resume_of_nonempty regular hnonempty, hsplit, splitFooter_append _ _ hsound, hflag,
        htotals]
      rfl

/-- The footer counts the records that it follows, if they can be counted. -/
theorem toNat_containers {slots : List Slot} (few : slots.length < UInt64.size) :
    (Totals.ofHeaders (slots.map (·.record.header))).containers.toNat = slots.length := by
  rw [Totals.containers_ofHeaders, List.length_map, UInt64.toNat_ofNat_of_lt' few]

end Storage

end TraceLog
