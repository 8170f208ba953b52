/-
**The grammar of log files.**

A log file is a row of records with the numbers zero, one, two and so on, each a header followed by
as many bytes as the header says, and behind them nothing or one footer.  `TraceLog/Reader.lean`
walks over the bytes and decides on the way what comes next.  Here the same files are described
without a walk, by what they consist of, and the two are proved to agree: the reader accepts the
bytes of a layout, and nothing else.

Main definitions:

* `Slot`, `Layout` — a record with the byte in the reserved place of its header; all the records of
  a file, with its footer and the bytes in the reserved place of that;
* `Layout.bytes`, `Layout.WellFormed` — the bytes of a layout; what makes it a log file;
* `Slot.entriesFrom`, `Layout.log` — what the reader reports.

Main results:

* `Log.scan_slots`, `Log.exists_slots_of_scan` — the walk finds the records that are there, and no
  others;
* `Log.read_eq_ok_iff` — **the reader accepts the files of the grammar**, and says what is in them;
* `Layout.exists_around`, `Layout.stored_eq` — where the records stand in the file;
* `Layout.eq_or_isPrefix`, `Layout.bytes_injective` — where a file begins with another one, the
  other one ends behind a record; a file can be taken apart in one way only;
* `Log.read_grammar` — all of this together, with the places of the stored bytes.
-/

import TraceLog.Proofs.Fields
import TraceLog.Reader

set_option relaxedAutoImplicit false
set_option autoImplicit false

namespace TraceLog

/-! ### Layouts -/

/-- A record as it stands in a file, with the byte in the reserved place of its header. -/
structure Slot where
  reserved : UInt8
  record : Record

namespace Slot

/-- The bytes of a record. -/
def bytes (s : Slot) : Bytes := s.record.header.encodeWith s.reserved ++ s.record.data

/-- As many bytes follow the header as it says. -/
def Complete (s : Slot) : Prop := s.record.data.length = s.record.header.storedSize.toNat

/-- The number of the container. -/
def number (s : Slot) : Nat := s.record.sequence.toNat

/-- What the reader reports of a record at an offset. -/
def entryAt (offset : Nat) (s : Slot) : Entry := ⟨offset, s.record.header, s.record.data⟩

/-- What the reader reports of some records, the first of which stands at an offset. -/
def entriesFrom (offset : Nat) : List Slot → List Entry
  | [] => []
  | s :: slots => s.entryAt offset :: entriesFrom (offset + s.record.header.recordLength) slots

@[simp] theorem headers_entriesFrom (offset : Nat) (slots : List Slot) :
    (entriesFrom offset slots).map (·.header) = slots.map (·.record.header) := by
  induction slots generalizing offset with
  | nil => rfl
  | cons s slots ih => simp [entriesFrom, entryAt, ih]

@[simp] theorem length_entriesFrom (offset : Nat) (slots : List Slot) :
    (entriesFrom offset slots).length = slots.length := by
  induction slots generalizing offset with
  | nil => rfl
  | cons s slots ih => simp [entriesFrom, ih]

theorem length_bytes {s : Slot} (h : s.Complete) :
    s.bytes.length = s.record.header.recordLength := by
  rw [bytes, List.length_append, Header.length_encodeWith, h, Header.recordLength]

theorem take_bytes (s : Slot) (rest : Bytes) : (s.bytes ++ rest).take 4 = Header.magic := by
  simp [bytes, Header.encodeWith, Header.magic]

/-- A record can be told from the bytes that start with it. -/
theorem bytes_append_inj {s s' : Slot} {rest rest' : Bytes} (h : s.Complete) (h' : s'.Complete)
    (heq : s.bytes ++ rest = s'.bytes ++ rest') : s = s' ∧ rest = rest' := by
  obtain ⟨reserved, header, data⟩ := s
  obtain ⟨reserved', header', data'⟩ := s'
  simp only [bytes, List.append_assoc] at heq
  obtain ⟨rfl, rfl, hdata⟩ := Header.encodeWith_append_inj heq
  obtain ⟨rfl, rfl⟩ := List.append_inj hdata (h.trans h'.symm)
  exact ⟨rfl, rfl⟩

end Slot

/-- What a file consists of. -/
structure Layout where
  slots : List Slot
  /-- The footer, with the bytes in its reserved place. -/
  footer : Option (Bytes × Footer)

namespace Layout

/-- The headers of the records. -/
def headers (l : Layout) : List Header := l.slots.map (·.record.header)

/-- The bytes of some records. -/
def slotBytes (slots : List Slot) : Bytes := slots.flatMap Slot.bytes

/-- The bytes of a footer, if there is one. -/
def footerBytes : Option (Bytes × Footer) → Bytes
  | none => []
  | some (reserved, footer) => footer.encodeWith reserved

/-- The bytes of a file. -/
def bytes (l : Layout) : Bytes := slotBytes l.slots ++ footerBytes l.footer

@[simp] theorem bytes_empty : bytes ⟨[], none⟩ = [] := rfl

@[simp] theorem bytes_footer (reserved : Bytes) (f : Footer) :
    bytes ⟨[], some (reserved, f)⟩ = f.encodeWith reserved := rfl

@[simp] theorem bytes_cons (s : Slot) (slots : List Slot) (footer : Option (Bytes × Footer)) :
    bytes ⟨s :: slots, footer⟩ = s.bytes ++ bytes ⟨slots, footer⟩ := by
  simp [bytes, slotBytes]

/-- A footer, if there is one, is as a reader asks for. -/
def FooterSound (footer : Option (Bytes × Footer)) : Prop :=
  ∀ reserved f, footer = some (reserved, f) → f.Sound reserved

/-- What makes a layout a log file. -/
structure WellFormed (l : Layout) : Prop where
  complete : ∀ s ∈ l.slots, s.Complete
  /-- The records are numbered from zero. -/
  numbered : l.slots.map Slot.number = List.range l.slots.length
  footer : FooterSound l.footer
  /-- The totals in the footer are those of the headers. -/
  totals : ∀ reserved f, l.footer = some (reserved, f) → f.totals = .ofHeaders l.headers

/-- What the reader reports of a file. -/
def log (l : Layout) : Log :=
  ⟨l.bytes.length, Slot.entriesFrom 0 l.slots, l.footer.map (·.2)⟩

end Layout

/-! ### One step of the walk -/

namespace Log

/-- A number is accepted behind another one exactly if it is the next one. -/
theorem checkSequence_eq_ok_iff {previous : Option UInt64} {found : UInt64} {offset : Nat} :
    checkSequence previous found offset = .ok () ↔
      ∀ last, previous = some last → found.toNat = last.toNat + 1 := by
  cases previous with
  | none => simp [checkSequence]
  | some last =>
      have hfound : found.toNat < UInt64.size := found.toNat_lt
      simp only [checkSequence, Option.some.injEq, forall_eq']
      split
      · rename_i hmax
        simp only [reduceCtorEq, false_iff]
        omega
      · split
        · rename_i hjump
          simpa using hjump
        · rename_i hnext
          simpa using hnext

/-- **A record is read exactly where one stands**, with the number that has to come next. -/
theorem readEntry_eq_ok_iff {previous : Option UInt64} {offset : Nat} {bs rest : Bytes}
    {e : Entry} :
    readEntry previous offset bs = .ok (e, rest) ↔
      ∃ s : Slot, s.Complete ∧ (∀ last, previous = some last → s.number = last.toNat + 1) ∧
        bs = s.bytes ++ rest ∧ e = s.entryAt offset := by
  constructor
  · intro h
    unfold readEntry at h
    split at h
    · simp at h
    rename_i header hd
    split at h
    · simp at h
    rename_i hsequence
    split at h
    · simp at h
    rename_i stored rest' hs
    simp only [Except.ok.injEq, Prod.mk.injEq] at h
    obtain ⟨rfl, rfl⟩ := h
    obtain ⟨reserved, behind, rfl⟩ := Header.decode_eq_ok_iff.1 hd
    obtain ⟨hlen, hbehind⟩ := Bytes.splitExact?_eq_some_iff.1 hs
    rw [List.drop_left' (Header.length_encodeWith reserved header)] at hbehind
    refine ⟨⟨reserved, header, stored⟩, hlen, checkSequence_eq_ok_iff.1 hsequence, ?_, rfl⟩
    rw [hbehind, Slot.bytes, List.append_assoc]
  · rintro ⟨s, hcomplete, hnext, rfl, rfl⟩
    have hbytes : s.bytes ++ rest =
        s.record.header.encodeWith s.reserved ++ (s.record.data ++ rest) := by
      rw [Slot.bytes, List.append_assoc]
    have hd := Header.decode_encodeWith_append s.reserved s.record.header (s.record.data ++ rest)
    have hsequence : checkSequence previous s.record.header.sequence offset = .ok () :=
      checkSequence_eq_ok_iff.2 hnext
    have hdrop : (s.bytes ++ rest).drop Header.size = s.record.data ++ rest := by
      rw [hbytes, List.drop_left' (Header.length_encodeWith ..)]
    have hsplit := Bytes.splitExact?_append s.record.data rest
    rw [hcomplete] at hsplit
    rw [← hbytes] at hd
    simp only [readEntry, hd, hsequence, hdrop, hsplit]
    rfl

/-! ### The whole walk -/

/-- The numbers of some records continue those of the record before them, if there is one. -/
def Continues : (previous : Option UInt64) → List Slot → Prop
  | _, [] => True
  | previous, s :: slots =>
      (∀ last, previous = some last → s.number = last.toNat + 1) ∧
        Continues (some s.record.sequence) slots

/-- What is left of a file is to be read as a footer exactly if it has the size and the magic number
of one. -/
theorem footerFollows_iff {rest : Bytes} :
    footerFollows rest = true ↔ rest.length = Footer.size ∧ rest.take 4 = Footer.magic := by
  simp [footerFollows]

theorem footerFollows_encodeWith {reserved : Bytes} {f : Footer} (sound : f.Sound reserved) :
    footerFollows (f.encodeWith reserved) = true := by
  refine footerFollows_iff.2 ⟨Footer.length_encodeWith sound.length_reserved f, ?_⟩
  simp [Footer.encodeWith, Footer.bodyWith, Footer.magic]

/-- Where a record stands, no footer is read. -/
theorem not_footerFollows_slot (s : Slot) (rest : Bytes) :
    ¬ footerFollows (s.bytes ++ rest) = true := by
  intro h
  have hmagic := (footerFollows_iff.1 h).2
  rw [Slot.take_bytes] at hmagic
  exact absurd hmagic (by decide)

theorem slot_bytes_ne_nil (s : Slot) (rest : Bytes) : s.bytes ++ rest ≠ [] := by
  intro h
  have := congrArg (List.take 4) h
  rw [Slot.take_bytes] at this
  exact absurd this (by decide)

/-- The walk reports the records and the footer that are there. -/
theorem scan_slots {slots : List Slot} {ftr : Option (Bytes × Footer)} (found : List Entry)
    (offset : Nat) (complete : ∀ s ∈ slots, s.Complete)
    (continues : Continues (found.head?.map (·.header.sequence)) slots)
    (sound : Layout.FooterSound ftr) :
    scan found offset (Layout.bytes ⟨slots, ftr⟩) =
      .ok (found.reverse ++ Slot.entriesFrom offset slots, ftr.map (·.2)) := by
  -- Along the records: the walk keeps what it has found, newest first, and reads on behind it.
  induction slots generalizing found offset with
  | nil =>
      cases ftr with
      | none => simp [scan, Slot.entriesFrom]
      | some p =>
          have hsound := sound p.1 p.2 rfl
          have hempty : (p.2.encodeWith p.1).isEmpty = false := by
            rw [List.isEmpty_eq_false_iff, ← List.length_pos_iff,
              Footer.length_encodeWith hsound.length_reserved]
            decide
          have hd := Footer.decode_eq_ok_iff.2 ⟨p.1, hsound, rfl⟩
          rw [Layout.bytes_footer, scan, if_neg (by simp [hempty]),
            if_pos (footerFollows_encodeWith hsound), hd]
          simp [Slot.entriesFrom]
  | cons s slots ih =>
      obtain ⟨hnext, hcontinues⟩ := continues
      have hentry : readEntry (found.head?.map (·.header.sequence)) offset
          (s.bytes ++ Layout.bytes ⟨slots, ftr⟩) = .ok (s.entryAt offset, _) :=
        readEntry_eq_ok_iff.2 ⟨s, complete s List.mem_cons_self, hnext, rfl, rfl⟩
      have hempty := List.isEmpty_eq_false_iff.2 (slot_bytes_ne_nil s (Layout.bytes ⟨slots, ftr⟩))
      rw [Layout.bytes_cons, scan, if_neg (by simp [hempty]), if_neg (not_footerFollows_slot s _)]
      -- `scan` keeps the equation of the entry for its own termination, so it cannot be rewritten.
      split
      · rename_i fault hfault
        rw [hentry] at hfault
        simp at hfault
      · rename_i entry rest hok
        rw [hentry] at hok
        simp only [Except.ok.injEq, Prod.mk.injEq] at hok
        obtain ⟨rfl, rfl⟩ := hok
        have hrest := ih (s.entryAt offset :: found) (offset + s.record.header.recordLength)
          (fun t ht => complete t (List.mem_cons_of_mem s ht)) hcontinues
        simpa [Slot.entriesFrom, Slot.entryAt] using hrest

/-- What the walk reports is there. -/
theorem exists_slots_of_scan {found entries : List Entry} {offset : Nat} {bs : Bytes}
    {footer : Option Footer} (h : scan found offset bs = .ok (entries, footer)) :
    ∃ l : Layout, (∀ s ∈ l.slots, s.Complete) ∧
      Continues (found.head?.map (·.header.sequence)) l.slots ∧ Layout.FooterSound l.footer ∧
      l.bytes = bs := by
  -- The cases are those of the walk: the end of the bytes, a footer, a record, and two failures.
  fun_induction scan found offset bs with
  | case1 found offset bs hempty =>
      exact ⟨⟨[], none⟩, by simp, trivial, by simp [Layout.FooterSound],
        (List.isEmpty_iff.1 hempty).symm⟩
  | case2 => simp at h
  | case3 found offset bs hempty hfooter f hd =>
      obtain ⟨reserved, sound, rfl⟩ := Footer.decode_eq_ok_iff.1 hd
      refine ⟨⟨[], some (reserved, f)⟩, by simp, trivial, ?_, rfl⟩
      rintro _ _ ⟨⟩
      exact sound
  | case4 => simp at h
  | case5 found offset bs hempty hfooter e rest hentry ih =>
      obtain ⟨s, hcomplete, hnext, rfl, rfl⟩ := readEntry_eq_ok_iff.1 hentry
      obtain ⟨l, complete, continues, sound, rfl⟩ := ih h
      refine ⟨⟨s :: l.slots, l.footer⟩, ?_, ⟨hnext, continues⟩, sound, by simp⟩
      intro t ht
      rcases List.mem_cons.1 ht with rfl | ht
      · exact hcomplete
      · exact complete t ht

/-! ### Reading a file -/

/-- Records that continue a number have the numbers behind it. -/
theorem continues_some_iff {last : UInt64} {slots : List Slot} :
    Continues (some last) slots ↔
      slots.map Slot.number = List.range' (last.toNat + 1) slots.length := by
  induction slots generalizing last with
  | nil => simp [Continues]
  | cons s slots ih =>
      simp only [Continues, Option.some.injEq, forall_eq', ih, List.map_cons, List.length_cons,
        List.range'_succ, List.cons.injEq]
      refine and_congr_right fun hnumber => ?_
      rw [← hnumber]
      rfl

/-- The first number and the totals are checked behind the walk. -/
theorem checkWhole_eq_ok_iff {entries : List Entry} {footer : Option Footer} :
    checkWhole entries footer = .ok () ↔
      (∀ e, entries.head? = some e → e.header.sequence = 0) ∧
        ∀ f, footer = some f → f.totals = totalsOf entries := by
  cases entries with
  | nil => cases footer <;> simp [checkWhole]
  | cons e entries =>
      by_cases hfirst : e.header.sequence = 0
      · cases footer <;> simp [checkWhole, Option.filter, hfirst]
      · cases footer <;> simp [checkWhole, Option.filter, hfirst]

/-- The records of a file are numbered from zero if the first one is zero and each continues the one
before it. -/
theorem numbered_iff {slots : List Slot} :
    slots.map Slot.number = List.range slots.length ↔
      Continues none slots ∧ ∀ e, (Slot.entriesFrom 0 slots).head? = some e →
        e.header.sequence = 0 := by
  cases slots with
  | nil => simp [Continues, Slot.entriesFrom]
  | cons s slots =>
      have hzero : s.number = 0 ↔ s.record.sequence = 0 :=
        ⟨fun h => UInt64.toNat_inj.1 h, fun h => congrArg UInt64.toNat h⟩
      simp only [List.range_eq_range', List.map_cons, List.length_cons, List.range'_succ,
        List.cons.injEq, Continues, reduceCtorEq, false_implies, implies_true, true_and,
        continues_some_iff, Slot.entriesFrom, List.head?_cons, Option.some.injEq, forall_eq',
        Slot.entryAt]
      constructor
      · rintro ⟨hs, hslots⟩
        have hseq := hzero.1 hs
        exact ⟨by simpa [hseq] using hslots, hseq⟩
      · rintro ⟨hslots, hseq⟩
        have hseq' : s.record.sequence = 0 := hseq
        exact ⟨hzero.2 hseq, by simpa [hseq'] using hslots⟩

/-- **The reader accepts the files of the grammar**, and reports what is in them. -/
theorem read_eq_ok_iff {bs : Bytes} {log : Log} :
    read bs = .ok log ↔ ∃ l : Layout, l.WellFormed ∧ l.bytes = bs ∧ l.log = log := by
  constructor
  · intro h
    unfold read at h
    split at h
    · simp at h
    rename_i entries footer hscan
    split at h
    · simp at h
    rename_i hcheck
    simp only [Except.ok.injEq] at h
    subst h
    -- The walk has found a layout; walking over that once more says which entries it reported.
    obtain ⟨l, complete, continues, sound, rfl⟩ := exists_slots_of_scan hscan
    have hreport := scan_slots [] 0 complete continues sound
    rw [show Layout.mk l.slots l.footer = l from rfl, hscan] at hreport
    simp only [List.reverse_nil, List.nil_append, Except.ok.injEq, Prod.mk.injEq] at hreport
    obtain ⟨rfl, rfl⟩ := hreport
    obtain ⟨hfirst, htotals⟩ := checkWhole_eq_ok_iff.1 hcheck
    refine ⟨l, ⟨complete, numbered_iff.2 ⟨continues, hfirst⟩, sound, ?_⟩, rfl, rfl⟩
    intro reserved f hf
    have := htotals f (by simp [hf])
    rwa [totalsOf, Slot.headers_entriesFrom] at this
  · rintro ⟨l, wf, rfl, rfl⟩
    obtain ⟨continues, hfirst⟩ := numbered_iff.1 wf.numbered
    have hscan := scan_slots [] 0 wf.complete continues wf.footer
    have hcheck : checkWhole (Slot.entriesFrom 0 l.slots) (l.footer.map (·.2)) = .ok () := by
      refine checkWhole_eq_ok_iff.2 ⟨hfirst, ?_⟩
      intro f hf
      obtain ⟨p, hp, rfl⟩ := Option.map_eq_some_iff.1 hf
      rw [totalsOf, Slot.headers_entriesFrom]
      exact wf.totals p.1 p.2 hp
    rw [show Layout.mk l.slots l.footer = l from rfl] at hscan
    simp only [read, hscan, List.reverse_nil, List.nil_append, hcheck]
    rfl

end Log

/-! ### Files that begin with other files -/

namespace Layout

/-- A footer does not start like a record. -/
theorem encodeWith_ne_slot {reserved : Bytes} {f : Footer} (s : Slot) (xs ys : Bytes) :
    f.encodeWith reserved ++ xs ≠ s.bytes ++ ys := by
  intro heq
  have hmagic := congrArg (List.take 4) heq
  rw [Slot.take_bytes] at hmagic
  simp [Footer.encodeWith, Footer.bodyWith, Footer.magic, Header.magic] at hmagic

/-- **Where a file begins with another one**, either the two are the same, or the other one has no
footer and is cut off at the end of a record. -/
theorem eq_or_isPrefix {l l' : Layout} {rest : Bytes} (wf : l.WellFormed) (wf' : l'.WellFormed)
    (heq : l'.bytes ++ rest = l.bytes) :
    l' = l ∧ rest = [] ∨ l'.footer = none ∧ l'.slots <+: l.slots := by
  obtain ⟨slots, footer⟩ := l
  obtain ⟨slots', footer'⟩ := l'
  have complete := wf.complete
  have complete' := wf'.complete
  have sound := wf.footer
  have sound' := wf'.footer
  -- What is left behind the first records is not numbered from zero, so only these are kept.
  clear wf wf'
  dsimp only at complete complete' sound sound' ⊢
  induction slots' generalizing slots with
  | nil =>
      cases footer' with
      | none => exact Or.inr ⟨rfl, List.nil_prefix⟩
      | some p =>
          have hlen' := Footer.length_encodeWith (sound' p.1 p.2 rfl).length_reserved p.2
          rw [bytes_footer] at heq
          cases slots with
          | cons s slots =>
              rw [bytes_cons] at heq
              exact absurd heq (encodeWith_ne_slot s _ _)
          | nil =>
              cases footer with
              | none =>
                  have hlen := congrArg List.length heq
                  simp [hlen', Footer.size] at hlen
              | some q =>
                  have hlen := Footer.length_encodeWith (sound q.1 q.2 rfl).length_reserved q.2
                  rw [bytes_footer, ← List.append_nil (q.2.encodeWith q.1)] at heq
                  obtain ⟨hfooter, rfl⟩ := List.append_inj heq (hlen'.trans hlen.symm)
                  obtain ⟨hreserved, hf⟩ := Footer.encodeWith_inj
                    (sound' p.1 p.2 rfl).length_reserved (sound q.1 q.2 rfl).length_reserved hfooter
                  have hpq : p = q := Prod.ext hreserved hf
                  exact Or.inl ⟨by rw [hpq], rfl⟩
  | cons s' slots' ih =>
      rw [bytes_cons, List.append_assoc] at heq
      cases slots with
      | nil =>
          cases footer with
          | none => exact absurd heq (Log.slot_bytes_ne_nil s' _)
          | some q =>
              rw [bytes_footer, ← List.append_nil (q.2.encodeWith q.1)] at heq
              exact absurd heq.symm (encodeWith_ne_slot s' _ _)
      | cons s slots =>
          rw [bytes_cons] at heq
          obtain ⟨rfl, hrest⟩ := Slot.bytes_append_inj (complete' s' List.mem_cons_self)
            (complete s List.mem_cons_self) heq
          have hcut := ih slots hrest (fun t ht => complete t (List.mem_cons_of_mem s' ht))
            (fun t ht => complete' t (List.mem_cons_of_mem s' ht))
          rcases hcut with ⟨hl, rfl⟩ | ⟨hnone, hpre⟩
          · simp only [mk.injEq] at hl
            exact Or.inl ⟨by rw [hl.1, hl.2], rfl⟩
          · exact Or.inr ⟨hnone, List.cons_prefix_cons.2 ⟨rfl, hpre⟩⟩

/-- **A file can be taken apart in one way only.** -/
theorem bytes_injective {l l' : Layout} (wf : l.WellFormed) (wf' : l'.WellFormed)
    (heq : l'.bytes = l.bytes) : l' = l := by
  have hall : l'.bytes ++ [] = l.bytes := by simpa using heq
  have hall' : l.bytes ++ [] = l'.bytes := by simpa using heq.symm
  -- Each of the two begins with the other one.
  rcases eq_or_isPrefix wf wf' hall with ⟨h, -⟩ | ⟨hnone', hpre'⟩
  · exact h
  rcases eq_or_isPrefix wf' wf hall' with ⟨h, -⟩ | ⟨hnone, hpre⟩
  · exact h.symm
  have hslots := hpre'.eq_of_length (Nat.le_antisymm hpre'.length_le hpre.length_le)
  obtain ⟨slots, footer⟩ := l
  obtain ⟨slots', footer'⟩ := l'
  simp only [mk.injEq]
  exact ⟨hslots, hnone'.trans hnone.symm⟩

/-- The records in front of a place, without a footer. -/
def cut (l : Layout) (count : Nat) : Layout := ⟨l.slots.take count, none⟩

/-- What is left of a log file when it is cut off behind a record is a log file. -/
theorem WellFormed.cut {l : Layout} (wf : l.WellFormed) (count : Nat) :
    (l.cut count).WellFormed where
  complete s hs := wf.complete s (List.mem_of_mem_take hs)
  numbered := by
    rw [Layout.cut, List.map_take, wf.numbered, List.take_range, List.length_take]
  footer := by simp [Layout.cut, FooterSound]
  totals := by simp [Layout.cut]

/-! ### Where the records stand -/

/-- How many bytes some records take. -/
def span (slots : List Slot) : Nat := (slots.map (·.record.header.recordLength)).sum

theorem length_slotBytes {slots : List Slot} (complete : ∀ s ∈ slots, s.Complete) :
    (slotBytes slots).length = span slots := by
  induction slots with
  | nil => rfl
  | cons s slots ih =>
      have hs := Slot.length_bytes (complete s List.mem_cons_self)
      have hslots := ih fun t ht => complete t (List.mem_cons_of_mem s ht)
      simp only [slotBytes, List.flatMap_cons, List.length_append, span, List.map_cons,
        List.sum_cons] at hslots ⊢
      omega

end Layout

/-- A record stands behind those before it. -/
theorem Slot.getElem?_entriesFrom (offset : Nat) (slots : List Slot) (i : Nat) :
    (entriesFrom offset slots)[i]? =
      slots[i]?.map fun s => s.entryAt (offset + Layout.span (slots.take i)) := by
  induction slots generalizing offset i with
  | nil => simp [entriesFrom]
  | cons s slots ih =>
      cases i with
      | zero => simp [entriesFrom, Layout.span]
      | succ i => simp [entriesFrom, ih, Layout.span, Nat.add_assoc]

namespace Layout

/-- Around a record stand those before it and what follows: a file can be split at each of its
records, and in front of it are as many bytes as its offset says. -/
theorem exists_around {l : Layout} (wf : l.WellFormed) {e : Entry} (he : e ∈ l.log.entries) :
    ∃ reserved front behind,
      l.bytes = front ++ (e.header.encodeWith reserved ++ (e.stored ++ behind)) ∧
      front.length = e.offset ∧ e.stored.length = e.header.storedSize.toNat := by
  obtain ⟨i, hi⟩ := List.mem_iff_getElem?.1 he
  rw [log, Slot.getElem?_entriesFrom] at hi
  obtain ⟨s, hs, rfl⟩ := Option.map_eq_some_iff.1 hi
  obtain ⟨hlt, hget⟩ := List.getElem?_eq_some_iff.1 hs
  have hslots : l.slots = l.slots.take i ++ s :: l.slots.drop (i + 1) := by
    rw [← hget, ← List.drop_eq_getElem_cons hlt, List.take_append_drop]
  refine ⟨s.reserved, slotBytes (l.slots.take i),
    slotBytes (l.slots.drop (i + 1)) ++ footerBytes l.footer, ?_, ?_,
    wf.complete s (List.mem_of_getElem? hs)⟩
  · calc l.bytes = slotBytes (l.slots.take i ++ s :: l.slots.drop (i + 1)) ++
          footerBytes l.footer := by rw [← hslots]; rfl
      _ = _ := by simp [slotBytes, Slot.bytes, Slot.entryAt]
  · rw [length_slotBytes fun t ht => wf.complete t (List.mem_of_mem_take ht), Slot.entryAt,
      Nat.zero_add]

/-- **The stored bytes of a record lie inside the file**, behind the header of the record. -/
theorem stored_eq {l : Layout} (wf : l.WellFormed) {e : Entry} (he : e ∈ l.log.entries) :
    e.offset + e.header.recordLength ≤ l.bytes.length ∧
      e.stored = (l.bytes.drop (e.offset + Header.size)).take e.header.storedSize.toNat := by
  obtain ⟨reserved, front, behind, hbytes, hoffset, hstored⟩ := exists_around wf he
  have hhead : e.offset + Header.size = (front ++ e.header.encodeWith reserved).length := by
    rw [List.length_append, hoffset, Header.length_encodeWith]
  constructor
  · have hlen := congrArg List.length hbytes
    simp only [List.length_append, Header.length_encodeWith] at hlen
    rw [Header.recordLength]
    omega
  · rw [hbytes, ← List.append_assoc, hhead, List.drop_left, List.take_left' hstored]

/-- **At the offset of a record stands its header.** -/
theorem decode_header {l : Layout} (wf : l.WellFormed) {e : Entry} (he : e ∈ l.log.entries) :
    Header.decode (l.bytes.drop e.offset) = .ok e.header := by
  obtain ⟨reserved, front, behind, hbytes, hoffset, -⟩ := exists_around wf he
  rw [hbytes, ← hoffset, List.drop_left, Header.decode_encodeWith_append]

/-- Where the records of a file stand. -/
theorem offsets_eq (l : Layout) :
    l.log.entries.map (·.offset) =
      (List.range l.slots.length).map fun i => span (l.slots.take i) := by
  refine List.ext_getElem? fun i => ?_
  rw [List.getElem?_map, log, Slot.getElem?_entriesFrom]
  by_cases hi : i < l.slots.length
  · simp [Slot.entryAt, hi]
  · simp [hi]

/-- **A strict part at the front of a file is a file exactly if it ends behind a record**, and then
it has no footer. -/
theorem read_front_iff {l : Layout} (wf : l.WellFormed) {front rest : Bytes}
    (hsplit : front ++ rest = l.bytes) (hstrict : rest ≠ []) {log : Log} :
    Log.read front = .ok log ↔
      ∃ count, count ≤ l.slots.length ∧ front = (l.cut count).bytes ∧ log = (l.cut count).log := by
  rw [Log.read_eq_ok_iff]
  constructor
  · rintro ⟨l', wf', rfl, rfl⟩
    rcases eq_or_isPrefix wf wf' hsplit with ⟨-, hrest⟩ | ⟨hnone, hpre⟩
    · exact absurd hrest hstrict
    have hcut : l' = l.cut l'.slots.length := by
      obtain ⟨slots', footer'⟩ := l'
      simp only [cut, mk.injEq]
      exact ⟨List.prefix_iff_eq_take.1 hpre, hnone⟩
    exact ⟨l'.slots.length, hpre.length_le, congrArg bytes hcut, congrArg Layout.log hcut⟩
  · rintro ⟨count, -, rfl, rfl⟩
    exact ⟨l.cut count, wf.cut count, rfl, rfl⟩

end Layout

/-- **The reader accepts exactly the files of the grammar.**

It succeeds on some bytes exactly if they are those of a layout.  There is one such layout only; the
headers are reported as they stand in it, with the sums of the lengths of the records before them as
offsets, the stored bytes are those behind the header and inside the file, and a footer is reported
exactly if there is one.  A strict part at the front of the file is accepted exactly if it ends
behind a record, and it never counts as complete. -/
theorem Log.read_grammar (bs : Bytes) :
    ((∃ log, read bs = .ok log) ↔ ∃ l : Layout, l.WellFormed ∧ l.bytes = bs) ∧
    ∀ l : Layout, l.WellFormed → l.bytes = bs →
      (∀ l' : Layout, l'.WellFormed → l'.bytes = bs → l' = l) ∧
      (∃ log, read bs = .ok log ∧
        log.entries.map (·.header) = l.headers ∧
        log.entries.map (·.offset) = (List.range l.headers.length).map (fun i =>
          ((l.headers.take i).map Header.recordLength).sum) ∧
        (∀ e ∈ log.entries, e.offset + e.header.recordLength ≤ bs.length ∧
          e.stored.length = e.header.storedSize.toNat ∧
          e.stored = (bs.drop (e.offset + Header.size)).take e.header.storedSize.toNat) ∧
        log.footer = l.footer.map (·.2)) ∧
      ∀ front rest, front ++ rest = bs → rest ≠ [] →
        ((∃ log, read front = .ok log) ↔
          ∃ count, count ≤ l.slots.length ∧ front = Layout.slotBytes (l.slots.take count)) ∧
        ∀ log, read front = .ok log → log.footer = none ∧ log.isComplete = false := by
  refine ⟨⟨?_, ?_⟩, ?_⟩
  · rintro ⟨log, h⟩
    obtain ⟨l, wf, hbytes, -⟩ := read_eq_ok_iff.1 h
    exact ⟨l, wf, hbytes⟩
  · rintro ⟨l, wf, hbytes⟩
    exact ⟨l.log, read_eq_ok_iff.2 ⟨l, wf, hbytes, rfl⟩⟩
  rintro l wf rfl
  refine ⟨fun l' wf' hbytes => Layout.bytes_injective wf wf' hbytes,
    ⟨l.log, read_eq_ok_iff.2 ⟨l, wf, rfl, rfl⟩, ?_, ?_, ?_, rfl⟩, ?_⟩
  · exact Slot.headers_entriesFrom 0 l.slots
  · simp [Layout.offsets_eq, Layout.span, Layout.headers, List.map_take, Function.comp_def]
  · intro e he
    obtain ⟨hfits, hstored⟩ := Layout.stored_eq wf he
    refine ⟨hfits, ?_, hstored⟩
    rw [hstored, List.length_take, List.length_drop]
    rw [Header.recordLength] at hfits
    omega
  · intro front rest hsplit hstrict
    constructor
    · constructor
      · rintro ⟨log, h⟩
        obtain ⟨count, hcount, hfront, -⟩ := (Layout.read_front_iff wf hsplit hstrict).1 h
        exact ⟨count, hcount, hfront.trans (by simp [Layout.cut, Layout.bytes, Layout.footerBytes])⟩
      · rintro ⟨count, hcount, hfront⟩
        refine ⟨(l.cut count).log, (Layout.read_front_iff wf hsplit hstrict).2
          ⟨count, hcount, hfront.trans ?_, rfl⟩⟩
        simp [Layout.cut, Layout.bytes, Layout.footerBytes]
    · intro log h
      obtain ⟨count, -, -, rfl⟩ := (Layout.read_front_iff wf hsplit hstrict).1 h
      exact ⟨rfl, rfl⟩

end TraceLog
