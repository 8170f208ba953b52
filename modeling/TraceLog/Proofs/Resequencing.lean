/-
**Records in the order of their numbers.**

Records may arrive in any order, twice, or long after they should have.  Whatever the pattern, what
the resequencer has written are the records from its first number up to the one it waits for, and
what it has parked are the records above that one.  The invariant says so about the records written
one behind the other; an arrival adds records at the end of these, and a flush moves nothing.

Main definitions:

* `Sink.Reliable` — a sink that refuses nothing;
* `Resequencer.Wrote` — which records were written, and that the file, the counter and the totals
  say so;
* `Resequencer.Watched`, `Watched.run` — a resequencer with what its caller has seen, after some
  arrivals and flushes;
* `Watched.Exact` — the invariant.

Main results:

* `Resequencer.wrote_writeAll` — a row of records is written behind the others;
* `Resequencer.accept_cases` — **what one arrival does**;
* `Watched.run_exact` — **resequencing is exact**, for every pattern of arrivals.
-/

import TraceLog.Proofs.Arrivals
import Mathlib.Order.Bounds.Defs

set_option relaxedAutoImplicit false
set_option autoImplicit false

namespace TraceLog

/-! ### Sinks that refuse nothing -/

/-- A sink refuses nothing. -/
def Sink.Reliable (s : Sink) : Prop :=
  ∀ attempt held offered, s.refusal attempt held offered = none

theorem Sink.reliable_reliable (bs : Spool) : (Sink.reliable bs).Reliable := fun _ _ _ => rfl

theorem Sink.Reliable.write {s : Sink} (h : s.Reliable) (bs : Bytes) :
    ∃ s', s.write bs = (.ok (), s') ∧ s'.Reliable ∧ s'.bytes = s.bytes ++ bs := by
  refine ⟨{ s with taken := s.taken.append bs, attempts := s.attempts + 1 }, ?_, h, ?_⟩
  · simp [Sink.write, h s.attempts s.taken.size bs.length]
  · simp [Sink.bytes]

namespace BufferedSink

/-- A flush to a sink that refuses nothing succeeds, and then nothing waits. -/
theorem flush_of_reliable {b : BufferedSink} (h : b.sink.Reliable) :
    ∃ b', b.flush = (.ok (), b') ∧ b'.sink.Reliable ∧ b'.contents = b.contents ∧
      b'.sink.bytes = b.contents := by
  have hok : ∃ b', b.flush = (.ok (), b') ∧ b'.sink.Reliable := by
    unfold flush
    split
    · exact ⟨b, rfl, h⟩
    · obtain ⟨s', hs, hs', -⟩ := h.write b.waiting.toBytes
      exact ⟨⟨s', .empty⟩, by rw [hs], hs'⟩
  obtain ⟨b', hb, hb'⟩ := hok
  have hcontents : b'.contents = b.contents := by rw [← contents_flush b, hb]
  refine ⟨b', hb, hb', hcontents, ?_⟩
  rw [← hcontents, contents, waiting_flush hb, List.append_nil]

theorem place_of_reliable {b : BufferedSink} (h : b.sink.Reliable)
    (bs : Bytes) (hroom : b.waiting.toBytes = [] ∨ bs.length < capacity) :
    ∃ b', b.place bs = (.ok (), b') ∧ b'.sink.Reliable ∧ b'.contents = b.contents ++ bs := by
  unfold place
  split
  · rename_i hlong
    have hempty : b.waiting.toBytes = [] := by
      rcases hroom with hempty | hshort
      · exact hempty
      · omega
    obtain ⟨s', hs, hs', hbytes⟩ := h.write bs
    refine ⟨{ b with sink := s' }, by rw [hs], hs', ?_⟩
    simp [contents, hbytes, hempty]
  · exact ⟨b.hold bs, rfl, h, contents_hold b bs⟩

/-- **Bytes that are written to a sink that refuses nothing come behind those before them**,
whether they wait or not. -/
theorem write_of_reliable {b : BufferedSink} (h : b.sink.Reliable) (bs : Bytes) :
    ∃ b', b.write bs = (.ok (), b') ∧ b'.sink.Reliable ∧ b'.contents = b.contents ++ bs := by
  unfold write
  split
  · exact ⟨b.hold bs, rfl, h, contents_hold b bs⟩
  split
  · obtain ⟨b₁, hflush, hb₁, hcontents, -⟩ := flush_of_reliable h
    have hempty := waiting_flush hflush
    obtain ⟨b', hplace, hb', hcontents'⟩ := place_of_reliable hb₁ bs (Or.inl hempty)
    refine ⟨b', ?_, hb', by rw [hcontents', hcontents]⟩
    rw [hflush]
    exact hplace
  · -- the bytes fill the room exactly, so that nothing waits if they are too long to wait
    rename_i hfill hfits
    refine place_of_reliable h bs ?_
    have hroom : bs.length = b.room := by omega
    by_cases hwaiting : b.waiting.size = 0
    · exact Or.inl (List.eq_nil_of_length_eq_zero (by simp [hwaiting]))
    · refine Or.inr ?_
      rw [hroom, room]
      simp only [capacity]
      omega

end BufferedSink

namespace Resequencer

/-! ### What was written -/

/-- The records in `written` were written one behind the other to a file that held something
already: the file, the counter and the totals say so. -/
structure Wrote (sink : Sink) (base : Totals) (written : List Record) (w : Resequencer) :
    Prop where
  next_eq : w.next = base.containers.toNat + written.length
  numbers : written.map (·.sequence.toNat) =
    List.range' base.containers.toNat written.length
  contents_eq : w.out.contents = sink.bytes ++ Image.unfinished written
  totals_eq : w.totals = (written.map (·.header)).foldl Totals.add base
  reliable : w.out.sink.Reliable

variable {sink : Sink} {base : Totals} {written : List Record} {w : Resequencer}

theorem wrote_resume (reliable : sink.Reliable) (base : Totals) :
    Wrote sink base [] (resume sink base) where
  next_eq := rfl
  numbers := rfl
  contents_eq := by simp [resume, BufferedSink.ofSink, BufferedSink.contents, Image.unfinished]
  totals_eq := rfl
  reliable := reliable

/-- A record is among those written exactly if its number lies between the first and the next. -/
theorem Wrote.mem_numbers (h : Wrote sink base written w) {n : Nat} :
    n ∈ written.map (·.sequence.toNat) ↔ base.containers.toNat ≤ n ∧ n < w.next := by
  rw [h.numbers, List.mem_range'_1, h.next_eq]

/-- A record is written to a file that refuses nothing. -/
theorem writeRecord_of_reliable (reliable : w.out.sink.Reliable) (r : Record) :
    ∃ out, w.writeRecord r = (.ok r.header.rawSize.toNat,
        { w with out, totals := w.totals.add r.header, next := w.next + 1, dirty := true }) ∧
      out.sink.Reliable ∧ out.contents = w.out.contents ++ r.bytes := by
  obtain ⟨out₁, hheader, hout₁, hcontents₁⟩ :=
    BufferedSink.write_of_reliable reliable r.header.encode
  obtain ⟨out₂, hdata, hout₂, hcontents₂⟩ := BufferedSink.write_of_reliable hout₁ r.data
  refine ⟨out₂, ?_, hout₂, ?_⟩
  · simp only [writeRecord, hheader, hdata]
  · rw [hcontents₂, hcontents₁, Record.bytes, List.append_assoc]

/-- **The record that comes next is written** behind the others. -/
theorem wrote_writeRecord (h : Wrote sink base written w) {r : Record}
    (hnext : r.sequence.toNat = w.next) :
    ∃ w', w.writeRecord r = (.ok r.header.rawSize.toNat, w') ∧ w'.parked = w.parked ∧
      Wrote sink base (written ++ [r]) w' := by
  obtain ⟨out, hwrite, hout, hcontents⟩ := writeRecord_of_reliable h.reliable r
  refine ⟨_, hwrite, rfl, ?_, ?_, ?_, ?_, hout⟩
  · simp only [h.next_eq, List.length_append, List.length_singleton, Nat.add_assoc]
  · rw [List.map_append, h.numbers, List.length_append, List.length_singleton,
      List.range'_1_concat, ← h.next_eq, ← hnext]
    rfl
  · simp only [hcontents, h.contents_eq, Image.unfinished_append, List.append_assoc]
    simp [Image.unfinished]
  · simp [h.totals_eq]

/-- What is parked makes no difference to what was written. -/
theorem Wrote.park (h : Wrote sink base written w) (parked : List Record) :
    Wrote sink base written { w with parked } :=
  ⟨h.next_eq, h.numbers, h.contents_eq, h.totals_eq, h.reliable⟩

/-- **A row of records is written** behind the others, if it goes on with their numbers. -/
theorem wrote_writeAll {rs : List Record} (size : Nat) (h : Wrote sink base written w)
    (hnumbers : rs.map (·.sequence.toNat) = List.range' w.next rs.length) :
    ∃ w', writeAll size rs w = (.ok (size + (rs.map (·.header.rawSize.toNat)).sum), w') ∧
      Wrote sink base (written ++ rs) w' := by
  induction rs generalizing written size w with
  | nil => exact ⟨w, rfl, by simpa using h⟩
  | cons r rs ih =>
      rw [List.map_cons, List.length_cons, List.range'_succ, List.cons.injEq] at hnumbers
      obtain ⟨w₁, hwrite, -, hwrote₁⟩ := wrote_writeRecord h hnumbers.1
      have hnext₁ := (counted_of_writeRecord hwrite).2.1
      obtain ⟨w', hrow, hwrote'⟩ := ih (size + r.header.rawSize.toNat) hwrote₁
        (by rw [hnext₁]; exact hnumbers.2)
      refine ⟨w', ?_, by simpa using hwrote'⟩
      simp only [writeAll, hwrite, hrow, List.map_cons, List.sum_cons, Nat.add_assoc]

/-! ### Arrivals -/

/-- **What one arrival does.**  A number that was there before, or that lies in front of the first
one, is an error that changes nothing; any other record is taken, and those that can be written now
are added to those written. -/
theorem accept_cases (h : Wrote sink base written w)
    (above : ∀ r ∈ w.parked, w.next < r.sequence.toNat)
    (nodup : (w.parked.map (·.sequence.toNat)).Nodup) (r : Record) :
    (r.sequence.toNat < base.containers.toNat ∨
        r.sequence.toNat ∈ (written ++ w.parked).map (·.sequence.toNat)) ∧
      (∃ fault, w.accept r = (.error (.internal fault), w)) ∨
    (base.containers.toNat ≤ r.sequence.toNat ∧
        r.sequence.toNat ∉ (written ++ w.parked).map (·.sequence.toNat)) ∧
      ∃ more w', w.accept r = (.ok (more.map (·.header.rawSize.toNat)).sum, w') ∧
        Wrote sink base (written ++ more) w' ∧ (more ++ w'.parked).Perm (r :: w.parked) ∧
        ∀ x ∈ w'.parked, w'.next < x.sequence.toNat := by
  have hfirst : base.containers.toNat ≤ w.next := by
    rw [h.next_eq]
    omega
  have hmem : r.sequence.toNat ∈ (written ++ w.parked).map (·.sequence.toNat) ↔
      (base.containers.toNat ≤ r.sequence.toNat ∧ r.sequence.toNat < w.next) ∨
        r.sequence.toNat ∈ w.parked.map (·.sequence.toNat) := by
    rw [List.map_append, List.mem_append, h.mem_numbers]
  rw [hmem]
  rcases accept_eq w above nodup r with ⟨hold, hfault⟩ | ⟨⟨hle, hnew⟩, row, left, hrow⟩
  · refine Or.inl ⟨?_, hfault⟩
    rcases hold with hlt | hin
    · omega
    · exact Or.inr (Or.inr hin)
  · obtain ⟨hnumbers, -, haccept, hleft⟩ := hrow
    obtain ⟨w', hwrite, hwrote'⟩ := wrote_writeAll 0 h hnumbers
    rw [Nat.zero_add] at hwrite
    rw [hwrite] at haccept hleft
    obtain ⟨hperm, habove⟩ := hleft _ rfl
    refine Or.inr ⟨⟨by omega, ?_⟩, row, { w' with parked := left }, haccept, hwrote'.park left,
      hperm, fun x hx => ?_⟩
    · rintro (⟨-, hlt⟩ | hin)
      · omega
      · exact hnew hin
    · have hnext := (counted_of_writeAll hwrite).2.1
      simp only [hnext]
      exact habove x hx

/-- A flush succeeds, and moves neither the counter nor what is parked. -/
theorem wrote_flush (h : Wrote sink base written w) :
    ∃ w', w.flush = (.ok (), w') ∧ w'.parked = w.parked ∧ w'.next = w.next ∧
      Wrote sink base written w' := by
  unfold flush
  split
  · obtain ⟨out, hflush, hout, hcontents, -⟩ := BufferedSink.flush_of_reliable h.reliable
    refine ⟨{ w with out := out, dirty := false }, by rw [hflush], rfl, rfl, ?_⟩
    exact ⟨h.next_eq, h.numbers, hcontents.trans h.contents_eq, h.totals_eq, hout⟩
  · exact ⟨w, rfl, rfl, rfl, h⟩

/-- A file that is given up holds what was written, without a footer. -/
theorem Wrote.bytes_abandon (h : Wrote sink base written w) :
    w.abandon.bytes = sink.bytes ++ Image.unfinished written := by
  obtain ⟨out, hflush, -, -, hbytes⟩ := BufferedSink.flush_of_reliable h.reliable
  rw [abandon, BufferedSink.abandon, hflush, hbytes, h.contents_eq]

/-- A footer is put behind what was written, and all of it is passed on. -/
theorem writeFooter_eq (h : Wrote sink base written w) (truncated : Bool) :
    ∃ file : Sink, w.writeFooter truncated = (.ok w.totals, file) ∧
      file.bytes = sink.bytes ++ Image.unfinished written ++
        (Footer.ofTotals w.totals truncated).encode := by
  obtain ⟨out₁, hwrite, hout₁, hcontents₁⟩ :=
    BufferedSink.write_of_reliable h.reliable (Footer.ofTotals w.totals truncated).encode
  obtain ⟨out₂, hflush, hout₂, -, hbytes⟩ := BufferedSink.flush_of_reliable hout₁
  refine ⟨out₂.sink, ?_, ?_⟩
  · simp only [writeFooter, hwrite, hflush]
  · rw [hbytes, hcontents₁, h.contents_eq]

/-- **A file is finished exactly if nothing is parked and the next number is the one asked for.**
Otherwise it is given up, and what was written is passed on without a footer. -/
theorem finish_cases (h : Wrote sink base written w) (sealedCount : Nat) :
    (w.parked = [] ∧ w.next = sealedCount) ∧
      (∃ file : Sink, w.finish sealedCount = (.ok w.totals, file) ∧
        file.bytes = sink.bytes ++ Image.unfinished written ++
          (Footer.ofTotals w.totals false).encode) ∨
    ¬ (w.parked = [] ∧ w.next = sealedCount) ∧
      ∃ file : Sink, w.finish sealedCount =
          (.error (.drainIncomplete w.next sealedCount w.parked.length), file) ∧
        file.bytes = sink.bytes ++ Image.unfinished written := by
  have hcondition : (w.parked.isEmpty && w.next == sealedCount) = true ↔
      w.parked = [] ∧ w.next = sealedCount := by
    rw [Bool.and_eq_true, List.isEmpty_iff, beq_iff_eq]
  unfold finish
  split
  · rename_i hfinish
    exact Or.inl ⟨hcondition.1 hfinish, writeFooter_eq h false⟩
  · rename_i hfinish
    exact Or.inr ⟨fun hdone => hfinish (hcondition.2 hdone), w.abandon, rfl, h.bytes_abandon⟩

end Resequencer

/-! ### Every pattern of arrivals -/

/-- What is asked of a resequencer while a file is written. -/
inductive Resequencer.Call where
  | accept (r : Record)
  | flush

/-- A resequencer with what its caller has seen of it. -/
structure Watched where
  writer : Resequencer
  /-- The records that were taken, in the order in which they arrived. -/
  accepted : List Record
  /-- The sum of the answers to the arrivals that succeeded. -/
  returned : Nat

namespace Watched

open Resequencer (Call Wrote)

/-- One call. -/
def perform (s : Watched) : Call → Watched
  | .accept r =>
      match s.writer.accept r with
      | (.ok size, w) => ⟨w, s.accepted ++ [r], s.returned + size⟩
      | (.error _, w) => { s with writer := w }
  | .flush => { s with writer := s.writer.flush.2 }

/-- Some calls to the resequencer of a file that holds the records with the given totals. -/
def run (sink : Sink) (base : Totals) (calls : List Call) : Watched :=
  calls.foldl perform ⟨.resume sink base, [], 0⟩

theorem run_concat (sink : Sink) (base : Totals) (calls : List Call) (call : Call) :
    run sink base (calls ++ [call]) = (run sink base calls).perform call := by
  rw [run, List.foldl_append]
  rfl

/-- The invariant: what was taken is written or parked, and it is written as far as it follows
without a gap. -/
structure Exact (sink : Sink) (base : Totals) (written : List Record) (s : Watched) : Prop where
  wrote : Wrote sink base written s.writer
  above : ∀ r ∈ s.writer.parked, s.writer.next < r.sequence.toNat
  perm : (written ++ s.writer.parked).Perm s.accepted
  nodup : (s.accepted.map (·.sequence.toNat)).Nodup
  returned_eq : s.returned = (written.map (·.header.rawSize.toNat)).sum

variable {sink : Sink} {base : Totals} {written : List Record} {s : Watched}

theorem Exact.tally (h : Exact sink base written s) :
    Resequencer.Tally base.containers.toNat written s.accepted s.writer :=
  ⟨h.wrote.next_eq, h.wrote.numbers, h.above, h.perm, h.nodup⟩

theorem Exact.nodup_parked (h : Exact sink base written s) :
    (s.writer.parked.map (·.sequence.toNat)).Nodup := h.tally.nodup_parked

theorem Exact.mem_numbers (h : Exact sink base written s) {n : Nat} :
    n ∈ (written ++ s.writer.parked).map (·.sequence.toNat) ↔
      n ∈ s.accepted.map (·.sequence.toNat) := h.tally.mem_numbers

theorem exact_start (reliable : sink.Reliable) (base : Totals) :
    Exact sink base [] ⟨.resume sink base, [], 0⟩ where
  wrote := Resequencer.wrote_resume reliable base
  above := by simp [Resequencer.resume]
  perm := .refl _
  nodup := List.nodup_nil
  returned_eq := rfl

/-- **One call keeps the invariant.** -/
theorem Exact.perform (h : Exact sink base written s) (call : Call) :
    ∃ more, Exact sink base (written ++ more) (s.perform call) := by
  cases call with
  | flush =>
      obtain ⟨w', hflush, hparked, hnext, hwrote⟩ := Resequencer.wrote_flush h.wrote
      refine ⟨[], ?_⟩
      rw [List.append_nil, Watched.perform, hflush]
      refine ⟨hwrote, ?_, ?_, h.nodup, h.returned_eq⟩
      · intro r hr
        rw [hnext]
        exact h.above r (hparked ▸ hr)
      · simpa only [hparked] using h.perm
  | accept r =>
      rcases Resequencer.accept_cases h.wrote h.above h.nodup_parked r with
        ⟨-, fault, hfault⟩ | ⟨⟨-, hnew⟩, more, w', hok, hwrote, hperm, habove⟩
      · refine ⟨[], ?_⟩
        rw [List.append_nil, Watched.perform, hfault]
        exact h
      · refine ⟨more, ?_⟩
        rw [Watched.perform, hok]
        have htaken : (written ++ more ++ w'.parked).Perm (s.accepted ++ [r]) := by
          rw [List.append_assoc]
          refine (hperm.append_left written).trans ?_
          refine (List.perm_middle).trans ?_
          exact (h.perm.cons r).trans (List.perm_append_singleton r s.accepted).symm
        refine ⟨hwrote, habove, htaken, ?_, ?_⟩
        · rw [h.mem_numbers] at hnew
          rw [List.map_append, List.nodup_append]
          refine ⟨h.nodup, by simp, ?_⟩
          rintro n hn m hm rfl
          rw [List.map_singleton, List.mem_singleton] at hm
          exact hnew (hm ▸ hn)
        · rw [List.map_append, List.sum_append, h.returned_eq]

/-- A number is taken when a record with it arrives that does not lie in front of the first one. -/
theorem Exact.mem_accepted_perform (h : Exact sink base written s) (call : Call) (n : Nat) :
    n ∈ (s.perform call).accepted.map (·.sequence.toNat) ↔
      n ∈ s.accepted.map (·.sequence.toNat) ∨
        base.containers.toNat ≤ n ∧ ∃ r, call = .accept r ∧ r.sequence.toNat = n := by
  cases call with
  | flush => simp [Watched.perform]
  | accept r =>
      simp only [Call.accept.injEq, exists_eq_left']
      rcases Resequencer.accept_cases h.wrote h.above h.nodup_parked r with
        ⟨hold, fault, hfault⟩ | ⟨⟨hfirst, -⟩, more, w', hok, -⟩
      · rw [h.mem_numbers] at hold
        rw [Watched.perform, hfault]
        constructor
        · exact Or.inl
        · rintro (hin | ⟨hge, rfl⟩)
          · exact hin
          · rcases hold with hlt | hin
            · omega
            · exact hin
      · rw [Watched.perform, hok]
        simp only [List.map_append, List.map_singleton, List.mem_append, List.mem_singleton]
        refine or_congr_right ⟨?_, ?_⟩
        · rintro rfl
          exact ⟨hfirst, rfl⟩
        · rintro ⟨-, rfl⟩
          rfl

/-- **A whole run keeps the invariant**, and takes the numbers that arrived. -/
theorem exists_exact_run (reliable : sink.Reliable) (base : Totals) (calls : List Call) :
    ∃ written, Exact sink base written (run sink base calls) ∧
      ∀ n, n ∈ (run sink base calls).accepted.map (·.sequence.toNat) ↔
        base.containers.toNat ≤ n ∧ ∃ r, Call.accept r ∈ calls ∧ r.sequence.toNat = n := by
  induction calls using List.reverseRecOn with
  | nil => exact ⟨[], exact_start reliable base, by simp [run]⟩
  | append_singleton calls call ih =>
      obtain ⟨written, hexact, hmem⟩ := ih
      obtain ⟨more, hmore⟩ := hexact.perform call
      rw [run_concat]
      refine ⟨written ++ more, hmore, fun n => ?_⟩
      rw [hexact.mem_accepted_perform call n, hmem n, ← and_or_left]
      refine and_congr_right fun _ => ⟨?_, ?_⟩
      · rintro (⟨r, hr, hn⟩ | ⟨r, rfl, hn⟩)
        · exact ⟨r, List.mem_append_left _ hr, hn⟩
        · exact ⟨r, List.mem_append_right _ (List.mem_singleton.2 rfl), hn⟩
      · rintro ⟨r, hr, hn⟩
        rcases List.mem_append.1 hr with hr | hr
        · exact Or.inl ⟨r, hr, hn⟩
        · exact Or.inr ⟨r, (List.mem_singleton.1 hr).symm, hn⟩

/-! ### What the invariant says -/

/-- **Resequencing is exact**, for every pattern of arrivals.

After any calls to a resequencer whose file refuses nothing, where `first` is the number of records
that were there from the beginning: an arrival fails exactly if its number is in front of `first` or
was taken before, always with an internal error, and it then changes nothing; the number waited for
is the least one from `first` on that has not arrived; the parked records are the ones taken above
it; those below it stand in the file in ascending order, behind its buffer; the totals are those of
their headers, and the answers add up to their framed bytes; and the file can be finished exactly if
the numbers taken run from `first` up to the number of containers sealed. -/
theorem run_exact (reliable : sink.Reliable) (base : Totals) (calls : List Call) :
    (∀ r,
      ((∃ error, ((run sink base calls).writer.accept r).1 = .error error) ↔
        r.sequence.toNat < base.containers.toNat ∨
          ∃ a ∈ (run sink base calls).accepted, a.sequence = r.sequence) ∧
      ∀ error w, (run sink base calls).writer.accept r = (.error error, w) →
        (∃ fault, error = .internal fault) ∧ w = (run sink base calls).writer) ∧
    IsLeast {n | base.containers.toNat ≤ n ∧ ∀ r, Call.accept r ∈ calls → r.sequence.toNat ≠ n}
      (run sink base calls).writer.next ∧
    (run sink base calls).writer.parked.Perm ((run sink base calls).accepted.filter
      ((run sink base calls).writer.next < ·.sequence.toNat)) ∧
    (∃ written : List Record,
      written.Perm ((run sink base calls).accepted.filter
        (·.sequence.toNat < (run sink base calls).writer.next)) ∧
      written.map (·.sequence.toNat) = List.range' base.containers.toNat
        ((run sink base calls).writer.next - base.containers.toNat) ∧
      (run sink base calls).writer.out.contents = sink.bytes ++ written.flatMap Record.bytes ∧
      (run sink base calls).writer.totals = (written.map (·.header)).foldl Totals.add base ∧
      (run sink base calls).returned = (written.map (·.header.rawSize.toNat)).sum) ∧
    ∀ sealedCount,
      ((∃ totals file, (run sink base calls).writer.finish sealedCount = (.ok totals, file)) ↔
        base.containers.toNat ≤ sealedCount ∧
          ∀ n, (∃ a ∈ (run sink base calls).accepted, a.sequence.toNat = n) ↔
            base.containers.toNat ≤ n ∧ n < sealedCount) ∧
      (∀ totals file, (run sink base calls).writer.finish sealedCount = (.ok totals, file) →
        totals = (run sink base calls).writer.totals ∧
        file.bytes = (run sink base calls).writer.out.contents ++
          (Footer.ofTotals totals false).encode) ∧
      ∀ error file, (run sink base calls).writer.finish sealedCount = (.error error, file) →
        error = .drainIncomplete (run sink base calls).writer.next sealedCount
          (run sink base calls).writer.parked.length ∧
        file.bytes = (run sink base calls).writer.out.contents := by
  obtain ⟨written, h, hmem⟩ := exists_exact_run reliable base calls
  generalize run sink base calls = s at h hmem ⊢
  have hfirst : base.containers.toNat ≤ s.writer.next := by
    rw [h.wrote.next_eq]
    omega
  refine ⟨fun r => ?_, ?_, h.tally.perm_filter.2, ⟨written, h.tally.perm_filter.1, ?_,
    h.wrote.contents_eq, h.wrote.totals_eq, h.returned_eq⟩, fun sealedCount => ?_⟩
  · -- arrivals that fail
    have htaken : (∃ a ∈ s.accepted, a.sequence = r.sequence) ↔
        r.sequence.toNat ∈ (written ++ s.writer.parked).map (·.sequence.toNat) := by
      rw [h.mem_numbers]
      simp [UInt64.toNat_inj]
    rw [htaken]
    rcases Resequencer.accept_cases h.wrote h.above h.nodup_parked r with
      ⟨hold, fault, hfault⟩ | ⟨⟨hge, hnew⟩, more, w', hok, -⟩
    · rw [hfault]
      refine ⟨⟨fun _ => hold, fun _ => ⟨_, rfl⟩⟩, ?_⟩
      rintro error w ⟨⟩
      exact ⟨⟨fault, rfl⟩, rfl⟩
    · rw [hok]
      refine ⟨⟨?_, ?_⟩, ?_⟩
      · rintro ⟨error, ⟨⟩⟩
      · rintro (hlt | hin)
        · omega
        · exact absurd hin hnew
      · rintro error w ⟨⟩
  · -- the number waited for
    constructor
    · refine ⟨hfirst, fun r hr hn => h.tally.next_not_mem ((hmem _).2 ⟨hfirst, r, hr, hn⟩)⟩
    · rintro n ⟨hge, hnot⟩
      by_cases hlt : n < s.writer.next
      · obtain ⟨-, r, hr, hn⟩ := (hmem n).1 (h.tally.mem_taken_of_lt hge hlt)
        exact absurd hn (hnot r hr)
      · exact Nat.le_of_not_lt hlt
  · rw [h.wrote.numbers, h.wrote.next_eq, Nat.add_sub_cancel_left]
  · -- finishing
    have hgapless := h.tally.gapless_iff sealedCount
    simp only [List.mem_map] at hgapless
    rw [← hgapless]
    rcases Resequencer.finish_cases h.wrote sealedCount with
      ⟨hdone, file, hfinish, hbytes⟩ | ⟨hnot, file, hfinish, hbytes⟩
    · rw [hfinish]
      refine ⟨⟨fun _ => hdone, fun _ => ⟨_, _, rfl⟩⟩, ?_, ?_⟩
      · rintro totals file ⟨⟩
        exact ⟨rfl, by rw [hbytes, h.wrote.contents_eq]⟩
      · rintro error file ⟨⟩
    · rw [hfinish]
      refine ⟨⟨?_, fun hdone => absurd hdone hnot⟩, ?_, ?_⟩
      · rintro ⟨totals, file, ⟨⟩⟩
      · rintro totals file ⟨⟩
      · rintro error file ⟨⟩
        exact ⟨rfl, by rw [hbytes, h.wrote.contents_eq]⟩

/-- Record two arrives before record zero and once more after it, so that record one is waited for,
and the file cannot be finished behind record two. -/
theorem run_exact_gap :
    let two : Record := ⟨⟨.ofId 0, 2, 1, 5, 5, 4, 1⟩, [7]⟩
    let zero : Record := ⟨⟨.ofId 0, 0, 1, 3, 3, 4, 1⟩, [8]⟩
    let s := run (.reliable .empty) .zero [.accept two, .accept zero, .flush, .accept two]
    s.writer.next = 1 ∧ s.writer.parked.Perm [two] ∧
      ¬ ∃ totals file, s.writer.finish 3 = (.ok totals, file) := by
  intro two zero s
  have hnext : s.writer.next = 1 := by decide
  have haccepted : s.accepted = [two, zero] := by decide
  have hexact := run_exact (Sink.reliable_reliable .empty) .zero
    [.accept two, .accept zero, .flush, .accept two]
  rw [show run (.reliable .empty) .zero [.accept two, .accept zero, .flush, .accept two] = s
    from rfl] at hexact
  clear_value s
  obtain ⟨-, -, hparked, -, hfinish⟩ := hexact
  rw [hnext, haccepted] at hparked
  refine ⟨hnext, hparked.trans (.of_eq (by decide)), fun hok => ?_⟩
  -- record one was not taken
  obtain ⟨a, ha, hone⟩ := (((hfinish 3).1.1 hok).2 1).2 (by decide)
  rw [haccepted] at ha
  rcases List.mem_cons.1 ha with rfl | ha
  · exact absurd hone (by decide)
  · rw [List.mem_singleton.1 ha] at hone
    exact absurd hone (by decide)

end Watched

end TraceLog
