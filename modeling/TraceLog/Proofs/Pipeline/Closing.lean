/-
**How a file is closed.**

When the scribe has come to its end in a run in which nothing goes wrong, every container that was
sealed has arrived: nothing is parked any more, and what was written are the records of the
containers that one builder makes of the commands, in the order of the channel.  So the file can be
finished, and it is finished by the one call that has closed the desk.

Main definitions:

* `Pipeline.footing`, `Pipeline.expected` — the totals and the bytes that the commands lead to;
* `Pipeline.Closed` — what calls to close bring about.

Main results:

* `Pipeline.Smooth.conclusion_eq` — **what becomes of a file that is drained**;
* `Pipeline.HasConcluded.closed` — whoever concludes the file is told that it is finished;
* `Pipeline.Run.closed` — what calls to close are answered, and what the file then holds.
-/

import TraceLog.Proofs.Pipeline.Concluding
import TraceLog.Proofs.Pipeline.Smooth

set_option relaxedAutoImplicit false
set_option autoImplicit false

namespace TraceLog

namespace Pipeline

variable {sink : Sink} {base : Totals} {threshold : UInt32} {log : History} {p : Pipeline}

/-! ### When everyone has ended -/

/-- When the scribe has ended, the records that it took are those of the containers that the builder
makes of the commands. -/
theorem Smooth.records_perm (smooth : Smooth sink base log p)
    (senders : p.completions.senders = p.workers.countP (·.isConnected))
    (staffed : p.workers ≠ []) (ended : p.scribe.stage = .finished)
    (batched : Batched (.start threshold base.containers.toNat) log p)
    (favourable : Favourable (.start threshold base.containers.toNat) log p) :
    log.sealed = (Builder.start threshold base.containers.toNat).batches log.entered ∧
      (Image.records p.codec log.sealed).Perm log.taken := by
  obtain ⟨hfinished, hunderway⟩ := smooth.toIntact.drained senders staffed ended
  have hlast : p.batcher.stage.isLast = true := by rw [hfinished]; rfl
  constructor
  · exact smooth.sealed_eq batched smooth.running hlast
  · have hkept := smooth.kept
    rw [hunderway, zero_add, smooth.departed_eq batched favourable, History.arrived] at hkept
    have hinjective : Function.Injective fun r : Record => some (Completion.done r) :=
      fun r r' h => Completion.done.inj (Option.some.inj h)
    exact Multiset.coe_eq_coe.1 (Multiset.map_injective hinjective hkept.symm)

/-- The totals of a file that held records with the totals `base`, behind some commands. -/
def footing (codec : Codec) (b₀ : Builder) (base : Totals) (commands : List Command) : Totals :=
  ((Image.records codec (b₀.batches commands)).map (·.header)).foldl Totals.add base

/-- What is put behind the records of a file by some commands, if it is finished then. -/
def expected (codec : Codec) (b₀ : Builder) (base : Totals) (commands : List Command) : Bytes :=
  Image.unfinished (Image.records codec (b₀.batches commands)) ++
    (Footer.ofTotals (footing codec b₀ base commands) false).encode

/-- **What becomes of a file that is drained**: it is finished, with the records of all containers
in it. -/
theorem Smooth.conclusion_eq (smooth : Smooth sink base log p)
    (senders : p.completions.senders = p.workers.countP (·.isConnected))
    (staffed : p.workers ≠ []) (ended : p.scribe.stage = .finished)
    (batched : Batched (.start threshold base.containers.toNat) log p)
    (favourable : Favourable (.start threshold base.containers.toNat) log p) {sealedCount : Nat}
    (counted : p.batcher.sealedCount? = some sealedCount) :
    ∃ file : Sink, p.conclusion .drained sealedCount =
        (.ok (.finished ⟨footing p.codec (.start threshold base.containers.toNat) base log.entered,
          file.taken.size, false⟩), file) ∧
      file.bytes = sink.bytes ++
        expected p.codec (.start threshold base.containers.toNat) base log.entered := by
  obtain ⟨hsealed, hperm⟩ := smooth.records_perm senders staffed ended batched favourable
  have hnumbers := smooth.numbers_records batched favourable
  obtain ⟨groups, hrow, -, hcount, -⟩ := batched.made.exists_row
  have hsealedCount : base.containers.toNat + log.sealed.length = sealedCount := by
    rw [hrow, Container.length_row, ← hcount]
    exact (Batcher.sealedCount?_eq_some_iff.1 counted).2
  obtain ⟨written, returned, hexact⟩ := smooth.exact
  -- the numbers taken are those of the containers, so that nothing is parked
  have hgapless : p.scribe.writer.parked = [] ∧ p.scribe.writer.next = sealedCount := by
    refine (hexact.tally.gapless_iff sealedCount).2 ⟨by omega, fun n => ?_⟩
    rw [← (hperm.map (·.sequence.toNat)).mem_iff, hnumbers, List.mem_range'_1, hsealedCount]
  have hwritten : written = Image.records p.codec log.sealed := by
    refine (written_eq_records hexact batched favourable.few (le_of_eq smooth.kept) ?_).2
    rw [hgapless.2, hsealedCount]
  have htotals : p.scribe.writer.totals =
      footing p.codec (.start threshold base.containers.toNat) base log.entered := by
    rw [footing, ← hsealed, ← hwritten]
    exact hexact.wrote.totals_eq
  obtain ⟨file, ⟨-, -, hconclusion, hbytes⟩ | ⟨error, hfailed, -⟩⟩ :=
    conclusion_cases hexact.wrote .drained sealedCount
  · refine ⟨file, ?_, ?_⟩
    · rw [hconclusion, htotals]
      rfl
    · rw [hbytes, hwritten, hsealed, List.append_assoc, expected, ← htotals]
      rfl
  · rcases hfailed with hfailure | ⟨-, hgap, -⟩
    · rw [smooth.faultless] at hfailure
      cases hfailure
    · exact absurd hgapless hgap

/-! ### Calls to close -/

/-- What calls to close have brought about: the file holds what the commands lead to, and whoever
was not told so has found the desk closed by a call that is told so in the end. -/
structure Closed (sink : Sink) (base : Totals) (threshold : UInt32) (log : History)
    (p : Pipeline) : Prop where
  file : ∀ file, p.closedFile = some file → p.shared.commands.closed = true ∧
    file.bytes = sink.bytes ++
      expected p.codec (.start threshold base.containers.toNat) base log.entered
  answer : ∀ id result, .asked id .close ∈ log → .answered id result ∈ log →
    (∃ file, p.closedFile = some file ∧ result = .ok (.finished
      ⟨footing p.codec (.start threshold base.containers.toNat) base log.entered,
        file.taken.size, false⟩)) ∨
    (result = .error .closed ∧ p.desk.closed = true)
  closer : p.desk.closed = true → ∃ id stage, .asked id .close ∈ log ∧ p.stage? id = some stage ∧
    (stage.isClosing = true ∨ ∃ summary, stage = .returned (.ok (.finished summary)))

variable {settings : Settings} {origin : Pipeline} {id : Nat}

/-- What is favourable about a run whose file is at rest was so when the file was concluded. -/
theorem Favourable.of_still {b₀ : Builder} {before : History} {q : Pipeline}
    (h : Favourable b₀ log p) (still : Still before q log p) (rest : AtRest p) :
    Favourable b₀ before q := by
  obtain ⟨hunaborted, hstorable, hlast, hfew⟩ := h
  rw [still.entered_eq, still.codec_eq] at hstorable hlast
  rw [History.events, still.entered_eq] at hfew
  exact ⟨fun id hin => hunaborted id (still.earlier.subset hin), hstorable,
    fun _ => hlast rest.commands, hfew⟩

/-- **A call that has concluded the file was told so**, and the file holds what the commands lead
to. -/
theorem HasConcluded.closed (h : HasConcluded origin log p id)
    (opened : Pipeline.start settings sink base = .ok origin) (reliable : sink.Reliable)
    (favourable : Favourable (.start settings.containerSize base.containers.toNat) log p) :
    AtRest p ∧ .asked id .close ∈ log ∧ ∃ file, p.closedFile = some file ∧
      p.stage? id = some (.returned (.ok (.finished
        ⟨footing p.codec (.start settings.containerSize base.containers.toNat) base log.entered,
          file.taken.size, false⟩))) ∧
      file.bytes = sink.bytes ++
        expected p.codec (.start settings.containerSize base.containers.toNat) base
          log.entered := by
  obtain ⟨before, q, ending, n, hrun, hconcluding, ⟨request, hasked, hends⟩, hanswered, hfile,
    hstill, hrest⟩ := h
  obtain ⟨hclose, rfl⟩ := Callers.asked_close favourable.unaborted hasked hends
  have hbefore := favourable.of_still hstill hrest
  obtain ⟨hcounted, hfinished⟩ := (hrun.joined_of_start opened).both id _ _ hconcluding
  obtain ⟨file, hconclusion, hbytes⟩ := (hrun.smooth opened reliable hbefore).conclusion_eq
    (hrun.senders_of_start opened) (hrun.staffed_of_start opened)
    (Scribe.isFinished_iff.1 hfinished) (hrun.batched_of_start opened) hbefore hcounted
  rw [hconclusion] at hanswered hfile
  rw [hstill.codec_eq, hstill.entered_eq]
  exact ⟨hrest, hclose, file, hfile, hanswered, hbytes⟩

/-- **What calls to close bring about**, in every favourable run from a newly opened file that
refuses nothing. -/
theorem Run.closed (run : Run origin log p)
    (opened : Pipeline.start settings sink base = .ok origin) (reliable : sink.Reliable)
    (favourable : Favourable (.start settings.containerSize base.containers.toNat) log p) :
    Closed sink base settings.containerSize log p := by
  have served := run.served (fresh_of_start opened)
  have hended := run.ended opened
  refine ⟨fun file hsome => ?_, fun id result hasked hin => ?_, fun hshut => ?_⟩
  · obtain ⟨id, hconcluded⟩ := hended.of_file served.atDesk (by rw [hsome]; rfl)
    obtain ⟨hrest, -, file', hfile, -, hbytes⟩ := hconcluded.closed opened reliable favourable
    rw [hsome, Option.some.injEq] at hfile
    rw [hfile]
    exact ⟨hrest.commands, hbytes⟩
  · have hstage := (served.callers.answered_iff id result).1 hin
    rcases hended.answer id .close .drained result hasked rfl hstage with hturned | hconcluded
    · exact Or.inr hturned
    · obtain ⟨-, -, file, hfile, hanswered, -⟩ := hconcluded.closed opened reliable favourable
      rw [hstage, Option.some.injEq, CallStage.returned.injEq] at hanswered
      exact Or.inl ⟨file, hfile, hanswered⟩
  · obtain ⟨id, stage, hclose, hstage, hs | hconcluded⟩ :=
      hended.exists_closer served.callers favourable.unaborted hshut
    · exact ⟨id, stage, hclose, hstage, Or.inl hs⟩
    · obtain ⟨-, -, file, -, hanswered, -⟩ := hconcluded.closed opened reliable favourable
      exact ⟨id, _, hclose, hanswered, Or.inr ⟨_, rfl⟩⟩

/-- Whoever finds the desk closed has met another call to close, which is not turned away. -/
theorem Closed.exists_other {threshold : UInt32} (h : Closed sink base threshold log p)
    (callers : Callers log p) (turned : .answered id (.error .closed) ∈ log)
    (shut : p.desk.closed = true) :
    ∃ other, other ≠ id ∧ .asked other .close ∈ log ∧
      ∀ result, .answered other result ∈ log → ∃ summary, result = .ok (.finished summary) := by
  obtain ⟨other, stage, hasked, hstage, hs⟩ := h.closer shut
  have hanswer (result : Except Error Answer) (hin : .answered other result ∈ log) :
      ∃ summary, result = .ok (.finished summary) := by
    rw [callers.answered_iff, hstage, Option.some.injEq] at hin
    subst hin
    rcases hs with hs | ⟨summary, hs⟩
    · cases hs
    · exact ⟨summary, CallStage.returned.inj hs⟩
  refine ⟨other, ?_, hasked, hanswer⟩
  rintro rfl
  obtain ⟨summary, hresult⟩ := hanswer _ turned
  cases hresult

end Pipeline

end TraceLog
