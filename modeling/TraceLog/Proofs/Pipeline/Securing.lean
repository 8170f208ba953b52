/-
**What is certain to be in the file.**

A number is published when everything written so far has been passed on.  The records below it are
then in the file, and as a file only grows they stay where they are: whatever goes wrong later, and
whoever finishes the file or gives it up, adds bytes at the end.  On the other hand the file holds
nothing but pieces of the records that the containers lead to, as long as it has not been finished.

All this is so for every file, whatever it refuses.  As long as it has refused nothing, the scribe
knows of everything that waits in the buffer; when a record is refused, part of it may be in the
file, but then the scribe stops the pipeline and publishes nothing any more.

Main definitions:

* `Resequencer.Sound` — nothing was refused so far, and what waits is known;
* `ScribeStage.IsSpent` — the scribe does not write any more;
* `Pipeline.Securing` — the invariant about the records that are in the file for certain.

Main results:

* `Pipeline.Run.file_grows` — **a file only grows**;
* `Pipeline.Run.securing` — the invariant holds at the end of every run;
* `Pipeline.Run.sound` — **nothing was refused** in a run that ends calm;
* `Pipeline.Run.secured` — **what was published is in the file**, and what else may be in it.
-/

import TraceLog.Proofs.Pipeline.Concluding
import TraceLog.Proofs.Pipeline.Flushing
import TraceLog.Proofs.Pipeline.Intact
import TraceLog.Proofs.Refusals

set_option relaxedAutoImplicit false
set_option autoImplicit false

namespace TraceLog

/-! ### A file only grows -/

theorem Sink.grows_write (s : Sink) (bs : Bytes) : s.bytes <+: (s.write bs).2.bytes := by
  rw [bytes_write]
  split
  · exact List.prefix_append ..
  · exact List.prefix_rfl

namespace BufferedSink

theorem grows_flush (b : BufferedSink) : b.sink.bytes <+: b.flush.2.sink.bytes := by
  have hwrite := b.sink.grows_write b.waiting.toBytes
  unfold flush
  split
  · exact List.prefix_rfl
  · rcases hresult : b.sink.write b.waiting.toBytes with ⟨_ | _, sink⟩ <;>
      rw [hresult] at hwrite <;> exact hwrite

theorem grows_place (b : BufferedSink) (bs : Bytes) :
    b.sink.bytes <+: (b.place bs).2.sink.bytes := by
  have hwrite := b.sink.grows_write bs
  unfold place
  split
  · rcases hresult : b.sink.write bs with ⟨_ | _, sink⟩ <;> rw [hresult] at hwrite <;> exact hwrite
  · exact List.prefix_rfl

theorem grows_write (b : BufferedSink) (bs : Bytes) :
    b.sink.bytes <+: (b.write bs).2.sink.bytes := by
  have hflush := b.grows_flush
  unfold write
  split
  · exact List.prefix_rfl
  split
  · rcases hresult : b.flush with ⟨_ | _, b₁⟩ <;> rw [hresult] at hflush
    · exact hflush
    · exact hflush.trans (b₁.grows_place bs)
  · exact b.grows_place bs

end BufferedSink

namespace Resequencer

theorem grows_writeRecord (w : Resequencer) (r : Record) :
    w.out.sink.bytes <+: (w.writeRecord r).2.out.sink.bytes := by
  have hheader := w.out.grows_write r.header.encode
  unfold writeRecord
  rcases hresult : w.out.write r.header.encode with ⟨_ | _, out₁⟩ <;> rw [hresult] at hheader
  · exact hheader
  · have hdata := hheader.trans (out₁.grows_write r.data)
    rcases hresult' : out₁.write r.data with ⟨_ | _, out₂⟩ <;> simp only [hresult'] at hdata ⊢ <;>
      exact hdata

theorem grows_drain (fuel size : Nat) (w : Resequencer) :
    w.out.sink.bytes <+: (drain fuel size w).2.out.sink.bytes := by
  induction fuel generalizing size w with
  | zero => exact List.prefix_rfl
  | succ fuel ih =>
      rcases unpark?_cases w with ⟨hnone, -⟩ | ⟨r, rest, hsome, -⟩
      · simp only [drain, hnone]
        exact List.prefix_rfl
      · have hwrite := grows_writeRecord { w with parked := rest } r
        simp only [drain, hsome]
        rcases hresult : writeRecord { w with parked := rest } r with ⟨_ | n, w₁⟩ <;>
          rw [hresult] at hwrite
        · exact hwrite
        · exact hwrite.trans (ih _ _)

theorem grows_accept (w : Resequencer) (r : Record) :
    w.out.sink.bytes <+: (w.accept r).2.out.sink.bytes := by
  have hwrite := w.grows_writeRecord r
  unfold accept
  split
  · exact List.prefix_rfl
  split
  · rcases hresult : w.writeRecord r with ⟨_ | n, w₁⟩ <;> rw [hresult] at hwrite
    · exact hwrite
    · exact hwrite.trans (grows_drain _ _ _)
  split <;> exact List.prefix_rfl

theorem grows_flush (w : Resequencer) : w.out.sink.bytes <+: w.flush.2.out.sink.bytes := by
  have hflush := w.out.grows_flush
  unfold flush
  split
  · rcases hresult : w.out.flush with ⟨_ | _, out⟩ <;> rw [hresult] at hflush <;> exact hflush
  · exact List.prefix_rfl

theorem grows_abandon (w : Resequencer) : w.out.sink.bytes <+: w.abandon.bytes :=
  w.out.grows_flush

theorem grows_writeFooter (w : Resequencer) (truncated : Bool) :
    w.out.sink.bytes <+: (w.writeFooter truncated).2.bytes := by
  have hwrite := w.out.grows_write (Footer.ofTotals w.totals truncated).encode
  unfold writeFooter
  rcases hresult : w.out.write (Footer.ofTotals w.totals truncated).encode with ⟨_ | _, out₁⟩ <;>
    rw [hresult] at hwrite
  · exact hwrite.trans out₁.grows_flush
  · have hflush := hwrite.trans out₁.grows_flush
    rcases hresult' : out₁.flush with ⟨_ | _, out₂⟩ <;> simp only [hresult'] at hflush ⊢
    · exact hflush.trans out₂.grows_flush
    · exact hflush

end Resequencer

/-- Whoever finishes the file, or gives it up, adds to it. -/
theorem Pipeline.grows_conclusion (p : Pipeline) (ending : Ending) (sealedCount : Nat) :
    p.scribe.writer.out.sink.bytes <+: (p.conclusion ending sealedCount).2.bytes := by
  unfold conclusion
  cases p.shared.failure with
  | some error =>
      cases ending with
      | drained => exact (Resequencer.grows_flush _).trans (Resequencer.grows_abandon _)
      | truncated => exact Resequencer.grows_abandon _
  | none =>
      cases ending with
      | drained =>
          simp only [Resequencer.finish]
          split
          · exact Resequencer.grows_writeFooter _ _
          · exact Resequencer.grows_abandon _
      | truncated => exact Resequencer.grows_writeFooter _ _

/-! ### What one move does -/

/-- What the scribe asks of its resequencer in one move: nothing, a flush, or an arrival. -/
inductive ScribeMove.Asks (w : Resequencer) (s : Shared) (stage : ScribeStage) :
    Resequencer → ScribeStage → Shared → Option Record → Prop where
  | nothing {stage' : ScribeStage} {s' : Shared} (progress : s'.progress = s.progress) :
      Asks w s stage w stage' s' none
  | flushed {stage' : ScribeStage} {w' : Resequencer} (flushes : stage.Flushes)
      (flushed : w.flush = (.ok (), w')) :
      Asks w s stage w' stage' { s with progress := s.progress.publish w'.next } none
  | notFlushed {error : Error} {w' : Resequencer} (flushes : stage.Flushes)
      (flushed : w.flush = (.error error, w')) :
      Asks w s stage w' (.halting (failSteps error)) s none
  | taken {record : Record} {size : Nat} {w' : Resequencer}
      (handles : stage = .handling (.done record)) (accepted : w.accept record = (.ok size, w')) :
      Asks w s stage w' (.releasing size) s (some record)
  | refused {record : Record} {error : Error} {w' : Resequencer}
      (handles : stage = .handling (.done record))
      (accepted : w.accept record = (.error error, w')) :
      Asks w s stage w' (.halting (failSteps error)) s none

/-- The scribe does not write any more. -/
def ScribeStage.IsSpent (s : Shared) : ScribeStage → Prop
  | .halting _ | .finished => True
  | .ending => s.stopped = true
  | _ => False

theorem ScribeStage.IsSpent.of_stopped {s s' : Shared} {stage : ScribeStage}
    (spent : stage.IsSpent s) (stopped : s.stopped = true → s'.stopped = true) :
    stage.IsSpent s' := by
  cases stage with
  | ending => exact stopped spent
  | halting steps => trivial
  | finished => trivial
  | _ => cases spent

theorem ScribeStage.Flushes.not_isSpent {s : Shared} {stage : ScribeStage}
    (flushes : stage.Flushes) : ¬ stage.IsSpent s := by
  cases flushes <;> exact id

section

variable {w w' : Resequencer} {s s' : Shared} {inbox inbox' : Completions}
  {stage stage' : ScribeStage} {record : Option Record}

theorem ScribeMove.asks (move : ScribeMove w s inbox stage w' stage' s' inbox' record) :
    Asks w s stage w' stage' s' record := by
  cases move with
  | publish goes flushed =>
      refine .flushed ?_ flushed
      cases goes
      · exact .idle
      · exact .onRequest
  | publishLast flushed => exact .flushed .last flushed
  | flushFailed flushes flushed => exact .notFlushed flushes flushed
  | take running accepted => exact .taken rfl accepted
  | refuse running accepted => exact .refused rfl accepted
  | halt => exact .nothing (HaltStep.progress_apply _ _)
  | _ => exact .nothing rfl

theorem ScribeMove.grows (move : ScribeMove w s inbox stage w' stage' s' inbox' record) :
    w.out.sink.bytes <+: w'.out.sink.bytes := by
  have hflush := w.grows_flush
  cases move.asks with
  | nothing progress => exact List.prefix_rfl
  | flushed flushes flushed => rwa [flushed] at hflush
  | notFlushed flushes flushed => rwa [flushed] at hflush
  | taken handles accepted =>
      rename_i r size
      have haccept := w.grows_accept r
      rwa [accepted] at haccept
  | refused handles accepted =>
      rename_i r error
      have haccept := w.grows_accept r
      rwa [accepted] at haccept

/-- The scribe does not begin to write again. -/
theorem ScribeMove.isSpent (move : ScribeMove w s inbox stage w' stage' s' inbox' record)
    (spent : stage.IsSpent s) (halted : stage = .halting [] → s.stopped = true) :
    w' = w ∧ record = none ∧ s'.progress = s.progress ∧ stage'.IsSpent s' := by
  cases move with
  | flushFailed flushes flushed => exact absurd spent flushes.not_isSpent
  | publish goes flushed => cases goes <;> cases spent
  | receive listens received => cases listens <;> cases spent
  | disconnected listens received => cases listens <;> cases spent
  | leave stopped => exact ⟨rfl, rfl, rfl, trivial⟩
  | last running =>
      have stopped : s.stopped = true := spent
      rw [running] at stopped
      cases stopped
  | halt => exact ⟨rfl, rfl, HaltStep.progress_apply _ _, trivial⟩
  | halted => exact ⟨rfl, rfl, rfl, halted rfl⟩
  | _ => cases spent

end

namespace Pipeline

variable {settings : Settings} {sink : Sink} {base : Totals} {origin p p' q : Pipeline}
  {actor : Actor} {before behind log ms : History}

/-- A move adds to the file or leaves it alone, provided that the scribe has ended when the file was
finished. -/
theorem Move.file_grows (move : p.Move actor p' ms) (atDesk : AtDesk p)
    (ended : p.closedFile.isSome = true → p.scribe.stage = .finished) :
    p.file.bytes <+: p'.file.bytes := by
  cases move with
  | call present move =>
      unfold file
      rw [closedFile_moved, scribe_moved]
      rcases move.file_cases with ⟨hfile, -⟩ | ⟨ending, n, rfl, -, -, -, hfile, -⟩
      · subst hfile
        exact List.prefix_rfl
      · rw [(atDesk.closed_of_closing _ _ present rfl).2, hfile]
        exact p.grows_conclusion ending n
  | batcher move => exact List.prefix_rfl
  | worker present move => exact List.prefix_rfl
  | scribe move =>
      have hopen : p.closedFile = none := by
        rw [← Option.not_isSome_iff_eq_none]
        exact fun finished => move.stage_ne_finished (ended finished)
      unfold file
      rw [show Pipeline.closedFile _ = p.closedFile from rfl, hopen]
      exact move.grows

/-- What the scribe has passed on is in the file that was finished or given up. -/
theorem Run.closedFile_grows (run : Run origin log p)
    (opened : Pipeline.start settings sink base = .ok origin)
    (finished : p.closedFile.isSome = true) :
    p.scribe.stage = .finished ∧ p.scribe.writer.out.sink.bytes <+: p.file.bytes := by
  have atDesk := (run.served (fresh_of_start opened)).atDesk
  obtain ⟨id, before, q, ending, n, h⟩ := (run.ended opened).of_file atDesk finished
  refine ⟨h.rest.scribe, ?_⟩
  rw [file, h.file, h.still.scribe_eq]
  exact q.grows_conclusion ending n

/-- **A file only grows**, from any time in a run on. -/
theorem Run.file_grows (run : Run origin before q) (more : Run q behind p)
    (opened : Pipeline.start settings sink base = .ok origin) : q.file.bytes <+: p.file.bytes := by
  refine run.invariant_from more (fun _ p => q.file.bytes <+: p.file.bytes)
    (fresh_of_start opened).idle List.prefix_rfl (fun _ _ _ _ _ h _ => h)
    fun log p actor p' ms run h move => h.trans (move.file_grows ?_ fun finished => ?_)
  · exact (run.served (fresh_of_start opened)).atDesk
  · exact (run.closedFile_grows opened finished).1

end Pipeline

/-! ### As long as nothing is refused -/

namespace Resequencer

variable {first : Nat} {start : Bytes} {written taken : List Record} {w w' : Resequencer}

/-- Nothing was refused so far: what the file and its buffer hold are the records that were written,
and nothing waits without a mark. -/
structure Sound (first : Nat) (start : Bytes) (written taken : List Record) (w : Resequencer) :
    Prop where
  tally : Tally first written taken w
  held : w.out.Holds start (written.flatMap Record.pieces)
  clean : w.dirty = false → w.out.waiting.toBytes = []

theorem sound_resume (sink : Sink) (base : Totals) :
    Sound base.containers.toNat sink.bytes [] [] (resume sink base) where
  tally := ⟨rfl, rfl, by simp [resume], by simp [resume], List.nodup_nil⟩
  held := .ofSink sink
  clean _ := rfl

theorem Sound.untorn {arrived : List Record} (h : Sound first start written taken w)
    (harrived : ∀ r ∈ taken, r ∈ arrived) : Untorn first start arrived w :=
  ⟨written, taken, h.tally, harrived, h.held⟩

/-- A row that was written is marked. -/
theorem dirty_of_writeAll {rs : List Record} {size n : Nat}
    (h : writeAll size rs w = (.ok n, w')) : w'.dirty = true ∨ w' = w := by
  induction rs generalizing size w with
  | nil =>
      cases h
      exact Or.inr rfl
  | cons r rs ih =>
      rw [writeAll] at h
      split at h
      · cases h
      · rename_i m w₁ hwrite
        have hdirty : w₁.dirty = true := by
          unfold writeRecord at hwrite
          split at hwrite
          · cases hwrite
          · split at hwrite <;> cases hwrite
            rfl
        rcases ih h with hdirty' | rfl
        · exact Or.inl hdirty'
        · exact Or.inl hdirty

/-- An arrival that is taken is written, or parked. -/
theorem Sound.accept (h : Sound first start written taken w) {r : Record} {n : Nat}
    (accepted : w.accept r = (.ok n, w')) :
    ∃ row, Sound first start (written ++ row) (taken ++ [r]) w' := by
  obtain ⟨row, w₁, hwrite, hw', htally⟩ := h.tally.accept accepted
  obtain ⟨more, -, hheld, hall⟩ := holds_writeAll 0 h.held row
  rw [hwrite] at hheld hall
  obtain rfl := hall n rfl
  have hout : w'.out = w₁.out := by rw [hw']
  have hdirty : w'.dirty = w₁.dirty := by rw [hw']
  refine ⟨row, htally, ?_, fun hclean => ?_⟩
  · rw [hout, List.flatMap_append]
    exact hheld
  · rw [hdirty] at hclean
    rw [hout]
    rcases dirty_of_writeAll hwrite with hmarked | rfl
    · rw [hclean] at hmarked
      cases hmarked
    · exact h.clean hclean

/-- A flush passes on all that was written, or nothing. -/
theorem Sound.flush (h : Sound first start written taken w) {result : Except Error Unit}
    (flushed : w.flush = (result, w')) :
    Sound first start written taken w' ∧
      (result = .ok () → w'.out.sink.bytes = start ++ Image.unfinished written) := by
  have hheld := holds_flush h.held
  have htally := h.tally.flush
  rw [flushed] at hheld htally
  have hwaiting : (w'.dirty = false → w'.out.waiting.toBytes = []) ∧
      (result = .ok () → w'.out.waiting.toBytes = []) := by
    unfold Resequencer.flush at flushed
    split at flushed
    · rename_i hdirty
      rcases hflush : w.out.flush with ⟨fault | _, out⟩ <;> rw [hflush] at flushed <;> cases flushed
      · exact ⟨fun hclean => absurd hdirty (by rw [hclean]; decide), fun hok => by cases hok⟩
      · have hempty := BufferedSink.waiting_flush hflush
        exact ⟨fun _ => hempty, fun _ => hempty⟩
    · rename_i hdirty
      cases flushed
      have hclean := h.clean (by simpa using hdirty)
      exact ⟨fun _ => hclean, fun _ => hclean⟩
  refine ⟨⟨htally, hheld, hwaiting.1⟩, fun hok => ?_⟩
  obtain ⟨passed, waiting, hpieces, hbytes, hrest⟩ := hheld
  rw [hwaiting.2 hok] at hrest
  rw [hbytes, ← Record.flatten_pieces, hpieces, List.flatten_append, ← hrest, List.append_nil]

end Resequencer

namespace Pipeline

open Resequencer (Sound Filed)

variable {settings : Settings} {sink : Sink} {base : Totals} {origin p p' : Pipeline}
  {actor : Actor} {log ms : History} {first : Nat} {start : Bytes} {rs : List Record}

/-! ### What was published -/

/-- Some records of the session were published, and the file has taken all of them. -/
structure Secured (first : Nat) (start : Bytes) (rs : List Record) (log : History) (p : Pipeline) :
    Prop where
  numbers : rs.map (·.sequence.toNat) = List.range' first rs.length
  yields : ∀ r ∈ rs, log.Yields p.codec r
  flushed_eq : p.shared.progress.flushed = first + rs.length
  taken : start ++ Image.unfinished rs <+: p.scribe.writer.out.sink.bytes

/-- What was published stays published. -/
theorem Secured.later (h : Secured first start rs log p) (ms : History) (codec : p'.codec = p.codec)
    (flushed : p'.shared.progress.flushed = p.shared.progress.flushed)
    (grows : p.scribe.writer.out.sink.bytes <+: p'.scribe.writer.out.sink.bytes) :
    Secured first start rs (log ++ ms) p' where
  numbers := h.numbers
  yields r hr := codec ▸ (h.yields r hr).append ms
  flushed_eq := flushed.trans h.flushed_eq
  taken := h.taken.trans grows

/-- What is in the file for certain, and where the scribe stands with the others. -/
structure Securing (first : Nat) (start : Bytes) (log : History) (p : Pipeline) : Prop where
  secured : ∃ rs, Secured first start rs log p
  /-- The file and its buffer hold pieces of records of the session and nothing else. -/
  filed : ∃ arrived, (∀ r ∈ arrived, log.Yields p.codec r) ∧
    Filed first start arrived p.scribe.writer
  going : p.scribe.stage.IsSpent p.shared ∨
    ∃ written, Sound first start written log.taken p.scribe.writer

/-- Whoever is not the scribe leaves the file and the published number alone. -/
theorem Securing.of_scribe_eq (h : Securing first start log p) (scribe : p'.scribe = p.scribe)
    (codec : p'.codec = p.codec)
    (flushed : p'.shared.progress.flushed = p.shared.progress.flushed)
    (stopped : p.shared.stopped = true → p'.shared.stopped = true) (taken : ms.taken = []) :
    Securing first start (log ++ ms) p' := by
  obtain ⟨rs, secured⟩ := h.secured
  obtain ⟨arrived, yields, filed⟩ := h.filed
  constructor
  · exact ⟨rs, secured.later ms codec flushed (scribe ▸ List.prefix_rfl)⟩
  · exact ⟨arrived, fun r hr => codec ▸ (yields r hr).append ms, scribe ▸ filed⟩
  · rw [History.taken_append, taken, List.append_nil, scribe]
    exact h.going.imp_left fun spent => spent.of_stopped stopped

/-- The record that the scribe handles comes from a container, like those that it has taken. -/
theorem yields_of_handling (custody : p.underway + log.arrived ≤ log.departed p.codec) {r : Record}
    (handles : p.scribe.stage = .handling (.done r)) :
    ∀ x ∈ log.taken ++ [r], log.Yields p.codec x := by
  intro x hx
  rcases List.mem_append.1 hx with hx | hx
  · exact yields_of_taken custody hx
  · rw [List.mem_singleton.1 hx]
    refine exists_of_underway custody (mem_underway_of_mem_hand ?_)
    rw [handles]
    exact List.mem_singleton_self _

/-- **What a move of the scribe makes certain**: whatever it asks of its resequencer, nothing that
was published is touched, and what it publishes was passed on before. -/
theorem Securing.scribe (h : Securing first start log p)
    (custody : p.underway + log.arrived ≤ log.departed p.codec) (published : Published p)
    (stopping : Stopping p) {writer : Resequencer} {stage : ScribeStage} {shared : Shared}
    {completions : Completions} {record : Option Record}
    (move : ScribeMove p.scribe.writer p.shared p.completions p.scribe.stage writer stage shared
      completions record) :
    Securing first start (log ++ (record.map Moment.taken).toList)
      { p with scribe := ⟨writer, stage⟩, shared, completions } := by
  have grows := move.grows
  obtain ⟨rs, secured⟩ := h.secured
  obtain ⟨arrived, yields, filed⟩ := h.filed
  rcases h.going with spent | ⟨written, sound⟩
  · -- the scribe writes no more
    have halted (halting : p.scribe.stage = .halting []) : p.shared.stopped = true :=
      stopping.done_of_nil (halting?_scribe_iff.2 halting) .raiseFlag (by simp [haltSteps])
    obtain ⟨rfl, rfl, progress, spent'⟩ := move.isSpent spent halted
    refine ⟨⟨rs, secured.later _ rfl (congrArg Progress.flushed progress) grows⟩, ?_, Or.inl spent'⟩
    exact ⟨arrived, fun r hr => (yields r hr).append _, filed⟩
  cases move.asks with
  | nothing progress =>
      refine ⟨⟨rs, secured.later _ rfl (congrArg Progress.flushed progress) grows⟩, ?_, ?_⟩
      · exact ⟨arrived, fun r hr => (yields r hr).append _, filed⟩
      · exact Or.inr ⟨written, by simpa using sound⟩
  | notFlushed flushes flushed =>
      have hfiled := filed.flush
      rw [flushed] at hfiled
      refine ⟨⟨rs, secured.later _ rfl rfl grows⟩, ?_, ?_⟩
      · exact ⟨arrived, fun r hr => (yields r hr).append _, hfiled⟩
      · exact Or.inr ⟨written, by simpa using (sound.flush flushed).1⟩
  | flushed flushes flushed =>
      have hfiled := filed.flush
      rw [flushed] at hfiled
      obtain ⟨sound', hbytes⟩ := sound.flush flushed
      refine ⟨⟨written, ?_⟩, ?_, ?_⟩
      · -- all that was written has been passed on, and that is what is published
        have hle : p.shared.progress.flushed ≤ writer.next := by
          rw [Resequencer.next_flush flushed]
          exact published.flushed_le
        refine ⟨sound.tally.numbers, fun r hr => ?_, ?_, ?_⟩
        · refine (yields_of_taken custody ?_).append _
          exact sound.tally.perm.mem_iff.1 (List.mem_append_left _ hr)
        · exact (Nat.max_eq_right hle).trans sound'.tally.next_eq
        · exact hbytes rfl ▸ List.prefix_rfl
      · exact ⟨arrived, fun r hr => (yields r hr).append _, hfiled⟩
      · exact Or.inr ⟨written, by simpa using sound'⟩
  | taken handles accepted =>
      rename_i r size
      obtain ⟨row, sound'⟩ := sound.accept accepted
      refine ⟨⟨rs, secured.later _ rfl rfl grows⟩, ⟨log.taken ++ [r], fun x hx => ?_, ?_⟩,
        Or.inr ?_⟩
      · exact (yields_of_handling custody handles x hx).append _
      · exact (sound'.untorn fun _ hx => hx).filed
      · exact ⟨_, by rwa [History.taken_append, History.taken_scribe]⟩
  | refused handles accepted =>
      rename_i r error
      have huntorn := sound.untorn fun _ hx => List.mem_append_left [r] hx
      have hfiled := (huntorn.accept (List.mem_append_right _ (List.mem_singleton_self r))).1
      rw [accepted] at hfiled
      refine ⟨⟨rs, secured.later _ rfl rfl grows⟩, ⟨log.taken ++ [r], fun x hx => ?_, hfiled⟩,
        Or.inl trivial⟩
      exact (yields_of_handling custody handles x hx).append _

theorem Securing.move (h : Securing first start log p)
    (custody : p.underway + log.arrived ≤ log.departed p.codec) (published : Published p)
    (stopping : Stopping p) (move : p.Move actor p' ms) : Securing first start (log ++ ms) p' := by
  have hstopped := move.shuts.stopped
  cases move with
  | call present move =>
      exact h.of_scribe_eq rfl rfl move.progress_flushed hstopped (History.taken_call _ _ _)
  | batcher move =>
      exact h.of_scribe_eq rfl rfl (congrArg Progress.flushed move.progress_eq) hstopped
        (History.taken_batcher _ _)
  | worker present move =>
      exact h.of_scribe_eq rfl rfl (congrArg Progress.flushed move.replies_eq.2) hstopped rfl
  | scribe move => exact h.scribe custody published stopping move

/-- **What is certain to be in the file**, at the end of every run. -/
theorem Run.securing (run : Run origin log p)
    (opened : Pipeline.start settings sink base = .ok origin) :
    Securing base.containers.toNat sink.bytes log p := by
  have idle := (fresh_of_start opened).idle
  refine run.invariant (Securing base.containers.toNat sink.bytes) idle ?_
    (fun _ _ _ _ _ h _ => h.of_scribe_eq rfl rfl rfl id rfl)
    fun _ _ _ _ _ run h move => h.move (run.custody idle (underway_of_start opened)).2
      (run.published opened) (run.stopping opened) move
  obtain ⟨-, rfl⟩ := eq_of_start opened
  have sound := Resequencer.sound_resume sink base
  constructor
  · refine ⟨[], rfl, by simp, rfl, ?_⟩
    simp [Image.unfinished, Scribe.start, Resequencer.resume, BufferedSink.ofSink]
  · exact ⟨[], by simp, (sound.untorn fun _ h => h).filed⟩
  · exact Or.inr ⟨[], sound⟩

/-- **Nothing was refused so far**, in every run from a newly opened file that ends calm. -/
theorem Run.sound (run : Run origin log p)
    (opened : Pipeline.start settings sink base = .ok origin) (calm : Calm p) :
    ∃ written, Sound base.containers.toNat sink.bytes written log.taken p.scribe.writer := by
  refine run.invariant (fun log p => Calm p →
    ∃ written, Sound base.containers.toNat sink.bytes written log.taken p.scribe.writer)
    (fresh_of_start opened).idle (fun _ => ?_) (fun log p id request _ sound _ calm => ?_)
    (fun log p actor p' ms run sound move calm => ?_) calm
  · obtain ⟨-, rfl⟩ := eq_of_start opened
    exact ⟨[], Resequencer.sound_resume sink base⟩
  · rw [History.taken_asked]
    exact sound calm.of_arrive
  · obtain ⟨written, sound⟩ := sound (calm.of_move (run.stopping opened) move)
    rw [History.taken_append]
    cases move with
    | call present move =>
        rw [History.taken_call, List.append_nil]
        exact ⟨written, sound⟩
    | batcher move =>
        rw [History.taken_batcher, List.append_nil]
        exact ⟨written, sound⟩
    | worker present move => exact ⟨written, by simpa [History.taken] using sound⟩
    | scribe move =>
        rw [History.taken_scribe]
        cases move.asks with
        | nothing progress => exact ⟨written, by simpa using sound⟩
        | flushed flushes flushed => exact ⟨written, by simpa using (sound.flush flushed).1⟩
        | taken handles accepted =>
            obtain ⟨row, sound'⟩ := sound.accept accepted
            exact ⟨_, sound'⟩
        -- whoever is refused something stops the pipeline
        | notFlushed flushes flushed =>
            exact absurd (halting?_scribe_iff.2 rfl) (calm.not_halting (by simp))
        | refused handles accepted =>
            exact absurd (halting?_scribe_iff.2 rfl) (calm.not_halting (by simp))

/-- As long as the file has not been finished, it holds a first part of the records. -/
theorem Securing.file_le (h : Securing first start log p) {threshold : UInt32}
    (batched : Batched (.start threshold first) log p)
    (few : first + log.events.length ≤ UInt64.size) (unfinished : p.closedFile = none) :
    p.file.bytes <+: start ++ Image.unfinished (Image.records p.codec log.sealed) := by
  obtain ⟨arrived, yields, rs, pieces, numbers, harrived, hpieces, hheld⟩ := h.filed
  obtain ⟨passed, waiting, hsplit, hsink, -⟩ := hheld
  have hfront := batched.front_of_yields few numbers fun r hr => yields r (harrived r hr)
  obtain ⟨rest, hrest⟩ := hpieces
  obtain ⟨more, hmore⟩ := hfront
  rw [file, unfinished, Option.getD_none, hsink, ← hmore, Image.unfinished_append,
    ← Record.flatten_pieces rs, ← hrest, hsplit, List.flatten_append, List.flatten_append,
    List.append_assoc, List.append_assoc]
  exact (List.prefix_append_right_inj _).2 (List.prefix_append ..)

/-- **What was published is in the file**, and stays where it is.

At the end of every run, on a file that may refuse anything at any time, the number that was
published counts records which are the first of those that the containers lead to; the file holds
them behind what it held at first, now and for ever; and as long as it has not been finished it
holds a part of the records of the containers that were sealed and nothing else. -/
theorem Run.secured (run : Run origin log p)
    (opened : Pipeline.start settings sink base = .ok origin)
    (few : base.containers.toNat + log.events.length ≤ UInt64.size) :
    ∃ rs, rs <+: Image.records settings.codec log.sealed ∧
      p.shared.progress.flushed = base.containers.toNat + rs.length ∧
      (∀ later p', Run p later p' → sink.bytes ++ Image.unfinished rs <+: p'.file.bytes) ∧
      (p.closedFile = none →
        p.file.bytes <+:
          sink.bytes ++ Image.unfinished (Image.records settings.codec log.sealed)) := by
  have securing := run.securing opened
  have batched := run.batched_of_start opened
  obtain ⟨rs, secured⟩ := securing.secured
  have hfile : p.scribe.writer.out.sink.bytes <+: p.file.bytes := by
    cases hclosed : p.closedFile with
    | none =>
        rw [file, hclosed]
        exact List.prefix_rfl
    | some closed => exact (run.closedFile_grows opened (by rw [hclosed]; rfl)).2
  rw [← run.codec_eq opened]
  have hfront := batched.front_of_yields few secured.numbers secured.yields
  refine ⟨rs, hfront, secured.flushed_eq, ?_, ?_⟩
  · exact fun later p' more => (secured.taken.trans hfile).trans (run.file_grows more opened)
  · exact securing.file_le batched few

end Pipeline

end TraceLog
