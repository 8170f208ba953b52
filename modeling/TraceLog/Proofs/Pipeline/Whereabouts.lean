/-
**Where the numbers are.**

Every container has a number, and so has whatever is made of it, up to the record in the file.  As
long as nobody has seen that the pipeline is to stop, each number from the first of the session up
to the one that comes next is in exactly one place: in the hands of the batcher, in the queue to the
workers, in the hands of one of them, among the reports that the scribe has not looked at, among the
records that are parked, or in the file.

Whatever goes wrong, nothing is doubled.  So no record is offered to the resequencer twice, and none
is turned away because its number was passed or is parked.  And as long as nothing goes wrong,
nothing is missing either when everybody has ended.

Main definitions:

* `Completion.number` — the number of the container that a report is about;
* `Pipeline.whereabouts` — the numbers of all containers, place by place.

Main results:

* `Pipeline.Run.numbers_kept` — no number is lost or doubled in a run that ends calm;
* `Pipeline.Run.accept_ne_internal` — **the resequencer turns no record away**, in any run;
* `Pipeline.Trail.offers` — **no record is offered twice**, in any run;
* `Pipeline.Run.drained` — nothing is parked when everybody has ended;
* `Pipeline.each_in_one_place` — **every container is in exactly one place**, and what follows.
-/

import TraceLog.Proofs.Pipeline.Answering
import TraceLog.Proofs.Pipeline.Securing
import TraceLog.Proofs.Pipeline.Trail

set_option relaxedAutoImplicit false
set_option autoImplicit false

namespace TraceLog

/-! ### Numbers -/

/-- The number of the container that a report is about. -/
def Completion.number : Completion → Nat
  | .done record => record.sequence.toNat
  | .failed sequence _ => sequence

/-- A report carries the number of its container, if that fits into 64 bits. -/
theorem Container.number_of_complete? {codec : Codec} {c : Container} {completion : Completion}
    (fits : c.sequence < UInt64.size) (completed : c.complete? codec = some completion) :
    completion.number = c.sequence := by
  cases completion with
  | done record =>
      rw [Completion.number, sequence_of_complete? completed, UInt64.toNat_ofNat_of_lt' fits]
  | failed sequence error =>
      unfold complete? at completed
      split at completed
      · cases completed
      · cases completed
        rfl
      · split at completed
        · cases completed
        · cases completed
          rfl

/-! ### What the resequencer answers -/

namespace Resequencer

variable {w : Resequencer}

/-- A row of records is refused by the file only. -/
theorem writeAll_error {rs : List Record} {size : Nat} {error : Error}
    (h : (writeAll size rs w).1 = .error error) : ∃ fault, error = .io fault := by
  induction rs generalizing size w with
  | nil => cases h
  | cons r rs ih =>
      rw [writeAll] at h
      split at h
      · rename_i error' w₁ hwrite
        cases h
        unfold writeRecord at hwrite
        split at hwrite
        · cases hwrite
          exact ⟨_, rfl⟩
        · split at hwrite
          · cases hwrite
            exact ⟨_, rfl⟩
          · cases hwrite
      · exact ih h

/-- A footer is refused by the file only. -/
theorem writeFooter_error {truncated : Bool} {error : Error}
    (h : (w.writeFooter truncated).1 = .error error) : ∃ fault, error = .io fault := by
  unfold writeFooter at h
  split at h
  · cases h
    exact ⟨_, rfl⟩
  · split at h
    · cases h
      exact ⟨_, rfl⟩
    · cases h

/-- A file that is not given up is refused by the file only. -/
theorem finish_ne_drainIncomplete {sealedCount : Nat} (parked : w.parked = [])
    (next : w.next = sealedCount) (a b c : Nat) :
    (w.finish sealedCount).1 ≠ .error (.drainIncomplete a b c) := by
  intro h
  rw [finish, if_pos (by simp [parked, next])] at h
  obtain ⟨fault, hfault⟩ := writeFooter_error h
  cases hfault

end Resequencer

namespace Pipeline

open Resequencer (Sound Tally)

variable {settings : Settings} {sink : Sink} {base : Totals} {origin p p' : Pipeline}
  {actor : Actor} {log ms : History} {steps : List (Pipeline × Actor)}

/-! ### Places -/

/-- The numbers of all containers, place by place: with the batcher, in the queue to the workers,
with a worker, among the reports that the scribe has not looked at, parked, and written. -/
def whereabouts (p : Pipeline) (written : List Record) : List Nat :=
  p.batcher.stage.hand.map (·.sequence) ++ p.shared.work.items.map (·.sequence) ++
    p.workers.flatMap (·.cargo (·.sequence) Completion.number) ++
    (p.completions.items ++ p.scribe.stage.hand).map Completion.number ++
    p.scribe.writer.parked.map (·.sequence.toNat) ++ written.map (·.sequence.toNat)

theorem coe_whereabouts (p : Pipeline) (written : List Record) :
    (p.whereabouts written : Multiset Nat) =
      (p.batcher.stage.hand : Multiset Container).map (·.sequence) +
        p.aboard (·.sequence) Completion.number +
        ((written ++ p.scribe.writer.parked : List Record) : Multiset Record).map
          (·.sequence.toNat) := by
  simp only [whereabouts, aboard, reported, ← Multiset.coe_add, ← Multiset.map_coe,
    Multiset.map_add]
  abel

/-- What a worker compresses was handed to the workers. -/
theorem mem_aboard_of_compressing {β : Type} (ofContainer : Container → β)
    (ofReport : Completion → β) {c : Container} (hc : .compressing c ∈ p.workers) :
    ofContainer c ∈ p.aboard ofContainer ofReport := by
  refine Multiset.mem_add.2 (Or.inl (Multiset.mem_add.2 (Or.inr ?_)))
  exact Multiset.mem_coe.2 (List.mem_flatMap.2 ⟨_, hc, List.mem_singleton_self _⟩)

/-- The builder counts on. -/
theorem Run.sealedCount_le (run : Run origin log p)
    (opened : Pipeline.start settings sink base = .ok origin) (move : p.Move actor p' ms) :
    p.batcher.builder.sealedCount ≤ p'.batcher.builder.sealedCount := by
  have batched := run.batched_of_start opened
  have hcount := batched.numbers.2.1
  have hcount' := (batched.move move).numbers.2.1
  rw [History.sealed_append, List.length_append] at hcount'
  omega

/-- **No number is lost or doubled** between the batcher and the resequencer, in a run that ends
calm. -/
theorem Run.numbers_kept (run : Run origin log p)
    (opened : Pipeline.start settings sink base = .ok origin) (calm : Calm p)
    (fits : p.batcher.builder.sealedCount ≤ UInt64.size) :
    (p.batcher.stage.hand : Multiset Container).map (·.sequence) +
        p.aboard (·.sequence) Completion.number +
        (log.taken : Multiset Record).map (·.sequence.toNat) =
      (log.sealed : Multiset Container).map (·.sequence) := by
  refine run.invariant (fun log p => Calm p → p.batcher.builder.sealedCount ≤ UInt64.size →
    (p.batcher.stage.hand : Multiset Container).map (·.sequence) +
        p.aboard (·.sequence) Completion.number +
        (log.taken : Multiset Record).map (·.sequence.toNat) =
      (log.sealed : Multiset Container).map (·.sequence)) (fresh_of_start opened).idle ?_ ?_ ?_
    calm fits
  · intro _ _
    obtain ⟨-, rfl⟩ := eq_of_start opened
    rw [aboard_eq_zero rfl (fun w hw => by rw [List.eq_of_mem_replicate hw]; rfl) rfl rfl]
    rfl
  · intro log p id request _ kept _ calm fits
    rw [History.sealed_asked, History.taken_asked]
    exact kept calm.of_arrive fits
  · intro log p actor p' ms run kept move calm fits
    have hstopping := run.stopping opened
    have hbefore := calm.of_move hstopping move
    have hkeeps := calm.keeps hstopping (run.intact opened hbefore) (run.senders_of_start opened)
      move
    have hfits := (run.sealedCount_le opened move).trans fits
    have kept := kept hbefore hfits
    obtain ⟨hnumbers, hcount, -⟩ := (run.batched_of_start opened).numbers
    rw [History.taken_append, History.sealed_append, ← Multiset.coe_add, ← Multiset.coe_add,
      Multiset.map_add, Multiset.map_add, ← kept]
    by_cases hactor : actor = .batcher
    · subst hactor
      obtain ⟨htaken, hcargo⟩ := move.aboard_of_batcher (·.sequence) Completion.number
      rw [hcargo.resolve_right fun hdrops => hkeeps hdrops.1, htaken, Multiset.coe_nil,
        Multiset.map_zero]
      abel
    · -- the number of a container that is compressed fits, because it was sealed
      have hagrees : ∀ c completion, .compressing c ∈ p.workers →
          c.complete? p.codec = some completion → completion.number = c.sequence := by
        intro c completion hc completed
        refine Container.number_of_complete? ?_ completed
        have hin : c.sequence ∈ (log.sealed : Multiset Container).map (·.sequence) := by
          rw [← kept]
          exact Multiset.mem_add.2 (Or.inl (Multiset.mem_add.2
            (Or.inr (mem_aboard_of_compressing (·.sequence) Completion.number hc))))
        rw [Multiset.map_coe, hnumbers] at hin
        have := List.mem_range'_1.1 (Multiset.mem_coe.1 hin)
        omega
      obtain ⟨hbatcher, hsealed, hcargo⟩ := move.aboard_eq hactor (·.sequence) Completion.number
        hagrees
      rw [hbatcher, hsealed, ← hcargo.resolve_right fun hdrops => hkeeps hdrops.1, Multiset.coe_nil,
        Multiset.map_zero]
      simp only [Completion.number]
      abel

/-! ### Nothing is doubled -/

/-- The record that the scribe handles has a new number. -/
theorem Run.new_of_handling (run : Run origin log p)
    (opened : Pipeline.start settings sink base = .ok origin)
    (fits : p.batcher.builder.sealedCount ≤ UInt64.size) {r : Record}
    (handles : p.scribe.stage = .handling (.done r)) :
    base.containers.toNat ≤ r.sequence.toNat ∧
      r.sequence.toNat ∉ log.taken.map (·.sequence.toNat) := by
  have batched := run.batched_of_start opened
  have hcount := batched.numbers.2.1
  refine new_of_underway batched (by omega)
    (run.custody (fresh_of_start opened).idle (underway_of_start opened)).2
    (mem_underway_of_mem_hand ?_)
  rw [handles]
  exact List.mem_singleton_self _

/-- As long as the scribe handles a report, nothing was refused. -/
theorem Run.sound_of_handling (run : Run origin log p)
    (opened : Pipeline.start settings sink base = .ok origin) {completion : Completion}
    (handles : p.scribe.stage = .handling completion) :
    ∃ written, Sound base.containers.toNat sink.bytes written log.taken p.scribe.writer := by
  refine (run.securing opened).going.resolve_left fun spent => ?_
  rw [handles] at spent
  exact spent

/-- **The resequencer turns no record away**, in any run: what it refuses, the file has refused. -/
theorem Run.accept_ne_internal (run : Run origin log p)
    (opened : Pipeline.start settings sink base = .ok origin)
    (fits : p.batcher.builder.sealedCount ≤ UInt64.size) {r : Record}
    (handles : p.scribe.stage = .handling (.done r)) (fault : InternalFault) :
    (p.scribe.writer.accept r).1 ≠ .error (.internal fault) := by
  obtain ⟨written, sound⟩ := run.sound_of_handling opened handles
  obtain ⟨hfirst, hnew⟩ := run.new_of_handling opened fits handles
  intro h
  rcases Resequencer.accept_eq p.scribe.writer sound.tally.above sound.tally.nodup_parked r with
    ⟨hold, -⟩ | ⟨-, row, left, -, -, haccept, -⟩
  · rw [← sound.tally.mem_numbers, List.map_append, List.mem_append,
      sound.tally.mem_written] at hnew
    rcases hold with hlt | hin
    · exact hnew (Or.inl ⟨hfirst, hlt⟩)
    · exact hnew (Or.inr hin)
  · rw [haccept] at h
    obtain ⟨fault', hfault⟩ := Resequencer.writeAll_error h
    cases hfault

/-- The records that were offered so far have different numbers; they are those that were taken as
long as the scribe goes on. -/
structure Offered (log : History) (steps : List (Pipeline × Actor)) (p : Pipeline) : Prop where
  nodup : ((collect offering? steps).map (·.sequence.toNat)).Nodup
  going : p.scribe.stage.IsSpent p.shared ∨ collect offering? steps = log.taken

/-- Whoever is not the scribe offers nothing. -/
theorem Offered.of_scribe_eq (h : Offered log steps p) (scribe : p'.scribe = p.scribe)
    (offering : p.offering? actor = none) (taken : ms.taken = [])
    (stopped : p.shared.stopped = true → p'.shared.stopped = true) :
    Offered (log ++ ms) (steps ++ [(p, actor)]) p' := by
  constructor
  · rw [collect_concat, offering, Option.toList_none, List.append_nil]
    exact h.nodup
  · rw [collect_concat, offering, Option.toList_none, List.append_nil, History.taken_append, taken,
      List.append_nil, scribe]
    exact h.going.imp_left fun spent => spent.of_stopped stopped

/-- **A move of the scribe offers nothing that was offered before.** -/
theorem Offered.scribe (h : Offered log steps p) (stopping : Stopping p)
    (new : ∀ r, p.scribe.stage = .handling (.done r) →
      r.sequence.toNat ∉ log.taken.map (·.sequence.toNat))
    {writer : Resequencer} {stage : ScribeStage} {shared : Shared} {completions : Completions}
    {record : Option Record}
    (move : ScribeMove p.scribe.writer p.shared p.completions p.scribe.stage writer stage shared
      completions record) :
    Offered (log ++ (record.map Moment.taken).toList) (steps ++ [(p, .scribe)])
      { p with scribe := ⟨writer, stage⟩, shared, completions } := by
  have hcollect : collect offering? (steps ++ [(p, .scribe)]) =
      collect offering? steps ++ (p.scribe.offering? p.shared).toList := collect_concat ..
  rcases move.offering_cases with ⟨hoffer, rfl⟩ | ⟨r, hoffer, hstage, hresult⟩
  · rw [hoffer, Option.toList_none, List.append_nil] at hcollect
    refine ⟨hcollect ▸ h.nodup, ?_⟩
    rw [hcollect, History.taken_append, History.taken_scribe, Option.toList_none, List.append_nil]
    -- a scribe that writes no more does not begin again
    have halted (halting : p.scribe.stage = .halting []) : p.shared.stopped = true :=
      stopping.done_of_nil (halting?_scribe_iff.2 halting) .raiseFlag (by simp [haltSteps])
    exact h.going.imp_left fun spent => (move.isSpent spent halted).2.2.2
  · have htaken : collect offering? steps = log.taken := h.going.resolve_left fun spent => by
      rw [hstage] at spent
      exact spent
    rw [hoffer, Option.toList_some, htaken] at hcollect
    constructor
    · have hnodup := h.nodup
      rw [htaken] at hnodup
      rw [hcollect, List.map_append, List.nodup_append]
      refine ⟨hnodup, List.nodup_singleton _, ?_⟩
      rintro n hn m hm rfl
      rw [List.map_singleton, List.mem_singleton] at hm
      exact new r hstage (hm ▸ hn)
    · rcases hresult with ⟨size, -, rfl, -⟩ | ⟨error, -, -, rfl⟩
      · right
        rw [hcollect, History.taken_append, History.taken_scribe, Option.toList_some]
      · exact Or.inl trivial

/-- **No record is offered twice**, in any run. -/
theorem Trail.offered (trail : Trail origin log steps p)
    (opened : Pipeline.start settings sink base = .ok origin)
    (fits : p.batcher.builder.sealedCount ≤ UInt64.size) : Offered log steps p := by
  refine trail.invariant (fun log steps p =>
    p.batcher.builder.sealedCount ≤ UInt64.size → Offered log steps p)
    (fresh_of_start opened).idle (fun _ => ⟨List.nodup_nil, Or.inr rfl⟩) ?_ ?_ fits
  · intro log steps p id request _ offered _ fits
    obtain ⟨nodup, going⟩ := offered fits
    exact ⟨nodup, by rwa [History.taken_asked]⟩
  · intro log steps p actor p' ms trail offered move fits
    have hfits := (trail.run.sealedCount_le opened move).trans fits
    have offered := offered hfits
    have hstopped := move.shuts.stopped
    cases move with
    | call present move => exact offered.of_scribe_eq rfl rfl (History.taken_call _ _ _) hstopped
    | batcher move => exact offered.of_scribe_eq rfl rfl (History.taken_batcher _ _) hstopped
    | worker present move => exact offered.of_scribe_eq rfl rfl rfl hstopped
    | scribe move =>
        exact offered.scribe (trail.run.stopping opened)
          (fun r handles => (trail.run.new_of_handling opened hfits handles).2) move

/-! ### Nothing is missing -/

/-- **Nothing is parked when everybody has ended**, and the next number is the one that the next
container would have carried. -/
theorem Run.drained (run : Run origin log p)
    (opened : Pipeline.start settings sink base = .ok origin) (calm : Calm p)
    (fits : p.batcher.builder.sealedCount ≤ UInt64.size) (finished : p.batcher.stage = .finished)
    (gone : ∀ w ∈ p.workers, w = .gone) (reported : p.completions.items = [])
    (hand : p.scribe.stage.hand = []) :
    p.scribe.writer.parked = [] ∧ p.scribe.writer.next = p.batcher.builder.sealedCount := by
  obtain ⟨written, sound⟩ := run.sound opened calm
  obtain ⟨hnumbers, hcount, -⟩ := (run.batched_of_start opened).numbers
  obtain ⟨w, hw⟩ := List.exists_mem_of_ne_nil _ (run.staffed_of_start opened)
  have hwork := ((run.intact opened calm).gone w hw (by rw [gone w hw]; rfl)).2.2
  have hkept := run.numbers_kept opened calm fits
  have hfree : p.batcher.stage.hand = [] := by rw [finished]; rfl
  rw [aboard_eq_zero hwork (fun w hw => by rw [gone w hw]; rfl) reported hand, hfree,
    Multiset.coe_nil, Multiset.map_zero, zero_add, zero_add, Multiset.map_coe, Multiset.map_coe,
    hnumbers] at hkept
  have hperm : (log.taken.map (·.sequence.toNat)).Perm
      (List.range' base.containers.toNat log.sealed.length) := Multiset.coe_eq_coe.1 hkept
  refine (sound.tally.gapless_iff _).2 ⟨by omega, fun n => ?_⟩
  rw [hperm.mem_iff, List.mem_range'_1, hcount]

/-- Whoever finds that something is missing has asked for all that was sealed. -/
theorem finish_of_conclusion (ending : Ending) {sealedCount a b c : Nat}
    (faultless : p.shared.failure = none)
    (h : (p.conclusion ending sealedCount).1 = .error (.drainIncomplete a b c)) :
    (p.scribe.writer.finish sealedCount).1 = .error (.drainIncomplete a b c) := by
  unfold conclusion at h
  rw [faultless] at h
  cases ending with
  | drained =>
      rcases hfinish : p.scribe.writer.finish sealedCount with ⟨error | totals, file⟩
      · simp only [hfinish, Except.map, Except.error.injEq] at h
        rw [h]
      · simp only [hfinish, Except.map] at h
        cases h
  | truncated =>
      rcases hfinish : p.scribe.writer.finishTruncated with ⟨error | totals, file⟩
      · simp only [hfinish, Except.map, Except.error.injEq] at h
        obtain ⟨fault, hfault⟩ := Resequencer.writeFooter_error (congrArg Prod.fst hfinish)
        rw [hfault] at h
        cases h
      · simp only [hfinish, Except.map] at h
        cases h

/-- No call is answered that something is missing, in a run that ends calm. -/
theorem Run.not_drainIncomplete (run : Run origin log p)
    (opened : Pipeline.start settings sink base = .ok origin) (calm : Calm p)
    (fits : p.batcher.builder.sealedCount ≤ UInt64.size) (id a b c : Nat) :
    .answered id (.error (.drainIncomplete a b c)) ∉ log := by
  refine run.invariant (fun log p => Calm p → p.batcher.builder.sealedCount ≤ UInt64.size →
    .answered id (.error (.drainIncomplete a b c)) ∉ log) (fresh_of_start opened).idle
    (fun _ _ => List.not_mem_nil) ?_ ?_ calm fits
  · intro log p id' request _ quiet _ calm fits
    simpa using quiet calm.of_arrive fits
  · intro log p actor p' ms run quiet move calm fits hanswered
    have hbefore := calm.of_move (run.stopping opened) move
    have hfits := (run.sealedCount_le opened move).trans fits
    have intact := run.intact opened hbefore
    replace hanswered := (List.mem_append.1 hanswered).resolve_left (quiet hbefore hfits)
    cases move with
    | call present move =>
        obtain ⟨rfl, hstage⟩ := CallStage.returned_of_mem hanswered
        rcases move.error_cases hstage with hfailure | ⟨-, herror⟩ | ⟨-, herror, -⟩ |
          ⟨ending, n, rfl⟩
        · rw [intact.faultless] at hfailure
          cases hfailure
        · rw [Shared.failureOrClosed, intact.faultless] at herror
          cases herror
        · cases herror
        · -- whoever concludes has joined the threads, so that everybody has ended
          obtain ⟨hbatcher, hscribe⟩ := (run.joined_of_start opened).both _ _ _ present
          obtain ⟨hfinished, rfl⟩ := Batcher.sealedCount?_eq_some_iff.1 hbatcher
          have hended := Scribe.isFinished_iff.1 hscribe
          have hover : p.scribe.stage.isOver = true := by rw [hended]; rfl
          have hgone := intact.trailing.gone_of_over (run.senders_of_start opened) hover
          obtain ⟨hparked, hnext⟩ := run.drained opened hbefore hfits hfinished
            (fun w hw => (intact.gone w hw (hgone w hw)).1) (intact.ended hover).2
            (by rw [hended]; rfl)
          refine Resequencer.finish_ne_drainIncomplete hparked hnext a b c
            (finish_of_conclusion ending intact.faultless ?_)
          cases move
          exact CallStage.returned.inj hstage
    | batcher move => simp at hanswered
    | worker present move => cases hanswered
    | scribe move => simp at hanswered

/-! ### Every container is in one place -/

/-- **Every container is in exactly one place.**

For every choice of settings and every file, let a run of its pipeline have led to a state in which
the builder's count fits into 64 bits.  Then the records that were offered to the resequencer so far
have different numbers, and it does not turn away the one that the scribe handles: only the file can
refuse it.  If moreover nobody has seen that the pipeline is to stop, then each number from the
first of the session up to the builder's count is in exactly one of the six places and no other
number is anywhere; the records behind the bytes that were there at first are those with the numbers
in front of the next one, and all parked ones have numbers behind it.  If besides the batcher and
the workers have ended and the scribe has looked at all reports, nothing is parked and the next
number is the builder's count, so that the file can be finished; and no call has been told that
something is missing. -/
theorem each_in_one_place (trail : Trail origin log steps p)
    (opened : Pipeline.start settings sink base = .ok origin)
    (fits : p.batcher.builder.sealedCount ≤ UInt64.size) :
    ((collect offering? steps).map (·.sequence.toNat)).Nodup ∧
    (∀ r fault, p.scribe.stage = .handling (.done r) →
      (p.scribe.writer.accept r).1 ≠ .error (.internal fault)) ∧
    (Calm p →
      (∃ written,
        (p.whereabouts written).Perm (List.range' base.containers.toNat
          (p.batcher.builder.sealedCount - base.containers.toNat)) ∧
        written.map (·.sequence.toNat) = List.range' base.containers.toNat
          (p.scribe.writer.next - base.containers.toNat) ∧
        p.scribe.writer.out.contents = sink.bytes ++ Image.unfinished written ∧
        ∀ r ∈ p.scribe.writer.parked, p.scribe.writer.next < r.sequence.toNat) ∧
      (p.batcher.stage = .finished → (∀ w ∈ p.workers, w = .gone) → p.completions.items = [] →
        p.scribe.stage.hand = [] →
          p.scribe.writer.parked = [] ∧
          p.scribe.writer.next = p.batcher.builder.sealedCount ∧
          ∀ a b c, (p.scribe.writer.finish p.batcher.builder.sealedCount).1 ≠
            .error (.drainIncomplete a b c)) ∧
      ∀ id a b c, .answered id (.error (.drainIncomplete a b c)) ∉ log) := by
  have run := trail.run
  refine ⟨(trail.offered opened fits).nodup,
    fun r fault handles => run.accept_ne_internal opened fits handles fault,
    fun calm => ⟨?_, fun finished gone reported hand => ?_,
      run.not_drainIncomplete opened calm fits⟩⟩
  · obtain ⟨written, sound⟩ := run.sound opened calm
    obtain ⟨hnumbers, hcount, -⟩ := (run.batched_of_start opened).numbers
    refine ⟨written, Multiset.coe_eq_coe.1 ?_, ?_, ?_, sound.tally.above⟩
    · rw [coe_whereabouts, Multiset.coe_eq_coe.2 sound.tally.perm,
        run.numbers_kept opened calm fits, Multiset.map_coe, hnumbers, hcount,
        Nat.add_sub_cancel_left]
    · rw [sound.tally.numbers, sound.tally.next_eq, Nat.add_sub_cancel_left]
    · rw [sound.held.contents_eq, Record.flatten_pieces]
  · obtain ⟨hparked, hnext⟩ := run.drained opened calm fits finished gone reported hand
    exact ⟨hparked, hnext, Resequencer.finish_ne_drainIncomplete hparked hnext⟩

/-- Two workers compress a container each, and the second one overtakes the first: it is parked
while the first one is offered, and when everybody has ended both are in the file. -/
theorem each_in_one_place_overtaken :
    ∃ origin log steps q log' steps' p r₀ r₁,
      Pipeline.start ⟨1, 1, 2, 64, .identity⟩ (.reliable .empty) .zero = .ok origin ∧
      Trail origin log steps q ∧ q.scribe.stage = .handling (.done r₀) ∧
      q.scribe.writer.parked = [r₁] ∧
      (∀ fault, (q.scribe.writer.accept r₀).1 ≠ .error (.internal fault)) ∧
      Trail origin log' steps' p ∧ collect offering? steps' = [r₁, r₀] ∧
      ([r₁, r₀].map (·.sequence.toNat)).Nodup ∧
      (∃ written, (p.whereabouts written).Perm [0, 1]) ∧
      p.scribe.writer.parked = [] ∧ p.scribe.writer.next = 2 := by
  obtain ⟨origin, opened⟩ : ∃ origin,
      Pipeline.start ⟨1, 1, 2, 64, .identity⟩ (.reliable .empty) .zero = .ok origin := ⟨_, rfl⟩
  obtain ⟨-, horigin⟩ := eq_of_start opened
  obtain ⟨turns, more, log, q, log', p, r₀, r₁, hturns, hmore, hhandles, hparked, hcount, hoffers,
      hended⟩ : ∃ turns more log q log' p r₀ r₁,
      follow? turns [] origin = some (log, q) ∧ follow? more log q = some (log', p) ∧
      q.scribe.stage = .handling (.done r₀) ∧ q.scribe.writer.parked = [r₁] ∧
      q.batcher.builder.sealedCount = 2 ∧
      collect offering? ([] ++ itinerary turns origin ++ itinerary more q) = [r₁, r₀] ∧
      p.batcher.builder.sealedCount = 2 ∧ p.shared.stopped = false ∧
      p.batcher.stage = .finished ∧ p.workers = [.gone, .gone] ∧ p.completions.items = [] ∧
      p.scribe.stage = .finished := by
    rw [horigin]
    exact ⟨[.arrive 1 (.write 5 [7]), .step (.call 1), .step (.call 1), .step (.call 1),
        .arrive 2 (.write 6 [8]), .step (.call 2), .step (.call 2), .step .batcher,
        .step (.call 2), .step .batcher, .step .batcher, .step .batcher, .step .batcher,
        .step .batcher, .step (.worker 0), .step (.worker 0), .step (.worker 1),
        .step (.worker 1), .step (.worker 1), .step (.worker 1), .step (.worker 0),
        .step (.worker 0), .step .scribe, .step .scribe, .step .scribe, .step .scribe,
        .step .scribe],
      [.step .scribe, .step .scribe, .step .scribe, .arrive 3 .close, .step (.call 3),
        .step (.call 3), .step .batcher, .step .batcher, .step .batcher, .step (.worker 0),
        .step (.worker 1), .step .scribe, .step .scribe, .step .scribe, .step (.call 3),
        .step (.call 3), .step (.call 3)],
      _, _, _, _, _, _, rfl, rfl, rfl, rfl, rfl, rfl, rfl, rfl, rfl, rfl, rfl, rfl⟩
  obtain ⟨hcount', running, hfinished, hgone, hreported, hscribe⟩ := hended
  have calm : Calm p := ⟨running, fun actor halts h => by
    cases actor with
    | call id => exact ⟨id, rfl⟩
    | batcher => cases h
    | worker index =>
        have hin := List.mem_of_getElem? (halting?_worker_iff.1 h)
        simp [hgone] at hin
    | scribe =>
        have hstage := halting?_scribe_iff.1 h
        rw [hscribe] at hstage
        cases hstage⟩
  have trail := Trail.start.follow hturns
  have trail' := trail.follow hmore
  have hfits : 2 ≤ UInt64.size := by decide
  obtain ⟨-, haccept, -⟩ := each_in_one_place trail opened (by rw [hcount]; exact hfits)
  obtain ⟨hnodup, -, hcalm⟩ := each_in_one_place trail' opened (by rw [hcount']; exact hfits)
  obtain ⟨⟨written, hplaces, -⟩, hdrained, -⟩ := hcalm calm
  rw [hoffers] at hnodup
  rw [hcount'] at hplaces hdrained
  obtain ⟨hempty, hnext, -⟩ := hdrained hfinished (by simp [hgone]) hreported (by rw [hscribe]; rfl)
  exact ⟨origin, log, _, q, log', _, p, r₀, r₁, opened, trail, hhandles, hparked,
    fun fault => haccept r₀ fault hhandles, trail', hoffers, hnodup, ⟨written, hplaces⟩, hempty,
    hnext⟩

end Pipeline

end TraceLog
