/-
**The bytes in flight when nothing is dropped.**

In a pipeline that is calm, what was sealed is admitted and what has arrived is written or parked.
So nothing is in flight once the records of all the containers that were admitted have arrived; and
nothing is parked then, because the numbers of the records that have arrived leave no gap.

Main definitions:

* `ScribeStage.owed` — the bytes that are about to be put back;
* `Pipeline.Ledger` — what was written, admitted and put back so far.

Main results:

* `Pipeline.Run.ledger` — the books at the end of every run that ends calm;
* `Pipeline.Ledger.settled` — **when all that was admitted has arrived**, nothing is parked and
  nothing is in flight.
-/

import TraceLog.Proofs.Pipeline.Accounting

set_option relaxedAutoImplicit false
set_option autoImplicit false

namespace TraceLog

/-- The bytes that the scribe is about to put back. -/
def ScribeStage.owed : ScribeStage → Nat
  | .releasing bytes => bytes
  | _ => 0

/-- The framed bytes of the container whose record a report brings. -/
def reportWeight : Option Completion → Nat
  | some (.done r) => r.header.rawSize.toNat
  | _ => 0

theorem BatcherStage.hand_eq (stage : BatcherStage) :
    stage.hand = stage.admitted ++ stage.unadmitted := by
  cases stage <;> rfl

theorem ScribeStage.owed_eq (stage : ScribeStage) : stage.owed = stage.releasing?.toList.sum := by
  cases stage <;> rfl

namespace Pipeline

open Resequencer

variable {first : Nat} {written : List Record} {admitted : List Container} {log : History}
  {p : Pipeline} {steps : List (Pipeline × Actor)}

/-! ### The books -/

/-- The bytes in flight are those of the containers that were admitted, without those of the records
that were written, up to what the scribe is about to put back. -/
structure Ledger (first : Nat) (written : List Record) (admitted : List Container) (log : History)
    (p : Pipeline) : Prop where
  tally : Tally first written log.taken p.scribe.writer
  sealed_eq : log.sealed = admitted ++ p.batcher.stage.unadmitted
  balance : p.shared.budget.inFlight + Record.weight written =
    Container.weight admitted + p.scribe.stage.owed

/-- Where nothing was dropped, what was sealed was admitted or waits for it. -/
theorem Admitted.sealed_eq (h : Admitted log steps p)
    (kept : p.underway + log.arrived = log.departed p.codec) :
    log.sealed = collect admitting? steps ++ p.batcher.stage.unadmitted := by
  -- there are as many of the one as of the other
  have hkept := congrArg Multiset.card kept
  have hle := Multiset.card_le_card h.custody
  rw [underway_eq, BatcherStage.hand_eq, History.departed] at hkept
  simp only [Multiset.card_add, Multiset.card_map, Multiset.coe_card, List.length_append]
    at hkept hle
  refine (h.sublist.eq_of_length_le ?_).symm
  rw [List.length_append]
  omega

/-- **The books at the end of every run** from a newly opened file that ends calm. -/
theorem Run.ledger {settings : Settings} {sink : Sink} {base : Totals} {origin : Pipeline}
    (run : Run origin log p) (opened : Pipeline.start settings sink base = .ok origin)
    (calm : Calm p) :
    ∃ written admitted, Ledger base.containers.toNat written admitted log p := by
  obtain ⟨steps, trail⟩ := run.exists_trail
  obtain ⟨settled, due, rows, -, pending, balance, -⟩ := trail.booked opened
  refine ⟨_, _, (trail.rowed opened).going.resolve_left fun spent => spent.2 calm,
    (trail.admitted opened).sealed_eq (run.intact opened calm).kept, ?_⟩
  rw [rows, List.flatten_append, Record.weight_append, Record.weight_flatten due, ← pending,
    ← ScribeStage.owed_eq, ← balance, Nat.add_assoc]

/-! ### When everything has arrived -/

/-- Successive numbers that are cut to 64 bits differ from each other, and none is in front of the
first, only if nothing was cut. -/
theorem add_le_of_nodup_cut {first n : Nat} (hfirst : first < UInt64.size)
    (nodup : ((List.range' first n).map fun i => (UInt64.ofNat i).toNat).Nodup)
    (above : ∀ i ∈ List.range' first n, first ≤ (UInt64.ofNat i).toNat) :
    first + n ≤ UInt64.size := by
  by_contra hlarge
  have hin : UInt64.size ∈ List.range' first n := List.mem_range'_1.2 ⟨by omega, by omega⟩
  -- the first number that is cut becomes zero
  have hzero : first = 0 := by simpa using above _ hin
  subst hzero
  have hin₀ : 0 ∈ List.range' 0 n := List.mem_range'_1.2 ⟨by omega, by omega⟩
  have := List.inj_on_of_nodup_map nodup hin hin₀ rfl
  cases this

/-- **When all that was admitted has arrived**, nothing is parked, and nothing is in flight but what
the scribe is about to put back. -/
theorem Ledger.settled {threshold : UInt32} (h : Ledger first written admitted log p)
    (batched : Batched (.start threshold first) log p) (hfirst : first < UInt64.size)
    (kept : p.underway + log.arrived = log.departed p.codec)
    (arrived : p.underway =
      (p.batcher.stage.unadmitted : Multiset Container).map (·.complete? p.codec)) :
    p.scribe.writer.parked = [] ∧ p.scribe.writer.next = first + admitted.length ∧
      p.shared.budget.inFlight = p.scribe.stage.owed := by
  have hreports : log.arrived = (admitted : Multiset Container).map (·.complete? p.codec) := by
    rw [arrived, History.departed, h.sealed_eq, ← Multiset.coe_add, Multiset.map_add,
      add_comm] at kept
    exact add_right_cancel kept
  have hnumbers : admitted.map (·.sequence) = List.range' first admitted.length := by
    have hall := batched.numbers.1
    rw [h.sealed_eq, List.map_append, List.length_append, ← List.range'_append_1] at hall
    exact List.append_inj_left hall (by simp)
  -- every container that was admitted has its record among those that were taken
  have hrecord (c : Container) (hc : c ∈ admitted) :
      ∃ r, c.complete? p.codec = some (.done r) := by
    have hin : c.complete? p.codec ∈ log.arrived := by
      rw [hreports]
      exact Multiset.mem_map_of_mem _ (Multiset.mem_coe.2 hc)
    obtain ⟨r, -, hr⟩ := Multiset.mem_map.1 hin
    exact ⟨r, hr.symm⟩
  have htaken {β : Type} (f : Option Completion → β) :
      (log.taken.map fun r => f (some (.done r))).Perm
        (admitted.map fun c => f (c.complete? p.codec)) := by
    have := congrArg (Multiset.map f) hreports
    rw [History.arrived, Multiset.map_map, Multiset.map_map, Multiset.map_coe,
      Multiset.map_coe] at this
    exact Multiset.coe_eq_coe.1 this
  have hcut : (log.taken.map (·.sequence.toNat)).Perm
      ((List.range' first admitted.length).map fun i => (UInt64.ofNat i).toNat) := by
    refine (htaken fun report => (reportNumber? report).getD 0).trans (.of_eq ?_)
    rw [← hnumbers, List.map_map]
    refine List.map_congr_left fun c hc => ?_
    obtain ⟨r, hr⟩ := hrecord c hc
    simp [hr, reportNumber?, Container.sequence_of_complete? hr]
  have hfits : first + admitted.length ≤ UInt64.size := by
    refine add_le_of_nodup_cut hfirst (hcut.nodup_iff.1 h.tally.nodup) fun i hi => ?_
    have hmem := hcut.mem_iff.2 (List.mem_map_of_mem hi)
    obtain ⟨r, hr, hri⟩ := List.mem_map.1 hmem
    rw [← hri]
    exact h.tally.first_le_of_mem hr
  have hwhole : (List.range' first admitted.length).map (fun i => (UInt64.ofNat i).toNat) =
      List.range' first admitted.length := by
    refine (List.map_congr_left fun i hi => ?_).trans (List.map_id' _)
    have := List.mem_range'_1.1 hi
    exact UInt64.toNat_ofNat_of_lt' (by omega)
  rw [hwhole] at hcut
  obtain ⟨hparked, hnext⟩ := (h.tally.gapless_iff (first + admitted.length)).2
    ⟨by omega, fun n => by rw [hcut.mem_iff, List.mem_range'_1]⟩
  refine ⟨hparked, hnext, ?_⟩
  have hweight : Record.weight log.taken = Container.weight admitted := by
    refine (htaken reportWeight).sum_eq.trans (congrArg List.sum ?_)
    refine List.map_congr_left fun c hc => ?_
    obtain ⟨r, hr⟩ := hrecord c hc
    rw [hr]
    exact Container.rawSize_of_complete? hr
  have hperm := h.tally.perm
  rw [hparked, List.append_nil] at hperm
  have hbalance := h.balance
  rw [Record.weight_perm hperm, hweight] at hbalance
  omega

end Pipeline

end TraceLog
