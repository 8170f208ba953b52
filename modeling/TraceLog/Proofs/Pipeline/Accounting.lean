/-
**Every byte in flight is accounted for.**

The batcher takes the framed bytes of a container out of the budget when the container is admitted.
The scribe puts bytes back when the resequencer has written a row of records: the one that has just
arrived with the parked ones that follow it, or none at all.  So the bytes come back in other
portions than they went out, and much later perhaps.  Here the portions are matched: every row comes
from containers that were admitted, no container is in two of them, and what is put back for a row
are the bytes that were taken out for its containers.

None of this needs the run to go well.  A container that someone drops stays in flight for ever,
which nobody waits for.

Main definitions:

* `Resequencer.row` — the records that the resequencer writes when one arrives;
* `Pipeline.writing?` — the records that a step writes;
* `Pipeline.Admitted`, `Pipeline.Rowed`, `Pipeline.Booked` — the invariants.

Main results:

* `Resequencer.Tally.accept_row` — **an arrival writes its row**;
* `Pipeline.Trail.admitted`, `Pipeline.Trail.rowed`, `Pipeline.Trail.booked` — the invariants hold
  at the end of every run, whatever fails in it;
* `Pipeline.in_flight_exact` — **what is in flight**, and that the limit is kept.
-/

import TraceLog.Proofs.Pipeline.Admitting
import TraceLog.Proofs.Pipeline.Securing
import TraceLog.Proofs.Pipeline.Trail

set_option relaxedAutoImplicit false
set_option autoImplicit false

namespace TraceLog

/-! ### Rows -/

/-- What is looked up by its key under the keys of a list is the list, if the keys are different. -/
theorem filterMap_find?_eq {α : Type} {key : α → Nat} {xs ys : List α} (sub : ∀ x ∈ xs, x ∈ ys)
    (nodup : (ys.map key).Nodup) :
    (xs.map key).filterMap (fun n => ys.find? fun y => key y == n) = xs := by
  induction xs with
  | nil => rfl
  | cons x xs ih =>
      have hx := sub x List.mem_cons_self
      have hfind : ys.find? (fun y => key y == key x) = some x := by
        cases hfound : ys.find? (fun y => key y == key x) with
        | none => simpa using List.find?_eq_none.1 hfound x hx
        | some y =>
            have hkey : key y = key x := by simpa using List.find?_some hfound
            rw [List.inj_on_of_nodup_map nodup (List.mem_of_find?_eq_some hfound) hx hkey]
      simp only [List.map_cons, List.filterMap_cons, hfind]
      rw [ih fun x' hx' => sub x' (List.mem_cons_of_mem x hx')]

namespace Resequencer

variable {w w' : Resequencer}

/-- The records that the resequencer writes when one arrives: those with the numbers that it has
passed afterwards, the one that has arrived among them or not. -/
def row (w : Resequencer) (r : Record) : List Record :=
  (List.range' w.next ((w.accept r).2.next - w.next)).filterMap fun n =>
    (r :: w.parked).find? (·.sequence.toNat == n)

/-- **An arrival that is taken writes its row.** -/
theorem Tally.accept_row {first : Nat} {written taken : List Record}
    (h : Tally first written taken w) {r : Record} {n : Nat}
    (accepted : w.accept r = (.ok n, w')) :
    ∃ w₁, writeAll 0 (w.row r) w = (.ok n, w₁) ∧ w' = { w₁ with parked := w'.parked } ∧
      Tally first (written ++ w.row r) (taken ++ [r]) w' := by
  obtain ⟨row, w₁, hwrite, hw', htally⟩ := h.accept accepted
  have hnext : w'.next = w.next + row.length := by
    rw [hw']
    exact (counted_of_writeAll hwrite).2.1
  -- the row consists of records that have arrived or were parked
  have hperm : (row ++ w'.parked).Perm (r :: w.parked) := by
    refine (List.perm_append_left_iff written).1 ?_
    rw [← List.append_assoc]
    refine htally.perm.trans ((List.perm_append_singleton r taken).trans ?_)
    exact (h.perm.symm.cons r).trans List.perm_middle.symm
  have hnodup : ((r :: w.parked).map (·.sequence.toNat)).Nodup := by
    have hall := (htally.perm.map (·.sequence.toNat)).nodup_iff.2 htally.nodup
    rw [List.append_assoc, List.map_append] at hall
    exact ((hperm.map _).nodup_iff).1 (List.nodup_append.1 hall).2.1
  have hnumbers : row.map (·.sequence.toNat) = List.range' w.next row.length := by
    have hall := htally.numbers
    rw [List.map_append, List.length_append, ← List.range'_append_1, ← h.next_eq] at hall
    exact List.append_inj_right hall (by simp)
  have hrow : w.row r = row := by
    rw [Resequencer.row, accepted, hnext, Nat.add_sub_cancel_left, ← hnumbers]
    exact filterMap_find?_eq (fun x hx => hperm.mem_iff.1 (List.mem_append_left _ hx)) hnodup
  rw [hrow]
  exact ⟨w₁, hwrite, hw', htally⟩

/-- The answer to an arrival are the bytes of its row. -/
theorem Tally.weight_row {first : Nat} {written taken : List Record}
    (h : Tally first written taken w) {r : Record} {n : Nat}
    (accepted : w.accept r = (.ok n, w')) : n = Record.weight (w.row r) := by
  obtain ⟨w₁, hwrite, -⟩ := h.accept_row accepted
  rw [(counted_of_writeAll hwrite).1, Nat.zero_add, Record.weight]

end Resequencer

/-- The records that a step writes. -/
def Pipeline.writing? (p : Pipeline) : Actor → Option (List Record)
  | .scribe => (p.scribe.taking? p.shared).map p.scribe.writer.row
  | _ => none

namespace Pipeline

open Resequencer (Tally)

variable {settings : Settings} {sink : Sink} {base : Totals} {origin p p' : Pipeline}
  {actor : Actor} {log ms : History} {steps : List (Pipeline × Actor)} {first : Nat}

/-! ### What was admitted -/

/-- What was admitted, with what waits for it, was sealed; and what is with the workers or has
arrived was admitted, container by container. -/
structure Admitted (log : History) (steps : List (Pipeline × Actor)) (p : Pipeline) : Prop where
  sublist : (collect admitting? steps ++ p.batcher.stage.unadmitted).Sublist log.sealed
  custody : (p.batcher.stage.admitted : Multiset Container).map (·.complete? p.codec) +
      p.aboard (·.complete? p.codec) some + log.arrived ≤
    (collect admitting? steps : Multiset Container).map (·.complete? p.codec)

theorem admitting?_of_ne (other : actor ≠ .batcher) : p.admitting? actor = none := by
  cases actor <;> first | rfl | exact absurd rfl other

/-- **A step hands on only what was admitted.** -/
theorem Admitted.move (h : Admitted log steps p) (move : p.Move actor p' ms) :
    Admitted (log ++ ms) (steps ++ [(p, actor)]) p' := by
  have hcodec := move.codec_eq
  by_cases hactor : actor = .batcher
  · subst hactor
    cases move with
    | batcher move =>
        rename_i builder stage shared command c
        have hcollect : collect admitting? (steps ++ [(p, .batcher)]) =
            collect admitting? steps ++ (p.batcher.admitting? p.shared).toList := collect_concat ..
        constructor
        · rw [hcollect, History.sealed_append, History.sealed_batcher]
          refine List.Sublist.append ?_ (move.unadmitted_eq ▸ List.Sublist.refl _)
          exact ((List.Sublist.refl _).append (p.batcher.admitting?_sublist p.shared)).trans
            h.sublist
        · have harrived : History.arrived ((command.map Moment.obeyed).toList ++
              (c.map Moment.sealed).toList) = 0 := by
            rw [History.arrived, History.taken_batcher]
            rfl
          have hle := Multiset.map_le_map (f := (·.complete? p.codec)) move.admitted_le
          have hcustody := h.custody
          -- the containers that no worker has taken, apart from everything else
          have hsplit (hand work others reports arrived : Multiset (Option Completion)) :
              hand + (work + others + reports) + arrived =
                hand + work + (others + reports + arrived) := by abel
          rw [Multiset.map_add, Multiset.map_add, Multiset.map_add] at hle
          rw [aboard, hsplit] at hcustody
          rw [hcollect, History.arrived_append, harrived, add_zero, aboard, hsplit,
            ← Multiset.coe_add, Multiset.map_add]
          refine (add_le_add_left hle _).trans ?_
          rw [add_right_comm]
          exact add_le_add_left hcustody _
  · obtain ⟨hbatcher, hsealed, hcargo⟩ := move.aboard_eq hactor (·.complete? p.codec) some
      fun c completion _ completed => completed.symm
    have hle : p'.aboard (·.complete? p.codec) some + History.arrived ms ≤
        p.aboard (·.complete? p.codec) some := by
      rcases hcargo with heq | ⟨-, hle⟩
      · exact le_of_eq heq
      · exact hle
    have hcollect : collect admitting? (steps ++ [(p, actor)]) = collect admitting? steps := by
      rw [collect_concat, admitting?_of_ne hactor, Option.toList_none, List.append_nil]
    constructor
    · rw [hcollect, hbatcher, History.sealed_append, hsealed, List.append_nil]
      exact h.sublist
    · rw [hcollect, hbatcher, hcodec, History.arrived_append]
      calc _ = (p.batcher.stage.admitted : Multiset Container).map (·.complete? p.codec) +
              (p'.aboard (·.complete? p.codec) some + History.arrived ms) + log.arrived := by abel
        _ ≤ _ := by gcongr
        _ ≤ _ := h.custody

/-- **What was admitted**, at the end of every run. -/
theorem Trail.admitted (trail : Trail origin log steps p)
    (opened : Pipeline.start settings sink base = .ok origin) : Admitted log steps p := by
  refine trail.invariant Admitted (fresh_of_start opened).idle ?_
    (fun log steps p id request _ h _ => ?_) fun _ _ _ _ _ _ _ h move => h.move move
  · obtain ⟨-, rfl⟩ := eq_of_start opened
    refine ⟨List.Sublist.refl _, ?_⟩
    rw [aboard_eq_zero rfl (fun w hw => by rw [List.eq_of_mem_replicate hw]; rfl) rfl rfl]
    rfl
  · refine ⟨?_, ?_⟩
    · rw [History.sealed_asked]
      exact h.sublist
    · rw [History.arrived, History.taken_asked]
      exact h.custody

/-- What was taken was admitted. -/
theorem Admitted.arrived_le (h : Admitted log steps p) :
    log.arrived ≤ (collect admitting? steps : Multiset Container).map (·.complete? p.codec) :=
  (Multiset.le_add_left _ _).trans h.custody

/-! ### What was written -/

/-- The rows that were written consist of records that were taken; as long as the scribe goes on,
and in a pipeline that is calm, they lie one behind the other, in front of what is parked. -/
structure Rowed (first : Nat) (log : History) (steps : List (Pipeline × Actor)) (p : Pipeline) :
    Prop where
  written : ((collect writing? steps).flatten : Multiset Record) ≤ log.taken
  going : (p.scribe.stage.IsSpent p.shared ∧ ¬ Calm p) ∨
    Tally first (collect writing? steps).flatten log.taken p.scribe.writer

/-- Whoever is not the scribe writes nothing. -/
theorem Rowed.of_scribe_eq (h : Rowed first log steps p) (scribe : p'.scribe = p.scribe)
    (writing : p.writing? actor = none) (taken : ms.taken = [])
    (stopped : p.shared.stopped = true → p'.shared.stopped = true) (calm : Calm p' → Calm p) :
    Rowed first (log ++ ms) (steps ++ [(p, actor)]) p' := by
  constructor
  · rw [collect_concat, writing, Option.toList_none, List.append_nil, History.taken_append, taken,
      List.append_nil]
    exact h.written
  · rw [collect_concat, writing, Option.toList_none, List.append_nil, History.taken_append, taken,
      List.append_nil, scribe]
    exact h.going.imp_left fun spent => ⟨spent.1.of_stopped stopped, spent.2 ∘ calm⟩

/-- **A move of the scribe writes a row behind the others**, or nothing. -/
theorem Rowed.scribe (h : Rowed first log steps p) (stopping : Stopping p) {writer : Resequencer}
    {stage : ScribeStage} {shared : Shared} {completions : Completions} {record : Option Record}
    (move : ScribeMove p.scribe.writer p.shared p.completions p.scribe.stage writer stage shared
      completions record) :
    Rowed first (log ++ (record.map Moment.taken).toList) (steps ++ [(p, .scribe)])
      { p with scribe := ⟨writer, stage⟩, shared, completions } := by
  have hrows : collect writing? (steps ++ [(p, .scribe)]) =
      collect writing? steps ++ (record.map p.scribe.writer.row).toList := by
    rw [← move.taking?_eq]
    exact collect_concat ..
  have hkept (hrecord : record = none)
      (going : (stage.IsSpent shared ∧
          ¬ Calm { p with scribe := ⟨writer, stage⟩, shared, completions }) ∨
        Tally first (collect writing? steps).flatten log.taken writer) :
      Rowed first (log ++ (record.map Moment.taken).toList) (steps ++ [(p, .scribe)])
        { p with scribe := ⟨writer, stage⟩, shared, completions } := by
    subst hrecord
    rw [Option.map_none, Option.toList_none, List.append_nil] at hrows ⊢
    exact ⟨hrows ▸ h.written, hrows ▸ going⟩
  rcases h.going with spent | tally
  · -- a scribe that writes no more does not begin again
    have halted (halting : p.scribe.stage = .halting []) : p.shared.stopped = true :=
      stopping.done_of_nil (halting?_scribe_iff.2 halting) .raiseFlag (by simp [haltSteps])
    obtain ⟨-, hrecord, -, spent'⟩ := move.isSpent spent.1 halted
    refine hkept hrecord (Or.inl ⟨spent', fun calm => spent.2 ?_⟩)
    exact calm.of_move stopping (.scribe move)
  cases move.asks with
  | nothing progress => exact hkept rfl (Or.inr tally)
  | flushed flushes flushed =>
      have htally := tally.flush
      rw [flushed] at htally
      exact hkept rfl (Or.inr htally)
  -- whoever is refused something stops the pipeline
  | notFlushed flushes flushed =>
      exact hkept rfl (Or.inl ⟨trivial, fun calm =>
        calm.not_halting (by simp) (halting?_scribe_iff.2 rfl)⟩)
  | refused handles accepted =>
      exact hkept rfl (Or.inl ⟨trivial, fun calm =>
        calm.not_halting (by simp) (halting?_scribe_iff.2 rfl)⟩)
  | taken handles accepted =>
      rename_i r size
      obtain ⟨w₁, -, -, htally⟩ := tally.accept_row accepted
      have hflatten : (collect writing? (steps ++ [(p, .scribe)])).flatten =
          (collect writing? steps).flatten ++ p.scribe.writer.row r := by
        rw [hrows, List.flatten_append, Option.map_some, Option.toList_some, List.flatten_singleton]
      have htaken : History.taken (log ++ ((some r).map Moment.taken).toList) =
          log.taken ++ [r] := by
        rw [History.taken_append, History.taken_scribe, Option.toList_some]
      constructor
      · rw [hflatten, htaken]
        exact Multiset.coe_le.2 ((List.sublist_append_left ..).subperm.trans htally.perm.subperm)
      · rw [hflatten, htaken]
        exact Or.inr htally

/-- **What was written**, at the end of every run. -/
theorem Trail.rowed (trail : Trail origin log steps p)
    (opened : Pipeline.start settings sink base = .ok origin) :
    Rowed base.containers.toNat log steps p := by
  refine trail.invariant (Rowed base.containers.toNat) (fresh_of_start opened).idle ?_
    (fun log steps p id request _ h _ => ?_) fun log steps p actor p' ms trail h move => ?_
  · obtain ⟨-, rfl⟩ := eq_of_start opened
    exact ⟨le_refl _, Or.inr (Resequencer.sound_resume sink base).tally⟩
  · obtain ⟨written, going⟩ := h
    rw [← History.taken_asked log id request] at written going
    exact ⟨written, going.imp_left fun spent => ⟨spent.1, spent.2 ∘ Calm.of_arrive⟩⟩
  · have hstopping := trail.run.stopping opened
    have hstopped := move.shuts.stopped
    have hcalm (calm : Calm p') : Calm p := calm.of_move hstopping move
    cases move with
    | call present move => exact h.of_scribe_eq rfl rfl (History.taken_call _ _ _) hstopped hcalm
    | batcher move => exact h.of_scribe_eq rfl rfl (History.taken_batcher _ _) hstopped hcalm
    | worker present move => exact h.of_scribe_eq rfl rfl rfl hstopped hcalm
    | scribe move => exact h.scribe hstopping move

end Pipeline

/-! ### Containers and their records -/

/-- What a part of a list is mapped to by one function is found in another list that is mapped to it
by another one. -/
theorem exists_perm_append_of_map_le {α β γ : Type} {f : α → γ} {g : β → γ} {xs : List α}
    {ys : List β} (h : (xs.map f : Multiset γ) ≤ ys.map g) :
    ∃ zs rest, ys.Perm (zs ++ rest) ∧ zs.map g = xs.map f := by
  induction xs generalizing ys with
  | nil => exact ⟨[], ys, .refl _, rfl⟩
  | cons x xs ih =>
      have hin : f x ∈ ys.map g := (Multiset.coe_le.1 h).subset List.mem_cons_self
      obtain ⟨y, hy, hyx⟩ := List.mem_map.1 hin
      obtain ⟨before, behind, rfl⟩ := List.append_of_mem hy
      have hperm : (before ++ y :: behind).Perm (y :: (before ++ behind)) := List.perm_middle
      have hrest : (xs.map f : Multiset γ) ≤ (before ++ behind).map g := by
        rw [Multiset.coe_eq_coe.2 (hperm.map g), List.map_cons, List.map_cons, hyx,
          ← Multiset.cons_coe, ← Multiset.cons_coe] at h
        exact (Multiset.cons_le_cons_iff _).1 h
      obtain ⟨zs, rest, hperm', hmap⟩ := ih hrest
      refine ⟨y :: zs, rest, hperm.trans (hperm'.cons y), ?_⟩
      rw [List.map_cons, hyx, hmap, List.map_cons]

/-- The records of some containers, one by one. -/
def Container.MadeInto (codec : Codec) (cs : List Container) (rs : List Record) : Prop :=
  cs.map (·.complete? codec) = rs.map fun r => some (.done r)

namespace Container.MadeInto

variable {codec : Codec} {cs : List Container} {rs : List Record}

theorem length_eq (h : MadeInto codec cs rs) : cs.length = rs.length := by
  have := congrArg List.length h
  rwa [List.length_map, List.length_map] at this

/-- Records have the bytes of their containers. -/
theorem weight_eq (h : MadeInto codec cs rs) : weight cs = Record.weight rs := by
  induction cs generalizing rs with
  | nil =>
      obtain rfl := List.map_eq_nil_iff.1 h.symm
      rfl
  | cons c cs ih =>
      obtain ⟨r, rs', rfl, hr, hrs⟩ := List.map_eq_cons_iff.1 h.symm
      have hweight := ih hrs.symm
      have hbytes := rawSize_of_complete? hr.symm
      simp only [weight, Record.weight, List.map_cons, List.sum_cons] at hweight ⊢
      omega

/-- Containers whose records lie in rows lie in rows as well. -/
theorem exists_batches {rows : List (List Record)} (h : MadeInto codec cs rows.flatten) :
    ∃ batches, batches.flatten = cs ∧ List.Forall₂ (MadeInto codec) batches rows := by
  induction rows generalizing cs with
  | nil => exact ⟨[], (List.map_eq_nil_iff.1 h).symm, .nil⟩
  | cons row rows ih =>
      rw [MadeInto, List.flatten_cons, List.map_append] at h
      obtain ⟨batch, cs', rfl, hbatch, hcs'⟩ := List.map_eq_append_iff.1 h
      obtain ⟨batches, rfl, hbatches⟩ := ih hcs'
      exact ⟨batch :: batches, rfl, .cons hbatch hbatches⟩

theorem flatten {batches : List (List Container)} {rows : List (List Record)}
    (h : List.Forall₂ (MadeInto codec) batches rows) :
    MadeInto codec batches.flatten rows.flatten := by
  induction h with
  | nil => rfl
  | cons hbatch _ ih =>
      rw [MadeInto, List.flatten_cons, List.flatten_cons, List.map_append, List.map_append,
        hbatch, ih]

theorem map_weight_eq {batches : List (List Container)} {rows : List (List Record)}
    (h : List.Forall₂ (MadeInto codec) batches rows) :
    batches.map weight = rows.map Record.weight := by
  induction h with
  | nil => rfl
  | cons hbatch _ ih => rw [List.map_cons, List.map_cons, hbatch.weight_eq, ih]

end Container.MadeInto

/-- A container that was sealed is not empty. -/
theorem Pipeline.Batched.length_pos {threshold : UInt32} {first : Nat} {log : History}
    {p : Pipeline} (h : Batched (.start threshold first) log p) {c : Container}
    (hc : c ∈ log.sealed) : 0 < c.length := by
  obtain ⟨groups, hsealed, hgroups, -⟩ := h.made.exists_row
  rw [hsealed] at hc
  obtain ⟨i, hi⟩ := List.mem_iff_getElem?.1 hc
  rw [Container.getElem?_row] at hi
  obtain ⟨es, hes, rfl⟩ := Option.map_eq_some_iff.1 hi
  obtain ⟨e, es, rfl⟩ := List.exists_cons_of_ne_nil (hgroups es (List.mem_of_getElem? hes)).ne_nil
  have hframe := e.three_le_length_encode
  rw [← Container.length_bytes, Container.ofEvents, Container.bytes_foldl_push, List.flatMap_cons,
    List.length_append, List.length_append]
  omega

namespace Pipeline

variable {settings : Settings} {sink : Sink} {base : Totals} {origin p p' : Pipeline}
  {actor : Actor} {log ms : History} {steps : List (Pipeline × Actor)} {first : Nat}

/-- Records that were written come from containers that were admitted; what is left of these are
others. -/
theorem Admitted.exists_made (h : Admitted log steps p) {rs : List Record}
    (written : (rs : Multiset Record) ≤ log.taken) :
    ∃ cs rest, (collect admitting? steps).Perm (cs ++ rest) ∧
      Container.MadeInto p.codec cs rs ∧
      Container.weight (collect admitting? steps) = Record.weight rs + Container.weight rest ∧
      (collect admitting? steps).length = rs.length + rest.length := by
  have hle : (rs.map (fun r => some (Completion.done r)) : Multiset (Option Completion)) ≤
      (collect admitting? steps).map (·.complete? p.codec) := by
    rw [← Multiset.map_coe, ← Multiset.map_coe]
    exact (Multiset.map_le_map written).trans h.arrived_le
  obtain ⟨cs, rest, hperm, hmade⟩ := exists_perm_append_of_map_le hle
  have hmade : Container.MadeInto p.codec cs rs := hmade
  refine ⟨cs, rest, hperm, hmade, ?_, ?_⟩
  · rw [Container.weight_perm hperm, Container.weight_append, hmade.weight_eq]
  · rw [hperm.length_eq, List.length_append, hmade.length_eq]

/-! ### What was put back -/

/-- The rows that were written are those whose bytes were put back and one at most whose bytes are
about to be; the budget says how many bytes were taken out since then, and nobody has gone beyond
the limit who was not alone. -/
structure Booked (settled due : List (List Record)) (steps : List (Pipeline × Actor))
    (p : Pipeline) : Prop where
  rows : collect writing? steps = settled ++ due
  released : collect releasing? steps = settled.map Record.weight
  pending : p.scribe.stage.releasing?.toList = due.map Record.weight
  balance : p.shared.budget.inFlight + Record.weight settled.flatten =
    Container.weight (collect admitting? steps)
  bounded : p.shared.budget.inFlight ≤ p.shared.budget.limit ∨
    (collect admitting? steps).length = settled.flatten.length + 1

variable {settled due : List (List Record)}

/-- Whoever does nothing with the budget leaves the books alone. -/
theorem Booked.keep (h : Booked settled due steps p) (admitting : p.admitting? actor = none)
    (writing : p.writing? actor = none) (releasing : p.releasing? actor = none)
    (stage : p'.scribe.stage.releasing? = p.scribe.stage.releasing?)
    (inFlight : p'.shared.budget.inFlight = p.shared.budget.inFlight)
    (limit : p'.shared.budget.limit = p.shared.budget.limit) :
    Booked settled due (steps ++ [(p, actor)]) p' := by
  obtain ⟨rows, released, pending, balance, bounded⟩ := h
  constructor
  · rw [collect_concat, writing, Option.toList_none, List.append_nil, rows]
  · rw [collect_concat, releasing, Option.toList_none, List.append_nil, released]
  · rw [stage, pending]
  · rw [collect_concat, admitting, Option.toList_none, List.append_nil, inFlight, balance]
  · rw [collect_concat, admitting, Option.toList_none, List.append_nil, inFlight, limit]
    exact bounded

/-- The rows whose bytes were put back were taken. -/
theorem Booked.settled_le (h : Booked settled due steps p) (rowed : Rowed first log steps p) :
    (settled.flatten : Multiset Record) ≤ log.taken := by
  refine le_trans ?_ rowed.written
  rw [h.rows, List.flatten_append]
  exact Multiset.coe_le.2 (List.sublist_append_left ..).subperm

/-- **A container that is admitted is alone beyond the limit**, or keeps it. -/
theorem Booked.admit (h : Booked settled due steps p) (admitted : Admitted log steps p)
    (rowed : Rowed first log steps p) (positive : ∀ c ∈ log.sealed, 0 < c.length) {c : Container}
    (admitting : p.admitting? actor = some c) (writing : p.writing? actor = none)
    (releasing : p.releasing? actor = none) (scribe : p'.scribe = p.scribe)
    (acquired : p.shared.budget.acquire? c.length = some (true, p'.shared.budget)) :
    Booked settled due (steps ++ [(p, actor)]) p' := by
  have hgrown := Budget.inFlight_of_acquire? acquired
  obtain ⟨rows, released, pending, balance, bounded⟩ := id h
  constructor
  · rw [collect_concat, writing, Option.toList_none, List.append_nil, rows]
  · rw [collect_concat, releasing, Option.toList_none, List.append_nil, released]
  · rw [scribe, pending]
  · rw [collect_concat, admitting, Option.toList_some, Container.weight_append, hgrown]
    simp only [Container.weight, List.map_cons, List.map_nil, List.sum_singleton] at balance ⊢
    omega
  · rw [collect_concat, admitting, Option.toList_some, List.length_append, List.length_singleton]
    rcases Budget.le_limit_of_acquire? acquired with hidle | hle
    · -- nothing is in flight, so that all that was admitted was put back
      obtain ⟨cs, rest, hperm, -, hweight, hlength⟩ := admitted.exists_made (h.settled_le rowed)
      have hrest : rest = [] := by
        refine Container.eq_nil_of_weight (fun c hc => positive c ?_) (by omega)
        have hin := hperm.mem_iff.2 (List.mem_append_right cs hc)
        exact admitted.sublist.subset (List.mem_append_left _ hin)
      rw [hrest, List.length_nil] at hlength
      exact Or.inr (by omega)
    · exact Or.inl hle

/-- A row that was written is about to be put back. -/
theorem Booked.write (h : Booked settled due steps p) {row : List Record}
    (admitting : p.admitting? actor = none) (writing : p.writing? actor = some row)
    (releasing : p.releasing? actor = none) (before : p.scribe.stage.releasing? = none)
    (stage : p'.scribe.stage.releasing? = some (Record.weight row))
    (shared : p'.shared = p.shared) :
    Booked settled [row] (steps ++ [(p, actor)]) p' := by
  obtain ⟨rows, released, pending, balance, bounded⟩ := h
  have hdue : due = [] := by
    rw [before] at pending
    exact List.map_eq_nil_iff.1 pending.symm
  constructor
  · rw [collect_concat, writing, Option.toList_some, rows, hdue, List.append_nil]
  · rw [collect_concat, releasing, Option.toList_none, List.append_nil, released]
  · rw [stage]
    rfl
  · rw [collect_concat, admitting, Option.toList_none, List.append_nil, shared, balance]
  · rw [collect_concat, admitting, Option.toList_none, List.append_nil, shared]
    exact bounded

/-- **What is put back was in flight**; if nobody but one was there, nobody is left. -/
theorem Booked.release (h : Booked settled due steps p) (admitted : Admitted log steps p)
    (rowed : Rowed first log steps p) {bytes : Nat} (admitting : p.admitting? actor = none)
    (writing : p.writing? actor = none) (releasing : p.releasing? actor = some bytes)
    (before : p.scribe.stage.releasing? = some bytes) (stage : p'.scribe.stage.releasing? = none)
    (inFlight : p'.shared.budget.inFlight = p.shared.budget.inFlight - bytes)
    (limit : p'.shared.budget.limit = p.shared.budget.limit) :
    Booked (settled ++ due) [] (steps ++ [(p, actor)]) p' := by
  obtain ⟨rows, released, pending, balance, bounded⟩ := h
  obtain ⟨row, rfl, hbytes⟩ : ∃ row, due = [row] ∧ bytes = Record.weight row := by
    rw [before] at pending
    obtain ⟨row, hdue, hrow⟩ := List.map_eq_singleton_iff.1 pending.symm
    exact ⟨row, hdue, hrow.symm⟩
  have hwritten := rowed.written
  rw [rows] at hwritten
  obtain ⟨cs, rest, -, -, hweight, hlength⟩ := admitted.exists_made hwritten
  rw [List.flatten_append, List.flatten_singleton, Record.weight_append] at hweight
  rw [List.flatten_append, List.flatten_singleton, List.length_append] at hlength
  constructor
  · rw [collect_concat, writing, Option.toList_none, rows]
  · rw [collect_concat, releasing, Option.toList_some, released, List.map_append, hbytes]
    rfl
  · rw [stage]
    rfl
  · rw [collect_concat, admitting, Option.toList_none, List.append_nil, List.flatten_append,
      List.flatten_singleton, Record.weight_append, inFlight]
    omega
  · rw [collect_concat, admitting, Option.toList_none, List.append_nil, List.flatten_append,
      List.flatten_singleton, List.length_append, inFlight, limit]
    rcases bounded with hle | halone
    · exact Or.inl (by omega)
    · -- the one that was alone is in the row, or the row is empty
      cases row with
      | nil => exact Or.inr halone
      | cons r row =>
          have hrest : rest = [] := by
            rw [List.length_cons] at hlength
            exact List.eq_nil_of_length_eq_zero (by omega)
          rw [hrest] at hweight
          have hnothing : Container.weight [] = 0 := rfl
          exact Or.inl (by omega)

/-- **A step keeps the books.** -/
theorem Booked.move (h : Booked settled due steps p) (admitted : Admitted log steps p)
    (rowed : Rowed first log steps p) (positive : ∀ c ∈ log.sealed, 0 < c.length)
    (move : p.Move actor p' ms) :
    ∃ settled' due', Booked settled' due' (steps ++ [(p, actor)]) p' := by
  have hlimit := move.limit_eq
  cases move with
  | call present move => exact ⟨_, _, h.keep rfl rfl rfl rfl move.books_eq.1 hlimit⟩
  | worker present move => exact ⟨_, _, h.keep rfl rfl rfl rfl move.books_eq.1 hlimit⟩
  | batcher move =>
      rcases move.admitting_cases with ⟨hadmitting, hkept⟩ | ⟨c, hadmitting, hacquired⟩
      · exact ⟨_, _, h.keep hadmitting rfl rfl rfl (congrArg Budget.inFlight hkept) hlimit⟩
      · exact ⟨_, _, h.admit admitted rowed positive hadmitting rfl rfl rfl hacquired⟩
  | scribe move =>
      have hwriting : p.writing? .scribe =
          (p.scribe.taking? p.shared).map p.scribe.writer.row := rfl
      rw [move.taking?_eq] at hwriting
      rcases move.releasing_cases with ⟨rfl, hbefore, hafter, hkept⟩ |
        ⟨r, size, rfl, hstage, haccept, hafter, rfl⟩ | ⟨bytes, rfl, hbefore, hafter, hreleased⟩
      · exact ⟨_, _, h.keep rfl hwriting hbefore (hafter.trans hbefore.symm) hkept hlimit⟩
      · have tally := rowed.going.resolve_left fun ⟨spent, _⟩ => by
          rw [hstage] at spent
          exact spent
        have hbefore : p.scribe.stage.releasing? = none := by rw [hstage]; rfl
        refine ⟨_, _, h.write rfl hwriting hbefore hbefore ?_ rfl⟩
        rw [← tally.weight_row haccept]
        exact hafter
      · exact ⟨_, _, h.release admitted rowed rfl hwriting hbefore hbefore hafter hreleased hlimit⟩

/-- **The books at the end of every run.** -/
theorem Trail.booked (trail : Trail origin log steps p)
    (opened : Pipeline.start settings sink base = .ok origin) :
    ∃ settled due, Booked settled due steps p := by
  refine trail.invariant (fun _ steps p => ∃ settled due, Booked settled due steps p)
    (fresh_of_start opened).idle ⟨[], [], ?_⟩ (fun _ _ _ _ _ _ ⟨settled, due, h⟩ _ => ?_)
    fun log steps p actor p' ms trail ⟨settled, due, h⟩ move => ?_
  · obtain ⟨-, rfl⟩ := eq_of_start opened
    exact ⟨rfl, rfl, rfl, rfl, Or.inl (Nat.zero_le _)⟩
  · obtain ⟨rows, released, pending, balance, bounded⟩ := h
    exact ⟨settled, due, rows, released, pending, balance, bounded⟩
  · exact h.move (trail.admitted opened) (trail.rowed opened)
      (fun _ hc => (trail.run.batched_of_start opened).length_pos hc) move

/-! ### What is in flight -/

/-- **A budget that is closed admits nothing any more.** -/
theorem Trail.collect_admitting_of_closed (trail : Trail p log steps p') (orderly : p.Orderly)
    (closed : p.shared.budget.closed = true) : collect admitting? steps = [] := by
  refine (trail.invariant_of_orderly
    (fun _ steps q => q.shared.budget.closed = true ∧ collect admitting? steps = []) orderly
    ⟨closed, rfl⟩ (fun _ _ _ _ _ _ h _ => h) fun log steps q actor q' ms _ h move => ?_).2
  refine ⟨move.budget_closed h.1, ?_⟩
  have hnone : q.admitting? actor = none := by
    cases actor with
    | batcher =>
        simp only [admitting?, Batcher.admitting?, Budget.acquire?_of_closed h.1]
        split <;> rfl
    | _ => rfl
  rw [collect_concat, hnone, h.2]
  rfl

/-- **What is in flight is exactly what was admitted and not yet put back.**

For every choice of settings and every file, whatever fails in a run: the containers that were
admitted were sealed, in this order, and they are those of some batches and others.  Row by row, the
batches became the records that the resequencer wrote, and what was put back are the bytes of the
first batches, of all but one perhaps, which is about to be put back.  What is in flight are the
bytes of the containers behind the first batches, so that nothing is put back that is not there; and
they are within the limit, unless there is exactly one container of this kind.  A budget that is
closed lets nobody wait and admits nothing for ever. -/
theorem in_flight_exact (trail : Trail origin log steps p)
    (opened : Pipeline.start settings sink base = .ok origin) :
    (collect admitting? steps).Sublist log.sealed ∧
    (∃ settled due outstanding,
      (collect admitting? steps).Perm ((settled ++ due).flatten ++ outstanding) ∧
      List.Forall₂ (Container.MadeInto settings.codec) (settled ++ due) (collect writing? steps) ∧
      collect releasing? steps = settled.map Container.weight ∧
      p.scribe.stage.releasing?.toList = due.map Container.weight ∧
      p.shared.budget.inFlight = Container.weight (due.flatten ++ outstanding) ∧
      (p.shared.budget.inFlight ≤ settings.bufferSize ∨
        (due.flatten ++ outstanding).length = 1)) ∧
    (∀ bytes, p.scribe.stage = .releasing bytes → bytes ≤ p.shared.budget.inFlight) ∧
    (p.shared.budget.closed = true →
      (∀ log' steps' p', Trail p log' steps' p' → collect admitting? steps' = []) ∧
      ∀ c after, p.batcher.stage = .admitting c after →
        ∃ p', p.step? .batcher = some p' ∧ p'.batcher.stage = after.stageOnRefusal) := by
  obtain ⟨settled, due, h⟩ := trail.booked opened
  have admitted := trail.admitted opened
  have hwritten := (trail.rowed opened).written
  rw [h.rows] at hwritten
  obtain ⟨cs, outstanding, hperm, hmade, hweight, hlength⟩ := admitted.exists_made hwritten
  rw [trail.run.codec_eq opened] at hmade
  obtain ⟨batches, rfl, hbatches⟩ := hmade.exists_batches
  -- the batches whose bytes were put back, and the one whose bytes are about to be
  obtain ⟨front, back, rfl, hfront, hback⟩ : ∃ front back, batches = front ++ back ∧
      List.Forall₂ (Container.MadeInto settings.codec) front settled ∧
      List.Forall₂ (Container.MadeInto settings.codec) back due :=
    ⟨_, _, (List.take_append_drop settled.length batches).symm,
      List.forall₂_take_append _ _ _ hbatches, List.forall₂_drop_append _ _ _ hbatches⟩
  have hsettled := Container.MadeInto.map_weight_eq hfront
  have hdue := Container.MadeInto.map_weight_eq hback
  have hbalance := h.balance
  rw [List.flatten_append, Record.weight_append] at hweight
  have hinFlight : p.shared.budget.inFlight = Container.weight (back.flatten ++ outstanding) := by
    rw [Container.weight_append, (Container.MadeInto.flatten hback).weight_eq]
    omega
  refine ⟨(List.sublist_append_left ..).trans admitted.sublist,
    ⟨front, back, outstanding, hperm, h.rows ▸ hbatches, hsettled ▸ h.released, hdue ▸ h.pending,
      hinFlight, ?_⟩, fun bytes hstage => ?_, fun closed => ⟨fun _ _ _ more => ?_,
      fun c after hstage => ?_⟩⟩
  · rw [← trail.run.limit_eq opened]
    refine h.bounded.imp_right fun halone => ?_
    have hall := hperm.length_eq
    rw [List.flatten_append, List.length_append, List.length_append,
      (Container.MadeInto.flatten hfront).length_eq] at hall
    rw [List.length_append]
    omega
  · have hpending := h.pending
    rw [hstage, ← hdue] at hpending
    obtain ⟨batch, rfl, hbytes⟩ := List.map_eq_singleton_iff.1 hpending.symm
    rw [hinFlight, List.flatten_singleton, Container.weight_append, hbytes]
    exact Nat.le_add_right ..
  · exact more.collect_admitting_of_closed (trail.run.orderly (fresh_of_start opened).idle) closed
  · have hstep : p.batcher.step? p.shared =
        some ({ p.batcher with stage := after.stageOnRefusal }, p.shared) := by
      rw [Batcher.step?, hstage]
      simp only [Budget.acquire?_of_closed closed]
    exact ⟨_, by rw [step?, hstep]; rfl, rfl⟩

/-- The second container overtakes the first: nothing is written and nothing put back when it
arrives, and both are written when the first one does, whose bytes are then put back together. -/
theorem in_flight_exact_overtaken :
    ∃ origin log steps p r₀ r₁ c₀ c₁ bytes,
      Pipeline.start ⟨1, 1, 2, 64, .identity⟩ (.reliable .empty) .zero = .ok origin ∧
      Trail origin log steps p ∧ collect writing? steps = [[], [r₀, r₁]] ∧
      collect releasing? steps = [0] ∧ p.scribe.stage = .releasing bytes ∧
      (collect admitting? steps).Perm [c₀, c₁] ∧ Container.MadeInto .identity [c₀, c₁] [r₀, r₁] ∧
      bytes = Container.weight [c₀, c₁] ∧ p.shared.budget.inFlight = bytes := by
  obtain ⟨origin, opened⟩ : ∃ origin,
      Pipeline.start ⟨1, 1, 2, 64, .identity⟩ (.reliable .empty) .zero = .ok origin := ⟨_, rfl⟩
  obtain ⟨-, horigin⟩ := eq_of_start opened
  obtain ⟨turns, log, p, r₀, r₁, bytes, hturns, hwriting, hreleasing, hstage, hcount⟩ :
      ∃ turns log p r₀ r₁ bytes, follow? turns [] origin = some (log, p) ∧
        collect writing? ([] ++ itinerary turns origin) = [[], [r₀, r₁]] ∧
        collect releasing? ([] ++ itinerary turns origin) = [0] ∧
        p.scribe.stage = .releasing bytes ∧
        (collect admitting? ([] ++ itinerary turns origin)).length = 2 := by
    rw [horigin]
    exact ⟨[.arrive 1 (.write 5 [7]), .step (.call 1), .step (.call 1), .step (.call 1),
        .arrive 2 (.write 6 [8]), .step (.call 2), .step (.call 2), .step .batcher,
        .step (.call 2), .step .batcher, .step .batcher, .step .batcher, .step .batcher,
        .step .batcher, .step (.worker 0), .step (.worker 0), .step (.worker 1),
        .step (.worker 1), .step (.worker 1), .step (.worker 1), .step (.worker 0),
        .step (.worker 0), .step .scribe, .step .scribe, .step .scribe, .step .scribe,
        .step .scribe, .step .scribe], _, _, _, _, _, rfl, rfl, rfl, rfl, rfl⟩
  have trail := Trail.start.follow hturns
  obtain ⟨-, ⟨settled, due, outstanding, hperm, hmade, hsettled, hdue, hinFlight, -⟩, -⟩ :=
    in_flight_exact trail opened
  -- one batch was put back, and the bytes of the other one are due
  rw [hreleasing] at hsettled
  obtain ⟨front, rfl, -⟩ := List.map_eq_singleton_iff.1 hsettled.symm
  rw [hstage] at hdue
  obtain ⟨back, rfl, hbytes⟩ := List.map_eq_singleton_iff.1 hdue.symm
  rw [hwriting] at hmade
  obtain ⟨hnothing, hboth⟩ := List.forall₂_cons.1 hmade
  obtain rfl := List.eq_nil_of_length_eq_zero hnothing.length_eq
  replace hboth := (List.forall₂_cons.1 hboth).1
  obtain ⟨c₀, c₁, rfl⟩ := List.length_eq_two.1 hboth.length_eq
  have hnobody : outstanding = [] := by
    have hlength := hperm.length_eq
    rw [hcount] at hlength
    exact List.eq_nil_of_length_eq_zero (by simpa using hlength)
  subst hnobody
  refine ⟨origin, log, _, p, r₀, r₁, c₀, c₁, bytes, opened, trail, hwriting, hreleasing, hstage,
    hperm, hboth, hbytes.symm, ?_⟩
  rw [hinFlight, ← hbytes]
  rfl

end Pipeline

end TraceLog
