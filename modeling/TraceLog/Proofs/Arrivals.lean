/-
**What an arrival writes.**

A record that arrives is parked, or it is written together with the parked records that follow it
without a gap.  Whether the file takes the bytes or refuses them makes no difference to which
records these are: an arrival is one row of writes, which ends early where the file refuses one.
What is known of the file is a matter for others; here the rows are found, and the records that
were taken are counted.

Main definitions:

* `Resequencer.writeAll` — write a row of records, up to the first that the file refuses;
* `Resequencer.Tally` — which records were written and which are parked.

Main results:

* `Resequencer.drain_eq` — the parked records are written as far as they follow each other;
* `Resequencer.accept_eq` — **an arrival is one row of writes**, for every file;
* `Resequencer.Tally.gapless_iff` — when nothing is missing.
-/

import TraceLog.Image
import TraceLog.Resequencer
import Mathlib.Algebra.GroupWithZero.Nat
import Mathlib.Data.List.Induction
import Mathlib.Data.List.Range

set_option relaxedAutoImplicit false
set_option autoImplicit false

namespace TraceLog

namespace Resequencer

variable {w w' : Resequencer}

/-! ### Rows of writes -/

/-- Write some records one behind the other, up to the first that is refused; `size` framed bytes
were written before. -/
def writeAll : (size : Nat) → List Record → Resequencer → Except Error Nat × Resequencer
  | size, [], w => (.ok size, w)
  | size, r :: rs, w =>
      match w.writeRecord r with
      | (.error error, w) => (.error error, w)
      | (.ok n, w) => writeAll (size + n) rs w

/-- A record that was written is counted. -/
theorem counted_of_writeRecord {r : Record} {n : Nat} (h : w.writeRecord r = (.ok n, w')) :
    n = r.header.rawSize.toNat ∧ w'.next = w.next + 1 ∧ w'.parked = w.parked ∧
      w'.totals = w.totals.add r.header := by
  unfold writeRecord at h
  split at h
  · cases h
  · split at h
    · cases h
    · cases h
      exact ⟨rfl, rfl, rfl, rfl⟩

/-- The records of a row that was written are counted. -/
theorem counted_of_writeAll {rs : List Record} {size n : Nat}
    (h : writeAll size rs w = (.ok n, w')) :
    n = size + (rs.map (·.header.rawSize.toNat)).sum ∧ w'.next = w.next + rs.length ∧
      w'.parked = w.parked := by
  induction rs generalizing size w with
  | nil =>
      cases h
      exact ⟨rfl, rfl, rfl⟩
  | cons r rs ih =>
      rw [writeAll] at h
      split at h
      · cases h
      · rename_i m w₁ hwrite
        obtain ⟨rfl, hnext, hparked, -⟩ := counted_of_writeRecord hwrite
        obtain ⟨rfl, hnext', hparked'⟩ := ih h
        refine ⟨?_, ?_, hparked'.trans hparked⟩
        · rw [List.map_cons, List.sum_cons, Nat.add_assoc]
        · rw [hnext', hnext, List.length_cons]
          omega

/-- What is parked makes no difference to a write. -/
theorem writeRecord_parked (w : Resequencer) (parked : List Record) (r : Record) :
    writeRecord { w with parked } r =
      ((w.writeRecord r).1, { (w.writeRecord r).2 with parked }) := by
  unfold writeRecord
  rcases w.out.write r.header.encode with ⟨_ | _, out⟩
  · rfl
  · rcases hdata : out.write r.data with ⟨_ | _, out'⟩ <;> simp only [hdata]

theorem writeAll_parked (size : Nat) (rs : List Record) (w : Resequencer) (parked : List Record) :
    writeAll size rs { w with parked } =
      ((writeAll size rs w).1, { (writeAll size rs w).2 with parked }) := by
  induction rs generalizing size w with
  | nil => rfl
  | cons r rs ih =>
      rw [writeAll, writeRecord_parked, writeAll]
      rcases w.writeRecord r with ⟨_ | n, w₁⟩
      · rfl
      · exact ih (size + n) w₁

/-! ### Arrivals -/

/-- What is parked is looked through for the record that comes next. -/
theorem unpark?_cases (w : Resequencer) :
    w.unpark? = none ∧ (∀ r ∈ w.parked, r.sequence.toNat ≠ w.next) ∨
    ∃ r rest, w.unpark? = some (r, { w with parked := rest }) ∧ r.sequence.toNat = w.next ∧
      w.parked.Perm (r :: rest) := by
  unfold unpark?
  cases hfind : w.parked.find? w.isNext with
  | none =>
      refine Or.inl ⟨rfl, fun r hr => ?_⟩
      simpa [isNext] using List.find?_eq_none.1 hfind r hr
  | some r =>
      obtain ⟨hr, xs, ys, hparked, hbefore⟩ := List.find?_eq_some_iff_append.1 hfind
      have herase : w.parked.eraseP w.isNext = xs ++ ys := by
        rw [hparked, List.eraseP_append_right (r :: ys) (by simpa using hbefore),
          List.eraseP_cons_of_pos hr]
      refine Or.inr ⟨r, xs ++ ys, ?_, by simpa [isNext] using hr, ?_⟩
      · rw [Option.map_some, herase]
      · rw [hparked]
        exact List.perm_middle

/-- **The parked records are written as far as they follow each other.**

The induction is on the fuel, which is as many records as are parked; every round takes one of them
away. -/
theorem drain_eq {fuel : Nat} (size : Nat) (w : Resequencer) (hfuel : w.parked.length ≤ fuel)
    (hparked : ∀ r ∈ w.parked, w.next ≤ r.sequence.toNat)
    (hnodup : (w.parked.map (·.sequence.toNat)).Nodup) :
    ∃ row left, row.map (·.sequence.toNat) = List.range' w.next row.length ∧
      (∀ r ∈ row, r ∈ w.parked) ∧
      drain fuel size w =
        ((writeAll size row w).1, { (writeAll size row w).2 with parked := left }) ∧
      ∀ n, (writeAll size row w).1 = .ok n →
        (row ++ left).Perm w.parked ∧ ∀ r ∈ left, w.next + row.length < r.sequence.toNat := by
  induction fuel generalizing size w with
  | zero =>
      have hnil : w.parked = [] := List.eq_nil_of_length_eq_zero (Nat.le_zero.1 hfuel)
      refine ⟨[], [], rfl, by simp, ?_, fun n _ => by simp [hnil]⟩
      rw [drain, writeAll, ← hnil]
  | succ fuel ih =>
      rcases unpark?_cases w with ⟨hnone, hother⟩ | ⟨r, rest, hsome, hr, hperm⟩
      · refine ⟨[], w.parked, rfl, by simp, by simp [drain, hnone, writeAll], fun n _ => ?_⟩
        refine ⟨by simp, fun r hr => ?_⟩
        exact Nat.lt_of_le_of_ne (hparked r hr) (Ne.symm (hother r hr))
      · have hmem : r ∈ w.parked := hperm.mem_iff.2 List.mem_cons_self
        rcases hwrite : w.writeRecord r with ⟨error | n, w₁⟩
        · -- the file refuses the record, and the row ends with it
          refine ⟨[r], rest, by simp [hr], by simpa using hmem, ?_, ?_⟩
          · simp only [drain, hsome, writeRecord_parked, writeAll, hwrite]
          · intro n hn
            simp only [writeAll, hwrite] at hn
            cases hn
        · obtain ⟨-, hnext₁, -, -⟩ := counted_of_writeRecord hwrite
          have hnodup₁ := (hperm.map (·.sequence.toNat)).nodup_iff.1 hnodup
          rw [List.map_cons, List.nodup_cons] at hnodup₁
          have hfuel₁ : rest.length ≤ fuel := by
            have := hperm.length_eq
            simp only [List.length_cons] at this
            omega
          have habove₁ (x : Record) (hx : x ∈ rest) : w₁.next ≤ x.sequence.toNat := by
            have hle := hparked x (hperm.mem_iff.2 (List.mem_cons_of_mem r hx))
            have hne : x.sequence.toNat ≠ r.sequence.toNat := by
              intro heq
              exact hnodup₁.1 (heq ▸ List.mem_map_of_mem hx)
            omega
          obtain ⟨row, left, hnumbers, hsub, hrow, hleft⟩ :=
            ih (size + n) { w₁ with parked := rest } hfuel₁ habove₁ hnodup₁.2
          rw [writeAll_parked] at hrow hleft
          have hall : writeAll size (r :: row) w = writeAll (size + n) row w₁ := by
            rw [writeAll, hwrite]
          refine ⟨r :: row, left, ?_, ?_, ?_, ?_⟩
          · rw [List.map_cons, hnumbers, hr, hnext₁, List.length_cons, List.range'_succ]
          · intro x hx
            rcases List.mem_cons.1 hx with rfl | hx
            · exact hmem
            · exact hperm.mem_iff.2 (List.mem_cons_of_mem r (hsub x hx))
          · rw [hall]
            simp only [drain, hsome, writeRecord_parked, hwrite]
            exact hrow
          · intro m hm
            rw [hall] at hm
            obtain ⟨hperm', habove⟩ := hleft m hm
            refine ⟨(hperm'.cons r).trans hperm.symm, fun x hx => ?_⟩
            have := habove x hx
            rw [hnext₁] at this
            rw [List.length_cons]
            omega

/-- **An arrival is one row of writes.**  A number that was passed or is parked is an error that
changes nothing; any other record is taken, and with it a row of records is written from the next
number on, as far as the file does not refuse one. -/
theorem accept_eq (w : Resequencer) (above : ∀ r ∈ w.parked, w.next < r.sequence.toNat)
    (nodup : (w.parked.map (·.sequence.toNat)).Nodup) (r : Record) :
    (r.sequence.toNat < w.next ∨ r.sequence.toNat ∈ w.parked.map (·.sequence.toNat)) ∧
      (∃ fault, w.accept r = (.error (.internal fault), w)) ∨
    (w.next ≤ r.sequence.toNat ∧ r.sequence.toNat ∉ w.parked.map (·.sequence.toNat)) ∧
      ∃ row left, row.map (·.sequence.toNat) = List.range' w.next row.length ∧
        (∀ x ∈ row, x ∈ r :: w.parked) ∧
        w.accept r = ((writeAll 0 row w).1, { (writeAll 0 row w).2 with parked := left }) ∧
        ∀ n, (writeAll 0 row w).1 = .ok n →
          (row ++ left).Perm (r :: w.parked) ∧
            ∀ x ∈ left, w.next + row.length < x.sequence.toNat := by
  unfold accept
  split
  · rename_i hlate
    exact Or.inl ⟨Or.inl hlate, _, rfl⟩
  rename_i hlate
  split
  · -- the number comes next
    rename_i hnext
    have hr : r.sequence.toNat = w.next := by simpa [isNext] using hnext
    refine Or.inr ⟨⟨by omega, ?_⟩, ?_⟩
    · intro hin
      obtain ⟨x, hx, hxr⟩ := List.mem_map.1 hin
      have := above x hx
      omega
    · rcases hwrite : w.writeRecord r with ⟨error | n, w₁⟩
      · refine ⟨[r], w₁.parked, by simp [hr], by simp, ?_, ?_⟩
        · simp only [writeAll, hwrite]
        · intro n hn
          simp only [writeAll, hwrite] at hn
          cases hn
      · obtain ⟨rfl, hnext₁, hparked₁, -⟩ := counted_of_writeRecord hwrite
        have hparked (x : Record) (hx : x ∈ w₁.parked) : w₁.next ≤ x.sequence.toNat := by
          rw [hnext₁]
          exact above x (hparked₁ ▸ hx)
        obtain ⟨row, left, hnumbers, hsub, hdrain, hleft⟩ :=
          drain_eq r.header.rawSize.toNat w₁ (Nat.le_refl _) hparked (by rw [hparked₁]; exact nodup)
        have hall : writeAll 0 (r :: row) w = writeAll r.header.rawSize.toNat row w₁ := by
          simp only [writeAll, hwrite, Nat.zero_add]
        refine ⟨r :: row, left, ?_, ?_, ?_, ?_⟩
        · rw [List.map_cons, hnumbers, hr, hnext₁, List.length_cons, List.range'_succ]
        · intro x hx
          rcases List.mem_cons.1 hx with rfl | hx
          · exact List.mem_cons_self
          · exact List.mem_cons_of_mem r (hparked₁ ▸ hsub x hx)
        · rw [hall]
          exact hdrain
        · intro m hm
          rw [hall] at hm
          obtain ⟨hperm, habove⟩ := hleft m hm
          rw [hparked₁] at hperm
          refine ⟨hperm.cons r, fun x hx => ?_⟩
          have := habove x hx
          rw [List.length_cons]
          omega
  rename_i hnext
  have hne : r.sequence.toNat ≠ w.next := by simpa [isNext] using hnext
  have hany : (w.parked.any (·.sequence = r.sequence)) = true ↔
      r.sequence.toNat ∈ w.parked.map (·.sequence.toNat) := by
    simp only [List.any_eq_true, decide_eq_true_eq, List.mem_map, UInt64.toNat_inj]
  split
  · -- the number is parked
    rename_i hin
    exact Or.inl ⟨Or.inr (hany.1 hin), _, rfl⟩
  · rename_i hnew
    rw [hany] at hnew
    refine Or.inr ⟨⟨by omega, hnew⟩, [], r :: w.parked, rfl, by simp, rfl, fun n _ => ?_⟩
    refine ⟨.refl _, fun x hx => ?_⟩
    rcases List.mem_cons.1 hx with rfl | hx
    · exact Nat.lt_of_le_of_ne (Nat.le_of_not_lt hlate) (Ne.symm hne)
    · exact above x hx

/-- The counter never goes back. -/
theorem next_le_writeRecord (w : Resequencer) (r : Record) : w.next ≤ (w.writeRecord r).2.next := by
  rcases hwrite : w.writeRecord r with ⟨error | n, w'⟩
  · unfold writeRecord at hwrite
    split at hwrite
    · cases hwrite
      exact Nat.le_refl _
    · split at hwrite <;> cases hwrite
      exact Nat.le_refl _
  · rw [(counted_of_writeRecord hwrite).2.1]
    exact Nat.le_succ _

theorem next_le_drain (fuel size : Nat) (w : Resequencer) :
    w.next ≤ (drain fuel size w).2.next := by
  induction fuel generalizing size w with
  | zero => exact Nat.le_refl _
  | succ fuel ih =>
      rcases unpark?_cases w with ⟨hnone, -⟩ | ⟨r, rest, hsome, -⟩
      · simp [drain, hnone]
      · have hwrite := next_le_writeRecord { w with parked := rest } r
        simp only [drain, hsome]
        rcases hresult : writeRecord { w with parked := rest } r with ⟨error | n, w₁⟩
        · rwa [hresult] at hwrite
        · rw [hresult] at hwrite
          exact hwrite.trans (ih _ _)

theorem next_le_accept {r : Record} {result : Except Error Nat} (h : w.accept r = (result, w')) :
    w.next ≤ w'.next := by
  have hresult : w' = (w.accept r).2 := by rw [h]
  rw [hresult]
  unfold accept
  split
  · exact Nat.le_refl _
  split
  · have hwrite := w.next_le_writeRecord r
    rcases hrecord : w.writeRecord r with ⟨error | n, w₁⟩
    · rwa [hrecord] at hwrite
    · rw [hrecord] at hwrite
      exact hwrite.trans (next_le_drain _ _ _)
  split <;> exact Nat.le_refl _

/-- A flush moves neither the counter nor what is parked. -/
theorem counted_of_flush (w : Resequencer) :
    w.flush.2.next = w.next ∧ w.flush.2.parked = w.parked := by
  unfold flush
  split
  · rcases w.out.flush with ⟨_ | _, out⟩ <;> exact ⟨rfl, rfl⟩
  · exact ⟨rfl, rfl⟩

/-! ### What was written and what is parked -/

/-- The records that were taken are those written, which follow each other without a gap, and those
parked, which lie behind the next one. -/
structure Tally (first : Nat) (written taken : List Record) (w : Resequencer) : Prop where
  next_eq : w.next = first + written.length
  numbers : written.map (·.sequence.toNat) = List.range' first written.length
  above : ∀ r ∈ w.parked, w.next < r.sequence.toNat
  perm : (written ++ w.parked).Perm taken
  nodup : (taken.map (·.sequence.toNat)).Nodup

namespace Tally

variable {first : Nat} {written taken : List Record}

theorem nodup_parked (h : Tally first written taken w) :
    (w.parked.map (·.sequence.toNat)).Nodup := by
  have hall := (h.perm.map (·.sequence.toNat)).nodup_iff.2 h.nodup
  rw [List.map_append] at hall
  exact (List.nodup_append.1 hall).2.1

/-- A record is among those written exactly if its number lies between the first and the next. -/
theorem mem_written (h : Tally first written taken w) {n : Nat} :
    n ∈ written.map (·.sequence.toNat) ↔ first ≤ n ∧ n < w.next := by
  rw [h.numbers, List.mem_range'_1, h.next_eq]

theorem mem_numbers (h : Tally first written taken w) {n : Nat} :
    n ∈ (written ++ w.parked).map (·.sequence.toNat) ↔ n ∈ taken.map (·.sequence.toNat) :=
  (h.perm.map _).mem_iff

theorem lt_next_of_mem (h : Tally first written taken w) {r : Record} (hr : r ∈ written) :
    r.sequence.toNat < w.next :=
  (h.mem_written.1 (List.mem_map_of_mem hr)).2

/-- No record that was taken lies in front of the first one. -/
theorem first_le_of_mem (h : Tally first written taken w) {r : Record} (hr : r ∈ taken) :
    first ≤ r.sequence.toNat := by
  rcases List.mem_append.1 (h.perm.mem_iff.2 hr) with hr | hr
  · exact (h.mem_written.1 (List.mem_map_of_mem hr)).1
  · have := h.above r hr
    have := h.next_eq
    omega

/-- A number in front of the next one was taken, if it is not in front of the first one. -/
theorem mem_taken_of_lt (h : Tally first written taken w) {n : Nat} (hfirst : first ≤ n)
    (hnext : n < w.next) : n ∈ taken.map (·.sequence.toNat) := by
  rw [← h.mem_numbers, List.map_append]
  exact List.mem_append_left _ (h.mem_written.2 ⟨hfirst, hnext⟩)

theorem next_not_mem (h : Tally first written taken w) :
    w.next ∉ taken.map (·.sequence.toNat) := by
  rw [← h.mem_numbers]
  intro hin
  obtain ⟨r, hr, hn⟩ := List.mem_map.1 hin
  rcases List.mem_append.1 hr with hr | hr
  · exact absurd hn (Nat.ne_of_lt (h.lt_next_of_mem hr))
  · exact absurd hn (Nat.ne_of_gt (h.above r hr))

/-- The records taken below a number that nothing parked reaches, and those above it. -/
theorem perm_filter (h : Tally first written taken w) :
    written.Perm (taken.filter (·.sequence.toNat < w.next)) ∧
      w.parked.Perm (taken.filter (w.next < ·.sequence.toNat)) := by
  constructor
  · refine .trans (.of_eq ?_) (h.perm.filter _)
    rw [List.filter_append, List.filter_eq_self.2 fun r hr => by simpa using h.lt_next_of_mem hr,
      List.filter_eq_nil_iff.2 fun r hr => by simpa using Nat.le_of_lt (h.above r hr),
      List.append_nil]
  · refine .trans (.of_eq ?_) (h.perm.filter _)
    rw [List.filter_append,
      List.filter_eq_nil_iff.2 fun r hr => by simpa using Nat.le_of_lt (h.lt_next_of_mem hr),
      List.filter_eq_self.2 fun r hr => by simpa using h.above r hr, List.nil_append]

/-- **Nothing is parked and the next number is the one asked for** exactly if the numbers taken are
those from the first one up to it. -/
theorem gapless_iff (h : Tally first written taken w) (sealedCount : Nat) :
    (w.parked = [] ∧ w.next = sealedCount) ↔
      first ≤ sealedCount ∧
        ∀ n, n ∈ taken.map (·.sequence.toNat) ↔ first ≤ n ∧ n < sealedCount := by
  have hfirst : first ≤ w.next := by
    rw [h.next_eq]
    omega
  constructor
  · rintro ⟨hparked, rfl⟩
    refine ⟨hfirst, fun n => ?_⟩
    rw [← h.mem_numbers, hparked, List.append_nil, h.mem_written]
  · rintro ⟨hle, hall⟩
    have hnext : w.next = sealedCount := by
      -- the number waited for was not taken, and all those in front of it were
      rcases Nat.lt_trichotomy w.next sealedCount with hlt | heq | hgt
      · exact absurd ((hall _).2 ⟨hfirst, hlt⟩) h.next_not_mem
      · exact heq
      · have := (hall _).1 (h.mem_taken_of_lt hle hgt)
        omega
    refine ⟨?_, hnext⟩
    rw [List.eq_nil_iff_forall_not_mem]
    intro r hr
    have habove := h.above r hr
    have hin : r.sequence.toNat ∈ taken.map (·.sequence.toNat) := by
      rw [← h.mem_numbers]
      exact List.mem_map_of_mem (List.mem_append_right _ hr)
    have := (hall _).1 hin
    omega

/-- A flush makes no difference to what was written and what is parked. -/
theorem flush (h : Tally first written taken w) : Tally first written taken w.flush.2 := by
  obtain ⟨hnext, hparked⟩ := counted_of_flush w
  refine ⟨hnext.trans h.next_eq, h.numbers, ?_, ?_, h.nodup⟩
  · rw [hparked, hnext]
    exact h.above
  · rw [hparked]
    exact h.perm

/-- **A record that is taken is counted**, with the row that it has led to. -/
theorem accept (h : Tally first written taken w) {r : Record} {n : Nat}
    (accepted : w.accept r = (.ok n, w')) :
    ∃ row w₁, writeAll 0 row w = (.ok n, w₁) ∧ w' = { w₁ with parked := w'.parked } ∧
      Tally first (written ++ row) (taken ++ [r]) w' := by
  rcases accept_eq w h.above h.nodup_parked r with ⟨-, fault, hfault⟩ | ⟨⟨hle, hnew⟩, hrow⟩
  · rw [hfault] at accepted
    cases accepted
  obtain ⟨row, left, hnumbers, -, hrow, hleft⟩ := hrow
  rw [accepted] at hrow
  rcases hwrite : writeAll 0 row w with ⟨_ | m, w₁⟩
  · rw [hwrite] at hrow
    cases hrow
  rw [hwrite] at hrow hleft
  cases hrow
  have hnext := (counted_of_writeAll hwrite).2.1
  obtain ⟨hperm, habove⟩ := hleft n rfl
  refine ⟨row, w₁, hwrite, rfl, ?_, ?_, ?_, ?_, ?_⟩
  · rw [hnext, h.next_eq, List.length_append, Nat.add_assoc]
  · rw [List.map_append, h.numbers, hnumbers, h.next_eq, List.length_append, List.range'_append_1]
  · intro x hx
    rw [hnext]
    exact habove x hx
  · rw [List.append_assoc]
    refine (hperm.append_left written).trans ?_
    refine List.perm_middle.trans ?_
    exact (h.perm.cons r).trans (List.perm_append_singleton r taken).symm
  · have hfresh : r.sequence.toNat ∉ taken.map (·.sequence.toNat) := by
      rw [← h.mem_numbers, List.map_append, List.mem_append, h.mem_written]
      rintro (⟨-, hlt⟩ | hin)
      · omega
      · exact hnew hin
    rw [List.map_append, List.nodup_append]
    refine ⟨h.nodup, by simp, ?_⟩
    rintro n hn m hm rfl
    rw [List.map_singleton, List.mem_singleton] at hm
    exact hfresh (hm ▸ hn)

end Tally

end Resequencer

end TraceLog
