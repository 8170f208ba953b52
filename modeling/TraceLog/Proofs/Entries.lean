/-
**Tables of numbered entries.**

The callers of a channel and the calls of a pipeline stand in a table: a list of entries, each with
a number.  One of them goes on and gets another value, all of them are changed alike, or a newcomer
is written behind the others.  What is found under a number, which numbers there are, and what the
values add up to follows for every table, whatever it holds.

Main results:

* `Entries.lookup_assign`, `Entries.keys_assign`, `Entries.sum_assign` — one entry gets a value;
* `Entries.lookup_enrol`, `Entries.nodup_enrol` — **a newcomer is written behind the others**;
* `Entries.lookup_map` — all entries are changed alike;
* `Entries.lookup_of_mem`, `Entries.mem_of_lookup` — what is found is what is there.
-/

import Mathlib.Algebra.GroupWithZero.Nat
import Mathlib.Data.List.Nodup

set_option relaxedAutoImplicit false
set_option autoImplicit false

namespace TraceLog

namespace Entries

variable {β : Type} {entries : List (Nat × β)} {key : Nat} {value old : β}

/-! ### What is found -/

theorem mem_of_lookup (found : entries.lookup key = some value) : (key, value) ∈ entries := by
  obtain ⟨front, behind, rfl, -⟩ := List.lookup_eq_some_iff.1 found
  simp

/-- Where no number is given twice, what is there is found. -/
theorem lookup_of_mem (distinct : (entries.map (·.1)).Nodup) (member : (key, value) ∈ entries) :
    entries.lookup key = some value := by
  induction entries with
  | nil => cases member
  | cons head tail ih =>
      obtain ⟨number, first⟩ := head
      obtain ⟨absent, rest⟩ := List.nodup_cons.1 distinct
      rcases List.mem_cons.1 member with here | later
      · cases here
        exact List.lookup_cons_self
      · -- the number of a later entry is not the one in front
        have hne : key ≠ number := by
          rintro rfl
          exact absent (List.mem_map.2 ⟨_, later, rfl⟩)
        rw [List.lookup_cons, beq_eq_false_iff_ne.2 hne]
        exact ih rest later

theorem not_mem_keys (fresh : entries.lookup key = none) : key ∉ entries.map (·.1) := by
  rw [List.lookup_eq_none_iff] at fresh
  intro hin
  obtain ⟨e, he, rfl⟩ := List.mem_map.1 hin
  simpa using fresh e he

/-! ### One entry gets a value -/

theorem lookup_assign (entries : List (Nat × β)) (key key' : Nat) (value : β) :
    (entries.map fun e => if e.1 = key then (key, value) else e).lookup key' =
      if key' = key then (entries.lookup key).map fun _ => value else entries.lookup key' := by
  induction entries with
  | nil => simp
  | cons e entries ih =>
      obtain ⟨front, old⟩ := e
      -- Where the number in front is not the one asked for, the lookup goes on behind it.
      by_cases hfront : front = key
      · subst hfront
        by_cases hkey : key' = front
        · simp [hkey]
        · have hne : (key' == front) = false := by simpa using hkey
          simp [List.lookup_cons, ih, hkey, hne]
      · by_cases hkey : key' = key
        · subst hkey
          have hne : (key' == front) = false := by simpa using Ne.symm hfront
          simp [List.lookup_cons, ih, hfront, hne]
        · simp [List.lookup_cons, ih, hfront, hkey]

/-- The entries keep their numbers. -/
theorem keys_assign (entries : List (Nat × β)) (key : Nat) (value : β) :
    (entries.map fun e => if e.1 = key then (key, value) else e).map (·.1) =
      entries.map (·.1) := by
  rw [List.map_map]
  refine List.map_congr_left fun e _ => ?_
  by_cases hkey : e.1 = key <;> simp [hkey]

/-- What the entries add up to when one of them gets a value. -/
theorem sum_assign (distinct : (entries.map (·.1)).Nodup) (found : entries.lookup key = some old)
    (weight : β → Nat) (value : β) :
    ((entries.map fun e => if e.1 = key then (key, value) else e).map (weight ·.2)).sum +
        weight old =
      (entries.map (weight ·.2)).sum + weight value := by
  obtain ⟨front, behind, rfl, hfront⟩ := List.lookup_eq_some_iff.1 found
  rw [List.map_append, List.map_cons, List.nodup_append, List.nodup_cons] at distinct
  obtain ⟨-, ⟨hbehind, -⟩, -⟩ := distinct
  -- no other entry has the number
  have hkept (es : List (Nat × β)) (hes : ∀ e ∈ es, e.1 ≠ key) :
      (es.map fun e => if e.1 = key then (key, value) else e) = es :=
    (List.map_congr_left fun e he => if_neg (hes e he)).trans (List.map_id' es)
  rw [List.map_append, List.map_cons, hkept front, hkept behind, if_pos rfl]
  · simp only [List.map_append, List.map_cons, List.sum_append, List.sum_cons]
    omega
  · rintro e he rfl
    exact hbehind (List.mem_map.2 ⟨e, he, rfl⟩)
  · rintro e he rfl
    simpa using hfront e he

/-! ### A newcomer -/

theorem lookup_enrol (fresh : entries.lookup key = none) (value : β) (key' : Nat) :
    (entries ++ [(key, value)]).lookup key' =
      if key' = key then some value else entries.lookup key' := by
  rw [List.lookup_append]
  by_cases hkey : key' = key
  · subst hkey
    simp [fresh]
  · have hne : (key' == key) = false := by simpa using hkey
    simp [List.lookup_cons, hkey, hne]

/-- A number that nobody has may be given to a newcomer. -/
theorem nodup_enrol (distinct : (entries.map (·.1)).Nodup) (fresh : entries.lookup key = none)
    (value : β) : ((entries ++ [(key, value)]).map (·.1)).Nodup := by
  rw [List.map_append, List.nodup_append']
  exact ⟨distinct, List.nodup_singleton key, by simpa using not_mem_keys fresh⟩

/-! ### All entries alike -/

theorem lookup_map (entries : List (Nat × β)) (f : β → β) (key : Nat) :
    (entries.map fun e => (e.1, f e.2)).lookup key = (entries.lookup key).map f := by
  induction entries with
  | nil => rfl
  | cons e entries ih =>
      obtain ⟨number, first⟩ := e
      by_cases hkey : key = number
      · simp [hkey]
      · have hne : (key == number) = false := beq_eq_false_iff_ne.2 hkey
        simp [List.lookup_cons, hne, ih]

end Entries

end TraceLog
