/-
**Events cut into containers.**

The builder puts every event into a container, in the order in which the events come: what it seals
and what it holds open, laid end to end, are the events that it was given.  No container is empty,
and none holds so many events that they could not be counted in 32 bits, because every frame takes
three bytes at least and the open container is below its threshold.

Main definitions:

* `Command.events` — the events of some commands;
* `Container.row` — the containers of some groups of events, under successive numbers;
* `Builder.Holds`, `Builder.Cuts` — what is in the open container; how events were cut.

Main results:

* `Container.ofEvents` — its number, bytes, count and timestamps, each by a lemma;
* `Builder.cuts_obey`, `Builder.cuts_obeyAll` — **nothing is lost and nothing is reordered**, by
  one command and by many;
* `Builder.exists_batches_eq_row` — the containers that some commands make;
* `Builder.batches_flush` — a flush cuts the commands in two.
-/

import TraceLog.Builder
import TraceLog.Proofs.Framing
import Mathlib.Data.List.Induction

set_option relaxedAutoImplicit false
set_option autoImplicit false

namespace TraceLog

/-! ### The events of commands -/

namespace Command

/-- The event of a command, if it is one about an event. -/
def event? : Command → Option Event
  | .event e => some e
  | .flush _ => none

/-- The events of some commands. -/
def events (commands : List Command) : List Event := commands.filterMap event?

@[simp] theorem events_nil : events [] = [] := rfl

@[simp] theorem events_event (e : Event) (commands : List Command) :
    events (.event e :: commands) = e :: events commands := rfl

@[simp] theorem events_flush (ticket : Nat) (commands : List Command) :
    events (.flush ticket :: commands) = events commands := rfl

theorem events_append (xs ys : List Command) : events (xs ++ ys) = events xs ++ events ys :=
  List.filterMap_append ..

end Command

/-! ### The container of some events -/

namespace Container

@[simp] theorem ofEvents_nil (sequence : Nat) : ofEvents sequence [] = fresh sequence := rfl

theorem ofEvents_concat (sequence : Nat) (es : List Event) (e : Event) :
    ofEvents sequence (es ++ [e]) = (ofEvents sequence es).push e := by
  simp [ofEvents]

@[simp] theorem sequence_ofEvents (sequence : Nat) (es : List Event) :
    (ofEvents sequence es).sequence = sequence := by
  induction es using List.reverseRecOn with
  | nil => rfl
  | append_singleton es e ih => rw [ofEvents_concat, sequence_push, ih]

@[simp] theorem bytes_ofEvents (sequence : Nat) (es : List Event) :
    (ofEvents sequence es).bytes = es.flatMap Event.encode := by
  rw [ofEvents, bytes_foldl_push, bytes_fresh, List.nil_append]

@[simp] theorem length_ofEvents (sequence : Nat) (es : List Event) :
    (ofEvents sequence es).length = (es.flatMap Event.encode).length := by
  rw [← length_bytes, bytes_ofEvents]

@[simp] theorem eventCount_ofEvents (sequence : Nat) (es : List Event) :
    (ofEvents sequence es).eventCount = UInt32.ofNat es.length := by
  induction es using List.reverseRecOn with
  | nil => rfl
  | append_singleton es e ih =>
      rw [ofEvents_concat, push, ih, List.length_append, List.length_singleton, UInt32.ofNat_add]
      rfl

/-- Events that fit into the counter are counted. -/
theorem toNat_eventCount_ofEvents {es : List Event} (h : es.length < UInt32.size)
    (sequence : Nat) : (ofEvents sequence es).eventCount.toNat = es.length := by
  rw [eventCount_ofEvents, UInt32.toNat_ofNat_of_lt' h]

theorem isEmpty_ofEvents {es : List Event} (h : es.length < UInt32.size) (sequence : Nat) :
    (ofEvents sequence es).isEmpty = es.isEmpty := by
  have hcount := toNat_eventCount_ofEvents h sequence
  have hzero : (ofEvents sequence es).eventCount = 0 ↔ es = [] := by
    rw [← UInt32.toNat_inj, hcount, UInt32.toNat_zero, List.length_eq_zero_iff]
  rw [Bool.eq_iff_iff, isEmpty, beq_iff_eq, hzero, List.isEmpty_iff]

theorem firstTimestamp_ofEvents {es : List Event} (h : es.length < UInt32.size)
    (sequence : Nat) :
    (ofEvents sequence es).firstTimestamp = (es.head?.map Event.timestamp).getD 0 := by
  induction es using List.reverseRecOn with
  | nil => rfl
  | append_singleton es e ih =>
      rw [List.length_append, List.length_singleton] at h
      have hes : es.length < UInt32.size := by omega
      have hempty := isEmpty_ofEvents hes sequence
      rw [isEmpty, Bool.eq_iff_iff, beq_iff_eq, List.isEmpty_iff] at hempty
      rw [ofEvents_concat, push]
      simp only [hempty, ih hes]
      cases es <;> simp

theorem lastTimestamp_ofEvents (sequence : Nat) (es : List Event) :
    (ofEvents sequence es).lastTimestamp = (es.getLast?.map Event.timestamp).getD 0 := by
  induction es using List.reverseRecOn with
  | nil => rfl
  | append_singleton es e ih => simp [ofEvents_concat, push]

/-! ### Containers under successive numbers -/

/-- The containers of some groups of events, the first of which has the number `first`. -/
def row (first : Nat) : List (List Event) → List Container
  | [] => []
  | es :: groups => ofEvents first es :: row (first + 1) groups

theorem row_append (first : Nat) (xs ys : List (List Event)) :
    row first (xs ++ ys) = row first xs ++ row (first + xs.length) ys := by
  induction xs generalizing first with
  | nil => simp [row]
  | cons x xs ih => simp [row, ih, Nat.add_comm, Nat.add_left_comm]

theorem take_row (first : Nat) (groups : List (List Event)) (count : Nat) :
    (row first groups).take count = row first (groups.take count) := by
  induction groups generalizing first count with
  | nil => simp [row]
  | cons es groups ih =>
      cases count with
      | zero => simp [row]
      | succ count => simp [row, ih]

@[simp] theorem length_row (first : Nat) (groups : List (List Event)) :
    (row first groups).length = groups.length := by
  induction groups generalizing first with
  | nil => rfl
  | cons es groups ih => simp [row, ih]

theorem getElem?_row (first : Nat) (groups : List (List Event)) (i : Nat) :
    (row first groups)[i]? = groups[i]?.map (ofEvents (first + i)) := by
  induction groups generalizing first i with
  | nil => rfl
  | cons es groups ih =>
      cases i with
      | zero => rfl
      | succ i =>
          rw [row, List.getElem?_cons_succ, List.getElem?_cons_succ, ih]
          congr 2
          omega

/-- The numbers of containers in a row. -/
theorem map_sequence_row (first : Nat) (groups : List (List Event)) :
    (row first groups).map (·.sequence) = List.range' first groups.length := by
  induction groups generalizing first with
  | nil => rfl
  | cons es groups ih => simp [row, ih, List.range'_succ]

end Container

/-- A group of events that makes a container: there is one at least, and their number fits into the
counter. -/
structure Event.Group (es : List Event) : Prop where
  ne_nil : es ≠ []
  length_lt : es.length < UInt32.size

/-! ### What the builder does -/

namespace Builder

/-- What is in the open container. -/
structure Holds (b : Builder) (es : List Event) : Prop where
  current_eq : b.current = Container.ofEvents b.sealedCount es
  /-- The frames are counted in 32 bits. -/
  length_lt : (es.flatMap Event.encode).length < UInt32.size

theorem holds_start (threshold : UInt32) (first : Nat) : (start threshold first).Holds [] :=
  ⟨rfl, by decide⟩

/-- The events of an open container can be counted, and one more as well. -/
theorem Holds.count_lt {b : Builder} {es : List Event} (h : b.Holds es) :
    es.length + 1 < UInt32.size := by
  have hthird := Event.three_mul_length_le es
  have hlt := h.length_lt
  simp only [UInt32.size] at hlt ⊢
  omega

/-- Events were cut into `done` by a builder that had the number `first` for the next container,
and what was left over is in the open container of `b`. -/
def Cuts (first : Nat) (es : List Event) (done : List Container) (b : Builder) : Prop :=
  ∃ groups rest, done = Container.row first groups ∧ (∀ g ∈ groups, Event.Group g) ∧
    groups.flatten ++ rest = es ∧ b.Holds rest ∧ b.sealedCount = first + groups.length

theorem Holds.cuts {b : Builder} {es : List Event} (h : b.Holds es) :
    Cuts b.sealedCount es [] b :=
  ⟨[], es, rfl, by simp, rfl, h, rfl⟩

/-- Sealing makes a container of what is held, if that is something. -/
theorem sealCurrent_ofEvents {b : Builder} {es : List Event}
    (hcurrent : b.current = Container.ofEvents b.sealedCount es)
    (hlt : es.length < UInt32.size) :
    b.sealCurrent = if es = [] then (none, b) else
      (some (Container.ofEvents b.sealedCount es), start b.threshold (b.sealedCount + 1)) := by
  have hempty : b.current.isEmpty = es.isEmpty := by
    rw [hcurrent, Container.isEmpty_ofEvents hlt]
  rw [sealCurrent, hempty, ← hcurrent]
  cases es with
  | nil => rfl
  | cons e es => rfl

/-- A container that is sealed with events in it was cut off behind them. -/
theorem cuts_sealCurrent {b : Builder} {es : List Event}
    (hcurrent : b.current = Container.ofEvents b.sealedCount es) (hgroup : Event.Group es) :
    Cuts b.sealedCount es b.sealCurrent.1.toList b.sealCurrent.2 := by
  rw [sealCurrent_ofEvents hcurrent hgroup.length_lt, if_neg hgroup.ne_nil]
  exact ⟨[es], [], rfl, by simpa using hgroup, by simp, holds_start .., rfl⟩

/-- **One command loses nothing and reorders nothing.** -/
theorem cuts_obey {b : Builder} {es : List Event} (h : b.Holds es) (command : Command) :
    Cuts b.sealedCount (es ++ Command.events [command]) (b.obey command).1.toList
      (b.obey command).2 := by
  cases command with
  | event e =>
      have hgroup : Event.Group (es ++ [e]) := ⟨by simp, by simpa using h.count_lt⟩
      have hcurrent : b.current.push e = Container.ofEvents b.sealedCount (es ++ [e]) := by
        rw [Container.ofEvents_concat, h.current_eq]
      have hlen : (b.current.push e).length = ((es ++ [e]).flatMap Event.encode).length := by
        rw [hcurrent, Container.length_ofEvents]
      simp only [obey, append]
      split
      · exact cuts_sealCurrent (b := { b with current := b.current.push e }) hcurrent hgroup
      · -- the container stays open, below the threshold
        rename_i hbelow
        have hthreshold : b.threshold.toNat < UInt32.size := b.threshold.toNat_lt
        have hopen : Holds { b with current := b.current.push e } (es ++ [e]) :=
          ⟨hcurrent, by rw [← hlen]; omega⟩
        exact hopen.cuts
  | flush ticket =>
      simp only [obey, Command.events_flush, Command.events_nil, List.append_nil]
      by_cases hnil : es = []
      · have hseal := sealCurrent_ofEvents h.current_eq (Nat.lt_of_succ_lt h.count_lt)
        rw [if_pos hnil] at hseal
        rw [hseal]
        exact h.cuts
      · exact cuts_sealCurrent h.current_eq ⟨hnil, Nat.lt_of_succ_lt h.count_lt⟩

/-- **Commands lose nothing and reorder nothing**: what is sealed and what is left in the open
container are the events that were there, in their order. -/
theorem cuts_obeyAll {b : Builder} {es : List Event} (h : b.Holds es) (commands : List Command) :
    Cuts b.sealedCount (es ++ Command.events commands) (b.obeyAll commands).1
      (b.obeyAll commands).2 := by
  induction commands generalizing b es with
  | nil => simpa [obeyAll] using h.cuts
  | cons command commands ih =>
      obtain ⟨groups, rest, hdone, hgroups, hevents, hholds, hcount⟩ := cuts_obey h command
      obtain ⟨groups', rest', hdone', hgroups', hevents', hholds', hcount'⟩ := ih hholds
      refine ⟨groups ++ groups', rest', ?_, ?_, ?_, hholds', ?_⟩
      · rw [obeyAll, Container.row_append, ← hdone, ← hcount, ← hdone']
      · intro g hg
        rcases List.mem_append.1 hg with hg | hg
        · exact hgroups g hg
        · exact hgroups' g hg
      · have hsplit : Command.events (command :: commands) =
            Command.events [command] ++ Command.events commands :=
          Command.events_append [command] commands
        rw [List.flatten_append, List.append_assoc, hevents', ← List.append_assoc, hevents, hsplit,
          List.append_assoc]
      · rw [obeyAll, List.length_append, ← Nat.add_assoc, ← hcount, ← hcount']

theorem batches_eq (b : Builder) (commands : List Command) :
    b.batches commands =
      (b.obeyAll commands).1 ++ (b.obeyAll commands).2.sealCurrent.1.toList := rfl

/-- **The containers that some commands make**: their events are those of the commands, each
container holds one event at least, the numbers follow each other, and the builder knows the next
one. -/
theorem exists_batches_eq_row (threshold : UInt32) (first : Nat) (commands : List Command) :
    ∃ groups, (start threshold first).batches commands = Container.row first groups ∧
      (∀ g ∈ groups, Event.Group g) ∧ groups.flatten = Command.events commands ∧
      ((start threshold first).obeyAll commands).2.sealCurrent.2.sealedCount =
        first + groups.length := by
  obtain ⟨groups, rest, hdone, hgroups, hevents, hholds, hcount⟩ :=
    cuts_obeyAll (holds_start threshold first) commands
  rw [List.nil_append] at hevents
  replace hcount : _ = first + groups.length := hcount
  have hseal := sealCurrent_ofEvents hholds.current_eq (Nat.lt_of_succ_lt hholds.count_lt)
  -- What is left over makes one more container, if it is something.
  by_cases hnil : rest = []
  · rw [if_pos hnil] at hseal
    refine ⟨groups, ?_, hgroups, ?_, ?_⟩
    · rw [batches_eq, hseal, hdone]
      simp [start, sealedCount, Container.fresh]
    · rw [← hevents, hnil, List.append_nil]
    · rw [hseal, hcount]
  · rw [if_neg hnil, hcount] at hseal
    refine ⟨groups ++ [rest], ?_, ?_, ?_, ?_⟩
    · rw [batches_eq, hseal, hdone, Container.row_append]
      rfl
    · intro g hg
      rcases List.mem_append.1 hg with hg | hg
      · exact hgroups g hg
      · rw [List.mem_singleton.1 hg]
        exact ⟨hnil, Nat.lt_of_succ_lt hholds.count_lt⟩
    · rw [← hevents, List.flatten_append, List.flatten_singleton]
    · rw [hseal, List.length_append, List.length_singleton, ← Nat.add_assoc]
      rfl

/-! ### Containers behind a flush -/

theorem threshold_sealCurrent (b : Builder) : b.sealCurrent.2.threshold = b.threshold := by
  unfold sealCurrent
  split <;> rfl

theorem threshold_obey (b : Builder) (command : Command) :
    (b.obey command).2.threshold = b.threshold := by
  cases command with
  | event e =>
      simp only [obey, append]
      split
      · exact threshold_sealCurrent _
      · rfl
  | flush ticket => exact threshold_sealCurrent b

theorem threshold_obeyAll (b : Builder) (commands : List Command) :
    (b.obeyAll commands).2.threshold = b.threshold := by
  induction commands generalizing b with
  | nil => rfl
  | cons command commands ih => exact (ih _).trans (threshold_obey b command)

/-- A builder that has sealed its container is as good as a new one that knows the next number. -/
theorem sealCurrent_eq_start {b : Builder} {es : List Event} (h : b.Holds es) :
    b.sealCurrent.2 = start b.threshold b.sealCurrent.2.sealedCount := by
  rw [sealCurrent_ofEvents h.current_eq (Nat.lt_of_succ_lt h.count_lt)]
  split
  · rename_i hnil
    have hcurrent := h.current_eq
    rw [hnil, Container.ofEvents_nil] at hcurrent
    rw [start, ← hcurrent]
  · rfl

/-- **A flush cuts the commands in two**: what follows makes the containers that it would make of
its own accord, under the numbers that come next. -/
theorem batches_flush (threshold : UInt32) (first ticket : Nat) (xs ys : List Command) :
    (start threshold first).batches (xs ++ .flush ticket :: ys) =
      (start threshold first).batches xs ++
        (start threshold (first + ((start threshold first).batches xs).length)).batches ys := by
  obtain ⟨groups, hrow, -, -, hcount⟩ := exists_batches_eq_row threshold first xs
  obtain ⟨-, rest, -, -, -, hholds, -⟩ := cuts_obeyAll (holds_start threshold first) xs
  have hnext := sealCurrent_eq_start hholds
  rw [hcount, threshold_obeyAll] at hnext
  replace hnext : _ = start threshold (first + groups.length) := hnext
  rw [hrow, Container.length_row, ← hrow, ← hnext]
  simp [batches, obeyAll_append, obeyAll, obey]

end Builder

end TraceLog
