/-
**When a container is sealed, and what it says.**

The builder seals a container as soon as its frames reach the threshold, and never later: the frames
in the open container stay below the threshold, so that a container which is sealed without a flush
goes over it by its last frame only.  What a container says of its events is true.  Its counter has
32 bits, but a frame takes three bytes at least and the threshold is a 32-bit number, so that the
counter never wraps.

Main definitions:

* `Container.Describes` — the bytes, the count and the timestamps of a container are those of some
  events.

Main results:

* `Container.describes_ofEvents` — a container that is filled one event at a time describes them;
* `Builder.Holds.append_eq`, `Builder.Holds.sealCurrent_eq` — what one call answers;
* `Builder.openLength_lt_obeyAll` — **the open container stays below the threshold**;
* `Builder.partition_exact` — **events are cut into containers exactly on the rule**.
-/

import TraceLog.Proofs.Batches

set_option relaxedAutoImplicit false
set_option autoImplicit false

namespace TraceLog

/-! ### What a container says -/

/-- The bytes, the count and the timestamps of a container are those of some events. -/
structure Container.Describes (c : Container) (es : List Event) : Prop where
  bytes_eq : c.bytes = es.flatMap Event.encode
  /-- The counter has not wrapped. -/
  toNat_eventCount : c.eventCount.toNat = es.length
  firstTimestamp_eq : ∀ e ∈ es.head?, c.firstTimestamp = e.timestamp
  lastTimestamp_eq : ∀ e ∈ es.getLast?, c.lastTimestamp = e.timestamp

namespace Container

/-- A container that is filled one event at a time describes its events, if they can be counted. -/
theorem describes_ofEvents {es : List Event} (h : es.length < UInt32.size) (sequence : Nat) :
    (ofEvents sequence es).Describes es where
  bytes_eq := bytes_ofEvents sequence es
  toNat_eventCount := toNat_eventCount_ofEvents h sequence
  firstTimestamp_eq := by
    intro e he
    rw [firstTimestamp_ofEvents h, Option.mem_def.1 he]
    rfl
  lastTimestamp_eq := by
    intro e he
    rw [lastTimestamp_ofEvents, Option.mem_def.1 he]
    rfl

/-- The containers of some groups of events describe these, one by one. -/
theorem describes_row {groups : List (List Event)} (h : ∀ g ∈ groups, Event.Group g) (first : Nat) :
    List.Forall₂ Describes (row first groups) groups := by
  induction groups generalizing first with
  | nil => exact .nil
  | cons g groups ih =>
      have hg : g.length < UInt32.size := (h g List.mem_cons_self).length_lt
      exact .cons (describes_ofEvents hg first)
        (ih (fun g' hg' => h g' (List.mem_cons_of_mem g hg')) (first + 1))

end Container

/-! ### What one call answers -/

namespace Builder

variable {b : Builder} {es : List Event}

/-- The open container describes what is in it. -/
theorem Holds.describes (h : b.Holds es) : b.current.Describes es := by
  rw [h.current_eq]
  exact Container.describes_ofEvents (Nat.lt_of_succ_lt h.count_lt) _

/-- There is room in the counter of the open container for one more event. -/
theorem Holds.describes_push (h : b.Holds es) (e : Event) :
    (b.current.push e).Describes (es ++ [e]) := by
  have hcount : (es ++ [e]).length < UInt32.size := by simpa using h.count_lt
  rw [h.current_eq, ← Container.ofEvents_concat]
  exact Container.describes_ofEvents hcount _

/-- A container that describes an event is not empty. -/
theorem isEmpty_push (h : b.Holds es) (e : Event) : (b.current.push e).isEmpty = false := by
  have hcount := (h.describes_push e).toNat_eventCount
  rw [List.length_append, List.length_singleton] at hcount
  have hne : (b.current.push e).eventCount ≠ 0 := by
    intro hzero
    rw [hzero, UInt32.toNat_zero] at hcount
    omega
  simpa [Container.isEmpty] using hne

/-- **An event completes the open container exactly if its frame takes it to the threshold.** -/
theorem Holds.append_eq (h : b.Holds es) (e : Event) :
    b.append e =
      if b.threshold.toNat ≤ b.openLength + e.encode.length then
        (some (b.current.push e), start b.threshold (b.sealedCount + 1))
      else (none, { b with current := b.current.push e }) := by
  have hlen : (b.current.push e).length = b.openLength + e.encode.length :=
    Container.length_push b.current e
  have hnonempty := isEmpty_push h e
  simp only [append, hlen, sealCurrent, hnonempty]
  rfl

/-- **Sealing answers the open container exactly if it holds an event.** -/
theorem Holds.sealCurrent_eq (h : b.Holds es) :
    b.sealCurrent =
      if es = [] then (none, b) else (some b.current, start b.threshold (b.sealedCount + 1)) := by
  have hseal := sealCurrent_ofEvents h.current_eq (Nat.lt_of_succ_lt h.count_lt)
  rwa [← h.current_eq] at hseal

/-- The open container is empty exactly if it holds no event. -/
theorem Holds.isEmpty_iff (h : b.Holds es) : b.current.isEmpty = true ↔ es = [] := by
  rw [h.current_eq, Container.isEmpty_ofEvents (Nat.lt_of_succ_lt h.count_lt), List.isEmpty_iff]

/-! ### The open container -/

/-- One command leaves the open container below the threshold. -/
theorem Holds.openLength_lt_obey (h : b.Holds es) (positive : 0 < b.threshold.toNat)
    (below : b.openLength < b.threshold.toNat) (command : Command) :
    (b.obey command).2.openLength < b.threshold.toNat := by
  -- Behind a sealed container the open one is fresh.
  have hfresh : (start b.threshold (b.sealedCount + 1)).openLength < b.threshold.toNat := positive
  cases command with
  | event e =>
      rw [obey, h.append_eq]
      split
      · exact hfresh
      · rename_i hshort
        have hlen : openLength { b with current := b.current.push e } =
            b.openLength + e.encode.length := Container.length_push b.current e
        exact hlen ▸ Nat.lt_of_not_le hshort
  | flush ticket =>
      rw [obey, h.sealCurrent_eq]
      split
      · exact below
      · exact hfresh

/-- **The open container stays below the threshold**, whatever the builder is told to do. -/
theorem Holds.openLength_lt_obeyAll (h : b.Holds es) (positive : 0 < b.threshold.toNat)
    (below : b.openLength < b.threshold.toNat) (commands : List Command) :
    (b.obeyAll commands).2.openLength < b.threshold.toNat := by
  induction commands generalizing b es with
  | nil => exact below
  | cons command commands ih =>
      obtain ⟨-, rest, -, -, -, hrest, -⟩ := cuts_obey h command
      have hbelow := h.openLength_lt_obey positive below command
      rw [← threshold_obey b command] at positive hbelow
      have hlater := ih hrest positive hbelow
      rwa [threshold_obey] at hlater

/-! ### All calls together -/

/-- **Events are cut into containers exactly on the rule.**

A builder with a threshold above zero is told to take some events and to seal the open container at
some places between them.  Then the containers that it has sealed, followed by the open one, hold
the events in order, one group each, and describe them; they are numbered from `first` on, and the
builder knows the number of the open one.  The open container is below the threshold.  One more
event completes it exactly if the frame takes it to the threshold; the container that is answered
ends with the frame of that event, in front of which it is below the threshold.  Sealing answers
nothing exactly if no event is held, and otherwise the open container, which is not empty and below
the threshold. -/
theorem partition_exact {threshold : UInt32} (positive : 0 < threshold) (first : Nat)
    (commands : List Command) :
    ∃ (done : List Container) (b : Builder) (groups : List (List Event)) (held : List Event),
      (start threshold first).obeyAll commands = (done, b) ∧
      groups.flatten ++ held = Command.events commands ∧
      List.Forall₂ Container.Describes done groups ∧ (∀ g ∈ groups, g ≠ []) ∧
      b.current.Describes held ∧
      done.map (·.sequence) = List.range' first done.length ∧
      b.sealedCount = first + done.length ∧ b.current.sequence = b.sealedCount ∧
      b.openLength < threshold.toNat ∧
      (∀ e,
        ((b.append e).1 = none ↔ b.openLength + e.encode.length < threshold.toNat) ∧
        ∀ c ∈ (b.append e).1, threshold.toNat ≤ c.length ∧ c.Describes (held ++ [e]) ∧
          c.bytes = b.current.bytes ++ e.encode ∧ c.length - e.encode.length < threshold.toNat) ∧
      (b.sealCurrent.1 = none ↔ held = []) ∧
      ∀ c ∈ b.sealCurrent.1, c = b.current ∧ c.isEmpty = false ∧ c.length < threshold.toNat := by
  have hstart := holds_start threshold first
  have hpositive : 0 < threshold.toNat := UInt32.lt_iff_toNat_lt.1 positive
  obtain ⟨groups, held, hdone, hgroups, hevents, hholds, hcount⟩ := cuts_obeyAll hstart commands
  have hbelow := hstart.openLength_lt_obeyAll hpositive hpositive commands
  have hthreshold := threshold_obeyAll (start threshold first) commands
  rw [List.nil_append] at hevents
  rcases hrun : (start threshold first).obeyAll commands with ⟨done, b⟩
  rw [hrun] at hdone hholds hcount hbelow hthreshold
  replace hthreshold : b.threshold = threshold := hthreshold
  replace hcount : b.sealedCount = first + groups.length := hcount
  replace hdone : done = Container.row first groups := hdone
  replace hbelow : b.openLength < threshold.toNat := hbelow
  have hlen : done.length = groups.length := by rw [hdone, Container.length_row]
  refine ⟨done, b, groups, held, rfl, hevents, ?_, fun g hg => (hgroups g hg).ne_nil,
    hholds.describes, ?_, ?_, rfl, hbelow, fun e => ?_, ?_, ?_⟩
  · rw [hdone]
    exact Container.describes_row hgroups first
  · rw [hlen, hdone, Container.map_sequence_row]
  · rw [hlen, hcount]
  · -- one more event
    rw [hholds.append_eq, hthreshold]
    have hpush := Container.length_push b.current e
    split
    · rename_i hreached
      refine ⟨by simpa using hreached, fun c hc => ?_⟩
      rw [Option.mem_some_iff] at hc
      subst hc
      refine ⟨?_, hholds.describes_push e, Container.bytes_push b.current e, ?_⟩
      · rw [hpush]
        exact hreached
      · rw [hpush, Nat.add_sub_cancel]
        exact hbelow
    · rename_i hshort
      exact ⟨by simpa using hshort, by simp⟩
  · -- sealing
    rw [hholds.sealCurrent_eq]
    split <;> simp_all
  · intro c hc
    rw [hholds.sealCurrent_eq] at hc
    split at hc
    · simp at hc
    · rename_i hne
      rw [Option.mem_some_iff] at hc
      subst hc
      refine ⟨rfl, ?_, hbelow⟩
      rw [← Bool.not_eq_true, hholds.isEmpty_iff]
      exact hne

/-- Two frames of three bytes reach a threshold of six bytes exactly; a third one is cut off by a
flush; an event that is longer than the threshold goes into one container; and one event is left. -/
theorem partition_exact_oversized :
    let small : Event := ⟨0, 5, []⟩
    let large : Event := ⟨1, 9, [1, 2, 3, 4, 5, 6, 7, 8]⟩
    let commands : List Command :=
      [.event small, .event small, .event small, .flush 0, .event large, .event small]
    (0 : UInt32) < 6 ∧ ∃ (done : List Container) (b : Builder) (groups : List (List Event))
      (held : List Event), (start 6 2).obeyAll commands = (done, b) ∧
      groups.flatten ++ held = [small, small, small, large, small] ∧
      List.Forall₂ Container.Describes done groups ∧ done.map (·.sequence) = [2, 3, 4] ∧
      done.map (·.length) = [6, 3, 11] ∧ b.openLength = 3 ∧ (b.append small).1 ≠ none ∧
      b.sealCurrent.1 ≠ none := by
  intro small large commands
  obtain ⟨done, b, groups, held, hrun, hevents, hdescribed, -, hheld, hnumbers, -, -, -, happend,
    hseal, -⟩ := partition_exact (show (0 : UInt32) < 6 by decide) 2 commands
  have hlengths : ((start 6 2).obeyAll commands).1.map (·.length) = [6, 3, 11] := by decide
  have hopen : ((start 6 2).obeyAll commands).2.openLength = 3 := by decide
  rw [hrun] at hlengths hopen
  replace hlengths : done.map (·.length) = [6, 3, 11] := hlengths
  replace hopen : b.openLength = 3 := hopen
  have hcount : done.length = 3 := by simpa using congrArg List.length hlengths
  refine ⟨by decide, done, b, groups, held, hrun, hevents, hdescribed, ?_, hlengths, hopen, ?_, ?_⟩
  · rw [hnumbers, hcount]
    rfl
  · rw [Ne, (happend small).1, hopen]
    decide
  · rw [Ne, hseal]
    -- what is held has three bytes
    rintro rfl
    have hbytes := congrArg List.length hheld.bytes_eq
    rw [Container.length_bytes] at hbytes
    exact absurd (hopen.symm.trans hbytes) (by decide)

end Builder

end TraceLog
