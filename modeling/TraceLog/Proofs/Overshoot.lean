/-
**How long containers get.**

The builder looks at the threshold behind a whole frame, so that a container goes over it by its
last frame.  Frames that are no longer than the threshold themselves leave it below twice the
threshold.  A record has 32 bits for this length, and so has the threshold: up to 2^31 there is no
container that a record cannot describe, and above that there is one, of two frames.

Main definitions:

* `Command.Within` — no frame is longer than a limit.

Main results:

* `Builder.length_lt_batches` — **a container stays below twice the threshold**;
* `Builder.batches_halves` — two frames of 2^31 bytes make one container behind a higher threshold;
* `Builder.length_lt_size_batches_iff` — a record has room for the length of every container exactly
  up to 2^31;
* `Pipeline.sizes_fit` — **up to which threshold records can describe all containers**, and that
  nothing fails then.
-/

import TraceLog.Proofs.Cuts
import TraceLog.Proofs.Lz4.Growth
import TraceLog.Proofs.Schedule
import TraceLog.Proofs.Sealing

set_option relaxedAutoImplicit false
set_option autoImplicit false

namespace TraceLog

/-- No frame is longer than a limit. -/
def Command.Within (limit : Nat) (commands : List Command) : Prop :=
  ∀ e ∈ events commands, e.encode.length ≤ limit

instance (limit : Nat) (commands : List Command) : Decidable (Command.Within limit commands) :=
  inferInstanceAs (Decidable (∀ e ∈ Command.events commands, e.encode.length ≤ limit))

theorem Command.within_cons {limit : Nat} {command : Command} {commands : List Command} :
    Within limit (command :: commands) ↔ Within limit [command] ∧ Within limit commands := by
  rw [← List.singleton_append, Within, events_append]
  exact List.forall_mem_append

/-! ### One frame over the threshold -/

namespace Builder

variable {b : Builder} {es : List Event}

/-- The container that a command completes was below the threshold in front of its last frame. -/
theorem Holds.length_lt_obey (h : b.Holds es) (below : b.openLength < b.threshold.toNat)
    {command : Command} (within : Command.Within b.threshold.toNat [command]) :
    ∀ c ∈ (b.obey command).1, c.length < 2 * b.threshold.toNat := by
  intro c hc
  cases command with
  | event e =>
      have hframe : e.encode.length ≤ b.threshold.toNat := within e (by simp)
      have hpush : (b.current.push e).length = b.openLength + e.encode.length :=
        Container.length_push b.current e
      rw [obey, h.append_eq] at hc
      split at hc
      · obtain rfl := Option.mem_some_iff.1 hc
        omega
      · cases hc
  | flush ticket =>
      rw [obey, h.sealCurrent_eq] at hc
      split at hc
      · cases hc
      · obtain rfl := Option.mem_some_iff.1 hc
        have hopen : b.current.length < b.threshold.toNat := below
        omega

/-- This holds of the containers that many commands complete, because the open one is below the
threshold each time. -/
theorem Holds.length_lt_obeyAll (h : b.Holds es) (positive : 0 < b.threshold.toNat)
    (below : b.openLength < b.threshold.toNat) {commands : List Command}
    (within : Command.Within b.threshold.toNat commands) :
    ∀ c ∈ (b.obeyAll commands).1, c.length < 2 * b.threshold.toNat := by
  induction commands generalizing b es with
  | nil => simp [obeyAll]
  | cons command commands ih =>
      obtain ⟨hcommand, hcommands⟩ := Command.within_cons.1 within
      obtain ⟨-, rest, -, -, -, hrest, -⟩ := cuts_obey h command
      have hbelow := h.openLength_lt_obey positive below command
      intro c hc
      rcases List.mem_append.1 hc with hc | hc
      · exact h.length_lt_obey below hcommand c (Option.mem_toList.1 hc)
      · rw [← threshold_obey b command] at positive hbelow hcommands ⊢
        exact ih hrest positive hbelow hcommands c hc

/-- **A container stays below twice the threshold** if no frame is longer than the threshold. -/
theorem length_lt_batches {threshold : UInt32} (positive : 0 < threshold.toNat) (first : Nat)
    {commands : List Command} (within : Command.Within threshold.toNat commands) :
    ∀ c ∈ (start threshold first).batches commands, c.length < 2 * threshold.toNat := by
  have hstart := holds_start threshold first
  obtain ⟨-, held, -, -, -, hheld, -⟩ := cuts_obeyAll hstart commands
  have hbelow := hstart.openLength_lt_obeyAll positive positive commands
  intro c hc
  rw [batches_eq] at hc
  rcases List.mem_append.1 hc with hc | hc
  · exact hstart.length_lt_obeyAll positive positive within c hc
  · -- the open container is sealed behind the last command
    rw [hheld.sealCurrent_eq] at hc
    split at hc
    · simp at hc
    · obtain rfl := List.mem_singleton.1 hc
      have hopen : ((start threshold first).obeyAll commands).2.current.length < threshold.toNat :=
        hbelow
      omega

/-! ### Two halves -/

/-- **Two frames of 2^31 bytes make one container** if the threshold is higher than that: the first
one leaves it open. -/
theorem batches_halves {threshold : UInt32} (large : 2 ^ 31 < threshold.toNat) (first : Nat)
    {e e' : Event} (half : e.encode.length = 2 ^ 31) (half' : e'.encode.length = 2 ^ 31) :
    (start threshold first).batches [.event e, .event e'] =
      [Container.ofEvents first [e, e']] := by
  have hwidth : threshold.toNat < 2 ^ 32 := threshold.toNat_lt
  have hstart := holds_start threshold first
  have hfirst : (start threshold first).append e =
      (none, ⟨threshold, Container.ofEvents first [e]⟩) := by
    rw [hstart.append_eq, half]
    exact if_neg (show ¬ threshold.toNat ≤ 0 + 2 ^ 31 by omega)
  -- the first frame leaves the container open
  have hholds : Holds ⟨threshold, Container.ofEvents first [e]⟩ [e] :=
    ⟨by simp [sealedCount], by simp [half, UInt32.size]⟩
  have hopen : openLength ⟨threshold, Container.ofEvents first [e]⟩ = 2 ^ 31 := by
    simp [openLength, half]
  have hsecond : append ⟨threshold, Container.ofEvents first [e]⟩ e' =
      (some (Container.ofEvents first [e, e']), start threshold (first + 1)) := by
    rw [hholds.append_eq, hopen, half', if_pos (show threshold.toNat ≤ 2 ^ 31 + 2 ^ 31 by omega)]
    simp [sealedCount, ← Container.ofEvents_concat]
  simp only [batches_eq, obeyAll, obey, hfirst, hsecond]
  rfl

end Builder

/-- A frame of 2^31 bytes. -/
theorem Event.length_encode_half {sequence : UInt64} {payload : Bytes}
    (small : sequence = 0 ∨ sequence = 1) (hpayload : payload.length = 2147483641) :
    (encode ⟨sequence, 0, payload⟩).length = 2 ^ 31 := by
  have hsequence : Varint.encodedLength sequence = 1 := by
    rcases small with rfl | rfl <;> decide
  have htimestamp : Varint.encodedLength 0 = 1 := by decide
  have hlength : Varint.encodedLength (UInt64.ofNat 2147483641) = 5 := by decide
  rw [length_encode, encodedLength, hsequence, htimestamp, hpayload, hlength]
  omega

/-! ### What a record can describe -/

namespace Builder

/-- Where the threshold is higher than 2^31, two frames below it make a container of 2^32 bytes,
which no record describes. -/
theorem batches_undescribed {threshold : UInt32} (large : 2 ^ 31 < threshold.toNat) (first : Nat)
    {payload : Bytes} (hpayload : payload.length = 2147483641) :
    Command.Within threshold.toNat [.event ⟨0, 0, payload⟩, .event ⟨1, 0, payload⟩] ∧
      ∃ c, (start threshold first).batches [.event ⟨0, 0, payload⟩, .event ⟨1, 0, payload⟩] = [c] ∧
        c.sequence = first ∧ c.length = UInt32.size := by
  have half := Event.length_encode_half (Or.inl rfl) hpayload
  have half' := Event.length_encode_half (Or.inr rfl) hpayload
  refine ⟨?_, _, batches_halves large first half half', Container.sequence_ofEvents _ _, ?_⟩
  · intro e he
    simp only [Command.events_event, Command.events_nil, List.mem_cons, List.not_mem_nil,
      or_false] at he
    rcases he with rfl | rfl
    · omega
    · omega
  · rw [Container.length_ofEvents]
    simp [half, half', UInt32.size]

/-- Up to 2^31, a record has room for the length of each container. -/
theorem length_lt_size_batches {threshold : UInt32} (positive : 0 < threshold.toNat)
    (low : threshold.toNat ≤ 2 ^ 31) (first : Nat) {commands : List Command}
    (within : Command.Within threshold.toNat commands) :
    ∀ c ∈ (start threshold first).batches commands, c.length < UInt32.size := by
  intro c hc
  have hlt := length_lt_batches positive first within c hc
  simp only [UInt32.size]
  omega

/-- **Up to 2^31, and not beyond.** -/
theorem length_lt_size_batches_iff {threshold : UInt32} (positive : 0 < threshold.toNat) :
    (∀ first commands, Command.Within threshold.toNat commands →
      ∀ c ∈ (start threshold first).batches commands, c.length < UInt32.size) ↔
      threshold.toNat ≤ 2 ^ 31 := by
  constructor
  · intro fits
    by_contra hlarge
    -- above that, two halves are too long
    obtain ⟨payload, hpayload⟩ : ∃ payload : Bytes, payload.length = 2147483641 :=
      ⟨List.replicate _ 0, List.length_replicate⟩
    obtain ⟨within, c, hbatches, -, hlength⟩ :=
      batches_undescribed (Nat.lt_of_not_le hlarge) 0 hpayload
    have hlt := fits 0 _ within c (by simp [hbatches])
    omega
  · intro low first commands within
    exact length_lt_size_batches positive low first within

end Builder

/-- A record describes a container whose length it has room for, if it has room for the stored bytes
as well. -/
theorem Container.exists_make {c : Container} (short : c.length < UInt32.size) (id : UInt8)
    {data : Bytes} (stored : data.length < UInt32.size) :
    ∃ record, Record.make c.sequence c.eventCount c.firstTimestamp c.lastTimestamp c.length id
      data = .ok record ∧ record.header.rawSize.toNat = c.length := by
  rw [Record.make, if_neg (Nat.not_le.2 short), if_neg (Nat.not_le.2 stored)]
  exact ⟨_, rfl, UInt32.toNat_ofNat_of_lt' short⟩

namespace Pipeline

/-- Then nothing fails, as long as nobody aborts, nothing is refused, there are enough numbers, and
the codec answers. -/
theorem Run.faultless_of_answers {settings : Settings} {sink : Sink} {base : Totals}
    {origin p : Pipeline} {log : History} (run : Run origin log p)
    (opened : Pipeline.start settings sink base = .ok origin) (reliable : sink.Reliable)
    (unaborted : log.Unaborted) (positive : 0 < settings.containerSize.toNat)
    (low : settings.containerSize.toNat ≤ 2 ^ 31)
    (within : Command.Within settings.containerSize.toNat log.entered)
    (few : base.containers.toNat + log.events.length ≤ UInt64.size)
    (answers : settings.codec.Answers (2 * settings.containerSize.toNat)) :
    p.shared.failure = none := by
  have storable : ∀ c ∈ (Builder.start settings.containerSize base.containers.toNat).batches
      log.entered, c.Storable settings.codec := by
    intro c hc
    have below := Builder.length_lt_batches positive base.containers.toNat within c hc
    have short := Builder.length_lt_size_batches positive low base.containers.toNat within c hc
    exact answers.storable below short
  have favourable := run.favourable opened unaborted storable few
  exact (run.smooth opened reliable favourable).faultless

/-- **Up to which threshold records can describe all containers.**

For any options that are found usable, and commands with frames no longer than the threshold: the
containers that they make are shorter than twice the threshold.  They all fit into records exactly
if the threshold is at most 2^31.  Then a record is made of each of them, of whatever stored bytes
it has room for; and in every run from a newly opened file that nobody aborts and that refuses
nothing, with as many numbers as containers may need, there is no failure, as long as the codec
answers for such lengths and records have room for its answers.  The codec that keeps its input does
so up to 2^31, and the other one up to a 256th below, because what it stores may be longer than its
input. -/
theorem sizes_fit {options : Options} {settings : Settings}
    (accepted : options.check = .ok settings) :
    (∀ first commands, Command.Within settings.containerSize.toNat commands →
      ∀ c ∈ (Builder.start settings.containerSize first).batches commands,
        c.length < 2 * settings.containerSize.toNat) ∧
    ((∀ first commands, Command.Within settings.containerSize.toNat commands →
      ∀ c ∈ (Builder.start settings.containerSize first).batches commands,
        c.length < UInt32.size) ↔ settings.containerSize.toNat ≤ 2 ^ 31) ∧
    (settings.containerSize.toNat ≤ 2 ^ 31 →
      (∀ first commands, Command.Within settings.containerSize.toNat commands →
        ∀ c ∈ (Builder.start settings.containerSize first).batches commands,
        ∀ (id : UInt8) (data : Bytes), data.length < UInt32.size →
          ∃ record, Record.make c.sequence c.eventCount c.firstTimestamp c.lastTimestamp c.length
            id data = .ok record ∧ record.header.rawSize.toNat = c.length) ∧
      ∀ sink base, sink.Reliable → ∃ origin, Pipeline.start settings sink base = .ok origin ∧
        ∀ log p, Run origin log p → log.Unaborted →
          Command.Within settings.containerSize.toNat log.entered →
          base.containers.toNat + log.events.length ≤ UInt64.size →
          settings.codec.Answers (2 * settings.containerSize.toNat) →
          p.shared.failure = none) ∧
    (∀ id, settings.codec = .plain id → settings.containerSize.toNat ≤ 2 ^ 31 →
      settings.codec.Answers (2 * settings.containerSize.toNat)) ∧
    (∀ id, settings.codec = .lz4 id → settings.containerSize.toNat ≤ 2139095037 →
      settings.codec.Answers (2 * settings.containerSize.toNat)) := by
  obtain ⟨-, positive, -, -, -⟩ := Options.of_check accepted
  refine ⟨?_, Builder.length_lt_size_batches_iff positive, ?_, ?_, ?_⟩
  · intro first commands within
    exact Builder.length_lt_batches positive first within
  · intro low
    refine ⟨?_, ?_⟩
    · intro first commands within c hc id data stored
      have short := Builder.length_lt_size_batches positive low first within c hc
      exact Container.exists_make short id stored
    · intro sink base reliable
      obtain ⟨origin, opened⟩ := exists_start accepted sink base
      refine ⟨origin, opened, ?_⟩
      intro log p run unaborted within few answers
      exact run.faultless_of_answers opened reliable unaborted positive low within few answers
  · intro id hplain low
    rw [hplain]
    exact Codec.answers_plain id (by simp only [UInt32.size]; omega)
  · intro id hlz4 low
    rw [hlz4]
    exact Codec.answers_lz4 id (by simp only [UInt32.size]; omega)

/-- Two frames of five and six bytes make a container of eleven bytes behind a threshold of six, and
the scribe takes its record. -/
theorem sizes_fit_small :
    ∃ settings origin log p c r, Options.check ⟨1, 6, 1, some 64, .identity⟩ = .ok settings ∧
      Pipeline.start settings (.reliable .empty) .zero = .ok origin ∧ Run origin log p ∧
      log.Unaborted ∧ log.entered = [.event ⟨0, 5, [7, 7]⟩, .event ⟨1, 6, [8, 8, 8]⟩] ∧
      .sealed c ∈ log ∧ .taken r ∈ log ∧
      (Builder.start 6 0).batches log.entered = [c] ∧ c.length = 11 ∧ c.length < 2 * 6 ∧
      (∃ record, Record.make c.sequence c.eventCount c.firstTimestamp c.lastTimestamp c.length 0
        c.bytes = .ok record ∧ record.header.rawSize.toNat = 11) ∧
      p.shared.failure = none := by
  obtain ⟨hlengths, -, hlow, hplain, -⟩ := @sizes_fit ⟨1, 6, 1, some 64, .identity⟩
    ⟨1, 6, 1, 64, .identity⟩ rfl
  obtain ⟨hrecords, hruns⟩ := hlow (by decide)
  obtain ⟨origin, hopened, hfaultless⟩ := hruns _ .zero (Sink.reliable_reliable .empty)
  obtain ⟨-, horigin⟩ := eq_of_start hopened
  obtain ⟨c, r, p, hturns, hc⟩ : ∃ c r p, follow?
      [.arrive 1 (.write 5 [7, 7]), .step (.call 1), .step (.call 1), .step (.call 1),
        .step .batcher, .arrive 2 (.write 6 [8, 8, 8]), .step (.call 2), .step (.call 2),
        .step (.call 2), .step .batcher, .step .batcher, .step .batcher, .step (.worker 0),
        .step (.worker 0), .step (.worker 0), .step (.worker 0), .step .scribe, .step .scribe] []
        origin =
      some ([.asked 1 (.write 5 [7, 7]), .entered 1 (.event ⟨0, 5, [7, 7]⟩),
        .answered 1 (.ok (.numbered 0)), .obeyed (.event ⟨0, 5, [7, 7]⟩),
        .asked 2 (.write 6 [8, 8, 8]), .entered 2 (.event ⟨1, 6, [8, 8, 8]⟩),
        .answered 2 (.ok (.numbered 1)), .obeyed (.event ⟨1, 6, [8, 8, 8]⟩), .sealed c,
        .taken r], p) ∧ c = .ofEvents 0 [⟨0, 5, [7, 7]⟩, ⟨1, 6, [8, 8, 8]⟩] := by
    rw [horigin]
    refine ⟨_, _, _, rfl, ?_⟩
    rfl
  have run := Run.start.follow hturns
  have hbatches : (Builder.start 6 0).batches
      [.event ⟨0, 5, [7, 7]⟩, .event ⟨1, 6, [8, 8, 8]⟩] = [c] := by
    rw [hc]
    rfl
  have hlength : c.length = 11 := by
    rw [hc]
    decide
  have within : Command.Within 6 [.event ⟨0, 5, [7, 7]⟩, .event ⟨1, 6, [8, 8, 8]⟩] := by decide
  have hmem := hbatches ▸ List.mem_singleton_self c
  have hlt := hlengths 0 _ within c hmem
  obtain ⟨record, hrecord, hsize⟩ := hrecords 0 _ within c hmem 0 c.bytes
    (by rw [Container.length_bytes, hlength]; decide)
  have hanswers : Codec.identity.Answers (2 * 6) := hplain 0 rfl (by decide)
  have hfew : 0 + 2 ≤ UInt64.size := by decide
  exact ⟨_, origin, _, p, c, r, rfl, hopened, run, by simp [History.Unaborted], rfl, by simp,
    by simp, hbatches, hlength, hlt, ⟨record, hrecord, hsize.trans hlength⟩,
    hfaultless _ p run (by simp [History.Unaborted]) within hfew hanswers⟩

/-- With a threshold of 2^31 + 1, two frames of 2^31 bytes are not refused, but the container that
they make is, whatever is stored for it. -/
theorem sizes_fit_exceeded :
    ∃ settings c, Options.check ⟨1, 2147483649, 1, none, .identity⟩ = .ok settings ∧
      Command.Within settings.containerSize.toNat
        [.event ⟨0, 0, List.replicate 2147483641 0⟩, .event ⟨1, 0, List.replicate 2147483641 0⟩] ∧
      (Builder.start settings.containerSize 0).batches
        [.event ⟨0, 0, List.replicate 2147483641 0⟩, .event ⟨1, 0, List.replicate 2147483641 0⟩] =
        [c] ∧
      ¬ c.length < UInt32.size ∧
      (∀ id data, Record.make c.sequence c.eventCount c.firstTimestamp c.lastTimestamp c.length id
        data = .error (.compression (.rawTooLarge 0 4294967296))) ∧
      c.complete? settings.codec =
        some (.failed 0 (.compression (.rawTooLarge 0 4294967296))) := by
  have hlength : (List.replicate 2147483641 (0 : UInt8)).length = 2147483641 :=
    List.length_replicate
  obtain ⟨within, c, hbatches, hsequence, hc⟩ :=
    Builder.batches_undescribed (show 2 ^ 31 < UInt32.toNat 2147483649 by decide) 0 hlength
  have hrefused (id : UInt8) (data : Bytes) : Record.make c.sequence c.eventCount c.firstTimestamp
      c.lastTimestamp c.length id data = .error (.compression (.rawTooLarge 0 4294967296)) := by
    rw [Record.make, hc, if_pos (Nat.le_refl _), hsequence]
  refine ⟨_, c, rfl, within, hbatches, ?_, hrefused, ?_⟩
  · rw [hc]
    exact Nat.lt_irrefl _
  · simp only [Container.complete?, Codec.identity, Codec.plain, hrefused]
    rw [hsequence]

end Pipeline

end TraceLog
