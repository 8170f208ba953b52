/-
**Settings of a file.**

Main definitions:

* `Options` — what may be chosen when a file is opened for writing, each choice with a default;
* `Settings` — choices that were found usable;
* `Options.check` — the settings of some options, or the first choice that cannot be used.

Main results:

* `Options.of_check` — what the checks guarantee.
-/

import TraceLog.Codec

set_option relaxedAutoImplicit false
set_option autoImplicit false

namespace TraceLog

/-- Choices for a file that is opened for writing. -/
structure Options where
  /-- How many commands may wait for the builder. -/
  queueSize : Nat
  /-- The number of framed bytes at which a container is sealed. -/
  containerSize : UInt32
  /-- How many workers compress containers. -/
  threads : Nat
  /-- How many framed bytes may be on their way from the builder to the file; four containers if
  nothing is chosen. -/
  bufferSize : Option Nat
  codec : Codec

/-- Choices that were found usable. -/
structure Settings where
  queueSize : Nat
  containerSize : UInt32
  threads : Nat
  bufferSize : Nat
  codec : Codec

namespace Options

/-- How many containers may be on their way if nothing else is chosen. -/
def bufferedContainers : Nat := 4

/-- The choices that hold where none is made, on a machine with the given parallelism. -/
def standard (parallelism : Nat) : Options where
  queueSize := 1024
  containerSize := 0x20000
  threads := parallelism
  bufferSize := none
  codec := .default

/-- The settings of some options.  A buffer smaller than a container is raised to one container. -/
def check (o : Options) : Except Error Settings :=
  if o.queueSize = 0 then .error (.config .zeroQueue)
  else if o.containerSize = 0 then .error (.config .zeroContainerSize)
  else if o.threads = 0 then .error (.config .zeroThreads)
  else if maxCodecId < o.codec.id.toNat then .error (.config (.codecId o.codec.id))
  else
    let container := o.containerSize.toNat
    .ok
      { queueSize := o.queueSize
        containerSize := o.containerSize
        threads := o.threads
        bufferSize := max (o.bufferSize.getD (container * bufferedContainers)) container
        codec := o.codec }

/-- What the checks guarantee. -/
theorem of_check {o : Options} {s : Settings} (h : o.check = .ok s) :
    0 < s.queueSize ∧ 0 < s.containerSize.toNat ∧ 0 < s.threads ∧ s.codec.id.toNat ≤ maxCodecId ∧
      s.containerSize.toNat ≤ s.bufferSize := by
  unfold check at h
  split at h
  · simp at h
  split at h
  · simp at h
  split at h
  · simp at h
  split at h
  · simp at h
  rename_i hq hc ht hi
  simp only [Except.ok.injEq] at h
  subst h
  have hc' : o.containerSize.toNat ≠ 0 := fun hz => hc (UInt32.toNat_inj.1 hz)
  refine ⟨Nat.pos_of_ne_zero hq, Nat.pos_of_ne_zero hc', Nat.pos_of_ne_zero ht,
    Nat.le_of_not_lt hi, Nat.le_max_right ..⟩

end Options

end TraceLog
