/-
**Events and their frames.**

An event is a payload with a timestamp and its place in the order of submission.  Inside a
container an event is framed as the three variable-length integers sequence number, timestamp and
payload length, followed by the payload, so that the frames of a container can be told apart
without any table beside them.

Main definitions:

* `Event`, `Event.encode`, `Event.encodedLength` — an event, its frame and the length of the frame;
* `Event.decode`, `Event.decodeAll` — the event at the front of a sequence of bytes; all the events
  that a sequence of bytes consists of.

Main results:

* `Event.length_lt_of_decode` — a frame takes at least one byte.
-/

import TraceLog.Varint

set_option relaxedAutoImplicit false
set_option autoImplicit false

namespace TraceLog

/-- A payload with its timestamp and its place in the order of submission. -/
structure Event where
  sequence : UInt64
  timestamp : UInt64
  payload : Bytes
  deriving DecidableEq

namespace Event

/-! ### Writing -/

/-- The frame of an event. -/
def encode (e : Event) : Bytes :=
  Varint.encode e.sequence ++ (Varint.encode e.timestamp ++
    (Varint.encode (UInt64.ofNat e.payload.length) ++ e.payload))

/-- The length of the frame of an event. -/
def encodedLength (e : Event) : Nat :=
  Varint.encodedLength e.sequence + Varint.encodedLength e.timestamp +
    Varint.encodedLength (UInt64.ofNat e.payload.length) + e.payload.length

/-! ### Reading -/

/-- Why a sequence of bytes is not a sequence of frames. -/
inductive Fault where
  /-- One of the three integers of a frame cannot be read. -/
  | integer (fault : Varint.Fault)
  /-- The payload length of an event exceeds what is left. -/
  | payload (sequence claimed : UInt64) (left : Nat)
  deriving DecidableEq

/-- The wording of a fault. -/
def Fault.message : Fault → String
  | .integer fault => fault.message
  | .payload sequence claimed left =>
      s!"event {sequence} claims {claimed} payload bytes, {left} left in container"

/-- An integer of a frame. -/
def decodeInteger (bs : Bytes) : Except Fault (UInt64 × Bytes) :=
  (Varint.decode bs).mapError .integer

/-- The event whose frame is at the front of `bs`, and the bytes behind the frame. -/
def decode (bs : Bytes) : Except Fault (Event × Bytes) :=
  match decodeInteger bs with
  | .error fault => .error fault
  | .ok (sequence, bs) =>
    match decodeInteger bs with
    | .error fault => .error fault
    | .ok (timestamp, bs) =>
      match decodeInteger bs with
      | .error fault => .error fault
      | .ok (length, bs) =>
        match Bytes.splitExact? length.toNat bs with
        | none => .error (.payload sequence length bs.length)
        | some (payload, rest) => .ok (⟨sequence, timestamp, payload⟩, rest)

theorem length_lt_of_decodeInteger {bs rest : Bytes} {v : UInt64}
    (h : decodeInteger bs = .ok (v, rest)) : rest.length < bs.length := by
  unfold decodeInteger at h
  cases hd : Varint.decode bs with
  | error fault =>
      rw [hd] at h
      cases h
  | ok r =>
      rw [hd] at h
      cases h
      exact Varint.length_lt_of_decode hd

/-- A frame takes at least one byte. -/
theorem length_lt_of_decode {bs rest : Bytes} {e : Event} (h : decode bs = .ok (e, rest)) :
    rest.length < bs.length := by
  unfold decode at h
  split at h
  · simp at h
  rename_i h₁
  split at h
  · simp at h
  rename_i h₂
  split at h
  · simp at h
  rename_i h₃
  split at h
  · simp at h
  rename_i h₄
  simp only [Except.ok.injEq, Prod.mk.injEq] at h
  obtain ⟨-, rfl⟩ := h
  have l₁ := length_lt_of_decodeInteger h₁
  have l₂ := length_lt_of_decodeInteger h₂
  have l₃ := length_lt_of_decodeInteger h₃
  have l₄ := congrArg List.length (Bytes.splitExact?_eq_some_iff.1 h₄).2
  simp only [List.length_append] at l₄
  omega

/-- All the events whose frames make up `bs`, after those in `found`, the newest of which comes
first. -/
def decodeOnto (found : List Event) (bs : Bytes) : Except Fault (List Event) :=
  if bs.isEmpty then .ok found.reverse
  else
    match _h : decode bs with
    | .error fault => .error fault
    | .ok (e, rest) => decodeOnto (e :: found) rest
termination_by bs.length
decreasing_by exact length_lt_of_decode _h

/-- All the events whose frames make up `bs`. -/
def decodeAll (bs : Bytes) : Except Fault (List Event) := decodeOnto [] bs

end Event

end TraceLog
