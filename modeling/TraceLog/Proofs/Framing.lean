/-
**Frames, written and read.**

A frame consists of three variable-length integers and a payload.  Here they are read back: an
integer from the bytes that encode it, an event from its frame, and the events of a container from
their frames, with nothing between them that says where one ends.

Main results:

* `Varint.decode_encode_append` — **an integer is read back**, whatever follows it;
* `Event.decode_encode_append` — **an event is read back** from its frame;
* `Event.decodeAll_flatMap_encode` — **the events of a container are read back**;
* `Event.three_le_length_encode` — a frame takes at least three bytes.
-/

import TraceLog.Event
import Mathlib.Algebra.GroupWithZero.Nat

set_option relaxedAutoImplicit false
set_option autoImplicit false

namespace TraceLog

/-! ### Variable-length integers -/

namespace Varint

theorem toNat_byte {n : Nat} (h : n < 256) : (UInt8.ofNat n).toNat = n :=
  UInt8.toNat_ofNat_of_lt' h

/-- A group of seven bits at a position. -/
theorem shiftLeft_eq (group position : Nat) :
    group <<< (7 * position) = group * 128 ^ position := by
  rw [Nat.shiftLeft_eq, Nat.pow_mul]

/-- The groups of a number are read back behind `position` groups that were read before.

`more` is the number of groups that may stand before the last one.  It falls while `position`
rises, so that the last group that can come is always the tenth, which has room for one bit. -/
theorem decodeFrom_encodeGroups {more position : Nat} (hposition : position + more = 9) {n : Nat}
    (hn : n < 2 * 128 ^ more) (value : Nat) (rest : Bytes) :
    decodeFrom position value (encodeGroups more n ++ rest) =
      .ok (UInt64.ofNat (value + n * 128 ^ position), rest) := by
  induction more generalizing position n value with
  | zero =>
      have hbyte : (UInt8.ofNat n).toNat = n := toNat_byte (by omega)
      have hgroup : n % 128 = n := Nat.mod_eq_of_lt (by omega)
      have hlast : ¬ (position = maxLength - 1 ∧ 1 < n) := by omega
      rw [encodeGroups, List.singleton_append, decodeFrom, if_neg (by simp [maxLength]; omega)]
      simp only [hbyte, hgroup, shiftLeft_eq]
      rw [if_neg hlast, if_pos (by omega)]
  | succ more ih =>
      have hnot : ¬ position = maxLength := by simp [maxLength]; omega
      have hmiddle (group : Nat) : ¬ (position = maxLength - 1 ∧ 1 < group) := by
        simp [maxLength]
        omega
      rw [encodeGroups]
      split
      · -- the last group
        rename_i hsmall
        have hbyte : (UInt8.ofNat n).toNat = n := toNat_byte (by omega)
        rw [List.singleton_append, decodeFrom, if_neg hnot]
        simp only [hbyte, Nat.mod_eq_of_lt hsmall, shiftLeft_eq]
        rw [if_neg (hmiddle n), if_pos hsmall]
      · -- a group with the high bit, behind which the quotient is read
        have hbyte : (UInt8.ofNat (n % 128 + 128)).toNat = n % 128 + 128 :=
          toNat_byte (by omega)
        have hgroup : (n % 128 + 128) % 128 = n % 128 := by omega
        have hquotient : n / 128 < 2 * 128 ^ more := by
          rw [Nat.pow_succ] at hn
          omega
        have hvalue : value + n % 128 * 128 ^ position + n / 128 * 128 ^ (position + 1) =
            value + n * 128 ^ position := by
          rw [Nat.pow_succ, Nat.mul_comm (128 ^ position) 128, ← Nat.mul_assoc, Nat.add_assoc,
            ← Nat.add_mul, Nat.mod_add_div']
        rw [List.cons_append, decodeFrom, if_neg hnot]
        simp only [hbyte, hgroup, shiftLeft_eq]
        rw [if_neg (hmiddle _), if_neg (by omega), ih (by omega) hquotient, hvalue]

/-- **An integer is read back**, whatever follows it. -/
theorem decode_encode_append (v : UInt64) (rest : Bytes) :
    decode (encode v ++ rest) = .ok (v, rest) := by
  have hlt : v.toNat < 2 * 128 ^ (maxLength - 1) := v.toNat_lt
  rw [decode, encode, decodeFrom_encodeGroups rfl hlt]
  simp

theorem encodeGroups_ne_nil (more n : Nat) : encodeGroups more n ≠ [] := by
  cases more with
  | zero => simp [encodeGroups]
  | succ more =>
      rw [encodeGroups]
      split <;> simp

theorem length_encode_pos (v : UInt64) : 0 < (encode v).length :=
  List.length_pos_iff.2 (encodeGroups_ne_nil _ _)

end Varint

/-! ### Events -/

namespace Event

theorem decodeInteger_encode_append (v : UInt64) (rest : Bytes) :
    decodeInteger (Varint.encode v ++ rest) = .ok (v, rest) := by
  rw [decodeInteger, Varint.decode_encode_append]
  rfl

/-- **An event is read back** from its frame, whatever follows the frame, if the length of its
payload fits into 64 bits. -/
theorem decode_encode_append {e : Event} (h : e.payload.length < UInt64.size) (rest : Bytes) :
    decode (e.encode ++ rest) = .ok (e, rest) := by
  have hlen : (UInt64.ofNat e.payload.length).toNat = e.payload.length :=
    UInt64.toNat_ofNat_of_lt' h
  simp only [decode, encode, List.append_assoc, decodeInteger_encode_append, hlen,
    Bytes.splitExact?_append]

/-- A frame takes at least three bytes, and as many as its payload. -/
theorem three_le_length_encode (e : Event) : 3 + e.payload.length ≤ e.encode.length := by
  have h₁ := Varint.length_encode_pos e.sequence
  have h₂ := Varint.length_encode_pos e.timestamp
  have h₃ := Varint.length_encode_pos (UInt64.ofNat e.payload.length)
  simp only [encode, List.length_append]
  omega

/-- There are at most a third as many events as there are bytes in their frames. -/
theorem three_mul_length_le (es : List Event) :
    3 * es.length ≤ (es.flatMap encode).length := by
  induction es with
  | nil => simp
  | cons e es ih =>
      have := three_le_length_encode e
      simp only [List.flatMap_cons, List.length_append, List.length_cons]
      omega

theorem length_payload_le {e : Event} {es : List Event} (he : e ∈ es) :
    e.payload.length ≤ (es.flatMap encode).length := by
  induction es with
  | nil => simp at he
  | cons x es ih =>
      simp only [List.flatMap_cons, List.length_append]
      rcases List.mem_cons.1 he with rfl | he
      · have := three_le_length_encode e
        omega
      · have := ih he
        omega

theorem decodeOnto_flatMap_encode {es : List Event}
    (h : ∀ e ∈ es, e.payload.length < UInt64.size) (found : List Event) :
    decodeOnto found (es.flatMap encode) = .ok (found.reverse ++ es) := by
  induction es generalizing found with
  | nil => simp [decodeOnto]
  | cons e es ih =>
      have hd := decode_encode_append (h e List.mem_cons_self) (es.flatMap encode)
      have hne : ¬ (e.encode ++ es.flatMap encode).isEmpty = true := by
        have := three_le_length_encode e
        rw [List.isEmpty_iff, ← List.length_eq_zero_iff, List.length_append]
        omega
      rw [List.flatMap_cons, decodeOnto, if_neg hne]
      split
      · rename_i fault hfault
        rw [hd] at hfault
        simp at hfault
      · rename_i e' rest hok
        rw [hd] at hok
        simp only [Except.ok.injEq, Prod.mk.injEq] at hok
        obtain ⟨rfl, rfl⟩ := hok
        rw [ih (fun x hx => h x (List.mem_cons_of_mem e hx))]
        simp

/-- **The events of a container are read back** from their frames. -/
theorem decodeAll_flatMap_encode {es : List Event}
    (h : ∀ e ∈ es, e.payload.length < UInt64.size) :
    decodeAll (es.flatMap encode) = .ok es :=
  decodeOnto_flatMap_encode h []

end Event

end TraceLog
