/-
**Which bytes are an integer.**

A variable-length integer may be written with more groups than it needs, and bytes can fail to be
one in three ways.  This module says for all bytes what is read: the number that the groups stand
for, if they end in time and the number fits into 64 bits, and otherwise the fault that applies.
Of all the ways to write a number, the writer chooses the shortest.

Both directions are inductions on the bytes, along with the reader.  What carries them is that the
groups read so far stand for a number below `128 ^ position`: so the tenth group, and no other, can
make the number too large, and it does if more than its lowest bit is set.

Main definitions:

* `Varint.worth` — the number that some groups stand for;
* `Varint.Ends` — a row of groups ends behind `n` bytes;
* `Varint.Spells` — the first `n` bytes are an integer;
* `Varint.Fault.Concerns` — what is wrong with bytes that do not start with an integer.

Main results:

* `Varint.decodeFrom_eq_ok_iff` — the groups that are read behind others;
* `Varint.decodeFrom_eq_error_iff` — why no more groups can be read;
* `Varint.encodedLength_le` — no way to write a number is shorter than the writer's;
* `Varint.decode_iff_spells` — **which bytes are an integer**.
-/

import TraceLog.Proofs.Cuts
import Mathlib.Algebra.BigOperators.Ring.List
import Mathlib.Algebra.Ring.Nat

set_option relaxedAutoImplicit false
set_option autoImplicit false

namespace TraceLog

namespace Varint

/-! ### Groups -/

/-- The number that groups stand for: seven bits of each byte, those of the first byte lowest. -/
def worth (bs : Bytes) : Nat := (bs.mapIdx fun i b => b.toNat % 128 * 2 ^ (7 * i)).sum

@[simp] theorem worth_nil : worth [] = 0 := rfl

theorem worth_cons (b : UInt8) (bs : Bytes) :
    worth (b :: bs) = b.toNat % 128 + worth bs * 128 := by
  have hshift (i : Nat) (c : UInt8) :
      c.toNat % 128 * 2 ^ (7 * (i + 1)) = c.toNat % 128 * 2 ^ (7 * i) * 128 := by
    rw [Nat.mul_add, Nat.pow_add, Nat.mul_assoc]
  rw [worth, List.mapIdx_cons, List.sum_cons, Nat.mul_zero, Nat.pow_zero, Nat.mul_one]
  simp only [hshift]
  rw [List.mapIdx_eq_zipIdx_map, worth, List.mapIdx_eq_zipIdx_map]
  exact congrArg _ (List.sum_map_mul_right bs.zipIdx (fun x => x.1.toNat % 128 * 2 ^ (7 * x.2)) 128)

theorem worth_lt (bs : Bytes) : worth bs < 128 ^ bs.length := by
  induction bs with
  | nil => simp
  | cons b bs ih =>
      rw [worth_cons, List.length_cons, Nat.pow_succ]
      omega

/-- A row of groups ends behind `n` bytes: of these the last one, and no other, lacks the high
bit. -/
structure Ends (bs : Bytes) (n : Nat) : Prop where
  pos : 1 ≤ n
  le_length : n ≤ bs.length
  continued : ∀ b ∈ bs.take (n - 1), 128 ≤ b.toNat
  last : ∀ b ∈ bs[n - 1]?, b.toNat < 128

theorem not_ends_nil (n : Nat) : ¬ Ends [] n := by
  intro h
  have hpos := h.pos
  have hle := h.le_length
  rw [List.length_nil] at hle
  omega

/-- A byte without the high bit is the last one. -/
theorem ends_cons_of_lt {b : UInt8} (h : b.toNat < 128) (bs : Bytes) (n : Nat) :
    Ends (b :: bs) n ↔ n = 1 := by
  constructor
  · intro ends
    have hpos := ends.pos
    by_contra hn
    have hfirst : b ∈ (b :: bs).take (n - 1) := by
      obtain ⟨m, hm⟩ : ∃ m, n - 1 = m + 1 := ⟨n - 2, by omega⟩
      rw [hm, List.take_succ_cons]
      exact List.mem_cons_self
    have := ends.continued b hfirst
    omega
  · rintro rfl
    constructor <;> simp [h]

/-- A byte with the high bit is followed by more of them. -/
theorem ends_cons_of_le {b : UInt8} (h : 128 ≤ b.toNat) (bs : Bytes) (n : Nat) :
    Ends (b :: bs) n ↔ ∃ m, n = m + 1 ∧ Ends bs m := by
  constructor
  · rintro ⟨hpos, hle, continued, last⟩
    rw [List.length_cons] at hle
    rcases n with _ | _ | m
    · omega
    · have := last b (by simp)
      omega
    · refine ⟨m + 1, rfl, by omega, by omega, fun c hc => continued c ?_, by simpa using last⟩
      exact List.mem_cons_of_mem b hc
  · rintro ⟨m, rfl, ends⟩
    obtain ⟨k, rfl⟩ : ∃ k, m = k + 1 := ⟨m - 1, by have := ends.pos; omega⟩
    refine ⟨by omega, Nat.succ_le_succ ends.le_length, ?_, by simpa using ends.last⟩
    intro c hc
    rcases List.mem_cons.1 hc with rfl | hc
    · exact h
    · exact ends.continued c hc

/-! ### Groups that are read -/

/-- With one more group a number stays below the next power. -/
theorem add_group_lt {value group position : Nat} (hvalue : value < 128 ^ position)
    (hgroup : group < 128) : value + group * 128 ^ position < 128 ^ (position + 1) := by
  have hle : (group + 1) * 128 ^ position ≤ 128 * 128 ^ position :=
    Nat.mul_le_mul_right _ hgroup
  rw [Nat.add_mul] at hle
  rw [Nat.pow_succ]
  omega

/-- The tenth group, and no other, can make a number too large for 64 bits. -/
theorem add_group_lt_size_iff {value group position : Nat} (hposition : position < maxLength)
    (hvalue : value < 128 ^ position) (hgroup : group < 128) :
    value + group * 128 ^ position < UInt64.size ↔
      ¬ (position = maxLength - 1 ∧ 1 < group) := by
  by_cases htenth : position = maxLength - 1
  · subst htenth
    have hsize : UInt64.size = 2 * 128 ^ (maxLength - 1) := by decide
    rw [hsize]
    generalize 128 ^ (maxLength - 1) = unit at hvalue
    by_cases hlarge : 1 < group
    · have hle : 2 * unit ≤ group * unit := Nat.mul_le_mul_right _ hlarge
      simp only [hlarge, and_self, not_true_eq_false, iff_false]
      omega
    · have hle : group * unit ≤ 1 * unit := Nat.mul_le_mul_right _ (by omega)
      simp only [hlarge, and_false, not_false_eq_true, iff_true]
      omega
  · have hnext : 128 ^ (position + 1) ≤ 128 ^ (maxLength - 1) :=
      Nat.pow_le_pow_right (by decide) (by omega)
    have hsize : 128 ^ (maxLength - 1) < UInt64.size := by decide
    have := add_group_lt hvalue hgroup
    simp only [htenth, false_and, not_false_eq_true, iff_true]
    omega

/-- **The groups that are read** behind `position` others: those up to the first byte without the
high bit, if no more than ten groups come together and the number fits into 64 bits. -/
theorem decodeFrom_eq_ok_iff {position value : Nat} {bs rest : Bytes} {v : UInt64}
    (hposition : position ≤ maxLength) (hvalue : value < 128 ^ position) :
    decodeFrom position value bs = .ok (v, rest) ↔
      ∃ n, Ends bs n ∧ position + n ≤ maxLength ∧ rest = bs.drop n ∧
        value + worth (bs.take n) * 128 ^ position = v.toNat := by
  induction bs generalizing position value with
  | nil => simp [decodeFrom, not_ends_nil]
  | cons b bs ih =>
      have hgroup : b.toNat % 128 < 128 := Nat.mod_lt _ (by decide)
      rw [decodeFrom]
      split
      · -- ten groups have been read
        simp only [reduceCtorEq, false_iff, not_exists, not_and]
        intro n ends hle
        have := ends.pos
        omega
      rename_i hroom
      have hfits := add_group_lt_size_iff (by omega) hvalue hgroup
      simp only [shiftLeft_eq]
      by_cases hlast : b.toNat < 128
      · -- the last group
        simp only [ends_cons_of_lt hlast, exists_eq_left, List.drop_succ_cons, List.drop_zero,
          List.take_succ_cons, List.take_zero, worth_cons, worth_nil, Nat.zero_mul, Nat.add_zero]
        split
        · rename_i hoverflow
          simp only [reduceCtorEq, false_iff, not_and]
          rintro - rfl hv
          exact hfits.1 (hv ▸ v.toNat_lt) hoverflow
        · rename_i hnot
          have hv := UInt64.toNat_ofNat_of_lt' (hfits.2 hnot)
          simp only [Except.ok.injEq, Prod.mk.injEq, ← UInt64.toNat_inj, hv]
          constructor
          · rintro ⟨hv, rfl⟩
            exact ⟨by omega, rfl, hv⟩
          · rintro ⟨-, rfl, hv⟩
            exact ⟨hv, rfl⟩
      · -- the groups behind this one are read in the same way
        have hmore (w : Nat) : value + (b.toNat % 128 + w * 128) * 128 ^ position =
            value + b.toNat % 128 * 128 ^ position + w * 128 ^ (position + 1) := by
          rw [Nat.pow_succ, Nat.add_mul, Nat.add_assoc, Nat.mul_assoc, Nat.mul_comm 128]
        simp only [ends_cons_of_le (Nat.le_of_not_lt hlast)]
        split
        · simp only [reduceCtorEq, false_iff]
          rintro ⟨_, ⟨n, rfl, ends⟩, hle, -⟩
          have := ends.pos
          omega
        · rw [ih (by omega) (add_group_lt hvalue hgroup)]
          constructor
          · rintro ⟨n, ends, hle, hrest, hv⟩
            refine ⟨n + 1, ⟨n, rfl, ends⟩, by omega, hrest, ?_⟩
            rw [List.take_succ_cons, worth_cons, hmore, hv]
          · rintro ⟨_, ⟨n, rfl, ends⟩, hle, hrest, hv⟩
            rw [List.take_succ_cons, worth_cons, hmore] at hv
            exact ⟨n, ends, by omega, hrest, hv⟩

/-! ### Bytes that are no integer -/

/-- What is wrong with bytes that do not start with an integer, if `more` groups may stand before
the last one. -/
def Fault.Concerns (more : Nat) (bs : Bytes) : Fault → Prop
  | .truncated => bs.length ≤ more ∧ ∀ b ∈ bs, 128 ≤ b.toNat
  | .tooLong =>
      (∀ b ∈ bs.take more, 128 ≤ b.toNat) ∧ ∃ b ∈ bs[more]?, 128 ≤ b.toNat ∧ b.toNat % 128 ≤ 1
  | .overflow => (∀ b ∈ bs.take more, 128 ≤ b.toNat) ∧ ∃ b ∈ bs[more]?, 1 < b.toNat % 128

theorem Fault.concerns_nil (more : Nat) (fault : Fault) :
    fault.Concerns more [] ↔ fault = .truncated := by
  cases fault <;> simp [Concerns]

/-- The last byte for which there is room holds too much, or has the high bit. -/
theorem Fault.concerns_zero_cons (b : UInt8) (bs : Bytes) (fault : Fault) :
    fault.Concerns 0 (b :: bs) ↔
      fault = .overflow ∧ 1 < b.toNat % 128 ∨
        fault = .tooLong ∧ 128 ≤ b.toNat ∧ b.toNat % 128 ≤ 1 := by
  cases fault <;> simp [Concerns]

/-- A byte with the high bit makes no difference to what is wrong behind it. -/
theorem Fault.concerns_cons_of_le {b : UInt8} (h : 128 ≤ b.toNat) (more : Nat) (bs : Bytes)
    (fault : Fault) : fault.Concerns (more + 1) (b :: bs) ↔ fault.Concerns more bs := by
  cases fault <;> simp [Concerns, h]

theorem Fault.not_concerns_cons_of_lt {b : UInt8} (h : b.toNat < 128) (more : Nat) (bs : Bytes)
    (fault : Fault) : ¬ fault.Concerns (more + 1) (b :: bs) := by
  cases fault <;> simp [Concerns, h]

theorem decodeFrom_maxLength (value : Nat) (bs : Bytes) :
    decodeFrom maxLength value bs = .error .tooLong := by
  cases bs with
  | nil => rfl
  | cons b bs => rw [decodeFrom, if_pos rfl]

/-- **Why no more groups can be read** behind `position` others. -/
theorem decodeFrom_eq_error_iff {position more value : Nat} {bs : Bytes} {fault : Fault}
    (hposition : position + more = maxLength - 1) :
    decodeFrom position value bs = .error fault ↔ fault.Concerns more bs := by
  have hroom : position + more < maxLength := by
    rw [hposition]
    decide
  induction bs generalizing position more value with
  | nil =>
      have hnot : ¬ position = maxLength := by omega
      simp [decodeFrom, hnot, Fault.concerns_nil, eq_comm]
  | cons b bs ih =>
      rw [decodeFrom, if_neg (by omega)]
      cases more with
      | zero =>
          -- the tenth byte: behind it there is no room
          obtain rfl : position = maxLength - 1 := hposition
          have hfull (value : Nat) : decodeFrom (maxLength - 1 + 1) value bs = .error .tooLong :=
            decodeFrom_maxLength value bs
          simp only [true_and, Fault.concerns_zero_cons, hfull]
          split
          · rename_i hlarge
            have hnot : ¬ b.toNat % 128 ≤ 1 := by omega
            simp only [Except.error.injEq, hlarge, hnot, and_true, and_false, or_false]
            exact eq_comm
          · rename_i hsmall
            split
            · rename_i hlast
              simp only [reduceCtorEq, hsmall, and_false, false_or, false_iff]
              omega
            · rename_i hcontinued
              have hbounds : 128 ≤ b.toNat ∧ b.toNat % 128 ≤ 1 := by omega
              simp only [Except.error.injEq, hsmall, hbounds, and_true, and_false, false_or]
              exact eq_comm
      | succ more =>
          have hmiddle (group : Nat) : ¬ (position = maxLength - 1 ∧ 1 < group) := by omega
          simp only [if_neg (hmiddle _)]
          split
          · rename_i hlast
            simp [Fault.not_concerns_cons_of_lt hlast]
          · rename_i hcontinued
            rw [Fault.concerns_cons_of_le (by omega)]
            exact ih (by omega) (by omega)

/-! ### Which bytes are an integer -/

/-- The first `n` bytes are an integer: groups that end there, no more than ten of them, which stand
for the number. -/
structure Spells (bs : Bytes) (n : Nat) (v : UInt64) : Prop extends Ends bs n where
  le_max : n ≤ maxLength
  worth_eq : worth (bs.take n) = v.toNat

/-- **The integer at the front**, and the bytes behind it. -/
theorem decode_eq_ok_iff {bs rest : Bytes} {v : UInt64} :
    decode bs = .ok (v, rest) ↔ ∃ n, Spells bs n v ∧ rest = bs.drop n := by
  rw [decode, decodeFrom_eq_ok_iff (Nat.zero_le _) Nat.zero_lt_one]
  constructor
  · rintro ⟨n, ends, hle, hrest, hv⟩
    exact ⟨n, ⟨ends, by omega, by omega⟩, hrest⟩
  · rintro ⟨n, spells, hrest⟩
    have hv := spells.worth_eq
    have hle := spells.le_max
    exact ⟨n, spells.toEnds, by omega, hrest, by omega⟩

/-- **No way to write a number is shorter than the writer's.** -/
theorem encodedLength_le {bs : Bytes} {n : Nat} {v : UInt64} (h : Spells bs n v) :
    encodedLength v ≤ n := by
  have hpos := h.pos
  have hlt : v.toNat < 2 ^ (7 * n) := by
    have hworth := worth_lt (bs.take n)
    rwa [h.worth_eq, List.length_take_of_le h.le_length, show 128 = 2 ^ 7 from rfl,
      ← Nat.pow_mul] at hworth
  have hbits := bitLength_le hlt
  rw [encodedLength]
  omega

theorem encodedLength_le_maxLength (v : UInt64) : encodedLength v ≤ maxLength := by
  have hbits : bitLength v.toNat ≤ 64 := bitLength_le v.toNat_lt
  simp only [encodedLength, maxLength]
  omega

/-- **Which bytes are an integer.**

The reader takes `n` bytes for the number `v` and leaves the rest behind them if, and only if, these
bytes are groups that end there, are no more than ten, and stand for `v`.  All other bytes are a
fault: they end before the groups do, or the tenth byte holds more than the one bit that is left, or
it is not the last.  What is written for a number has the length that was promised, between one and
ten, it is read back whatever follows it, and no bytes that are read as this number are fewer. -/
theorem decode_iff_spells :
    (∀ (bs rest : Bytes) (n : Nat) (v : UInt64),
      decode bs = .ok (v, rest) ∧ rest.length + n = bs.length ↔ Spells bs n v ∧ rest = bs.drop n) ∧
    (∀ bs fault, decode bs = .error fault ↔ fault.Concerns (maxLength - 1) bs) ∧
    (∀ bs, (∃ fault, decode bs = .error fault) ↔ ∀ n v, ¬ Spells bs n v) ∧
    ∀ v, (encode v).length = encodedLength v ∧ 1 ≤ encodedLength v ∧ encodedLength v ≤ 10 ∧
      (∀ rest, decode (encode v ++ rest) = .ok (v, rest)) ∧
      ∀ bs n, Spells bs n v → encodedLength v ≤ n := by
  refine ⟨fun bs rest n v => ?_, fun bs fault => decodeFrom_eq_error_iff rfl, fun bs => ?_,
    fun v => ⟨length_encode v, Nat.le_max_right .., encodedLength_le_maxLength v,
      decode_encode_append v, fun bs n => encodedLength_le⟩⟩
  · rw [decode_eq_ok_iff]
    constructor
    · rintro ⟨⟨m, spells, rfl⟩, hlen⟩
      have hle := spells.le_length
      rw [List.length_drop] at hlen
      obtain rfl : m = n := by omega
      exact ⟨spells, rfl⟩
    · rintro ⟨spells, rfl⟩
      have hle := spells.le_length
      exact ⟨⟨n, spells, rfl⟩, by rw [List.length_drop]; omega⟩
  · constructor
    · rintro ⟨fault, hfault⟩ n v spells
      rw [decode_eq_ok_iff.2 ⟨n, spells, rfl⟩] at hfault
      cases hfault
    · intro hnone
      cases hdecode : decode bs with
      | error fault => exact ⟨fault, rfl⟩
      | ok found =>
          obtain ⟨n, spells, -⟩ := decode_eq_ok_iff.1 hdecode
          exact absurd spells (hnone n _)

/-- Zero is also read from three bytes, two more than its own encoding; with a second bit in the
tenth byte a number is too large. -/
theorem decode_iff_spells_overlong :
    Spells [0x80, 0x80, 0x00, 7] 3 0 ∧ decode [0x80, 0x80, 0x00, 7] = .ok (0, [7]) ∧
      encodedLength 0 ≤ 3 ∧ decode (List.replicate 9 0xFF ++ [0x02]) = .error .overflow := by
  have ends : Ends [0x80, 0x80, 0x00, 7] 3 :=
    ⟨by decide, by decide, by simp, fun b hb => by cases hb; decide⟩
  have spells : Spells [0x80, 0x80, 0x00, 7] 3 0 := ⟨ends, by decide, by decide⟩
  refine ⟨spells, ?_, ?_, ?_⟩
  · exact ((decode_iff_spells.1 _ [7] 3 0).2 ⟨spells, rfl⟩).1
  · exact (decode_iff_spells.2.2.2 0).2.2.2.2 _ 3 spells
  · exact (decode_iff_spells.2.1 _ .overflow).2 ⟨by simp [maxLength], 0x02, rfl, by decide⟩

end Varint

end TraceLog
