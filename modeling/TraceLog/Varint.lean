/-
**Variable-length integers.**

An unsigned 64-bit number is written in groups of seven bits, the lowest group first; a byte with
its high bit set is followed by another group.  Ten groups are enough, and the tenth may hold a
single bit only.  Sequence numbers, timestamps and short payload lengths fit in one or two bytes.

Main definitions:

* `Varint.encode`, `Varint.encodedLength` — the bytes of a number and how many they are;
* `Varint.decode` — the number at the front of a sequence of bytes, with the bytes behind it;
* `Varint.Fault` — why there is no number at the front.
-/

import TraceLog.Bytes

set_option relaxedAutoImplicit false
set_option autoImplicit false

namespace TraceLog

namespace Varint

/-- The most bytes that the encoding of a 64-bit number takes. -/
def maxLength : Nat := 10

/-- The groups of a number, the lowest one first, at most `more` of them before the last. -/
def encodeGroups : (more n : Nat) → Bytes
  | 0, n => [UInt8.ofNat n]
  | more + 1, n =>
      if n < 128 then [UInt8.ofNat n]
      else UInt8.ofNat (n % 128 + 128) :: encodeGroups more (n / 128)

/-- The encoding of a 64-bit number. -/
def encode (value : UInt64) : Bytes := encodeGroups (maxLength - 1) value.toNat

/-- How many bits a number has, up to its highest one. -/
def bitLength (n : Nat) : Nat := if n = 0 then 0 else n.log2 + 1

/-- How many bytes `encode` gives: one for each seven bits begun, and at least one. -/
def encodedLength (value : UInt64) : Nat :=
  max ((bitLength value.toNat + 6) / 7) 1

/-- Why a sequence of bytes does not start with a number. -/
inductive Fault where
  /-- The bytes end before a byte without the high bit. -/
  | truncated
  /-- The tenth byte still has the high bit set. -/
  | tooLong
  /-- The tenth byte holds more than the one bit that is left. -/
  | overflow
  deriving DecidableEq

/-- The wording of a fault. -/
def Fault.message : Fault → String
  | .truncated => "truncated varint"
  | .tooLong => "varint longer than 10 bytes"
  | .overflow => "varint overflows u64"

/-- Continue a number of which `position` groups, worth `value`, have been read. -/
def decodeFrom (position value : Nat) : Bytes → Except Fault (UInt64 × Bytes)
  | [] => .error (if position = maxLength then .tooLong else .truncated)
  | b :: rest =>
      if position = maxLength then .error .tooLong
      else
        let group := b.toNat % 128
        if position = maxLength - 1 ∧ 1 < group then .error .overflow
        else
          let value := value + group <<< (7 * position)
          if b.toNat < 128 then .ok (UInt64.ofNat value, rest)
          else decodeFrom (position + 1) value rest

/-- The number at the front of `bs`, and the bytes behind it. -/
def decode (bs : Bytes) : Except Fault (UInt64 × Bytes) := decodeFrom 0 0 bs

/-- What follows a number is shorter than what started with it. -/
theorem length_lt_of_decodeFrom {position value : Nat} {bs rest : Bytes} {v : UInt64}
    (h : decodeFrom position value bs = .ok (v, rest)) : rest.length < bs.length := by
  induction bs generalizing position value with
  | nil => simp [decodeFrom] at h
  | cons b bs ih =>
      simp only [decodeFrom] at h
      split at h
      · simp at h
      · split at h
        · simp at h
        · split at h
          · simp only [Except.ok.injEq, Prod.mk.injEq] at h
            simp [h.2]
          · exact Nat.lt_succ_of_lt (ih h)

theorem length_lt_of_decode {bs rest : Bytes} {v : UInt64} (h : decode bs = .ok (v, rest)) :
    rest.length < bs.length :=
  length_lt_of_decodeFrom h

end Varint

end TraceLog
