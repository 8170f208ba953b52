/-
**Bytes and fixed-width words.**

Everything that a log file holds is a list of bytes.  This module fixes that representation and
the little-endian form of a word: `w` bytes, the least significant one first.

Main definitions:

* `Bytes` — a finite sequence of bytes;
* `Bytes.ofNat`, `Bytes.toNat` — the `w`-byte little-endian form of a number, and the number that
  a sequence of bytes stands for;
* `Bytes.field` — the word at a given offset;
* `Bytes.splitExact?` — the first `n` bytes and the rest, if there are `n` bytes.

Main results:

* `Bytes.ofNat_toNat` — a sequence of bytes is the word of the number that it stands for;
* `Bytes.splitExact?_eq_some_iff` — a split succeeds exactly on a concatenation.
-/

set_option relaxedAutoImplicit false
set_option autoImplicit false

namespace TraceLog

/-- A finite sequence of bytes. -/
abbrev Bytes := List UInt8

namespace Bytes

/-! ### Words -/

/-- The `width` low bytes of `n`, the least significant one first. -/
def ofNat : (width : Nat) → (n : Nat) → Bytes
  | 0, _ => []
  | width + 1, n => UInt8.ofNat n :: ofNat width (n / 256)

/-- The number that a sequence of bytes stands for, the least significant byte first. -/
def toNat : Bytes → Nat
  | [] => 0
  | b :: bs => b.toNat + 256 * toNat bs

@[simp] theorem length_ofNat (width n : Nat) : (ofNat width n).length = width := by
  induction width generalizing n with
  | zero => rfl
  | succ width ih => simp [ofNat, ih]

@[simp] theorem toNat_nil : toNat [] = 0 := rfl

theorem toNat_cons (b : UInt8) (bs : Bytes) : toNat (b :: bs) = b.toNat + 256 * toNat bs := rfl

/-- A sequence of `width` bytes is the word of the number that it stands for. -/
theorem ofNat_toNat (bs : Bytes) : ofNat bs.length (toNat bs) = bs := by
  induction bs with
  | nil => rfl
  | cons b bs ih =>
      have hb : b.toNat < 256 := b.toNat_lt
      have hdiv : (b.toNat + 256 * toNat bs) / 256 = toNat bs := by omega
      have hbyte : UInt8.ofNat (b.toNat + 256 * toNat bs) = b := by
        apply UInt8.toNat_inj.1
        rw [UInt8.toNat_ofNat']
        omega
      rw [List.length_cons, toNat_cons, ofNat, hdiv, ih, hbyte]

/-! ### Fields at fixed offsets -/

/-- The word of `width` bytes that starts at `offset`. -/
def field (bs : Bytes) (offset width : Nat) : Nat :=
  toNat ((bs.drop offset).take width)

/-! ### Splitting -/

/-- The first `n` bytes and the rest, or `none` if there are fewer than `n`. -/
def splitExact? (n : Nat) (bs : Bytes) : Option (Bytes × Bytes) :=
  let front := bs.take n
  if front.length = n then some (front, bs.drop n) else none

/-- A split at `n` succeeds exactly on a concatenation whose first part has `n` bytes. -/
theorem splitExact?_eq_some_iff {n : Nat} {bs front rest : Bytes} :
    splitExact? n bs = some (front, rest) ↔ front.length = n ∧ bs = front ++ rest := by
  unfold splitExact?
  constructor
  · intro h
    simp only [Option.ite_none_right_eq_some, Option.some.injEq, Prod.mk.injEq] at h
    obtain ⟨hlen, rfl, rfl⟩ := h
    exact ⟨hlen, (List.take_append_drop n bs).symm⟩
  · rintro ⟨rfl, rfl⟩
    simp

theorem splitExact?_append (front rest : Bytes) :
    splitExact? front.length (front ++ rest) = some (front, rest) :=
  splitExact?_eq_some_iff.2 ⟨rfl, rfl⟩

end Bytes

end TraceLog
