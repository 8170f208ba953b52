/-
**Decimals with a fixed number of places.**

Main definitions:

* `Decimal.roundDiv` — a quotient rounded to the nearest whole number, a tie to the even one;
* `Decimal.ofRatio` — a quotient of whole numbers with a fixed number of places;
* `Decimal.ofBits` — the same for the value of a floating-point number, given by its bits.

Main results:

* `Decimal.roundDiv_near` — the rounded quotient is at most one half away from the exact one.
-/

set_option relaxedAutoImplicit false
set_option autoImplicit false

namespace TraceLog

namespace Decimal

/-- The quotient of `n` and `d`, rounded to the nearest whole number, a tie to the even one. -/
def roundDiv (n d : Nat) : Nat :=
  let q := n / d
  let twice := 2 * (n % d)
  if d < twice ∨ (twice = d ∧ q % 2 = 1) then q + 1 else q

/-- The rounded quotient is at most one half away from the exact one. -/
theorem roundDiv_near {n d : Nat} (h : 0 < d) :
    2 * n ≤ (2 * roundDiv n d + 1) * d ∧ (2 * roundDiv n d - 1) * d ≤ 2 * n := by
  have split := Nat.div_add_mod n d
  have small := Nat.mod_lt n h
  unfold roundDiv
  dsimp only
  generalize n / d = q at *
  generalize n % d = r at *
  subst split
  have key : ∀ k, (2 * q + k) * d = 2 * (d * q) + k * d := fun k => by
    rw [Nat.add_mul, Nat.mul_assoc, Nat.mul_comm q d]
  split
  · have up : 2 * (q + 1) + 1 = 2 * q + 3 := by omega
    have down : 2 * (q + 1) - 1 = 2 * q + 1 := by omega
    rw [up, down, key, key]
    omega
  · have down : (2 * q - 1) * d ≤ 2 * (d * q) := by
      have := Nat.mul_le_mul_right d (Nat.sub_le (2 * q) 1)
      have := key 0
      simp only [Nat.add_zero, Nat.zero_mul] at this
      omega
    rw [key]
    omega

/-- The digits of a count of units of the last of `places` places. -/
def ofUnits (places units : Nat) : String :=
  let digits := (toString (units % Nat.pow 10 places)).toList
  toString (units / Nat.pow 10 places) ++ "." ++
    String.ofList (List.replicate (places - digits.length) '0' ++ digits)

/-- The quotient of `n` and `d` with a fixed number of places. -/
def ofRatio (places n d : Nat) : String := ofUnits places (roundDiv (n * Nat.pow 10 places) d)

/-- The value of a floating-point number that is not negative and finite, given by its 64 bits,
with a fixed number of places. -/
def ofBits (places : Nat) (bits : UInt64) : String :=
  let exponent := bits.toNat / Nat.pow 2 52 % Nat.pow 2 11
  let fraction := bits.toNat % Nat.pow 2 52
  let significand := if exponent = 0 then fraction else fraction + Nat.pow 2 52
  let scale := max exponent 1
  ofRatio places (significand * Nat.pow 2 (scale - 1075)) (Nat.pow 2 (1075 - scale))

end Decimal

end TraceLog
