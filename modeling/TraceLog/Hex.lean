/-
**Hexadecimal numerals.**

Main definitions:

* `Hex.digit` — the lower-case digit of a number below 16;
* `Hex.ofNat` — the numeral of a number, filled up with zeros to a given width.
-/

set_option relaxedAutoImplicit false
set_option autoImplicit false

namespace TraceLog

namespace Hex

/-- The lower-case digit of a number below 16. -/
def digit (n : Nat) : Char :=
  if n < 10 then Char.ofNat (48 + n) else Char.ofNat (87 + n)

/-- The lowest `width` digits of `n`, in front of those already there. -/
def digitsOnto : (width n : Nat) → List Char → List Char
  | 0, _, digits => digits
  | width + 1, n, digits => digitsOnto width (n / 16) (digit (n % 16) :: digits)

/-- The `width` lowest digits of `n`. -/
def ofNat (width n : Nat) : String := String.ofList (digitsOnto width n [])

end Hex

end TraceLog
