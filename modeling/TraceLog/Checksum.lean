/-
**The cyclic redundancy check of the footer.**

The footer of a log file is protected by the 32-bit CRC in its reflected form: the register starts
with all ones, each byte is added to its low end and shifted out bit by bit, and the final
register is complemented.

Main definitions:

* `Crc32.shift` — one bit leaves the register;
* `Crc32.absorb` — one byte enters the register;
* `crc32` — the check value of a sequence of bytes.

Main results:

* `Crc32.run_append` — the register after two sequences is that of the second, started where the
  first one left off.
-/

import TraceLog.Bytes

set_option relaxedAutoImplicit false
set_option autoImplicit false

namespace TraceLog

namespace Crc32

/-- The generating polynomial, its bits reflected and the leading one dropped. -/
def polynomial : UInt32 := 0xEDB88320

/-- One bit leaves the register; a one takes the polynomial with it. -/
def shift (register : UInt32) : UInt32 :=
  if register &&& 1 = 1 then (register >>> 1) ^^^ polynomial else register >>> 1

/-- One byte enters the register. -/
def absorb (register : UInt32) (b : UInt8) : UInt32 :=
  Nat.repeat shift 8 (register ^^^ b.toUInt32)

/-- The register after a sequence of bytes. -/
def run (register : UInt32) (bs : Bytes) : UInt32 :=
  bs.foldl absorb register

theorem run_append (register : UInt32) (xs ys : Bytes) :
    run register (xs ++ ys) = run (run register xs) ys := by
  simp [run]

end Crc32

/-- The check value of a sequence of bytes. -/
def crc32 (bs : Bytes) : UInt32 := Crc32.run 0xFFFFFFFF bs ^^^ 0xFFFFFFFF

end TraceLog
