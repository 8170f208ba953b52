/-
**Finding repetitions in a single pass.**

The matcher walks over the input once and looks for places where four bytes occur again.  It
remembers positions in a table of 4096 slots, addressed by a hash of the bytes at the position; a
later position overwrites an earlier one.  While nothing is found the walk speeds up: the step grows
by one after every 32 attempts.  A repetition that was found is extended backwards into the bytes
not yet covered and forwards as far as it goes, but the last bytes of the input are always left as
closing literals.

Main definitions:

* `Lz4.slot` — the slot of the bytes at a position;
* `Lz4.findMatch` — the next position whose bytes occurred before;
* `Lz4.blockOf` — the block that the matcher makes of an input.

Main results:

* `Lz4.le_of_findMatch` — the walk never goes back behind what a sequence already covers, so it
  ends.
-/

import TraceLog.Lz4.Block

set_option relaxedAutoImplicit false
set_option autoImplicit false

namespace TraceLog

namespace Lz4

/-! ### The table of positions -/

/-- How many slots the table of positions has. -/
def tableSize : Nat := 4096

/-- The byte at a position. -/
def byteAt (input : Array UInt8) (p : Nat) : UInt8 := input.getD p 0

/-- The four bytes at a position as a word. -/
def wordAt (input : Array UInt8) (p : Nat) : UInt32 :=
  (byteAt input p).toUInt32 ||| (byteAt input (p + 1)).toUInt32 <<< 8 |||
    (byteAt input (p + 2)).toUInt32 <<< 16 ||| (byteAt input (p + 3)).toUInt32 <<< 24

/-- The eight bytes at a position as a word. -/
def longAt (input : Array UInt8) (p : Nat) : UInt64 :=
  (wordAt input p).toUInt64 ||| (wordAt input (p + 4)).toUInt64 <<< 32

/-- The slot of the bytes at a position: of four bytes in a short input, of five in a long one. -/
def slot (input : Array UInt8) (p : Nat) : Nat :=
  if input.size < 65535 then ((wordAt input p * 2654435761) >>> 20).toNat
  else (((longAt input p <<< 24) * 889523592379) >>> 52).toNat

/-- The position that a slot remembers. -/
def lookUp (table : Array Nat) (s : Nat) : Nat := table.getD s 0

/-- The table with position `p` in slot `s`. -/
def remember (table : Array Nat) (s p : Nat) : Array Nat := table.setIfInBounds s p

/-! ### Looking for a repetition -/

/-- The farthest that a repetition may reach back. -/
def maxDistance : Nat := 65535

/-- A position and an earlier one with the same four bytes. -/
structure Match where
  position : Nat
  candidate : Nat

/-- The next position from `position` on, up to `last`, whose four bytes occurred before.  Every
position visited enters the table; after 32 attempts the step grows by one. -/
def findMatch (input : Array UInt8) (last attempts position : Nat) (table : Array Nat) :
    Option Match × Array Nat :=
  if last < position then (none, table)
  else
    let s := slot input position
    let candidate := lookUp table s
    let table := remember table s position
    if position - candidate ≤ maxDistance ∧ wordAt input candidate = wordAt input position then
      (some ⟨position, candidate⟩, table)
    else findMatch input last (attempts + 1) (position + (1 + attempts / 32)) table
termination_by last + 1 - position
decreasing_by omega

/-- What is found lies at or behind the position where the walk started. -/
theorem le_of_findMatch {input : Array UInt8} {last attempts position : Nat}
    {table table' : Array Nat} {m : Match}
    (h : findMatch input last attempts position table = (some m, table')) :
    position ≤ m.position ∧ m.position ≤ last := by
  fun_induction findMatch input last attempts position table with
  | case1 => simp at h
  | case2 =>
      simp only [Prod.mk.injEq, Option.some.injEq] at h
      rw [← h.1]
      exact ⟨Nat.le_refl _, Nat.le_of_not_lt ‹_›⟩
  | case3 _ _ _ _ _ _ _ _ ih =>
      have := ih h
      omega

/-! ### Extending a repetition -/

/-- How many bytes before the two positions agree, `found` of them known already; the later
position does not go below `start`. -/
def matchedBefore (input : Array UInt8) (start : Nat) :
    (position candidate found : Nat) → Nat
  | position, candidate + 1, found =>
      if start < position ∧ byteAt input (position - 1) = byteAt input candidate then
        matchedBefore input start (position - 1) candidate (found + 1)
      else found
  | _, 0, found => found

/-- How many bytes from the two positions on agree, `found` of them known already; the later
position stays below `stop`. -/
def matchedAfter (input : Array UInt8) (stop position candidate found : Nat) : Nat :=
  if position < stop ∧ byteAt input position = byteAt input candidate then
    matchedAfter input stop (position + 1) (candidate + 1) (found + 1)
  else found
termination_by stop - position
decreasing_by omega

/-! ### The block of an input -/

/-- How many bytes at the end of the input are too few to look for a repetition. -/
def matchMargin : Nat := 12

/-- How many bytes at the end of the input no repetition reaches. -/
def closingMargin : Nat := 6

/-- The sequence that a repetition makes of the input from `start` on. -/
def sequenceOf (input : Array UInt8) (start : Nat) (m : Match) : Sequence :=
  let before := matchedBefore input start m.position m.candidate 0
  let position := m.position - before
  let candidate := m.candidate - before
  { literals := (input.extract start position).toList
    distance := m.position - m.candidate
    extra := matchedAfter input (input.size - closingMargin) (position + minMatch)
      (candidate + minMatch) 0 }

/-- The position behind a sequence whose literals begin at `start`. -/
def Sequence.stop (s : Sequence) (start : Nat) : Nat :=
  start + s.literals.length + minMatch + s.extra

theorem Sequence.lt_stop (s : Sequence) (start : Nat) : start < s.stop start := by
  simp only [Sequence.stop, minMatch]
  omega

/-- The block that ends with the input from `start` on as closing literals, behind the sequences in
`found`, the newest of which comes first. -/
def closeBlock (input : Array UInt8) (found : List Sequence) (start : Nat) : Block :=
  ⟨found.reverse, (input.extract start input.size).toList⟩

/-- The block of the input from `start` on, behind the sequences in `found`, the newest of which
comes first.  The walk goes on at `position`. -/
def blockOnto (input : Array UInt8) (found : List Sequence) (start position : Nat)
    (table : Array Nat) : Block :=
  if start < input.size then
    match findMatch input (input.size - matchMargin) 0 position table with
    | (none, _) => closeBlock input found start
    | (some m, table) =>
        let s := sequenceOf input start m
        let stop := s.stop start
        blockOnto input (s :: found) stop stop
          (remember table (slot input (stop - 2)) (stop - 2))
  else closeBlock input found start
termination_by input.size - start
decreasing_by
  have := (sequenceOf input start m).lt_stop start
  omega

/-- The block of an input.  Inputs of 12 bytes and fewer are closing literals throughout. -/
def blockOf (input : Array UInt8) : Block :=
  if input.size ≤ matchMargin then ⟨[], input.toList⟩
  else
    let table := remember (Array.replicate tableSize 0) (slot input 0) 0
    blockOnto input [] 0 1 table

end Lz4

end TraceLog
