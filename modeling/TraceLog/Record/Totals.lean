/-
**Totals over the records of a file.**

The writer counts what it has written; the totals end up in the footer, and a reader computes them
again from the headers to see that nothing is missing.

Main definitions:

* `Totals` — the counters;
* `Totals.add`, `Totals.ofHeaders` — one more record; all the records of a file.
-/

import TraceLog.Record.Header

set_option relaxedAutoImplicit false
set_option autoImplicit false

namespace TraceLog

/-- Totals over the records of a file. -/
structure Totals where
  containers : UInt64
  events : UInt64
  /-- The sum of the numbers of framed bytes. -/
  rawBytes : UInt64
  /-- The timestamp of the first event in file order, zero if there is none. -/
  firstTimestamp : UInt64
  /-- The timestamp of the last event in file order, zero if there is none. -/
  lastTimestamp : UInt64
  deriving DecidableEq

namespace Totals

/-- The totals of a file without records. -/
def zero : Totals := ⟨0, 0, 0, 0, 0⟩

instance : Inhabited Totals := ⟨zero⟩

/-- The totals with one more record.  A record without events leaves the timestamps alone. -/
def add (t : Totals) (h : Header) : Totals where
  containers := t.containers + 1
  events := t.events + h.eventCount.toUInt64
  rawBytes := t.rawBytes + h.rawSize.toUInt64
  firstTimestamp :=
    if t.events = 0 ∧ 0 < h.eventCount then h.firstTimestamp else t.firstTimestamp
  lastTimestamp := if 0 < h.eventCount then h.lastTimestamp else t.lastTimestamp

/-- The totals of the records with the given headers. -/
def ofHeaders (hs : List Header) : Totals := hs.foldl add zero

@[simp] theorem ofHeaders_nil : ofHeaders [] = zero := rfl

theorem ofHeaders_append (hs ks : List Header) :
    ofHeaders (hs ++ ks) = ks.foldl add (ofHeaders hs) := by
  simp [ofHeaders]

end Totals

end TraceLog
