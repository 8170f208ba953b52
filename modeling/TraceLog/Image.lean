/-
**The bytes of a file, written in one go.**

What a file holds does not depend on how its pipeline is scheduled.  This module says what it holds,
by the plainest way to produce it: one builder, each container turned into a record at once, the
records one after the other, and a footer with the totals.

Main definitions:

* `Image.records` — the records of some containers, up to the first that has none;
* `Image.unfinished`, `Image.finished` — the bytes of some records, without and with a footer;
* `Image.ofCommands` — the bytes of the file that some commands make.
-/

import TraceLog.Builder
import TraceLog.Record

set_option relaxedAutoImplicit false
set_option autoImplicit false

namespace TraceLog

namespace Image

/-- The records of some containers, up to the first that has none. -/
def records (codec : Codec) : List Container → List Record
  | [] => []
  | c :: cs =>
      match c.complete? codec with
      | some (.done record) => record :: records codec cs
      | _ => []

/-- The totals over some records. -/
def totals (rs : List Record) : Totals := .ofHeaders (rs.map (·.header))

/-- The bytes of some records. -/
def unfinished (rs : List Record) : Bytes := rs.flatMap Record.bytes

/-- The bytes of some records with a footer behind them. -/
def finished (rs : List Record) (truncated : Bool) : Bytes :=
  unfinished rs ++ (Footer.ofTotals (totals rs) truncated).encode

/-- The bytes of the file that some commands make. -/
def ofCommands (codec : Codec) (threshold : UInt32) (commands : List Command) : Bytes :=
  finished (records codec ((Builder.start threshold 0).batches commands)) false

theorem unfinished_append (xs ys : List Record) :
    unfinished (xs ++ ys) = unfinished xs ++ unfinished ys := by
  simp [unfinished]

theorem totals_append (xs ys : List Record) :
    totals (xs ++ ys) = (ys.map (·.header)).foldl Totals.add (totals xs) := by
  simp [totals, Totals.ofHeaders_append]

end Image

end TraceLog
