/-
**Writing records in the order of their numbers.**

Workers finish containers in any order.  The resequencer appends a record to the file only when all
the records before it have been appended; a record that arrives early is parked until then.  When
everything has arrived, a footer with the totals finishes the file.

Main definitions:

* `Resequencer` — the file behind its buffer, the number that comes next, and the parked records;
* `Resequencer.accept` — a record arrives;
* `Resequencer.flush` — pass on to the file what was written;
* `Resequencer.finish`, `Resequencer.finishTruncated` — write the footer.
-/

import TraceLog.Record
import TraceLog.Sink

set_option relaxedAutoImplicit false
set_option autoImplicit false

namespace TraceLog

/-- The file behind its buffer, with the records that arrived too early. -/
structure Resequencer where
  out : BufferedSink
  /-- The number that is to be written next. -/
  next : Nat
  /-- The records that arrived early, the latest one first. -/
  parked : List Record
  /-- The totals over the records written. -/
  totals : Totals
  /-- Whether something was written since the last successful flush. -/
  dirty : Bool

namespace Resequencer

/-- Continue a file that holds the records with the given totals. -/
def resume (sink : Sink) (totals : Totals) : Resequencer :=
  ⟨.ofSink sink, totals.containers.toNat, [], totals, false⟩

/-- Start a file that holds no record. -/
def start (sink : Sink) : Resequencer := resume sink .zero

/-! ### Arrivals -/

/-- Write a record, header and data one after the other.  The answer is the number of framed bytes
of the container. -/
def writeRecord (w : Resequencer) (r : Record) : Except Error Nat × Resequencer :=
  match w.out.write r.header.encode with
  | (.error fault, out) => (.error (.io fault), { w with out })
  | (.ok (), out) =>
      match out.write r.data with
      | (.error fault, out) => (.error (.io fault), { w with out })
      | (.ok (), out) =>
          (.ok r.header.rawSize.toNat,
            { w with out, totals := w.totals.add r.header, next := w.next + 1, dirty := true })

/-- Whether a record carries the number that comes next. -/
def isNext (w : Resequencer) (r : Record) : Bool := r.sequence.toNat == w.next

/-- The parked record that comes next, and the resequencer without it. -/
def unpark? (w : Resequencer) : Option (Record × Resequencer) :=
  (w.parked.find? w.isNext).map fun r => (r, { w with parked := w.parked.eraseP w.isNext })

/-- Write parked records as long as the next one is there, at most `fuel` of them; `written` framed
bytes were written before. -/
def drain : (fuel written : Nat) → Resequencer → Except Error Nat × Resequencer
  | 0, written, w => (.ok written, w)
  | fuel + 1, written, w =>
      match w.unpark? with
      | none => (.ok written, w)
      | some (r, w) =>
          match w.writeRecord r with
          | (.error error, w) => (.error error, w)
          | (.ok size, w) => drain fuel (written + size) w

/-- A record arrives.  If it comes next, it is written together with the parked records that follow
it without a gap; otherwise it is parked.  The answer is the number of framed bytes of the
containers written. -/
def accept (w : Resequencer) (r : Record) : Except Error Nat × Resequencer :=
  if r.sequence.toNat < w.next then (.error (.internal (.late r.sequence w.next)), w)
  else if w.isNext r then
    match w.writeRecord r with
    | (.error error, w) => (.error error, w)
    | (.ok size, w) => drain w.parked.length size w
  else if w.parked.any (·.sequence = r.sequence) then
    (.error (.internal (.repeated r.sequence)), w)
  else (.ok 0, { w with parked := r :: w.parked })

/-! ### Flushing and finishing -/

/-- Pass on to the file what was written since the last flush. -/
def flush (w : Resequencer) : Except Error Unit × Resequencer :=
  if w.dirty then
    match w.out.flush with
    | (.error fault, out) => (.error (.io fault), { w with out })
    | (.ok (), out) => (.ok (), { w with out, dirty := false })
  else (.ok (), w)

/-- The file after the writer is given up without a footer. -/
def abandon (w : Resequencer) : Sink := w.out.abandon

/-- Write a footer and close the file. -/
def writeFooter (w : Resequencer) (truncated : Bool) : Except Error Totals × Sink :=
  match w.out.write (Footer.ofTotals w.totals truncated).encode with
  | (.error fault, out) => (.error (.io fault), out.abandon)
  | (.ok (), out) =>
      match out.flush with
      | (.error fault, out) => (.error (.io fault), out.abandon)
      | (.ok (), out) => (.ok w.totals, out.sink)

/-- Finish a file in which all the containers below `sealedCount` have been written and no other
arrived. -/
def finish (w : Resequencer) (sealedCount : Nat) : Except Error Totals × Sink :=
  if w.parked.isEmpty && w.next == sealedCount then w.writeFooter false
  else (.error (.drainIncomplete w.next sealedCount w.parked.length), w.abandon)

/-- Finish a file from which work was discarded; parked records are dropped. -/
def finishTruncated (w : Resequencer) : Except Error Totals × Sink := w.writeFooter true

end Resequencer

end TraceLog
