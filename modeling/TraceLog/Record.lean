/-
**Records.**

A record is what a file keeps of one container: a header and the bytes that a codec made of the
framed events.

Main definitions:

* `Record`, `Record.bytes` — a header with the stored bytes; the bytes of both;
* `Record.make` — the record of a container, if the sizes fit into the header;
* `Completion` — what a worker reports about a container;
* `Container.complete?` — the report about a container, unless the codec crashes.
-/

import TraceLog.Codec
import TraceLog.Container

set_option relaxedAutoImplicit false
set_option autoImplicit false

namespace TraceLog

/-- What a file keeps of one container. -/
structure Record where
  header : Header
  data : Bytes
  deriving DecidableEq

namespace Record

/-- The record of a container.  Both sizes have to fit into the 32 bits that the header has for
them. -/
def make (sequence : Nat) (eventCount : UInt32) (firstTimestamp lastTimestamp : UInt64)
    (rawSize : Nat) (codecId : UInt8) (data : Bytes) : Except Error Record :=
  if UInt32.size ≤ rawSize then .error (.compression (.rawTooLarge sequence rawSize))
  else if UInt32.size ≤ data.length then
    .error (.compression (.storedTooLarge sequence data.length))
  else
    .ok
      { header :=
          { tag := .ofId codecId
            sequence := UInt64.ofNat sequence
            eventCount
            firstTimestamp
            lastTimestamp
            rawSize := UInt32.ofNat rawSize
            storedSize := UInt32.ofNat data.length }
        data }

/-- The number of the container. -/
def sequence (r : Record) : UInt64 := r.header.sequence

/-- The bytes of a record in a file. -/
def bytes (r : Record) : Bytes := r.header.encode ++ r.data

end Record

/-- What a worker reports about a container. -/
inductive Completion where
  /-- The container is ready to be written. -/
  | done (record : Record)
  /-- The container has no record, which ends the file. -/
  | failed (sequence : Nat) (error : Error)

/-- The report about a container, or `none` if the codec crashes. -/
def Container.complete? (c : Container) (codec : Codec) : Option Completion :=
  match codec.compress c.bytes with
  | .crashed => none
  | .failed error => some (.failed c.sequence error)
  | .done answer =>
      match Record.make c.sequence c.eventCount c.firstTimestamp c.lastTimestamp c.length codec.id
          (answer.stored c.bytes) with
      | .ok record => some (.done record)
      | .error error => some (.failed c.sequence error)

end TraceLog
