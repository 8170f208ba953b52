/-
**Errors.**

Every operation that can fail says why with an `Error`: one constructor for each area in which
something can go wrong, and inside it the cause.  The wording is chosen in one place, so that the
causes can be told apart without reading text.

Main definitions:

* `Error` — what went wrong; `ConfigFault`, `StorageFault`, `CodecFault`, `FormatFault` and
  `InternalFault` are the causes of each area;
* `Error.message` — the wording;
* `Error.isFatal` — whether the error ends the whole pipeline.
-/

import TraceLog.Event
import TraceLog.Lz4
import TraceLog.Record.Footer

set_option relaxedAutoImplicit false
set_option autoImplicit false

namespace TraceLog

/-! ### Causes -/

/-- The highest codec id that a record can name. -/
def maxCodecId : Nat := 7

/-- A setting that cannot be used. -/
inductive ConfigFault where
  | zeroQueue
  | zeroContainerSize
  | zeroThreads
  | codecId (id : UInt8)
  | zeroCapacity
  | emptyPool
  | other (text : String)
  deriving DecidableEq

/-- The wording of a fault in the settings. -/
def ConfigFault.message : ConfigFault → String
  | .zeroQueue => "queue_size must be greater than 0"
  | .zeroContainerSize => "log_container_size must be greater than 0"
  | .zeroThreads => "compression_threads must be greater than 0"
  | .codecId id => s!"compressor id {id} exceeds the maximum of {maxCodecId}"
  | .zeroCapacity => "channel capacity must be at least 1"
  | .emptyPool => "compression pool needs at least one thread"
  | .other text => text

/-- A refusal by the place where bytes are kept. -/
inductive StorageFault where
  | notFound
  | isDirectory
  | noDevice
  | noSpace
  | other (text : String)
  deriving DecidableEq

/-- The wording of a refusal. -/
def StorageFault.message : StorageFault → String
  | .notFound => "No such file or directory (os error 2)"
  | .isDirectory => "Is a directory (os error 21)"
  | .noDevice => "No such device (os error 19)"
  | .noSpace => "No space left on device (os error 28)"
  | .other text => text

/-- A container that cannot be brought into its stored form or back. -/
inductive CodecFault where
  | rawTooLarge (sequence size : Nat)
  | storedTooLarge (sequence size : Nat)
  | unregistered (id : UInt8)
  | block (fault : Lz4.Fault)
  | other (text : String)
  deriving DecidableEq

/-- The wording of a fault of a codec. -/
def CodecFault.message : CodecFault → String
  | .rawTooLarge sequence size =>
      s!"container {sequence} holds {size} bytes, more than a record can describe"
  | .storedTooLarge sequence size =>
      s!"container {sequence} compressed to {size} bytes, more than a record can describe"
  | .unregistered id => s!"Algorithm ID {id} is not registered or available"
  | .block fault => fault.message
  | .other text => text

/-- Bytes that are not laid out as a log file. -/
inductive FormatFault where
  | integer (fault : Varint.Fault)
  | frame (fault : Event.Fault)
  | header (fault : Header.Fault)
  | footer (fault : Footer.Fault)
  | badRecord (offset : Nat) (fault : Header.Fault)
  | sequenceOverflow (last : UInt64) (offset : Nat)
  | sequenceJump (last found : UInt64) (offset : Nat)
  | recordTruncated (sequence : UInt64) (offset : Nat)
  | firstSequence (found : UInt64)
  | totalsMismatch (stated found : Totals)
  | payloadSize (sequence : UInt64) (found : Nat) (stated : UInt32)
  | eventCount (sequence : UInt64) (found : Nat) (stated : UInt32)
  | noRoomForFooter (path : String)
  | notFinished (path : String) (fault : Footer.Fault)
  | aborted (path : String)
  | other (text : String)
  deriving DecidableEq

/-- Something that the library rules out has happened. -/
inductive InternalFault where
  | late (sequence : UInt64) (written : Nat)
  | repeated (sequence : UInt64)
  | workerCrashed
  | other (text : String)
  deriving DecidableEq

/-- The wording of an internal fault. -/
def InternalFault.message : InternalFault → String
  | .late sequence written => s!"container {sequence} arrived after {written} were written"
  | .repeated sequence => s!"container {sequence} completed twice"
  | .workerCrashed => "compression worker panicked"
  | .other text => text

/-! ### Errors -/

/-- What went wrong. -/
inductive Error where
  /-- A setting cannot be used. -/
  | config (fault : ConfigFault)
  /-- The file cannot be opened, read or written. -/
  | io (fault : StorageFault)
  /-- A container cannot be compressed or restored. -/
  | compression (fault : CodecFault)
  /-- A typed payload cannot be encoded or decoded. -/
  | serialization (text : String)
  /-- The bytes are not a log file. -/
  | format (fault : FormatFault)
  /-- The file or the channel was closed before. -/
  | closed
  /-- Closing found containers that were sealed and not written. -/
  | drainIncomplete (written sealedCount pending : Nat)
  /-- An invariant of the library is broken. -/
  | internal (fault : InternalFault)
  deriving DecidableEq

/-- The totals as they appear in a message. -/
def Totals.describe (t : Totals) : String :=
  "FileStats \x7b " ++ s!"container_count: {t.containers}, event_count: {t.events}, " ++
    s!"uncompressed_bytes: {t.rawBytes}, first_timestamp: {t.firstTimestamp}, " ++
    s!"last_timestamp: {t.lastTimestamp}" ++ " \x7d"

/-- The words in front of every fault of the layout. -/
def FormatFault.heading : String := "Format Error: "

/-- The wording of a fault of the layout. -/
def FormatFault.message : FormatFault → String
  | .integer fault => fault.message
  | .frame fault => fault.message
  | .header fault => fault.message
  | .footer fault => fault.message
  | .badRecord offset fault => s!"bad record at offset {offset}: " ++ heading ++ fault.message
  | .sequenceOverflow last offset =>
      s!"container sequence overflows after {last} at offset {offset}"
  | .sequenceJump last found offset =>
      s!"container sequence jumps from {last} to {found} at offset {offset}"
  | .recordTruncated sequence offset => s!"record {sequence} at offset {offset} is truncated"
  | .firstSequence found => s!"first container has sequence {found}, expected 0"
  | .totalsMismatch stated found =>
      "footer totals " ++ stated.describe ++ " do not match the records " ++ found.describe
  | .payloadSize sequence found stated =>
      s!"container {sequence} decompressed to {found} bytes, header says {stated}"
  | .eventCount sequence found stated =>
      s!"container {sequence} holds {found} events, header says {stated}"
  | .noRoomForFooter path => s!"{path} is too small to hold a footer"
  | .notFinished path fault => s!"{path} is not a finished log file: " ++ heading ++ fault.message
  | .aborted path => s!"{path} was aborted and cannot be appended to"
  | .other text => text

namespace Error

/-- The wording of an error. -/
def message : Error → String
  | .config fault => "Configuration Error: " ++ fault.message
  | .io fault => "I/O Error: " ++ fault.message
  | .compression fault => "Compression Error: " ++ fault.message
  | .serialization text => "Serialization Error: " ++ text
  | .format fault => FormatFault.heading ++ fault.message
  | .closed => "Log file is closed"
  | .drainIncomplete written sealedCount pending =>
      s!"Drain Incomplete: {written} of {sealedCount} containers written, {pending} pending"
  | .internal fault => "Internal Logic Error: " ++ fault.message

/-- Whether an error ends the whole pipeline. -/
def isFatal : Error → Bool
  | .io _ | .compression _ | .drainIncomplete .. | .internal _ => true
  | .config _ | .serialization _ | .format _ | .closed => false

/-- The wording of the underlying error, where there is one. -/
def source? : Error → Option String
  | .io fault => some fault.message
  | _ => none

end Error

end TraceLog
