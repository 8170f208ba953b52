/-
**Calls on an open file.**

Producers write events and flush; someone closes the file or aborts it.  Numbers are given out at
one desk, at which callers queue up: whoever is served holds the desk until the command has found
room in the channel, so that the numbers follow the order of the channel.

Main definitions:

* `Request`, `Answer` — what a caller asks for and what it gets;
* `Ending` — how a file is brought to its end;
* `CallStage` — where a call stands;
* `Desk` — the desk at which numbers are given out.
-/

import TraceLog.Pipeline.Shared

set_option relaxedAutoImplicit false
set_option autoImplicit false

namespace TraceLog

/-- What a caller asks for. -/
inductive Request where
  /-- Take an event. -/
  | write (timestamp : UInt64) (payload : Bytes)
  /-- Bring everything written so far into the file. -/
  | flush
  /-- Bring everything into the file and finish it. -/
  | close
  /-- Finish the file without what has not been written yet. -/
  | abort
  /-- Tell how many events were submitted. -/
  | submitted

/-- What is left of a file at its end. -/
structure Summary where
  totals : Totals
  /-- The number of bytes of the file. -/
  size : Nat
  /-- Whether work was discarded. -/
  truncated : Bool
  deriving DecidableEq

/-- What a caller gets. -/
inductive Answer where
  /-- The number of an event. -/
  | numbered (sequence : Nat)
  | flushed
  | finished (summary : Summary)
  | counted (events : Nat)

/-- How a file is brought to its end. -/
inductive Ending where
  /-- Everything is written first. -/
  | drained
  /-- What is on its way is dropped. -/
  | truncated
  deriving DecidableEq

/-- Where a call stands. -/
inductive CallStage where
  /-- Waits for the desk, to submit or to ask for the count. -/
  | entering (request : Request)
  /-- Holds the desk; is about to look for a failure before an event is numbered. -/
  | checking (timestamp : UInt64) (payload : Bytes)
  /-- Holds the desk; waits for room in the channel. -/
  | submitting (command : Command)
  /-- Holds the desk; the channel is closed, and the caller is about to find out why. -/
  | refused
  /-- Waits for the batcher to tell how many containers were sealed. -/
  | awaitingReply
  /-- Is about to leave word how many containers have to be flushed. -/
  | leavingWord (target : Nat)
  /-- Waits until so many containers are flushed. -/
  | awaitingFlush (target : Nat)
  /-- Nobody will answer, and the caller is about to find out why. -/
  | unanswered
  /-- Is stopping the pipeline. -/
  | halting (steps : List HaltStep)
  /-- Waits for the desk, to close it for good. -/
  | closingDesk (ending : Ending)
  /-- Is about to close the channel of commands. -/
  | closingCommands
  /-- Waits for the end of the batcher. -/
  | joiningBatcher (ending : Ending)
  /-- Waits for the end of the scribe. -/
  | joiningScribe (ending : Ending) (sealedCount : Nat)
  /-- Has the file to itself and is about to finish it. -/
  | concluding (ending : Ending) (sealedCount : Nat)
  | returned (result : Except Error Answer)

/-- Where a call starts. -/
def Request.stage : Request → CallStage
  | .close => .closingDesk .drained
  | .abort => .halting haltSteps
  | request => .entering request

/-- The desk at which numbers are given out. -/
structure Desk where
  /-- The number of the next event. -/
  next : Nat
  closed : Bool
  /-- The call that holds the desk. -/
  holder : Option Nat
  deriving DecidableEq

namespace Desk

/-- The desk of a new file that holds some events already. -/
def start (next : Nat) : Desk := ⟨next, false, none⟩

/-- A call takes hold of the desk. -/
def hold (d : Desk) (id : Nat) : Desk := { d with holder := some id }

/-- The desk is free for the next call. -/
def release (d : Desk) : Desk := { d with holder := none }

/-- A number is given out, and the desk is free for the next call. -/
def advance (d : Desk) : Desk := { d with next := d.next + 1, holder := none }

/-- The desk is closed for good. -/
def shut (d : Desk) : Desk := { d with closed := true }

end Desk

end TraceLog
