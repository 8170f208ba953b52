/-
**What the threads of a pipeline share.**

Producers hand commands to the builder through one channel, and the builder hands containers to the
workers through another.  Beside the channels, the threads share the budget of bytes in flight, the
progress of the file, the first fatal error, and a flag that says that the pipeline is to stop.

Stopping is not one step.  The thread that stops the pipeline raises the flag, empties and closes
the two channels and closes the budget, one after the other, while all others go on; a fatal error
is recorded before that.

The steps of the pipeline have no counterpart of the notifications: whoever waits for a channel, for
the budget or for progress can go on as soon as its guard permits.  For a channel, the sleepers and
their notifications are part of `Channel.Monitor`; for the budget and for progress, the modules that
define them say why no sleeper misses a change.  Beside progress, a caller that waits for a flush
looks at the flag.  This is raised without the lock on progress, but as its last act the thread that
stops the pipeline takes that lock and wakes everyone who sleeps there.  By then a caller that had
looked before the flag was raised is asleep, and is woken; any other one finds the flag raised.  All
this changes nothing that is shared, so there is no `HaltStep` for it; and as the thread that stops
the pipeline waits for nobody on its way, it always comes to it.

Main definitions:

* `Shared`, `Shared.make` — everything that is shared; the state of a new pipeline;
* `HaltStep`, `HaltStep.apply` — one step of stopping a pipeline;
* `Shared.halt`, `Shared.fail` — all these steps at once, without and with an error;
* `Shared.failureOrClosed` — what an operation answers that found the pipeline stopped.
-/

import TraceLog.Builder
import TraceLog.Channel
import TraceLog.Pipeline.Budget
import TraceLog.Pipeline.Progress

set_option relaxedAutoImplicit false
set_option autoImplicit false

namespace TraceLog

/-- What the threads of a pipeline share. -/
structure Shared where
  /-- From the producers to the builder. -/
  commands : Channel Command
  /-- From the builder to the workers. -/
  work : Channel Container
  budget : Budget
  progress : Progress
  /-- Whether the pipeline is to stop. -/
  stopped : Bool
  /-- The first fatal error. -/
  failure : Option Error
  /-- The answers to flush commands that nobody has taken yet, the latest one first. -/
  replies : List (Nat × Nat)

namespace Shared

/-- The state of a new pipeline whose file holds `flushed` containers. -/
def make (queueSize workSize budget flushed : Nat) : Except Error Shared :=
  match Channel.make queueSize, Channel.make workSize with
  | .ok commands, .ok work =>
      .ok ⟨commands, work, .start budget, .start flushed, false, none, []⟩
  | .error error, _ => .error error
  | _, .error error => .error error

/-- The first fatal error, or `closed` if the pipeline stopped without one. -/
def failureOrClosed (s : Shared) : Error := s.failure.getD .closed

/-- Answer a flush command. -/
def reply (s : Shared) (ticket sealedCount : Nat) : Shared :=
  { s with replies := (ticket, sealedCount) :: s.replies }

/-- The answer to a flush command, and what is shared once it is taken. -/
def takeReply? (s : Shared) (ticket : Nat) : Option (Nat × Shared) :=
  (s.replies.lookup ticket).map fun sealedCount =>
    (sealedCount, { s with replies := s.replies.filter (·.1 ≠ ticket) })

/-- Whether waiting for containers below `target` to reach the file is over, and how it ended. -/
def awaitFlushed? (s : Shared) (target : Nat) : Option (Except Error Unit) :=
  if target ≤ s.progress.flushed then some (.ok ())
  else if s.stopped then some (.error s.failureOrClosed)
  else none

end Shared

/-! ### Stopping -/

/-- One step of stopping a pipeline. -/
inductive HaltStep where
  /-- Keep the error, unless there is one already. -/
  | record (error : Error)
  | raiseFlag
  | discardCommands
  | discardWork
  | closeBudget
  deriving DecidableEq

/-- What a step of stopping does. -/
def HaltStep.apply (s : Shared) : HaltStep → Shared
  | .record error => { s with failure := some (s.failure.getD error) }
  | .raiseFlag => { s with stopped := true }
  | .discardCommands => { s with commands := s.commands.discard }
  | .discardWork => { s with work := s.work.discard }
  | .closeBudget => { s with budget := s.budget.close }

/-- The steps of stopping a pipeline. -/
def haltSteps : List HaltStep := [.raiseFlag, .discardCommands, .discardWork, .closeBudget]

/-- The steps of stopping a pipeline because of an error. -/
def failSteps (error : Error) : List HaltStep := .record error :: haltSteps

namespace Shared

/-- Stop the pipeline. -/
def halt (s : Shared) : Shared := haltSteps.foldl HaltStep.apply s

/-- Stop the pipeline because of an error. -/
def fail (s : Shared) (error : Error) : Shared := (failSteps error).foldl HaltStep.apply s

/-- The first error stays. -/
theorem failure_fail (s : Shared) (error : Error) :
    (s.fail error).failure = some (s.failure.getD error) := rfl

end Shared

end TraceLog
