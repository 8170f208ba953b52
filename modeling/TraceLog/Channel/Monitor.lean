/-
**A channel with the callers that use it.**

The queue of a channel is guarded by a lock, and there are two conditions to wait for: that the
queue is not empty, and that it is not full.  A call is a sequence of critical sections.  When it
has to wait, it joins the callers that sleep on one of the conditions and gives up the lock; when it
has changed the queue, it first gives up the lock and then notifies sleepers, one of them or all.
Between a notification and the next critical section of the sleeper, other callers may slip in, and
a sleeper may also wake without any notification.  A step of the monitor is one critical section,
one notification or one such awakening, and any caller may take the next step.

Main definitions:

* `Channel.Request`, `Channel.Answer` — what a caller asks for and what it gets;
* `Channel.Phase` — where a caller stands;
* `Channel.Monitor`, `Channel.Monitor.step?` — a channel with its callers, and one step of one of
  them;
* `Channel.Monitor.settle` — the steps that the callers take when each of them proceeds as soon as
  it can.
-/

import TraceLog.Channel

set_option relaxedAutoImplicit false
set_option autoImplicit false

namespace TraceLog

namespace Channel

/-! ### Calls -/

/-- What a caller may wait for. -/
inductive Condition where
  | notEmpty
  | notFull
  deriving DecidableEq

/-- A notification: to one of the callers that sleep on a condition, or to all of them. -/
inductive Signal where
  | one (condition : Condition)
  | all (condition : Condition)
  deriving DecidableEq

/-- What a caller asks for. -/
inductive Request (α : Type) where
  | push (a : α)
  | tryPush (a : α)
  | pop
  | close
  | discard

/-- What a caller gets. -/
inductive Answer (α : Type) where
  | pushed
  /-- The channel was closed before the item could be pushed. -/
  | refused
  /-- An item, or nothing because the channel is closed and empty. -/
  | popped (a : Option α)
  /-- There is no room, and the item is handed back. -/
  | full (a : α)
  /-- The channel is closed, and the item is handed back. -/
  | shut (a : α)
  | closed
  | discarded (count : Nat)

/-- Where a caller stands. -/
inductive Phase (α : Type) where
  /-- About to take the lock, after a notification or not. -/
  | ready (request : Request α) (notified : Bool)
  /-- Asleep until a condition is signalled. -/
  | asleep (request : Request α) (on : Condition)
  /-- The lock is given up, and notifications are still to be made. -/
  | signalling (signals : List Signal) (answer : Answer α)
  | returned (answer : Answer α)

variable {α : Type}

/-- The critical section of a request: where the caller stands behind it, and the channel. -/
def enter (c : Channel α) : Request α → Phase α × Channel α
  | .push a =>
      match c.offer a with
      | .accepted c => (.signalling [.one .notEmpty] .pushed, c)
      | .full => (.asleep (.push a) .notFull, c)
      | .closed => (.returned .refused, c)
  | .tryPush a =>
      match c.offer a with
      | .accepted c => (.signalling [.one .notEmpty] .pushed, c)
      | .full => (.returned (.full a), c)
      | .closed => (.returned (.shut a), c)
  | .pop =>
      match c.receive with
      | .item a c => (.signalling [.one .notFull] (.popped (some a)), c)
      | .empty => (.asleep .pop .notEmpty, c)
      | .drained => (.returned (.popped none), c)
  | .close => (.signalling [.all .notEmpty, .all .notFull] .closed, c.close)
  | .discard =>
      (.signalling [.all .notEmpty, .all .notFull] (.discarded c.items.length), c.discard)

namespace Phase

/-- Whether a caller sleeps on a condition. -/
def sleepsOn (condition : Condition) : Phase α → Bool
  | .asleep _ on => on == condition
  | _ => false

/-- A sleeper that was notified is about to take the lock; all others are not affected. -/
def notify (condition : Condition) : Phase α → Phase α
  | .asleep request on => if on = condition then .ready request true else .asleep request on
  | phase => phase

/-- Behind the last notification the call is over. -/
def afterSignals (signals : List Signal) (answer : Answer α) : Phase α :=
  if signals.isEmpty then .returned answer else .signalling signals answer

end Phase

/-! ### The monitor -/

/-- A channel with its callers, the one that came first in front. -/
structure Monitor (α : Type) where
  channel : Channel α
  callers : List (Nat × Phase α)

/-- What a caller does next. -/
inductive Move where
  /-- Take the lock and run the critical section. -/
  | enter
  /-- Make the next notification.  If it is meant for one sleeper, `target` is the one. -/
  | signal (target : Option Nat)
  /-- Wake up without a notification. -/
  | stir
  deriving DecidableEq

namespace Monitor

/-- A channel without callers. -/
def ofChannel (channel : Channel α) : Monitor α := ⟨channel, []⟩

/-- Where a caller stands. -/
def phase? (m : Monitor α) (id : Nat) : Option (Phase α) := m.callers.lookup id

/-- The monitor with a caller in another phase. -/
def setPhase (m : Monitor α) (id : Nat) (phase : Phase α) : Monitor α :=
  { m with callers := m.callers.map fun c => if c.1 = id then (id, phase) else c }

/-- Someone calls. -/
def arrive (m : Monitor α) (id : Nat) (request : Request α) : Monitor α :=
  { m with callers := m.callers ++ [(id, .ready request false)] }

/-- The caller of a call that is over goes away. -/
def leave (m : Monitor α) (id : Nat) : Monitor α :=
  { m with callers := m.callers.filter (·.1 ≠ id) }

/-- Everyone who sleeps on a condition is notified. -/
def notifyAll (m : Monitor α) (condition : Condition) : Monitor α :=
  { m with callers := m.callers.map fun c => (c.1, c.2.notify condition) }

/-- Whether a caller sleeps on a condition. -/
def sleeps (m : Monitor α) (condition : Condition) (id : Nat) : Bool :=
  (m.phase? id).any (·.sleepsOn condition)

/-- One of those who sleep on a condition is notified; if nobody sleeps, the notification is
lost. -/
def notifyOne? (m : Monitor α) (condition : Condition) : Option Nat → Option (Monitor α)
  | some target =>
      if m.sleeps condition target then
        (m.phase? target).map fun phase => m.setPhase target (phase.notify condition)
      else none
  | none => if m.callers.any (·.2.sleepsOn condition) then none else some m

/-- One step of a caller, or `none` if it cannot make this move. -/
def step? (m : Monitor α) (id : Nat) (move : Move) : Option (Monitor α) :=
  match move, m.phase? id with
  | .enter, some (.ready request _) =>
      let (phase, channel) := m.channel.enter request
      some ({ m with channel }.setPhase id phase)
  | .signal target, some (.signalling (.one condition :: signals) answer) =>
      (m.notifyOne? condition target).map (·.setPhase id (.afterSignals signals answer))
  | .signal none, some (.signalling (.all condition :: signals) answer) =>
      some ((m.notifyAll condition).setPhase id (.afterSignals signals answer))
  | .stir, some (.asleep request _) => some (m.setPhase id (.ready request false))
  | _, _ => none

/-- The answer to a call, once it is over. -/
def answer? (m : Monitor α) (id : Nat) : Option (Answer α) :=
  match m.phase? id with
  | some (.returned answer) => some answer
  | _ => none

/-- The states that callers can bring about.  Calls that are over stay in sight. -/
inductive Reachable (channel : Channel α) : Monitor α → Prop where
  | start : Reachable channel (.ofChannel channel)
  | arrive {m : Monitor α} {id : Nat} (request : Request α) (reached : Reachable channel m)
      (fresh : m.phase? id = none) : Reachable channel (m.arrive id request)
  | step {m m' : Monitor α} {id : Nat} {move : Move} (reached : Reachable channel m)
      (stepped : m.step? id move = some m') : Reachable channel m'

/-! ### Running a monitor -/

/-- The move that a caller in a phase can make, except to wake up on its own: if it notifies one
sleeper, it is the one that came first. -/
def moveOf? (m : Monitor α) : Phase α → Option Move
  | .ready _ _ => some .enter
  | .signalling (.one condition :: _) _ =>
      some (.signal ((m.callers.find? (·.2.sleepsOn condition)).map (·.1)))
  | .signalling _ _ => some (.signal none)
  | .asleep _ _ | .returned _ => none

/-- The step of the first caller that can make one. -/
def advance? (m : Monitor α) : Option (Monitor α) :=
  m.callers.findSome? fun c => (m.moveOf? c.2).bind (m.step? c.1)

/-- At most `fuel` steps. -/
def run : (fuel : Nat) → Monitor α → Monitor α
  | 0, m => m
  | fuel + 1, m =>
      match m.advance? with
      | some m => run fuel m
      | none => m

/-- More steps than the callers can take before each of them sleeps or is done. -/
def patience (m : Monitor α) : Nat := 4 * (m.callers.length + 1) * (m.callers.length + 1)

/-- Let the callers proceed until each of them sleeps or is done. -/
def settle (m : Monitor α) : Monitor α := m.run m.patience

/-- Make a call and let the callers proceed. -/
def call (m : Monitor α) (id : Nat) (request : Request α) : Monitor α :=
  (m.arrive id request).settle

end Monitor

end Channel

end TraceLog
