/-
**How far the file is flushed.**

The writer publishes how many containers have reached the file, and callers that wait for a flush
leave word how many they wait for.

Such a caller sleeps until it is notified.  Here its waiting is a guard that is looked at anew in
each step, as it is for the budget, and no notification has a counterpart.  The number that was
published is changed under the lock that a caller keeps from its look until it sleeps, and
afterwards all sleepers are woken; to publish nothing new changes nothing, and wakes nobody.  The
writer itself never sleeps here: it looks whether a flush is wanted when it has written something,
and flushes without being asked before it waits for more, so that to leave word wakes nobody.

Main definitions:

* `Progress`, `Progress.start` — the two numbers; both the same at first;
* `Progress.request`, `Progress.wantsFlush` — leave word; whether a flush now would satisfy someone;
* `Progress.publish` — so many containers have reached the file.
-/

set_option relaxedAutoImplicit false
set_option autoImplicit false

namespace TraceLog

/-- How far the file is flushed and how far someone wants it to be. -/
structure Progress where
  /-- The containers below this number have reached the file. -/
  flushed : Nat
  /-- The highest number that someone waits for. -/
  requested : Nat
  deriving DecidableEq

namespace Progress

/-- Nobody waits. -/
def start (flushed : Nat) : Progress := ⟨flushed, flushed⟩

/-- Leave word that one waits for the containers below `target`. -/
def request (p : Progress) (target : Nat) : Progress :=
  { p with requested := max p.requested target }

/-- Whether someone waits who would be satisfied by a flush of `written` containers. -/
def wantsFlush (p : Progress) (written : Nat) : Bool :=
  p.flushed < p.requested && p.requested ≤ written

/-- The containers below a number have reached the file. -/
def publish (p : Progress) (flushed : Nat) : Progress :=
  { p with flushed := max p.flushed flushed }

/-- What was published is never taken back. -/
theorem flushed_le_publish (p : Progress) (flushed : Nat) :
    p.flushed ≤ (p.publish flushed).flushed := Nat.le_max_left ..

end Progress

end TraceLog
