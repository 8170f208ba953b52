/-
**The bytes in flight.**

Between sealing and writing a container costs memory.  The builder takes the framed bytes of a
container out of a budget before it hands the container on, and the writer puts them back when the
container is in the file.  When nothing is in flight any container is admitted, so that one larger
than the whole budget still gets through.

A builder that has to wait sleeps until it is notified.  Here waiting is a guard: `acquire?` has no
answer while one has to wait, and the guard is looked at anew in each step, so that neither the
sleep nor the notifications have a counterpart.  This loses nothing.  Whoever waits keeps the lock
from its look at the guard until it sleeps; whoever puts bytes back or closes the budget makes the
change under this lock and then, without waiting for anyone, wakes all that sleep.  So no sleeper
misses a change that lets it go on.  Only to put back nothing wakes nobody, and it changes nothing.
Nothing is added either, as one may wake at any time, and then goes on only where the guard permits.

Main definitions:

* `Budget`, `Budget.start` — the limit with the bytes in flight; nothing in flight;
* `Budget.acquire?` — take bytes out, unless one has to wait;
* `Budget.release`, `Budget.close` — put bytes back; admit nothing more.
-/

set_option relaxedAutoImplicit false
set_option autoImplicit false

namespace TraceLog

/-- A limit with the bytes in flight. -/
structure Budget where
  limit : Nat
  inFlight : Nat
  closed : Bool
  deriving DecidableEq

namespace Budget

/-- Nothing is in flight. -/
def start (limit : Nat) : Budget := ⟨limit, 0, false⟩

/-- Whether bytes have to wait for others to be put back. -/
def mustWait (b : Budget) (bytes : Nat) : Bool :=
  !b.closed && 0 < b.inFlight && b.limit < b.inFlight + bytes

/-- Take bytes out.  The answer says whether they were admitted; it is missing while one has to
wait. -/
def acquire? (b : Budget) (bytes : Nat) : Option (Bool × Budget) :=
  if b.mustWait bytes then none
  else if b.closed then some (false, b)
  else some (true, { b with inFlight := b.inFlight + bytes })

/-- Put bytes back. -/
def release (b : Budget) (bytes : Nat) : Budget := { b with inFlight := b.inFlight - bytes }

/-- Admit nothing more. -/
def close (b : Budget) : Budget := { b with closed := true }

/-- A closed budget admits nothing and lets nobody wait. -/
theorem acquire?_of_closed {b : Budget} (h : b.closed = true) (bytes : Nat) :
    b.acquire? bytes = some (false, b) := by
  simp [acquire?, mustWait, h]

end Budget

end TraceLog
