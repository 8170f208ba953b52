/-
**The shared state of a pipeline on its own.**

The parts of the shared state can also be used one by one: somebody makes a single call on it, runs
the batcher or runs some workers.  Those who have to wait do so side by side, and whenever something
has changed the one who came first goes on among those who can.

Main definitions:

* `SharedCall`, `SharedAnswer` — a call that may have to wait; its answer;
* `SharedCall.attempt?` — carry out a call, unless it has to wait;
* `Visitor`, `Farewell` — someone at work on the shared state; what came of it;
* `Lobby`, `Lobby.enter`, `Lobby.settle` — the shared state with its visitors.
-/

import TraceLog.Pipeline.Batcher
import TraceLog.Pipeline.Worker

set_option relaxedAutoImplicit false
set_option autoImplicit false

namespace TraceLog

/-- A call on the shared state that may have to wait. -/
inductive SharedCall where
  | pushCommand (command : Command)
  | popCommand
  | pushWork (c : Container)
  | popWork
  | acquire (bytes : Nat)
  | awaitFlushed (target : Nat)

/-- The answer to such a call. -/
inductive SharedAnswer where
  | done
  | failed (error : Error)
  | command (command : Option Command)
  | container (c : Option Container)
  | admitted (yes : Bool)

/-- Carry out a call, unless it has to wait. -/
def SharedCall.attempt? (s : Shared) : SharedCall → Option (SharedAnswer × Shared)
  | .pushCommand command =>
      match s.commands.offer command with
      | .accepted commands => some (.done, { s with commands })
      | .closed => some (.failed .closed, s)
      | .full => none
  | .popCommand =>
      match s.commands.receive with
      | .item command commands => some (.command (some command), { s with commands })
      | .drained => some (.command none, s)
      | .empty => none
  | .pushWork c =>
      match s.work.offer c with
      | .accepted work => some (.done, { s with work })
      | .closed => some (.failed .closed, s)
      | .full => none
  | .popWork =>
      match s.work.receive with
      | .item c work => some (.container (some c), { s with work })
      | .drained => some (.container none, s)
      | .empty => none
  | .acquire bytes =>
      (s.budget.acquire? bytes).map fun (yes, budget) => (.admitted yes, { s with budget })
  | .awaitFlushed target =>
      (s.awaitFlushed? target).map fun
        | .ok () => (.done, s)
        | .error error => (.failed error, s)

/-! ### Visitors -/

/-- Someone at work on the shared state. -/
inductive Visitor where
  /-- Makes one call. -/
  | caller (call : SharedCall)
  /-- Batches events until they come to an end. -/
  | batcher (t : Batcher)
  /-- Compress containers until they come to an end. -/
  | crew (t : Crew)

/-- What a visitor leaves with. -/
inductive Farewell where
  | answer (answer : SharedAnswer)
  /-- How many containers were sealed. -/
  | sealedCount (count : Nat)
  | reports (completions : List Completion)

namespace Visitor

/-- One step of a visitor, who stays or leaves; `none` while the visitor has to wait. -/
def step? (s : Shared) : Visitor → Option ((Visitor ⊕ Farewell) × Shared)
  | .caller call => (call.attempt? s).map fun (answer, s) => (.inr (.answer answer), s)
  | .batcher t =>
      match t.step? s with
      | some (t, s) => some (.inl (.batcher t), s)
      | none => t.sealedCount?.map fun count => (.inr (.sealedCount count), s)
  | .crew t =>
      match t.step? s with
      | some (t, s) => some (.inl (.crew t), s)
      | none => t.reports?.map fun completions => (.inr (.reports completions), s)

/-- How many steps a visitor can add to those for what is in the channels. -/
def weight : Visitor → Nat
  | .caller _ => 16
  | .batcher _ => 32
  | .crew t => 16 * (t.workers.length + 1)

end Visitor

/-! ### The lobby -/

/-- The shared state with those who are at work on it and those who have left. -/
structure Lobby where
  shared : Shared
  /-- The visitors, with their tickets, the one who came first in front. -/
  visitors : List (Nat × Visitor)
  departed : List (Nat × Farewell)

namespace Lobby

/-- Nobody is there. -/
def ofShared (shared : Shared) : Lobby := ⟨shared, [], []⟩

/-- One step of the visitor who came first among those who can take one. -/
def advance? (l : Lobby) : Option Lobby :=
  l.visitors.findSome? fun (id, visitor) =>
    (visitor.step? l.shared).map fun
      | (.inl visitor, shared) =>
          { l with
            shared
            visitors := l.visitors.map fun v => if v.1 = id then (id, visitor) else v }
      | (.inr farewell, shared) =>
          { shared
            visitors := l.visitors.filter (·.1 ≠ id)
            departed := (id, farewell) :: l.departed }

/-- At most `fuel` steps. -/
def settleFor : (fuel : Nat) → Lobby → Lobby
  | 0, l => l
  | fuel + 1, l =>
      match l.advance? with
      | some l => settleFor fuel l
      | none => l

/-- How many steps can be taken at most: eight for each command and each container, beside those of
the visitors. -/
def patience (l : Lobby) : Nat :=
  8 * (l.shared.commands.items.length + l.shared.work.items.length) +
    l.visitors.foldl (fun weight v => weight + v.2.weight) 0

/-- Let the visitors go on until all that are left have to wait. -/
def settle (l : Lobby) : Lobby := l.settleFor l.patience

/-- Change the shared state, and let the visitors go on. -/
def change (l : Lobby) (f : Shared → Shared) : Lobby := { l with shared := f l.shared }.settle

/-- Somebody comes; everyone goes on. -/
def enter (l : Lobby) (id : Nat) (visitor : Visitor) : Lobby :=
  { l with visitors := l.visitors ++ [(id, visitor)] }.settle

/-- What a visitor left with, once that has happened. -/
def farewell? (l : Lobby) (id : Nat) : Option Farewell := l.departed.lookup id

end Lobby

end TraceLog
