/-
**Bounded queues between threads.**

A channel is a first-in first-out queue of limited capacity that can be closed.  This module says
what the single operations do to the queue.  An operation that has to wait says so in its answer;
who waits, and who is woken, is the subject of `TraceLog/Channel/Monitor.lean`.

Main definitions:

* `Channel`, `Channel.make` — a queue; a new one of some capacity;
* `Channel.offer`, `Channel.receive` — add an item at the end; remove the first one;
* `Channel.close`, `Channel.discard` — refuse further items; drop those that wait as well.

Main results:

* `Channel.items_of_offer`, `Channel.items_of_receive` — what the two operations do to the items;
* `Channel.length_le_of_offer` — the capacity is respected;
* `Channel.open_of_offer`, `Channel.full_of_offer`, `Channel.closed_of_offer` and
  `Channel.empty_of_receive`, `Channel.drained_of_receive` — when the two operations come to what.
-/

import TraceLog.Error

set_option relaxedAutoImplicit false
set_option autoImplicit false

namespace TraceLog

/-- A queue of limited capacity that can be closed. -/
structure Channel (α : Type) where
  capacity : Nat
  /-- What waits in the queue, the oldest item first. -/
  items : List α
  closed : Bool

namespace Channel

variable {α : Type}

/-- A new channel.  It has to have room for at least one item. -/
def make (capacity : Nat) : Except Error (Channel α) :=
  if capacity = 0 then .error (.config .zeroCapacity) else .ok ⟨capacity, [], false⟩

/-- What becomes of an item that is offered. -/
inductive Offer (α : Type) where
  | accepted (channel : Channel α)
  /-- There is no room now. -/
  | full
  /-- There will never be room. -/
  | closed

/-- Add an item at the end. -/
def offer (c : Channel α) (a : α) : Offer α :=
  if c.closed then .closed
  else if c.items.length < c.capacity then .accepted { c with items := c.items ++ [a] }
  else .full

/-- What there is to receive. -/
inductive Receipt (α : Type) where
  | item (a : α) (channel : Channel α)
  /-- There is nothing now. -/
  | empty
  /-- There will never be anything. -/
  | drained

/-- Remove the first item.  What waits in a closed channel can still be received. -/
def receive (c : Channel α) : Receipt α :=
  match c.items with
  | a :: items => .item a { c with items }
  | [] => if c.closed then .drained else .empty

/-- Refuse further items. -/
def close (c : Channel α) : Channel α := { c with closed := true }

/-- Refuse further items and drop those that wait. -/
def discard (c : Channel α) : Channel α := { c with closed := true, items := [] }

theorem items_of_offer {c c' : Channel α} {a : α} (h : c.offer a = .accepted c') :
    c'.items = c.items ++ [a] ∧ c'.capacity = c.capacity ∧ c'.closed = c.closed := by
  unfold offer at h
  split at h
  · simp at h
  · split at h
    · simp only [Offer.accepted.injEq] at h
      subst h
      exact ⟨rfl, rfl, rfl⟩
    · simp at h

/-- An item that is accepted keeps the queue within its capacity. -/
theorem length_le_of_offer {c c' : Channel α} {a : α} (h : c.offer a = .accepted c') :
    c'.items.length ≤ c'.capacity := by
  unfold offer at h
  split at h
  · simp at h
  · split at h
    · simp only [Offer.accepted.injEq] at h
      subst h
      simp only [List.length_append, List.length_singleton]
      omega
    · simp at h

theorem items_of_receive {c c' : Channel α} {a : α} (h : c.receive = .item a c') :
    c.items = a :: c'.items ∧ c'.capacity = c.capacity ∧ c'.closed = c.closed := by
  unfold receive at h
  split at h
  · rename_i hi
    simp only [Receipt.item.injEq] at h
    obtain ⟨rfl, rfl⟩ := h
    exact ⟨hi, rfl, rfl⟩
  · split at h <;> simp at h

theorem open_of_offer {c c' : Channel α} {a : α} (h : c.offer a = .accepted c') :
    c.closed = false := by
  unfold offer at h
  split at h
  · cases h
  · rename_i hopen
    simpa using hopen

theorem full_of_offer {c : Channel α} {a : α} (h : c.offer a = .full) :
    c.closed = false ∧ c.capacity ≤ c.items.length := by
  unfold offer at h
  split at h
  · cases h
  · rename_i hopen
    split at h
    · cases h
    · rename_i hfull
      exact ⟨by simpa using hopen, Nat.le_of_not_lt hfull⟩

theorem closed_of_offer {c : Channel α} {a : α} (h : c.offer a = .closed) :
    c.closed = true := by
  unfold offer at h
  split at h
  · rename_i hclosed
    exact hclosed
  · split at h <;> cases h

theorem empty_of_receive {c : Channel α} (h : c.receive = .empty) :
    c.closed = false ∧ c.items = [] := by
  unfold receive at h
  split at h
  · cases h
  · rename_i hitems
    split at h
    · cases h
    · rename_i hopen
      exact ⟨by simpa using hopen, hitems⟩

theorem drained_of_receive {c : Channel α} (h : c.receive = .drained) :
    c.closed = true ∧ c.items = [] := by
  unfold receive at h
  split at h
  · cases h
  · rename_i hitems
    split at h
    · rename_i hclosed
      exact ⟨hclosed, hitems⟩
    · cases h

end Channel

end TraceLog
