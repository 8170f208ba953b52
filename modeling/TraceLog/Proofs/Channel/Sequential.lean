/-
**A queue that is called by one caller after the other.**

This is what a channel is meant to be: a queue of limited capacity, first in first out, that refuses
items once it is closed.  Each call is answered at once, and a call that would have to wait cannot
be made.  Nothing is said about locks and sleepers here; that a channel with callers who interleave
and wait for each other can be taken for such a queue is the subject of
`TraceLog/Proofs/Channel/Queueing.lean`.

Main definitions:

* `Channel.Decision` — a call that has taken effect;
* `Channel.Serves`, `Channel.Legal` — what the queue does about one call, and about calls in a row;
* `Channel.inserted`, `Channel.removed`, `Channel.dropped` — the items that calls put in, took out
  and threw away.

Main results:

* `Channel.Legal.accounts` — **what is put in is what is taken out, thrown away or still there**, in
  this order;
* `Channel.Legal.length_le` — the capacity is respected;
* `Channel.Legal.not_pushed`, `Channel.Legal.items_nil_of_discard` — a closed queue takes no items,
  and one that was discarded stays empty.
-/

import TraceLog.Proofs.Channel.Turns

set_option relaxedAutoImplicit false
set_option autoImplicit false

namespace TraceLog

namespace Channel

variable {α : Type}

/-! ### Calls that have taken effect -/

/-- A call that has taken effect. -/
structure Decision (α : Type) where
  caller : Nat
  request : Request α
  answer : Answer α
  /-- The items that a `discard` threw away. -/
  dropped : List α

/-- What a plain queue does about a call. -/
inductive Serves (c : Channel α) : Decision α → Channel α → Prop where
  | insert {caller : Nat} {request : Request α} {a : α} (item : request.item? = some a)
      (opened : c.closed = false) (room : c.items.length < c.capacity) :
      Serves c ⟨caller, request, .pushed, []⟩ { c with items := c.items ++ [a] }
  | remove {caller : Nat} {a : α} {items : List α} (first : c.items = a :: items) :
      Serves c ⟨caller, .pop, .popped (some a), []⟩ { c with items }
  | refuse {caller : Nat} {a : α} (shut : c.closed = true) :
      Serves c ⟨caller, .push a, .refused, []⟩ c
  | full {caller : Nat} {a : α} (opened : c.closed = false)
      (nothing : c.capacity ≤ c.items.length) : Serves c ⟨caller, .tryPush a, .full a, []⟩ c
  | shut {caller : Nat} {a : α} (shut : c.closed = true) :
      Serves c ⟨caller, .tryPush a, .shut a, []⟩ c
  | drained {caller : Nat} (shut : c.closed = true) (nothing : c.items = []) :
      Serves c ⟨caller, .pop, .popped none, []⟩ c
  | close {caller : Nat} : Serves c ⟨caller, .close, .closed, []⟩ { c with closed := true }
  | discard {caller : Nat} :
      Serves c ⟨caller, .discard, .discarded c.items.length, c.items⟩
        { c with closed := true, items := [] }

/-- An order of calls that a plain queue can follow, and the queue behind them. -/
inductive Legal (c : Channel α) : List (Decision α) → Channel α → Prop where
  | nil : Legal c [] c
  | concat {order : List (Decision α)} {d : Decision α} {c₁ c₂ : Channel α}
      (legal : Legal c order c₁) (served : Serves c₁ d c₂) : Legal c (order ++ [d]) c₂

/-- Whether an answer says that an item was not put in. -/
def Answer.refuses : Answer α → Bool
  | .refused | .full _ | .shut _ => true
  | .pushed | .popped _ | .closed | .discarded _ => false

/-- Whether a request closes the channel. -/
def Request.closes : Request α → Bool
  | .close | .discard => true
  | .push _ | .tryPush _ | .pop => false

/-- The item that a call put in. -/
def Decision.inserted? (d : Decision α) : Option α :=
  match d.answer with
  | .pushed => d.request.item?
  | _ => none

/-- The item that a call took out. -/
def Decision.removed? (d : Decision α) : Option α :=
  match d.answer with
  | .popped a => a
  | _ => none

/-- The items that calls put in, in the order of the calls. -/
def inserted (order : List (Decision α)) : List α := order.filterMap Decision.inserted?

/-- The items that calls took out, in the order of the calls. -/
def removed (order : List (Decision α)) : List α := order.filterMap Decision.removed?

/-- The items that calls threw away, in the order of the calls. -/
def dropped (order : List (Decision α)) : List α := order.flatMap Decision.dropped

theorem inserted_concat (order : List (Decision α)) (d : Decision α) :
    inserted (order ++ [d]) = inserted order ++ d.inserted?.toList := by
  rw [inserted, List.filterMap_append, ← inserted]
  cases h : d.inserted? <;> simp [h]

theorem removed_concat (order : List (Decision α)) (d : Decision α) :
    removed (order ++ [d]) = removed order ++ d.removed?.toList := by
  rw [removed, List.filterMap_append, ← removed]
  cases h : d.removed? <;> simp [h]

theorem dropped_concat (order : List (Decision α)) (d : Decision α) :
    dropped (order ++ [d]) = dropped order ++ d.dropped := by
  rw [dropped, List.flatMap_append, ← dropped, List.flatMap_singleton]

/-! ### What one call does -/

theorem Serves.keeps {c c' : Channel α} {d : Decision α} (served : Serves c d c') :
    c'.capacity = c.capacity ∧ (c.closed = true → c'.closed = true) := by
  cases served with
  | close => exact ⟨rfl, fun _ => rfl⟩
  | discard => exact ⟨rfl, fun _ => rfl⟩
  | _ => exact ⟨rfl, id⟩

/-- Nothing is put into a closed queue. -/
theorem Serves.not_pushed {c c' : Channel α} {d : Decision α} (served : Serves c d c')
    (shut : c.closed = true) : d.answer ≠ .pushed := by
  cases served with
  | insert item opened room =>
      rw [opened] at shut
      cases shut
  | _ => nofun

/-- A refused item leaves the queue alone. -/
theorem Serves.unchanged {c c' : Channel α} {d : Decision α} (served : Serves c d c')
    (refuses : d.answer.refuses = true) : c' = c := by
  cases served with
  | refuse => rfl
  | full => rfl
  | shut => rfl
  | _ => cases refuses

/-- What becomes of an item for which a caller is willing to wait. -/
theorem Serves.push_cases {c c' : Channel α} {d : Decision α} (served : Serves c d c') {a : α}
    (pushes : d.request = .push a) :
    d.answer = .pushed ∨ (d.answer = .refused ∧ c.closed = true) := by
  cases served with
  | insert => exact Or.inl rfl
  | refuse shut => exact Or.inr ⟨rfl, shut⟩
  | _ => cases pushes

/-- What becomes of an item for which a caller is not willing to wait. -/
theorem Serves.tryPush_cases {c c' : Channel α} {d : Decision α} (served : Serves c d c') {a : α}
    (tries : d.request = .tryPush a) :
    d.answer = .pushed ∨ (d.answer = .full a ∧ c.capacity ≤ c.items.length) ∨
      (d.answer = .shut a ∧ c.closed = true) := by
  cases served with
  | insert => exact Or.inl rfl
  | full opened nothing =>
      cases tries
      exact Or.inr (Or.inl ⟨rfl, nothing⟩)
  | shut shut =>
      cases tries
      exact Or.inr (Or.inr ⟨rfl, shut⟩)
  | _ => cases tries

/-- There is nothing to be had only if the queue is closed and empty. -/
theorem Serves.nothing_left {c c' : Channel α} {d : Decision α} (served : Serves c d c')
    (answered : d.answer = .popped none) : c.closed = true ∧ c.items = [] := by
  cases served with
  | drained shut nothing => exact ⟨shut, nothing⟩
  | _ => cases answered

theorem Serves.closed_of_closes {c c' : Channel α} {d : Decision α} (served : Serves c d c')
    (closes : d.request.closes = true) : c'.closed = true := by
  cases served with
  | insert item opened room =>
      rename_i request a
      cases request with
      | push a => cases closes
      | tryPush a => cases closes
      | _ => cases item
  | close => rfl
  | discard => rfl
  | _ => cases closes

/-- A closed and empty queue stays empty. -/
theorem Serves.items_nil {c c' : Channel α} {d : Decision α} (served : Serves c d c')
    (shut : c.closed = true) (nothing : c.items = []) : c'.items = [] := by
  cases served with
  | insert item opened room =>
      rw [opened] at shut
      cases shut
  | remove first =>
      rw [nothing] at first
      cases first
  | discard => rfl
  | _ => exact nothing

/-- Behind a `discard` there is nothing in the queue. -/
theorem Serves.items_nil_of_discard {c c' : Channel α} {d : Decision α} (served : Serves c d c')
    (discards : d.request = .discard) : c'.closed = true ∧ c'.items = [] := by
  cases served with
  | insert item opened room =>
      cases discards
      cases item
  | discard => exact ⟨rfl, rfl⟩
  | _ => cases discards

/-! ### What calls do in a row -/

theorem Legal.keeps {c c' : Channel α} {order : List (Decision α)} (legal : Legal c order c') :
    c'.capacity = c.capacity ∧ (c.closed = true → c'.closed = true) := by
  induction legal with
  | nil => exact ⟨rfl, id⟩
  | concat legal served ih =>
      obtain ⟨hcapacity, hclosed⟩ := served.keeps
      exact ⟨hcapacity.trans ih.1, fun shut => hclosed (ih.2 shut)⟩

theorem Legal.closed_of_closes {c c' : Channel α} {order : List (Decision α)}
    (legal : Legal c order c') : ∀ d ∈ order, d.request.closes = true → c'.closed = true := by
  induction legal with
  | nil => nofun
  | concat legal served ih =>
      intro d hd closes
      rcases List.mem_append.1 hd with hbefore | hlast
      · exact served.keeps.2 (ih d hbefore closes)
      · rw [List.mem_singleton.1 hlast] at closes
        exact served.closed_of_closes closes

/-- **Nothing is put into a closed queue ever again.** -/
theorem Legal.not_pushed {c c' : Channel α} {order : List (Decision α)} (legal : Legal c order c')
    (shut : c.closed = true) : ∀ d ∈ order, d.answer ≠ .pushed := by
  induction legal with
  | nil => nofun
  | concat legal served ih =>
      intro d hd
      rcases List.mem_append.1 hd with hbefore | hlast
      · exact ih d hbefore
      · rw [List.mem_singleton.1 hlast]
        exact served.not_pushed (legal.keeps.2 shut)

/-- **Behind a `discard` the queue stays empty.** -/
theorem Legal.items_nil_of_discard {c c' : Channel α} {order : List (Decision α)}
    (legal : Legal c order c') :
    ∀ d ∈ order, d.request = .discard → c'.closed = true ∧ c'.items = [] := by
  induction legal with
  | nil => nofun
  | concat legal served ih =>
      intro d hd discards
      rcases List.mem_append.1 hd with hbefore | hlast
      · obtain ⟨shut, nothing⟩ := ih d hbefore discards
        exact ⟨served.keeps.2 shut, served.items_nil shut nothing⟩
      · rw [List.mem_singleton.1 hlast] at discards
        exact served.items_nil_of_discard discards

theorem Legal.length_le {c c' : Channel α} {order : List (Decision α)} (legal : Legal c order c')
    (fits : c.items.length ≤ c.capacity) : c'.items.length ≤ c'.capacity := by
  induction legal with
  | nil => exact fits
  | concat legal served ih =>
      cases served with
      | insert item opened room =>
          rw [List.length_append, List.length_singleton]
          exact room
      | remove first =>
          rw [first, List.length_cons] at ih
          exact Nat.le_of_succ_le ih
      | discard => exact Nat.zero_le _
      | _ => exact ih

/-- What is thrown away was thrown away by a `discard`. -/
theorem Legal.exists_discard {c c' : Channel α} {order : List (Decision α)}
    (legal : Legal c order c') (lost : dropped order ≠ []) :
    ∃ d ∈ order, d.request = .discard := by
  induction legal with
  | nil => exact absurd rfl lost
  | concat legal served ih =>
      rename_i order d c₁ c₂
      by_cases hbefore : dropped order = []
      · rw [dropped_concat, hbefore, List.nil_append] at lost
        cases served with
        | discard => exact ⟨_, List.mem_append_right _ (List.mem_singleton_self _), rfl⟩
        | _ => exact absurd rfl lost
      · obtain ⟨d', hd', discards⟩ := ih hbefore
        exact ⟨d', List.mem_append_left _ hd', discards⟩

/-- **The account of a plain queue**: what was there and what was put in is what was taken out, what
was thrown away and what is there, in this order. -/
theorem Legal.accounts {c c' : Channel α} {order : List (Decision α)} (legal : Legal c order c') :
    c.items ++ inserted order = removed order ++ dropped order ++ c'.items := by
  induction legal with
  | nil => simp [inserted, removed, dropped]
  | concat legal served ih =>
      rename_i order d c₁ c₂
      -- where an item goes in or out, nothing has been thrown away
      have hnone (hfull : c₁.items ≠ [] ∨ c₁.closed = false) : dropped order = [] := by
        by_contra hlost
        obtain ⟨d', hd', discards⟩ := legal.exists_discard hlost
        obtain ⟨hclosed, hempty⟩ := legal.items_nil_of_discard d' hd' discards
        rcases hfull with h | h
        · exact h hempty
        · rw [hclosed] at h
          cases h
      rw [inserted_concat, removed_concat, dropped_concat, ← List.append_assoc, ih]
      cases served with
      | insert item opened room =>
          simp [Decision.inserted?, Decision.removed?, item]
      | remove first =>
          have hlost := hnone (Or.inl (first ▸ List.cons_ne_nil _ _))
          simp [Decision.inserted?, Decision.removed?, first, hlost]
      | _ => simp [Decision.inserted?, Decision.removed?]

end Channel

end TraceLog
