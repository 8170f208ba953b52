/-
**What the callers of a channel do.**

`TraceLog/Channel/Monitor.lean` says how callers take turns at a channel: one critical section, one
notification or one spontaneous awakening at a time.  This module takes such a turn apart, so that
nothing behind it has to look at how a turn is computed.  It says what a critical section can come
to, where each caller stands behind a turn, and how the number of callers that stand somewhere
changes.  A caller that is awake goes on by its own turns only; a sleeper is woken by others.

Main definitions:

* `Channel.Entry` — what a critical section can come to;
* `Channel.Monitor.Turn` — what a turn of a caller can be;
* `Channel.Monitor.count` — how many callers stand somewhere;
* `Channel.Monitor.Orderly` — no two callers have one number, and each sleeper waits for what its
  request needs.

Main results:

* `Channel.entry_enter`, `Channel.Monitor.turn_of_step?` — **the cases of a turn**;
* `Channel.Monitor.count_setPhase` — the callers are counted one by one;
* `Channel.Monitor.Turn.keeps_awake` — who does not sleep is not moved by others;
* `Channel.Monitor.Reachable.orderly` — the invariant of all callers.
-/

import TraceLog.Channel.Monitor
import TraceLog.Proofs.Entries

set_option relaxedAutoImplicit false
set_option autoImplicit false

namespace TraceLog

namespace Channel

variable {α : Type}

/-! ### Critical sections -/

/-- The item that a request is to insert. -/
def Request.item? : Request α → Option α
  | .push a | .tryPush a => some a
  | .pop | .close | .discard => none

/-- The condition that a request may have to wait for. -/
def Request.awaits? : Request α → Option Condition
  | .push _ => some .notFull
  | .pop => some .notEmpty
  | .tryPush _ | .close | .discard => none

/-- How many callers could go on that wait for a condition: one for each free slot, or one for each
item. -/
def available (c : Channel α) : Condition → Nat
  | .notEmpty => c.items.length
  | .notFull => c.capacity - c.items.length

/-- What a critical section can come to: where the caller stands behind it, and the channel. -/
inductive Entry (c : Channel α) : Request α → Phase α → Channel α → Prop where
  | insert {request : Request α} {a : α} {c' : Channel α} (item : request.item? = some a)
      (offered : c.offer a = .accepted c') :
      Entry c request (.signalling [.one .notEmpty] .pushed) c'
  | remove {a : α} {c' : Channel α} (received : c.receive = .item a c') :
      Entry c .pop (.signalling [.one .notFull] (.popped (some a))) c'
  | wait {request : Request α} {on : Condition} (awaits : request.awaits? = some on)
      (shut : c.closed = false) (nothing : c.available on = 0) :
      Entry c request (.asleep request on) c
  | refuse {a : α} (shut : c.closed = true) : Entry c (.push a) (.returned .refused) c
  | full {a : α} (shut : c.closed = false) (nothing : c.available .notFull = 0) :
      Entry c (.tryPush a) (.returned (.full a)) c
  | shut {a : α} (shut : c.closed = true) : Entry c (.tryPush a) (.returned (.shut a)) c
  | drained (shut : c.closed = true) (nothing : c.items = []) :
      Entry c .pop (.returned (.popped none)) c
  | close : Entry c .close (.signalling [.all .notEmpty, .all .notFull] .closed) c.close
  | discard :
      Entry c .discard
        (.signalling [.all .notEmpty, .all .notFull] (.discarded c.items.length)) c.discard

/-- Every critical section comes to one of the cases. -/
theorem entry_enter (c : Channel α) (request : Request α) :
    Entry c request (c.enter request).1 (c.enter request).2 := by
  cases request with
  | push a =>
      rw [enter]
      cases hoffer : c.offer a with
      | accepted c' => exact .insert rfl hoffer
      | full =>
          obtain ⟨hopen, hfull⟩ := full_of_offer hoffer
          exact .wait rfl hopen (Nat.sub_eq_zero_of_le hfull)
      | closed => exact .refuse (closed_of_offer hoffer)
  | tryPush a =>
      rw [enter]
      cases hoffer : c.offer a with
      | accepted c' => exact .insert rfl hoffer
      | full =>
          obtain ⟨hopen, hfull⟩ := full_of_offer hoffer
          exact .full hopen (Nat.sub_eq_zero_of_le hfull)
      | closed => exact .shut (closed_of_offer hoffer)
  | pop =>
      rw [enter]
      cases hreceive : c.receive with
      | item a c' => exact .remove hreceive
      | empty =>
          obtain ⟨hopen, hempty⟩ := empty_of_receive hreceive
          exact .wait rfl hopen (by simp [available, hempty])
      | drained =>
          obtain ⟨hclosed, hempty⟩ := drained_of_receive hreceive
          exact .drained hclosed hempty
  | close => exact .close
  | discard => exact .discard

/-- The capacity never changes, and a closed channel stays closed. -/
theorem Entry.keeps {c c' : Channel α} {request : Request α} {phase : Phase α}
    (entry : Entry c request phase c') :
    c'.capacity = c.capacity ∧ (c.closed = true → c'.closed = true) := by
  cases entry with
  | insert item offered =>
      obtain ⟨-, hcapacity, hclosed⟩ := items_of_offer offered
      exact ⟨hcapacity, hclosed.trans⟩
  | remove received =>
      obtain ⟨-, hcapacity, hclosed⟩ := items_of_receive received
      exact ⟨hcapacity, hclosed.trans⟩
  | close => exact ⟨rfl, fun _ => rfl⟩
  | discard => exact ⟨rfl, fun _ => rfl⟩
  | _ => exact ⟨rfl, id⟩

/-! ### Where a caller stands -/

namespace Phase

/-- Whether a caller sleeps. -/
def isAsleep : Phase α → Bool
  | .asleep _ _ => true
  | .ready _ _ | .signalling _ _ | .returned _ => false

/-- Behind a notification a caller makes the next one, or has its answer. -/
theorem afterSignals_cases (signals : List Signal) (answer : Answer α) :
    (signals = [] ∧ afterSignals signals answer = .returned answer) ∨
      (signals ≠ [] ∧ afterSignals signals answer = .signalling signals answer) := by
  cases signals with
  | nil => exact Or.inl ⟨rfl, rfl⟩
  | cons signal signals => exact Or.inr ⟨List.cons_ne_nil _ _, rfl⟩

theorem notify_of_awake {phase : Phase α} (awake : phase.isAsleep = false) (on : Condition) :
    phase.notify on = phase := by
  cases phase with
  | asleep request on => cases awake
  | _ => rfl

end Phase

namespace Monitor

variable {m m' : Monitor α} {id id' : Nat} {phase old : Phase α}

/-! ### The phases behind a change -/

theorem phase?_setPhase (present : m.phase? id = some old) (phase : Phase α) (id' : Nat) :
    (m.setPhase id phase).phase? id' = if id' = id then some phase else m.phase? id' := by
  rw [phase?] at present
  rw [phase?, setPhase, Entries.lookup_assign, present]
  rfl

theorem phase?_enter (present : m.phase? id = some old) (channel : Channel α) (phase : Phase α)
    (id' : Nat) :
    ({ m with channel }.setPhase id phase).phase? id' =
      if id' = id then some phase else m.phase? id' :=
  phase?_setPhase (m := { m with channel }) present phase id'

theorem phase?_arrive (fresh : m.phase? id = none) (request : Request α) (id' : Nat) :
    (m.arrive id request).phase? id' =
      if id' = id then some (.ready request false) else m.phase? id' := by
  rw [phase?] at fresh
  rw [phase?, arrive, phase?]
  exact Entries.lookup_enrol fresh _ id'

theorem phase?_notifyAll (m : Monitor α) (on : Condition) (id : Nat) :
    (m.notifyAll on).phase? id = (m.phase? id).map (·.notify on) := by
  rw [phase?, notifyAll, phase?]
  exact Entries.lookup_map m.callers _ id

/-- The phases when a caller notifies a sleeper and goes on. -/
theorem phase?_rouse {target : Nat} {request : Request α} {on : Condition}
    {signals : List Signal} {answer : Answer α}
    (present : m.phase? id = some (.signalling signals answer))
    (sleeper : m.phase? target = some (.asleep request on)) (phase : Phase α) (id' : Nat) :
    ((m.setPhase target (.ready request true)).setPhase id phase).phase? id' =
      if id' = id then some phase
      else if id' = target then some (.ready request true) else m.phase? id' := by
  have hother : id ≠ target := by
    rintro rfl
    rw [sleeper] at present
    cases present
  have hpresent : (m.setPhase target (.ready request true)).phase? id =
      some (.signalling signals answer) := by
    rw [phase?_setPhase sleeper, if_neg hother, present]
  rw [phase?_setPhase hpresent, phase?_setPhase sleeper]

/-- The phases when a caller notifies all sleepers and goes on. -/
theorem phase?_rouseAll (present : m.phase? id = some old) (on : Condition) (phase : Phase α)
    (id' : Nat) :
    ((m.notifyAll on).setPhase id phase).phase? id' =
      if id' = id then some phase else (m.phase? id').map (·.notify on) := by
  have hpresent : (m.notifyAll on).phase? id = some (old.notify on) := by
    rw [phase?_notifyAll, present]
    rfl
  rw [phase?_setPhase hpresent, phase?_notifyAll]

/-! ### Turns -/

/-- What a turn of a caller can be. -/
inductive Turn (m : Monitor α) (id : Nat) : Monitor α → Prop where
  /-- The caller runs its critical section. -/
  | enter {request : Request α} {notified : Bool} {phase : Phase α} {channel : Channel α}
      (present : m.phase? id = some (.ready request notified))
      (entry : Entry m.channel request phase channel) :
      Turn m id ({ m with channel }.setPhase id phase)
  /-- The caller notifies a sleeper. -/
  | rouse {on : Condition} {signals : List Signal} {answer : Answer α} {target : Nat}
      {request : Request α}
      (present : m.phase? id = some (.signalling (.one on :: signals) answer))
      (sleeper : m.phase? target = some (.asleep request on)) :
      Turn m id ((m.setPhase target (.ready request true)).setPhase id
        (.afterSignals signals answer))
  /-- Nobody sleeps, and the notification is lost. -/
  | lose {on : Condition} {signals : List Signal} {answer : Answer α}
      (present : m.phase? id = some (.signalling (.one on :: signals) answer))
      (nobody : m.callers.any (·.2.sleepsOn on) = false) :
      Turn m id (m.setPhase id (.afterSignals signals answer))
  /-- The caller notifies all sleepers. -/
  | rouseAll {on : Condition} {signals : List Signal} {answer : Answer α}
      (present : m.phase? id = some (.signalling (.all on :: signals) answer)) :
      Turn m id ((m.notifyAll on).setPhase id (.afterSignals signals answer))
  /-- The caller wakes up on its own. -/
  | stir {request : Request α} {on : Condition}
      (present : m.phase? id = some (.asleep request on)) :
      Turn m id (m.setPhase id (.ready request false))

/-- **Every step of a caller is one of the turns.** -/
theorem turn_of_step? {move : Move} (stepped : m.step? id move = some m') : Turn m id m' := by
  unfold step? at stepped
  split at stepped
  case h_1 request notified present =>
    cases stepped
    exact .enter present (entry_enter _ _)
  case h_2 target on signals answer present =>
    obtain ⟨m₁, notified, rfl⟩ := Option.map_eq_some_iff.1 stepped
    cases target with
    | none =>
        rw [notifyOne?] at notified
        split at notified
        · cases notified
        · rename_i nobody
          cases notified
          exact .lose present (by simpa using nobody)
    | some target =>
        rw [notifyOne?] at notified
        split at notified
        · rename_i sleeps
          obtain ⟨phase, sleeper, rfl⟩ := Option.map_eq_some_iff.1 notified
          rw [Monitor.sleeps, sleeper, Option.any_some] at sleeps
          cases phase with
          | asleep request on' =>
              obtain rfl : on' = on := by simpa [Phase.sleepsOn] using sleeps
              rw [Phase.notify, if_pos rfl]
              exact .rouse present sleeper
          | _ => cases sleeps
        · cases notified
  case h_3 on signals answer present =>
    cases stepped
    exact .rouseAll present
  case h_4 request on present =>
    cases stepped
    exact .stir present
  case h_5 => cases stepped

/-- **Who does not sleep is not moved by others.** -/
theorem Turn.keeps_awake (turn : Turn m id m') (other : id' ≠ id)
    (present' : m.phase? id' = some phase) (awake : phase.isAsleep = false) :
    m'.phase? id' = some phase := by
  cases turn with
  | enter present => rwa [phase?_enter present, if_neg other]
  | rouse present sleeper =>
      rename_i target request
      -- the one that is notified sleeps
      have htarget : id' ≠ target := by
        rintro rfl
        rw [sleeper] at present'
        cases present'
        cases awake
      rwa [phase?_rouse present sleeper, if_neg other, if_neg htarget]
  | lose present => rwa [phase?_setPhase present, if_neg other]
  | rouseAll present =>
      rw [phase?_rouseAll present, if_neg other, present', Option.map_some,
        Phase.notify_of_awake awake]
  | stir present => rwa [phase?_setPhase present, if_neg other]

theorem ne_asleep_afterSignals (signals : List Signal) (answer : Answer α) (request : Request α)
    (on : Condition) : Phase.afterSignals signals answer ≠ .asleep request on := by
  obtain ⟨-, h⟩ | ⟨-, h⟩ := Phase.afterSignals_cases signals answer <;> rw [h] <;> nofun

/-- **Who sleeps has slept before, or has just found nothing.** -/
theorem Turn.sleeper_cases (turn : Turn m id m') {request : Request α} {on : Condition}
    (asleep : m'.phase? id' = some (.asleep request on)) :
    m.phase? id' = some (.asleep request on) ∨
      (request.awaits? = some on ∧ m.channel.closed = false ∧ m.channel.available on = 0 ∧
        m'.channel = m.channel) := by
  -- whoever has made a notification does not sleep
  have hawake {signals : List Signal} {answer : Answer α} {other : Option (Phase α)}
      (h : (if id' = id then some (.afterSignals signals answer) else other) =
        some (.asleep request on)) : other = some (.asleep request on) := by
    split at h
    · exact absurd (Option.some.inj h) (ne_asleep_afterSignals _ _ _ _)
    · exact h
  cases turn with
  | enter present entry =>
      rw [phase?_enter present] at asleep
      split at asleep
      · cases asleep
        cases entry with
        | wait awaits shut nothing => exact Or.inr ⟨awaits, shut, nothing, rfl⟩
      · exact Or.inl asleep
  | rouse present sleeper =>
      rw [phase?_rouse present sleeper] at asleep
      have hbehind := hawake asleep
      split at hbehind
      · cases hbehind
      · exact Or.inl hbehind
  | lose present =>
      rw [phase?_setPhase present] at asleep
      exact Or.inl (hawake asleep)
  | rouseAll present =>
      rw [phase?_rouseAll present] at asleep
      obtain ⟨before, hbefore, hnotified⟩ := Option.map_eq_some_iff.1 (hawake asleep)
      cases before with
      | asleep request' on' =>
          rw [Phase.notify] at hnotified
          split at hnotified
          · cases hnotified
          · rw [hbefore, hnotified]
            exact Or.inl rfl
      | _ => cases hnotified
  | stir present =>
      rw [phase?_setPhase present] at asleep
      split at asleep
      · cases asleep
      · exact Or.inl asleep

/-! ### What may happen -/

/-- What may happen at a channel: someone calls, or someone takes a turn. -/
inductive Act (α : Type) where
  | arrive (id : Nat) (request : Request α)
  | step (id : Nat) (move : Move)

/-- What a channel is like when something has happened, or `none` where it cannot happen. -/
def act? (m : Monitor α) : Act α → Option (Monitor α)
  | .arrive id request => if (m.phase? id).isNone then some (m.arrive id request) else none
  | .step id move => m.step? id move

/-- Someone has called whose number was free, or someone has taken a turn. -/
theorem act_cases {act : Act α} (h : m.act? act = some m') :
    (∃ id request, m.phase? id = none ∧ m' = m.arrive id request) ∨ ∃ id, Turn m id m' := by
  cases act with
  | arrive id request =>
      rw [act?] at h
      split at h
      · rename_i fresh
        cases h
        exact Or.inl ⟨id, request, Option.isNone_iff_eq_none.1 fresh, rfl⟩
      · cases h
  | step id move => exact Or.inr ⟨id, turn_of_step? h⟩

theorem Reachable.act {channel : Channel α} (reached : Reachable channel m) {act : Act α}
    (h : m.act? act = some m') : Reachable channel m' := by
  cases act with
  | arrive id request =>
      rw [act?] at h
      split at h
      · rename_i fresh
        cases h
        exact reached.arrive request (Option.isNone_iff_eq_none.1 fresh)
      · cases h
  | step id move => exact reached.step h

/-! ### The invariant of the callers -/

/-- No two callers have one number, and each sleeper waits for what its request needs. -/
structure Orderly (m : Monitor α) : Prop where
  distinct : (m.callers.map (·.1)).Nodup
  waits (id : Nat) (request : Request α) (on : Condition) :
    m.phase? id = some (.asleep request on) → request.awaits? = some on

theorem keys_notifyAll (m : Monitor α) (on : Condition) :
    (m.notifyAll on).callers.map (·.1) = m.callers.map (·.1) := by
  rw [notifyAll, List.map_map]
  rfl

theorem keys_setPhase (m : Monitor α) (id : Nat) (phase : Phase α) :
    (m.setPhase id phase).callers.map (·.1) = m.callers.map (·.1) :=
  Entries.keys_assign m.callers id phase

/-- A turn changes nobody's number. -/
theorem Turn.keys (turn : Turn m id m') : m'.callers.map (·.1) = m.callers.map (·.1) := by
  cases turn with
  | enter => exact keys_setPhase { m with channel := _ } _ _
  | rouse => rw [keys_setPhase, keys_setPhase]
  | lose => rw [keys_setPhase]
  | rouseAll => rw [keys_setPhase, keys_notifyAll]
  | stir => rw [keys_setPhase]

theorem orderly_ofChannel (channel : Channel α) : Orderly (.ofChannel channel) :=
  ⟨List.nodup_nil, nofun⟩

theorem Orderly.arrive (h : Orderly m) (fresh : m.phase? id = none) (request : Request α) :
    Orderly (m.arrive id request) where
  distinct := Entries.nodup_enrol h.distinct fresh _
  waits id' request' on hasleep := by
    rw [phase?_arrive fresh] at hasleep
    split at hasleep
    · cases hasleep
    · exact h.waits id' request' on hasleep

theorem Orderly.turn (h : Orderly m) (turn : Turn m id m') : Orderly m' where
  distinct := turn.keys ▸ h.distinct
  waits id' request on hasleep := by
    obtain hbefore | ⟨hawaits, -⟩ := turn.sleeper_cases hasleep
    · exact h.waits id' request on hbefore
    · exact hawaits

/-- **The callers of a channel are in order in every reachable state.** -/
theorem Reachable.orderly {channel : Channel α} (reached : Reachable channel m) : Orderly m := by
  induction reached with
  | start => exact orderly_ofChannel channel
  | arrive request reached fresh ih => exact ih.arrive fresh request
  | step reached stepped ih => exact ih.turn (turn_of_step? stepped)

/-! ### Counting callers -/

/-- How many callers stand somewhere. -/
def count (m : Monitor α) (p : Phase α → Bool) : Nat := m.callers.countP (p ·.2)

theorem countP_eq_sum {β : Type} (p : β → Bool) (l : List β) :
    l.countP p = (l.map fun b => (p b).toNat).sum := by
  induction l with
  | nil => rfl
  | cons b l ih =>
      rw [List.countP_cons, List.map_cons, List.sum_cons, ih]
      cases p b <;> simp +arith

/-- Whether the one who goes on is counted makes the difference. -/
theorem count_setPhase (distinct : (m.callers.map (·.1)).Nodup)
    (present : m.phase? id = some old) (p : Phase α → Bool) (phase : Phase α) :
    (m.setPhase id phase).count p + (p old).toNat = m.count p + (p phase).toNat := by
  rw [count, count, countP_eq_sum, countP_eq_sum]
  exact Entries.sum_assign distinct present (fun phase => (p phase).toNat) phase

/-- A newcomer does not count where nobody counts that has just called. -/
theorem count_arrive (m : Monitor α) (id : Nat) {request : Request α} {p : Phase α → Bool}
    (idle : p (.ready request false) = false) : (m.arrive id request).count p = m.count p := by
  rw [count, count, arrive, List.countP_append, List.countP_singleton, idle]
  rfl

/-- Those are counted as before whom a notification does not concern. -/
theorem count_notifyAll (m : Monitor α) (on : Condition) {p : Phase α → Bool}
    (same : ∀ phase, p (phase.notify on) = p phase) : (m.notifyAll on).count p = m.count p := by
  rw [count, notifyAll, List.countP_map, count]
  exact List.countP_congr fun c _ => by simp [same]

theorem count_pos_iff (distinct : (m.callers.map (·.1)).Nodup) {p : Phase α → Bool} :
    0 < m.count p ↔ ∃ id phase, m.phase? id = some phase ∧ p phase = true := by
  rw [count, List.countP_pos_iff]
  constructor
  · rintro ⟨⟨id, phase⟩, hmem, hp⟩
    exact ⟨id, phase, Entries.lookup_of_mem distinct hmem, hp⟩
  · rintro ⟨id, phase, hpresent, hp⟩
    exact ⟨(id, phase), Entries.mem_of_lookup hpresent, hp⟩

end Monitor

end Channel

end TraceLog
