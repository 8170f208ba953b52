/-
**What there is to be had is spoken for.**

Callers of a channel sleep when there is nothing for them, and are notified one by one as items or
free slots turn up.  A notification is made after the lock has been given up, and the one who is
notified takes the lock only later; in between others may take what the notification was about.
Nevertheless one notification for each item and for each free slot is enough.  Let someone sleep on
a condition while the channel is open.  Then what there is to be had is no more than what is spoken
for: by callers that have been notified and did not run yet, and by notifications that are still to
be made.  Each turn keeps the balance: who takes something has either been notified or leaves less
to be had, who provides something has a notification to make, and a notification is lost only if
nobody sleeps.  In a closed channel nobody sleeps whom no closer is about to notify.

Main definitions:

* `Channel.Phase.isRoused`, `Channel.Phase.announces`, `Channel.Phase.announcesAll` — who has been
  notified and did not run yet; who is about to notify one sleeper, or all of them;
* `Channel.Monitor.Sufficient` — the balance.

Main results:

* `Channel.Entry.balance` — what a critical section adds it also announces;
* `Channel.Monitor.Sufficient.turn` — **each turn keeps the balance**;
* `Channel.Monitor.Reachable.sufficient` — the balance holds in every reachable state.
-/

import TraceLog.Proofs.Channel.Turns
import Mathlib.Order.Nat

set_option relaxedAutoImplicit false
set_option autoImplicit false

namespace TraceLog

namespace Channel

variable {α : Type}

/-! ### Who is about to do what -/

/-- What a finished call has made available to others. -/
def Answer.provides? : Answer α → Option Condition
  | .pushed => some .notEmpty
  | .popped (some _) => some .notFull
  | .refused | .popped none | .full _ | .shut _ | .closed | .discarded _ => none

/-- Whether it is the answer of one who has closed the channel. -/
def Answer.ofCloser : Answer α → Bool
  | .closed | .discarded _ => true
  | .pushed | .refused | .popped _ | .full _ | .shut _ => false

namespace Phase

/-- Whether a caller has been notified that a condition holds, and did not run yet. -/
def isRoused (on : Condition) : Phase α → Bool
  | .ready request notified => notified && request.awaits? == some on
  | .asleep _ _ | .signalling _ _ | .returned _ => false

/-- Whether a caller has finished what makes a condition hold, and is still to notify a sleeper. -/
def announces (on : Condition) : Phase α → Bool
  | .signalling signals answer => signals.contains (.one on) && answer.provides? == some on
  | .ready _ _ | .asleep _ _ | .returned _ => false

/-- Whether a caller has closed the channel, and is still to notify those who sleep. -/
def announcesAll (on : Condition) : Phase α → Bool
  | .signalling signals answer => signals.contains (.all on) && answer.ofCloser
  | .ready _ _ | .asleep _ _ | .returned _ => false

/-- Whether a caller can go on: it is about to take the lock or to make a notification. -/
def isAwake : Phase α → Bool
  | .ready _ _ | .signalling _ _ => true
  | .asleep _ _ | .returned _ => false

section afterSignals

variable (on : Condition) (signals : List Signal) (answer : Answer α)

@[simp] theorem sleepsOn_afterSignals : (afterSignals signals answer).sleepsOn on = false := by
  obtain ⟨-, h⟩ | ⟨-, h⟩ := afterSignals_cases signals answer <;> rw [h] <;> rfl

@[simp] theorem isRoused_afterSignals : (afterSignals signals answer).isRoused on = false := by
  obtain ⟨-, h⟩ | ⟨-, h⟩ := afterSignals_cases signals answer <;> rw [h] <;> rfl

@[simp] theorem announces_afterSignals :
    (afterSignals signals answer).announces on =
      (signals.contains (.one on) && answer.provides? == some on) := by
  obtain ⟨hnil, h⟩ | ⟨-, h⟩ := afterSignals_cases signals answer
  · rw [h, hnil]
    rfl
  · rw [h]
    rfl

@[simp] theorem announcesAll_afterSignals :
    (afterSignals signals answer).announcesAll on =
      (signals.contains (.all on) && answer.ofCloser) := by
  obtain ⟨hnil, h⟩ | ⟨-, h⟩ := afterSignals_cases signals answer
  · rw [h, hnil]
    rfl
  · rw [h]
    rfl

end afterSignals

section notify

variable (phase : Phase α) (on on' : Condition)

/-- A sleeper that is notified can run; all others are not affected. -/
theorem notify_cases :
    phase.notify on' = phase ∨
      ∃ request, phase = .asleep request on' ∧ phase.notify on' = .ready request true := by
  cases phase with
  | asleep request on₀ =>
      by_cases hon : on₀ = on'
      · exact Or.inr ⟨request, by rw [hon], if_pos hon⟩
      · exact Or.inl (if_neg hon)
  | _ => exact Or.inl rfl

theorem sleepsOn_notify : (phase.notify on).sleepsOn on = false := by
  cases phase with
  | asleep request on₀ =>
      by_cases hon : on₀ = on
      · rw [notify, if_pos hon]
        rfl
      · rw [notify, if_neg hon]
        exact beq_eq_false_iff_ne.2 hon
  | _ => rfl

theorem sleepsOn_notify_of_ne (other : on ≠ on') :
    (phase.notify on').sleepsOn on = phase.sleepsOn on := by
  obtain h | ⟨request, hphase, h⟩ := phase.notify_cases on'
  · rw [h]
  · rw [h, hphase]
    exact (beq_eq_false_iff_ne.2 (Ne.symm other)).symm

theorem announces_notify : (phase.notify on').announces on = phase.announces on := by
  obtain h | ⟨request, hphase, h⟩ := phase.notify_cases on'
  · rw [h]
  · rw [h, hphase]
    rfl

theorem announcesAll_notify : (phase.notify on').announcesAll on = phase.announcesAll on := by
  obtain h | ⟨request, hphase, h⟩ := phase.notify_cases on'
  · rw [h]
  · rw [h, hphase]
    rfl

theorem isRoused_notify (roused : phase.isRoused on = true) :
    (phase.notify on').isRoused on = true := by
  obtain h | ⟨request, hphase, -⟩ := phase.notify_cases on'
  · rw [h]
    exact roused
  · rw [hphase] at roused
    cases roused

end notify

end Phase

namespace Monitor

variable {m m' : Monitor α} {id id' : Nat} {on on' : Condition}

/-- How many callers sleep on a condition. -/
def sleeping (m : Monitor α) (on : Condition) : Nat := m.count (·.sleepsOn on)

/-- How many callers have been notified that a condition holds, and did not run yet. -/
def roused (m : Monitor α) (on : Condition) : Nat := m.count (·.isRoused on)

/-- How many finished calls are still to notify one who sleeps on a condition. -/
def announced (m : Monitor α) (on : Condition) : Nat := m.count (·.announces on)

/-- How many closers are still to notify all who sleep on a condition. -/
def closing (m : Monitor α) (on : Condition) : Nat := m.count (·.announcesAll on)

/-- What there is to be had is spoken for as long as someone sleeps, and someone will wake those who
sleep in a closed channel. -/
structure Sufficient (m : Monitor α) (on : Condition) : Prop where
  opened : m.channel.closed = false → 0 < m.sleeping on →
    m.channel.available on ≤ m.roused on + m.announced on
  shut : m.channel.closed = true → 0 < m.sleeping on → 0 < m.closing on

/-! ### What a critical section does to the balance -/

end Monitor

/-- Who brings an item does not wait for one. -/
theorem isRoused_of_item? {request : Request α} {a : α} (item : request.item? = some a)
    (notified : Bool) : (Phase.ready request notified).isRoused .notEmpty = false := by
  cases request with
  | push a => exact Bool.and_false notified
  | tryPush a => exact Bool.and_false notified
  | _ => cases item

theorem isRoused_of_awaits? {request : Request α} {on on' : Condition}
    (awaits : request.awaits? = some on') (other : on' ≠ on) (notified : Bool) :
    (Phase.ready request notified).isRoused on = false := by
  rw [Phase.isRoused, awaits, Bool.and_eq_false_iff, beq_eq_false_iff_ne]
  exact Or.inr fun h => other (Option.some.inj h)

section Entry

variable {c c' : Channel α} {request : Request α} {phase : Phase α} {on : Condition}

/-- Who has to wait has found nothing, in an open channel. -/
theorem Entry.of_sleepsOn (entry : Entry c request phase c') (asleep : phase.sleepsOn on = true) :
    c' = c ∧ c.closed = false ∧ c.available on = 0 := by
  cases entry with
  | wait awaits shut nothing =>
      rw [Phase.sleepsOn, beq_iff_eq] at asleep
      exact ⟨rfl, shut, asleep ▸ nothing⟩
  | _ => cases asleep

/-- Who closes a channel is about to notify all who sleep. -/
theorem Entry.announcesAll (entry : Entry c request phase c') (opened : c.closed = false)
    (shut : c'.closed = true) (on : Condition) : phase.announcesAll on = true := by
  cases entry with
  | insert item offered =>
      rw [(items_of_offer offered).2.2, opened] at shut
      cases shut
  | remove received =>
      rw [(items_of_receive received).2.2, opened] at shut
      cases shut
  | close => cases on <;> rfl
  | discard => cases on <;> rfl
  | _ =>
      rw [opened] at shut
      cases shut

/-- **What a critical section adds to what there is to be had it also announces**, and what a caller
finds that was notified it takes. -/
theorem Entry.balance (entry : Entry c request phase c') (opened : c'.closed = false)
    (awake : phase.sleepsOn on = false) (notified : Bool) :
    c'.available on + ((Phase.ready request notified).isRoused on).toNat ≤
      c.available on + (phase.announces on).toNat := by
  have hone := Bool.toNat_le ((Phase.ready request notified).isRoused on)
  cases entry with
  | insert item offered =>
      rename_i a
      obtain ⟨hitems, hcapacity, -⟩ := items_of_offer offered
      have hroom := length_le_of_offer offered
      rw [hitems, hcapacity, List.length_append, List.length_singleton] at hroom
      cases on with
      | notEmpty =>
          have hannounces : (Phase.signalling [.one .notEmpty] (.pushed : Answer α)).announces
              .notEmpty = true := rfl
          rw [isRoused_of_item? item, hannounces, available, hitems, List.length_append,
            List.length_singleton, available, Bool.toNat_false, Bool.toNat_true]
      | notFull =>
          rw [available, hitems, hcapacity, List.length_append, List.length_singleton, available]
          omega
  | remove received =>
      rename_i a
      obtain ⟨hitems, hcapacity, -⟩ := items_of_receive received
      cases on with
      | notEmpty =>
          rw [available, available, hitems, List.length_cons]
          omega
      | notFull =>
          have hannounces : (Phase.signalling [.one .notFull] (.popped (some a))).announces
              .notFull = true := rfl
          have hidle : (Phase.ready (.pop : Request α) notified).isRoused .notFull = false :=
            Bool.and_false notified
          rw [hidle, hannounces, available, hcapacity, available, hitems, List.length_cons,
            Bool.toNat_false, Bool.toNat_true]
          omega
  | wait awaits shut nothing =>
      rename_i on'
      rw [Phase.sleepsOn, beq_eq_false_iff_ne] at awake
      rw [isRoused_of_awaits? awaits awake]
      exact Nat.le_add_right _ _
  | full shut nothing =>
      rename_i a
      have hidle : (Phase.ready (.tryPush a) notified).isRoused on = false :=
        Bool.and_false notified
      rw [hidle]
      exact Nat.le_add_right _ _
  | close => cases opened
  | discard => cases opened
  | refuse shut =>
      rw [opened] at shut
      cases shut
  | shut shut =>
      rw [opened] at shut
      cases shut
  | drained shut nothing =>
      rw [opened] at shut
      cases shut

end Entry

namespace Monitor

variable {m m' : Monitor α} {id id' : Nat} {on on' : Condition}

/-! ### Each turn keeps the balance -/

/-- The counts behind a turn in which one caller gets a new phase. -/
theorem counts_setPhase (distinct : (m.callers.map (·.1)).Nodup) {old : Phase α}
    (present : m.phase? id = some old) (phase : Phase α) (on : Condition) :
    (m.setPhase id phase).sleeping on + (old.sleepsOn on).toNat =
        m.sleeping on + (phase.sleepsOn on).toNat ∧
      (m.setPhase id phase).roused on + (old.isRoused on).toNat =
        m.roused on + (phase.isRoused on).toNat ∧
      (m.setPhase id phase).announced on + (old.announces on).toNat =
        m.announced on + (phase.announces on).toNat ∧
      (m.setPhase id phase).closing on + (old.announcesAll on).toNat =
        m.closing on + (phase.announcesAll on).toNat :=
  ⟨count_setPhase distinct present _ phase, count_setPhase distinct present _ phase,
    count_setPhase distinct present _ phase, count_setPhase distinct present _ phase⟩

/-- The counts behind a critical section. -/
theorem counts_enter (distinct : (m.callers.map (·.1)).Nodup) {request : Request α}
    {notified : Bool} (present : m.phase? id = some (.ready request notified)) (phase : Phase α)
    (channel : Channel α) (on : Condition) :
    ({ m with channel }.setPhase id phase).sleeping on =
        m.sleeping on + (phase.sleepsOn on).toNat ∧
      ({ m with channel }.setPhase id phase).roused on +
          ((Phase.ready request notified).isRoused on).toNat =
        m.roused on + (phase.isRoused on).toNat ∧
      ({ m with channel }.setPhase id phase).announced on =
        m.announced on + (phase.announces on).toNat ∧
      ({ m with channel }.setPhase id phase).closing on =
        m.closing on + (phase.announcesAll on).toNat :=
  counts_setPhase (m := { m with channel }) distinct present phase on

/-- **A critical section keeps the balance.** -/
theorem Sufficient.enter (h : Sufficient m on) (distinct : (m.callers.map (·.1)).Nodup)
    {request : Request α} {notified : Bool} {phase : Phase α} {channel : Channel α}
    (present : m.phase? id = some (.ready request notified))
    (entry : Entry m.channel request phase channel) :
    Sufficient ({ m with channel }.setPhase id phase) on := by
  obtain ⟨hsleeping, hroused, hannounced, hclosing⟩ :=
    counts_enter distinct present phase channel on
  constructor
  · intro hopen hpos
    change channel.available on ≤ _
    cases hphase : phase.sleepsOn on with
    | true =>
        obtain ⟨rfl, -, hnothing⟩ := entry.of_sleepsOn hphase
        omega
    | false =>
        have hbefore : m.channel.closed = false := by
          by_contra hclosed
          rw [Bool.not_eq_false] at hclosed
          exact Bool.false_ne_true (hopen.symm.trans (entry.keeps.2 hclosed))
        have hbalance := entry.balance hopen hphase notified
        rw [hphase, Bool.toNat_false] at hsleeping
        have hspoken := h.opened hbefore (by omega)
        omega
  · intro hshut hpos
    cases hbefore : m.channel.closed with
    | false =>
        rw [entry.announcesAll hbefore hshut on, Bool.toNat_true] at hclosing
        omega
    | true =>
        have hawake : phase.sleepsOn on = false := by
          by_contra hasleep
          rw [Bool.not_eq_false] at hasleep
          rw [(entry.of_sleepsOn hasleep).2.1] at hbefore
          cases hbefore
        rw [hawake, Bool.toNat_false] at hsleeping
        have hcloser := h.shut hbefore (by omega)
        omega

/-- The counts when all who sleep on a condition are notified. -/
theorem counts_notifyAll (m : Monitor α) (on' : Condition) (on : Condition) :
    (m.notifyAll on').sleeping on = (if on = on' then 0 else m.sleeping on) ∧
      m.roused on ≤ (m.notifyAll on').roused on ∧
      (m.notifyAll on').announced on = m.announced on ∧
      (m.notifyAll on').closing on = m.closing on := by
  refine ⟨?_, ?_, count_notifyAll m on' (Phase.announces_notify · on on'),
    count_notifyAll m on' (Phase.announcesAll_notify · on on')⟩
  · by_cases hon : on = on'
    · rw [if_pos hon, sleeping, count, notifyAll, List.countP_map, List.countP_eq_zero, hon]
      intro c _
      exact Bool.eq_false_iff.1 (c.2.sleepsOn_notify on')
    · rw [if_neg hon]
      exact count_notifyAll m on' (Phase.sleepsOn_notify_of_ne · on on' hon)
  · rw [roused, roused, count, count, notifyAll, List.countP_map]
    exact List.countP_mono_left fun c _ => c.2.isRoused_notify on on'

/-- The counts when a caller has made a notification: it may have been the last one. -/
theorem counts_signal (distinct : (m.callers.map (·.1)).Nodup) {signal : Signal}
    {signals : List Signal} {answer : Answer α}
    (present : m.phase? id = some (.signalling (signal :: signals) answer)) (on : Condition) :
    (m.setPhase id (.afterSignals signals answer)).sleeping on = m.sleeping on ∧
      (m.setPhase id (.afterSignals signals answer)).roused on = m.roused on ∧
      m.announced on ≤ (m.setPhase id (.afterSignals signals answer)).announced on +
        (decide (signal = .one on)).toNat ∧
      m.closing on ≤ (m.setPhase id (.afterSignals signals answer)).closing on +
        (decide (signal = .all on)).toNat := by
  obtain ⟨hsleeping, hroused, hannounced, hclosing⟩ :=
    counts_setPhase distinct present (.afterSignals signals answer) on
  rw [Phase.sleepsOn_afterSignals] at hsleeping
  rw [Phase.isRoused_afterSignals] at hroused
  rw [Phase.announces_afterSignals, Phase.announces, List.contains_cons] at hannounced
  rw [Phase.announcesAll_afterSignals, Phase.announcesAll, List.contains_cons] at hclosing
  refine ⟨hsleeping, hroused, ?_, ?_⟩
  · by_cases hsignal : signal = .one on
    · have hle := Bool.toNat_le (signals.contains (.one on) && answer.provides? == some on)
      have hone := Bool.toNat_le
        ((Signal.one on == signal || signals.contains (.one on)) && answer.provides? == some on)
      rw [decide_eq_true hsignal, Bool.toNat_true]
      omega
    · rw [beq_eq_false_iff_ne.2 (Ne.symm hsignal), Bool.false_or] at hannounced
      omega
  · by_cases hsignal : signal = .all on
    · have hone := Bool.toNat_le
        ((Signal.all on == signal || signals.contains (.all on)) && answer.ofCloser)
      rw [decide_eq_true hsignal, Bool.toNat_true]
      omega
    · rw [beq_eq_false_iff_ne.2 (Ne.symm hsignal), Bool.false_or] at hclosing
      omega

/-- The counts when a sleeper wakes up on its own. -/
theorem counts_stir (orderly : Orderly m) {request : Request α}
    (present : m.phase? id = some (.asleep request on')) (on : Condition) :
    (m.setPhase id (.ready request false)).sleeping on + (decide (on' = on)).toNat =
        m.sleeping on ∧
      (m.setPhase id (.ready request false)).roused on = m.roused on ∧
      (m.setPhase id (.ready request false)).announced on = m.announced on ∧
      (m.setPhase id (.ready request false)).closing on = m.closing on := by
  obtain ⟨hsleeping, hroused, hannounced, hclosing⟩ :=
    counts_setPhase orderly.distinct present (.ready request false) on
  exact ⟨hsleeping, hroused, hannounced, hclosing⟩

/-- The balance is kept where nobody joins the sleepers and nobody who counts is forgotten. -/
theorem Sufficient.of_counts (h : Sufficient m on) (same : m'.channel = m.channel)
    (sleeping : m'.sleeping on ≤ m.sleeping on)
    (spoken : 0 < m'.sleeping on →
      m.roused on + m.announced on ≤ m'.roused on + m'.announced on)
    (closing : 0 < m'.sleeping on → m.closing on ≤ m'.closing on) : Sufficient m' on := by
  constructor
  · intro hopen hpos
    rw [same] at hopen ⊢
    exact (h.opened hopen (by omega)).trans (spoken hpos)
  · intro hshut hpos
    rw [same] at hshut
    exact Nat.lt_of_lt_of_le (h.shut hshut (by omega)) (closing hpos)

/-- The counts when a caller notifies a sleeper. -/
theorem counts_rouse (orderly : Orderly m) {signals : List Signal} {answer : Answer α}
    {target : Nat} {request : Request α}
    (present : m.phase? id = some (.signalling (.one on' :: signals) answer))
    (sleeper : m.phase? target = some (.asleep request on')) (on : Condition) :
    ((m.setPhase target (.ready request true)).setPhase id
        (.afterSignals signals answer)).sleeping on + (decide (on' = on)).toNat = m.sleeping on ∧
      ((m.setPhase target (.ready request true)).setPhase id
        (.afterSignals signals answer)).roused on = m.roused on + (decide (on' = on)).toNat ∧
      m.announced on ≤ ((m.setPhase target (.ready request true)).setPhase id
        (.afterSignals signals answer)).announced on + (decide (on' = on)).toNat ∧
      m.closing on ≤ ((m.setPhase target (.ready request true)).setPhase id
        (.afterSignals signals answer)).closing on := by
  have hother : id ≠ target := by
    rintro rfl
    rw [sleeper] at present
    cases present
  have hdistinct : ((m.setPhase target (.ready request true)).callers.map (·.1)).Nodup :=
    keys_setPhase m target (.ready request true) ▸ orderly.distinct
  have hpresent : (m.setPhase target (.ready request true)).phase? id =
      some (.signalling (.one on' :: signals) answer) := by
    rw [phase?_setPhase sleeper, if_neg hother, present]
  obtain ⟨hsleeping, hroused, hannounced, hclosing⟩ :=
    counts_setPhase orderly.distinct sleeper (.ready request true) on
  obtain ⟨hsleeping', hroused', hannounced', hclosing'⟩ := counts_signal hdistinct hpresent on
  -- whoever is notified was asleep and is now about to run
  have hrouses : (Phase.ready request true).isRoused on = decide (on' = on) := by
    rw [Phase.isRoused, orderly.waits target request on' sleeper]
    cases on <;> cases on' <;> rfl
  have hsleeps : (Phase.asleep request on').sleepsOn on = decide (on' = on) := by
    cases on <;> cases on' <;> rfl
  have hsignal : decide (Signal.one on' = .one on) = decide (on' = on) := by
    cases on <;> cases on' <;> rfl
  rw [hsleeps] at hsleeping
  rw [hrouses] at hroused
  rw [hsignal] at hannounced'
  rw [hsleeping', hroused']
  exact ⟨hsleeping, hroused, (Nat.le_of_eq hannounced.symm).trans hannounced',
    (Nat.le_of_eq hclosing.symm).trans hclosing'⟩

/-- The counts when a caller notifies all who sleep. -/
theorem counts_rouseAll (orderly : Orderly m) {signals : List Signal} {answer : Answer α}
    (present : m.phase? id = some (.signalling (.all on' :: signals) answer)) (on : Condition) :
    ((m.notifyAll on').setPhase id (.afterSignals signals answer)).sleeping on =
        (if on = on' then 0 else m.sleeping on) ∧
      m.roused on ≤ ((m.notifyAll on').setPhase id (.afterSignals signals answer)).roused on ∧
      m.announced on ≤
        ((m.notifyAll on').setPhase id (.afterSignals signals answer)).announced on ∧
      m.closing on ≤ ((m.notifyAll on').setPhase id (.afterSignals signals answer)).closing on +
        (decide (on' = on)).toNat := by
  have hdistinct : ((m.notifyAll on').callers.map (·.1)).Nodup :=
    keys_notifyAll m on' ▸ orderly.distinct
  have hpresent : (m.notifyAll on').phase? id =
      some (.signalling (.all on' :: signals) answer) := by
    rw [phase?_notifyAll, present]
    rfl
  obtain ⟨hsleeping, hroused, hannounced, hclosing⟩ := counts_notifyAll m on' on
  obtain ⟨hsleeping', hroused', hannounced', hclosing'⟩ := counts_signal hdistinct hpresent on
  have hsignal : decide (Signal.all on' = .all on) = decide (on' = on) := by
    cases on <;> cases on' <;> rfl
  rw [hsignal, hclosing] at hclosing'
  rw [hannounced] at hannounced'
  exact ⟨hsleeping'.trans hsleeping, hroused.trans (Nat.le_of_eq hroused'.symm), hannounced',
    hclosing'⟩

/-- **Each turn keeps the balance.** -/
theorem Sufficient.turn (h : Sufficient m on) (orderly : Orderly m) (turn : Turn m id m') :
    Sufficient m' on := by
  cases turn with
  | enter present entry => exact h.enter orderly.distinct present entry
  | rouse present sleeper =>
      obtain ⟨hsleeping, hroused, hannounced, hclosing⟩ := counts_rouse orderly present sleeper on
      exact h.of_counts rfl (by omega) (fun _ => by omega) (fun _ => hclosing)
  | lose present nobody =>
      rename_i on' signals answer
      obtain ⟨hsleeping, hroused, hannounced, hclosing⟩ :=
        counts_signal orderly.distinct present on
      by_cases hon : on' = on
      · -- nobody is there who could have missed the notification
        have hnone : m.sleeping on = 0 := by
          rw [sleeping, count, List.countP_eq_zero]
          intro c hc hsleeps
          rw [hon, List.any_eq_false] at nobody
          exact nobody c hc hsleeps
        exact h.of_counts rfl (by omega) (fun hpos => by omega) (fun hpos => by omega)
      · have hsignal : Signal.one on' ≠ .one on := fun hsame => hon (Signal.one.inj hsame)
        rw [decide_eq_false hsignal, Bool.toNat_false] at hannounced
        have hall : Signal.one on' ≠ .all on := fun hsame => by cases hsame
        rw [decide_eq_false hall, Bool.toNat_false] at hclosing
        exact h.of_counts rfl (by omega) (fun _ => by omega) (fun _ => by omega)
  | rouseAll present =>
      rename_i on' signals answer
      obtain ⟨hsleeping, hroused, hannounced, hclosing⟩ := counts_rouseAll orderly present on
      by_cases hon : on = on'
      · rw [if_pos hon] at hsleeping
        exact h.of_counts rfl (by omega) (fun hpos => by omega) (fun hpos => by omega)
      · rw [if_neg hon] at hsleeping
        rw [decide_eq_false (Ne.symm hon), Bool.toNat_false] at hclosing
        exact h.of_counts rfl (by omega) (fun _ => by omega) (fun _ => by omega)
  | stir present =>
      obtain ⟨hsleeping, hroused, hannounced, hclosing⟩ := counts_stir orderly present on
      exact h.of_counts rfl (by omega) (fun _ => by omega) (fun _ => by omega)

theorem Sufficient.arrive (h : Sufficient m on) (id : Nat) (request : Request α) :
    Sufficient (m.arrive id request) on := by
  have hsleeping : (m.arrive id request).sleeping on = m.sleeping on := count_arrive m id rfl
  have hroused : (m.arrive id request).roused on = m.roused on := count_arrive m id rfl
  have hannounced : (m.arrive id request).announced on = m.announced on := count_arrive m id rfl
  have hclosing : (m.arrive id request).closing on = m.closing on := count_arrive m id rfl
  exact h.of_counts rfl (by omega) (fun _ => by omega) (fun _ => by omega)

/-- **The balance holds in every reachable state.** -/
theorem Reachable.sufficient {channel : Channel α} (reached : Reachable channel m)
    (on : Condition) : Sufficient m on := by
  induction reached with
  | start =>
      have hnone : ¬0 < (ofChannel channel).sleeping on := Nat.lt_irrefl 0
      exact ⟨fun _ hpos => absurd hpos hnone, fun _ hpos => absurd hpos hnone⟩
  | arrive request reached fresh ih => exact ih.arrive _ request
  | step reached stepped ih => exact ih.turn reached.orderly (turn_of_step? stepped)

end Monitor

end Channel

end TraceLog
