/-
**Nobody sleeps for ever next to something to be had.**

`TraceLog/Proofs/Channel/Waking.lean` shows that what there is to be had is spoken for as long as
someone sleeps.  Here this is followed through a channel's whole life.  Everyone who can go on does
so some time; apart from that, anything may happen at any time, and others may call and slip in
again and again.

Suppose that from some time on a caller sleeps and there is always something for it to be had, or
the channel is closed.  Then nobody joins those who sleep with it, as nobody finds nothing.  So the
sleepers become fewer and fewer until they stay the same.  From then on nobody is notified, so
nobody has a notification to make, and those who had been notified before run one after the other
until none of them is left.  But then nothing is spoken for, although someone sleeps.

Main definitions:

* `Channel.Monitor.Execution`, `Channel.Monitor.Fair` — a channel's whole life, and that everyone
  goes on who can;
* `Channel.Monitor.playing` — what happens one after the other, and then nothing any more.

Main results:

* `Channel.Monitor.Fair.exists_turn` — who can go on takes a turn;
* `Channel.Monitor.Fair.exists_signal` — each notification that is to be made is made;
* `Channel.Monitor.fair_playing` — there are such lives;
* `Channel.Monitor.no_lost_wakeup` — **no wakeup is lost**.
-/

import TraceLog.Proofs.Channel.Waking

set_option relaxedAutoImplicit false
set_option autoImplicit false

namespace TraceLog

namespace Channel

variable {α : Type}

namespace Monitor

variable {m m' : Monitor α} {id : Nat} {on : Condition}

/-! ### A channel's life -/

/-- What may come next: nothing happens, or something does. -/
def Next (m m' : Monitor α) : Prop := m' = m ∨ ∃ act, m.act? act = some m'

/-- The life of a channel without end. -/
structure Execution (channel : Channel α) (run : Nat → Monitor α) : Prop where
  start : run 0 = .ofChannel channel
  next (t : Nat) : Next (run t) (run (t + 1))

/-- Nobody who can go on stays where it is for ever. -/
def Fair (run : Nat → Monitor α) : Prop :=
  ∀ t id phase, (run t).phase? id = some phase → phase.isAwake = true →
    ∃ t' ≥ t, (run t').phase? id ≠ some phase

theorem isAsleep_of_isAwake {phase : Phase α} (awake : phase.isAwake = true) :
    phase.isAsleep = false := by
  cases phase with
  | asleep => cases awake
  | _ => rfl

theorem Next.cases (next : Next m m') :
    m' = m ∨ (∃ id request, m.phase? id = none ∧ m' = m.arrive id request) ∨
      ∃ id, Turn m id m' := by
  obtain rfl | ⟨act, h⟩ := next
  · exact Or.inl rfl
  · exact Or.inr (act_cases h)

/-- Who does not sleep stays where it is until it takes a turn. -/
theorem Next.keeps_awake (next : Next m m') {phase : Phase α} (present : m.phase? id = some phase)
    (awake : phase.isAsleep = false) (idle : ¬Turn m id m') : m'.phase? id = some phase := by
  obtain rfl | ⟨id', request, fresh, rfl⟩ | ⟨id', turn⟩ := next.cases
  · exact present
  · rw [phase?_arrive fresh, if_neg, present]
    rintro rfl
    rw [fresh] at present
    cases present
  · refine turn.keeps_awake ?_ present awake
    rintro rfl
    exact idle turn

section

variable {channel : Channel α} {run : Nat → Monitor α}

theorem Execution.reachable (execution : Execution channel run) (t : Nat) :
    Reachable channel (run t) := by
  induction t with
  | zero => exact execution.start ▸ .start
  | succ t ih =>
      obtain hrest | ⟨act, hact⟩ := execution.next t
      · exact hrest ▸ ih
      · exact ih.act hact

/-- **Who can go on takes a turn some time**, and has stayed where it was until then. -/
theorem Fair.exists_turn (fair : Fair run) (execution : Execution channel run) {t : Nat}
    {phase : Phase α} (present : (run t).phase? id = some phase) (awake : phase.isAwake = true) :
    ∃ t' ≥ t, (run t').phase? id = some phase ∧ Turn (run t') id (run (t' + 1)) := by
  by_contra hnever
  have hstays (t' : Nat) (ht : t ≤ t') : (run t').phase? id = some phase := by
    induction t', ht using Nat.le_induction with
    | base => exact present
    | succ t' ht ih =>
        exact (execution.next t').keeps_awake ih (isAsleep_of_isAwake awake) fun turn =>
          hnever ⟨t', ht, ih, turn⟩
  obtain ⟨t', ht, hmoved⟩ := fair t id phase present awake
  exact hmoved (hstays t' ht)

/-- What a caller does that is about to make a notification. -/
theorem Turn.of_signalling (turn : Turn m id m') {signal : Signal} {signals : List Signal}
    {answer : Answer α} (present : m.phase? id = some (.signalling (signal :: signals) answer)) :
    m'.phase? id = some (.afterSignals signals answer) := by
  cases turn with
  | enter h => rw [present] at h; cases h
  | stir h => rw [present] at h; cases h
  | rouse h sleeper =>
      rw [present] at h
      cases h
      rw [phase?_rouse present sleeper, if_pos rfl]
  | lose h =>
      rw [present] at h
      cases h
      rw [phase?_setPhase present, if_pos rfl]
  | rouseAll h =>
      rw [present] at h
      cases h
      rw [phase?_rouseAll present, if_pos rfl]

/-- **Each notification that is to be made is made some time.** -/
theorem Fair.exists_signal (fair : Fair run) (execution : Execution channel run) {t : Nat}
    {signal : Signal} {signals : List Signal} {answer : Answer α}
    (present : (run t).phase? id = some (.signalling signals answer)) (due : signal ∈ signals) :
    ∃ t' ≥ t, ∃ rest, (run t').phase? id = some (.signalling (signal :: rest) answer) ∧
      Turn (run t') id (run (t' + 1)) := by
  -- on the notifications that come before it
  induction signals generalizing t with
  | nil => cases due
  | cons first rest ih =>
      obtain ⟨t', ht, hpresent, turn⟩ := fair.exists_turn execution present rfl
      rcases List.mem_cons.1 due with rfl | hlater
      · exact ⟨t', ht, rest, hpresent, turn⟩
      · have hbehind := turn.of_signalling hpresent
        rw [Phase.afterSignals, if_neg (by simpa using List.ne_nil_of_mem hlater)] at hbehind
        obtain ⟨t'', ht', hsignal⟩ := ih hbehind hlater
        exact ⟨t'', by omega, hsignal⟩

/-! ### Sleepers that become no more -/

/-- Where there is something to be had, nobody joins the sleepers. -/
theorem Turn.sleeping_le (turn : Turn m id m') (orderly : Orderly m)
    (there : m'.channel.closed = true ∨ 0 < m'.channel.available on) :
    m'.sleeping on ≤ m.sleeping on := by
  cases turn with
  | enter present entry =>
      rename_i request notified phase channel
      have hsleeping := (counts_enter orderly.distinct present phase channel on).1
      cases hphase : phase.sleepsOn on with
      | true =>
          obtain ⟨hsame, hopen, hnothing⟩ := entry.of_sleepsOn hphase
          rw [← hsame] at hopen hnothing
          rcases there with hclosed | hpos
          · exact absurd (hopen.symm.trans hclosed) Bool.false_ne_true
          · exact absurd hnothing (Nat.ne_of_gt hpos)
      | false =>
          rw [hphase] at hsleeping
          exact Nat.le_of_eq hsleeping
  | rouse present sleeper =>
      have hsleeping := (counts_rouse orderly present sleeper on).1
      omega
  | lose present => exact Nat.le_of_eq (counts_signal orderly.distinct present on).1
  | rouseAll present =>
      have hsleeping := (counts_rouseAll orderly present on).1
      split at hsleeping <;> omega
  | stir present =>
      have hsleeping := (counts_stir orderly present on).1
      omega

theorem Next.sleeping_le (next : Next m m') (orderly : Orderly m)
    (there : m'.channel.closed = true ∨ 0 < m'.channel.available on) :
    m'.sleeping on ≤ m.sleeping on := by
  obtain rfl | ⟨id', request, -, rfl⟩ | ⟨id', turn⟩ := next.cases
  · exact Nat.le_refl _
  · exact Nat.le_of_eq (count_arrive m id' rfl)
  · exact turn.sleeping_le orderly there

/-- Where the sleepers stay the same, nobody is notified. -/
theorem Turn.not_one (turn : Turn m id m') (orderly : Orderly m)
    (still : m'.sleeping on = m.sleeping on) (asleep : 0 < m.sleeping on) {rest : List Signal}
    {answer : Answer α} : m.phase? id ≠ some (.signalling (.one on :: rest) answer) := by
  intro present
  cases turn with
  | enter h => rw [present] at h; cases h
  | stir h => rw [present] at h; cases h
  | rouseAll h => rw [present] at h; cases h
  | rouse h sleeper =>
      rw [present] at h
      cases h
      have hsleeping := (counts_rouse orderly present sleeper on).1
      rw [decide_eq_true rfl, Bool.toNat_true] at hsleeping
      omega
  | lose h nobody =>
      rw [present] at h
      cases h
      rw [List.any_eq_false] at nobody
      obtain ⟨c, hc, hsleeps⟩ := List.countP_pos_iff.1 asleep
      exact nobody c hc hsleeps

theorem Turn.not_all (turn : Turn m id m') (orderly : Orderly m)
    (asleep : 0 < m'.sleeping on) {rest : List Signal} {answer : Answer α} :
    m.phase? id ≠ some (.signalling (.all on :: rest) answer) := by
  intro present
  cases turn with
  | enter h => rw [present] at h; cases h
  | stir h => rw [present] at h; cases h
  | rouse h => rw [present] at h; cases h
  | lose h => rw [present] at h; cases h
  | rouseAll h =>
      rw [present] at h
      cases h
      have hsleeping := (counts_rouseAll orderly present on).1
      rw [if_pos rfl] at hsleeping
      omega

/-- Who is notified of one condition does not count among those notified of another one. -/
theorem roused_notifyAll (orderly : Orderly m) {on' : Condition} (other : on ≠ on') :
    (m.notifyAll on').roused on = m.roused on := by
  rw [roused, count, notifyAll, List.countP_map, roused, count]
  refine List.countP_congr fun c hc => ?_
  rw [Function.comp_apply]
  obtain h | ⟨request, hphase, h⟩ := c.2.notify_cases on'
  · rw [h]
  · have hpresent : m.phase? c.1 = some (.asleep request on') :=
      hphase ▸ Entries.lookup_of_mem orderly.distinct hc
    have hawaits := orderly.waits c.1 request on' hpresent
    rw [h, hphase, isRoused_of_awaits? hawaits (Ne.symm other)]
    exact Iff.rfl

/-- **Where the sleepers stay the same, those who were notified become fewer as they run.** -/
theorem Turn.roused_cases (turn : Turn m id m') (orderly : Orderly m)
    (still : m'.sleeping on = m.sleeping on) (asleep : 0 < m.sleeping on) :
    m'.roused on < m.roused on ∨
      (m'.roused on = m.roused on ∧
        ∀ phase, m.phase? id = some phase → phase.isRoused on = false) := by
  cases turn with
  | enter present entry =>
      rename_i request notified phase channel
      have hroused := (counts_enter orderly.distinct present phase channel on).2.1
      have hphase : phase.isRoused on = false := by cases entry <;> rfl
      rw [hphase, Bool.toNat_false] at hroused
      cases hbefore : (Phase.ready request notified).isRoused on with
      | true =>
          rw [hbefore, Bool.toNat_true] at hroused
          exact Or.inl (by omega)
      | false =>
          rw [hbefore, Bool.toNat_false] at hroused
          refine Or.inr ⟨hroused, fun phase' hphase' => ?_⟩
          rw [present] at hphase'
          cases hphase'
          exact hbefore
  | rouse present sleeper =>
      obtain ⟨hsleeping, hroused, -⟩ := counts_rouse orderly present sleeper on
      refine Or.inr ⟨by omega, fun phase' hphase' => ?_⟩
      rw [present] at hphase'
      cases hphase'
      rfl
  | lose present =>
      refine Or.inr ⟨(counts_signal orderly.distinct present on).2.1, fun phase' hphase' => ?_⟩
      rw [present] at hphase'
      cases hphase'
      rfl
  | rouseAll present =>
      rename_i on' signals answer
      have hsleeping := (counts_rouseAll orderly present on).1
      have hother : on ≠ on' := by
        intro hon
        rw [if_pos hon] at hsleeping
        omega
      have hdistinct : ((m.notifyAll on').callers.map (·.1)).Nodup :=
        keys_notifyAll m on' ▸ orderly.distinct
      have hpresent : (m.notifyAll on').phase? id =
          some (.signalling (.all on' :: signals) answer) := by
        rw [phase?_notifyAll, present]
        rfl
      refine Or.inr ⟨?_, fun phase' hphase' => ?_⟩
      · rw [(counts_signal hdistinct hpresent on).2.1, roused_notifyAll orderly hother]
      · rw [present] at hphase'
        cases hphase'
        rfl
  | stir present =>
      refine Or.inr ⟨(counts_stir orderly present on).2.1, fun phase' hphase' => ?_⟩
      rw [present] at hphase'
      cases hphase'
      rfl

theorem Next.roused_le (next : Next m m') (orderly : Orderly m)
    (still : m'.sleeping on = m.sleeping on) (asleep : 0 < m.sleeping on) :
    m'.roused on ≤ m.roused on := by
  obtain rfl | ⟨id', request, -, rfl⟩ | ⟨id', turn⟩ := next.cases
  · exact Nat.le_refl _
  · exact Nat.le_of_eq (count_arrive m id' rfl)
  · obtain hless | ⟨hsame, -⟩ := turn.roused_cases orderly still asleep
    · exact Nat.le_of_lt hless
    · exact Nat.le_of_eq hsame

end

/-! ### What stays the same in the end -/

theorem le_of_shrinks {f : Nat → Nat} {t : Nat} (shrinks : ∀ t' ≥ t, f (t' + 1) ≤ f t') :
    ∀ t' ≥ t, f t' ≤ f t := by
  intro t' ht
  induction t', ht using Nat.le_induction with
  | base => exact Nat.le_refl _
  | succ t' ht ih => exact (shrinks t' ht).trans ih

/-- A number that never grows stays the same in the end. -/
theorem exists_stable {f : Nat → Nat} {t : Nat} (shrinks : ∀ t' ≥ t, f (t' + 1) ≤ f t') :
    ∃ t' ≥ t, ∀ t'' ≥ t', f (t'' + 1) = f t'' := by
  -- on the number that is left
  induction hn : f t using Nat.strongRecOn generalizing t with
  | ind n ih =>
      by_cases hstable : ∀ t'' ≥ t, f (t'' + 1) = f t''
      · exact ⟨t, Nat.le_refl t, hstable⟩
      · obtain ⟨t₁, hne⟩ := not_forall.1 hstable
        obtain ⟨ht₁, hne⟩ := Classical.not_imp.1 hne
        have hless := Nat.lt_of_le_of_ne (shrinks t₁ ht₁) hne
        have hlt : f (t₁ + 1) < n := hn ▸ Nat.lt_of_lt_of_le hless (le_of_shrinks shrinks t₁ ht₁)
        obtain ⟨t', ht', hrest⟩ := ih _ hlt (fun t' ht' => shrinks t' (by omega)) rfl
        exact ⟨t', by omega, hrest⟩

section

variable {channel : Channel α} {run : Nat → Monitor α} {t : Nat}

theorem sleeps_iff :
    m.sleeps on id = true ↔ ∃ request, m.phase? id = some (.asleep request on) := by
  rw [Monitor.sleeps, Option.any_eq_true]
  constructor
  · rintro ⟨phase, hphase, hsleeps⟩
    cases phase with
    | asleep request on' =>
        rw [Phase.sleepsOn, beq_iff_eq] at hsleeps
        exact ⟨request, hsleeps ▸ hphase⟩
    | _ => cases hsleeps
  · rintro ⟨request, hphase⟩
    exact ⟨_, hphase, beq_self_eq_true on⟩

theorem sleeping_pos (orderly : Orderly m) (asleep : m.sleeps on id = true) :
    0 < m.sleeping on := by
  obtain ⟨request, hphase⟩ := sleeps_iff.1 asleep
  exact (count_pos_iff orderly.distinct).2 ⟨id, _, hphase, beq_self_eq_true on⟩

/-- Where the sleepers stay the same from some time on, nobody announces anything to them. -/
theorem Fair.announced_eq_zero (fair : Fair run) (execution : Execution channel run)
    (still : ∀ t' ≥ t, (run (t' + 1)).sleeping on = (run t').sleeping on)
    (asleep : ∀ t' ≥ t, 0 < (run t').sleeping on) : (run t).announced on = 0 := by
  by_contra hsome
  obtain ⟨id, phase, present, hphase⟩ :=
    (count_pos_iff (execution.reachable t).orderly.distinct).1 (Nat.pos_of_ne_zero hsome)
  cases phase with
  | signalling signals answer =>
      rw [Phase.announces, Bool.and_eq_true, List.contains_iff_mem] at hphase
      obtain ⟨t', ht, rest, hpresent, turn⟩ := fair.exists_signal execution present hphase.1
      exact turn.not_one (execution.reachable t').orderly (still t' ht) (asleep t' ht) hpresent
  | _ => cases hphase

/-- Where someone sleeps for ever, nobody is about to notify all who sleep. -/
theorem Fair.closing_eq_zero (fair : Fair run) (execution : Execution channel run)
    (asleep : ∀ t' ≥ t, 0 < (run t').sleeping on) : (run t).closing on = 0 := by
  by_contra hsome
  obtain ⟨id, phase, present, hphase⟩ :=
    (count_pos_iff (execution.reachable t).orderly.distinct).1 (Nat.pos_of_ne_zero hsome)
  cases phase with
  | signalling signals answer =>
      rw [Phase.announcesAll, Bool.and_eq_true, List.contains_iff_mem] at hphase
      obtain ⟨t', ht, rest, hpresent, turn⟩ := fair.exists_signal execution present hphase.1
      exact turn.not_all (execution.reachable t').orderly (asleep (t' + 1) (by omega)) hpresent
  | _ => cases hphase

/-- Where those who were notified stay the same as well, there are none. -/
theorem Fair.roused_eq_zero (fair : Fair run) (execution : Execution channel run)
    (still : ∀ t' ≥ t, (run (t' + 1)).sleeping on = (run t').sleeping on)
    (asleep : ∀ t' ≥ t, 0 < (run t').sleeping on)
    (same : ∀ t' ≥ t, (run (t' + 1)).roused on = (run t').roused on) : (run t).roused on = 0 := by
  by_contra hsome
  obtain ⟨id, phase, present, hphase⟩ :=
    (count_pos_iff (execution.reachable t).orderly.distinct).1 (Nat.pos_of_ne_zero hsome)
  have hawake : phase.isAwake = true := by
    cases phase with
    | ready => rfl
    | _ => cases hphase
  obtain ⟨t', ht, hpresent, turn⟩ := fair.exists_turn execution present hawake
  obtain hless | ⟨-, hidle⟩ :=
    turn.roused_cases (execution.reachable t').orderly (still t' ht) (asleep t' ht)
  · exact Nat.ne_of_lt hless (same t' ht)
  · exact Bool.false_ne_true ((hidle phase hpresent).symm.trans hphase)

/-- **Nobody sleeps for ever next to something to be had, or in a closed channel.** -/
theorem Fair.not_for_ever (fair : Fair run) (execution : Execution channel run) (t id : Nat)
    (on : Condition) :
    ∃ t' ≥ t, ¬((run t').sleeps on id = true ∧
      ((run t').channel.closed = true ∨ 0 < (run t').channel.available on)) := by
  by_contra hnever
  have hwaits (t' : Nat) (ht : t' ≥ t) := by_contra fun h => hnever ⟨t', ht, h⟩
  have horderly (t' : Nat) := (execution.reachable t').orderly
  have hasleep (t' : Nat) (ht : t' ≥ t) := sleeping_pos (horderly t') (hwaits t' ht).1
  obtain ⟨t₁, ht₁, hstill⟩ := exists_stable (t := t) (f := fun t' => (run t').sleeping on)
    fun t' ht => (execution.next t').sleeping_le (horderly t') (hwaits (t' + 1) (by omega)).2
  obtain ⟨t₂, ht₂, hsame⟩ := exists_stable (t := t₁) (f := fun t' => (run t').roused on)
    fun t' ht => (execution.next t').roused_le (horderly t') (hstill t' ht)
      (hasleep t' (by omega))
  have hstill₂ (t' : Nat) (ht : t' ≥ t₂) := hstill t' (by omega)
  have hasleep₂ (t' : Nat) (ht : t' ≥ t₂) := hasleep t' (by omega)
  have hroused := fair.roused_eq_zero execution hstill₂ hasleep₂ hsame
  have hannounced := fair.announced_eq_zero execution hstill₂ hasleep₂
  have hclosing := fair.closing_eq_zero execution hasleep₂
  have hbalance := (execution.reachable t₂).sufficient on
  have hpos := hasleep₂ t₂ (Nat.le_refl _)
  -- nothing is spoken for, so nothing is there and the channel is open
  obtain ⟨-, hthere⟩ := hwaits t₂ (by omega)
  cases hclosed : (run t₂).channel.closed with
  | true =>
      have hcloser := hbalance.shut hclosed hpos
      omega
  | false =>
      have hspoken := hbalance.opened hclosed hpos
      rw [hclosed] at hthere
      obtain hthere | hthere := hthere
      · cases hthere
      · omega

end

/-! ### Lives that come to rest -/

/-- What happens one after the other, as far as it can happen, and then nothing any more. -/
def playing : List (Act α) → Monitor α → Nat → Monitor α
  | [], m, _ => m
  | _ :: _, m, 0 => m
  | act :: acts, m, t + 1 =>
      match m.act? act with
      | some m' => playing acts m' t
      | none => m

theorem playing_zero (acts : List (Act α)) (m : Monitor α) : playing acts m 0 = m := by
  cases acts <;> rfl

theorem next_playing (acts : List (Act α)) (m : Monitor α) (t : Nat) :
    Next (playing acts m t) (playing acts m (t + 1)) := by
  induction acts generalizing m t with
  | nil => exact Or.inl rfl
  | cons act acts ih =>
      cases h : m.act? act with
      | none => cases t <;> simp only [playing, h] <;> exact Or.inl rfl
      | some m' =>
          cases t with
          | zero =>
              simp only [playing, h, playing_zero]
              exact Or.inr ⟨act, h⟩
          | succ t =>
              simp only [playing, h]
              exact ih m' t

theorem playing_of_length_le (acts : List (Act α)) (m : Monitor α) {t : Nat}
    (late : acts.length ≤ t) : playing acts m t = playing acts m acts.length := by
  induction acts generalizing m t with
  | nil => rfl
  | cons act acts ih =>
      obtain ⟨t, rfl⟩ : ∃ t₁, t = t₁ + 1 := ⟨t - 1, by simp only [List.length_cons] at late; omega⟩
      rw [List.length_cons] at late ⊢
      simp only [playing]
      split
      · exact ih _ (Nat.le_of_succ_le_succ late)
      · rfl

/-- **What comes to rest where nobody can go on is the life of a channel in which everyone goes on
who can.** -/
theorem fair_playing (channel : Channel α) (acts : List (Act α))
    (rests : (playing acts (.ofChannel channel) acts.length).callers.any (·.2.isAwake) = false) :
    Execution channel (playing acts (.ofChannel channel)) ∧
      Fair (playing acts (.ofChannel channel)) := by
  refine ⟨⟨playing_zero acts _, next_playing acts _⟩, fun t id phase present awake => ?_⟩
  refine ⟨max t acts.length, Nat.le_max_left _ _, fun hstays => ?_⟩
  rw [playing_of_length_le acts _ (Nat.le_max_right _ _)] at hstays
  exact List.any_eq_false.1 rests (id, phase) (Entries.mem_of_lookup hstays) awake

/-! ### No wakeup is lost -/

/-- **No wakeup is lost.**  Those who sleep wait for what their request needs, so pushers wait for
free slots and poppers for items.  As long as the channel is open and a pusher sleeps, there are at
most as many free slots as there are pushers that have been notified and did not run yet, and pops
that are finished and still to notify one; the same holds for poppers and items.  Who sleeps in a
closed channel will be notified by the one who closed it.  So where nobody can go on, those who
sleep have nothing to take in an open channel; and in a life of the channel in which everyone goes
on who can, nobody sleeps for ever next to a free slot, an item or a closed channel. -/
theorem no_lost_wakeup (channel : Channel α) :
    (∀ m, Reachable channel m →
      (∀ id request on, m.phase? id = some (.asleep request on) → request.awaits? = some on) ∧
      (m.channel.closed = false → ∀ id a, m.phase? id = some (.asleep (.push a) .notFull) →
        m.channel.capacity - m.channel.items.length ≤ m.roused .notFull + m.announced .notFull) ∧
      (m.channel.closed = false → ∀ id, m.phase? id = some (.asleep .pop .notEmpty) →
        m.channel.items.length ≤ m.roused .notEmpty + m.announced .notEmpty) ∧
      (m.channel.closed = true → ∀ id request on, m.phase? id = some (.asleep request on) →
        0 < m.closing on) ∧
      ((∀ id phase, m.phase? id = some phase → phase.isAwake = false) →
        ∀ id request on, m.phase? id = some (.asleep request on) →
          m.channel.closed = false ∧ m.channel.available on = 0)) ∧
    ∀ run, Execution channel run → Fair run → ∀ t id on, ∃ t' ≥ t,
      ¬((run t').sleeps on id = true ∧
        ((run t').channel.closed = true ∨ 0 < (run t').channel.available on)) := by
  refine ⟨?_, fun run execution fair t id on => fair.not_for_ever execution t id on⟩
  intro m reached
  have orderly := reached.orderly
  have hpos {id : Nat} {request : Request α} {on : Condition}
      (asleep : m.phase? id = some (.asleep request on)) : 0 < m.sleeping on :=
    sleeping_pos orderly (sleeps_iff.2 ⟨request, asleep⟩)
  refine ⟨orderly.waits, ?_, ?_, ?_, ?_⟩
  · intro opened id a asleep
    exact (reached.sufficient .notFull).opened opened (hpos asleep)
  · intro opened id asleep
    exact (reached.sufficient .notEmpty).opened opened (hpos asleep)
  · intro shut id request on asleep
    exact (reached.sufficient on).shut shut (hpos asleep)
  · intro rests id request on asleep
    -- where nobody can go on, nobody counts as one for whom something is meant
    have hnone {p : Phase α → Bool} (hp : ∀ phase, p phase = true → phase.isAwake = true) :
        m.count p = 0 := by
      by_contra hsome
      obtain ⟨id', phase, present, hphase⟩ :=
        (count_pos_iff orderly.distinct).1 (Nat.pos_of_ne_zero hsome)
      exact Bool.false_ne_true ((rests id' phase present).symm.trans (hp phase hphase))
    have hroused : m.roused on = 0 := hnone fun phase h => by cases phase <;> first | rfl | cases h
    have hannounced : m.announced on = 0 :=
      hnone fun phase h => by cases phase <;> first | rfl | cases h
    have hclosing : m.closing on = 0 :=
      hnone fun phase h => by cases phase <;> first | rfl | cases h
    have hbalance := reached.sufficient on
    cases hclosed : m.channel.closed with
    | true =>
        have hcloser := hbalance.shut hclosed (hpos asleep)
        omega
    | false =>
        have hspoken := hbalance.opened hclosed (hpos asleep)
        exact ⟨rfl, by omega⟩

/-- A push waits for room, and a pop makes some.  While the pop is still to notify the one who
waits, the free slot is spoken for; in the end the push does not sleep next to it. -/
theorem no_lost_wakeup_push :
    ∃ (m : Monitor Nat) (run : Nat → Monitor Nat), Reachable ⟨1, [], false⟩ m ∧
      m.phase? 1 = some (.asleep (.push 8) .notFull) ∧ m.channel.items = [] ∧
      1 ≤ m.roused .notFull + m.announced .notFull ∧
      Execution ⟨1, [], false⟩ run ∧ Fair run ∧ run 7 = m ∧
      ∃ t' ≥ 7, ¬((run t').sleeps .notFull 1 = true ∧
        ((run t').channel.closed = true ∨ 0 < (run t').channel.available .notFull)) := by
  obtain ⟨hstates, hlives⟩ := no_lost_wakeup (α := Nat) ⟨1, [], false⟩
  obtain ⟨execution, fair⟩ := fair_playing ⟨1, [], false⟩
    [.arrive 0 (.push 7), .step 0 .enter, .step 0 (.signal none), .arrive 1 (.push 8),
      .step 1 .enter, .arrive 2 .pop, .step 2 .enter, .step 2 (.signal (some 1)), .step 1 .enter,
      .step 1 (.signal none)] rfl
  refine ⟨_, _, execution.reachable 7, rfl, rfl, ?_, execution, fair, rfl,
    hlives _ execution fair 7 1 .notFull⟩
  exact (hstates _ (execution.reachable 7)).2.1 rfl 1 8 rfl

end Monitor

end Channel

end TraceLog
