/-
**A channel is a first-in first-out queue, however its callers interleave.**

Each call has one moment at which it takes effect: the critical section behind which its answer is
fixed.  A caller that has to wait may go through several critical sections before that one, and
others may slip in between; what it gets is decided by the channel as it is at that moment.  So the
calls can be put in an order, the order of these moments, in which they might as well have been made
one after the other.  Whatever is said about insertions and removals is then a fact about the queue
of `TraceLog/Proofs/Channel/Sequential.lean`.

Main definitions:

* `Channel.Monitor.Run` — a run of the callers, with what they see and the order of the decisions;
* `Channel.Monitor.follow?` — the run that things make which happen one after the other;
* `Channel.Explains` — an order of the calls explains what the callers saw.

Main results:

* `Channel.Monitor.reachable_iff` — the states that runs lead to are the reachable ones;
* `Channel.Entry.serves`, `Channel.Monitor.Turn.course` — a turn decides nothing, or it decides one
  call as the plain queue would;
* `Channel.Monitor.Run.legal`, `Channel.Monitor.Run.explains` — **the decisions of a run are in an
  order that the plain queue can follow and that explains what the callers saw**;
* `Channel.Monitor.first_in_first_out` — **every channel is a bounded queue, first in first out**.
-/

import TraceLog.Proofs.Channel.Sequential

set_option relaxedAutoImplicit false
set_option autoImplicit false

namespace TraceLog

namespace Channel

variable {α : Type}

/-! ### Runs -/

/-- What a caller sees of its call. -/
inductive Moment (α : Type) where
  | called (caller : Nat) (request : Request α)
  | answered (caller : Nat) (answer : Answer α)

/-- The request of a caller whose answer is not fixed. -/
def Phase.request? : Phase α → Option (Request α)
  | .ready request _ | .asleep request _ => some request
  | .signalling _ _ | .returned _ => none

/-- The answer of a caller once it is fixed. -/
def Phase.settled? : Phase α → Option (Answer α)
  | .ready _ _ | .asleep _ _ => none
  | .signalling _ answer | .returned answer => some answer

/-- The items that a request throws away. -/
def Request.drops (c : Channel α) : Request α → List α
  | .discard => c.items
  | .push _ | .tryPush _ | .pop | .close => []

/-- **A critical section makes its caller wait, or it does what a plain queue does.** -/
theorem Entry.serves {c c' : Channel α} {request : Request α} {phase : Phase α}
    (entry : Entry c request phase c') :
    (c' = c ∧ phase.request? = some request ∧ phase.settled? = none) ∨
      ∃ answer, phase.request? = none ∧ phase.settled? = some answer ∧
        ∀ caller, Serves c ⟨caller, request, answer, request.drops c⟩ c' := by
  cases entry with
  | insert item offered =>
      rename_i a
      refine Or.inr ⟨_, rfl, rfl, fun caller => ?_⟩
      have hlength := length_le_of_offer offered
      obtain ⟨hitems, hcapacity, hclosed⟩ := items_of_offer offered
      have hc : c' = { c with items := c.items ++ [a] } := by
        cases c'
        simp_all
      have hdrops : request.drops c = [] := by
        cases request with
        | discard => cases item
        | _ => rfl
      rw [hc, List.length_append, List.length_singleton] at hlength
      rw [hc, hdrops]
      exact .insert item (open_of_offer offered) hlength
  | remove received =>
      rename_i a
      refine Or.inr ⟨_, rfl, rfl, fun caller => ?_⟩
      obtain ⟨hitems, hcapacity, hclosed⟩ := items_of_receive received
      have hc : c' = { c with items := c'.items } := by
        cases c'
        simp_all
      rw [hc]
      exact .remove hitems
  | wait => exact Or.inl ⟨rfl, rfl, rfl⟩
  | refuse shut => exact Or.inr ⟨_, rfl, rfl, fun _ => .refuse shut⟩
  | full shut nothing =>
      exact Or.inr ⟨_, rfl, rfl, fun _ => .full shut (Nat.sub_eq_zero_iff_le.1 nothing)⟩
  | shut shut => exact Or.inr ⟨_, rfl, rfl, fun _ => .shut shut⟩
  | drained shut nothing => exact Or.inr ⟨_, rfl, rfl, fun _ => .drained shut nothing⟩
  | close => exact Or.inr ⟨_, rfl, rfl, fun _ => .close⟩
  | discard => exact Or.inr ⟨_, rfl, rfl, fun _ => .discard⟩

namespace Monitor

variable {m m' : Monitor α} {id id' : Nat}

/-- The request of a caller whose answer is not fixed. -/
def request? (m : Monitor α) (id : Nat) : Option (Request α) := (m.phase? id).bind Phase.request?

/-- The answer of a caller once it is fixed. -/
def settled? (m : Monitor α) (id : Nat) : Option (Answer α) := (m.phase? id).bind Phase.settled?

/-- The call that a turn decides: the caller had no answer in front of it, and has one behind it. -/
def decision? (m m' : Monitor α) (id : Nat) : Option (Decision α) :=
  (m.request? id).bind fun request => (m'.settled? id).map fun answer =>
    ⟨id, request, answer, request.drops m.channel⟩

/-- A run of the callers from a state: what they see, the calls in the order in which they are
decided, and the state behind it. -/
inductive Run (origin : Monitor α) : List (Moment α) → List (Decision α) → Monitor α → Prop where
  | start : Run origin [] [] origin
  | arrive {log : List (Moment α)} {order : List (Decision α)} {m : Monitor α} (id : Nat)
      (request : Request α) (run : Run origin log order m) (fresh : m.phase? id = none) :
      Run origin (log ++ [.called id request]) order (m.arrive id request)
  | step {log : List (Moment α)} {order : List (Decision α)} {m m' : Monitor α} (id : Nat)
      (move : Move) (run : Run origin log order m) (stepped : m.step? id move = some m') :
      Run origin (log ++ ((m'.answer? id).map (Moment.answered id)).toList)
        (order ++ (m.decision? m' id).toList) m'

/-- Let things happen one after the other, or `none` where one of them cannot happen. -/
def follow? (m : Monitor α) :
    List (Act α) → Option (List (Moment α) × List (Decision α) × Monitor α)
  | [] => some ([], [], m)
  | .arrive id request :: acts =>
      if (m.phase? id).isNone then
        (follow? (m.arrive id request) acts).map fun (log, order, m') =>
          (.called id request :: log, order, m')
      else none
  | .step id move :: acts =>
      (m.step? id move).bind fun m₁ => (follow? m₁ acts).map fun (log, order, m') =>
        (((m₁.answer? id).map (Moment.answered id)).toList ++ log,
          (m.decision? m₁ id).toList ++ order, m')

theorem Run.append {origin : Monitor α} {log log' : List (Moment α)}
    {order order' : List (Decision α)} (run : Run origin log order m)
    (behind : Run m log' order' m') : Run origin (log ++ log') (order ++ order') m' := by
  induction behind with
  | start =>
      rw [List.append_nil, List.append_nil]
      exact run
  | arrive id request behind fresh ih =>
      rw [← List.append_assoc]
      exact .arrive id request ih fresh
  | step id move behind stepped ih =>
      rw [← List.append_assoc, ← List.append_assoc]
      exact .step id move ih stepped

/-- What happens one after the other is a run. -/
theorem run_follow? (acts : List (Act α)) {log : List (Moment α)} {order : List (Decision α)}
    (h : m.follow? acts = some (log, order, m')) : Run m log order m' := by
  induction acts generalizing m log order with
  | nil =>
      cases h
      exact .start
  | cons act acts ih =>
      cases act with
      | arrive id request =>
          rw [follow?] at h
          split at h
          · rename_i fresh
            obtain ⟨⟨log', order', m₂⟩, hbehind, hsplit⟩ := Option.map_eq_some_iff.1 h
            cases hsplit
            exact (Run.arrive id request .start (Option.isNone_iff_eq_none.1 fresh)).append
              (ih hbehind)
          · cases h
      | step id move =>
          rw [follow?, Option.bind_eq_some_iff] at h
          obtain ⟨m₁, stepped, h⟩ := h
          obtain ⟨⟨log', order', m₂⟩, hbehind, hsplit⟩ := Option.map_eq_some_iff.1 h
          cases hsplit
          exact (Run.step id move .start stepped).append (ih hbehind)

/-! ### What a turn decides -/

theorem settled?_of_request? {request : Request α} (h : m.request? id = some request) :
    m.settled? id = none := by
  rw [request?, Option.bind_eq_some_iff] at h
  obtain ⟨phase, hphase, hrequest⟩ := h
  rw [settled?, hphase, Option.bind_some]
  cases phase with
  | ready => rfl
  | asleep => rfl
  | _ => cases hrequest

theorem settled?_afterSignals (signals : List Signal) (answer : Answer α) :
    (Phase.afterSignals signals answer).settled? = some answer ∧
      (Phase.afterSignals signals answer).request? = none := by
  obtain ⟨-, h⟩ | ⟨-, h⟩ := Phase.afterSignals_cases signals answer <;> rw [h] <;> exact ⟨rfl, rfl⟩

/-- A turn leaves the calls of others undecided or decided as they are. -/
theorem Turn.others (turn : Turn m id m') (other : id' ≠ id) :
    m'.request? id' = m.request? id' ∧ m'.settled? id' = m.settled? id' := by
  cases turn with
  | enter present => rw [request?, settled?, phase?_enter present, if_neg other]; exact ⟨rfl, rfl⟩
  | rouse present sleeper =>
      rename_i target request
      rw [request?, settled?, phase?_rouse present sleeper, if_neg other]
      -- the one who is notified asks for the same as before
      by_cases htarget : id' = target
      · rw [if_pos htarget, htarget, request?, settled?, sleeper]
        exact ⟨rfl, rfl⟩
      · rw [if_neg htarget]
        exact ⟨rfl, rfl⟩
  | lose present =>
      rw [request?, settled?, phase?_setPhase present, if_neg other]
      exact ⟨rfl, rfl⟩
  | rouseAll present =>
      rename_i on signals answer
      rw [request?, settled?, phase?_rouseAll present, if_neg other, request?, settled?]
      cases hphase : m.phase? id' with
      | none => exact ⟨rfl, rfl⟩
      | some phase =>
          cases phase with
          | asleep request on' =>
              simp only [Option.map_some, Option.bind_some, Phase.notify]
              split <;> exact ⟨rfl, rfl⟩
          | _ => exact ⟨rfl, rfl⟩
  | stir present =>
      rw [request?, settled?, phase?_setPhase present, if_neg other]
      exact ⟨rfl, rfl⟩

/-- **A turn decides nothing, or it decides the call of the one whose turn it is.** -/
theorem Turn.course (turn : Turn m id m') :
    (m'.channel = m.channel ∧ m'.request? id = m.request? id ∧ m'.settled? id = m.settled? id) ∨
      ∃ request answer, m.request? id = some request ∧ m'.request? id = none ∧
        m'.settled? id = some answer ∧
        Serves m.channel ⟨id, request, answer, request.drops m.channel⟩ m'.channel := by
  -- behind a notification the answer is the one of before
  have hafter {signals signals' : List Signal} {answer : Answer α}
      (present : m.phase? id = some (.signalling signals answer))
      (behind : m'.phase? id = some (.afterSignals signals' answer)) :
      m'.request? id = m.request? id ∧ m'.settled? id = m.settled? id := by
    obtain ⟨hsettled, hrequest⟩ := settled?_afterSignals signals' answer
    rw [request?, settled?, request?, settled?, present, behind]
    exact ⟨hrequest, hsettled⟩
  cases turn with
  | enter present entry =>
      rename_i request notified phase channel
      have hbehind : ({ m with channel }.setPhase id phase).phase? id = some phase := by
        rw [phase?_enter present, if_pos rfl]
      have hrequest : m.request? id = some request := by rw [request?, present]; rfl
      have hsettled := settled?_of_request? hrequest
      simp only [request?, settled?, hbehind, Option.bind_some] at hrequest hsettled ⊢
      obtain ⟨hc, hwaits, hnone⟩ | ⟨answer, hdone, hanswer, hserves⟩ := entry.serves
      · exact Or.inl ⟨hc, hwaits.trans hrequest.symm, hnone.trans hsettled.symm⟩
      · exact Or.inr ⟨request, answer, hrequest, hdone, hanswer, hserves id⟩
  | rouse present sleeper =>
      exact Or.inl ⟨rfl, hafter present (by rw [phase?_rouse present sleeper, if_pos rfl])⟩
  | lose present => exact Or.inl ⟨rfl, hafter present (by rw [phase?_setPhase present, if_pos rfl])⟩
  | rouseAll present =>
      exact Or.inl ⟨rfl, hafter present (by rw [phase?_rouseAll present, if_pos rfl])⟩
  | stir present =>
      refine Or.inl ⟨rfl, ?_⟩
      rw [request?, settled?, phase?_setPhase present, if_pos rfl, request?, settled?, present]
      exact ⟨rfl, rfl⟩

/-- What a turn decides is what a plain queue does; a turn that decides nothing changes nothing. -/
theorem Turn.decides (turn : Turn m id m') :
    (m.decision? m' id = none ∧ m'.channel = m.channel ∧
        m'.request? id = m.request? id ∧ m'.settled? id = m.settled? id) ∨
      ∃ d, m.decision? m' id = some d ∧ d.caller = id ∧ m.request? id = some d.request ∧
        m'.request? id = none ∧ m'.settled? id = some d.answer ∧ Serves m.channel d m'.channel := by
  obtain ⟨hchannel, hrequest, hsettled⟩ | ⟨request, answer, hrequest, hdone, hanswer, hserves⟩ :=
    turn.course
  · refine Or.inl ⟨?_, hchannel, hrequest, hsettled⟩
    rw [decision?, hsettled]
    cases h : m.request? id with
    | none => rfl
    | some request => rw [settled?_of_request? h]; rfl
  · refine Or.inr ⟨_, ?_, rfl, hrequest, hdone, hanswer, hserves⟩
    rw [decision?, hrequest, hanswer]
    rfl

theorem answer?_eq_some_iff {answer : Answer α} :
    m.answer? id = some answer ↔ m.phase? id = some (.returned answer) := by
  rw [answer?]
  split
  · rename_i answer' hphase
    rw [hphase]
    simp
  · rename_i hphase
    simp only [reduceCtorEq, false_iff]
    exact hphase answer

/-- Whose call is over takes no turn. -/
theorem Turn.ne_of_answer? (turn : Turn m id m') {answer : Answer α}
    (ended : m.answer? id' = some answer) : id' ≠ id := by
  rintro rfl
  rw [answer?_eq_some_iff] at ended
  cases turn with
  | enter present => rw [ended] at present; cases present
  | rouse present => rw [ended] at present; cases present
  | lose present => rw [ended] at present; cases present
  | rouseAll present => rw [ended] at present; cases present
  | stir present => rw [ended] at present; cases present

/-- A call that is over stays over. -/
theorem Turn.answer?_keeps (turn : Turn m id m') {answer : Answer α}
    (ended : m.answer? id' = some answer) : m'.answer? id' = some answer := by
  have hother := turn.ne_of_answer? ended
  rw [answer?_eq_some_iff] at ended ⊢
  exact turn.keeps_awake hother ended rfl

theorem settled?_of_answer? {answer : Answer α} (ended : m.answer? id = some answer) :
    m.settled? id = some answer := by
  rw [answer?_eq_some_iff] at ended
  rw [settled?, ended]
  rfl

/-! ### An order that explains a run -/

end Monitor

/-- An order of calls explains what the callers saw: no call is in it twice, each call in it was
made, each call that is over is in it with its answer, and a call that was over before another one
was made stands in front of the other one. -/
structure Explains (order : List (Decision α)) (log : List (Moment α)) : Prop where
  once : (order.map (·.caller)).Nodup
  called : ∀ d ∈ order, .called d.caller d.request ∈ log
  answered : ∀ caller answer, .answered caller answer ∈ log →
    ∃ d ∈ order, d.caller = caller ∧ d.answer = answer
  inTime : ∀ d ∈ order, ∀ d' ∈ order, ∀ answer request,
    [.answered d.caller answer, .called d'.caller request].Sublist log → [d, d'].Sublist order

/-- Two things that happen one after the other, when something more happens. -/
theorem pair_sublist_concat {β : Type} {x y z : β} {l : List β} (h : [x, y].Sublist (l ++ [z])) :
    [x, y].Sublist l ∨ (x ∈ l ∧ y = z) := by
  obtain ⟨front, behind, hsplit, hfront, hbehind⟩ := List.sublist_append_iff.1 h
  cases front with
  | nil =>
      have hle := hbehind.length_le
      rw [← List.nil_append behind, ← hsplit] at hle
      simp at hle
  | cons x' front =>
      simp only [List.cons_append, List.cons.injEq] at hsplit
      obtain ⟨rfl, hrest⟩ := hsplit
      cases front with
      | nil =>
          rw [List.nil_append] at hrest
          rw [← hrest, List.singleton_sublist, List.mem_singleton] at hbehind
          exact Or.inr ⟨List.singleton_sublist.1 hfront, hbehind⟩
      | cons y' front =>
          simp only [List.cons_append, List.cons.injEq, List.nil_eq_append_iff] at hrest
          obtain ⟨rfl, rfl, -⟩ := hrest
          exact Or.inl hfront

namespace Monitor

variable {m m' : Monitor α} {id id' : Nat}

/-- What the log and the order of a run say about the callers. -/
structure Tracked (m : Monitor α) (log : List (Moment α)) (order : List (Decision α)) : Prop where
  settled : ∀ d ∈ order, m.settled? d.caller = some d.answer
  decided : ∀ id answer, m.settled? id = some answer →
    ∃ d ∈ order, d.caller = id ∧ d.answer = answer
  asked : ∀ id request, m.request? id = some request → .called id request ∈ log
  ended : ∀ id answer, .answered id answer ∈ log → m.answer? id = some answer

theorem Tracked.arrive {log : List (Moment α)} {order : List (Decision α)} (h : Tracked m log order)
    (fresh : m.phase? id = none) (request : Request α) :
    Tracked (m.arrive id request) (log ++ [.called id request]) order := by
  have hnone : m.settled? id = none := by rw [settled?, fresh]; rfl
  have hsettled (id' : Nat) : (m.arrive id request).settled? id' = m.settled? id' := by
    rw [settled?, phase?_arrive fresh]
    by_cases hid : id' = id
    · rw [if_pos hid, hid, hnone]
      rfl
    · rw [if_neg hid]
      rfl
  constructor
  · intro d hd
    rw [hsettled]
    exact h.settled d hd
  · intro id' answer hanswer
    rw [hsettled] at hanswer
    exact h.decided id' answer hanswer
  · intro id' request' hrequest
    rw [request?, phase?_arrive fresh] at hrequest
    split at hrequest
    · rename_i hid
      cases hrequest
      rw [hid]
      exact List.mem_append_right _ (List.mem_singleton_self _)
    · exact List.mem_append_left _ (h.asked id' request' hrequest)
  · intro id' answer hanswer
    have hover := h.ended id' answer (by simpa using hanswer)
    rw [answer?_eq_some_iff] at hover ⊢
    rw [phase?_arrive fresh, if_neg, hover]
    rintro rfl
    rw [fresh] at hover
    cases hover

/-- Who is yet to be answered has not been decided. -/
theorem Tracked.not_decided {log : List (Moment α)} {order : List (Decision α)}
    (h : Tracked m log order) {request : Request α} (waits : m.request? id = some request) :
    ∀ d ∈ order, d.caller ≠ id := by
  rintro d hd rfl
  have hsettled := h.settled d hd
  rw [settled?_of_request? waits] at hsettled
  cases hsettled

/-- Who is yet to be answered has not been answered. -/
theorem Tracked.not_answered {log : List (Moment α)} {order : List (Decision α)}
    (h : Tracked m log order) {request : Request α} (waits : m.request? id = some request)
    (answer : Answer α) : .answered id answer ∉ log := by
  intro hanswer
  have hsettled := settled?_of_answer? (h.ended id answer hanswer)
  rw [settled?_of_request? waits] at hsettled
  cases hsettled

theorem Tracked.turn {log : List (Moment α)} {order : List (Decision α)} (h : Tracked m log order)
    (turn : Turn m id m') :
    Tracked m' (log ++ ((m'.answer? id).map (Moment.answered id)).toList)
      (order ++ (m.decision? m' id).toList) := by
  constructor
  · intro d hd
    obtain hold | hnew := List.mem_append.1 hd
    · have hbefore := h.settled d hold
      by_cases hid : d.caller = id
      · -- a call that is decided is not decided again
        obtain ⟨-, -, -, hsame⟩ | ⟨_, -, -, hrequest, -⟩ := turn.decides
        · rw [hid, hsame, ← hid]
          exact hbefore
        · rw [hid, settled?_of_request? hrequest] at hbefore
          cases hbefore
      · rw [(turn.others hid).2]
        exact hbefore
    · obtain ⟨hnone, -⟩ | ⟨d', hsome, hcaller, -, -, hanswer, -⟩ := turn.decides
      · rw [hnone] at hnew
        cases hnew
      · rw [hsome, Option.toList_some, List.mem_singleton] at hnew
        rw [hnew, hcaller]
        exact hanswer
  · intro id' answer hanswer
    by_cases hid : id' = id
    · subst hid
      obtain ⟨-, -, -, hsame⟩ | ⟨d, hsome, hcaller, -, -, hd, -⟩ := turn.decides
      · rw [hsame] at hanswer
        obtain ⟨d, hmem, hd⟩ := h.decided id' answer hanswer
        exact ⟨d, List.mem_append_left _ hmem, hd⟩
      · rw [hd, Option.some.injEq] at hanswer
        exact ⟨d, List.mem_append_right _ (by rw [hsome]; exact List.mem_singleton_self d),
          hcaller, hanswer⟩
    · rw [(turn.others hid).2] at hanswer
      obtain ⟨d, hmem, hd⟩ := h.decided id' answer hanswer
      exact ⟨d, List.mem_append_left _ hmem, hd⟩
  · intro id' request hrequest
    refine List.mem_append_left _ (h.asked id' request ?_)
    by_cases hid : id' = id
    · subst hid
      obtain ⟨-, -, hsame, -⟩ | ⟨_, -, -, -, hnone, -⟩ := turn.decides
      · rwa [hsame] at hrequest
      · rw [hnone] at hrequest
        cases hrequest
    · rwa [(turn.others hid).1] at hrequest
  · intro id' answer hanswer
    obtain hold | hnew := List.mem_append.1 hanswer
    · exact turn.answer?_keeps (h.ended id' answer hold)
    · rw [Option.mem_toList, Option.map_eq_some_iff] at hnew
      obtain ⟨answer', hover, hsame⟩ := hnew
      cases hsame
      exact hover

/-- When someone calls, the order still explains what the callers have seen. -/
theorem Tracked.explains_arrive {log : List (Moment α)} {order : List (Decision α)}
    (h : Tracked m log order) (explains : Explains order log) (fresh : m.phase? id = none)
    (request : Request α) : Explains order (log ++ [.called id request]) where
  once := explains.once
  called d hd := List.mem_append_left _ (explains.called d hd)
  answered caller answer hanswer := explains.answered caller answer (by simpa using hanswer)
  inTime d hd d' hd' answer request' hpair := by
    obtain hbefore | ⟨-, hnew⟩ := pair_sublist_concat hpair
    · exact explains.inTime d hd d' hd' answer request' hbefore
    · -- who has just called has not been decided
      have hsettled := h.settled d' hd'
      cases hnew
      rw [settled?, fresh] at hsettled
      cases hsettled

/-- **Behind a turn the order of the decisions explains what the callers have seen.** -/
theorem Tracked.explains_turn {log : List (Moment α)} {order : List (Decision α)}
    (h : Tracked m log order) (explains : Explains order log) (turn : Turn m id m') :
    Explains (order ++ (m.decision? m' id).toList)
      (log ++ ((m'.answer? id).map (Moment.answered id)).toList) := by
  have tracked := h.turn turn
  have hanswered (caller : Nat) (answer : Answer α)
      (hanswer : .answered caller answer ∈
        log ++ ((m'.answer? id).map (Moment.answered id)).toList) :=
    tracked.decided caller answer (settled?_of_answer? (tracked.ended caller answer hanswer))
  -- what is seen last is no call
  have hseen (caller : Nat) (answer : Answer α) (caller' : Nat) (request : Request α)
      (hpair : [.answered caller answer, .called caller' request].Sublist
        (log ++ ((m'.answer? id).map (Moment.answered id)).toList)) :
      [.answered caller answer, .called caller' request].Sublist log := by
    cases hover : m'.answer? id with
    | none => simpa [hover] using hpair
    | some answer' =>
        rw [hover] at hpair
        obtain hbefore | ⟨-, hnew⟩ := pair_sublist_concat hpair
        · exact hbefore
        · cases hnew
  obtain ⟨hnone, -⟩ | ⟨d, hsome, hcaller, hrequest, -⟩ := turn.decides
  · rw [hnone, Option.toList_none, List.append_nil] at hanswered ⊢
    refine ⟨explains.once, ?_, hanswered, ?_⟩
    · intro d hd
      exact List.mem_append_left _ (explains.called d hd)
    · intro d hd d' hd' answer request hpair
      exact explains.inTime d hd d' hd' answer request (hseen _ _ _ _ hpair)
  · rw [hsome, Option.toList_some] at hanswered ⊢
    refine ⟨?_, ?_, hanswered, ?_⟩
    · rw [List.map_append, List.nodup_append']
      refine ⟨explains.once, List.nodup_singleton _, ?_⟩
      rw [List.map_singleton, List.disjoint_singleton, hcaller]
      intro hmem
      obtain ⟨d', hd', hid⟩ := List.mem_map.1 hmem
      exact h.not_decided hrequest d' hd' hid
    · intro d' hd'
      refine List.mem_append_left _ ?_
      obtain hold | hnew := List.mem_append.1 hd'
      · exact explains.called d' hold
      · rw [List.mem_singleton.1 hnew, hcaller]
        exact h.asked id d.request hrequest
    · intro d₁ h₁ d₂ h₂ answer request hpair
      have hbefore := hseen _ _ _ _ hpair
      obtain hold₁ | hnew₁ := List.mem_append.1 h₁
      · obtain hold₂ | hnew₂ := List.mem_append.1 h₂
        · exact (explains.inTime d₁ hold₁ d₂ hold₂ answer request hbefore).trans
            (List.sublist_append_left _ _)
        · rw [List.mem_singleton.1 hnew₂]
          exact (List.singleton_sublist.2 hold₁).append (List.Sublist.refl [d])
      · -- the call that is decided now is not over
        rw [List.mem_singleton.1 hnew₁, hcaller] at hbefore
        exact absurd (hbefore.subset List.mem_cons_self) (h.not_answered hrequest answer)

/-- **Every run of the callers is explained by the order of the decisions.** -/
theorem Run.explains {channel : Channel α} {log : List (Moment α)} {order : List (Decision α)}
    (run : Run (.ofChannel channel) log order m) : Explains order log ∧ Tracked m log order := by
  induction run with
  | start =>
      refine ⟨⟨List.nodup_nil, nofun, nofun, nofun⟩, ⟨nofun, ?_, ?_, nofun⟩⟩
      · intro id answer hanswer
        cases hanswer
      · intro id request hrequest
        cases hrequest
  | arrive id request run fresh ih =>
      exact ⟨ih.2.explains_arrive ih.1 fresh request, ih.2.arrive fresh request⟩
  | step id move run stepped ih =>
      have turn := turn_of_step? stepped
      exact ⟨ih.2.explains_turn ih.1 turn, ih.2.turn turn⟩

/-- A run decides its calls as a plain queue would, from wherever it starts. -/
theorem Run.legal {origin : Monitor α} {log : List (Moment α)} {order : List (Decision α)}
    (run : Run origin log order m) : Legal origin.channel order m.channel := by
  induction run with
  | start => exact .nil
  | arrive id request run fresh ih => exact ih
  | step id move run stepped ih =>
      obtain ⟨hnone, hchannel, -⟩ | ⟨d, hsome, -, -, -, -, hserves⟩ :=
        (turn_of_step? stepped).decides
      · rw [hnone, Option.toList_none, List.append_nil, hchannel]
        exact ih
      · rw [hsome, Option.toList_some]
        exact ih.concat hserves

/-! ### The queue -/

/-- **A channel is a linearizable queue of limited capacity, first in first out.**  Whatever its
callers do, in whichever order they take their turns and however long they have to wait, their calls
might as well have been made one after the other.  What they put in is what they took out, then what
they threw away, then what still waits, and never more waits than there is room for.  A turn that
decides no call leaves the queue alone; so does one that refuses an item, and what was only tried is
handed back.  Nothing is put into a closed channel, by calls that waited for room before it was
closed either; nothing is to be had only if the channel is closed and empty; and behind a `discard`
it is empty for ever. -/
theorem first_in_first_out {capacity : Nat} (positive : 0 < capacity) :
    ∃ channel : Channel α, make capacity = .ok channel ∧
      ∀ log order m, Run (.ofChannel channel) log order m →
        Legal channel order m.channel ∧ Explains order log ∧
        inserted order = removed order ++ dropped order ++ m.channel.items ∧
        m.channel.items.length ≤ capacity ∧
        (∀ id move m', m.step? id move = some m' →
          (m.decision? m' id = none → m'.channel = m.channel) ∧
          ∀ d, m.decision? m' id = some d →
            (d.answer.refuses = true → m'.channel = m.channel) ∧
            (∀ a, d.request = .push a → d.answer = .pushed ∨
              (d.answer = .refused ∧ m.channel.closed = true)) ∧
            (∀ a, d.request = .tryPush a → d.answer = .pushed ∨
              (d.answer = .full a ∧ m.channel.items.length = capacity) ∨
              (d.answer = .shut a ∧ m.channel.closed = true)) ∧
            (d.answer = .popped none → m.channel.closed = true ∧ m.channel.items = [])) ∧
        (∀ d ∈ order, d.request.closes = true → m.channel.closed = true) ∧
        (m.channel.closed = true → ∀ log' order' m', Run m log' order' m' →
          ∀ d ∈ order', d.answer ≠ .pushed) ∧
        (∀ d ∈ order, d.request = .discard → ∀ log' order' m', Run m log' order' m' →
          m'.channel.items = []) := by
  have hmake : make (α := α) capacity = .ok ⟨capacity, [], false⟩ := if_neg (Nat.ne_of_gt positive)
  refine ⟨_, hmake, ?_⟩
  intro log order m run
  have legal : Legal ⟨capacity, [], false⟩ order m.channel := run.legal
  have hcapacity : m.channel.capacity = capacity := legal.keeps.1
  have hlength : m.channel.items.length ≤ capacity := hcapacity ▸ legal.length_le (Nat.zero_le _)
  refine ⟨legal, run.explains.1, ?_, hlength, ?_, legal.closed_of_closes, ?_, ?_⟩
  · simpa using legal.accounts
  · intro id move m' stepped
    obtain ⟨hnone, hchannel, -⟩ | ⟨d', hsome, -, -, -, -, hserves⟩ :=
      (turn_of_step? stepped).decides
    · refine ⟨fun _ => hchannel, ?_⟩
      intro d hd
      rw [hnone] at hd
      cases hd
    · refine ⟨fun hnone => absurd (hsome.symm.trans hnone) nofun, ?_⟩
      intro d hd
      obtain rfl : d' = d := Option.some.inj (hsome.symm.trans hd)
      refine ⟨hserves.unchanged, fun a => hserves.push_cases, ?_, hserves.nothing_left⟩
      intro a tries
      obtain hpushed | ⟨hfull, hroom⟩ | hshut := hserves.tryPush_cases tries
      · exact Or.inl hpushed
      · exact Or.inr (Or.inl ⟨hfull, Nat.le_antisymm hlength (hcapacity ▸ hroom)⟩)
      · exact Or.inr (Or.inr hshut)
  · intro shut log' order' m' behind
    exact behind.legal.not_pushed shut
  · intro d hd discards log' order' m' behind
    exact ((run.append behind).legal.items_nil_of_discard d (List.mem_append_left _ hd) discards).2

/-- A push waits for room; a pop makes some, but before the one who waits is notified, the channel
is closed.  What was put in has been taken out, and the item that had to wait is refused. -/
theorem first_in_first_out_shut :
    0 < 1 ∧ ∃ (channel : Channel Nat) (log : List (Moment Nat)) (order : List (Decision Nat))
      (m : Monitor Nat), make 1 = .ok channel ∧ Run (.ofChannel channel) log order m ∧
        log = [.called 0 (.push 7), .answered 0 .pushed, .called 1 (.push 8), .called 2 .pop,
          .called 3 .close, .answered 2 (.popped (some 7)), .answered 1 .refused] ∧
        order.map (·.caller) = [0, 2, 3, 1] ∧
        inserted order = removed order ++ dropped order ++ m.channel.items := by
  obtain ⟨channel, hmake, h⟩ := first_in_first_out (α := Nat) Nat.zero_lt_one
  obtain rfl : ⟨1, [], false⟩ = channel := Except.ok.inj hmake
  have run := run_follow? (m := .ofChannel ⟨1, [], false⟩)
    [.arrive 0 (.push 7), .step 0 .enter, .step 0 (.signal none),
      .arrive 1 (.push 8), .step 1 .enter, .arrive 2 .pop, .step 2 .enter,
      .arrive 3 .close, .step 3 .enter, .step 2 (.signal (some 1)), .step 1 .enter] rfl
  exact ⟨Nat.zero_lt_one, _, _, _, _, hmake, run, rfl, rfl, (h _ _ _ run).2.2.1⟩

end Monitor

end Channel

end TraceLog
