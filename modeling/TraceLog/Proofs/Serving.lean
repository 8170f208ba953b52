/-
**A caller that is served to the end.**

Somebody makes requests one after the other, each when the one before has been answered, and closes
the file in the end.  Nobody else calls.  If the file refuses nothing and the containers that the
requests lead to have records, then every request is answered, whatever the schedule, and none of
the answers is an error: the events and the flushes enter the channel in the order in which they
were asked for, and the call to close finishes the file.

Main definitions:

* `Command.request`, `Request.commands` — the request of a command; the commands of some requests;
* `Pipeline.Between`, `Pipeline.Serving` — no call is under way; one call is;
* `Pipeline.Serves` — a caller is answered every time, in whichever order the steps are taken.

Main results:

* `Pipeline.Run.plain_entered` — the commands of a run are those of their requests;
* `Pipeline.Serving.step` — what a step preserves while a call is under way;
* `Pipeline.serves_of_start` — **a caller is served to the end**.
-/

import TraceLog.Proofs.Pipeline.Answering
import TraceLog.Proofs.Pipeline.Closing
import TraceLog.Proofs.Termination
import Mathlib.Data.Fintype.EquivFin

set_option relaxedAutoImplicit false
set_option autoImplicit false

namespace TraceLog

/-! ### Commands and requests -/

namespace Command

/-- The request that a command comes from. -/
def request : Command → Request
  | .event e => .write e.timestamp e.payload
  | .flush _ => .flush

/-- The command with the ticket left out. -/
def plain : Command → Command
  | .event e => .event e
  | .flush _ => .flush 0

theorem events_map_plain (commands : List Command) :
    events (commands.map plain) = events commands := by
  rw [events, events, List.filterMap_map]
  congr
  funext command
  cases command <;> rfl

end Command

namespace Builder

/-- The builder does not look at tickets. -/
theorem obeyAll_map_plain (b : Builder) (commands : List Command) :
    b.obeyAll (commands.map Command.plain) = b.obeyAll commands := by
  induction commands generalizing b with
  | nil => rfl
  | cons command commands ih =>
      have hobey : b.obey command.plain = b.obey command := by cases command <;> rfl
      simp only [List.map_cons, obeyAll, hobey, ih]

theorem batches_map_plain (b : Builder) (commands : List Command) :
    b.batches (commands.map Command.plain) = b.batches commands := by
  rw [batches_eq, batches_eq, obeyAll_map_plain]

end Builder

namespace Request

/-- Whether a request puts a command into the channel. -/
def isCommand : Request → Bool
  | .write _ _ | .flush => true
  | _ => false

/-- The commands that some requests lead to, the first event having the number `first`. -/
def commands (first : Nat) : List Request → List Command
  | [] => []
  | .write timestamp payload :: requests =>
      .event ⟨UInt64.ofNat first, timestamp, payload⟩ :: commands (first + 1) requests
  | .flush :: requests => .flush 0 :: commands first requests
  | _ :: requests => commands first requests

theorem commands_append (first : Nat) (xs ys : List Request) :
    commands first (xs ++ ys) = commands first xs ++
      commands (first + (Command.events (commands first xs)).length) ys := by
  induction xs generalizing first with
  | nil => rfl
  | cons request xs ih =>
      cases request <;> simp [commands, ih, Nat.add_assoc, Nat.add_comm 1]

end Request

/-- Commands whose events are numbered from `first` on are those of their requests. -/
theorem Command.map_plain_eq {commands : List Command} {first : Nat}
    (numbered : ∀ i e, (events commands)[i]? = some e → e.sequence = UInt64.ofNat (first + i)) :
    commands.map plain = Request.commands first (commands.map request) := by
  induction commands generalizing first with
  | nil => rfl
  | cons command commands ih =>
      cases command with
      | flush ticket =>
          rw [List.map_cons, ih numbered]
          rfl
      | event e =>
          obtain ⟨sequence, timestamp, payload⟩ := e
          have hsequence : sequence = UInt64.ofNat first := numbered 0 _ rfl
          have hrest := @ih (first + 1) fun i e' he' => by
            rw [numbered (i + 1) e' he', Nat.add_right_comm, Nat.add_assoc]
          rw [List.map_cons, hrest, hsequence]
          rfl

/-! ### How far a call has come -/

namespace CallStage

/-- Whether a command has not entered the channel yet, or was turned away. -/
def isAhead : CallStage → Bool
  | .entering _ | .checking _ _ | .submitting _ | .refused | .returned (.error _) => true
  | _ => false

/-- Whether a command has entered the channel. -/
def isBehind : CallStage → Bool
  | .awaitingReply | .leavingWord _ | .awaitingFlush _ | .unanswered | .returned _ => true
  | _ => false

end CallStage

/-- What a request has put into the channel when its call has come to a stage. -/
inductive Request.Brings (request : Request) : CallStage → List Request → Prop where
  | ahead {stage : CallStage} (ahead : stage.isAhead = true) (command : request.isCommand = true) :
      Brings request stage []
  | behind {stage : CallStage} (behind : stage.isBehind = true)
      (command : request.isCommand = true) : Brings request stage [request]
  | ending {stage : CallStage} (ends : request.ending? ≠ none) : Brings request stage []

/-- A move of a call puts its request into the channel once. -/
theorem CallMove.brings {p : Pipeline} {id : Nat} {stage stage' : CallStage} {shared : Shared}
    {desk : Desk} {file : Option Sink} {command : Option Command} {request : Request}
    (move : CallMove p id stage shared desk file stage' command) (permits : request.Permits stage)
    {given : List Request} (brings : request.Brings stage given) :
    request.Brings stage' (given ++ command.toList.map Command.request) := by
  cases brings with
  | ahead ahead iscommand =>
      cases move with
      | count => cases permits; cases iscommand
      | enterEvent =>
          cases permits
          exact .behind rfl iscommand
      | enterFlush =>
          cases permits
          exact .behind rfl iscommand
      | _ => first | exact .ahead rfl iscommand | cases ahead
  | behind behind iscommand =>
      cases move <;> first | exact .behind rfl iscommand | cases behind
  | ending ends =>
      cases move with
      | enterEvent => cases permits; exact absurd rfl ends
      | enterFlush => cases permits; exact absurd rfl ends
      | _ => exact .ending ends

namespace Pipeline

variable {settings : Settings} {sink : Sink} {base : Totals} {origin p p' : Pipeline}
  {log : History} {actor : Actor} {id : Nat} {request : Request} {requests done : List Request}

/-- The commands of a run are those of their requests. -/
theorem Run.plain_entered (run : Run origin log p) (fresh : origin.Fresh) :
    log.entered.map Command.plain =
      Request.commands origin.desk.next (log.entered.map Command.request) :=
  Command.map_plain_eq fun i e he => ((run.served fresh).numbered.event_of_getElem? i e he).1

/-! ### The invariant -/

/-- The containers that some requests lead to have records, and the events can be numbered. -/
structure Feasible (settings : Settings) (base : Totals) (requests : List Request) : Prop where
  storable : ∀ c ∈ (Builder.start settings.containerSize base.containers.toNat).batches
    (Request.commands base.events.toNat requests), c.Storable settings.codec
  few : base.containers.toNat +
    (Command.events (Request.commands base.events.toNat requests)).length ≤ UInt64.size

/-- A run is favourable as long as nobody aborts and only feasible requests are made. -/
theorem Feasible.favourable (feasible : Feasible settings base requests) (run : Run origin log p)
    (opened : Pipeline.start settings sink base = .ok origin) (unaborted : log.Unaborted)
    (front : log.entered.map Command.request <+: requests)
    (all : p.shared.commands.closed = true → log.entered.map Command.request = requests) :
    Favourable (.start settings.containerSize base.containers.toNat) log p := by
  have hfirst : origin.desk.next = base.events.toNat := by
    obtain ⟨-, rfl⟩ := eq_of_start opened
    rfl
  have hplain := run.plain_entered (fresh_of_start opened)
  obtain ⟨hstorable, hfew⟩ := feasible
  rw [← run.codec_eq opened] at hstorable
  obtain ⟨more, hmore⟩ := front
  rw [← hmore, Request.commands_append, ← hfirst, ← hplain] at hstorable hfew
  refine ⟨unaborted, fun c hc => hstorable c ?_, fun hclosed c hc => hstorable c ?_, ?_⟩
  · rw [Builder.batches_eq, Builder.obeyAll_append, Builder.obeyAll_map_plain]
    exact List.mem_append_left _ (List.mem_append_left _ hc)
  · -- nothing comes any more
    have hnone : more = [] := by
      rw [all hclosed] at hmore
      exact List.append_right_eq_self.1 hmore
    rw [hnone, Request.commands, List.append_nil, Builder.batches_map_plain, Builder.batches_eq]
    exact List.mem_append_right _ (Option.mem_toList.2 hc)
  · rw [Command.events_append, Command.events_map_plain, List.length_append] at hfew
    show base.containers.toNat + log.events.length ≤ _
    rw [History.events]
    omega

/-- No call is under way, and those that are over have put some requests into the channel. -/
structure Between (settings : Settings) (base : Totals) (origin : Pipeline) (done : List Request)
    (log : History) (p : Pipeline) : Prop where
  run : Run origin log p
  ended : ∀ id stage, p.stage? id = some stage → ∃ result, stage = .returned result
  lasting : ∀ id request, .asked id request ∈ log → request.ending? = none
  entered : log.entered.map Command.request = done
  favourable : Favourable (.start settings.containerSize base.containers.toNat) log p

/-- One call is under way, behind some requests that are in the channel. -/
structure Serving (settings : Settings) (base : Totals) (origin : Pipeline) (done : List Request)
    (id : Nat) (request : Request) (log : History) (p : Pipeline) : Prop where
  run : Run origin log p
  asked : .asked id request ∈ log
  others : ∀ id' stage, id' ≠ id → p.stage? id' = some stage → ∃ result, stage = .returned result
  lasting : ∀ id' request', id' ≠ id → .asked id' request' ∈ log → request'.ending? = none
  brings : ∃ stage given, p.stage? id = some stage ∧ request.Brings stage given ∧
    log.entered.map Command.request = done ++ given
  favourable : Favourable (.start settings.containerSize base.containers.toNat) log p

/-- A newly opened file. -/
theorem between_of_start (opened : Pipeline.start settings sink base = .ok origin)
    (feasible : Feasible settings base requests) : Between settings base origin [] [] origin := by
  have idle := (fresh_of_start opened).idle
  refine ⟨.start, by simp [stage?, idle], by simp, rfl,
    feasible.favourable .start opened (by simp [History.Unaborted]) List.nil_prefix ?_⟩
  obtain ⟨-, rfl⟩ := eq_of_start opened
  simp

/-- A call is made. -/
theorem Between.arrive (h : Between settings base origin done log p) (fresh : p.stage? id = none)
    (possible : request.isCommand = true ∨ request = .close) :
    Serving settings base origin done id request (log ++ [.asked id request])
      (p.arrive id request) := by
  have hunaborted : History.Unaborted (log ++ [.asked id request]) := by
    intro id' hin
    rcases List.mem_append.1 hin with hin | hin
    · exact absurd (h.lasting id' _ hin) (by simp [Request.ending?])
    · obtain ⟨rfl, rfl⟩ := Moment.asked.inj (List.mem_singleton.1 hin)
      rcases possible with hcommand | hclose
      · cases hcommand
      · cases hclose
  refine ⟨.arrive request h.run fresh, by simp, fun id' stage hne hstage => ?_,
    fun id' request' hne hin => ?_, ⟨request.stage, [], ?_, ?_, ?_⟩, ?_⟩
  · rw [stage?_arrive fresh, if_neg hne] at hstage
    exact h.ended id' stage hstage
  · exact h.lasting id' request' (by simpa [hne] using hin)
  · rw [stage?_arrive fresh, if_pos rfl]
  · rcases possible with hcommand | rfl
    · exact .ahead (by cases request <;> first | rfl | cases hcommand) hcommand
    · exact .ending (by simp [Request.ending?])
  · rw [History.entered_asked, h.entered, List.append_nil]
  · obtain ⟨-, hstorable, hlast, hfew⟩ := h.favourable
    refine ⟨hunaborted, ?_, ?_, ?_⟩
    · rwa [History.entered_asked]
    · rwa [History.entered_asked]
    · rwa [History.events, History.entered_asked]

/-! ### One call -/

/-- A step of the call puts its request into the channel once, and nothing else enters. -/
theorem Serving.brings_move (h : Serving settings base origin done id request log p)
    (callers : Callers log p) {ms : History} (move : p.Move actor p' ms) :
    (∀ id' stage, id' ≠ id → p'.stage? id' = some stage → ∃ result, stage = .returned result) ∧
      ∃ stage given, p'.stage? id = some stage ∧ request.Brings stage given ∧
        (log ++ ms).entered.map Command.request = done ++ given := by
  obtain ⟨stage, given, present, hbrings, hentered⟩ := h.brings
  have hkept (hstages : ∀ id', p'.stage? id' = p.stage? id') (hquiet : History.entered ms = []) :
      (∀ id' stage, id' ≠ id → p'.stage? id' = some stage → ∃ result, stage = .returned result) ∧
        ∃ stage given, p'.stage? id = some stage ∧ request.Brings stage given ∧
          (log ++ ms).entered.map Command.request = done ++ given := by
    refine ⟨fun id' stage hne hstage => h.others id' stage hne (hstages id' ▸ hstage),
      stage, given, (hstages id).trans present, hbrings, ?_⟩
    rw [History.entered_append, hquiet, List.append_nil, hentered]
  cases move with
  | call present' move =>
      rename_i caller before after shared desk file command
      -- who is over does nothing
      have hcaller : caller = id := by
        by_contra hne
        obtain ⟨result, rfl⟩ := h.others caller _ hne present'
        cases move
      subst hcaller
      rw [present', Option.some.injEq] at present
      subst present
      obtain ⟨request', hin, hpermits⟩ := callers.permitted caller _ present'
      obtain rfl := callers.asked_once caller _ _ h.asked hin
      refine ⟨fun id' stage hne hstage => ?_, after, _, ?_, move.brings hpermits hbrings, ?_⟩
      · rw [stage?_moved present', if_neg hne] at hstage
        exact h.others id' stage hne hstage
      · rw [stage?_moved present', if_pos rfl]
      · rw [History.entered_append, History.entered_call, List.map_append, hentered,
          List.append_assoc]
  | batcher move => exact hkept (fun _ => rfl) (History.entered_batcher _ _)
  | worker present' move => exact hkept (fun _ => rfl) rfl
  | scribe move => exact hkept (fun _ => rfl) (History.entered_scribe _)

/-- Nobody else closes the desk while a call is under way. -/
theorem eq_close_of_shut (run : Run origin log p)
    (opened : Pipeline.start settings sink base = .ok origin) (unaborted : log.Unaborted)
    (asked : .asked id request ∈ log)
    (lasting : ∀ id' request', id' ≠ id → .asked id' request' ∈ log → request'.ending? = none)
    (shut : p.desk.closed = true) : request = .close := by
  have callers := (run.served (fresh_of_start opened)).callers
  obtain ⟨other, -, hother, -⟩ := (run.ended opened).exists_closer callers unaborted shut
  have hid : other = id := by
    by_contra hne
    exact absurd (lasting other _ hne hother) (by simp [Request.ending?])
  subst hid
  exact callers.asked_once _ _ _ asked hother

/-- **A step keeps the invariant while a call is under way.** -/
theorem Serving.step (h : Serving settings base origin done id request log p)
    (opened : Pipeline.start settings sink base = .ok origin) (reliable : sink.Reliable)
    (feasible : Feasible settings base requests)
    (front : ∀ stage given, request.Brings stage given → done ++ given <+: requests)
    (last : request = .close → done = requests) (stepped : p.step? actor = some p') :
    Serving settings base origin done id request (log ++ p.moments p' actor) p' := by
  have fresh := fresh_of_start opened
  have hrun := h.run.step stepped
  have callers := (h.run.served fresh).callers
  have move := move_of_step? (h.run.orderly fresh.idle) stepped
  generalize p.moments p' actor = ms at move hrun ⊢
  have hasked (id' : Nat) (request' : Request) :
      .asked id' request' ∈ log ++ ms ↔ .asked id' request' ∈ log := by
    rw [List.mem_append, or_iff_left (move.not_asked request')]
  have hlasting (id' : Nat) (request' : Request) (hne : id' ≠ id)
      (hin : .asked id' request' ∈ log ++ ms) : request'.ending? = none :=
    h.lasting id' request' hne ((hasked id' request').1 hin)
  have hunaborted : History.Unaborted (log ++ ms) := fun id' hin =>
    h.favourable.unaborted id' ((hasked id' _).1 hin)
  obtain ⟨hothers, stage, given, hstage, hbrings, hentered⟩ := h.brings_move callers move
  -- nothing is dropped, so that nobody but this call closes the channel
  have smooth := h.run.smooth opened reliable h.favourable
  have senders := h.run.senders_of_start opened
  have keeps := smooth.not_drops callers senders (h.run.batched_of_start opened) h.favourable actor
  have hrunning := (smooth.move senders keeps move).running
  refine ⟨hrun, (hasked id request).2 h.asked, hothers, hlasting,
    ⟨stage, given, hstage, hbrings, hentered⟩,
    feasible.favourable hrun opened hunaborted (hentered ▸ front stage given hbrings)
      fun hclosed => ?_⟩
  rcases (hrun.barred opened).commands hclosed with hstopped | hshut
  · rw [hrunning] at hstopped
    cases hstopped
  · obtain rfl := eq_close_of_shut hrun opened hunaborted ((hasked id request).2 h.asked) hlasting
      hshut
    have hgiven : given = [] := by
      cases hbrings with
      | behind behind command => cases command
      | _ => rfl
    rw [hentered, hgiven, List.append_nil, last rfl]

/-- **A call that puts a command into the channel is not told an error.** -/
theorem Serving.between (h : Serving settings base origin done id request log p)
    (opened : Pipeline.start settings sink base = .ok origin) (reliable : sink.Reliable)
    (command : request.isCommand = true) {result : Except Error Answer}
    (returned : p.stage? id = some (.returned result)) :
    (∃ answer, result = .ok answer) ∧
      Between settings base origin (done ++ [request]) log p := by
  have hlasting : request.ending? = none := by cases request <;> first | rfl | cases command
  have smooth := h.run.smooth opened reliable h.favourable
  have hanswer : ∃ answer, result = .ok answer := by
    cases result with
    | ok answer => exact ⟨answer, rfl⟩
    | error error =>
        exfalso
        have htold := h.run.told opened h.favourable.unaborted
        rcases htold id request error h.asked hlasting returned with hfailure | ⟨-, hshut⟩
        · rw [smooth.faultless] at hfailure
          cases hfailure
        · rw [eq_close_of_shut h.run opened h.favourable.unaborted h.asked h.lasting hshut]
            at command
          cases command
  refine ⟨hanswer, h.run, fun id' stage hstage => ?_, fun id' request' hin => ?_, ?_, h.favourable⟩
  · by_cases hid : id' = id
    · subst hid
      rw [returned] at hstage
      exact ⟨result, (Option.some.inj hstage).symm⟩
    · exact h.others id' stage hid hstage
  · by_cases hid : id' = id
    · subst hid
      have callers := (h.run.served (fresh_of_start opened)).callers
      rw [← callers.asked_once id' _ _ h.asked hin]
      exact hlasting
    · exact h.lasting id' request' hid hin
  · obtain ⟨answer, rfl⟩ := hanswer
    obtain ⟨stage, given, present, hbrings, hentered⟩ := h.brings
    rw [returned, Option.some.injEq] at present
    subst present
    cases hbrings with
    | ahead ahead => cases ahead
    | behind => exact hentered
    | ending ends => exact absurd hlasting ends

/-- **A call to close finishes the file**, if nobody else calls. -/
theorem Serving.finished (h : Serving settings base origin done id .close log p)
    (opened : Pipeline.start settings sink base = .ok origin) (reliable : sink.Reliable)
    {result : Except Error Answer} (returned : p.stage? id = some (.returned result)) :
    log.entered.map Command.request = done ∧
      ∃ summary, result = .ok (.finished summary) := by
  have callers := (h.run.served (fresh_of_start opened)).callers
  have closed := h.run.closed opened reliable h.favourable
  have hanswered := (callers.answered_iff id result).2 returned
  constructor
  · obtain ⟨stage, given, -, hbrings, hentered⟩ := h.brings
    cases hbrings with
    | ahead ahead command => cases command
    | behind behind command => cases command
    | ending ends => rwa [List.append_nil] at hentered
  · rcases closed.answer id result h.asked hanswered with ⟨file, -, rfl⟩ | ⟨rfl, hshut⟩
    · exact ⟨_, rfl⟩
    · obtain ⟨other, hne, hasked, -⟩ := closed.exists_other callers hanswered hshut
      exact absurd (h.lasting other _ hne hasked) (by simp [Request.ending?])

/-! ### All calls -/

/-- What is inevitable is so with whatever every step preserves. -/
theorem Inevitable.keeping {goal goal' : Pipeline → Prop} (h : Inevitable goal p)
    (Inv : Pipeline → Prop) (holds : Inv p)
    (keeps : ∀ p actor p', Inv p → p.step? actor = some p' → Inv p')
    (reaches : ∀ p, Inv p → goal p → goal' p) : Inevitable goal' p := by
  induction h with
  | now reached => exact .now (reaches _ holds reached)
  | later goes _ ih =>
      exact .later goes fun actor p' stepped => ih actor p' stepped (keeps _ actor p' holds stepped)

/-- Whoever makes some requests one after the other, each under a ticket that nobody has, is given
an answer every time and no error, in whichever order the steps are taken; and then it has come to
what was aimed at. -/
def Serves (goal : Pipeline → Prop) : List Request → Pipeline → Prop
  | [], p => goal p
  | request :: requests, p => ∀ id, p.stage? id = none →
      Inevitable (fun p' => (∃ answer, p'.stage? id = some (.returned (.ok answer))) ∧
        Serves goal requests p') (p.arrive id request)

/-- Who is served can be. -/
theorem Serves.exists_goal {goal : Pipeline → Prop} (h : p.Serves goal requests) :
    ∃ p', goal p' := by
  induction requests generalizing p with
  | nil => exact ⟨p, h⟩
  | cons request requests ih =>
      obtain ⟨id, hid⟩ := Infinite.exists_notMem_finset (p.calls.map (·.1)).toFinset
      have hfresh : p.stage? id = none := by
        rw [stage?, List.lookup_eq_none_iff]
        intro c hc
        rw [List.mem_toFinset] at hid
        have hne : id ≠ c.1 := fun heq => hid (heq ▸ List.mem_map_of_mem hc)
        simpa using hne
      obtain ⟨-, p', -, -, hserves⟩ := (h id hfresh).exists_run
      exact ih hserves

/-- Some requests are in the channel, the events have got numbers, and the file was closed. -/
def Finished (origin : Pipeline) (requests : List Request) (numbers : List Nat) (summary : Summary)
    (p : Pipeline) : Prop :=
  ∃ log id, Run origin log p ∧ log.Unaborted ∧ log.entered.map Command.request = requests ∧
    log.numbers = numbers ∧ .asked id .close ∈ log ∧
    .answered id (.ok (.finished summary)) ∈ log

/-- A caller who has been served so far is served to the end. -/
theorem Between.serves {settings : Settings} {todo : List Request}
    (h : Between settings base origin done log p) (queues : 0 < settings.queueSize)
    (opened : Pipeline.start settings sink base = .ok origin) (reliable : sink.Reliable)
    (feasible : Feasible settings base (done ++ todo))
    (commands : ∀ request ∈ todo, request.isCommand = true) :
    p.Serves (fun q => ∃ numbers summary, Finished origin (done ++ todo) numbers summary q)
      (todo ++ [.close]) := by
  induction todo generalizing done log p with
  | nil =>
      rw [List.append_nil] at feasible ⊢
      intro id hfresh
      have hserving : Serving settings base origin done id .close _ _ :=
        h.arrive hfresh (Or.inr rfl)
      have hreturns := hserving.run.returns queues opened hserving.asked
      refine hreturns.keeping (fun q => ∃ log, Serving settings base origin done id .close log q)
        ⟨_, hserving⟩ (fun q actor q' ⟨log, hq⟩ stepped => ⟨_, hq.step opened reliable feasible
          (fun stage given hbrings => ?_) (fun _ => rfl) stepped⟩)
        fun q ⟨log, hq⟩ ⟨result, hover⟩ => ?_
      · cases hbrings with
        | behind behind command => cases command
        | _ => simp
      · obtain ⟨hentered, summary, rfl⟩ := hq.finished opened reliable hover
        have callers := (hq.run.served (fresh_of_start opened)).callers
        exact ⟨⟨_, hover⟩, _, summary, log, id, hq.run, hq.favourable.unaborted, hentered, rfl,
          hq.asked, (callers.answered_iff id _).2 hover⟩
  | cons request todo ih =>
      intro id hfresh
      have hcommand := commands request List.mem_cons_self
      have hserving := h.arrive hfresh (Or.inl hcommand)
      have hreturns := hserving.run.returns queues opened hserving.asked
      have hsplit : done ++ request :: todo = (done ++ [request]) ++ todo := by simp
      refine hreturns.keeping (fun q => ∃ log, Serving settings base origin done id request log q)
        ⟨_, hserving⟩ (fun q actor q' ⟨log, hq⟩ stepped => ⟨_, hq.step opened reliable feasible
          (fun stage given hbrings => ?_) (fun hclose => ?_) stepped⟩)
        fun q ⟨log, hq⟩ ⟨result, hover⟩ => ?_
      · cases hbrings with
        | behind => exact hsplit ▸ List.prefix_append _ _
        | _ => exact ⟨request :: todo, by simp⟩
      · rw [hclose] at hcommand
        cases hcommand
      · obtain ⟨⟨answer, rfl⟩, hbetween⟩ := hq.between opened reliable hcommand hover
        rw [hsplit] at feasible ⊢
        exact ⟨⟨answer, hover⟩, ih hbetween feasible
          fun request' hin => commands request' (List.mem_cons_of_mem _ hin)⟩

/-- **A caller is served to the end**, if the file refuses nothing and the containers that its
requests lead to have records. -/
theorem serves_of_start {settings : Settings} (queues : 0 < settings.queueSize)
    (opened : Pipeline.start settings sink base = .ok origin) (reliable : sink.Reliable)
    (feasible : Feasible settings base requests)
    (commands : ∀ request ∈ requests, request.isCommand = true) :
    origin.Serves (fun p => ∃ numbers summary, Finished origin requests numbers summary p)
      (requests ++ [.close]) :=
  (between_of_start opened feasible).serves queues opened reliable feasible commands

end Pipeline

end TraceLog
