/-
**Callers and the desk.**

Every call takes the stages that its request allows, and is answered once.  The desk is held by the
one call that is being served, so that the numbers that are given out follow the order in which
events enter the channel; and it is closed once, by the one call that brings the file to its end.

Main definitions:

* `Request.Permits` — the stages that a request can come to;
* `Pipeline.Callers` — the calls are where their requests allow, and are answered as they end;
* `Pipeline.AtDesk` — who holds the desk and who has closed it;
* `Pipeline.Numbered` — the numbers given out.

Main results:

* `Pipeline.Run.served` — **these hold at the end of every run**, whatever fails in it;
* `Pipeline.Run.number_lt` — a call that was made after another one had its answer gets a higher
  number.
-/

import TraceLog.Proofs.Pipeline.History

set_option relaxedAutoImplicit false
set_option autoImplicit false

namespace TraceLog

/-! ### Stages -/

/-- How a request brings the file to its end, if it does. -/
def Request.ending? : Request → Option Ending
  | .close => some .drained
  | .abort => some .truncated
  | _ => none

/-- The stages that a request can come to. -/
inductive Request.Permits : Request → CallStage → Prop where
  | entering {request : Request} (lasting : request.ending? = none) :
      Permits request (.entering request)
  | checking {timestamp : UInt64} {payload : Bytes} :
      Permits (.write timestamp payload) (.checking timestamp payload)
  | submittingEvent {sequence timestamp : UInt64} {payload : Bytes} :
      Permits (.write timestamp payload) (.submitting (.event ⟨sequence, timestamp, payload⟩))
  | submittingFlush {ticket : Nat} : Permits .flush (.submitting (.flush ticket))
  | refused {request : Request} (lasting : request.ending? = none) : Permits request .refused
  | awaitingReply : Permits .flush .awaitingReply
  | leavingWord {target : Nat} : Permits .flush (.leavingWord target)
  | awaitingFlush {target : Nat} : Permits .flush (.awaitingFlush target)
  | unanswered : Permits .flush .unanswered
  | halting {steps : List HaltStep} : Permits .abort (.halting steps)
  | closingDesk {request : Request} {ending : Ending} (ends : request.ending? = some ending) :
      Permits request (.closingDesk ending)
  | closingCommands : Permits .close .closingCommands
  | joiningBatcher {request : Request} {ending : Ending} (ends : request.ending? = some ending) :
      Permits request (.joiningBatcher ending)
  | joiningScribe {request : Request} {ending : Ending} {sealedCount : Nat}
      (ends : request.ending? = some ending) : Permits request (.joiningScribe ending sealedCount)
  | concluding {request : Request} {ending : Ending} {sealedCount : Nat}
      (ends : request.ending? = some ending) : Permits request (.concluding ending sealedCount)
  | returned {request : Request} {result : Except Error Answer} :
      Permits request (.returned result)

theorem Request.permits_stage (request : Request) : request.Permits request.stage := by
  cases request with
  | write timestamp payload => exact .entering rfl
  | flush => exact .entering rfl
  | submitted => exact .entering rfl
  | close => exact .closingDesk rfl
  | abort => exact .halting

namespace CallStage

/-- Whether a call at this stage holds the desk. -/
def holdsDesk : CallStage → Bool
  | .checking _ _ | .submitting _ | .refused => true
  | _ => false

/-- Whether a call at this stage has closed the desk and is bringing the file to its end. -/
def isClosing : CallStage → Bool
  | .closingCommands | .joiningBatcher _ | .joiningScribe _ _ | .concluding _ _ => true
  | _ => false

theorem result?_eq_some_iff {stage : CallStage} {result : Except Error Answer} :
    stage.result? = some result ↔ stage = .returned result := by
  cases stage <;> simp [result?]

/-- An answer among the moments of a call is its own, and the call is over then. -/
theorem returned_of_mem {id id' : Nat} {command : Option Command} {stage : CallStage}
    {result : Except Error Answer}
    (h : Moment.answered id' result ∈ (command.map (Moment.entered id)).toList ++
      (stage.result?.map (Moment.answered id)).toList) :
    id' = id ∧ stage = .returned result := by
  rw [← result?_eq_some_iff]
  cases command <;> cases hresult : stage.result? <;> simp_all

end CallStage

namespace CallMove

variable {p : Pipeline} {id : Nat} {stage stage' : CallStage} {shared : Shared} {desk : Desk}
  {file : Option Sink} {command : Option Command}

/-- A call that is over does not go on. -/
theorem result?_eq_none (move : CallMove p id stage shared desk file stage' command) :
    stage.result? = none := by
  cases move <;> rfl

/-- A request that allows a stage allows the one after it. -/
theorem permits (move : CallMove p id stage shared desk file stage' command) {request : Request}
    (h : request.Permits stage) : request.Permits stage' := by
  cases move with
  | serveWrite => cases h; exact .checking
  | serveFlush => cases h; exact .submittingFlush
  | count => exact .returned
  | turnAway => exact .returned
  | failed => exact .returned
  | number => cases h; exact .submittingEvent
  | enterEvent => exact .returned
  | enterFlush => cases h; exact .awaitingReply
  | refuse => cases h <;> exact .refused rfl
  | giveUp => exact .returned
  | takeReply => cases h; exact .leavingWord
  | noReply => cases h; exact .unanswered
  | leaveWord => cases h; exact .awaitingFlush
  | awaited => exact .returned
  | unanswered => exact .returned
  | halt => cases h; exact .halting
  | halted => cases h; exact .closingDesk rfl
  | alreadyShut => exact .returned
  | shutToDrain =>
      cases h with
      | closingDesk ends => cases request <;> cases ends; exact .closingCommands
  | shutToTruncate => cases h with | closingDesk ends => exact .joiningBatcher ends
  | closeCommands => cases h; exact .joiningBatcher rfl
  | joinBatcher => cases h with | joiningBatcher ends => exact .joiningScribe ends
  | joinScribe => cases h with | joiningScribe ends => exact .concluding ends
  | conclude => exact .returned

/-- What a move does to the desk: the call takes hold of it, lets go of it, leaves it as it is, or
closes it. -/
theorem desk_cases (move : CallMove p id stage shared desk file stage' command) :
    (desk = p.desk.hold id ∧ p.desk.holder = none ∧ p.desk.closed = false ∧
      stage.holdsDesk = false ∧ stage'.holdsDesk = true) ∨
    (desk.holder = none ∧ desk.closed = p.desk.closed ∧ stage.holdsDesk = true ∧
      stage'.holdsDesk = false) ∨
    (desk = p.desk ∧ stage'.holdsDesk = stage.holdsDesk) ∨
    (desk = p.desk.shut ∧ p.desk.holder = none ∧ stage'.holdsDesk = false) := by
  cases move <;> simp_all [CallStage.holdsDesk, Desk.release, Desk.advance]

/-- What a move does to the end of the file: nothing, or the call that brings it about has closed
the desk, or it is over. -/
theorem closing_cases (move : CallMove p id stage shared desk file stage' command) :
    (file = p.closedFile ∧ stage'.isClosing = stage.isClosing ∧ desk.closed = p.desk.closed) ∨
    (file = p.closedFile ∧ p.desk.closed = false ∧ desk.closed = true ∧
      (∃ ending, stage = .closingDesk ending) ∧ stage'.isClosing = true) ∨
    (stage.isClosing = true ∧ desk.closed = p.desk.closed ∧ file.isSome = true ∧
      (∃ ending sealedCount, stage = .concluding ending sealedCount) ∧
      ∃ result, stage' = .returned result) := by
  cases move <;>
    simp_all [CallStage.isClosing, Desk.hold, Desk.release, Desk.advance, Desk.shut]

/-- A desk that is closed stays closed. -/
theorem desk_shut (move : CallMove p id stage shared desk file stage' command)
    (shut : p.desk.closed = true) : desk.closed = true := by
  rcases move.closing_cases with ⟨-, -, hsame⟩ | ⟨-, -, hclosed, -⟩ | ⟨-, hsame, -⟩
  · exact hsame.trans shut
  · exact hclosed
  · exact hsame.trans shut

/-- Numbers are given out to events that have entered the channel. -/
theorem next_eq (move : CallMove p id stage shared desk file stage' command) :
    desk.next = p.desk.next + (Command.events command.toList).length := by
  cases move <;> simp [Desk.hold, Desk.release, Desk.advance, Desk.shut]

end CallMove

namespace Pipeline

/-! ### Requests and answers -/

/-- The calls are where their requests allow, and a call has been answered exactly if it is over. -/
structure Callers (log : History) (p : Pipeline) : Prop where
  permitted : ∀ id stage, p.stage? id = some stage →
    ∃ request, .asked id request ∈ log ∧ request.Permits stage
  asked_once : ∀ id request request', .asked id request ∈ log → .asked id request' ∈ log →
    request = request'
  present : ∀ id request, .asked id request ∈ log → p.stage? id ≠ none
  answered_iff : ∀ id result, .answered id result ∈ log ↔ p.stage? id = some (.returned result)

theorem Callers.arrive {log : History} {p : Pipeline} {id : Nat} (h : Callers log p)
    (fresh : p.stage? id = none) (request : Request) :
    Callers (log ++ [.asked id request]) (p.arrive id request) where
  permitted id' stage hstage := by
    rw [stage?_arrive fresh] at hstage
    split at hstage
    · rename_i hid
      subst hid
      cases hstage
      exact ⟨request, by simp, request.permits_stage⟩
    · obtain ⟨request', hasked, hpermits⟩ := h.permitted id' stage hstage
      exact ⟨request', List.mem_append_left _ hasked, hpermits⟩
  asked_once id' r r' hr hr' := by
    simp only [List.mem_append, List.mem_singleton, Moment.asked.injEq] at hr hr'
    rcases hr with hr | ⟨hid, hr⟩ <;> rcases hr' with hr' | ⟨hid', hr'⟩
    · exact h.asked_once id' r r' hr hr'
    · exact absurd (hid' ▸ fresh) (h.present id' r hr)
    · exact absurd (hid ▸ fresh) (h.present id' r' hr')
    · rw [hr, hr']
  present id' r hr := by
    rw [stage?_arrive fresh]
    split
    · simp
    · rename_i hid
      simp only [List.mem_append, List.mem_singleton, Moment.asked.injEq, hid, false_and,
        or_false] at hr
      exact h.present id' r hr
  answered_iff id' result := by
    rw [stage?_arrive fresh]
    have hlog : .answered id' result ∈ log ++ [.asked id request] ↔ .answered id' result ∈ log := by
      simp
    rw [hlog, h.answered_iff]
    split
    · rename_i hid
      subst hid
      rw [fresh]
      cases request <;> simp [Request.stage]
    · rfl

/-- The calls are not concerned by moments in which none of them is made or answered. -/
theorem Callers.append_quiet {log ms : History} {p p' : Pipeline} (h : Callers log p)
    (hstages : ∀ id, p'.stage? id = p.stage? id) (hasked : ∀ id request, .asked id request ∉ ms)
    (hanswered : ∀ id result, .answered id result ∉ ms) : Callers (log ++ ms) p' where
  permitted id stage hstage := by
    rw [hstages] at hstage
    obtain ⟨request, hin, hpermits⟩ := h.permitted id stage hstage
    exact ⟨request, List.mem_append_left _ hin, hpermits⟩
  asked_once id r r' hr hr' := by
    rw [List.mem_append, or_iff_left (hasked id _)] at hr hr'
    exact h.asked_once id r r' hr hr'
  present id r hr := by
    rw [List.mem_append, or_iff_left (hasked id _)] at hr
    rw [hstages]
    exact h.present id r hr
  answered_iff id result := by
    rw [List.mem_append, or_iff_left (hanswered id _), hstages]
    exact h.answered_iff id result

theorem Callers.move {log ms : History} {p p' : Pipeline} {actor : Actor} (h : Callers log p)
    (move : p.Move actor p' ms) : Callers (log ++ ms) p' := by
  cases move with
  | call present move =>
      rename_i id stage stage' shared desk file command
      have hasked (id' : Nat) (request : Request) : .asked id' request ∈ log ++
          ((command.map (.entered id)).toList ++ (stage'.result?.map (.answered id)).toList) ↔
            .asked id' request ∈ log := by simp
      refine ⟨fun id' stage'' hstage => ?_, fun id' r r' hr hr' => ?_, fun id' r hr => ?_,
        fun id' result => ?_⟩
      · rw [stage?_moved present] at hstage
        split at hstage
        · rename_i hid
          subst hid
          cases hstage
          obtain ⟨request, hin, hpermits⟩ := h.permitted id' stage present
          exact ⟨request, (hasked _ _).2 hin, move.permits hpermits⟩
        · obtain ⟨request, hin, hpermits⟩ := h.permitted id' stage'' hstage
          exact ⟨request, (hasked _ _).2 hin, hpermits⟩
      · exact h.asked_once id' r r' ((hasked _ _).1 hr) ((hasked _ _).1 hr')
      · rw [stage?_moved present]
        split
        · simp
        · exact h.present id' r ((hasked _ _).1 hr)
      · have hms : Moment.answered id' result ∈
            (command.map (.entered id)).toList ++ (stage'.result?.map (.answered id)).toList ↔
            id' = id ∧ stage' = .returned result := by
          rw [← CallStage.result?_eq_some_iff]
          cases command <;> cases stage'.result? <;> simp [eq_comm]
        rw [stage?_moved present, List.mem_append, hms, h.answered_iff]
        split
        · rename_i hid
          subst hid
          have hover : stage ≠ .returned result := by
            intro hstage
            have hnone := move.result?_eq_none
            rw [hstage] at hnone
            cases hnone
          simp [present, hover]
        · rename_i hid
          simp [hid]
  | batcher move => exact h.append_quiet (fun _ => rfl) (by simp) (by simp)
  | worker present move => exact h.append_quiet (fun _ => rfl) (by simp) (by simp)
  | scribe move => exact h.append_quiet (fun _ => rfl) (by simp) (by simp)

/-! ### The desk -/

/-- The desk is held by the call that is being served, and was closed by the one call that brings
the file to its end. -/
structure AtDesk (p : Pipeline) : Prop where
  holder_iff : ∀ id, p.desk.holder = some id ↔
    ∃ stage, p.stage? id = some stage ∧ stage.holdsDesk = true
  free_of_closed : p.desk.closed = true → p.desk.holder = none
  closing_once : ∀ id id' stage stage', p.stage? id = some stage → p.stage? id' = some stage' →
    stage.isClosing = true → stage'.isClosing = true → id = id'
  closed_of_closing : ∀ id stage, p.stage? id = some stage → stage.isClosing = true →
    p.desk.closed = true ∧ p.closedFile = none
  closed_of_file : p.closedFile.isSome = true → p.desk.closed = true

theorem AtDesk.arrive {p : Pipeline} {id : Nat} (h : AtDesk p) (fresh : p.stage? id = none)
    (request : Request) : AtDesk (p.arrive id request) := by
  have hholds : request.stage.holdsDesk = false := by cases request <;> rfl
  have hclosing : request.stage.isClosing = false := by cases request <;> rfl
  have hold {id' : Nat} {stage : CallStage} (hstage : (p.arrive id request).stage? id' = some stage)
      (hactive : stage.holdsDesk = true ∨ stage.isClosing = true) : p.stage? id' = some stage := by
    refine (of_stage?_arrive fresh hstage ?_).2
    rintro rfl
    rw [hholds, hclosing] at hactive
    simp at hactive
  refine ⟨fun id' => ?_, h.free_of_closed, ?_, ?_, h.closed_of_file⟩
  · rw [show (p.arrive id request).desk = p.desk from rfl, h.holder_iff]
    constructor
    · rintro ⟨stage, hstage, hs⟩
      exact ⟨stage, stage?_arrive_of_some fresh hstage request, hs⟩
    · rintro ⟨stage, hstage, hs⟩
      exact ⟨stage, hold hstage (Or.inl hs), hs⟩
  · intro id₁ id₂ s₁ s₂ h₁ h₂ hs₁ hs₂
    exact h.closing_once id₁ id₂ s₁ s₂ (hold h₁ (Or.inr hs₁)) (hold h₂ (Or.inr hs₂)) hs₁ hs₂
  · intro id' stage hstage hs
    exact h.closed_of_closing id' stage (hold hstage (Or.inr hs)) hs

theorem AtDesk.move_call {p : Pipeline} {id : Nat} {stage stage' : CallStage} {shared : Shared}
    {desk : Desk} {file : Option Sink} {command : Option Command} (h : AtDesk p)
    (present : p.stage? id = some stage)
    (move : CallMove p id stage shared desk file stage' command) :
    AtDesk (p.moved id shared desk file stage') := by
  have hholds : p.desk.holder = some id ↔ stage.holdsDesk = true := by
    rw [h.holder_iff, present]
    simp
  refine ⟨fun id' => ?_, ?_, ?_, ?_, ?_⟩
  · -- who holds the desk
    rw [desk_moved, stage?_moved present]
    have hother := h.holder_iff id'
    split
    · rename_i hid
      subst hid
      simp only [Option.some.injEq, exists_eq_left']
      rcases move.desk_cases with ⟨rfl, -, -, -, hs'⟩ | ⟨hfree, -, -, hs'⟩ | ⟨rfl, hs'⟩ |
        ⟨rfl, hfree, hs'⟩
      · simp [Desk.hold, hs']
      · simp [hfree, hs']
      · rw [hs', hholds]
      · simp [Desk.shut, hfree, hs']
    · rename_i hid
      rcases move.desk_cases with ⟨rfl, hfree, -, -, -⟩ | ⟨hfree, -, hs, -⟩ | ⟨rfl, -⟩ |
        ⟨rfl, -, -⟩
      · rw [hfree] at hother
        rw [← hother]
        simp [Desk.hold, Ne.symm hid]
      · rw [← hother, hfree, hholds.2 hs]
        simp [Ne.symm hid]
      · exact hother
      · exact hother
  · -- a closed desk is free
    rw [desk_moved]
    intro hclosed
    rcases move.desk_cases with ⟨rfl, -, hopen, -, -⟩ | ⟨hfree, -, -, -⟩ | ⟨rfl, -⟩ |
      ⟨rfl, hfree, -⟩
    · rw [Desk.hold, hopen] at hclosed
      cases hclosed
    · exact hfree
    · exact h.free_of_closed hclosed
    · exact hfree
  · -- one call brings the file to its end
    intro id₁ id₂ s₁ s₂ h₁ h₂ hs₁ hs₂
    rw [stage?_moved present] at h₁ h₂
    have hone {id' : Nat} {s : CallStage} (hne : id' ≠ id) (hold : p.stage? id' = some s)
        (hs : s.isClosing = true) : ¬ stage'.isClosing = true := by
      intro hs'
      rcases move.closing_cases with ⟨-, heq, -⟩ | ⟨-, hopen, -⟩ | ⟨-, -, -, -, result, rfl⟩
      · exact hne (h.closing_once id' id s stage hold present hs (heq ▸ hs'))
      · have := (h.closed_of_closing id' s hold hs).1
        rw [hopen] at this
        cases this
      · cases hs'
    split at h₁ <;> split at h₂
    · rename_i hid₁ hid₂
      rw [hid₁, hid₂]
    · rename_i hid₁ hid₂
      cases h₁
      exact absurd hs₁ (hone hid₂ h₂ hs₂)
    · rename_i hid₁ hid₂
      cases h₂
      exact absurd hs₂ (hone hid₁ h₁ hs₁)
    · exact h.closing_once id₁ id₂ s₁ s₂ h₁ h₂ hs₁ hs₂
  · -- the desk is closed meanwhile, and the file is not finished
    intro id' s hstage hs
    rw [stage?_moved present] at hstage
    rw [desk_moved, closedFile_moved]
    split at hstage
    · cases hstage
      rcases move.closing_cases with ⟨rfl, heq, hkept⟩ | ⟨rfl, hopen, hclosed, -⟩ |
        ⟨-, -, -, -, result, rfl⟩
      · rw [hkept]
        exact h.closed_of_closing id stage present (heq ▸ hs)
      · refine ⟨hclosed, ?_⟩
        by_cases hfile : p.closedFile.isSome = true
        · rw [h.closed_of_file hfile] at hopen
          cases hopen
        · simpa using hfile
      · cases hs
    · rename_i hid
      have hold := h.closed_of_closing id' s hstage hs
      rcases move.closing_cases with ⟨rfl, -, hkept⟩ | ⟨-, hopen, -⟩ | ⟨hclosing, -⟩
      · rw [hkept]
        exact hold
      · rw [hold.1] at hopen
        cases hopen
      · exact absurd (h.closing_once id' id s stage hstage present hs hclosing) hid
  · -- a finished file leaves the desk closed
    rw [closedFile_moved, desk_moved]
    intro hfile
    rcases move.closing_cases with ⟨rfl, -, hkept⟩ | ⟨-, -, hclosed, -⟩ | ⟨hclosing, hkept, -⟩
    · rw [hkept]
      exact h.closed_of_file hfile
    · exact hclosed
    · rw [hkept]
      exact (h.closed_of_closing id stage present hclosing).1

/-- The desk is not concerned by what happens elsewhere. -/
theorem AtDesk.of_eq {p p' : Pipeline} (h : AtDesk p) (hdesk : p'.desk = p.desk)
    (hstages : ∀ id, p'.stage? id = p.stage? id) (hfile : p'.closedFile = p.closedFile) :
    AtDesk p' := by
  refine ⟨?_, ?_, ?_, ?_, ?_⟩
  · simpa only [hdesk, hstages] using h.holder_iff
  · simpa only [hdesk] using h.free_of_closed
  · simpa only [hstages] using h.closing_once
  · simpa only [hdesk, hstages, hfile] using h.closed_of_closing
  · simpa only [hdesk, hfile] using h.closed_of_file

theorem AtDesk.move {ms : History} {p p' : Pipeline} {actor : Actor} (h : AtDesk p)
    (move : p.Move actor p' ms) : AtDesk p' := by
  cases move with
  | call present move => exact h.move_call present move
  | batcher move => exact h.of_eq rfl (fun _ => rfl) rfl
  | worker present move => exact h.of_eq rfl (fun _ => rfl) rfl
  | scribe move => exact h.of_eq rfl (fun _ => rfl) rfl

/-! ### Numbers -/

/-- The numbers given out are those of the events that entered the channel, in their order. -/
structure Numbered (first : Nat) (log : History) (p : Pipeline) : Prop where
  next_eq : p.desk.next = first + log.events.length
  /-- An event that waits for room carries the number that is given out next. -/
  waiting : ∀ id e, p.stage? id = some (.submitting (.event e)) →
    e.sequence = UInt64.ofNat p.desk.next
  numbers_eq : log.numbers = List.range' first log.events.length
  event_of_getElem? : ∀ i e, log.events[i]? = some e → e.sequence = UInt64.ofNat (first + i) ∧
    ∃ id, .asked id (.write e.timestamp e.payload) ∈ log ∧
      .answered id (.ok (.numbered (first + i))) ∈ log

theorem Numbered.append_quiet {first : Nat} {log ms : History} {p p' : Pipeline}
    (h : Numbered first log p) (hdesk : p'.desk.next = p.desk.next)
    (hwaiting : ∀ id e, p'.stage? id = some (.submitting (.event e)) →
      e.sequence = UInt64.ofNat p.desk.next)
    (hevents : History.events ms = []) (hnumbers : History.numbers ms = []) :
    Numbered first (log ++ ms) p' where
  next_eq := by rw [hdesk, h.next_eq, History.events_append, hevents, List.append_nil]
  waiting id e hstage := by
    rw [hdesk]
    exact hwaiting id e hstage
  numbers_eq := by
    rw [History.numbers_append, hnumbers, History.events_append, hevents, List.append_nil,
      List.append_nil, h.numbers_eq]
  event_of_getElem? i e he := by
    rw [History.events_append, hevents, List.append_nil] at he
    obtain ⟨hsequence, id, hasked, hanswered⟩ := h.event_of_getElem? i e he
    exact ⟨hsequence, id, List.mem_append_left _ hasked, List.mem_append_left _ hanswered⟩

theorem Numbered.arrive {first : Nat} {log : History} {p : Pipeline} {id : Nat}
    (h : Numbered first log p) (fresh : p.stage? id = none) (request : Request) :
    Numbered first (log ++ [.asked id request]) (p.arrive id request) := by
  refine h.append_quiet rfl (fun id' e hstage => ?_) rfl rfl
  rw [stage?_arrive fresh] at hstage
  split at hstage
  · cases request <;> cases hstage
  · exact h.waiting id' e hstage

/-- A file that is brought to its end gives out no number. -/
theorem conclusion_ne_numbered (p : Pipeline) (ending : Ending) (sealedCount n : Nat) :
    (p.conclusion ending sealedCount).1 ≠ .ok (.numbered n) := by
  unfold conclusion
  cases p.shared.failure with
  | some error => cases ending <;> simp
  | none =>
      cases ending with
      | drained =>
          cases hresult : (p.scribe.writer.finish sealedCount).1 <;> simp [Except.map, hresult]
      | truncated =>
          cases hresult : p.scribe.writer.finishTruncated.1 <;> simp [Except.map, hresult]

end Pipeline

/-- A call gets a number exactly if its event has entered the channel. -/
theorem CallMove.number_cases {p : Pipeline} {id : Nat} {stage stage' : CallStage}
    {shared : Shared} {desk : Desk} {file : Option Sink} {command : Option Command}
    (move : CallMove p id stage shared desk file stage' command) :
    (∃ e, stage = .submitting (.event e) ∧ command = some (.event e) ∧
      stage' = .returned (.ok (.numbered p.desk.next))) ∨
    Command.events command.toList = [] ∧
      (∀ n, stage' ≠ .returned (.ok (.numbered n))) ∧
      ∀ e, stage' = .submitting (.event e) → e.sequence = UInt64.ofNat p.desk.next := by
  cases move with
  | enterEvent => exact Or.inl ⟨_, rfl, rfl, rfl⟩
  | awaited answer =>
      rename_i target result
      refine Or.inr ⟨rfl, fun n => ?_, by simp⟩
      cases result <;> simp [Except.map]
  | conclude =>
      refine Or.inr ⟨rfl, fun n hn => ?_, by simp⟩
      exact p.conclusion_ne_numbered _ _ n (CallStage.returned.inj hn)
  | _ => refine Or.inr ⟨rfl, by simp, by simp⟩

namespace Pipeline

theorem Numbered.move {first : Nat} {log ms : History} {p p' : Pipeline} {actor : Actor}
    (h : Numbered first log p) (callers : Callers log p) (atDesk : AtDesk p)
    (move : p.Move actor p' ms) : Numbered first (log ++ ms) p' := by
  cases move with
  | batcher move =>
      rename_i c
      refine h.append_quiet rfl h.waiting ?_ ?_ <;> rename_i command <;>
        cases command <;> cases c <;> rfl
  | worker present move => exact h.append_quiet rfl h.waiting rfl rfl
  | scribe move =>
      refine h.append_quiet rfl h.waiting ?_ ?_ <;> rename_i record <;> cases record <;> rfl
  | call present move =>
      rename_i id stage stage' shared desk file command
      have hnext := move.next_eq
      rcases move.number_cases with ⟨e, rfl, rfl, rfl⟩ | ⟨hevents, hnumber, hsubmitting⟩
      · -- the event gets its number
        have hevents : History.events (log ++ [.entered id (.event e),
            .answered id (.ok (.numbered p.desk.next))]) = log.events ++ [e] := by
          rw [History.events_append]
          rfl
        have hlen : desk.next = first + (log.events ++ [e]).length := by
          rw [hnext, h.next_eq, List.length_append]
          rfl
        change Numbered first (log ++ [.entered id (.event e),
          .answered id (.ok (.numbered p.desk.next))]) _
        refine ⟨?_, fun id' e' hstage => ?_, ?_, fun i e' he' => ?_⟩
        · rw [hevents]
          exact hlen
        · -- nobody else was served meanwhile
          rw [stage?_moved present] at hstage
          split at hstage
          · cases hstage
          · rename_i hid
            have hmine := (atDesk.holder_iff id).2 ⟨_, present, rfl⟩
            have hother := (atDesk.holder_iff id').2 ⟨_, hstage, rfl⟩
            rw [hmine, Option.some.injEq] at hother
            exact absurd hother.symm hid
        · have hnumbers : History.numbers [.entered id (.event e),
              .answered id (.ok (.numbered p.desk.next))] = [p.desk.next] := rfl
          rw [hevents, History.numbers_append, hnumbers, h.numbers_eq, List.length_append,
            List.length_singleton, List.range'_1_concat, h.next_eq]
        · rw [hevents] at he'
          by_cases hi : i < log.events.length
          · rw [List.getElem?_append_left hi] at he'
            obtain ⟨hsequence, id', hasked, hanswered⟩ := h.event_of_getElem? i e' he'
            exact ⟨hsequence, id', List.mem_append_left _ hasked, List.mem_append_left _ hanswered⟩
          · rw [List.getElem?_append_right (Nat.le_of_not_lt hi), List.getElem?_singleton] at he'
            split at he'
            · rename_i hzero
              cases he'
              have hi' : i = log.events.length := by omega
              obtain ⟨request, hasked, hpermits⟩ := callers.permitted id _ present
              cases hpermits with
              | submittingEvent =>
                  rw [hi', ← h.next_eq]
                  exact ⟨h.waiting id _ present, id, List.mem_append_left _ hasked, by simp⟩
            · cases he'
      · have hms : History.events ((command.map (.entered id)).toList ++
            (stage'.result?.map (.answered id)).toList) = Command.events command.toList := by
          rw [History.events, History.entered_call]
        refine h.append_quiet ?_ (fun id' e hstage => ?_) (hms.trans hevents) ?_
        · rw [desk_moved, hnext, hevents]
          rfl
        · rw [stage?_moved present] at hstage
          split at hstage
          · exact hsubmitting e (Option.some.inj hstage)
          · exact h.waiting id' e hstage
        · cases hresult : stage'.result? with
          | none => cases command <;> rfl
          | some result =>
              have hne : Moment.number? (.answered id result) = none := by
                cases result with
                | error error => rfl
                | ok answer =>
                    cases answer with
                    | numbered n =>
                        exact absurd (CallStage.result?_eq_some_iff.1 hresult) (hnumber n)
                    | _ => rfl
              cases command with
              | none => simp [History.numbers, hne]
              | some c =>
                  have hentered : Moment.number? (.entered id c) = none := rfl
                  simp [History.numbers, hne, hentered]

/-! ### At the end of a run -/

/-- Nobody has called yet, and the desk is open. -/
structure Fresh (p : Pipeline) : Prop where
  idle : p.calls = []
  free : p.desk.holder = none
  opened : p.desk.closed = false
  unfinished : p.closedFile = none

/-- The calls, the desk and the numbers are in order. -/
structure Served (first : Nat) (log : History) (p : Pipeline) : Prop where
  callers : Callers log p
  atDesk : AtDesk p
  numbered : Numbered first log p

theorem Fresh.served {p : Pipeline} (fresh : p.Fresh) : Served p.desk.next [] p where
  callers := by constructor <;> simp [stage?, fresh.idle]
  atDesk := by constructor <;> simp [stage?, fresh.idle, fresh.free, fresh.opened, fresh.unfinished]
  numbered := by
    constructor <;> simp [stage?, fresh.idle, History.events, History.entered, History.numbers]

theorem Served.arrive {first : Nat} {log : History} {p : Pipeline} {id : Nat}
    (h : Served first log p) (fresh : p.stage? id = none) (request : Request) :
    Served first (log ++ [.asked id request]) (p.arrive id request) :=
  ⟨h.callers.arrive fresh request, h.atDesk.arrive fresh request, h.numbered.arrive fresh request⟩

theorem Served.move {first : Nat} {log ms : History} {p p' : Pipeline} {actor : Actor}
    (h : Served first log p) (move : p.Move actor p' ms) : Served first (log ++ ms) p' :=
  ⟨h.callers.move move, h.atDesk.move move, h.numbered.move h.callers h.atDesk move⟩

/-- **The calls, the desk and the numbers are in order at the end of every run.** -/
theorem Run.served {origin p : Pipeline} {log : History} (run : Run origin log p)
    (fresh : origin.Fresh) : Served origin.desk.next log p :=
  run.invariant (Served origin.desk.next) fresh.idle fresh.served
    (fun _ _ _ request _ h free => h.arrive free request) (fun _ _ _ _ _ _ h move => h.move move)

/-- A call that is made had no answer before. -/
theorem Run.not_answered_before {origin p : Pipeline} {log before behind : History} {id : Nat}
    {request : Request} (run : Run origin log p) (fresh : origin.Fresh)
    (hlog : log = before ++ .asked id request :: behind) (result : Except Error Answer) :
    .answered id result ∉ before := by
  refine run.invariant (fun log _ => ∀ before behind id request,
    log = before ++ .asked id request :: behind → ∀ result, .answered id result ∉ before)
    fresh.idle (by simp) ?_ ?_ before behind id request hlog result
  · intro log p id request run hbefore free before behind id' request' hlog result hin
    have callers := (run.served fresh).callers
    rcases List.append_eq_append_iff.1 hlog with ⟨rest, rfl, hrest⟩ | ⟨rest, hold, hrest⟩
    · -- it is the call that is being made
      rcases rest with _ | ⟨m, rest⟩
      · cases hrest
        rw [List.append_nil, callers.answered_iff, free] at hin
        cases hin
      · simp at hrest
    · rcases rest with _ | ⟨m, rest⟩
      · cases hrest
        rw [List.append_nil] at hold
        subst hold
        rw [callers.answered_iff, free] at hin
        cases hin
      · cases hrest
        exact hbefore before rest id' request' hold result hin
  · intro log p actor p' ms run hbefore move before behind id request hlog result
    have hasked : .asked id request ∉ ms := by cases move <;> simp
    rcases List.append_eq_append_iff.1 hlog with ⟨rest, -, hrest⟩ | ⟨rest, hold, hrest⟩
    · exact absurd (hrest ▸ List.mem_append_right rest (List.mem_cons_self ..)) hasked
    · rcases rest with _ | ⟨m, rest⟩
      · rw [List.nil_append] at hrest
        exact absurd (hrest ▸ List.mem_cons_self ..) hasked
      · cases hrest
        exact hbefore before rest id request hold result

/-- **A call that was made after another one had its answer gets a higher number.** -/
theorem Run.number_lt {origin p : Pipeline} {log before behind : History} {id id' n n' : Nat}
    {request : Request} (run : Run origin log p) (fresh : origin.Fresh)
    (hlog : log = before ++ .asked id' request :: behind)
    (hfirst : .answered id (.ok (.numbered n)) ∈ before)
    (hsecond : .answered id' (.ok (.numbered n')) ∈ log) : n < n' := by
  have hbehind : .answered id' (.ok (.numbered n')) ∈ behind := by
    have hbefore := run.not_answered_before fresh hlog (.ok (.numbered n'))
    simpa [hlog, hbefore] using hsecond
  have hn : n ∈ before.numbers := List.mem_filterMap.2 ⟨_, hfirst, rfl⟩
  have hn' : n' ∈ behind.numbers := List.mem_filterMap.2 ⟨_, hbehind, rfl⟩
  have hnumbers : log.numbers = before.numbers ++ behind.numbers := by
    rw [hlog, History.numbers_append]
    rfl
  -- the numbers are given out in ascending order
  have hascending : log.numbers.Pairwise (· < ·) := by
    rw [(run.served fresh).numbered.numbers_eq]
    exact List.pairwise_lt_range'
  rw [hnumbers, List.pairwise_append] at hascending
  exact hascending.2.2 n hn n' hn'

end Pipeline

end TraceLog
