/-
**What a flush waits for.**

A call to flush sends a command behind the events, is told how many containers were sealed when the
batcher came to it, and waits until so many have reached the file.  That number is what the builder
makes of the commands up to the flush, whoever else calls meanwhile; and as the scribe publishes how
far the file has got before it rests, nobody waits for containers that have been written.

Main definitions:

* `Pipeline.Target` — the number of containers that are sealed behind a flush command;
* `Pipeline.Targets` — the invariant about the numbers that calls are told and wait for;
* `Pipeline.Posted` — the invariant about the flush commands that were sent;
* `Pipeline.Published` — the invariant about how far the file has got.

Main results:

* `Builder.sealedCount_le_obeyAll` — commands never take a container back;
* `Pipeline.Run.targets`, `Pipeline.Run.posted`, `Pipeline.Run.published` — the invariants hold at
  the end of every run.
-/

import TraceLog.Proofs.Pipeline.Stopping
import TraceLog.Proofs.Pipeline.Writing

set_option relaxedAutoImplicit false
set_option autoImplicit false

namespace TraceLog

/-! ### Containers are not taken back -/

namespace Builder

theorem sealedCount_le_sealCurrent (b : Builder) : b.sealedCount ≤ b.sealCurrent.2.sealedCount := by
  unfold sealCurrent
  split
  · exact Nat.le_refl _
  · exact Nat.le_succ _

theorem sealedCount_le_obey (b : Builder) (command : Command) :
    b.sealedCount ≤ (b.obey command).2.sealedCount := by
  cases command with
  | flush ticket => exact b.sealedCount_le_sealCurrent
  | event e =>
      simp only [obey, append]
      split
      · exact sealedCount_le_sealCurrent { b with current := b.current.push e }
      · exact Nat.le_refl _

/-- Commands never take a container back. -/
theorem sealedCount_le_obeyAll (b : Builder) (commands : List Command) :
    b.sealedCount ≤ (b.obeyAll commands).2.sealedCount := by
  induction commands generalizing b with
  | nil => exact Nat.le_refl _
  | cons command commands ih => exact (b.sealedCount_le_obey command).trans (ih _)

end Builder

/-! ### What one move does -/

/-- The number that a call to flush was told and has not been granted yet. -/
def CallStage.target? : CallStage → Option Nat
  | .leavingWord target | .awaitingFlush target => some target
  | _ => none

/-- Whether a call at this stage may have sent a flush command. -/
def CallStage.isPosted : CallStage → Bool
  | .awaitingReply | .leavingWord _ | .awaitingFlush _ | .unanswered | .returned _ => true
  | _ => false

theorem HaltStep.replies_apply (step : HaltStep) (s : Shared) :
    (step.apply s).replies = s.replies := by
  cases step <;> rfl

theorem HaltStep.progress_apply (step : HaltStep) (s : Shared) :
    (step.apply s).progress = s.progress := by
  cases step <;> rfl

namespace CallMove

variable {p : Pipeline} {id : Nat} {stage stage' : CallStage} {shared : Shared} {desk : Desk}
  {file : Option Sink} {command : Option Command}

/-- A call takes replies at most. -/
theorem replies_subset (move : CallMove p id stage shared desk file stage' command) :
    ∀ reply ∈ shared.replies, reply ∈ p.shared.replies := by
  intro reply hreply
  cases move with
  | takeReply replied =>
      obtain ⟨sealedCount, -, hreplied⟩ := Option.map_eq_some_iff.1 replied
      cases hreplied
      exact List.mem_of_mem_filter hreply
  | halt => rwa [HaltStep.replies_apply] at hreply
  | _ => exact hreply

/-- A call is told a number by a reply, and keeps to it. -/
theorem target_cases (move : CallMove p id stage shared desk file stage' command) {n : Nat}
    (h : stage'.target? = some n) : stage.target? = some n ∨ (id, n) ∈ p.shared.replies := by
  cases move with
  | takeReply replied =>
      obtain ⟨sealedCount, hlookup, hreplied⟩ := Option.map_eq_some_iff.1 replied
      cases hreplied
      cases h
      obtain ⟨before, behind, hreplies, -⟩ := List.lookup_eq_some_iff.1 hlookup
      right
      rw [hreplies]
      simp
  | leaveWord => exact Or.inl h
  | _ => cases h

theorem progress_flushed (move : CallMove p id stage shared desk file stage' command) :
    shared.progress.flushed = p.shared.progress.flushed := by
  cases move with
  | takeReply replied =>
      obtain ⟨replies, rfl⟩ := Shared.eq_of_takeReply? replied
      rfl
  | halt => rw [HaltStep.progress_apply]
  | _ => rfl

/-- Whoever has sent a flush command has sent it for good. -/
theorem isPosted (move : CallMove p id stage shared desk file stage' command)
    (posted : stage.isPosted = true) : stage'.isPosted = true := by
  cases move <;> first | rfl | cases posted

/-- A flush command is sent by a call that goes on to wait for the answer. -/
theorem flush_cases (move : CallMove p id stage shared desk file stage' command) :
    (∀ ticket, .flush ticket ∉ command.toList) ∨ ∃ ticket,
      stage = .submitting (.flush ticket) ∧ stage' = .awaitingReply ∧
        command = some (.flush ticket) := by
  cases move with
  | enterFlush offered => exact Or.inr ⟨_, rfl, rfl, rfl⟩
  | _ => exact Or.inl (by simp)

/-- A call to flush is granted what it waits for. -/
theorem flushed_cases (move : CallMove p id stage shared desk file stage' command)
    (flushed : stage' = .returned (.ok .flushed)) :
    ∃ n, stage.target? = some n ∧ n ≤ p.shared.progress.flushed := by
  cases move with
  | awaited answer =>
      rename_i target result
      refine ⟨target, rfl, ?_⟩
      unfold Shared.awaitFlushed? at answer
      split at answer
      · rename_i hle
        exact hle
      · split at answer <;> cases answer
        cases flushed
  | conclude =>
      rename_i ending sealedCount
      have hresult := CallStage.returned.inj flushed
      unfold Pipeline.conclusion at hresult
      cases hfailure : p.shared.failure with
      | some error =>
          rw [hfailure] at hresult
          cases ending <;> cases hresult
      | none =>
          rw [hfailure] at hresult
          cases ending with
          | drained =>
              rcases hfinish : p.scribe.writer.finish sealedCount with ⟨_ | totals, file⟩ <;>
                simp [hfinish, Except.map] at hresult
          | truncated =>
              rcases hfinish : p.scribe.writer.finishTruncated with ⟨_ | totals, file⟩ <;>
                simp [hfinish, Except.map] at hresult
  | _ => cases flushed

end CallMove

section

variable {b b' : Builder} {s s' : Shared} {stage stage' : BatcherStage} {command : Option Command}
  {c : Option Container}

/-- The batcher owes an answer to the flush command that it has just carried out, or the one that it
owed before. -/
theorem BatcherMove.owes_cases (move : BatcherMove b s stage b' stage' s' command c) {ticket : Nat}
    (owes : Batcher.owes ⟨b', stage'⟩ ticket = true) :
    command = some (.flush ticket) ∨ command = none ∧ Batcher.owes ⟨b, stage⟩ ticket = true := by
  cases move with
  | obey received =>
      rename_i command commands
      cases command with
      | event e =>
          cases hdone : (b.obey (.event e)).1 <;> rw [hdone] at owes <;> cases owes
      | flush ticket' =>
          left
          cases hdone : (b.obey (.flush ticket')).1 <;> rw [hdone] at owes <;>
            simp_all [Batcher.owes, Batcher.submitting, Batcher.afterwards, AfterHandover.stage]
  | sealLast running =>
      cases hdone : b.sealCurrent.1 <;> rw [hdone] at owes <;> cases owes
  | grantAdmission acquired =>
      rename_i c after budget
      cases after <;> first | cases owes | exact Or.inr ⟨rfl, owes⟩
  | handOver offered =>
      rename_i c after work
      cases after <;> first | cases owes | exact Or.inr ⟨rfl, owes⟩
  | refuseAdmission acquired =>
      rename_i c after budget
      cases after <;> cases owes
  | refuseWork offered =>
      rename_i c after
      cases after <;> cases owes
  | _ => cases owes

/-- The batcher answers a flush command when nothing is left to be handed over for it. -/
theorem BatcherMove.replies_cases (move : BatcherMove b s stage b' stage' s' command c) :
    s'.replies = s.replies ∨ ∃ ticket, stage = .replying ticket ∧ command = none ∧ b' = b ∧
      s'.replies = (ticket, b.sealedCount) :: s.replies := by
  cases move with
  | reply => exact Or.inr ⟨_, rfl, rfl, rfl, rfl⟩
  | _ => exact Or.inl rfl

theorem BatcherMove.progress_eq (move : BatcherMove b s stage b' stage' s' command c) :
    s'.progress = s.progress := by
  cases move <;> rfl

end

theorem WorkerMove.replies_eq {codec : Codec} {s s' : Shared} {out out' : Completions}
    {w w' : Worker} (move : WorkerMove codec s out w w' s' out') :
    s'.replies = s.replies ∧ s'.progress = s.progress := by
  cases move with
  | halt => exact ⟨HaltStep.replies_apply _ _, HaltStep.progress_apply _ _⟩
  | _ => exact ⟨rfl, rfl⟩

/-- The scribe rests, or has ended. -/
def ScribeStage.isResting : ScribeStage → Bool
  | .waiting | .finished => true
  | _ => false

section

variable {w w' : Resequencer} {s s' : Shared} {inbox inbox' : Completions}
  {stage stage' : ScribeStage} {record : Option Record}

theorem ScribeMove.replies_eq (move : ScribeMove w s inbox stage w' stage' s' inbox' record) :
    s'.replies = s.replies := by
  cases move with
  | halt => exact HaltStep.replies_apply _ _
  | _ => rfl

theorem ScribeMove.flushed_le (move : ScribeMove w s inbox stage w' stage' s' inbox' record) :
    s.progress.flushed ≤ s'.progress.flushed := by
  cases move with
  | publish goes flushed => exact Progress.flushed_le_publish _ _
  | publishLast flushed => exact Progress.flushed_le_publish _ _
  | halt => rw [HaltStep.progress_apply]
  | _ => exact Nat.le_refl _

theorem Resequencer.next_flush {result : Except Error Unit} (flushed : w.flush = (result, w')) :
    w'.next = w.next := by
  rw [← (counted_of_flush w).1, flushed]

/-- The scribe publishes no more than it has written. -/
theorem ScribeMove.flushed_le_next (move : ScribeMove w s inbox stage w' stage' s' inbox' record)
    (h : s.progress.flushed ≤ w.next) : s'.progress.flushed ≤ w'.next := by
  cases move with
  | publish goes flushed =>
      rw [← Resequencer.next_flush flushed] at h
      exact Nat.max_le.2 ⟨h, Nat.le_refl _⟩
  | publishLast flushed =>
      rw [← Resequencer.next_flush flushed] at h
      exact Nat.max_le.2 ⟨h, Nat.le_refl _⟩
  | flushFailed flushes flushed => rwa [Resequencer.next_flush flushed]
  | take running accepted => exact h.trans (Resequencer.next_le_accept accepted)
  | refuse running accepted => exact h.trans (Resequencer.next_le_accept accepted)
  | halt => rwa [HaltStep.progress_apply]
  | _ => exact h

/-- Before the scribe rests, it publishes what it has written. -/
theorem ScribeMove.resting_cases (move : ScribeMove w s inbox stage w' stage' s' inbox' record)
    (resting : stage'.isResting = true) :
    s'.stopped = true ∨ w'.next ≤ s'.progress.flushed := by
  cases move with
  | publish goes flushed => exact Or.inr (Nat.le_max_right _ _)
  | publishLast flushed => exact Or.inr (Nat.le_max_right _ _)
  | leave stopped => exact Or.inl stopped
  | _ => cases resting

end

namespace Pipeline

variable {b₀ : Builder} {log ms : History} {p p' : Pipeline} {actor : Actor} {id n : Nat}

/-! ### Targets -/

/-- The number of containers that are sealed when the flush command of a call is carried out. -/
def Target (b₀ : Builder) (commands : List Command) (id n : Nat) : Prop :=
  ∃ front behind, commands = front ++ .flush id :: behind ∧
    n = (b₀.obeyAll (front ++ [.flush id])).2.sealedCount

theorem Target.append {commands : List Command} (h : Target b₀ commands id n)
    (more : List Command) : Target b₀ (commands ++ more) id n := by
  obtain ⟨front, behind, rfl, hn⟩ := h
  exact ⟨front, behind ++ more, by simp, hn⟩

theorem Target.of_prefix {commands commands' : List Command} (h : Target b₀ commands id n)
    (hfront : commands <+: commands') : Target b₀ commands' id n := by
  obtain ⟨more, rfl⟩ := hfront
  exact h.append more

/-- No more containers are waited for than were sealed in the end. -/
theorem Target.le_sealedCount {commands : List Command} (h : Target b₀ commands id n) :
    n ≤ (b₀.obeyAll commands).2.sealedCount := by
  obtain ⟨front, behind, rfl, rfl⟩ := h
  have hsplit : front ++ .flush id :: behind = (front ++ [Command.flush id]) ++ behind := by simp
  rw [hsplit, Builder.obeyAll_append b₀ (front ++ [Command.flush id]) behind]
  exact Builder.sealedCount_le_obeyAll _ _

/-- What the batcher still owes an answer to, what it has answered, and what calls wait for. -/
structure Targets (b₀ : Builder) (log : History) (p : Pipeline) : Prop where
  owed : ∀ ticket, p.batcher.owes ticket = true → ∃ front, log.obeyed = front ++ [.flush ticket]
  replies : ∀ ticket n, (ticket, n) ∈ p.shared.replies → Target b₀ log.obeyed ticket n
  words : ∀ id stage n, p.stage? id = some stage → stage.target? = some n →
    Target b₀ log.obeyed id n
  granted : ∀ id, .answered id (.ok .flushed) ∈ log →
    ∃ n, Target b₀ log.obeyed id n ∧ n ≤ p.shared.progress.flushed

/-- Neither those who wait nor what they wait for is concerned by a step of anybody else. -/
theorem Targets.append_quiet (h : Targets b₀ log p) (hbatcher : p'.batcher = p.batcher)
    (hreplies : ∀ reply ∈ p'.shared.replies, reply ∈ p.shared.replies)
    (hstages : ∀ id stage n, p'.stage? id = some stage → stage.target? = some n →
      Target b₀ log.obeyed id n)
    (hprogress : p.shared.progress.flushed ≤ p'.shared.progress.flushed)
    (hobeyed : ms.obeyed = [])
    (hgranted : ∀ id, .answered id (.ok .flushed) ∈ ms →
      ∃ n, Target b₀ log.obeyed id n ∧ n ≤ p'.shared.progress.flushed) :
    Targets b₀ (log ++ ms) p' := by
  have hsame : (log ++ ms).obeyed = log.obeyed := by
    rw [History.obeyed_append, hobeyed, List.append_nil]
  constructor
  · rw [hsame, hbatcher]
    exact h.owed
  · rw [hsame]
    exact fun ticket n hin => h.replies ticket n (hreplies _ hin)
  · rw [hsame]
    exact hstages
  · rw [hsame]
    intro id hin
    rcases List.mem_append.1 hin with hin | hin
    · obtain ⟨n, htarget, hle⟩ := h.granted id hin
      exact ⟨n, htarget, hle.trans hprogress⟩
    · exact hgranted id hin

theorem Targets.move (h : Targets b₀ log p) (batched : Batched b₀ log p)
    (move : p.Move actor p' ms) : Targets b₀ (log ++ ms) p' := by
  cases move with
  | call present move =>
      rename_i id stage stage' shared desk file command
      refine h.append_quiet rfl move.replies_subset (fun id' s n hstage htarget => ?_)
        (Nat.le_of_eq move.progress_flushed.symm) (History.obeyed_call _ _ _) fun id' hin => ?_
      · rw [stage?_moved present] at hstage
        split at hstage
        · rename_i hid
          subst hid
          cases hstage
          rcases move.target_cases htarget with hkept | hreply
          · exact h.words id' stage n present hkept
          · exact h.replies id' n hreply
        · exact h.words id' s n hstage htarget
      · obtain ⟨rfl, hreturned⟩ := CallStage.returned_of_mem hin
        obtain ⟨n, htarget, hle⟩ := move.flushed_cases hreturned
        refine ⟨n, h.words id' stage n present htarget, ?_⟩
        rw [shared_moved, move.progress_flushed]
        exact hle
  | batcher move =>
      rename_i builder stage shared command c
      have hobeyed : History.obeyed (log ++ ((command.map Moment.obeyed).toList ++
          (c.map Moment.sealed).toList)) = log.obeyed ++ command.toList := by
        rw [History.obeyed_append, History.obeyed_batcher]
      refine ⟨fun ticket howes => ?_, fun ticket n hin => ?_, fun id s n hstage htarget => ?_,
        fun id hin => ?_⟩
      · rw [hobeyed]
        rcases move.owes_cases howes with rfl | ⟨rfl, hbefore⟩
        · exact ⟨log.obeyed, rfl⟩
        · rw [Option.toList_none, List.append_nil]
          exact h.owed ticket hbefore
      · rw [hobeyed]
        rcases move.replies_cases with hkept | ⟨ticket', hstage, rfl, -, hadded⟩
        · rw [hkept] at hin
          exact (h.replies ticket n hin).append _
        · rw [hadded] at hin
          rcases List.mem_cons.1 hin with heq | hin
          · -- the answer is what the builder has made of the commands so far
            cases heq
            have howes : p.batcher.owes ticket = true := by simp [Batcher.owes, hstage]
            obtain ⟨front, hfront⟩ := h.owed ticket howes
            refine ⟨front, [], by rw [Option.toList_none, List.append_nil, hfront], ?_⟩
            rcases batched.made with ⟨-, hbuilder, -⟩ | ⟨hlast, -⟩
            · rw [hbuilder, hfront]
            · rw [hstage] at hlast
              cases hlast
          · exact (h.replies ticket n hin).append _
      · rw [hobeyed]
        exact (h.words id s n hstage htarget).append _
      · have hin' : .answered id (.ok .flushed) ∈ log := by simpa using hin
        obtain ⟨n, htarget, hle⟩ := h.granted id hin'
        rw [hobeyed]
        refine ⟨n, htarget.append _, ?_⟩
        rw [move.progress_eq]
        exact hle
  | worker present move =>
      obtain ⟨hreplies, hprogress⟩ := move.replies_eq
      refine h.append_quiet rfl (fun reply hin => ?_) h.words (Nat.le_of_eq ?_) rfl (by simp)
      · rwa [hreplies] at hin
      · rw [hprogress]
  | scribe move =>
      have hreplies := move.replies_eq
      refine h.append_quiet rfl (fun reply hin => ?_) h.words move.flushed_le
        (History.obeyed_scribe _) (by simp)
      rwa [hreplies] at hin

theorem Targets.arrive (h : Targets b₀ log p) (fresh : p.stage? id = none) (request : Request) :
    Targets b₀ (log ++ [.asked id request]) (p.arrive id request) := by
  refine h.append_quiet rfl (fun _ h => h) (fun id' stage n hstage htarget => ?_) (Nat.le_refl _)
    rfl (by simp)
  rw [stage?_arrive fresh] at hstage
  split at hstage
  · cases request <;> cases hstage <;> cases htarget
  · exact h.words id' stage n hstage htarget

/-- **What calls to flush wait for**, at the end of every run. -/
theorem Run.targets {settings : Settings} {sink : Sink} {base : Totals} {origin : Pipeline}
    (run : Run origin log p) (opened : Pipeline.start settings sink base = .ok origin) :
    Targets (.start settings.containerSize base.containers.toNat) log p := by
  have fresh := fresh_of_start opened
  refine run.invariant (Targets (.start settings.containerSize base.containers.toNat)) fresh.idle ?_
    (fun _ _ _ request _ h free => h.arrive free request)
    (fun _ _ _ _ _ run h move => h.move (run.batched_of_start opened) move)
  obtain ⟨-, rfl⟩ := eq_of_start opened
  constructor <;> simp [Batcher.start, Batcher.owes, stage?]

/-! ### Flush commands are sent once -/

/-- A call to flush sends its command once. -/
structure Posted (log : History) (p : Pipeline) : Prop where
  ticket : ∀ id ticket, p.stage? id = some (.submitting (.flush ticket)) → ticket = id
  posted : ∀ id, .flush id ∈ log.entered →
    ∃ stage, p.stage? id = some stage ∧ stage.isPosted = true
  once : ∀ id, log.entered.count (.flush id) ≤ 1

/-- The flush commands are not concerned by a step that sends none. -/
theorem Posted.of_entered_eq (h : Posted log p) (hentered : (log ++ ms).entered = log.entered)
    (hstages : ∀ id stage, p.stage? id = some stage → stage.isPosted = true →
      ∃ stage, p'.stage? id = some stage ∧ stage.isPosted = true)
    (hticket : ∀ id ticket, p'.stage? id = some (.submitting (.flush ticket)) → ticket = id) :
    Posted (log ++ ms) p' := by
  refine ⟨hticket, fun id hin => ?_, fun id => ?_⟩
  · rw [hentered] at hin
    obtain ⟨stage, hstage, hposted⟩ := h.posted id hin
    exact hstages id stage hstage hposted
  · rw [hentered]
    exact h.once id

theorem Posted.move (h : Posted log p) (move : p.Move actor p' ms) : Posted (log ++ ms) p' := by
  cases move with
  | call present move =>
      rename_i id stage stage' shared desk file command
      have hstages (id' : Nat) (stage'' : CallStage) (hstage : p.stage? id' = some stage'')
          (hposted : stage''.isPosted = true) :
          ∃ stage, (p.moved id shared desk file stage').stage? id' = some stage ∧
            stage.isPosted = true := by
        rw [stage?_moved present]
        split
        · rename_i hid
          subst hid
          rw [present, Option.some.injEq] at hstage
          subst hstage
          exact ⟨stage', rfl, move.isPosted hposted⟩
        · exact ⟨stage'', hstage, hposted⟩
      have hticket (id' ticket : Nat)
          (hstage : (p.moved id shared desk file stage').stage? id' =
            some (.submitting (.flush ticket))) : ticket = id' := by
        rw [stage?_moved present] at hstage
        split at hstage
        · rename_i hid
          subst hid
          cases move with
          | serveFlush free opened =>
              cases hstage
              rfl
          | _ => cases hstage
        · exact h.ticket id' ticket hstage
      have hentered : (log ++ ((command.map (Moment.entered id)).toList ++
          (stage'.result?.map (Moment.answered id)).toList)).entered =
            log.entered ++ command.toList := by
        rw [History.entered_append, History.entered_call]
      rcases move.flush_cases with hnone | ⟨ticket, rfl, rfl, rfl⟩
      · refine ⟨hticket, fun id' hin => ?_, fun id' => ?_⟩
        · rw [hentered, List.mem_append, or_iff_left (hnone id')] at hin
          obtain ⟨stage'', hstage, hposted⟩ := h.posted id' hin
          exact hstages id' stage'' hstage hposted
        · rw [hentered, List.count_append, List.count_eq_zero.2 (hnone id')]
          exact h.once id'
      · -- the call has not sent its command before, or it would not be about to do so
        obtain rfl := h.ticket _ _ present
        have hfirst : .flush ticket ∉ log.entered := by
          intro hin
          obtain ⟨stage'', hstage, hposted⟩ := h.posted ticket hin
          rw [present, Option.some.injEq] at hstage
          subst hstage
          cases hposted
        refine ⟨hticket, fun id' hin => ?_, fun id' => ?_⟩
        · rw [hentered, List.mem_append] at hin
          rcases hin with hin | hin
          · obtain ⟨stage'', hstage, hposted⟩ := h.posted id' hin
            exact hstages id' stage'' hstage hposted
          · obtain rfl : id' = ticket := by simpa using hin
            exact ⟨.awaitingReply, by rw [stage?_moved present, if_pos rfl], rfl⟩
        · rw [hentered, List.count_append]
          by_cases hid : id' = ticket
          · subst hid
            rw [List.count_eq_zero.2 hfirst]
            simp
          · have hother :
                List.count (Command.flush id') (some (Command.flush ticket)).toList = 0 := by
              simpa [List.count_singleton] using Ne.symm hid
            rw [hother]
            exact h.once id'
  | batcher move =>
      refine h.of_entered_eq ?_ (fun id stage hstage hposted => ⟨stage, hstage, hposted⟩) h.ticket
      rw [History.entered_append, History.entered_batcher, List.append_nil]
  | worker present move =>
      refine h.of_entered_eq ?_ (fun id stage hstage hposted => ⟨stage, hstage, hposted⟩) h.ticket
      rw [List.append_nil]
  | scribe move =>
      refine h.of_entered_eq ?_ (fun id stage hstage hposted => ⟨stage, hstage, hposted⟩) h.ticket
      rw [History.entered_append, History.entered_scribe, List.append_nil]

theorem Posted.arrive (h : Posted log p) (fresh : p.stage? id = none) (request : Request) :
    Posted (log ++ [.asked id request]) (p.arrive id request) := by
  refine h.of_entered_eq (History.entered_asked ..) (fun id' stage hstage hposted => ?_)
    fun id' ticket hstage => ?_
  · exact ⟨stage, stage?_arrive_of_some fresh hstage request, hposted⟩
  · rw [stage?_arrive fresh] at hstage
    split at hstage
    · cases request <;> cases hstage
    · exact h.ticket id' ticket hstage

/-- **A call to flush sends its command once**, in every run. -/
theorem Run.posted {origin : Pipeline} (run : Run origin log p) (idle : origin.calls = []) :
    Posted log p := by
  refine run.invariant Posted idle ?_ (fun _ _ _ request _ h free => h.arrive free request)
    (fun _ _ _ _ _ _ h move => h.move move)
  constructor <;> simp [stage?, idle, History.entered]

/-- So there is one number that it waits for. -/
theorem Target.eq_of_posted {n' : Nat} (h : Target b₀ log.entered id n) (posted : Posted log p)
    (h' : Target b₀ log.entered id n') : n = n' := by
  obtain ⟨front, behind, hsplit, hn⟩ := h
  obtain ⟨front', behind', hsplit', hn'⟩ := h'
  have honce := posted.once id
  rw [hsplit, List.count_append, List.count_cons_self] at honce
  have hfront : .flush id ∉ front := List.count_eq_zero.1 (by omega)
  have hbehind : .flush id ∉ behind := List.count_eq_zero.1 (by omega)
  obtain ⟨rfl, -⟩ := (List.append_cons_inj_of_notMem hfront hbehind).1 (hsplit.symm.trans hsplit')
  rw [hn, hn']

/-! ### How far the file has got -/

/-- No more was published than was written; and before the scribe rests it publishes all of it,
unless the pipeline is to stop. -/
structure Published (p : Pipeline) : Prop where
  flushed_le : p.shared.progress.flushed ≤ p.scribe.writer.next
  resting : p.scribe.stage.isResting = true →
    p.shared.stopped = true ∨ p.scribe.writer.next ≤ p.shared.progress.flushed

theorem Published.move (h : Published p) (move : p.Move actor p' ms) : Published p' := by
  have hstopped := move.shuts.stopped
  -- whoever is not the scribe leaves the numbers alone
  have hkept (hscribe : p'.scribe = p.scribe)
      (hflushed : p'.shared.progress.flushed = p.shared.progress.flushed) : Published p' := by
    refine ⟨?_, fun hresting => ?_⟩
    · rw [hflushed, hscribe]
      exact h.flushed_le
    · rw [hscribe] at hresting ⊢
      rw [hflushed]
      exact (h.resting hresting).imp_left hstopped
  cases move with
  | call present move => exact hkept rfl move.progress_flushed
  | batcher move => exact hkept rfl (congrArg Progress.flushed move.progress_eq)
  | worker present move => exact hkept rfl (congrArg Progress.flushed move.replies_eq.2)
  | scribe move => exact ⟨move.flushed_le_next h.flushed_le, move.resting_cases⟩

/-- **How far the file has got**, at the end of every run. -/
theorem Run.published {settings : Settings} {sink : Sink} {base : Totals} {origin : Pipeline}
    (run : Run origin log p) (opened : Pipeline.start settings sink base = .ok origin) :
    Published p := by
  refine run.invariant (fun _ p => Published p) (fresh_of_start opened).idle ?_
    (fun _ _ _ _ _ h _ => ⟨h.1, h.2⟩) (fun _ _ _ _ _ _ h move => h.move move)
  obtain ⟨-, rfl⟩ := eq_of_start opened
  exact ⟨Nat.le_refl _, by simp [Scribe.start, ScribeStage.isResting]⟩

end Pipeline

end TraceLog
