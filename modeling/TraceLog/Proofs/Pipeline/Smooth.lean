/-
**Runs in which nothing goes wrong.**

If nobody aborts, the file refuses nothing and every container has a record, then the pipeline is
never stopped, and no container is dropped: whoever comes to an end does so because there is nothing
left to do for it.  The invariant says this of all stages at once, because each of them relies on
the others.  The batcher ends behind the last command, the workers behind the last container, and
the scribe behind the last worker; and as no number is sealed twice, no record is refused.

Main definitions:

* `Pipeline.Favourable` — nobody aborts, and every container has a record;
* `Pipeline.Smooth` — the invariant.

Main results:

* `Pipeline.Smooth.not_drops` — **nobody drops a container**;
* `Pipeline.Run.smooth` — the invariant holds at the end of every favourable run.
-/

import TraceLog.Proofs.Pipeline.Intact
import TraceLog.Proofs.Pipeline.Writing

set_option relaxedAutoImplicit false
set_option autoImplicit false

namespace TraceLog

namespace Pipeline

/-! ### The invariant -/

/-- Nobody aborts, every container that the commands make has a record, and there are not so many
events that they could not be numbered in 64 bits.  What the commands leave in the open container
counts as soon as no more of them can come. -/
structure Favourable (b₀ : Builder) (log : History) (p : Pipeline) : Prop where
  unaborted : log.Unaborted
  storable : ∀ c ∈ (b₀.obeyAll log.entered).1, c.Storable p.codec
  storable_last : p.shared.commands.closed = true →
    ∀ c ∈ (b₀.obeyAll log.entered).2.sealCurrent.1, c.Storable p.codec
  few : b₀.sealedCount + log.events.length ≤ UInt64.size

/-- Nothing is dropped, and the scribe has brought the records in their order to a file that refuses
nothing. -/
structure Smooth (sink : Sink) (base : Totals) (log : History) (p : Pipeline) : Prop
    extends Intact log p where
  unhalted : ∀ steps, p.scribe.stage ≠ .halting steps
  exact : ∃ written returned, Watched.Exact sink base written ⟨p.scribe.writer, log.taken, returned⟩

/-- What was favourable so far was favourable before. -/
theorem Favourable.of_arrive {b₀ : Builder} {log : History} {p : Pipeline} {id : Nat}
    {request : Request} (h : Favourable b₀ (log ++ [.asked id request]) (p.arrive id request)) :
    Favourable b₀ log p := by
  obtain ⟨hunaborted, hstorable, hlast, hfew⟩ := h
  rw [History.entered_asked] at hstorable hlast
  rw [History.events, History.entered_asked] at hfew
  exact ⟨hunaborted.of_append, hstorable, hlast, hfew⟩

theorem Favourable.of_move {b₀ : Builder} {log ms : History} {p p' : Pipeline} {actor : Actor}
    (h : Favourable b₀ (log ++ ms) p') (move : p.Move actor p' ms) : Favourable b₀ log p := by
  obtain ⟨hunaborted, hstorable, hlast, hfew⟩ := h
  rw [History.entered_append] at hstorable hlast
  rw [History.events_append, List.length_append] at hfew
  have hcodec := move.codec_eq
  rw [hcodec] at hstorable hlast
  refine ⟨hunaborted.of_append, fun c hc => ?_,
    fun hclosed c hc => ?_, by omega⟩
  · refine hstorable c ?_
    rw [Builder.obeyAll_append]
    exact List.mem_append_left _ hc
  · rw [move.entered_of_closed hclosed, List.append_nil] at hlast
    exact hlast (move.shuts.commands hclosed) c hc

/-! ### Records -/

section

variable {sink : Sink} {base : Totals} {threshold : UInt32} {first : Nat} {log : History}
  {p : Pipeline}

/-- Every container that was sealed has a record. -/
theorem Smooth.storable {b₀ : Builder} (smooth : Smooth sink base log p)
    (batched : Batched b₀ log p) (favourable : Favourable b₀ log p) :
    ∀ c ∈ log.sealed, c.Storable p.codec := by
  intro c hc
  -- The last container counts as soon as the batcher has come to it, for no command follows then.
  rcases batched.made with ⟨hsealed, -, -⟩ | ⟨hlast, hsealed, -⟩
  · refine favourable.storable c ?_
    rw [smooth.order, Builder.obeyAll_append, ← hsealed]
    exact List.mem_append_left _ hc
  · have hpast := BatcherStage.isPast_of_isLast hlast
    rw [hsealed, Builder.batches_eq, ← smooth.entered_eq hpast, List.mem_append] at hc
    rcases hc with hc | hc
    · exact favourable.storable c hc
    · exact favourable.storable_last (smooth.past hpast).1 c (Option.mem_toList.1 hc)

/-- What was sealed makes a row of records. -/
theorem Smooth.departed_eq {b₀ : Builder} (smooth : Smooth sink base log p)
    (batched : Batched b₀ log p) (favourable : Favourable b₀ log p) :
    log.departed p.codec =
      ((Image.records p.codec log.sealed : List Record) : Multiset Record).map
        fun r => some (.done r) := by
  rw [History.departed, Multiset.map_coe, Multiset.map_coe,
    Image.map_complete?_eq (smooth.storable batched favourable)]

/-- The records are numbered in the order in which the containers were sealed. -/
theorem Smooth.numbers_records (smooth : Smooth sink base log p)
    (batched : Batched (.start threshold first) log p)
    (favourable : Favourable (.start threshold first) log p) :
    (Image.records p.codec log.sealed).map (·.sequence.toNat) =
      List.range' first log.sealed.length := by
  obtain ⟨groups, hsealed, -⟩ := batched.made.exists_row
  have hstorable := smooth.storable batched favourable
  have hlen : first + log.sealed.length ≤ UInt64.size := by
    have hnumbers := batched.numbers.2.2
    have hfew : first + log.events.length ≤ UInt64.size := favourable.few
    omega
  rw [hsealed] at hstorable hlen ⊢
  rw [Container.length_row] at hlen
  rw [Image.map_toNat_sequence_records hstorable hlen, Container.length_row]

/-- Every container that is under way has a record. -/
theorem Smooth.record_of_underway {b₀ : Builder} (smooth : Smooth sink base log p)
    (batched : Batched b₀ log p) (favourable : Favourable b₀ log p) {report : Option Completion}
    (hin : report ∈ p.underway) : ∃ r, report = some (.done r) := by
  have hkept := smooth.kept
  -- What is under way is a part of what was sealed, so it brings one of the records.
  have hreport : report ∈ ((Image.records p.codec log.sealed : List Record) : Multiset Record).map
      fun r => some (.done r) := by
    rw [← smooth.departed_eq batched favourable, ← hkept]
    exact Multiset.mem_add.2 (Or.inl hin)
  obtain ⟨r, -, rfl⟩ := Multiset.mem_map.1 hreport
  exact ⟨r, rfl⟩

/-! ### Nobody drops a container -/

/-- **Nobody drops a container.** -/
theorem Smooth.not_drops (smooth : Smooth sink base log p) (callers : Callers log p)
    (senders : p.completions.senders = p.workers.countP (·.isConnected))
    (batched : Batched (.start threshold base.containers.toNat) log p)
    (favourable : Favourable (.start threshold base.containers.toNat) log p) (actor : Actor) :
    ¬ p.Drops actor := by
  have hrecord {report : Option Completion} (hin : report ∈ p.underway) :=
    smooth.record_of_underway batched favourable hin
  have hrunning := smooth.running
  cases actor with
  | call id =>
      -- only those who abort stop the pipeline
      rintro ⟨steps, hstage⟩
      obtain ⟨request, hasked, hpermits⟩ := callers.permitted id _ hstage
      cases hpermits
      exact favourable.unaborted id hasked
  | batcher => exact smooth.batcher_keeps
  | worker index =>
      rintro ⟨w, hw, hdrops⟩
      have hmem := List.mem_of_getElem? hw
      cases hdrops with
      | stopped stopped =>
          rw [hrunning] at stopped
          cases stopped
      | crashing runs crashes =>
          have hload : none ∈ w.load p.codec := by simp [runs, Worker.load, crashes]
          obtain ⟨r, hr⟩ := hrecord (mem_underway_of_mem_load hmem hload)
          cases hr
      | unheard deaf busy =>
          have hover : p.scribe.stage.isOver = true := by
            rw [smooth.listening deaf]
            rfl
          exact busy (load_of_disconnected _ (smooth.trailing.gone_of_over senders hover w hmem))
      | halting halts =>
          subst halts
          cases (smooth.gone _ hmem rfl).1
  | scribe =>
      intro hdrops
      cases hdrops with
      | stopped stopped =>
          rw [hrunning] at stopped
          cases stopped
      | leaving last late =>
          have hover : p.scribe.stage.isOver = true := by
            rw [last]
            rfl
          exact late (smooth.ended hover).2
      | refused handles refusal =>
          rename_i record error
          have hhand : .done record ∈ p.scribe.stage.hand := by
            rw [handles]
            exact List.mem_singleton_self _
          obtain ⟨written, returned, hexact⟩ := smooth.exact
          obtain ⟨size, w, hok⟩ := accept_of_underway hexact batched favourable.few
            (le_of_eq smooth.kept) (mem_underway_of_mem_hand hhand)
          rw [hok] at refusal
          cases refusal
      | failed handles =>
          rename_i sequence error
          have hhand : .failed sequence error ∈ p.scribe.stage.hand := by
            rw [handles]
            exact List.mem_singleton_self _
          obtain ⟨r, hr⟩ := hrecord (mem_underway_of_mem_hand hhand)
          cases hr
      | halting halts => exact smooth.unhalted _ halts

/-! ### What a step preserves -/

variable {p' : Pipeline} {actor : Actor} {ms : History}

theorem Smooth.unhalted_move (smooth : Smooth sink base log p) (keeps : ¬ p.Drops actor)
    (move : p.Move actor p' ms) : ∀ steps, p'.scribe.stage ≠ .halting steps := by
  cases move with
  | scribe move =>
      intro steps halts
      rcases move.halting_cases with ⟨-, -, hbegins⟩ | ⟨step, rest, hstage, -⟩ | ⟨-, -, hended⟩
      · obtain ⟨error, -, hfails⟩ := hbegins steps halts
        cases hfails with
        | flush refusal =>
            obtain ⟨written, returned, hexact⟩ := smooth.exact
            obtain ⟨w', hflush, -⟩ := Resequencer.wrote_flush hexact.wrote
            rw [hflush] at refusal
            cases refusal
        | accept handles refusal => exact keeps (.refused handles refusal)
        | report handles => exact keeps (.failed handles)
      · exact smooth.unhalted _ hstage
      · rw [hended] at halts
        cases halts
  | _ => exact smooth.unhalted

/-- **A step by which nothing is dropped keeps the invariant.** -/
theorem Smooth.move (smooth : Smooth sink base log p)
    (senders : p.completions.senders = p.workers.countP (·.isConnected))
    (keeps : ¬ p.Drops actor) (move : p.Move actor p' ms) : Smooth sink base (log ++ ms) p' where
  toIntact := smooth.toIntact.move senders keeps move
  unhalted := smooth.unhalted_move keeps move
  exact := move.exact smooth.exact

/-! ### At the end of a run -/

theorem Smooth.arrive {id : Nat} (smooth : Smooth sink base log p) (request : Request) :
    Smooth sink base (log ++ [.asked id request]) (p.arrive id request) := by
  refine ⟨smooth.toIntact.arrive request, smooth.unhalted, ?_⟩
  rw [History.taken_asked]
  exact smooth.exact

theorem smooth_of_start {settings : Settings} {origin : Pipeline} (reliable : sink.Reliable)
    (opened : Pipeline.start settings sink base = .ok origin) : Smooth sink base [] origin := by
  have hintact := intact_of_start opened
  obtain ⟨-, rfl⟩ := eq_of_start opened
  exact ⟨hintact, by simp [Scribe.start], ⟨[], 0, Watched.exact_start reliable base⟩⟩

/-- **Everyone goes on until nothing is left to do, and nothing is lost**, in every favourable run
from a newly opened file that refuses nothing. -/
theorem Run.smooth {settings : Settings} {origin : Pipeline} (run : Run origin log p)
    (opened : Pipeline.start settings sink base = .ok origin) (reliable : sink.Reliable)
    (favourable : Favourable (.start settings.containerSize base.containers.toNat) log p) :
    Smooth sink base log p := by
  have fresh := fresh_of_start opened
  refine run.invariant (fun log p =>
    Favourable (.start settings.containerSize base.containers.toNat) log p → Smooth sink base log p)
    fresh.idle (fun _ => smooth_of_start reliable opened) ?_ ?_ favourable
  · intro log p id request _ smooth _ favourable
    exact (smooth favourable.of_arrive).arrive request
  · intro log p actor p' ms run smooth move favourable
    have hbefore := favourable.of_move move
    have hsenders := run.senders_of_start opened
    have hkeeps := (smooth hbefore).not_drops (run.served fresh).callers hsenders
      (run.batched_of_start opened) hbefore actor
    exact (smooth hbefore).move hsenders hkeeps move

end

end Pipeline

end TraceLog
