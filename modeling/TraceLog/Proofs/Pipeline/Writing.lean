/-
**What the scribe has written.**

The containers that were sealed have successive numbers, and what is under way or has arrived is a
part of them.  So a record that is still under way carries a number that no record has had which has
arrived, whatever else goes wrong in a run.  If the file refuses nothing, the scribe is at every
moment where a sequence of calls to the resequencer has brought it.

Main definitions:

* `reportNumber?` — the number of the record that a report brings;
* `History.Yields` — a record comes from one of the containers that were sealed.

Main results:

* `Pipeline.Batched.numbers` — the numbers of the containers that were sealed;
* `Pipeline.new_of_underway`, `Pipeline.accept_of_underway` — **what is under way has a new
  number**, so that it is not refused;
* `Pipeline.Batched.front_of_yields` — records with successive numbers are the first of the records;
* `Pipeline.written_prefix`, `Pipeline.written_eq_records` — **what was written are the first of the
  records**, and all of them if nothing is missing;
* `Pipeline.conclusion_cases` — what becomes of a file that is concluded;
* `Pipeline.Run.exact` — what was written to a file that refuses nothing.
-/

import TraceLog.Proofs.Pipeline.Endings
import TraceLog.Proofs.Records
import TraceLog.Proofs.Resequencing

set_option relaxedAutoImplicit false
set_option autoImplicit false

namespace TraceLog

/-! ### Numbers -/

theorem filterMap_sublist_map {α β : Type} {f : α → Option β} {g : α → β} {xs : List α}
    (h : ∀ x ∈ xs, ∀ y, f x = some y → y = g x) : (xs.filterMap f).Sublist (xs.map g) := by
  induction xs with
  | nil => exact .refl _
  | cons x xs ih =>
      have hxs := ih fun x' hx' => h x' (List.mem_cons_of_mem x hx')
      cases hx : f x with
      | none =>
          rw [List.filterMap_cons_none hx]
          exact hxs.cons _
      | some y =>
          rw [List.filterMap_cons_some hx, h x List.mem_cons_self y hx]
          exact hxs.cons_cons _

/-- The number of the record that a report brings. -/
def reportNumber? : Option Completion → Option Nat
  | some (.done r) => some r.sequence.toNat
  | _ => none

/-- A record carries the number of its container, if it fits into 64 bits. -/
theorem reportNumber?_complete? {codec : Codec} {c : Container} (hfits : c.sequence < UInt64.size)
    {n : Nat} (h : reportNumber? (c.complete? codec) = some n) : n = c.sequence := by
  cases hreport : c.complete? codec with
  | none => simp [hreport, reportNumber?] at h
  | some completion =>
      cases completion with
      | failed sequence error => simp [hreport, reportNumber?] at h
      | done r =>
          simp only [hreport, reportNumber?, Option.some.injEq] at h
          rw [← h, show r.sequence = _ from Container.sequence_of_complete? hreport,
            UInt64.toNat_ofNat_of_lt' hfits]

/-- A record comes from one of the containers that were sealed. -/
def History.Yields (log : History) (codec : Codec) (r : Record) : Prop :=
  ∃ c ∈ log.sealed, c.complete? codec = some (.done r)

theorem History.Yields.append {log : History} {codec : Codec} {r : Record}
    (h : log.Yields codec r) (more : History) : Yields (log ++ more) codec r := by
  obtain ⟨c, hc, hreport⟩ := h
  exact ⟨c, by simp [hc], hreport⟩

namespace Pipeline

variable {sink : Sink} {base : Totals} {threshold : UInt32} {first : Nat} {log ms : History}
  {p p' : Pipeline} {actor : Actor}

theorem Batched.obeyed_prefix {b₀ : Builder} (h : Batched b₀ log p) :
    log.obeyed <+: log.entered := by
  rcases h.queue with hqueue | ⟨-, -, hbegins⟩
  · exact ⟨_, hqueue.symm⟩
  · exact hbegins

/-- The containers that were sealed have successive numbers, the builder knows the next one, and
each of them holds one event at least. -/
theorem Batched.numbers (h : Batched (.start threshold first) log p) :
    log.sealed.map (·.sequence) = List.range' first log.sealed.length ∧
      p.batcher.builder.sealedCount = first + log.sealed.length ∧
      log.sealed.length ≤ log.events.length := by
  obtain ⟨groups, hsealed, hgroups, hcount, hevents⟩ := h.made.exists_row
  have hgroup := Totals.length_le_length_flatten hgroups
  have hflatten := hevents.length_le
  obtain ⟨rest, hrest⟩ := h.obeyed_prefix
  have hobeyed : (Command.events log.obeyed).length ≤ log.events.length := by
    rw [History.events, ← hrest, Command.events_append, List.length_append]
    omega
  rw [hsealed, Container.length_row, Container.map_sequence_row]
  exact ⟨rfl, hcount, by omega⟩

/-- **What is under way has a new number**, if there are not so many containers that the numbers
would not fit into 64 bits. -/
theorem new_of_underway (batched : Batched (.start threshold first) log p)
    (fits : first + log.sealed.length ≤ UInt64.size)
    (custody : p.underway + log.arrived ≤ log.departed p.codec) {r : Record}
    (hin : some (.done r) ∈ p.underway) :
    first ≤ r.sequence.toNat ∧ r.sequence.toNat ∉ log.taken.map (·.sequence.toNat) := by
  obtain ⟨hnumbers, -, -⟩ := batched.numbers
  -- the numbers of what is under way and of what has arrived are among those of the containers
  have hsublist : ((log.sealed.map (·.complete? p.codec)).filterMap reportNumber?).Sublist
      (List.range' first log.sealed.length) := by
    rw [List.filterMap_map, ← hnumbers]
    refine filterMap_sublist_map fun c hc n hn => reportNumber?_complete? ?_ hn
    have hc' : c.sequence ∈ List.range' first log.sealed.length :=
      hnumbers ▸ List.mem_map_of_mem hc
    have := List.mem_range'_1.1 hc'
    omega
  have hle := (Multiset.filterMap_le_filterMap reportNumber? custody).trans
    (Multiset.coe_le.2 hsublist.subperm)
  obtain ⟨others, hothers⟩ := Multiset.exists_cons_of_mem hin
  have harrived : log.arrived.filterMap reportNumber? =
      ((log.taken.map (·.sequence.toNat) : List Nat) : Multiset Nat) := by
    rw [History.arrived, Multiset.filterMap_map, ← Multiset.map_coe]
    exact congrFun (Multiset.filterMap_eq_map _) _
  rw [hothers, Multiset.cons_add, Multiset.filterMap_cons_some reportNumber? _ _ rfl,
    Multiset.filterMap_add, harrived] at hle
  constructor
  · have := Multiset.mem_of_le hle (Multiset.mem_cons_self _ _)
    exact (List.mem_range'_1.1 (Multiset.mem_coe.1 this)).1
  · have hnodup := Multiset.nodup_of_le hle (Multiset.coe_nodup.2 List.nodup_range')
    rw [Multiset.nodup_cons, Multiset.mem_add, not_or] at hnodup
    exact hnodup.1.2

/-- **What is under way is not refused** when it comes to the resequencer. -/
theorem accept_of_underway {written : List Record} {returned : Nat}
    (h : Watched.Exact sink base written ⟨p.scribe.writer, log.taken, returned⟩)
    (batched : Batched (.start threshold base.containers.toNat) log p)
    (few : base.containers.toNat + log.events.length ≤ UInt64.size)
    (custody : p.underway + log.arrived ≤ log.departed p.codec) {r : Record}
    (hin : some (.done r) ∈ p.underway) :
    ∃ size w, p.scribe.writer.accept r = (.ok size, w) := by
  have hlen := batched.numbers.2.2
  obtain ⟨hfirst, hnew⟩ := new_of_underway batched (by omega) custody hin
  rcases Resequencer.accept_cases h.wrote h.above h.nodup_parked r with
    ⟨hold, -⟩ | ⟨-, more, w, hok, -⟩
  · rcases hold with hlt | hin
    · omega
    · exact absurd (h.mem_numbers.1 hin) hnew
  · exact ⟨_, w, hok⟩

/-- What is under way was sealed. -/
theorem exists_of_underway (custody : p.underway + log.arrived ≤ log.departed p.codec)
    {report : Option Completion} (hin : report ∈ p.underway) :
    ∃ c ∈ log.sealed, c.complete? p.codec = report := by
  obtain ⟨c, hc, hreport⟩ := Multiset.mem_map.1
    (Multiset.mem_of_le ((Multiset.le_add_right _ _).trans custody) hin)
  exact ⟨c, Multiset.mem_coe.1 hc, hreport⟩

/-- What has arrived comes from containers that were sealed. -/
theorem yields_of_taken (custody : p.underway + log.arrived ≤ log.departed p.codec) {r : Record}
    (hr : r ∈ log.taken) : log.Yields p.codec r := by
  have harrived : some (Completion.done r) ∈ log.arrived :=
    Multiset.mem_map_of_mem _ (Multiset.mem_coe.2 hr)
  obtain ⟨c, hc, hreport⟩ := Multiset.mem_map.1 (Multiset.mem_of_le
    ((Multiset.le_add_left _ _).trans custody) harrived)
  exact ⟨c, Multiset.mem_coe.1 hc, hreport⟩

/-- **Records with successive numbers are the first of the records** of the containers that were
sealed, if they come from these. -/
theorem Batched.front_of_yields (batched : Batched (.start threshold first) log p)
    (few : first + log.events.length ≤ UInt64.size) {codec : Codec} {rs : List Record}
    (numbers : rs.map (·.sequence.toNat) = List.range' first rs.length)
    (yields : ∀ r ∈ rs, log.Yields codec r) : rs <+: Image.records codec log.sealed := by
  obtain ⟨hnumbers, -, hlen⟩ := batched.numbers
  refine Image.prefix_records fun i r hr => ?_
  -- the number of the record says from which container it comes
  obtain ⟨c, hc, hreport⟩ := yields r (List.mem_of_getElem? hr)
  obtain ⟨i_lt, rfl⟩ := List.getElem?_eq_some_iff.1 hr
  obtain ⟨j, j_lt, rfl⟩ := List.getElem_of_mem hc
  have hsequence : (log.sealed[j]).sequence = first + j := by
    have hat := congrArg (·[j]?) hnumbers
    simpa [List.getElem?_range', j_lt] using hat
  have hnumber : (rs[i]).sequence.toNat = first + i := by
    have hat := congrArg (·[i]?) numbers
    simpa [List.getElem?_range', i_lt] using hat
  have hsame := reportNumber?_complete? (by omega) (congrArg reportNumber? hreport)
  obtain rfl : i = j := by omega
  exact ⟨_, List.getElem?_eq_getElem j_lt, hreport⟩

/-- **What was written are the first of the records** of the containers that were sealed. -/
theorem written_prefix {written : List Record} {returned : Nat}
    (h : Watched.Exact sink base written ⟨p.scribe.writer, log.taken, returned⟩)
    (batched : Batched (.start threshold base.containers.toNat) log p)
    (few : base.containers.toNat + log.events.length ≤ UInt64.size)
    (custody : p.underway + log.arrived ≤ log.departed p.codec) :
    written <+: Image.records p.codec log.sealed :=
  batched.front_of_yields few h.wrote.numbers fun _ hr =>
    yields_of_taken custody (h.perm.mem_iff.1 (List.mem_append_left _ hr))

/-- **Where nothing is missing, what was written are the records of the containers**: if as many
records were written as containers were sealed, then all of these have records. -/
theorem written_eq_records {written : List Record} {returned : Nat}
    (h : Watched.Exact sink base written ⟨p.scribe.writer, log.taken, returned⟩)
    (batched : Batched (.start threshold base.containers.toNat) log p)
    (few : base.containers.toNat + log.events.length ≤ UInt64.size)
    (custody : p.underway + log.arrived ≤ log.departed p.codec)
    (next : p.scribe.writer.next = base.containers.toNat + log.sealed.length) :
    (∀ c ∈ log.sealed, c.Storable p.codec) ∧ written = Image.records p.codec log.sealed := by
  have hfront := written_prefix h batched few custody
  have hlength : written.length = log.sealed.length := by
    have hnext : p.scribe.writer.next = _ := h.wrote.next_eq
    omega
  have hstorable : ∀ c ∈ log.sealed, c.Storable p.codec :=
    Image.storable_of_length_le (hlength ▸ hfront.length_le)
  exact ⟨hstorable, hfront.eq_of_length (by rw [hlength, Image.length_records hstorable])⟩

/-- **What becomes of a file that is concluded**: without a failure it is finished, unless it was to
be drained and something is missing; otherwise what was written is all that it holds. -/
theorem conclusion_cases {written : List Record}
    (wrote : Resequencer.Wrote sink base written p.scribe.writer) (ending : Ending)
    (sealedCount : Nat) :
    ∃ file : Sink,
      (p.shared.failure = none ∧
        (ending = .drained → p.scribe.writer.parked = [] ∧ p.scribe.writer.next = sealedCount) ∧
        p.conclusion ending sealedCount =
          (.ok (.finished ⟨p.scribe.writer.totals, file.taken.size, ending = .truncated⟩), file) ∧
        file.bytes = sink.bytes ++ Image.unfinished written ++
          (Footer.ofTotals p.scribe.writer.totals (ending = .truncated)).encode) ∨
      ∃ error, (p.shared.failure = some error ∨ p.shared.failure = none ∧
          ¬ (p.scribe.writer.parked = [] ∧ p.scribe.writer.next = sealedCount) ∧
          error ≠ .closed) ∧
        p.conclusion ending sealedCount = (.error error, file) ∧
        file.bytes = sink.bytes ++ Image.unfinished written := by
  unfold conclusion
  cases hfailure : p.shared.failure with
  | some error =>
      cases ending with
      | drained =>
          obtain ⟨w, hflush, -, -, hwrote⟩ := Resequencer.wrote_flush wrote
          refine ⟨w.abandon, Or.inr ⟨error, Or.inl rfl, ?_, hwrote.bytes_abandon⟩⟩
          simp only [hflush]
      | truncated =>
          exact ⟨_, Or.inr ⟨error, Or.inl rfl, rfl, wrote.bytes_abandon⟩⟩
  | none =>
      cases ending with
      | drained =>
          rcases Resequencer.finish_cases wrote sealedCount with
            ⟨hgapless, file, hfinish, hbytes⟩ | ⟨hgap, file, hfinish, hbytes⟩
          · refine ⟨file, Or.inl ⟨rfl, fun _ => hgapless, ?_, hbytes⟩⟩
            simp only [hfinish, Except.map]
          · refine ⟨file, Or.inr ⟨.drainIncomplete p.scribe.writer.next sealedCount
              p.scribe.writer.parked.length, Or.inr ⟨rfl, hgap, by simp⟩, ?_, hbytes⟩⟩
            simp only [hfinish, Except.map]
      | truncated =>
          obtain ⟨file, hfinish, hbytes⟩ := Resequencer.writeFooter_eq wrote true
          refine ⟨file, Or.inl ⟨rfl, by simp, ?_, hbytes⟩⟩
          simp only [Resequencer.finishTruncated, hfinish, Except.map]

/-! ### Calls to the resequencer -/

/-- The scribe goes on with the calls to the resequencer. -/
theorem exact_move {written : List Record} {returned : Nat} {taken : List Record}
    {w w' : Resequencer} {s s' : Shared} {inbox inbox' : Completions}
    {stage stage' : ScribeStage} {record : Option Record}
    (h : Watched.Exact sink base written ⟨w, taken, returned⟩)
    (move : ScribeMove w s inbox stage w' stage' s' inbox' record) :
    ∃ written' returned',
      Watched.Exact sink base written' ⟨w', taken ++ record.toList, returned'⟩ := by
  have hflush {result : Except Error Unit} (flushed : w.flush = (result, w')) :
      ∃ written' returned', Watched.Exact sink base written'
        ⟨w', taken ++ (none : Option Record).toList, returned'⟩ := by
    obtain ⟨more, hmore⟩ := h.perform .flush
    rw [Watched.perform, flushed] at hmore
    exact ⟨_, returned, by simpa using hmore⟩
  cases move with
  | publish goes flushed => exact hflush flushed
  | publishLast flushed => exact hflush flushed
  | flushFailed flushes flushed => exact hflush flushed
  | take running accepted =>
      rename_i record size
      obtain ⟨more, hmore⟩ := h.perform (.accept record)
      rw [Watched.perform, accepted] at hmore
      exact ⟨_, _, hmore⟩
  | refuse running accepted =>
      rename_i record error
      obtain ⟨more, hmore⟩ := h.perform (.accept record)
      rw [Watched.perform, accepted] at hmore
      exact ⟨_, _, by simpa using hmore⟩
  | _ => exact ⟨written, returned, by simpa using h⟩

theorem Move.exact (move : p.Move actor p' ms)
    (h : ∃ written returned,
      Watched.Exact sink base written ⟨p.scribe.writer, log.taken, returned⟩) :
    ∃ written returned,
      Watched.Exact sink base written ⟨p'.scribe.writer, (log ++ ms).taken, returned⟩ := by
  obtain ⟨written, returned, hexact⟩ := h
  rw [History.taken_append]
  cases move with
  | call present move =>
      rw [History.taken_call, List.append_nil]
      exact ⟨written, returned, hexact⟩
  | batcher move =>
      rw [History.taken_batcher, List.append_nil]
      exact ⟨written, returned, hexact⟩
  | worker present move => exact ⟨written, returned, by simpa [History.taken] using hexact⟩
  | scribe move =>
      rw [History.taken_scribe]
      exact exact_move hexact move

/-- **The scribe is where calls to the resequencer have brought it**, in every run from a newly
opened file that refuses nothing. -/
theorem Run.exact {settings : Settings} {origin : Pipeline} (run : Run origin log p)
    (opened : Pipeline.start settings sink base = .ok origin) (reliable : sink.Reliable) :
    ∃ written returned,
      Watched.Exact sink base written ⟨p.scribe.writer, log.taken, returned⟩ := by
  refine run.invariant (fun log p => ∃ written returned,
    Watched.Exact sink base written ⟨p.scribe.writer, log.taken, returned⟩)
    (fresh_of_start opened).idle ?_ (fun log p id request _ h _ => ?_)
    (fun _ _ _ _ _ _ h move => move.exact h)
  · obtain ⟨-, rfl⟩ := eq_of_start opened
    exact ⟨[], 0, Watched.exact_start reliable base⟩
  · rw [History.taken_asked]
    exact h

end Pipeline

end TraceLog
