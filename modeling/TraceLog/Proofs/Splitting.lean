/-
**Sessions in a row.**

A file that is closed and opened to go on is left as if it had never been closed.  The number of the
next container, the number of the next event and the totals are all read off the footer; and the
container that is sealed when the file is closed is the one that a flush would have sealed.  So
several sessions, one behind the other, leave the same bytes as a single one with a flush in the
place of every interruption, and they give the events the same numbers.

Main definitions:

* `Pipeline.Completes`, `Pipeline.Continued` — a session; sessions that go on with a file;
* `Pipeline.Succeeds` — a caller gets its session done, in whichever order the steps are taken;
* `Pipeline.Written` — what is left of some requests.

Main results:

* `Pipeline.Written.append` — **what one more session adds**;
* `Pipeline.continued_eq_whole` — **sessions in a row are as good as one**.
-/

import TraceLog.Proofs.Appending
import TraceLog.Proofs.Serving

set_option relaxedAutoImplicit false
set_option autoImplicit false

namespace TraceLog

/-- The records of containers that all have one stand in front of those of the others. -/
theorem Image.records_append {codec : Codec} {cs : List Container}
    (storable : ∀ c ∈ cs, c.Storable codec) (cs' : List Container) :
    records codec (cs ++ cs') = records codec cs ++ records codec cs' := by
  induction cs with
  | nil => rfl
  | cons c cs ih =>
      obtain ⟨record, hrecord⟩ := Container.storable_iff.1 (storable c List.mem_cons_self)
      rw [List.cons_append, records_cons hrecord, records_cons hrecord,
        ih fun c' hc' => storable c' (List.mem_cons_of_mem c hc'), List.cons_append]

namespace Pipeline

/-! ### Sessions -/

/-- A file is opened, some requests are made, and it is closed: the numbers that the events have
got, what the call to close is told, and what is left. -/
def Completes (mode : Mode) (settings : Settings) (s : Storage) (requests : List Request)
    (numbers : List Nat) (summary : Summary) (s' : Storage) : Prop :=
  ∃ origin opened p, launch s mode settings .none = (.ok origin, opened) ∧
    Finished origin requests numbers summary p ∧ s' = opened.put p.file.taken

/-- A file can be opened, and a caller who makes some requests one after the other is served to the
end, whatever the schedule. -/
def Succeeds (mode : Mode) (settings : Settings) (s : Storage) (requests : List Request) : Prop :=
  ∃ origin opened, launch s mode settings .none = (.ok origin, opened) ∧
    origin.Serves (fun p => ∃ numbers summary, Finished origin requests numbers summary p)
      (requests ++ [.close])

/-- What succeeds can be done. -/
theorem Succeeds.completes {mode : Mode} {settings : Settings} {s : Storage}
    {requests : List Request} (h : Succeeds mode settings s requests) :
    ∃ numbers summary s', Completes mode settings s requests numbers summary s' := by
  obtain ⟨origin, opened, launched, serves⟩ := h
  obtain ⟨p, numbers, summary, finished⟩ := serves.exists_goal
  exact ⟨numbers, summary, _, origin, opened, p, launched, finished, rfl⟩

/-- Sessions that go on with a file, the first of which has taken away its former content: the
numbers of all events, what the last call to close is told, and what is left.  They agree on the
size of containers and on the codec. -/
inductive Continued (threshold : UInt32) (codec : Codec) (s : Storage) :
    List (List Request) → List Nat → Summary → Storage → Prop where
  | first {settings : Settings} {requests : List Request} {numbers : List Nat} {summary : Summary}
      {s' : Storage} (threshold_eq : settings.containerSize = threshold)
      (codec_eq : settings.codec = codec)
      (completes : Completes .truncate settings s requests numbers summary s') :
      Continued threshold codec s [requests] numbers summary s'
  | next {settings : Settings} {before : List (List Request)} {requests : List Request}
      {earlier numbers : List Nat} {summary summary' : Summary} {s' s'' : Storage}
      (continued : Continued threshold codec s before earlier summary s')
      (threshold_eq : settings.containerSize = threshold) (codec_eq : settings.codec = codec)
      (completes : Completes .append settings s' requests numbers summary' s'') :
      Continued threshold codec s (before ++ [requests]) (earlier ++ numbers) summary' s''

/-! ### What is left of some requests -/

/-- The containers that some requests lead to. -/
def containersOf (threshold : UInt32) (requests : List Request) : List Container :=
  (Builder.start threshold 0).batches (Request.commands 0 requests)

/-- How many events some requests bring. -/
def eventCount (requests : List Request) : Nat :=
  (Command.events (Request.commands 0 requests)).length

/-- A file was closed that holds what some requests lead to, and nothing was lost. -/
structure Written (threshold : UInt32) (codec : Codec) (requests : List Request)
    (numbers : List Nat) (summary : Summary) (s : Storage) : Prop where
  place : s.place = .regular
  storable : ∀ c ∈ containersOf threshold requests, c.Storable codec
  numbers_eq : numbers = List.range (eventCount requests)
  bytes_eq : s.bytes = Image.ofCommands codec threshold (Request.commands 0 requests)
  summary_eq : summary = ⟨Image.totals (Image.records codec (containersOf threshold requests)),
    s.bytes.length, false⟩

variable {settings : Settings} {sink : Sink} {base : Totals} {origin p : Pipeline}
  {requests : List Request} {numbers : List Nat} {summary : Summary}

/-- **What a session leaves** that goes on behind some containers and events. -/
theorem Finished.written (h : Finished origin requests numbers summary p)
    (opened : Pipeline.start settings sink base = .ok origin) (reliable : sink.Reliable)
    (few : base.containers.toNat +
      (Command.events (Request.commands base.events.toNat requests)).length ≤ UInt64.size) :
    let containers := (Builder.start settings.containerSize base.containers.toNat).batches
      (Request.commands base.events.toNat requests)
    let totals := ((Image.records settings.codec containers).map (·.header)).foldl Totals.add base
    (∀ c ∈ containers, c.Storable settings.codec) ∧
      numbers = List.range' base.events.toNat
        (Command.events (Request.commands base.events.toNat requests)).length ∧
      p.file.bytes = sink.bytes ++ Image.unfinished (Image.records settings.codec containers) ++
        (Footer.ofTotals totals false).encode ∧
      summary = ⟨totals, p.file.bytes.length, false⟩ := by
  obtain ⟨log, id, run, unaborted, rfl, rfl, asked, answered⟩ := h
  have fresh := fresh_of_start opened
  have hfirst : origin.desk.next = base.events.toNat := by
    obtain ⟨-, rfl⟩ := eq_of_start opened
    rfl
  have hplain := run.plain_entered fresh
  rw [hfirst] at hplain
  have hnumbers := (run.served fresh).numbered.numbers_eq
  rw [hfirst] at hnumbers
  rw [← hplain, Command.events_map_plain] at few
  rw [← hplain, Builder.batches_map_plain, Command.events_map_plain]
  obtain ⟨hstorable, hsealed, totals, rfl, hanswer, hbytes⟩ :=
    run.closed_eq opened reliable few asked answered
  rw [hsealed unaborted] at hstorable hanswer hbytes
  exact ⟨hstorable, hnumbers, hbytes, Answer.finished.inj hanswer⟩

/-! ### One session behind another -/

/-- There are no more containers than events. -/
theorem length_containersOf_le (threshold : UInt32) (requests : List Request) :
    (containersOf threshold requests).length ≤ eventCount requests := by
  obtain ⟨groups, hrow, hgroups, hevents, -⟩ :=
    Builder.exists_batches_eq_row threshold 0 (Request.commands 0 requests)
  rw [containersOf, hrow, Container.length_row, eventCount, ← hevents]
  exact Totals.length_le_length_flatten hgroups

/-- Behind a flush, the containers and the events go on with the next numbers. -/
theorem containersOf_flush (threshold : UInt32) (xs ys : List Request) :
    containersOf threshold (xs ++ .flush :: ys) = containersOf threshold xs ++
        (Builder.start threshold (containersOf threshold xs).length).batches
          (Request.commands (eventCount xs) ys) ∧
      eventCount (xs ++ .flush :: ys) =
        eventCount xs + (Command.events (Request.commands (eventCount xs) ys)).length := by
  have hcommands : Request.commands 0 (xs ++ .flush :: ys) =
      Request.commands 0 xs ++ .flush 0 :: Request.commands (eventCount xs) ys := by
    rw [Request.commands_append, Nat.zero_add]
    rfl
  constructor
  · rw [containersOf, hcommands, Builder.batches_flush, Nat.zero_add]
    rfl
  · rw [eventCount, hcommands, Command.events_append, Command.events_flush, List.length_append]
    rfl

section

variable {threshold : UInt32} {codec : Codec} {s s' : Storage} {xs ys : List Request}
  {numbers' : List Nat} {summary' : Summary}

/-- The totals of what was written tell the numbers to go on with. -/
theorem Written.next (h : Written threshold codec xs numbers summary s)
    (few : eventCount xs < UInt64.size) :
    let totals := Image.totals (Image.records codec (containersOf threshold xs))
    totals.containers.toNat = (containersOf threshold xs).length ∧
      totals.events.toNat = eventCount xs := by
  obtain ⟨groups, hrow, hgroups, hevents, -⟩ :=
    Builder.exists_batches_eq_row threshold 0 (Request.commands 0 xs)
  have hstorable := h.storable
  have hle := length_containersOf_le threshold xs
  rw [containersOf, hrow] at hstorable hle ⊢
  rw [Container.length_row] at hle ⊢
  have hcount : groups.flatten.length = eventCount xs := congrArg List.length hevents
  intro totals
  have htotals : totals = .ofEvents groups.length groups.flatten :=
    Totals.ofHeaders_eq_ofEvents hgroups hstorable (by omega)
  rw [htotals]
  exact ⟨UInt64.toNat_ofNat_of_lt' (by omega), by
    rw [← hcount]
    exact UInt64.toNat_ofNat_of_lt' (by omega)⟩

/-- **A file that was closed is opened where it ends.** -/
theorem Written.launch_iff (h : Written threshold codec xs numbers summary s) :
    launch s .append settings .none = (.ok origin, s') ↔
      Pipeline.start settings (.reliable (.ofBytes (Image.unfinished
          (Image.records codec (containersOf threshold xs)))))
        (Image.totals (Image.records codec (containersOf threshold xs))) = .ok origin ∧
      s' = s.put (.ofBytes (Image.unfinished
        (Image.records codec (containersOf threshold xs)))) := by
  have hends : (s.content.getD .empty).toBytes = Image.unfinished (Image.records codec
      (containersOf threshold xs)) ++ (Footer.ofTotals (Image.totals (Image.records codec
        (containersOf threshold xs))) false).encode := h.bytes_eq
  have hresume := Storage.resume_footer h.place hends
  rw [Storage.resume_put h.place] at hresume
  rw [launch_append_eq_ok_iff, hresume]
  constructor
  · rintro ⟨-, -, sink, totals, heq, opened⟩
    cases heq
    exact ⟨opened, rfl⟩
  · rintro ⟨opened, rfl⟩
    exact ⟨rfl, rfl, _, _, rfl, opened⟩

/-- What a first session leaves. -/
theorem Completes.written (h : Completes .truncate settings s requests numbers summary s')
    (regular : s.place = .regular) (few : eventCount requests ≤ UInt64.size) :
    Written settings.containerSize settings.codec requests numbers summary s' := by
  obtain ⟨origin, opened, p, launched, finished, rfl⟩ := h
  obtain ⟨hstart, rfl⟩ := (launch_truncate_eq_ok_iff regular).1 launched
  obtain ⟨hstorable, hnumbers, hbytes, hsummary⟩ := finished.written hstart
    (Sink.reliable_reliable _) (by simpa [Totals.zero, eventCount] using few)
  exact ⟨regular, hstorable, by rw [hnumbers, List.range_eq_range']; rfl, hbytes, hsummary⟩

/-- **What one more session adds**: what is left is what a flush and its requests would have left
behind those of the sessions before. -/
theorem Written.append (h : Written threshold codec xs numbers summary s)
    (few : eventCount (xs ++ .flush :: ys) < UInt64.size)
    (threshold_eq : settings.containerSize = threshold) (codec_eq : settings.codec = codec)
    (completes : Completes .append settings s ys numbers' summary' s') :
    Written threshold codec (xs ++ .flush :: ys) (numbers ++ numbers') summary' s' := by
  subst threshold_eq codec_eq
  obtain ⟨origin, opened, p, launched, finished, rfl⟩ := completes
  obtain ⟨hstart, rfl⟩ := h.launch_iff.1 launched
  obtain ⟨hcontainers, hevents⟩ := containersOf_flush settings.containerSize xs ys
  have hle := length_containersOf_le settings.containerSize xs
  obtain ⟨hfirst, hnext⟩ := h.next (by omega)
  obtain ⟨hstorable, hnumbers, hbytes, hsummary⟩ := finished.written hstart
    (Sink.reliable_reliable _) (by rw [hfirst, hnext]; omega)
  rw [hfirst, hnext] at hstorable hbytes hsummary
  rw [hnext] at hnumbers
  have hrecords := Image.records_append h.storable
    ((Builder.start settings.containerSize (containersOf settings.containerSize xs).length).batches
      (Request.commands (eventCount xs) ys))
  rw [← hcontainers] at hrecords
  have hfile : p.file.bytes = Image.finished (Image.records settings.codec
      (containersOf settings.containerSize (xs ++ .flush :: ys))) false := by
    rw [hbytes, hrecords, Image.finished, Image.unfinished_append, Image.totals_append, Sink.bytes,
      Sink.reliable, Spool.toBytes_ofBytes]
  refine ⟨h.place, ?_, ?_, hfile, ?_⟩
  · rw [hcontainers]
    intro c hc
    exact (List.mem_append.1 hc).elim (h.storable c) (hstorable c)
  · rw [h.numbers_eq, hnumbers, hevents, List.range_eq_range', List.range_eq_range',
      ← List.range'_append_1, Nat.zero_add]
  · rw [hsummary, hrecords, Image.totals_append]
    rfl

/-! ### Sessions in a row -/

/-- Sessions in a row are separated by flushes. -/
theorem intercalate_concat {α : Type} (sep : List α) {xs : List (List α)} (nonempty : xs ≠ [])
    (y : List α) : sep.intercalate (xs ++ [y]) = sep.intercalate xs ++ sep ++ y := by
  induction xs with
  | nil => exact absurd rfl nonempty
  | cons x xs ih =>
      cases xs with
      | nil => simp
      | cons x' xs =>
          rw [List.cons_append, List.cons_append, List.intercalate_cons_cons,
            List.intercalate_cons_cons, ← List.cons_append, ih (List.cons_ne_nil _ _)]
          simp

theorem Continued.ne_nil {cs : List (List Request)}
    (h : Continued threshold codec s cs numbers summary s') : cs ≠ [] := by
  cases h <;> simp

/-- What sessions in a row leave is what a single one leaves. -/
theorem Continued.written {cs : List (List Request)}
    (h : Continued threshold codec s cs numbers summary s') (regular : s.place = .regular)
    (few : eventCount ([.flush].intercalate cs) < UInt64.size) :
    Written threshold codec ([.flush].intercalate cs) numbers summary s' := by
  induction h with
  | first threshold_eq codec_eq completes =>
      rw [List.intercalate_singleton] at few ⊢
      subst threshold_eq codec_eq
      exact completes.written regular (Nat.le_of_lt few)
  | next continued threshold_eq codec_eq completes ih =>
      rw [intercalate_concat _ continued.ne_nil, List.append_assoc] at few ⊢
      have hcount := (containersOf_flush threshold _ _).2 ▸ few
      exact (ih (by omega)).append few threshold_eq codec_eq completes

/-- A first session succeeds if the containers that its requests lead to have records. -/
theorem succeeds_truncate {options : Options} (accepted : options.check = .ok settings)
    (regular : s.place = .regular) (commands : ∀ request ∈ xs, request.isCommand = true)
    (storable : ∀ c ∈ containersOf settings.containerSize xs, c.Storable settings.codec)
    (few : eventCount xs ≤ UInt64.size) : Succeeds .truncate settings s xs := by
  obtain ⟨origin, launched, opened⟩ := exists_launch accepted regular
  exact ⟨origin, _, launched, serves_of_start (Options.of_check accepted).1 opened
    (Sink.reliable_reliable _) ⟨storable, by simpa [Totals.zero, eventCount] using few⟩ commands⟩

/-- **One more session succeeds** if the containers have records that are made when its requests
come behind a flush. -/
theorem Written.succeeds {options : Options} (h : Written threshold codec xs numbers summary s)
    (accepted : options.check = .ok settings) (threshold_eq : settings.containerSize = threshold)
    (codec_eq : settings.codec = codec) (commands : ∀ request ∈ ys, request.isCommand = true)
    (storable : ∀ c ∈ containersOf threshold (xs ++ .flush :: ys), c.Storable codec)
    (few : eventCount (xs ++ .flush :: ys) < UInt64.size) : Succeeds .append settings s ys := by
  subst threshold_eq codec_eq
  obtain ⟨hcontainers, hevents⟩ := containersOf_flush settings.containerSize xs ys
  have hle := length_containersOf_le settings.containerSize xs
  obtain ⟨hfirst, hnext⟩ := h.next (by omega)
  obtain ⟨origin, opened⟩ := exists_start accepted (.reliable (.ofBytes (Image.unfinished
      (Image.records settings.codec (containersOf settings.containerSize xs)))))
    (Image.totals (Image.records settings.codec (containersOf settings.containerSize xs)))
  refine ⟨origin, _, h.launch_iff.2 ⟨opened, rfl⟩, serves_of_start (Options.of_check accepted).1
    opened (Sink.reliable_reliable _) ⟨?_, by rw [hfirst, hnext]; omega⟩ commands⟩
  rw [hfirst, hnext]
  intro c hc
  exact storable c (hcontainers ▸ List.mem_append_right _ hc)

/-- What the requests of the first sessions lead to is a part of what all lead to. -/
theorem containersOf_front (threshold : UInt32) {front cs : List (List Request)}
    (nonempty : front ≠ []) (h : front <+: cs) :
    containersOf threshold ([.flush].intercalate front) <+:
        containersOf threshold ([.flush].intercalate cs) ∧
      eventCount ([.flush].intercalate front) ≤ eventCount ([.flush].intercalate cs) := by
  obtain ⟨behind, rfl⟩ := h
  induction behind using List.reverseRecOn with
  | nil => simp
  | append_singleton behind c ih =>
      have hne : front ++ behind ≠ [] := by simp [nonempty]
      obtain ⟨hcontainers, hevents⟩ :=
        containersOf_flush threshold ([.flush].intercalate (front ++ behind)) c
      rw [← List.append_assoc, intercalate_concat _ hne, List.append_assoc, List.singleton_append,
        hcontainers, hevents]
      exact ⟨ih.1.trans (List.prefix_append _ _), Nat.le_trans ih.2 (Nat.le_add_right _ _)⟩

end

/-- Requests that only put commands into the channel do so with flushes between them. -/
theorem isCommand_intercalate {cs : List (List Request)}
    (commands : ∀ c ∈ cs, ∀ request ∈ c, request.isCommand = true) :
    ∀ request ∈ [Request.flush].intercalate cs, request.isCommand = true := by
  induction cs using List.reverseRecOn with
  | nil => simp
  | append_singleton cs c ih =>
      have hc := commands c (by simp)
      have hcs := ih fun c' hc' => commands c' (List.mem_append_left _ hc')
      by_cases hnil : cs = []
      · simpa [hnil] using hc
      · intro request hin
        rw [intercalate_concat _ hnil, List.append_assoc, List.mem_append, List.mem_append,
          List.mem_singleton] at hin
        rcases hin with hin | rfl | hin
        · exact hcs request hin
        · rfl
        · exact hc request hin

/-- **Sessions in a row are as good as one.**

For any requests to write and to flush, divided into sessions in any way, with any size of
containers and any codec: if the containers that they lead to have records and there are numbers for
the events, then every session succeeds with any settings, in whichever order the steps are taken.
The first one finds a file that can be written, and each of the others the file that was left by
those before it.  Whatever settings and whatever schedules they had, in the end the file holds the
same bytes, the events have got the same numbers and the last call to close is told the same as
after a single session in which a flush stands in the place of every interruption; and such a
session succeeds as well. -/
theorem continued_eq_whole {threshold : UInt32} {codec : Codec} {s : Storage}
    {cs : List (List Request)} (regular : s.place = .regular)
    (commands : ∀ c ∈ cs, ∀ request ∈ c, request.isCommand = true)
    (storable : ∀ c ∈ (Builder.start threshold 0).batches
      (Request.commands 0 ([.flush].intercalate cs)), c.Storable codec)
    (few : (Command.events (Request.commands 0 ([.flush].intercalate cs))).length < UInt64.size) :
    (∀ options settings, Options.check options = .ok settings →
      settings.containerSize = threshold → settings.codec = codec →
        Succeeds .truncate settings s ([.flush].intercalate cs) ∧
        ∀ front c, front ++ [c] <+: cs →
          (front = [] → Succeeds .truncate settings s c) ∧
          ∀ numbers summary s', Continued threshold codec s front numbers summary s' →
            Succeeds .append settings s' c) ∧
    ∀ numbers summary s' settings numbers' summary' s'',
      Continued threshold codec s cs numbers summary s' →
      settings.containerSize = threshold → settings.codec = codec →
      Completes .truncate settings s ([.flush].intercalate cs) numbers' summary' s'' →
        s''.bytes = s'.bytes ∧ numbers' = numbers ∧ summary' = summary := by
  constructor
  · rintro options settings accepted rfl rfl
    refine ⟨succeeds_truncate accepted regular (isCommand_intercalate commands) storable
      (Nat.le_of_lt few), fun front c hfront => ?_⟩
    obtain ⟨hcontainers, hevents⟩ := containersOf_front settings.containerSize (by simp) hfront
    have hc := commands c (hfront.subset (by simp))
    have hstorable : ∀ c' ∈ containersOf settings.containerSize
        ([.flush].intercalate (front ++ [c])), c'.Storable settings.codec :=
      fun c' hc' => storable c' (hcontainers.subset hc')
    have hfew := Nat.lt_of_le_of_lt hevents few
    constructor
    · rintro rfl
      exact succeeds_truncate accepted regular hc (by simpa using hstorable)
        (Nat.le_of_lt (by simpa using hfew))
    · intro numbers summary s' continued
      rw [intercalate_concat _ continued.ne_nil, List.append_assoc] at hstorable hfew
      have hcount := (containersOf_flush settings.containerSize _ c).2 ▸ hfew
      exact (continued.written regular (by omega)).succeeds accepted rfl rfl hc hstorable hfew
  · rintro numbers summary s' settings numbers' summary' s'' continued rfl rfl completes
    have hrow := continued.written regular few
    have hwhole := completes.written regular (Nat.le_of_lt few)
    refine ⟨hwhole.bytes_eq.trans hrow.bytes_eq.symm, hwhole.numbers_eq.trans hrow.numbers_eq.symm,
      ?_⟩
    rw [hwhole.summary_eq, hrow.summary_eq, hwhole.bytes_eq, hrow.bytes_eq]

/-- Three sessions, one of them without any request, and the single one that they are as good as. -/
theorem continued_eq_whole_three :
    ∃ numbers summary s' s'',
      Continued 64 .identity (.vacant "log" .regular)
        [[.write 5 [7]], [], [.write 6 [8], .flush]] numbers summary s' ∧
      Completes .truncate ⟨1, 64, 1, 64, .identity⟩ (.vacant "log" .regular)
        [.write 5 [7], .flush, .flush, .write 6 [8], .flush] numbers summary s'' ∧
      s''.bytes = s'.bytes ∧ numbers = [0, 1] := by
  have hsmall : ∀ c ∈ (Builder.start 64 0).batches (Request.commands 0
      [.write 5 [7], .flush, .flush, .write 6 [8], .flush]), c.length < UInt32.size := by decide
  have hfew : 2 < UInt64.size := by decide
  have haccepted : Options.check ⟨1, 64, 1, some 64, .identity⟩ =
      .ok ⟨1, 64, 1, 64, .identity⟩ := rfl
  obtain ⟨hsucceeds, hsame⟩ := @continued_eq_whole 64 .identity (.vacant "log" .regular)
    [[.write 5 [7]], [], [.write 6 [8], .flush]] rfl (by simp [Request.isCommand])
    (fun c hc => Container.storable_plain (hsmall c hc)) hfew
  obtain ⟨hwhole, hsessions⟩ := hsucceeds _ _ haccepted rfl rfl
  obtain ⟨n₁, a₁, s₁, h₁⟩ := ((hsessions [] [.write 5 [7]] ⟨_, rfl⟩).1 rfl).completes
  have hrow₁ := Continued.first rfl rfl h₁
  obtain ⟨n₂, a₂, s₂, h₂⟩ := ((hsessions _ [] ⟨_, rfl⟩).2 _ _ _ hrow₁).completes
  have hrow₂ := hrow₁.next rfl rfl h₂
  obtain ⟨n₃, a₃, s₃, h₃⟩ :=
    ((hsessions _ [.write 6 [8], .flush] ⟨[], rfl⟩).2 _ _ _ hrow₂).completes
  have hrow₃ := hrow₂.next rfl rfl h₃
  obtain ⟨numbers, summary, s'', completes⟩ := hwhole.completes
  obtain ⟨hbytes, rfl, rfl⟩ := hsame _ _ _ _ _ _ _ hrow₃ rfl rfl completes
  have hnumbers := (completes.written rfl (Nat.le_of_lt hfew)).numbers_eq
  exact ⟨_, _, s₃, s'', hrow₃, completes, hbytes, hnumbers⟩

end Pipeline

end TraceLog
