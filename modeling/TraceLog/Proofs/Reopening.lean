/-
**What an attempt to go on leaves behind.**

A file that is opened to go on is looked at first, then its footer is taken off, and only then are
the threads of its pipeline started.  Whatever is wrong with the file is found while it still has
its footer, so that it keeps its content; and the pipeline itself is never what fails, since the
options were checked.  But a thread that cannot be started is noticed too late: the error is the
same, and the file has lost its footer.  It cannot be opened to go on any more, unless what stood in
front of the footer happens to end like a finished file.

Main definitions:

* `Storage.Opens` — what is found in a file that can be gone on with;
* `Pipeline.Attempt` — what an attempt to go on leads to, and what it leaves in the file.

Main results:

* `Pipeline.attempt_launch` — **these are all the ways in which an attempt can end**;
* `Pipeline.launch_append_leaves` — **what is left when opening fails, and when it succeeds**;
* `Pipeline.launch_append_stranded` — a closed file that has lost its footer to a failed attempt.
-/

import TraceLog.Proofs.Appending

set_option relaxedAutoImplicit false
set_option autoImplicit false

namespace TraceLog

namespace Storage

/-- What is found in a file that can be gone on with: nothing, or records in front of a footer. -/
def Opens (s : Storage) (front : Bytes) (totals : Totals) : Prop :=
  s.bytes = [] ∧ front = [] ∧ totals = .zero ∨
    s.bytes ≠ [] ∧ splitFooter s.path s.bytes = .ok (front, totals)

/-- **What is taken off are the last 64 bytes**, and they are a footer. -/
theorem eq_take_of_splitFooter {path : String} {bs front : Bytes} {totals : Totals}
    (h : splitFooter path bs = .ok (front, totals)) :
    Footer.size ≤ bs.length ∧ front = bs.take (bs.length - Footer.size) := by
  obtain ⟨reserved, f, sound, -, -, rfl⟩ := splitFooter_eq_ok_iff.1 h
  have hsize := Footer.length_encodeWith sound.length_reserved f
  rw [List.length_append, hsize, Nat.add_sub_cancel, List.take_left]
  exact ⟨Nat.le_add_left .., rfl⟩

/-- A file that is not empty loses its last 64 bytes, and so it does not keep its content. -/
theorem Opens.left {s : Storage} {front : Bytes} {totals : Totals} (opens : s.Opens front totals)
    (nonempty : s.bytes ≠ []) :
    front ≠ s.bytes ∧ Footer.size ≤ s.bytes.length ∧
      front = s.bytes.take (s.bytes.length - Footer.size) := by
  rcases opens with ⟨hempty, -, -⟩ | ⟨-, hsplit⟩
  · exact absurd hempty nonempty
  · obtain ⟨hsize, hfront⟩ := eq_take_of_splitFooter hsplit
    refine ⟨?_, hsize, hfront⟩
    intro hkept
    have hlen := congrArg List.length (hkept.symm.trans hfront)
    rw [List.length_take] at hlen
    simp only [Footer.size] at hlen hsize
    omega

end Storage

namespace Pipeline

variable {settings : Settings} {s s' : Storage} {mishaps : Mishaps}
  {result : Except Error Pipeline}

/-- What an attempt to go on leads to, and what it leaves in the file. -/
inductive Attempt (settings : Settings) (s : Storage) (mishaps : Mishaps) :
    Except Error Pipeline → Bytes → Prop where
  /-- The end of the file cannot be read. -/
  | unread {fault : StorageFault} (mishap : mishaps.reading = some fault) :
      Attempt settings s mishaps (.error (.io fault)) s.bytes
  /-- The file does not end in a footer, or it was aborted. -/
  | refused {error : Error} (readable : mishaps.reading = none) (nonempty : s.bytes ≠ [])
      (unfinished : Storage.splitFooter s.path s.bytes = .error error) :
      Attempt settings s mishaps (.error error) s.bytes
  /-- A thread cannot be started, when the footer has been taken off already. -/
  | stranded {front : Bytes} {totals : Totals} {fault : StorageFault}
      (readable : mishaps.reading = none) (opens : s.Opens front totals)
      (mishap : mishaps.thread? = some fault) :
      Attempt settings s mishaps (.error (.io fault)) front
  | started {sink : Sink} {totals : Totals} {origin : Pipeline}
      (readable : mishaps.reading = none) (opens : s.Opens sink.bytes totals)
      (complete : mishaps.thread? = none) (reliable : sink.Reliable)
      (opened : Pipeline.start settings sink totals = .ok origin) :
      Attempt settings s mishaps (.ok origin) sink.bytes

/-- A file that cannot be gone on with does not end in a footer that would do. -/
theorem unfinished_of_resume {error : Error} (regular : s.place = .regular)
    (h : s.resume = (.error error, s')) :
    s.bytes ≠ [] ∧ Storage.splitFooter s.path s.bytes = .error error ∧ s'.bytes = s.bytes := by
  have hnonempty : s.bytes ≠ [] := by
    intro hempty
    rw [Storage.resume_of_empty regular hempty] at h
    cases h
  rw [Storage.resume_of_nonempty regular hnonempty] at h
  split at h
  · rename_i fault hsplit
    cases h
    exact ⟨hnonempty, hsplit, rfl⟩
  · cases h

/-- A file that can be gone on with is left with what stands in front of its footer. -/
theorem opens_of_resume {sink : Sink} {totals : Totals} (regular : s.place = .regular)
    (h : s.resume = (.ok (sink, totals), s')) :
    s.Opens sink.bytes totals ∧ s'.bytes = sink.bytes ∧ sink.Reliable := by
  by_cases hempty : s.bytes = []
  · rw [Storage.resume_of_empty regular hempty] at h
    cases h
    exact ⟨Or.inl ⟨hempty, rfl, rfl⟩, hempty, Sink.reliable_reliable _⟩
  · rw [Storage.resume_of_nonempty regular hempty] at h
    split at h
    · cases h
    · rename_i front found hsplit
      cases h
      have hfront : (Sink.reliable (.ofBytes front)).bytes = front := Spool.toBytes_ofBytes front
      rw [hfront, Storage.bytes_put, Spool.toBytes_ofBytes]
      exact ⟨Or.inr ⟨hempty, hsplit⟩, rfl, Sink.reliable_reliable _⟩

/-- **These are all the ways in which an attempt can end**: with options that were found usable, it
is the file or a mishap that makes it fail. -/
theorem attempt_launch {options : Options} (accepted : options.check = .ok settings)
    (regular : s.place = .regular) (h : launch s .append settings mishaps = (result, s')) :
    Attempt settings s mishaps result s'.bytes := by
  unfold launch Storage.openFor at h
  rcases hreading : mishaps.reading with _ | fault
  · simp only [hreading] at h
    rcases hresume : s.resume with ⟨error | ⟨sink, totals⟩, left⟩
    · rw [hresume] at h
      cases h
      obtain ⟨hnonempty, hsplit, hleft⟩ := unfinished_of_resume regular hresume
      rw [hleft]
      exact .refused hreading hnonempty hsplit
    · obtain ⟨hopens, hleft, reliable⟩ := opens_of_resume regular hresume
      obtain ⟨origin, opened⟩ := exists_start accepted sink totals
      simp only [hresume, opened] at h
      rcases hthread : mishaps.thread? with _ | fault
      · rw [hthread] at h
        cases h
        rw [hleft]
        exact .started hreading hopens hthread reliable opened
      · rw [hthread] at h
        cases h
        rw [hleft]
        exact .stranded hreading hopens hthread
  · simp only [hreading] at h
    cases h
    exact .unread hreading

/-- **What is left when opening fails, and when it succeeds.**

A file is opened to go on with options that were found usable, and any step may fail.  If it is
opened, then it is left as it was when it was empty, and without its last 64 bytes otherwise.  If it
is not, then it is left as it was as long as all threads could be started.  If one could not, then
it is not opened; and if the file could be read and ended in a footer that would have done, it has
lost its last 64 bytes all the same. -/
theorem launch_append_leaves {options : Options} (accepted : options.check = .ok settings)
    (regular : s.place = .regular) (h : launch s .append settings mishaps = (result, s')) :
    (∀ origin, result = .ok origin → s.bytes = [] ∧ s'.bytes = [] ∨
      Footer.size ≤ s.bytes.length ∧ s'.bytes = s.bytes.take (s.bytes.length - Footer.size)) ∧
    (∀ error, result = .error error → mishaps.thread? = none → s'.bytes = s.bytes) ∧
    ∀ fault, mishaps.thread? = some fault → (∃ error, result = .error error) ∧
      (s'.bytes ≠ s.bytes ↔ mishaps.reading = none ∧ s.bytes ≠ [] ∧
        ∃ front totals, Storage.splitFooter s.path s.bytes = .ok (front, totals)) ∧
      (s'.bytes ≠ s.bytes → result = .error (.io fault) ∧ Footer.size ≤ s.bytes.length ∧
        s'.bytes = s.bytes.take (s.bytes.length - Footer.size)) := by
  -- one case for each way in which the attempt can end
  generalize hleft : s'.bytes = left
  cases hleft ▸ attempt_launch accepted regular h with
  | unread mishap => simp [mishap]
  | refused readable nonempty unfinished => simp [readable, unfinished]
  | stranded readable opens mishap =>
      refine ⟨by simp, by simp [mishap], ?_⟩
      intro fault hfault
      obtain rfl := Option.some.inj (mishap.symm.trans hfault)
      refine ⟨⟨_, rfl⟩, ?_, ?_⟩
      · constructor
        · intro hlost
          rcases opens with ⟨hempty, rfl, -⟩ | ⟨hnonempty, hsplit⟩
          · exact absurd hempty.symm hlost
          · exact ⟨readable, hnonempty, _, _, hsplit⟩
        · rintro ⟨-, hnonempty, -⟩
          exact (opens.left hnonempty).1
      · intro hlost
        rcases opens with ⟨hempty, rfl, -⟩ | ⟨hnonempty, hsplit⟩
        · exact absurd hempty.symm hlost
        · exact ⟨rfl, Storage.eq_take_of_splitFooter hsplit⟩
  | started readable opens complete reliable opened =>
      refine ⟨?_, by simp, by simp [complete]⟩
      intro _ _
      rcases opens with ⟨hempty, hfront, -⟩ | ⟨-, hsplit⟩
      · exact Or.inl ⟨hempty, hfront⟩
      · exact Or.inr (Storage.eq_take_of_splitFooter hsplit)

/-- A file that was closed without any records is opened to go on, but the workers cannot be
started: the call fails, and the footer is gone. -/
theorem launch_append_stranded :
    ∃ fault result s', launch ⟨"log", .regular, some (.ofBytes (Image.finished [] false))⟩ .append
        ⟨1, 64, 1, 64, .identity⟩ ⟨none, some fault, none, none⟩ = (result, s') ∧
      (∃ log, Log.read (Image.finished [] false) = .ok log ∧ log.isComplete = true) ∧
      result = .error (.io fault) ∧ s'.bytes = [] ∧ s'.bytes ≠ Image.finished [] false := by
  obtain ⟨file, hfile⟩ : ∃ file : Storage,
      file = ⟨"log", .regular, some (.ofBytes (Image.finished [] false))⟩ := ⟨_, rfl⟩
  have hbytes : file.bytes = Image.finished [] false := by
    rw [hfile]
    exact Spool.toBytes_ofBytes _
  have hlength : (Image.finished [] false).length = Footer.size :=
    Footer.length_encode (Footer.ofTotals .zero false)
  have hsplit : Storage.splitFooter file.path file.bytes = .ok ([], .zero) := by
    rw [hbytes]
    exact Storage.splitFooter_append file.path [] (Footer.sound_ofTotals .zero false)
  have hnonempty : file.bytes ≠ [] := by
    rw [hbytes, ← List.length_pos_iff, hlength]
    decide
  rcases hlaunch : launch file .append ⟨1, 64, 1, 64, .identity⟩
    ⟨none, some (.other "no threads left"), none, none⟩ with ⟨result, s'⟩
  obtain ⟨-, -, hmishap⟩ := @launch_append_leaves _ _ _ _ _ ⟨1, 64, 1, some 64, .identity⟩ rfl
    (by rw [hfile]) hlaunch
  obtain ⟨-, hlost, hleft⟩ := hmishap _ rfl
  have hgone : s'.bytes ≠ file.bytes := hlost.2 ⟨rfl, hnonempty, _, _, hsplit⟩
  obtain ⟨hresult, -, htake⟩ := hleft hgone
  rw [hbytes, hlength, Nat.sub_self, List.take_zero] at htake
  rw [hbytes] at hgone
  have hread := @Image.read_finished [] false (by simp) rfl
  exact ⟨_, result, s', hfile ▸ hlaunch, ⟨_, hread, rfl⟩, hresult, htake, hgone⟩

end Pipeline

end TraceLog
