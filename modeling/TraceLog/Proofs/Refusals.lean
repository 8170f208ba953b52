/-
**Files that refuse bytes.**

A file may refuse any piece of bytes that is offered to it; what it takes, it takes as a whole.  A
record is two pieces, and the buffer in front of the file passes on whole pieces only, but it may
pass on a header long before the data behind it.  So what a file holds after a refusal are whole
records, and behind them nothing or the header of one more record.  In the first case the reader
accepts the file as an unfinished one; in the second case it does not.

Main definitions:

* `BufferedSink.Holds` — which pieces were written, those first that the file has taken;
* `Record.pieces` — the two pieces of a record;
* `Resequencer.serve` — some calls, up to the first that fails;
* `Resequencer.Filed` — what the file and its buffer hold are pieces of a row of records.

Main results:

* `BufferedSink.Holds.write_cases`, `Resequencer.holds_writeAll` — a refusal loses no piece that was
  written before and tears none;
* `Resequencer.filed_serve` — this is so after any calls;
* `Log.read_torn` — a header without its data is not accepted;
* `Resequencer.read_refused` — **what is left of a file that refuses bytes**, and when it is read.
-/

import TraceLog.Proofs.Resequencing
import TraceLog.Proofs.RoundTrip

set_option relaxedAutoImplicit false
set_option autoImplicit false

namespace TraceLog

/-! ### Pieces behind a buffer -/

/-- The sink has taken the first of some pieces, and the others wait. -/
def BufferedSink.Holds (start : Bytes) (pieces : List Bytes) (b : BufferedSink) : Prop :=
  ∃ passed waiting, pieces = passed ++ waiting ∧ b.sink.bytes = start ++ passed.flatten ∧
    b.waiting.toBytes = waiting.flatten

namespace BufferedSink.Holds

variable {start : Bytes} {pieces : List Bytes} {b : BufferedSink}

theorem ofSink (sink : Sink) : Holds sink.bytes [] (.ofSink sink) :=
  ⟨[], [], rfl, by simp [BufferedSink.ofSink], rfl⟩

theorem contents_eq (h : Holds start pieces b) : b.contents = start ++ pieces.flatten := by
  obtain ⟨passed, waiting, rfl, hsink, hwaiting⟩ := h
  rw [BufferedSink.contents, hsink, hwaiting, List.flatten_append, List.append_assoc]

/-- A flush passes on all the pieces that wait, or none. -/
theorem flush (h : Holds start pieces b) : Holds start pieces b.flush.2 := by
  obtain ⟨passed, waiting, rfl, hsink, hwaiting⟩ := h
  have hbytes := b.sink.bytes_write b.waiting.toBytes
  unfold BufferedSink.flush
  split
  · exact ⟨passed, waiting, rfl, hsink, hwaiting⟩
  · rcases hwrite : b.sink.write b.waiting.toBytes with ⟨_ | _, sink⟩
    · rw [hwrite] at hbytes
      exact ⟨passed, waiting, rfl, hbytes.trans hsink, hwaiting⟩
    · rw [hwrite] at hbytes
      refine ⟨passed ++ waiting, [], (List.append_nil _).symm, ?_, rfl⟩
      rw [hwaiting, hsink] at hbytes
      rw [List.flatten_append, ← List.append_assoc]
      exact hbytes

/-- A piece for which there is room is held behind the others. -/
theorem hold (h : Holds start pieces b) (bs : Bytes) :
    Holds start (pieces ++ [bs]) (b.hold bs) := by
  obtain ⟨passed, waiting, rfl, hsink, hwaiting⟩ := h
  exact ⟨passed, waiting ++ [bs], List.append_assoc .., hsink,
    by simp [BufferedSink.hold, hwaiting]⟩

/-- A piece that is placed comes behind the others, or it is refused. -/
theorem place_cases (h : Holds start pieces b) (bs : Bytes)
    (hroom : b.waiting.toBytes = [] ∨ bs.length < capacity) :
    (∃ b', b.place bs = (.ok (), b') ∧ Holds start (pieces ++ [bs]) b') ∨
      ∃ fault b', b.place bs = (.error fault, b') ∧ Holds start pieces b' := by
  unfold place
  split
  · rename_i hlong
    have hempty : b.waiting.toBytes = [] := hroom.resolve_right (Nat.not_lt.2 hlong)
    obtain ⟨passed, waiting, rfl, hsink, hwaiting⟩ := h
    have hbytes := b.sink.bytes_write bs
    rcases hwrite : b.sink.write bs with ⟨fault | _, sink⟩
    · rw [hwrite] at hbytes
      exact Or.inr ⟨fault, _, rfl, passed, waiting, rfl, hbytes.trans hsink, hwaiting⟩
    · -- nothing waits, so the pieces that wait have no bytes
      rw [hwrite] at hbytes
      refine Or.inl ⟨_, rfl, passed ++ waiting ++ [bs], [], (List.append_nil _).symm, ?_, hempty⟩
      rw [hempty] at hwaiting
      rw [List.flatten_append, List.flatten_append, ← hwaiting, List.append_nil,
        List.flatten_singleton, ← List.append_assoc, ← hsink]
      exact hbytes
  · exact Or.inl ⟨b.hold bs, rfl, h.hold bs⟩

/-- **A piece comes behind the others as a whole, or it is refused.** -/
theorem write_cases (h : Holds start pieces b) (bs : Bytes) :
    (∃ b', b.write bs = (.ok (), b') ∧ Holds start (pieces ++ [bs]) b') ∨
      ∃ fault b', b.write bs = (.error fault, b') ∧ Holds start pieces b' := by
  unfold write
  split
  · exact Or.inl ⟨b.hold bs, rfl, h.hold bs⟩
  split
  · have hkept := h.flush
    rcases hflush : b.flush with ⟨fault | _, b₁⟩
    · rw [hflush] at hkept
      exact Or.inr ⟨fault, b₁, rfl, hkept⟩
    · rw [hflush] at hkept
      exact hkept.place_cases bs (Or.inl (waiting_flush hflush))
  · -- the piece fills the room exactly, so that nothing waits if it is too long to wait
    rename_i hfill hfits
    refine h.place_cases bs ?_
    have hroom : bs.length = b.room := by omega
    by_cases hwaiting : b.waiting.size = 0
    · exact Or.inl (List.eq_nil_of_length_eq_zero (by simp [hwaiting]))
    · refine Or.inr ?_
      rw [hroom, room]
      simp only [capacity]
      omega

end BufferedSink.Holds

/-! ### Records in pieces -/

/-- The pieces in which a record is written. -/
def Record.pieces (r : Record) : List Bytes := [r.header.encode, r.data]

theorem Record.flatten_pieces (rs : List Record) :
    (rs.flatMap pieces).flatten = Image.unfinished rs := by
  induction rs with
  | nil => rfl
  | cons r rs ih =>
      rw [List.flatMap_cons, List.flatten_append, ih]
      simp [pieces, Image.unfinished, Record.bytes]

/-- **The first pieces of some records** are whole records, and behind them nothing or the header of
one more record that has data. -/
theorem Record.cut_pieces {rs : List Record} {passed : List Bytes}
    (cut : passed <+: rs.flatMap pieces) :
    ∃ front, front <+: rs ∧ (passed.flatten = Image.unfinished front ∨
      ∃ r, front ++ [r] <+: rs ∧ r.data ≠ [] ∧
        passed.flatten = Image.unfinished front ++ r.header.encode) := by
  induction rs generalizing passed with
  | nil =>
      rw [List.flatMap_nil, List.prefix_nil] at cut
      exact ⟨[], List.prefix_rfl, Or.inl (by rw [cut]; rfl)⟩
  | cons r rs ih =>
      match passed with
      | [] => exact ⟨[], List.nil_prefix, Or.inl rfl⟩
      | [header] =>
          obtain ⟨rfl, -⟩ := List.cons_prefix_cons.1 cut
          by_cases hdata : r.data = []
          · -- a record without data is its header
            refine ⟨[r], List.prefix_append [r] rs, Or.inl ?_⟩
            simp [Image.unfinished, Record.bytes, hdata]
          · exact ⟨[], List.nil_prefix, Or.inr ⟨r, List.prefix_append [r] rs, hdata, by
              simp [Image.unfinished]⟩⟩
      | header :: data :: passed =>
          obtain ⟨hheader, cut'⟩ := List.cons_prefix_cons.1 cut
          obtain ⟨hdata, cut''⟩ := List.cons_prefix_cons.1 cut'
          subst hheader hdata
          obtain ⟨front, hfront, hwhole | ⟨torn, htorn, hdata, hrest⟩⟩ := ih cut''
          · refine ⟨r :: front, List.cons_prefix_cons.2 ⟨rfl, hfront⟩, Or.inl ?_⟩
            simp [hwhole, Image.unfinished, Record.bytes]
          · refine ⟨r :: front, List.cons_prefix_cons.2 ⟨rfl, hfront⟩, Or.inr ⟨torn, ?_, hdata, ?_⟩⟩
            · exact List.cons_prefix_cons.2 ⟨rfl, htorn⟩
            · simp [hrest, Image.unfinished, Record.bytes]

namespace Resequencer

variable {start : Bytes} {pieces : List Bytes} {w w' : Resequencer}

/-- A record is written with both its pieces, or with fewer if one is refused. -/
theorem holds_writeRecord (h : w.out.Holds start pieces) (r : Record) :
    ∃ more, more <+: r.pieces ∧ (w.writeRecord r).2.out.Holds start (pieces ++ more) ∧
      ∀ n, (w.writeRecord r).1 = .ok n → more = r.pieces := by
  unfold writeRecord
  rcases h.write_cases r.header.encode with ⟨out₁, hheader, h₁⟩ | ⟨fault, out₁, hheader, h₁⟩
  · rw [hheader]
    rcases h₁.write_cases r.data with ⟨out₂, hdata, h₂⟩ | ⟨fault, out₂, hdata, h₂⟩
    · simp only [hdata]
      refine ⟨r.pieces, List.prefix_rfl, ?_, fun _ _ => rfl⟩
      rw [List.append_assoc] at h₂
      exact h₂
    · simp only [hdata]
      exact ⟨[r.header.encode], ⟨[r.data], rfl⟩, h₂, by simp⟩
  · rw [hheader]
    exact ⟨[], List.nil_prefix, by simpa using h₁, by simp⟩

/-- A row of records is written with all its pieces, or with the first of them if one is refused. -/
theorem holds_writeAll (size : Nat) (h : w.out.Holds start pieces) (rs : List Record) :
    ∃ more, more <+: rs.flatMap Record.pieces ∧
      (writeAll size rs w).2.out.Holds start (pieces ++ more) ∧
      ∀ n, (writeAll size rs w).1 = .ok n → more = rs.flatMap Record.pieces := by
  induction rs generalizing size w pieces with
  | nil => exact ⟨[], List.prefix_rfl, by simpa [writeAll] using h, fun _ _ => rfl⟩
  | cons r rs ih =>
      obtain ⟨more, hmore, hheld, hall⟩ := holds_writeRecord h r
      rw [writeAll, List.flatMap_cons]
      rcases hwrite : w.writeRecord r with ⟨error | n, w₁⟩
      · rw [hwrite] at hheld
        exact ⟨more, hmore.trans (List.prefix_append ..), hheld, by simp⟩
      · rw [hwrite] at hheld hall
        obtain rfl := hall n rfl
        obtain ⟨rest, hrest, hheld', hall'⟩ := ih (size + n) hheld
        refine ⟨r.pieces ++ rest, ?_, ?_, fun m hm => ?_⟩
        · exact (List.prefix_append_right_inj _).2 hrest
        · rw [← List.append_assoc]
          exact hheld'
        · rw [hall' m hm]

/-! ### Calls until one fails -/

/-- What the file and its buffer hold are the first pieces of some records that have arrived, which
follow each other from the first number on. -/
def Filed (first : Nat) (start : Bytes) (arrived : List Record) (w : Resequencer) : Prop :=
  ∃ (rs : List Record) (pieces : List Bytes),
    rs.map (·.sequence.toNat) = List.range' first rs.length ∧ (∀ r ∈ rs, r ∈ arrived) ∧
      pieces <+: rs.flatMap Record.pieces ∧ w.out.Holds start pieces

/-- While nothing was refused, these are all the pieces of the records that were written. -/
def Untorn (first : Nat) (start : Bytes) (arrived : List Record) (w : Resequencer) : Prop :=
  ∃ written taken, Tally first written taken w ∧ (∀ r ∈ taken, r ∈ arrived) ∧
    w.out.Holds start (written.flatMap Record.pieces)

variable {first : Nat} {arrived : List Record}

theorem Untorn.filed (h : Untorn first start arrived w) : Filed first start arrived w := by
  obtain ⟨written, taken, tally, htaken, hheld⟩ := h
  refine ⟨written, _, tally.numbers, fun r hr => htaken r ?_, List.prefix_rfl, hheld⟩
  exact tally.perm.mem_iff.1 (List.mem_append_left _ hr)

/-- Nothing is torn by a flush, whether it succeeds or not. -/
theorem holds_flush (h : w.out.Holds start pieces) : w.flush.2.out.Holds start pieces := by
  have hkept := h.flush
  unfold flush
  split
  · rcases hflush : w.out.flush with ⟨_ | _, out⟩ <;> rw [hflush] at hkept <;> exact hkept
  · exact h

theorem Untorn.flush (h : Untorn first start arrived w) : Untorn first start arrived w.flush.2 := by
  obtain ⟨written, taken, tally, htaken, hheld⟩ := h
  exact ⟨written, taken, tally.flush, htaken, holds_flush hheld⟩

theorem Filed.flush (h : Filed first start arrived w) : Filed first start arrived w.flush.2 := by
  obtain ⟨rs, pieces, hnumbers, hrs, hcut, hheld⟩ := h
  exact ⟨rs, pieces, hnumbers, hrs, hcut, holds_flush hheld⟩

/-- **An arrival tears no record but the one that is refused.** -/
theorem Untorn.accept (h : Untorn first start arrived w) {r : Record} (hr : r ∈ arrived) :
    Filed first start arrived (w.accept r).2 ∧
      ∀ n, (w.accept r).1 = .ok n → Untorn first start arrived (w.accept r).2 := by
  have hkept := h.filed
  obtain ⟨written, taken, tally, htaken, hheld⟩ := h
  rcases accept_eq w tally.above tally.nodup_parked r with
    ⟨-, fault, hfault⟩ | ⟨-, row, left, hnumbers, hrow, haccept, hleft⟩
  · rw [hfault]
    exact ⟨hkept, by simp⟩
  obtain ⟨more, hmore, hheld', hall⟩ := holds_writeAll 0 hheld row
  constructor
  · rw [haccept]
    refine ⟨written ++ row, _, ?_, fun x hx => ?_, ?_, hheld'⟩
    · rw [List.map_append, tally.numbers, hnumbers, tally.next_eq, List.length_append,
        List.range'_append_1]
    · rcases List.mem_append.1 hx with hx | hx
      · exact htaken x (tally.perm.mem_iff.1 (List.mem_append_left _ hx))
      · rcases List.mem_cons.1 (hrow x hx) with rfl | hx
        · exact hr
        · exact htaken x (tally.perm.mem_iff.1 (List.mem_append_right _ hx))
    · rw [List.flatMap_append]
      exact (List.prefix_append_right_inj _).2 hmore
  · intro n hn
    have haccepted : w.accept r = (.ok n, (w.accept r).2) := Prod.ext hn rfl
    obtain ⟨row, w₁, hwrite, hw', htally⟩ := tally.accept haccepted
    obtain ⟨more, -, hheld', hall⟩ := holds_writeAll 0 hheld row
    rw [hwrite] at hheld' hall
    obtain rfl := hall n rfl
    refine ⟨written ++ row, taken ++ [r], htally, fun x hx => ?_, ?_⟩
    · rcases List.mem_append.1 hx with hx | hx
      · exact htaken x hx
      · exact List.mem_singleton.1 hx ▸ hr
    · rw [hw', List.flatMap_append]
      exact hheld'

/-- The record that arrives with a call. -/
def Call.record? : Call → Option Record
  | .accept r => some r
  | .flush => none

/-- Some calls, up to the first that fails. -/
def serve : List Call → Resequencer → Resequencer
  | [], w => w
  | .accept r :: calls, w =>
      match w.accept r with
      | (.ok _, w) => serve calls w
      | (.error _, w) => w
  | .flush :: calls, w =>
      match w.flush with
      | (.ok (), w) => serve calls w
      | (.error _, w) => w

/-- **Calls that end with one that fails** leave pieces of a row of records. -/
theorem Untorn.filed_serve {calls : List Call} (h : Untorn first start arrived w)
    (arrives : ∀ r, .accept r ∈ calls → r ∈ arrived) :
    Filed first start arrived (serve calls w) := by
  induction calls generalizing w with
  | nil => exact h.filed
  | cons call calls ih =>
      have hrest : ∀ r, .accept r ∈ calls → r ∈ arrived := fun r hr =>
        arrives r (List.mem_cons_of_mem _ hr)
      cases call with
      | flush =>
          have hflush := h.flush
          rw [serve]
          rcases hcall : w.flush with ⟨error | _, w₁⟩ <;> rw [hcall] at hflush
          · exact hflush.filed
          · exact ih hflush hrest
      | accept r =>
          obtain ⟨hfiled, huntorn⟩ := h.accept (arrives r List.mem_cons_self)
          rw [serve]
          rcases hcall : w.accept r with ⟨error | n, w₁⟩ <;> rw [hcall] at hfiled huntorn
          · exact hfiled
          · exact ih (huntorn n rfl) hrest

theorem Filed.flushes (h : Filed first start arrived w) (attempts : Nat) :
    Filed first start arrived ((fun w => w.flush.2)^[attempts] w) := by
  induction attempts generalizing w with
  | zero => exact h
  | succ attempts ih => exact ih h.flush

theorem untorn_resume (sink : Sink) (base : Totals) (arrived : List Record) :
    Untorn base.containers.toNat sink.bytes arrived (resume sink base) := by
  refine ⟨[], [], ⟨rfl, rfl, ?_, ?_, List.nodup_nil⟩, by simp, .ofSink sink⟩
  · simp [resume]
  · simp [resume]

end Resequencer

/-! ### What is read -/

/-- **A header without its data is not accepted.**

The file begins like the one in which the data follow, but it does not end behind a record. -/
theorem Log.read_torn {rs : List Record} {r : Record}
    (complete : ∀ x ∈ rs ++ [r], x.data.length = x.header.storedSize.toNat)
    (numbered : (rs ++ [r]).map (·.sequence.toNat) = List.range (rs ++ [r]).length)
    (data : r.data ≠ []) (log : Log) :
    read (Image.unfinished rs ++ r.header.encode) ≠ .ok log := by
  intro hread
  have wf := Layout.wellFormed_unfinished complete numbered
  have hsplit : Image.unfinished rs ++ r.header.encode ++ r.data =
      (Layout.unfinished (rs ++ [r])).bytes := by
    rw [Layout.bytes_unfinished, Image.unfinished_append]
    simp [Image.unfinished, Record.bytes]
  obtain ⟨count, hcount, hfront, -⟩ := (Layout.read_front_iff wf hsplit data).1 hread
  have hcut : ((Layout.unfinished (rs ++ [r])).cut count).bytes =
      Image.unfinished ((rs ++ [r]).take count) := by
    rw [← Layout.bytes_unfinished, Layout.cut, Layout.unfinished, ← List.map_take]
    rfl
  rw [hcut] at hfront
  rw [Layout.unfinished, List.length_map, List.length_append, List.length_singleton] at hcount
  rcases Nat.lt_or_ge rs.length count with hlt | hge
  · -- the data are there
    rw [List.take_of_length_le (by simp; omega), Image.unfinished_append] at hfront
    have hlen := congrArg List.length hfront
    exact data (by simpa [Image.unfinished, Record.bytes] using hlen)
  · -- the header is not there
    rw [List.take_append_of_le_length hge] at hfront
    have hfewer : Image.unfinished rs =
        Image.unfinished (rs.take count) ++ Image.unfinished (rs.drop count) := by
      rw [← Image.unfinished_append, List.take_append_drop]
    have hlen := congrArg List.length hfront
    rw [hfewer] at hlen
    simp only [List.length_append, Header.length_encode, Header.size] at hlen
    omega

namespace Resequencer

/-- **What is left of a file that refuses bytes**, and when it is read.

A file that is empty at first is written through a resequencer, by any calls up to the first that
fails, whatever pieces the file refuses; then it is flushed any number of times, and the buffer may
be given up.  What the file holds then are whole records with the numbers from zero on, all of which
have arrived, and the reader accepts them as an unfinished file with these records; unless the last
piece that has reached the file is the header of a record with data, which the reader does not
accept. -/
theorem read_refused {sink file : Sink} {calls : List Call} (attempts : Nat)
    (empty : sink.bytes = [])
    (complete : ∀ r, .accept r ∈ calls → r.data.length = r.header.storedSize.toNat)
    (left : file = ((fun w => w.flush.2)^[attempts] (serve calls (.start sink))).out.sink ∨
      file = ((fun w => w.flush.2)^[attempts] (serve calls (.start sink))).abandon) :
    ∃ rs : List Record, rs.map (·.sequence.toNat) = List.range rs.length ∧
      (∀ r ∈ rs, .accept r ∈ calls) ∧
      ((file.bytes = Image.unfinished rs ∧ ∃ log, Log.read file.bytes = .ok log ∧
          log.footer = none ∧ log.entries.map (fun e => ⟨e.header, e.stored⟩) = rs) ∨
        ∃ r, .accept r ∈ calls ∧ r.sequence.toNat = rs.length ∧ r.data ≠ [] ∧
          file.bytes = Image.unfinished rs ++ r.header.encode ∧
          ∀ log, Log.read file.bytes ≠ .ok log) := by
  obtain ⟨arrived, harrived⟩ : ∃ arrived : List Record, ∀ r, r ∈ arrived ↔ .accept r ∈ calls := by
    refine ⟨calls.filterMap Call.record?, fun r => ?_⟩
    rw [List.mem_filterMap]
    constructor
    · rintro ⟨call, hcall, hr⟩
      cases call <;> cases hr
      exact hcall
    · exact fun hr => ⟨_, hr, rfl⟩
  have hfiled :
      Filed 0 [] arrived ((fun w => w.flush.2)^[attempts] (serve calls (.start sink))) := by
    have hstart := untorn_resume sink .zero arrived
    rw [empty] at hstart
    exact (hstart.filed_serve fun r hr => (harrived r).2 hr).flushes attempts
  obtain ⟨rs, pieces, hnumbers, hrs, hcut, hheld⟩ := hfiled
  -- whether the buffer is given up or not, the file has taken the first of the pieces
  have hpassed : ∃ passed, passed <+: pieces ∧ file.bytes = passed.flatten := by
    have htaken {b : BufferedSink} (h : b.Holds [] pieces) :
        ∃ passed, passed <+: pieces ∧ b.sink.bytes = passed.flatten := by
      obtain ⟨passed, waiting, hpieces, hsink, -⟩ := h
      exact ⟨passed, ⟨waiting, hpieces.symm⟩, hsink⟩
    rcases left with rfl | rfl
    · exact htaken hheld
    · exact htaken hheld.flush
  obtain ⟨passed, hpieces, hbytes⟩ := hpassed
  have hcomplete (r : Record) (hr : r ∈ rs) : r.data.length = r.header.storedSize.toNat :=
    complete r ((harrived r).1 (hrs r hr))
  have hnumbered {front : List Record} (hfront : front <+: rs) :
      front.map (·.sequence.toNat) = List.range front.length := by
    obtain ⟨back, rfl⟩ := hfront
    rw [List.map_append, List.length_append, ← List.range'_append_1] at hnumbers
    rw [(List.append_inj hnumbers (by simp)).1, List.range_eq_range']
  obtain ⟨front, hfront, hwhole | ⟨r, htorn, hdata, hrest⟩⟩ :=
    Record.cut_pieces (hpieces.trans hcut)
  · refine ⟨front, hnumbered hfront, fun r hr => (harrived r).1 (hrs r (hfront.subset hr)),
      Or.inl ?_⟩
    rw [hbytes, hwhole]
    exact ⟨rfl, _, Image.read_unfinished (fun r hr => hcomplete r (hfront.subset hr))
      (hnumbered hfront), rfl, Layout.map_record_log_unfinished front⟩
  · refine ⟨front, hnumbered hfront, fun r hr => (harrived r).1 (hrs r (hfront.subset hr)),
      Or.inr ?_⟩
    have hr : r ∈ rs := htorn.subset (by simp)
    have hnumber : r.sequence.toNat = front.length := by
      have hall := hnumbered htorn
      rw [List.map_append, List.length_append, List.length_singleton, List.range_succ,
        hnumbered hfront] at hall
      simpa using hall
    refine ⟨r, (harrived r).1 (hrs r hr), hnumber, hdata, hbytes.trans hrest, fun log => ?_⟩
    rw [hbytes, hrest]
    exact Log.read_torn (fun x hx => hcomplete x (htorn.subset hx)) (hnumbered htorn) hdata log

/-- A file with room for one record of two holds the first one after it has refused the second. -/
theorem read_refused_limited :
    let zero : Record := ⟨⟨.ofId 0, 0, 1, 3, 3, 4, 1⟩, [8]⟩
    let one : Record := ⟨⟨.ofId 0, 1, 1, 5, 5, 4, 1⟩, [7]⟩
    ∃ file log,
      file = (serve [.accept zero, .flush, .accept one, .flush] (.start (.limited 50))).abandon ∧
      Log.read file.bytes = .ok log ∧ log.footer = none ∧
      log.entries.map (fun e => ⟨e.header, e.stored⟩) = [zero] := by
  intro zero one
  have hlength : (serve [.accept zero, .flush, .accept one, .flush]
      (.start (.limited 50))).abandon.bytes.length = 45 := by decide
  obtain ⟨file, hleft⟩ : ∃ file, file =
      (serve [.accept zero, .flush, .accept one, .flush] (.start (.limited 50))).abandon := ⟨_, rfl⟩
  rw [← hleft] at hlength
  have hfile : file = ((fun w => w.flush.2)^[0]
      (serve [.accept zero, .flush, .accept one, .flush] (.start (.limited 50)))).abandon := by
    rw [Function.iterate_zero, id]
    exact hleft
  obtain ⟨rs, hnumbers, hrs, hfile⟩ := read_refused 0 rfl (by simp [zero, one]) (Or.inr hfile)
  have hmem (r : Record) (hr : r ∈ rs) : r = zero ∨ r = one := by
    have hin := hrs r hr
    simp only [List.mem_cons, Call.accept.injEq, reduceCtorEq, List.not_mem_nil, or_false,
      false_or] at hin
    exact hin
  -- each of the two records takes 45 bytes
  have hspan : (Image.unfinished rs).length = 45 * rs.length := by
    clear hnumbers hrs hfile
    induction rs with
    | nil => rfl
    | cons r rs ih =>
        have hr : r.bytes.length = 45 := by
          rcases hmem r List.mem_cons_self with rfl | rfl <;> rfl
        have hrest := ih fun x hx => hmem x (List.mem_cons_of_mem r hx)
        rw [Image.unfinished] at hrest ⊢
        rw [List.flatMap_cons, List.length_append, hrest, hr, List.length_cons]
        omega
  rcases hfile with ⟨hbytes, log, hread, hfooter, hrecords⟩ | ⟨r, -, -, -, hbytes, -⟩
  · refine ⟨file, log, hleft, hread, hfooter, hrecords.trans ?_⟩
    have hone : rs.length = 1 := by
      have := hspan.symm.trans ((congrArg List.length hbytes).symm.trans hlength)
      omega
    obtain ⟨r, rfl⟩ := List.length_eq_one_iff.1 hone
    rcases hmem r (List.mem_singleton_self r) with rfl | rfl
    · rfl
    · exact absurd hnumbers (by decide)
  · have hlen := (congrArg List.length hbytes).symm.trans hlength
    rw [List.length_append, hspan, Header.length_encode, Header.size] at hlen
    omega

/-- **A header can be left over.**  It waits in the buffer until its data arrive; where these are
too long to wait the header goes on, and then the data are refused. -/
theorem torn_of_wide {r : Record} {limit : Nat} (hnumber : r.sequence.toNat = 0)
    (hcomplete : r.data.length = r.header.storedSize.toNat)
    (hlong : BufferedSink.capacity ≤ r.data.length) (hheader : Header.size ≤ limit)
    (hshort : limit < Header.size + r.data.length) (log : Log) :
    Log.read (serve [.accept r] (.start (.limited limit))).abandon.bytes ≠ .ok log := by
  have hempty : (Spool.empty.append r.header.encode).toBytes = r.header.encode := by simp
  have hsize : (Spool.empty.append r.header.encode).size = Header.size := by simp
  have hfirst : (BufferedSink.ofSink (.limited limit)).write r.header.encode =
      (.ok (), ⟨.limited limit, Spool.empty.append r.header.encode⟩) := by
    rw [BufferedSink.write, if_pos]
    · rfl
    · rw [Header.length_encode]
      simp [BufferedSink.room, BufferedSink.ofSink, BufferedSink.capacity, Header.size]
  -- the buffer is passed on to make room, and the sink has room for the header only
  have hsecond : (BufferedSink.mk (.limited limit) (Spool.empty.append r.header.encode)).write
      r.data = (.error (.other "disk full"),
        ⟨{ Sink.limited limit with taken := Spool.empty.append r.header.encode, attempts := 2 },
          .empty⟩) := by
    have hroom : (BufferedSink.mk (.limited limit) (Spool.empty.append r.header.encode)).room <
        r.data.length := by
      rw [BufferedSink.room, hsize]
      simp only [BufferedSink.capacity, Header.size] at hlong ⊢
      omega
    rw [BufferedSink.write, if_neg (by omega), if_pos hroom, BufferedSink.flush, hsize, if_neg
      (by decide), hempty]
    simp [Sink.write, Sink.limited, BufferedSink.place, hlong, Nat.not_lt.2 hheader, hshort]
  have hserve : serve [.accept r] (.start (.limited limit)) =
      { Resequencer.start (.limited limit) with
        out :=
          ⟨{ Sink.limited limit with taken := Spool.empty.append r.header.encode, attempts := 2 },
            .empty⟩ } := by
    simp only [serve, accept, Resequencer.start, resume, isNext, Totals.zero, hnumber, writeRecord,
      hfirst, hsecond]
    rfl
  have hbytes : (serve [.accept r] (.start (.limited limit))).abandon.bytes =
      Image.unfinished [] ++ r.header.encode := by
    rw [hserve]
    simp [abandon, BufferedSink.abandon, BufferedSink.flush, Sink.bytes, Image.unfinished]
  rw [hbytes]
  refine Log.read_torn ?_ ?_ ?_ log
  · simpa using hcomplete
  · simpa using hnumber
  · intro hnil
    rw [hnil] at hlong
    exact absurd hlong (by decide)

/-- A record whose data are as long as the buffer, and a file with room for its header only. -/
theorem read_refused_torn :
    (List.replicate 262144 (0 : UInt8)).length = (262144 : UInt32).toNat ∧
      ∀ log, Log.read (serve [.accept ⟨⟨.ofId 0, 0, 1, 0, 0, 4, 262144⟩, .replicate 262144 0⟩]
        (.start (.limited 100))).abandon.bytes ≠ .ok log := by
  have hlength : (List.replicate 262144 (0 : UInt8)).length = 262144 := List.length_replicate
  have hstored : (262144 : UInt32).toNat = 262144 := by decide
  have hcomplete := hlength.trans hstored.symm
  have hlong : BufferedSink.capacity ≤ (List.replicate 262144 (0 : UInt8)).length :=
    Nat.le_of_eq hlength.symm
  exact ⟨hcomplete, torn_of_wide rfl hcomplete hlong (by decide) (by rw [hlength]; decide)⟩

end Resequencer

end TraceLog
