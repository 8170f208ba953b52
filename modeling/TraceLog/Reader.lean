/-
**Reading a log file.**

A log file is read in two stages.  The first walks over the records and checks the layout: the
numbers of the containers run from zero without a gap, every record is complete, and a footer, if
there is one, agrees with the records.  The second restores the containers with the codecs that the
reader knows, and takes them apart into events.

Main definitions:

* `Log`, `Log.read` — the records of a file with its footer; the first stage;
* `Entry.payload`, `Entry.events`, `Log.events` — the second stage;
* `Log.totals`, `Log.isComplete`, `Log.isTruncated` — what the records and the footer say.

Main results:

* `Log.length_of_readEntry` — every record takes at least 44 bytes, so the walk ends.
-/

import TraceLog.Codec.Registry
import TraceLog.Record

set_option relaxedAutoImplicit false
set_option autoImplicit false

namespace TraceLog

/-- A record where it stands in a file. -/
structure Entry where
  /-- The offset of the header. -/
  offset : Nat
  header : Header
  /-- The bytes behind the header. -/
  stored : Bytes
  deriving DecidableEq

/-- The records of a file, with its footer if it has one. -/
structure Log where
  size : Nat
  entries : List Entry
  footer : Option Footer
  deriving DecidableEq

/-! ### The layout -/

namespace Log

/-- What stands at a place in a file. -/
inductive Item where
  | record (entry : Entry) (rest : Bytes)
  | footer (footer : Footer)

/-- Whether what is left of a file is to be read as a footer. -/
def footerFollows (rest : Bytes) : Bool :=
  rest.length == Footer.size && rest.take 4 == Footer.magic

/-- The number that has to follow an earlier one. -/
def checkSequence (previous : Option UInt64) (found : UInt64) (offset : Nat) :
    Except FormatFault Unit :=
  match previous with
  | none => .ok ()
  | some last =>
      if last.toNat + 1 = UInt64.size then .error (.sequenceOverflow last offset)
      else if found.toNat ≠ last.toNat + 1 then .error (.sequenceJump last found offset)
      else .ok ()

/-- The record at the front of what is left of a file. -/
def readEntry (previous : Option UInt64) (offset : Nat) (rest : Bytes) :
    Except FormatFault (Entry × Bytes) :=
  match Header.decode rest with
  | .error fault => .error (.badRecord offset fault)
  | .ok header =>
      match checkSequence previous header.sequence offset with
      | .error fault => .error fault
      | .ok () =>
          match Bytes.splitExact? header.storedSize.toNat (rest.drop Header.size) with
          | none => .error (.recordTruncated header.sequence offset)
          | some (stored, rest) => .ok (⟨offset, header, stored⟩, rest)

theorem length_of_decode {bs : Bytes} {h : Header} (hd : Header.decode bs = .ok h) :
    Header.size ≤ bs.length := by
  unfold Header.decode at hd
  dsimp only at hd
  split at hd
  · simp at hd
  · rename_i hs
    simp only [List.length_take] at hs
    omega

/-- Every record takes at least 44 bytes. -/
theorem length_of_readEntry {previous : Option UInt64} {offset : Nat} {bs rest : Bytes} {e : Entry}
    (h : readEntry previous offset bs = .ok (e, rest)) :
    bs.length = e.header.recordLength + rest.length := by
  unfold readEntry at h
  split at h
  · simp at h
  rename_i hd
  split at h
  · simp at h
  split at h
  · simp at h
  rename_i hs
  simp only [Except.ok.injEq, Prod.mk.injEq] at h
  obtain ⟨rfl, rfl⟩ := h
  have h₁ := length_of_decode hd
  obtain ⟨h₂, h₃⟩ := Bytes.splitExact?_eq_some_iff.1 hs
  have h₄ := congrArg List.length h₃
  simp only [List.length_drop, List.length_append] at h₄
  simp only [Header.recordLength]
  omega

/-- The records from a place in a file on, in front of which those in `found` stand, the latest one
first; and the footer. -/
def scan (found : List Entry) (offset : Nat) (bs : Bytes) :
    Except FormatFault (List Entry × Option Footer) :=
  if bs.isEmpty then .ok (found.reverse, none)
  else if footerFollows bs then
    match Footer.decode bs with
    | .error fault => .error (.footer fault)
    | .ok footer => .ok (found.reverse, some footer)
  else
    match _h : readEntry (found.head?.map (·.header.sequence)) offset bs with
    | .error fault => .error fault
    | .ok (entry, rest) => scan (entry :: found) (offset + entry.header.recordLength) rest
termination_by bs.length
decreasing_by
  have := length_of_readEntry _h
  simp only [Header.recordLength, Header.size] at this
  omega

/-- The totals over some records. -/
def totalsOf (entries : List Entry) : Totals := .ofHeaders (entries.map (·.header))

/-- What can only be checked when all records are known: the first number, and the totals in the
footer. -/
def checkWhole (entries : List Entry) (footer : Option Footer) : Except FormatFault Unit :=
  match entries.head?.filter (·.header.sequence ≠ 0), footer with
  | some first, _ => .error (.firstSequence first.header.sequence)
  | none, some footer =>
      if footer.totals ≠ totalsOf entries then
        .error (.totalsMismatch footer.totals (totalsOf entries))
      else .ok ()
  | none, none => .ok ()

/-- The records and the footer of a file. -/
def read (bs : Bytes) : Except Error Log :=
  match scan [] 0 bs with
  | .error fault => .error (.format fault)
  | .ok (entries, footer) =>
      match checkWhole entries footer with
      | .error fault => .error (.format fault)
      | .ok () => .ok ⟨bs.length, entries, footer⟩

/-! ### What the records and the footer say -/

/-- The totals over the records. -/
def totals (l : Log) : Totals := totalsOf l.entries

/-- Whether the file was closed after everything was written. -/
def isComplete (l : Log) : Bool := l.footer.any fun f => !f.isTruncated

/-- Whether the file was aborted. -/
def isTruncated (l : Log) : Bool := l.footer.any (·.isTruncated)

end Log

/-! ### The events -/

namespace Entry

/-- The framed bytes of a container. -/
def payload (e : Entry) (registry : Registry) : Except Error Bytes :=
  match registry.get e.header.tag.id with
  | .error error => .error error
  | .ok codec =>
      match codec.decompress e.stored with
      | .error error => .error error
      | .ok payload =>
          if payload.length ≠ e.header.rawSize.toNat then
            .error (.format (.payloadSize e.header.sequence payload.length e.header.rawSize))
          else .ok payload

/-- The events of a container. -/
def events (e : Entry) (registry : Registry) : Except Error (List Event) :=
  match e.payload registry with
  | .error error => .error error
  | .ok payload =>
      match Event.decodeAll payload with
      | .error fault => .error (.format (.frame fault))
      | .ok events =>
          if events.length ≠ e.header.eventCount.toNat then
            .error (.format (.eventCount e.header.sequence events.length e.header.eventCount))
          else .ok events

end Entry

/-- All the events of a file, in file order. -/
def Log.events (l : Log) (registry : Registry) : Except Error (List Event) :=
  (l.entries.mapM fun (e : Entry) => e.events registry).map List.flatten

end TraceLog
