/-
**Typed payloads survive the log.**

A value of a type that is put together by a schema is read back from what was written for it,
whatever follows it in the payload.  The proof is an induction on the schema: each way to put types
together keeps this property of the formats of the parts.  What there is to check at the leaves is
that a number never stands behind a mark that a reader of its type refuses, and that the sign of an
integer is not lost.

In the format a length is a number of 64 bits and the number of a form one of 32.  Lists, texts and
choices beyond that, which no memory holds, are left out by `Schema.Fits`.

Main definitions:

* `Format.LawfulOn` — what is written is read back, for the values that fit;
* `Shape.Fits`, `Sample.Fits` — the lengths in a value fit into 64 bits;
* `Format.Survives` — a value comes back out of the log.

Main results:

* `Format.decodeNat_encodeNat` — a number is read back by a reader of its type;
* `Schema.lawfulOn_format` — **a value is read back**, whatever its type is put together from;
* `Format.LawfulOn.survives` — a value that is read back comes back out of the log;
* `Schema.typed_values_survive` — **typed payloads survive the log**.
-/

import TraceLog.Payload.Schema
import TraceLog.Proofs.Durability

set_option relaxedAutoImplicit false
set_option autoImplicit false

namespace TraceLog

namespace Format

variable {α β : Type} {f : Format α} {g : Format β} {fits : α → Prop} {fits' : β → Prop}

/-- What is written for a value that fits is read back, whatever follows it. -/
def LawfulOn (f : Format α) (fits : α → Prop) : Prop :=
  ∀ a, fits a → ∀ rest : Bytes, f.decode (f.encode a ++ rest) = some (a, rest)

theorem Lawful.on (h : f.Lawful) (fits : α → Prop) : f.LawfulOn fits := fun a _ => h a

theorem LawfulOn.lawful (h : f.LawfulOn fits) (all : ∀ a, fits a) : f.Lawful := fun a => h a (all a)

/-! ### Numbers -/

theorem decodeWord_ofNat {width n : Nat} (h : n < 256 ^ width) (rest : Bytes) :
    decodeWord width (Bytes.ofNat width n ++ rest) = some (n, rest) := by
  have hsplit := Bytes.splitExact?_append (Bytes.ofNat width n) rest
  rw [Bytes.length_ofNat] at hsplit
  simp only [decodeWord, hsplit, Option.map_some, Bytes.toNat_ofNat, Nat.mod_eq_of_lt h]

/-- A word of two bytes is read for every type that has so many. -/
theorem decodeNat_mark2 (width : Nat) (bs : Bytes) :
    decodeNat width (mark2 :: bs) = if 2 ≤ width then decodeWord 2 bs else none := by
  simp [decodeNat, mark2, mark4, mark8]

theorem decodeNat_mark4 (width : Nat) (bs : Bytes) :
    decodeNat width (mark4 :: bs) = if 4 ≤ width then decodeWord 4 bs else none := by
  simp [decodeNat, mark2, mark4, mark8]

theorem decodeNat_mark8 (width : Nat) (bs : Bytes) :
    decodeNat width (mark8 :: bs) = if 8 ≤ width then decodeWord 8 bs else none := by
  simp [decodeNat, mark2, mark4, mark8]

/-- **A number is read back by a reader of its type.**  It takes no more bytes than its type has, so
that the mark in front of it is one that the reader accepts. -/
theorem decodeNat_encodeNat {width n : Nat} (wide : width = 2 ∨ width = 4 ∨ width = 8)
    (h : n < 256 ^ width) (rest : Bytes) :
    decodeNat width (encodeNat n ++ rest) = some (n, rest) := by
  have hmark : mark2.toNat = 251 := rfl
  have hsize₂ : UInt16.size = 256 ^ 2 := rfl
  have hsize₄ : UInt32.size = 256 ^ 4 := rfl
  unfold encodeNat
  by_cases hbyte : n < mark2.toNat
  · -- the first byte is the number
    have htoNat : (UInt8.ofNat n).toNat = n := by
      rw [UInt8.toNat_ofNat']
      omega
    have hlt : UInt8.ofNat n < mark2 := by rwa [UInt8.lt_iff_toNat_lt, htoNat]
    rw [if_pos hbyte, List.singleton_append, decodeNat, if_pos hlt, htoNat]
  rw [if_neg hbyte]
  by_cases htwo : n < UInt16.size
  · have hwidth : 2 ≤ width := by omega
    rw [if_pos htwo, List.cons_append, decodeNat_mark2, if_pos hwidth]
    exact decodeWord_ofNat (hsize₂ ▸ htwo) rest
  rw [if_neg htwo]
  by_cases hfour : n < UInt32.size
  · have hwidth : 4 ≤ width := by
      rcases wide with rfl | rfl | rfl <;> omega
    rw [if_pos hfour, List.cons_append, decodeNat_mark4, if_pos hwidth]
    exact decodeWord_ofNat (hsize₄ ▸ hfour) rest
  · obtain rfl : width = 8 := by
      rcases wide with rfl | rfl | rfl <;> omega
    rw [if_neg hfour, List.cons_append, decodeNat_mark8, if_pos (Nat.le_refl 8)]
    exact decodeWord_ofNat h rest

theorem lawful_uint8 : uint8.Lawful := fun _ _ => rfl

theorem lawful_uint16 : uint16.Lawful := fun n rest => by
  simp only [uint16, decodeNat_encodeNat (.inl rfl) n.toNat_lt, Option.map_some,
    UInt16.ofNat_toNat]

theorem lawful_uint32 : uint32.Lawful := fun n rest => by
  simp only [uint32, decodeNat_encodeNat (.inr (.inl rfl)) n.toNat_lt, Option.map_some,
    UInt32.ofNat_toNat]

theorem lawful_uint64 : uint64.Lawful := fun n rest => by
  simp only [uint64, decodeNat_encodeNat (.inr (.inr rfl)) n.toNat_lt, Option.map_some,
    UInt64.ofNat_toNat]

theorem lawfulOn_length : length.LawfulOn (· < UInt64.size) := fun _ h rest =>
  decodeNat_encodeNat (.inr (.inr rfl)) h rest

/-! ### Numbers with a sign -/

/-- An integer between `-m` and `m` is folded into a number below `2 * m`. -/
theorem fold_lt {n : Int} {m : Nat} (low : -(m : Int) ≤ n) (high : n < m) : fold n < 2 * m := by
  unfold fold
  split <;> omega

/-- Values that stand for others are read back as these. -/
theorem LawfulOn.map (hf : f.LawfulOn fits) {forth : α → β} {back : β → α}
    (inverse : ∀ b, forth (back b) = b) : (f.map forth back).LawfulOn fun b => fits (back b) := by
  intro b hb rest
  simp only [Format.map, hf (back b) hb, Option.map_some, inverse]

theorem Lawful.map (hf : f.Lawful) {forth : α → β} {back : β → α}
    (inverse : ∀ b, forth (back b) = b) : (f.map forth back).Lawful :=
  ((hf.on fun _ => True).map inverse).lawful fun _ => trivial

theorem lawful_int8 : int8.Lawful := lawful_uint8.map Int8.toInt8_toUInt8

theorem lawful_int16 : int16.Lawful := lawful_uint16.map fun n => by
  have hfold : fold n.toInt < UInt16.size := fold_lt (m := 2 ^ 15) n.le_toInt n.toInt_lt
  rw [UInt16.toNat_ofNat_of_lt' hfold, unfold_fold, Int16.ofInt_toInt]

theorem lawful_int32 : int32.Lawful := lawful_uint32.map fun n => by
  have hfold : fold n.toInt < UInt32.size := fold_lt (m := 2 ^ 31) n.le_toInt n.toInt_lt
  rw [UInt32.toNat_ofNat_of_lt' hfold, unfold_fold, Int32.ofInt_toInt]

theorem lawful_int64 : int64.Lawful := lawful_uint64.map fun n => by
  have hfold : fold n.toInt < UInt64.size := fold_lt (m := 2 ^ 63) n.le_toInt n.toInt_lt
  rw [UInt64.toNat_ofNat_of_lt' hfold, unfold_fold, Int64.ofInt_toInt]

/-! ### Compound values -/

theorem lawful_bool : bool.Lawful := by
  intro b rest
  cases b <;> rfl

theorem lawful_unit : unit.Lawful := fun _ _ => rfl

/-- The second value is part of what follows the first. -/
theorem LawfulOn.pair (hf : f.LawfulOn fits) (hg : g.LawfulOn fits') :
    (f.pair g).LawfulOn fun p => fits p.1 ∧ fits' p.2 := by
  rintro ⟨a, b⟩ ⟨ha, hb⟩ rest
  simp only [Format.pair, List.append_assoc, hf a ha, hg b hb, Option.map_some]

theorem Lawful.pair (hf : f.Lawful) (hg : g.Lawful) : (f.pair g).Lawful :=
  ((hf.on fun _ => True).pair (hg.on fun _ => True)).lawful fun _ => ⟨trivial, trivial⟩

theorem LawfulOn.option (hf : f.LawfulOn fits) :
    f.option.LawfulOn fun o => ∀ a ∈ o, fits a := by
  intro o ho rest
  cases o with
  | none => rfl
  | some a =>
      have hdecode := hf a (ho a rfl) rest
      simp only [Format.option, List.cons_append, hdecode, Option.map_some]
      rfl

theorem LawfulOn.decodeMany (hf : f.LawfulOn fits) {as : List α} (has : ∀ a ∈ as, fits a)
    (rest : Bytes) : f.decodeMany as.length (as.flatMap f.encode ++ rest) = some (as, rest) := by
  induction as with
  | nil => rfl
  | cons a as ih =>
      have hhead := hf a (has a List.mem_cons_self)
      have htail := ih fun b hb => has b (List.mem_cons_of_mem a hb)
      simp only [List.flatMap_cons, List.append_assoc, List.length_cons, Format.decodeMany, hhead,
        htail, Option.map_some]

theorem LawfulOn.list (hf : f.LawfulOn fits) :
    f.list.LawfulOn fun as => as.length < UInt64.size ∧ ∀ a ∈ as, fits a := by
  rintro as ⟨hlength, has⟩ rest
  simp only [Format.list, List.append_assoc, lawfulOn_length _ hlength]
  exact hf.decodeMany has rest

theorem LawfulOn.vector (hf : f.LawfulOn fits) (count : Nat) :
    (f.vector count).LawfulOn fun v => ∀ a ∈ v, fits a := by
  intro v hv rest
  have hmany := hf.decodeMany (fun a ha => hv a (Vector.mem_toList_iff.1 ha)) rest
  rw [Vector.length_toList] at hmany
  simp only [Format.vector, hmany]
  rw [dif_pos (by simp)]
  rfl

theorem fromUTF8?_toUTF8 (s : String) : String.fromUTF8? s.toUTF8 = some s := by
  unfold String.fromUTF8?
  rw [String.toUTF8_eq_toByteArray, dif_pos s.isValidUTF8]
  rfl

theorem lawfulOn_text : text.LawfulOn fun s => s.utf8ByteSize < UInt64.size := by
  intro s hs rest
  have hlength := lawfulOn_length s.toUTF8.size hs (s.toUTF8.data.toList ++ rest)
  have hsplit : Bytes.splitExact? s.toUTF8.size (s.toUTF8.data.toList ++ rest) =
      some (s.toUTF8.data.toList, rest) := Bytes.splitExact?_append ..
  simp only [text, List.append_assoc, hlength, hsplit, Array.toArray_toList]
  exact congrArg (Option.map fun t => (t, rest)) (fromUTF8?_toUTF8 s)

/-- The number of a form tells how to read what belongs to it. -/
theorem LawfulOn.choice {count : Nat} {α : Fin count → Type} {form : (i : Fin count) → Format (α i)}
    {fits : (i : Fin count) → α i → Prop} (hform : ∀ i, (form i).LawfulOn (fits i)) :
    (Format.choice form).LawfulOn fun v => v.1.val < UInt32.size ∧ fits v.1 v.2 := by
  rintro ⟨i, a⟩ ⟨hi, ha⟩ rest
  have hindex : (UInt32.ofNat i).toNat = i := UInt32.toNat_ofNat_of_lt' hi
  simp only [Format.choice, List.append_assoc, lawful_uint32 _ _]
  generalize (UInt32.ofNat i).toNat = j at hindex
  subst hindex
  rw [dif_pos i.isLt, hform i a ha rest]
  rfl

end Format

/-! ### Schemas -/

/-- **A value is read back**, whatever its type is put together from. -/
theorem Schema.lawfulOn_format (s : Schema) : s.format.LawfulOn s.Fits := by
  induction s with
  | uint8 => exact Format.lawful_uint8.on _
  | uint16 => exact Format.lawful_uint16.on _
  | uint32 => exact Format.lawful_uint32.on _
  | uint64 => exact Format.lawful_uint64.on _
  | int8 => exact Format.lawful_int8.on _
  | int16 => exact Format.lawful_int16.on _
  | int32 => exact Format.lawful_int32.on _
  | int64 => exact Format.lawful_int64.on _
  | bool => exact Format.lawful_bool.on _
  | text => exact Format.lawfulOn_text
  | unit => exact Format.lawful_unit.on _
  | pair first rest ihFirst ihRest => exact ihFirst.pair ihRest
  | option item ih => exact ih.option
  | list item ih => exact ih.list
  | vector item count ih => exact ih.vector count
  | choice count form ih => exact Format.LawfulOn.choice ih

/-! ### Some types of payloads -/

theorem CanFrame.lawful_format : CanFrame.format.Lawful := by
  have hdata : (Format.vector .uint8 8).Lawful :=
    ((Format.lawful_uint8.on fun _ => True).vector 8).lawful fun _ _ _ => trivial
  exact (Format.lawful_uint16.pair (Format.lawful_uint32.pair
    (Format.lawful_uint8.pair hdata))).map fun _ => rfl

/-- The length of a text fits into 64 bits. -/
def Shape.Fits : Shape → Prop
  | .pair _ b => b.utf8ByteSize < UInt64.size
  | _ => True

/-- Each form is read back behind its number. -/
theorem Shape.lawfulOn_format : Shape.format.LawfulOn Shape.Fits := by
  intro shape hfits rest
  cases shape with
  | empty =>
      have hindex := Format.lawful_uint32 0 rest
      simp only [Shape.format, hindex, if_true]
  | number n =>
      have hindex := Format.lawful_uint32 1 (Format.int64.encode n ++ rest)
      have hnumber := Format.lawful_int64 n rest
      simp only [Shape.format, List.append_assoc, hindex, hnumber, Option.map_some]
      rfl
  | pair a b =>
      have hindex := Format.lawful_uint32 2 ((Format.pair .uint8 .text).encode (a, b) ++ rest)
      have hpair := ((Format.lawful_uint8.on fun _ => True).pair Format.lawfulOn_text) (a, b)
        ⟨trivial, hfits⟩ rest
      simp only [Shape.format, List.append_assoc, hindex, hpair, Option.map_some]
      rfl

/-- The lengths in a measurement fit into 64 bits. -/
structure Sample.Fits (s : Sample) : Prop where
  name : s.name.utf8ByteSize < UInt64.size
  list : s.list.length < UInt64.size
  shape : s.shape.Fits

/-- A measurement is read back field by field. -/
theorem Sample.lawfulOn_format : Sample.format.LawfulOn Sample.Fits := by
  have hlist := (Format.lawful_uint16.on fun _ => True).list
  have hoptional := (Format.lawful_uint32.on fun _ => True).option
  have hfields := (Format.lawful_bool.on fun _ => True).pair <|
    (Format.lawful_int8.on fun _ => True).pair <| (Format.lawful_int32.on fun _ => True).pair <|
    (Format.lawful_uint64.on fun _ => True).pair <| Format.lawfulOn_text.pair <| hlist.pair <|
    hoptional.pair Shape.lawfulOn_format
  intro s hfits
  exact hfields.map (fun _ => rfl) s ⟨trivial, trivial, trivial, trivial, hfits.name,
    ⟨hfits.list, fun _ _ => trivial⟩, fun _ _ => trivial, hfits.shape⟩

/-! ### Values in a log -/

/-- A value comes back out of the log. -/
structure Format.Survives {α : Type} (f : Format α) (a : α) : Prop where
  /-- Out of every payload that starts with what is written for it. -/
  decoded : ∀ (e : Event) (rest : Bytes), e.payload = f.encode a ++ rest → e.value f = .ok a
  /-- Out of the event that a pipeline has stored when it answers a call to write the value. -/
  stored : ∀ (settings : Settings) (sink : Sink) (base : Totals) (origin p : Pipeline)
    (log : History) (id : Nat) (timestamp : UInt64) (n : Nat),
    Pipeline.start settings sink base = .ok origin → Pipeline.Run origin log p →
    .asked id (.writeValue f timestamp a) ∈ log → .answered id (.ok (.numbered n)) ∈ log →
    ∃ e ∈ log.events, e = ⟨UInt64.ofNat n, timestamp, f.encode a⟩ ∧ e.value f = .ok a
  /-- Out of the record that carries such an event, for a reader that knows the codec. -/
  restored : ∀ (codec : Codec) (registry : Registry) (record : Record) (offset : Nat)
    (sequence timestamp : UInt64), codec.id.toNat ≤ maxCodecId → codec.Faithful →
    registry.get codec.id = .ok codec →
    record.Carries codec ⟨sequence, timestamp, f.encode a⟩ →
    ∃ es, Entry.events ⟨offset, record.header, record.data⟩ registry = .ok es ∧
      ∃ e ∈ es, e = ⟨sequence, timestamp, f.encode a⟩ ∧ e.value f = .ok a

/-- **A value that is read back comes back out of the log.** -/
theorem Format.LawfulOn.survives {α : Type} {f : Format α} {fits : α → Prop} (hf : f.LawfulOn fits)
    {a : α} (ha : fits a) : f.Survives a := by
  have hdecoded (e : Event) (rest : Bytes) (he : e.payload = f.encode a ++ rest) :
      e.value f = .ok a := by
    simp only [Event.value, Format.decodePayload, he, hf a ha rest]
  have hvalue (sequence timestamp : UInt64) :
      Event.value f ⟨sequence, timestamp, f.encode a⟩ = .ok a :=
    hdecoded _ [] (List.append_nil _).symm
  refine ⟨hdecoded, ?_, ?_⟩
  · intro settings sink base origin p log id timestamp n opened run asked answered
    have fresh := Pipeline.fresh_of_start opened
    obtain ⟨timestamp', payload, hasked, hevent⟩ := run.event_of_numbered fresh answered
    -- the call was made once
    have hsame := (run.served fresh).callers.asked_once id _ _ hasked asked
    cases hsame
    exact ⟨_, hevent, rfl, hvalue _ _⟩
  · intro codec registry record offset sequence timestamp hid faithful known carries
    obtain ⟨number, es, group, hevent, hrecord⟩ := carries
    have hread := Entry.events_of_complete? hid faithful known group.length_lt hrecord offset
    exact ⟨es, hread, _, hevent, rfl, hvalue _ _⟩

/-- **Typed payloads survive the log.**

For every type that is put together from integers of 8 to 64 bits, with or without a sign, truth
values and texts by optional values, lists, rows of a fixed length, records and choices, as deep as
one likes, every value whose lengths can be told in 64 bits and the numbers of whose forms can be
told in 32 comes back: out of every payload that starts with what is written for it, whatever
follows; out of the event that a pipeline has stored for a call to write the value; and out of the
record that carries this event.  The same holds for frames of a CAN bus, for measurements and for
the shapes in these. -/
theorem Schema.typed_values_survive :
    (∀ (s : Schema) (v : s.Value), s.Fits v → s.format.Survives v) ∧
    (∀ frame : CanFrame, CanFrame.format.Survives frame) ∧
    (∀ shape : Shape, shape.Fits → Shape.format.Survives shape) ∧
    ∀ sample : Sample, sample.Fits → Sample.format.Survives sample :=
  ⟨fun s _ hv => s.lawfulOn_format.survives hv,
    fun _ => (CanFrame.lawful_format.on fun _ => True).survives trivial,
    fun _ hshape => Shape.lawfulOn_format.survives hshape,
    fun _ hsample => Sample.lawfulOn_format.survives hsample⟩

/-- A measurement at the borders of its fields is written and answered a number: it is read from the
event that is stored.  A choice with the least and the greatest integer of 16 bits is read from a
payload with other bytes behind it. -/
theorem Schema.typed_values_survive_borders :
    (let sample : Sample := ⟨true, -128, -2147483648, 18446744073709551615, "größer",
        [250, 251, 65535], some 65536, .pair 255 ""⟩
      ∃ origin log p,
        Pipeline.start ⟨1, 64, 1, 64, .identity⟩ (.reliable .empty) .zero = .ok origin ∧
        Pipeline.Run origin log p ∧ .answered 1 (.ok (.numbered 0)) ∈ log ∧
        ∃ e ∈ log.events, e.sequence = 0 ∧ e.value Sample.format = .ok sample) ∧
    (let s : Schema := .list (.choice 2 fun i => if i = 0 then .option .int16 else .vector .bool 2)
      let v : s.Value :=
        [⟨0, some (-32768 : Int16)⟩, ⟨1, #v[true, false]⟩, ⟨0, some (32767 : Int16)⟩]
      Event.value s.format ⟨0, 5, s.format.encode v ++ [251, 0]⟩ = .ok v) := by
  obtain ⟨schemas, -, -, samples⟩ := typed_values_survive
  constructor
  · intro sample
    have hfits : sample.Fits := ⟨by decide, by decide, by unfold Shape.Fits; decide⟩
    obtain ⟨origin, opened⟩ := @Pipeline.exists_start ⟨1, 64, 1, some 64, .identity⟩
      ⟨1, 64, 1, 64, .identity⟩ rfl (.reliable .empty) .zero
    obtain ⟨-, horigin⟩ := Pipeline.eq_of_start opened
    obtain ⟨p, hturns⟩ : ∃ p, Pipeline.follow? [.arrive 1 (.writeValue Sample.format 5 sample),
        .step (.call 1), .step (.call 1), .step (.call 1)] [] origin =
          some ([.asked 1 (.writeValue Sample.format 5 sample),
            .entered 1 (.event ⟨0, 5, Sample.format.encode sample⟩),
            .answered 1 (.ok (.numbered 0))], p) := by
      rw [horigin]
      exact ⟨_, rfl⟩
    have run := Pipeline.Run.start.follow hturns
    obtain ⟨e, he, rfl, hvalue⟩ := (samples sample hfits).stored _ _ _ _ _ _ 1 5 0 opened run
      (by simp) (by simp)
    exact ⟨origin, _, p, opened, run, by simp, _, he, rfl, hvalue⟩
  · intro s v
    have hfits : s.Fits v := by
      refine ⟨by decide, List.forall_mem_cons.2 ⟨⟨by decide, fun _ _ => trivial⟩, ?_⟩⟩
      refine List.forall_mem_cons.2 ⟨⟨by decide, fun _ _ => trivial⟩, ?_⟩
      exact List.forall_mem_singleton.2 ⟨by decide, fun _ _ => trivial⟩
    exact (schemas s v hfits).decoded _ [251, 0] rfl

end TraceLog
