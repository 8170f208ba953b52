/-
**Headers, bit for bit.**

The fields of a header are words of four widths at fixed offsets.  A header is written word by word
into 44 bytes that are zero at first, and since no two words overlap and one byte is left out, it
makes no difference that it can also be put together from left to right.  Reading looks at the same
offsets.  What is lost on the way from bytes to a header and back is the reserved byte, and nothing
else.

Main definitions:

* `Bytes.overwrite`, `Bytes.overwriteAll` — bytes with one word, with some words written over them;
* `Bytes.inARow` — words that stand one behind the other, with their offsets;
* `Header.words` — the words of a header, each with its offset;
* `Header.Fault.Concerns` — what is wrong with bytes that do not start with a header.

Main results:

* `Bytes.overwriteAll_inARow` — words that stand one behind the other do not disturb each other;
* `Header.encode_eq_overwriteAll` — **a header is written word by word**;
* `Header.encode_of_decode` — the header of some bytes is written as these bytes;
* `Header.decode_eq_error_iff` — the bytes that do not start with a header;
* `Header.decode_keeps_all` — **nothing but the reserved byte is lost**.
-/

import TraceLog.Proofs.Fields

set_option relaxedAutoImplicit false
set_option autoImplicit false

namespace TraceLog

/-- Bytes with a word written over them, from an offset on. -/
def Bytes.overwrite (bs : Bytes) (offset : Nat) (word : Bytes) : Bytes :=
  bs.take offset ++ word ++ bs.drop (offset + word.length)

namespace Bytes

/-- Where bytes are still zero, what is written next comes behind what was written before. -/
theorem overwrite_zeros (front word : Bytes) (room : Nat) :
    (front ++ List.replicate room 0).overwrite front.length word =
      front ++ word ++ List.replicate (room - word.length) 0 := by
  rw [overwrite, List.take_left, List.drop_append, List.drop_eq_nil_of_le (Nat.le_add_right ..),
    List.nil_append, List.drop_replicate, Nat.add_sub_cancel_left]

/-- Words with their offsets, if they stand one behind the other. -/
def inARow (offset : Nat) : List Bytes → List (Nat × Bytes)
  | [] => []
  | word :: words => (offset, word) :: inARow (offset + word.length) words

/-- Bytes with words written over them, one after the other. -/
def overwriteAll (bs : Bytes) (words : List (Nat × Bytes)) : Bytes :=
  words.foldl (fun bs word => overwrite bs word.1 word.2) bs

theorem overwriteAll_append (bs : Bytes) (words more : List (Nat × Bytes)) :
    bs.overwriteAll (words ++ more) = Bytes.overwriteAll (bs.overwriteAll words) more :=
  List.foldl_append

/-- **Words that stand one behind the other** are written over zeros without any being lost. -/
theorem overwriteAll_inARow (words : List Bytes) (front : Bytes) (room : Nat) :
    overwriteAll (front ++ List.replicate room 0) (inARow front.length words) =
      front ++ words.flatten ++ List.replicate (room - words.flatten.length) 0 := by
  induction words generalizing front room with
  | nil => simp [overwriteAll, inARow]
  | cons word words ih =>
      have hstep := overwrite_zeros front word room
      have hmore := ih (front ++ word) (room - word.length)
      rw [List.length_append] at hmore
      rw [inARow, overwriteAll, List.foldl_cons, hstep, ← overwriteAll, hmore]
      simp only [List.flatten_cons, List.length_append, List.append_assoc, Nat.sub_sub]

/-- A field is a given number if its bytes are those of the number. -/
theorem field_eq_iff {bs : Bytes} {offset width n : Nat} (h : offset + width ≤ bs.length)
    (hn : n < 256 ^ width) :
    bs.field offset width = n ↔ (bs.drop offset).take width = ofNat width n := by
  have hword := ofNat_toNat ((bs.drop offset).take width)
  rw [List.length_take, List.length_drop, Nat.min_eq_left (by omega)] at hword
  constructor
  · rintro rfl
    exact hword.symm
  · intro heq
    rw [field, heq, toNat_ofNat, Nat.mod_eq_of_lt hn]

/-- A field within the first bytes is not changed by cutting off the others. -/
theorem field_take {bs : Bytes} {offset width n : Nat} (h : offset + width ≤ n) :
    field (bs.take n) offset width = bs.field offset width := by
  rw [field, field, List.drop_take, List.take_take, Nat.min_eq_left (by omega)]

end Bytes

namespace Header

/-! ### Word by word -/

/-- The words of a header, each with its offset; the reserved byte is none of them. -/
def words (h : Header) : List (Nat × Bytes) :=
  [(0, magic), (4, Bytes.ofNat 2 containerType), (6, [h.tag.byte]),
    (8, Bytes.ofNat 8 h.sequence.toNat), (16, Bytes.ofNat 4 h.eventCount.toNat),
    (20, Bytes.ofNat 8 h.firstTimestamp.toNat), (28, Bytes.ofNat 8 h.lastTimestamp.toNat),
    (36, Bytes.ofNat 4 h.rawSize.toNat), (40, Bytes.ofNat 4 h.storedSize.toNat)]

/-- The words of a header stand in two rows, with the reserved byte between them. -/
theorem words_eq (h : Header) :
    h.words =
      Bytes.inARow 0 [magic, Bytes.ofNat 2 containerType, [h.tag.byte]] ++
      Bytes.inARow 8 [Bytes.ofNat 8 h.sequence.toNat, Bytes.ofNat 4 h.eventCount.toNat,
        Bytes.ofNat 8 h.firstTimestamp.toNat, Bytes.ofNat 8 h.lastTimestamp.toNat,
        Bytes.ofNat 4 h.rawSize.toNat, Bytes.ofNat 4 h.storedSize.toNat] := by
  simp [words, Bytes.inARow, magic]

/-- **A header is written word by word** over bytes that are zero at first. -/
theorem encode_eq_overwriteAll (h : Header) :
    h.encode = Bytes.overwriteAll (List.replicate size 0) h.words := by
  -- Behind the first row one byte is left out, so it belongs to what stands before the second.
  let front : Bytes := magic ++ Bytes.ofNat 2 containerType ++ [h.tag.byte]
  have hfront : Bytes.overwriteAll (List.replicate size 0)
      (Bytes.inARow 0 [magic, Bytes.ofNat 2 containerType, [h.tag.byte]]) =
      (front ++ [0]) ++ List.replicate 36 0 := by
    have hrow :=
      Bytes.overwriteAll_inARow [magic, Bytes.ofNat 2 containerType, [h.tag.byte]] [] size
    simpa [front, magic, size, Bytes.ofNat] using hrow
  have hlen : (front ++ [0]).length = 8 := by simp [front, magic]
  rw [words_eq, Bytes.overwriteAll_append, hfront, ← hlen, Bytes.overwriteAll_inARow]
  simp [front, encode, encodeWith]

/-! ### From bytes and back -/

theorem set_encodeWith (reserved byte : UInt8) (h : Header) :
    (h.encodeWith reserved).set 7 byte = h.encodeWith byte := rfl

/-- **The header that is read from some bytes is written as these bytes**, apart from the reserved
one, which becomes zero. -/
theorem encode_of_decode {bs : Bytes} {h : Header} (hdecode : decode bs = .ok h) :
    h.encode = (bs.take size).set 7 0 := by
  obtain ⟨reserved, rest, rfl⟩ := decode_eq_ok_iff.1 hdecode
  rw [List.take_left' (length_encodeWith reserved h), set_encodeWith, encode]

/-- What is wrong with bytes that do not start with a header. -/
def Fault.Concerns (bs : Bytes) : Fault → Prop
  | .tooShort => bs.length < size
  | .badMagic => size ≤ bs.length ∧ bs.take 4 ≠ magic
  | .unknownType found =>
      size ≤ bs.length ∧ bs.take 4 = magic ∧ bs.field 4 2 = found ∧ found ≠ containerType

/-- **The bytes that do not start with a header**, and what is wrong with them. -/
theorem decode_eq_error_iff {bs : Bytes} {fault : Fault} :
    decode bs = .error fault ↔ fault.Concerns bs := by
  have hlen : (bs.take size).length < size ↔ bs.length < size := by
    rw [List.length_take]
    omega
  have hmagic : (bs.take size).take 4 = bs.take 4 := by rw [List.take_take]; rfl
  have htype : Bytes.field (bs.take size) 4 2 = bs.field 4 2 := Bytes.field_take (by decide)
  simp only [decode, hlen, hmagic, htype]
  by_cases hshort : bs.length < size
  · cases fault <;> simp [Fault.Concerns, hshort, Nat.not_le.2 hshort]
  have hle := Nat.le_of_not_lt hshort
  by_cases hgood : bs.take 4 = magic
  · by_cases hknown : bs.field 4 2 = containerType
    · cases fault <;> simp [Fault.Concerns, hshort, hle, hgood, hknown, eq_comm]
    · cases fault with
      | tooShort | badMagic => simp [Fault.Concerns, hshort, hgood, hknown]
      | unknownType found =>
          simp only [hshort, hgood, hknown, ne_eq, not_true_eq_false, not_false_eq_true, if_true,
            if_false, Except.error.injEq, Fault.unknownType.injEq, Fault.Concerns, hle, true_and]
          constructor
          · rintro rfl
            exact ⟨rfl, hknown⟩
          · exact And.left
  · cases fault <;> simp [Fault.Concerns, hshort, hle, hgood]

/-- Bytes do not start with a header if there are too few of them, or they do not start with the
magic number and the type. -/
theorem exists_decode_eq_error_iff {bs : Bytes} :
    (∃ fault, decode bs = .error fault) ↔ bs.length < size ∨ bs.take 4 ≠ magic ∨
      (bs.drop 4).take 2 ≠ Bytes.ofNat 2 containerType := by
  simp only [decode_eq_error_iff]
  by_cases hshort : bs.length < size
  · simp only [hshort, true_or, iff_true]
    exact ⟨.tooShort, hshort⟩
  have hle := Nat.le_of_not_lt hshort
  by_cases hmagic : bs.take 4 = magic
  · have hwithin : 4 + 2 ≤ bs.length := Nat.le_trans (by decide) hle
    simp only [hshort, hmagic, ne_eq, not_true_eq_false, false_or,
      ← Bytes.field_eq_iff hwithin (by decide : containerType < 256 ^ 2)]
    constructor
    · rintro ⟨_ | _ | found, hfault⟩
      · exact absurd hfault hshort
      · exact absurd hmagic hfault.2
      · exact hfault.2.2.1 ▸ hfault.2.2.2
    · intro htype
      exact ⟨.unknownType _, hle, hmagic, rfl, htype⟩
  · simp only [hmagic, ne_eq, not_false_eq_true, true_or, or_true, iff_true]
    exact ⟨.badMagic, hle, hmagic⟩

/-- **Nothing but the reserved byte is lost** between headers and bytes.

Every header is read back from its bytes, whatever follows them; they are its words, each written at
its offset.  Whatever bytes a header is read from, it is written as the first 44 of them, with a
zero in place of the reserved byte.  No header is read if, and only if, there are fewer bytes, the
first four are not the magic number, or the two behind them are not the type of a container; the
fault says which of these it is. -/
theorem decode_keeps_all :
    (∀ (h : Header) (rest : Bytes), decode (h.encode ++ rest) = .ok h) ∧
    (∀ h : Header, h.encode = Bytes.overwriteAll (List.replicate size 0) h.words) ∧
    (∀ bs h, decode bs = .ok h → h.encode = (bs.take size).set 7 0) ∧
    (∀ bs, (∃ fault, decode bs = .error fault) ↔ bs.length < size ∨ bs.take 4 ≠ magic ∨
      (bs.drop 4).take 2 ≠ Bytes.ofNat 2 containerType) ∧
    ∀ bs fault, decode bs = .error fault ↔ fault.Concerns bs :=
  ⟨fun h rest => decode_encodeWith_append 0 h rest, encode_eq_overwriteAll,
    fun _ _ => encode_of_decode, fun _ => exists_decode_eq_error_iff,
    fun _ _ => decode_eq_error_iff⟩

/-- A header with the greatest value in every field, read from bytes with something in the reserved
place and more behind it. -/
theorem decode_keeps_all_greatest :
    let h : Header :=
      ⟨⟨0xFF⟩, 0xFFFFFFFFFFFFFFFF, 0xFFFFFFFF, 0xFFFFFFFFFFFFFFFF, 0xFFFFFFFFFFFFFFFF, 0xFFFFFFFF,
        0xFFFFFFFF⟩
    let bs : Bytes :=
      [0x4C, 0x4F, 0x42, 0x4A, 0x0A, 0x00, 0xFF, 0x55] ++ List.replicate 36 0xFF ++ [1, 2, 3]
    decode bs = .ok h ∧ h.encode = (bs.take size).set 7 0 := by
  intro h bs
  have hdecode : decode bs = .ok h := rfl
  exact ⟨hdecode, decode_keeps_all.2.2.1 bs h hdecode⟩

end Header

end TraceLog
