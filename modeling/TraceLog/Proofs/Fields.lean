/-
**Headers and footers, read and written.**

A header and a footer are words at fixed offsets.  This module says exactly which bytes are read as
a header or as a footer: those that the writer makes, up to the places that are reserved.  The one
reserved byte of a header and the twelve of a footer may hold anything, except that the check value
of a footer covers its twelve.

Main definitions:

* `Bytes.words` — bytes cut into words of given widths;
* `Footer.bodyWith`, `Footer.encodeWith` — a footer with given bytes in the reserved place;
* `Footer.Sound` — the version and the check value are those that a reader asks for.

Main results:

* `Bytes.toNat_ofNat` — reading a word back gives the number modulo the range of the word;
* `Bytes.drop_eq_words_append` — bytes are the words that they are cut into;
* `Header.decode_eq_ok_iff` — **the bytes that start with a header**;
* `Footer.decode_eq_ok_iff` — **the bytes that are a footer**;
* `Header.encodeWith_append_inj`, `Footer.encodeWith_inj` — nothing is lost in writing.
-/

import TraceLog.Record.Footer
import Mathlib.Algebra.GroupWithZero.Nat

set_option relaxedAutoImplicit false
set_option autoImplicit false

namespace TraceLog

/-! ### Words at offsets -/

namespace Bytes

/-- Reading a word back gives the number modulo the range of the word. -/
theorem toNat_ofNat (width n : Nat) : toNat (ofNat width n) = n % 256 ^ width := by
  induction width generalizing n with
  | zero => simp [ofNat, Nat.mod_one]
  | succ width ih =>
      have low : (UInt8.ofNat n).toNat = n % 256 := UInt8.toNat_ofNat'
      rw [ofNat, toNat_cons, ih, low, Nat.pow_succ, Nat.mul_comm (256 ^ width), Nat.mod_mul]

theorem toNat_lt (bs : Bytes) : toNat bs < 256 ^ bs.length := by
  induction bs with
  | nil => simp
  | cons b bs ih =>
      have hb : b.toNat < 256 := b.toNat_lt
      rw [toNat_cons, List.length_cons, Nat.pow_succ]
      omega

/-- Whatever stands in front of a field can be left out. -/
theorem field_append_of_le {xs ys : Bytes} {offset width : Nat} (h : xs.length ≤ offset) :
    field (xs ++ ys) offset width = field ys (offset - xs.length) width := by
  rw [field, field, List.drop_append, List.drop_eq_nil_of_le h, List.nil_append]

/-- A word is read where it stands. -/
theorem field_ofNat_append (width n : Nat) (rest : Bytes) :
    field (ofNat width n ++ rest) 0 width = n % 256 ^ width := by
  rw [field, List.drop_zero, List.take_left' (length_ofNat width n), toNat_ofNat]

theorem field_ofNat (width n : Nat) : field (ofNat width n) 0 width = n % 256 ^ width := by
  simpa using field_ofNat_append width n []

theorem field_byte (b : UInt8) (bs : Bytes) : field (b :: bs) 0 1 = b.toNat := by
  simp [field, toNat_cons]

theorem ofNat_one (n : Nat) : ofNat 1 n = [UInt8.ofNat n] := rfl

theorem field_lt (bs : Bytes) (offset width : Nat) : field bs offset width < 256 ^ width := by
  refine Nat.lt_of_lt_of_le (toNat_lt _) (Nat.pow_le_pow_right (by decide) ?_)
  exact List.length_take_le ..

theorem toNat_uint16_field (bs : Bytes) (offset : Nat) :
    (UInt16.ofNat (field bs offset 2)).toNat = field bs offset 2 :=
  UInt16.toNat_ofNat_of_lt' (field_lt bs offset 2)

theorem toNat_uint32_field (bs : Bytes) (offset : Nat) :
    (UInt32.ofNat (field bs offset 4)).toNat = field bs offset 4 :=
  UInt32.toNat_ofNat_of_lt' (field_lt bs offset 4)

theorem toNat_uint64_field (bs : Bytes) (offset : Nat) :
    (UInt64.ofNat (field bs offset 8)).toNat = field bs offset 8 :=
  UInt64.toNat_ofNat_of_lt' (field_lt bs offset 8)

/-- The words of the given widths that stand from an offset on, one behind the other. -/
def words (bs : Bytes) (offset : Nat) : (widths : List Nat) → Bytes
  | [] => []
  | width :: widths => ofNat width (bs.field offset width) ++ words bs (offset + width) widths

/-- From an offset on, bytes are a word and what follows it. -/
theorem drop_eq_ofNat_append {bs : Bytes} {offset width : Nat} (h : offset + width ≤ bs.length) :
    bs.drop offset = ofNat width (bs.field offset width) ++ bs.drop (offset + width) := by
  have hlen : ((bs.drop offset).take width).length = width := by
    rw [List.length_take, List.length_drop]
    omega
  have hword : ofNat width (bs.field offset width) = (bs.drop offset).take width := by
    have := ofNat_toNat ((bs.drop offset).take width)
    rwa [hlen] at this
  rw [hword, ← List.drop_drop, List.take_append_drop]

/-- **Bytes are the words that they are cut into**, and what follows these. -/
theorem drop_eq_words_append (bs : Bytes) (widths : List Nat) (offset : Nat)
    (h : offset + widths.sum ≤ bs.length) :
    bs.drop offset = words bs offset widths ++ bs.drop (offset + widths.sum) := by
  induction widths generalizing offset with
  | nil => simp [words]
  | cons width widths ih =>
      rw [List.sum_cons] at h
      have hfit : offset + width ≤ bs.length := by omega
      rw [words, drop_eq_ofNat_append hfit, ih (offset + width) (by omega), List.sum_cons,
        List.append_assoc, Nat.add_assoc]

end Bytes

/-! ### Headers -/

namespace Header

@[simp] theorem length_magic : magic.length = 4 := rfl

/-- The fields of a written header are those of the header. -/
theorem ofFields_encodeWith (reserved : UInt8) (h : Header) :
    ofFields (h.encodeWith reserved) = h := by
  simp (disch := simp [magic]) only [ofFields, encodeWith, List.append_assoc,
    Bytes.field_append_of_le, length_magic, Bytes.length_ofNat, List.length_cons, List.length_nil,
    Nat.reduceAdd, Nat.reduceSub, Bytes.field_ofNat_append, Bytes.field_ofNat]
  simp [Bytes.field_byte]

/-- **A header is read back**, whatever its reserved byte is and whatever follows. -/
theorem decode_encodeWith_append (reserved : UInt8) (h : Header) (rest : Bytes) :
    decode (h.encodeWith reserved ++ rest) = .ok h := by
  have hfront : (h.encodeWith reserved ++ rest).take size = h.encodeWith reserved :=
    List.take_left' (length_encodeWith reserved h)
  have hmagic : (h.encodeWith reserved).take 4 = magic := by
    simp [encodeWith, magic]
  have htype : Bytes.field (h.encodeWith reserved) 4 2 = containerType := by
    simp (disch := simp [magic]) only [encodeWith, List.append_assoc, Bytes.field_append_of_le,
      length_magic, Nat.reduceSub, Bytes.field_ofNat_append]
    rfl
  rw [decode]
  simp only [hfront, length_encodeWith, hmagic, htype, ofFields_encodeWith]
  simp

/-- Bytes with the magic number and the type of a header are the header of their fields. -/
theorem eq_encodeWith {front : Bytes} (hlen : front.length = size)
    (hmagic : front.take 4 = magic) (htype : front.field 4 2 = containerType) :
    front = (ofFields front).encodeWith (UInt8.ofNat (front.field 7 1)) := by
  -- Behind the magic number a header is cut into words: the type, the tag, the reserved byte and
  -- the six numbers.
  have hwords : front.drop 4 = front.words 4 [2, 1, 1, 8, 4, 8, 8, 4, 4] ++ front.drop 44 :=
    Bytes.drop_eq_words_append front _ 4 (by simp [hlen, size])
  have hend : front.drop 44 = [] := List.drop_eq_nil_of_le (Nat.le_of_eq hlen)
  calc front = front.take 4 ++ front.drop 4 := (List.take_append_drop 4 front).symm
    _ = magic ++ front.words 4 [2, 1, 1, 8, 4, 8, 8, 4, 4] := by
      rw [hmagic, hwords, hend, List.append_nil]
    _ = (ofFields front).encodeWith (UInt8.ofNat (front.field 7 1)) := by
      simp only [Bytes.words, encodeWith, ofFields, htype, Bytes.toNat_uint64_field,
        Bytes.toNat_uint32_field, Bytes.ofNat_one, List.append_assoc, List.append_nil,
        List.cons_append, List.nil_append, Nat.reduceAdd]

/-- **The bytes that start with a header** are those that the writer makes, up to the reserved
byte. -/
theorem decode_eq_ok_iff {bs : Bytes} {h : Header} :
    decode bs = .ok h ↔ ∃ reserved rest, bs = h.encodeWith reserved ++ rest := by
  constructor
  · intro hd
    simp only [decode] at hd
    split at hd
    · simp at hd
    rename_i hshort
    split at hd
    · simp at hd
    rename_i hmagic
    split at hd
    · simp at hd
    rename_i htype
    simp only [Except.ok.injEq] at hd
    have hlen : (bs.take size).length = size := by
      have := List.length_take_le size bs
      omega
    have hfront := eq_encodeWith hlen (Decidable.of_not_not hmagic)
      (Decidable.of_not_not htype)
    rw [hd] at hfront
    exact ⟨_, bs.drop size, by rw [← hfront, List.take_append_drop]⟩
  · rintro ⟨reserved, rest, rfl⟩
    exact decode_encodeWith_append reserved h rest

/-- The reserved byte of a written header. -/
theorem field_reserved (reserved : UInt8) (h : Header) :
    Bytes.field (h.encodeWith reserved) 7 1 = reserved.toNat := by
  simp (disch := simp [magic]) only [encodeWith, List.append_assoc, Bytes.field_append_of_le,
    length_magic, Bytes.length_ofNat, Nat.reduceSub]
  simp [Bytes.field, Bytes.toNat_cons]

/-- **Nothing is lost in writing a header**: it can be told from the bytes, and so can its reserved
byte and what follows. -/
theorem encodeWith_append_inj {reserved reserved' : UInt8} {h h' : Header} {rest rest' : Bytes}
    (heq : h.encodeWith reserved ++ rest = h'.encodeWith reserved' ++ rest') :
    reserved = reserved' ∧ h = h' ∧ rest = rest' := by
  have hlen : (h.encodeWith reserved).length = (h'.encodeWith reserved').length := by simp
  obtain ⟨hfront, hrest⟩ := List.append_inj heq hlen
  have hbyte : reserved.toNat = reserved'.toNat := by
    rw [← field_reserved reserved h, hfront, field_reserved]
  have hheader : h = h' := by
    rw [← ofFields_encodeWith reserved h, hfront, ofFields_encodeWith]
  exact ⟨UInt8.toNat_inj.1 hbyte, hheader, hrest⟩

end Header

/-! ### Footers -/

namespace Footer

@[simp] theorem length_magic : magic.length = 4 := rfl

/-- The bytes that the check value covers, with given bytes in the reserved place. -/
def bodyWith (reserved : Bytes) (version flags : UInt16) (t : Totals) : Bytes :=
  magic ++ Bytes.ofNat 2 version.toNat ++ Bytes.ofNat 2 flags.toNat ++
    Bytes.ofNat 8 t.containers.toNat ++ Bytes.ofNat 8 t.events.toNat ++
    Bytes.ofNat 8 t.rawBytes.toNat ++ Bytes.ofNat 8 t.firstTimestamp.toNat ++
    Bytes.ofNat 8 t.lastTimestamp.toNat ++ reserved

/-- The number of reserved bytes. -/
def reservedSize : Nat := 12

/-- A footer with given bytes in the reserved place. -/
def encodeWith (reserved : Bytes) (f : Footer) : Bytes :=
  bodyWith reserved f.version f.flags f.totals ++ Bytes.ofNat 4 f.checksum.toNat

/-- The version and the check value are those that a reader asks for. -/
structure Sound (reserved : Bytes) (f : Footer) : Prop where
  length_reserved : reserved.length = reservedSize
  version : f.version = currentVersion
  checksum : f.checksum = crc32 (bodyWith reserved f.version f.flags f.totals)

theorem encode_eq_encodeWith (f : Footer) :
    f.encode = f.encodeWith (List.replicate reservedSize 0) := rfl

theorem length_bodyWith {reserved : Bytes} (h : reserved.length = reservedSize)
    (version flags : UInt16) (t : Totals) : (bodyWith reserved version flags t).length = 60 := by
  simp [bodyWith, h, reservedSize]

theorem length_encodeWith {reserved : Bytes} (h : reserved.length = reservedSize) (f : Footer) :
    (f.encodeWith reserved).length = size := by
  simp [encodeWith, length_bodyWith h, size]

/-- **A footer that is written is sound.** -/
theorem sound_ofTotals (t : Totals) (truncated : Bool) :
    Sound (List.replicate reservedSize 0) (ofTotals t truncated) where
  length_reserved := List.length_replicate
  version := rfl
  checksum := rfl

/-- The flag says whether the file was aborted. -/
@[simp] theorem isTruncated_ofTotals (t : Totals) (truncated : Bool) :
    (ofTotals t truncated).isTruncated = truncated := by
  cases truncated with
  | false => simp [isTruncated, ofTotals]
  | true => simp [isTruncated, ofTotals, truncatedFlag]

/-- The fields of a footer in its bytes are those of the footer. -/
theorem ofFields_encodeWith {reserved : Bytes} (hlen : reserved.length = reservedSize)
    (f : Footer) : ofFields (f.encodeWith reserved) = f := by
  simp (disch := simp [magic, hlen, reservedSize]) only [ofFields, encodeWith, bodyWith,
    List.append_assoc, Bytes.field_append_of_le, length_magic, Bytes.length_ofNat, hlen,
    reservedSize, Nat.reduceSub, Bytes.field_ofNat_append, Bytes.field_ofNat]
  simp

/-- Bytes with the magic number of a footer are the footer of their fields. -/
theorem eq_encodeWith {bs : Bytes} (hlen : bs.length = size) (hmagic : bs.take 4 = magic) :
    bs = (ofFields bs).encodeWith ((bs.drop 48).take reservedSize) := by
  -- The reserved bytes are no words, so a footer is cut on both sides of them.
  have hwords : bs.drop 4 = bs.words 4 [2, 2, 8, 8, 8, 8, 8] ++ bs.drop 48 :=
    Bytes.drop_eq_words_append bs _ 4 (by simp [hlen, size])
  have hreserved : bs.drop 48 = (bs.drop 48).take reservedSize ++ bs.drop 60 :=
    ((bs.drop 48).take_append_drop reservedSize).symm.trans (congrArg _ List.drop_drop)
  have hcheck : bs.drop 60 = bs.words 60 [4] ++ bs.drop 64 :=
    Bytes.drop_eq_words_append bs _ 60 (by simp [hlen, size])
  have hend : bs.drop 64 = [] := List.drop_eq_nil_of_le (Nat.le_of_eq hlen)
  calc bs = bs.take 4 ++ bs.drop 4 := (List.take_append_drop 4 bs).symm
    _ = magic ++ (bs.words 4 [2, 2, 8, 8, 8, 8, 8] ++
          ((bs.drop 48).take reservedSize ++ bs.words 60 [4])) := by
      rw [hmagic, hwords, ← List.append_nil (bs.words 60 [4]), ← hend, ← hcheck, ← hreserved]
    _ = (ofFields bs).encodeWith ((bs.drop 48).take reservedSize) := by
      simp only [Bytes.words, encodeWith, bodyWith, ofFields, Bytes.toNat_uint64_field,
        Bytes.toNat_uint32_field, Bytes.toNat_uint16_field, List.append_assoc, List.append_nil,
        Nat.reduceAdd]

/-- **The bytes that are a footer**: those that the writer makes, up to the reserved bytes, which
the check value covers. -/
theorem decode_eq_ok_iff {bs : Bytes} {f : Footer} :
    decode bs = .ok f ↔ ∃ reserved, Sound reserved f ∧ bs = f.encodeWith reserved := by
  constructor
  · intro hd
    simp only [decode] at hd
    split at hd
    · simp at hd
    rename_i hlen
    split at hd
    · simp at hd
    rename_i hmagic
    split at hd
    · simp at hd
    rename_i hversion
    split at hd
    · simp at hd
    rename_i hcheck
    simp only [Except.ok.injEq] at hd
    replace hlen : bs.length = size := Decidable.of_not_not hlen
    have hbytes := eq_encodeWith hlen (Decidable.of_not_not hmagic)
    have hreserved : ((bs.drop 48).take reservedSize).length = reservedSize := by
      simp [hlen, size, reservedSize]
    -- What the check value covers is the footer up to the check value itself.
    have hbody : bs.take 60 =
        bodyWith ((bs.drop 48).take reservedSize) (ofFields bs).version (ofFields bs).flags
          (ofFields bs).totals := by
      conv => lhs; rw [hbytes]
      exact List.take_left' (length_bodyWith hreserved ..)
    have hsum : (ofFields bs).checksum = crc32 (bs.take 60) := Decidable.of_not_not hcheck
    rw [hbody] at hsum
    rw [hd] at hbytes hsum hversion
    exact ⟨_, ⟨hreserved, Decidable.of_not_not hversion, hsum⟩, hbytes⟩
  · rintro ⟨reserved, sound, rfl⟩
    have hlen := length_encodeWith sound.length_reserved f
    have hmagic : (f.encodeWith reserved).take 4 = magic := by
      simp [encodeWith, bodyWith, magic]
    have hbody : (f.encodeWith reserved).take 60 = bodyWith reserved f.version f.flags f.totals :=
      List.take_left' (length_bodyWith sound.length_reserved ..)
    have hfields := ofFields_encodeWith sound.length_reserved f
    simp only [decode, hlen, hmagic, hfields, hbody, sound.version]
    simp [← sound.version, ← sound.checksum]

/-- **Nothing is lost in writing a footer**: it can be told from the bytes, and so can the reserved
ones. -/
theorem encodeWith_inj {reserved reserved' : Bytes} {f f' : Footer}
    (hlen : reserved.length = reservedSize) (hlen' : reserved'.length = reservedSize)
    (heq : f.encodeWith reserved = f'.encodeWith reserved') : reserved = reserved' ∧ f = f' := by
  have hfooter : f = f' := by
    rw [← ofFields_encodeWith hlen f, heq, ofFields_encodeWith hlen']
  subst hfooter
  have hbody := List.append_inj_left' heq (by simp)
  exact ⟨List.append_cancel_left hbody, rfl⟩

end Footer

end TraceLog
