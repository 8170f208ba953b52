/-
**Formats of typed payloads.**

A typed payload is written without field names or type marks.  Bytes and truth values take one byte;
every other unsigned integer takes as few bytes as its value needs, with a leading mark that tells
how many; a signed integer is folded into an unsigned one.  Texts and lists start with their length,
optional values with a mark, and the parts of a compound value simply follow each other.

Main definitions:

* `Format` — a way to write the values of a type and to read them back from the front of some bytes;
* `Format.Lawful` — what is written is read back, whatever follows it;
* `Format.uint8` … `Format.list`, `Format.vector` — the formats of simple and of compound types.
-/

import TraceLog.Error

set_option relaxedAutoImplicit false
set_option autoImplicit false

namespace TraceLog

/-- A way to write the values of a type and to read them back. -/
structure Format (α : Type) where
  encode : α → Bytes
  /-- The value at the front, and the bytes behind it. -/
  decode : Bytes → Option (α × Bytes)

namespace Format

variable {α β : Type}

/-- What is written is read back, whatever follows it. -/
def Lawful (f : Format α) : Prop :=
  ∀ (a : α) (rest : Bytes), f.decode (f.encode a ++ rest) = some (a, rest)

/-- The value of a payload.  Bytes behind the value are ignored. -/
def decodePayload (f : Format α) (bs : Bytes) : Except Error α :=
  match f.decode bs with
  | some (a, _) => .ok a
  | none => .error (.serialization "the payload does not hold a value of the type")

/-- Values of another type, in the format of the values that stand for them. -/
def map (f : Format α) (forth : α → β) (back : β → α) : Format β where
  encode b := f.encode (back b)
  decode bs := (f.decode bs).map fun (a, rest) => (forth a, rest)

/-! ### Unsigned integers -/

/-- The mark in front of an integer of 2, 4 or 8 bytes.  A smaller first byte is the integer. -/
def mark2 : UInt8 := 251

/-- The mark in front of an integer of four bytes. -/
def mark4 : UInt8 := 252

/-- The mark in front of an integer of eight bytes. -/
def mark8 : UInt8 := 253

/-- A number below `2 ^ 64`, in as few bytes as it needs. -/
def encodeNat (n : Nat) : Bytes :=
  if n < mark2.toNat then [UInt8.ofNat n]
  else if n < UInt16.size then mark2 :: Bytes.ofNat 2 n
  else if n < UInt32.size then mark4 :: Bytes.ofNat 4 n
  else mark8 :: Bytes.ofNat 8 n

/-- A word of a given width behind its mark. -/
def decodeWord (width : Nat) (bs : Bytes) : Option (Nat × Bytes) :=
  (Bytes.splitExact? width bs).map fun (word, rest) => (word.toNat, rest)

/-- A number of a type of the given width.  It may be written with more bytes than it needs, but not
with more than its type has. -/
def decodeNat (width : Nat) : Bytes → Option (Nat × Bytes)
  | [] => none
  | b :: rest =>
      if b < mark2 then some (b.toNat, rest)
      else if b = mark2 ∧ 2 ≤ width then decodeWord 2 rest
      else if b = mark4 ∧ 4 ≤ width then decodeWord 4 rest
      else if b = mark8 ∧ 8 ≤ width then decodeWord 8 rest
      else none

/-- One byte. -/
def uint8 : Format UInt8 where
  encode b := [b]
  decode
    | [] => none
    | b :: rest => some (b, rest)

/-- Sixteen bits. -/
def uint16 : Format UInt16 where
  encode n := encodeNat n.toNat
  decode bs := (decodeNat 2 bs).map fun (n, rest) => (UInt16.ofNat n, rest)

/-- Thirty-two bits. -/
def uint32 : Format UInt32 where
  encode n := encodeNat n.toNat
  decode bs := (decodeNat 4 bs).map fun (n, rest) => (UInt32.ofNat n, rest)

/-- Sixty-four bits. -/
def uint64 : Format UInt64 where
  encode n := encodeNat n.toNat
  decode bs := (decodeNat 8 bs).map fun (n, rest) => (UInt64.ofNat n, rest)

/-- A length. -/
def length : Format Nat where
  encode := encodeNat
  decode := decodeNat 8

/-! ### Signed integers -/

/-- The unsigned number that stands for an integer: the even ones for those that are not negative,
the odd ones for the others. -/
def fold (n : Int) : Nat := if 0 ≤ n then 2 * n.toNat else 2 * (-n).toNat - 1

/-- The integer that an unsigned number stands for. -/
def unfold (n : Nat) : Int := if n % 2 = 0 then n / 2 else -(n / 2 : Int) - 1

theorem unfold_fold (n : Int) : unfold (fold n) = n := by
  unfold unfold fold
  split <;> split <;> omega

/-- Eight bits with a sign. -/
def int8 : Format Int8 := uint8.map UInt8.toInt8 Int8.toUInt8

/-- Thirty-two bits with a sign. -/
def int32 : Format Int32 :=
  uint32.map (fun n => Int32.ofInt (unfold n.toNat)) fun n => UInt32.ofNat (fold n.toInt)

/-- Sixty-four bits with a sign. -/
def int64 : Format Int64 :=
  uint64.map (fun n => Int64.ofInt (unfold n.toNat)) fun n => UInt64.ofNat (fold n.toInt)

/-! ### Compound values -/

/-- A truth value. -/
def bool : Format Bool where
  encode b := [if b then 1 else 0]
  decode
    | [] => none
    | b :: rest => if b = 0 then some (false, rest) else if b = 1 then some (true, rest) else none

/-- Two values, one after the other. -/
def pair (f : Format α) (g : Format β) : Format (α × β) where
  encode p := f.encode p.1 ++ g.encode p.2
  decode bs :=
    match f.decode bs with
    | none => none
    | some (a, rest) => (g.decode rest).map fun (b, rest) => ((a, b), rest)

/-- A value that may be missing. -/
def option (f : Format α) : Format (Option α) where
  encode
    | none => [0]
    | some a => 1 :: f.encode a
  decode
    | [] => none
    | b :: rest =>
        if b = 0 then some (none, rest)
        else if b = 1 then (f.decode rest).map fun (a, rest) => (some a, rest)
        else none

/-- A given number of values, one after the other. -/
def decodeMany (f : Format α) : (count : Nat) → Bytes → Option (List α × Bytes)
  | 0, bs => some ([], bs)
  | count + 1, bs =>
      match f.decode bs with
      | none => none
      | some (a, rest) => (decodeMany f count rest).map fun (as, rest) => (a :: as, rest)

/-- A list behind its length. -/
def list (f : Format α) : Format (List α) where
  encode as := length.encode as.length ++ as.flatMap f.encode
  decode bs :=
    match length.decode bs with
    | none => none
    | some (count, rest) => f.decodeMany count rest

/-- As many values as the type says, one after the other. -/
def vector (f : Format α) (count : Nat) : Format (Vector α count) where
  encode v := v.toList.flatMap f.encode
  decode bs :=
    match f.decodeMany count bs with
    | none => none
    | some (as, rest) =>
        if h : as.toArray.size = count then some (⟨as.toArray, h⟩, rest) else none

/-- A text, as the length of its UTF-8 form and that form. -/
def text : Format String where
  encode s := length.encode s.toUTF8.size ++ s.toUTF8.data.toList
  decode bs :=
    match length.decode bs with
    | none => none
    | some (size, rest) =>
        match Bytes.splitExact? size rest with
        | none => none
        | some (utf8, rest) =>
            (String.fromUTF8? ⟨utf8.toArray⟩).map fun s => (s, rest)

end Format

end TraceLog
