/-
**The header of a record.**

A log file is a sequence of records, each of them one container.  A record starts with a header of
44 bytes: a magic number, an object type, a byte that names the codec, the number of the container,
and what a reader has to know about the stored bytes that follow.

Main definitions:

* `CodecTag` — the byte that names the codec of a record;
* `Header`, `Header.encode`, `Header.decode` — a header and its 44 bytes, one of them reserved;
* `Header.recordLength` — how many bytes the whole record takes.
-/

import TraceLog.Bytes

set_option relaxedAutoImplicit false
set_option autoImplicit false

namespace TraceLog

/-! ### The codec of a record -/

/-- The byte that names the codec of a record, in its bits 1 to 3. -/
structure CodecTag where
  byte : UInt8
  deriving DecidableEq

namespace CodecTag

/-- The tag of a codec; of its id the three low bits are kept. -/
def ofId (id : UInt8) : CodecTag := ⟨(id &&& 0x07) <<< 1⟩

/-- The id that a tag holds, whatever its other bits are. -/
def id (tag : CodecTag) : UInt8 := (tag.byte &&& 0x0E) >>> 1

end CodecTag

/-! ### Headers -/

/-- What a record says about the container that it holds. -/
structure Header where
  tag : CodecTag
  /-- The number of the container in its file. -/
  sequence : UInt64
  /-- How many events are framed in the container. -/
  eventCount : UInt32
  firstTimestamp : UInt64
  lastTimestamp : UInt64
  /-- The number of framed bytes. -/
  rawSize : UInt32
  /-- The number of bytes that follow the header. -/
  storedSize : UInt32
  deriving DecidableEq

namespace Header

/-- The first four bytes of every record, `LOBJ`. -/
def magic : Bytes := [0x4C, 0x4F, 0x42, 0x4A]

/-- The type of a record that holds a container. -/
def containerType : Nat := 10

/-- The number of bytes of a header. -/
def size : Nat := 44

/-- The 44 bytes of a header with a given byte in the place that is reserved. -/
def encodeWith (reserved : UInt8) (h : Header) : Bytes :=
  magic ++ Bytes.ofNat 2 containerType ++ [h.tag.byte, reserved] ++
    Bytes.ofNat 8 h.sequence.toNat ++ Bytes.ofNat 4 h.eventCount.toNat ++
    Bytes.ofNat 8 h.firstTimestamp.toNat ++ Bytes.ofNat 8 h.lastTimestamp.toNat ++
    Bytes.ofNat 4 h.rawSize.toNat ++ Bytes.ofNat 4 h.storedSize.toNat

/-- The 44 bytes of a header as they are written. -/
def encode (h : Header) : Bytes := h.encodeWith 0

@[simp] theorem length_encodeWith (reserved : UInt8) (h : Header) :
    (h.encodeWith reserved).length = size := by
  simp [encodeWith, magic, size]

@[simp] theorem length_encode (h : Header) : h.encode.length = size := length_encodeWith ..

/-- Why a sequence of bytes does not start with a header. -/
inductive Fault where
  | tooShort
  | badMagic
  | unknownType (found : Nat)
  deriving DecidableEq

/-- The wording of a fault. -/
def Fault.message : Fault → String
  | .tooShort => "Buffer too small for container header"
  | .badMagic => "Invalid record magic"
  | .unknownType found => s!"Unknown object type: {found}"

/-- The fields behind the magic number and the type, each read at its offset. -/
def ofFields (bs : Bytes) : Header where
  tag := ⟨UInt8.ofNat (bs.field 6 1)⟩
  sequence := UInt64.ofNat (bs.field 8 8)
  eventCount := UInt32.ofNat (bs.field 16 4)
  firstTimestamp := UInt64.ofNat (bs.field 20 8)
  lastTimestamp := UInt64.ofNat (bs.field 28 8)
  rawSize := UInt32.ofNat (bs.field 36 4)
  storedSize := UInt32.ofNat (bs.field 40 4)

/-- The header at the front of a sequence of bytes. -/
def decode (bs : Bytes) : Except Fault Header :=
  let front : Bytes := bs.take size
  if front.length < size then .error .tooShort
  else if front.take 4 ≠ magic then .error .badMagic
  else if front.field 4 2 ≠ containerType then .error (.unknownType (front.field 4 2))
  else .ok (ofFields front)

/-- How many bytes the whole record takes. -/
def recordLength (h : Header) : Nat := size + h.storedSize.toNat

end Header

end TraceLog
