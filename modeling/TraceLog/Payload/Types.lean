/-
**Types of payloads.**

Main definitions:

* `CanFrame` — a frame of a CAN bus;
* `Sample`, `Shape` — a measurement with one field of each kind; a choice between three forms;
* `CanFrame.format`, `Sample.format`, `Shape.format` — their formats;
* `Payload.unencodable` — what becomes of a value that has no encoding.
-/

import TraceLog.Payload.Format

set_option relaxedAutoImplicit false
set_option autoImplicit false

namespace TraceLog

/-- A frame of a CAN bus. -/
structure CanFrame where
  channel : UInt16
  id : UInt32
  dataLength : UInt8
  data : Vector UInt8 8
  deriving DecidableEq

/-- The fields of a frame in their order. -/
def CanFrame.format : Format CanFrame :=
  Format.map
    (.pair .uint16 (.pair .uint32 (.pair .uint8 (.vector .uint8 8))))
    (fun (channel, id, dataLength, data) => ⟨channel, id, dataLength, data⟩)
    (fun frame => (frame.channel, frame.id, frame.dataLength, frame.data))

/-- A choice between three forms. -/
inductive Shape where
  | empty
  | number (n : Int64)
  | pair (a : UInt8) (b : String)
  deriving DecidableEq

/-- The index of the form, and what belongs to the form. -/
def Shape.format : Format Shape where
  encode
    | .empty => Format.uint32.encode 0
    | .number n => Format.uint32.encode 1 ++ Format.int64.encode n
    | .pair a b => Format.uint32.encode 2 ++ (Format.pair .uint8 .text).encode (a, b)
  decode bs :=
    match Format.uint32.decode bs with
    | none => none
    | some (index, rest) =>
        if index = 0 then some (.empty, rest)
        else if index = 1 then
          (Format.int64.decode rest).map fun (n, rest) => (.number n, rest)
        else if index = 2 then
          ((Format.pair .uint8 .text).decode rest).map fun ((a, b), rest) => (.pair a b, rest)
        else none

/-- A measurement with one field of each kind. -/
structure Sample where
  flag : Bool
  small : Int8
  signed : Int32
  big : UInt64
  name : String
  list : List UInt16
  optional : Option UInt32
  shape : Shape
  deriving DecidableEq

/-- The fields of a measurement in their order. -/
def Sample.format : Format Sample :=
  Format.map
    (.pair .bool (.pair .int8 (.pair .int32 (.pair .uint64 (.pair .text (.pair (.list .uint16)
      (.pair (.option .uint32) Shape.format)))))))
    (fun (flag, small, signed, big, name, list, optional, shape) =>
      ⟨flag, small, signed, big, name, list, optional, shape⟩)
    (fun s => (s.flag, s.small, s.signed, s.big, s.name, s.list, s.optional, s.shape))

/-- What becomes of a value that has no encoding. -/
def Payload.unencodable : Except Error Bytes := .error (.serialization "the value has no encoding")

end TraceLog
