/-
**Schemas of typed payloads.**

The types whose values can be payloads are put together from integers, truth values and texts: by
optional values, lists, rows of a fixed length, records of several fields, and choices between
several forms.  A schema says how a type is put together, and with that, how its values are written.

Main definitions:

* `Format.unit`, `Format.choice` — nothing at all; one of several forms behind its number;
* `Schema`, `Schema.Value` — how a type of payloads is put together; its values;
* `Schema.format` — the format of these values;
* `Schema.Fits` — the lengths and the numbers of forms in a value fit into their words;
* `Request.writeValue`, `Event.value` — ask for a value to be written; the value in an event.
-/

import TraceLog.Payload.Types
import TraceLog.Pipeline.Call

set_option relaxedAutoImplicit false
set_option autoImplicit false

namespace TraceLog

/-! ### More formats -/

namespace Format

/-- Sixteen bits with a sign. -/
def int16 : Format Int16 :=
  uint16.map (fun n => Int16.ofInt (unfold n.toNat)) fun n => UInt16.ofNat (fold n.toInt)

/-- The one value that takes no bytes. -/
def unit : Format Unit where
  encode _ := []
  decode bs := some ((), bs)

/-- One of several forms: its number, and what belongs to the form. -/
def choice {count : Nat} {α : Fin count → Type} (form : (i : Fin count) → Format (α i)) :
    Format (Σ i, α i) where
  encode v := uint32.encode (UInt32.ofNat v.1) ++ (form v.1).encode v.2
  decode bs :=
    match uint32.decode bs with
    | none => none
    | some (index, rest) =>
        if h : index.toNat < count then
          ((form ⟨index.toNat, h⟩).decode rest).map fun (a, rest) => (⟨⟨index.toNat, h⟩, a⟩, rest)
        else none

end Format

/-! ### Schemas -/

/-- How a type of payloads is put together. -/
inductive Schema where
  | uint8
  | uint16
  | uint32
  | uint64
  | int8
  | int16
  | int32
  | int64
  | bool
  | text
  /-- A record without fields. -/
  | unit
  /-- A field, and the fields behind it. -/
  | pair (first rest : Schema)
  | option (item : Schema)
  | list (item : Schema)
  /-- As many values as the type says. -/
  | vector (item : Schema) (count : Nat)
  /-- One of several forms, each with what belongs to it. -/
  | choice (count : Nat) (form : Fin count → Schema)

namespace Schema

/-- The values of a type. -/
def Value : Schema → Type
  | .uint8 => UInt8
  | .uint16 => UInt16
  | .uint32 => UInt32
  | .uint64 => UInt64
  | .int8 => Int8
  | .int16 => Int16
  | .int32 => Int32
  | .int64 => Int64
  | .bool => Bool
  | .text => String
  | .unit => Unit
  | .pair first rest => first.Value × rest.Value
  | .option item => Option item.Value
  | .list item => List item.Value
  | .vector item count => Vector item.Value count
  | .choice _ form => Σ i, (form i).Value

/-- How the values of a type are written and read. -/
def format : (s : Schema) → Format s.Value
  | .uint8 => .uint8
  | .uint16 => .uint16
  | .uint32 => .uint32
  | .uint64 => .uint64
  | .int8 => .int8
  | .int16 => .int16
  | .int32 => .int32
  | .int64 => .int64
  | .bool => .bool
  | .text => .text
  | .unit => .unit
  | .pair first rest => .pair first.format rest.format
  | .option item => .option item.format
  | .list item => .list item.format
  | .vector item count => .vector item.format count
  | .choice _ form => .choice fun i => (form i).format

/-- The lengths in a value fit into 64 bits, and the numbers of its forms into 32. -/
def Fits : (s : Schema) → s.Value → Prop
  | .text, (s : String) => s.utf8ByteSize < UInt64.size
  | .pair first rest, (a, b) => first.Fits a ∧ rest.Fits b
  | .option item, (o : Option item.Value) => ∀ a ∈ o, item.Fits a
  | .list item, (as : List item.Value) => as.length < UInt64.size ∧ ∀ a ∈ as, item.Fits a
  | .vector item _, (v : Vector item.Value _) => ∀ a ∈ v, item.Fits a
  | .choice _ form, ⟨i, a⟩ => i.val < UInt32.size ∧ (form i).Fits a
  | _, _ => True

end Schema

/-! ### Values in events -/

variable {α : Type}

/-- Ask for a value to be written. -/
def Request.writeValue (f : Format α) (timestamp : UInt64) (a : α) : Request :=
  .write timestamp (f.encode a)

/-- The value that the payload of an event starts with. -/
def Event.value (f : Format α) (e : Event) : Except Error α := f.decodePayload e.payload

end TraceLog
