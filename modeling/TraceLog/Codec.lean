/-
**Codecs.**

A codec turns the framed bytes of a container into the bytes that a record stores, and back.  Its
id goes into the record, so that a reader can find the codec again.  A codec that leaves its input
as it is may say so by answering with a borrowed view.

Main definitions:

* `Codec` — an id with two directions; compressing may succeed, fail or crash;
* `Codec.Faithful` — the contract between the two directions;
* `Codec.plain`, `Codec.lz4` — the built-in codecs;
* `Codec.xor`, `Codec.rejecting`, `Codec.crashing`, `Codec.halving`, `Codec.failing` — codecs that
  show how the pipeline treats a custom codec and one that misbehaves.
-/

import TraceLog.Error

set_option relaxedAutoImplicit false
set_option autoImplicit false

namespace TraceLog

/-- The answer of a codec that succeeded. -/
inductive Compressed where
  /-- A view into the input, which is stored unchanged. -/
  | borrowed (view : Bytes)
  /-- New bytes, which are stored in place of the input. -/
  | owned (bytes : Bytes)

/-- The bytes that the answer shows. -/
def Compressed.shown : Compressed → Bytes
  | .borrowed view => view
  | .owned bytes => bytes

/-- The bytes that are stored for an input. -/
def Compressed.stored (input : Bytes) : Compressed → Bytes
  | .borrowed _ => input
  | .owned bytes => bytes

/-- What becomes of a call to compress. -/
inductive Compression where
  | done (answer : Compressed)
  | failed (error : Error)
  /-- The call does not return. -/
  | crashed

/-- A pair of directions under an id. -/
structure Codec where
  id : UInt8
  compress : Bytes → Compression
  decompress : Bytes → Except Error Bytes

namespace Codec

/-- The contract of a codec: what is stored for an input is restored to it, and a borrowed view is
the whole input. -/
def Faithful (c : Codec) : Prop :=
  ∀ (input : Bytes) (answer : Compressed), c.compress input = .done answer →
    c.decompress answer.shown = .ok input ∧ answer.stored input = answer.shown

/-! ### Built-in codecs -/

/-- Bytes are stored as they are. -/
def plain (id : UInt8) : Codec where
  id := id
  compress bs := .done (.borrowed bs)
  decompress bs := .ok bs

/-- Bytes are stored as an LZ4 block behind their number. -/
def lz4 (id : UInt8) : Codec where
  id := id
  compress bs := .done (.owned (Lz4.compress bs))
  decompress bs := (Lz4.decompress bs).mapError fun fault => .compression (.block fault)

/-- The built-in codec that stores bytes as they are. -/
def identity : Codec := plain 0

/-- The codec of a file for which none is chosen. -/
def default : Codec := lz4 1

/-! ### Custom codecs -/

/-- Whether `marker` occurs in a sequence of bytes. -/
def occurs (marker : Bytes) : Bytes → Bool
  | [] => marker.isEmpty
  | b :: bs => marker.isPrefixOf (b :: bs) || occurs marker bs

/-- Every byte is combined with a key. -/
def xor (key id : UInt8) : Codec where
  id := id
  compress bs := .done (.owned (bs.map (· ^^^ key)))
  decompress bs := .ok (bs.map (· ^^^ key))

/-- Bytes in which `marker` occurs are refused, all others are stored as they are. -/
def rejecting (marker : Bytes) (id : UInt8) : Codec where
  id := id
  compress bs :=
    if occurs marker bs then .failed (.compression (.other "poisoned container"))
    else .done (.borrowed bs)
  decompress bs := .ok bs

/-- Bytes in which `marker` occurs make the call crash, all others are stored as they are. -/
def crashing (marker : Bytes) (id : UInt8) : Codec where
  id := id
  compress bs := if occurs marker bs then .crashed else .done (.borrowed bs)
  decompress bs := .ok bs

/-- Both directions show the first half of their input only. -/
def halving (id : UInt8) : Codec where
  id := id
  compress bs := .done (.borrowed (bs.take (bs.length / 2)))
  decompress bs := .ok (bs.take (bs.length / 2))

/-- Neither direction succeeds. -/
def failing (id : UInt8) : Codec where
  id := id
  compress _ := .failed .closed
  decompress _ := .error (.compression (.other "cannot decompress"))

theorem plain_faithful (id : UInt8) : (plain id).Faithful := by
  intro input answer h
  simp only [plain, Compression.done.injEq] at h
  subst h
  exact ⟨rfl, rfl⟩

end Codec

end TraceLog
