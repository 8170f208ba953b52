/-
**Bytes collected piece by piece.**

A spool gathers the bytes of an open container, of a write buffer or of a file.  Appending costs
the same however much has been gathered, because the pieces are kept apart, the newest first, and
are joined only when the bytes are asked for.

Main definitions:

* `Spool` — the pieces with their total size;
* `Spool.append`, `Spool.toBytes` — add one more piece; everything gathered so far.

Main results:

* `Spool.toBytes_append` — appending a piece appends its bytes;
* `Spool.length_toBytes` — the recorded size is the number of bytes.
-/

import TraceLog.Bytes

set_option relaxedAutoImplicit false
set_option autoImplicit false

namespace TraceLog

/-- Bytes collected piece by piece, the newest piece first. -/
structure Spool where
  pieces : List Bytes
  size : Nat
  size_eq : size = pieces.flatten.length

namespace Spool

/-- Nothing collected yet. -/
def empty : Spool := ⟨[], 0, rfl⟩

instance : Inhabited Spool := ⟨empty⟩

/-- Add one more piece. -/
def append (s : Spool) (bs : Bytes) : Spool :=
  ⟨bs :: s.pieces, bs.length + s.size, by simp [s.size_eq]⟩

/-- A spool that starts out with the given bytes. -/
def ofBytes (bs : Bytes) : Spool := empty.append bs

/-- Everything collected so far, in the order in which it was added. -/
def toBytes (s : Spool) : Bytes := s.pieces.reverse.flatten

/-- The bytes collected behind the first `offset` ones. -/
def after (s : Spool) (offset : Nat) : Bytes := s.toBytes.drop offset

@[simp] theorem toBytes_empty : empty.toBytes = [] := rfl

@[simp] theorem size_empty : empty.size = 0 := rfl

@[simp] theorem toBytes_append (s : Spool) (bs : Bytes) :
    (s.append bs).toBytes = s.toBytes ++ bs := by
  simp [toBytes, append]

@[simp] theorem size_append (s : Spool) (bs : Bytes) :
    (s.append bs).size = s.size + bs.length := Nat.add_comm ..

@[simp] theorem toBytes_ofBytes (bs : Bytes) : (ofBytes bs).toBytes = bs := by
  simp [ofBytes]

/-- The recorded size is the number of bytes. -/
@[simp] theorem length_toBytes (s : Spool) : s.toBytes.length = s.size := by
  simp [toBytes, s.size_eq, List.length_flatten]

end Spool

end TraceLog
