/-
**Finding a codec by its id.**

Main definitions:

* `Registry.builtin` — the built-in codecs;
* `Registry.register` — one more codec, in place of an earlier one with the same id;
* `Registry.get` — the codec of an id;
* `Registry.nameOf` — the name of an id in reports.
-/

import TraceLog.Codec

set_option relaxedAutoImplicit false
set_option autoImplicit false

namespace TraceLog

/-- The codecs that a reader knows, the latest one first. -/
structure Registry where
  codecs : List Codec

namespace Registry

/-- The built-in codecs. -/
def builtin : Registry := ⟨[Codec.default, Codec.identity]⟩

/-- One more codec; an earlier one with the same id is no longer found. -/
def register (r : Registry) (c : Codec) : Except Error Registry :=
  if maxCodecId < c.id.toNat then .error (.config (.codecId c.id))
  else .ok ⟨c :: r.codecs⟩

/-- Several codecs, one after the other; the first one that does not fit is the error. -/
def registerAll (r : Registry) (cs : List Codec) : Except Error Registry :=
  cs.foldlM register r

/-- The codec of an id. -/
def get (r : Registry) (id : UInt8) : Except Error Codec :=
  match r.codecs.find? (·.id = id) with
  | some c => .ok c
  | none => .error (.compression (.unregistered id))

/-- The name of an id in reports. -/
def nameOf (id : UInt8) : String :=
  if id = 0 then "None" else if id = 1 then "LZ4" else s!"Custom({id})"

/-- The codec registered last is the one found under its id. -/
theorem get_register {r r' : Registry} {c : Codec} (h : r.register c = .ok r') :
    r'.get c.id = .ok c := by
  unfold register at h
  split at h
  · simp at h
  · simp only [Except.ok.injEq] at h
    subst h
    simp [get]

end Registry

end TraceLog
