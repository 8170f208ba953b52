/-
**The footer of a finished file.**

A file that was closed ends with 64 bytes: a magic number, a format version, flags, the totals over
all records, and the check value of everything before it in the footer.  A file that ends without a
footer is unfinished, and one whose footer carries the truncated flag was aborted.

Main definitions:

* `Footer`, `Footer.encode`, `Footer.decode` — a footer and its 64 bytes;
* `Footer.ofTotals` — the footer of a file with given totals;
* `Footer.isTruncated` — whether work was discarded before the file was finished.
-/

import TraceLog.Checksum
import TraceLog.Hex
import TraceLog.Record.Totals

set_option relaxedAutoImplicit false
set_option autoImplicit false

namespace TraceLog

/-- The end of a finished file. -/
structure Footer where
  version : UInt16
  flags : UInt16
  totals : Totals
  /-- The check value of the first 60 bytes. -/
  checksum : UInt32
  deriving DecidableEq

namespace Footer

/-- The first four bytes of every footer, `BLOG`. -/
def magic : Bytes := [0x42, 0x4C, 0x4F, 0x47]

/-- The version of the format. -/
def currentVersion : UInt16 := 1

/-- The number of bytes of a footer. -/
def size : Nat := 64

/-- The flag of a file that was aborted. -/
def truncatedFlag : UInt16 := 1

/-- Whether work was discarded before the file was finished. -/
def isTruncated (f : Footer) : Bool := f.flags &&& truncatedFlag != 0

/-! ### Writing -/

/-- The bytes of a footer that its check value covers. -/
def body (version flags : UInt16) (t : Totals) : Bytes :=
  magic ++ Bytes.ofNat 2 version.toNat ++ Bytes.ofNat 2 flags.toNat ++
    Bytes.ofNat 8 t.containers.toNat ++ Bytes.ofNat 8 t.events.toNat ++
    Bytes.ofNat 8 t.rawBytes.toNat ++ Bytes.ofNat 8 t.firstTimestamp.toNat ++
    Bytes.ofNat 8 t.lastTimestamp.toNat ++ List.replicate 12 0

/-- The 64 bytes of a footer. -/
def encode (f : Footer) : Bytes :=
  body f.version f.flags f.totals ++ Bytes.ofNat 4 f.checksum.toNat

@[simp] theorem length_body (version flags : UInt16) (t : Totals) :
    (body version flags t).length = 60 := by
  simp [body, magic]

@[simp] theorem length_encode (f : Footer) : f.encode.length = size := by
  simp [encode, size]

/-- The footer of a file with the given totals. -/
def ofTotals (t : Totals) (truncated : Bool) : Footer :=
  let flags := if truncated then truncatedFlag else 0
  ⟨currentVersion, flags, t, crc32 (body currentVersion flags t)⟩

/-! ### Reading -/

/-- Why a sequence of bytes is not a footer. -/
inductive Fault where
  | wrongSize (found : Nat)
  | badMagic
  | unsupportedVersion (found : Nat)
  | checksumMismatch (stored computed : UInt32)
  deriving DecidableEq

/-- The wording of a fault. -/
def Fault.message : Fault → String
  | .wrongSize found => s!"Footer must be {size} bytes, got {found}"
  | .badMagic => "Invalid footer magic"
  | .unsupportedVersion found => s!"Unsupported version: {found}"
  | .checksumMismatch stored computed =>
      "Footer checksum mismatch: expected 0x" ++ Hex.ofNat 8 stored.toNat ++
        ", got 0x" ++ Hex.ofNat 8 computed.toNat

/-- The fields behind the magic number, each read at its offset. -/
def ofFields (bs : Bytes) : Footer where
  version := UInt16.ofNat (bs.field 4 2)
  flags := UInt16.ofNat (bs.field 6 2)
  totals :=
    { containers := UInt64.ofNat (bs.field 8 8)
      events := UInt64.ofNat (bs.field 16 8)
      rawBytes := UInt64.ofNat (bs.field 24 8)
      firstTimestamp := UInt64.ofNat (bs.field 32 8)
      lastTimestamp := UInt64.ofNat (bs.field 40 8) }
  checksum := UInt32.ofNat (bs.field 60 4)

/-- The footer that a sequence of bytes is. -/
def decode (bs : Bytes) : Except Fault Footer :=
  if bs.length ≠ size then .error (.wrongSize bs.length)
  else if bs.take 4 ≠ magic then .error .badMagic
  else
    let footer := ofFields bs
    if footer.version ≠ currentVersion then
      .error (.unsupportedVersion footer.version.toNat)
    else if footer.checksum ≠ crc32 (bs.take 60) then
      .error (.checksumMismatch footer.checksum (crc32 (bs.take 60)))
    else .ok footer

end Footer

end TraceLog
