/-
**LZ4 with the length in front.**

The compressed form of some bytes is their number as a four-byte word, followed by one block.

Main definitions:

* `Lz4.compress`, `Lz4.decompress` — the two directions.
-/

import TraceLog.Lz4.Matcher

set_option relaxedAutoImplicit false
set_option autoImplicit false

namespace TraceLog

namespace Lz4

/-- The number of bytes, followed by a block that produces them. -/
def compress (bs : Bytes) : Bytes :=
  Bytes.ofNat 4 bs.length ++ (blockOf bs.toArray).encode

/-- What a compressed form stands for: at most as many bytes as it states. -/
def decompress (bs : Bytes) : Except Fault Bytes :=
  match Bytes.splitExact? 4 bs with
  | none => .error .outOfInput
  | some (length, block) => decodeBlock length.toNat block

end Lz4

end TraceLog
