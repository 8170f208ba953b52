/-
**LZ4 blocks.**

A block is a list of sequences followed by closing literals.  A sequence gives some literal bytes
and then repeats bytes that were already produced: from a distance of at most 65535 bytes back, at
least four of them, and possibly running into what the repetition itself produces.  Counts from 15
on are continued in further bytes.

Main definitions:

* `Lz4.Sequence`, `Lz4.Block` — one repetition with the literals before it; a whole block;
* `Lz4.Block.encode` — the bytes of a block;
* `Lz4.decodeBlock` — what a block produces, read from its bytes, up to a stated size;
* `Lz4.Fault` — why bytes are not a block.

Main results:

* `Lz4.length_lt_of_decodeSequence` — each sequence takes at least one byte, so decoding ends.
-/

import TraceLog.Bytes

set_option relaxedAutoImplicit false
set_option autoImplicit false

namespace TraceLog

namespace Lz4

/-- The least number of bytes that a sequence repeats. -/
def minMatch : Nat := 4

/-- Literal bytes, followed by a repetition of what was produced `distance` bytes back. -/
structure Sequence where
  literals : Bytes
  distance : Nat
  /-- How many bytes are repeated beyond the first four. -/
  extra : Nat
  deriving DecidableEq

/-- A whole block. -/
structure Block where
  sequences : List Sequence
  closing : Bytes
  deriving DecidableEq

/-! ### Writing -/

/-- The bytes that continue a count of at least 15: as many 255 as fit, and the rest. -/
def extension (count : Nat) : Bytes :=
  if count < 15 then []
  else List.replicate ((count - 15) / 255) 255 ++ [UInt8.ofNat ((count - 15) % 255)]

/-- The byte in front of a sequence, which holds both counts as far as four bits allow. -/
def token (literals extra : Nat) : UInt8 := UInt8.ofNat (min literals 15 * 16 + min extra 15)

/-- The bytes of a sequence. -/
def Sequence.encode (s : Sequence) : Bytes :=
  token s.literals.length s.extra :: (extension s.literals.length ++ s.literals ++
    Bytes.ofNat 2 s.distance ++ extension s.extra)

/-- The bytes of the closing literals. -/
def encodeClosing (literals : Bytes) : Bytes :=
  token literals.length 0 :: (extension literals.length ++ literals)

/-- The bytes of a block. -/
def Block.encode (b : Block) : Bytes :=
  b.sequences.flatMap Sequence.encode ++ encodeClosing b.closing

/-! ### Reading -/

/-- Why bytes are not a block. -/
inductive Fault where
  | outOfInput
  | literalsOutOfBounds
  | zeroDistance
  | distanceOutOfBounds
  | outputTooSmall (limit needed : Nat)
  deriving DecidableEq

/-- The wording of a fault. -/
def Fault.message : Fault → String
  | .outOfInput => "expected another byte, found none"
  | .literalsOutOfBounds => "literal is out of bounds of the input"
  | .zeroDistance => "0 is not a valid match offset"
  | .distanceOutOfBounds => "the offset to copy is not contained in the decompressed buffer"
  | .outputTooSmall limit needed =>
      "provided output is too small for the decompressed data, " ++
        s!"actual {limit}, expected {needed}"

/-- Continue a count that stands at `total`: bytes are added until one is below 255. -/
def readExtension (total : Nat) : Bytes → Except Fault (Nat × Bytes)
  | [] => .error .outOfInput
  | b :: rest =>
      if b = 255 then readExtension (total + 255) rest else .ok (total + b.toNat, rest)

/-- A count of which the token gives `nibble`. -/
def readCount (nibble : Nat) (bs : Bytes) : Except Fault (Nat × Bytes) :=
  if nibble = 15 then readExtension 15 bs else .ok (nibble, bs)

/-- Repeat `count` bytes, each from `distance` bytes before the end. -/
def copyBack (distance : Nat) : (count : Nat) → (out : Array UInt8) → Array UInt8
  | 0, out => out
  | count + 1, out => copyBack distance count (out.push (out.getD (out.size - distance) 0))

/-- Where decoding stands after one more sequence. -/
inductive Progress where
  /-- The input is used up. -/
  | finished (out : Array UInt8)
  /-- Another sequence follows. -/
  | more (out : Array UInt8) (rest : Bytes)

/-- The repetition behind the literals of a sequence.  No more than `limit` bytes may be produced,
and nothing from before the start may be repeated. -/
def decodeMatch (limit nibble : Nat) (out : Array UInt8) : Bytes → Except Fault Progress
  | [] => .ok (.finished out)
  | [_] => .error .outOfInput
  | low :: high :: rest =>
      let distance := low.toNat + 256 * high.toNat
      if distance = 0 then .error .zeroDistance
      else
        match readCount nibble rest with
        | .error fault => .error fault
        | .ok (extra, rest) =>
            let count := extra + minMatch
            if limit < out.size + count then .error (.outputTooSmall limit (out.size + count))
            else if out.size < distance then .error .distanceOutOfBounds
            else .ok (.more (copyBack distance count out) rest)

/-- One sequence, or the closing literals. -/
def decodeSequence (limit : Nat) (out : Array UInt8) : Bytes → Except Fault Progress
  | [] => .error .outOfInput
  | first :: rest =>
      match readCount (first.toNat / 16) rest with
      | .error fault => .error fault
      | .ok (count, rest) =>
          match Bytes.splitExact? count rest with
          | none => .error .literalsOutOfBounds
          | some (literals, rest) =>
              if limit < out.size + count then
                .error (.outputTooSmall limit (out.size + count))
              else decodeMatch limit (first.toNat % 16) (out ++ literals) rest

theorem length_lt_of_readExtension {total count : Nat} {bs rest : Bytes}
    (h : readExtension total bs = .ok (count, rest)) : rest.length < bs.length := by
  induction bs generalizing total with
  | nil => simp [readExtension] at h
  | cons b bs ih =>
      rw [readExtension] at h
      split at h
      · exact Nat.lt_succ_of_lt (ih h)
      · simp only [Except.ok.injEq, Prod.mk.injEq] at h
        simp [h.2]

theorem length_le_of_readCount {nibble count : Nat} {bs rest : Bytes}
    (h : readCount nibble bs = .ok (count, rest)) : rest.length ≤ bs.length := by
  rw [readCount] at h
  split at h
  · exact Nat.le_of_lt (length_lt_of_readExtension h)
  · simp only [Except.ok.injEq, Prod.mk.injEq] at h
    simp [h.2]

theorem length_le_of_decodeMatch {limit nibble : Nat} {out out' : Array UInt8} {bs rest : Bytes}
    (h : decodeMatch limit nibble out bs = .ok (.more out' rest)) : rest.length ≤ bs.length := by
  unfold decodeMatch at h
  split at h
  · simp at h
  · simp at h
  · dsimp only at h
    split at h
    · simp at h
    · split at h
      · simp at h
      · rename_i hc
        split at h
        · simp at h
        · split at h
          · simp at h
          · simp only [Except.ok.injEq, Progress.more.injEq] at h
            have := length_le_of_readCount hc
            simp only [List.length_cons, ← h.2]
            omega

/-- Each sequence takes at least one byte. -/
theorem length_lt_of_decodeSequence {limit : Nat} {out out' : Array UInt8} {bs rest : Bytes}
    (h : decodeSequence limit out bs = .ok (.more out' rest)) : rest.length < bs.length := by
  unfold decodeSequence at h
  split at h
  · simp at h
  · split at h
    · simp at h
    · rename_i hc
      split at h
      · simp at h
      · rename_i hs
        split at h
        · simp at h
        · have h₁ := length_le_of_readCount hc
          have h₂ := congrArg List.length (Bytes.splitExact?_eq_some_iff.1 hs).2
          have h₃ := length_le_of_decodeMatch h
          simp only [List.length_append] at h₂
          simp only [List.length_cons]
          omega

/-- Decode sequences until the input is used up, starting with `out` already produced. -/
def decodeOnto (limit : Nat) (out : Array UInt8) (bs : Bytes) : Except Fault (Array UInt8) :=
  match _h : decodeSequence limit out bs with
  | .error fault => .error fault
  | .ok (.finished out) => .ok out
  | .ok (.more out rest) => decodeOnto limit out rest
termination_by bs.length
decreasing_by exact length_lt_of_decodeSequence _h

/-- What the bytes of a block produce, at most `limit` bytes. -/
def decodeBlock (limit : Nat) (bs : Bytes) : Except Fault Bytes :=
  (decodeOnto limit #[] bs).map Array.toList

end Lz4

end TraceLog
