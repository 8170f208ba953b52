/-
**Reading blocks.**

A decoder has no table and makes no choices: from the bytes of a sequence it reads back the counts,
the literals and the distance.  If the sequence fits an input at some position, in that its literals
stand there and the bytes behind them occurred at the distance before, then the decoder goes on from
what it has produced up to this position to what stands in front of the next one.  This holds for
repetitions that run into themselves as well, because bytes are copied one by one.  Whatever bytes
are decoded, no more is produced than was stated.

Main definitions:

* `Lz4.Sequence.Fits` — a sequence describes an input from a position on;
* `Lz4.Covers` — some sequences describe an input from its start up to a position.

Main results:

* `Lz4.readCount_extension` — a count is read back;
* `Lz4.copyBack_extract` — **a repetition that agrees with the input reproduces it**;
* `Lz4.Covers.decodeBlock_encode` — **a block that covers an input is decoded to it**;
* `Lz4.length_le_of_decodeBlock` — **no more is produced than was stated**.
-/

import TraceLog.Lz4.Matcher
import TraceLog.Proofs.Fields

set_option relaxedAutoImplicit false
set_option autoImplicit false

namespace TraceLog

namespace Lz4

/-! ### Counts -/

/-- The bytes that continue a count are added up to it. -/
theorem readExtension_append {n : Nat} (hn : n < 255) (fulls total : Nat) (rest : Bytes) :
    readExtension total (List.replicate fulls 255 ++ UInt8.ofNat n :: rest) =
      .ok (total + 255 * fulls + n, rest) := by
  induction fulls generalizing total with
  | zero =>
      have hbyte : (UInt8.ofNat n).toNat = n := by
        rw [UInt8.toNat_ofNat']
        omega
      have hlast : UInt8.ofNat n ≠ 255 := by
        intro h
        rw [h] at hbyte
        change 255 = n at hbyte
        omega
      rw [List.replicate_zero, List.nil_append, readExtension, if_neg hlast, hbyte]
      rfl
  | succ fulls ih =>
      rw [List.replicate_succ, List.cons_append, readExtension, if_pos rfl, ih]
      congr 2
      omega

/-- **A count is read back** from its four bits and the bytes that continue it. -/
theorem readCount_extension (n : Nat) (rest : Bytes) :
    readCount (min n 15) (extension n ++ rest) = .ok (n, rest) := by
  unfold readCount extension
  by_cases hn : n < 15
  · rw [if_pos hn, if_neg (by omega), Nat.min_eq_left (by omega), List.nil_append]
  · rw [if_neg hn, if_pos (by omega), List.append_assoc, List.singleton_append,
      readExtension_append (Nat.mod_lt _ (by decide))]
    congr 2
    omega

/-- The byte in front of a sequence holds both counts. -/
theorem toNat_token (literals extra : Nat) :
    (token literals extra).toNat / 16 = min literals 15 ∧
      (token literals extra).toNat % 16 = min extra 15 := by
  have hbyte : (token literals extra).toNat = min literals 15 * 16 + min extra 15 := by
    rw [token, UInt8.toNat_ofNat']
    omega
  rw [hbyte]
  omega

/-! ### Repetitions -/

variable {input : Array UInt8} {start : Nat}

theorem byteAt_extract {p : Nat} (hp : p < start) (within : start ≤ input.size) :
    byteAt (input.extract 0 start) p = byteAt input p := by
  have hinput : p < input.size := by omega
  have hfront : p < min start input.size := by omega
  simp only [byteAt, Array.getD, Array.size_extract, Nat.sub_zero, hfront, hinput, dif_pos]
  simp

theorem push_byteAt (hstart : start < input.size) :
    (input.extract 0 start).push (byteAt input start) = input.extract 0 (start + 1) := by
  have hbyte : byteAt input start = input[start] := by simp [byteAt, Array.getD, hstart]
  rw [hbyte, Array.push_extract_getElem hstart, Nat.zero_min]

/-- **A repetition that agrees with the input reproduces it.**  The induction is on the number of
bytes: what was copied is in front of the rest, so that a repetition may run into itself. -/
theorem copyBack_extract {distance count : Nat} (positive : 0 < distance)
    (reaches : distance ≤ start) (within : start + count ≤ input.size)
    (repeats : ∀ i < count, byteAt input (start + i) = byteAt input (start + i - distance)) :
    copyBack distance count (input.extract 0 start) = input.extract 0 (start + count) := by
  induction count generalizing start with
  | zero => rfl
  | succ count ih =>
      have hsize : (input.extract 0 start).size = start := by
        rw [Array.size_extract]
        omega
      have hcopied : (input.extract 0 start).getD (start - distance) 0 = byteAt input start :=
        (byteAt_extract (by omega) (by omega)).trans (repeats 0 (by omega)).symm
      rw [copyBack, hsize, hcopied, push_byteAt (by omega), ih (by omega) (by omega) fun i hi => ?_]
      · congr 1
        omega
      · have hagree := repeats (i + 1) (by omega)
        rwa [show start + (i + 1) = start + 1 + i by omega] at hagree

/-! ### Sequences -/

/-- The literals are read back, and the rest is the repetition behind them. -/
theorem decodeSequence_literals {limit : Nat} {out : Array UInt8} {literals : Bytes}
    (room : out.size + literals.length ≤ limit) (extra : Nat) (rest : Bytes) :
    decodeSequence limit out
        (token literals.length extra :: (extension literals.length ++ (literals ++ rest))) =
      decodeMatch limit (min extra 15) (out ++ literals) rest := by
  obtain ⟨hliterals, hextra⟩ := toNat_token literals.length extra
  rw [decodeSequence, hliterals, hextra, readCount_extension]
  dsimp only
  rw [Bytes.splitExact?_append]
  dsimp only
  rw [if_neg (Nat.not_lt.2 room)]

/-- The distance and the count of a repetition are read back, and it is carried out. -/
theorem decodeMatch_repetition {limit distance extra : Nat} {out : Array UInt8}
    (positive : 0 < distance) (near : distance ≤ maxDistance) (reaches : distance ≤ out.size)
    (room : out.size + (extra + minMatch) ≤ limit) (rest : Bytes) :
    decodeMatch limit (min extra 15) out (Bytes.ofNat 2 distance ++ (extension extra ++ rest)) =
      .ok (.more (copyBack distance (extra + minMatch) out) rest) := by
  have hword := Bytes.toNat_ofNat 2 distance
  rw [Nat.mod_eq_of_lt (Nat.lt_of_le_of_lt near (by decide))] at hword
  change (UInt8.ofNat distance).toNat + 256 * (UInt8.ofNat (distance / 256)).toNat = distance
    at hword
  change decodeMatch limit _ out
    (UInt8.ofNat distance :: UInt8.ofNat (distance / 256) :: (extension extra ++ rest)) = _
  rw [decodeMatch, hword, if_neg (Nat.ne_of_gt positive), readCount_extension]
  dsimp only
  rw [if_neg (Nat.not_lt.2 room), if_neg (Nat.not_lt.2 reaches)]

/-- A sequence describes an input from a position on: its literals stand there, and the bytes behind
them occurred at its distance before. -/
structure Sequence.Fits (input : Array UInt8) (start : Nat) (s : Sequence) : Prop where
  literals_eq : s.literals = (input.extract start (start + s.literals.length)).toList
  positive : 0 < s.distance
  near : s.distance ≤ maxDistance
  reaches : s.distance ≤ start + s.literals.length
  within : s.stop start ≤ input.size
  repeats : ∀ i < s.extra + minMatch,
    byteAt input (start + s.literals.length + i) =
      byteAt input (start + s.literals.length + i - s.distance)

/-- What stands from one position to another comes behind what stands in front of the first. -/
theorem extract_append_toList (input : Array UInt8) {start stop : Nat} (h : start ≤ stop) :
    input.extract 0 start ++ (input.extract start stop).toList = input.extract 0 stop := by
  have hparts : input.extract 0 start ++ input.extract start stop = input.extract 0 stop := by
    rw [Array.extract_append_extract, Nat.zero_min, Nat.max_eq_right h]
  apply Array.toList_inj.1
  rw [Array.toList_appendList, ← Array.toList_append, hparts]

theorem size_front (within : start ≤ input.size) : (input.extract 0 start).size = start := by
  rw [Array.size_extract]
  omega

/-- **A sequence that fits the input is decoded to it**, from what stands in front of the sequence
up to what stands behind it. -/
theorem decodeSequence_encode {s : Sequence} (fits : s.Fits input start) (rest : Bytes) :
    decodeSequence input.size (input.extract 0 start) (s.encode ++ rest) =
      .ok (.more (input.extract 0 (s.stop start)) rest) := by
  have hstop : s.stop start = start + s.literals.length + (s.extra + minMatch) := by
    unfold Sequence.stop
    omega
  have hwithin := fits.within
  rw [hstop] at hwithin
  have hliterals : input.extract 0 start ++ s.literals =
      input.extract 0 (start + s.literals.length) := by
    have hfront := extract_append_toList input (Nat.le_add_right start s.literals.length)
    rwa [← fits.literals_eq] at hfront
  have hsize : (input.extract 0 start).size = start := size_front (by omega)
  have hsize' : (input.extract 0 (start + s.literals.length)).size = start + s.literals.length :=
    size_front (by omega)
  calc decodeSequence input.size (input.extract 0 start) (s.encode ++ rest)
      = decodeMatch input.size (min s.extra 15) (input.extract 0 start ++ s.literals)
          (Bytes.ofNat 2 s.distance ++ (extension s.extra ++ rest)) := by
        rw [Sequence.encode, List.cons_append, List.append_assoc, List.append_assoc,
          List.append_assoc, decodeSequence_literals (by rw [hsize]; omega)]
    _ = .ok (.more (copyBack s.distance (s.extra + minMatch)
          (input.extract 0 (start + s.literals.length))) rest) := by
        rw [hliterals]
        exact decodeMatch_repetition fits.positive fits.near (by rw [hsize']; exact fits.reaches)
          (by rwa [hsize']) rest
    _ = .ok (.more (input.extract 0 (s.stop start)) rest) := by
        rw [hstop, copyBack_extract fits.positive fits.reaches hwithin fits.repeats]

/-! ### Blocks -/

/-- Decoding goes on behind a sequence. -/
theorem decodeOnto_of_more {limit : Nat} {out out' : Array UInt8} {bs rest : Bytes}
    (h : decodeSequence limit out bs = .ok (.more out' rest)) :
    decodeOnto limit out bs = decodeOnto limit out' rest := by
  rw [decodeOnto]
  split <;> rename_i heq <;> rw [h] at heq <;> cases heq
  rfl

/-- Decoding ends where the input of the decoder is used up. -/
theorem decodeOnto_of_finished {limit : Nat} {out out' : Array UInt8} {bs : Bytes}
    (h : decodeSequence limit out bs = .ok (.finished out')) :
    decodeOnto limit out bs = .ok out' := by
  rw [decodeOnto]
  split <;> rename_i heq <;> rw [h] at heq <;> cases heq
  rfl

/-- Some sequences, the newest first, describe an input from its start up to a position. -/
inductive Covers (input : Array UInt8) : List Sequence → Nat → Prop where
  | nil : Covers input [] 0
  | cons {found : List Sequence} {start : Nat} {s : Sequence} (front : Covers input found start)
      (fits : s.Fits input start) : Covers input (s :: found) (s.stop start)

/-- Sequences that cover the input up to a position are decoded to what stands in front of it. -/
theorem Covers.decodeOnto {found : List Sequence} (covers : Covers input found start)
    (rest : Bytes) :
    decodeOnto input.size #[] (found.reverse.flatMap Sequence.encode ++ rest) =
      Lz4.decodeOnto input.size (input.extract 0 start) rest := by
  induction covers generalizing rest with
  | nil => simp
  | cons front fits ih =>
      rw [List.reverse_cons, List.flatMap_append, List.append_assoc, ih, List.flatMap_singleton,
        decodeOnto_of_more (decodeSequence_encode fits rest)]

/-- **A block that covers an input is decoded to it**, if its closing literals are what is left. -/
theorem Covers.decodeBlock_encode {found : List Sequence} (covers : Covers input found start)
    (within : start ≤ input.size) :
    decodeBlock input.size (closeBlock input found start).encode = .ok input.toList := by
  have hclosing : decodeSequence input.size (input.extract 0 start)
      (encodeClosing (input.extract start input.size).toList) = .ok (.finished input) := by
    have hroom : (input.extract 0 start).size + (input.extract start input.size).toList.length ≤
        input.size := by
      rw [size_front within, Array.length_toList, Array.size_extract]
      omega
    have hread := decodeSequence_literals hroom 0 []
    rw [List.append_nil] at hread
    rw [encodeClosing, hread, extract_append_toList input within, Array.extract_size]
    rfl
  rw [decodeBlock, Block.encode, closeBlock, covers.decodeOnto, decodeOnto_of_finished hclosing]
  rfl

/-! ### How much is produced -/

/-- What was produced so far. -/
def Progress.produced : Progress → Array UInt8
  | .finished out => out
  | .more out _ => out

theorem size_copyBack (distance count : Nat) (out : Array UInt8) :
    (copyBack distance count out).size = out.size + count := by
  induction count generalizing out with
  | zero => rfl
  | succ count ih =>
      rw [copyBack, ih, Array.size_push]
      omega

/-- A sequence produces no more than was stated. -/
theorem size_le_of_decodeSequence {limit : Nat} {out : Array UInt8} {bs : Bytes}
    {progress : Progress} (h : decodeSequence limit out bs = .ok progress) :
    progress.produced.size ≤ limit := by
  unfold decodeSequence at h
  split at h
  · cases h
  split at h
  · cases h
  split at h
  · cases h
  rename_i literals rest hsplit
  obtain ⟨hlen, -⟩ := Bytes.splitExact?_eq_some_iff.1 hsplit
  split at h
  · cases h
  rename_i hroom
  have hsize : (out ++ literals).size ≤ limit := by
    rw [← Array.length_toList, Array.toList_appendList, List.length_append, Array.length_toList]
    omega
  unfold decodeMatch at h
  split at h
  · cases h
    exact hsize
  · cases h
  dsimp only at h
  split at h
  · cases h
  split at h
  · cases h
  split at h
  · cases h
  split at h
  · cases h
  · cases h
    rw [Progress.produced, size_copyBack]
    omega

theorem size_le_of_decodeOnto {limit : Nat} {out out' : Array UInt8} {bs : Bytes}
    (h : decodeOnto limit out bs = .ok out') : out'.size ≤ limit := by
  fun_induction decodeOnto limit out bs with
  | case1 => cases h
  | case2 out bs out'' hread =>
      cases h
      exact size_le_of_decodeSequence hread
  | case3 out bs out'' rest hread ih => exact ih h

/-- **No more is produced than was stated.** -/
theorem length_le_of_decodeBlock {limit : Nat} {bs out : Bytes}
    (h : decodeBlock limit bs = .ok out) : out.length ≤ limit := by
  unfold decodeBlock at h
  cases hread : decodeOnto limit #[] bs with
  | error fault =>
      rw [hread] at h
      cases h
  | ok out' =>
      rw [hread] at h
      cases h
      rw [Array.length_toList]
      exact size_le_of_decodeOnto hread

end Lz4

end TraceLog
