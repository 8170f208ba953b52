/-
**How much longer a compressed form may be.**

Where nothing occurs again, a block consists of literals, and every 255 of them cost one more byte.
A sequence never costs more than that: it repeats four bytes at least, which pay for its token and
its distance.  So a compressed form is longer than what it stands for by one byte in 255 and a few
more.

Main definitions:

* `Codec.Answers` — a codec answers whatever is shorter than a limit, with what a record has room
  for.

Main results:

* `Lz4.length_encode_le` — a sequence takes one byte in 255 more than it covers, at the most;
* `Lz4.length_compress_le` — **how much longer a compressed form may be**;
* `Codec.answers_plain`, `Codec.answers_lz4` — up to which limit the built-in codecs answer.
-/

import TraceLog.Proofs.Lz4.Matching
import TraceLog.Proofs.Records

set_option relaxedAutoImplicit false
set_option autoImplicit false

namespace TraceLog

namespace Lz4

/-! ### Counts and sequences -/

theorem length_extension (n : Nat) :
    (extension n).length = if n < 15 then 0 else (n - 15) / 255 + 1 := by
  unfold extension
  split
  · rfl
  · simp

/-- A sequence takes one byte in 255 more than it covers, at the most: the four bytes that it
repeats at least pay for the rest. -/
theorem length_encode_le (s : Sequence) (start : Nat) :
    255 * s.encode.length + 256 * start ≤ 256 * s.stop start := by
  have hencode : s.encode.length = 3 + (extension s.literals.length).length + s.literals.length +
      (extension s.extra).length := by
    simp only [Sequence.encode, List.length_cons, List.length_append, Bytes.length_ofNat]
    omega
  have hliterals := length_extension s.literals.length
  have hextra := length_extension s.extra
  simp only [Sequence.stop, minMatch]
  -- whether a count is continued makes a difference for each of the two
  split at hliterals <;> split at hextra <;> omega

/-- The closing literals take one byte in 255 more as well, and two for their count. -/
theorem length_encodeClosing_le (literals : Bytes) :
    255 * (encodeClosing literals).length ≤ 256 * literals.length + 495 := by
  have hclosing : (encodeClosing literals).length =
      1 + (extension literals.length).length + literals.length := by
    simp only [encodeClosing, List.length_cons, List.length_append]
    omega
  have hliterals := length_extension literals.length
  split at hliterals <;> omega

/-! ### Blocks -/

variable {input : Array UInt8} {start : Nat}

/-- This adds up over the sequences that cover an input. -/
theorem Covers.length_le {found : List Sequence} (covers : Covers input found start) :
    255 * (found.reverse.flatMap Sequence.encode).length ≤ 256 * start := by
  induction covers with
  | nil => simp
  | @cons found start s front fits ih =>
      have hs := length_encode_le s start
      rw [List.reverse_cons, List.flatMap_append, List.flatMap_singleton, List.length_append]
      omega

/-- **How much longer a compressed form may be**: one byte in 255, and a few more. -/
theorem length_compress_le (bs : Bytes) :
    255 * (compress bs).length ≤ 256 * bs.length + 1515 := by
  obtain ⟨found, start, hblock, covers, within⟩ := exists_covers_blockOf bs.toArray
  have hfront := covers.length_le
  have hback := length_encodeClosing_le (bs.toArray.extract start bs.toArray.size).toList
  have hleft : (bs.toArray.extract start bs.toArray.size).toList.length =
      bs.length - start := by
    rw [Array.length_toList, Array.size_extract, List.size_toArray, Nat.min_self]
  rw [List.size_toArray] at within
  rw [hleft] at hback
  rw [compress, hblock, Block.encode, closeBlock, List.length_append, List.length_append,
    Bytes.length_ofNat]
  dsimp only
  omega

end Lz4

/-! ### Answers that fit into records -/

namespace Codec

/-- A codec answers whatever is shorter than a limit, with what a record has room for. -/
def Answers (codec : Codec) (limit : Nat) : Prop :=
  ∀ input, input.length < limit → ∃ answer, codec.compress input = .done answer ∧
    (answer.stored input).length < UInt32.size

/-- Then a container below the limit can be stored, if a record has room for its length. -/
theorem Answers.storable {codec : Codec} {limit : Nat} (answers : codec.Answers limit)
    {c : Container} (below : c.length < limit) (short : c.length < UInt32.size) :
    c.Storable codec := by
  have hlen : c.bytes.length < limit := by
    rw [Container.length_bytes]
    exact below
  obtain ⟨answer, hanswer, hstored⟩ := answers c.bytes hlen
  exact ⟨answer, hanswer, short, hstored⟩

/-- A codec that keeps its input answers whatever a record has room for. -/
theorem answers_plain (id : UInt8) {limit : Nat} (h : limit ≤ UInt32.size) :
    (plain id).Answers limit := by
  intro input hinput
  exact ⟨.borrowed input, rfl, Nat.lt_of_lt_of_le hinput h⟩

/-- With the other one, what is stored may be longer than the input. -/
theorem answers_lz4 (id : UInt8) {limit : Nat} (h : 256 * limit + 1260 ≤ 255 * UInt32.size) :
    (lz4 id).Answers limit := by
  intro input hinput
  refine ⟨_, rfl, ?_⟩
  have hlength := Lz4.length_compress_le input
  simp only [Compressed.stored]
  omega

end Codec

end TraceLog
