/-
**What the matcher finds.**

The table of positions forgets: a slot keeps the last position only, and bytes that differ may share
a slot.  Nothing depends on that, because a repetition is made only where the four bytes at the
remembered position are the ones looked at, and it is extended only as far as the bytes agree.  What
matters is that the table remembers positions in front of the walk only, so that what is repeated
was produced before.  Each round adds a sequence that fits the input behind what is covered, and
what is left in the end are the closing literals.

Main definitions:

* `Lz4.Agree` — the bytes from two positions on are the same;
* `Lz4.Below` — a table remembers positions in front of the walk only.

Main results:

* `Lz4.agree_of_wordAt` — words that are equal consist of the same bytes;
* `Lz4.found_of_findMatch` — what is found is a repetition of four bytes;
* `Lz4.fits_sequenceOf` — **the sequence made of it fits the input**;
* `Lz4.decompress_compress` — **what was compressed is restored**;
* `Codec.lz4_contract` — **the contract of the codec**.
-/

import TraceLog.Codec
import TraceLog.Proofs.Lz4.Decoding

set_option relaxedAutoImplicit false
set_option autoImplicit false

namespace TraceLog

namespace Lz4

/-! ### Bytes that agree -/

/-- The bytes from two positions on are the same, so many of them. -/
def Agree (input : Array UInt8) (p q count : Nat) : Prop :=
  ∀ i < count, byteAt input (p + i) = byteAt input (q + i)

variable {input : Array UInt8} {start position candidate : Nat} {table table' : Array Nat}

theorem Agree.append {p q m n : Nat} (front : Agree input p q m)
    (behind : Agree input (p + m) (q + m) n) : Agree input p q (m + n) := by
  intro i hi
  by_cases him : i < m
  · exact front i him
  · have hbehind := behind (i - m) (by omega)
    rwa [show p + m + (i - m) = p + i by omega, show q + m + (i - m) = q + i by omega] at hbehind

theorem Agree.behind {p q m n : Nat} (h : Agree input p q (m + n)) :
    Agree input (p + m) (q + m) n := by
  intro i hi
  rw [Nat.add_assoc, Nat.add_assoc]
  exact h (m + i) (by omega)

theorem Agree.of_le {p q m n : Nat} (h : Agree input p q n) (hle : m ≤ n) : Agree input p q m :=
  fun i hi => h i (by omega)

/-! ### Words -/

/-- Bits behind the others are added to them. -/
theorem or_shiftLeft (low high width : Nat) (hlow : low < 2 ^ width)
    (hhigh : high * 2 ^ width < 2 ^ 32) :
    low ||| high <<< width % 2 ^ 32 = low + high * 2 ^ width := by
  rw [Nat.shiftLeft_eq, Nat.mod_eq_of_lt hhigh, Nat.or_comm, Nat.mul_comm,
    ← Nat.two_pow_add_eq_or_of_lt hlow, Nat.add_comm]

theorem toNat_wordAt (input : Array UInt8) (p : Nat) :
    (wordAt input p).toNat = Bytes.toNat
      [byteAt input p, byteAt input (p + 1), byteAt input (p + 2), byteAt input (p + 3)] := by
  have h₀ := (byteAt input p).toNat_lt
  have h₁ := (byteAt input (p + 1)).toNat_lt
  have h₂ := (byteAt input (p + 2)).toNat_lt
  have h₃ := (byteAt input (p + 3)).toNat_lt
  simp only [wordAt, UInt32.toNat_or, UInt32.toNat_shiftLeft, UInt8.toNat_toUInt32]
  change _ ||| _ <<< 8 % _ ||| _ <<< 16 % _ ||| _ <<< 24 % _ = _
  rw [or_shiftLeft _ (byteAt input (p + 1)).toNat 8 h₀ (by omega),
    or_shiftLeft _ (byteAt input (p + 2)).toNat 16 (by omega) (by omega),
    or_shiftLeft _ (byteAt input (p + 3)).toNat 24 (by omega) (by omega)]
  simp only [Bytes.toNat]
  omega

/-- **Words that are equal consist of the same bytes.** -/
theorem agree_of_wordAt {p q : Nat} (h : wordAt input p = wordAt input q) :
    Agree input p q minMatch := by
  have hbytes : [byteAt input p, byteAt input (p + 1), byteAt input (p + 2), byteAt input (p + 3)] =
      [byteAt input q, byteAt input (q + 1), byteAt input (q + 2), byteAt input (q + 3)] := by
    rw [← Bytes.ofNat_toNat [byteAt input p, _, _, _], ← toNat_wordAt, h, toNat_wordAt]
    exact Bytes.ofNat_toNat [byteAt input q, _, _, _]
  simp only [List.cons.injEq, and_true] at hbytes
  obtain ⟨h₀, h₁, h₂, h₃⟩ := hbytes
  intro i hi
  match i, hi with
  | 0, _ => exact h₀
  | 1, _ => exact h₁
  | 2, _ => exact h₂
  | 3, _ => exact h₃

/-! ### The table -/

/-- The table remembers positions in front of the walk only. -/
def Below (table : Array Nat) (position : Nat) : Prop := ∀ s, lookUp table s < position

theorem Below.of_le {position' : Nat} (h : Below table position) (hle : position ≤ position') :
    Below table position' := fun s => Nat.lt_of_lt_of_le (h s) hle

/-- An empty slot counts as the start of the input. -/
theorem below_replicate (n : Nat) (hpos : 0 < position) : Below (Array.replicate n 0) position := by
  intro s
  have hzero : lookUp (Array.replicate n 0) s = 0 := by
    simp [lookUp, Array.getD]
  rwa [hzero]

/-- The table may be told a position in front of the walk. -/
theorem Below.remember {p : Nat} (h : Below table position) (hp : p < position) (s : Nat) :
    Below (remember table s p) position := by
  intro t
  have ht := h t
  simp only [lookUp, Lz4.remember, Array.getD_eq_getD_getElem?, Array.getElem?_setIfInBounds]
    at ht ⊢
  split
  · split
    · exact hp
    · exact Nat.zero_lt_of_lt hp
  · exact ht

/-! ### Looking for a repetition -/

/-- **What is found is a repetition of four bytes** from a position in front of it. -/
theorem found_of_findMatch {last attempts : Nat} {m : Match} (below : Below table position)
    (h : findMatch input last attempts position table = (some m, table')) :
    m.candidate < m.position ∧ m.position - m.candidate ≤ maxDistance ∧
      Agree input m.position m.candidate minMatch ∧ Below table' (m.position + 1) := by
  fun_induction findMatch input last attempts position table with
  | case1 => cases h
  | case2 attempts position table hlast s candidate table₁ hfound =>
      simp only [Prod.mk.injEq, Option.some.injEq] at h
      obtain ⟨rfl, rfl⟩ := h
      have hkept : Below table₁ (position + 1) :=
        (below.of_le (Nat.le_succ position)).remember (Nat.lt_succ_self position) s
      refine ⟨below s, hfound.1, ?_, hkept⟩
      exact agree_of_wordAt hfound.2.symm
  | case3 attempts position table hlast s candidate table₁ hfound ih =>
      refine ih ?_ h
      refine Below.remember (below.of_le ?_) ?_ s
      · omega
      · omega

/-! ### Extending a repetition -/

/-- The bytes in front of two positions that agree, as far as they are not covered. -/
theorem matchedBefore_eq (input : Array UInt8) (candidate found : Nat) (hstart : start ≤ position) :
    ∃ k, matchedBefore input start position candidate found = found + k ∧ k ≤ candidate ∧
      start + k ≤ position ∧ Agree input (position - k) (candidate - k) k := by
  induction candidate generalizing position found with
  | zero => exact ⟨0, rfl, Nat.le_refl 0, hstart, by intro i hi; omega⟩
  | succ candidate ih =>
      rw [matchedBefore]
      split
      · rename_i hsame
        obtain ⟨k, hk, hcandidate, hposition, hagree⟩ :=
          ih (found + 1) (show start ≤ position - 1 by omega)
        refine ⟨k + 1, by omega, by omega, by omega, ?_⟩
        rw [show position - (k + 1) = position - 1 - k by omega, Nat.add_sub_add_right]
        refine hagree.append fun i hi => ?_
        rw [show position - 1 - k + k + i = position - 1 by omega,
          show candidate - k + k + i = candidate by omega]
        exact hsame.2
      · exact ⟨0, rfl, Nat.zero_le _, hstart, by intro i hi; omega⟩

/-- The bytes from two positions on that agree: they stay in front of `stop`, and there are no more
of them. -/
theorem matchedAfter_eq (input : Array UInt8) (stop position candidate found : Nat) :
    ∃ k, matchedAfter input stop position candidate found = found + k ∧
      (position ≤ stop → position + k ≤ stop) ∧ Agree input position candidate k ∧
      (position + k < stop → byteAt input (position + k) ≠ byteAt input (candidate + k)) := by
  fun_induction matchedAfter input stop position candidate found with
  | case1 position candidate found hsame ih =>
      obtain ⟨k, hk, hstop, hagree, hdiffer⟩ := ih
      refine ⟨1 + k, by omega, fun _ => ?_, ?_, ?_⟩
      · have := hstop (by omega)
        omega
      · refine Agree.append (fun i hi => ?_) hagree
        obtain rfl : i = 0 := by omega
        exact hsame.2
      · rwa [← Nat.add_assoc, ← Nat.add_assoc]
  | case2 position candidate found hdiffer =>
      refine ⟨0, rfl, fun h => h, by intro i hi; omega, fun hlt heq => hdiffer ⟨hlt, heq⟩⟩

/-- As many bytes agree as can be seen. -/
theorem le_of_agree {stop k n : Nat} (hagree : Agree input position candidate n)
    (hstop : position + n ≤ stop)
    (hdiffer : position + k < stop → byteAt input (position + k) ≠ byteAt input (candidate + k)) :
    n ≤ k :=
  Nat.le_of_not_lt fun hlt => hdiffer (by omega) (hagree k hlt)

/-- **The sequence made of a repetition fits the input.**  It ends behind the bytes that were
compared first. -/
theorem fits_sequenceOf {m : Match} (hstart : start ≤ m.position)
    (room : m.position + matchMargin ≤ input.size) (earlier : m.candidate < m.position)
    (near : m.position - m.candidate ≤ maxDistance)
    (same : Agree input m.position m.candidate minMatch) :
    (sequenceOf input start m).Fits input start ∧
      m.position + minMatch ≤ (sequenceOf input start m).stop start := by
  simp only [matchMargin] at room
  obtain ⟨k, hk, hcandidate, hposition, hfront⟩ := matchedBefore_eq input m.candidate 0 hstart
  obtain ⟨e, he, hstop, hbehind, hdiffer⟩ := matchedAfter_eq input (input.size - closingMargin)
    (m.position - k + minMatch) (m.candidate - k + minMatch) 0
  rw [Nat.zero_add] at hk he
  have hs : sequenceOf input start m =
      ⟨(input.extract start (m.position - k)).toList, m.position - m.candidate, e⟩ := by
    simp only [sequenceOf, hk, he]
  have hlen : start + (input.extract start (m.position - k)).toList.length = m.position - k := by
    rw [Array.length_toList, Array.size_extract]
    omega
  -- what was seen in front and what was compared first agree together
  have hseen : Agree input (m.position - k) (m.candidate - k) (minMatch + k) := by
    rw [Nat.add_comm]
    refine hfront.append ?_
    rwa [Nat.sub_add_cancel (by omega), Nat.sub_add_cancel hcandidate]
  simp only [minMatch, closingMargin] at hstop hdiffer
  have hle : k ≤ e := le_of_agree hseen.behind (by simp only [minMatch]; omega) hdiffer
  have hlast := hstop (by omega)
  rw [hs, Sequence.stop, hlen]
  simp only [minMatch]
  refine ⟨⟨?_, ?_, near, ?_, ?_, ?_⟩, by omega⟩
  · simp only [hlen]
  · exact Nat.sub_pos_of_lt earlier
  · simp only [hlen]
    omega
  · simp only [Sequence.stop, hlen, minMatch]
    omega
  · intro i hi
    change i < e + minMatch at hi
    simp only [hlen]
    have hagree := (hseen.of_le (Nat.le_add_right minMatch k)).append hbehind i (by omega)
    rwa [show m.position - k + i - (m.position - m.candidate) = m.candidate - k + i by omega]

/-! ### The block of an input -/

/-- The walk over an input ends with a block that covers it. -/
theorem covers_blockOnto {found : List Sequence} (long : matchMargin < input.size)
    (covers : Covers input found start) (within : start ≤ input.size) (hposition : start ≤ position)
    (below : Below table position) :
    ∃ found' start', blockOnto input found start position table = closeBlock input found' start' ∧
      Covers input found' start' ∧ start' ≤ input.size := by
  fun_induction blockOnto input found start position table with
  | case1 found start position table hstart _ hnone => exact ⟨found, start, rfl, covers, within⟩
  | case2 found start position table hstart m table' hfound s stop ih =>
      obtain ⟨hle, hlast⟩ := le_of_findMatch hfound
      obtain ⟨earlier, near, same, hbelow⟩ := found_of_findMatch below hfound
      obtain ⟨fits, hstop⟩ :=
        fits_sequenceOf (Nat.le_trans hposition hle) (by omega) earlier near same
      change m.position + 4 ≤ stop at hstop
      have hpast : m.position + 1 ≤ stop := by omega
      refine ih (.cons covers fits) fits.within (Nat.le_refl _) ?_
      refine (hbelow.of_le hpast).remember ?_ _
      omega
  | case3 found start position table hstart => exact ⟨found, start, rfl, covers, within⟩

/-- **The block of an input covers it**: sequences up to some position, and what is left as closing
literals. -/
theorem exists_covers_blockOf (input : Array UInt8) :
    ∃ found start, blockOf input = closeBlock input found start ∧ Covers input found start ∧
      start ≤ input.size := by
  unfold blockOf
  split
  · have hclose : (⟨[], input.toList⟩ : Block) = closeBlock input [] 0 := by
      rw [closeBlock, Array.extract_size]
      rfl
    exact ⟨[], 0, hclose, .nil, Nat.zero_le _⟩
  · rename_i hlong
    have hbelow : Below (remember (Array.replicate tableSize 0) (slot input 0) 0) 1 :=
      (below_replicate tableSize Nat.one_pos).remember Nat.one_pos _
    exact covers_blockOnto (Nat.lt_of_not_le hlong) .nil (Nat.zero_le _) (Nat.zero_le 1) hbelow

/-- **The block of an input is decoded to the input.** -/
theorem decodeBlock_blockOf (input : Array UInt8) :
    decodeBlock input.size (blockOf input).encode = .ok input.toList := by
  obtain ⟨found, start, hblock, covers, within⟩ := exists_covers_blockOf input
  rw [hblock]
  exact covers.decodeBlock_encode within

/-- **What was compressed is restored**, if the number of bytes fits into its word. -/
theorem decompress_compress {bs : Bytes} (h : bs.length < UInt32.size) :
    decompress (compress bs) = .ok bs := by
  have hlength : (Bytes.ofNat 4 bs.length).toNat = bs.toArray.size := by
    rw [Bytes.toNat_ofNat, Nat.mod_eq_of_lt (show bs.length < 256 ^ 4 from h), List.size_toArray]
  have hsplit := Bytes.splitExact?_append (Bytes.ofNat 4 bs.length) (blockOf bs.toArray).encode
  rw [Bytes.length_ofNat] at hsplit
  rw [decompress, compress, hsplit]
  dsimp only
  rw [hlength]
  exact decodeBlock_blockOf bs.toArray

/-- No more is restored than was stated. -/
theorem length_le_of_decompress {bs out : Bytes} (h : decompress bs = .ok out) :
    out.length ≤ Bytes.toNat (bs.take 4) := by
  unfold decompress at h
  split at h
  · cases h
  · rename_i length block hsplit
    obtain ⟨hlen, rfl⟩ := Bytes.splitExact?_eq_some_iff.1 hsplit
    rw [List.take_left' hlen]
    exact length_le_of_decodeBlock h

end Lz4

/-! ### The contract -/

theorem Codec.decompress_lz4 (id : UInt8) (stored : Bytes) :
    (lz4 id).decompress stored =
      (Lz4.decompress stored).mapError fun fault => .compression (.block fault) := rfl

/-- **The contract of the codec**, whatever its id: any number of bytes that fits into 32 bits is
compressed and restored, and whatever bytes are taken for a compressed form, either they are none,
or no more is restored than they state. -/
theorem Codec.lz4_contract (id : UInt8) :
    (∀ bs : Bytes, bs.length < UInt32.size →
      ∃ stored, (lz4 id).compress bs = .done (.owned stored) ∧
        (lz4 id).decompress stored = .ok bs) ∧
    ∀ stored : Bytes,
      (∃ fault, (lz4 id).decompress stored = .error (.compression fault)) ∨
      ∃ bs, (lz4 id).decompress stored = .ok bs ∧ bs.length ≤ Bytes.toNat (stored.take 4) := by
  refine ⟨fun bs hbs => ⟨_, rfl, ?_⟩, fun stored => ?_⟩
  · rw [decompress_lz4, Lz4.decompress_compress hbs]
    rfl
  · cases hread : Lz4.decompress stored with
    | error fault =>
        refine Or.inl ⟨.block fault, ?_⟩
        rw [decompress_lz4, hread]
        rfl
    | ok bs =>
        refine Or.inr ⟨bs, ?_, Lz4.length_le_of_decompress hread⟩
        rw [decompress_lz4, hread]
        rfl

/-- Twenty bytes that are all the same are stored as one of them, a repetition that runs into
itself, and the closing literals; they are restored. -/
theorem Codec.lz4_contract_run :
    ∃ stored, (lz4 1).compress (List.replicate 20 7) = .done (.owned stored) ∧
      stored = [20, 0, 0, 0, 25, 7, 1, 0, 96, 7, 7, 7, 7, 7, 7] ∧
      (lz4 1).decompress stored = .ok (List.replicate 20 7) := by
  obtain ⟨stored, hcompress, hrestored⟩ := (lz4_contract 1).1 (List.replicate 20 7) (by decide)
  refine ⟨stored, hcompress, ?_, hrestored⟩
  have hblock : Lz4.blockOf (List.replicate 20 7).toArray =
      ⟨[⟨[7], 1, 9⟩], List.replicate 6 7⟩ := by
    unfold Lz4.blockOf
    rw [if_neg (by decide)]
    simp [Lz4.blockOnto, Lz4.findMatch, Lz4.slot, Lz4.lookUp, Lz4.remember, Lz4.tableSize,
      Lz4.wordAt, Lz4.byteAt, Lz4.maxDistance, Lz4.matchMargin, Lz4.closingMargin, Lz4.minMatch,
      Lz4.sequenceOf, Lz4.matchedBefore, Lz4.matchedAfter, Lz4.Sequence.stop, Lz4.closeBlock]
  cases hcompress
  rw [Lz4.compress, hblock]
  decide

end TraceLog
