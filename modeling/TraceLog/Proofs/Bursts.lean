/-
**Alterations that the check value shows.**

The check value stands behind the bytes that it covers, its low byte first, which is the order in
which the register takes bytes.  So the register can simply be run over the check value as well: a
footer is intact exactly if that leaves one fixed value.  Up to four bytes enter the register as a
word, without losing anything, and no later byte makes two registers equal.  Hence two sequences of
bytes that differ within four consecutive bytes leave different values, and at most one of them is
a footer.  Nothing has to be known about the place of the difference, which may lie in the fields,
in the check value or across the border.

Main definitions:

* `Bytes.AlteredWithin` — the bytes differ, and all differences lie in a stretch of a given width;
* `Crc32.residue` — what the register holds behind bytes and their check value.

Main results:

* `Crc32.shift_xor`, `Crc32.shift_injective` — **the register is linear** and loses nothing;
* `Crc32.run_eq_repeat_shift` — up to four bytes enter the register as a word;
* `Crc32.run_ne_of_altered` — **an alteration within four bytes reaches the end**;
* `Crc32.run_append_checksum_iff` — the check value is right exactly if the residue is left;
* `Footer.altered_is_refused` — **a footer that was altered within four bytes is refused**.
-/

import TraceLog.Proofs.Fields

set_option relaxedAutoImplicit false
set_option autoImplicit false

namespace TraceLog

/-! ### Alterations -/

namespace Bytes

/-- The bytes differ, and all differences lie within `width` consecutive bytes. -/
structure AlteredWithin (width : Nat) (bs cs : Bytes) : Prop where
  length_eq : cs.length = bs.length
  ne : cs ≠ bs
  confined : ∃ start, ∀ i, i < start ∨ start + width ≤ i → cs[i]? = bs[i]?

/-- Altered bytes have a stretch in place of another one, between parts that are as they were. -/
theorem AlteredWithin.exists_append {width : Nat} {bs cs : Bytes} (h : AlteredWithin width bs cs) :
    ∃ front old new back, bs = front ++ old ++ back ∧ cs = front ++ new ++ back ∧
      new.length = old.length ∧ old.length ≤ width ∧ new ≠ old := by
  obtain ⟨start, hstart⟩ := h.confined
  have hfront : cs.take start = bs.take start := by
    refine List.ext_getElem? fun i => ?_
    rw [List.getElem?_take, List.getElem?_take]
    split
    · rename_i hi
      exact hstart i (.inl hi)
    · rfl
  have hback : cs.drop (start + width) = bs.drop (start + width) := by
    refine List.ext_getElem? fun i => ?_
    rw [List.getElem?_drop, List.getElem?_drop]
    exact hstart _ (.inr (Nat.le_add_right ..))
  have hsplit (xs : Bytes) :
      xs = xs.take start ++ (xs.drop start).take width ++ xs.drop (start + width) := by
    rw [List.append_assoc, ← List.drop_drop, List.take_append_drop, List.take_append_drop]
  refine ⟨bs.take start, (bs.drop start).take width, (cs.drop start).take width,
    bs.drop (start + width), hsplit bs, ?_, ?_, List.length_take_le .., ?_⟩
  · rw [← hfront, ← hback]
    exact hsplit cs
  · simp only [List.length_take, List.length_drop, h.length_eq]
  · intro hsame
    refine h.ne ?_
    rw [hsplit cs, hfront, hback, hsame, ← hsplit bs]

/-- Bytes of one length that stand for one number are equal. -/
theorem eq_of_toNat_eq {bs cs : Bytes} (hlen : bs.length = cs.length)
    (h : toNat bs = toNat cs) : bs = cs := by
  rw [← ofNat_toNat bs, ← ofNat_toNat cs, hlen, h]

end Bytes

/-! ### The register -/

namespace Crc32

/-- The low bit says whether the number is odd. -/
theorem and_one_eq_one_iff (register : UInt32) :
    register &&& 1 = 1 ↔ register.toNat % 2 = 1 := by
  rw [← UInt32.toNat_inj, UInt32.toNat_and, UInt32.toNat_one, Nat.and_one_is_mod]

theorem shift_of_odd {register : UInt32} (h : register.toNat % 2 = 1) :
    shift register = (register >>> 1) ^^^ polynomial := by
  rw [shift, if_pos ((and_one_eq_one_iff register).2 h)]

theorem shift_of_even {register : UInt32} (h : register.toNat % 2 = 0) :
    shift register = register >>> 1 := by
  rw [shift, if_neg]
  rw [and_one_eq_one_iff]
  omega

theorem toNat_shiftRight_one (register : UInt32) : (register >>> 1).toNat = register.toNat / 2 := by
  rw [UInt32.toNat_shiftRight]
  exact Nat.shiftRight_eq_div_pow register.toNat 1

/-- **The register is linear.** -/
theorem shift_xor (a b : UInt32) : shift (a ^^^ b) = shift a ^^^ shift b := by
  have hodd : (a ^^^ b).toNat % 2 = 1 ↔ ¬(a.toNat % 2 = 1 ↔ b.toNat % 2 = 1) := by
    rw [UInt32.toNat_xor]
    exact Nat.xor_mod_two_eq_one
  rcases Nat.mod_two_eq_zero_or_one a.toNat with ha | ha <;>
    rcases Nat.mod_two_eq_zero_or_one b.toNat with hb | hb
  · rw [shift_of_even (by omega), shift_of_even ha, shift_of_even hb, UInt32.shiftRight_xor]
  · rw [shift_of_odd (by omega), shift_of_even ha, shift_of_odd hb, UInt32.shiftRight_xor,
      UInt32.xor_assoc]
  · rw [shift_of_odd (by omega), shift_of_odd ha, shift_of_even hb, UInt32.shiftRight_xor]
    ac_rfl
  · -- the polynomial enters twice
    have htwice (x y : UInt32) : x ^^^ polynomial ^^^ (y ^^^ polynomial) = x ^^^ y := by
      rw [show x ^^^ polynomial ^^^ (y ^^^ polynomial) =
        x ^^^ y ^^^ (polynomial ^^^ polynomial) by ac_rfl, UInt32.xor_self, UInt32.xor_zero]
    rw [shift_of_even (by omega), shift_of_odd ha, shift_of_odd hb, UInt32.shiftRight_xor, htwice]

/-- Only an empty register is empty after a shift, because the polynomial has the highest bit. -/
theorem eq_zero_of_shift {register : UInt32} (h : shift register = 0) : register = 0 := by
  have hhalf := toNat_shiftRight_one register
  have hlt := register.toNat_lt
  rcases Nat.mod_two_eq_zero_or_one register.toNat with heven | hodd
  · rw [shift_of_even heven] at h
    rw [h, UInt32.toNat_zero] at hhalf
    apply UInt32.toNat_inj.1
    rw [UInt32.toNat_zero]
    omega
  · rw [shift_of_odd hodd, UInt32.xor_eq_zero_iff] at h
    rw [h, show polynomial.toNat = 0xEDB88320 from rfl] at hhalf
    omega

/-- **A shift loses nothing.** -/
theorem shift_injective {a b : UInt32} (h : shift a = shift b) : a = b := by
  rw [← UInt32.xor_eq_zero_iff, ← shift_xor] at h
  exact UInt32.xor_eq_zero_iff.1 (eq_zero_of_shift h)

theorem repeat_shift_xor (n : Nat) (a b : UInt32) :
    Nat.repeat shift n (a ^^^ b) = Nat.repeat shift n a ^^^ Nat.repeat shift n b := by
  induction n with
  | zero => rfl
  | succ n ih => rw [Nat.repeat, ih, shift_xor, Nat.repeat, Nat.repeat]

theorem repeat_shift_injective {n : Nat} {a b : UInt32}
    (h : Nat.repeat shift n a = Nat.repeat shift n b) : a = b := by
  induction n with
  | zero => exact h
  | succ n ih => exact ih (shift_injective h)

theorem repeat_shift_add (m n : Nat) (register : UInt32) :
    Nat.repeat shift (m + n) register = Nat.repeat shift m (Nat.repeat shift n register) := by
  induction m with
  | zero => rw [Nat.zero_add, Nat.repeat]
  | succ m ih => rw [Nat.succ_add, Nat.repeat, ih, Nat.repeat]

/-- Zeros leave the register without the polynomial. -/
theorem repeat_shift_of_toNat_eq {n : Nat} {register rest : UInt32}
    (h : register.toNat = 2 ^ n * rest.toNat) : Nat.repeat shift n register = rest := by
  induction n generalizing rest with
  | zero => exact UInt32.toNat_inj.1 (by rw [Nat.repeat, h, Nat.pow_zero, Nat.one_mul])
  | succ n ih =>
      have hlt := register.toNat_lt
      -- in front of the last shift the rest stands one bit higher
      have hfits : 2 * rest.toNat < UInt32.size := by
        rw [h, Nat.pow_succ, Nat.mul_assoc] at hlt
        exact Nat.lt_of_le_of_lt (Nat.le_mul_of_pos_left _ (Nat.two_pow_pos n)) hlt
      have hdouble : (UInt32.ofNat (2 * rest.toNat)).toNat = 2 * rest.toNat :=
        UInt32.toNat_ofNat_of_lt' hfits
      have hbefore : Nat.repeat shift n register = UInt32.ofNat (2 * rest.toNat) := by
        apply ih
        rw [hdouble, h, Nat.pow_succ, Nat.mul_assoc]
      rw [Nat.repeat, hbefore, shift_of_even (by rw [hdouble]; omega)]
      apply UInt32.toNat_inj.1
      rw [toNat_shiftRight_one, hdouble]
      omega

/-! ### Bytes in the register -/

/-- The word of some bytes. -/
def word (bs : Bytes) : UInt32 := .ofNat (Bytes.toNat bs)

theorem toNat_word {bs : Bytes} (h : bs.length ≤ 4) : (word bs).toNat = Bytes.toNat bs :=
  UInt32.toNat_ofNat_of_lt'
    (Nat.lt_of_lt_of_le (Bytes.toNat_lt bs) (Nat.pow_le_pow_right (by decide) h))

/-- A byte stands in front of the others. -/
theorem word_cons {b : UInt8} {bs : Bytes} (h : (b :: bs).length ≤ 4) :
    ∃ higher : UInt32, higher.toNat = 2 ^ 8 * Bytes.toNat bs ∧
      word (b :: bs) = b.toUInt32 ^^^ higher := by
  have hb := b.toNat_lt
  have hword := toNat_word h
  have hlt := (word (b :: bs)).toNat_lt
  rw [hword, Bytes.toNat_cons] at hlt
  have hhigher : (UInt32.ofNat (2 ^ 8 * Bytes.toNat bs)).toNat = 2 ^ 8 * Bytes.toNat bs :=
    UInt32.toNat_ofNat_of_lt' (show _ < 2 ^ 32 by omega)
  refine ⟨_, hhigher, UInt32.toNat_inj.1 ?_⟩
  rw [hword, UInt32.toNat_xor, hhigher, UInt8.toNat_toUInt32, Bytes.toNat_cons]
  -- the bits of the byte and those of the others lie apart
  refine Nat.eq_of_testBit_eq fun i => ?_
  rw [Nat.add_comm, show (256 : Nat) = 2 ^ 8 from rfl, Nat.testBit_two_pow_mul_add _ hb,
    Nat.testBit_xor, Nat.testBit_two_pow_mul]
  split
  · rename_i hi
    simp [Nat.not_le.2 hi]
  · rename_i hi
    have hzero : b.toNat.testBit i = false :=
      Nat.testBit_lt_two_pow (Nat.lt_of_lt_of_le hb (Nat.pow_le_pow_right (by decide)
        (Nat.le_of_not_lt hi)))
    simp [Nat.le_of_not_lt hi, hzero]

/-- **Up to four bytes enter the register as a word.** -/
theorem run_eq_repeat_shift {bs : Bytes} (h : bs.length ≤ 4) (register : UInt32) :
    run register bs = Nat.repeat shift (8 * bs.length) (register ^^^ word bs) := by
  induction bs generalizing register with
  | nil => exact UInt32.xor_zero.symm
  | cons b bs ih =>
      have hbs : bs.length ≤ 4 := Nat.le_of_succ_le h
      obtain ⟨higher, hhigher, hword⟩ := word_cons h
      rw [← toNat_word hbs] at hhigher
      calc run register (b :: bs)
          = Nat.repeat shift (8 * bs.length) (absorb register b ^^^ word bs) := ih hbs _
        _ = Nat.repeat shift (8 * bs.length)
              (Nat.repeat shift 8 (register ^^^ b.toUInt32 ^^^ higher)) := by
          rw [repeat_shift_xor 8, repeat_shift_of_toNat_eq hhigher]
          rfl
        _ = Nat.repeat shift (8 * (b :: bs).length) (register ^^^ word (b :: bs)) := by
          rw [hword, ← UInt32.xor_assoc, ← repeat_shift_add, List.length_cons, Nat.mul_succ]

/-- Up to four bytes can be told from what they leave. -/
theorem eq_of_run_eq {register : UInt32} {bs cs : Bytes} (hlen : cs.length = bs.length)
    (short : bs.length ≤ 4) (h : run register cs = run register bs) : cs = bs := by
  rw [run_eq_repeat_shift short, run_eq_repeat_shift (hlen ▸ short), hlen] at h
  have hword : word cs = word bs := (UInt32.xor_right_inj register).1 (repeat_shift_injective h)
  refine Bytes.eq_of_toNat_eq hlen ?_
  rw [← toNat_word short, ← toNat_word (hlen ▸ short), hword]

/-- No bytes make two registers equal. -/
theorem run_injective {bs : Bytes} {register register' : UInt32}
    (h : run register bs = run register' bs) : register = register' := by
  induction bs generalizing register register' with
  | nil => exact h
  | cons b bs ih => exact (UInt32.xor_left_inj b.toUInt32).1 (repeat_shift_injective (ih h))

/-- **An alteration within four bytes reaches the end.** -/
theorem run_ne_of_altered {bs cs : Bytes} (h : Bytes.AlteredWithin 4 bs cs) (register : UInt32) :
    run register cs ≠ run register bs := by
  obtain ⟨front, old, new, back, rfl, rfl, hlen, hshort, hne⟩ := h.exists_append
  intro heq
  rw [run_append, run_append, run_append, run_append] at heq
  exact hne (eq_of_run_eq hlen hshort (run_injective heq))

/-! ### The check value as four more bytes -/

/-- What the register holds behind bytes and their check value. -/
def residue : UInt32 := Nat.repeat shift 32 0xFFFFFFFF

/-- **The check value is right exactly if the residue is left.** -/
theorem run_append_checksum_iff {bs : Bytes} {checksum : UInt32} :
    run 0xFFFFFFFF (bs ++ Bytes.ofNat 4 checksum.toNat) = residue ↔ checksum = crc32 bs := by
  have hword : word (Bytes.ofNat 4 checksum.toNat) = checksum := by
    have hlt : checksum.toNat < 256 ^ 4 := checksum.toNat_lt
    rw [word, Bytes.toNat_ofNat, Nat.mod_eq_of_lt hlt, UInt32.ofNat_toNat]
  rw [run_append, run_eq_repeat_shift (Nat.le_of_eq (Bytes.length_ofNat ..)), Bytes.length_ofNat,
    hword, residue, crc32]
  generalize run 0xFFFFFFFF bs = register
  constructor
  · intro h
    rw [← repeat_shift_injective h, ← UInt32.xor_assoc, UInt32.xor_self, UInt32.zero_xor]
  · rintro rfl
    rw [← UInt32.xor_assoc, UInt32.xor_self, UInt32.zero_xor]

end Crc32

/-! ### Footers -/

namespace Footer

/-- Behind a footer the register holds the residue. -/
theorem run_of_decode {bs : Bytes} {f : Footer} (h : decode bs = .ok f) :
    Crc32.run 0xFFFFFFFF bs = Crc32.residue := by
  obtain ⟨reserved, sound, rfl⟩ := decode_eq_ok_iff.1 h
  exact Crc32.run_append_checksum_iff.2 sound.checksum

/-- **A footer that was altered within four bytes is refused.**

For all totals, with the flag of an aborted file or without it: the footer that is written is read
back as it was, and any other 64 bytes that differ from it within four consecutive bytes only,
wherever these stand, are no footer. -/
theorem altered_is_refused (t : Totals) (truncated : Bool) :
    decode (ofTotals t truncated).encode = .ok (ofTotals t truncated) ∧
      ∀ altered, Bytes.AlteredWithin 4 (ofTotals t truncated).encode altered →
        ∃ fault, decode altered = .error fault := by
  have hread : decode (ofTotals t truncated).encode = .ok (ofTotals t truncated) :=
    decode_eq_ok_iff.2 ⟨_, sound_ofTotals t truncated, encode_eq_encodeWith _⟩
  refine ⟨hread, fun altered h => ?_⟩
  cases haltered : decode altered with
  | error fault => exact ⟨fault, rfl⟩
  | ok f =>
      have hresidue := (run_of_decode haltered).trans (run_of_decode hread).symm
      exact absurd hresidue (Crc32.run_ne_of_altered h _)

/-- One bit of the last reserved byte and the highest bit of the third byte of the check value. -/
theorem altered_is_refused_across :
    let written := (ofTotals ⟨2, 3, 40, 5, 9⟩ false).encode
    let altered := (written.modify 59 (· ^^^ 1)).modify 62 (· ^^^ 0x80)
    Bytes.AlteredWithin 4 written altered ∧ ∃ fault, decode altered = .error fault := by
  intro written altered
  have haltered : Bytes.AlteredWithin 4 written altered := by
    refine ⟨by simp [altered], by decide +kernel, 59, fun i hi => ?_⟩
    have h59 : 59 ≠ i := by omega
    have h62 : 62 ≠ i := by omega
    exact (List.getElem?_modify_ne _ _ h62).trans (List.getElem?_modify_ne _ _ h59)
  exact ⟨haltered, (altered_is_refused _ false).2 altered haltered⟩

end Footer

end TraceLog
