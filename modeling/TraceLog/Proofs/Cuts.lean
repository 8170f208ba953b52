/-
**Frames that are cut off.**

Where a container is cut off, the reader notices, unless the cut lies between two frames.  The
reason is that what is read at the front of some bytes does not depend on what follows: if the part
of a frame in front of the cut could be read, then the whole frame would be read in the same way,
and leave something over.  So it makes no difference in which of the three integers, or where in the
payload, the cut lies.

Main results:

* `Varint.length_encode`, `Event.length_encode` — the lengths are those that were promised;
* `Varint.decode_append`, `Event.decode_append` — **what is read does not depend on what follows**;
* `Event.decode_take_encode` — a frame that is cut off is not read;
* `Event.decodeAll_take_iff` — **frames can be told apart at every cut**.
-/

import TraceLog.Proofs.Framing

set_option relaxedAutoImplicit false
set_option autoImplicit false

namespace TraceLog

/-! ### The length of a frame -/

namespace Varint

/-- A group less takes seven bits away. -/
theorem bitLength_of_le {n : Nat} (h : 128 ≤ n) : bitLength n = bitLength (n / 128) + 7 := by
  have hn : n ≠ 0 := by omega
  have hq : n / 128 ≠ 0 := by omega
  obtain ⟨hlow, hhigh⟩ := (Nat.log2_eq_iff hq).1 rfl
  have hlog : n.log2 = (n / 128).log2 + 7 := by
    rw [Nat.log2_eq_iff hn]
    rw [Nat.pow_succ] at hhigh
    constructor
    · rw [Nat.pow_add]
      omega
    · rw [Nat.pow_add, Nat.pow_add]
      omega
  rw [bitLength, bitLength, if_neg hn, if_neg hq, hlog]

theorem bitLength_le {n k : Nat} (h : n < 2 ^ k) : bitLength n ≤ k := by
  rw [bitLength]
  split
  · exact Nat.zero_le k
  · rename_i hn
    exact (Nat.log2_lt hn).2 h

theorem length_encodeGroups {more n : Nat} (h : n < 2 * 128 ^ more) :
    (encodeGroups more n).length = max ((bitLength n + 6) / 7) 1 := by
  induction more generalizing n with
  | zero =>
      have hbits : bitLength n ≤ 1 := bitLength_le (by simpa using h)
      rw [encodeGroups, List.length_singleton]
      omega
  | succ more ih =>
      rw [encodeGroups]
      split
      · rename_i hsmall
        have hbits : bitLength n ≤ 7 := bitLength_le hsmall
        rw [List.length_singleton]
        omega
      · rename_i hlarge
        have hquotient : n / 128 < 2 * 128 ^ more := by
          rw [Nat.pow_succ] at h
          omega
        have hbits : bitLength n = bitLength (n / 128) + 7 := bitLength_of_le (by omega)
        have hpos : 0 < bitLength (n / 128) := by
          rw [bitLength, if_neg (by omega)]
          exact Nat.succ_pos _
        rw [List.length_cons, ih hquotient]
        omega

/-- **An integer takes as many bytes as promised.** -/
theorem length_encode (v : UInt64) : (encode v).length = encodedLength v :=
  length_encodeGroups v.toNat_lt

end Varint

/-- **A frame takes as many bytes as promised.** -/
theorem Event.length_encode (e : Event) : e.encode.length = e.encodedLength := by
  simp only [encode, List.length_append, Varint.length_encode, encodedLength]
  omega

/-! ### What follows makes no difference -/

/-- What is split off does not depend on what follows. -/
theorem Bytes.splitExact?_append_right {n : Nat} {bs front rest : Bytes}
    (h : splitExact? n bs = some (front, rest)) (more : Bytes) :
    splitExact? n (bs ++ more) = some (front, rest ++ more) := by
  obtain ⟨hlen, rfl⟩ := splitExact?_eq_some_iff.1 h
  exact splitExact?_eq_some_iff.2 ⟨hlen, List.append_assoc ..⟩

theorem Varint.decodeFrom_append {position value : Nat} {bs rest : Bytes} {v : UInt64}
    (h : decodeFrom position value bs = .ok (v, rest)) (more : Bytes) :
    decodeFrom position value (bs ++ more) = .ok (v, rest ++ more) := by
  induction bs generalizing position value with
  | nil => simp [decodeFrom] at h
  | cons b bs ih =>
      simp only [decodeFrom] at h
      rw [List.cons_append]
      simp only [decodeFrom]
      split at h
      · cases h
      rename_i hposition
      rw [if_neg hposition]
      split at h
      · cases h
      rename_i hgroup
      rw [if_neg hgroup]
      split at h
      · rename_i hlast
        cases h
        rw [if_pos hlast]
      · rename_i hlast
        rw [if_neg hlast]
        exact ih h

/-- **The integer that is read does not depend on what follows.** -/
theorem Varint.decode_append {bs rest : Bytes} {v : UInt64} (h : decode bs = .ok (v, rest))
    (more : Bytes) : decode (bs ++ more) = .ok (v, rest ++ more) :=
  decodeFrom_append h more

namespace Event

theorem decodeInteger_append {bs rest : Bytes} {v : UInt64} (h : decodeInteger bs = .ok (v, rest))
    (more : Bytes) : decodeInteger (bs ++ more) = .ok (v, rest ++ more) := by
  unfold decodeInteger at h ⊢
  cases hd : Varint.decode bs with
  | error fault =>
      rw [hd] at h
      cases h
  | ok r =>
      rw [hd] at h
      cases h
      rw [Varint.decode_append hd more]
      rfl

/-- **The event that is read does not depend on what follows.** -/
theorem decode_append {bs rest : Bytes} {e : Event} (h : decode bs = .ok (e, rest))
    (more : Bytes) : decode (bs ++ more) = .ok (e, rest ++ more) := by
  unfold decode at h
  split at h
  · cases h
  rename_i hsequence
  split at h
  · cases h
  rename_i htimestamp
  split at h
  · cases h
  rename_i hlength
  split at h
  · cases h
  rename_i hpayload
  cases h
  simp only [decode, decodeInteger_append hsequence more, decodeInteger_append htimestamp more,
    decodeInteger_append hlength more, Bytes.splitExact?_append_right hpayload more]

/-! ### Frames in front of a cut -/

/-- **A frame that is cut off is not read**, wherever the cut lies. -/
theorem decode_take_encode {e : Event} (h : e.payload.length < UInt64.size) {k : Nat}
    (hk : k < e.encode.length) : ∃ fault, decode (e.encode.take k) = .error fault := by
  rcases hd : decode (e.encode.take k) with fault | ⟨e', rest⟩
  · exact ⟨fault, rfl⟩
  · -- then the whole frame is read as well, and what was cut off is left over
    have hwhole := decode_append hd (e.encode.drop k)
    have hframe := decode_encode_append h []
    rw [List.append_nil] at hframe
    rw [List.take_append_drop, hframe] at hwhole
    simp only [Except.ok.injEq, Prod.mk.injEq] at hwhole
    have hlen := congrArg List.length hwhole.2
    rw [List.length_nil, List.length_append, List.length_drop] at hlen
    omega

/-- An event that is read is followed by those in the rest. -/
theorem decodeOnto_of_ok {bs rest : Bytes} {e : Event} (h : decode bs = .ok (e, rest))
    (found : List Event) : decodeOnto found bs = decodeOnto (e :: found) rest := by
  have hne : ¬ bs.isEmpty = true := by
    have := length_lt_of_decode h
    rw [List.isEmpty_iff, ← List.length_eq_zero_iff]
    omega
  rw [decodeOnto, if_neg hne]
  split
  · rename_i fault hfault
    rw [h] at hfault
    cases hfault
  · rename_i e' rest' hok
    rw [h] at hok
    cases hok
    rfl

/-- A frame that is not read is the end. -/
theorem decodeOnto_of_error {bs : Bytes} {fault : Fault} (hne : bs ≠ [])
    (h : decode bs = .error fault) (found : List Event) :
    decodeOnto found bs = .error fault := by
  rw [decodeOnto, if_neg (by simpa using hne)]
  split
  · rename_i fault' hfault
    rw [h] at hfault
    cases hfault
    rfl
  · rename_i e rest hok
    rw [h] at hok
    cases hok

/-- Frames up to a place that is not behind the first of them: there are none. -/
theorem eq_nil_of_prefix_cons {e : Event} {es front : List Event} (h : front <+: e :: es)
    (hlen : (front.flatMap encode).length < e.encode.length) : front = [] := by
  cases front with
  | nil => rfl
  | cons x front =>
      obtain ⟨rfl, -⟩ := List.cons_prefix_cons.1 h
      rw [List.flatMap_cons, List.length_append] at hlen
      omega

/-- The frames in front of a cut are read one by one, up to the cut or to the frame that is cut
off. -/
theorem decodeOnto_take {es : List Event} (h : ∀ e ∈ es, e.payload.length < UInt64.size) {k : Nat}
    (hk : k ≤ (es.flatMap encode).length) (found : List Event) :
    (∃ front, front <+: es ∧ (front.flatMap encode).length = k ∧
      decodeOnto found ((es.flatMap encode).take k) = .ok (found.reverse ++ front)) ∨
    ((∀ front, front <+: es → (front.flatMap encode).length ≠ k) ∧
      ∃ fault, decodeOnto found ((es.flatMap encode).take k) = .error fault) := by
  induction es generalizing k found with
  | nil =>
      refine Or.inl ⟨[], List.nil_prefix, (Nat.le_zero.1 hk).symm, ?_⟩
      simp [decodeOnto]
  | cons e es ih =>
      have hfits := h e List.mem_cons_self
      rw [List.flatMap_cons, List.length_append] at hk
      rw [List.flatMap_cons]
      by_cases hcut : k < e.encode.length
      · rw [List.take_append_of_le_length (Nat.le_of_lt hcut)]
        by_cases hzero : k = 0
        · subst hzero
          refine Or.inl ⟨[], List.nil_prefix, rfl, ?_⟩
          simp [decodeOnto]
        · -- the cut lies within the first frame
          obtain ⟨fault, hfault⟩ := decode_take_encode hfits hcut
          have hne : e.encode.take k ≠ [] := by
            rw [Ne, ← List.length_eq_zero_iff, List.length_take]
            omega
          refine Or.inr ⟨fun front hfront hlen => ?_, fault, decodeOnto_of_error hne hfault found⟩
          rw [eq_nil_of_prefix_cons hfront (hlen ▸ hcut)] at hlen
          exact hzero hlen.symm
      · -- the first frame is read, and the cut lies behind it
        obtain ⟨j, rfl⟩ : ∃ j, k = e.encode.length + j := ⟨k - e.encode.length, by omega⟩
        have hj : j ≤ (es.flatMap encode).length := Nat.le_of_add_le_add_left hk
        have hread :=
          decodeOnto_of_ok (decode_encode_append hfits ((es.flatMap encode).take j)) found
        rw [List.take_length_add_append, hread]
        rcases ih (fun x hx => h x (List.mem_cons_of_mem e hx)) hj (e :: found) with
          ⟨front, hfront, hlen, hok⟩ | ⟨hnone, fault, hfault⟩
        · refine Or.inl ⟨e :: front, List.cons_prefix_cons.2 ⟨rfl, hfront⟩, ?_, ?_⟩
          · rw [List.flatMap_cons, List.length_append, hlen]
          · rw [hok, List.reverse_cons, List.append_assoc, List.singleton_append]
        · refine Or.inr ⟨fun front hfront hlen => ?_, fault, hfault⟩
          cases front with
          | nil =>
              have := three_le_length_encode e
              rw [List.flatMap_nil, List.length_nil] at hlen
              omega
          | cons x front =>
              obtain ⟨rfl, hprefix⟩ := List.cons_prefix_cons.1 hfront
              rw [List.flatMap_cons, List.length_append] at hlen
              exact hnone front hprefix (Nat.add_left_cancel hlen)

/-- No frame is empty, so that the place behind some frames says which they are. -/
theorem eq_of_prefix {es front front' : List Event} (h : front <+: es) (h' : front' <+: es)
    (hlen : (front.flatMap encode).length = (front'.flatMap encode).length) : front = front' := by
  have hnil (more : List Event) (hmore : (more.flatMap encode).length = 0) : more = [] := by
    have := three_mul_length_le more
    exact List.eq_nil_of_length_eq_zero (by omega)
  rcases List.prefix_or_prefix_of_prefix h h' with ⟨more, rfl⟩ | ⟨more, rfl⟩
  · rw [List.flatMap_append, List.length_append] at hlen
    rw [hnil more (by omega), List.append_nil]
  · rw [List.flatMap_append, List.length_append] at hlen
    rw [hnil more (by omega), List.append_nil]

/-- **Frames can be told apart at every cut.**

Some events are written one behind the other, and what was written is cut off behind `k` bytes.  If
the cut lies between two frames, the events in front of it are read, all of them and no others;
anywhere else, reading is an error.  Every frame has the length that was promised for it. -/
theorem decodeAll_take_iff {es : List Event} (h : ∀ e ∈ es, e.payload.length < UInt64.size)
    {k : Nat} (hk : k ≤ (es.flatMap encode).length) :
    (∀ found, decodeAll ((es.flatMap encode).take k) = .ok found ↔
      found <+: es ∧ (found.flatMap encode).length = k) ∧
    ((∀ n, ((es.take n).flatMap encode).length ≠ k) →
      ∃ fault, decodeAll ((es.flatMap encode).take k) = .error fault) ∧
    ∀ e : Event, e.encode.length = e.encodedLength := by
  refine ⟨fun found => ?_, fun hnone => ?_, length_encode⟩
  · rcases decodeOnto_take h hk [] with ⟨front, hfront, hlen, hok⟩ | ⟨hnone, fault, hfault⟩
    · rw [decodeAll, hok, List.reverse_nil, List.nil_append, Except.ok.injEq]
      constructor
      · rintro rfl
        exact ⟨hfront, hlen⟩
      · rintro ⟨hfound, hk'⟩
        exact eq_of_prefix hfront hfound (hlen.trans hk'.symm)
    · rw [decodeAll, hfault]
      constructor
      · intro hok
        cases hok
      · rintro ⟨hfound, hk'⟩
        exact absurd hk' (hnone found hfound)
  · rcases decodeOnto_take h hk [] with ⟨front, hfront, hlen, -⟩ | ⟨-, hfault⟩
    · rw [List.prefix_iff_eq_take.1 hfront] at hlen
      exact absurd hlen (hnone front.length)
    · exact hfault

/-- Two frames of seven and three bytes: behind the first of them the first event is read, and one
byte later nothing is. -/
theorem decodeAll_take_iff_between :
    let es : List Event := [⟨300, 5, [1, 2, 3]⟩, ⟨2, 6, []⟩]
    (∀ e ∈ es, e.payload.length < UInt64.size) ∧ (es.flatMap encode).length = 10 ∧
      decodeAll ((es.flatMap encode).take 7) = .ok [⟨300, 5, [1, 2, 3]⟩] ∧
      ∃ fault, decodeAll ((es.flatMap encode).take 8) = .error fault := by
  intro es
  have hfits : ∀ e ∈ es, e.payload.length < UInt64.size := by decide
  have hlen : (es.flatMap encode).length = 10 := by decide
  have hother (n : Nat) : ((es.take n).flatMap encode).length ≠ 8 := by
    rcases n with _ | _ | n
    · decide
    · decide
    · rw [List.take_of_length_le (Nat.le_add_left 2 n), hlen]
      decide
  refine ⟨hfits, hlen, ?_, ?_⟩
  · exact ((decodeAll_take_iff hfits (by omega)).1 _).2 ⟨⟨[⟨2, 6, []⟩], rfl⟩, by decide⟩
  · exact (decodeAll_take_iff hfits (by omega)).2.1 hother

end Event

end TraceLog
