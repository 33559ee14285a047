import Vibehouse.Lib.ByteBits

/-! # SSZ bitlists and bitvectors

The operation pool uses ssz_types' `BitList<N>` and `BitVector<M>` through a few operations.
The crate is not part of this repository, so its operations are parameters here, with the
properties of them that the pool relies on as named hypotheses.

A `BitList N` is a length `len ≤ N` and the bytes that `as_slice` returns: `max 1 ⌈len / 8⌉` of
them, bit `i` of the list at bit `i % 8` of byte `i / 8`, and every bit from `len` on clear. The
structure carries that invariant of the crate as its fields, so a bitlist that breaks it cannot
be built, and `get` reads bit `i` where that layout puts it.

The decoder `BitList::from_bytes` is a parameter `fromBytes`, and `DecodesSentinel fromBytes` is
the decoding hypothesis: bytes that hold the SSZ sentinel at `len ≤ N` and nothing above it
decode to the list of their first `len` bits. `ofSentinelBytes` meets it
(`decodesSentinel_ofSentinelBytes`), so the hypothesis can be met: it takes the highest set bit of
the last byte as the sentinel, rejects a zero last byte and a length over `N`, and clears the
sentinel.

The operations of `BitVector<M>` are a record `BitVectorOps M`, and `BitVectorOps.Lawful` says
what each of them computes on the `M` bits; `BitVectorOps.bitwise` computes them bit by bit. -/

namespace Vibehouse.Ssz

open ByteBits

/-- `bytes_for_bit_len`: the bytes that hold `len` bits, and one for the empty list. -/
def bytesForBitLen (len : Nat) : Nat := max 1 ((len + 7) / 8)

/-- `BitList<N>` with the invariant of ssz_types: the bytes of `as_slice`, and nothing set from
the length on. -/
@[ext] structure BitList (N : Nat) where
  len : Nat
  bytes : List UInt8
  len_le : len ≤ N
  length_bytes : bytes.length = bytesForBitLen len
  high_clear : ∀ i, len ≤ i → bitAt bytes i = false

namespace BitList

variable {N : Nat}

/-- `get`: bit `i`, and an error past the length. -/
def get (l : BitList N) (i : Nat) : Option Bool :=
  if i < l.len then some (bitAt l.bytes i) else none

/-- The bits past the bytes are clear, so the invariant needs checking only inside them. -/
theorem high_clear_of_lt {bytes : List UInt8} {len : Nat}
    (h : ∀ i < 8 * bytes.length, len ≤ i → bitAt bytes i = false) :
    ∀ i, len ≤ i → bitAt bytes i = false := by
  intro i hi
  by_cases hlt : i < 8 * bytes.length
  · exact h i hlt hi
  · exact bitAt_of_length_le (by omega)

end BitList

/-! ## The decoder -/

/-- The decoding hypothesis on `BitList::from_bytes`: bytes with a sentinel at `len ≤ N` and
nothing above it decode to a list of length `len` whose bits are the bits of the bytes below
`len`. -/
def DecodesSentinel {N : Nat} (fromBytes : List UInt8 → Option (BitList N)) : Prop :=
  ∀ {bytes : List UInt8} {len : Nat}, bytes.length = len / 8 + 1 → bitAt bytes len = true →
    (∀ i, len < i → bitAt bytes i = false) → len ≤ N →
    ∃ l, fromBytes bytes = some l ∧ l.len = len ∧
      ∀ i, bitAt l.bytes i = (decide (i < len) && bitAt bytes i)

/-- The sentinel's position: the highest set bit of the last byte, after the bytes before it. -/
def sentinelIndex (bytes : List UInt8) (last : UInt8) : Nat :=
  8 * (bytes.length - 1) + last.toNat.log2

/-- The data bytes: the last byte with the sentinel at `len` cleared, cut to the bytes that
`len` bits need. -/
def clearSentinel (bytes : List UInt8) (last : UInt8) (len : Nat) : List UInt8 :=
  (bytes.set (len / 8) (last &&& ~~~((1 : UInt8) <<< (len % 8).toUInt8))).take
    (bytesForBitLen len)

section Decode

variable {bytes : List UInt8} {last : UInt8} {len : Nat}

/-- The conditions of a sentinel at `len`: it is set, in the last byte, with nothing above it. -/
structure SentinelAt (bytes : List UInt8) (last : UInt8) (len : Nat) : Prop where
  length_eq : bytes.length = len / 8 + 1
  getElem?_eq : bytes[len / 8]? = some last
  set : last.toNat.testBit (len % 8) = true
  high_clear : ∀ q, len % 8 < q → last.toNat.testBit q = false

/-- The last byte of nonzero bytes places a sentinel at `sentinelIndex`. -/
theorem sentinelAt_sentinelIndex (hlast : bytes.getLast? = some last) (hz : last ≠ 0) :
    SentinelAt bytes last (sentinelIndex bytes last) := by
  have hL : 0 < bytes.length := List.length_pos_of_ne_nil (by rintro rfl; simp at hlast)
  have hlog : last.toNat.log2 < 8 := log2_toNat_lt last
  have hdiv : sentinelIndex bytes last / 8 = bytes.length - 1 := by
    unfold sentinelIndex
    omega
  have hmod : sentinelIndex bytes last % 8 = last.toNat.log2 := by
    unfold sentinelIndex
    omega
  have hz' : last.toNat ≠ 0 := fun h => hz (UInt8.toNat_inj.1 (by simpa using h))
  refine ⟨by omega, ?_, ?_, ?_⟩
  · rw [hdiv, ← List.getLast?_eq_getElem?, hlast]
  · rw [hmod]
    exact Nat.testBit_log2 hz'
  · intro q hq
    rw [hmod] at hq
    exact testBit_of_log2_lt hq

/-- A sentinel at `len` is the one the decoder finds. -/
theorem SentinelAt.sentinelIndex_eq (hs : SentinelAt bytes last len) :
    sentinelIndex bytes last = len := by
  have hlog : last.toNat.log2 = len % 8 := log2_eq_of_testBit hs.set hs.high_clear
  unfold sentinelIndex
  rw [hlog, hs.length_eq]
  omega

theorem SentinelAt.getLast? (hs : SentinelAt bytes last len) : bytes.getLast? = some last := by
  rw [List.getLast?_eq_getElem?, hs.length_eq, Nat.add_sub_cancel]
  exact hs.getElem?_eq

theorem SentinelAt.ne_zero (hs : SentinelAt bytes last len) : last ≠ 0 := by
  rintro rfl
  have hset := hs.set
  simp at hset

/-- The bytes before the sentinel's byte, and the bits below it in its byte, are the data. -/
theorem SentinelAt.bitAt_eq (hs : SentinelAt bytes last len) (i : Nat) (hi : i / 8 = len / 8) :
    bitAt bytes i = last.toNat.testBit (i % 8) := by
  have hi' : i = 8 * (len / 8) + i % 8 := by omega
  rw [hi', bitAt_eq_of_getElem? hs.getElem?_eq _ (Nat.mod_lt _ (by decide))]
  congr 1
  omega

theorem SentinelAt.length_clearSentinel (hs : SentinelAt bytes last len) :
    (clearSentinel bytes last len).length = bytesForBitLen len := by
  have hle : bytesForBitLen len ≤ bytes.length := by
    unfold bytesForBitLen
    rw [hs.length_eq]
    omega
  simp [clearSentinel, hle]

/-- The decoded bits are the bits below the sentinel. -/
theorem SentinelAt.bitAt_clearSentinel (hs : SentinelAt bytes last len) (i : Nat) :
    bitAt (clearSentinel bytes last len) i = (decide (i < len) && bitAt bytes i) := by
  have hk : len / 8 < bytes.length := by
    rw [hs.length_eq]
    omega
  unfold clearSentinel
  rw [bitAt_take, bitAt_set hk]
  rcases Nat.lt_trichotomy (i / 8) (len / 8) with hlt | heq | hgt
  · -- a byte before the sentinel's: kept whole
    have hkeep : i / 8 < bytesForBitLen len := by
      unfold bytesForBitLen
      omega
    have hi : i < len := by omega
    simp [hkeep, hi, Nat.ne_of_lt hlt]
  · -- the sentinel's byte: bits below it kept, the sentinel and what is above it clear
    rw [if_pos heq, testBit_and_not_one_shiftLeft _ (Nat.mod_lt _ (by decide)),
      hs.bitAt_eq i heq]
    rcases Nat.lt_trichotomy (i % 8) (len % 8) with hq | hq | hq
    · have hkeep : i / 8 < bytesForBitLen len := by
        unfold bytesForBitLen
        omega
      have hi : i < len := by omega
      simp [hkeep, hi, Nat.ne_of_lt hq]
    · have hi : ¬ i < len := by omega
      simp [hq, hi]
    · simp [hs.high_clear _ hq]
  · -- past the last byte
    have hend : bytes.length ≤ i / 8 := by
      rw [hs.length_eq]
      omega
    have hi : ¬ i < len := by omega
    simp [if_neg (Nat.ne_of_gt hgt), bitAt_of_length_le hend, hi]

theorem SentinelAt.high_clear_clearSentinel (hs : SentinelAt bytes last len) (i : Nat)
    (hi : len ≤ i) : bitAt (clearSentinel bytes last len) i = false := by
  rw [hs.bitAt_clearSentinel]
  simp [Nat.not_lt.2 hi]

end Decode

/-- A decoder in the manner of `BitList::from_bytes`: the sentinel in the last byte gives the
length, which must be at most `N`; the data are the bytes with the sentinel cleared. -/
def ofSentinelBytes (N : Nat) (bytes : List UInt8) : Option (BitList N) :=
  match hlast : bytes.getLast? with
  | none => none
  | some last =>
    if hz : last = 0 then none
    else if hN : sentinelIndex bytes last ≤ N then
      have hs := sentinelAt_sentinelIndex hlast hz
      some
        { len := sentinelIndex bytes last
          bytes := clearSentinel bytes last (sentinelIndex bytes last)
          len_le := hN
          length_bytes := hs.length_clearSentinel
          high_clear := hs.high_clear_clearSentinel }
    else none

/-- `ofSentinelBytes` meets the decoding hypothesis. -/
theorem decodesSentinel_ofSentinelBytes (N : Nat) : DecodesSentinel (ofSentinelBytes N) := by
  intro bytes len hlen hset hhigh hN
  obtain ⟨last, hget⟩ : ∃ last, bytes[len / 8]? = some last :=
    ⟨bytes[len / 8], List.getElem?_eq_getElem (by omega)⟩
  have hbyte : ∀ q, q < 8 → bitAt bytes (8 * (len / 8) + q) = last.toNat.testBit q :=
    bitAt_eq_of_getElem? hget
  have hs : SentinelAt bytes last len := by
    refine ⟨hlen, hget, ?_, fun q hq => ?_⟩
    · rw [← hbyte _ (Nat.mod_lt _ (by decide)), Nat.div_add_mod]
      exact hset
    · by_cases hq8 : q < 8
      · rw [← hbyte q hq8]
        exact hhigh _ (by omega)
      · exact testBit_toNat_of_le last (by omega)
  have hidx := hs.sentinelIndex_eq
  refine ⟨⟨len, clearSentinel bytes last len, hN, hs.length_clearSentinel,
    hs.high_clear_clearSentinel⟩, ?_, rfl, hs.bitAt_clearSentinel⟩
  unfold ofSentinelBytes
  split
  · rename_i hnone
    simp [hs.getLast?] at hnone
  · rename_i last' hlast
    obtain rfl : last = last' := Option.some.inj (hs.getLast?.symm.trans hlast)
    rw [dif_neg hs.ne_zero, dif_pos (hidx ▸ hN)]
    exact congrArg some (BitList.ext hidx (by simp only [hidx]))

/-! ## Bitvectors -/

/-- The operations of `BitVector<M>` that the operation pool uses, on its `M` bits. -/
structure BitVectorOps (M : Nat) where
  intersection : Vector Bool M → Vector Bool M → Vector Bool M
  union : Vector Bool M → Vector Bool M → Vector Bool M
  isZero : Vector Bool M → Bool
  numSetBits : Vector Bool M → Nat
  highestSetBit : Vector Bool M → Option Nat

/-- What each operation of `BitVector<M>` computes: `intersection` and `union` bit by bit,
`is_zero` whether no bit is set, `num_set_bits` how many are, and `highest_set_bit` the index of
the last set bit, `None` for no set bit. -/
structure BitVectorOps.Lawful {M : Nat} (ops : BitVectorOps M) : Prop where
  getElem_intersection : ∀ (a b : Vector Bool M) (i : Nat) (h : i < M),
    (ops.intersection a b)[i] = (a[i] && b[i])
  getElem_union : ∀ (a b : Vector Bool M) (i : Nat) (h : i < M),
    (ops.union a b)[i] = (a[i] || b[i])
  isZero_iff : ∀ a : Vector Bool M, ops.isZero a = true ↔ ∀ (i : Nat) (h : i < M), a[i] = false
  numSetBits_eq : ∀ a : Vector Bool M, ops.numSetBits a = a.toList.count true
  highestSetBit_eq_some : ∀ (a : Vector Bool M) (i : Nat) (h : i < M), a[i] = true →
    (∀ (j : Nat) (hj : j < M), i < j → a[j] = false) → ops.highestSetBit a = some i
  highestSetBit_eq_none : ∀ a : Vector Bool M, (∀ (i : Nat) (h : i < M), a[i] = false) →
    ops.highestSetBit a = none

/-- The index of the last set bit of a list of bits. -/
def highestSetBitOf : List Bool → Option Nat
  | [] => none
  | b :: bs =>
    match highestSetBitOf bs with
    | some i => some (i + 1)
    | none => if b then some 0 else none

theorem highestSetBitOf_eq_none : ∀ {bs : List Bool}, (∀ b ∈ bs, b = false) →
    highestSetBitOf bs = none
  | [], _ => rfl
  | b :: bs, h => by
    rw [highestSetBitOf, highestSetBitOf_eq_none fun b' hb' => h b' (List.mem_cons_of_mem b hb'),
      h b List.mem_cons_self]
    rfl

/-- A set bit with no set bit after it is the last one; the induction is on the bits, with the
index one less in the tail. -/
theorem highestSetBitOf_eq_some : ∀ {bs : List Bool} {i : Nat}, bs[i]? = some true →
    (∀ j, i < j → bs[j]? ≠ some true) → highestSetBitOf bs = some i
  | [], _, hi, _ => by simp at hi
  | b :: bs, 0, hi, habove => by
    -- the head is the set bit, so the tail has none
    have htail : ∀ b' ∈ bs, b' = false := by
      intro b' hb'
      obtain ⟨j, hj, rfl⟩ := List.getElem_of_mem hb'
      have := habove (j + 1) (Nat.succ_pos j)
      simp only [List.getElem?_cons_succ, List.getElem?_eq_getElem hj] at this
      simpa using this
    simp only [List.getElem?_cons_zero, Option.some.injEq] at hi
    rw [highestSetBitOf, highestSetBitOf_eq_none htail, hi]
    rfl
  | b :: bs, i + 1, hi, habove => by
    have htail : highestSetBitOf bs = some i :=
      highestSetBitOf_eq_some hi fun j hj => habove (j + 1) (by omega)
    rw [highestSetBitOf, htail]

/-- The operations computed bit by bit. -/
def BitVectorOps.bitwise (M : Nat) : BitVectorOps M where
  intersection a b := Vector.zipWith (· && ·) a b
  union a b := Vector.zipWith (· || ·) a b
  isZero a := a.toList.all (· == false)
  numSetBits a := a.toList.count true
  highestSetBit a := highestSetBitOf a.toList

theorem BitVectorOps.lawful_bitwise (M : Nat) : (BitVectorOps.bitwise M).Lawful where
  getElem_intersection a b i h := by simp [bitwise]
  getElem_union a b i h := by simp [bitwise]
  isZero_iff a := by
    simp only [bitwise, List.all_eq_true, beq_iff_eq, Vector.mem_toList_iff]
    exact ⟨fun h i hi => h _ (Vector.getElem_mem hi), fun h b hb => by
      obtain ⟨i, hi, rfl⟩ := Vector.getElem_of_mem hb
      exact h i hi⟩
  numSetBits_eq a := rfl
  highestSetBit_eq_some a i h hi habove := by
    refine highestSetBitOf_eq_some (by simp [h, hi]) fun j hij => ?_
    by_cases hj : j < M
    · simp [hj, habove j hj hij]
    · simp [hj]
  highestSetBit_eq_none a h := by
    refine highestSetBitOf_eq_none fun b hb => ?_
    obtain ⟨i, hi, rfl⟩ := Vector.getElem_of_mem (Vector.mem_toList_iff.1 hb)
    exact h i hi

end Vibehouse.Ssz
