import Mathlib.Data.List.Destutter
import Vibehouse.Ssz.BitList

/-! # Attestation storage: concatenating aggregation bits

`bitlist_extend` concatenates two bitlists of one bound `N` with byte operations. It lays out the
SSZ encoding of the result directly: the first list's whole bytes are copied, and then either the
second list's bytes follow them (the first length a multiple of eight) or each byte of the second
list is shifted across two output bytes. The sentinel goes at the new length, and the decoder
`BitList::from_bytes` of ssz_types, the parameter `fromBytes`, reads the result back. Every
indexing of the Rust code can panic, so the model returns `none` for a panic and `some none` for
the `None` of a result over `N`.

The proof reads every stage as bits. `concatBit` is the bit function of the concatenation. Each
stage is stated by how it moves bits: the copy of the first list, the two branches for the second
list, and the sentinel. Together they bring the bytes to the encoding of `concatBit` up to the new
length, and a decoder with the decoding hypothesis `DecodesSentinel` reads them back as it.

`aggregate_with_disjoint_committees` also uses the `BitVector` operations of ssz_types, a record
`BitVectorOps` whose laws are `BitVectorOps.Lawful`. -/

namespace Vibehouse.OperationPool

open ByteBits Ssz

variable {N : Nat}

/-! ## The model -/

/-- The loop of the unaligned case, over the bytes of the second list from byte `i` on: byte `i`
shifted up by `bit_offset` is or-ed into byte `full_bytes1 + i`, and its top bits into the next
byte when the output has one. -/
def shiftOrLoop (numBytes fullBytes1 bitOffset : Nat) :
    Nat → List UInt8 → List UInt8 → Option (List UInt8)
  | _, [], bytes => some bytes
  | i, b :: src, bytes => do
    let bytes ← orByte bytes (fullBytes1 + i) (b <<< bitOffset.toUInt8)
    let bytes ← if fullBytes1 + i + 1 < numBytes then
        orByte bytes (fullBytes1 + i + 1) (b >>> (8 - bitOffset).toUInt8)
      else pure bytes
    shiftOrLoop numBytes fullBytes1 bitOffset (i + 1) src bytes

/-- The byte-aligned case: the second list's whole bytes copied after the first's, then its
partial byte. -/
def extendAligned (bytes src2 : List UInt8) (fullBytes1 len2 : Nat) : Option (List UInt8) := do
  let fullBytes2 := len2 / 8
  let bytes ← copySlice bytes fullBytes1 (fullBytes1 + fullBytes2) src2 fullBytes2
  if len2 % 8 ≠ 0 then do
    let b ← src2[fullBytes2]?
    setByte bytes (fullBytes1 + fullBytes2) b
  else pure bytes

/-- The unaligned case: the first list's partial byte, then the shift-and-or loop. -/
def extendUnaligned (bytes src1 src2 : List UInt8) (numBytes fullBytes1 bitOffset : Nat) :
    Option (List UInt8) := do
  let bytes ← if fullBytes1 < src1.length then do
      let b ← src1[fullBytes1]?
      setByte bytes fullBytes1 b
    else pure bytes
  shiftOrLoop numBytes fullBytes1 bitOffset 0 src2 bytes

/-- `bitlist_extend`, with `BitList::from_bytes` as `fromBytes`. -/
def bitlistExtend (fromBytes : List UInt8 → Option (BitList N)) (list1 list2 : BitList N) :
    Option (Option (BitList N)) := do
  let len1 := list1.len
  let len2 := list2.len
  let newLength := len1 + len2
  if newLength > N then return none
  -- SSZ encoding: the data bits, then a one bit at `new_length`
  let totalBits := newLength + 1
  let numBytes := max ((totalBits + 7) / 8) 1
  let bytes := List.replicate numBytes (0 : UInt8)
  let src1 := list1.bytes
  let src2 := list2.bytes
  let fullBytes1 := len1 / 8
  let bytes ← copySlice bytes 0 fullBytes1 src1 fullBytes1
  let bitOffset := len1 % 8
  let bytes ← if bitOffset = 0 then extendAligned bytes src2 fullBytes1 len2
    else extendUnaligned bytes src1 src2 numBytes fullBytes1 bitOffset
  let sentinelByte := newLength / 8
  let sentinelBit := newLength % 8
  let bytes ← orByte bytes sentinelByte ((1 : UInt8) <<< sentinelBit.toUInt8)
  return fromBytes bytes

/-! ## The bits of each stage -/

/-- Bit `p` of the concatenation of `l1` and `l2`. -/
def concatBit (l1 l2 : BitList N) (p : Nat) : Bool :=
  bitAt l1.bytes p || (decide (l1.len ≤ p) && bitAt l2.bytes (p - l1.len))

section Stages

variable (l1 l2 : BitList N)

theorem numBytes_eq : max ((l1.len + l2.len + 1 + 7) / 8) 1 = (l1.len + l2.len) / 8 + 1 := by
  omega

theorem concatBit_of_lt {p : Nat} (hp : p < l1.len) : concatBit l1 l2 p = bitAt l1.bytes p := by
  simp [concatBit, Nat.not_le.2 hp]

theorem concatBit_of_le {p : Nat} (hp : l1.len ≤ p) :
    concatBit l1 l2 p = bitAt l2.bytes (p - l1.len) := by
  simp [concatBit, hp, l1.high_clear p hp]

/-- Past both lists the concatenation is clear. -/
theorem concatBit_of_add_le {p : Nat} (hp : l1.len + l2.len ≤ p) : concatBit l1 l2 p = false := by
  rw [concatBit_of_le l1 l2 (by omega), l2.high_clear _ (by omega)]

/-- The copy of the first list's whole bytes. -/
theorem copySlice_first :
    ∃ bytes, copySlice (List.replicate ((l1.len + l2.len) / 8 + 1) 0) 0 (l1.len / 8) l1.bytes
        (l1.len / 8) = some bytes ∧ bytes.length = (l1.len + l2.len) / 8 + 1 ∧
      ∀ p, bitAt bytes p = (decide (p / 8 < l1.len / 8) && bitAt l1.bytes p) := by
  have hsrc : l1.len / 8 ≤ l1.bytes.length := by
    rw [l1.length_bytes, bytesForBitLen]
    omega
  have h := @copySlice_of_le (List.replicate ((l1.len + l2.len) / 8 + 1) 0) 0 (l1.len / 8)
    l1.bytes (by simp; omega) hsrc
  rw [Nat.zero_add] at h
  refine ⟨_, h, by simp, fun p => ?_⟩
  rw [bitAt_writeFrom, bitAt_take]
  by_cases hp : p / 8 < l1.len / 8
  · have hlen : p / 8 < (l1.len + l2.len) / 8 + 1 := by omega
    simp [hp, hlen, hsrc]
  · simp [hp]

/-- The byte-aligned case brings the bytes to the concatenation. -/
theorem extendAligned_spec (hr : l1.len % 8 = 0) {bytes : List UInt8}
    (hlen : bytes.length = (l1.len + l2.len) / 8 + 1)
    (hbits : ∀ p, bitAt bytes p = (decide (p / 8 < l1.len / 8) && bitAt l1.bytes p)) :
    ∃ out, extendAligned bytes l2.bytes (l1.len / 8) l2.len = some out ∧
      out.length = (l1.len + l2.len) / 8 + 1 ∧ ∀ p, bitAt out p = concatBit l1 l2 p := by
  have hsrc : l2.len / 8 ≤ l2.bytes.length := by
    rw [l2.length_bytes, bytesForBitLen]
    omega
  have hcopy := @copySlice_of_le bytes (l1.len / 8) (l2.len / 8) l2.bytes (by omega) hsrc
  -- the whole bytes of the second list, in place after the first's
  have hmid : ∀ p, l1.len ≤ p → p / 8 < l1.len / 8 + l2.len / 8 →
      bitAt (FixedVector.writeFrom (l1.len / 8) (l2.bytes.take (l2.len / 8)) bytes) p =
        bitAt l2.bytes (p - l1.len) := by
    intro p hp hlt
    have hdiv : (p - 8 * (l1.len / 8)) / 8 < l2.len / 8 := by omega
    rw [bitAt_writeFrom, if_pos (by simp [hsrc]; omega), bitAt_take]
    simp only [hdiv, decide_true, Bool.true_and]
    congr 1
    omega
  have hrest : ∀ p, p / 8 < l1.len / 8 ∨ l1.len / 8 + l2.len / 8 ≤ p / 8 →
      bitAt (FixedVector.writeFrom (l1.len / 8) (l2.bytes.take (l2.len / 8)) bytes) p =
        bitAt bytes p := by
    intro p hp
    rw [bitAt_writeFrom, if_neg (by simp [hsrc]; omega)]
  unfold extendAligned
  simp only [hcopy, Option.bind_eq_bind, Option.bind_some]
  by_cases h2 : l2.len % 8 = 0
  · -- no partial byte: what is left of the second list is clear
    refine ⟨FixedVector.writeFrom (l1.len / 8) (l2.bytes.take (l2.len / 8)) bytes, by simp [h2],
      by simp [hlen], fun p => ?_⟩
    by_cases hp : p < l1.len
    · rw [concatBit_of_lt l1 l2 hp, hrest p (by omega), hbits]
      simp [show p / 8 < l1.len / 8 by omega]
    · by_cases hlt : p / 8 < l1.len / 8 + l2.len / 8
      · rw [concatBit_of_le l1 l2 (by omega), hmid p (by omega) hlt]
      · rw [concatBit_of_add_le l1 l2 (by omega), hrest p (by omega), hbits]
        simp [show ¬ p / 8 < l1.len / 8 by omega]
  · -- the partial byte of the second list goes after its whole bytes
    have hb : l2.len / 8 < l2.bytes.length := by
      rw [l2.length_bytes, bytesForBitLen]
      omega
    have hk : l1.len / 8 + l2.len / 8 <
        (FixedVector.writeFrom (l1.len / 8) (l2.bytes.take (l2.len / 8)) bytes).length := by
      simp
      omega
    refine ⟨(FixedVector.writeFrom (l1.len / 8) (l2.bytes.take (l2.len / 8)) bytes).set
      (l1.len / 8 + l2.len / 8) l2.bytes[l2.len / 8],
      by simp [h2, List.getElem?_eq_getElem hb, setByte_of_lt hk], by simp [hlen], fun p => ?_⟩
    rw [bitAt_set hk]
    by_cases hp : p < l1.len
    · rw [concatBit_of_lt l1 l2 hp, if_neg (by omega), hrest p (by omega), hbits]
      simp [show p / 8 < l1.len / 8 by omega]
    · rw [concatBit_of_le l1 l2 (by omega)]
      by_cases hlt : p / 8 < l1.len / 8 + l2.len / 8
      · rw [if_neg (by omega), hmid p (by omega) hlt]
      · by_cases heq : p / 8 = l1.len / 8 + l2.len / 8
        · rw [if_pos heq]
          have hq : p - l1.len = 8 * (l2.len / 8) + p % 8 := by omega
          rw [hq, bitAt_eq_of_getElem? (List.getElem?_eq_getElem hb) _ (Nat.mod_lt _ (by decide))]
        · rw [if_neg heq, hrest p (by omega), hbits, l2.high_clear _ (by omega)]
          simp [show ¬ p / 8 < l1.len / 8 by omega]

/-- The invariant of the unaligned case after `k` bytes of the second list: the first list's
bits, then the second list's first `8 * k` bits after them. -/
structure ShiftOrInv (k : Nat) (bytes : List UInt8) : Prop where
  length_eq : bytes.length = (l1.len + l2.len) / 8 + 1
  bitAt_eq : ∀ p, bitAt bytes p = (bitAt l1.bytes p ||
    decide (l1.len ≤ p) && decide (p < l1.len + 8 * k) && bitAt l2.bytes (p - l1.len))

/-- The first list's partial byte starts the loop's invariant. -/
theorem shiftOrInv_partialByte {bytes : List UInt8}
    (hlen : bytes.length = (l1.len + l2.len) / 8 + 1)
    (hbits : ∀ p, bitAt bytes p = (decide (p / 8 < l1.len / 8) && bitAt l1.bytes p)) :
    ∃ out, (if l1.len / 8 < l1.bytes.length then do
        let b ← l1.bytes[l1.len / 8]?
        setByte bytes (l1.len / 8) b
      else pure bytes) = some out ∧ ShiftOrInv l1 l2 0 out := by
  -- below the partial byte the copy holds the first list, above it the first list is clear
  have hold : ∀ p, p / 8 ≠ l1.len / 8 → bitAt bytes p = bitAt l1.bytes p := by
    intro p hp
    rw [hbits]
    by_cases hlt : p / 8 < l1.len / 8
    · simp [hlt]
    · simp [hlt, l1.high_clear p (by omega)]
  have hinv : ∀ out, out.length = (l1.len + l2.len) / 8 + 1 →
      (∀ p, bitAt out p = bitAt l1.bytes p) → ShiftOrInv l1 l2 0 out := by
    intro out hlen' hbits'
    refine ⟨hlen', fun p => ?_⟩
    rw [hbits']
    by_cases hp : l1.len ≤ p
    · simp [hp, l1.high_clear p hp]
    · simp [hp]
  by_cases hf : l1.len / 8 < l1.bytes.length
  · have hk : l1.len / 8 < bytes.length := by omega
    refine ⟨bytes.set (l1.len / 8) l1.bytes[l1.len / 8], by
      simp [hf, setByte_of_lt hk], hinv _ (by simp [hlen]) ?_⟩
    intro p
    rw [bitAt_set hk]
    by_cases hp : p / 8 = l1.len / 8
    · rw [if_pos hp]
      have hq : p = 8 * (l1.len / 8) + p % 8 := by omega
      rw [hq, bitAt_eq_of_getElem? (List.getElem?_eq_getElem hf) _ (Nat.mod_lt _ (by decide))]
      congr 1
      omega
    · rw [if_neg hp, hold p hp]
  · refine ⟨bytes, by simp [hf], hinv _ hlen fun p => ?_⟩
    by_cases hp : p / 8 = l1.len / 8
    · rw [hbits, bitAt_of_length_le (by omega)]
      simp
    · exact hold p hp

/-- One pass of the loop or-s in byte `k` of the second list, bit `q` of it at
`len1 + 8 * k + q`; a bit that would land past the output is clear in the second list. -/
theorem ShiftOrInv.step (hr : l1.len % 8 ≠ 0) {k : Nat} {b : UInt8} {bytes : List UInt8}
    (hb : l2.bytes[k]? = some b) (hinv : ShiftOrInv l1 l2 k bytes) :
    ∃ mid, orByte bytes (l1.len / 8 + k) (b <<< (l1.len % 8).toUInt8) = some mid ∧
      ∃ out, (if l1.len / 8 + k + 1 < (l1.len + l2.len) / 8 + 1 then
          orByte mid (l1.len / 8 + k + 1) (b >>> (8 - l1.len % 8).toUInt8)
        else pure mid) = some out ∧ ShiftOrInv l1 l2 (k + 1) out := by
  have hk2 : k < l2.bytes.length := (List.getElem?_eq_some_iff.1 hb).1
  have hk : l1.len / 8 + k < bytes.length := by
    rw [hinv.length_eq]
    have := l2.length_bytes
    rw [bytesForBitLen] at this
    omega
  have hr8 : l1.len % 8 < 8 := Nat.mod_lt _ (by decide)
  have hstart : 8 * (l1.len / 8 + k) + l1.len % 8 = l1.len + 8 * k := by omega
  -- inside the byte's window its bits are the second list's; past it they are clear
  have hwin : ∀ p, l1.len + 8 * k ≤ p → p < l1.len + 8 * k + 8 →
      b.toNat.testBit (p - (l1.len + 8 * k)) = bitAt l2.bytes (p - l1.len) := by
    intro p hlo hhi
    have hq : p - l1.len = 8 * k + (p - (l1.len + 8 * k)) := by omega
    rw [hq, bitAt_eq_of_getElem? hb _ (by omega)]
  have hpast : ∀ p, l1.len + 8 * k + 8 ≤ p → b.toNat.testBit (p - (l1.len + 8 * k)) = false :=
    fun p hp => testBit_toNat_of_le b (by omega)
  obtain ⟨mid, hmid⟩ : ∃ mid, orByte bytes (l1.len / 8 + k) (b <<< (l1.len % 8).toUInt8) =
      some mid := ⟨_, orByte_of_lt hk _⟩
  have hmidlen : mid.length = (l1.len + l2.len) / 8 + 1 := by
    rw [length_of_orByte hmid, hinv.length_eq]
  have hmidbits := bitAt_orByte_shiftLeft hr8 hmid
  rw [hstart] at hmidbits
  refine ⟨mid, hmid, ?_⟩
  by_cases hnext : l1.len / 8 + k + 1 < (l1.len + l2.len) / 8 + 1
  · obtain ⟨out, hout⟩ : ∃ out, orByte mid (l1.len / 8 + k + 1)
        (b >>> (8 - l1.len % 8).toUInt8) = some out := ⟨_, orByte_of_lt (by omega) _⟩
    have houtbits := bitAt_orByte_shiftRight (by omega) hr8 hout
    rw [hstart] at houtbits
    refine ⟨out, by rw [if_pos hnext, hout], ⟨by rw [length_of_orByte hout, hmidlen], ?_⟩⟩
    intro p
    rw [houtbits, hmidbits, hinv.bitAt_eq]
    by_cases hlo : p < l1.len + 8 * k
    · have h1 : ¬ l1.len + 8 * k ≤ p := by omega
      have h2 : p / 8 ≠ l1.len / 8 + k + 1 := by omega
      have h3 : p < l1.len + 8 * (k + 1) := by omega
      simp [hlo, h1, h2, h3]
    · by_cases hhi : p < l1.len + 8 * k + 8
      · have hp1 : l1.len ≤ p := by omega
        rw [hwin p (by omega) hhi, l1.high_clear p hp1]
        have h3 : p < l1.len + 8 * (k + 1) := by omega
        rcases (by omega : p / 8 = l1.len / 8 + k ∨ p / 8 = l1.len / 8 + k + 1) with h | h
        · simp [hlo, h, hp1, h3, show l1.len + 8 * k ≤ p by omega]
        · simp [hlo, h, hp1, h3]
      · have h3 : ¬ p < l1.len + 8 * (k + 1) := by omega
        simp [hlo, h3, hpast p (by omega)]
  · -- the top bits of the last byte fall past the output, where the second list is clear
    refine ⟨mid, by rw [if_neg hnext]; rfl, ⟨hmidlen, fun p => ?_⟩⟩
    rw [hmidbits, hinv.bitAt_eq]
    by_cases hlo : p < l1.len + 8 * k
    · have h1 : ¬ l1.len + 8 * k ≤ p := by omega
      have h3 : p < l1.len + 8 * (k + 1) := by omega
      simp [hlo, h1, h3]
    · by_cases hhi : p < l1.len + 8 * k + 8
      · have hp1 : l1.len ≤ p := by omega
        rw [hwin p (by omega) hhi, l1.high_clear p hp1]
        have h3 : p < l1.len + 8 * (k + 1) := by omega
        by_cases h : p / 8 = l1.len / 8 + k
        · simp [hlo, h, hp1, h3, show l1.len + 8 * k ≤ p by omega]
        · rw [l2.high_clear _ (by omega)]
          simp [hlo, h]
      · have h3 : ¬ p < l1.len + 8 * (k + 1) := by omega
        simp [hlo, h3, hpast p (by omega)]

/-- The loop keeps the invariant over the bytes of the second list from `k` on. -/
theorem shiftOrLoop_spec (hr : l1.len % 8 ≠ 0) :
    ∀ (rest : List UInt8) (k : Nat) (bytes : List UInt8), l2.bytes.drop k = rest →
      ShiftOrInv l1 l2 k bytes →
      ∃ out, shiftOrLoop ((l1.len + l2.len) / 8 + 1) (l1.len / 8) (l1.len % 8) k rest bytes =
        some out ∧ ShiftOrInv l1 l2 (k + rest.length) out
  | [], k, bytes, _, hinv => ⟨bytes, rfl, hinv⟩
  | b :: rest, k, bytes, hdrop, hinv => by
    have hb : l2.bytes[k]? = some b := by
      rw [← List.head?_drop, hdrop]
      rfl
    have hrest : l2.bytes.drop (k + 1) = rest := by
      rw [← List.tail_drop, hdrop]
      rfl
    obtain ⟨mid, hmid, out, hout, hinv'⟩ := hinv.step l1 l2 hr hb
    obtain ⟨out', hloop, hinv''⟩ := shiftOrLoop_spec hr rest (k + 1) out hrest hinv'
    refine ⟨out', ?_, ?_⟩
    · simp only [shiftOrLoop, hmid, Option.bind_eq_bind, Option.bind_some]
      rw [← apply_ite (fun z => Option.bind z _), hout, Option.bind_some]
      exact hloop
    · simpa [Nat.add_assoc, Nat.add_comm 1] using hinv''

/-- The unaligned case brings the bytes to the concatenation. -/
theorem extendUnaligned_spec (hr : l1.len % 8 ≠ 0) {bytes : List UInt8}
    (hlen : bytes.length = (l1.len + l2.len) / 8 + 1)
    (hbits : ∀ p, bitAt bytes p = (decide (p / 8 < l1.len / 8) && bitAt l1.bytes p)) :
    ∃ out, extendUnaligned bytes l1.bytes l2.bytes ((l1.len + l2.len) / 8 + 1) (l1.len / 8)
        (l1.len % 8) = some out ∧
      out.length = (l1.len + l2.len) / 8 + 1 ∧ ∀ p, bitAt out p = concatBit l1 l2 p := by
  obtain ⟨start, hstart, hinv₀⟩ := shiftOrInv_partialByte l1 l2 hlen hbits
  obtain ⟨out, hloop, hinv⟩ := shiftOrLoop_spec l1 l2 hr l2.bytes 0 start rfl hinv₀
  rw [Nat.zero_add] at hinv
  refine ⟨out, ?_, hinv.length_eq, fun p => ?_⟩
  · simp only [extendUnaligned, Option.bind_eq_bind] at hstart ⊢
    rw [← Option.bind_assoc, ← apply_ite (fun z => Option.bind z _), hstart, Option.bind_some]
    exact hloop
  · -- after the whole second list the window bound no longer matters
    rw [hinv.bitAt_eq, concatBit]
    by_cases hp : p < l1.len + 8 * l2.bytes.length
    · simp [hp]
    · by_cases hp1 : l1.len ≤ p
      · rw [bitAt_of_length_le (show l2.bytes.length ≤ (p - l1.len) / 8 by omega)]
        simp
      · simp [hp1]

/-- The sentinel goes at the new length. -/
theorem orByte_sentinel {bytes : List UInt8} (hlen : bytes.length = (l1.len + l2.len) / 8 + 1)
    (hbits : ∀ p, bitAt bytes p = concatBit l1 l2 p) :
    ∃ out, orByte bytes ((l1.len + l2.len) / 8)
        ((1 : UInt8) <<< ((l1.len + l2.len) % 8).toUInt8) = some out ∧
      out.length = (l1.len + l2.len) / 8 + 1 ∧
      ∀ p, bitAt out p = (concatBit l1 l2 p || decide (p = l1.len + l2.len)) := by
  obtain ⟨out, hout⟩ : ∃ out, orByte bytes ((l1.len + l2.len) / 8)
      ((1 : UInt8) <<< ((l1.len + l2.len) % 8).toUInt8) = some out :=
    ⟨_, orByte_of_lt (by omega) _⟩
  refine ⟨out, hout, by rw [length_of_orByte hout, hlen], fun p => ?_⟩
  rw [bitAt_orByte hout, testBit_one_shiftLeft (Nat.mod_lt _ (by decide)), hbits]
  have hiff : (p / 8 = (l1.len + l2.len) / 8 ∧ p % 8 = (l1.len + l2.len) % 8) ↔
      p = l1.len + l2.len := by omega
  simp [← hiff]

end Stages

/-! ## Concatenation -/

section Extend

variable {fromBytes : List UInt8 → Option (BitList N)} (l1 l2 : BitList N)

/-- Lists over `N` together are refused. -/
theorem bitlistExtend_of_lt (h : N < l1.len + l2.len) :
    bitlistExtend fromBytes l1 l2 = some none := by
  simp [bitlistExtend, h]

/-- Lists that fit in `N` are concatenated, with no out-of-bounds access on the way. -/
theorem bitlistExtend_of_le (hdec : DecodesSentinel fromBytes) (h : l1.len + l2.len ≤ N) :
    ∃ l, bitlistExtend fromBytes l1 l2 = some (some l) ∧ l.len = l1.len + l2.len ∧
      ∀ p, bitAt l.bytes p = (decide (p < l1.len + l2.len) && concatBit l1 l2 p) := by
  obtain ⟨b₁, hb₁, hlen₁, hbits₁⟩ := copySlice_first l1 l2
  obtain ⟨b₂, hb₂, hlen₂, hbits₂⟩ : ∃ b₂, (if l1.len % 8 = 0 then
        extendAligned b₁ l2.bytes (l1.len / 8) l2.len
      else extendUnaligned b₁ l1.bytes l2.bytes ((l1.len + l2.len) / 8 + 1) (l1.len / 8)
        (l1.len % 8)) = some b₂ ∧
      b₂.length = (l1.len + l2.len) / 8 + 1 ∧ ∀ p, bitAt b₂ p = concatBit l1 l2 p := by
    by_cases hr : l1.len % 8 = 0
    · rw [if_pos hr]
      exact extendAligned_spec l1 l2 hr hlen₁ hbits₁
    · rw [if_neg hr]
      exact extendUnaligned_spec l1 l2 hr hlen₁ hbits₁
  obtain ⟨b₃, hb₃, hlen₃, hbits₃⟩ := orByte_sentinel l1 l2 hlen₂ hbits₂
  -- the bytes encode the concatenation, so the decoder accepts them
  have hset : bitAt b₃ (l1.len + l2.len) = true := by
    simp [hbits₃]
  have hhigh : ∀ i, l1.len + l2.len < i → bitAt b₃ i = false := by
    intro i hi
    rw [hbits₃, concatBit_of_add_le l1 l2 (Nat.le_of_lt hi)]
    simp [Nat.ne_of_gt hi]
  obtain ⟨l, hl, hllen, hlbits⟩ := hdec hlen₃ hset hhigh h
  refine ⟨l, ?_, hllen, fun p => ?_⟩
  · simp only [bitlistExtend, gt_iff_lt, Nat.not_lt.2 h, if_false, numBytes_eq, hb₁,
      Option.bind_eq_bind, Option.bind_some]
    rw [← apply_ite (fun z => Option.bind z _), hb₂]
    simp [hb₃, hl]
  · rw [hlbits, hbits₃]
    by_cases hp : p < l1.len + l2.len
    · simp [hp, Nat.ne_of_lt hp]
    · simp [hp]

/-- A concatenation read through `get`: the first list, then the second. -/
theorem get_of_bitlistExtend (hdec : DecodesSentinel fromBytes) {l : BitList N}
    (h : bitlistExtend fromBytes l1 l2 = some (some l)) :
    l.len = l1.len + l2.len ∧ (∀ i < l1.len, l.get i = l1.get i) ∧
      ∀ j < l2.len, l.get (l1.len + j) = l2.get j := by
  have hfit : l1.len + l2.len ≤ N := by
    by_contra hlt
    rw [bitlistExtend_of_lt l1 l2 (by omega)] at h
    cases h
  obtain ⟨l', hl', hlen, hbits⟩ := bitlistExtend_of_le l1 l2 hdec hfit
  obtain rfl : l = l' := by
    rw [hl'] at h
    exact (Option.some.inj (Option.some.inj h)).symm
  refine ⟨hlen, fun i hi => ?_, fun j hj => ?_⟩
  · have hi' : i < l.len := by omega
    have hin : i < l1.len + l2.len := by omega
    simp [BitList.get, hi, hi', hin, hbits, concatBit_of_lt l1 l2 hi]
  · have hj' : l1.len + j < l.len := by omega
    simp [BitList.get, hj, hj', hbits, concatBit_of_le l1 l2 (Nat.le_add_right _ j)]

/-- `bitlist_extend` refuses exactly the lists over `N` together, and otherwise concatenates
them without an out-of-bounds access, for every decoder with the decoding hypothesis. -/
theorem bitlist_extend_concatenates (hdec : DecodesSentinel fromBytes) :
    ∃ r, bitlistExtend fromBytes l1 l2 = some r ∧ (r = none ↔ N < l1.len + l2.len) ∧
      ∀ l, r = some l → l.len = l1.len + l2.len ∧
        (∀ i < l1.len, l.get i = l1.get i) ∧ ∀ j < l2.len, l.get (l1.len + j) = l2.get j := by
  by_cases h : N < l1.len + l2.len
  · exact ⟨none, bitlistExtend_of_lt l1 l2 h, by simp [h], fun l hl => by cases hl⟩
  · obtain ⟨l, hl, -⟩ := bitlistExtend_of_le l1 l2 hdec (by omega)
    refine ⟨some l, hl, by simp [h], fun l' hl' => ?_⟩
    cases hl'
    exact get_of_bitlistExtend l1 l2 hdec hl

end Extend

/-- Five bits and three of a bound of 8, with `ofSentinelBytes` as the decoder: the first
list's partial byte is followed by the second list shifted across two bytes. -/
theorem bitlist_extend_concatenates_unaligned :
    let l1 : BitList 8 := ⟨5, [0b10101], by decide, rfl, BitList.high_clear_of_lt (by decide)⟩
    let l2 : BitList 8 := ⟨3, [0b110], by decide, rfl, BitList.high_clear_of_lt (by decide)⟩
    DecodesSentinel (ofSentinelBytes 8) ∧
      ∃ r, bitlistExtend (ofSentinelBytes 8) l1 l2 = some r ∧ (r = none ↔ 8 < l1.len + l2.len) ∧
        ∀ l, r = some l → l.len = l1.len + l2.len ∧
          (∀ i < l1.len, l.get i = l1.get i) ∧ ∀ j < l2.len, l.get (l1.len + j) = l2.get j :=
  ⟨decodesSentinel_ofSentinelBytes 8,
    bitlist_extend_concatenates _ _ (decodesSentinel_ofSentinelBytes 8)⟩

/-! ## Aggregation across committees -/

/-- `CompactIndexedAttestationElectra`: the attesting validators' indices in increasing order,
the aggregation bits of its committees one after another (a bitlist of `N`, the
MaxValidatorsPerSlot), the signature, and the committee bits (a bitvector of `M`, the
MaxCommitteesPerSlot). -/
structure CompactIndexedAttestationElectra (N M : Nat) (Sig : Type) where
  attestingIndices : List Nat
  aggregationBits : BitList N
  signature : Sig
  committeeBits : Vector Bool M

/-- Rust's order on `Option`: `None` below every `Some`. -/
def optionGe : Option Nat → Option Nat → Bool
  | _, none => true
  | none, some _ => false
  | some a, some b => decide (b ≤ a)

/-- `merge` then `dedup` of itertools on two increasing lists of indices. -/
def mergeDedup (xs ys : List Nat) : List Nat :=
  (List.merge xs ys fun a b => decide (a ≤ b)).destutter (· ≠ ·)

section Aggregate

variable {M : Nat} {Sig : Type} (ops : BitVectorOps M)
  (fromBytes : List UInt8 → Option (BitList N)) (aggregate : Sig → Sig → Sig)

/-- `aggregate_with_disjoint_committees`: its result and the attestation after the call, `none`
for a panic; `aggregate` is `add_assign_aggregate` of the signatures. -/
def aggregateWithDisjointCommittees (self other : CompactIndexedAttestationElectra N M Sig) :
    Option (Option Unit × CompactIndexedAttestationElectra N M Sig) := do
  if !ops.isZero (ops.intersection self.committeeBits other.committeeBits) then
    return (none, self)
  -- the attestation aggregated in has one committee
  if ops.numSetBits other.committeeBits ≠ 1 then return (none, self)
  -- committees in increasing order, so that the aggregation bits can be appended
  if optionGe (ops.highestSetBit self.committeeBits)
      (ops.highestSetBit other.committeeBits) then
    return (none, self)
  let self := { self with
    committeeBits := ops.union self.committeeBits other.committeeBits }
  match ← bitlistExtend fromBytes self.aggregationBits other.aggregationBits with
  | some aggBits =>
    return (some (), { self with
      aggregationBits := aggBits
      attestingIndices := mergeDedup self.attestingIndices other.attestingIndices
      signature := aggregate self.signature other.signature })
  | none => return (none, self)

/-- `compute_on_chain_aggregate` over the map's entries in increasing committee index: the first
attestation, with each later one aggregated in and the result of each call ignored; `none` for a
panic, `some none` for an empty map. -/
def computeOnChainAggregate :
    List (Nat × CompactIndexedAttestationElectra N M Sig) →
      Option (Option (CompactIndexedAttestationElectra N M Sig))
  | [] => some none
  | (_, first) :: rest =>
    some <$> rest.foldlM
      (fun acc entry => Prod.snd <$> aggregateWithDisjointCommittees ops fromBytes aggregate acc
        entry.2) first

variable (a b : CompactIndexedAttestationElectra N M Sig)

/-- The checks before anything is written: disjoint committees, one committee aggregated in,
and committees in increasing order. -/
def DisjointChecks : Prop :=
  ops.isZero (ops.intersection a.committeeBits b.committeeBits) = true ∧
    ops.numSetBits b.committeeBits = 1 ∧
    optionGe (ops.highestSetBit a.committeeBits)
      (ops.highestSetBit b.committeeBits) = false

/-- Past the checks, lists over `N` return `None` with the committee bits already joined: the
attestation names a committee whose aggregation bits it does not hold. -/
theorem aggregateWithDisjointCommittees_of_lt (hc : DisjointChecks ops a b)
    (h : N < a.aggregationBits.len + b.aggregationBits.len) :
    aggregateWithDisjointCommittees ops fromBytes aggregate a b =
      some (none, { a with committeeBits := ops.union a.committeeBits b.committeeBits }) := by
  obtain ⟨h1, h2, h3⟩ := hc
  simp [aggregateWithDisjointCommittees, h1, h2, h3,
    bitlistExtend_of_lt a.aggregationBits b.aggregationBits h]

end Aggregate

/-- An attestation of committee 0 whose two aggregation bits fill the bound `N = 2`. -/
def fullCommitteeAttestation : CompactIndexedAttestationElectra 2 2 Unit where
  attestingIndices := [0, 1]
  aggregationBits := ⟨2, [3], le_refl 2, rfl, BitList.high_clear_of_lt (by decide)⟩
  signature := ()
  committeeBits := #v[true, false]

/-- An attestation of committee 1 with one aggregation bit. -/
def nextCommitteeAttestation : CompactIndexedAttestationElectra 2 2 Unit where
  attestingIndices := [2]
  aggregationBits := ⟨1, [1], by decide, rfl, BitList.high_clear_of_lt (by decide)⟩
  signature := ()
  committeeBits := #v[false, true]

/-- With lawful bitvector operations and any decoder, aggregating the second attestation into
the first fails after the committee bits were joined, and the on-chain aggregate keeps the
joined bits. -/
theorem aggregate_with_disjoint_committees_partial_write (ops : BitVectorOps 2)
    (hops : ops.Lawful) (fromBytes : List UInt8 → Option (BitList 2)) :
    aggregateWithDisjointCommittees ops fromBytes (fun _ _ => ()) fullCommitteeAttestation
        nextCommitteeAttestation =
      some (none, { fullCommitteeAttestation with committeeBits := #v[true, true] }) ∧
    fullCommitteeAttestation.committeeBits ≠ #v[true, true] ∧
    computeOnChainAggregate ops fromBytes (fun _ _ => ())
        [(0, fullCommitteeAttestation), (1, nextCommitteeAttestation)] =
      some (some { fullCommitteeAttestation with committeeBits := #v[true, true] }) := by
  have hhigh₀ : ops.highestSetBit fullCommitteeAttestation.committeeBits = some 0 :=
    hops.highestSetBit_eq_some _ 0 (by decide) rfl fun j hj hij => by
      obtain rfl : j = 1 := by omega
      rfl
  have hhigh₁ : ops.highestSetBit nextCommitteeAttestation.committeeBits = some 1 :=
    hops.highestSetBit_eq_some _ 1 (by decide) rfl fun j hj hij => by omega
  have hchecks : DisjointChecks ops fullCommitteeAttestation nextCommitteeAttestation := by
    refine ⟨(hops.isZero_iff _).2 fun i hi => ?_, by rw [hops.numSetBits_eq]; rfl, ?_⟩
    · rw [hops.getElem_intersection]
      obtain rfl | rfl : i = 0 ∨ i = 1 := by omega
      all_goals rfl
    · rw [hhigh₀, hhigh₁]
      rfl
  have hunion : ops.union fullCommitteeAttestation.committeeBits
      nextCommitteeAttestation.committeeBits = #v[true, true] := by
    ext i hi
    rw [hops.getElem_union]
    obtain rfl | rfl : i = 0 ∨ i = 1 := by omega
    all_goals rfl
  have hcall := aggregateWithDisjointCommittees_of_lt ops fromBytes (fun _ _ => ()) _ _ hchecks
    (by decide)
  rw [hunion] at hcall
  refine ⟨hcall, by decide, ?_⟩
  simp [computeOnChainAggregate, hcall]

/-- The partial write with the bitvector operations computed bit by bit and `ofSentinelBytes`
as the decoder. -/
theorem aggregate_with_disjoint_committees_partial_write_bitwise :
    (BitVectorOps.bitwise 2).Lawful ∧
    aggregateWithDisjointCommittees (BitVectorOps.bitwise 2) (ofSentinelBytes 2) (fun _ _ => ())
        fullCommitteeAttestation nextCommitteeAttestation =
      some (none, { fullCommitteeAttestation with committeeBits := #v[true, true] }) ∧
    fullCommitteeAttestation.committeeBits ≠ #v[true, true] ∧
    computeOnChainAggregate (BitVectorOps.bitwise 2) (ofSentinelBytes 2) (fun _ _ => ())
        [(0, fullCommitteeAttestation), (1, nextCommitteeAttestation)] =
      some (some { fullCommitteeAttestation with committeeBits := #v[true, true] }) :=
  ⟨BitVectorOps.lawful_bitwise 2, aggregate_with_disjoint_committees_partial_write _
    (BitVectorOps.lawful_bitwise 2) (ofSentinelBytes 2)⟩

end Vibehouse.OperationPool
