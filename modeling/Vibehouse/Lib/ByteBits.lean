import Mathlib.Data.Nat.Bitwise
import Vibehouse.Lib.FixedVector

/-! # Bits of byte strings

A byte string read as bits: the bytes in order and the bits of each byte from the least
significant, so that bit `i` is bit `i % 8` of byte `i / 8`, and a bit past the end is clear.
This is the layout of an SSZ bitlist. The module states how the bits move under the writes that
build such a string in place: storing a byte, or-ing a byte in, copying a run of bytes, and the
two shifts of a byte. Each write panics out of bounds, and is `none` there. -/

namespace ByteBits

/-- Bit `i` of `bytes`. -/
def bitAt (bytes : List UInt8) (i : Nat) : Bool :=
  (bytes.getD (i / 8) 0).toNat.testBit (i % 8)

theorem bitAt_of_length_le {bytes : List UInt8} {i : Nat} (h : bytes.length ≤ i / 8) :
    bitAt bytes i = false := by
  simp [bitAt, List.getD_eq_getElem?_getD, List.getElem?_eq_none h]

@[simp] theorem bitAt_replicate_zero (n i : Nat) : bitAt (List.replicate n 0) i = false := by
  simp only [bitAt, List.getD_eq_getElem?_getD, List.getElem?_replicate]
  split <;> simp

/-- A byte has no bit from 8 on. -/
theorem testBit_toNat_of_le (b : UInt8) {q : Nat} (hq : 8 ≤ q) : b.toNat.testBit q = false :=
  Nat.testBit_lt_two_pow (Nat.lt_of_lt_of_le (UInt8.toNat_lt b) (Nat.pow_le_pow_right (by decide) hq))

/-- A bit of `bytes` is a bit of the byte that holds it. -/
theorem bitAt_eq_of_getElem? {bytes : List UInt8} {k : Nat} {b : UInt8} (h : bytes[k]? = some b)
    (q : Nat) (hq : q < 8) : bitAt bytes (8 * k + q) = b.toNat.testBit q := by
  have hdiv : (8 * k + q) / 8 = k := by omega
  have hmod : (8 * k + q) % 8 = q := by omega
  simp [bitAt, hdiv, hmod, List.getD_eq_getElem?_getD, h]

/-! ## The shifts of a byte -/

section Shifts

variable (b : UInt8) {r : Nat}

theorem toNat_toUInt8_of_lt (hr : r < 8) : (r.toUInt8).toNat % 8 = r := by
  rw [Nat.toUInt8, UInt8.toNat_ofNat', Nat.mod_eq_of_lt (show r < 2 ^ 8 by omega),
    Nat.mod_eq_of_lt hr]

/-- `b << r` for `r < 8`: the bits of `b` moved up by `r`, those past the byte dropped. -/
theorem testBit_shiftLeft (hr : r < 8) (q : Nat) :
    (b <<< r.toUInt8).toNat.testBit q =
      (decide (q < 8) && decide (r ≤ q) && b.toNat.testBit (q - r)) := by
  rw [UInt8.toNat_shiftLeft, toNat_toUInt8_of_lt hr, Nat.testBit_mod_two_pow,
    Nat.testBit_shiftLeft, Bool.and_assoc]

/-- `b >> r` for `r < 8`: the bits of `b` moved down by `r`. -/
theorem testBit_shiftRight (hr : r < 8) (q : Nat) :
    (b >>> r.toUInt8).toNat.testBit q = b.toNat.testBit (r + q) := by
  rw [UInt8.toNat_shiftRight, toNat_toUInt8_of_lt hr, Nat.testBit_shiftRight]

theorem testBit_or (b' : UInt8) (q : Nat) :
    (b ||| b').toNat.testBit q = (b.toNat.testBit q || b'.toNat.testBit q) := by
  rw [UInt8.toNat_or, Nat.testBit_or]

/-- The eight one-bit masks and their complements, bit by bit. -/
private theorem testBit_masks : ∀ r q : Fin 8,
    ((1 : UInt8) <<< r.val.toUInt8).toNat.testBit q.val = decide (q = r) ∧
      (~~~((1 : UInt8) <<< r.val.toUInt8)).toNat.testBit q.val = decide (q ≠ r) := by
  decide

/-- `1 << r`, the byte with bit `r` alone set. -/
theorem testBit_one_shiftLeft (hr : r < 8) (q : Nat) :
    ((1 : UInt8) <<< r.toUInt8).toNat.testBit q = decide (q = r) := by
  by_cases hq : q < 8
  · simpa [Fin.ext_iff] using (testBit_masks ⟨r, hr⟩ ⟨q, hq⟩).1
  · rw [testBit_toNat_of_le _ (by omega)]
    simp only [Bool.false_eq, decide_eq_false_iff_not]
    omega

/-- `b & !(1 << r)` clears bit `r` of `b` and keeps the others. -/
theorem testBit_and_not_one_shiftLeft (hr : r < 8) (q : Nat) :
    (b &&& ~~~((1 : UInt8) <<< r.toUInt8)).toNat.testBit q = (b.toNat.testBit q && decide (q ≠ r)) := by
  rw [UInt8.toNat_and, Nat.testBit_and]
  by_cases hq : q < 8
  · have hmask := (testBit_masks ⟨r, hr⟩ ⟨q, hq⟩).2
    simp only [ne_eq, Fin.ext_iff] at hmask
    rw [hmask]
  · simp [testBit_toNat_of_le b (Nat.le_of_not_lt hq)]

end Shifts

/-! ## The highest set bit -/

/-- No bit is set above `log2`. -/
theorem testBit_of_log2_lt {n q : Nat} (hq : n.log2 < q) : n.testBit q = false :=
  Nat.testBit_lt_two_pow (Nat.lt_of_lt_of_le Nat.lt_log2_self (Nat.pow_le_pow_right (by decide) hq))

/-- `log2` is the set bit with no set bit above it. -/
theorem log2_eq_of_testBit {n r : Nat} (hr : n.testBit r = true)
    (hhigh : ∀ q, r < q → n.testBit q = false) : n.log2 = r := by
  have hn : n ≠ 0 := by
    rintro rfl
    simp at hr
  refine (Nat.log2_eq_iff hn).2 ⟨Nat.ge_two_pow_of_testBit hr, ?_⟩
  exact Nat.lt_pow_two_of_testBit n fun i hi => hhigh i (by omega)

theorem log2_toNat_lt (b : UInt8) : b.toNat.log2 < 8 := by
  by_cases hb : b.toNat = 0
  · simp [hb]
  · exact (Nat.log2_lt hb).2 (UInt8.toNat_lt b)

/-! ## Writes -/

section Writes

variable {bytes out : List UInt8}

/-- `bytes[k] = b`. -/
def setByte (bytes : List UInt8) (k : Nat) (b : UInt8) : Option (List UInt8) :=
  if k < bytes.length then some (bytes.set k b) else none

/-- `bytes[k] |= b`. -/
def orByte (bytes : List UInt8) (k : Nat) (b : UInt8) : Option (List UInt8) :=
  match bytes[k]? with
  | some old => some (bytes.set k (old ||| b))
  | none => none

/-- `dst[lo..hi].copy_from_slice(&src[..n])`, which panics unless both ranges exist and have
one length. -/
def copySlice (dst : List UInt8) (lo hi : Nat) (src : List UInt8) (n : Nat) :
    Option (List UInt8) :=
  if lo ≤ hi ∧ hi ≤ dst.length ∧ n ≤ src.length ∧ hi - lo = n then
    some (FixedVector.writeFrom lo (src.take n) dst)
  else none

theorem setByte_of_lt {k : Nat} (hk : k < bytes.length) (b : UInt8) :
    setByte bytes k b = some (bytes.set k b) :=
  if_pos hk

theorem orByte_of_lt {k : Nat} (hk : k < bytes.length) (b : UInt8) :
    orByte bytes k b = some (bytes.set k (bytes[k] ||| b)) := by
  simp [orByte, List.getElem?_eq_getElem hk]

theorem copySlice_of_le {lo n : Nat} {src : List UInt8} (hdst : lo + n ≤ bytes.length)
    (hsrc : n ≤ src.length) :
    copySlice bytes lo (lo + n) src n = some (FixedVector.writeFrom lo (src.take n) bytes) :=
  if_pos ⟨Nat.le_add_right lo n, hdst, hsrc, Nat.add_sub_cancel_left lo n⟩

@[simp] theorem length_set_byte (k : Nat) (b : UInt8) : (bytes.set k b).length = bytes.length :=
  List.length_set

/-- Storing a byte replaces the eight bits it holds. -/
theorem bitAt_set {k : Nat} (hk : k < bytes.length) (b : UInt8) (p : Nat) :
    bitAt (bytes.set k b) p = if p / 8 = k then b.toNat.testBit (p % 8) else bitAt bytes p := by
  by_cases hp : p / 8 = k
  · subst hp
    simp [bitAt, List.getD_eq_getElem?_getD, List.getElem?_set_self hk]
  · simp [bitAt, List.getD_eq_getElem?_getD, List.getElem?_set_ne (Ne.symm hp), hp]

/-- Or-ing a byte in sets the bits it has, in the byte it goes to. -/
theorem bitAt_orByte {k : Nat} {b : UInt8} (h : orByte bytes k b = some out) (p : Nat) :
    bitAt out p = (bitAt bytes p || decide (p / 8 = k) && b.toNat.testBit (p % 8)) := by
  unfold orByte at h
  split at h
  · rename_i old hold
    cases h
    have hk : k < bytes.length := (List.getElem?_eq_some_iff.1 hold).1
    rw [bitAt_set hk]
    by_cases hp : p / 8 = k
    · have hbit : bitAt bytes p = old.toNat.testBit (p % 8) := by
        simp [bitAt, hp, List.getD_eq_getElem?_getD, hold]
      simp [hp, hbit]
    · simp [hp]
  · cases h

/-- Or-ing `b << r` into byte `k` puts bit `q` of `b` at `8 * k + r + q`, for the bits that stay
in the byte. -/
theorem bitAt_orByte_shiftLeft {k r : Nat} {b : UInt8} (hr : r < 8)
    (h : orByte bytes k (b <<< r.toUInt8) = some out) (p : Nat) :
    bitAt out p = (bitAt bytes p ||
      decide (p / 8 = k) && decide (8 * k + r ≤ p) && b.toNat.testBit (p - (8 * k + r))) := by
  rw [bitAt_orByte h, testBit_shiftLeft b hr]
  by_cases hp : p / 8 = k
  · have hq : p % 8 < 8 := Nat.mod_lt _ (by decide)
    have hle : r ≤ p % 8 ↔ 8 * k + r ≤ p := by omega
    have hsub : p % 8 - r = p - (8 * k + r) := by omega
    simp [hp, hq, hle, hsub]
  · simp [hp]

/-- Or-ing `b >> (8 - r)` into byte `k + 1` brings the bits that `b << r` pushed out of byte `k`. -/
theorem bitAt_orByte_shiftRight {k r : Nat} {b : UInt8} (hr : 0 < r) (hr8 : r < 8)
    (h : orByte bytes (k + 1) (b >>> (8 - r).toUInt8) = some out) (p : Nat) :
    bitAt out p = (bitAt bytes p ||
      decide (p / 8 = k + 1) && b.toNat.testBit (p - (8 * k + r))) := by
  rw [bitAt_orByte h, testBit_shiftRight b (by omega : 8 - r < 8)]
  by_cases hp : p / 8 = k + 1
  · have hsub : 8 - r + p % 8 = p - (8 * k + r) := by omega
    simp [hp, hsub]
  · simp [hp]

theorem length_of_orByte {k : Nat} {b : UInt8} (h : orByte bytes k b = some out) :
    out.length = bytes.length := by
  unfold orByte at h
  split at h
  · cases h
    exact List.length_set
  · cases h

/-- A copied run of bytes brings its bits along, shifted to where it lands. -/
theorem bitAt_writeFrom (lo : Nat) (xs : List UInt8) (p : Nat) :
    bitAt (FixedVector.writeFrom lo xs bytes) p =
      if lo ≤ p / 8 ∧ p / 8 < lo + xs.length ∧ p / 8 < bytes.length then
        bitAt xs (p - 8 * lo)
      else bitAt bytes p := by
  by_cases hin : p / 8 < bytes.length
  · simp only [bitAt, List.getD_eq_getElem?_getD, FixedVector.getElem?_writeFrom lo xs bytes hin]
    by_cases hr : lo ≤ p / 8 ∧ p / 8 < lo + xs.length
    · -- inside the run, bit `p` is bit `p - 8 * lo` of the copied bytes
      have hdiv : (p - 8 * lo) / 8 = p / 8 - lo := by omega
      have hmod : (p - 8 * lo) % 8 = p % 8 := by omega
      rw [if_pos hr, if_pos ⟨hr.1, hr.2, hin⟩, hdiv, hmod]
    · rw [if_neg hr, if_neg fun h => hr ⟨h.1, h.2.1⟩]
  · rw [if_neg fun h => hin h.2.2, bitAt_of_length_le (by simpa using Nat.le_of_not_lt hin),
      bitAt_of_length_le (Nat.le_of_not_lt hin)]

/-- The bits of a prefix of `n` bytes are those of the string below `8 * n`. -/
theorem bitAt_take (xs : List UInt8) (n p : Nat) :
    bitAt (xs.take n) p = (decide (p / 8 < n) && bitAt xs p) := by
  by_cases hp : p / 8 < n
  · simp [bitAt, List.getD_eq_getElem?_getD, List.getElem?_take_of_lt hp, hp]
  · rw [bitAt, List.getD_eq_getElem?_getD, List.getElem?_eq_none (by simp; omega)]
    simp [hp]

end Writes

end ByteBits
