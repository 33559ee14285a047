import Vibehouse.Lib.MachineInt
import Vibehouse.Store.HDiff

/-! # Applying an xdelta3 diff

`BytesDiff::apply_xdelta` in `beacon_node/store/src/hdiff.rs` sizes its output buffer by the
target window length of the first VCDIFF window (`vcdiff_target_window_size`, which reads the
variable-length integers of RFC 3284 with `read_vcdiff_integer`), or by the lengths of the source
and the delta when the header does not parse. It calls xdelta3's `decode_with_output_len` with
the length cast to `u32`, and doubles the length after every `InsufficientOutputLength`.

xdelta3 is taken by its contract (`Contract`): the target when it fits in the buffer, else
`InsufficientOutputLength`. The loop runs on a fuel of decode attempts, `none` when they run out.
Arithmetic on `usize` is checked: an overflowing `+=` or `*=` panics in a build with overflow
checks (the `reproducible` profile), which `Error.overflowPanic` stands for.

From a buffer length in `(0, 2 ^ 32)` the loop returns the target within `log2 |t| + 2` attempts
when `|t| < 2 ^ 31`, and then agrees with the abstract `BytesDiff.apply`. A header that declares
an empty first window starts the loop at 0, where doubling never helps; a header section of
declared length near `2 ^ 64` overflows the offset. -/

namespace Vibehouse.Store.Vcdiff

open MachineInt

/-- How `apply_xdelta` fails: `Error::UnableToApplyDiff`, or a panic on an arithmetic overflow in
a build with overflow checks. -/
inductive Error
  | unableToApplyDiff
  | overflowPanic
  deriving DecidableEq, Repr

/-- The errors of xdelta3's `decode_with_output_len` that the loop tells apart. -/
inductive DecodeError
  | insufficientOutputLength
  | other
  deriving DecidableEq, Repr

/-! ## The VCDIFF header -/

/-- The loop of `read_vcdiff_integer` over the bytes from the offset on, from the value read so
far: the value and the number of bytes read. `checked_shl(7)` fails only for a shift of 64 or
more, so it drops the high bits as a `usize` shift does. -/
def readVcdiffIntegerLoop : List UInt8 → Nat → Option (Nat × Nat)
  | [], _ => none
  | byte :: rest, result =>
    (uCheckedAdd 64 ((result <<< 7) % 2 ^ 64) (byte &&& 0x7F).toNat).bind fun result =>
      if byte &&& 0x80 = 0 then some (result, 1)
      else (readVcdiffIntegerLoop rest result).map fun r => (r.1, r.2 + 1)

/-- `read_vcdiff_integer`: the integer at `offset`, and the offset after it. -/
def readVcdiffInteger (bytes : List UInt8) (offset : Nat) : Option (Nat × Nat) :=
  (readVcdiffIntegerLoop (bytes.drop offset) 0).map fun r => (r.1, offset + r.2)

/-- The checked addition of `read_vcdiff_integer` never fails: the shifted value is a multiple
of 128 below `2 ^ 64`, and the added bits are below 128. -/
theorem uCheckedAdd_shift_low (result : Nat) (byte : UInt8) :
    uCheckedAdd 64 ((result <<< 7) % 2 ^ 64) (byte &&& 0x7F).toNat =
      some ((result <<< 7) % 2 ^ 64 + (byte &&& 0x7F).toNat) := by
  have hlow : (byte &&& 0x7F).toNat ≤ 127 := by
    rw [UInt8.toNat_and]
    exact Nat.and_le_right
  have hshift : (result <<< 7) % 2 ^ 64 = 128 * (result % 2 ^ 57) := by
    rw [Nat.shiftLeft_eq, show (2 : Nat) ^ 64 = 128 * 2 ^ 57 by rfl, Nat.mul_comm result,
      Nat.mul_mod_mul_left]
  have hbound : result % 2 ^ 57 < 2 ^ 57 := Nat.mod_lt _ (Nat.two_pow_pos 57)
  unfold uCheckedAdd
  rw [if_pos (by omega)]

/-- `read_vcdiff_integer` fails only when no byte from the offset on ends the integer. -/
theorem readVcdiffIntegerLoop_isSome :
    ∀ (bytes : List UInt8) (result : Nat),
      (readVcdiffIntegerLoop bytes result).isSome ↔ ∃ byte ∈ bytes, byte &&& 0x80 = 0
  | [], _ => by simp [readVcdiffIntegerLoop]
  | byte :: rest, result => by
    rw [readVcdiffIntegerLoop, uCheckedAdd_shift_low, Option.bind_some]
    split
    · rename_i hend
      exact ⟨fun _ => ⟨byte, List.mem_cons_self, hend⟩, fun _ => rfl⟩
    · rename_i hmore
      rw [Option.isSome_map, readVcdiffIntegerLoop_isSome rest]
      constructor
      · rintro ⟨b, hb, hbend⟩
        exact ⟨b, List.mem_cons_of_mem _ hb, hbend⟩
      · rintro ⟨b, hb, hbend⟩
        rcases List.mem_cons.1 hb with rfl | hb
        · exact absurd hbend hmore
        · exact ⟨b, hb, hbend⟩

/-- `VCDIFF_MAGIC`. -/
def vcdiffMagic : List UInt8 := [0xD6, 0xC3, 0xC4, 0x00]

/-- The skip of an optional header section (code table, application data): its length, then
that many bytes, with `offset += len` checked. -/
def skipSection (present : Bool) (delta : List UInt8) (offset : Nat) : Except Error (Option Nat) :=
  if present then
    match readVcdiffInteger delta offset with
    | none => .ok none
    | some (len, offset) =>
      match uCheckedAdd 64 offset len with
      | some offset => .ok (some offset)
      | none => .error .overflowPanic
  else .ok (some offset)

/-- The window section of `vcdiff_target_window_size` from `offset`: the target window length.
The offset after the indicator byte is below the length of the delta, so it does not
overflow. -/
def windowTargetLength (delta : List UInt8) (offset : Nat) : Option Nat := do
  let winIndicator ← delta[offset]?
  let offset := offset + 1
  -- the source or target segment size and position
  let offset ← if winIndicator &&& 0x03 ≠ 0 then do
      let (_, offset) ← readVcdiffInteger delta offset
      let (_, offset) ← readVcdiffInteger delta offset
      pure offset
    else pure offset
  -- the length of the delta encoding
  let (_, offset) ← readVcdiffInteger delta offset
  let (targetLength, _) ← readVcdiffInteger delta offset
  pure targetLength

/-- `vcdiff_target_window_size`. -/
def vcdiffTargetWindowSize (delta : List UInt8) : Except Error (Option Nat) :=
  if delta.length < 5 ∨ delta.take 4 ≠ vcdiffMagic then .ok none
  else
    match delta[4]? with
    | none => .ok none
    | some hdrIndicator =>
      -- the secondary compressor id
      let offset := if hdrIndicator &&& 0x01 ≠ 0 then 6 else 5
      match skipSection (hdrIndicator &&& 0x02 ≠ 0) delta offset with
      | .ok (some offset) =>
        match skipSection (hdrIndicator &&& 0x04 ≠ 0) delta offset with
        | .ok (some offset) => .ok (windowTargetLength delta offset)
        | r => r
      | r => r

/-! ## The decode loop -/

/-- xdelta3's contract for a delta that decodes against `source` to `target`:
`decode_with_output_len` returns the target when it fits in the buffer, and
`InsufficientOutputLength` otherwise. -/
def Contract (dec : List UInt8 → List UInt8 → Nat → Except DecodeError (List UInt8))
    (delta source target : List UInt8) : Prop :=
  ∀ outputLength, dec delta source outputLength =
    if target.length ≤ outputLength then .ok target else .error .insufficientOutputLength

section Loop

variable (dec : List UInt8 → List UInt8 → Nat → Except DecodeError (List UInt8))

/-- The loop of `apply_xdelta` from a buffer length, with `fuel` decode attempts. The length is
cast to `u32` for the call, and doubled after `InsufficientOutputLength`. -/
def applyXdeltaLoop (bytes source : List UInt8) : Nat → Nat → Option (Except Error (List UInt8))
  | 0, _ => none
  | fuel + 1, outputLength =>
    match dec bytes source (outputLength % 2 ^ 32) with
    | .ok target => some (.ok target)
    | .error .insufficientOutputLength =>
      match uCheckedMul 64 outputLength 2 with
      | some outputLength => applyXdeltaLoop bytes source fuel outputLength
      | none => some (.error .overflowPanic)
    | .error .other => some (.error .unableToApplyDiff)

/-- `apply_xdelta`, with `fuel` decode attempts. -/
def applyXdelta (bytes source : List UInt8) (fuel : Nat) : Option (Except Error (List UInt8)) :=
  match vcdiffTargetWindowSize bytes with
  | .error e => some (.error e)
  | .ok size =>
    applyXdeltaLoop dec bytes source fuel (size.getD ((source.length + bytes.length) * 3 / 2))

variable {dec} {bytes source target : List UInt8}

/-- From a buffer of length 0 the loop never ends when the target is not empty: the cast stays 0
and doubling keeps it 0. -/
theorem applyXdeltaLoop_zero (hc : Contract dec bytes source target) (ht : target ≠ []) :
    ∀ fuel, applyXdeltaLoop dec bytes source fuel 0 = none
  | 0 => rfl
  | fuel + 1 => by
    have hlen : ¬target.length ≤ 0 := by simpa using ht
    have hmul : uCheckedMul 64 0 2 = some 0 := rfl
    rw [applyXdeltaLoop, Nat.zero_mod, hc, if_neg hlen]
    simp only [hmul]
    exact applyXdeltaLoop_zero hc ht fuel

/-- From a buffer length in `(0, 2 ^ 32)`, the loop returns the target once the length doubled
`n` times covers it, within `n + 1` attempts: while the length is below the target's, doubling
keeps it below `2 ^ 32`. -/
theorem applyXdeltaLoop_eq_ok (hc : Contract dec bytes source target)
    (ht : target.length < 2 ^ 31) :
    ∀ fuel n outputLength, 0 < outputLength → outputLength < 2 ^ 32 →
      target.length ≤ outputLength * 2 ^ n → n < fuel →
      applyXdeltaLoop dec bytes source fuel outputLength = some (.ok target)
  | 0, _, _, _, _, _, hn => absurd hn (Nat.not_lt_zero _)
  | fuel + 1, n, outputLength, hpos, hlt, hcover, hn => by
    rw [applyXdeltaLoop, Nat.mod_eq_of_lt hlt, hc]
    by_cases hfit : target.length ≤ outputLength
    · rw [if_pos hfit]
    · rw [if_neg hfit]
      have hmul : uCheckedMul 64 outputLength 2 = some (outputLength * 2) := by
        unfold uCheckedMul
        rw [if_pos (by omega)]
      simp only [hmul]
      -- the length did not cover the target, so it still has to double
      obtain ⟨m, rfl⟩ : ∃ m, n = m + 1 := by
        refine Nat.exists_eq_succ_of_ne_zero fun hn0 => hfit ?_
        simpa [hn0] using hcover
      have hcover' : target.length ≤ outputLength * 2 * 2 ^ m := by
        rwa [Nat.pow_succ, Nat.mul_comm (2 ^ m) 2, ← Nat.mul_assoc] at hcover
      exact applyXdeltaLoop_eq_ok hc ht fuel m (outputLength * 2) (by omega) (by omega) hcover'
        (by omega)

/-- From a buffer length in `(0, 2 ^ 32)` and a target below `2 ^ 31` bytes, the loop of
`apply_xdelta` returns the target within `log2 |t| + 2` attempts. -/
theorem applyXdeltaLoop_terminates (hc : Contract dec bytes source target)
    (ht : target.length < 2 ^ 31) {outputLength : Nat} (hpos : 0 < outputLength)
    (hlt : outputLength < 2 ^ 32) {fuel : Nat} (hfuel : target.length.log2 + 2 ≤ fuel) :
    applyXdeltaLoop dec bytes source fuel outputLength = some (.ok target) := by
  have hcover : target.length ≤ outputLength * 2 ^ (target.length.log2 + 1) :=
    calc target.length ≤ 2 ^ (target.length.log2 + 1) := (Nat.lt_log2_self).le
      _ ≤ outputLength * 2 ^ (target.length.log2 + 1) := Nat.le_mul_of_pos_left _ hpos
  exact applyXdeltaLoop_eq_ok hc ht fuel _ outputLength hpos hlt hcover (by omega)

/-- A loop that returns a target returns one the decoder gave. -/
theorem exists_dec_of_applyXdeltaLoop :
    ∀ fuel outputLength, applyXdeltaLoop dec bytes source fuel outputLength = some (.ok target) →
      ∃ outputLength', dec bytes source outputLength' = .ok target
  | 0, _, h => by cases h
  | fuel + 1, outputLength, h => by
    rw [applyXdeltaLoop] at h
    split at h
    · rename_i t ht
      cases h
      exact ⟨_, ht⟩
    · split at h
      · exact exists_dec_of_applyXdeltaLoop fuel _ h
      · cases h
    · cases h

end Loop

/-! ## Against the abstract diff -/

section Refinement

variable (xdelta : Xdelta)

/-- `decode_with_output_len` of an xdelta3 codec: its target when it fits in the buffer. -/
def withOutputLen (delta source : List UInt8) (outputLength : Nat) :
    Except DecodeError (List UInt8) :=
  match xdelta.decode delta source with
  | some target =>
    if target.length ≤ outputLength then .ok target else .error .insufficientOutputLength
  | none => .error .other

variable {xdelta} {bytes source target : List UInt8}

theorem contract_withOutputLen (h : xdelta.decode bytes source = some target) :
    Contract (withOutputLen xdelta) bytes source target := fun _ => by
  simp only [withOutputLen, h]

/-- A delta with a VCDIFF header whose first window declares 8 target bytes. -/
def eightByteWindowDelta : List UInt8 := [0xD6, 0xC3, 0xC4, 0x00, 0x00, 0x00, 0x00, 0x08]

/-- `apply_xdelta` returns the target of `BytesDiff::apply` within `log2 |t| + 2` attempts when
the header parses and the buffer length it starts from is in `(0, 2 ^ 32)`, for a target below
`2 ^ 31` bytes. -/
theorem applyXdelta_complete (h : xdelta.decode bytes source = some target)
    (ht : target.length < 2 ^ 31) {size : Option Nat}
    (hsize : vcdiffTargetWindowSize bytes = .ok size)
    (hpos : 0 < size.getD ((source.length + bytes.length) * 3 / 2))
    (hlt : size.getD ((source.length + bytes.length) * 3 / 2) < 2 ^ 32) {fuel : Nat}
    (hfuel : target.length.log2 + 2 ≤ fuel) :
    applyXdelta (withOutputLen xdelta) bytes source fuel = some (.ok target) := by
  rw [applyXdelta, hsize]
  exact applyXdeltaLoop_terminates (contract_withOutputLen h) ht hpos hlt hfuel

/-- The eight bytes again: the header parses to a window of 8, and with `log2 8 + 2 = 5`
attempts the loop returns the target. -/
theorem applyXdelta_complete_verbatim :
    vcdiffTargetWindowSize eightByteWindowDelta = .ok (some 8) ∧
      applyXdelta (withOutputLen Xdelta.verbatim) eightByteWindowDelta [] 5 =
        some (.ok eightByteWindowDelta) :=
  have hsize : vcdiffTargetWindowSize eightByteWindowDelta = .ok (some 8) := by decide
  ⟨hsize, applyXdelta_complete rfl (by decide) hsize (by decide) (by decide) (by decide)⟩

end Refinement

section Failures

/-- The decoder of a fixed target, which meets the contract for every delta and source. -/
def contractDecoder (target : List UInt8) (_delta _source : List UInt8) (outputLength : Nat) :
    Except DecodeError (List UInt8) :=
  if target.length ≤ outputLength then .ok target else .error .insufficientOutputLength

/-- A delta whose first window declares an empty target window: the magic, no header sections, a
window without segment, an empty delta encoding, and a target window length of 0. -/
def emptyWindowDelta : List UInt8 := [0xD6, 0xC3, 0xC4, 0x00, 0x00, 0x00, 0x00, 0x00]

/-- A header whose code table declares the length `2 ^ 64 - 1`. -/
def hugeCodeTableDelta : List UInt8 :=
  [0xD6, 0xC3, 0xC4, 0x00, 0x02, 0x81, 0xFF, 0xFF, 0xFF, 0xFF, 0xFF, 0xFF, 0xFF, 0xFF, 0x7F]

theorem apply_xdelta_stalls_on_empty_window :
    Contract (contractDecoder [0]) emptyWindowDelta [] [0] ∧
      vcdiffTargetWindowSize emptyWindowDelta = .ok (some 0) ∧
      (∀ fuel, applyXdelta (contractDecoder [0]) emptyWindowDelta [] fuel = none) ∧
      vcdiffTargetWindowSize hugeCodeTableDelta = .error .overflowPanic := by
  have hc : Contract (contractDecoder [0]) emptyWindowDelta [] [0] := fun _ => rfl
  have hsize : vcdiffTargetWindowSize emptyWindowDelta = .ok (some 0) := by decide
  refine ⟨hc, hsize, fun fuel => ?_, by decide⟩
  rw [applyXdelta, hsize]
  exact applyXdeltaLoop_zero hc (List.cons_ne_nil _ _) fuel

end Failures

end Vibehouse.Store.Vcdiff
