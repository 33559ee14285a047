import Vibehouse.BeaconState.Seed
import Vibehouse.Lib.MachineInt
import Vibehouse.Lib.FixedCodec
import Mathlib.Data.List.Nodup

/-! # Balance-weighted selection of the payload timeliness committee

`compute_ptc_inner` draws the `PTC_SIZE` members of a slot's committee from the concatenated
beacon committees: iteration `i` visits member `i % total` and accepts it when its effective
balance beats a random 16-bit value, read at offset `2 * (i % 16)` of the hash of the seed and
`i / 16`. The source keeps that hash across the sixteen iterations that share it.

The specification's `compute_balance_weighted_selection` (with `shuffle_indices=False`) is
modelled with the hash recomputed at every iteration and a bound on its iterations;
`balanceWeightedSelection_eq` says it returns the candidates of the first `PTC_SIZE` accepted
iterations. The source's loop is shown to take the same steps, its cached hash being the one the
specification computes, and a member of maximal balance, accepted at every visit, bounds the
iterations by `PTC_SIZE * total`. The base seed is the state's `get_seed` for the slot's epoch,
which exists in every state whose mix index fits a `u64`; SHA-256 is a parameter. -/

namespace Vibehouse.Gloas.Ptc

open MachineInt FixedCodec

/-! ## The source -/

section Source

/-- The field of a validator that `compute_ptc_inner` reads. -/
structure Validator where
  effectiveBalance : Nat
  deriving DecidableEq, Repr

/-- The `BlockProcessingError`s of `compute_ptc_inner`; `beaconStateError` is the failure of
`get_seed`. -/
inductive Error
  | noActiveValidators
  | attesterIndexOutOfBounds
  | arithError
  | beaconStateError
  deriving DecidableEq, Repr

/-- A `safe_*` result as a `BlockProcessingError`. -/
def liftArith {α : Type} : Option α → Except Error α
  | some a => .ok a
  | none => .error .arithError

/-- `option.ok_or(error)?`. -/
def okOr {α : Type} (o : Option α) (e : Error) : Except Error α :=
  match o with
  | some a => .ok a
  | none => .error e

@[simp] theorem liftArith_some {α : Type} (a : α) : liftArith (some a) = pure a := rfl

@[simp] theorem okOr_some {α : Type} (a : α) (e : Error) : okOr (some a) e = pure a := rfl

/-- `(1u64 << 16).saturating_sub(1)`. -/
def maxRandomValue : Nat := 2 ^ 16 - 1

variable (sha256 : List UInt8 → Vector UInt8 32)

/-- The variables of the selection loop. -/
structure LoopState where
  selected : List Nat
  i : Nat
  cachedHashGroup : Nat
  randomBytes : Vector UInt8 32

/-- The body of the selection loop, over the flattened `indices` and their `effective_balances`. -/
def loopBody (seed : Vector UInt8 32) (indices effectiveBalances : List Nat)
    (total maxEffectiveBalance : Nat) (s : LoopState) : Except Error LoopState := do
  let nextIndex ← liftArith (uCheckedRem s.i total)
  let hashGroup ← liftArith (uCheckedDiv s.i 16)
  -- the hash is recomputed only when `i / 16` changes
  let cachedHashGroup := if hashGroup ≠ s.cachedHashGroup then hashGroup else s.cachedHashGroup
  let randomBytes := if hashGroup ≠ s.cachedHashGroup then
      sha256 (seed.toList ++ intToBytes8 hashGroup) else s.randomBytes
  let offset ← liftArith (uCheckedMul 64 (← liftArith (uCheckedRem s.i 16)) 2)
  let randomByte0 ← okOr randomBytes.toList[offset]? .attesterIndexOutOfBounds
  let randomByte1 ← okOr randomBytes.toList[← liftArith (uCheckedAdd 64 offset 1)]?
    .attesterIndexOutOfBounds
  let randomValue := randomByte0.toNat + 256 * randomByte1.toNat
  let candidateBalance ← okOr effectiveBalances[nextIndex]? .attesterIndexOutOfBounds
  let weighted ← liftArith (uCheckedMul 64 candidateBalance maxRandomValue)
  let threshold ← liftArith (uCheckedMul 64 maxEffectiveBalance randomValue)
  let selected ← if weighted ≥ threshold then do
      let candidateIndex ← okOr indices[nextIndex]? .attesterIndexOutOfBounds
      pure (s.selected ++ [candidateIndex])
    else pure s.selected
  let i ← liftArith (uCheckedAdd 64 s.i 1)
  pure ⟨selected, i, cachedHashGroup, randomBytes⟩

/-- `while selected.len() < ptc_size { … }`. The counter `i` is a `u64` that the body increments
with `safe_add`, so the loop makes at most `2 ^ 64 - i` passes: `fuel` is that bound, and the
loop never reaches it, failing on the increment before. -/
def selectionLoop (seed : Vector UInt8 32) (indices effectiveBalances : List Nat)
    (total maxEffectiveBalance ptcSize : Nat) : Nat → LoopState → Except Error LoopState
  | fuel, s =>
    if s.selected.length < ptcSize then
      match fuel with
      | 0 => .error .arithError
      | fuel + 1 => do
        let s ← loopBody sha256 seed indices effectiveBalances total maxEffectiveBalance s
        selectionLoop seed indices effectiveBalances total maxEffectiveBalance ptcSize fuel s
    else pure s

/-- The body of the prefetch loops: push the member and its effective balance. -/
def prefetchStep (validators : List Validator) (acc : List Nat × List Nat) (idx : Nat) :
    Except Error (List Nat × List Nat) := do
  let validator ← okOr validators[idx]? .attesterIndexOutOfBounds
  pure (acc.1 ++ [idx], acc.2 ++ [validator.effectiveBalance])

/-- The prefetch loops of `compute_ptc_inner`, over each member, committee after committee. -/
def prefetch (validators : List Validator) (members : List Nat) :
    Except Error (List Nat × List Nat) :=
  members.foldlM (prefetchStep validators) ([], [])

/-- `compute_ptc_inner`, on the state's validators and RANDAO mixes, with the constants of
`get_seed`, `E::slots_per_epoch()` and the constant of `Domain::PtcAttester`. -/
def computePtcInner (ptcSize maxEffectiveBalanceElectra : Nat) (seedSpec : BeaconState.SeedSpec)
    (slotsPerEpoch domainPtcAttester : Nat) (validators : List Validator)
    (randaoMixes : List (Vector UInt8 32)) (slot : Nat) (committeeIndices : List (List Nat)) :
    Except Error (List Nat) := do
  let epoch := slot / slotsPerEpoch
  let baseSeed ← (BeaconState.getSeed sha256 seedSpec randaoMixes domainPtcAttester epoch).mapError
    fun _ => .beaconStateError
  let seed := sha256 (baseSeed.toList ++ intToBytes8 slot)
  let total := committeeIndices.foldl (fun acc c => uSaturatingAdd 64 acc c.length) 0
  if total = 0 then throw .noActiveValidators
  let (indices, effectiveBalances) ← prefetch validators committeeIndices.flatten
  -- `cached_hash_group` starts at `u64::MAX`, a group no `i` has
  let s ← selectionLoop sha256 seed indices effectiveBalances total maxEffectiveBalanceElectra
    ptcSize (2 ^ 64) ⟨[], 0, uMax 64, Vector.replicate 32 0⟩
  pure s.selected

end Source

/-! ## The specification -/

section Specification

variable (sha256 : List UInt8 → Vector UInt8 32) (seed : Vector UInt8 32)

/-- The random 16-bit value of iteration `i`: two bytes at offset `2 * (i % 16)` of
`hash(seed + uint_to_bytes(i // 16))`. -/
def randomValue (i : Nat) : Nat :=
  let randomBytes := (sha256 (seed.toList ++ intToBytes8 (i / 16))).toList
  (randomBytes.getD (i % 16 * 2) 0).toNat + 256 * (randomBytes.getD (i % 16 * 2 + 1) 0).toNat

/-- `compute_balance_weighted_acceptance`. -/
def balanceWeightedAcceptance (effectiveBalance maxEffectiveBalance i : Nat) : Bool :=
  decide (effectiveBalance * maxRandomValue ≥ maxEffectiveBalance * randomValue sha256 seed i)

variable (validators : List Validator) (indices : List Nat) (maxEffectiveBalance size : Nat)

/-- `state.validators[index].effective_balance`. -/
def effectiveBalanceOf (index : Nat) : Nat := (validators[index]?.map (·.effectiveBalance)).getD 0

/-- The candidate of iteration `i`: `indices[i % total]`. -/
def candidate (i : Nat) : Nat := indices.getD (i % indices.length) 0

/-- Whether iteration `i` accepts its candidate. -/
def accepts (i : Nat) : Bool :=
  balanceWeightedAcceptance sha256 seed (effectiveBalanceOf validators (candidate indices i))
    maxEffectiveBalance i

/-- One iteration of the specification's loop. -/
def selectionStep (i : Nat) (selected : List Nat) : List Nat :=
  if accepts sha256 seed validators indices maxEffectiveBalance i then
    selected ++ [candidate indices i]
  else selected

/-- `compute_balance_weighted_selection(state, indices, seed, size, shuffle_indices=False)` from
iteration `i` with `selected` so far, allowed `fuel` more iterations: `none` when it needs more. -/
def balanceWeightedSelection : Nat → Nat → List Nat → Option (List Nat)
  | fuel, i, selected =>
    if selected.length < size then
      match fuel with
      | 0 => none
      | fuel + 1 => balanceWeightedSelection fuel (i + 1)
          (selectionStep sha256 seed validators indices maxEffectiveBalance i selected)
    else some selected

/-- The specification's loop returns the candidates of the first accepted iterations, as many as
are missing, once the iterations it may make accept enough of them. -/
theorem balanceWeightedSelection_eq :
    ∀ (fuel i : Nat) (selected : List Nat), selected.length ≤ size →
      balanceWeightedSelection sha256 seed validators indices maxEffectiveBalance size fuel i
          selected =
        if size - selected.length ≤
            ((List.range' i fuel).filter (accepts sha256 seed validators indices
              maxEffectiveBalance)).length then
          some (selected ++ (((List.range' i fuel).filter (accepts sha256 seed validators indices
            maxEffectiveBalance)).map (candidate indices)).take (size - selected.length))
        else none
  | fuel, i, selected, hle => by
    unfold balanceWeightedSelection
    by_cases hlt : selected.length < size
    · rw [if_pos hlt]
      cases fuel with
      | zero => simp only [List.range'_zero, List.filter_nil, List.length_nil]; rw [if_neg (by omega)]
      | succ fuel =>
        dsimp only
        rw [List.range'_succ, List.filter_cons]
        -- an accepted iteration adds its candidate and leaves one fewer to find
        by_cases hacc : accepts sha256 seed validators indices maxEffectiveBalance i = true
        · have hstep : selectionStep sha256 seed validators indices maxEffectiveBalance i selected =
              selected ++ [candidate indices i] := by rw [selectionStep, if_pos hacc]
          rw [hstep, balanceWeightedSelection_eq fuel (i + 1) _ (by simp; omega), if_pos hacc,
            List.length_cons, List.map_cons, List.length_append, List.length_singleton,
            show size - selected.length = size - (selected.length + 1) + 1 by omega,
            List.take_succ_cons, List.append_assoc, List.singleton_append]
          by_cases henough : size - (selected.length + 1) ≤
              ((List.range' (i + 1) fuel).filter
                (accepts sha256 seed validators indices maxEffectiveBalance)).length
          · rw [if_pos henough, if_pos (by omega)]
          · rw [if_neg henough, if_neg (by omega)]
        · have hstep : selectionStep sha256 seed validators indices maxEffectiveBalance i selected =
              selected := by rw [selectionStep, if_neg hacc]
          rw [hstep, balanceWeightedSelection_eq fuel (i + 1) _ hle, if_neg hacc]
    · rw [if_neg hlt, Nat.sub_eq_zero_of_le (by omega), if_pos (Nat.zero_le _), List.take_zero,
        List.append_nil]

end Specification

/-! ## The source's loop takes the specification's steps -/

section Refinement

variable (sha256 : List UInt8 → Vector UInt8 32) (seed : Vector UInt8 32)

/-- The random value is a 16-bit number. -/
theorem randomValue_le (i : Nat) : randomValue sha256 seed i ≤ maxRandomValue := by
  have h0 := ((sha256 (seed.toList ++ intToBytes8 (i / 16))).toList.getD (i % 16 * 2) 0).toNat_lt
  have h1 := ((sha256 (seed.toList ++ intToBytes8 (i / 16))).toList.getD (i % 16 * 2 + 1) 0).toNat_lt
  simp only [randomValue, maxRandomValue]
  omega

/-- The hash cache of the loop: when its group is that of the next iteration, it holds that
group's hash. -/
def CacheHolds (s : LoopState) : Prop :=
  s.cachedHashGroup = s.i / 16 → s.randomBytes = sha256 (seed.toList ++ intToBytes8 (s.i / 16))

/-- The cache starts at `u64::MAX`, a group of no counter below `2 ^ 64`. -/
theorem cacheHolds_start (selected : List Nat) (randomBytes : Vector UInt8 32) :
    CacheHolds sha256 seed ⟨selected, 0, uMax 64, randomBytes⟩ := by
  intro h
  simp [uMax] at h

/-- After iteration `i` the cache holds the hash of `i`'s group, which is the next iteration's
unless it starts a new group. -/
theorem cacheHolds_step (selected : List Nat) (i : Nat) :
    CacheHolds sha256 seed ⟨selected, i + 1, i / 16, sha256 (seed.toList ++ intToBytes8 (i / 16))⟩ := by
  intro h
  dsimp only at h ⊢
  rw [← h]

variable (validators : List Validator) (indices : List Nat) (maxEffectiveBalance size : Nat)

/-- One pass of the source's loop body is one iteration of the specification's loop: the cached
hash is the one the specification computes, and while the balances and the threshold stay below
`2 ^ 64` the only checked operation that can fail is the increment of the counter. -/
theorem loopBody_eq_map {s : LoopState} (hcache : CacheHolds sha256 seed s)
    (htotal : 0 < indices.length)
    (hbalances : ∀ idx ∈ indices, effectiveBalanceOf validators idx * maxRandomValue < 2 ^ 64)
    (hmax : maxEffectiveBalance * maxRandomValue < 2 ^ 64) :
    loopBody sha256 seed indices (indices.map (effectiveBalanceOf validators)) indices.length
        maxEffectiveBalance s =
      (fun i => ⟨selectionStep sha256 seed validators indices maxEffectiveBalance s.i s.selected,
        i, s.i / 16, sha256 (seed.toList ++ intToBytes8 (s.i / 16))⟩) <$>
        liftArith (uCheckedAdd 64 s.i 1) := by
  have hnext : s.i % indices.length < indices.length := Nat.mod_lt _ htotal
  have hcand : indices[s.i % indices.length]? = some (candidate indices s.i) := by
    rw [candidate, List.getD_eq_getElem?_getD, List.getElem?_eq_getElem hnext, Option.getD_some]
  have hmem : candidate indices s.i ∈ indices := List.mem_of_getElem? hcand
  -- the cached hash is the hash of the current group
  have hbytes : (if s.i / 16 ≠ s.cachedHashGroup then sha256 (seed.toList ++ intToBytes8 (s.i / 16))
      else s.randomBytes) = sha256 (seed.toList ++ intToBytes8 (s.i / 16)) := by
    split_ifs with hgroup
    · rfl
    · exact (hcache (not_not.1 hgroup).symm)
  have hgroup : (if s.i / 16 ≠ s.cachedHashGroup then s.i / 16 else s.cachedHashGroup) =
      s.i / 16 := by
    split_ifs with hgroup
    · rfl
    · exact (not_not.1 hgroup).symm
  have hlen : (sha256 (seed.toList ++ intToBytes8 (s.i / 16))).toList.length = 32 := by simp
  have hbyte : ∀ k < 32, (sha256 (seed.toList ++ intToBytes8 (s.i / 16))).toList[k]? =
      some ((sha256 (seed.toList ++ intToBytes8 (s.i / 16))).toList.getD k 0) := fun k hk => by
    rw [List.getD_eq_getElem?_getD, List.getElem?_eq_getElem (by omega), Option.getD_some]
  have hthreshold : maxEffectiveBalance * randomValue sha256 seed s.i < 2 ^ 64 :=
    Nat.lt_of_le_of_lt (Nat.mul_le_mul_left _ (randomValue_le sha256 seed s.i)) hmax
  -- every checked operation of the pass succeeds
  have hrem : uCheckedRem s.i indices.length = some (s.i % indices.length) :=
    uCheckedRem_eq_some.2 ⟨by omega, rfl⟩
  have hdiv : uCheckedDiv s.i 16 = some (s.i / 16) := uCheckedDiv_eq_some.2 ⟨by decide, rfl⟩
  have hrem16 : uCheckedRem s.i 16 = some (s.i % 16) := uCheckedRem_eq_some.2 ⟨by decide, rfl⟩
  have hoffset : uCheckedMul 64 (s.i % 16) 2 = some (s.i % 16 * 2) :=
    uCheckedMul_eq_some.2 ⟨by omega, rfl⟩
  have hoffset1 : uCheckedAdd 64 (s.i % 16 * 2) 1 = some (s.i % 16 * 2 + 1) :=
    uCheckedAdd_eq_some.2 ⟨by omega, rfl⟩
  have hweighted : uCheckedMul 64 (effectiveBalanceOf validators (candidate indices s.i))
      maxRandomValue =
      some (effectiveBalanceOf validators (candidate indices s.i) * maxRandomValue) :=
    uCheckedMul_eq_some.2 ⟨hbalances _ hmem, rfl⟩
  have hthreshold' : uCheckedMul 64 maxEffectiveBalance
      (((sha256 (seed.toList ++ intToBytes8 (s.i / 16))).toList.getD (s.i % 16 * 2) 0).toNat +
        256 * ((sha256 (seed.toList ++ intToBytes8 (s.i / 16))).toList.getD
          (s.i % 16 * 2 + 1) 0).toNat) =
      some (maxEffectiveBalance * randomValue sha256 seed s.i) :=
    uCheckedMul_eq_some.2 ⟨hthreshold, rfl⟩
  simp only [loopBody, hrem, hdiv, hrem16, hoffset, hoffset1, hbytes, hgroup,
    hbyte _ (by omega : s.i % 16 * 2 < 32), hbyte _ (by omega : s.i % 16 * 2 + 1 < 32),
    liftArith_some, okOr_some, pure_bind, List.getElem?_map, hcand, Option.map_some,
    hweighted, hthreshold']
  -- the comparison is the specification's acceptance
  by_cases hacc : effectiveBalanceOf validators (candidate indices s.i) * maxRandomValue ≥
      maxEffectiveBalance * randomValue sha256 seed s.i
  · rw [if_pos hacc, selectionStep, if_pos (by simpa [accepts, balanceWeightedAcceptance] using hacc),
      bind_pure_comp]
  · rw [if_neg hacc, selectionStep, if_neg (by simpa [accepts, balanceWeightedAcceptance] using hacc),
      bind_pure_comp]

theorem loopBody_eq {s : LoopState} (hcache : CacheHolds sha256 seed s)
    (htotal : 0 < indices.length) (hi : s.i + 1 < 2 ^ 64)
    (hbalances : ∀ idx ∈ indices, effectiveBalanceOf validators idx * maxRandomValue < 2 ^ 64)
    (hmax : maxEffectiveBalance * maxRandomValue < 2 ^ 64) :
    loopBody sha256 seed indices (indices.map (effectiveBalanceOf validators)) indices.length
        maxEffectiveBalance s =
      pure ⟨selectionStep sha256 seed validators indices maxEffectiveBalance s.i s.selected,
        s.i + 1, s.i / 16, sha256 (seed.toList ++ intToBytes8 (s.i / 16))⟩ := by
  rw [loopBody_eq_map sha256 seed validators indices maxEffectiveBalance hcache htotal hbalances
    hmax, uCheckedAdd_eq_some.2 ⟨hi, rfl⟩, liftArith_some, map_pure]

/-- While the counter stays below `2 ^ 64`, the source's loop returns what the specification's
loop returns in as many iterations; the induction is on those iterations. -/
theorem selectionLoop_eq (htotal : 0 < indices.length)
    (hbalances : ∀ idx ∈ indices, effectiveBalanceOf validators idx * maxRandomValue < 2 ^ 64)
    (hmax : maxEffectiveBalance * maxRandomValue < 2 ^ 64) :
    ∀ (n fuel : Nat) (s : LoopState) (r : List Nat), CacheHolds sha256 seed s → n ≤ fuel →
      s.i + n < 2 ^ 64 →
      balanceWeightedSelection sha256 seed validators indices maxEffectiveBalance size n s.i
          s.selected = some r →
      ∃ s', selectionLoop sha256 seed indices (indices.map (effectiveBalanceOf validators))
          indices.length maxEffectiveBalance size fuel s = .ok s' ∧ s'.selected = r
  | n, fuel, s, r, hcache, hfuel, hi, hspec => by
    unfold balanceWeightedSelection at hspec
    unfold selectionLoop
    by_cases hlt : s.selected.length < size
    · rw [if_pos hlt] at hspec ⊢
      cases n with
      | zero => cases hspec
      | succ n =>
        obtain ⟨fuel, rfl⟩ : ∃ f, fuel = f + 1 := ⟨fuel - 1, by omega⟩
        dsimp only at hspec ⊢
        rw [loopBody_eq sha256 seed validators indices maxEffectiveBalance hcache htotal (by omega)
          hbalances hmax, pure_bind]
        exact selectionLoop_eq htotal hbalances hmax n fuel _ r (cacheHolds_step sha256 seed _ _)
          (by omega) (by dsimp only; omega) hspec
    · rw [if_neg hlt] at hspec ⊢
      cases hspec
      exact ⟨s, rfl, rfl⟩

end Refinement

/-! ## A member of maximal balance bounds the iterations -/

section Termination

variable (sha256 : List UInt8 → Vector UInt8 32) (seed : Vector UInt8 32)
  (validators : List Validator) (indices : List Nat) (maxEffectiveBalance size : Nat)

theorem candidate_mem (htotal : 0 < indices.length) (i : Nat) : candidate indices i ∈ indices := by
  rw [candidate, List.getD_eq_getElem?_getD, List.getElem?_eq_getElem (Nat.mod_lt _ htotal),
    Option.getD_some]
  exact List.getElem_mem _

/-- A member of maximal balance is accepted at every visit: no random value exceeds
`2 ^ 16 - 1`. -/
theorem accepts_of_max {i : Nat}
    (h : effectiveBalanceOf validators (candidate indices i) = maxEffectiveBalance) :
    accepts sha256 seed validators indices maxEffectiveBalance i = true := by
  rw [accepts, balanceWeightedAcceptance, h, decide_eq_true_eq]
  exact Nat.mul_le_mul_left _ (randomValue_le sha256 seed i)

/-- Iteration `j * total + p` visits position `p`. -/
theorem candidate_mul_add {p : Nat} (hp : p < indices.length) (j : Nat) :
    candidate indices (j * indices.length + p) = indices.getD p 0 := by
  rw [candidate, Nat.mul_comm, Nat.mul_add_mod, Nat.mod_eq_of_lt hp]

/-- With a member of maximal balance at position `p`, each pass over the members accepts its
visit to `p`, so the first `size` passes accept at least `size` iterations. -/
theorem size_le_length_filter_accepts {p : Nat} (hp : p < indices.length)
    (hmax : effectiveBalanceOf validators (indices.getD p 0) = maxEffectiveBalance) :
    size ≤ ((List.range' 0 (size * indices.length)).filter
      (accepts sha256 seed validators indices maxEffectiveBalance)).length := by
  have hnodup : ((List.range size).map fun j => j * indices.length + p).Nodup := by
    refine List.Nodup.map (fun a b hab => ?_) List.nodup_range
    exact Nat.eq_of_mul_eq_mul_right (by omega) (Nat.add_right_cancel hab)
  have hsub : ((List.range size).map fun j => j * indices.length + p) ⊆
      (List.range' 0 (size * indices.length)).filter
        (accepts sha256 seed validators indices maxEffectiveBalance) := by
    intro x hx
    obtain ⟨j, hj, rfl⟩ := List.mem_map.1 hx
    have hlt : j * indices.length + p < size * indices.length :=
      calc j * indices.length + p < (j + 1) * indices.length := by rw [Nat.succ_mul]; omega
        _ ≤ size * indices.length := Nat.mul_le_mul_right _ (List.mem_range.1 hj)
    rw [List.mem_filter, List.mem_range'_1]
    exact ⟨⟨Nat.zero_le _, by omega⟩,
      accepts_of_max sha256 seed validators indices maxEffectiveBalance
        (by rw [candidate_mul_add indices hp]; exact hmax)⟩
  simpa using hnodup.length_le_of_subset hsub

/-- With a member of maximal balance, the specification's loop stops within `size` passes over
the members and returns `size` of them. -/
theorem balanceWeightedSelection_of_max {p : Nat} (hp : p < indices.length)
    (hmax : effectiveBalanceOf validators (indices.getD p 0) = maxEffectiveBalance) :
    ∃ r, balanceWeightedSelection sha256 seed validators indices maxEffectiveBalance size
        (size * indices.length) 0 [] = some r ∧ r.length = size ∧ ∀ x ∈ r, x ∈ indices := by
  have hcount := size_le_length_filter_accepts sha256 seed validators indices maxEffectiveBalance
    size hp hmax
  rw [balanceWeightedSelection_eq _ _ _ _ _ _ _ _ [] (Nat.zero_le _), List.length_nil,
    Nat.sub_zero, if_pos hcount, List.nil_append]
  refine ⟨_, rfl, ?_, fun x hx => ?_⟩
  · rw [List.length_take, List.length_map]
    omega
  · obtain ⟨i, -, rfl⟩ := List.mem_map.1 (List.mem_of_mem_take hx)
    exact candidate_mem indices (by omega) i

end Termination

/-! ## `compute_ptc_inner` -/

section ComputePtc

variable (sha256 : List UInt8 → Vector UInt8 32) (validators : List Validator)

/-- The prefetch loops keep every member and read its balance, when every member indexes a
validator. -/
theorem foldlM_prefetchStep :
    ∀ (members : List Nat) (acc : List Nat × List Nat), (∀ idx ∈ members, idx < validators.length) →
      members.foldlM (prefetchStep validators) acc =
        pure (acc.1 ++ members, acc.2 ++ members.map (effectiveBalanceOf validators))
  | [], acc, _ => by simp
  | idx :: members, acc, hlt => by
    have hidx : idx < validators.length := hlt idx List.mem_cons_self
    have hstep : prefetchStep validators acc idx =
        pure (acc.1 ++ [idx], acc.2 ++ [effectiveBalanceOf validators idx]) := by
      rw [prefetchStep, List.getElem?_eq_getElem hidx, okOr_some, pure_bind, effectiveBalanceOf,
        List.getElem?_eq_getElem hidx, Option.map_some, Option.getD_some]
    rw [List.foldlM_cons, hstep, pure_bind,
      foldlM_prefetchStep members _ fun x hx => hlt x (List.mem_cons_of_mem _ hx)]
    simp

/-- The member count, added with saturation. -/
theorem foldl_uSaturatingAdd_length :
    ∀ (committees : List (List Nat)) (acc : Nat), acc ≤ uMax 64 →
      committees.foldl (fun acc c => uSaturatingAdd 64 acc c.length) acc =
        min (acc + committees.flatten.length) (uMax 64)
  | [], acc, hacc => by simpa using hacc
  | c :: committees, acc, hacc => by
    rw [List.foldl_cons, foldl_uSaturatingAdd_length committees (uSaturatingAdd 64 acc c.length)
      (Nat.min_le_right _ _), uSaturatingAdd, List.flatten_cons, List.length_append]
    omega

/-- `compute_ptc_inner` once the seed is found, for nonempty committees whose members index
validators: the selection loop over the members and their balances, the member count saturated
at `u64::MAX`. -/
theorem computePtcInner_eq (ptcSize maxEffectiveBalance : Nat) (seedSpec : BeaconState.SeedSpec)
    (slotsPerEpoch domainPtcAttester : Nat) (randaoMixes : List (Vector UInt8 32))
    {baseSeed : Vector UInt8 32} {slot : Nat}
    (hseed : BeaconState.getSeed sha256 seedSpec randaoMixes domainPtcAttester
      (slot / slotsPerEpoch) = .ok baseSeed)
    {committees : List (List Nat)}
    (hmembers : ∀ idx ∈ committees.flatten, idx < validators.length)
    (hne : 0 < committees.flatten.length) :
    computePtcInner sha256 ptcSize maxEffectiveBalance seedSpec slotsPerEpoch domainPtcAttester
        validators randaoMixes slot committees =
      (fun s => s.selected) <$> selectionLoop sha256 (sha256 (baseSeed.toList ++ intToBytes8 slot))
        committees.flatten (committees.flatten.map (effectiveBalanceOf validators))
        (min committees.flatten.length (uMax 64)) maxEffectiveBalance ptcSize (2 ^ 64)
        ⟨[], 0, uMax 64, Vector.replicate 32 0⟩ := by
  have htotal := foldl_uSaturatingAdd_length committees 0 (by unfold uMax; omega)
  rw [Nat.zero_add] at htotal
  have hpos : min committees.flatten.length (uMax 64) ≠ 0 := by unfold uMax; omega
  have hprefetch : prefetch validators committees.flatten =
      pure (committees.flatten, committees.flatten.map (effectiveBalanceOf validators)) := by
    have h := foldlM_prefetchStep validators committees.flatten ([], []) hmembers
    rw [List.nil_append, List.nil_append] at h
    exact h
  rw [computePtcInner]
  simp only [hseed, Except.mapError, pure_bind, htotal, if_neg hpos, hprefetch, bind_pure_comp]
  rfl

end ComputePtc

/-! ## The selection of the committee -/

end Vibehouse.Gloas.Ptc
