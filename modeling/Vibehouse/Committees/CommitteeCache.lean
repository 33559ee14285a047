import Vibehouse.Shuffle.List
import Vibehouse.BeaconState.Seed
import Vibehouse.Lib.MachineInt
import Vibehouse.Lib.Slices
import Vibehouse.Lib.StateRun

/-! # The committee cache and attestation duties

`CommitteeCache::initialized` shuffles the active validators of an epoch once and stores the
shuffling with each validator's position in it. Three index computations then read it:
`get_beacon_committee` slices the shuffling at `n * k / (c * S)` for the committee number
`k = (slot % S) * c + index`, `get_attestation_duties` scans the same slices for a validator's
position, and `convert_to_slot_and_index` maps the committee number back to a slot and an index.

`Built` is what `initialized` leaves in the cache; the committees and the duties are proved from it
alone. Slots and epochs are natural numbers, as in the other modules: `start_slot` saturates and
`safe_add` fails only for epochs within a few of `u64::MAX / slots_per_epoch`. The products
`n * k` stay below `2 ^ 64` since `n ≤ 2 ^ 24` and `k ≤ c * S ≤ max S n`. The seed is the state's
`get_seed` for the attester domain; SHA-256 is a parameter. -/

namespace Vibehouse.Committees

open MachineInt Shuffle FixedVector

/-! ## The source -/

section Source

/-- The fields of a validator that `is_active_at` reads. -/
structure Validator where
  activationEpoch : Nat
  exitEpoch : Nat
  deriving DecidableEq, Repr

/-- `Validator::is_active_at`. -/
def Validator.isActiveAt (v : Validator) (epoch : Nat) : Bool :=
  v.activationEpoch ≤ epoch && epoch < v.exitEpoch

/-- The constants `initialized` reads: `E::slots_per_epoch()`, four of the chain spec, and for
`get_seed` `E::EpochsPerHistoricalVector` and the constant of `Domain::BeaconAttester`. -/
structure CacheSpec where
  slotsPerEpoch : Nat
  minSeedLookahead : Nat
  maxCommitteesPerSlot : Nat
  targetCommitteeSize : Nat
  shuffleRoundCount : UInt8
  epochsPerHistoricalVector : Nat
  domainBeaconAttester : Nat

/-- The constants of `get_seed` in the chain spec. -/
def CacheSpec.seedSpec (spec : CacheSpec) : BeaconState.SeedSpec :=
  ⟨spec.epochsPerHistoricalVector, spec.minSeedLookahead⟩

/-- The `BeaconStateError`s of `initialized`, `get_seed` and `get_beacon_committees_at_slot`. -/
inductive Error
  | epochOutOfBounds
  | zeroSlotsPerEpoch
  | tooManyValidators
  | insufficientValidators
  | arithError
  | unableToShuffle
  | shuffleIndexOutOfBounds (index : Nat)
  | randaoMixesOutOfBounds (index : Nat)
  | committeeCacheUninitialized
  | noCommittee (slot index : Nat)
  deriving DecidableEq, Repr

/-- `get_seed`'s errors, which are `BeaconStateError`s too. -/
def Error.ofSeedError : BeaconState.SeedError → Error
  | .arithError => .arithError
  | .randaoMixesOutOfBounds index => .randaoMixesOutOfBounds index

/-- A `safe_*` result as a `BeaconStateError`. -/
def liftArith {α : Type} : Option α → Except Error α
  | some a => .ok a
  | none => .error .arithError

/-- `CommitteeCache`. An entry of `shuffling_positions` is a `NonZeroUsize`: the position plus
one. -/
structure CommitteeCache where
  initializedEpoch : Option Nat
  shuffling : List Nat
  shufflingPositions : List (Option {p : Nat // 0 < p})
  committeesPerSlot : Nat
  slotsPerEpoch : Nat

/-- `BeaconCommittee`. -/
structure BeaconCommittee where
  slot : Nat
  index : Nat
  committee : List Nat
  deriving DecidableEq, Repr

/-- `AttestationDuty`. -/
structure AttestationDuty where
  slot : Nat
  index : Nat
  committeePosition : Nat
  committeeLen : Nat
  committeesAtSlot : Nat
  deriving DecidableEq, Repr

/-- `get_active_validator_indices`. -/
def getActiveValidatorIndices (validators : List Validator) (epoch : Nat) : List Nat :=
  validators.zipIdx.filterMap fun (validator, index) =>
    if validator.isActiveAt epoch then some index else none

/-- `get_committee_count_per_slot_with`. -/
def getCommitteeCountPerSlot (spec : CacheSpec) (activeValidatorCount : Nat) : Except Error Nat := do
  let perSlot ← liftArith (uCheckedDiv activeValidatorCount spec.slotsPerEpoch)
  let committees ← liftArith (uCheckedDiv perSlot spec.targetCommitteeSize)
  pure (max 1 (min spec.maxCommitteesPerSlot committees))

variable (sha256 : List UInt8 → Vector UInt8 32)

/-- `min_randao_epoch`: `current_epoch.saturating_add(1).saturating_sub(EPOCHS_PER_HISTORICAL_VECTOR)`. -/
def minRandaoEpoch (spec : CacheSpec) (currentEpoch : Nat) : Nat :=
  uSaturatingAdd 64 currentEpoch 1 - spec.epochsPerHistoricalVector

/-- `CommitteeCache::initialized` for `epoch`, in a state whose current epoch is `currentEpoch`,
with the state's validators and RANDAO mixes. -/
def initialized (spec : CacheSpec) (currentEpoch : Nat) (validators : List Validator)
    (randaoMixes : List (Vector UInt8 32)) (epoch : Nat) : Except Error CommitteeCache := do
  let reqdRandaoEpoch := epoch - spec.minSeedLookahead - 1
  let maxFutureEpoch ← liftArith ((uCheckedAdd 64 currentEpoch spec.minSeedLookahead).bind
    fun e => uCheckedAdd 64 e 1)
  if reqdRandaoEpoch < minRandaoEpoch spec currentEpoch ∨ epoch > maxFutureEpoch then
    throw .epochOutOfBounds
  if spec.slotsPerEpoch = 0 then throw .zeroSlotsPerEpoch
  -- `NonZeroUsize` positions leave room for one validator fewer
  if validators.length = usizeMax then throw .tooManyValidators
  let activeValidatorIndices := getActiveValidatorIndices validators epoch
  if activeValidatorIndices = [] then throw .insufficientValidators
  let committeesPerSlot ← getCommitteeCountPerSlot spec activeValidatorIndices.length
  let seed ← (BeaconState.getSeed sha256 spec.seedSpec randaoMixes spec.domainBeaconAttester
    epoch).mapError Error.ofSeedError
  let shuffling ← match shuffleList sha256 activeValidatorIndices spec.shuffleRoundCount seed false with
    | some shuffling => pure shuffling
    | none => throw .unableToShuffle
  let shufflingPositions ← writeAt .shuffleIndexOutOfBounds (fun i => some ⟨i + 1, Nat.succ_pos i⟩)
    shuffling 0 (List.replicate validators.length none)
  pure ⟨some epoch, shuffling, shufflingPositions, committeesPerSlot, spec.slotsPerEpoch⟩

/-- `compute_committee_index_in_epoch`. -/
def computeCommitteeIndexInEpoch (slot slotsPerEpoch committeesPerSlot committeeIndex : Nat) :
    Nat :=
  (slot % slotsPerEpoch) * committeesPerSlot + committeeIndex

/-- `compute_committee_range_in_epoch`: the range `start..end` as a pair. -/
def computeCommitteeRangeInEpoch (epochCommitteeCount indexInEpoch shufflingLen : Nat) :
    Option (Nat × Nat) :=
  if epochCommitteeCount = 0 ∨ indexInEpoch ≥ epochCommitteeCount then none
  else
    some (shufflingLen * indexInEpoch / epochCommitteeCount,
      shufflingLen * (indexInEpoch + 1) / epochCommitteeCount)

/-- `<[usize]>::get(start..end)`. -/
def sliceGet (l : List Nat) (range : Nat × Nat) : Option (List Nat) :=
  if range.1 ≤ range.2 ∧ range.2 ≤ l.length then some ((l.drop range.1).take (range.2 - range.1))
  else none

namespace CommitteeCache

variable (c : CommitteeCache)

/-- `is_initialized_at`. -/
def isInitializedAt (epoch : Nat) : Bool := some epoch == c.initializedEpoch

/-- `epoch_committee_count`. -/
def epochCommitteeCount : Nat := c.committeesPerSlot * c.slotsPerEpoch

/-- `compute_committee_range`. -/
def computeCommitteeRange (index : Nat) : Option (Nat × Nat) :=
  computeCommitteeRangeInEpoch c.epochCommitteeCount index c.shuffling.length

/-- `compute_committee`. -/
def computeCommittee (index : Nat) : Option (List Nat) :=
  (c.computeCommitteeRange index).bind (sliceGet c.shuffling)

/-- `get_beacon_committee`; `slot.epoch(slots_per_epoch)` is `slot / slots_per_epoch`. -/
def getBeaconCommittee (slot index : Nat) : Option BeaconCommittee :=
  if c.initializedEpoch.isNone ∨ !c.isInitializedAt (slot / c.slotsPerEpoch) ∨
      index ≥ c.committeesPerSlot then none
  else do
    let committeeIndex :=
      computeCommitteeIndexInEpoch slot c.slotsPerEpoch c.committeesPerSlot index
    let committee ← c.computeCommittee committeeIndex
    pure ⟨slot, index, committee⟩

/-- `get_beacon_committees_at_slot`: the committees of `slot` by index, `0..committees_per_slot`,
collected into a `Result`. -/
def getBeaconCommitteesAtSlot (slot : Nat) : Except Error (List BeaconCommittee) :=
  if c.initializedEpoch.isNone then .error .committeeCacheUninitialized
  else (List.range c.committeesPerSlot).mapM fun index =>
    match c.getBeaconCommittee slot index with
    | some committee => .ok committee
    | none => .error (.noCommittee slot index)

/-- `shuffled_position`. -/
def shuffledPosition (validatorIndex : Nat) : Option Nat :=
  (c.shufflingPositions[validatorIndex]?).bind fun p => p.map fun p => p.val - 1

/-- `convert_to_slot_and_index`. -/
def convertToSlotAndIndex (globalCommitteeIndex : Nat) : Option (Nat × Nat) := do
  let epochStartSlot := (← c.initializedEpoch) * c.slotsPerEpoch
  let slotOffset := globalCommitteeIndex / c.committeesPerSlot
  let index := globalCommitteeIndex % c.committeesPerSlot
  pure (epochStartSlot + slotOffset, index)

/-- `get_attestation_duties`. -/
def getAttestationDuties (validatorIndex : Nat) : Option AttestationDuty := do
  let i ← c.shuffledPosition validatorIndex
  let (nthCommittee, range) ← ((List.range c.epochCommitteeCount).map fun nthCommittee =>
      (nthCommittee, c.computeCommitteeRange nthCommittee)).find? fun (_, range) =>
        match range with
        | some (start, end_) => start ≤ i && end_ > i
        | none => false
  let (slot, index) ← c.convertToSlotAndIndex nthCommittee
  let (start, end_) ← range
  pure ⟨slot, index, i - start, end_ - start, c.committeesPerSlot⟩

end CommitteeCache

end Source

/-! ## What `initialized` leaves in the cache -/

section Initialized

theorem mem_getActiveValidatorIndices {validators : List Validator} {epoch v : Nat} :
    v ∈ getActiveValidatorIndices validators epoch ↔
      ∃ validator, validators[v]? = some validator ∧ validator.isActiveAt epoch = true := by
  simp only [getActiveValidatorIndices, List.mem_filterMap, List.mem_zipIdx_iff_getElem?]
  constructor
  · rintro ⟨⟨validator, i⟩, hget, hsome⟩
    split_ifs at hsome with hactive
    cases hsome
    exact ⟨validator, hget, hactive⟩
  · rintro ⟨validator, hget, hactive⟩
    exact ⟨(validator, v), hget, by simp [hactive]⟩

theorem lt_length_of_mem_getActiveValidatorIndices {validators : List Validator} {epoch v : Nat}
    (h : v ∈ getActiveValidatorIndices validators epoch) : v < validators.length := by
  obtain ⟨validator, hget, -⟩ := mem_getActiveValidatorIndices.1 h
  exact (List.getElem?_eq_some_iff.1 hget).1

theorem getActiveValidatorIndices_nodup (validators : List Validator) (epoch : Nat) :
    (getActiveValidatorIndices validators epoch).Nodup := by
  -- the entries of the enumeration have pairwise distinct indices, and only indices are kept
  have hzip : validators.zipIdx.Pairwise (fun a b => a.2 ≠ b.2) := by
    apply List.pairwise_map.mp
    rw [List.zipIdx_map_snd]
    exact List.nodup_range'
  refine hzip.filterMap _ fun ⟨validator, i⟩ ⟨validator', i'⟩ hne j hj j' hj' => ?_
  dsimp only at hj hj'
  split_ifs at hj hj'
  cases hj
  cases hj'
  exact hne

theorem getCommitteeCountPerSlot_pos {spec : CacheSpec} {count committeesPerSlot : Nat}
    (h : getCommitteeCountPerSlot spec count = .ok committeesPerSlot) : 0 < committeesPerSlot := by
  obtain ⟨perSlot, -, h⟩ := Except.bind_eq_ok.1 h
  obtain ⟨committees, -, h⟩ := Except.bind_eq_ok.1 h
  cases h
  exact Nat.lt_of_lt_of_le Nat.one_pos (Nat.le_max_left _ _)

/-- What `initialized` leaves in the cache for `epoch`, and all that the readers of the cache
rely on: a shuffling without repeats, each validator's position in it, and committee and slot
counts that are not zero. -/
structure Built (c : CommitteeCache) (epoch : Nat) : Prop where
  initializedEpoch_eq : c.initializedEpoch = some epoch
  slotsPerEpoch_pos : 0 < c.slotsPerEpoch
  committeesPerSlot_pos : 0 < c.committeesPerSlot
  nodup : c.shuffling.Nodup
  shuffledPosition_eq : ∀ v, c.shuffledPosition v =
    if v ∈ c.shuffling then some (c.shuffling.idxOf v) else none

variable (sha256 : List UInt8 → Vector UInt8 32)

/-- The position loop of `initialized` stores, for each validator of the shuffling, its position
plus one, and nothing for the others. -/
theorem shuffledPosition_of_writeAt {shuffling : List Nat} {m : Nat}
    {positions : List (Option {p : Nat // 0 < p})} (hnodup : shuffling.Nodup)
    (hlt : ∀ v ∈ shuffling, v < m)
    (h : writeAt Error.shuffleIndexOutOfBounds (fun i => some ⟨i + 1, Nat.succ_pos i⟩) shuffling 0
      (List.replicate m none) = .ok positions) (e : Option Nat) (cps spe : Nat) (v : Nat) :
    CommitteeCache.shuffledPosition ⟨e, shuffling, positions, cps, spe⟩ v =
      if v ∈ shuffling then some (shuffling.idxOf v) else none := by
  obtain ⟨w, hw, -, hget⟩ := writeAt_eq_ok Error.shuffleIndexOutOfBounds
    (fun i => (some ⟨i + 1, Nat.succ_pos i⟩ : Option {p : Nat // 0 < p})) hnodup (k := 0) (v := List.replicate m none)
    (by simpa using hlt)
  rw [h, Except.ok.injEq] at hw
  subst hw
  rw [CommitteeCache.shuffledPosition, hget v]
  split_ifs <;> simp [List.getElem?_replicate]

theorem initialized_eq_ok {spec : CacheSpec} {currentEpoch : Nat} {validators : List Validator}
    {randaoMixes : List (Vector UInt8 32)} {epoch : Nat} {cache : CommitteeCache}
    (h : initialized sha256 spec currentEpoch validators randaoMixes epoch = .ok cache) :
    Built cache epoch ∧ cache.shuffling.Perm (getActiveValidatorIndices validators epoch) ∧
      cache.slotsPerEpoch = spec.slotsPerEpoch := by
  rw [initialized] at h
  dsimp only at h
  obtain ⟨maxFutureEpoch, -, h⟩ := Except.bind_eq_ok.1 h
  -- the four early returns
  split at h
  · nomatch h
  split at h
  · nomatch h
  rename_i hslots
  split at h
  · nomatch h
  split at h
  · nomatch h
  obtain ⟨cps, hcps, h⟩ := Except.bind_eq_ok.1 h
  obtain ⟨seed, -, h⟩ := Except.bind_eq_ok.1 h
  split at h
  · rename_i shuffling hshuffle
    rw [pure_bind] at h
    obtain ⟨positions, hpositions, h⟩ := Except.bind_eq_ok.1 h
    cases h
    have hperm := shuffleList_perm sha256 seed hshuffle
    have hnodup : shuffling.Nodup := hperm.nodup_iff.2 (getActiveValidatorIndices_nodup _ _)
    have hlt : ∀ v ∈ shuffling, v < validators.length := fun v hv =>
      lt_length_of_mem_getActiveValidatorIndices (hperm.mem_iff.1 hv)
    exact ⟨⟨rfl, Nat.pos_of_ne_zero hslots, getCommitteeCountPerSlot_pos hcps, hnodup,
      shuffledPosition_of_writeAt hnodup hlt hpositions _ _ _⟩, hperm, rfl⟩
  · nomatch h

end Initialized

/-! ## The committees of the epoch -/

namespace CommitteeCache

variable {c : CommitteeCache} {epoch : Nat}

/-- Where committee `g` of the epoch starts in the shuffling: `n * g / (c * S)`. -/
def committeeStart (c : CommitteeCache) (g : Nat) : Nat :=
  c.shuffling.length * g / c.epochCommitteeCount

/-- Committee `g` of the epoch: the shuffling from its start to the next committee's. -/
def committeeSlice (c : CommitteeCache) (g : Nat) : List Nat :=
  (c.shuffling.drop (c.committeeStart g)).take (c.committeeStart (g + 1) - c.committeeStart g)

theorem epochCommitteeCount_pos (hb : Built c epoch) : 0 < c.epochCommitteeCount :=
  Nat.mul_pos hb.committeesPerSlot_pos hb.slotsPerEpoch_pos

theorem committeeStart_mono (g : Nat) : c.committeeStart g ≤ c.committeeStart (g + 1) :=
  Slices.mul_div_mono (Nat.le_succ g)

theorem committeeStart_le {g : Nat} (hg : g ≤ c.epochCommitteeCount) :
    c.committeeStart g ≤ c.shuffling.length :=
  Slices.mul_div_le hg

theorem computeCommitteeRange_of_lt {g : Nat} (hg : g < c.epochCommitteeCount) :
    c.computeCommitteeRange g = some (c.committeeStart g, c.committeeStart (g + 1)) := by
  rw [computeCommitteeRange, computeCommitteeRangeInEpoch, if_neg (by omega)]
  rfl

theorem computeCommittee_of_lt {g : Nat} (hg : g < c.epochCommitteeCount) :
    c.computeCommittee g = some (c.committeeSlice g) := by
  rw [computeCommittee, computeCommitteeRange_of_lt hg, Option.bind_some, sliceGet,
    if_pos ⟨committeeStart_mono g, committeeStart_le hg⟩]
  rfl

theorem length_committeeSlice {g : Nat} (hg : g < c.epochCommitteeCount) :
    (c.committeeSlice g).length = c.committeeStart (g + 1) - c.committeeStart g := by
  have hend : c.committeeStart (g + 1) ≤ c.shuffling.length := committeeStart_le hg
  rw [committeeSlice, List.length_take, List.length_drop]
  omega

/-- A position of the shuffling within committee `g` is read in the committee at its offset from
the committee's start. -/
theorem getElem?_committeeSlice {g i : Nat} (hlo : c.committeeStart g ≤ i)
    (hhi : i < c.committeeStart (g + 1)) :
    (c.committeeSlice g)[i - c.committeeStart g]? = c.shuffling[i]? := by
  rw [committeeSlice, List.getElem?_take_of_lt (by omega), List.getElem?_drop,
    Nat.add_sub_cancel' hlo]

/-- The last committee ends at the end of the shuffling. -/
theorem committeeStart_self (hb : Built c epoch) :
    c.committeeStart c.epochCommitteeCount = c.shuffling.length :=
  Nat.mul_div_cancel _ (epochCommitteeCount_pos hb)

/-- The committees of the epoch, in order, flatten to the shuffling. -/
theorem flatMap_committeeSlice (hb : Built c epoch) :
    (List.range c.epochCommitteeCount).flatMap c.committeeSlice = c.shuffling := by
  have h := Slices.flatMap_slices c.shuffling (b := c.committeeStart)
    (by simp [committeeStart]) committeeStart_mono c.epochCommitteeCount
  rw [committeeStart_self hb, List.take_length] at h
  exact h

/-- Every committee of the epoch has `⌊n / (c * S)⌋` or `⌈n / (c * S)⌉` members. -/
theorem length_committeeSlice_eq (hb : Built c epoch) {g : Nat} (hg : g < c.epochCommitteeCount) :
    (c.committeeSlice g).length = c.shuffling.length / c.epochCommitteeCount ∨
      (c.committeeSlice g).length =
        (c.shuffling.length + c.epochCommitteeCount - 1) / c.epochCommitteeCount := by
  rw [length_committeeSlice hg]
  exact Slices.mul_succ_div_sub_mul_div (epochCommitteeCount_pos hb)

/-- Committee `index` of a slot `k` of the epoch has the number `k * c + index`, below `c * S`. -/
theorem committeeNumber_lt {k index : Nat} (hk : k < c.slotsPerEpoch)
    (hindex : index < c.committeesPerSlot) :
    k * c.committeesPerSlot + index < c.epochCommitteeCount :=
  calc k * c.committeesPerSlot + index < (k + 1) * c.committeesPerSlot := by
        rw [Nat.succ_mul]; omega
    _ ≤ c.slotsPerEpoch * c.committeesPerSlot := Nat.mul_le_mul_right _ hk
    _ = c.epochCommitteeCount := Nat.mul_comm _ _

/-- A committee of a slot of the cache's epoch is the slice of its number
`(slot % S) * c + index`. -/
theorem getBeaconCommittee_eq (hb : Built c epoch) {slot index : Nat}
    (hslot : slot / c.slotsPerEpoch = epoch) (hindex : index < c.committeesPerSlot) :
    c.getBeaconCommittee slot index =
      some ⟨slot, index, c.committeeSlice (slot % c.slotsPerEpoch * c.committeesPerSlot + index)⟩ := by
  have hg := committeeNumber_lt (Nat.mod_lt slot hb.slotsPerEpoch_pos) hindex
  rw [getBeaconCommittee, if_neg (by simp [isInitializedAt, hb.initializedEpoch_eq, hslot, hindex])]
  simp only [computeCommitteeIndexInEpoch, computeCommittee_of_lt hg]
  rfl

/-- The committees of a slot of the cache's epoch are, by index, the slices of the committee
numbers `(slot % S) * c + index`. -/
theorem getBeaconCommitteesAtSlot_eq (hb : Built c epoch) {slot : Nat}
    (hslot : slot / c.slotsPerEpoch = epoch) :
    c.getBeaconCommitteesAtSlot slot = .ok ((List.range c.committeesPerSlot).map fun index =>
      ⟨slot, index, c.committeeSlice (slot % c.slotsPerEpoch * c.committeesPerSlot + index)⟩) := by
  rw [getBeaconCommitteesAtSlot, if_neg (by simp [hb.initializedEpoch_eq])]
  refine FixedVector.mapM_eq_pure_map fun index hindex => ?_
  rw [getBeaconCommittee_eq hb hslot (List.mem_range.1 hindex)]
  rfl

/-- A committee repeats no validator: it is a slice of the shuffling. -/
theorem committeeSlice_nodup (hb : Built c epoch) (g : Nat) : (c.committeeSlice g).Nodup :=
  hb.nodup.sublist ((List.take_sublist _ _).trans (List.drop_sublist _ _))

/-- Two committees of the epoch share no validator: the shuffling they cut repeats none. -/
theorem committeeSlice_disjoint (hb : Built c epoch) {g g' : Nat} (hg : g < c.epochCommitteeCount)
    (hg' : g' < c.epochCommitteeCount) (hne : g ≠ g') :
    (c.committeeSlice g).Disjoint (c.committeeSlice g') := by
  have hflat : ((List.range c.epochCommitteeCount).map c.committeeSlice).flatten.Nodup := by
    rw [← List.flatMap_def, flatMap_committeeSlice hb]
    exact hb.nodup
  have hpair := (List.nodup_flatten.1 hflat).2
  rw [List.pairwise_map] at hpair
  have : Std.Symm fun a b => (c.committeeSlice a).Disjoint (c.committeeSlice b) :=
    ⟨fun _ _ h => h.symm⟩
  exact hpair.forall (List.mem_range.2 hg) (List.mem_range.2 hg') hne

/-- The committees of slot `k` of the epoch, by index, are pairwise disjoint. -/
theorem slot_committees_pairwise_disjoint (hb : Built c epoch) {k : Nat} (hk : k < c.slotsPerEpoch) :
    ((List.range c.committeesPerSlot).map fun index =>
      c.committeeSlice (k * c.committeesPerSlot + index)).Pairwise List.Disjoint := by
  rw [List.pairwise_map]
  refine List.nodup_range.imp_of_mem fun hi hj hij => committeeSlice_disjoint hb
    (committeeNumber_lt hk (List.mem_range.1 hi)) (committeeNumber_lt hk (List.mem_range.1 hj)) ?_
  omega

/-- The slots of the epoch, in order, and at each its committee indices, in order. -/
def epochSlotsAndIndices (c : CommitteeCache) (epoch : Nat) : List (Nat × Nat) :=
  (List.range c.slotsPerEpoch).flatMap fun k =>
    (List.range c.committeesPerSlot).map fun index => (epoch * c.slotsPerEpoch + k, index)

/-- Every committee of the epoch is found, and in the order of the slots and then of the indices
they are the committees `0, 1, …, c * S - 1`. -/
theorem mapM_getBeaconCommittee (hb : Built c epoch) :
    (c.epochSlotsAndIndices epoch).mapM (fun p => (c.getBeaconCommittee p.1 p.2).map (·.committee)) =
      some ((List.range c.epochCommitteeCount).map c.committeeSlice) := by
  have hS := hb.slotsPerEpoch_pos
  -- slot `epoch * S + k` is slot `k` of the epoch
  have hslot : ∀ k < c.slotsPerEpoch, (epoch * c.slotsPerEpoch + k) / c.slotsPerEpoch = epoch ∧
      (epoch * c.slotsPerEpoch + k) % c.slotsPerEpoch = k := fun k hk =>
    ⟨by rw [Nat.mul_comm, Nat.mul_add_div hS, Nat.div_eq_of_lt hk, Nat.add_zero],
      by rw [Nat.mul_comm, Nat.mul_add_mod, Nat.mod_eq_of_lt hk]⟩
  rw [FixedVector.mapM_eq_some_map
    (g := fun p => c.committeeSlice (p.1 % c.slotsPerEpoch * c.committeesPerSlot + p.2))]
  · rw [epochSlotsAndIndices, List.map_flatMap, epochCommitteeCount,
      Nat.mul_comm c.committeesPerSlot, ← Slices.flatMap_range_mul]
    refine congrArg some (List.flatMap_congr fun k hk => ?_)
    rw [List.map_map]
    refine List.map_congr_left fun index _ => ?_
    simp only [Function.comp_apply, (hslot k (List.mem_range.1 hk)).2]
  · intro p hp
    simp only [epochSlotsAndIndices, List.mem_flatMap, List.mem_map, List.mem_range] at hp
    obtain ⟨k, hk, index, hindex, rfl⟩ := hp
    rw [getBeaconCommittee_eq hb (hslot k hk).1 hindex]
    rfl

/-! ## Attestation duties -/

/-- `convert_to_slot_and_index` of committee `g`: slot `g / c` of the epoch and index `g % c`. -/
theorem convertToSlotAndIndex_eq (hb : Built c epoch) (g : Nat) :
    c.convertToSlotAndIndex g =
      some (epoch * c.slotsPerEpoch + g / c.committeesPerSlot, g % c.committeesPerSlot) := by
  rw [convertToSlotAndIndex, hb.initializedEpoch_eq]
  rfl

theorem getAttestationDuties_of_not_mem (hb : Built c epoch) {v : Nat} (hv : v ∉ c.shuffling) :
    c.getAttestationDuties v = none := by
  rw [getAttestationDuties, hb.shuffledPosition_eq, if_neg hv]
  rfl

/-- The duty of a validator of the shuffling: the scan stops at a committee `g` whose slice holds
the validator's position, and the duty names its slot, index, the offset in it and its length. -/
theorem getAttestationDuties_of_mem (hb : Built c epoch) {v : Nat} (hv : v ∈ c.shuffling) :
    ∃ g < c.epochCommitteeCount, c.committeeStart g ≤ c.shuffling.idxOf v ∧
      c.shuffling.idxOf v < c.committeeStart (g + 1) ∧
      c.getAttestationDuties v = some ⟨epoch * c.slotsPerEpoch + g / c.committeesPerSlot,
        g % c.committeesPerSlot, c.shuffling.idxOf v - c.committeeStart g,
        c.committeeStart (g + 1) - c.committeeStart g, c.committeesPerSlot⟩ := by
  have hi : c.shuffling.idxOf v < c.shuffling.length := List.idxOf_lt_length_of_mem hv
  rw [getAttestationDuties, hb.shuffledPosition_eq, if_pos hv]
  simp only [Option.bind_eq_bind, Option.bind_some]
  generalize hfind : List.find? _ _ = found
  cases found with
  | none =>
    -- the position lies in some committee, so the scan cannot miss
    obtain ⟨g, hg, hlo, hhi⟩ := Slices.exists_slice_of_lt c.committeeStart
      (by simp [committeeStart]) (by rwa [committeeStart_self hb])
    have hmiss := List.find?_eq_none.1 hfind (g, c.computeCommitteeRange g)
      (List.mem_map.2 ⟨g, List.mem_range.2 hg, rfl⟩)
    rw [computeCommitteeRange_of_lt hg] at hmiss
    simp only [Bool.and_eq_true, decide_eq_true_eq, not_and] at hmiss
    exact absurd hhi (Nat.not_lt.2 (Nat.le_of_not_lt (hmiss hlo)))
  | some found =>
    obtain ⟨g, hg, hfound⟩ := List.mem_map.1 (List.mem_of_find?_eq_some hfind)
    have hpred := List.find?_some hfind
    rw [← hfound, computeCommitteeRange_of_lt (List.mem_range.1 hg)] at hpred
    simp only [Bool.and_eq_true, decide_eq_true_eq] at hpred
    refine ⟨g, List.mem_range.1 hg, hpred.1, hpred.2, ?_⟩
    rw [← hfound, Option.bind_some, convertToSlotAndIndex_eq hb,
      computeCommitteeRange_of_lt (List.mem_range.1 hg)]
    rfl

theorem getAttestationDuties_isSome_iff (hb : Built c epoch) {v : Nat} :
    (∃ d, c.getAttestationDuties v = some d) ↔ v ∈ c.shuffling := by
  constructor
  · rintro ⟨d, hd⟩
    by_contra hv
    rw [getAttestationDuties_of_not_mem hb hv] at hd
    cases hd
  · intro hv
    obtain ⟨g, -, -, -, hd⟩ := getAttestationDuties_of_mem hb hv
    exact ⟨_, hd⟩

/-- A duty names a committee of the cache: it has the duty's length and holds the validator at the
duty's position. The committee number is recovered from the slot and the index as
`(g / c) * c + g % c = g`. -/
theorem getBeaconCommittee_of_getAttestationDuties (hb : Built c epoch) {v : Nat}
    {d : AttestationDuty} (h : c.getAttestationDuties v = some d) :
    ∃ committee, c.getBeaconCommittee d.slot d.index = some committee ∧
      committee.committee.length = d.committeeLen ∧
      committee.committee[d.committeePosition]? = some v ∧
      d.committeesAtSlot = c.committeesPerSlot := by
  have hv : v ∈ c.shuffling := (getAttestationDuties_isSome_iff hb).1 ⟨d, h⟩
  obtain ⟨g, hg, hlo, hhi, hd⟩ := getAttestationDuties_of_mem hb hv
  rw [hd, Option.some.injEq] at h
  subst h
  have hS := hb.slotsPerEpoch_pos
  have hcps := hb.committeesPerSlot_pos
  have hoffset : g / c.committeesPerSlot < c.slotsPerEpoch :=
    (Nat.div_lt_iff_lt_mul hcps).2 (by rw [Nat.mul_comm]; exact hg)
  have hslot : (epoch * c.slotsPerEpoch + g / c.committeesPerSlot) / c.slotsPerEpoch = epoch := by
    rw [Nat.mul_comm, Nat.mul_add_div hS, Nat.div_eq_of_lt hoffset, Nat.add_zero]
  have hnumber : (epoch * c.slotsPerEpoch + g / c.committeesPerSlot) % c.slotsPerEpoch *
      c.committeesPerSlot + g % c.committeesPerSlot = g := by
    rw [Nat.mul_comm epoch, Nat.mul_add_mod, Nat.mod_eq_of_lt hoffset, Nat.div_add_mod']
  refine ⟨_, getBeaconCommittee_eq hb hslot (Nat.mod_lt _ hcps), ?_, ?_, rfl⟩
  · rw [hnumber, length_committeeSlice hg]
  · rw [hnumber, getElem?_committeeSlice hlo hhi, List.getElem?_idxOf hv]

end CommitteeCache

/-! ## The cache partitions the active validators -/

open CommitteeCache in
/-- A cache built by `initialized` for an epoch splits a permutation of the epoch's active
validators into the committees of its slots, in order, each of `⌊n / (c * S)⌋` or `⌈n / (c * S)⌉`
members; and a validator has an attestation duty exactly when it is active, the duty naming the
committee that holds it at the duty's position. -/
theorem committee_cache_partitions_and_duties_invert (sha256 : List UInt8 → Vector UInt8 32)
    (spec : CacheSpec) (currentEpoch : Nat) (validators : List Validator)
    (randaoMixes : List (Vector UInt8 32)) (epoch : Nat) (cache : CommitteeCache)
    (h : initialized sha256 spec currentEpoch validators randaoMixes epoch = .ok cache) :
    cache.shuffling.Perm (getActiveValidatorIndices validators epoch) ∧
      (∃ committees : List (List Nat),
        (cache.epochSlotsAndIndices epoch).mapM
            (fun p => (cache.getBeaconCommittee p.1 p.2).map (·.committee)) = some committees ∧
          committees.flatten = cache.shuffling ∧
          ∀ committee ∈ committees,
            committee.length = (getActiveValidatorIndices validators epoch).length /
                (cache.committeesPerSlot * cache.slotsPerEpoch) ∨
              committee.length = ((getActiveValidatorIndices validators epoch).length +
                cache.committeesPerSlot * cache.slotsPerEpoch - 1) /
                  (cache.committeesPerSlot * cache.slotsPerEpoch)) ∧
      ∀ v, ((∃ d, cache.getAttestationDuties v = some d) ↔
          ∃ validator, validators[v]? = some validator ∧ validator.isActiveAt epoch = true) ∧
        ∀ d, cache.getAttestationDuties v = some d →
          ∃ committee, cache.getBeaconCommittee d.slot d.index = some committee ∧
            committee.committee.length = d.committeeLen ∧
            committee.committee[d.committeePosition]? = some v ∧
            d.committeesAtSlot = cache.committeesPerSlot := by
  obtain ⟨hb, hperm, -⟩ := initialized_eq_ok sha256 h
  refine ⟨hperm, ⟨_, mapM_getBeaconCommittee hb, ?_, ?_⟩, fun v => ⟨?_, fun d hd =>
    getBeaconCommittee_of_getAttestationDuties hb hd⟩⟩
  · rw [← List.flatMap_def]
    exact flatMap_committeeSlice hb
  · intro committee hc
    obtain ⟨g, hg, rfl⟩ := List.mem_map.1 hc
    rw [← hperm.length_eq]
    exact length_committeeSlice_eq hb (List.mem_range.1 hg)
  · rw [getAttestationDuties_isSome_iff hb, hperm.mem_iff, mem_getActiveValidatorIndices]

/-- Four validators, three of them active at epoch 0, two slots an epoch and one committee a slot,
one RANDAO mix: the committees are `[0]` and `[3, 1]`. -/
theorem committee_cache_partitions_and_duties_invert_fourValidators :
    initialized (fun _ => Vector.replicate 32 0xa5) ⟨2, 1, 4, 1, 1, 4, 1⟩ 0
        [⟨0, 10⟩, ⟨0, 10⟩, ⟨5, 10⟩, ⟨0, 10⟩] [Vector.replicate 32 7] 0 =
      .ok ⟨some 0, [0, 3, 1], [some ⟨1, by decide⟩, some ⟨3, by decide⟩, none, some ⟨2, by decide⟩],
        1, 2⟩ ∧
    (CommitteeCache.shuffling ⟨some 0, [0, 3, 1], [some ⟨1, by decide⟩, some ⟨3, by decide⟩, none,
        some ⟨2, by decide⟩], 1, 2⟩).Perm
        (getActiveValidatorIndices [⟨0, 10⟩, ⟨0, 10⟩, ⟨5, 10⟩, ⟨0, 10⟩] 0) ∧
      (∃ committees : List (List Nat),
        (CommitteeCache.epochSlotsAndIndices ⟨some 0, [0, 3, 1], [some ⟨1, by decide⟩,
            some ⟨3, by decide⟩, none, some ⟨2, by decide⟩], 1, 2⟩ 0).mapM
            (fun p => (CommitteeCache.getBeaconCommittee ⟨some 0, [0, 3, 1], [some ⟨1, by decide⟩,
              some ⟨3, by decide⟩, none, some ⟨2, by decide⟩], 1, 2⟩ p.1 p.2).map (·.committee)) =
            some committees ∧
          committees.flatten = [0, 3, 1] ∧
          ∀ committee ∈ committees,
            committee.length = (getActiveValidatorIndices [⟨0, 10⟩, ⟨0, 10⟩, ⟨5, 10⟩, ⟨0, 10⟩] 0).length /
                (1 * 2) ∨
              committee.length =
                ((getActiveValidatorIndices [⟨0, 10⟩, ⟨0, 10⟩, ⟨5, 10⟩, ⟨0, 10⟩] 0).length + 1 * 2 - 1) /
                  (1 * 2)) ∧
      ∀ v, ((∃ d, CommitteeCache.getAttestationDuties ⟨some 0, [0, 3, 1], [some ⟨1, by decide⟩,
            some ⟨3, by decide⟩, none, some ⟨2, by decide⟩], 1, 2⟩ v = some d) ↔
          ∃ validator, [(⟨0, 10⟩ : Validator), ⟨0, 10⟩, ⟨5, 10⟩, ⟨0, 10⟩][v]? = some validator ∧
            validator.isActiveAt 0 = true) ∧
        ∀ d, CommitteeCache.getAttestationDuties ⟨some 0, [0, 3, 1], [some ⟨1, by decide⟩,
            some ⟨3, by decide⟩, none, some ⟨2, by decide⟩], 1, 2⟩ v = some d →
          ∃ committee, CommitteeCache.getBeaconCommittee ⟨some 0, [0, 3, 1], [some ⟨1, by decide⟩,
              some ⟨3, by decide⟩, none, some ⟨2, by decide⟩], 1, 2⟩ d.slot d.index = some committee ∧
            committee.committee.length = d.committeeLen ∧
            committee.committee[d.committeePosition]? = some v ∧
            d.committeesAtSlot = 1 :=
  ⟨rfl, committee_cache_partitions_and_duties_invert (fun _ => Vector.replicate 32 0xa5)
    ⟨2, 1, 4, 1, 1, 4, 1⟩ 0 _ [Vector.replicate 32 7] 0 _ rfl⟩

end Vibehouse.Committees
