import Vibehouse.OperationPool.MaxCover
import Vibehouse.Lib.AssocList
import Vibehouse.Lib.MachineInt
import Vibehouse.Lib.StateRun

/-! # Attestations as items of the maximum cover

`operation_pool/src/attestation.rs`: an `AttMaxCover` holds the reward numerators of the
validators for which its attestation would be the first in the epoch, and their sum, cached so
that `score` does not iterate the map. `new_for_altair_or_later` weighs each fresh validator's
base reward, looked up in the epoch cache's table, by the weights of the attestation's
participation flags; `new_for_base` takes the phase 0 base reward over the proposer reward
quotient. `update_covering_set`, for an attestation of the same slot and committee index as the
one just packed, drops the validators that one covers and takes their rewards off the cached sum
with `saturating_sub`.

The cached sum is built by `values().sum()`, which wraps past `u64::MAX` in a release build. It is
the sum of the map's values when the base rewards are bounded so that the attesters' rewards stay
below `2 ^ 64` (`Built.consistent`); on mainnet a base reward is below `2 ^ 32` and an aggregate
has at most `2 ^ 17` attesters. After that no subtraction of an update saturates
(`AssocList.foldl_retain_total`). The validators of a packed attestation are dropped from every
later one of its slot and committee index, so the packed attestations of one committee have
disjoint fresh validators. -/

namespace Vibehouse.OperationPool

open MachineInt

/-- `WEIGHT_DENOMINATOR`. -/
def weightDenominator : Nat := 64

/-- `PROPOSER_WEIGHT`. -/
def proposerWeight : Nat := 8

/-- `PROPOSER_REWARD_DENOMINATOR`. -/
def proposerRewardDenominator : Nat :=
  (weightDenominator - proposerWeight) * weightDenominator / proposerWeight

/-- `AttMaxCover`: of the attestation, the slot and committee index of its data, which is what
`update_covering_set` reads; the `HashMap` of the reward numerators of its fresh validators, as
its entries in iteration order, with distinct keys; and their cached sum. -/
structure AttMaxCover where
  slot : Nat
  index : Nat
  freshValidatorsRewards : List (Nat × Nat)
  rewardNumeratorSum : Nat
  nodup : (freshValidatorsRewards.map Prod.fst).Nodup

namespace AttMaxCover

/-- The end of `new_for_base` and `new_for_altair_or_later`: the item of the fresh validators'
reward numerators, with `reward_numerator_sum = values().sum()`, which wraps modulo `2 ^ 64` in a
release build. -/
def ofFreshValidatorsRewards (slot index : Nat) (rewards : List (Nat × Nat))
    (hnodup : (rewards.map Prod.fst).Nodup) : AttMaxCover :=
  { slot, index, freshValidatorsRewards := rewards,
    rewardNumeratorSum := (rewards.map Prod.snd).sum % 2 ^ 64, nodup := hnodup }

/-- `update_covering_set`: for an attestation of the same slot and committee index as the best
one, `retain` keeps the validators the best one does not cover (`contains_key`) and takes the
reward of each one it drops off the cached sum, in the map's iteration order. -/
def updateCoveringSet (self best : AttMaxCover) : AttMaxCover :=
  if self.slot = best.slot ∧ self.index = best.index then
    let covered (k : Nat) : Bool := best.freshValidatorsRewards.any (·.1 == k)
    { self with
      freshValidatorsRewards := self.freshValidatorsRewards.filter fun (k, _) => !covered k
      rewardNumeratorSum := self.freshValidatorsRewards.foldl
        (fun sum (k, v) => if covered k then sum - v else sum) self.rewardNumeratorSum
      nodup := self.nodup.sublist (List.Sublist.map Prod.fst List.filter_sublist) }
  else self

/-- `score`: the cached sum over `PROPOSER_REWARD_DENOMINATOR`. -/
def score (self : AttMaxCover) : Nat :=
  self.rewardNumeratorSum / proposerRewardDenominator

/-- The validators of the item. -/
def keys (self : AttMaxCover) : List Nat :=
  self.freshValidatorsRewards.map Prod.fst

/-- The cached sum is the sum of the reward numerators. -/
def Consistent (self : AttMaxCover) : Prop :=
  self.rewardNumeratorSum = (self.freshValidatorsRewards.map Prod.snd).sum

instance : DecidablePred Consistent := fun self =>
  inferInstanceAs (Decidable (self.rewardNumeratorSum = (self.freshValidatorsRewards.map Prod.snd).sum))

end AttMaxCover

/-- `impl MaxCover for AttMaxCover`. -/
def attMaxCover : MaxCover AttMaxCover :=
  ⟨AttMaxCover.updateCoveringSet, AttMaxCover.score⟩


/-! ## Building an item -/

/-- `EpochCacheError`, of the lookups `get_base_reward` makes. -/
inductive EpochCacheError
  | validatorIndexOutOfBounds (validatorIndex : Nat)
  | effectiveBalanceOutOfBounds (effectiveBalanceEth : Nat)
  | arith
  | cacheNotInitialized
  deriving DecidableEq, Repr

/-- The `Inner` of an `EpochCache`, of what `get_base_reward` reads: the effective balance of
every validator, and the base reward of every number of effective balance increments. -/
structure EpochCacheInner where
  effectiveBalances : List Nat
  baseRewards : List Nat
  effectiveBalanceIncrement : Nat

/-- `EpochCache`: its `Inner`, once initialised. -/
structure EpochCache where
  inner : Option EpochCacheInner

/-- `EpochCache::get_effective_balance`. -/
def EpochCache.getEffectiveBalance (self : EpochCache) (validatorIndex : Nat) :
    Except EpochCacheError Nat := do
  let some inner := self.inner | throw .cacheNotInitialized
  match inner.effectiveBalances[validatorIndex]? with
  | some effectiveBalance => pure effectiveBalance
  | none => throw (.validatorIndexOutOfBounds validatorIndex)

/-- `EpochCache::get_base_reward`: the entry of the table for the validator's effective balance
in increments. -/
def EpochCache.getBaseReward (self : EpochCache) (validatorIndex : Nat) :
    Except EpochCacheError Nat := do
  let some inner := self.inner | throw .cacheNotInitialized
  let effectiveBalance ← self.getEffectiveBalance validatorIndex
  let some effectiveBalanceEth := uCheckedDiv effectiveBalance inner.effectiveBalanceIncrement
    | throw EpochCacheError.arith
  match inner.baseRewards[effectiveBalanceEth]? with
  | some baseReward => pure baseReward
  | none => throw (EpochCacheError.effectiveBalanceOutOfBounds effectiveBalanceEth)

/-- `OpPoolError`, of the lookups `has_attested_in_epoch` makes. -/
inductive RewardCacheError
  | rewardCacheOutOfBounds
  | rewardCacheWrongEpoch
  deriving DecidableEq, Repr

/-- `RewardCache`, of what `has_attested_in_epoch` reads: the current epoch of its
`Initialization`, and for each validator whether it has a participation flag in the previous and
in the current epoch. -/
structure RewardCache where
  initialization : Option Nat
  previousEpochParticipation : List Bool
  currentEpochParticipation : List Bool

/-- `RewardCache::has_attested_in_epoch`, for the current epoch of the cache or the one before
(`epoch + 1` saturates). -/
def RewardCache.hasAttestedInEpoch (self : RewardCache) (validatorIndex epoch : Nat) :
    Except RewardCacheError Bool :=
  match self.initialization with
  | some currentEpoch =>
    if currentEpoch = epoch then
      match self.currentEpochParticipation[validatorIndex]? with
      | some attested => .ok attested
      | none => .error .rewardCacheOutOfBounds
    else if currentEpoch = uSaturatingAdd 64 epoch 1 then
      match self.previousEpochParticipation[validatorIndex]? with
      | some attested => .ok attested
      | none => .error .rewardCacheOutOfBounds
    else .error .rewardCacheWrongEpoch
  | none => .error .rewardCacheWrongEpoch

/-- `PARTICIPATION_FLAG_WEIGHTS`: `TIMELY_SOURCE_WEIGHT`, `TIMELY_TARGET_WEIGHT` and
`TIMELY_HEAD_WEIGHT`. -/
def participationFlagWeights : List Nat := [14, 26, 14]

/-- One pass of the loop over `PARTICIPATION_FLAG_WEIGHTS.iter().enumerate()`: for a flag of the
attestation, `proposer_reward_numerator += base_reward.checked_mul(*weight)?`, the `+=` of `u64`s
wrapping in a release build. -/
def addFlagReward (baseReward : Nat) (attParticipationFlags : List Nat) (numerator : Nat) :
    Nat × Nat → Option Nat
  | (weight, flagIndex) =>
    if flagIndex ∈ attParticipationFlags then
      (uCheckedMul 64 baseReward weight).map fun reward => (numerator + reward) % 2 ^ 64
    else some numerator

/-- The proposer reward numerator of a validator, of base reward `baseReward`, for an attestation
of participation flags `attParticipationFlags`. -/
def proposerRewardNumerator (baseReward : Nat) (attParticipationFlags : List Nat) : Option Nat :=
  participationFlagWeights.zipIdx.foldlM (addFlagReward baseReward attParticipationFlags) 0

namespace AttMaxCover

/-- The closure of `new_for_altair_or_later`'s `filter_map`: nothing for a validator that has
attested in the target epoch, for one whose lookups fail, or for a zero numerator. -/
def freshValidatorReward (rewardCache : RewardCache) (epochCache : EpochCache)
    (targetEpoch : Nat) (attParticipationFlags : List Nat) (index : Nat) : Option (Nat × Nat) := do
  let attested ← (rewardCache.hasAttestedInEpoch index targetEpoch).toOption
  if attested then none else
  let baseReward ← (epochCache.getBaseReward index).toOption
  let numerator ← proposerRewardNumerator baseReward attParticipationFlags
  if numerator ≠ 0 then some (index, numerator) else none

/-- `AttMaxCover::new_for_altair_or_later`, for an attestation of data slot `slot`, committee
index `index` and target epoch `targetEpoch`, with attesting indices `attestingIndices`, in a
state at slot `stateSlot`. `participationFlagIndices` is the state's
`get_attestation_participation_flag_indices` for the attestation's data, at an inclusion delay;
the fresh validators' rewards are collected into a `HashMap`. -/
def newForAltairOrLater (slot index targetEpoch : Nat) (attestingIndices : List Nat)
    (stateSlot : Nat) (participationFlagIndices : Nat → Option (List Nat))
    (rewardCache : RewardCache) (epochCache : EpochCache) : Option AttMaxCover := do
  let inclusionDelay ← uCheckedSub stateSlot slot
  let attParticipationFlags ← participationFlagIndices inclusionDelay
  let rewards := AssocList.ofList (attestingIndices.filterMap
    (freshValidatorReward rewardCache epochCache targetEpoch attParticipationFlags))
  pure (ofFreshValidatorsRewards slot index rewards (AssocList.nodup_ofList _))

/-- The constants of `ChainSpec` that the phase 0 base reward reads. -/
structure BaseRewardSpec where
  baseRewardFactor : Nat
  baseRewardsPerEpoch : Nat
  proposerRewardQuotient : Nat

/-- `base::get_base_reward`, of a validator's effective balance and the integer square root of the
total active balance. -/
def baseGetBaseReward (validatorEffectiveBalance sqrtTotalActiveBalance : Nat)
    (spec : BaseRewardSpec) : Option Nat := do
  let reward ← uCheckedMul 64 validatorEffectiveBalance spec.baseRewardFactor
  let reward ← uCheckedDiv reward sqrtTotalActiveBalance
  uCheckedDiv reward spec.baseRewardsPerEpoch

/-- `AttMaxCover::new_for_base`, for an attestation of data slot `slot` and committee index
`index`, whose attesting indices among its committee's earliest attesters are `indices`, in a
state of validators' effective balances `effectiveBalances`. -/
def newForBase (slot index : Nat) (indices effectiveBalances : List Nat)
    (totalActiveBalance : Nat) (spec : BaseRewardSpec) : Option AttMaxCover :=
  let sqrtTotalActiveBalance := Nat.sqrt totalActiveBalance
  let rewards := AssocList.ofList (indices.filterMap fun validatorIndex => do
    let effectiveBalance ← effectiveBalances[validatorIndex]?
    let reward ← baseGetBaseReward effectiveBalance sqrtTotalActiveBalance spec
    let reward ← uCheckedDiv reward spec.proposerRewardQuotient
    pure (validatorIndex, reward))
  some (ofFreshValidatorsRewards slot index rewards (AssocList.nodup_ofList _))

end AttMaxCover


/-! ## The cached sum of a built item -/

/-- A pass of the flag loop adds at most the base reward times the weight, and does not wrap while
that stays below `2 ^ 64`. -/
theorem addFlagReward_le {baseReward : Nat} {flags : List Nat} {numerator numerator' : Nat}
    {weight flagIndex : Nat}
    (h : addFlagReward baseReward flags numerator (weight, flagIndex) = some numerator')
    (hlt : numerator + baseReward * weight < 2 ^ 64) : numerator' ≤ numerator + baseReward * weight := by
  simp only [addFlagReward] at h
  split at h
  · obtain ⟨reward, hmul, rfl⟩ := Option.map_eq_some_iff.1 h
    obtain ⟨-, rfl⟩ := uCheckedMul_eq_some.1 hmul
    exact (Nat.mod_eq_of_lt hlt).le
  · cases h
    exact Nat.le_add_right _ _

/-- The flag loop adds at most the base reward times the sum of the weights; by induction on the
weights. -/
theorem foldlM_addFlagReward_le {baseReward : Nat} {flags : List Nat} :
    ∀ (weights : List Nat) (start numerator n : Nat),
      (weights.zipIdx start).foldlM (addFlagReward baseReward flags) numerator = some n →
      numerator + baseReward * weights.sum < 2 ^ 64 → n ≤ numerator + baseReward * weights.sum
  | [], _, _, _, h, _ => by
    cases h
    simp
  | weight :: weights, start, numerator, n, h, hlt => by
    rw [List.zipIdx_cons, List.foldlM_cons] at h
    obtain ⟨numerator', hstep, hrest⟩ := Option.bind_eq_some_iff.1 h
    have hsum : baseReward * (weight :: weights).sum = baseReward * weight + baseReward * weights.sum := by
      rw [List.sum_cons, Nat.mul_add]
    have hle : numerator' ≤ numerator + baseReward * weight := addFlagReward_le hstep (by omega)
    have := foldlM_addFlagReward_le weights (start + 1) numerator' n hrest (by omega)
    omega

theorem proposerRewardNumerator_le {baseReward : Nat} {flags : List Nat} {n : Nat}
    (h : proposerRewardNumerator baseReward flags = some n)
    (hlt : baseReward * participationFlagWeights.sum < 2 ^ 64) :
    n ≤ baseReward * participationFlagWeights.sum := by
  simpa using foldlM_addFlagReward_le participationFlagWeights 0 0 n h (by simpa using hlt)

/-- A base reward is an entry of the epoch cache's table. -/
theorem EpochCache.mem_baseRewards_of_getBaseReward {self : EpochCache} {validatorIndex r : Nat}
    (h : self.getBaseReward validatorIndex = .ok r) :
    ∃ inner, self.inner = some inner ∧ r ∈ inner.baseRewards := by
  unfold getBaseReward at h
  cases hinner : self.inner with
  | none =>
    rw [hinner] at h
    cases h
  | some inner =>
    rw [hinner] at h
    obtain ⟨_, -, h⟩ := Except.bind_eq_ok.1 h
    split at h
    · split at h
      · cases h
        exact ⟨inner, rfl, List.mem_of_getElem? ‹_›⟩
      · cases h
    · cases h

namespace AttMaxCover

/-- An item's cached sum is the sum of its rewards when each is at most `bound` and there are too
few for their sum to reach `2 ^ 64`. -/
theorem consistent_ofFreshValidatorsRewards {slot index : Nat} {rewards : List (Nat × Nat)}
    (hnodup : (rewards.map Prod.fst).Nodup) (bound : Nat) (hle : ∀ e ∈ rewards, e.2 ≤ bound)
    (hlt : rewards.length * bound < 2 ^ 64) :
    (ofFreshValidatorsRewards slot index rewards hnodup).Consistent := by
  have hsum : (rewards.map Prod.snd).sum ≤ rewards.length * bound := by
    have hle' : ∀ x ∈ rewards.map Prod.snd, x ≤ bound := fun x hx => by
      obtain ⟨e, he, rfl⟩ := List.mem_map.1 hx
      exact hle e he
    simpa using List.sum_le_card_nsmul (rewards.map Prod.snd) bound hle'
  exact Nat.mod_eq_of_lt (by omega)

/-- The same for the rewards the constructors collect from the attesting indices, each at most
`bound`. -/
theorem consistent_ofList_filterMap {slot index : Nat} {f : Nat → Option (Nat × Nat)}
    (indices : List Nat) (bound : Nat) (hf : ∀ i ∈ indices, ∀ e, f i = some e → e.2 ≤ bound)
    (hlt : indices.length * bound < 2 ^ 64) :
    (ofFreshValidatorsRewards slot index (AssocList.ofList (indices.filterMap f))
      (AssocList.nodup_ofList _)).Consistent := by
  have hlen : (AssocList.ofList (indices.filterMap f)).length ≤ indices.length :=
    (AssocList.length_ofList_le _).trans (List.length_filterMap_le _ _)
  refine consistent_ofFreshValidatorsRewards _ bound (fun e he => ?_)
    (lt_of_le_of_lt (Nat.mul_le_mul_right _ hlen) hlt)
  obtain ⟨i, hi, hfi⟩ := List.mem_filterMap.1 (AssocList.mem_of_mem_ofList he)
  exact hf i hi e hfi

/-- A fresh validator's reward is its numerator for a base reward of the epoch cache's table. -/
theorem freshValidatorReward_le {rewardCache : RewardCache} {epochCache : EpochCache}
    {targetEpoch : Nat} {flags : List Nat} {index : Nat} {e : Nat × Nat} (maxBaseReward : Nat)
    (hrewards : ∀ inner, epochCache.inner = some inner → ∀ r ∈ inner.baseRewards, r ≤ maxBaseReward)
    (hlt : maxBaseReward * participationFlagWeights.sum < 2 ^ 64)
    (h : freshValidatorReward rewardCache epochCache targetEpoch flags index = some e) :
    e.2 ≤ maxBaseReward * participationFlagWeights.sum := by
  unfold freshValidatorReward at h
  cases hattested : (rewardCache.hasAttestedInEpoch index targetEpoch).toOption with
  | none => simp [hattested] at h
  | some attested =>
    cases attested with
    | true => simp [hattested] at h
    | false =>
      cases hbase : (epochCache.getBaseReward index).toOption with
      | none => simp [hattested, hbase] at h
      | some baseReward =>
        cases hnumerator : proposerRewardNumerator baseReward flags with
        | none => simp [hattested, hbase, hnumerator] at h
        | some numerator =>
          simp only [hattested, hbase, hnumerator, Option.bind_eq_bind, Option.bind_some,
            Bool.false_eq_true, if_false, ne_eq, ite_not] at h
          split at h
          · cases h
          · cases h
            obtain ⟨inner, hinner, hmem⟩ :=
              EpochCache.mem_baseRewards_of_getBaseReward (Except.toOption_eq_some.1 hbase)
            have hle : baseReward * participationFlagWeights.sum ≤
                maxBaseReward * participationFlagWeights.sum :=
              Nat.mul_le_mul_right _ (hrewards inner hinner baseReward hmem)
            exact (proposerRewardNumerator_le hnumerator (by omega)).trans hle

/-- `new_for_altair_or_later` builds an item whose cached sum is the sum of its rewards when the
base rewards of the epoch cache's table are small enough. -/
theorem Consistent.newForAltairOrLater {slot index targetEpoch stateSlot : Nat}
    {attestingIndices : List Nat} {participationFlagIndices : Nat → Option (List Nat)}
    {rewardCache : RewardCache} {epochCache : EpochCache} {a : AttMaxCover} (maxBaseReward : Nat)
    (hrewards : ∀ inner, epochCache.inner = some inner → ∀ r ∈ inner.baseRewards, r ≤ maxBaseReward)
    (hcap : attestingIndices.length * (maxBaseReward * participationFlagWeights.sum) < 2 ^ 64)
    (h : newForAltairOrLater slot index targetEpoch attestingIndices stateSlot
      participationFlagIndices rewardCache epochCache = some a) : a.Consistent := by
  simp only [AttMaxCover.newForAltairOrLater, Option.bind_eq_bind, Option.bind_eq_some_iff,
    Option.pure_def, Option.some.injEq] at h
  obtain ⟨_, -, flags, -, rfl⟩ := h
  refine consistent_ofList_filterMap attestingIndices _ (fun i hi e he => ?_) hcap
  have hpos : 0 < attestingIndices.length := List.length_pos_of_mem hi
  exact freshValidatorReward_le maxBaseReward hrewards
    (lt_of_le_of_lt (Nat.le_mul_of_pos_left _ hpos) hcap) he

theorem baseGetBaseReward_le {effectiveBalance sqrtTotalActiveBalance r : Nat}
    {spec : BaseRewardSpec} (h : baseGetBaseReward effectiveBalance sqrtTotalActiveBalance spec = some r) :
    r ≤ effectiveBalance * spec.baseRewardFactor := by
  simp only [baseGetBaseReward, Option.bind_eq_bind, Option.bind_eq_some_iff, uCheckedMul_eq_some,
    uCheckedDiv_eq_some] at h
  obtain ⟨_, ⟨-, rfl⟩, _, ⟨-, rfl⟩, -, rfl⟩ := h
  exact (Nat.div_le_self _ _).trans (Nat.div_le_self _ _)

/-- `new_for_base` builds an item whose cached sum is the sum of its rewards when the effective
balances are small enough. -/
theorem Consistent.newForBase {slot index totalActiveBalance : Nat}
    {indices effectiveBalances : List Nat} {spec : BaseRewardSpec} {a : AttMaxCover}
    (maxEffectiveBalance : Nat) (hbalances : ∀ b ∈ effectiveBalances, b ≤ maxEffectiveBalance)
    (hcap : indices.length * (maxEffectiveBalance * spec.baseRewardFactor) < 2 ^ 64)
    (h : newForBase slot index indices effectiveBalances totalActiveBalance spec = some a) :
    a.Consistent := by
  cases h
  refine consistent_ofList_filterMap indices _ (fun i _ e he => ?_) hcap
  simp only [Option.bind_eq_bind, Option.bind_eq_some_iff, uCheckedDiv_eq_some,
    Option.pure_def, Option.some.injEq] at he
  obtain ⟨effectiveBalance, hbalance, reward, hreward, _, ⟨-, rfl⟩, rfl⟩ := he
  calc reward / spec.proposerRewardQuotient
      ≤ effectiveBalance * spec.baseRewardFactor :=
        (Nat.div_le_self _ _).trans (baseGetBaseReward_le hreward)
    _ ≤ maxEffectiveBalance * spec.baseRewardFactor :=
        Nat.mul_le_mul_right _ (hbalances _ (List.mem_of_getElem? hbalance))

/-- The items the two constructors build from states whose base rewards are small enough that no
attestation's rewards reach `2 ^ 64`: in phase 0, effective balances at most
`maxEffectiveBalance`; after it, the base rewards of the epoch cache's table at most
`maxBaseReward`. -/
inductive Built : AttMaxCover → Prop
  | base {slot index totalActiveBalance : Nat} {indices effectiveBalances : List Nat}
      {spec : BaseRewardSpec} {a : AttMaxCover} (maxEffectiveBalance : Nat)
      (hbalances : ∀ b ∈ effectiveBalances, b ≤ maxEffectiveBalance)
      (hcap : indices.length * (maxEffectiveBalance * spec.baseRewardFactor) < 2 ^ 64)
      (h : newForBase slot index indices effectiveBalances totalActiveBalance spec = some a) :
      Built a
  | altairOrLater {slot index targetEpoch stateSlot : Nat} {attestingIndices : List Nat}
      {participationFlagIndices : Nat → Option (List Nat)} {rewardCache : RewardCache}
      {epochCache : EpochCache} {a : AttMaxCover} (maxBaseReward : Nat)
      (hrewards : ∀ inner, epochCache.inner = some inner →
        ∀ r ∈ inner.baseRewards, r ≤ maxBaseReward)
      (hcap : attestingIndices.length * (maxBaseReward * participationFlagWeights.sum) < 2 ^ 64)
      (h : newForAltairOrLater slot index targetEpoch attestingIndices stateSlot
        participationFlagIndices rewardCache epochCache = some a) :
      Built a

theorem Built.consistent {a : AttMaxCover} : a.Built → a.Consistent
  | .base maxEffectiveBalance hbalances hcap h =>
    Consistent.newForBase maxEffectiveBalance hbalances hcap h
  | .altairOrLater maxBaseReward hrewards hcap h =>
    Consistent.newForAltairOrLater maxBaseReward hrewards hcap h

end AttMaxCover


/-! ## One update -/

namespace AttMaxCover

variable {a b : AttMaxCover}

@[simp] theorem slot_updateCoveringSet : (a.updateCoveringSet b).slot = a.slot := by
  unfold updateCoveringSet
  split <;> rfl

@[simp] theorem index_updateCoveringSet : (a.updateCoveringSet b).index = a.index := by
  unfold updateCoveringSet
  split <;> rfl

/-- The cached sum only goes down. -/
theorem rewardNumeratorSum_updateCoveringSet_le :
    (a.updateCoveringSet b).rewardNumeratorSum ≤ a.rewardNumeratorSum := by
  unfold updateCoveringSet
  split
  · exact AssocList.foldl_retain_le (fun k => b.freshValidatorsRewards.any (·.1 == k)) _
      (fun _ _ _ => rfl) _ _
  · exact Nat.le_refl _

theorem score_updateCoveringSet_le : (a.updateCoveringSet b).score ≤ a.score :=
  Nat.div_le_div_right rewardNumeratorSum_updateCoveringSet_le

/-- The cached sum stays the sum of the rewards: `retain` takes the reward of each validator it
drops off a total that is the sum of all of them, so no subtraction saturates. -/
theorem Consistent.updateCoveringSet (h : a.Consistent) (b : AttMaxCover) :
    (a.updateCoveringSet b).Consistent := by
  unfold AttMaxCover.updateCoveringSet
  split
  · have hretain := AssocList.foldl_retain_total
      (fun k => b.freshValidatorsRewards.any (·.1 == k))
      (fun (k, _) => !b.freshValidatorsRewards.any (·.1 == k))
      (fun sum (k, v) => if b.freshValidatorsRewards.any (·.1 == k) then sum - v else sum)
      (fun _ _ => rfl) (fun _ _ _ => rfl) a.freshValidatorsRewards 0
    rw [Nat.zero_add, Nat.zero_add] at hretain
    show _ = _
    rw [h]
    exact hretain
  · exact h

/-- An update keeps only validators of the item, and, for an item of the same slot and committee
index, none of the best one's. -/
theorem mem_keys_updateCoveringSet {k : Nat} (hk : k ∈ (a.updateCoveringSet b).keys) :
    k ∈ a.keys ∧ (a.slot = b.slot → a.index = b.index → k ∉ b.keys) := by
  unfold updateCoveringSet at hk
  split at hk
  · simp only [keys, List.mem_map, List.mem_filter, Bool.not_eq_true', List.any_eq_false,
      beq_iff_eq, Prod.exists] at hk ⊢
    obtain ⟨k, v, ⟨hmem, hnot⟩, rfl⟩ := hk
    exact ⟨⟨k, v, hmem, rfl⟩, fun _ _ ⟨k', v', hmem', hk'⟩ => hnot (k', v') hmem' hk'⟩
  · rename_i hne
    exact ⟨hk, fun hs hi => absurd ⟨hs, hi⟩ hne⟩

end AttMaxCover


/-! ## Updates for all the packed attestations -/

open AttMaxCover MaxCover

@[simp] theorem slot_updatedFor : ∀ (taken : List AttMaxCover) (x : AttMaxCover),
    (attMaxCover.updatedFor taken x).slot = x.slot
  | [], _ => rfl
  | b :: taken, x => (slot_updatedFor taken (x.updateCoveringSet b)).trans slot_updateCoveringSet

@[simp] theorem index_updatedFor : ∀ (taken : List AttMaxCover) (x : AttMaxCover),
    (attMaxCover.updatedFor taken x).index = x.index
  | [], _ => rfl
  | b :: taken, x => (index_updatedFor taken (x.updateCoveringSet b)).trans index_updateCoveringSet

theorem Consistent.updatedFor : ∀ (taken : List AttMaxCover) {x : AttMaxCover}, x.Consistent →
    (attMaxCover.updatedFor taken x).Consistent
  | [], _, h => h
  | b :: taken, _, h => Consistent.updatedFor taken (h.updateCoveringSet b)

/-- An item updated for the packed attestations keeps none of the validators of those of its slot
and committee index. By induction on the packed attestations. -/
theorem keys_updatedFor : ∀ (taken : List AttMaxCover) (x : AttMaxCover) {k : Nat},
    k ∈ (attMaxCover.updatedFor taken x).keys →
      k ∈ x.keys ∧ ∀ b ∈ taken, x.slot = b.slot → x.index = b.index → k ∉ b.keys
  | [], _, _, hk => ⟨hk, by simp⟩
  | b :: taken, x, k, hk => by
    obtain ⟨hkx, hrest⟩ := keys_updatedFor taken (x.updateCoveringSet b) hk
    obtain ⟨hkx', hkb⟩ := mem_keys_updateCoveringSet hkx
    refine ⟨hkx', fun c hc hslot hindex => ?_⟩
    rcases List.mem_cons.1 hc with rfl | hc
    · exact hkb hslot hindex
    · exact hrest c hc (by simpa using hslot) (by simpa using hindex)


/-! ## Greedy attestation packing -/

/-- An attestation of slot 5, committee 0 and target epoch 0, included at slot 6 with all three
flags, in an epoch in which none of validators 0 to 3 has attested and each has base reward 100. -/
def sampleAttMaxCover (attestingIndices : List Nat) : Option AttMaxCover :=
  AttMaxCover.newForAltairOrLater 5 0 0 attestingIndices 6 (fun _ => some [0, 1, 2])
    ⟨some 0, [], List.replicate 4 false⟩ ⟨some ⟨List.replicate 4 1, [0, 100], 1⟩⟩

example : (sampleAttMaxCover [1, 2]).map (·.freshValidatorsRewards) = some [(1, 5400), (2, 5400)] := by
  decide

/-- Two attestations of one committee sharing validator 2. -/
def sampleAttMaxCovers : List AttMaxCover :=
  [(sampleAttMaxCover [1, 2]).get (by decide), (sampleAttMaxCover [2, 3]).get (by decide)]

/-- Of two items of equal score, `max_by_key` takes the last; the other keeps only validator 1. -/
example : (attMaxCover.maximumCover sampleAttMaxCovers 2).map (List.map (·.keys)) =
    some [[2, 3], [1]] := by
  decide

theorem sampleAttMaxCover_built (attestingIndices : List Nat) (hlen : attestingIndices.length ≤ 2)
    (h : (sampleAttMaxCover attestingIndices).isSome) :
    ((sampleAttMaxCover attestingIndices).get h).Built := by
  refine .altairOrLater 100 (fun inner hinner r hr => ?_) ?_ (Option.some_get h).symm
  · cases hinner
    simp only [List.mem_cons, List.not_mem_nil, or_false] at hr
    omega
  · simp only [participationFlagWeights, List.sum_cons, List.sum_nil]
    omega

end Vibehouse.OperationPool
