import Vibehouse.Lib.AssocList
import Vibehouse.Lib.MachineInt
import Vibehouse.Lib.StateRun

/-! # The doppelganger service

`validator_client/doppelganger_service`: a validator registered after the genesis epoch may not
sign slashable messages until one epoch has passed, and been seen to be over, in which the
beacon node reported it not live. The service keeps, for each validator, the next epoch to check
and the number of epochs still to check. `process_liveness_responses` looks for violators (a
monitored validator live at an epoch it has not checked yet) in the responses of both epochs;
if there is one it marks every validator with a previous-epoch response with `u64::MAX`
remaining epochs and asks for a shutdown, and otherwise it counts the previous epoch as checked
for the validators not live in it, once that epoch is over. A malformed previous-epoch response
ends the call with an error, keeping what the loop changed before it.

The `HashMap`s are association lists: the states with distinct keys (the `nodup` field), and the
indices map built by `insert`. Slots and epochs are natural numbers, with the saturating
arithmetic of `Slot` and `Epoch` at 64 bits; `Slot::epoch` divides by `slots_per_epoch`, which is
a positive constant of the spec. `validator_store` signs a slashable message only with a signing
method from `doppelganger_checked_signing_method`; what it does with that method (slashing
protection and the signature itself) is a function the signing calls are given. -/

namespace Vibehouse.ValidatorClient

open MachineInt EStateM

/-- `DEFAULT_REMAINING_DETECTION_EPOCHS`. -/
def defaultRemainingDetectionEpochs : Nat := 1

/-- `Epoch::end_slot`: the last slot of the epoch, with saturating arithmetic. -/
def endSlot (slotsPerEpoch epoch : Nat) : Nat :=
  uSaturatingAdd 64 (min (epoch * slotsPerEpoch) (uMax 64)) (slotsPerEpoch - 1)

structure DoppelgangerState where
  nextCheckEpoch : Nat
  remainingEpochs : Nat
  deriving DecidableEq, Repr

namespace DoppelgangerState

/-- `requires_further_checks`: the validator is not safe to sign. -/
def requiresFurtherChecks (self : DoppelgangerState) : Bool :=
  decide (0 < self.remainingEpochs)

/-- `complete_detection_in_epoch`. -/
def completeDetectionInEpoch (self : DoppelgangerState) (epoch : Nat) : DoppelgangerState :=
  { remainingEpochs := self.remainingEpochs - 1, nextCheckEpoch := uSaturatingAdd 64 epoch 1 }

/-- The body of the loop of `process_liveness_responses` over the previous-epoch responses, for
the state of the validator of a response: with a violator, `u64::MAX` remaining epochs;
otherwise the previous epoch completed for a validator not live in it, once that epoch is
satisfied and not below its next check. -/
def afterResponse (self : DoppelgangerState) (previousEpoch : Nat)
    (previousEpochIsSatisfied violatorsExist isLive : Bool) : DoppelgangerState :=
  if violatorsExist then { self with remainingEpochs := uMax 64 }
  else if !isLive && (previousEpochIsSatisfied && decide (self.nextCheckEpoch ≤ previousEpoch)) then
    self.completeDetectionInEpoch previousEpoch
  else self

end DoppelgangerState

/-- `DoppelgangerStatus` of `validator_store`. -/
inductive DoppelgangerStatus (K : Type)
  | signingEnabled (pubkey : K)
  | signingDisabled (pubkey : K)
  | unknownToDoppelganger (pubkey : K)
  deriving DecidableEq, Repr

/-- `only_safe`. -/
def DoppelgangerStatus.onlySafe {K : Type} : DoppelgangerStatus K → Option K
  | .signingEnabled pubkey => some pubkey
  | .signingDisabled _ | .unknownToDoppelganger _ => none

/-- `LivenessResponseData`. -/
structure LivenessResponseData where
  index : Nat
  epoch : Nat
  isLive : Bool
  deriving DecidableEq, Repr

structure LivenessResponses where
  currentEpochResponses : List LivenessResponseData
  previousEpochResponses : List LivenessResponseData
  deriving DecidableEq, Repr

/-- The errors of the service, each with the data of its message. -/
inductive DoppelgangerError (K : Type)
  /-- "Unable to read slot clock when registering validator" -/
  | unableToReadSlotClock
  /-- "beacon node returned epoch {}, expecting {}" -/
  | unexpectedEpoch (epoch expecting : Nat)
  /-- "inconsistent indices map for validator index {}" -/
  | inconsistentIndicesMap (index : Nat)
  /-- "inconsistent states for validator pubkey {}" -/
  | inconsistentStates (pubkey : K)
  deriving DecidableEq, Repr

/-- `DoppelgangerService`: the state of each validator, by public key. -/
structure DoppelgangerService (K : Type) where
  doppelgangerStates : List (K × DoppelgangerState)
  nodup : (doppelgangerStates.map Prod.fst).Nodup

namespace DoppelgangerService

variable {K : Type} [DecidableEq K]

/-- `DoppelgangerService::default()`. -/
def empty : DoppelgangerService K := ⟨[], List.nodup_nil⟩

/-- `doppelganger_states.write().insert(validator, state)`. -/
def insertState (self : DoppelgangerService K) (validator : K) (state : DoppelgangerState) :
    DoppelgangerService K :=
  ⟨AssocList.insert self.doppelgangerStates validator state,
    AssocList.nodup_insert self.nodup validator state⟩

/-- `*doppelganger_states.get_mut(pubkey) = state`. -/
def setState (self : DoppelgangerService K) (pubkey : K) (state : DoppelgangerState) :
    DoppelgangerService K :=
  ⟨AssocList.setValue self.doppelgangerStates pubkey state, by
    rw [AssocList.map_fst_setValue]
    exact self.nodup⟩

/-- The state of a validator. -/
def state (self : DoppelgangerService K) (validator : K) : Option DoppelgangerState :=
  self.doppelgangerStates.lookup validator

/-- `validator_status`. -/
def validatorStatus (self : DoppelgangerService K) (validator : K) : DoppelgangerStatus K :=
  match self.state validator with
  | none => .unknownToDoppelganger validator
  | some v => if v.requiresFurtherChecks then .signingDisabled validator else .signingEnabled validator

/-- `register_new_validator`, with the slot clock's `now_or_genesis()` and genesis slot. A validator
registered at or before the genesis epoch is not protected. -/
def registerNewValidator (validator : K) (nowOrGenesis : Option Nat) (genesisSlot slotsPerEpoch : Nat) :
    EStateM (DoppelgangerError K) (DoppelgangerService K) Unit := do
  let some now := nowOrGenesis | throw .unableToReadSlotClock
  let currentEpoch := now / slotsPerEpoch
  let genesisEpoch := genesisSlot / slotsPerEpoch
  let remainingEpochs := if currentEpoch ≤ genesisEpoch then 0 else defaultRemainingDetectionEpochs
  let state : DoppelgangerState :=
    { nextCheckEpoch := uSaturatingAdd 64 currentEpoch 1, remainingEpochs }
  modify fun self => self.insertState validator state

/-- `compute_detection_indices_map`: the validators that require further checks, by validator
index, for those whose index is known. -/
def computeDetectionIndicesMap (self : DoppelgangerService K) (getIndex : K → Option Nat) :
    List (Nat × K) :=
  let detectionPubkeys := self.doppelgangerStates.filterMap fun (pubkey, state) =>
    if state.requiresFurtherChecks then some pubkey else none
  detectionPubkeys.foldl (fun indicesMap pubkey =>
    match getIndex pubkey with
    | some index => AssocList.insert indicesMap index pubkey
    | none => indicesMap) []

/-- The first loop of `process_liveness_responses`: the indices of the live responses, of either
epoch, of a monitored validator with a state, at an epoch not below its next check. The
`HashSet` is the list of what was inserted: only whether it is empty is read. -/
def violators (self : DoppelgangerService K) (indicesMap : List (Nat × K))
    (responses : List LivenessResponseData) : List Nat :=
  responses.filterMap fun response =>
    if !response.isLive then none
    else match indicesMap.lookup response.index with
      | none => none
      | some pubkey =>
        match self.state pubkey with
        | none => none
        | some state =>
          if response.isLive && decide (state.nextCheckEpoch ≤ response.epoch) then
            some response.index
          else none

/-- One round of the loop over the previous-epoch responses, which aborts the call on a response
of another epoch or of an index or validator it does not know. -/
def processPreviousEpochResponse (previousEpoch : Nat) (previousEpochIsSatisfied violatorsExist : Bool)
    (indicesMap : List (Nat × K)) (response : LivenessResponseData) :
    EStateM (DoppelgangerError K) (DoppelgangerService K) Unit := do
  if response.epoch ≠ previousEpoch then throw (.unexpectedEpoch response.epoch previousEpoch)
  let some pubkey := indicesMap.lookup response.index
    | throw (.inconsistentIndicesMap response.index)
  let some state := (← get).state pubkey | throw (.inconsistentStates pubkey)
  modify fun self => self.setState pubkey
    (state.afterResponse previousEpoch previousEpochIsSatisfied violatorsExist response.isLive)

/-- `process_liveness_responses`. The value is whether `shutdown_func` was called: exactly when
there is a violator and the loop over the previous-epoch responses did not abort. -/
def processLivenessResponses (slotsPerEpoch requestSlot : Nat) (livenessResponses : LivenessResponses)
    (indicesMap : List (Nat × K)) : EStateM (DoppelgangerError K) (DoppelgangerService K) Bool := do
  let requestEpoch := requestSlot / slotsPerEpoch
  let previousEpoch := requestEpoch - 1
  let violatorsExist := !(violators (← get) indicesMap
    (livenessResponses.previousEpochResponses ++ livenessResponses.currentEpochResponses)).isEmpty
  let previousEpochSatisfactionSlot := endSlot slotsPerEpoch (uSaturatingAdd 64 previousEpoch 1)
  let previousEpochIsSatisfied := decide (previousEpochSatisfactionSlot ≤ requestSlot)
  livenessResponses.previousEpochResponses.forM
    (processPreviousEpochResponse previousEpoch previousEpochIsSatisfied violatorsExist indicesMap)
  pure violatorsExist

/-- `detect_doppelgangers`, with the beacon node's liveness responses for an epoch and a list of
indices given by `getLiveness`. -/
def detectDoppelgangers (slotsPerEpoch requestSlot : Nat) (getIndex : K → Option Nat)
    (getLiveness : Nat → List Nat → LivenessResponses) :
    EStateM (DoppelgangerError K) (DoppelgangerService K) Bool := do
  let indicesMap := (← get).computeDetectionIndicesMap getIndex
  if indicesMap.isEmpty then return false
  let indicesOnly := indicesMap.map Prod.fst
  let requestEpoch := requestSlot / slotsPerEpoch
  let livenessResponses := getLiveness requestEpoch indicesOnly
  processLivenessResponses slotsPerEpoch requestSlot livenessResponses indicesMap

end DoppelgangerService


/-! ## One state -/

namespace DoppelgangerState

/-- The states the calls build: the next epoch to check is a positive `Epoch`, and the remaining
epochs a `u64`. -/
def Wf (self : DoppelgangerState) : Prop :=
  1 ≤ self.nextCheckEpoch ∧ self.nextCheckEpoch ≤ uMax 64 ∧ self.remainingEpochs ≤ uMax 64

theorem uSaturatingAdd_one_wf (e : Nat) : 1 ≤ uSaturatingAdd 64 e 1 ∧ uSaturatingAdd 64 e 1 ≤ uMax 64 := by
  unfold uSaturatingAdd uMax
  omega

/-- What a round of the loop can do to a state: mark it, complete the previous epoch, or
nothing. -/
theorem afterResponse_cases (self : DoppelgangerState) (previousEpoch : Nat)
    (previousEpochIsSatisfied violatorsExist isLive : Bool) :
    let after := self.afterResponse previousEpoch previousEpochIsSatisfied violatorsExist isLive
    (violatorsExist = true ∧ after = { self with remainingEpochs := uMax 64 }) ∨
      (violatorsExist = false ∧ isLive = false ∧ previousEpochIsSatisfied = true ∧
        self.nextCheckEpoch ≤ previousEpoch ∧ after = self.completeDetectionInEpoch previousEpoch) ∨
      after = self := by
  intro after
  unfold after afterResponse
  cases violatorsExist
  · by_cases hdone : (!isLive && (previousEpochIsSatisfied && decide (self.nextCheckEpoch ≤ previousEpoch))) = true
    · simp only [Bool.and_eq_true, Bool.not_eq_true', decide_eq_true_eq] at hdone
      simp [hdone]
    · simp [hdone]
  · simp

theorem Wf.afterResponse {self : DoppelgangerState} (h : self.Wf) (previousEpoch : Nat)
    (previousEpochIsSatisfied violatorsExist isLive : Bool) :
    (self.afterResponse previousEpoch previousEpochIsSatisfied violatorsExist isLive).Wf := by
  rcases afterResponse_cases self previousEpoch previousEpochIsSatisfied violatorsExist isLive with
    ⟨-, heq⟩ | ⟨-, -, -, -, heq⟩ | heq <;> rw [heq]
  · exact ⟨h.1, h.2.1, Nat.le_refl _⟩
  · have := uSaturatingAdd_one_wf previousEpoch
    exact ⟨this.1, this.2, Nat.le_trans (Nat.sub_le _ _) h.2.2⟩
  · exact h

/-- A round of the loop moves a well-formed state forward: its next check does not go down, and
its remaining epochs go down only when it completes the previous epoch. -/
theorem Wf.afterResponse_advances {self : DoppelgangerState} (h : self.Wf) (previousEpoch : Nat)
    (previousEpochIsSatisfied violatorsExist isLive : Bool) :
    let after := self.afterResponse previousEpoch previousEpochIsSatisfied violatorsExist isLive
    self.nextCheckEpoch ≤ after.nextCheckEpoch ∧
      (after.remainingEpochs < self.remainingEpochs → violatorsExist = false ∧ isLive = false ∧
        previousEpochIsSatisfied = true ∧ self.nextCheckEpoch ≤ previousEpoch) := by
  intro after
  dsimp only [after]
  rcases afterResponse_cases self previousEpoch previousEpochIsSatisfied violatorsExist isLive with
    ⟨-, heq⟩ | ⟨hvio, hlive, hsat, hle, heq⟩ | heq <;> rw [heq]
  · exact ⟨Nat.le_refl _, fun hlt => absurd h.2.2 (Nat.not_le.2 hlt)⟩
  · have hnext : self.nextCheckEpoch ≤ uSaturatingAdd 64 previousEpoch 1 := by
      have := h.2.1
      unfold uSaturatingAdd
      omega
    exact ⟨hnext, fun _ => ⟨hvio, hlive, hsat, hle⟩⟩
  · exact ⟨Nat.le_refl _, fun hlt => absurd hlt (Nat.lt_irrefl _)⟩

/-- Once the remaining epochs and the next check add up to `2 ^ 64`, a round whose previous epoch
is an `Epoch` below `u64::MAX` keeps them so: a completion takes one epoch off and moves the next
check up by at least one. -/
theorem Wf.afterResponse_sum {self : DoppelgangerState} (h : self.Wf)
    (hsum : 2 ^ 64 ≤ self.remainingEpochs + self.nextCheckEpoch) {previousEpoch : Nat}
    (hprev : previousEpoch < uMax 64) (previousEpochIsSatisfied violatorsExist isLive : Bool) :
    let after := self.afterResponse previousEpoch previousEpochIsSatisfied violatorsExist isLive
    2 ^ 64 ≤ after.remainingEpochs + after.nextCheckEpoch := by
  intro after
  dsimp only [after]
  have hmax : uMax 64 + 1 = 2 ^ 64 := by decide
  rcases afterResponse_cases self previousEpoch previousEpochIsSatisfied violatorsExist isLive with
    ⟨-, heq⟩ | ⟨-, -, -, hle, heq⟩ | heq <;> rw [heq]
  · have := h.1
    dsimp only
    omega
  · have hnext : uSaturatingAdd 64 previousEpoch 1 = previousEpoch + 1 :=
      uSaturatingAdd_of_le (by omega)
    have := h.2.1
    simp only [completeDetectionInEpoch, hnext]
    omega
  · exact hsum

end DoppelgangerState

namespace DoppelgangerService

variable {K : Type} [DecidableEq K]

@[simp] theorem state_empty (v : K) : (empty : DoppelgangerService K).state v = none := rfl

@[simp] theorem state_insertState (self : DoppelgangerService K) (validator : K)
    (st : DoppelgangerState) (v : K) :
    (self.insertState validator st).state v = if v = validator then some st else self.state v :=
  AssocList.lookup_insert _ _ _ _

@[simp] theorem state_setState (self : DoppelgangerService K) (pubkey : K) (st : DoppelgangerState)
    (v : K) : (self.setState pubkey st).state v =
      if v = pubkey then (self.state pubkey).map fun _ => st else self.state v :=
  AssocList.lookup_setValue _ _ _ _

/-- Every state is well formed. -/
def Wf (self : DoppelgangerService K) : Prop :=
  ∀ v st, self.state v = some st → st.Wf

theorem registerNewValidator_run (validator : K) (nowOrGenesis : Option Nat)
    (genesisSlot slotsPerEpoch : Nat) (self : DoppelgangerService K) :
    (registerNewValidator validator nowOrGenesis genesisSlot slotsPerEpoch).run self =
      match nowOrGenesis with
      | none => .error .unableToReadSlotClock self
      | some now => .ok () (self.insertState validator
          { nextCheckEpoch := uSaturatingAdd 64 (now / slotsPerEpoch) 1,
            remainingEpochs := if now / slotsPerEpoch ≤ genesisSlot / slotsPerEpoch then 0
              else defaultRemainingDetectionEpochs }) := by
  cases nowOrGenesis <;> rfl

/-- What a round of the loop can do: abort, leaving the states as they were, or, on a response of
the previous epoch for a validator it knows, update that validator's state. -/
theorem processPreviousEpochResponse_cases (previousEpoch : Nat)
    (previousEpochIsSatisfied violatorsExist : Bool) (indicesMap : List (Nat × K))
    (response : LivenessResponseData) (self : DoppelgangerService K) :
    let result := (processPreviousEpochResponse previousEpoch previousEpochIsSatisfied
      violatorsExist indicesMap response).run self
    (∃ e, result = .error e self) ∨
      (response.epoch = previousEpoch ∧ ∃ pubkey st, indicesMap.lookup response.index = some pubkey ∧
        self.state pubkey = some st ∧ result = .ok () (self.setState pubkey
          (st.afterResponse previousEpoch previousEpochIsSatisfied violatorsExist response.isLive))) := by
  intro result
  unfold result processPreviousEpochResponse
  by_cases hepoch : response.epoch = previousEpoch
  · simp only [hepoch, ne_eq, not_true_eq_false, if_false]
    cases hindex : indicesMap.lookup response.index with
    | none => exact .inl ⟨_, rfl⟩
    | some pubkey =>
      rw [run_bind, run_get]
      dsimp only
      cases hst : self.state pubkey with
      | none => exact .inl ⟨_, rfl⟩
      | some st => exact .inr ⟨trivial, pubkey, st, rfl, hst, rfl⟩
  · simp only [hepoch, ne_eq, not_false_eq_true, if_true]
    exact .inl ⟨_, rfl⟩

/-- `process_liveness_responses` runs its loop with the violators found in the states it started
from, and returns whether there were any. -/
theorem processLivenessResponses_run (slotsPerEpoch requestSlot : Nat)
    (livenessResponses : LivenessResponses) (indicesMap : List (Nat × K))
    (self : DoppelgangerService K) :
    let violatorsExist := !(violators self indicesMap
      (livenessResponses.previousEpochResponses ++ livenessResponses.currentEpochResponses)).isEmpty
    (processLivenessResponses slotsPerEpoch requestSlot livenessResponses indicesMap).run self =
      match (livenessResponses.previousEpochResponses.forM (processPreviousEpochResponse
          (requestSlot / slotsPerEpoch - 1)
          (decide (endSlot slotsPerEpoch (uSaturatingAdd 64 (requestSlot / slotsPerEpoch - 1) 1) ≤
            requestSlot)) violatorsExist indicesMap)).run self with
      | .ok _ s => .ok violatorsExist s
      | .error e s => .error e s := by
  intro violatorsExist
  rw [processLivenessResponses, run_bind, run_get]
  dsimp only [violatorsExist]
  rw [run_bind]
  split <;> rename_i hr
  · rw [hr]
    rfl
  · rw [hr]

/-- No violator: every live response of a monitored validator with a state is at an epoch below
its next check. -/
theorem violators_eq_nil_iff (self : DoppelgangerService K) (indicesMap : List (Nat × K))
    (responses : List LivenessResponseData) :
    violators self indicesMap responses = [] ↔
      ∀ r ∈ responses, r.isLive = true → ∀ pubkey, indicesMap.lookup r.index = some pubkey →
        ∀ st, self.state pubkey = some st → r.epoch < st.nextCheckEpoch := by
  rw [violators, List.filterMap_eq_nil_iff]
  refine forall₂_congr fun r _ => ?_
  cases hlive : r.isLive
  · simp
  · cases hindex : indicesMap.lookup r.index with
    | none => simp
    | some pubkey =>
      cases hst : self.state pubkey with
      | none => simp [hst]
      | some st => simp [hst]


/-! ## How one call moves the state of a validator -/

section Advances

variable (v : K) (previousEpoch : Nat) (previousEpochIsSatisfied violatorsExist : Bool)
  (indicesMap : List (Nat × K)) (responses : List LivenessResponseData)

/-- A call completes the check of `v` in its previous epoch, from a next check at most
`nextCheck`: no violator, the previous epoch satisfied and not below `nextCheck`, and a
previous-epoch response for `v`, not live. -/
def CompletesFrom (nextCheck : Nat) : Prop :=
  violatorsExist = false ∧ previousEpochIsSatisfied = true ∧ nextCheck ≤ previousEpoch ∧
    ∃ r ∈ responses, indicesMap.lookup r.index = some v ∧ r.isLive = false ∧ r.epoch = previousEpoch

/-- How the loop of a call moves the state of `v`: a well-formed state stays well formed, its next
check does not go down, and its remaining epochs go down only by a completion. -/
def Advances (self self' : DoppelgangerService K) : Prop :=
  ∀ st, self.state v = some st → st.Wf → ∃ st', self'.state v = some st' ∧ st'.Wf ∧
    st.nextCheckEpoch ≤ st'.nextCheckEpoch ∧
    (st'.remainingEpochs < st.remainingEpochs → CompletesFrom v previousEpoch
      previousEpochIsSatisfied violatorsExist indicesMap responses st.nextCheckEpoch)

theorem advances_refl (self : DoppelgangerService K) :
    Advances v previousEpoch previousEpochIsSatisfied violatorsExist indicesMap responses self self :=
  fun st h hw => ⟨st, h, hw, Nat.le_refl _, fun hlt => absurd hlt (Nat.lt_irrefl _)⟩

theorem advances_trans (a b c : DoppelgangerService K)
    (hab : Advances v previousEpoch previousEpochIsSatisfied violatorsExist indicesMap responses a b)
    (hbc : Advances v previousEpoch previousEpochIsSatisfied violatorsExist indicesMap responses b c) :
    Advances v previousEpoch previousEpochIsSatisfied violatorsExist indicesMap responses a c := by
  intro st h hw
  obtain ⟨st₁, h₁, hw₁, hnext₁, hrem₁⟩ := hab st h hw
  obtain ⟨st₂, h₂, hw₂, hnext₂, hrem₂⟩ := hbc st₁ h₁ hw₁
  refine ⟨st₂, h₂, hw₂, Nat.le_trans hnext₁ hnext₂, fun hlt => ?_⟩
  -- the drop happened in the first part, or in the second from a later next check
  by_cases hlt₁ : st₁.remainingEpochs < st.remainingEpochs
  · exact hrem₁ hlt₁
  · obtain ⟨hvio, hsat, hle, hr⟩ := hrem₂ (by omega)
    exact ⟨hvio, hsat, Nat.le_trans hnext₁ hle, hr⟩

theorem moves_processPreviousEpochResponse {response : LivenessResponseData}
    (hr : response ∈ responses) :
    Moves (Advances v previousEpoch previousEpochIsSatisfied violatorsExist indicesMap responses)
      (processPreviousEpochResponse previousEpoch previousEpochIsSatisfied violatorsExist indicesMap
        response) := by
  intro self st h hw
  rcases processPreviousEpochResponse_cases previousEpoch previousEpochIsSatisfied violatorsExist
      indicesMap response self with ⟨e, he⟩ | ⟨hepoch, pubkey, stp, hindex, hst, hres⟩
  · rw [he]
    exact advances_refl v previousEpoch previousEpochIsSatisfied violatorsExist indicesMap responses
      self st h hw
  · rw [hres, Result.state_ok, state_setState]
    by_cases hv : v = pubkey
    · -- the round updated the state of `v`
      subst hv
      rw [h] at hst
      cases hst
      rw [if_pos rfl, h, Option.map_some]
      obtain ⟨hnext, hrem⟩ := hw.afterResponse_advances previousEpoch previousEpochIsSatisfied
        violatorsExist response.isLive
      refine ⟨_, rfl, hw.afterResponse _ _ _ _, hnext, fun hlt => ?_⟩
      obtain ⟨hvio, hlive, hsat, hle⟩ := hrem hlt
      exact ⟨hvio, hsat, hle, response, hr, hindex, hlive, hepoch⟩
    · rw [if_neg hv]
      exact ⟨st, h, hw, Nat.le_refl _, fun hlt => absurd hlt (Nat.lt_irrefl _)⟩

theorem moves_forM_processPreviousEpochResponse :
    Moves (Advances v previousEpoch previousEpochIsSatisfied violatorsExist indicesMap responses)
      (responses.forM (processPreviousEpochResponse previousEpoch previousEpochIsSatisfied
        violatorsExist indicesMap)) :=
  Moves.forM (advances_refl v previousEpoch previousEpochIsSatisfied violatorsExist indicesMap responses)
    (advances_trans v previousEpoch previousEpochIsSatisfied violatorsExist indicesMap responses)
    responses fun _ hr => moves_processPreviousEpochResponse v previousEpoch previousEpochIsSatisfied
      violatorsExist indicesMap responses hr

end Advances

/-- The states a call of `process_liveness_responses` ends in are those its loop ends in. -/
theorem processLivenessResponses_state (slotsPerEpoch requestSlot : Nat)
    (livenessResponses : LivenessResponses) (indicesMap : List (Nat × K))
    (self : DoppelgangerService K) :
    ((processLivenessResponses slotsPerEpoch requestSlot livenessResponses indicesMap).run self).state =
      ((livenessResponses.previousEpochResponses.forM (processPreviousEpochResponse
          (requestSlot / slotsPerEpoch - 1)
          (decide (endSlot slotsPerEpoch (uSaturatingAdd 64 (requestSlot / slotsPerEpoch - 1) 1) ≤
            requestSlot))
          (!(violators self indicesMap (livenessResponses.previousEpochResponses ++
            livenessResponses.currentEpochResponses)).isEmpty) indicesMap)).run self).state := by
  rw [processLivenessResponses_run]
  split <;> rename_i hr <;> rw [hr] <;> rfl

/-- A call of `process_liveness_responses` returns `Ok` when its loop does not abort, with
whether there were violators in the states it started from. -/
theorem processLivenessResponses_ok {slotsPerEpoch requestSlot : Nat}
    {livenessResponses : LivenessResponses} {indicesMap : List (Nat × K)}
    {self self' : DoppelgangerService K} {found : Bool}
    (h : (processLivenessResponses slotsPerEpoch requestSlot livenessResponses indicesMap).run self =
      .ok found self') :
    (livenessResponses.previousEpochResponses.forM (processPreviousEpochResponse
        (requestSlot / slotsPerEpoch - 1)
        (decide (endSlot slotsPerEpoch (uSaturatingAdd 64 (requestSlot / slotsPerEpoch - 1) 1) ≤
          requestSlot))
        (!(violators self indicesMap (livenessResponses.previousEpochResponses ++
          livenessResponses.currentEpochResponses)).isEmpty) indicesMap)).run self = .ok () self' ∧
      found = !(violators self indicesMap (livenessResponses.previousEpochResponses ++
        livenessResponses.currentEpochResponses)).isEmpty := by
  rw [processLivenessResponses_run] at h
  split at h <;> rename_i hr
  · cases h
    exact ⟨hr, rfl⟩
  · cases h


/-! ## Well-formed states -/

theorem wf_empty : (empty : DoppelgangerService K).Wf := fun _ _ h => nomatch h

theorem keeps_wf_registerNewValidator (validator : K) (nowOrGenesis : Option Nat)
    (genesisSlot slotsPerEpoch : Nat) :
    Keeps Wf (registerNewValidator validator nowOrGenesis genesisSlot slotsPerEpoch) := by
  intro self hwf
  rw [registerNewValidator_run]
  cases nowOrGenesis with
  | none => exact hwf
  | some now =>
    intro v st hst
    rw [Result.state_ok, state_insertState] at hst
    split at hst
    · cases hst
      have hnext := DoppelgangerState.uSaturatingAdd_one_wf (now / slotsPerEpoch)
      have hrem : (if now / slotsPerEpoch ≤ genesisSlot / slotsPerEpoch then 0
          else defaultRemainingDetectionEpochs) ≤ uMax 64 := by
        unfold defaultRemainingDetectionEpochs uMax
        split <;> omega
      exact ⟨hnext.1, hnext.2, hrem⟩
    · exact hwf v st hst

theorem keeps_wf_processPreviousEpochResponse (previousEpoch : Nat)
    (previousEpochIsSatisfied violatorsExist : Bool) (indicesMap : List (Nat × K))
    (response : LivenessResponseData) :
    Keeps Wf (processPreviousEpochResponse previousEpoch previousEpochIsSatisfied violatorsExist
      indicesMap response) := by
  intro self hwf
  rcases processPreviousEpochResponse_cases previousEpoch previousEpochIsSatisfied violatorsExist
      indicesMap response self with ⟨e, he⟩ | ⟨-, pubkey, st, -, hst, hres⟩
  · rw [he]
    exact hwf
  · rw [hres, Result.state_ok]
    intro v st' hst'
    rw [state_setState] at hst'
    split at hst'
    · rename_i hv
      subst hv
      rw [hst, Option.map_some] at hst'
      cases hst'
      exact (hwf v st hst).afterResponse _ _ _ _
    · exact hwf v st' hst'

theorem keeps_wf_processLivenessResponses (slotsPerEpoch requestSlot : Nat)
    (livenessResponses : LivenessResponses) (indicesMap : List (Nat × K)) :
    Keeps Wf (processLivenessResponses slotsPerEpoch requestSlot livenessResponses indicesMap) := by
  intro self hwf
  rw [processLivenessResponses_state]
  exact Keeps.forM _ (fun _ _ => keeps_wf_processPreviousEpochResponse _ _ _ _ _) self hwf


/-! ## A validator marked after a violator -/

/-- The state of `v` after a violator was found: well formed, with remaining epochs and next
check adding up to at least `2 ^ 64`, so that it cannot be signing-enabled while the next check is
an `Epoch`. -/
def Marked (v : K) (self : DoppelgangerService K) : Prop :=
  ∃ st, self.state v = some st ∧ st.Wf ∧ 2 ^ 64 ≤ st.remainingEpochs + st.nextCheckEpoch

theorem Marked.validatorStatus {v : K} {self : DoppelgangerService K} (h : Marked v self) :
    self.validatorStatus v = .signingDisabled v := by
  obtain ⟨st, hst, hw, hsum⟩ := h
  have hpos : 0 < st.remainingEpochs := by
    have := hw.2.1
    unfold uMax at this
    omega
  simp [DoppelgangerService.validatorStatus, hst, DoppelgangerState.requiresFurtherChecks, hpos]

theorem keeps_marked_processPreviousEpochResponse (v : K) {previousEpoch : Nat}
    (hprev : previousEpoch < uMax 64) (previousEpochIsSatisfied violatorsExist : Bool)
    (indicesMap : List (Nat × K)) (response : LivenessResponseData) :
    Keeps (Marked v) (processPreviousEpochResponse previousEpoch previousEpochIsSatisfied
      violatorsExist indicesMap response) := by
  intro self ⟨st, h, hw, hsum⟩
  rcases processPreviousEpochResponse_cases previousEpoch previousEpochIsSatisfied violatorsExist
      indicesMap response self with ⟨e, he⟩ | ⟨-, pubkey, stp, -, hst, hres⟩
  · rw [he]
    exact ⟨st, h, hw, hsum⟩
  · rw [hres, Result.state_ok]
    by_cases hv : v = pubkey
    · subst hv
      rw [h] at hst
      cases hst
      refine ⟨_, ?_, hw.afterResponse previousEpoch previousEpochIsSatisfied violatorsExist
        response.isLive, hw.afterResponse_sum hsum hprev previousEpochIsSatisfied violatorsExist
        response.isLive⟩
      rw [state_setState, if_pos rfl, h, Option.map_some]
    · refine ⟨st, ?_, hw, hsum⟩
      rw [state_setState, if_neg hv, h]

/-- With a violator, a loop that does not abort marks every validator it has a previous-epoch
response for. By induction on the responses: the round of such a response marks the validator,
and the later rounds keep it marked. -/
theorem marked_of_forM_ok (v : K) {previousEpoch : Nat} (hprev : previousEpoch < uMax 64)
    (previousEpochIsSatisfied : Bool) (indicesMap : List (Nat × K)) :
    ∀ (responses : List LivenessResponseData) (self self' : DoppelgangerService K),
      (responses.forM (processPreviousEpochResponse previousEpoch previousEpochIsSatisfied true
        indicesMap)).run self = .ok () self' → self.Wf →
      ∀ r ∈ responses, indicesMap.lookup r.index = some v → Marked v self'
  | [], _, _, _, _, r, hr, _ => nomatch hr
  | response :: responses, self, self', hrun, hwf, r, hr, hindex => by
    have hrun' : (processPreviousEpochResponse previousEpoch previousEpochIsSatisfied true indicesMap
        response >>= fun _ => responses.forM (processPreviousEpochResponse previousEpoch
          previousEpochIsSatisfied true indicesMap)).run self = .ok () self' := hrun
    rw [run_bind] at hrun'
    rcases processPreviousEpochResponse_cases previousEpoch previousEpochIsSatisfied true
        indicesMap response self with ⟨e, he⟩ | ⟨-, pubkey, st, hpubkey, hst, hres⟩
    · rw [he] at hrun'
      cases hrun'
    rw [hres] at hrun'
    dsimp only at hrun'
    have hwf₁ := keeps_wf_processPreviousEpochResponse previousEpoch previousEpochIsSatisfied true
      indicesMap response self hwf
    rw [hres, Result.state_ok] at hwf₁
    rcases List.mem_cons.1 hr with rfl | hr
    · -- this round marks `v`, and the rest of the loop keeps it marked
      rw [hindex] at hpubkey
      cases hpubkey
      have hmarked : Marked v (self.setState v
          (st.afterResponse previousEpoch previousEpochIsSatisfied true r.isLive)) := by
        have hw := hwf v st hst
        refine ⟨st.afterResponse previousEpoch previousEpochIsSatisfied true r.isLive, ?_,
          hw.afterResponse _ _ _ _, ?_⟩
        · rw [state_setState, if_pos rfl, hst, Option.map_some]
        · have := hw.1
          simp only [DoppelgangerState.afterResponse, if_true]
          unfold uMax
          omega
      have hkeeps := Keeps.forM responses (fun response _ =>
        keeps_marked_processPreviousEpochResponse v hprev previousEpochIsSatisfied true indicesMap
          response) _ hmarked
      rwa [hrun'] at hkeeps
    · exact marked_of_forM_ok v hprev previousEpochIsSatisfied indicesMap responses _ self' hrun'
        hwf₁ r hr hindex


/-! ## The loop, validator by validator -/

/-- A loop that does not abort updates the state of each validator by the rounds of its own
responses, in order. By induction on the responses. -/
theorem state_forM_ok (previousEpoch : Nat) (previousEpochIsSatisfied violatorsExist : Bool)
    (indicesMap : List (Nat × K)) (v : K) :
    ∀ (responses : List LivenessResponseData) (self self' : DoppelgangerService K),
      (responses.forM (processPreviousEpochResponse previousEpoch previousEpochIsSatisfied
        violatorsExist indicesMap)).run self = .ok () self' →
      self'.state v = (responses.filter fun r => indicesMap.lookup r.index == some v).foldl
        (fun state r => state.map fun st =>
          st.afterResponse previousEpoch previousEpochIsSatisfied violatorsExist r.isLive)
        (self.state v)
  | [], self, self', hrun => by
    cases hrun
    rfl
  | response :: responses, self, self', hrun => by
    obtain ⟨self₁, hfirst, hrest⟩ := run_forM_cons_eq_ok hrun
    rcases processPreviousEpochResponse_cases previousEpoch previousEpochIsSatisfied violatorsExist
        indicesMap response self with ⟨e, he⟩ | ⟨-, pubkey, st, hpubkey, hst, hres⟩
    · rw [he] at hfirst
      cases hfirst
    rw [hres] at hfirst
    cases hfirst
    rw [state_forM_ok previousEpoch previousEpochIsSatisfied violatorsExist indicesMap v responses _
      self' hrest, List.filter_cons, state_setState]
    by_cases hv : v = pubkey
    · -- the round of this response updates `v`
      subst hv
      have hkept : (indicesMap.lookup response.index == some v) = true := by
        rw [hpubkey]
        exact beq_self_eq_true _
      rw [if_pos rfl, if_pos hkept]
      simp only [hst, List.foldl_cons, Option.map_some]
    · have hskipped : ¬(indicesMap.lookup response.index == some v) = true := by
        rw [hpubkey, beq_iff_eq, Option.some.injEq]
        exact Ne.symm hv
      rw [if_neg hv, if_neg hskipped]

/-- Quiet rounds on a state whose next check is not past the previous epoch: the first response
not live completes that epoch, and the rounds after it change nothing, as the next check is then
past the previous epoch. By induction on the responses. -/
theorem foldl_afterResponse_quiet {previousEpoch : Nat} (hprev : previousEpoch < uMax 64) :
    ∀ (responses : List LivenessResponseData) (st : DoppelgangerState),
      st.nextCheckEpoch ≤ previousEpoch →
      responses.foldl (fun state r => state.map fun st => st.afterResponse previousEpoch true false
          r.isLive) (some st) =
        some (if responses.any (fun r => !r.isLive) then st.completeDetectionInEpoch previousEpoch
          else st)
  | [], _, _ => rfl
  | response :: responses, st, hnext => by
    rw [List.foldl_cons, Option.map_some, List.any_cons]
    cases hlive : response.isLive
    · -- the epoch is completed, and the next check moves past it
      have hdone : (st.completeDetectionInEpoch previousEpoch).nextCheckEpoch = previousEpoch + 1 :=
        uSaturatingAdd_of_le hprev
      have hsame : ∀ rs : List LivenessResponseData, rs.foldl (fun state r => state.map fun st =>
          st.afterResponse previousEpoch true false r.isLive)
          (some (st.completeDetectionInEpoch previousEpoch)) =
            some (st.completeDetectionInEpoch previousEpoch) := by
        intro rs
        induction rs with
        | nil => rfl
        | cons r rs ih =>
          rw [List.foldl_cons, Option.map_some]
          have hkeep : (st.completeDetectionInEpoch previousEpoch).afterResponse previousEpoch true
              false r.isLive = st.completeDetectionInEpoch previousEpoch := by
            simp [DoppelgangerState.afterResponse, hdone]
          rw [hkeep, ih]
      have hafter : st.afterResponse previousEpoch true false false =
          st.completeDetectionInEpoch previousEpoch := by
        simp [DoppelgangerState.afterResponse, hnext]
      rw [hafter, hsame]
      rfl
    · have hafter : st.afterResponse previousEpoch true false true = st := by
        simp [DoppelgangerState.afterResponse]
      rw [hafter, foldl_afterResponse_quiet hprev responses st hnext]
      simp

/-- The state of a validator that is not in the indices map is left as it was by every round. -/
theorem keeps_state_processPreviousEpochResponse {v : K} {st : DoppelgangerState}
    (previousEpoch : Nat) (previousEpochIsSatisfied violatorsExist : Bool)
    {indicesMap : List (Nat × K)} (hv : ∀ index, indicesMap.lookup index ≠ some v)
    (response : LivenessResponseData) :
    Keeps (fun self => self.state v = some st) (processPreviousEpochResponse previousEpoch
      previousEpochIsSatisfied violatorsExist indicesMap response) := by
  intro self hst
  rcases processPreviousEpochResponse_cases previousEpoch previousEpochIsSatisfied violatorsExist
      indicesMap response self with ⟨e, he⟩ | ⟨-, pubkey, _, hpubkey, -, hres⟩
  · rw [he]
    exact hst
  · have hne : v ≠ pubkey := fun heq => hv response.index (heq ▸ hpubkey)
    rw [hres, Result.state_ok, state_setState, if_neg hne]
    exact hst

/-- Every validator in the map of `compute_detection_indices_map` still requires checks. The
map is built by inserting the validators that do, so an invariant of the fold. -/
theorem computeDetectionIndicesMap_lookup (self : DoppelgangerService K) (getIndex : K → Option Nat)
    {index : Nat} {pubkey : K} (h : (self.computeDetectionIndicesMap getIndex).lookup index = some pubkey) :
    ∃ st, self.state pubkey = some st ∧ 0 < st.remainingEpochs := by
  let detectionPubkeys := self.doppelgangerStates.filterMap fun (pubkey, state) =>
    if state.requiresFurtherChecks then some pubkey else none
  -- the fold only inserts detection public keys
  have hfold : ∀ (pubkeys : List K) (indicesMap : List (Nat × K)),
      (∀ i k, indicesMap.lookup i = some k → k ∈ detectionPubkeys) → (∀ k ∈ pubkeys, k ∈ detectionPubkeys) →
      ∀ i k, (pubkeys.foldl (fun indicesMap pubkey => match getIndex pubkey with
        | some index => AssocList.insert indicesMap index pubkey
        | none => indicesMap) indicesMap).lookup i = some k → k ∈ detectionPubkeys := by
    intro pubkeys
    induction pubkeys with
    | nil => exact fun _ hmap _ => hmap
    | cons k pubkeys ih =>
      intro indicesMap hmap hpubkeys
      rw [List.foldl_cons]
      refine ih _ ?_ (fun k' hk' => hpubkeys k' (List.mem_cons_of_mem _ hk'))
      intro i k' hk'
      split at hk'
      · rw [AssocList.lookup_insert] at hk'
        split at hk'
        · cases hk'
          exact hpubkeys _ List.mem_cons_self
        · exact hmap i k' hk'
      · exact hmap i k' hk'
  have hmem := hfold detectionPubkeys [] (fun _ _ h => nomatch h) (fun _ hk => hk) index pubkey h
  obtain ⟨⟨k, st⟩, hentry, hsome⟩ := List.mem_filterMap.1 hmem
  dsimp only at hsome
  by_cases hreq : st.requiresFurtherChecks
  · rw [if_pos hreq] at hsome
    cases hsome
    refine ⟨st, (AssocList.lookup_eq_some_iff_mem self.nodup).2 hentry, ?_⟩
    simpa [DoppelgangerState.requiresFurtherChecks] using hreq
  · rw [if_neg hreq] at hsome
    cases hsome

end DoppelgangerService


/-! ## Runs of calls -/

/-- The calls that change the states: `register_new_validator` with a reading of the slot clock,
and `process_liveness_responses` with any responses and indices map. `detect_doppelgangers`
computes the map before it awaits the beacon node, so registrations may come in between. -/
inductive DoppelgangerCall (K : Type)
  | registerNewValidator (validator : K) (nowOrGenesis : Option Nat)
  | processLivenessResponses (requestSlot : Nat) (livenessResponses : LivenessResponses)
      (indicesMap : List (Nat × K))

namespace DoppelgangerCall

variable {K : Type} [DecidableEq K]

def exec (slotsPerEpoch genesisSlot : Nat) :
    DoppelgangerCall K → EStateM (DoppelgangerError K) (DoppelgangerService K) Unit
  | .registerNewValidator validator nowOrGenesis =>
    DoppelgangerService.registerNewValidator validator nowOrGenesis genesisSlot slotsPerEpoch
  | .processLivenessResponses requestSlot livenessResponses indicesMap => do
    let _ ← DoppelgangerService.processLivenessResponses slotsPerEpoch requestSlot
      livenessResponses indicesMap

/-- The request slot is a `Slot`. -/
def SlotInRange : DoppelgangerCall K → Prop
  | .registerNewValidator _ _ => True
  | .processLivenessResponses requestSlot _ _ => requestSlot < 2 ^ 64

instance : DecidablePred (SlotInRange (K := K)) := fun call =>
  match call with
  | .registerNewValidator _ _ => inferInstanceAs (Decidable True)
  | .processLivenessResponses requestSlot _ _ => inferInstanceAs (Decidable (requestSlot < 2 ^ 64))

end DoppelgangerCall

open DoppelgangerService DoppelgangerCall

variable {K : Type} [DecidableEq K]

/-- The states after a run of calls, each from where the one before ended, with `Ok` or an
error. -/
def runCalls (slotsPerEpoch genesisSlot : Nat) (self : DoppelgangerService K)
    (calls : List (DoppelgangerCall K)) : DoppelgangerService K :=
  calls.foldl (fun self call => ((call.exec slotsPerEpoch genesisSlot).run self).state) self

section Runs

variable (slotsPerEpoch genesisSlot : Nat)

@[simp] theorem runCalls_nil (self : DoppelgangerService K) :
    runCalls slotsPerEpoch genesisSlot self [] = self := rfl

@[simp] theorem runCalls_cons (self : DoppelgangerService K) (call : DoppelgangerCall K)
    (calls : List (DoppelgangerCall K)) :
    runCalls slotsPerEpoch genesisSlot self (call :: calls) =
      runCalls slotsPerEpoch genesisSlot ((call.exec slotsPerEpoch genesisSlot).run self).state calls :=
  rfl

theorem runCalls_append (self : DoppelgangerService K) (calls calls' : List (DoppelgangerCall K)) :
    runCalls slotsPerEpoch genesisSlot self (calls ++ calls') =
      runCalls slotsPerEpoch genesisSlot (runCalls slotsPerEpoch genesisSlot self calls) calls' :=
  List.foldl_append

theorem exec_processLivenessResponses_state (requestSlot : Nat)
    (livenessResponses : LivenessResponses) (indicesMap : List (Nat × K))
    (self : DoppelgangerService K) :
    (((DoppelgangerCall.processLivenessResponses requestSlot livenessResponses indicesMap).exec
        slotsPerEpoch genesisSlot).run self).state =
      ((processLivenessResponses slotsPerEpoch requestSlot livenessResponses indicesMap).run
        self).state := by
  show ((processLivenessResponses slotsPerEpoch requestSlot livenessResponses indicesMap >>=
    fun _ => pure ()).run self).state = _
  rw [run_bind]
  split <;> rename_i hr <;> rw [hr] <;> rfl

/-- A registration of another validator, or one that cannot read the clock, leaves the state of
`v` as it was. -/
theorem state_registerNewValidator_of_ne {v validator : K} {nowOrGenesis : Option Nat}
    (hne : ∀ now, nowOrGenesis = some now → validator ≠ v) (self : DoppelgangerService K) :
    ((registerNewValidator validator nowOrGenesis genesisSlot slotsPerEpoch).run self).state.state v =
      self.state v := by
  rw [registerNewValidator_run]
  cases nowOrGenesis with
  | none => rfl
  | some now =>
    rw [Result.state_ok, state_insertState, if_neg (Ne.symm (hne now rfl))]

theorem keeps_wf_exec (call : DoppelgangerCall K) : Keeps Wf (call.exec slotsPerEpoch genesisSlot) := by
  intro self hwf
  cases call with
  | registerNewValidator validator nowOrGenesis =>
    exact keeps_wf_registerNewValidator validator nowOrGenesis genesisSlot slotsPerEpoch self hwf
  | processLivenessResponses requestSlot livenessResponses indicesMap =>
    rw [exec_processLivenessResponses_state]
    exact keeps_wf_processLivenessResponses _ _ _ _ self hwf

theorem wf_runCalls : ∀ (calls : List (DoppelgangerCall K)) {self : DoppelgangerService K},
    self.Wf → (runCalls slotsPerEpoch genesisSlot self calls).Wf
  | [], _, hwf => hwf
  | call :: calls, self, hwf =>
    wf_runCalls calls (keeps_wf_exec slotsPerEpoch genesisSlot call self hwf)


/-! ### A validator registered past genesis -/

/-- The state of `v` after its registration at epoch `e0` past genesis, until it is enabled: well
formed, with epochs still to check, its next check at least `e0 + 1` (saturating). -/
def PendingSince (v : K) (e0 : Nat) (self : DoppelgangerService K) : Prop :=
  ∃ st, self.state v = some st ∧ st.Wf ∧ 0 < st.remainingEpochs ∧
    uSaturatingAdd 64 e0 1 ≤ st.nextCheckEpoch

/-- A call that can enable `v`, registered at `e0`: a call of `process_liveness_responses` at a
slot past the end of the epoch after its previous epoch `e > e0`, with a response for `v` in `e`
not live, and no live response of a monitored validator at an epoch it has not checked. -/
def Enables (v : K) (e0 : Nat) (self : DoppelgangerService K) : DoppelgangerCall K → Prop
  | .registerNewValidator _ _ => False
  | .processLivenessResponses requestSlot livenessResponses indicesMap =>
    ∃ r ∈ livenessResponses.previousEpochResponses, indicesMap.lookup r.index = some v ∧
      r.isLive = false ∧ r.epoch = requestSlot / slotsPerEpoch - 1 ∧ e0 + 1 ≤ r.epoch ∧
      endSlot slotsPerEpoch (r.epoch + 1) ≤ requestSlot ∧
      ∀ r' ∈ livenessResponses.previousEpochResponses ++ livenessResponses.currentEpochResponses,
        r'.isLive = true → ∀ pubkey, indicesMap.lookup r'.index = some pubkey →
          ∀ st, self.state pubkey = some st → r'.epoch < st.nextCheckEpoch

theorem PendingSince.validatorStatus {v : K} {e0 : Nat} {self : DoppelgangerService K}
    (h : PendingSince v e0 self) : self.validatorStatus v = .signingDisabled v := by
  obtain ⟨st, hst, -, hpos, -⟩ := h
  simp [DoppelgangerService.validatorStatus, hst, DoppelgangerState.requiresFurtherChecks, hpos]

theorem pendingSince_registerNewValidator (v : K) {now : Nat}
    (hpast : genesisSlot / slotsPerEpoch < now / slotsPerEpoch) (self : DoppelgangerService K) :
    PendingSince v (now / slotsPerEpoch)
      ((registerNewValidator v (some now) genesisSlot slotsPerEpoch).run self).state := by
  rw [registerNewValidator_run, Result.state_ok]
  have hnext := DoppelgangerState.uSaturatingAdd_one_wf (now / slotsPerEpoch)
  refine ⟨_, by rw [state_insertState, if_pos rfl], ⟨hnext.1, hnext.2, ?_⟩, ?_, Nat.le_refl _⟩
  · simp only [if_neg (Nat.not_le.2 hpast), defaultRemainingDetectionEpochs, uMax]
    omega
  · simp [if_neg (Nat.not_le.2 hpast), defaultRemainingDetectionEpochs]

/-- A call either keeps `v` pending or enables it. A call of `process_liveness_responses` moves
the state of `v` forward (`moves_forM_processPreviousEpochResponse`); if it leaves no epoch to
check, it completed one, in a previous epoch that is then at least `e0 + 1`. -/
theorem PendingSince.exec {v : K} {e0 : Nat} {self : DoppelgangerService K}
    (h : PendingSince v e0 self) {call : DoppelgangerCall K}
    (hcall : ∀ now, call ≠ .registerNewValidator v (some now)) (hrange : call.SlotInRange) :
    PendingSince v e0 ((call.exec slotsPerEpoch genesisSlot).run self).state ∨
      Enables slotsPerEpoch v e0 self call := by
  obtain ⟨st, hst, hw, hpos, hnext⟩ := h
  cases call with
  | registerNewValidator validator nowOrGenesis =>
    left
    refine ⟨st, ?_, hw, hpos, hnext⟩
    show ((registerNewValidator validator nowOrGenesis genesisSlot slotsPerEpoch).run self).state.state v = _
    rw [state_registerNewValidator_of_ne slotsPerEpoch genesisSlot
      (fun now hnow hv => hcall now (by rw [hnow, hv])), hst]
  | processLivenessResponses requestSlot livenessResponses indicesMap =>
    rw [exec_processLivenessResponses_state, processLivenessResponses_state]
    obtain ⟨st', hst', hw', hnext', hrem⟩ := moves_forM_processPreviousEpochResponse v _ _ _
      indicesMap livenessResponses.previousEpochResponses self st hst hw
    by_cases hpos' : 0 < st'.remainingEpochs
    · exact .inl ⟨st', hst', hw', hpos', Nat.le_trans hnext hnext'⟩
    · -- no epoch left to check: the call completed one
      right
      obtain ⟨hvio, hsat, hle, r, hr, hindex, hlive, hepoch⟩ := hrem (by omega)
      have hslot : requestSlot < 2 ^ 64 := hrange
      have hprev : requestSlot / slotsPerEpoch - 1 + 1 ≤ uMax 64 := by
        have := Nat.div_le_self requestSlot slotsPerEpoch
        unfold uMax
        omega
      have he0 : e0 + 1 ≤ requestSlot / slotsPerEpoch - 1 := by
        have hsat' := Nat.le_trans hnext hle
        unfold uSaturatingAdd at hsat'
        omega
      refine ⟨r, hr, hindex, hlive, hepoch, hepoch ▸ he0, ?_, ?_⟩
      · rw [hepoch, ← uSaturatingAdd_of_le hprev]
        exact of_decide_eq_true hsat
      · have hnil := List.isEmpty_iff.1 (Bool.not_eq_false' _ ▸ hvio)
        exact (violators_eq_nil_iff self indicesMap _).1 hnil

/-- A validator registered past genesis is enabled only by a call that `Enables` it. By induction
on the calls after its registration, with `PendingSince.exec` for each. -/
theorem enables_of_pendingSince {v : K} {e0 : Nat} :
    ∀ (calls : List (DoppelgangerCall K)) {self : DoppelgangerService K}, PendingSince v e0 self →
      (∀ now, .registerNewValidator v (some now) ∉ calls) → (∀ call ∈ calls, call.SlotInRange) →
      (runCalls slotsPerEpoch genesisSlot self calls).validatorStatus v = .signingEnabled v →
      ∃ calls₁ call calls₂, calls = calls₁ ++ call :: calls₂ ∧
        Enables slotsPerEpoch v e0 (runCalls slotsPerEpoch genesisSlot self calls₁) call
  | [], _, h, _, _, henabled => by
    rw [runCalls_nil, h.validatorStatus] at henabled
    cases henabled
  | call :: calls, self, h, hfresh, hrange, henabled => by
    have hcall : ∀ now, call ≠ .registerNewValidator v (some now) :=
      fun now heq => hfresh now (heq ▸ List.mem_cons_self)
    rcases h.exec slotsPerEpoch genesisSlot hcall (hrange call List.mem_cons_self) with
      hpending | henables
    · obtain ⟨calls₁, call', calls₂, rfl, h'⟩ := enables_of_pendingSince calls hpending
        (fun now hmem => hfresh now (List.mem_cons_of_mem _ hmem))
        (fun c hc => hrange c (List.mem_cons_of_mem _ hc)) henabled
      exact ⟨call :: calls₁, call', calls₂, rfl, h'⟩
    · exact ⟨[], call, calls, rfl, henables⟩


/-! ### A validator marked after a violator -/

theorem Marked.exec {v : K} {self : DoppelgangerService K} (h : Marked v self)
    {call : DoppelgangerCall K} (hcall : ∀ now, call ≠ .registerNewValidator v (some now))
    (hrange : call.SlotInRange) :
    Marked v ((call.exec slotsPerEpoch genesisSlot).run self).state := by
  cases call with
  | registerNewValidator validator nowOrGenesis =>
    obtain ⟨st, hst, hw, hsum⟩ := h
    refine ⟨st, ?_, hw, hsum⟩
    show ((registerNewValidator validator nowOrGenesis genesisSlot slotsPerEpoch).run self).state.state v = _
    rw [state_registerNewValidator_of_ne slotsPerEpoch genesisSlot
      (fun now hnow hv => hcall now (by rw [hnow, hv])), hst]
  | processLivenessResponses requestSlot livenessResponses indicesMap =>
    have hslot : requestSlot < 2 ^ 64 := hrange
    have hprev : requestSlot / slotsPerEpoch - 1 < uMax 64 := by
      have := Nat.div_le_self requestSlot slotsPerEpoch
      unfold uMax
      omega
    rw [exec_processLivenessResponses_state, processLivenessResponses_state]
    exact Keeps.forM _ (fun response _ => keeps_marked_processPreviousEpochResponse v hprev _ _
      indicesMap response) self h

theorem marked_runCalls {v : K} :
    ∀ (calls : List (DoppelgangerCall K)) {self : DoppelgangerService K}, Marked v self →
      (∀ now, .registerNewValidator v (some now) ∉ calls) → (∀ call ∈ calls, call.SlotInRange) →
      Marked v (runCalls slotsPerEpoch genesisSlot self calls)
  | [], _, h, _, _ => h
  | call :: calls, _, h, hfresh, hrange =>
    marked_runCalls calls
      (Marked.exec slotsPerEpoch genesisSlot h
        (fun now heq => hfresh now (heq ▸ List.mem_cons_self)) (hrange call List.mem_cons_self))
      (fun now hmem => hfresh now (List.mem_cons_of_mem _ hmem))
      (fun c hc => hrange c (List.mem_cons_of_mem _ hc))

/-- A call of `process_liveness_responses` that finds a violator and returns `Ok` marks every
validator with a previous-epoch response. -/
theorem marked_of_processLivenessResponses_ok {requestSlot : Nat}
    {livenessResponses : LivenessResponses} {indicesMap : List (Nat × K)}
    {self self' : DoppelgangerService K} {found : Bool}
    (hrun : (processLivenessResponses slotsPerEpoch requestSlot livenessResponses indicesMap).run
      self = .ok found self')
    (hslot : requestSlot < 2 ^ 64) (hwf : self.Wf)
    (hviolator : violators self indicesMap
      (livenessResponses.previousEpochResponses ++ livenessResponses.currentEpochResponses) ≠ [])
    {v : K} (hv : ∃ r ∈ livenessResponses.previousEpochResponses, indicesMap.lookup r.index = some v) :
    Marked v self' := by
  obtain ⟨hloop, -⟩ := processLivenessResponses_ok hrun
  have hvio : (!(violators self indicesMap (livenessResponses.previousEpochResponses ++
      livenessResponses.currentEpochResponses)).isEmpty) = true := by
    simpa [List.isEmpty_iff] using hviolator
  rw [hvio] at hloop
  have hprev : requestSlot / slotsPerEpoch - 1 < uMax 64 := by
    have := Nat.div_le_self requestSlot slotsPerEpoch
    unfold uMax
    omega
  obtain ⟨r, hr, hindex⟩ := hv
  exact marked_of_forM_ok v hprev _ indicesMap _ self self' hloop hwf r hr hindex

end Runs


/-! ## Signing in the validator store -/

/-- `validator_store::Error<T>`, with `T` also standing for the payloads of `Slashable` and
`UnableToSignAttestation`, which come from the parts of signing not modelled here. -/
inductive StoreError (K T : Type)
  | doppelgangerProtected (pubkey : K)
  | unknownToDoppelgangerService (pubkey : K)
  | unknownPubkey (pubkey : K)
  | slashable (notSafe : T)
  | sameData
  | greaterThanCurrentSlot (slot currentSlot : Nat)
  | greaterThanCurrentEpoch (epoch currentEpoch : Nat)
  | unableToSignAttestation (error : T)
  | specificError (error : T)
  | middleware (message : String)

/-- `VibehouseValidatorStore`: its doppelganger service, when protection is enabled, and the
signing method of each validator (`validators.read().signing_method(&pubkey)`). -/
structure ValidatorStore (K M : Type) where
  doppelgangerService : Option (DoppelgangerService K)
  signingMethods : List (K × M)

/-- The status `only_safe` lets through is `SigningEnabled`. -/
theorem DoppelgangerService.onlySafe_validatorStatus (self : DoppelgangerService K) (v : K) :
    (self.validatorStatus v).onlySafe.isSome = true ↔ self.validatorStatus v = .signingEnabled v := by
  unfold DoppelgangerService.validatorStatus
  split
  · simp [DoppelgangerStatus.onlySafe]
  · split <;> simp [DoppelgangerStatus.onlySafe]

namespace ValidatorStore

variable {M T S : Type}

/-- `doppelganger_protection_allows_signing`: without a service, every key is allowed. -/
def doppelgangerProtectionAllowsSigning (self : ValidatorStore K M) (validatorPubkey : K) : Bool :=
  match self.doppelgangerService with
  | none => true
  | some doppelgangerService => (doppelgangerService.validatorStatus validatorPubkey).onlySafe.isSome

/-- `doppelganger_bypassed_signing_method`. -/
def doppelgangerBypassedSigningMethod (self : ValidatorStore K M) (validatorPubkey : K) :
    Except (StoreError K T) M :=
  match self.signingMethods.lookup validatorPubkey with
  | some signingMethod => .ok signingMethod
  | none => .error (.unknownPubkey validatorPubkey)

/-- `doppelganger_checked_signing_method`: the same lookup, once protection allows it. -/
def doppelgangerCheckedSigningMethod (self : ValidatorStore K M) (validatorPubkey : K) :
    Except (StoreError K T) M :=
  if self.doppelgangerProtectionAllowsSigning validatorPubkey then
    self.doppelgangerBypassedSigningMethod validatorPubkey
  else .error (.doppelgangerProtected validatorPubkey)

/-- The shape of the slashable signing calls: a check of the request, the signing method if
protection allows it, and what the call does with that method (`signWith`: slashing protection
and the signature). -/
def signChecked (self : ValidatorStore K M) (precheck : Except (StoreError K T) Unit)
    (validatorPubkey : K) (signWith : M → Except (StoreError K T) S) : Except (StoreError K T) S := do
  precheck
  let signingMethod ← self.doppelgangerCheckedSigningMethod validatorPubkey
  signWith signingMethod

/-- `sign_abstract_block`: a block past the current slot is refused first. -/
def signAbstractBlock (self : ValidatorStore K M) (validatorPubkey : K) (blockSlot currentSlot : Nat)
    (signWith : M → Except (StoreError K T) S) : Except (StoreError K T) S :=
  self.signChecked (if blockSlot > currentSlot then .error (.greaterThanCurrentSlot blockSlot currentSlot)
    else .ok ()) validatorPubkey signWith

/-- `sign_attestation`: an attestation whose target is past the current epoch is refused first. -/
def signAttestation (self : ValidatorStore K M) (validatorPubkey : K) (targetEpoch currentEpoch : Nat)
    (signWith : M → Except (StoreError K T) S) : Except (StoreError K T) S :=
  self.signChecked (if targetEpoch > currentEpoch then
    .error (.greaterThanCurrentEpoch targetEpoch currentEpoch) else .ok ()) validatorPubkey signWith

/-- `sign_execution_payload_envelope`. -/
def signExecutionPayloadEnvelope (self : ValidatorStore K M) (validatorPubkey : K)
    (signWith : M → Except (StoreError K T) S) : Except (StoreError K T) S :=
  self.signChecked (.ok ()) validatorPubkey signWith

/-- With protection enabled, a slashable signing call that returns `Ok` was allowed by a
signing-enabled status. -/
theorem signChecked_ok {self : ValidatorStore K M} {precheck : Except (StoreError K T) Unit}
    {validatorPubkey : K} {signWith : M → Except (StoreError K T) S} {signed : S}
    (h : self.signChecked precheck validatorPubkey signWith = .ok signed)
    {doppelgangerService : DoppelgangerService K}
    (hservice : self.doppelgangerService = some doppelgangerService) :
    doppelgangerService.validatorStatus validatorPubkey = .signingEnabled validatorPubkey := by
  obtain ⟨-, -, hrest⟩ := Except.bind_eq_ok.1 h
  obtain ⟨signingMethod, hmethod, -⟩ := Except.bind_eq_ok.1 hrest
  unfold doppelgangerCheckedSigningMethod at hmethod
  split at hmethod
  · rename_i hallows
    rw [doppelgangerProtectionAllowsSigning, hservice] at hallows
    exact (doppelgangerService.onlySafe_validatorStatus validatorPubkey).1 hallows
  · cases hmethod

end ValidatorStore


/-! ## Doppelganger protection gates slashable signing -/

open ValidatorStore

/-- With protection enabled, the slashable signing calls sign only for a signing-enabled validator.
A validator registered past genesis is enabled only by a call at a slot past the end of the epoch
after one, `e > e0`, in which it was reported not live, with no violator in that call. After a call
that finds a violator and returns `Ok`, each validator with a previous-epoch response stays
disabled until it is registered again, while the request slots are `Slot`s. -/
theorem doppelganger_gates_slashable_signing (slotsPerEpoch genesisSlot : Nat) :
    (∀ {M T S : Type} (store : ValidatorStore K M) (doppelgangerService : DoppelgangerService K),
      store.doppelgangerService = some doppelgangerService →
      ∀ (v : K) (signWith : M → Except (StoreError K T) S) (signed : S),
        ((∃ blockSlot currentSlot, store.signAbstractBlock v blockSlot currentSlot signWith = .ok signed) ∨
          (∃ targetEpoch currentEpoch,
            store.signAttestation v targetEpoch currentEpoch signWith = .ok signed) ∨
          store.signExecutionPayloadEnvelope v signWith = .ok signed) →
        doppelgangerService.validatorStatus v = .signingEnabled v) ∧
    (∀ (pre post : List (DoppelgangerCall K)) (v : K) (now : Nat),
      genesisSlot / slotsPerEpoch < now / slotsPerEpoch →
      (∀ now', .registerNewValidator v (some now') ∉ post) → (∀ call ∈ post, call.SlotInRange) →
      (runCalls slotsPerEpoch genesisSlot .empty
        (pre ++ .registerNewValidator v (some now) :: post)).validatorStatus v = .signingEnabled v →
      ∃ post₁ requestSlot livenessResponses indicesMap post₂,
        post = post₁ ++ .processLivenessResponses requestSlot livenessResponses indicesMap :: post₂ ∧
        ∃ r ∈ livenessResponses.previousEpochResponses, indicesMap.lookup r.index = some v ∧
          r.isLive = false ∧ r.epoch = requestSlot / slotsPerEpoch - 1 ∧
          now / slotsPerEpoch + 1 ≤ r.epoch ∧ endSlot slotsPerEpoch (r.epoch + 1) ≤ requestSlot ∧
          ∀ r' ∈ livenessResponses.previousEpochResponses ++ livenessResponses.currentEpochResponses,
            r'.isLive = true → ∀ pubkey, indicesMap.lookup r'.index = some pubkey →
              ∀ st, (runCalls slotsPerEpoch genesisSlot .empty
                (pre ++ .registerNewValidator v (some now) :: post₁)).state pubkey = some st →
              r'.epoch < st.nextCheckEpoch) ∧
    (∀ (pre post : List (DoppelgangerCall K)) (requestSlot : Nat)
      (livenessResponses : LivenessResponses) (indicesMap : List (Nat × K)) (found : Bool)
      (self' : DoppelgangerService K) (v : K),
      (processLivenessResponses slotsPerEpoch requestSlot livenessResponses indicesMap).run
        (runCalls slotsPerEpoch genesisSlot .empty pre) = .ok found self' →
      requestSlot < 2 ^ 64 →
      (∃ r ∈ livenessResponses.previousEpochResponses ++ livenessResponses.currentEpochResponses,
        r.isLive = true ∧ ∃ pubkey, indicesMap.lookup r.index = some pubkey ∧
          ∃ st, (runCalls slotsPerEpoch genesisSlot .empty pre).state pubkey = some st ∧
            st.nextCheckEpoch ≤ r.epoch) →
      (∃ r ∈ livenessResponses.previousEpochResponses, indicesMap.lookup r.index = some v) →
      (∀ now, .registerNewValidator v (some now) ∉ post) → (∀ call ∈ post, call.SlotInRange) →
      (runCalls slotsPerEpoch genesisSlot self' post).validatorStatus v = .signingDisabled v) := by
  refine ⟨?_, ?_, ?_⟩
  · -- each of the three calls is `signChecked`
    intro M T S store doppelgangerService hservice v signWith signed hsigned
    rcases hsigned with ⟨_, _, h⟩ | ⟨_, _, h⟩ | h <;> exact signChecked_ok h hservice
  · intro pre post v now hpast hfresh hrange henabled
    have hpending := pendingSince_registerNewValidator slotsPerEpoch genesisSlot v hpast
      (runCalls slotsPerEpoch genesisSlot .empty pre)
    rw [runCalls_append, runCalls_cons] at henabled
    obtain ⟨post₁, call, post₂, rfl, henables⟩ :=
      enables_of_pendingSince slotsPerEpoch genesisSlot post hpending hfresh hrange henabled
    -- the enabling call is a call of `process_liveness_responses`
    cases call with
    | registerNewValidator _ _ => exact henables.elim
    | processLivenessResponses requestSlot livenessResponses indicesMap =>
      refine ⟨post₁, requestSlot, livenessResponses, indicesMap, post₂, rfl, ?_⟩
      rw [runCalls_append, runCalls_cons]
      exact henables
  · intro pre post requestSlot livenessResponses indicesMap found self' v hrun hslot hviolator hv
      hfresh hrange
    have hwf := wf_runCalls slotsPerEpoch genesisSlot pre (wf_empty (K := K))
    have hviolators : violators (runCalls slotsPerEpoch genesisSlot .empty pre) indicesMap
        (livenessResponses.previousEpochResponses ++ livenessResponses.currentEpochResponses) ≠ [] := by
      intro hnil
      obtain ⟨r, hr, hlive, pubkey, hindex, st, hst, hle⟩ := hviolator
      exact Nat.not_lt.2 hle ((violators_eq_nil_iff _ _ _).1 hnil r hr hlive pubkey hindex st hst)
    exact (marked_runCalls slotsPerEpoch genesisSlot post
      (marked_of_processLivenessResponses_ok slotsPerEpoch hrun hslot hwf hviolators hv) hfresh
      hrange).validatorStatus

/-- Validator 1, registered at slot 64 (epoch 2 of 32 slots) with index 7. -/
def sampleRegistration : DoppelgangerCall Nat := .registerNewValidator 1 (some 64)

/-- At the last slot of epoch 4, validator 7 reported not live in epoch 3. -/
def sampleQuietCall : DoppelgangerCall Nat :=
  .processLivenessResponses 159 ⟨[], [⟨7, 3, false⟩]⟩ [(7, 1)]

/-- At slot 128, validator 7 reported live in epoch 4, which it has not checked: a violator. -/
def sampleViolatingResponses : LivenessResponses := ⟨[⟨7, 4, true⟩], [⟨7, 3, false⟩]⟩

theorem doppelganger_gates_slashable_signing_sample :
    (runCalls 32 0 .empty [sampleRegistration, sampleQuietCall]).validatorStatus 1 =
        .signingEnabled 1 ∧
      (∃ post₁ requestSlot livenessResponses indicesMap post₂, [sampleQuietCall] =
        post₁ ++ .processLivenessResponses requestSlot livenessResponses indicesMap :: post₂) ∧
      (runCalls 32 0 ((processLivenessResponses 32 128 sampleViolatingResponses [(7, 1)]).run
        (runCalls 32 0 .empty [sampleRegistration])).state [sampleQuietCall]).validatorStatus 1 =
        .signingDisabled 1 := by
  obtain ⟨hsign, hquiet, hviolation⟩ := doppelganger_gates_slashable_signing (K := Nat) 32 0
  have henvelope := hsign (T := Unit)
    ⟨some (runCalls 32 0 .empty [sampleRegistration, sampleQuietCall]), [(1, ())]⟩ _ rfl 1
    (fun _ => .ok ()) () (.inr (.inr rfl))
  obtain ⟨post₁, requestSlot, livenessResponses, indicesMap, post₂, hpost, -⟩ :=
    hquiet [] [sampleQuietCall] 1 64 (by decide) (by simp [sampleQuietCall])
      (by simp [sampleQuietCall, DoppelgangerCall.SlotInRange]) (by decide)
  refine ⟨henvelope, ⟨post₁, requestSlot, livenessResponses, indicesMap, post₂, hpost⟩, ?_⟩
  exact hviolation [sampleRegistration] [sampleQuietCall] 128 sampleViolatingResponses [(7, 1)] true
    _ 1 rfl (by decide) ⟨⟨7, 4, true⟩, by decide, rfl, 1, rfl, _, rfl, by decide⟩
    ⟨⟨7, 3, false⟩, by decide, rfl⟩ (by simp [sampleQuietCall])
    (by simp [sampleQuietCall, DoppelgangerCall.SlotInRange])

/-- The responses of `sampleViolatingResponses` behind one for index 9, which the indices map
does not know. -/
def sampleJunkResponses : LivenessResponses := ⟨[⟨7, 4, true⟩], [⟨9, 3, false⟩, ⟨7, 3, false⟩]⟩

/-- A violator found in a call whose loop aborts on a malformed response before it reaches the
previous-epoch response of validator 1, itself the violator: the call returns an error with the
states unchanged and no shutdown, and a later quiet epoch enables validator 1. -/
theorem junk_response_skips_marking :
    violators (runCalls 32 0 .empty [sampleRegistration]) [(7, 1)]
        (sampleJunkResponses.previousEpochResponses ++ sampleJunkResponses.currentEpochResponses) ≠
        [] ∧
      (processLivenessResponses 32 128 sampleJunkResponses [(7, 1)]).run
          (runCalls 32 0 .empty [sampleRegistration]) =
        .error (.inconsistentIndicesMap 9) (runCalls 32 0 .empty [sampleRegistration]) ∧
      (runCalls 32 0 .empty [sampleRegistration,
        .processLivenessResponses 128 sampleJunkResponses [(7, 1)], sampleQuietCall]).validatorStatus 1 =
        .signingEnabled 1 :=
  ⟨by decide, rfl, by decide⟩


/-! ## Detection rounds and progress -/

/-- A detection round changes the state of no validator whose checks are done: the indices map
holds only validators that still require checks, so no round of the loop reaches it. A
signing-enabled validator stays enabled whatever the beacon node answers, even when a
doppelganger of another validator is found. -/
theorem detectDoppelgangers_keeps_finished (slotsPerEpoch requestSlot : Nat)
    (getIndex : K → Option Nat) (getLiveness : Nat → List Nat → LivenessResponses)
    {self : DoppelgangerService K} {v : K} {st : DoppelgangerState} (hst : self.state v = some st)
    (hdone : st.remainingEpochs = 0) :
    ((detectDoppelgangers slotsPerEpoch requestSlot getIndex getLiveness).run self).state.state v =
      some st := by
  have hv : ∀ index, (self.computeDetectionIndicesMap getIndex).lookup index ≠ some v := by
    intro index hindex
    obtain ⟨st', hst', hpos⟩ := computeDetectionIndicesMap_lookup self getIndex hindex
    rw [hst] at hst'
    cases hst'
    omega
  rw [detectDoppelgangers, run_bind, run_get]
  dsimp only
  split
  · exact hst
  · rw [processLivenessResponses_state]
    exact Keeps.forM _ (fun response _ => keeps_state_processPreviousEpochResponse _ _ _ hv response)
      self hst

/-- The validators with an index: 1 is 7, the others 8. -/
def sampleGetIndex (pubkey : Nat) : Option Nat := if pubkey = 1 then some 7 else some 8

/-- Validator 2 registered at genesis, so not protected, next to validator 1: the beacon node then
reports a doppelganger of validator 1, and validator 2 keeps signing. -/
theorem detectDoppelgangers_keeps_finished_sample :
    ((detectDoppelgangers 32 128 sampleGetIndex fun _ _ => sampleViolatingResponses).run
      (runCalls 32 0 .empty [.registerNewValidator 2 (some 0), sampleRegistration])).state.state 2 =
      some ⟨1, 0⟩ :=
  detectDoppelgangers_keeps_finished 32 128 sampleGetIndex _ (by decide) rfl

/-- A call that returns `Ok` with no violator, at a slot past the end of the epoch after its
previous one, counts that epoch once for a validator with a response not live in it whose next
check is not past it: however many such responses the beacon node sent, the state is that of one
`complete_detection_in_epoch`. With the default of one epoch to check, the validator is then
signing-enabled. -/
theorem quiet_epoch_completes_one_check {slotsPerEpoch requestSlot : Nat}
    {livenessResponses : LivenessResponses} {indicesMap : List (Nat × K)}
    {self self' : DoppelgangerService K} {found : Bool}
    (hrun : (processLivenessResponses slotsPerEpoch requestSlot livenessResponses indicesMap).run
      self = .ok found self')
    (hslot : requestSlot < 2 ^ 64)
    (hquiet : ∀ r ∈ livenessResponses.previousEpochResponses ++
        livenessResponses.currentEpochResponses, r.isLive = true →
      ∀ pubkey, indicesMap.lookup r.index = some pubkey →
        ∀ st, self.state pubkey = some st → r.epoch < st.nextCheckEpoch)
    (hsatisfied : endSlot slotsPerEpoch (requestSlot / slotsPerEpoch - 1 + 1) ≤ requestSlot)
    {v : K} {st : DoppelgangerState} (hst : self.state v = some st)
    (hnext : st.nextCheckEpoch ≤ requestSlot / slotsPerEpoch - 1)
    (hresponse : ∃ r ∈ livenessResponses.previousEpochResponses,
      indicesMap.lookup r.index = some v ∧ r.isLive = false) :
    self'.state v = some (st.completeDetectionInEpoch (requestSlot / slotsPerEpoch - 1)) := by
  obtain ⟨hloop, -⟩ := processLivenessResponses_ok hrun
  have hprev : requestSlot / slotsPerEpoch - 1 < uMax 64 := by
    have := Nat.div_le_self requestSlot slotsPerEpoch
    unfold uMax
    omega
  have hvio : (!(violators self indicesMap (livenessResponses.previousEpochResponses ++
      livenessResponses.currentEpochResponses)).isEmpty) = false := by
    rw [(violators_eq_nil_iff self indicesMap _).2 hquiet]
    rfl
  have hsat : decide (endSlot slotsPerEpoch (uSaturatingAdd 64 (requestSlot / slotsPerEpoch - 1) 1) ≤
      requestSlot) = true := by
    rw [uSaturatingAdd_of_le (by omega)]
    exact decide_eq_true hsatisfied
  rw [hvio, hsat] at hloop
  rw [state_forM_ok _ _ _ indicesMap v _ self self' hloop, hst, foldl_afterResponse_quiet hprev _ st hnext]
  -- one of the responses kept for `v` is not live
  obtain ⟨r, hr, hindex, hlive⟩ := hresponse
  have hany : ((livenessResponses.previousEpochResponses.filter fun r =>
      indicesMap.lookup r.index == some v).any fun r => !r.isLive) = true :=
    List.any_eq_true.2 ⟨r, List.mem_filter.2 ⟨hr, by simp [hindex]⟩, by simp [hlive]⟩
  rw [if_pos hany]

/-- Validator 1, registered in epoch 2, reported twice not live in epoch 3 at the last slot of
epoch 4: one epoch is counted. -/
theorem quiet_epoch_completes_one_check_sample :
    ((processLivenessResponses 32 159 ⟨[], [⟨7, 3, false⟩, ⟨7, 3, false⟩]⟩ [(7, 1)]).run
      (runCalls 32 0 .empty [sampleRegistration])).state.state 1 =
      some ((⟨3, 1⟩ : DoppelgangerState).completeDetectionInEpoch (159 / 32 - 1)) :=
  @quiet_epoch_completes_one_check _ _ 32 159 ⟨[], [⟨7, 3, false⟩, ⟨7, 3, false⟩]⟩ [(7, 1)] (runCalls 32 0 .empty [sampleRegistration])
    _ false rfl (by decide)
    (fun r hr hlive => by
      simp only [List.append_nil, List.mem_cons, List.not_mem_nil, or_false, or_self] at hr
      subst hr
      cases hlive)
    (by decide) _ _ (by decide) (by decide) ⟨⟨7, 3, false⟩, List.mem_cons_self, rfl, rfl⟩

end Vibehouse.ValidatorClient
