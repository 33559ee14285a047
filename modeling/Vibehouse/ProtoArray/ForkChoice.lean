import Vibehouse.ProtoArray.GloasHead
import Vibehouse.ForkChoice.GloasHandlers

/-! # `ProtoArrayForkChoice`

The methods of `ProtoArrayForkChoice` (`proto_array_fork_choice.rs`) that change it: `new`,
`process_block`, the payload validation and invalidation, `find_head` with its Gloas and
pre-Gloas branches, and `maybe_prune`. Each returns `Result<_, String>`; the strings are the
constructors of `ForkChoiceError`. A failed call keeps what it changed before the error, as in
the source. -/

namespace Vibehouse

/-- The reusable balances of `JustifiedBalances::default()`. -/
instance : Inhabited JustifiedBalances := ⟨⟨[], 0, 0⟩⟩

namespace ProtoArrayForkChoice

/-- A `&mut self` method of `ProtoArrayForkChoice`. -/
abbrev FcM := EStateM ForkChoiceError ProtoArrayForkChoice

/-- Run a `&mut self` method of the inner `ProtoArray`, formatting its error with `f`. -/
def liftProtoArray {α : Type} (f : Error → ForkChoiceError) (m : ProtoArray.M α) : FcM α :=
  fun fc => match m.run fc.protoArray with
    | .ok a pa => .ok a { fc with protoArray := pa }
    | .error e pa => .error (f e) { fc with protoArray := pa }

@[simp] theorem run_liftProtoArray {α : Type} (f : Error → ForkChoiceError) (m : ProtoArray.M α)
    (fc : ProtoArrayForkChoice) :
    (liftProtoArray f m).run fc =
      match m.run fc.protoArray with
      | .ok a pa => .ok a { fc with protoArray := pa }
      | .error e pa => .error (f e) { fc with protoArray := pa } := rfl

/-- The `DEFAULT_PRUNE_THRESHOLD` of a new proto-array. -/
def defaultPruneThreshold : Nat := 256

/-- `ProtoArrayForkChoice::new(current_slot, finalized_block_slot, _, justified_checkpoint,
finalized_checkpoint, _, _, execution_status)`: the finalized block alone. -/
def new (spe : Nat) (currentSlot finalizedBlockSlot : Slot)
    (justifiedCheckpoint finalizedCheckpoint : Checkpoint) (executionStatus : ExecutionStatus) :
    Except ForkChoiceError ProtoArrayForkChoice :=
  let protoArray : ProtoArray :=
    { pruneThreshold := defaultPruneThreshold, justifiedCheckpoint, finalizedCheckpoint,
      nodes := [], indices := [], previousProposerBoost := default }
  let block : Block :=
    { slot := finalizedBlockSlot, root := finalizedCheckpoint.root, parentRoot := none,
      justifiedCheckpoint, finalizedCheckpoint, executionStatus,
      unrealizedJustifiedCheckpoint := some justifiedCheckpoint,
      unrealizedFinalizedCheckpoint := some finalizedCheckpoint,
      builderIndex := none, payloadRevealed := false, ptcWeight := 0,
      ptcBlobDataAvailableWeight := 0, payloadDataAvailable := false, bidBlockHash := none,
      bidParentBlockHash := none, proposerIndex := 0, ptcTimely := false,
      envelopeReceived := false, inclusionListSatisfied := false }
  match (ProtoArray.onBlock spe block currentSlot).run protoArray with
  | .ok _ protoArray => pure { protoArray, votes := [], balances := default, gloasHeadPayloadStatus := none }
  | .error e _ => throw (.addFinalizedBlockFailed e)

/-- `process_execution_payload_validation(block_root)`. -/
def processExecutionPayloadValidation (blockRoot : Hash256) : FcM Unit :=
  liftProtoArray .processValidPayloadFailed (ProtoArray.propagateExecutionPayloadValidation blockRoot)

/-- `process_execution_payload_invalidation(op)`. -/
def processExecutionPayloadInvalidation (spe : Nat) (op : InvalidationOperation) : FcM Unit :=
  liftProtoArray .processInvalidPayloadFailed (ProtoArray.propagateExecutionPayloadInvalidation spe op)

/-- `process_block(block, current_slot)`. -/
def processBlock (spe : Nat) (block : Block) (currentSlot : Slot) : FcM Unit :=
  if block.parentRoot.isNone then throw .missingParentRoot
  else liftProtoArray .processBlockError (ProtoArray.onBlock spe block currentSlot)

/-- `find_head(justified_checkpoint, finalized_checkpoint, justified_state_balances,
proposer_boost_root, equivocating_indices, current_slot, spec)`. The equivocating indices, a
`BTreeSet`, are listed in increasing order. -/
def findHead (spec : ChainSpec) (justifiedCheckpoint finalizedCheckpoint : Checkpoint)
    (justifiedStateBalances : JustifiedBalances) (proposerBoostRoot : Hash256)
    (equivocatingIndices : List Nat) (currentSlot : Slot) : FcM Hash256 := do
  let newBalances := justifiedStateBalances
  let isGloas := spec.gloasForkEpoch.any fun forkEpoch => epochOf spec.slotsPerEpoch currentSlot ≥ forkEpoch
  if isGloas then
    -- only the vote side effects of `compute_deltas`: the weights are computed top-down
    modify fun fc =>
      let votes := applyVoteUpdates fc.votes fc.balances.effectiveBalances
        newBalances.effectiveBalances equivocatingIndices
      { fc with votes := votes }
    modify fun fc =>
      let protoArray := { fc.protoArray with justifiedCheckpoint, finalizedCheckpoint }
      { fc with protoArray := protoArray }
    modify (·.maybeUpdateBalances newBalances)
    let fc ← get
    let head ← liftExcept
      (fc.findHeadGloas spec justifiedCheckpoint proposerBoostRoot equivocatingIndices currentSlot)
    set { fc with gloasHeadPayloadStatus := some head.payloadStatus.toU8 }
    return head.root
  let fc ← get
  let (deltas, votes) := computeDeltas fc.protoArray.indices fc.votes fc.balances.effectiveBalances
    newBalances.effectiveBalances equivocatingIndices
  set { fc with votes := votes }
  let deltas ← match deltas with
    | .ok deltas => pure deltas
    | .error e => throw (.computeDeltasFailed e)
  liftProtoArray .applyScoreChangesFailed (ProtoArray.applyScoreChanges spec deltas
    justifiedCheckpoint finalizedCheckpoint newBalances proposerBoostRoot currentSlot)
  modify (·.maybeUpdateBalances newBalances)
  modify fun fc => { fc with gloasHeadPayloadStatus := none }
  let fc ← get
  match fc.protoArray.findHead spec.slotsPerEpoch justifiedCheckpoint.root currentSlot with
  | .ok head => pure head
  | .error e => throw (.findHeadFailed e)

/-- Whether `find_head` takes the Gloas branch at `current_slot`. -/
def IsGloas (spec : ChainSpec) (currentSlot : Slot) : Prop :=
  spec.gloasForkEpoch.any (fun forkEpoch => epochOf spec.slotsPerEpoch currentSlot ≥ forkEpoch) = true

instance (spec : ChainSpec) (currentSlot : Slot) : Decidable (IsGloas spec currentSlot) :=
  inferInstanceAs (Decidable (_ = true))

/-- The state the Gloas branch of `find_head` hands to `find_head_gloas`: votes updated,
checkpoints set, balances maybe refreshed. -/
def gloasPrepare (fc : ProtoArrayForkChoice) (justifiedCheckpoint finalizedCheckpoint : Checkpoint)
    (newBalances : JustifiedBalances) (equivocatingIndices : List Nat) : ProtoArrayForkChoice :=
  let votes := applyVoteUpdates fc.votes fc.balances.effectiveBalances newBalances.effectiveBalances
    equivocatingIndices
  let protoArray := { fc.protoArray with justifiedCheckpoint, finalizedCheckpoint }
  { fc with votes, protoArray }.maybeUpdateBalances newBalances

section findHead

variable {spec : ChainSpec} {justifiedCheckpoint finalizedCheckpoint : Checkpoint}
  {newBalances : JustifiedBalances} {proposerBoostRoot : Hash256} {equivocatingIndices : List Nat}
  {currentSlot : Slot}

theorem findHead_run_of_isGloas (fc : ProtoArrayForkChoice) (h : IsGloas spec currentSlot) :
    (findHead spec justifiedCheckpoint finalizedCheckpoint newBalances proposerBoostRoot
        equivocatingIndices currentSlot).run fc =
      let fc₁ := gloasPrepare fc justifiedCheckpoint finalizedCheckpoint newBalances equivocatingIndices
      match fc₁.findHeadGloas spec justifiedCheckpoint proposerBoostRoot equivocatingIndices currentSlot with
      | .ok head => .ok head.root { fc₁ with gloasHeadPayloadStatus := some head.payloadStatus.toU8 }
      | .error e => .error e fc₁ := by
  unfold IsGloas at h
  simp only [findHead, h, if_true]
  cases hg : (gloasPrepare fc justifiedCheckpoint finalizedCheckpoint newBalances
      equivocatingIndices).findHeadGloas spec justifiedCheckpoint proposerBoostRoot
      equivocatingIndices currentSlot <;>
    simp only [gloasPrepare] at hg <;>
    simp [gloasPrepare, hg]

/-- The state the pre-Gloas branch of `find_head` reaches after `apply_score_changes` succeeded. -/
def preGloasFinish (fc : ProtoArrayForkChoice) (newBalances : JustifiedBalances) :
    ProtoArrayForkChoice :=
  { fc.maybeUpdateBalances newBalances with gloasHeadPayloadStatus := none }

theorem findHead_run_of_not_isGloas (fc : ProtoArrayForkChoice) (h : ¬ IsGloas spec currentSlot) :
    (findHead spec justifiedCheckpoint finalizedCheckpoint newBalances proposerBoostRoot
        equivocatingIndices currentSlot).run fc =
      let r := computeDeltas fc.protoArray.indices fc.votes fc.balances.effectiveBalances
        newBalances.effectiveBalances equivocatingIndices
      let fc₁ := { fc with votes := r.2 }
      match r.1 with
      | .error e => .error (.computeDeltasFailed e) fc₁
      | .ok deltas =>
        match (ProtoArray.applyScoreChanges spec deltas justifiedCheckpoint finalizedCheckpoint
            newBalances proposerBoostRoot currentSlot).run fc₁.protoArray with
        | .error e pa => .error (.applyScoreChangesFailed e) { fc₁ with protoArray := pa }
        | .ok _ pa =>
          let fc₂ := preGloasFinish { fc₁ with protoArray := pa } newBalances
          match fc₂.protoArray.findHead spec.slotsPerEpoch justifiedCheckpoint.root currentSlot with
          | .ok head => .ok head fc₂
          | .error e => .error (.findHeadFailed e) fc₂ := by
  unfold IsGloas at h
  simp only [findHead, h, Bool.false_eq_true, if_false]
  rcases hd : computeDeltas fc.protoArray.indices fc.votes fc.balances.effectiveBalances
      newBalances.effectiveBalances equivocatingIndices with ⟨_ | deltas, votes⟩
  · simp [hd]
  · cases hs : (ProtoArray.applyScoreChanges spec deltas justifiedCheckpoint finalizedCheckpoint
        newBalances proposerBoostRoot currentSlot).run fc.protoArray with
    | error e pa => simp [hd, hs]
    | ok _ pa =>
      cases hf : (preGloasFinish { fc with votes := votes, protoArray := pa } newBalances).protoArray.findHead
          spec.slotsPerEpoch justifiedCheckpoint.root currentSlot <;>
        simp only [preGloasFinish, maybeUpdateBalances_protoArray] at hf <;>
        simp [hd, hs, hf, preGloasFinish]

end findHead

/-- `maybe_prune(finalized_root)`. -/
def maybePrune (finalizedRoot : Hash256) : FcM Unit :=
  liftProtoArray .maybePruneFailed (ProtoArray.maybePrune finalizedRoot)

/-! ## Runs -/

/-- The calls that change a `ProtoArrayForkChoice`, with their arguments: its own methods, and
the Gloas handlers of `ForkChoice` that write its proto-array. -/
inductive Operation where
  | processBlock (block : Block) (currentSlot : Slot)
  | processAttestation (validatorIndex : Nat) (blockRoot : Hash256) (targetEpoch : Epoch)
      (slot : Slot) (payloadPresent : Bool)
  | findHead (justifiedCheckpoint finalizedCheckpoint : Checkpoint)
      (justifiedStateBalances : JustifiedBalances) (proposerBoostRoot : Hash256)
      (equivocatingIndices : List Nat) (currentSlot : Slot)
  | processExecutionPayloadValidation (blockRoot : Hash256)
  | processExecutionPayloadInvalidation (op : InvalidationOperation)
  | maybePrune (finalizedRoot : Hash256)
  | onExecutionBid (bidSlot : Slot) (builderIndex : BuilderIndex) (beaconBlockRoot : Hash256)
  | onPayloadAttestation (slot : Slot) (beaconBlockRoot : Hash256)
      (payloadPresent blobDataAvailable : Bool) (attestingIndices : List Nat) (currentSlot : Slot)
  | onExecutionPayload (beaconBlockRoot : Hash256) (payloadBlockHash : ExecutionBlockHash)
      (inclusionListSatisfied : Bool)

/-- The state after the call `op` under `spec`, whether it succeeded or not. -/
def Operation.apply (spec : ChainSpec) (fc : ProtoArrayForkChoice) : Operation → ProtoArrayForkChoice
  | .processBlock block currentSlot =>
    ((ProtoArrayForkChoice.processBlock spec.slotsPerEpoch block currentSlot).run fc).state
  | .processAttestation validatorIndex blockRoot targetEpoch slot payloadPresent =>
    fc.processAttestation validatorIndex blockRoot targetEpoch slot payloadPresent
  | .findHead justifiedCheckpoint finalizedCheckpoint balances proposerBoostRoot
      equivocatingIndices currentSlot =>
    ((ProtoArrayForkChoice.findHead spec justifiedCheckpoint finalizedCheckpoint balances
      proposerBoostRoot equivocatingIndices currentSlot).run fc).state
  | .processExecutionPayloadValidation blockRoot =>
    ((ProtoArrayForkChoice.processExecutionPayloadValidation blockRoot).run fc).state
  | .processExecutionPayloadInvalidation op =>
    ((ProtoArrayForkChoice.processExecutionPayloadInvalidation spec.slotsPerEpoch op).run fc).state
  | .maybePrune finalizedRoot => ((ProtoArrayForkChoice.maybePrune finalizedRoot).run fc).state
  | .onExecutionBid bidSlot builderIndex beaconBlockRoot =>
    { fc with protoArray :=
        ((ForkChoice.onExecutionBid bidSlot builderIndex beaconBlockRoot).run fc.protoArray).state }
  | .onPayloadAttestation slot beaconBlockRoot payloadPresent blobDataAvailable attestingIndices
      currentSlot =>
    { fc with protoArray := ((ForkChoice.onPayloadAttestation spec.slotsPerEpoch spec.ptcSize slot
        beaconBlockRoot payloadPresent blobDataAvailable attestingIndices currentSlot).run fc.protoArray).state }
  | .onExecutionPayload beaconBlockRoot payloadBlockHash inclusionListSatisfied =>
    { fc with protoArray := ((ForkChoice.onExecutionPayload beaconBlockRoot payloadBlockHash
        inclusionListSatisfied).run fc.protoArray).state }

/-- The state after the calls `ops`, in order. -/
def applyAll (spec : ChainSpec) (fc : ProtoArrayForkChoice) (ops : List Operation) :
    ProtoArrayForkChoice :=
  ops.foldl (Operation.apply spec) fc

end ProtoArrayForkChoice
end Vibehouse
