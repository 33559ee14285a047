import Vibehouse.ProtoArray.Operations

/-! # Votes and the fork-choice wrapper

`VoteTracker`, the growing vote table (`ElasticList`), `ProtoArrayForkChoice` and its vote
handling in `proto_array_fork_choice.rs`: `process_attestation`, which records the latest
message of a validator in the `next_*` fields; `compute_deltas`, which moves `next_*` into
`current_*` and turns every change of vote or balance into weight deltas (pre-Gloas);
`apply_vote_updates`, the same moves without the deltas (Gloas); `maybe_update_balances`.

The reusable buffers of `ProtoArrayForkChoice` only serve `find_head_gloas` and are rebuilt by
it; they are not part of the state here. -/

namespace Vibehouse

/-- `VoteTracker`: the vote in force (`current_*`) and the latest message (`next_*`). -/
structure VoteTracker where
  currentRoot : Hash256 := 0
  nextRoot : Hash256 := 0
  nextEpoch : Epoch := 0
  currentSlot : Slot := 0
  nextSlot : Slot := 0
  currentPayloadPresent : Bool := false
  nextPayloadPresent : Bool := false
  deriving DecidableEq, Repr

instance : Inhabited VoteTracker := ⟨{}⟩

/-- The vote table of `ProtoArrayForkChoice`: `ElasticList<VoteTracker>`. -/
abbrev ElasticList (α : Type) := List α

namespace ElasticList

/-- `ElasticList::ensure`: grow with defaults so that position `i` exists. -/
def ensure {α : Type} [Inhabited α] (l : ElasticList α) (i : Nat) : ElasticList α :=
  if l.length ≤ i then l ++ List.replicate (i + 1 - l.length) default else l

end ElasticList

structure ProtoArrayForkChoice where
  protoArray : ProtoArray
  votes : ElasticList VoteTracker
  balances : JustifiedBalances
  /-- `0 = EMPTY, 1 = FULL, 2 = PENDING`; `None` for pre-Gloas heads. -/
  gloasHeadPayloadStatus : Option Nat
  deriving DecidableEq, Repr

/-- The `String` errors of the methods of `ProtoArrayForkChoice`, one constructor per
message, with the error it formats. -/
inductive ForkChoiceError where
  /-- `"Failed to add finalized block to proto_array: {e:?}"` -/
  | addFinalizedBlockFailed (e : Error)
  /-- `"Failed to process valid payload: {e:?}"` -/
  | processValidPayloadFailed (e : Error)
  /-- `"Failed to process invalid payload: {e:?}"` -/
  | processInvalidPayloadFailed (e : Error)
  /-- `"Missing parent root"` -/
  | missingParentRoot
  /-- `"process_block_error: {e:?}"` -/
  | processBlockError (e : Error)
  /-- `"find_head compute_deltas failed: {e:?}"` -/
  | computeDeltasFailed (e : Error)
  /-- `"find_head apply_score_changes failed: {e:?}"` -/
  | applyScoreChangesFailed (e : Error)
  /-- `"find_head failed: {e:?}"` -/
  | findHeadFailed (e : Error)
  /-- `"find_head_gloas: no children despite non-empty check"` -/
  | noChildren
  /-- `"find_head maybe_prune failed: {e:?}"` -/
  | maybePruneFailed (e : Error)
  deriving DecidableEq, Repr

/-- The move of `next_*` into `current_*` made by `compute_deltas` and `apply_vote_updates`
when the root or the balance changed. -/
def VoteTracker.advance (vote : VoteTracker) : VoteTracker :=
  { vote with currentRoot := vote.nextRoot, currentSlot := vote.nextSlot,
              currentPayloadPresent := vote.nextPayloadPresent }

namespace ProtoArrayForkChoice

open MachineInt

/-- `process_attestation(validator_index, block_root, target_epoch, slot, payload_present)`:
a message with a newer target epoch (or the first one) becomes the latest message. -/
def processAttestation (fc : ProtoArrayForkChoice) (validatorIndex : Nat) (blockRoot : Hash256)
    (targetEpoch : Epoch) (slot : Slot) (payloadPresent : Bool) : ProtoArrayForkChoice :=
  let votes := fc.votes.ensure validatorIndex
  let vote := votes[validatorIndex]?.getD default
  if targetEpoch > vote.nextEpoch ∨ vote = default then
    let vote := { vote with nextRoot := blockRoot, nextEpoch := targetEpoch, nextSlot := slot,
                            nextPayloadPresent := payloadPresent }
    { fc with votes := votes.set validatorIndex vote }
  else { fc with votes := votes }

/-- The effect of `apply_vote_updates` on one vote of validator `valIndex`. -/
def applyVoteUpdate (oldBalances newBalances : List Nat) (equivocatingIndices : List Nat)
    (valIndex : Nat) (vote : VoteTracker) : VoteTracker :=
  if vote.currentRoot = 0 ∧ vote.nextRoot = 0 then vote
  else if valIndex ∈ equivocatingIndices then
    if vote.currentRoot ≠ 0 then { vote with currentRoot := 0 } else vote
  else
    let oldBalance := oldBalances[valIndex]?.getD 0
    let newBalance := newBalances[valIndex]?.getD 0
    if vote.currentRoot ≠ vote.nextRoot ∨ oldBalance ≠ newBalance then vote.advance
    else vote

/-- `apply_vote_updates(votes, old_balances, new_balances, equivocating_indices)`. -/
def applyVoteUpdates (votes : ElasticList VoteTracker) (oldBalances newBalances : List Nat)
    (equivocatingIndices : List Nat) : ElasticList VoteTracker :=
  votes.mapIdx (applyVoteUpdate oldBalances newBalances equivocatingIndices)

/-- `deltas[index] = deltas[index].checked_sub(amount)` (or `checked_add`), failing on a
missing index (`InvalidNodeDelta`) or an `i64` overflow (`DeltaOverflow`). -/
def addToDelta (deltas : List Int) (index : Nat) (amount : Int) : Except Error (List Int) :=
  match deltas[index]? with
  | none => throw (.invalidNodeDelta index)
  | some delta =>
    match sCheckedAdd 63 delta amount with
    | none => throw (.deltaOverflow index)
    | some delta => pure (deltas.set index delta)

/-- `if let Some(i) = indices.get(root) { deltas[i] = deltas[i].checked_add(amount)? }`: a
root outside the tree (before finalization) changes no delta. -/
def addToDeltaOf (indices : List (Hash256 × Nat)) (deltas : List Int) (root : Hash256)
    (amount : Int) : Except Error (List Int) :=
  match indices.lookup root with
  | some deltaIndex => addToDelta deltas deltaIndex amount
  | none => pure deltas

/-- One iteration of `compute_deltas`, for the vote of validator `valIndex`: the new deltas and
the new vote. An error leaves this vote as it was. -/
def computeDelta (indices : List (Hash256 × Nat)) (oldBalances newBalances : List Nat)
    (equivocatingIndices : List Nat) (valIndex : Nat) (vote : VoteTracker) (deltas : List Int) :
    Except Error (List Int × VoteTracker) :=
  let oldBalance := oldBalances[valIndex]?.getD 0
  let newBalance := newBalances[valIndex]?.getD 0
  -- no vote, or both votes for the zero hash (an alias of genesis)
  if vote.currentRoot = 0 ∧ vote.nextRoot = 0 then pure (deltas, vote)
  else if valIndex ∈ equivocatingIndices then
    -- the first time a slashing is seen its weight is removed, once
    if vote.currentRoot ≠ 0 then do
      let deltas ← addToDeltaOf indices deltas vote.currentRoot (-(uAsSigned 63 oldBalance))
      pure (deltas, { vote with currentRoot := 0 })
    else pure (deltas, vote)
  else if vote.currentRoot ≠ vote.nextRoot ∨ oldBalance ≠ newBalance then do
    let deltas ← addToDeltaOf indices deltas vote.currentRoot (-(uAsSigned 63 oldBalance))
    let deltas ← addToDeltaOf indices deltas vote.nextRoot (uAsSigned 63 newBalance)
    pure (deltas, vote.advance)
  else pure (deltas, vote)

/-- The loop of `compute_deltas` over the votes from validator `valIndex` on: the result and
the votes, which keep the updates made before an error. -/
def computeDeltasFrom (indices : List (Hash256 × Nat)) (oldBalances newBalances : List Nat)
    (equivocatingIndices : List Nat) :
    Nat → List VoteTracker → List Int → Except Error (List Int) × List VoteTracker
  | _, [], deltas => (.ok deltas, [])
  | valIndex, vote :: votes, deltas =>
    match computeDelta indices oldBalances newBalances equivocatingIndices valIndex vote deltas with
    | .error e => (.error e, vote :: votes)
    | .ok (deltas, vote) =>
      let (result, votes) :=
        computeDeltasFrom indices oldBalances newBalances equivocatingIndices (valIndex + 1) votes deltas
      (result, vote :: votes)

/-- `compute_deltas(indices, votes, old_balances, new_balances, equivocating_indices)`: one
delta per index entry, and the updated votes. -/
def computeDeltas (indices : List (Hash256 × Nat)) (votes : ElasticList VoteTracker)
    (oldBalances newBalances : List Nat) (equivocatingIndices : List Nat) :
    Except Error (List Int) × ElasticList VoteTracker :=
  computeDeltasFrom indices oldBalances newBalances equivocatingIndices 0 votes
    (List.replicate indices.length 0)

/-- `maybe_update_balances`: the stored balances are replaced only when the length, the total
or the number of active validators differs. -/
def maybeUpdateBalances (fc : ProtoArrayForkChoice) (newBalances : JustifiedBalances) :
    ProtoArrayForkChoice :=
  if fc.balances.effectiveBalances.length ≠ newBalances.effectiveBalances.length ∨
      fc.balances.totalEffectiveBalance ≠ newBalances.totalEffectiveBalance ∨
      fc.balances.numActiveValidators ≠ newBalances.numActiveValidators then
    { fc with balances := newBalances }
  else fc

@[simp] theorem maybeUpdateBalances_votes (fc : ProtoArrayForkChoice) (newBalances : JustifiedBalances) :
    (fc.maybeUpdateBalances newBalances).votes = fc.votes := by
  unfold maybeUpdateBalances; split_ifs <;> rfl

theorem maybeUpdateBalances_balances (fc : ProtoArrayForkChoice) (newBalances : JustifiedBalances) :
    (fc.maybeUpdateBalances newBalances).balances =
      if fc.balances.effectiveBalances.length ≠ newBalances.effectiveBalances.length ∨
          fc.balances.totalEffectiveBalance ≠ newBalances.totalEffectiveBalance ∨
          fc.balances.numActiveValidators ≠ newBalances.numActiveValidators then newBalances
      else fc.balances := by
  unfold maybeUpdateBalances; split_ifs <;> rfl

@[simp] theorem maybeUpdateBalances_protoArray (fc : ProtoArrayForkChoice)
    (newBalances : JustifiedBalances) :
    (fc.maybeUpdateBalances newBalances).protoArray = fc.protoArray := by
  unfold maybeUpdateBalances; split_ifs <;> rfl

end ProtoArrayForkChoice
end Vibehouse
