import Vibehouse.ProtoArray.Execution

/-! # The operations of the proto-array

`on_block`, `apply_score_changes`, `find_head` and `maybe_prune` of `proto_array.rs`, and
`calculate_committee_fraction`.

Each loop of the source is a recursive function of its own, named for what one pass does:
`applyDeltasDownFrom` and `updateBestDownFrom` are the two backwards loops of
`apply_score_changes` (positions `n - 1` down to `0`), and `removeIndices` and
`shiftLinksFrom` the loops of `maybe_prune`. Signed deltas are `i64`: `checked_*` on them fail
outside `[-2 ^ 63, 2 ^ 63)`, the unchecked `+=` on a parent's delta wraps. Weights are `u64`. -/

namespace Vibehouse

open MachineInt

/-- `calculate_committee_fraction`: the proposer boost for a committee of the given balances. -/
def calculateCommitteeFraction (spe : Nat) (justifiedBalances : JustifiedBalances)
    (proposerScoreBoost : Nat) : Option Nat := do
  let committeeWeight ← uCheckedDiv justifiedBalances.totalEffectiveBalance spe
  let boosted ← uCheckedMul 64 committeeWeight proposerScoreBoost
  uCheckedDiv boosted 100

/-- The node `on_block` stores for `block`, with parent position `parent`. -/
def Block.toNode (block : Block) (parent : Option Nat) : ProtoNode where
  slot := block.slot
  root := block.root
  parent := parent
  justifiedCheckpoint := block.justifiedCheckpoint
  finalizedCheckpoint := block.finalizedCheckpoint
  weight := 0
  bestChild := none
  bestDescendant := none
  executionStatus := block.executionStatus
  unrealizedJustifiedCheckpoint := block.unrealizedJustifiedCheckpoint
  unrealizedFinalizedCheckpoint := block.unrealizedFinalizedCheckpoint
  builderIndex := block.builderIndex
  payloadRevealed := block.payloadRevealed
  ptcWeight := block.ptcWeight
  ptcBlobDataAvailableWeight := block.ptcBlobDataAvailableWeight
  payloadDataAvailable := block.payloadDataAvailable
  bidBlockHash := block.bidBlockHash
  bidParentBlockHash := block.bidParentBlockHash
  proposerIndex := block.proposerIndex
  ptcTimely := block.ptcTimely
  envelopeReceived := block.envelopeReceived
  inclusionListSatisfied := block.inclusionListSatisfied

@[simp] theorem Block.toNode_root (block : Block) (parent : Option Nat) :
    (block.toNode parent).root = block.root := rfl

@[simp] theorem Block.toNode_parent (block : Block) (parent : Option Nat) :
    (block.toNode parent).parent = parent := rfl

@[simp] theorem Block.toNode_bestChild (block : Block) (parent : Option Nat) :
    (block.toNode parent).bestChild = none := rfl

@[simp] theorem Block.toNode_bestDescendant (block : Block) (parent : Option Nat) :
    (block.toNode parent).bestDescendant = none := rfl

namespace ProtoArray

/-- `on_block(block, current_slot)`. -/
def onBlock (spe : Nat) (block : Block) (currentSlot : Slot) : M Unit := do
  let s ← get
  -- a known block is ignored
  if (s.getIndex block.root).isSome then return ()
  let nodeIndex := s.nodes.length
  let node := block.toNode (block.parentRoot.bind s.getIndex)
  -- a child of an invalid block is rejected before anything is stored
  if let some parentIndex := node.parent then
    let parent ← okOr (s.getNode parentIndex) (.invalidNodeIndex parentIndex)
    if parent.executionStatus.isInvalid then
      throw (.parentExecutionStatusIsInvalid block.root parent.root)
  -- `indices.insert` of a key that is not present
  set { s with indices := (node.root, nodeIndex) :: s.indices, nodes := s.nodes ++ [node] }
  if let some parentIndex := node.parent then
    maybeUpdateBestChildAndDescendant spe parentIndex nodeIndex currentSlot
    if let .valid _ := block.executionStatus then
      propagateExecutionPayloadValidationByIndex parentIndex

/-! ## `apply_score_changes` -/

section scoreChanges

variable (spec : ChainSpec) (newJustifiedBalances : JustifiedBalances) (proposerBoostRoot : Hash256)

/-- The arithmetic of one iteration of the first loop of `apply_score_changes` for `node` at
`nodeIndex`: its delta once the previous boost is removed and the current one added, the
proposer score, and its new weight. -/
def nodeDeltaAndWeight (s : ProtoArray) (node : ProtoNode) (nodeIndex : Nat) (deltas : List Int)
    (proposerScore : Nat) : Except Error (Int × Nat × Nat) := do
  let executionStatusIsInvalid := node.executionStatus.isInvalid
  let nodeDelta ←
    if executionStatusIsInvalid then
      (sCheckedSub 63 0 (uAsSigned 63 node.weight)).elim (throw (.invalidExecutionDeltaOverflow nodeIndex)) pure
    else deltas[nodeIndex]?.elim (throw (.invalidNodeDelta nodeIndex)) pure
  -- remove the boost applied at the previous call
  let nodeDelta ←
    if s.previousProposerBoost.root ≠ 0 ∧ s.previousProposerBoost.root = node.root ∧
        !executionStatusIsInvalid then
      (sCheckedSub 63 nodeDelta (uAsSigned 63 s.previousProposerBoost.score)).elim
        (throw (.deltaOverflow nodeIndex)) pure
    else pure nodeDelta
  -- add the current boost
  let (nodeDelta, proposerScore) ←
    match spec.proposerScoreBoost with
    | some proposerScoreBoost =>
      if proposerBoostRoot ≠ 0 ∧ proposerBoostRoot = node.root ∧ !executionStatusIsInvalid then do
        let proposerScore ←
          (calculateCommitteeFraction spec.slotsPerEpoch newJustifiedBalances proposerScoreBoost).elim
            (throw (.proposerBoostOverflow nodeIndex)) pure
        let nodeDelta ← (sCheckedAdd 63 nodeDelta (uAsSigned 63 proposerScore)).elim
          (throw (.deltaOverflow nodeIndex)) pure
        pure (nodeDelta, proposerScore)
      else pure (nodeDelta, proposerScore)
    | none => pure (nodeDelta, proposerScore)
  let weight ←
    if executionStatusIsInvalid then pure 0
    else if nodeDelta < 0 then
      (uCheckedSub node.weight nodeDelta.natAbs).elim (throw (.deltaOverflow nodeIndex)) pure
    else (uCheckedAdd 64 node.weight nodeDelta.toNat).elim (throw (.deltaOverflow nodeIndex)) pure
  pure (nodeDelta, proposerScore, weight)

/-- One iteration of the first loop of `apply_score_changes`: apply the delta of the node at
`nodeIndex` to its weight and pass it on to its parent's delta. Returns the deltas and the
proposer score. -/
def applyNodeDelta (nodeIndex : Nat) (deltas : List Int) (proposerScore : Nat) :
    M (List Int × Nat) := do
  let s ← get
  let node ← okOr (s.getNode nodeIndex) (.invalidNodeIndex nodeIndex)
  -- the zero hash aliases the genesis block, whose weight is irrelevant
  if node.root = 0 then return (deltas, proposerScore)
  let (nodeDelta, proposerScore, weight) ←
    liftExcept (nodeDeltaAndWeight spec newJustifiedBalances proposerBoostRoot s node nodeIndex deltas
      proposerScore)
  set (s.setNode nodeIndex { node with weight := weight })
  match node.parent with
  | none => pure (deltas, proposerScore)
  | some parentIndex =>
    let parentDelta ← okOr deltas[parentIndex]? (.invalidParentDelta parentIndex)
    pure (deltas.set parentIndex (sWrap 63 (parentDelta + nodeDelta)), proposerScore)

/-- The first loop of `apply_score_changes`, over positions `n - 1` down to `0`. -/
def applyDeltasDownFrom : Nat → List Int → Nat → M (List Int × Nat)
  | 0, deltas, proposerScore => pure (deltas, proposerScore)
  | n + 1, deltas, proposerScore => do
    let (deltas, proposerScore) ← applyNodeDelta spec newJustifiedBalances proposerBoostRoot n
      deltas proposerScore
    applyDeltasDownFrom n deltas proposerScore

end scoreChanges

/-- The second loop of `apply_score_changes`, over positions `n - 1` down to `0`: every node
with a parent offers itself as the parent's best child. -/
def updateBestDownFrom (spe : Nat) (currentSlot : Slot) : Nat → M Unit
  | 0 => pure ()
  | n + 1 => do
    let s ← get
    let node ← okOr (s.getNode n) (.invalidNodeIndex n)
    if let some parentIndex := node.parent then
      maybeUpdateBestChildAndDescendant spe parentIndex n currentSlot
    updateBestDownFrom spe currentSlot n

/-- `apply_score_changes(deltas, justified_checkpoint, finalized_checkpoint,
new_justified_balances, proposer_boost_root, current_slot)`. -/
def applyScoreChanges (spec : ChainSpec) (deltas : List Int)
    (justifiedCheckpoint finalizedCheckpoint : Checkpoint)
    (newJustifiedBalances : JustifiedBalances) (proposerBoostRoot : Hash256) (currentSlot : Slot) :
    M Unit := do
  let s ← get
  if deltas.length ≠ s.indices.length then
    throw (.invalidDeltaLen deltas.length s.indices.length)
  -- the source writes the checkpoints only when one differs, which is the same
  set { s with justifiedCheckpoint := justifiedCheckpoint, finalizedCheckpoint := finalizedCheckpoint }
  let (_, proposerScore) ← applyDeltasDownFrom spec newJustifiedBalances proposerBoostRoot
    s.nodes.length deltas 0
  modify fun s => { s with previousProposerBoost := ⟨proposerBoostRoot, proposerScore⟩ }
  updateBestDownFrom spec.slotsPerEpoch currentSlot s.nodes.length

/-! ## `find_head` -/

/-- `find_head(justified_root, current_slot)`: the best descendant of the justified node. -/
def findHead (s : ProtoArray) (spe : Nat) (justifiedRoot : Hash256) (currentSlot : Slot) :
    Except Error Hash256 := do
  let some justifiedIndex := s.getIndex justifiedRoot | throw (.justifiedNodeUnknown justifiedRoot)
  let some justifiedNode := s.getNode justifiedIndex | throw (.invalidJustifiedIndex justifiedIndex)
  if justifiedNode.executionStatus.isInvalid then
    throw (.invalidJustifiedCheckpointExecutionStatus justifiedRoot)
  let bestDescendantIndex := justifiedNode.bestDescendant.getD justifiedIndex
  let some bestNode := s.getNode bestDescendantIndex | throw (.invalidBestDescendant bestDescendantIndex)
  if !s.nodeIsViableForHead spe bestNode currentSlot then
    throw (.invalidBestNode currentSlot justifiedRoot bestNode.root)
  pure bestNode.root

/-! ## `maybe_prune` -/

/-- The first loop of `maybe_prune`: drop the indices of the nodes at `positions`. -/
def removeIndices : List Nat → M Unit
  | [] => pure ()
  | nodeIndex :: rest => do
    let s ← get
    let node ← okOr (s.getNode nodeIndex) (.invalidNodeIndex nodeIndex)
    set { s with indices := s.indices.filter (·.1 != node.root) }
    removeIndices rest

/-- The pass of `maybe_prune` over `indices.values_mut()`, subtracting `k` from every
position. The map is visited in list order; on an overflow the map is left as it was (the
source leaves it shifted in its hash order up to the failing entry). -/
def shiftIndices (k : Nat) (indices : List (Hash256 × Nat)) :
    Except Error (List (Hash256 × Nat)) :=
  indices.mapM fun (root, index) =>
    match uCheckedSub index k with
    | some index => pure (root, index)
    | none => throw (.indexOverflow "indices")

/-- One iteration of the last loop of `maybe_prune`: shift the links of the node at `i` by
`k`; a parent before the new start is dropped, a best child or descendant before it is an
error. -/
def shiftLinks (k i : Nat) : M Unit := do
  modifyNode i fun node => { node with parent := node.parent.bind (uCheckedSub · k) }
  let s ← get
  let node ← okOr (s.getNode i) (.invalidNodeIndex i)
  let node ← match node.bestChild with
    | some bestChild => do
      let bestChild ← okOr (uCheckedSub bestChild k) (.indexOverflow "best_child")
      let node := { node with bestChild := some bestChild }
      set (s.setNode i node)
      pure node
    | none => pure node
  let s ← get
  match node.bestDescendant with
  | some bestDescendant => do
    let bestDescendant ← okOr (uCheckedSub bestDescendant k) (.indexOverflow "best_descendant")
    set (s.setNode i { node with bestDescendant := some bestDescendant })
  | none => pure ()

/-- The last loop of `maybe_prune`, over the positions `i, i + 1, …, i + n - 1`. -/
def shiftLinksFrom (k : Nat) : Nat → Nat → M Unit
  | 0, _ => pure ()
  | n + 1, i => do
    shiftLinks k i
    shiftLinksFrom k n (i + 1)

/-- `maybe_prune(finalized_root)`. -/
def maybePrune (finalizedRoot : Hash256) : M Unit := do
  let s ← get
  let finalizedIndex ← okOr (s.getIndex finalizedRoot) (.finalizedNodeUnknown finalizedRoot)
  -- pruning small numbers of nodes costs more than it saves
  if finalizedIndex < s.pruneThreshold then return ()
  removeIndices (List.range finalizedIndex)
  modify fun s => { s with nodes := s.nodes.drop finalizedIndex }
  let s ← get
  match shiftIndices finalizedIndex s.indices with
  | .error e => throw e
  | .ok indices =>
    set { s with indices := indices }
    shiftLinksFrom finalizedIndex s.nodes.length 0

end ProtoArray
end Vibehouse
