import Vibehouse.ProtoArray.Votes
import Vibehouse.Lib.RustIter

/-! # Gloas head selection

`find_head_gloas` of `proto_array_fork_choice.rs` and what it calls. From Gloas on every block
stands for three virtual nodes, `(root, PENDING)`, `(root, EMPTY)` and `(root, FULL)`: a
`PENDING` node has the `EMPTY` node of its block and, once the envelope was received, the `FULL`
node as children; an `EMPTY` or `FULL` node has the `PENDING` nodes of the viable child blocks
that build on that payload status. The head is found top-down from `(justified, PENDING)`,
choosing at each level the child of greatest `(weight, root, tiebreaker)` with `max_by`.

The reusable buffers of the source, the children index (a map from a position to its children
in increasing order) and the ancestor cache (a memo of `get_ancestor_gloas` per `(root, slot)`)
only save allocations and repeated walks: here the children are listed in the same order and
the ancestor is computed where the source looks it up. -/

namespace Vibehouse

open MachineInt

inductive GloasPayloadStatus where
  | empty
  | full
  | pending
  deriving DecidableEq, Repr

/-- `payload_status as u8`. -/
def GloasPayloadStatus.toU8 : GloasPayloadStatus → Nat
  | .empty => 0
  | .full => 1
  | .pending => 2

structure GloasForkChoiceNode where
  root : Hash256
  payloadStatus : GloasPayloadStatus
  deriving DecidableEq, Repr

/-- `parent_payload_status_of(child, parent)`: the child builds on the parent's payload when
its bid names the parent's bid block hash as parent hash. -/
def parentPayloadStatusOf (child parent : ProtoNode) : GloasPayloadStatus :=
  match child.bidParentBlockHash, parent.bidBlockHash with
  | some childParentHash, some parentHash => if childParentHash = parentHash then .full else .empty
  | _, _ => .empty

namespace ProtoArray

variable (s : ProtoArray)

/-- Pass 2 of `compute_filtered_nodes_into`, over positions `i - 1` down to `0`: a marked node
marks its parent (a parent outside the buffer is skipped, as `get_mut` does). -/
def markParentsDownFrom : Nat → List Bool → List Bool
  | 0, buf => buf
  | i + 1, buf =>
    let buf :=
      if buf[i]?.getD false then
        match s.parentOf i with
        | some parentIdx => buf.set parentIdx true
        | none => buf
      else buf
    markParentsDownFrom i buf

/-- `compute_filtered_nodes_into(current_slot)`: the nodes viable for head and their ancestors. -/
def computeFilteredNodes (spe : Nat) (currentSlot : Slot) : List Bool :=
  s.markParentsDownFrom s.nodes.length (s.nodes.map fun node => s.nodeIsViableForHead spe node currentSlot)

/-- The entry of `build_children_index_into` for `parentIdx`: its children in increasing order. -/
def childIndices (parentIdx : Nat) : List Nat :=
  (List.range s.nodes.length).filter fun i => s.parentOf i == some parentIdx

/-- The children `collect_gloas_children` writes to `out`, with the children index that
`build_children_index_into` builds from the nodes (`childIndices`): for a `PENDING` node its
`EMPTY` node and, when its block's envelope was received, its `FULL` node; for an `EMPTY` or
`FULL` node, the `PENDING` nodes of its block's children that are in `filteredNodes` and build on
that payload status, in increasing position. `collectGloasChildrenIn` takes the index as an
argument. -/
def collectGloasChildren (filteredNodes : List Bool) (node : GloasForkChoiceNode) :
    List GloasForkChoiceNode :=
  match node.payloadStatus with
  | .pending =>
    let envelopeReceived := ((s.getIndex node.root).bind s.getNode).any (·.envelopeReceived)
    ⟨node.root, .empty⟩ :: if envelopeReceived then [⟨node.root, .full⟩] else []
  | status =>
    match (s.getIndex node.root).bind fun parentIdx => (s.getNode parentIdx).map (parentIdx, ·) with
    | none => []
    | some (parentIdx, parentNode) =>
      (s.childIndices parentIdx).filterMap fun ci =>
        if filteredNodes[ci]?.getD false then
          match s.getNode ci with
          | some childNode =>
            if parentPayloadStatusOf childNode parentNode = status then some ⟨childNode.root, .pending⟩
            else none
          | none => none
        else none

/-- `get_ancestor_gloas(root, slot)`: the block of the chain of `root` at `slot` or just below
it, with the payload status its child on the chain builds on. The loop stops at the first
position whose parent is at or below `slot`; a missing parent gives `None`. -/
def getAncestorGloas (root : Hash256) (slot : Slot) : Option GloasForkChoiceNode := do
  let idx ← s.getIndex root
  let block ← s.getNode idx
  if block.slot ≤ slot then return ⟨root, .pending⟩
  ParentChain.climb s.parentOf
    (fun childIdx => match s.getNode childIdx with
      | none => some none
      | some child => match child.parent with
        | none => some none
        | some parentIdx => match s.getNode parentIdx with
          | none => some none
          | some parent =>
            if parent.slot > slot then none
            else some (some ⟨parent.root, parentPayloadStatusOf child parent⟩))
    (fun _ => none) s.nodes.length idx

/-- `is_supporting_vote_gloas_at_slot(node, vote, node_slot)`: `is_supporting_vote` of the
specification, for the block of `node` at `node_slot`. -/
def isSupportingVoteGloasAtSlot (node : GloasForkChoiceNode) (vote : VoteTracker) (nodeSlot : Slot) :
    Bool :=
  if node.root = vote.currentRoot then
    match node.payloadStatus with
    | .pending => true
    | status =>
      -- a vote of the block's own slot cannot know the payload
      if vote.currentSlot = nodeSlot then false
      else if vote.currentPayloadPresent then status = .full
      else status = .empty
  else
    match s.getAncestorGloas vote.currentRoot nodeSlot with
    | some ancestor =>
      node.root = ancestor.root &&
        (node.payloadStatus = .pending || node.payloadStatus = ancestor.payloadStatus)
    | none => false

/-- `should_extend_payload(node, proto_node, ptc_quorum_threshold, proposer_boost_root)`. -/
def shouldExtendPayload (node : GloasForkChoiceNode) (protoNode : Option ProtoNode)
    (ptcQuorumThreshold : Nat) (proposerBoostRoot : Hash256) : Bool :=
  -- a received payload that misses the inclusion list is never extended
  if protoNode.any fun n => n.envelopeReceived && !n.inclusionListSatisfied then false
  else if protoNode.any fun n => n.envelopeReceived && n.ptcWeight > ptcQuorumThreshold &&
      n.ptcBlobDataAvailableWeight > ptcQuorumThreshold then true
  else if proposerBoostRoot = 0 then true
  else
    match s.getIndex proposerBoostRoot with
    | none => true
    | some boostedIdx =>
      match s.getNode boostedIdx with
      | none => false
      | some boostedNode =>
        match boostedNode.parent with
        | none => true
        | some parentIdx =>
          match s.getNode parentIdx with
          | none => false
          | some parentNode =>
            parentNode.root ≠ node.root || parentPayloadStatusOf boostedNode parentNode = .full

end ProtoArray

namespace ProtoArrayForkChoice

variable (fc : ProtoArrayForkChoice)

/-- The active votes of `find_head_gloas`: `(val_index as u32, balance)` for every vote with a
non-zero root and a non-zero stored balance, in validator order. -/
def computeActiveVotes : List (Nat × Nat) :=
  fc.votes.zipIdx.filterMap fun (vote, valIndex) =>
    let balance := fc.balances.effectiveBalances[valIndex]?.getD 0
    if vote.currentRoot = 0 ∨ balance = 0 then none else some (valIndex % 2 ^ 32, balance)

/-- With at most `2^32` votes the `u32` cast keeps every index: an active vote is the index of a
vote with a non-zero root, and that validator's non-zero balance. -/
theorem mem_computeActiveVotes (hlen : fc.votes.length ≤ 2 ^ 32) {i b : Nat} :
    (i, b) ∈ fc.computeActiveVotes ↔ ∃ vote, fc.votes[i]? = some vote ∧ vote.currentRoot ≠ 0 ∧
      b = fc.balances.effectiveBalances[i]?.getD 0 ∧ b ≠ 0 := by
  simp only [computeActiveVotes, List.mem_filterMap, List.mem_zipIdx_iff_getElem?]
  constructor
  · rintro ⟨⟨vote, j⟩, hj, hsome⟩
    split at hsome
    · cases hsome
    · rename_i hactive
      simp only [Option.some.injEq, Prod.mk.injEq] at hsome
      obtain ⟨rfl, rfl⟩ := hsome
      have hjlt : j < 2 ^ 32 := (List.getElem?_eq_some_iff.1 hj).1.trans_le hlen
      rw [Nat.mod_eq_of_lt hjlt]
      exact ⟨vote, hj, by tauto, rfl, by tauto⟩
  · rintro ⟨vote, hi, hroot, rfl, hb⟩
    have hilt : i < 2 ^ 32 := (List.getElem?_eq_some_iff.1 hi).1.trans_le hlen
    refine ⟨(vote, i), hi, ?_⟩
    rw [if_neg (by tauto), Nat.mod_eq_of_lt hilt]

/-- The loop over the active votes shared by `get_gloas_weight` and
`should_apply_proposer_boost_gloas`: the saturating sum of the balances of the votes that
support `node`. -/
def attestationWeight (activeVotes : List (Nat × Nat)) (node : GloasForkChoiceNode)
    (nodeSlot : Slot) : Nat :=
  activeVotes.foldl (fun weight (valIndex, balance) =>
    if fc.protoArray.isSupportingVoteGloasAtSlot node (fc.votes[valIndex]?.getD default) nodeSlot
    then uSaturatingAdd 64 weight balance else weight) 0

/-- `should_apply_proposer_boost_gloas(proposer_boost_root, equivocating_indices, _, spec,
active_votes)`: the boost is withheld only when the boosted block's parent is adjacent, weak,
and its proposer equivocated with a PTC-timely block. -/
def shouldApplyProposerBoostGloas (spec : ChainSpec) (proposerBoostRoot : Hash256)
    (equivocatingIndices : List Nat) (activeVotes : List (Nat × Nat)) : Bool :=
  let pa := fc.protoArray
  if proposerBoostRoot = 0 then false
  else
    match pa.getIndex proposerBoostRoot with
    | none => false
    | some boostIdx =>
      match pa.getNode boostIdx with
      | none => false
      | some boostBlock =>
        match boostBlock.parent with
        | none => true
        | some parentIdx =>
          match pa.getNode parentIdx with
          | none => true
          | some parentBlock =>
            if parentBlock.slot + 1 < boostBlock.slot then true
            else
              let parentAttWeight :=
                fc.attestationWeight activeVotes ⟨parentBlock.root, .pending⟩ parentBlock.slot
              -- equivocating validators count towards the head's weight
              let parentAttWeight := equivocatingIndices.foldl (fun weight valIndex =>
                uSaturatingAdd 64 weight (fc.balances.effectiveBalances[valIndex]?.getD 0)) parentAttWeight
              let reorgThreshold := (spec.reorgHeadWeightThreshold.bind
                (calculateCommitteeFraction spec.slotsPerEpoch fc.balances)).getD 0
              if ¬ parentAttWeight < reorgThreshold then true
              else
                !pa.nodes.any fun n => n.ptcTimely && n.proposerIndex == parentBlock.proposerIndex &&
                  n.slot + 1 == boostBlock.slot && n.root != parentBlock.root

/-- `get_gloas_weight(node, proposer_boost_root, apply_proposer_boost, current_slot, spec, _,
active_votes)`. -/
def getGloasWeight (spec : ChainSpec) (node : GloasForkChoiceNode) (proposerBoostRoot : Hash256)
    (applyProposerBoost : Bool) (currentSlot : Slot) (activeVotes : List (Nat × Nat)) : Nat :=
  match (fc.protoArray.getIndex node.root).bind fc.protoArray.getNode with
  | none => 0
  | some protoNode =>
    let nodeSlot := protoNode.slot
    -- the payload of the previous slot is not weighed
    if node.payloadStatus ≠ .pending ∧ nodeSlot + 1 = currentSlot then 0
    else
      let weight := fc.attestationWeight activeVotes node nodeSlot
      match spec.proposerScoreBoost with
      | some boostPct =>
        if proposerBoostRoot ≠ 0 ∧ applyProposerBoost then
          -- the boost is a vote for the boosted block at the current slot
          let boostVote : VoteTracker := { currentRoot := proposerBoostRoot, currentSlot := currentSlot }
          if fc.protoArray.isSupportingVoteGloasAtSlot node boostVote nodeSlot then
            match calculateCommitteeFraction spec.slotsPerEpoch fc.balances boostPct with
            | some score => uSaturatingAdd 64 weight score
            | none => weight
          else weight
        else weight
      | none => weight

/-- `get_payload_tiebreaker(node, current_slot, ptc_quorum_threshold, proposer_boost_root)`. -/
def getPayloadTiebreaker (node : GloasForkChoiceNode) (currentSlot : Slot)
    (ptcQuorumThreshold : Nat) (proposerBoostRoot : Hash256) : Nat :=
  let protoNode := (fc.protoArray.getIndex node.root).bind fc.protoArray.getNode
  if !protoNode.any (fun n => n.slot + 1 == currentSlot) then node.payloadStatus.toU8
  else if node.payloadStatus = .empty then 1
  else if fc.protoArray.shouldExtendPayload node protoNode ptcQuorumThreshold proposerBoostRoot then 2
  else 0

/-- The order of the `max_by` of `find_head_gloas` on `(child, weight, tiebreaker)`. -/
def compareGloasCandidates (a b : GloasForkChoiceNode × Nat × Nat) : Ordering :=
  (compare a.2.1 b.2.1).then ((compare a.1.root b.1.root).then (compare a.2.2 b.2.2))

section descent

variable (spec : ChainSpec) (filteredNodes : List Bool) (activeVotes : List (Nat × Nat))
  (proposerBoostRoot : Hash256) (applyBoost : Bool) (currentSlot : Slot)

/-- A child with the weight and the tiebreaker `find_head_gloas` ranks it by. -/
def gloasCandidate (child : GloasForkChoiceNode) : GloasForkChoiceNode × Nat × Nat :=
  (child, fc.getGloasWeight spec child proposerBoostRoot applyBoost currentSlot activeVotes,
    fc.getPayloadTiebreaker child currentSlot (spec.ptcSize / 2) proposerBoostRoot)

/-- The loop of `find_head_gloas`: descend to the best child until a node has none. Every two
steps reach a block at a later position, so the fuel `find_head_gloas` gives is enough. -/
def descendGloas : Nat → GloasForkChoiceNode → Except ForkChoiceError GloasForkChoiceNode
  | 0, head => pure head
  | fuel + 1, head =>
    let children := fc.protoArray.collectGloasChildren filteredNodes head
    if children.isEmpty then pure head
    else
      match RustIter.maxBy compareGloasCandidates
          (children.map (gloasCandidate fc spec activeVotes proposerBoostRoot applyBoost currentSlot)) with
      | none => throw .noChildren
      | some best => descendGloas fuel best.1

end descent

/-- `find_head_gloas(justified_checkpoint, proposer_boost_root, equivocating_indices,
current_slot, spec)`: the head node, whose payload status the caller stores. -/
def findHeadGloas (spec : ChainSpec) (justifiedCheckpoint : Checkpoint) (proposerBoostRoot : Hash256)
    (equivocatingIndices : List Nat) (currentSlot : Slot) :
    Except ForkChoiceError GloasForkChoiceNode :=
  let filteredNodes := fc.protoArray.computeFilteredNodes spec.slotsPerEpoch currentSlot
  let activeVotes := fc.computeActiveVotes
  let applyBoost := fc.shouldApplyProposerBoostGloas spec proposerBoostRoot equivocatingIndices activeVotes
  descendGloas fc spec filteredNodes activeVotes proposerBoostRoot applyBoost currentSlot
    (2 * fc.protoArray.nodes.length + 2) ⟨justifiedCheckpoint.root, .pending⟩

end ProtoArrayForkChoice
end Vibehouse
