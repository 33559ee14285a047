import Vibehouse.ProtoArray.Types
import Vibehouse.Lib.ParentChain
import Vibehouse.Lib.MachineInt
import Vibehouse.Lib.StateRun

/-! # Reading the proto-array

The `&self` methods of `ProtoArray` (`proto_array.rs`) that the operations call: lookups, the
iterator up the parent links (`Iter`), `is_descendant`, `is_finalized_checkpoint_or_descendant`,
the viability filter `node_is_viable_for_head` and `node_leads_to_viable_head`, and the choice of
`maybe_update_best_child_and_descendant`, which is the one `&mut self` method here.

A method taking `&mut self` and returning `Result<α, Error>` is a computation in `M`: on an
error it keeps the changes made before the error, as an early return through `?` does.

The loops up the parent links take the number of nodes as fuel (`ParentChain.chain`,
`ParentChain.climb`). The source loops have no bound: when every parent sits before its child
the walk from position `i` ends within `i + 1` steps, and with that much fuel the result does
not depend on the fuel (`ParentChain.chain_eq_of_lt`, `ParentChain.climb_eq_of_lt`). -/

namespace Vibehouse
namespace ProtoArray

/-- A `&mut self` method of `ProtoArray`. -/
abbrev M := EStateM Error ProtoArray

/-- `option.ok_or(error)?`. -/
def okOr {α : Type} (o : Option α) (e : Error) : M α :=
  match o with
  | some a => pure a
  | none => throw e

variable (s : ProtoArray)

/-- `self.indices.get(root)`. -/
def getIndex (root : Hash256) : Option Nat := s.indices.lookup root

/-- `self.nodes.get(i)`. -/
def getNode (i : Nat) : Option ProtoNode := s.nodes[i]?

/-- Store `node` at position `i` (`self.nodes[i] = node`). -/
def setNode (i : Nat) (node : ProtoNode) : ProtoArray := { s with nodes := s.nodes.set i node }

@[simp] theorem setNode_indices (i : Nat) (node : ProtoNode) : (s.setNode i node).indices = s.indices := rfl

@[simp] theorem setNode_nodes_length (i : Nat) (node : ProtoNode) :
    (s.setNode i node).nodes.length = s.nodes.length := by
  simp [setNode]

@[simp] theorem setNode_setNode (i : Nat) (a b : ProtoNode) :
    (s.setNode i a).setNode i b = s.setNode i b := by
  simp [setNode]

theorem getNode_setNode_self {i : Nat} (h : i < s.nodes.length) (node : ProtoNode) :
    (s.setNode i node).getNode i = some node := by
  simp [getNode, setNode, h]

theorem getNode_setNode_ne {i j : Nat} (h : i ≠ j) (node : ProtoNode) :
    (s.setNode i node).getNode j = s.getNode j := by
  simp [getNode, setNode, h]

theorem getNode_setNode (i j : Nat) (node : ProtoNode) :
    (s.setNode i node).getNode j = if i = j ∧ i < s.nodes.length then some node else s.getNode j := by
  by_cases hij : i = j
  · subst hij
    by_cases hi : i < s.nodes.length
    · simp [getNode_setNode_self s hi, hi]
    · simp [getNode, setNode, hi]
  · simp [getNode_setNode_ne s hij, hij]

theorem lt_length_of_getNode {i : Nat} {node : ProtoNode} (h : s.getNode i = some node) :
    i < s.nodes.length := by
  unfold getNode at h
  by_contra hi
  rw [List.getElem?_eq_none (Nat.le_of_not_lt hi)] at h
  cases h

/-- The parent link of position `i`, if there is a node there. -/
def parentOf (i : Nat) : Option Nat := (s.getNode i).bind (·.parent)

theorem getNode_of_parentOf {i p : Nat} (h : s.parentOf i = some p) :
    ∃ n, s.getNode i = some n ∧ n.parent = some p :=
  Option.bind_eq_some_iff.1 h

/-- `iter_nodes(root)`: the nodes of the chain ending at `root`, newest first. -/
def iterNodes (root : Hash256) : List ProtoNode :=
  match s.getIndex root with
  | none => []
  | some i => (ParentChain.chain s.parentOf s.nodes.length i).filterMap s.getNode

/-- `is_descendant(ancestor_root, descendant_root)`: the node of the chain of
`descendant_root` at the slot of the ancestor is the ancestor. -/
def isDescendant (ancestorRoot descendantRoot : Hash256) : Bool :=
  match (s.getIndex ancestorRoot).bind s.getNode with
  | none => false
  | some ancestor =>
    match ((s.iterNodes descendantRoot).takeWhile (fun n => n.slot ≥ ancestor.slot)).find?
        (fun n => n.slot == ancestor.slot) with
    | none => false
    | some n => n.root == ancestorRoot

/-- `is_finalized_checkpoint_or_descendant(root)`. -/
def isFinalizedCheckpointOrDescendant (spe : Nat) (root : Hash256) : Bool :=
  let finalizedRoot := s.finalizedCheckpoint.root
  let finalizedSlot := startSlot spe s.finalizedCheckpoint.epoch
  match s.getIndex root with
  | none => false
  | some i =>
    match s.getNode i with
    | none => false
    | some node =>
      if node.finalizedCheckpoint = s.finalizedCheckpoint ∨
          node.justifiedCheckpoint = s.finalizedCheckpoint then true
      else if node.unrealizedFinalizedCheckpoint = some s.finalizedCheckpoint ∨
          node.unrealizedJustifiedCheckpoint = some s.finalizedCheckpoint then true
      else
        -- the loop: a node at or below the finalized slot must be the finalized block, and a
        -- missing parent conflicts with finality
        ParentChain.climb s.parentOf
          (fun j => match s.getNode j with
            | none => some false
            | some n => if n.slot ≤ finalizedSlot then some (n.root == finalizedRoot) else none)
          (fun _ => false) s.nodes.length i

/-- `node_is_viable_for_head`: `filter_block_tree` of the specification. -/
def nodeIsViableForHead (spe : Nat) (node : ProtoNode) (currentSlot : Slot) : Bool :=
  if node.executionStatus.isInvalid then false
  else if (match node.builderIndex with
      | some b => b != builderIndexSelfBuild && !node.payloadRevealed
      | none => false) then false
  else
    let currentEpoch := epochOf spe currentSlot
    let nodeEpoch := epochOf spe node.slot
    let votingSource :=
      if currentEpoch > nodeEpoch then node.unrealizedJustifiedCheckpoint.getD node.justifiedCheckpoint
      else node.justifiedCheckpoint
    let correctJustified := s.justifiedCheckpoint.epoch == 0 ||
      votingSource.epoch == s.justifiedCheckpoint.epoch || decide (votingSource.epoch + 2 ≥ currentEpoch)
    let correctFinalized := s.finalizedCheckpoint.epoch == 0 ||
      s.isFinalizedCheckpointOrDescendant spe node.root
    correctJustified && correctFinalized

/-- `node_leads_to_viable_head`. -/
def nodeLeadsToViableHead (spe : Nat) (node : ProtoNode) (currentSlot : Slot) : Except Error Bool := do
  let bestDescendantIsViableForHead ←
    match node.bestDescendant with
    | some i =>
      match s.getNode i with
      | none => throw (.invalidBestDescendant i)
      | some bestDescendant => pure (s.nodeIsViableForHead spe bestDescendant currentSlot)
    | none => pure false
  pure (bestDescendantIsViableForHead || s.nodeIsViableForHead spe node currentSlot)

/-- The new `(best_child, best_descendant)` of `parent` chosen by
`maybe_update_best_child_and_descendant` when it observes the child at `childIndex`. -/
def bestChildAndDescendant (spe : Nat) (parent child : ProtoNode) (childIndex : Nat)
    (currentSlot : Slot) : Except Error (Option Nat × Option Nat) := do
  let childLeadsToViableHead ← s.nodeLeadsToViableHead spe child currentSlot
  let changeToNone : Option Nat × Option Nat := (none, none)
  let changeToChild : Option Nat × Option Nat :=
    (some childIndex, child.bestDescendant.or (some childIndex))
  let noChange := (parent.bestChild, parent.bestDescendant)
  match parent.bestChild with
  | some bestChildIndex =>
    if bestChildIndex = childIndex ∧ !childLeadsToViableHead then pure changeToNone
    else if bestChildIndex = childIndex then pure changeToChild
    else
      match s.getNode bestChildIndex with
      | none => throw (.invalidBestDescendant bestChildIndex)
      | some bestChild =>
        let bestChildLeadsToViableHead ← s.nodeLeadsToViableHead spe bestChild currentSlot
        if childLeadsToViableHead && !bestChildLeadsToViableHead then pure changeToChild
        else if !childLeadsToViableHead && bestChildLeadsToViableHead then pure noChange
        else if child.weight = bestChild.weight then
          -- tie-breaker of equal weights by root
          if child.root ≥ bestChild.root then pure changeToChild else pure noChange
        else if child.weight > bestChild.weight then pure changeToChild
        else pure noChange
  | none => if childLeadsToViableHead then pure changeToChild else pure noChange

/-- Replace the node at position `i`, or fail with `InvalidNodeIndex`. -/
def modifyNode (i : Nat) (f : ProtoNode → ProtoNode) : M Unit := do
  let s ← get
  match s.getNode i with
  | none => throw (.invalidNodeIndex i)
  | some n => set (s.setNode i (f n))

/-- `maybe_update_best_child_and_descendant(parent_index, child_index, current_slot)`. -/
def maybeUpdateBestChildAndDescendant (spe : Nat) (parentIndex childIndex : Nat)
    (currentSlot : Slot) : M Unit := do
  let s ← get
  let some child := s.getNode childIndex | throw (.invalidNodeIndex childIndex)
  let some parent := s.getNode parentIndex | throw (.invalidNodeIndex parentIndex)
  let (newBestChild, newBestDescendant) ←
    liftExcept (s.bestChildAndDescendant spe parent child childIndex currentSlot)
  modifyNode parentIndex fun p => { p with bestChild := newBestChild, bestDescendant := newBestDescendant }

end ProtoArray
end Vibehouse
