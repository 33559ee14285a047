import Vibehouse.ProtoArray.Basic

/-! # Execution statuses: validation and invalidation

`propagate_execution_payload_validation(_by_index)` and
`propagate_execution_payload_invalidation` of `proto_array.rs`, with the operation type
`InvalidationOperation`.

Validation walks up from a node, turning `Optimistic` into `Valid`, until it meets a node that
is already `Valid` or `Irrelevant` (done) or `Invalid` (error). Invalidation first walks up from
the head block (`invalidateBackwards`), invalidating the optimistic blocks between it and the
latest valid ancestor and recording their positions, then runs forwards over every later
position (`invalidateForwards`), invalidating each node whose parent was recorded. Both can
fail after changing some statuses; those changes stay. -/

namespace Vibehouse

/-- `InvalidationOperation`. -/
inductive InvalidationOperation where
  /-- Invalidate only `block_root` and its descendants. -/
  | invalidateOne (blockRoot : Hash256)
  /-- Invalidate the blocks between `head_block_root` and `latest_valid_ancestor`. -/
  | invalidateMany (headBlockRoot : Hash256) (alwaysInvalidateHead : Bool)
      (latestValidAncestor : ExecutionBlockHash)
  deriving DecidableEq, Repr

namespace InvalidationOperation

def blockRoot : InvalidationOperation → Hash256
  | .invalidateOne r => r
  | .invalidateMany r _ _ => r

def latestValidAncestor : InvalidationOperation → Option ExecutionBlockHash
  | .invalidateOne _ => none
  | .invalidateMany _ _ h => some h

def invalidateBlockRoot : InvalidationOperation → Bool
  | .invalidateOne _ => true
  | .invalidateMany _ b _ => b

end InvalidationOperation

namespace ProtoArray

/-- `execution_block_hash_to_beacon_block_root`: the last node with that payload hash. -/
def executionBlockHashToBeaconBlockRoot (s : ProtoArray) (blockHash : ExecutionBlockHash) :
    Option Hash256 :=
  (s.nodes.reverse.find? fun node => node.executionStatus.blockHash == some blockHash).map (·.root)

/-! ## Validation -/

/-- The loop of `propagate_execution_payload_validation_by_index`, at position `index`. -/
def validateUpwards : Nat → Nat → M Unit
  | 0, _ => pure ()
  | fuel + 1, index => do
    let s ← get
    match s.getNode index with
    | none => throw (.invalidNodeIndex index)
    | some node =>
      match node.executionStatus with
      -- ancestors of a valid or irrelevant node are already valid or irrelevant
      | .valid _ | .irrelevant _ => pure ()
      | .optimistic h =>
        set (s.setNode index { node with executionStatus := .valid h })
        match node.parent with
        | none => pure ()
        | some parentIndex => validateUpwards fuel parentIndex
      | .invalid h => throw (.invalidAncestorOfValidPayload node.root h)

/-- `propagate_execution_payload_validation_by_index`. -/
def propagateExecutionPayloadValidationByIndex (verifiedNodeIndex : Nat) : M Unit := do
  let s ← get
  validateUpwards s.nodes.length verifiedNodeIndex

/-- `propagate_execution_payload_validation`. -/
def propagateExecutionPayloadValidation (blockRoot : Hash256) : M Unit := do
  let s ← get
  let some index := s.getIndex blockRoot | throw (.nodeUnknown blockRoot)
  propagateExecutionPayloadValidationByIndex index

/-! ## Invalidation -/

section invalidation

variable (op : InvalidationOperation) (headBlockRoot : Hash256)
  (latestValidAncestorIsDescendant : Bool)

/-- Step 1 of `propagate_execution_payload_invalidation`: the loop backwards from the head
block, returning the invalidated positions. -/
def invalidateBackwards : Nat → Nat → List Nat → M (List Nat)
  | 0, _, invalidated => pure invalidated
  | fuel + 1, index, invalidated => do
    let s ← get
    match s.getNode index with
    | none => throw (.invalidNodeIndex index)
    | some node =>
      match node.executionStatus.blockHash with
      | none => pure invalidated
      | some hash =>
        if !latestValidAncestorIsDescendant && node.root != headBlockRoot then pure invalidated
        else if op.latestValidAncestor = some hash then
          -- the latest valid ancestor forgets an invalidated best child or descendant
          let bestChild := if node.bestChild.any (· ∈ invalidated) then none else node.bestChild
          let bestDescendant :=
            if node.bestDescendant.any (· ∈ invalidated) then none else node.bestDescendant
          set (s.setNode index { node with bestChild := bestChild, bestDescendant := bestDescendant })
          pure invalidated
        else
          let step : M (Option (List Nat)) :=
            if node.root != headBlockRoot || op.invalidateBlockRoot || latestValidAncestorIsDescendant then
              match node.executionStatus with
              | .valid h => throw (.validExecutionStatusBecameInvalid node.root h)
              | .optimistic h => do
                set (s.setNode index
                  { node with executionStatus := .invalid h, bestChild := none, bestDescendant := none })
                pure (some (index :: invalidated))
              | .invalid _ => pure (some invalidated)
              | .irrelevant _ => pure none
            else pure (some invalidated)
          match ← step with
          | none => pure invalidated
          | some invalidated =>
            match node.parent with
            | some parentIndex => invalidateBackwards fuel parentIndex invalidated
            | none => pure invalidated

end invalidation

/-- Step 2 of `propagate_execution_payload_invalidation`: the loop forwards over `indices`,
invalidating every node whose parent is invalidated. -/
def invalidateForwards : List Nat → List Nat → M Unit
  | [], _ => pure ()
  | index :: rest, invalidated => do
    let s ← get
    match s.getNode index with
    | none => throw (.invalidNodeIndex index)
    | some node =>
      match node.parent with
      | some parentIndex =>
        if parentIndex ∈ invalidated then
          match node.executionStatus with
          | .valid h => throw (.validExecutionStatusBecameInvalid node.root h)
          | .optimistic h | .invalid h =>
            set (s.setNode index { node with executionStatus := .invalid h })
            invalidateForwards rest (index :: invalidated)
          | .irrelevant _ => throw (.irrelevantDescendant node.root)
        else invalidateForwards rest invalidated
      | none => invalidateForwards rest invalidated

/-- `propagate_execution_payload_invalidation`. -/
def propagateExecutionPayloadInvalidation (spe : Nat) (op : InvalidationOperation) : M Unit := do
  let s ← get
  let headBlockRoot := op.blockRoot
  let some index := s.getIndex headBlockRoot | throw (.nodeUnknown headBlockRoot)
  let latestValidAncestorRoot := op.latestValidAncestor.bind s.executionBlockHashToBeaconBlockRoot
  let latestValidAncestorIsDescendant := match latestValidAncestorRoot with
    | some ancestorRoot =>
      s.isDescendant ancestorRoot headBlockRoot && s.isFinalizedCheckpointOrDescendant spe ancestorRoot
    | none => false
  let invalidated ← invalidateBackwards op headBlockRoot latestValidAncestorIsDescendant
    s.nodes.length index []
  let startingBlockRoot :=
    ((if latestValidAncestorIsDescendant then latestValidAncestorRoot else none).getD headBlockRoot)
  let s ← get
  let some latestValidAncestorIndex := s.getIndex startingBlockRoot
    | throw (.nodeUnknown startingBlockRoot)
  let firstPotentialDescendant := latestValidAncestorIndex + 1
  invalidateForwards (List.range' firstPotentialDescendant (s.nodes.length - firstPotentialDescendant))
    invalidated

end ProtoArray
end Vibehouse
