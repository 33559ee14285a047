import Mathlib

/-! # The proto-array data model

The types of `consensus/proto_array`: execution statuses, checkpoints, the nodes of the
block tree and the array that stores them (`proto_array.rs`), the `Block` handed to fork
choice and the error type (`error.rs`).

Roots, block hashes, slots, epochs and balances are natural numbers. Roots are compared as
`Hash256` is in the source (big-endian bytes, hence numerically), and `Hash256::zero()` is
`0`. The `indices` hash map is an association list; every operation on it in the source is
a lookup, an insertion of a fresh key, a removal or a pass over all its values, and the list
does each of these the same way. Fields of `ProtoNode` that no modelled function reads
(state and target roots, shuffling ids) are left out. -/

namespace Vibehouse

abbrev Hash256 := Nat
abbrev ExecutionBlockHash := Nat
abbrev Slot := Nat
abbrev Epoch := Nat
abbrev BuilderIndex := Nat

/-- `u64::MAX`, the builder index of a self-built payload (`consts::gloas`). -/
def builderIndexSelfBuild : BuilderIndex := 2 ^ 64 - 1

/-- The constants of `ChainSpec` and `EthSpec` that fork choice reads. -/
structure ChainSpec where
  slotsPerEpoch : Nat
  proposerScoreBoost : Option Nat
  reorgHeadWeightThreshold : Option Nat
  ptcSize : Nat
  gloasForkEpoch : Option Epoch
  deriving DecidableEq, Repr

/-- `Slot::epoch`. -/
def epochOf (spe : Nat) (slot : Slot) : Epoch := slot / spe

/-- `Epoch::start_slot`. -/
def startSlot (spe : Nat) (epoch : Epoch) : Slot := epoch * spe

structure Checkpoint where
  epoch : Epoch
  root : Hash256
  deriving DecidableEq, Repr

inductive ExecutionStatus where
  | valid (hash : ExecutionBlockHash)
  | invalid (hash : ExecutionBlockHash)
  | optimistic (hash : ExecutionBlockHash)
  /-- Prior to the merge, or no payload: the flag only exists for SSZ. -/
  | irrelevant (flag : Bool)
  deriving DecidableEq, Repr

namespace ExecutionStatus

def isExecutionEnabled : ExecutionStatus → Bool
  | .irrelevant _ => false
  | _ => true

def blockHash : ExecutionStatus → Option ExecutionBlockHash
  | .valid h | .invalid h | .optimistic h => some h
  | .irrelevant _ => none

def isValidOrIrrelevant : ExecutionStatus → Bool
  | .valid _ | .irrelevant _ => true
  | _ => false

def isValidAndPostBellatrix : ExecutionStatus → Bool
  | .valid _ => true
  | _ => false

def isInvalid : ExecutionStatus → Bool
  | .invalid _ => true
  | _ => false

@[simp] theorem isInvalid_iff {e : ExecutionStatus} : e.isInvalid = true ↔ ∃ h, e = .invalid h := by
  cases e <;> simp [isInvalid]

end ExecutionStatus

structure ProtoNode where
  slot : Slot
  root : Hash256
  parent : Option Nat
  justifiedCheckpoint : Checkpoint
  finalizedCheckpoint : Checkpoint
  weight : Nat
  bestChild : Option Nat
  bestDescendant : Option Nat
  executionStatus : ExecutionStatus
  unrealizedJustifiedCheckpoint : Option Checkpoint
  unrealizedFinalizedCheckpoint : Option Checkpoint
  builderIndex : Option BuilderIndex
  payloadRevealed : Bool
  ptcWeight : Nat
  ptcBlobDataAvailableWeight : Nat
  payloadDataAvailable : Bool
  bidBlockHash : Option ExecutionBlockHash
  bidParentBlockHash : Option ExecutionBlockHash
  proposerIndex : Nat
  ptcTimely : Bool
  envelopeReceived : Bool
  inclusionListSatisfied : Bool
  deriving DecidableEq, Repr

structure ProposerBoost where
  root : Hash256
  score : Nat
  deriving DecidableEq, Repr

instance : Inhabited ProposerBoost := ⟨⟨0, 0⟩⟩

structure ProtoArray where
  pruneThreshold : Nat
  justifiedCheckpoint : Checkpoint
  finalizedCheckpoint : Checkpoint
  nodes : List ProtoNode
  indices : List (Hash256 × Nat)
  previousProposerBoost : ProposerBoost
  deriving DecidableEq, Repr

/-- `JustifiedBalances`: the effective balances of the justified state, their sum and the
number of active validators. -/
structure JustifiedBalances where
  effectiveBalances : List Nat
  totalEffectiveBalance : Nat
  numActiveValidators : Nat
  deriving DecidableEq, Repr

/-- The block handed to `ProtoArray::on_block`. -/
structure Block where
  slot : Slot
  root : Hash256
  parentRoot : Option Hash256
  justifiedCheckpoint : Checkpoint
  finalizedCheckpoint : Checkpoint
  executionStatus : ExecutionStatus
  unrealizedJustifiedCheckpoint : Option Checkpoint
  unrealizedFinalizedCheckpoint : Option Checkpoint
  builderIndex : Option BuilderIndex
  payloadRevealed : Bool
  ptcWeight : Nat
  ptcBlobDataAvailableWeight : Nat
  payloadDataAvailable : Bool
  bidBlockHash : Option ExecutionBlockHash
  bidParentBlockHash : Option ExecutionBlockHash
  proposerIndex : Nat
  ptcTimely : Bool
  envelopeReceived : Bool
  inclusionListSatisfied : Bool
  deriving DecidableEq, Repr

/-- The variants of `proto_array::Error` that the modelled functions return. -/
inductive Error where
  | finalizedNodeUnknown (root : Hash256)
  | justifiedNodeUnknown (root : Hash256)
  | nodeUnknown (root : Hash256)
  | invalidNodeIndex (index : Nat)
  | invalidJustifiedIndex (index : Nat)
  | invalidBestDescendant (index : Nat)
  | invalidParentDelta (index : Nat)
  | invalidNodeDelta (index : Nat)
  | deltaOverflow (index : Nat)
  | proposerBoostOverflow (index : Nat)
  | indexOverflow (field : String)
  | invalidExecutionDeltaOverflow (index : Nat)
  | invalidDeltaLen (deltas indices : Nat)
  | invalidBestNode (currentSlot : Slot) (startRoot headRoot : Hash256)
  | invalidAncestorOfValidPayload (ancestorBlockRoot : Hash256)
      (ancestorPayloadBlockHash : ExecutionBlockHash)
  | validExecutionStatusBecameInvalid (blockRoot : Hash256) (payloadBlockHash : ExecutionBlockHash)
  | invalidJustifiedCheckpointExecutionStatus (justifiedRoot : Hash256)
  | irrelevantDescendant (blockRoot : Hash256)
  | parentExecutionStatusIsInvalid (blockRoot parentRoot : Hash256)
  deriving DecidableEq, Repr

end Vibehouse
