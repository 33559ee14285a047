import Vibehouse.ProtoArray.Votes

/-! # The Gloas handlers of `ForkChoice`

The errors of `fork_choice.rs` and the three Gloas handlers that write the nodes of the
proto-array directly (through `core_proto_array_mut`): `on_execution_bid`,
`on_payload_attestation` and `on_execution_payload`. They change fields of one node and
nothing else: no root, no parent link, no best child or descendant.

The errors of other crates that `fork_choice.rs` wraps (`BeaconStateError`, the store's error
type, the epoch-processing error) keep their variant here but not their payload, which no
modelled function reads. -/

namespace Vibehouse
namespace ForkChoice

inductive InvalidBlock where
  | unknownParent (parentRoot : Hash256)
  | futureSlot (currentSlot blockSlot : Slot)
  | finalizedSlot (finalizedSlot blockSlot : Slot)
  | notFinalizedDescendant (finalizedRoot : Hash256) (blockAncestor : Option Hash256)
  deriving DecidableEq, Repr

inductive InvalidExecutionBid where
  | unknownBeaconBlockRoot (beaconBlockRoot : Hash256)
  | slotMismatch (bidSlot blockSlot : Slot)
  deriving DecidableEq, Repr

inductive InvalidPayloadAttestation where
  | unknownBeaconBlockRoot (beaconBlockRoot : Hash256)
  | futureSlot (attestationSlot currentSlot : Slot)
  | tooOld (attestationSlot currentSlot : Slot)
  deriving DecidableEq, Repr

/-- The variants of `fork_choice::Error` that the modelled functions return. -/
inductive Error where
  | invalidBlock (e : InvalidBlock)
  | protoArrayStringError (e : ForkChoiceError)
  | missingProtoArrayBlock (root : Hash256)
  | unknownAncestor (ancestorSlot : Slot) (descendantRoot : Hash256)
  | inconsistentOnTick (previousSlot time : Slot)
  | beaconStateError
  | unableToSetJustifiedCheckpoint
  | afterBlockFailed
  | invalidPayloadStatus (blockSlot : Slot) (blockRoot : Hash256)
  | unrealizedVoteProcessing
  | invalidExecutionBid (e : InvalidExecutionBid)
  | invalidPayloadAttestation (e : InvalidPayloadAttestation)
  deriving DecidableEq, Repr

/-- A handler that writes the core proto-array of `ForkChoice`. -/
abbrev PaM := EStateM Error ProtoArray

open MachineInt

/-- The position and the node of `root`: `unknown` when the root has no position,
`MissingProtoArrayBlock` when the position has no node. -/
def lookupNode (root : Hash256) (unknown : Error) : PaM (Nat × ProtoNode) := do
  let s ← get
  let some index := s.getIndex root | throw unknown
  let some node := s.getNode index | throw (.missingProtoArrayBlock root)
  pure (index, node)

/-- `on_execution_bid(bid, beacon_block_root)`, for a bid of `bid_slot` by `builder_index`. -/
def onExecutionBid (bidSlot : Slot) (builderIndex : BuilderIndex) (beaconBlockRoot : Hash256) :
    PaM Unit := do
  let (index, node) ← lookupNode beaconBlockRoot
    (.invalidExecutionBid (.unknownBeaconBlockRoot beaconBlockRoot))
  if bidSlot ≠ node.slot then throw (.invalidExecutionBid (.slotMismatch bidSlot node.slot))
  let node := { node with builderIndex := some builderIndex }
  -- a bid arriving after the envelope or the PTC quorum keeps the payload state
  let node :=
    if !node.envelopeReceived && !node.payloadRevealed then
      { node with ptcWeight := 0, ptcBlobDataAvailableWeight := 0, payloadDataAvailable := false }
    else node
  modify (·.setNode index node)

/-- `on_payload_attestation(attestation, indexed_attestation, current_slot, spec)`: every
attesting index is one vote. -/
def onPayloadAttestation (spe ptcSize : Nat) (slot : Slot) (beaconBlockRoot : Hash256)
    (payloadPresent blobDataAvailable : Bool) (attestingIndices : List Nat) (currentSlot : Slot) :
    PaM Unit := do
  if slot > currentSlot then throw (.invalidPayloadAttestation (.futureSlot slot currentSlot))
  if currentSlot > slot + spe then throw (.invalidPayloadAttestation (.tooOld slot currentSlot))
  let (index, node) ← lookupNode beaconBlockRoot
    (.invalidPayloadAttestation (.unknownBeaconBlockRoot beaconBlockRoot))
  -- a vote for another slot than the block's is ignored
  if slot ≠ node.slot then return ()
  let quorumThreshold := ptcSize / 2
  let attesterCount := attestingIndices.length
  let node :=
    if payloadPresent then { node with ptcWeight := uSaturatingAdd 64 node.ptcWeight attesterCount }
    else node
  let node :=
    if blobDataAvailable then
      { node with ptcBlobDataAvailableWeight := uSaturatingAdd 64 node.ptcBlobDataAvailableWeight attesterCount }
    else node
  let node :=
    if node.ptcWeight > quorumThreshold ∧ !node.payloadRevealed then
      let node := { node with payloadRevealed := true }
      -- without an envelope yet, the bid's block hash stands for the payload
      match !node.executionStatus.isExecutionEnabled, node.bidBlockHash with
      | true, some blockHash => { node with executionStatus := .optimistic blockHash }
      | _, _ => node
    else node
  let node :=
    if node.ptcBlobDataAvailableWeight > quorumThreshold ∧ !node.payloadDataAvailable then
      { node with payloadDataAvailable := true }
    else node
  modify (·.setNode index node)

/-- `on_execution_payload(beacon_block_root, payload_block_hash, inclusion_list_satisfied)`. -/
def onExecutionPayload (beaconBlockRoot : Hash256) (payloadBlockHash : ExecutionBlockHash)
    (inclusionListSatisfied : Bool) : PaM Unit := do
  let (index, node) ← lookupNode beaconBlockRoot (.missingProtoArrayBlock beaconBlockRoot)
  modify (·.setNode index
    { node with payloadRevealed := true, envelopeReceived := true, payloadDataAvailable := true,
                executionStatus := .optimistic payloadBlockHash, inclusionListSatisfied })

end ForkChoice
end Vibehouse
