import Vibehouse.ProtoArray.StatusConsistency

/-! # Execution statuses along runs of the fork choice

The runs from `ProtoArrayForkChoice::new` made of `process_block`, the two propagations of the
execution layer's verdicts, and the PTC votes of `on_payload_attestation`. Along them below an
`Invalid` node every node is `Invalid`, and a failing validation changes nothing; in runs
without PTC votes, above a `Valid` node every node up to the nearest `Irrelevant` one is
`Valid`. Each invalidation of the run has to succeed: a failing one keeps what it wrote before
the error. `on_execution_payload`, which writes `Optimistic` over any status, takes no part. -/

namespace Vibehouse

namespace ProtoArray

open ParentChain

/-- The parent links that validation follows: up from a node that is not `Irrelevant`. -/
def relevantParentOf (s : ProtoArray) (i : Nat) : Option Nat :=
  (s.getNode i).bind fun n => if n.executionStatus.isExecutionEnabled then n.parent else none

/-- Along the parent links, every descendant of an `Invalid` node is `Invalid`. -/
theorem InvalidClosed.descendant {s : ProtoArray} (hw : WellFormed s) (hi : InvalidClosed s)
    {d a : Nat} (h : Reaches s.parentOf d a) {m n : ProtoNode} (hm : s.getNode a = some m)
    (hinv : m.executionStatus.isInvalid = true) (hn : s.getNode d = some n) :
    n.executionStatus.isInvalid = true := by
  induction h generalizing n with
  | refl =>
    rw [hm] at hn
    cases hn
    exact hinv
  | @step d p a hp _ ih =>
    obtain ⟨n', hn', hnp⟩ := Option.bind_eq_some_iff.1 hp
    rw [hn] at hn'
    cases hn'
    -- the parent sits before the child, so it is a node of the array
    have hpl : p < s.nodes.length := lt_trans (hw.parent_lt d p hp) (lt_length_of_getNode s hn)
    have hpn : s.getNode p = some s.nodes[p] := List.getElem?_eq_getElem hpl
    exact hi d n p _ hn hnp hpn (ih hm hpn)

/-- Along the links of `relevantParentOf`, every ancestor of a `Valid` node is `Valid` or
`Irrelevant`: the walk stops at the first `Irrelevant` one. -/
theorem ValidClosed.ancestor {s : ProtoArray} (hv : ValidClosed s) {d a : Nat}
    (h : Reaches s.relevantParentOf d a) {n m : ProtoNode} (hn : s.getNode d = some n)
    (hval : n.executionStatus.isValidAndPostBellatrix = true) (hm : s.getNode a = some m) :
    m.executionStatus.isValidOrIrrelevant = true := by
  induction h generalizing n with
  | refl =>
    rw [hm] at hn
    cases hn
    cases hs : m.executionStatus <;>
      simp_all [ExecutionStatus.isValidAndPostBellatrix, ExecutionStatus.isValidOrIrrelevant]
  | @step d p a hp hrest ih =>
    obtain ⟨n', hn', hnp⟩ := Option.bind_eq_some_iff.1 hp
    rw [hn] at hn'
    cases hn'
    have hen : n.executionStatus.isExecutionEnabled = true := by
      cases hs : n.executionStatus <;>
        simp_all [ExecutionStatus.isValidAndPostBellatrix, ExecutionStatus.isExecutionEnabled]
    rw [if_pos hen] at hnp
    cases hpn : s.getNode p with
    | none =>
      -- a missing parent ends the walk
      cases hrest with
      | refl => rw [hm] at hpn; cases hpn
      | step hq _ => simp [relevantParentOf, hpn] at hq
    | some pn =>
      have hpv := hv d n p pn hn hnp hpn (by simp) hval
      cases hps : pn.executionStatus with
      | valid h' => exact ih hpn (by simp [hps, ExecutionStatus.isValidAndPostBellatrix]) hm
      | irrelevant f =>
        -- at an `Irrelevant` parent the walk stops, so it is the ancestor
        cases hrest with
        | refl => rw [hm] at hpn; cases hpn; simp [hps, ExecutionStatus.isValidOrIrrelevant]
        | step hq _ =>
          simp [relevantParentOf, hpn, hps, ExecutionStatus.isExecutionEnabled] at hq
      | optimistic h' => simp [hps, ExecutionStatus.isValidOrIrrelevant] at hpv
      | invalid h' => simp [hps, ExecutionStatus.isValidOrIrrelevant] at hpv

end ProtoArray

namespace ProtoArrayForkChoice

open ProtoArray EStateM ParentChain

/-- Whether the call `op` on `fc` is a step of a run of the execution-status calls, with PTC
votes when `ptc` holds. An invalidation is one when it succeeds. -/
def Operation.isStatusStep (spec : ChainSpec) (ptc : Bool) (fc : ProtoArrayForkChoice) :
    Operation → Bool
  | .processBlock .. => true
  | .processExecutionPayloadValidation _ => true
  | .processExecutionPayloadInvalidation op =>
    match (ProtoArrayForkChoice.processExecutionPayloadInvalidation spec.slotsPerEpoch op).run fc with
    | .ok _ _ => true
    | .error _ _ => false
  | .onPayloadAttestation .. => ptc
  | _ => false

/-- Whether the calls `ops` from `fc`, in order, are a run of execution-status steps. -/
def isStatusRun (spec : ChainSpec) (ptc : Bool) : ProtoArrayForkChoice → List Operation → Bool
  | _, [] => true
  | fc, op :: ops => op.isStatusStep spec ptc fc && isStatusRun spec ptc (op.apply spec fc) ops

/-- What the execution-status runs keep of the proto-array: its shape, `InvalidClosed`, and
without PTC votes `ValidClosed`. -/
structure StatusInvariant (ptc : Bool) (pa : ProtoArray) : Prop where
  wellFormed : WellFormed pa
  invalidClosed : InvalidClosed pa
  validClosed : ptc = false → ValidClosed pa

theorem keeps_statusInvariant_onBlock (ptc : Bool) (spe : Nat) (block : Block) (currentSlot : Slot) :
    Keeps (StatusInvariant ptc) (onBlock spe block currentSlot) := fun s h =>
  { wellFormed := keeps_onBlock spe block currentSlot s h.wellFormed
    invalidClosed := h.wellFormed.invalidClosed_onBlock h.invalidClosed spe block currentSlot
    validClosed := fun hp =>
      h.wellFormed.validClosed_onBlock h.invalidClosed (h.validClosed hp) spe block currentSlot }

/-- Validation keeps the invariant whatever the outcome: a failing one changes nothing. -/
theorem keeps_statusInvariant_propagateExecutionPayloadValidation (ptc : Bool)
    (blockRoot : Hash256) :
    Keeps (StatusInvariant ptc) (propagateExecutionPayloadValidation blockRoot) := by
  intro s h
  cases hr : (propagateExecutionPayloadValidation blockRoot).run s with
  | ok _ s' =>
    have hw := keeps_wellFormed_of_moves (moves_propagateExecutionPayloadValidation blockRoot) s
      h.wellFormed
    have hi := keeps_invalidClosed_propagateExecutionPayloadValidation blockRoot s h.invalidClosed
    rw [hr] at hw hi
    exact ⟨hw, hi, fun hp => h.wellFormed.validClosed_propagateExecutionPayloadValidation
      (h.validClosed hp) hr⟩
  | error _ s' =>
    rw [h.wellFormed.propagateExecutionPayloadValidation_error h.invalidClosed hr]
    exact h

/-- A successful invalidation keeps the invariant. -/
theorem statusInvariant_propagateExecutionPayloadInvalidation {ptc : Bool} {s s' : ProtoArray}
    (h : StatusInvariant ptc s) {spe : Nat} {op : InvalidationOperation}
    (hr : (propagateExecutionPayloadInvalidation spe op).run s = .ok () s') :
    StatusInvariant ptc s' := by
  have hw := keeps_wellFormed_of_moves
    (invalidationWrites_reshape.moves_propagateExecutionPayloadInvalidation spe op) s h.wellFormed
  have hv := fun hp => keeps_validClosed_propagateExecutionPayloadInvalidation spe op s
    (h.validClosed hp)
  rw [hr] at hw hv
  exact ⟨hw, h.wellFormed.invalidClosed_propagateExecutionPayloadInvalidation h.invalidClosed hr, hv⟩

/-- The step lemma: an execution-status step keeps the invariant. -/
theorem statusInvariant_apply (spec : ChainSpec) {ptc : Bool} {fc : ProtoArrayForkChoice}
    (h : StatusInvariant ptc fc.protoArray) (op : Operation)
    (hop : op.isStatusStep spec ptc fc = true) : StatusInvariant ptc (op.apply spec fc).protoArray := by
  cases op with
  | processBlock block currentSlot =>
    simp only [Operation.apply, processBlock]
    split
    · exact h
    · exact keeps_liftProtoArray _ (keeps_statusInvariant_onBlock ptc _ block currentSlot) fc h
  | processExecutionPayloadValidation blockRoot =>
    exact keeps_liftProtoArray _
      (keeps_statusInvariant_propagateExecutionPayloadValidation ptc blockRoot) fc h
  | processExecutionPayloadInvalidation op =>
    simp only [Operation.isStatusStep] at hop
    simp only [Operation.apply]
    split at hop
    · rename_i a fc' hr
      rw [hr]
      simp only [processExecutionPayloadInvalidation, run_liftProtoArray] at hr
      split at hr
      · rename_i pa hpa
        cases hr
        exact statusInvariant_propagateExecutionPayloadInvalidation h hpa
      · cases hr
    · cases hop
  | onPayloadAttestation slot beaconBlockRoot payloadPresent blobDataAvailable attestingIndices
      currentSlot =>
    -- PTC votes take part only in runs with `ptc`, where `ValidClosed` is not kept
    simp only [Operation.isStatusStep] at hop
    refine ⟨h.wellFormed.reshape (ForkChoice.moves_onPayloadAttestation _ _ slot beaconBlockRoot
      payloadPresent blobDataAvailable attestingIndices currentSlot _),
      keeps_invalidClosed_onPayloadAttestation _ _ slot beaconBlockRoot payloadPresent
        blobDataAvailable attestingIndices currentSlot _ h.invalidClosed, fun hp => ?_⟩
    rw [hp] at hop
    cases hop
  | processAttestation => cases hop
  | findHead => cases hop
  | maybePrune => cases hop
  | onExecutionBid => cases hop
  | onExecutionPayload => cases hop

/-- The run lemma. -/
theorem statusInvariant_applyAll (spec : ChainSpec) {ptc : Bool} :
    ∀ (ops : List Operation) {fc : ProtoArrayForkChoice}, StatusInvariant ptc fc.protoArray →
      isStatusRun spec ptc fc ops = true → StatusInvariant ptc (applyAll spec fc ops).protoArray
  | [], _, h, _ => h
  | op :: ops, _, h, hrun => by
    simp only [isStatusRun, Bool.and_eq_true] at hrun
    exact statusInvariant_applyAll spec ops (statusInvariant_apply spec h op hrun.1) hrun.2

/-- `new` starts from a single node, which satisfies the invariant. -/
theorem statusInvariant_new (ptc : Bool) {spe : Nat} {currentSlot finalizedBlockSlot : Slot}
    {justifiedCheckpoint finalizedCheckpoint : Checkpoint} {executionStatus : ExecutionStatus}
    {fc : ProtoArrayForkChoice}
    (h : new spe currentSlot finalizedBlockSlot justifiedCheckpoint finalizedCheckpoint
      executionStatus = .ok fc) : StatusInvariant ptc fc.protoArray := by
  unfold new at h
  dsimp only at h
  split at h
  · rename_i a pa hr
    cases h
    have hpa : pa = (Result.ok a pa : Result Error ProtoArray Unit).state := rfl
    rw [hpa, ← hr]
    dsimp only
    -- on the empty array there is no node, so no link to check
    refine keeps_statusInvariant_onBlock ptc _ _ _ _ ⟨wellFormed_of_empty rfl rfl, ?_, ?_⟩
    · intro c n p m hc
      simp [getNode] at hc
    · intro _ c n p m hc
      simp [getNode] at hc
  · cases h

/-- On a well-formed array with `InvalidClosed`, a failing `process_execution_payload_validation`
leaves the fork choice as it was. -/
theorem processExecutionPayloadValidation_error {fc fc' : ProtoArrayForkChoice}
    (hw : WellFormed fc.protoArray) (hi : InvalidClosed fc.protoArray) {blockRoot : Hash256}
    {e : ForkChoiceError} (h : (processExecutionPayloadValidation blockRoot).run fc = .error e fc') :
    fc' = fc := by
  simp only [processExecutionPayloadValidation, run_liftProtoArray] at h
  split at h
  · cases h
  · rename_i e' pa hpa
    cases h
    rw [hw.propagateExecutionPayloadValidation_error hi hpa]

/-- Execution statuses along a run from `new` of `process_block`, the propagations of the
execution layer's verdicts with every invalidation succeeding, and PTC votes when `ptc` holds:
every descendant of an `Invalid` node is `Invalid`; without PTC votes every ancestor of a
`Valid` node reached without passing an `Irrelevant` node is `Valid` or `Irrelevant`; and a
failing validation leaves the fork choice as it was. -/
theorem reachable_executionStatus_consistent (spec : ChainSpec) {spe : Nat}
    {currentSlot finalizedBlockSlot : Slot} {justifiedCheckpoint finalizedCheckpoint : Checkpoint}
    {executionStatus : ExecutionStatus} {fc : ProtoArrayForkChoice}
    (h : new spe currentSlot finalizedBlockSlot justifiedCheckpoint finalizedCheckpoint
      executionStatus = .ok fc) (ptc : Bool) (ops : List Operation)
    (hrun : isStatusRun spec ptc fc ops = true) :
    (∀ d a m n, Reaches (applyAll spec fc ops).protoArray.parentOf d a →
      (applyAll spec fc ops).protoArray.getNode a = some m → m.executionStatus.isInvalid = true →
      (applyAll spec fc ops).protoArray.getNode d = some n → n.executionStatus.isInvalid = true) ∧
    (ptc = false → ∀ d a n m, Reaches (applyAll spec fc ops).protoArray.relevantParentOf d a →
      (applyAll spec fc ops).protoArray.getNode d = some n →
      n.executionStatus.isValidAndPostBellatrix = true →
      (applyAll spec fc ops).protoArray.getNode a = some m →
      m.executionStatus.isValidOrIrrelevant = true) ∧
    (∀ blockRoot e fc', (processExecutionPayloadValidation blockRoot).run (applyAll spec fc ops) =
      .error e fc' → fc' = applyAll spec fc ops) := by
  have hs := statusInvariant_applyAll spec ops (statusInvariant_new ptc h) hrun
  refine ⟨fun d a m n hr hm hinv hn => hs.invalidClosed.descendant hs.wellFormed hr hm hinv hn,
    fun hp d a n m hr hn hval hm => (hs.validClosed hp).ancestor hr hn hval hm,
    fun _ _ _ he => processExecutionPayloadValidation_error hs.wellFormed hs.invalidClosed he⟩

/-- A block of the runs below: at `slot` with `root` on `parentRoot`, every checkpoint at the
genesis block 1. -/
def runBlock (slot : Slot) (root parentRoot : Hash256) (executionStatus : ExecutionStatus)
    (bidBlockHash : Option ExecutionBlockHash) : Block :=
  { slot, root, parentRoot := some parentRoot, justifiedCheckpoint := ⟨0, 1⟩,
    finalizedCheckpoint := ⟨0, 1⟩, executionStatus,
    unrealizedJustifiedCheckpoint := some ⟨0, 1⟩, unrealizedFinalizedCheckpoint := some ⟨0, 1⟩,
    builderIndex := none, payloadRevealed := false, ptcWeight := 0,
    ptcBlobDataAvailableWeight := 0, payloadDataAvailable := false, bidBlockHash,
    bidParentBlockHash := none, proposerIndex := 0, ptcTimely := false,
    envelopeReceived := false, inclusionListSatisfied := false }

theorem reachable_executionStatus_consistent_validated :
    let spec : ChainSpec := ⟨8, none, none, 512, none⟩
    let fc := (new 8 1 0 ⟨0, 1⟩ ⟨0, 1⟩ (.optimistic 10)).toOption.get (by decide)
    let ops : List Operation :=
      [.processBlock (runBlock 1 2 1 (.optimistic 20) none) 1,
       .processExecutionPayloadValidation 2]
    (∀ d a m n, Reaches (applyAll spec fc ops).protoArray.parentOf d a →
      (applyAll spec fc ops).protoArray.getNode a = some m → m.executionStatus.isInvalid = true →
      (applyAll spec fc ops).protoArray.getNode d = some n → n.executionStatus.isInvalid = true) ∧
    (false = false → ∀ d a n m, Reaches (applyAll spec fc ops).protoArray.relevantParentOf d a →
      (applyAll spec fc ops).protoArray.getNode d = some n →
      n.executionStatus.isValidAndPostBellatrix = true →
      (applyAll spec fc ops).protoArray.getNode a = some m →
      m.executionStatus.isValidOrIrrelevant = true) ∧
    (∀ blockRoot e fc', (processExecutionPayloadValidation blockRoot).run (applyAll spec fc ops) =
      .error e fc' → fc' = applyAll spec fc ops) :=
  @reachable_executionStatus_consistent ⟨8, none, none, 512, none⟩ 8 1 0 ⟨0, 1⟩ ⟨0, 1⟩
    (.optimistic 10) _ (by decide) false _ (by decide)

/-- The parent link and the execution status of every node. -/
def statuses (pa : ProtoArray) : List (Option Nat × ExecutionStatus) :=
  pa.nodes.map fun n => (n.parent, n.executionStatus)

/-- Block 2 (`Optimistic`) on the genesis block 1 (`Optimistic`), block 3 (`Irrelevant`) on
block 2; then block 2 is invalidated. -/
def invalidationOverIrrelevant : Except ForkChoiceError (ProtoArrayForkChoice × ProtoArrayForkChoice) := do
  let fc ← new 8 1 0 ⟨0, 1⟩ ⟨0, 1⟩ (.optimistic 10)
  let fc := applyAll ⟨8, none, none, 512, none⟩ fc
    [.processBlock (runBlock 1 2 1 (.optimistic 20) none) 1,
     .processBlock (runBlock 2 3 2 (.irrelevant false) none) 2]
  pure (fc, Operation.apply ⟨8, none, none, 512, none⟩ fc
    (.processExecutionPayloadInvalidation (.invalidateOne 2)))

/-- Block 2 (`Irrelevant`, with a bid) on the genesis block 1 (`Optimistic`), and block 3
(`Valid`) on block 2, then the call `last`. -/
def validBelowIrrelevant (last : Operation) : Except ForkChoiceError ProtoArrayForkChoice := do
  let fc ← new 8 1 0 ⟨0, 1⟩ ⟨0, 1⟩ (.optimistic 10)
  pure <| applyAll ⟨8, none, none, 2, none⟩ fc
    [.processBlock (runBlock 1 2 1 (.irrelevant false) (some 5)) 1,
     .processBlock (runBlock 2 3 2 (.valid 30) none) 2,
     last]

/-- Four runs that leave the execution statuses inconsistent. A failing invalidation keeps what
it wrote: block 2 is `Invalid` and its child 3 `Irrelevant`. Validation stops at an
`Irrelevant` node, so a `Valid` node can have an `Optimistic` ancestor above it. Both
`on_execution_payload` and a PTC quorum write `Optimistic` over the `Irrelevant` parent of a
`Valid` node. -/
theorem executionStatus_counterexamples :
    invalidationOverIrrelevant.map (fun r =>
        (Operation.isStatusStep ⟨8, none, none, 512, none⟩ true r.1
          (.processExecutionPayloadInvalidation (.invalidateOne 2)),
         statuses r.1.protoArray, statuses r.2.protoArray)) =
      .ok (false,
        [(none, .optimistic 10), (some 0, .optimistic 20), (some 1, .irrelevant false)],
        [(none, .optimistic 10), (some 0, .invalid 20), (some 1, .irrelevant false)]) ∧
    (validBelowIrrelevant (.processExecutionPayloadValidation 3)).map (statuses ·.protoArray) =
      .ok [(none, .optimistic 10), (some 0, .irrelevant false), (some 1, .valid 30)] ∧
    (validBelowIrrelevant (.onExecutionPayload 2 11 true)).map (statuses ·.protoArray) =
      .ok [(none, .optimistic 10), (some 0, .optimistic 11), (some 1, .valid 30)] ∧
    (validBelowIrrelevant (.onPayloadAttestation 1 2 true false [0, 1] 2)).map
        (statuses ·.protoArray) =
      .ok [(none, .optimistic 10), (some 0, .optimistic 5), (some 1, .valid 30)] := by
  refine ⟨?_, ?_, ?_, ?_⟩ <;> decide

end ProtoArrayForkChoice
end Vibehouse
