import Vibehouse.ProtoArray.Prune

/-! # Reachable states of the fork choice

The states that `ProtoArrayForkChoice::new` and then any sequence of calls reach: the methods of
`ProtoArrayForkChoice` and the Gloas handlers of `ForkChoice` that write its proto-array. Each
call keeps the structural invariant of the proto-array, whether it succeeds or fails, so every
reachable proto-array is well-formed; on such an array `maybe_prune` never fails with
`IndexOverflow` and every walk up the parent links ends. -/

namespace Vibehouse

namespace ForkChoice

open ProtoArray EStateM

/-- A handler that looks a node up and then writes: it moves along a reflexive relation when
every write it makes after a successful lookup does. -/
theorem moves_lookupNode_bind {α : Type} {R : ProtoArray → ProtoArray → Prop} (refl : ∀ s, R s s)
    {root : Hash256} {unknown : Error} {f : Nat × ProtoNode → PaM α}
    (hf : ∀ s i n, s.getNode i = some n → R s ((f (i, n)).run s).state) :
    Moves R (lookupNode root unknown >>= f) := by
  intro s
  cases hi : s.getIndex root with
  | none => simpa [lookupNode, hi] using refl s
  | some i =>
    cases hn : s.getNode i with
    | none => simpa [lookupNode, hi, hn] using refl s
    | some n => simpa [lookupNode, hi, hn] using hf s i n hn

theorem moves_onExecutionBid (bidSlot : Slot) (builderIndex : BuilderIndex)
    (beaconBlockRoot : Hash256) : Moves Reshape (onExecutionBid bidSlot builderIndex beaconBlockRoot) := by
  unfold onExecutionBid
  refine moves_lookupNode_bind Reshape.refl fun s i n hn => ?_
  by_cases hslot : bidSlot = n.slot
  · simp only [hslot, ne_eq, not_true_eq_false, if_false, run_modify, Result.state_ok]
    exact Reshape.setNode hn (by split_ifs <;> rfl) (by split_ifs <;> simp) (by split_ifs <;> simp)
  · simpa [hslot] using Reshape.refl s

theorem moves_onPayloadAttestation (spe ptcSize : Nat) (slot : Slot) (beaconBlockRoot : Hash256)
    (payloadPresent blobDataAvailable : Bool) (attestingIndices : List Nat) (currentSlot : Slot) :
    Moves Reshape (onPayloadAttestation spe ptcSize slot beaconBlockRoot payloadPresent
      blobDataAvailable attestingIndices currentSlot) := by
  intro s
  unfold onPayloadAttestation
  by_cases hfuture : slot > currentSlot
  · simpa [hfuture] using Reshape.refl s
  by_cases hold : currentSlot > slot + spe
  · simpa [hfuture, hold] using Reshape.refl s
  simp only [hfuture, hold, if_false]
  refine moves_lookupNode_bind Reshape.refl (fun s i n hn => ?_) s
  by_cases hslot : slot = n.slot
  · -- the counters, the reveal and the availability are fields outside the shape
    simp only [hslot, ne_eq, not_true_eq_false, if_false]
    exact Reshape.setNode hn (by split_ifs <;> (try split) <;> rfl)
      (by split_ifs <;> (try split) <;> simp) (by split_ifs <;> (try split) <;> simp)
  · simpa [hslot] using Reshape.refl s

theorem moves_onExecutionPayload (beaconBlockRoot : Hash256) (payloadBlockHash : ExecutionBlockHash)
    (inclusionListSatisfied : Bool) :
    Moves Reshape (onExecutionPayload beaconBlockRoot payloadBlockHash inclusionListSatisfied) := by
  unfold onExecutionPayload
  refine moves_lookupNode_bind Reshape.refl fun s i n hn => ?_
  simp only [run_modify, Result.state_ok]
  exact Reshape.setNode hn rfl (.inl rfl) (.inl rfl)

end ForkChoice

namespace ProtoArray

/-- An array with no nodes and no indices is well-formed. -/
theorem wellFormed_of_empty {s : ProtoArray} (hn : s.nodes = []) (hi : s.indices = []) :
    WellFormed s where
  mem_indices r i := by simp [hi, getNode, hn]
  keys_nodup := by simp [hi]
  parent_lt i p h := by simp [parentOf, getNode, hn] at h
  bestChild_parent i n c h := by simp [getNode, hn] at h
  bestDescendant_reaches i n d h := by simp [getNode, hn] at h

end ProtoArray

namespace ProtoArrayForkChoice

open ProtoArray EStateM ParentChain

/-- A call on the fork choice that keeps its proto-array well-formed. -/
def KeepsWellFormed {α : Type} (m : FcM α) : Prop :=
  Keeps (fun fc : ProtoArrayForkChoice => WellFormed fc.protoArray) m

/-- A property of the proto-array that a method keeps, the fork choice keeps through it. -/
theorem keeps_liftProtoArray {α : Type} {P : ProtoArray → Prop} (f : Error → ForkChoiceError)
    {m : ProtoArray.M α} (h : Keeps P m) :
    Keeps (fun fc : ProtoArrayForkChoice => P fc.protoArray) (liftProtoArray f m) := by
  intro fc hfc
  have hm := h fc.protoArray hfc
  rw [run_liftProtoArray]
  cases hr : m.run fc.protoArray with
  | ok a pa => simpa [hr] using hm
  | error e pa => simpa [hr] using hm

theorem keepsWellFormed_liftProtoArray {α : Type} (f : Error → ForkChoiceError) {m : ProtoArray.M α}
    (h : Keeps WellFormed m) : KeepsWellFormed (liftProtoArray f m) :=
  keeps_liftProtoArray f h

theorem keepsWellFormed_processBlock (spe : Nat) (block : Block) (currentSlot : Slot) :
    KeepsWellFormed (processBlock spe block currentSlot) := by
  unfold processBlock
  split
  · exact keeps_throw _
  · exact keepsWellFormed_liftProtoArray _ (keeps_onBlock spe block currentSlot)

theorem keepsWellFormed_findHead (spec : ChainSpec) (justifiedCheckpoint finalizedCheckpoint : Checkpoint)
    (newBalances : JustifiedBalances) (proposerBoostRoot : Hash256) (equivocatingIndices : List Nat)
    (currentSlot : Slot) :
    KeepsWellFormed (findHead spec justifiedCheckpoint finalizedCheckpoint newBalances
      proposerBoostRoot equivocatingIndices currentSlot) := by
  intro fc hfc
  by_cases hg : IsGloas spec currentSlot
  · -- the Gloas branch writes only the checkpoints of the proto-array
    have hw : WellFormed (gloasPrepare fc justifiedCheckpoint finalizedCheckpoint newBalances
        equivocatingIndices).protoArray := by
      simp only [gloasPrepare, maybeUpdateBalances_protoArray]
      exact hfc.reshape (Reshape.of_nodes_eq rfl rfl)
    rw [findHead_run_of_isGloas fc hg]
    dsimp only
    split <;> exact hw
  · -- the pre-Gloas branch writes the proto-array through `apply_score_changes` only
    rw [findHead_run_of_not_isGloas fc hg]
    dsimp only
    split
    · exact hfc
    · rename_i deltas _
      have hs := keeps_applyScoreChanges spec deltas justifiedCheckpoint finalizedCheckpoint
        newBalances proposerBoostRoot currentSlot fc.protoArray hfc
      split
      · rename_i hr
        rw [hr] at hs
        exact hs
      · rename_i hr
        rw [hr] at hs
        split <;> simpa [preGloasFinish] using hs

/-- Every call keeps the proto-array well-formed, whether it succeeds or fails. -/
theorem wellFormed_apply (spec : ChainSpec) {fc : ProtoArrayForkChoice}
    (hfc : WellFormed fc.protoArray) (op : Operation) : WellFormed (op.apply spec fc).protoArray := by
  cases op with
  | processBlock block currentSlot =>
    exact keepsWellFormed_processBlock spec.slotsPerEpoch block currentSlot fc hfc
  | processAttestation validatorIndex blockRoot targetEpoch slot payloadPresent =>
    simp only [Operation.apply, processAttestation]
    split_ifs <;> exact hfc
  | findHead justifiedCheckpoint finalizedCheckpoint balances proposerBoostRoot
      equivocatingIndices currentSlot =>
    exact keepsWellFormed_findHead spec justifiedCheckpoint finalizedCheckpoint balances
      proposerBoostRoot equivocatingIndices currentSlot fc hfc
  | processExecutionPayloadValidation blockRoot =>
    exact keepsWellFormed_liftProtoArray _
      (keeps_wellFormed_of_moves (moves_propagateExecutionPayloadValidation blockRoot)) fc hfc
  | processExecutionPayloadInvalidation op =>
    exact keepsWellFormed_liftProtoArray _
      (keeps_wellFormed_of_moves
        (invalidationWrites_reshape.moves_propagateExecutionPayloadInvalidation _ op)) fc hfc
  | maybePrune finalizedRoot =>
    exact keepsWellFormed_liftProtoArray _ (keeps_maybePrune finalizedRoot) fc hfc
  | onExecutionBid bidSlot builderIndex beaconBlockRoot =>
    exact hfc.reshape (ForkChoice.moves_onExecutionBid bidSlot builderIndex beaconBlockRoot _)
  | onPayloadAttestation slot beaconBlockRoot payloadPresent blobDataAvailable attestingIndices
      currentSlot =>
    exact hfc.reshape (ForkChoice.moves_onPayloadAttestation _ _ slot beaconBlockRoot
      payloadPresent blobDataAvailable attestingIndices currentSlot _)
  | onExecutionPayload beaconBlockRoot payloadBlockHash inclusionListSatisfied =>
    exact hfc.reshape (ForkChoice.moves_onExecutionPayload beaconBlockRoot payloadBlockHash
      inclusionListSatisfied _)

/-- The run lemma: a sequence of calls keeps the proto-array well-formed. -/
theorem wellFormed_applyAll (spec : ChainSpec) :
    ∀ (ops : List Operation) {fc : ProtoArrayForkChoice}, WellFormed fc.protoArray →
      WellFormed (applyAll spec fc ops).protoArray
  | [], _, hfc => hfc
  | op :: ops, _, hfc => wellFormed_applyAll spec ops (wellFormed_apply spec hfc op)

/-- `ProtoArrayForkChoice::new` starts from a well-formed proto-array. -/
theorem wellFormed_new {spe : Nat} {currentSlot finalizedBlockSlot : Slot}
    {justifiedCheckpoint finalizedCheckpoint : Checkpoint} {executionStatus : ExecutionStatus}
    {fc : ProtoArrayForkChoice}
    (h : new spe currentSlot finalizedBlockSlot justifiedCheckpoint finalizedCheckpoint
      executionStatus = .ok fc) : WellFormed fc.protoArray := by
  unfold new at h
  dsimp only at h
  split at h
  · rename_i a pa hr
    cases h
    -- the finalized block is added to the empty array
    have hpa : pa = (Result.ok a pa : Result Error ProtoArray Unit).state := rfl
    rw [hpa, ← hr]
    dsimp only
    refine keeps_onBlock _ _ _ _ ?_
    exact wellFormed_of_empty rfl rfl
  · cases h

/-- Every proto-array reachable from `new` by any sequence of calls is well-formed: `indices`
maps the roots of the nodes one to one onto their positions, parents come first, and the best
links point at a child and at a later descendant. On it `maybe_prune` fails only with an unknown
finalized root, never with `IndexOverflow`, and every walk up the parent links ends. -/
theorem reachable_protoArray_wellFormed (spec : ChainSpec) {spe : Nat}
    {currentSlot finalizedBlockSlot : Slot} {justifiedCheckpoint finalizedCheckpoint : Checkpoint}
    {executionStatus : ExecutionStatus} {fc : ProtoArrayForkChoice}
    (h : new spe currentSlot finalizedBlockSlot justifiedCheckpoint finalizedCheckpoint
      executionStatus = .ok fc) (ops : List Operation) :
    WellFormed (applyAll spec fc ops).protoArray ∧
      (∀ finalizedRoot e pa, (ProtoArray.maybePrune finalizedRoot).run (applyAll spec fc ops).protoArray
          = .error e pa → e = .finalizedNodeUnknown finalizedRoot ∧ pa = (applyAll spec fc ops).protoArray) ∧
      ∀ i, Ends (applyAll spec fc ops).protoArray.parentOf i := by
  have hw := wellFormed_applyAll spec ops (wellFormed_new h)
  exact ⟨hw, fun _ _ _ he => hw.maybePrune_error he, ends_of_descending hw.parent_lt⟩

theorem reachable_protoArray_wellFormed_genesis :
    let fc := (new 8 1 0 ⟨0, 1⟩ ⟨0, 1⟩ (.irrelevant false)).toOption.get (by decide)
    let ops : List Operation := [.maybePrune 1, .onExecutionPayload 1 7 true]
    WellFormed (applyAll ⟨8, none, none, 512, none⟩ fc ops).protoArray ∧
      (∀ finalizedRoot e pa, (ProtoArray.maybePrune finalizedRoot).run
          (applyAll ⟨8, none, none, 512, none⟩ fc ops).protoArray = .error e pa →
        e = .finalizedNodeUnknown finalizedRoot ∧ pa = (applyAll ⟨8, none, none, 512, none⟩ fc ops).protoArray) ∧
      ∀ i, Ends (applyAll ⟨8, none, none, 512, none⟩ fc ops).protoArray.parentOf i :=
  @reachable_protoArray_wellFormed ⟨8, none, none, 512, none⟩ 8 1 0 ⟨0, 1⟩ ⟨0, 1⟩
    (.irrelevant false) _ (by decide) _

end ProtoArrayForkChoice

end Vibehouse
