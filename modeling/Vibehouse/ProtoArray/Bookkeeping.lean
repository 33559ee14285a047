import Vibehouse.ProtoArray.ForkChoice

/-! # The bookkeeping of `find_head`

What `find_head` leaves behind besides the head: the vote table and the stored balances.

Both branches move `next_*` into `current_*` the same way: `compute_deltas` changes each vote as
`apply_vote_updates` does (`computeDeltas_votes`). The move happens when the root or the
validator's balance changed; a newer message for the root already in force, with another slot or
payload flag, leaves the old slot and flag in force (`sameRootRevote_keeps_stale_vote`).

The stored balances, which the next call takes as the old ones, are replaced only when the
length, the total or the number of active validators changes (`findHead_balances`): new
balances that differ from the stored ones only position by position leave them stale, and the
next call subtracts balances that were never added (`permutedBalances_weights`). Under Gloas,
where the weights are summed from the stored balances at each call, the stale balances choose
the head itself (`findHead_gloas_weighs_stale_balances`). -/

namespace Vibehouse
namespace ProtoArrayForkChoice

variable {indices : List (Hash256 × Nat)} {oldBalances newBalances equivocatingIndices : List Nat}

theorem computeDelta_vote {valIndex : Nat} {vote : VoteTracker} {deltas : List Int}
    {r : List Int × VoteTracker}
    (h : computeDelta indices oldBalances newBalances equivocatingIndices valIndex vote deltas = .ok r) :
    r.2 = applyVoteUpdate oldBalances newBalances equivocatingIndices valIndex vote := by
  dsimp only [computeDelta] at h
  dsimp only [applyVoteUpdate]
  split_ifs at h ⊢
  all_goals first
    | (cases h; rfl)
    | (obtain ⟨_, -, h⟩ := Except.bind_eq_ok.1 h; cases h; rfl)
    | (obtain ⟨_, -, h⟩ := Except.bind_eq_ok.1 h
       obtain ⟨_, -, h⟩ := Except.bind_eq_ok.1 h; cases h; rfl)

theorem computeDeltasFrom_votes : ∀ (valIndex : Nat) (votes : List VoteTracker) (deltas d : List Int),
    (computeDeltasFrom indices oldBalances newBalances equivocatingIndices valIndex votes deltas).1 = .ok d →
    (computeDeltasFrom indices oldBalances newBalances equivocatingIndices valIndex votes deltas).2 =
      votes.mapIdx fun j vote => applyVoteUpdate oldBalances newBalances equivocatingIndices (valIndex + j) vote
  | _, [], _, _, _ => rfl
  | valIndex, vote :: votes, deltas, d, h => by
    unfold computeDeltasFrom at h ⊢
    cases hc : computeDelta indices oldBalances newBalances equivocatingIndices valIndex vote deltas with
    | error e => simp [hc] at h
    | ok r =>
      obtain ⟨deltas', vote'⟩ := r
      simp only [hc] at h ⊢
      have hvote : vote' = applyVoteUpdate oldBalances newBalances equivocatingIndices valIndex vote :=
        computeDelta_vote hc
      rw [computeDeltasFrom_votes (valIndex + 1) votes deltas' d h, List.mapIdx_cons, hvote]
      simp only [Nat.add_zero, Nat.add_assoc, Nat.add_comm 1]

/-- The votes `compute_deltas` leaves, when it succeeds, are those of `apply_vote_updates`. -/
theorem computeDeltas_votes {votes : List VoteTracker} {d : List Int}
    (h : (computeDeltas indices votes oldBalances newBalances equivocatingIndices).1 = .ok d) :
    (computeDeltas indices votes oldBalances newBalances equivocatingIndices).2 =
      applyVoteUpdates votes oldBalances newBalances equivocatingIndices := by
  simp only [computeDeltas, applyVoteUpdates] at h ⊢
  rw [computeDeltasFrom_votes 0 votes _ d h]
  simp only [Nat.zero_add]

/-- The balances a successful `find_head` stores, in either branch. -/
theorem findHead_balances {spec : ChainSpec} {justifiedCheckpoint finalizedCheckpoint : Checkpoint}
    {newBalances : JustifiedBalances} {proposerBoostRoot : Hash256} {currentSlot : Slot}
    {fc fc' : ProtoArrayForkChoice} {head : Hash256}
    (h : (findHead spec justifiedCheckpoint finalizedCheckpoint newBalances proposerBoostRoot
        equivocatingIndices currentSlot).run fc = .ok head fc') :
    fc'.balances = (fc.maybeUpdateBalances newBalances).balances := by
  by_cases hg : IsGloas spec currentSlot
  · rw [findHead_run_of_isGloas fc hg] at h
    dsimp only at h
    split at h
    · cases h
      simp [gloasPrepare, maybeUpdateBalances_balances]
    · cases h
  · rw [findHead_run_of_not_isGloas fc hg] at h
    dsimp only at h
    split at h
    · cases h
    · split at h
      · cases h
      · split at h
        · cases h
          simp [preGloasFinish, maybeUpdateBalances_balances]
        · cases h

/-- Validator 0 attests to block 2 (slot 1, on the genesis block 1) at slot 1 without the
payload, `find_head` runs, the validator attests to block 2 again in epoch 1 at slot 9 with the
payload, and `find_head` runs again: the Gloas branch when Gloas starts at `gloasForkEpoch`. -/
def sameRootRevote (gloasForkEpoch : Option Epoch) : Except ForkChoiceError ProtoArrayForkChoice := do
  let genesis : Checkpoint := ⟨0, 1⟩
  let fc ← new 8 1 0 genesis genesis (.irrelevant false)
  let block : Block :=
    { slot := 1, root := 2, parentRoot := some 1, justifiedCheckpoint := genesis,
      finalizedCheckpoint := genesis, executionStatus := .irrelevant false,
      unrealizedJustifiedCheckpoint := some genesis, unrealizedFinalizedCheckpoint := some genesis,
      builderIndex := none, payloadRevealed := false, ptcWeight := 0,
      ptcBlobDataAvailableWeight := 0, payloadDataAvailable := false, bidBlockHash := none,
      bidParentBlockHash := none, proposerIndex := 0, ptcTimely := false,
      envelopeReceived := false, inclusionListSatisfied := false }
  let balances : JustifiedBalances := ⟨[32], 32, 1⟩
  pure <| applyAll ⟨8, some 40, some 20, 512, gloasForkEpoch⟩ fc
    [.processBlock block 1,
     .processAttestation 0 2 0 1 false,
     .findHead genesis genesis balances 0 [] 2,
     .processAttestation 0 2 1 9 true,
     .findHead genesis genesis balances 0 [] 10]

/-- In both branches the second message is accepted (it is the latest message) but never comes
into force: the vote in force keeps slot 1 and no payload. -/
theorem sameRootRevote_keeps_stale_vote :
    (sameRootRevote none).map (fun fc => fc.votes) =
        .ok [{ currentRoot := 2, nextRoot := 2, nextEpoch := 1, currentSlot := 1, nextSlot := 9,
               currentPayloadPresent := false, nextPayloadPresent := true }] ∧
      (sameRootRevote (some 0)).map (fun fc => fc.votes) =
        .ok [{ currentRoot := 2, nextRoot := 2, nextEpoch := 1, currentSlot := 1, nextSlot := 9,
               currentPayloadPresent := false, nextPayloadPresent := true }] := by
  constructor <;> decide

/-- Blocks 2 and 3 on the genesis block 1, validator 0 attesting to 2 and validator 1 to 3, and
three pre-Gloas `find_head` calls: with balances `[10, 20]`, then twice with `[20, 10]`, which
has the same length, total and number of active validators. -/
def permutedBalances : Except ForkChoiceError ProtoArrayForkChoice := do
  let genesis : Checkpoint := ⟨0, 1⟩
  let fc ← new 8 1 0 genesis genesis (.irrelevant false)
  let block (root : Hash256) : Block :=
    { slot := 1, root, parentRoot := some 1, justifiedCheckpoint := genesis,
      finalizedCheckpoint := genesis, executionStatus := .irrelevant false,
      unrealizedJustifiedCheckpoint := some genesis, unrealizedFinalizedCheckpoint := some genesis,
      builderIndex := none, payloadRevealed := false, ptcWeight := 0,
      ptcBlobDataAvailableWeight := 0, payloadDataAvailable := false, bidBlockHash := none,
      bidParentBlockHash := none, proposerIndex := 0, ptcTimely := false,
      envelopeReceived := false, inclusionListSatisfied := false }
  pure <| applyAll ⟨8, none, none, 512, none⟩ fc
    [.processBlock (block 2) 1,
     .processBlock (block 3) 1,
     .processAttestation 0 2 0 1 false,
     .processAttestation 1 3 0 1 false,
     .findHead genesis genesis ⟨[10, 20], 30, 2⟩ 0 [] 2,
     .findHead genesis genesis ⟨[20, 10], 30, 2⟩ 0 [] 3,
     .findHead genesis genesis ⟨[20, 10], 30, 2⟩ 0 [] 4]

/-- After the last call block 2, whose one voter has balance 20, weighs 30, and block 3, whose
one voter has balance 10, weighs 0: the stored `[10, 20]` were subtracted from the weights at
the third call as well. -/
theorem permutedBalances_weights :
    permutedBalances.map (fun fc => (fc.protoArray.nodes.map (·.weight), fc.balances)) =
      .ok ([30, 30, 0], ⟨[10, 20], 30, 2⟩) := by
  decide +kernel

/-- The same blocks and attestations under Gloas, from epoch 0 on, and a `find_head` at slot 2
with the balances `first`. -/
def gloasVotedRun (first : JustifiedBalances) : Except ForkChoiceError ProtoArrayForkChoice := do
  let genesis : Checkpoint := ⟨0, 1⟩
  let fc ← new 8 1 0 genesis genesis (.irrelevant false)
  let block (root : Hash256) : Block :=
    { slot := 1, root, parentRoot := some 1, justifiedCheckpoint := genesis,
      finalizedCheckpoint := genesis, executionStatus := .irrelevant false,
      unrealizedJustifiedCheckpoint := some genesis, unrealizedFinalizedCheckpoint := some genesis,
      builderIndex := none, payloadRevealed := false, ptcWeight := 0,
      ptcBlobDataAvailableWeight := 0, payloadDataAvailable := false, bidBlockHash := none,
      bidParentBlockHash := none, proposerIndex := 0, ptcTimely := false,
      envelopeReceived := false, inclusionListSatisfied := false }
  pure <| applyAll ⟨8, none, none, 512, some 0⟩ fc
    [.processBlock (block 2) 1,
     .processBlock (block 3) 1,
     .processAttestation 0 2 0 1 false,
     .processAttestation 1 3 0 1 false,
     .findHead genesis genesis first 0 [] 2]

/-- The head the next `find_head`, at slot 3 with the balances `[20, 10]`, returns. -/
def gloasHeadAfter (first : JustifiedBalances) : Except ForkChoiceError Hash256 := do
  let genesis : Checkpoint := ⟨0, 1⟩
  let fc ← gloasVotedRun first
  match (findHead ⟨8, none, none, 512, some 0⟩ genesis genesis ⟨[20, 10], 30, 2⟩ 0 [] 3).run
      fc with
  | .ok head _ => pure head
  | .error e _ => throw e

/-- Whether the earlier call had `[10, 20]` or `[20, 10]`, the last call sees the same
proto-array and the same votes, and is given `[20, 10]`, under which block 2 has the heavier
voter. After `[10, 20]` the stored balances are stale, and the Gloas head is block 3. -/
theorem findHead_gloas_weighs_stale_balances :
    (gloasVotedRun ⟨[10, 20], 30, 2⟩).map (fun fc => (fc.protoArray.nodes, fc.votes)) =
        (gloasVotedRun ⟨[20, 10], 30, 2⟩).map (fun fc => (fc.protoArray.nodes, fc.votes)) ∧
      gloasHeadAfter ⟨[10, 20], 30, 2⟩ = .ok 3 ∧ gloasHeadAfter ⟨[20, 10], 30, 2⟩ = .ok 2 := by
  decide +kernel

end ProtoArrayForkChoice
end Vibehouse
