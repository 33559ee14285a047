import Vibehouse.ProtoArray.WellFormed
import Vibehouse.Lib.RustIter

/-! # Ancestry in the proto-array

What `is_finalized_checkpoint_or_descendant` and `is_descendant` compute, on arrays whose parent
links lower the slot but need not point to earlier positions. The ancestor of a node at a slot
is the first node at or below that slot on the walk up its parent links (`AncestorAt`). A
root is a finalized descendant when its ancestor at the start slot of the finalized epoch is
the finalized root: the four checkpoint comparisons before the walk agree with that when every
checkpoint of a node names one of its ancestors. `is_descendant` looks the ancestor up through
`indices`, so it finds exactly the roots on the walk when `indices` maps every root to its
node. -/

namespace Vibehouse

/-- The checkpoints a node carries: justified, finalized, and the unrealized ones it has. -/
def ProtoNode.checkpoints (n : ProtoNode) : List Checkpoint :=
  [n.justifiedCheckpoint, n.finalizedCheckpoint] ++ n.unrealizedJustifiedCheckpoint.toList ++
    n.unrealizedFinalizedCheckpoint.toList

namespace ProtoArray

open ParentChain

variable (s : ProtoArray)

/-- `j` is the ancestor of position `i` at `slot`: the first node at or below `slot` on the walk
up from `i`. -/
inductive AncestorAt (slot : Slot) : Nat → Nat → Prop
  | here {i : Nat} {n : ProtoNode} : s.getNode i = some n → n.slot ≤ slot → AncestorAt slot i i
  | up {i p j : Nat} {n : ProtoNode} : s.getNode i = some n → slot < n.slot → n.parent = some p →
      AncestorAt slot p j → AncestorAt slot i j

/-- Every parent that is a node of the array has a smaller slot than its child. -/
def SlotsDecrease : Prop :=
  ∀ i n p m, s.getNode i = some n → n.parent = some p → s.getNode p = some m → m.slot < n.slot

/-- Every checkpoint of a node names the node's ancestor at the start slot of its epoch. -/
def CheckpointsNameAncestors (spe : Nat) : Prop :=
  ∀ i n, s.getNode i = some n → ∀ cp ∈ n.checkpoints,
    ∃ j m, AncestorAt s (startSlot spe cp.epoch) i j ∧ s.getNode j = some m ∧ m.root = cp.root

/-- `indices` maps the root of every node to its position, and nothing else. -/
def IndexConsistent : Prop :=
  ∀ r i, s.getIndex r = some i ↔ ∃ n, s.getNode i = some n ∧ n.root = r

/-- The measure the walks lower: one more than the slot of the node, `0` where there is none. -/
def slotMeasure (i : Nat) : Nat := ((s.getNode i).map (·.slot + 1)).getD 0

variable {s}

theorem linksBelow_parentOf (hsl : SlotsDecrease s) :
    LinksBelow s.parentOf s.nodes.length s.slotMeasure := by
  intro i p hp
  obtain ⟨n, hn, hnp⟩ := Option.bind_eq_some_iff.1 hp
  refine ⟨lt_length_of_getNode s hn, ?_⟩
  cases hm : s.getNode p with
  | none => simp [slotMeasure, hn, hm]
  | some m => simp [slotMeasure, hn, hm, hsl i n p m hn hnp hm]

theorem AncestorAt.getNode {slot : Slot} {i j : Nat} (h : AncestorAt s slot i j) :
    ∃ n, s.getNode i = some n := by
  cases h with
  | here hn _ => exact ⟨_, hn⟩
  | up hn _ _ _ => exact ⟨_, hn⟩

/-! ## `is_finalized_checkpoint_or_descendant` -/

section finalized

variable {slot : Slot} {root : Hash256} {stop : Nat → Option Bool}

/-- The loop of `is_finalized_checkpoint_or_descendant`, for any `stop` that answers as it
does: `false` at a missing node, the comparison of roots at or below `slot`, and nothing
above. It ends with `true` exactly when the ancestor at `slot` has the root `root`. -/
theorem climbs_iff_ancestorAt (hnone : ∀ j, s.getNode j = none → stop j = some false)
    (hlow : ∀ j n, s.getNode j = some n → n.slot ≤ slot → stop j = some (n.root == root))
    (hhigh : ∀ j n, s.getNode j = some n → slot < n.slot → stop j = none) {i : Nat} {b : Bool}
    (h : Climbs s.parentOf stop (fun _ => false) i b) :
    b = true ↔ ∃ j m, AncestorAt s slot i j ∧ s.getNode j = some m ∧ m.root = root := by
  induction h with
  | @stop i b hs =>
    cases hn : s.getNode i with
    | none =>
      rw [hnone i hn] at hs
      cases hs
      simp only [Bool.false_eq_true, false_iff]
      rintro ⟨j, m, ha, -, -⟩
      obtain ⟨n, hn'⟩ := ha.getNode
      rw [hn] at hn'
      cases hn'
    | some n =>
      by_cases hsl : n.slot ≤ slot
      · rw [hlow i n hn hsl] at hs
        cases hs
        -- at or below `slot` the ancestor is the node itself
        constructor
        · intro hr
          exact ⟨i, n, .here hn hsl, hn, by simpa using hr⟩
        · rintro ⟨j, m, ha, hm, hr⟩
          cases ha with
          | here hn' _ =>
            rw [hn] at hm
            cases hm
            simpa using hr
          | up hn' hlt _ _ =>
            rw [hn] at hn'
            cases hn'
            exact absurd hsl (Nat.not_le.2 hlt)
      · rw [hhigh i n hn (Nat.lt_of_not_le hsl)] at hs
        cases hs
  | @root i hs hp =>
    simp only [Bool.false_eq_true, false_iff]
    rintro ⟨j, m, ha, -, -⟩
    cases ha with
    | here hn hle =>
      cases hs' : s.getNode i with
      | none => rw [hnone i hs'] at hs; cases hs
      | some n =>
        rw [hn] at hs'
        cases hs'
        rw [hlow i _ hn hle] at hs
        cases hs
    | up hn _ hnp _ => simp [parentOf, hn, hnp] at hp
  | @step i p b hs hp _ ih =>
    -- above `slot` the ancestor is the parent's
    obtain ⟨n, hn, hnp⟩ := Option.bind_eq_some_iff.1 hp
    have hlt : slot < n.slot := by
      by_contra hle
      rw [hlow i n hn (Nat.le_of_not_lt hle)] at hs
      cases hs
    rw [ih]
    constructor
    · rintro ⟨j, m, ha, hm, hr⟩
      exact ⟨j, m, .up hn hlt hnp ha, hm, hr⟩
    · rintro ⟨j, m, ha, hm, hr⟩
      cases ha with
      | here hn' hle =>
        rw [hn] at hn'
        cases hn'
        exact absurd hle (Nat.not_le.2 hlt)
      | up hn' _ hnp' ha =>
        rw [hn] at hn'
        cases hn'
        rw [hnp] at hnp'
        cases hnp'
        exact ⟨j, m, ha, hm, hr⟩

end finalized

/-- `is_finalized_checkpoint_or_descendant(root)` holds exactly when `root` is known and its
ancestor at the start slot of the finalized epoch is the finalized root. -/
theorem isFinalizedCheckpointOrDescendant_iff {spe : Nat} (hck : CheckpointsNameAncestors s spe)
    (hsl : SlotsDecrease s) (root : Hash256) :
    s.isFinalizedCheckpointOrDescendant spe root = true ↔
      ∃ i, s.getIndex root = some i ∧ ∃ j m,
        AncestorAt s (startSlot spe s.finalizedCheckpoint.epoch) i j ∧ s.getNode j = some m ∧
          m.root = s.finalizedCheckpoint.root := by
  unfold isFinalizedCheckpointOrDescendant
  cases hi : s.getIndex root with
  | none => simp
  | some i =>
    dsimp only
    cases hn : s.getNode i with
    | none =>
      simp only [Bool.false_eq_true, Option.some.injEq, exists_eq_left', false_iff]
      rintro ⟨j, m, ha, -, -⟩
      obtain ⟨n, hn'⟩ := ha.getNode
      rw [hn] at hn'
      cases hn'
    | some node =>
      -- a checkpoint of the node equal to the finalized one names the ancestor at its slot
      have hcp : s.finalizedCheckpoint ∈ node.checkpoints → ∃ j m,
          AncestorAt s (startSlot spe s.finalizedCheckpoint.epoch) i j ∧ s.getNode j = some m ∧
            m.root = s.finalizedCheckpoint.root :=
        hck i node hn s.finalizedCheckpoint
      simp only [Option.some.injEq, exists_eq_left']
      split_ifs with h₁ h₂
      · simp only [true_iff]
        apply hcp
        rcases h₁ with h | h <;> simp [ProtoNode.checkpoints, h]
      · simp only [true_iff]
        apply hcp
        rcases h₂ with h | h <;> simp [ProtoNode.checkpoints, h]
      · -- the walk, with enough fuel to end
        apply climbs_iff_ancestorAt
        case h =>
          refine climbs_climb (linksBelow_parentOf hsl) (fun j hj => ?_) _ i (budget_le i)
          simp [getNode, List.getElem?_eq_none hj]
        case hnone => exact fun j hj => by simp [hj]
        case hlow => exact fun j n hj hle => by simp [hj, hle]
        case hhigh => exact fun j n hj hlt => by simp [hj, Nat.not_le.2 hlt]

/-! ## `is_descendant` -/

/-- A walk that ends at a node starts at one. -/
theorem getNode_of_reaches {i j : Nat} (h : Reaches s.parentOf i j) {m : ProtoNode}
    (hm : s.getNode j = some m) : ∃ n, s.getNode i = some n := by
  cases h with
  | refl => exact ⟨m, hm⟩
  | step hp _ => exact (Option.bind_eq_some_iff.1 hp).imp fun _ h => h.1

theorem slot_le_of_reaches (hsl : SlotsDecrease s) {i j : Nat} (h : Reaches s.parentOf i j)
    {n m : ProtoNode} (hn : s.getNode i = some n) (hm : s.getNode j = some m) : m.slot ≤ n.slot := by
  induction h generalizing n with
  | refl =>
    rw [hn] at hm
    cases hm
    exact le_rfl
  | @step i p j hp hr ih =>
    obtain ⟨n', hn', hnp⟩ := Option.bind_eq_some_iff.1 hp
    rw [hn] at hn'
    cases hn'
    obtain ⟨mp, hmp⟩ := getNode_of_reaches hr hm
    exact le_of_lt (lt_of_le_of_lt (ih hmp hm) (hsl i n p mp hn hnp hmp))

/-- Every node strictly above a node on its walk has a smaller slot. -/
theorem slot_lt_of_parent_reaches (hsl : SlotsDecrease s) {i p j : Nat} {n m : ProtoNode}
    (hn : s.getNode i = some n) (hnp : n.parent = some p) (h : Reaches s.parentOf p j)
    (hm : s.getNode j = some m) : m.slot < n.slot := by
  obtain ⟨mp, hmp⟩ := getNode_of_reaches h hm
  exact lt_of_le_of_lt (slot_le_of_reaches hsl h hmp hm) (hsl i n p mp hn hnp hmp)

/-- The nodes of a walk up the parent links, in order, have strictly decreasing slots. -/
theorem pairwise_chain (hsl : SlotsDecrease s) :
    ∀ fuel i, ((chain s.parentOf fuel i).filterMap s.getNode).Pairwise fun a b => b.slot < a.slot
  | 0, _ => by simp
  | fuel + 1, i => by
    rw [chain_succ]
    cases hp : s.parentOf i with
    | none =>
      simp only [List.filterMap_cons, List.filterMap_nil]
      split <;> simp
    | some p =>
      obtain ⟨n, hn, hnp⟩ := Option.bind_eq_some_iff.1 hp
      simp only [List.filterMap_cons, hn, List.pairwise_cons]
      refine ⟨fun m hm => ?_, pairwise_chain hsl fuel p⟩
      obtain ⟨j, hj, hjm⟩ := List.mem_filterMap.1 hm
      exact slot_lt_of_parent_reaches hsl hn hnp (mem_chain_reaches hj) hjm

/-- `iter_nodes(d)` lists the nodes on the walk up from the position of `d`. -/
theorem mem_iterNodes (hsl : SlotsDecrease s) {d : Hash256} {n : ProtoNode} :
    n ∈ s.iterNodes d ↔
      ∃ i, s.getIndex d = some i ∧ ∃ j, Reaches s.parentOf i j ∧ s.getNode j = some n := by
  unfold iterNodes
  cases hd : s.getIndex d with
  | none => simp
  | some i =>
    simp only [List.mem_filterMap, Option.some.injEq, exists_eq_left']
    constructor
    · rintro ⟨j, hj, hn⟩
      exact ⟨j, mem_chain_reaches hj, hn⟩
    · rintro ⟨j, hr, hn⟩
      exact ⟨j, mem_chain_of_budget (linksBelow_parentOf hsl) hr (lt_length_of_getNode s hn)
        (budget_le i), hn⟩

/-- `is_descendant(a, d)` holds exactly when a node on the walk up from `d` has the root `a`. -/
theorem isDescendant_iff (hsl : SlotsDecrease s) (hidx : IndexConsistent s) (a d : Hash256) :
    s.isDescendant a d = true ↔
      ∃ i, s.getIndex d = some i ∧ ∃ j m, Reaches s.parentOf i j ∧ s.getNode j = some m ∧ m.root = a := by
  -- a node with the root `a` on the walk is the node `indices` gives for `a`
  have hroot : ∀ j m, s.getNode j = some m → m.root = a → (s.getIndex a).bind s.getNode = some m := by
    intro j m hm hr
    rw [(hidx a j).2 ⟨m, hm, hr⟩]
    exact hm
  have hpw : (s.iterNodes d).Pairwise fun a b => b.slot < a.slot := by
    unfold iterNodes
    split
    · exact List.Pairwise.nil
    · exact pairwise_chain hsl _ _
  unfold isDescendant
  cases ha : (s.getIndex a).bind s.getNode with
  | none =>
    simp only [Bool.false_eq_true, false_iff]
    rintro ⟨i, -, j, m, -, hm, hr⟩
    rw [hroot j m hm hr] at ha
    cases ha
  | some ancestor =>
    obtain ⟨ia, hia, hanc⟩ := Option.bind_eq_some_iff.1 ha
    have hanc_root : ancestor.root = a := by
      obtain ⟨n, hn, hr⟩ := (hidx a ia).1 hia
      rw [hanc] at hn
      cases hn
      exact hr
    dsimp only
    rw [RustIter.find?_takeWhile_of_pairwise hpw]
    cases hf : (s.iterNodes d).find? (fun n => n.slot == ancestor.slot) with
    | none =>
      simp only [Bool.false_eq_true, false_iff]
      rintro ⟨i, hi, j, m, hr, hm, hmr⟩
      have hma := hroot j m hm hmr
      rw [ha] at hma
      cases hma
      -- the ancestor is on the walk, so `find` meets it
      have hmem := (mem_iterNodes hsl).2 ⟨i, hi, j, hr, hm⟩
      exact absurd hf (List.find?_eq_none.not.2 (not_forall.2 ⟨ancestor, by simp [hmem]⟩))
    | some n =>
      have hnl := List.mem_of_find?_eq_some hf
      have hns : n.slot = ancestor.slot := by simpa using List.find?_some hf
      simp only [beq_iff_eq]
      constructor
      · rintro rfl
        obtain ⟨i, hi, j, hr, hn⟩ := (mem_iterNodes hsl).1 hnl
        exact ⟨i, hi, j, n, hr, hn, rfl⟩
      · rintro ⟨i, hi, j, m, hr, hm, hmr⟩
        have hma := hroot j m hm hmr
        rw [ha] at hma
        cases hma
        -- two nodes of the walk at one slot are one node
        have hmem := (mem_iterNodes hsl).2 ⟨i, hi, j, hr, hm⟩
        have hnd : ((s.iterNodes d).map (·.slot)).Nodup :=
          List.pairwise_map.2 (hpw.imp fun h => ne_of_gt h)
        rw [List.inj_on_of_nodup_map hnd hnl hmem hns, hanc_root]

/-- Block 1 at slot 0 and block 2 at slot 1 on it, every checkpoint at `(0, 1)`, with the
index map `indices`. -/
def twoBlockArray (indices : List (Hash256 × Nat)) : ProtoArray :=
  let node (slot : Slot) (root : Hash256) (parent : Option Nat) : ProtoNode :=
    { slot, root, parent, justifiedCheckpoint := ⟨0, 1⟩, finalizedCheckpoint := ⟨0, 1⟩,
      weight := 0, bestChild := none, bestDescendant := none, executionStatus := .irrelevant false,
      unrealizedJustifiedCheckpoint := some ⟨0, 1⟩, unrealizedFinalizedCheckpoint := some ⟨0, 1⟩,
      builderIndex := none, payloadRevealed := false, ptcWeight := 0,
      ptcBlobDataAvailableWeight := 0, payloadDataAvailable := false, bidBlockHash := none,
      bidParentBlockHash := none, proposerIndex := 0, ptcTimely := false,
      envelopeReceived := false, inclusionListSatisfied := false }
  { pruneThreshold := 256, justifiedCheckpoint := ⟨0, 1⟩, finalizedCheckpoint := ⟨0, 1⟩,
    nodes := [node 0 1 none, node 1 2 (some 0)], indices, previousProposerBoost := default }

theorem twoBlockArray_slotsDecrease (indices : List (Hash256 × Nat)) :
    SlotsDecrease (twoBlockArray indices) := by
  intro i n p m hn hp hm
  match i, hn with
  | 0, hn => simp [twoBlockArray, getNode] at hn; subst hn; simp at hp
  | 1, hn =>
    simp [twoBlockArray, getNode] at hn
    subst hn
    simp only [Option.some.injEq] at hp
    subst hp
    simp [twoBlockArray, getNode] at hm
    subst hm
    decide
  | i + 2, hn => simp [twoBlockArray, getNode] at hn

theorem twoBlockArray_checkpointsNameAncestors (indices : List (Hash256 × Nat)) :
    CheckpointsNameAncestors (twoBlockArray indices) 8 := by
  intro i n hn cp hcp
  -- every checkpoint is `(0, 1)`, and block 1 is the ancestor of both blocks at slot 0
  obtain ⟨m, hm, hms, hmr⟩ : ∃ m, (twoBlockArray indices).getNode 0 = some m ∧ m.slot = 0 ∧
      m.root = 1 := ⟨_, rfl, rfl, rfl⟩
  match i, hn with
  | 0, hn =>
    have hn' := hn
    simp only [twoBlockArray, getNode, List.getElem?_cons_zero, Option.some.injEq] at hn'
    subst hn'
    have hcp' : cp = ⟨0, 1⟩ := by simpa [ProtoNode.checkpoints] using hcp
    subst hcp'
    exact ⟨0, m, .here hm (by simp [hms, startSlot]), hm, hmr⟩
  | 1, hn =>
    have hn' := hn
    simp only [twoBlockArray, getNode, List.getElem?_cons_succ, List.getElem?_cons_zero,
      Option.some.injEq] at hn'
    subst hn'
    have hcp' : cp = ⟨0, 1⟩ := by simpa [ProtoNode.checkpoints] using hcp
    subst hcp'
    exact ⟨0, m, .up hn (by decide) rfl (.here hm (by simp [hms, startSlot])), hm, hmr⟩
  | i + 2, hn => simp [twoBlockArray, getNode] at hn

end ProtoArray

end Vibehouse
