import Vibehouse.ProtoArray.WellFormed

/-! # The descent of `find_head_gloas` ends

`find_head_gloas` loops until a node has no children. The model `descendGloas` has a fuel, and
`findHeadGloas` gives it `2 * n + 2` for `n` nodes. In a well-formed array two steps of the
descent reach a block at a later position: a `PENDING` node steps to a payload node of its own
block, and a payload node to the `PENDING` node of a child block, which the array holds after
its parent. `gloasDepth` bounds the steps left, at most `2 * n + 1` from any `PENDING` node, and
each step lowers it (`gloasDepth_lt_of_mem_collectGloasChildren`). So with more fuel than the
depth the descent stops at a node with no children (`descendGloas_children_eq_nil`), and more
fuel changes nothing (`descendGloas_add_fuel`): `findHeadGloas` returns what the unbounded loop
of the source returns (`findHeadGloas_fuel_enough`). -/

namespace Vibehouse

namespace ProtoArray

variable {s : ProtoArray}

/-- The steps the descent can still take from `node`: two for each position from its block to
the end of the array, and one more from a `PENDING` node. -/
def gloasDepth (s : ProtoArray) (node : GloasForkChoiceNode) : Nat :=
  ((s.getIndex node.root).map fun i => 2 * (s.nodes.length - i)).getD 0 +
    if node.payloadStatus = .pending then 1 else 0

theorem gloasDepth_pending_le (root : Hash256) :
    s.gloasDepth ⟨root, .pending⟩ ≤ 2 * s.nodes.length + 1 := by
  unfold gloasDepth
  cases s.getIndex root <;> simp

/-- The children of a `PENDING` node are the payload nodes of its block. -/
theorem mem_collectGloasChildren_pending {filteredNodes : List Bool}
    {node c : GloasForkChoiceNode} (hp : node.payloadStatus = .pending)
    (hc : c ∈ s.collectGloasChildren filteredNodes node) :
    c.root = node.root ∧ c.payloadStatus ≠ .pending := by
  unfold collectGloasChildren at hc
  rw [hp] at hc
  simp only [List.mem_cons] at hc
  rcases hc with rfl | hc
  · exact ⟨rfl, nofun⟩
  · split at hc
    · rw [List.mem_singleton.1 hc]
      exact ⟨rfl, nofun⟩
    · cases hc

/-- The children of a payload node are the `PENDING` nodes of child blocks of its block. -/
theorem mem_collectGloasChildren_of_ne_pending {filteredNodes : List Bool}
    {node c : GloasForkChoiceNode} (hp : node.payloadStatus ≠ .pending)
    (hc : c ∈ s.collectGloasChildren filteredNodes node) :
    ∃ parentIdx ci childNode, s.getIndex node.root = some parentIdx ∧
      s.parentOf ci = some parentIdx ∧ ci < s.nodes.length ∧ s.getNode ci = some childNode ∧
      c = ⟨childNode.root, .pending⟩ := by
  unfold collectGloasChildren at hc
  split at hc
  · contradiction
  · split at hc
    · cases hc
    · rename_i parentIdx parentNode hparent
      obtain ⟨p, hp', hmap⟩ := Option.bind_eq_some_iff.1 hparent
      obtain ⟨-, -, rfl, -⟩ : ∃ n, s.getNode p = some n ∧ p = parentIdx ∧ n = parentNode := by
        obtain ⟨n, hn, heq⟩ := Option.map_eq_some_iff.1 hmap
        exact ⟨n, hn, (Prod.mk.inj heq).1, (Prod.mk.inj heq).2⟩
      obtain ⟨ci, hci, hsome⟩ := List.mem_filterMap.1 hc
      obtain ⟨hrange, hpar⟩ := List.mem_filter.1 hci
      -- only a node of the array with the payload status of `node` is kept
      split at hsome
      · split at hsome
        · rename_i childNode hchild
          split at hsome
          · exact ⟨p, ci, childNode, hp', beq_iff_eq.1 hpar, List.mem_range.1 hrange, hchild,
              (Option.some.inj hsome).symm⟩
          · cases hsome
        · cases hsome
      · cases hsome

/-- Each step of the descent lowers the depth. -/
theorem gloasDepth_lt_of_mem_collectGloasChildren (hw : WellFormed s)
    {filteredNodes : List Bool} {node c : GloasForkChoiceNode}
    (hc : c ∈ s.collectGloasChildren filteredNodes node) :
    s.gloasDepth c < s.gloasDepth node := by
  by_cases hp : node.payloadStatus = .pending
  · -- down to a payload node of the same block
    obtain ⟨hroot, hcp⟩ := mem_collectGloasChildren_pending hp hc
    simp only [gloasDepth, hroot, hp, hcp, if_true, if_false]
    omega
  · -- down to a child block, which sits after its parent
    obtain ⟨parentIdx, ci, childNode, hparent, hpar, hlt, hchild, rfl⟩ :=
      mem_collectGloasChildren_of_ne_pending hp hc
    have hci : s.getIndex childNode.root = some ci :=
      hw.getIndex_eq_some.2 ⟨childNode, hchild, rfl⟩
    have hafter : parentIdx < ci := hw.parent_lt ci parentIdx hpar
    simp only [gloasDepth, hci, hparent, hp, Option.map_some, Option.getD_some, if_true, if_false]
    omega

end ProtoArray

namespace ProtoArrayForkChoice

variable {fc : ProtoArrayForkChoice} {spec : ChainSpec} {filteredNodes : List Bool}
  {activeVotes : List (Nat × Nat)} {proposerBoostRoot : Hash256} {applyBoost : Bool}
  {currentSlot : Slot}

/-- The node the descent moves to is one of the children. -/
theorem mem_of_maxBy_gloasCandidate {children : List GloasForkChoiceNode}
    {best : GloasForkChoiceNode × Nat × Nat}
    (h : RustIter.maxBy compareGloasCandidates
      (children.map
        (gloasCandidate fc spec activeVotes proposerBoostRoot applyBoost currentSlot)) =
          some best) :
    best.1 ∈ children := by
  obtain ⟨c, hc, rfl⟩ := List.mem_map.1 (RustIter.maxBy_mem h)
  exact hc

variable (hw : fc.protoArray.WellFormed)
include hw

/-- With more fuel than the depth, more fuel gives the same result; the induction is on the
fuel, and each step lowers the depth. -/
theorem descendGloas_add_fuel : ∀ fuel head, fc.protoArray.gloasDepth head < fuel → ∀ k,
    descendGloas fc spec filteredNodes activeVotes proposerBoostRoot applyBoost currentSlot
        (fuel + k) head =
      descendGloas fc spec filteredNodes activeVotes proposerBoostRoot applyBoost currentSlot fuel
        head
  | 0, _, h, _ => absurd h (Nat.not_lt_zero _)
  | fuel + 1, head, h, k => by
    rw [Nat.add_right_comm, descendGloas, descendGloas]
    split
    · rfl
    · split
      · rfl
      · rename_i best hbest
        have hlt := ProtoArray.gloasDepth_lt_of_mem_collectGloasChildren hw
          (mem_of_maxBy_gloasCandidate hbest)
        exact descendGloas_add_fuel fuel best.1 (by omega) k

/-- With more fuel than the depth, the descent stops at a node with no children, where the loop
of the source returns. -/
theorem descendGloas_children_eq_nil : ∀ fuel head, fc.protoArray.gloasDepth head < fuel →
    ∀ node, descendGloas fc spec filteredNodes activeVotes proposerBoostRoot applyBoost
        currentSlot fuel head = .ok node →
      fc.protoArray.collectGloasChildren filteredNodes node = []
  | 0, _, h, _, _ => absurd h (Nat.not_lt_zero _)
  | fuel + 1, head, h, node, hok => by
    rw [descendGloas] at hok
    split at hok
    · rename_i hempty
      cases hok
      exact List.isEmpty_iff.1 hempty
    · split at hok
      · cases hok
      · rename_i best hbest
        have hlt := ProtoArray.gloasDepth_lt_of_mem_collectGloasChildren hw
          (mem_of_maxBy_gloasCandidate hbest)
        exact descendGloas_children_eq_nil fuel best.1 (by omega) node hok

variable (spec proposerBoostRoot currentSlot) in
/-- The fuel `find_head_gloas` gives is enough: any more gives the same head, and a head it
returns has no children. -/
theorem findHeadGloas_fuel_enough (justifiedCheckpoint : Checkpoint)
    (equivocatingIndices : List Nat) :
    (∀ k, descendGloas fc spec
        (fc.protoArray.computeFilteredNodes spec.slotsPerEpoch currentSlot) fc.computeActiveVotes
        proposerBoostRoot
        (fc.shouldApplyProposerBoostGloas spec proposerBoostRoot equivocatingIndices
          fc.computeActiveVotes) currentSlot (2 * fc.protoArray.nodes.length + 2 + k)
        ⟨justifiedCheckpoint.root, .pending⟩ =
      fc.findHeadGloas spec justifiedCheckpoint proposerBoostRoot equivocatingIndices
        currentSlot) ∧
    ∀ node, fc.findHeadGloas spec justifiedCheckpoint proposerBoostRoot equivocatingIndices
        currentSlot = .ok node →
      fc.protoArray.collectGloasChildren
        (fc.protoArray.computeFilteredNodes spec.slotsPerEpoch currentSlot) node = [] := by
  have hdepth : fc.protoArray.gloasDepth ⟨justifiedCheckpoint.root, .pending⟩ <
      2 * fc.protoArray.nodes.length + 2 :=
    Nat.lt_succ_of_le (ProtoArray.gloasDepth_pending_le _)
  exact ⟨fun k => descendGloas_add_fuel hw _ _ hdepth k,
    descendGloas_children_eq_nil hw _ _ hdepth⟩

end ProtoArrayForkChoice

end Vibehouse
