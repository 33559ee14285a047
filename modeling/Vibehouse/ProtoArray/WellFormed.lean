import Vibehouse.ProtoArray.ForkChoice
import Vibehouse.Lib.AssocList

/-! # The structural invariant of the proto-array

`WellFormed` is what every operation of `proto_array.rs` relies on: `indices` maps the roots of
the nodes to their positions and nothing else, every parent sits before its child, a best child
is a child, and a best descendant is a descendant at a later position.

Most writes to the array change fields that the invariant does not read. `Reshape s s'` says
that `s'` is such a write of `s`: the same indices, the same roots and parent links, and best
links that are kept or cleared; it is a preorder and `WellFormed` is closed under it
(`WellFormed.reshape`). The operations that set best links
(`maybe_update_best_child_and_descendant`), add a node (`on_block`) or renumber the array
(`maybe_prune`) are proved one by one. -/

namespace Vibehouse

/-- The root and the parent link of a node: what the shape of the tree is made of. -/
def ProtoNode.skeleton (n : ProtoNode) : Hash256 × Option Nat := (n.root, n.parent)

namespace ProtoArray

open ParentChain EStateM

/-- The structural invariant of `ProtoArray`. -/
structure WellFormed (s : ProtoArray) : Prop where
  /-- `indices` holds the root of every node with its position, and nothing else. -/
  mem_indices : ∀ r i, (r, i) ∈ s.indices ↔ ∃ n, s.getNode i = some n ∧ n.root = r
  /-- `indices` is a map: a root has one position. -/
  keys_nodup : (s.indices.map Prod.fst).Nodup
  /-- Every parent sits before its child. -/
  parent_lt : Descending s.parentOf
  /-- A best child is a child. -/
  bestChild_parent : ∀ i n c, s.getNode i = some n → n.bestChild = some c → s.parentOf c = some i
  /-- A best descendant is a descendant at a later position. -/
  bestDescendant_reaches : ∀ i n d, s.getNode i = some n → n.bestDescendant = some d →
    i < d ∧ d < s.nodes.length ∧ Reaches s.parentOf d i

/-- `s'` changes only fields of the nodes of `s` that the shape does not read: the indices,
the roots and the parent links stay, and each best link stays or is cleared. -/
structure Reshape (s s' : ProtoArray) : Prop where
  indices_eq : s'.indices = s.indices
  skeleton_eq : s'.nodes.map ProtoNode.skeleton = s.nodes.map ProtoNode.skeleton
  bestChild_sub : ∀ i n' c, s'.getNode i = some n' → n'.bestChild = some c →
    ∃ n, s.getNode i = some n ∧ n.bestChild = some c
  bestDescendant_sub : ∀ i n' d, s'.getNode i = some n' → n'.bestDescendant = some d →
    ∃ n, s.getNode i = some n ∧ n.bestDescendant = some d

namespace Reshape

variable {s s' s'' : ProtoArray}

theorem refl (s : ProtoArray) : Reshape s s :=
  ⟨rfl, rfl, fun _ n _ h hc => ⟨n, h, hc⟩, fun _ n _ h hd => ⟨n, h, hd⟩⟩

theorem trans (h₁ : Reshape s s') (h₂ : Reshape s' s'') : Reshape s s'' where
  indices_eq := h₂.indices_eq.trans h₁.indices_eq
  skeleton_eq := h₂.skeleton_eq.trans h₁.skeleton_eq
  bestChild_sub i n'' c h hc := by
    obtain ⟨n', h', hc'⟩ := h₂.bestChild_sub i n'' c h hc
    exact h₁.bestChild_sub i n' c h' hc'
  bestDescendant_sub i n'' d h hd := by
    obtain ⟨n', h', hd'⟩ := h₂.bestDescendant_sub i n'' d h hd
    exact h₁.bestDescendant_sub i n' d h' hd'

theorem getNode_skeleton (h : Reshape s s') (i : Nat) :
    (s'.getNode i).map ProtoNode.skeleton = (s.getNode i).map ProtoNode.skeleton := by
  simp only [getNode, ← List.getElem?_map, h.skeleton_eq]

theorem length_eq (h : Reshape s s') : s'.nodes.length = s.nodes.length := by
  simpa using congrArg List.length h.skeleton_eq

theorem parentOf_eq (h : Reshape s s') : s'.parentOf = s.parentOf := by
  funext i
  have hi := h.getNode_skeleton i
  unfold parentOf
  cases h₁ : s'.getNode i <;> cases h₂ : s.getNode i <;> simp_all [ProtoNode.skeleton]

theorem getIndex_eq (h : Reshape s s') : s'.getIndex = s.getIndex := by
  funext r
  simp [getIndex, h.indices_eq]

theorem getNode_root (h : Reshape s s') {i : Nat} {n' : ProtoNode} (h' : s'.getNode i = some n') :
    ∃ n, s.getNode i = some n ∧ n.root = n'.root := by
  have hi := h.getNode_skeleton i
  rw [h'] at hi
  cases hn : s.getNode i with
  | none => simp [hn] at hi
  | some n =>
    simp only [hn, Option.map_some, Option.some.injEq, ProtoNode.skeleton, Prod.mk.injEq] at hi
    exact ⟨n, rfl, hi.1.symm⟩

theorem getNode_of_root (h : Reshape s s') {i : Nat} {n : ProtoNode} (hn : s.getNode i = some n) :
    ∃ n', s'.getNode i = some n' ∧ n'.root = n.root := by
  have hi := h.getNode_skeleton i
  rw [hn] at hi
  cases h' : s'.getNode i with
  | none => simp [h'] at hi
  | some n' =>
    simp only [h', Option.map_some, Option.some.injEq, ProtoNode.skeleton, Prod.mk.injEq] at hi
    exact ⟨n', rfl, hi.1⟩

/-- A write of the fields outside the shape. -/
theorem of_nodes_eq (hn : s'.nodes = s.nodes) (hi : s'.indices = s.indices) : Reshape s s' where
  indices_eq := hi
  skeleton_eq := by rw [hn]
  bestChild_sub i n' c h hc := ⟨n', by simpa [getNode, hn] using h, hc⟩
  bestDescendant_sub i n' d h hd := ⟨n', by simpa [getNode, hn] using h, hd⟩

/-- Replacing one node by one with the same root and parent, whose best links are kept or
cleared. -/
theorem setNode {i : Nat} {n n' : ProtoNode} (hn : s.getNode i = some n)
    (hs : n'.skeleton = n.skeleton)
    (hc : n'.bestChild = n.bestChild ∨ n'.bestChild = none)
    (hd : n'.bestDescendant = n.bestDescendant ∨ n'.bestDescendant = none) :
    Reshape s (s.setNode i n') where
  indices_eq := rfl
  skeleton_eq := by
    apply List.ext_getElem?
    intro j
    have hj := getNode_setNode s i j n'
    simp only [getNode] at hj hn
    simp only [List.getElem?_map, hj]
    split_ifs with hij
    · rw [← hij.1, hn]
      simp [hs]
    · rfl
  bestChild_sub j m c h hm := by
    rw [getNode_setNode] at h
    split_ifs at h with hij
    · cases h
      rw [← hij.1]
      rcases hc with hc | hc
      · exact ⟨n, hn, hc ▸ hm⟩
      · rw [hc] at hm; cases hm
    · exact ⟨m, h, hm⟩
  bestDescendant_sub j m d h hm := by
    rw [getNode_setNode] at h
    split_ifs at h with hij
    · cases h
      rw [← hij.1]
      rcases hd with hd | hd
      · exact ⟨n, hn, hd ▸ hm⟩
      · rw [hd] at hm; cases hm
    · exact ⟨m, h, hm⟩

/-- Clearing some of the best links of one node. -/
theorem setNode_best {i : Nat} {n : ProtoNode} (hn : s.getNode i = some n) (pc pd : Prop)
    [Decidable pc] [Decidable pd] :
    Reshape s (s.setNode i { n with bestChild := if pc then none else n.bestChild,
                                    bestDescendant := if pd then none else n.bestDescendant }) :=
  setNode hn rfl (by split_ifs <;> simp) (by split_ifs <;> simp)

end Reshape

theorem parentOf_setNode {s : ProtoArray} {p : Nat} {n n' : ProtoNode} (hn : s.getNode p = some n)
    (hp : n'.parent = n.parent) : (s.setNode p n').parentOf = s.parentOf := by
  funext j
  unfold parentOf
  rw [getNode_setNode]
  split_ifs with hj
  · rw [← hj.1, hn]
    simp [hp]
  · rfl

namespace WellFormed

variable {s s' : ProtoArray}

theorem reshape (hw : WellFormed s) (h : Reshape s s') : WellFormed s' where
  mem_indices r i := by
    rw [h.indices_eq, hw.mem_indices]
    constructor
    · rintro ⟨n, hn, rfl⟩
      obtain ⟨n', hn', hr⟩ := h.getNode_of_root hn
      exact ⟨n', hn', hr⟩
    · rintro ⟨n', hn', rfl⟩
      obtain ⟨n, hn, hr⟩ := h.getNode_root hn'
      exact ⟨n, hn, hr⟩
  keys_nodup := h.indices_eq ▸ hw.keys_nodup
  parent_lt := h.parentOf_eq ▸ hw.parent_lt
  bestChild_parent i n' c hn' hc := by
    obtain ⟨n, hn, hc'⟩ := h.bestChild_sub i n' c hn' hc
    rw [h.parentOf_eq]
    exact hw.bestChild_parent i n c hn hc'
  bestDescendant_reaches i n' d hn' hd := by
    obtain ⟨n, hn, hd'⟩ := h.bestDescendant_sub i n' d hn' hd
    rw [h.parentOf_eq, h.length_eq]
    exact hw.bestDescendant_reaches i n d hn hd'

theorem getIndex_eq_some (hw : WellFormed s) {r : Hash256} {i : Nat} :
    s.getIndex r = some i ↔ ∃ n, s.getNode i = some n ∧ n.root = r := by
  rw [getIndex, AssocList.lookup_eq_some_iff_mem hw.keys_nodup, hw.mem_indices]

theorem getIndex_lt (hw : WellFormed s) {r : Hash256} {i : Nat} (h : s.getIndex r = some i) :
    i < s.nodes.length := by
  obtain ⟨n, hn, -⟩ := hw.getIndex_eq_some.1 h
  exact lt_length_of_getNode s hn

/-- Two nodes with one root are one node. -/
theorem root_inj (hw : WellFormed s) {i j : Nat} {n m : ProtoNode} (hi : s.getNode i = some n)
    (hj : s.getNode j = some m) (h : n.root = m.root) : i = j := by
  have hmi : (m.root, i) ∈ s.indices := (hw.mem_indices _ _).2 ⟨n, hi, h⟩
  have hmj : (m.root, j) ∈ s.indices := (hw.mem_indices _ _).2 ⟨m, hj, rfl⟩
  exact AssocList.eq_of_mem hw.keys_nodup hmi hmj

/-- Setting the best links of the node at `p` to links that the invariant allows there. -/
theorem setBest (hw : WellFormed s) {p : Nat} {n : ProtoNode} (hn : s.getNode p = some n)
    {bc bd : Option Nat} (hc : ∀ c, bc = some c → s.parentOf c = some p)
    (hd : ∀ d, bd = some d → p < d ∧ d < s.nodes.length ∧ Reaches s.parentOf d p) :
    WellFormed (s.setNode p { n with bestChild := bc, bestDescendant := bd }) := by
  have hpar : (s.setNode p { n with bestChild := bc, bestDescendant := bd }).parentOf = s.parentOf :=
    parentOf_setNode hn rfl
  have hp : p < s.nodes.length := lt_length_of_getNode s hn
  refine ⟨?_, hw.keys_nodup, hpar ▸ hw.parent_lt, ?_, ?_⟩
  · intro r i
    rw [setNode_indices, hw.mem_indices, getNode_setNode]
    split_ifs with hi
    · rw [← hi.1, hn]
      simp
    · rfl
  · intro i m c hm hmc
    rw [hpar]
    rw [getNode_setNode] at hm
    split_ifs at hm with hi
    · cases hm
      rw [← hi.1]
      exact hc c hmc
    · exact hw.bestChild_parent i m c hm hmc
  · intro i m d hm hmd
    rw [hpar, setNode_nodes_length]
    rw [getNode_setNode] at hm
    split_ifs at hm with hi
    · cases hm
      rw [← hi.1]
      exact hd d hmd
    · exact hw.bestDescendant_reaches i m d hm hmd

end WellFormed

/-- `maybe_update_best_child_and_descendant` either clears the parent's links, points them at
the child, or leaves links that do not point at the child. -/
theorem bestChildAndDescendant_cases {s : ProtoArray} {spe : Nat} {parent child : ProtoNode}
    {childIndex : Nat} {currentSlot : Slot} {r : Option Nat × Option Nat}
    (h : s.bestChildAndDescendant spe parent child childIndex currentSlot = .ok r) :
    r = (none, none) ∨ r = (some childIndex, child.bestDescendant.or (some childIndex)) ∨
      r = (parent.bestChild, parent.bestDescendant) ∧ parent.bestChild ≠ some childIndex := by
  unfold bestChildAndDescendant at h
  obtain ⟨lead, -, h⟩ := Except.bind_eq_ok.1 h
  dsimp only at h
  cases hb : parent.bestChild with
  | none =>
    simp only [hb] at h
    split_ifs at h <;> cases h <;> simp
  | some b =>
    simp only [hb] at h
    split_ifs at h with h₁ h₂
    · cases h; simp
    · cases h; simp
    · -- the best child so far is another child
      cases hn : s.getNode b with
      | none => simp [hn, throw, throwThe, MonadExceptOf.throw] at h
      | some bestChild =>
        simp only [hn] at h
        obtain ⟨bestLead, -, h⟩ := Except.bind_eq_ok.1 h
        split_ifs at h <;> cases h <;> simp [h₂]

theorem wellFormed_maybeUpdateBestChildAndDescendant {s : ProtoArray} (hw : WellFormed s)
    {spe p c : Nat} {currentSlot : Slot} (hpc : s.parentOf c = some p) :
    WellFormed ((maybeUpdateBestChildAndDescendant spe p c currentSlot).run s).state := by
  unfold maybeUpdateBestChildAndDescendant
  cases hc : s.getNode c with
  | none => simpa [hc] using hw
  | some child =>
    cases hp : s.getNode p with
    | none => simpa [hc, hp] using hw
    | some parent =>
      cases hr : s.bestChildAndDescendant spe parent child c currentSlot with
      | error e => simpa [hc, hp, hr] using hw
      | ok r =>
        simp [hc, hp, hr, modifyNode]
        have hlt : p < c := hw.parent_lt c p hpc
        rcases bestChildAndDescendant_cases hr with rfl | rfl | ⟨rfl, -⟩
        · exact hw.setBest hp (fun _ h => by simp at h) (fun _ h => by simp at h)
        · refine hw.setBest hp (fun c' h => ?_) (fun d h => ?_)
          · simp only [Option.some.injEq] at h
            subst h
            exact hpc
          · cases hbd : child.bestDescendant with
            | none =>
              simp only [hbd, Option.none_or, Option.some.injEq] at h
              subst h
              exact ⟨hlt, lt_length_of_getNode s hc, Reaches.of_parent hpc⟩
            | some d' =>
              simp only [hbd, Option.some_or, Option.some.injEq] at h
              subst h
              obtain ⟨hcd, hdl, hreach⟩ := hw.bestDescendant_reaches c child d' hc hbd
              exact ⟨Nat.lt_trans hlt hcd, hdl, hreach.trans (Reaches.of_parent hpc)⟩
        · exact hw.setBest hp (fun c' h => hw.bestChild_parent p parent c' hp h)
            (fun d h => hw.bestDescendant_reaches p parent d hp h)

theorem moves_applyNodeDelta (spec : ChainSpec) (newJustifiedBalances : JustifiedBalances)
    (proposerBoostRoot : Hash256) (nodeIndex : Nat) (deltas : List Int) (proposerScore : Nat) :
    Moves Reshape (applyNodeDelta spec newJustifiedBalances proposerBoostRoot nodeIndex deltas proposerScore) := by
  intro s
  unfold applyNodeDelta
  cases hn : s.getNode nodeIndex with
  | none => simpa [okOr, hn] using Reshape.refl s
  | some node =>
    simp [okOr, hn]
    have hr : ∀ w, Reshape s (s.setNode nodeIndex { node with weight := w }) :=
      fun _ => Reshape.setNode hn rfl (.inl rfl) (.inl rfl)
    split_ifs
    · simpa using Reshape.refl s
    · cases hx : nodeDeltaAndWeight spec newJustifiedBalances proposerBoostRoot s node nodeIndex
          deltas proposerScore with
      | error e => simpa [hx] using Reshape.refl s
      | ok x =>
        cases hp : node.parent with
        | none => simpa [hx, hp] using hr x.2.2
        | some p => cases hd : deltas[p]? <;> simpa [hx, hp, hd] using hr x.2.2

theorem reshape_trans (a b c : ProtoArray) (h₁ : Reshape a b) (h₂ : Reshape b c) : Reshape a c :=
  h₁.trans h₂

theorem moves_applyDeltasDownFrom (spec : ChainSpec) (newJustifiedBalances : JustifiedBalances)
    (proposerBoostRoot : Hash256) :
    ∀ n deltas proposerScore, Moves Reshape
      (applyDeltasDownFrom spec newJustifiedBalances proposerBoostRoot n deltas proposerScore)
  | 0, _, _ => moves_pure Reshape.refl _
  | n + 1, deltas, proposerScore => by
    unfold applyDeltasDownFrom
    exact Moves.bind reshape_trans
      (moves_applyNodeDelta spec newJustifiedBalances proposerBoostRoot n deltas proposerScore) fun r =>
      moves_applyDeltasDownFrom spec newJustifiedBalances proposerBoostRoot n r.1 r.2

theorem moves_validateUpwards : ∀ fuel index, Moves Reshape (validateUpwards fuel index)
  | 0, _ => moves_pure Reshape.refl ()
  | fuel + 1, index => by
    intro s
    unfold validateUpwards
    cases hn : s.getNode index with
    | none => simpa [hn] using Reshape.refl s
    | some node =>
      have hr : ∀ h, Reshape s (s.setNode index { node with executionStatus := .valid h }) :=
        fun _ => Reshape.setNode hn rfl (.inl rfl) (.inl rfl)
      cases hs : node.executionStatus with
      | valid h => simpa [hn, hs] using Reshape.refl s
      | irrelevant f => simpa [hn, hs] using Reshape.refl s
      | invalid h => simpa [hn, hs] using Reshape.refl s
      | optimistic h =>
        cases hp : node.parent with
        | none => simpa [hn, hs, hp] using hr h
        | some p => simpa [hn, hs, hp] using (hr h).trans (moves_validateUpwards fuel p _)

theorem moves_propagateExecutionPayloadValidation (blockRoot : Hash256) :
    Moves Reshape (propagateExecutionPayloadValidation blockRoot) := by
  intro s
  unfold propagateExecutionPayloadValidation propagateExecutionPayloadValidationByIndex
  cases hi : s.getIndex blockRoot with
  | none => simpa [hi] using Reshape.refl s
  | some index => simpa [hi] using moves_validateUpwards s.nodes.length index s

/-- A preorder on arrays that the three writes of invalidation respect: the latest valid
ancestor forgetting best links, the backward loop invalidating an `Optimistic` node and
clearing its best links, and the forward loop invalidating an `Optimistic` or `Invalid` node.
Both the shape (`Reshape`) and the facts about statuses that invalidation keeps are such
preorders, so the loops are walked through once for all of them. -/
structure InvalidationWrites (R : ProtoArray → ProtoArray → Prop) : Prop where
  refl : ∀ s, R s s
  trans : ∀ a b c, R a b → R b c → R a c
  best : ∀ s i n (pc pd : Prop) [Decidable pc] [Decidable pd], s.getNode i = some n →
    R s (s.setNode i { n with bestChild := if pc then none else n.bestChild,
                              bestDescendant := if pd then none else n.bestDescendant })
  backward : ∀ s i n h, s.getNode i = some n → n.executionStatus = .optimistic h →
    R s (s.setNode i { n with executionStatus := .invalid h, bestChild := none, bestDescendant := none })
  forward : ∀ s i n h, s.getNode i = some n →
    (n.executionStatus = .optimistic h ∨ n.executionStatus = .invalid h) →
    R s (s.setNode i { n with executionStatus := .invalid h })

theorem invalidationWrites_reshape : InvalidationWrites Reshape where
  refl := Reshape.refl
  trans := reshape_trans
  best _ _ _ pc pd _ _ hn := Reshape.setNode_best hn pc pd
  backward _ _ _ _ hn _ := Reshape.setNode hn rfl (.inr rfl) (.inr rfl)
  forward _ _ _ _ hn _ := Reshape.setNode hn rfl (.inl rfl) (.inl rfl)

namespace InvalidationWrites

variable {R : ProtoArray → ProtoArray → Prop} (hR : InvalidationWrites R)
include hR

theorem moves_invalidateBackwards (op : InvalidationOperation) (headBlockRoot : Hash256)
    (latestValidAncestorIsDescendant : Bool) :
    ∀ fuel index invalidated, Moves R
      (invalidateBackwards op headBlockRoot latestValidAncestorIsDescendant fuel index invalidated)
  | 0, _, _ => moves_pure hR.refl _
  | fuel + 1, index, invalidated => by
    intro s
    unfold invalidateBackwards
    cases hn : s.getNode index with
    | none => simpa [hn] using hR.refl s
    | some node =>
      cases hh : node.executionStatus.blockHash with
      | none => simpa [hn, hh] using hR.refl s
      | some hash =>
        -- after this node the walk goes on from the parent, if any
        have hcont : ∀ t inv, R s t → R s (EStateM.Result.state (EStateM.run
            (node.parent.elim (pure inv) fun parentIndex => invalidateBackwards op headBlockRoot
                  latestValidAncestorIsDescendant fuel parentIndex inv : M (List Nat)) t)) := by
          intro t inv ht
          cases node.parent with
          | none => exact ht
          | some p =>
            exact hR.trans _ _ _ ht (moves_invalidateBackwards op headBlockRoot
              latestValidAncestorIsDescendant fuel p inv t)
        simp only [hn, hh, EStateM.run_bind, EStateM.run_get]
        by_cases h₁ : latestValidAncestorIsDescendant = false ∧ ¬node.root = headBlockRoot
        · simpa [h₁] using hR.refl s
        by_cases h₂ : op.latestValidAncestor = some hash
        · simpa [h₁, h₂] using hR.best s index node (node.bestChild.any (· ∈ invalidated) = true)
            (node.bestDescendant.any (· ∈ invalidated) = true) hn
        by_cases h₃ : (¬node.root = headBlockRoot ∨ op.invalidateBlockRoot = true) ∨
            latestValidAncestorIsDescendant = true
        · cases hs : node.executionStatus with
          | valid h => simpa [h₁, h₂, h₃, hs] using hR.refl s
          | optimistic h =>
            cases hp : node.parent <;> simpa [h₁, h₂, h₃, hs, hp] using
              hcont _ (index :: invalidated) (hR.backward s index node h hn hs)
          | invalid h =>
            cases hp : node.parent <;> simpa [h₁, h₂, h₃, hs, hp] using hcont s invalidated (hR.refl s)
          | irrelevant f => simpa [h₁, h₂, h₃, hs] using hR.refl s
        · cases hp : node.parent <;> simpa [h₁, h₂, h₃, hp] using hcont s invalidated (hR.refl s)

theorem moves_invalidateForwards :
    ∀ indices invalidated, Moves R (invalidateForwards indices invalidated)
  | [], _ => moves_pure hR.refl ()
  | index :: rest, invalidated => by
    intro s
    unfold invalidateForwards
    have hrec := moves_invalidateForwards rest
    cases hn : s.getNode index with
    | none => simpa [hn] using hR.refl s
    | some node =>
      cases hp : node.parent with
      | none => simpa [hn, hp] using hrec invalidated s
      | some p =>
        by_cases hpi : p ∈ invalidated
        · cases hs : node.executionStatus with
          | valid h => simpa [hn, hp, hpi, hs] using hR.refl s
          | optimistic h =>
            simpa [hn, hp, hpi, hs] using
              hR.trans _ _ _ (hR.forward s index node h hn (.inl hs)) (hrec (index :: invalidated) _)
          | invalid h =>
            simpa [hn, hp, hpi, hs] using
              hR.trans _ _ _ (hR.forward s index node h hn (.inr hs)) (hrec (index :: invalidated) _)
          | irrelevant f => simpa [hn, hp, hpi, hs] using hR.refl s
        · simpa [hn, hp, hpi] using hrec invalidated s

theorem moves_propagateExecutionPayloadInvalidation (spe : Nat) (op : InvalidationOperation) :
    Moves R (propagateExecutionPayloadInvalidation spe op) := by
  unfold propagateExecutionPayloadInvalidation
  refine moves_get_bind fun s => ?_
  dsimp only
  split
  · refine Moves.bind hR.trans (hR.moves_invalidateBackwards _ _ _ _ _ _) (fun invalidated => ?_) s
    refine moves_get_bind fun t => ?_
    split
    · exact hR.moves_invalidateForwards _ _ t
    · exact hR.refl t
  · exact hR.refl s

end InvalidationWrites

theorem keeps_updateBestDownFrom (spe : Nat) (currentSlot : Slot) :
    ∀ n, Keeps WellFormed (updateBestDownFrom spe currentSlot n)
  | 0 => keeps_pure ()
  | n + 1 => by
    intro s hs
    unfold updateBestDownFrom
    have hrec := keeps_updateBestDownFrom spe currentSlot n
    cases hn : s.getNode n with
    | none => simpa [okOr, hn] using hs
    | some node =>
      cases hp : node.parent with
      | none => simpa [okOr, hn, hp] using hrec s hs
      | some p =>
        -- the node offers itself to its own parent, as the invariant of the update requires
        have hpc : s.parentOf n = some p := by simp [parentOf, hn, hp]
        have h₁ := @wellFormed_maybeUpdateBestChildAndDescendant s hs spe p n currentSlot hpc
        simp only [okOr, hn, hp, EStateM.run_bind, EStateM.run_get, EStateM.run_pure]
        cases hr : (maybeUpdateBestChildAndDescendant spe p n currentSlot).run s with
        | ok _ t =>
          rw [hr] at h₁
          exact hrec t h₁
        | error e t =>
          rw [hr] at h₁
          exact h₁

theorem keeps_wellFormed_of_moves {ε α : Type} {m : EStateM ε ProtoArray α}
    (h : Moves Reshape m) : Keeps WellFormed m :=
  fun s hs => hs.reshape (h s)

theorem keeps_applyScoreChanges (spec : ChainSpec) (deltas : List Int)
    (justifiedCheckpoint finalizedCheckpoint : Checkpoint) (newJustifiedBalances : JustifiedBalances)
    (proposerBoostRoot : Hash256) (currentSlot : Slot) :
    Keeps WellFormed (applyScoreChanges spec deltas justifiedCheckpoint finalizedCheckpoint
      newJustifiedBalances proposerBoostRoot currentSlot) := by
  unfold applyScoreChanges
  refine keeps_get_bind fun s hs => ?_
  split
  · exact hs
  · -- the checkpoints and the boost are outside the shape; the weights are reshapes
    dsimp only
    have h₁ := hs.reshape (@Reshape.of_nodes_eq s
      { s with justifiedCheckpoint, finalizedCheckpoint } rfl rfl)
    refine Keeps.bind (keeps_set h₁) (fun _ => ?_) s hs
    refine Keeps.bind (keeps_wellFormed_of_moves (moves_applyDeltasDownFrom spec
      newJustifiedBalances proposerBoostRoot s.nodes.length deltas 0)) fun r => ?_
    exact Keeps.bind (keeps_modify fun t ht => ht.reshape (Reshape.of_nodes_eq rfl rfl)) fun _ =>
      keeps_updateBestDownFrom _ _ _

/-- The array with `node` appended and its root indexed at the new position, as `on_block`
stores a block. -/
def push (s : ProtoArray) (node : ProtoNode) : ProtoArray :=
  { s with indices := (node.root, s.nodes.length) :: s.indices, nodes := s.nodes ++ [node] }

theorem push_eq (s : ProtoArray) (node : ProtoNode) :
    { s with indices := (node.root, s.nodes.length) :: s.indices, nodes := s.nodes ++ [node] } =
      s.push node := rfl

theorem getNode_push (s : ProtoArray) (node : ProtoNode) (i : Nat) :
    (s.push node).getNode i =
      if i < s.nodes.length then s.getNode i else if i = s.nodes.length then some node else none := by
  simp only [getNode, push]
  split_ifs with h₁ h₂
  · exact List.getElem?_append_left h₁
  · subst h₂
    simp
  · rw [List.getElem?_eq_none]
    simp only [List.length_append, List.length_singleton]
    omega

theorem parentOf_push_of_lt (s : ProtoArray) (node : ProtoNode) {i : Nat} (h : i < s.nodes.length) :
    (s.push node).parentOf i = s.parentOf i := by
  simp [parentOf, getNode_push, h]

theorem WellFormed.push {s : ProtoArray} (hw : WellFormed s) {node : ProtoNode}
    (hfresh : s.getIndex node.root = none) (hp : ∀ p, node.parent = some p → p < s.nodes.length)
    (hbc : node.bestChild = none) (hbd : node.bestDescendant = none) :
    WellFormed (s.push node) := by
  have hlen : (s.push node).nodes.length = s.nodes.length + 1 := by simp [ProtoArray.push]
  have hpar : ∀ i, (s.push node).parentOf i =
      if i < s.nodes.length then s.parentOf i else if i = s.nodes.length then node.parent else none := by
    intro i
    simp only [parentOf, getNode_push]
    split_ifs <;> rfl
  have hnotmem : ∀ i, (node.root, i) ∉ s.indices := by
    intro i hi
    rw [getIndex, List.lookup_eq_none_iff] at hfresh
    simpa using hfresh _ hi
  refine ⟨?_, ?_, ?_, ?_, ?_⟩
  · intro r i
    simp only [ProtoArray.push, List.mem_cons, Prod.mk.injEq]
    rw [hw.mem_indices, ← ProtoArray.push, getNode_push]
    split_ifs with h₁ h₂
    · constructor
      · rintro (⟨rfl, rfl⟩ | h)
        · omega
        · exact h
      · exact Or.inr
    · subst h₂
      constructor
      · rintro (⟨rfl, -⟩ | ⟨n, hn, -⟩)
        · exact ⟨node, rfl, rfl⟩
        · exact absurd (lt_length_of_getNode s hn) (Nat.lt_irrefl _)
      · rintro ⟨n, hn, rfl⟩
        cases hn
        exact Or.inl ⟨rfl, rfl⟩
    · constructor
      · rintro (⟨rfl, rfl⟩ | ⟨n, hn, -⟩)
        · exact absurd rfl h₂
        · exact absurd (lt_length_of_getNode s hn) h₁
      · rintro ⟨n, hn, -⟩
        cases hn
  · simp only [ProtoArray.push, List.map_cons, List.nodup_cons, List.mem_map]
    refine ⟨?_, hw.keys_nodup⟩
    rintro ⟨⟨r, i⟩, hi, rfl⟩
    exact hnotmem i hi
  · intro i p h
    rw [hpar] at h
    split_ifs at h with h₁ h₂
    · exact hw.parent_lt i p h
    · subst h₂
      exact hp p h
  · intro i n c hn hc
    rw [getNode_push] at hn
    split_ifs at hn with h₁ h₂
    · have hcp := hw.bestChild_parent i n c hn hc
      have hcl : c < s.nodes.length := by
        cases hcn : s.getNode c with
        | none => simp [parentOf, hcn] at hcp
        | some m => exact lt_length_of_getNode s hcn
      rw [parentOf_push_of_lt s node hcl]
      exact hcp
    · cases hn
      rw [hbc] at hc
      cases hc
  · intro i n d hn hd
    rw [hlen]
    rw [getNode_push] at hn
    split_ifs at hn with h₁ h₂
    · obtain ⟨hid, hdl, hr⟩ := hw.bestDescendant_reaches i n d hn hd
      refine ⟨hid, Nat.lt_succ_of_lt hdl, hr.congr hw.parent_lt fun k _ hk => ?_⟩
      exact parentOf_push_of_lt s node (Nat.lt_of_le_of_lt hk hdl)
    · cases hn
      rw [hbd] at hd
      cases hd

theorem keeps_onBlock (spe : Nat) (block : Block) (currentSlot : Slot) :
    Keeps WellFormed (onBlock spe block currentSlot) := by
  unfold onBlock
  refine keeps_get_bind fun s hs => ?_
  split
  · exact hs
  · rename_i hknown
    dsimp only
    have hfresh : s.getIndex block.root = none := by
      cases h : s.getIndex block.root
      · rfl
      · simp [h] at hknown
    have hplt : ∀ p, block.parentRoot.bind s.getIndex = some p → p < s.nodes.length := by
      intro p hp
      obtain ⟨r, -, hr⟩ := Option.bind_eq_some_iff.1 hp
      exact hs.getIndex_lt hr
    have hwf : WellFormed (s.push (block.toNode (block.parentRoot.bind s.getIndex))) :=
      hs.push hfresh hplt rfl rfl
    cases hnp : block.parentRoot.bind s.getIndex with
    | none =>
      simp only [Block.toNode_parent, hnp] at hwf ⊢
      exact hwf
    | some p =>
      simp only [Block.toNode_parent, hnp] at hwf ⊢
      cases hpn : s.getNode p with
      | none => simpa [okOr, hpn] using hs
      | some parent =>
        by_cases hinv : parent.executionStatus.isInvalid = true
        · simpa [okOr, hpn, hinv] using hs
        · -- the new node at `s.nodes.length` is offered to its parent, then a valid payload
          -- validates the ancestors
          have hpc : (s.push (block.toNode (some p))).parentOf s.nodes.length = some p := by
            simp [parentOf, getNode_push]
          have h₁ := @wellFormed_maybeUpdateBestChildAndDescendant _ hwf spe p s.nodes.length
            currentSlot hpc
          simp only [okOr, hinv, EStateM.run_bind, EStateM.run_pure, EStateM.run_set,
            Bool.false_eq_true, if_false]
          rw [push_eq]
          cases hr : (maybeUpdateBestChildAndDescendant spe p s.nodes.length currentSlot).run
              (s.push (block.toNode (some p))) with
          | error e t =>
            rw [hr] at h₁
            exact h₁
          | ok _ t =>
            rw [hr] at h₁
            cases block.executionStatus with
            | valid h =>
              exact keeps_wellFormed_of_moves (moves_validateUpwards _ p) t h₁
            | optimistic h => exact h₁
            | invalid h => exact h₁
            | irrelevant f => exact h₁

end ProtoArray
end Vibehouse
