import Vibehouse.ProtoArray.Reachable

/-! # Consistency of execution statuses

Two properties of the execution statuses of the proto-array, each stated on one parent link:
the child of an `Invalid` node is `Invalid` (`InvalidClosed`), and the parent of a `Valid` node
is `Valid` or `Irrelevant` (`ValidClosed`). Along the parent links the first gives that every
descendant of an `Invalid` node is `Invalid`; the second that every ancestor of a `Valid` node
up to the nearest `Irrelevant` one is `Valid`. Validation walks up from a node until it meets a
`Valid` or `Irrelevant` one, so that is all it can establish.

During the walk of validation the second property fails at one link only, the one into the
position the walk has reached (`ValidClosedExcept`). -/

namespace Vibehouse

namespace ProtoArray

open ParentChain EStateM

/-- The child of an `Invalid` node is `Invalid`. -/
def InvalidClosed (s : ProtoArray) : Prop :=
  ∀ c n p m, s.getNode c = some n → n.parent = some p → s.getNode p = some m →
    m.executionStatus.isInvalid = true → n.executionStatus.isInvalid = true

/-- The parent of a `Valid` node is `Valid` or `Irrelevant`, except maybe at the parent
position `e`. -/
def ValidClosedExcept (s : ProtoArray) (e : Option Nat) : Prop :=
  ∀ c n p m, s.getNode c = some n → n.parent = some p → s.getNode p = some m → e ≠ some p →
    n.executionStatus.isValidAndPostBellatrix = true → m.executionStatus.isValidOrIrrelevant = true

/-- The parent of a `Valid` node is `Valid` or `Irrelevant`. -/
def ValidClosed (s : ProtoArray) : Prop := ValidClosedExcept s none

theorem ValidClosed.except {s : ProtoArray} (h : ValidClosed s) (e : Option Nat) :
    ValidClosedExcept s e :=
  fun c n p m hc hp hm _ hv => h c n p m hc hp hm (by simp) hv

/-- Writing a node whose status is invalid exactly when the old one was keeps `InvalidClosed`. -/
theorem InvalidClosed.setNode {s : ProtoArray} (h : InvalidClosed s) {i : Nat} {n n' : ProtoNode}
    (hn : s.getNode i = some n) (hpar : n'.parent = n.parent)
    (hs : n'.executionStatus.isInvalid = n.executionStatus.isInvalid) :
    InvalidClosed (s.setNode i n') := by
  intro c nc p m hc hp hm hinv
  have hi := lt_length_of_getNode s hn
  by_cases hci : c = i
  · subst hci
    rw [getNode_setNode_self s hi] at hc
    cases hc
    by_cases hpi : p = c
    · subst hpi
      rw [getNode_setNode_self s hi] at hm
      cases hm
      exact hinv
    · rw [getNode_setNode_ne s (Ne.symm hpi)] at hm
      rw [hpar] at hp
      rw [hs]
      exact h c n p m hn hp hm hinv
  · rw [getNode_setNode_ne s (Ne.symm hci)] at hc
    by_cases hpi : p = i
    · subst hpi
      rw [getNode_setNode_self s hi] at hm
      cases hm
      rw [hs] at hinv
      exact h c nc p n hc hp hn hinv
    · rw [getNode_setNode_ne s (Ne.symm hpi)] at hm
      exact h c nc p m hc hp hm hinv

/-- Writing a node whose status is in the same class (`Valid`, `Valid` or `Irrelevant`) as the
old one keeps `ValidClosedExcept`. -/
theorem ValidClosedExcept.setNode {s : ProtoArray} {e : Option Nat} (h : ValidClosedExcept s e)
    {i : Nat} {n n' : ProtoNode} (hn : s.getNode i = some n) (hpar : n'.parent = n.parent)
    (hv : n'.executionStatus.isValidAndPostBellatrix = n.executionStatus.isValidAndPostBellatrix)
    (hvi : n'.executionStatus.isValidOrIrrelevant = n.executionStatus.isValidOrIrrelevant) :
    ValidClosedExcept (s.setNode i n') e := by
  intro c nc p m hc hp hm he hval
  have hi := lt_length_of_getNode s hn
  by_cases hci : c = i
  · subst hci
    rw [getNode_setNode_self s hi] at hc
    cases hc
    by_cases hpi : p = c
    · subst hpi
      rw [getNode_setNode_self s hi] at hm
      cases hm
      rw [hpar] at hp
      rw [hv] at hval
      rw [hvi]
      exact h p n p n hn hp hn he hval
    · rw [getNode_setNode_ne s (Ne.symm hpi)] at hm
      rw [hpar] at hp
      rw [hv] at hval
      exact h c n p m hn hp hm he hval
  · rw [getNode_setNode_ne s (Ne.symm hci)] at hc
    by_cases hpi : p = i
    · subst hpi
      rw [getNode_setNode_self s hi] at hm
      cases hm
      rw [hvi]
      exact h c nc p n hc hp hn he hval
    · rw [getNode_setNode_ne s (Ne.symm hpi)] at hm
      exact h c nc p m hc hp hm he hval

/-! ## Validation -/

/-- Validation makes optimistic nodes valid, which keeps `InvalidClosed` whatever the outcome. -/
theorem keeps_invalidClosed_validateUpwards : ∀ fuel index,
    Keeps InvalidClosed (validateUpwards fuel index)
  | 0, _ => keeps_pure ()
  | fuel + 1, index => by
    intro s hi
    unfold validateUpwards
    cases hn : s.getNode index with
    | none => simpa [hn] using hi
    | some node =>
      cases hs : node.executionStatus with
      | valid h => simpa [hn, hs] using hi
      | irrelevant f => simpa [hn, hs] using hi
      | invalid h => simpa [hn, hs] using hi
      | optimistic h =>
        have hi' : InvalidClosed (s.setNode index { node with executionStatus := .valid h }) :=
          hi.setNode hn rfl (by simp [hs, ExecutionStatus.isInvalid])
        cases hpar : node.parent with
        | none => simpa [hn, hs, hpar] using hi'
        | some q =>
          simpa [hn, hs, hpar] using keeps_invalidClosed_validateUpwards fuel q _ hi'

/-- On a well-formed array with `InvalidClosed`, validation succeeds or fails at once on an
`Invalid` start, changing nothing: the nodes it validates are not children of an `Invalid`
one, so it never meets one later. -/
theorem validateUpwards_ok_or_invalid : ∀ (fuel index : Nat) (s : ProtoArray), WellFormed s →
    InvalidClosed s → index < fuel → index < s.nodes.length →
    (∃ s', (validateUpwards fuel index).run s = .ok () s') ∨
      (∃ e n, (validateUpwards fuel index).run s = .error e s ∧ s.getNode index = some n ∧
        n.executionStatus.isInvalid = true)
  | 0, _, _, _, _, hf, _ => absurd hf (Nat.not_lt_zero _)
  | fuel + 1, index, s, hw, hi, hf, hl => by
    have hn : s.getNode index = some s.nodes[index] := List.getElem?_eq_getElem hl
    generalize s.nodes[index] = node at hn
    cases hs : node.executionStatus with
    | valid h => exact .inl ⟨s, by simp [validateUpwards, hn, hs]⟩
    | irrelevant f => exact .inl ⟨s, by simp [validateUpwards, hn, hs]⟩
    | invalid h =>
      exact .inr ⟨.invalidAncestorOfValidPayload node.root h, node,
        by simp [validateUpwards, hn, hs], hn, by simp [hs]⟩
    | optimistic h =>
      let node' := { node with executionStatus := .valid h }
      cases hpar : node.parent with
      | none => exact .inl ⟨s.setNode index node', by simp [validateUpwards, hn, hs, hpar, node']⟩
      | some q =>
        have hw' : WellFormed (s.setNode index node') :=
          hw.reshape (Reshape.setNode hn rfl (.inl rfl) (.inl rfl))
        have hi' : InvalidClosed (s.setNode index node') :=
          hi.setNode hn rfl (by simp [node', hs, ExecutionStatus.isInvalid])
        have hq : q < index := hw.parent_lt index q (by simp [parentOf, hn, hpar])
        have hrun : (validateUpwards (fuel + 1) index).run s =
            (validateUpwards fuel q).run (s.setNode index node') := by
          simp [validateUpwards, hn, hs, hpar, node']
        rcases validateUpwards_ok_or_invalid fuel q _ hw' hi' (by omega) (by simp; omega) with
          ⟨s', hok⟩ | ⟨e, m, _, hm, hinv⟩
        · exact .inl ⟨s', hrun.trans hok⟩
        · -- an `Invalid` parent would have made the optimistic node `Invalid`
          rw [getNode_setNode_ne s (by omega)] at hm
          have := hi index node q m hn hpar hm hinv
          simp [hs, ExecutionStatus.isInvalid] at this

/-- A successful walk of validation from a position whose only failing link is the one into it
ends with `ValidClosed`: it stops at a `Valid` or `Irrelevant` node, or at a root. -/
theorem validClosed_validateUpwards : ∀ (fuel index : Nat) (s s' : ProtoArray), WellFormed s →
    ValidClosedExcept s (some index) → index < fuel → index < s.nodes.length →
    (validateUpwards fuel index).run s = .ok () s' → ValidClosed s'
  | 0, _, _, _, _, _, hf, _, _ => absurd hf (Nat.not_lt_zero _)
  | fuel + 1, index, s, s', hw, hv, hf, hl, hrun => by
    have hn : s.getNode index = some s.nodes[index] := List.getElem?_eq_getElem hl
    generalize s.nodes[index] = node at hn
    -- a `Valid` or `Irrelevant` node at `index` closes the link into it
    have hclose : node.executionStatus.isValidOrIrrelevant = true → ValidClosed s := by
      intro hvi c n p m hc hp hm _ hval
      by_cases hpi : p = index
      · subst hpi
        rw [hn] at hm
        cases hm
        exact hvi
      · exact hv c n p m hc hp hm (by simpa using Ne.symm hpi) hval
    simp only [validateUpwards, run_bind, run_get, hn] at hrun
    cases hs : node.executionStatus with
    | valid h =>
      simp only [hs, run_pure, Result.ok.injEq] at hrun
      rw [← hrun.2]
      exact hclose (by simp [hs, ExecutionStatus.isValidOrIrrelevant])
    | irrelevant f =>
      simp only [hs, run_pure, Result.ok.injEq] at hrun
      rw [← hrun.2]
      exact hclose (by simp [hs, ExecutionStatus.isValidOrIrrelevant])
    | invalid h => simp [hs] at hrun
    | optimistic h =>
      -- the node at `index` becomes `Valid`; the failing link moves to its parent
      let node' := { node with executionStatus := .valid h }
      have hv' : ValidClosedExcept (s.setNode index node') node.parent := by
        intro c nc p m hc hp hm he hval
        by_cases hpi : p = index
        · subst hpi
          rw [getNode_setNode_self s hl] at hm
          cases hm
          simp [node', ExecutionStatus.isValidOrIrrelevant]
        · rw [getNode_setNode_ne s (Ne.symm hpi)] at hm
          by_cases hci : c = index
          · subst hci
            rw [getNode_setNode_self s hl] at hc
            cases hc
            exact absurd hp he
          · rw [getNode_setNode_ne s (Ne.symm hci)] at hc
            exact hv c nc p m hc hp hm (by simpa using Ne.symm hpi) hval
      simp only [hs, run_bind, run_set] at hrun
      split at hrun
      · rename_i hpar
        simp only [run_pure, Result.ok.injEq] at hrun
        rw [← hrun.2]
        rw [hpar] at hv'
        exact hv'
      · rename_i q hpar
        rw [hpar] at hv'
        have hw' : WellFormed (s.setNode index node') :=
          hw.reshape (Reshape.setNode hn rfl (.inl rfl) (.inl rfl))
        have hq : q < index := hw.parent_lt index q (by simp [parentOf, hn, hpar])
        exact validClosed_validateUpwards fuel q _ s' hw' hv' (by omega) (by simp; omega) hrun

/-- `propagate_execution_payload_validation` keeps `InvalidClosed` whatever the outcome. -/
theorem keeps_invalidClosed_propagateExecutionPayloadValidation (blockRoot : Hash256) :
    Keeps InvalidClosed (propagateExecutionPayloadValidation blockRoot) := by
  unfold propagateExecutionPayloadValidation propagateExecutionPayloadValidationByIndex
  refine keeps_get_bind fun s hi => ?_
  cases hr : s.getIndex blockRoot with
  | none => simpa [hr] using hi
  | some index => simpa [hr] using keeps_invalidClosed_validateUpwards s.nodes.length index s hi

/-- A failing `propagate_execution_payload_validation` on a well-formed array with
`InvalidClosed` changes nothing. -/
theorem WellFormed.propagateExecutionPayloadValidation_error {s s' : ProtoArray}
    (hw : WellFormed s) (hi : InvalidClosed s) {blockRoot : Hash256} {e : Error}
    (h : (propagateExecutionPayloadValidation blockRoot).run s = .error e s') : s' = s := by
  unfold propagateExecutionPayloadValidation propagateExecutionPayloadValidationByIndex at h
  cases hr : s.getIndex blockRoot with
  | none =>
    simp only [hr, run_bind, run_get, run_throw_eq_error, Result.error.injEq] at h
    exact h.2.symm
  | some index =>
    simp only [hr, run_bind, run_get] at h
    have hl := hw.getIndex_lt hr
    rcases validateUpwards_ok_or_invalid s.nodes.length index s hw hi hl hl with
      ⟨s'', hok⟩ | ⟨e', n, herr, -⟩
    · rw [hok] at h
      cases h
    · rw [herr] at h
      cases h
      rfl

/-- A successful `propagate_execution_payload_validation` keeps `ValidClosed`. -/
theorem WellFormed.validClosed_propagateExecutionPayloadValidation {s s' : ProtoArray}
    (hw : WellFormed s) (hv : ValidClosed s) {blockRoot : Hash256}
    (h : (propagateExecutionPayloadValidation blockRoot).run s = .ok () s') : ValidClosed s' := by
  unfold propagateExecutionPayloadValidation propagateExecutionPayloadValidationByIndex at h
  cases hr : s.getIndex blockRoot with
  | none => simp [hr] at h
  | some index =>
    simp only [hr, run_bind, run_get] at h
    have hl := hw.getIndex_lt hr
    exact validClosed_validateUpwards _ index s s' hw (hv.except _) hl hl h

/-! ## `on_block` -/

/-- Adding a node whose parent is not `Invalid` keeps `InvalidClosed`. -/
theorem InvalidClosed.push {s : ProtoArray} (hw : WellFormed s) (hi : InvalidClosed s)
    {node : ProtoNode} (hpl : ∀ p, node.parent = some p → p < s.nodes.length)
    (hp : ∀ p m, node.parent = some p → s.getNode p = some m → m.executionStatus.isInvalid = false) :
    InvalidClosed (s.push node) := by
  intro c nc p m hc hcp hm hinv
  rw [getNode_push] at hc hm
  split_ifs at hc with h₁ h₂
  · -- an old node has an old parent
    have hpc : p < c := hw.parent_lt c p (by simp [parentOf, hc, hcp])
    rw [if_pos (by omega)] at hm
    exact hi c nc p m hc hcp hm hinv
  · cases hc
    rw [if_pos (hpl p hcp)] at hm
    rw [hp p m hcp hm] at hinv
    cases hinv

/-- Adding a node keeps `ValidClosedExcept e` when a `Valid` new node has its parent at `e`. -/
theorem ValidClosed.push {s : ProtoArray} (hw : WellFormed s) (hv : ValidClosed s)
    {node : ProtoNode} {e : Option Nat}
    (hnew : ∀ p, node.parent = some p → node.executionStatus.isValidAndPostBellatrix = true →
      e = some p) :
    ValidClosedExcept (s.push node) e := by
  intro c nc p m hc hcp hm he hval
  rw [getNode_push] at hc hm
  split_ifs at hc with h₁ h₂
  · have hpc : p < c := hw.parent_lt c p (by simp [parentOf, hc, hcp])
    rw [if_pos (by omega)] at hm
    exact hv c nc p m hc hcp hm (by simp) hval
  · cases hc
    exact absurd (hnew p hcp hval) he

/-! ## `maybe_update_best_child_and_descendant` on a well-formed array -/

theorem WellFormed.nodeLeadsToViableHead_ok {s : ProtoArray} (hw : WellFormed s) {i : Nat}
    {n : ProtoNode} (hn : s.getNode i = some n) (spe : Nat) (currentSlot : Slot) :
    ∃ b, s.nodeLeadsToViableHead spe n currentSlot = .ok b := by
  unfold nodeLeadsToViableHead
  cases hd : n.bestDescendant with
  | none => exact ⟨_, rfl⟩
  | some d =>
    have hdl := (hw.bestDescendant_reaches i n d hn hd).2.1
    have hget : s.getNode d = some s.nodes[d] := List.getElem?_eq_getElem hdl
    simp only [hget]
    exact ⟨_, rfl⟩

theorem WellFormed.bestChildAndDescendant_ok {s : ProtoArray} (hw : WellFormed s) {p c : Nat}
    {parent child : ProtoNode} (hp : s.getNode p = some parent) (hc : s.getNode c = some child)
    (spe : Nat) (currentSlot : Slot) :
    ∃ r, s.bestChildAndDescendant spe parent child c currentSlot = .ok r := by
  obtain ⟨lead, hlead⟩ := hw.nodeLeadsToViableHead_ok hc spe currentSlot
  unfold bestChildAndDescendant
  rw [hlead]
  cases hb : parent.bestChild with
  | none =>
    simp only [bind, Except.bind]
    split_ifs <;> exact ⟨_, rfl⟩
  | some b =>
    simp only [bind, Except.bind]
    split_ifs
    · exact ⟨_, rfl⟩
    · exact ⟨_, rfl⟩
    · -- a best child is a node of the array
      have hbp := hw.bestChild_parent p parent b hp hb
      cases hbn : s.getNode b with
      | none => simp [parentOf, hbn] at hbp
      | some bestChild =>
        obtain ⟨lead', hlead'⟩ := hw.nodeLeadsToViableHead_ok hbn spe currentSlot
        simp only [hlead']
        split_ifs <;> exact ⟨_, rfl⟩

/-- On a well-formed array `maybe_update_best_child_and_descendant` succeeds and writes only
the best links of the parent. -/
theorem WellFormed.maybeUpdateBestChildAndDescendant_run {s : ProtoArray} (hw : WellFormed s)
    {p c : Nat} {parent child : ProtoNode} (hp : s.getNode p = some parent)
    (hc : s.getNode c = some child) (spe : Nat) (currentSlot : Slot) :
    ∃ bc bd, (maybeUpdateBestChildAndDescendant spe p c currentSlot).run s =
      .ok () (s.setNode p { parent with bestChild := bc, bestDescendant := bd }) := by
  obtain ⟨⟨bc, bd⟩, hr⟩ := hw.bestChildAndDescendant_ok hp hc spe currentSlot
  exact ⟨bc, bd, by simp [maybeUpdateBestChildAndDescendant, hc, hp, hr, modifyNode]⟩

/-- `on_block` keeps `InvalidClosed` whatever the outcome: a child of an `Invalid` block is
rejected before anything is stored, and the rest only writes best links and validates. -/
theorem WellFormed.invalidClosed_onBlock {s : ProtoArray} (hw : WellFormed s)
    (hi : InvalidClosed s) (spe : Nat) (block : Block) (currentSlot : Slot) :
    InvalidClosed ((onBlock spe block currentSlot).run s).state := by
  unfold onBlock
  simp only [run_bind, run_get]
  split
  · exact hi
  · cases hnp : block.parentRoot.bind s.getIndex with
    | none =>
      simp only [Block.toNode_parent, run_bind, run_set, run_pure, Result.state_ok]
      rw [push_eq]
      exact hi.push hw (fun _ h => by cases h) (fun _ _ h => by cases h)
    | some p =>
      simp only [Block.toNode_parent]
      have hpl : p < s.nodes.length := by
        obtain ⟨r, -, hr⟩ := Option.bind_eq_some_iff.1 hnp
        exact hw.getIndex_lt hr
      cases hpn : s.getNode p with
      | none => simpa [okOr, hpn] using hi
      | some parent =>
        by_cases hinv : parent.executionStatus.isInvalid = true
        · simpa [okOr, hpn, hinv] using hi
        · have hi₁ : InvalidClosed (s.push (block.toNode (some p))) :=
            hi.push hw (fun q h => by cases h; exact hpl)
              (fun q m h hm => by cases h; rw [hpn] at hm; cases hm; exact Bool.eq_false_iff.2 hinv)
          simp only [okOr, hinv, run_bind, run_pure, run_set, Bool.false_eq_true, if_false]
          rw [push_eq]
          -- best links only, then a validation, which keeps `InvalidClosed` in any outcome
          have hbest : ∀ t, InvalidClosed t →
              InvalidClosed ((maybeUpdateBestChildAndDescendant spe p s.nodes.length currentSlot).run t).state := by
            intro t ht
            unfold maybeUpdateBestChildAndDescendant
            cases hc : t.getNode s.nodes.length with
            | none => simpa [hc] using ht
            | some child =>
              cases hq : t.getNode p with
              | none => simpa [hc, hq] using ht
              | some par =>
                cases hr : t.bestChildAndDescendant spe par child s.nodes.length currentSlot with
                | error e => simpa [hc, hq, hr] using ht
                | ok r =>
                  simp only [hc, hq, hr, modifyNode, run_bind, run_get, run_liftExcept, run_set,
                    Result.state_ok]
                  exact ht.setNode hq rfl rfl
          have h₂ := hbest _ hi₁
          cases hr : (maybeUpdateBestChildAndDescendant spe p s.nodes.length currentSlot).run
              (s.push (block.toNode (some p))) with
          | error e t =>
            rw [hr] at h₂
            exact h₂
          | ok _ t =>
            rw [hr] at h₂
            cases block.executionStatus with
            | valid h =>
              exact keeps_invalidClosed_validateUpwards _ p t h₂
            | optimistic h => exact h₂
            | invalid h => exact h₂
            | irrelevant f => exact h₂

/-- On a well-formed array with both properties, `on_block` keeps `ValidClosed`: a `Valid`
block validates the ancestors it is added below, and on such an array neither the update of
the best links nor that validation can fail half-way. -/
theorem WellFormed.validClosed_onBlock {s : ProtoArray} (hw : WellFormed s)
    (hi : InvalidClosed s) (hv : ValidClosed s) (spe : Nat) (block : Block) (currentSlot : Slot) :
    ValidClosed ((onBlock spe block currentSlot).run s).state := by
  unfold onBlock
  simp only [run_bind, run_get]
  split
  · exact hv
  · rename_i hknown
    have hfresh : s.getIndex block.root = none := by
      cases h : s.getIndex block.root
      · rfl
      · simp [h] at hknown
    cases hnp : block.parentRoot.bind s.getIndex with
    | none =>
      simp only [Block.toNode_parent, run_bind, run_set, run_pure, Result.state_ok]
      rw [push_eq]
      exact hv.push hw fun _ h => by cases h
    | some p =>
      simp only [Block.toNode_parent]
      have hpl : p < s.nodes.length := by
        obtain ⟨r, -, hr⟩ := Option.bind_eq_some_iff.1 hnp
        exact hw.getIndex_lt hr
      cases hpn : s.getNode p with
      | none => simpa [okOr, hpn] using hv
      | some parent =>
        by_cases hinv : parent.executionStatus.isInvalid = true
        · simpa [okOr, hpn, hinv] using hv
        · simp only [okOr, hinv, run_bind, run_pure, run_set, Bool.false_eq_true, if_false]
          rw [push_eq]
          let node := block.toNode (some p)
          -- the link from the new node to its parent fails only for a `Valid` block
          let e : Option Nat := if block.executionStatus.isValidAndPostBellatrix then some p else none
          have hw₁ : WellFormed (s.push node) :=
            hw.push hfresh (fun q h => by cases h; exact hpl) rfl rfl
          have hi₁ : InvalidClosed (s.push node) :=
            hi.push hw (fun q h => by cases h; exact hpl)
              (fun q m h hm => by cases h; rw [hpn] at hm; cases hm; exact Bool.eq_false_iff.2 hinv)
          have hv₁ : ValidClosedExcept (s.push node) e :=
            hv.push hw fun q h hval => by
              cases h
              simp only [node, Block.toNode] at hval
              simp [e, hval]
          have hpn₁ : (s.push node).getNode p = some parent := by
            rw [getNode_push, if_pos hpl, hpn]
          have hcn₁ : (s.push node).getNode s.nodes.length = some node := by
            simp [getNode_push]
          obtain ⟨bc, bd, hr⟩ := hw₁.maybeUpdateBestChildAndDescendant_run hpn₁ hcn₁ spe currentSlot
          rw [hr]
          -- the update of the best links keeps every status
          let parent' := { parent with bestChild := bc, bestDescendant := bd }
          have hpc₁ : (s.push node).parentOf s.nodes.length = some p := by
            simp [parentOf, hcn₁, node]
          have hw₂ : WellFormed ((s.push node).setNode p parent') := by
            have := @wellFormed_maybeUpdateBestChildAndDescendant _ hw₁ spe p s.nodes.length
              currentSlot hpc₁
            rwa [hr] at this
          have hi₂ : InvalidClosed ((s.push node).setNode p parent') := hi₁.setNode hpn₁ rfl rfl
          have hv₂ : ValidClosedExcept ((s.push node).setNode p parent') e :=
            hv₁.setNode hpn₁ rfl rfl rfl
          have hpl₂ : p < ((s.push node).setNode p parent').nodes.length := by
            simp [ProtoArray.push]
            omega
          cases hst : block.executionStatus with
          | valid h =>
            -- the validation from the parent closes the link from the new node
            have he : e = some p := by simp [e, hst, ExecutionStatus.isValidAndPostBellatrix]
            rw [he] at hv₂
            simp only [propagateExecutionPayloadValidationByIndex, run_bind, run_get]
            rcases validateUpwards_ok_or_invalid _ p _ hw₂ hi₂ hpl₂ hpl₂ with
              ⟨s', hok⟩ | ⟨err, m, -, hm, hminv⟩
            · rw [hok]
              exact validClosed_validateUpwards _ p _ s' hw₂ hv₂ hpl₂ hpl₂ hok
            · rw [getNode_setNode_self _ (by simpa using hpl₂)] at hm
              cases hm
              exact absurd hminv hinv
          | optimistic h =>
            have he : e = none := by simp [e, hst, ExecutionStatus.isValidAndPostBellatrix]
            rw [he] at hv₂
            exact hv₂
          | invalid h =>
            have he : e = none := by simp [e, hst, ExecutionStatus.isValidAndPostBellatrix]
            rw [he] at hv₂
            exact hv₂
          | irrelevant f =>
            have he : e = none := by simp [e, hst, ExecutionStatus.isValidAndPostBellatrix]
            rw [he] at hv₂
            exact hv₂

/-! ## `on_payload_attestation` -/

/-- A PTC quorum makes an `Irrelevant` node `Optimistic` at most, which keeps `InvalidClosed`. -/
theorem keeps_invalidClosed_onPayloadAttestation (spe ptcSize : Nat) (slot : Slot)
    (beaconBlockRoot : Hash256) (payloadPresent blobDataAvailable : Bool)
    (attestingIndices : List Nat) (currentSlot : Slot) :
    Keeps InvalidClosed (ForkChoice.onPayloadAttestation spe ptcSize slot beaconBlockRoot
      payloadPresent blobDataAvailable attestingIndices currentSlot) := by
  intro s hi
  unfold ForkChoice.onPayloadAttestation
  by_cases hfuture : slot > currentSlot
  · simpa [hfuture] using hi
  by_cases hold : currentSlot > slot + spe
  · simpa [hfuture, hold] using hi
  simp only [hfuture, hold, if_false]
  refine @ForkChoice.moves_lookupNode_bind Unit (fun a b => InvalidClosed a → InvalidClosed b)
    (fun _ h => h) _ _ _ (fun t i n hn ht => ?_) s hi
  by_cases hslot : slot = n.slot
  · simp only [hslot, ne_eq, not_true_eq_false, if_false]
    refine ht.setNode hn (by split_ifs <;> (try split) <;> rfl) ?_
    split_ifs <;> (try split) <;> cases hs : n.executionStatus <;>
      simp_all [ExecutionStatus.isInvalid, ExecutionStatus.isExecutionEnabled]
  · simpa [hslot] using ht

/-! ## Invalidation and `ValidClosed` -/

/-- `s'` came from `s` by writes that keep the shape and, of every status, whether it is
`Valid` and whether it is `Valid` or `Irrelevant`: all that `ValidClosed` reads. -/
structure SameValidity (s s' : ProtoArray) : Prop where
  reshape : Reshape s s'
  validity : ∀ x n n', s.getNode x = some n → s'.getNode x = some n' →
    n'.executionStatus.isValidAndPostBellatrix = n.executionStatus.isValidAndPostBellatrix ∧
      n'.executionStatus.isValidOrIrrelevant = n.executionStatus.isValidOrIrrelevant

namespace SameValidity

variable {s s' s'' : ProtoArray}

theorem refl (s : ProtoArray) : SameValidity s s where
  reshape := Reshape.refl s
  validity x n n' h h' := by
    rw [h] at h'
    cases h'
    exact ⟨rfl, rfl⟩

theorem trans (h₁ : SameValidity s s') (h₂ : SameValidity s' s'') : SameValidity s s'' where
  reshape := h₁.reshape.trans h₂.reshape
  validity x n n'' h h'' := by
    obtain ⟨n', h', -⟩ := h₁.reshape.getNode_of_root h
    obtain ⟨hv₁, hvi₁⟩ := h₁.validity x n n' h h'
    obtain ⟨hv₂, hvi₂⟩ := h₂.validity x n' n'' h' h''
    exact ⟨hv₂.trans hv₁, hvi₂.trans hvi₁⟩

theorem setNode {i : Nat} {n n' : ProtoNode} (hn : s.getNode i = some n)
    (hsk : n'.skeleton = n.skeleton)
    (hc : n'.bestChild = n.bestChild ∨ n'.bestChild = none)
    (hd : n'.bestDescendant = n.bestDescendant ∨ n'.bestDescendant = none)
    (hv : n'.executionStatus.isValidAndPostBellatrix = n.executionStatus.isValidAndPostBellatrix)
    (hvi : n'.executionStatus.isValidOrIrrelevant = n.executionStatus.isValidOrIrrelevant) :
    SameValidity s (s.setNode i n') where
  reshape := Reshape.setNode hn hsk hc hd
  validity x m m' hm hm' := by
    rw [getNode_setNode] at hm'
    split_ifs at hm' with hx
    · cases hm'
      rw [← hx.1, hn] at hm
      cases hm
      exact ⟨hv, hvi⟩
    · rw [hm] at hm'
      cases hm'
      exact ⟨rfl, rfl⟩

/-- `ValidClosed` reads nothing that such writes change. -/
theorem validClosed (h : SameValidity s s') (hv : ValidClosed s) : ValidClosed s' := by
  intro c n' p m' hc hp hm _ hval
  have hpc : s.parentOf c = some p := by
    rw [← h.reshape.parentOf_eq]
    simp [parentOf, hc, hp]
  obtain ⟨n, hn, hnp⟩ := Option.bind_eq_some_iff.1 hpc
  obtain ⟨m, hm₀, -⟩ := h.reshape.getNode_root hm
  rw [(h.validity p m m' hm₀ hm).2]
  rw [(h.validity c n n' hn hc).1] at hval
  exact hv c n p m hn hnp hm₀ (by simp) hval

end SameValidity

/-- Invalidation writes `Invalid` over `Optimistic` or `Invalid` only, and otherwise best
links. -/
theorem invalidationWrites_sameValidity : InvalidationWrites SameValidity where
  refl := SameValidity.refl
  trans _ _ _ h₁ h₂ := h₁.trans h₂
  best _ _ _ _ _ _ _ hn :=
    SameValidity.setNode hn rfl (by split_ifs <;> simp) (by split_ifs <;> simp) rfl rfl
  backward _ _ _ _ hn hs := SameValidity.setNode hn rfl (.inr rfl) (.inr rfl)
    (by simp [hs, ExecutionStatus.isValidAndPostBellatrix])
    (by simp [hs, ExecutionStatus.isValidOrIrrelevant])
  forward _ _ _ _ hn hs := SameValidity.setNode hn rfl (.inl rfl) (.inl rfl)
    (by rcases hs with hs | hs <;> simp [hs, ExecutionStatus.isValidAndPostBellatrix])
    (by rcases hs with hs | hs <;> simp [hs, ExecutionStatus.isValidOrIrrelevant])

/-- `propagate_execution_payload_invalidation` keeps `ValidClosed` whatever the outcome: it
fails on a `Valid` node before writing it. -/
theorem keeps_validClosed_propagateExecutionPayloadInvalidation (spe : Nat)
    (op : InvalidationOperation) : Keeps ValidClosed (propagateExecutionPayloadInvalidation spe op) :=
  fun s hv =>
    (invalidationWrites_sameValidity.moves_propagateExecutionPayloadInvalidation spe op s).validClosed hv

/-! ## Invalidation

Both loops of `propagate_execution_payload_invalidation` only turn `Optimistic` (or `Invalid`)
nodes into `Invalid` ones and record their positions. `Invalidated s₀ t K lo` says that the
array `t` came from `s₀` that way: every node that became `Invalid` is recorded in `K`, every
recorded position is at or after `lo` and `Invalid`, and nothing else changed that the two
properties read. The backward loop records positions on the path from the head to the start
`lo` of the forward loop; the forward loop then invalidates every later node whose parent is
recorded. -/

/-- The writes of invalidation so far, from `s₀` to `t`, with the recorded positions `K`. -/
structure Invalidated (s₀ t : ProtoArray) (K : List Nat) (lo : Nat) : Prop where
  reshape : Reshape s₀ t
  /-- A node that is `Invalid` now was `Invalid` before or is recorded. -/
  recorded : ∀ x n, t.getNode x = some n → n.executionStatus.isInvalid = true →
    (∃ n₀, s₀.getNode x = some n₀ ∧ n₀.executionStatus.isInvalid = true) ∨ x ∈ K
  /-- A recorded node is at or after `lo` and `Invalid`. -/
  mem_invalid : ∀ x ∈ K, lo ≤ x ∧ ∃ n, t.getNode x = some n ∧ n.executionStatus.isInvalid = true
  /-- An `Invalid` node stays `Invalid`, and every payload hash stays. -/
  stays : ∀ x n₀ n, s₀.getNode x = some n₀ → t.getNode x = some n →
    (n₀.executionStatus.isInvalid = true → n.executionStatus.isInvalid = true) ∧
      n.executionStatus.blockHash = n₀.executionStatus.blockHash

namespace Invalidated

variable {s₀ t : ProtoArray} {K : List Nat} {lo : Nat}

theorem refl (s₀ : ProtoArray) (lo : Nat) : Invalidated s₀ s₀ [] lo where
  reshape := Reshape.refl s₀
  recorded x n hn hinv := .inl ⟨n, hn, hinv⟩
  mem_invalid x hx := by cases hx
  stays x n₀ n h₀ h := by
    rw [h₀] at h
    cases h
    exact ⟨id, rfl⟩

/-- A write of a node that keeps its status. -/
theorem keep (h : Invalidated s₀ t K lo) {i : Nat} {n n' : ProtoNode} (hn : t.getNode i = some n)
    (hsk : n'.skeleton = n.skeleton)
    (hc : n'.bestChild = n.bestChild ∨ n'.bestChild = none)
    (hd : n'.bestDescendant = n.bestDescendant ∨ n'.bestDescendant = none)
    (hs : n'.executionStatus = n.executionStatus) : Invalidated s₀ (t.setNode i n') K lo where
  reshape := h.reshape.trans (Reshape.setNode hn hsk hc hd)
  recorded x m hm hinv := by
    rw [getNode_setNode] at hm
    split_ifs at hm with hx
    · cases hm
      rw [← hx.1]
      rw [hs] at hinv
      exact h.recorded i n hn hinv
    · exact h.recorded x m hm hinv
  mem_invalid x hx := by
    obtain ⟨hlo, m, hm, hinv⟩ := h.mem_invalid x hx
    refine ⟨hlo, ?_⟩
    rw [getNode_setNode]
    split_ifs with hix
    · rw [← hix.1, hn] at hm
      cases hm
      exact ⟨n', rfl, hs ▸ hinv⟩
    · exact ⟨m, hm, hinv⟩
  stays x n₀ m h₀ hm := by
    rw [getNode_setNode] at hm
    split_ifs at hm with hx
    · cases hm
      rw [← hx.1] at h₀
      rw [hs]
      exact h.stays i n₀ n h₀ hn
    · exact h.stays x n₀ m h₀ hm

/-- Turning an `Optimistic` or `Invalid` node at `i`, at or after `lo`, into an `Invalid` one
with the same hash, and recording `i`. -/
theorem invalidate (h : Invalidated s₀ t K lo) {i : Nat} {n n' : ProtoNode}
    (hn : t.getNode i = some n) (hsk : n'.skeleton = n.skeleton)
    (hc : n'.bestChild = n.bestChild ∨ n'.bestChild = none)
    (hd : n'.bestDescendant = n.bestDescendant ∨ n'.bestDescendant = none) {hash : ExecutionBlockHash}
    (hn' : n'.executionStatus = .invalid hash)
    (hold : n.executionStatus = .optimistic hash ∨ n.executionStatus = .invalid hash) (hlo : lo ≤ i) :
    Invalidated s₀ (t.setNode i n') (i :: K) lo where
  reshape := h.reshape.trans (Reshape.setNode hn hsk hc hd)
  recorded x m hm hinv := by
    rw [getNode_setNode] at hm
    split_ifs at hm with hx
    · exact .inr (hx.1 ▸ List.mem_cons_self)
    · rcases h.recorded x m hm hinv with h₀ | hK
      · exact .inl h₀
      · exact .inr (List.mem_cons_of_mem _ hK)
  mem_invalid x hx := by
    have hi := lt_length_of_getNode t hn
    rcases List.mem_cons.1 hx with rfl | hK
    · exact ⟨hlo, n', getNode_setNode_self t hi n', by simp [hn']⟩
    · obtain ⟨hlo', m, hm, hinv⟩ := h.mem_invalid x hK
      refine ⟨hlo', ?_⟩
      by_cases hix : i = x
      · subst hix
        exact ⟨n', getNode_setNode_self t hi n', by simp [hn']⟩
      · exact ⟨m, by rw [getNode_setNode_ne t hix]; exact hm, hinv⟩
  stays x n₀ m h₀ hm := by
    rw [getNode_setNode] at hm
    split_ifs at hm with hx
    · cases hm
      rw [← hx.1] at h₀
      have := (h.stays i n₀ n h₀ hn).2
      refine ⟨fun _ => by simp [hn'], ?_⟩
      rw [← this, hn']
      rcases hold with hold | hold <;> simp [hold, ExecutionStatus.blockHash]
    · exact h.stays x n₀ m h₀ hm

end Invalidated

section backward

variable (op : InvalidationOperation) (headBlockRoot : Hash256)
  (latestValidAncestorIsDescendant : Bool)

/-- Where the backward loop may stand: on the path from the head up to `lo` when the latest
valid ancestor is a known ancestor of the head; otherwise at the head itself, or at a node of
another root, where the loop stops. -/
def OnBackwardPath (s₀ : ProtoArray) (lo head index : Nat) : Prop :=
  (latestValidAncestorIsDescendant = true → Reaches s₀.parentOf index lo) ∧
    (latestValidAncestorIsDescendant = false →
      index = head ∨ ∀ n, s₀.getNode index = some n → n.root ≠ headBlockRoot)

variable {s₀ : ProtoArray} {lo head : Nat}

theorem onBackwardPath_of_false (s₀ : ProtoArray) (lo head : Nat) :
    OnBackwardPath headBlockRoot false s₀ lo head head := by
  unfold OnBackwardPath
  exact ⟨(fun h => nomatch h), fun _ => .inl rfl⟩

theorem onBackwardPath_of_true (h : Reaches s₀.parentOf head lo) :
    OnBackwardPath headBlockRoot true s₀ lo head head := by
  unfold OnBackwardPath
  exact ⟨fun _ => h, fun h => nomatch h⟩

/-- The backward loop records only positions on the path from the head to `lo`, which are at or
after `lo`: with a known latest valid ancestor at `lo` it stops there, and otherwise it can
only invalidate the head. -/
theorem invalidated_invalidateBackwards (hw : WellFormed s₀)
    (hhead : s₀.getIndex headBlockRoot = some head)
    (hlo : latestValidAncestorIsDescendant = false → lo = head)
    (hlva : latestValidAncestorIsDescendant = true →
      ∃ m, s₀.getNode lo = some m ∧ m.executionStatus.blockHash = op.latestValidAncestor) :
    ∀ fuel index inv t K t', Invalidated s₀ t inv lo →
      OnBackwardPath headBlockRoot latestValidAncestorIsDescendant s₀ lo head index →
      (invalidateBackwards op headBlockRoot latestValidAncestorIsDescendant fuel index inv).run t =
        .ok K t' → Invalidated s₀ t' K lo
  | 0, _, inv, t, K, t', h, _, hr => by
    simp only [invalidateBackwards, run_pure, Result.ok.injEq] at hr
    obtain ⟨rfl, rfl⟩ := hr
    exact h
  | fuel + 1, index, inv, t, K, t', h, hpath, hr => by
    unfold invalidateBackwards at hr
    cases hn : t.getNode index with
    | none => simp [hn] at hr
    | some node =>
      obtain ⟨n₀, hn₀, hroot⟩ := h.reshape.getNode_root hn
      have hsk : node.skeleton = n₀.skeleton := by
        have := h.reshape.getNode_skeleton index
        rw [hn, hn₀] at this
        exact Option.some.inj this
      cases hh : node.executionStatus.blockHash with
      | none =>
        simp only [hn, hh, run_bind, run_get, run_pure, Result.ok.injEq] at hr
        obtain ⟨rfl, rfl⟩ := hr
        exact h
      | some hash =>
        simp only [hn, hh, run_bind, run_get] at hr
        by_cases h₁ : latestValidAncestorIsDescendant = false ∧ ¬node.root = headBlockRoot
        · simp [h₁] at hr
          obtain ⟨rfl, rfl⟩ := hr
          exact h
        by_cases h₂ : op.latestValidAncestor = some hash
        · -- the latest valid ancestor: only its best links change
          simp [h₁, h₂] at hr
          obtain ⟨rfl, rfl⟩ := hr
          exact h.keep hn rfl (by split_ifs <;> simp) (by split_ifs <;> simp) rfl
        -- the loop invalidates at or after `lo` only
        have hidx : lo ≤ index := by
          cases hd : latestValidAncestorIsDescendant
          · have hroot' : node.root = headBlockRoot := by
              by_contra hne
              exact h₁ ⟨hd, hne⟩
            rcases hpath.2 hd with hi | hi
            · rw [hlo hd, hi]
            · exact absurd (hroot ▸ hroot') (hi n₀ hn₀)
          · exact (hpath.1 hd).le hw.parent_lt
        -- the walk goes on to the parent, which is still on the path
        have hnext : ∀ p, node.parent = some p →
            OnBackwardPath headBlockRoot latestValidAncestorIsDescendant s₀ lo head p := by
          intro p hp
          have hp₀ : s₀.parentOf index = some p := by
            have hpar : n₀.parent = node.parent := (Prod.mk.inj hsk).2.symm
            simp [parentOf, hn₀, hpar, hp]
          constructor
          · intro hd
            -- at `lo` the hash is the latest valid one, where the loop would have stopped
            have hne : index ≠ lo := by
              rintro rfl
              obtain ⟨m, hm, hmh⟩ := hlva hd
              rw [hn₀] at hm
              cases hm
              have hsame := (h.stays index n₀ node hn₀ hn).2
              rw [hh, hmh] at hsame
              exact h₂ hsame.symm
            obtain ⟨p', hp', hreach⟩ := (hpath.1 hd).parent_of_ne hne
            rw [hp₀] at hp'
            cases hp'
            exact hreach
          · intro hd
            -- the head's parent has another root
            refine .inr fun n hpn hpr => ?_
            have hroot' : node.root = headBlockRoot := by
              by_contra hne
              exact h₁ ⟨hd, hne⟩
            have hlt : p < index := hw.parent_lt index p hp₀
            have := hw.root_inj hpn hn₀ (hpr.trans (hroot.trans hroot').symm)
            omega
        by_cases h₃ : (¬node.root = headBlockRoot ∨ op.invalidateBlockRoot = true) ∨
            latestValidAncestorIsDescendant = true
        · cases hs : node.executionStatus with
          | valid h' => simp [h₁, h₂, h₃, hs] at hr
          | optimistic h' =>
            have hinv : Invalidated s₀ (t.setNode index
                { node with executionStatus := .invalid h', bestChild := none, bestDescendant := none })
                (index :: inv) lo :=
              h.invalidate hn rfl (.inr rfl) (.inr rfl) rfl (.inl hs) hidx
            cases hp : node.parent with
            | none =>
              simp [h₁, h₂, h₃, hs, hp] at hr
              obtain ⟨rfl, rfl⟩ := hr
              rw [hp] at hinv
              exact hinv
            | some p =>
              simp [h₁, h₂, h₃, hs, hp] at hr
              rw [hp] at hinv
              exact invalidated_invalidateBackwards hw hhead hlo hlva fuel p _ _ K t' hinv
                (hnext p hp) hr
          | invalid h' =>
            cases hp : node.parent with
            | none =>
              simp [h₁, h₂, h₃, hs, hp] at hr
              obtain ⟨rfl, rfl⟩ := hr
              exact h
            | some p =>
              simp [h₁, h₂, h₃, hs, hp] at hr
              exact invalidated_invalidateBackwards hw hhead hlo hlva fuel p _ _ K t' h (hnext p hp) hr
          | irrelevant f =>
            simp [h₁, h₂, h₃, hs] at hr
            obtain ⟨rfl, rfl⟩ := hr
            exact h
        · cases hp : node.parent with
          | none =>
            simp [h₁, h₂, h₃, hp] at hr
            obtain ⟨rfl, rfl⟩ := hr
            exact h
          | some p =>
            simp [h₁, h₂, h₃, hp] at hr
            exact invalidated_invalidateBackwards hw hhead hlo hlva fuel p _ _ K t' h (hnext p hp) hr

/-- The forward loop over the positions `y, …, y + k - 1`, all after `lo`: it keeps
`Invalidated`, and once it has passed a position, that position is recorded if its parent is.
A position recorded later is larger than every position passed, so no passed position has it
as parent. -/
theorem invalidated_invalidateForwards (hw : WellFormed s₀) :
    ∀ (k y : Nat) (K : List Nat) (t t' : ProtoArray), Invalidated s₀ t K lo → lo < y →
      (∀ c n p, lo < c → c < y → t.getNode c = some n → n.parent = some p → p ∈ K → c ∈ K) →
      (invalidateForwards (List.range' y k) K).run t = .ok () t' →
      ∃ K', Invalidated s₀ t' K' lo ∧
        ∀ c n p, lo < c → c < y + k → t'.getNode c = some n → n.parent = some p → p ∈ K' → c ∈ K'
  | 0, y, K, t, t', h, _, hcl, hr => by
    simp only [List.range'_zero, invalidateForwards, run_pure, Result.ok.injEq] at hr
    obtain ⟨-, rfl⟩ := hr
    exact ⟨K, h, hcl⟩
  | k + 1, y, K, t, t', h, hy, hcl, hr => by
    have hdesc : Descending t.parentOf := h.reshape.parentOf_eq ▸ hw.parent_lt
    simp only [List.range'_succ, invalidateForwards, run_bind, run_get] at hr
    cases hn : t.getNode y with
    | none => simp [hn] at hr
    | some node =>
      -- passing `y` without a write: its parent is not recorded
      have hskip : (∀ p, node.parent = some p → p ∉ K) →
          (invalidateForwards (List.range' (y + 1) k) K).run t = .ok () t' → ∃ K', Invalidated s₀ t' K' lo ∧
            ∀ c n p, lo < c → c < y + (k + 1) → t'.getNode c = some n → n.parent = some p → p ∈ K' → c ∈ K' := by
        intro hpK hrest
        have hcl' : ∀ c n p, lo < c → c < y + 1 → t.getNode c = some n → n.parent = some p → p ∈ K → c ∈ K := by
          intro c n p hlo hc hcn hcp hpk
          by_cases hcy : c = y
          · subst hcy
            rw [hn] at hcn
            cases hcn
            exact absurd hpk (hpK p hcp)
          · exact hcl c n p hlo (by omega) hcn hcp hpk
        obtain ⟨K', h', hcl''⟩ :=
          invalidated_invalidateForwards hw k (y + 1) K t t' h (by omega) hcl' hrest
        exact ⟨K', h', fun c n p hlo hc => hcl'' c n p hlo (by omega)⟩
      cases hp : node.parent with
      | none =>
        simp only [hn, hp] at hr
        exact hskip (fun q hq => by rw [hp] at hq; cases hq) hr
      | some p =>
        -- invalidating `y`, whose parent is recorded, and recording it
        have hwrite : ∀ hash, (node.executionStatus = .optimistic hash ∨
              node.executionStatus = .invalid hash) →
            (invalidateForwards (List.range' (y + 1) k) (y :: K)).run
              (t.setNode y { node with parent := some p, executionStatus := .invalid hash }) = .ok () t' →
            ∃ K', Invalidated s₀ t' K' lo ∧ ∀ c n p, lo < c → c < y + (k + 1) →
              t'.getNode c = some n → n.parent = some p → p ∈ K' → c ∈ K' := by
          intro hash hold hrest
          have h₁ : Invalidated s₀ (t.setNode y
              { node with parent := some p, executionStatus := .invalid hash }) (y :: K) lo :=
            h.invalidate hn (by simp [ProtoNode.skeleton, hp]) (.inl rfl) (.inl rfl) rfl hold hy.le
          have hcl₁ : ∀ c n q, lo < c → c < y + 1 →
              (t.setNode y { node with parent := some p, executionStatus := .invalid hash }).getNode c = some n →
              n.parent = some q → q ∈ y :: K → c ∈ y :: K := by
            intro c n q hlo hc hcn hcq hqK
            by_cases hcy : c = y
            · subst hcy
              exact List.mem_cons_self
            · rw [getNode_setNode_ne t (Ne.symm hcy)] at hcn
              have hqc : q < c := hdesc c q (by simp [parentOf, hcn, hcq])
              rcases List.mem_cons.1 hqK with rfl | hqK
              · omega
              · exact List.mem_cons_of_mem _ (hcl c n q hlo (by omega) hcn hcq hqK)
          obtain ⟨K', h', hcl'⟩ :=
            invalidated_invalidateForwards hw k (y + 1) (y :: K) _ t' h₁ (by omega) hcl₁ hrest
          exact ⟨K', h', fun c n p hlo hc => hcl' c n p hlo (by omega)⟩
        by_cases hpK : p ∈ K
        · cases hs : node.executionStatus with
          | valid h' => simp [hn, hp, hpK, hs] at hr
          | irrelevant f => simp [hn, hp, hpK, hs] at hr
          | optimistic h' =>
            simp [hn, hp, hpK, hs] at hr
            exact hwrite h' (.inl hs) hr
          | invalid h' =>
            simp [hn, hp, hpK, hs] at hr
            exact hwrite h' (.inr hs) hr
        · simp only [hn, hp, hpK, if_false] at hr
          exact hskip (fun q hq => by rw [hp] at hq; cases hq; exact hpK) hr

/-- When the nodes after `lo` are recorded as soon as their parent is, the writes of
invalidation keep `InvalidClosed`: a child of a node that was `Invalid` before was `Invalid`
too, and a child of a newly invalidated one comes after `lo` and is recorded. -/
theorem Invalidated.invalidClosed {t : ProtoArray} {K : List Nat} (hw : WellFormed s₀)
    (hi : InvalidClosed s₀) (h : Invalidated s₀ t K lo)
    (hcl : ∀ c n p, lo < c → c < t.nodes.length → t.getNode c = some n → n.parent = some p →
      p ∈ K → c ∈ K) : InvalidClosed t := by
  intro c n p m hc hp hm hinv
  have hpc : t.parentOf c = some p := by simp [parentOf, hc, hp]
  rcases h.recorded p m hm hinv with ⟨m₀, hm₀, hinv₀⟩ | hpK
  · -- the parent was `Invalid` in `s₀`, and so was the child
    obtain ⟨n₀, hn₀, -⟩ := h.reshape.getNode_root hc
    have hp₀ : n₀.parent = some p := by
      have := h.reshape.parentOf_eq ▸ hpc
      simpa [parentOf, hn₀] using this
    exact (h.stays c n₀ n hn₀ hc).1 (hi c n₀ p m₀ hn₀ hp₀ hm₀ hinv₀)
  · have hlo := (h.mem_invalid p hpK).1
    have hlt : p < c := (h.reshape.parentOf_eq ▸ hw.parent_lt) c p hpc
    have hcK := hcl c n p (by omega) (lt_length_of_getNode t hc) hc hp hpK
    obtain ⟨-, n', hn', hinv'⟩ := h.mem_invalid c hcK
    rw [hc] at hn'
    cases hn'
    exact hinv'

end backward

/-- `is_descendant(a, d)` on a well-formed array: both roots are known and the walk up from `d`
reaches `a`. -/
theorem WellFormed.reaches_of_isDescendant {s : ProtoArray} (hw : WellFormed s)
    {ancestorRoot descendantRoot : Hash256} (h : s.isDescendant ancestorRoot descendantRoot = true) :
    ∃ ia id, s.getIndex ancestorRoot = some ia ∧ s.getIndex descendantRoot = some id ∧
      Reaches s.parentOf id ia := by
  unfold isDescendant at h
  split at h
  · cases h
  · rename_i ancestor ha
    obtain ⟨ia, hia, hna⟩ := Option.bind_eq_some_iff.1 ha
    split at h
    · cases h
    · rename_i n hf
      have hmem : n ∈ s.iterNodes descendantRoot :=
        List.takeWhile_subset _ (List.mem_of_find?_eq_some hf)
      unfold iterNodes at hmem
      cases hid : s.getIndex descendantRoot with
      | none => simp [hid] at hmem
      | some id =>
        simp only [hid, List.mem_filterMap] at hmem
        obtain ⟨j, hj, hjn⟩ := hmem
        -- the node found has the ancestor's root, so it is the ancestor
        have hroot : n.root = ancestorRoot := by simpa using h
        obtain ⟨m, hm, hmr⟩ := hw.getIndex_eq_some.1 hia
        have hji : j = ia := hw.root_inj hjn hm (hroot.trans hmr.symm)
        exact ⟨ia, id, hia, rfl, hji ▸ mem_chain_reaches hj⟩

/-- `execution_block_hash_to_beacon_block_root` on a well-formed array: the node at the position
of the root it returns has that payload hash. -/
theorem WellFormed.blockHash_of_executionBlockHashToBeaconBlockRoot {s : ProtoArray}
    (hw : WellFormed s) {blockHash : ExecutionBlockHash} {root : Hash256} {i : Nat}
    (h : s.executionBlockHashToBeaconBlockRoot blockHash = some root) (hi : s.getIndex root = some i) :
    ∃ m, s.getNode i = some m ∧ m.executionStatus.blockHash = some blockHash := by
  unfold executionBlockHashToBeaconBlockRoot at h
  obtain ⟨n, hf, rfl⟩ := Option.map_eq_some_iff.1 h
  have hmem : n ∈ s.nodes := List.mem_reverse.1 (List.mem_of_find?_eq_some hf)
  have hhash : n.executionStatus.blockHash = some blockHash := by
    simpa using List.find?_some hf
  obtain ⟨k, hk, rfl⟩ := List.getElem_of_mem hmem
  have hkn : s.getNode k = some s.nodes[k] := List.getElem?_eq_getElem hk
  obtain ⟨m, hm, hmr⟩ := hw.getIndex_eq_some.1 hi
  have hki : k = i := hw.root_inj hkn hm hmr.symm
  subst hki
  rw [hkn] at hm
  cases hm
  exact ⟨_, hkn, hhash⟩

/-- The two loops of a successful invalidation, from the head at `head` and with the forward
loop starting after `lo`, keep `InvalidClosed`. -/
theorem invalidClosed_of_invalidation_loops {s s' t : ProtoArray} (hw : WellFormed s)
    (hi : InvalidClosed s) {op : InvalidationOperation} {latestValidAncestorIsDescendant : Bool}
    {head lo : Nat} {K : List Nat} (hhead : s.getIndex op.blockRoot = some head)
    (hlo : latestValidAncestorIsDescendant = false → lo = head)
    (hlva : latestValidAncestorIsDescendant = true →
      ∃ m, s.getNode lo = some m ∧ m.executionStatus.blockHash = op.latestValidAncestor)
    (hpath : OnBackwardPath op.blockRoot latestValidAncestorIsDescendant s lo head head)
    (hb : (invalidateBackwards op op.blockRoot latestValidAncestorIsDescendant s.nodes.length head
      []).run s = .ok K t)
    (hf : (invalidateForwards (List.range' (lo + 1) (t.nodes.length - (lo + 1))) K).run t =
      .ok () s') : InvalidClosed s' := by
  have h₁ := invalidated_invalidateBackwards op op.blockRoot latestValidAncestorIsDescendant hw
    hhead hlo hlva _ head [] s K t (Invalidated.refl s lo) hpath hb
  obtain ⟨K', h₂, hcl⟩ := invalidated_invalidateForwards hw _ (lo + 1) K t s' h₁ (by omega)
    (fun c n p h₁ h₂ => by omega) hf
  have hlen : s'.nodes.length = t.nodes.length := by
    rw [h₂.reshape.length_eq, h₁.reshape.length_eq]
  exact h₂.invalidClosed hw hi fun c n p hlo hc => hcl c n p hlo (by omega)

/-- The two loops of `propagate_execution_payload_invalidation` as they run after the lookup of
the head, with the forward loop starting after the position of `startRoot`. -/
theorem run_invalidation_loops {s s' : ProtoArray} {op : InvalidationOperation}
    {latestValidAncestorIsDescendant : Bool} {head : Nat} {startRoot : Hash256}
    (h : (invalidateBackwards op op.blockRoot latestValidAncestorIsDescendant s.nodes.length head []
      >>= fun inv => get >>= fun t => match t.getIndex startRoot with
        | some lo => invalidateForwards (List.range' (lo + 1) (t.nodes.length - (lo + 1))) inv
        | _ => throw (Error.nodeUnknown startRoot)).run s = .ok () s') :
    ∃ K t lo, (invalidateBackwards op op.blockRoot latestValidAncestorIsDescendant s.nodes.length
        head []).run s = .ok K t ∧ t.getIndex startRoot = some lo ∧
      (invalidateForwards (List.range' (lo + 1) (t.nodes.length - (lo + 1))) K).run t =
        .ok () s' := by
  simp only [run_bind, run_get] at h
  cases hb : (invalidateBackwards op op.blockRoot latestValidAncestorIsDescendant s.nodes.length
    head []).run s with
  | error e t => simp [hb] at h
  | ok K t =>
    simp only [hb] at h
    cases hlo : t.getIndex startRoot with
    | none => simp [hlo] at h
    | some lo =>
      simp only [hlo] at h
      exact ⟨K, t, lo, rfl, hlo, h⟩

/-- A successful `propagate_execution_payload_invalidation` keeps `InvalidClosed`. -/
theorem WellFormed.invalidClosed_propagateExecutionPayloadInvalidation {s s' : ProtoArray}
    (hw : WellFormed s) (hi : InvalidClosed s) {spe : Nat} {op : InvalidationOperation}
    (h : (propagateExecutionPayloadInvalidation spe op).run s = .ok () s') : InvalidClosed s' := by
  unfold propagateExecutionPayloadInvalidation at h
  simp only [run_bind, run_get] at h
  cases hidx : s.getIndex op.blockRoot with
  | none => simp [hidx] at h
  | some head =>
    simp only [hidx] at h
    obtain ⟨K, t, lo, hb, hlo, hf⟩ := run_invalidation_loops h
    have htR : Reshape s t := (invalidationWrites_reshape.moves_invalidateBackwards _ _ _ _ _ _).of_run_ok hb
    rw [htR.getIndex_eq] at hlo
    -- with no known latest valid ancestor both loops start at the head
    have hhead : ∀ {K t}, (invalidateBackwards op op.blockRoot false s.nodes.length head []).run s =
        .ok K t → s.getIndex op.blockRoot = some lo →
        (invalidateForwards (List.range' (lo + 1) (t.nodes.length - (lo + 1))) K).run t =
          .ok () s' → InvalidClosed s' := by
      intro K t hb hlo hf
      have hlh : lo = head := Option.some.inj (hlo.symm.trans hidx)
      exact invalidClosed_of_invalidation_loops hw hi hidx (fun _ => hlh)
        (fun h : false = true => nomatch h) (onBackwardPath_of_false _ _ _ _) hb hf
    cases hlr : op.latestValidAncestor.bind s.executionBlockHashToBeaconBlockRoot with
    | none =>
      simp only [hlr, Bool.false_eq_true, if_false, Option.getD_none] at hb hlo
      exact hhead hb hlo hf
    | some r =>
      simp only [hlr] at hb hlo
      cases hd : (s.isDescendant r op.blockRoot && s.isFinalizedCheckpointOrDescendant spe r) with
      | false =>
        simp only [hd, Bool.false_eq_true, if_false, Option.getD_none] at hb hlo
        exact hhead hb hlo hf
      | true =>
        simp only [hd, if_true, Option.getD_some] at hb hlo
        -- the forward loop starts at the latest valid ancestor, an ancestor of the head
        obtain ⟨H, hH, hHr⟩ := Option.bind_eq_some_iff.1 hlr
        have hdesc : s.isDescendant r op.blockRoot = true := (Bool.and_eq_true _ _ ▸ hd).1
        obtain ⟨ia, id, hia, hid, hreach⟩ := hw.reaches_of_isDescendant hdesc
        rw [hlo] at hia
        rw [hidx] at hid
        cases hia
        cases hid
        obtain ⟨m, hm, hmh⟩ := hw.blockHash_of_executionBlockHashToBeaconBlockRoot hHr hlo
        exact invalidClosed_of_invalidation_loops hw hi hidx (fun h : true = false => nomatch h)
          (fun _ => ⟨m, hm, hmh.trans hH.symm⟩) (onBackwardPath_of_true _ hreach) hb hf

end ProtoArray

end Vibehouse
