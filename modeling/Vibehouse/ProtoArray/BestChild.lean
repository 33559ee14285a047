import Vibehouse.ProtoArray.StatusRuns
import Mathlib.Data.Prod.Lex

/-! # Best children after `apply_score_changes`

The second loop of `apply_score_changes` (`updateBestDownFrom`) visits the positions from the
last to the first and offers each node to its parent through
`maybe_update_best_child_and_descendant`, which keeps the better of the offered child and the
parent's best child so far. The head of the specification is found by a descent from the
justified node that steps to a heaviest child, children ranked by weight and then by root
(`ProtoNode.score`), until a node has no child (`GreedyDescent`).

When every node is viable for the head the loop finds that descent. Two invariants over the
positions visited so far carry the proof (`updateBestDownFrom_induction`):

* `HeaviestFrom k`: every child at a position from `k` on scores at most its parent's best
  child, since a child replaces the best child only by outscoring it;
* `SettledFrom k`: a best link to a position from `k` on carries that child's best descendant,
  since the children of a node sit after it and were visited before it.

The loop writes best links only, so every state it passes through has the same viable nodes
(`ProtoArray.unlinked`). Where some nodes are not viable, two children that both fail
`node_leads_to_viable_head` are compared by weight alone and the heavier one is kept, and a best
child is judged by a best descendant that this pass has not refreshed yet; a node can end without
a best child beside a child that leads to a viable head (`bestChild_none_beside_viable_child`). -/

namespace Vibehouse

/-- The rank of a child in `maybe_update_best_child_and_descendant`: its weight, then its root. -/
def ProtoNode.score (n : ProtoNode) : Nat ×ₗ Nat := toLex (n.weight, n.root)

theorem ProtoNode.score_le_score {m n : ProtoNode} :
    m.score ≤ n.score ↔ m.weight < n.weight ∨ m.weight = n.weight ∧ m.root ≤ n.root :=
  Prod.Lex.toLex_le_toLex

/-- A node with its best links cleared. -/
def ProtoNode.unlinked (n : ProtoNode) : ProtoNode :=
  { n with bestChild := none, bestDescendant := none }

@[simp] theorem ProtoNode.score_unlinked (n : ProtoNode) : n.unlinked.score = n.score := rfl

namespace ProtoArray

open ParentChain EStateM

/-- The array with the best links of every node cleared: what the second loop of
`apply_score_changes` does not write. -/
def unlinked (s : ProtoArray) : ProtoArray := { s with nodes := s.nodes.map ProtoNode.unlinked }

/-- `c` is a child of `p` that no child of `p` outscores. -/
def IsHeaviestChild (s : ProtoArray) (p c : Nat) : Prop :=
  s.parentOf c = some p ∧ ∃ m, s.getNode c = some m ∧
    ∀ c' m', s.parentOf c' = some p → s.getNode c' = some m' → m'.score ≤ m.score

/-- `h` is reached from `j` by stepping to a heaviest child until a node has no child: the
head `get_head` of the specification finds from `j` when no node is filtered out. -/
inductive GreedyDescent (s : ProtoArray) : Nat → Nat → Prop
  | leaf {j : Nat} : (∀ c, s.parentOf c ≠ some j) → GreedyDescent s j j
  | step {j c h : Nat} : IsHeaviestChild s j c → GreedyDescent s c h → GreedyDescent s j h

/-- `d` is reached from `c` by following best-child links to a node without one. -/
inductive FollowsBest (s : ProtoArray) : Nat → Nat → Prop
  | leaf {c : Nat} {m : ProtoNode} : s.getNode c = some m → m.bestChild = none → FollowsBest s c c
  | step {c c' d : Nat} {m : ProtoNode} : s.getNode c = some m → m.bestChild = some c' →
      FollowsBest s c' d → FollowsBest s c d

/-- Every node is viable for the head at `currentSlot`. -/
def AllViable (spe : Nat) (currentSlot : Slot) (s : ProtoArray) : Prop :=
  ∀ m ∈ s.nodes, s.nodeIsViableForHead spe m currentSlot = true

instance (spe : Nat) (currentSlot : Slot) (s : ProtoArray) : Decidable (AllViable spe currentSlot s) :=
  inferInstanceAs (Decidable (∀ m ∈ s.nodes, s.nodeIsViableForHead spe m currentSlot = true))

/-- Every best link to a position from `k` on carries the best descendant of that child, or the
child itself. -/
def SettledFrom (k : Nat) (s : ProtoArray) : Prop :=
  ∀ q n c, s.getNode q = some n → n.bestChild = some c → k ≤ c →
    ∃ m, s.getNode c = some m ∧ n.bestDescendant = m.bestDescendant.or (some c)

/-- Every child at a position from `k` on scores at most its parent's best child. -/
def HeaviestFrom (k : Nat) (s : ProtoArray) : Prop :=
  ∀ q c m, s.parentOf c = some q → k ≤ c → s.getNode c = some m →
    ∃ n b mb, s.getNode q = some n ∧ n.bestChild = some b ∧ s.getNode b = some mb ∧
      m.score ≤ mb.score

/-! ## The links the loop does not read for viability -/

section unlinked

variable (s : ProtoArray)

@[simp] theorem getNode_unlinked (i : Nat) :
    s.unlinked.getNode i = (s.getNode i).map ProtoNode.unlinked := by
  simp [getNode, unlinked]

@[simp] theorem getIndex_unlinked : s.unlinked.getIndex = s.getIndex := rfl

@[simp] theorem parentOf_unlinked : s.unlinked.parentOf = s.parentOf := by
  funext i
  simp only [parentOf, getNode_unlinked]
  cases s.getNode i <;> rfl

@[simp] theorem unlinked_nodes_length : s.unlinked.nodes.length = s.nodes.length := by
  simp [unlinked]

@[simp] theorem unlinked_justifiedCheckpoint : s.unlinked.justifiedCheckpoint = s.justifiedCheckpoint :=
  rfl

@[simp] theorem unlinked_finalizedCheckpoint : s.unlinked.finalizedCheckpoint = s.finalizedCheckpoint :=
  rfl

theorem isFinalizedCheckpointOrDescendant_unlinked (spe : Nat) (root : Hash256) :
    s.unlinked.isFinalizedCheckpointOrDescendant spe root =
      s.isFinalizedCheckpointOrDescendant spe root := by
  unfold isFinalizedCheckpointOrDescendant
  simp only [getIndex_unlinked, getNode_unlinked, parentOf_unlinked, unlinked_nodes_length,
    unlinked_finalizedCheckpoint]
  cases s.getIndex root with
  | none => rfl
  | some i =>
    dsimp only
    cases s.getNode i with
    | none => rfl
    | some node =>
      dsimp only [Option.map_some, ProtoNode.unlinked]
      split_ifs
      · rfl
      · rfl
      · congr 1
        funext j
        cases s.getNode j <;> rfl

theorem nodeIsViableForHead_unlinked (spe : Nat) (m : ProtoNode) (currentSlot : Slot) :
    s.unlinked.nodeIsViableForHead spe m.unlinked currentSlot =
      s.nodeIsViableForHead spe m currentSlot := by
  simp only [nodeIsViableForHead, isFinalizedCheckpointOrDescendant_unlinked]
  rfl

/-- Writing the best links of one node keeps the array with its links cleared. -/
theorem unlinked_setNode_links {p : Nat} {n : ProtoNode} (hn : s.getNode p = some n)
    (bc bd : Option Nat) :
    (s.setNode p { n with bestChild := bc, bestDescendant := bd }).unlinked = s.unlinked := by
  have hp : p < s.nodes.length := lt_length_of_getNode s hn
  have hget : s.nodes[p] = n := by simpa [getNode, hp] using hn
  simp only [unlinked, setNode, List.map_set]
  congr 1
  apply List.ext_getElem?
  intro j
  rw [List.getElem?_set]
  split_ifs with hj hl
  · subst hj
    simp [hp, hget, ProtoNode.unlinked]
  · exact absurd (by simpa using hp) hl
  · rfl

end unlinked

variable {s t : ProtoArray}

theorem parentOf_eq_of_unlinked (h : t.unlinked = s.unlinked) : t.parentOf = s.parentOf := by
  rw [← parentOf_unlinked t, h, parentOf_unlinked]

theorem getNode_of_unlinked (h : t.unlinked = s.unlinked) {i : Nat} {m : ProtoNode}
    (hm : s.getNode i = some m) : ∃ m', t.getNode i = some m' ∧ m'.unlinked = m.unlinked := by
  have hi := getNode_unlinked t i
  rw [h, getNode_unlinked, hm] at hi
  cases ht : t.getNode i with
  | none => simp [ht] at hi
  | some m' =>
    simp only [ht, Option.map_some, Option.some.injEq] at hi
    exact ⟨m', rfl, hi.symm⟩

theorem nodeIsViableForHead_congr (h : t.unlinked = s.unlinked) {m m' : ProtoNode}
    (hm : m'.unlinked = m.unlinked) (spe : Nat) (currentSlot : Slot) :
    t.nodeIsViableForHead spe m' currentSlot = s.nodeIsViableForHead spe m currentSlot := by
  rw [← nodeIsViableForHead_unlinked t, h, hm, nodeIsViableForHead_unlinked]

theorem AllViable.of_unlinked {spe : Nat} {currentSlot : Slot} (hv : AllViable spe currentSlot t)
    (h : t.unlinked = s.unlinked) : AllViable spe currentSlot s := by
  intro m hm
  obtain ⟨i, hi⟩ := List.getElem?_of_mem hm
  obtain ⟨m', hm', hu⟩ := getNode_of_unlinked h hi
  rw [← nodeIsViableForHead_congr h hu]
  exact hv m' (List.mem_of_getElem? hm')

theorem mem_nodes_of_getNode {i : Nat} {m : ProtoNode} (h : s.getNode i = some m) : m ∈ s.nodes :=
  List.mem_of_getElem? h

/-! ## One visit of the loop -/

section visit

variable {spe : Nat} {currentSlot : Slot}

/-- A successful `maybe_update_best_child_and_descendant` writes the links it chose into the
parent and nothing else. -/
theorem maybeUpdateBestChildAndDescendant_ok {p c : Nat} {u : Unit}
    (h : (maybeUpdateBestChildAndDescendant spe p c currentSlot).run s = .ok u t) :
    ∃ parent child r, s.getNode p = some parent ∧ s.getNode c = some child ∧
      s.bestChildAndDescendant spe parent child c currentSlot = .ok r ∧
      t = s.setNode p { parent with bestChild := r.1, bestDescendant := r.2 } := by
  unfold maybeUpdateBestChildAndDescendant at h
  cases hc : s.getNode c with
  | none => simp [hc] at h
  | some child =>
    cases hp : s.getNode p with
    | none => simp [hc, hp] at h
    | some parent =>
      cases hr : s.bestChildAndDescendant spe parent child c currentSlot with
      | error e => simp [hc, hp, hr] at h
      | ok r =>
        simp [hc, hp, hr, modifyNode] at h
        exact ⟨parent, child, r, rfl, rfl, hr, h.symm⟩

theorem unlinked_maybeUpdateBestChildAndDescendant {p c : Nat} {u : Unit}
    (h : (maybeUpdateBestChildAndDescendant spe p c currentSlot).run s = .ok u t) :
    t.unlinked = s.unlinked := by
  obtain ⟨parent, -, r, hp, -, -, rfl⟩ := maybeUpdateBestChildAndDescendant_ok h
  exact unlinked_setNode_links s hp r.1 r.2

theorem nodeLeadsToViableHead_of_viable {n : ProtoNode} {b : Bool}
    (hv : s.nodeIsViableForHead spe n currentSlot = true)
    (h : s.nodeLeadsToViableHead spe n currentSlot = .ok b) : b = true := by
  unfold nodeLeadsToViableHead at h
  cases hd : n.bestDescendant with
  | none => simpa [hd, hv, pure, Except.pure, bind, Except.bind] using h.symm
  | some i =>
    cases hi : s.getNode i with
    | none => simp [hd, hi, throw, throwThe, MonadExceptOf.throw, bind, Except.bind] at h
    | some m => simpa [hd, hi, hv, pure, Except.pure, bind, Except.bind] using h.symm

/-- Among children that all lead to a viable head, `maybe_update_best_child_and_descendant`
keeps the one of higher score, and the offered child on equal scores. -/
theorem bestChildAndDescendant_of_allViable (hv : AllViable spe currentSlot s)
    {parent child : ProtoNode} {c : Nat} {r : Option Nat × Option Nat}
    (hc : s.getNode c = some child)
    (h : s.bestChildAndDescendant spe parent child c currentSlot = .ok r) :
    (r = (some c, child.bestDescendant.or (some c)) ∧
      ∀ b, parent.bestChild = some b → b ≠ c →
        ∃ mb, s.getNode b = some mb ∧ mb.score ≤ child.score) ∨
    (r = (parent.bestChild, parent.bestDescendant) ∧
      ∃ b mb, parent.bestChild = some b ∧ b ≠ c ∧ s.getNode b = some mb ∧
        child.score < mb.score) := by
  unfold bestChildAndDescendant at h
  obtain ⟨lead, hlead, h⟩ := Except.bind_eq_ok.1 h
  obtain rfl := nodeLeadsToViableHead_of_viable (hv child (mem_nodes_of_getNode hc)) hlead
  cases hb : parent.bestChild with
  | none =>
    simp only [hb, if_true] at h
    cases h
    exact .inl ⟨rfl, fun _ h => nomatch h⟩
  | some b =>
    by_cases hbc : b = c
    · subst hbc
      simp only [hb, Bool.not_true, if_true] at h
      cases h
      exact .inl ⟨rfl, fun _ hb' hne => absurd (Option.some.inj hb').symm hne⟩
    · simp only [hb, hbc, false_and, if_false] at h
      cases hbn : s.getNode b with
      | none => simp [hbn, throw, throwThe, MonadExceptOf.throw] at h
      | some mb =>
        simp only [hbn] at h
        obtain ⟨lead', hlead', h⟩ := Except.bind_eq_ok.1 h
        obtain rfl := nodeLeadsToViableHead_of_viable (hv mb (mem_nodes_of_getNode hbn)) hlead'
        simp only [Bool.not_true, Bool.and_false, Bool.false_and, Bool.false_eq_true, if_false] at h
        have hle : mb.score ≤ child.score ↔ mb.weight < child.weight ∨
            mb.weight = child.weight ∧ mb.root ≤ child.root := ProtoNode.score_le_score
        split_ifs at h with hw hr hgt <;> cases h
        · exact .inl ⟨rfl, fun b' hb' _ => ⟨mb, Option.some.inj hb' ▸ hbn, hle.2 (.inr ⟨hw.symm, hr⟩)⟩⟩
        · refine .inr ⟨rfl, b, mb, rfl, hbc, hbn, lt_of_not_ge fun h' => hr ?_⟩
          rcases hle.1 h' with h' | h'
          · omega
          · exact h'.2
        · exact .inl ⟨rfl, fun b' hb' _ => ⟨mb, Option.some.inj hb' ▸ hbn, hle.2 (.inl hgt)⟩⟩
        · refine .inr ⟨rfl, b, mb, rfl, hbc, hbn, lt_of_not_ge fun h' => ?_⟩
          rcases hle.1 h' with h' | h'
          · exact hgt h'
          · exact hw h'.1.symm

/-- A visit keeps `SettledFrom`: the parent's new link to the offered child carries the child's
best descendant, and a kept link is to a position visited earlier. -/
theorem settledFrom_visit (hw : WellFormed s) {i p : Nat} (hpi : s.parentOf i = some p)
    (hs : SettledFrom (i + 1) s)
    (h : (maybeUpdateBestChildAndDescendant spe p i currentSlot).run s = .ok () t) :
    SettledFrom i t := by
  obtain ⟨parent, child, r, hp, hc, hr, rfl⟩ := maybeUpdateBestChildAndDescendant_ok h
  have hpi' : p < i := hw.parent_lt i p hpi
  have hpl : p < s.nodes.length := lt_length_of_getNode s hp
  intro q n c hq hnc hic
  rw [getNode_setNode] at hq
  split_ifs at hq with hqp
  · obtain ⟨rfl, -⟩ := hqp
    cases hq
    rcases bestChildAndDescendant_cases hr with rfl | rfl | ⟨rfl, hne⟩
    · cases hnc
    · cases hnc
      exact ⟨child, by rw [getNode_setNode_ne s (Nat.ne_of_lt hpi')]; exact hc, rfl⟩
    · have hci : c ≠ i := fun hci => hne (hci ▸ hnc)
      obtain ⟨m, hm, hbd⟩ := hs p parent c hp hnc (by omega)
      exact ⟨m, by rw [getNode_setNode_ne s (by omega)]; exact hm, hbd⟩
  · have hqp' : p ≠ q := fun h => hqp ⟨h, hpl⟩
    have hci : c ≠ i := by
      rintro rfl
      exact hqp' (Option.some.inj (hpi.symm.trans (hw.bestChild_parent q n c hq hnc)))
    obtain ⟨m, hm, hbd⟩ := hs q n c hq hnc (by omega)
    exact ⟨m, by rw [getNode_setNode_ne s (by omega)]; exact hm, hbd⟩

/-- The scores, parents and presence of the nodes do not change in a visit. -/
theorem getNode_score_of_unlinked (h : t.unlinked = s.unlinked) {b : Nat} {mb : ProtoNode}
    (hb : s.getNode b = some mb) : ∃ mb', t.getNode b = some mb' ∧ mb'.score = mb.score := by
  obtain ⟨mb', hmb', hu⟩ := getNode_of_unlinked h hb
  exact ⟨mb', hmb', by rw [← ProtoNode.score_unlinked, hu, ProtoNode.score_unlinked]⟩

/-- A visit keeps `HeaviestFrom` when every node is viable: the offered child scores at most
the parent's new best child, which outscores the old one whenever it replaces it. -/
theorem heaviestFrom_visit (hw : WellFormed s) (hv : AllViable spe currentSlot s) {i p : Nat}
    (hpi : s.parentOf i = some p) (hs : HeaviestFrom (i + 1) s)
    (h : (maybeUpdateBestChildAndDescendant spe p i currentSlot).run s = .ok () t) :
    HeaviestFrom i t := by
  have hu := unlinked_maybeUpdateBestChildAndDescendant h
  obtain ⟨parent, child, r, hp, hc, hr, ht⟩ := maybeUpdateBestChildAndDescendant_ok h
  have hpi' : p < i := hw.parent_lt i p hpi
  have hpl : p < s.nodes.length := lt_length_of_getNode s hp
  have hother : ∀ q, q ≠ p → t.getNode q = s.getNode q := fun q hq => by
    rw [ht, getNode_setNode_ne s (Ne.symm hq)]
  have hnew : t.getNode p = some { parent with bestChild := r.1, bestDescendant := r.2 } := by
    rw [ht, getNode_setNode_self s hpl]
  intro q c m hcq hic hm
  rw [parentOf_eq_of_unlinked hu] at hcq
  have hcp : c ≠ p := by
    have := hw.parent_lt c q hcq
    omega
  rw [hother c hcp] at hm
  rcases Nat.lt_or_ge c (i + 1) with hci | hci
  · -- the offered child itself
    obtain rfl : c = i := by omega
    obtain rfl : q = p := Option.some.inj (hcq.symm.trans hpi)
    rw [hc] at hm
    cases hm
    rcases bestChildAndDescendant_of_allViable hv hc hr with ⟨rfl, -⟩ | ⟨rfl, b, mb, hb, -, hmb, hlt⟩
    · obtain ⟨mc, hmc, hsc⟩ := getNode_score_of_unlinked hu hc
      exact ⟨_, c, mc, hnew, rfl, hmc, hsc.symm ▸ le_refl _⟩
    · obtain ⟨mb', hmb', hsc⟩ := getNode_score_of_unlinked hu hmb
      exact ⟨_, b, mb', hnew, hb, hmb', hsc.symm ▸ le_of_lt hlt⟩
  · -- a child visited before, outscored by its parent's best child before this visit
    obtain ⟨n, b, mb, hq, hnb, hmb, hle⟩ := hs q c m hcq hci hm
    obtain ⟨mb', hmb', hsc⟩ := getNode_score_of_unlinked hu hmb
    by_cases hqp : q = p
    · subst hqp
      rw [hp] at hq
      cases hq
      rcases bestChildAndDescendant_of_allViable hv hc hr with ⟨rfl, hbetter⟩ | ⟨rfl, -⟩
      · obtain ⟨mc, hmc, hsc'⟩ := getNode_score_of_unlinked hu hc
        refine ⟨_, i, mc, hnew, rfl, hmc, hsc'.symm ▸ ?_⟩
        by_cases hbi : b = i
        · subst hbi
          rw [hc] at hmb
          cases hmb
          exact hle
        · obtain ⟨mb'', hmb'', hle'⟩ := hbetter b hnb hbi
          rw [hmb] at hmb''
          cases hmb''
          exact hle.trans hle'
      · exact ⟨_, b, mb', hnew, hnb, hmb', hsc.symm ▸ hle⟩
    · exact ⟨n, b, mb', (hother q hqp).trans hq, hnb, hmb', hsc.symm ▸ hle⟩

end visit

/-! ## The loop -/

section loop

variable {spe : Nat} {currentSlot : Slot}

/-- A property of the positions still to visit and of the state, kept by every visit, holds when
the second loop of `apply_score_changes` ends. -/
theorem updateBestDownFrom_induction (P : Nat → ProtoArray → Prop)
    (hvisit : ∀ i s t p, WellFormed s → s.parentOf i = some p → P (i + 1) s →
      (maybeUpdateBestChildAndDescendant spe p i currentSlot).run s = .ok () t → P i t)
    (hroot : ∀ i s, WellFormed s → s.parentOf i = none → P (i + 1) s → P i s) :
    ∀ n s t, WellFormed s → P n s → (updateBestDownFrom spe currentSlot n).run s = .ok () t →
      P 0 t
  | 0, s, t, _, hP, h => by
    simp only [updateBestDownFrom, run_pure] at h
    cases h
    exact hP
  | n + 1, s, t, hw, hP, h => by
    unfold updateBestDownFrom at h
    cases hn : s.getNode n with
    | none => simp [okOr, hn] at h
    | some node =>
      cases hp : node.parent with
      | none =>
        simp only [okOr, hn, hp, run_bind, run_get, run_pure] at h
        have hpn : s.parentOf n = none := by simp [parentOf, hn, hp]
        exact updateBestDownFrom_induction P hvisit hroot n s t hw (hroot n s hw hpn hP) h
      | some p =>
        have hpn : s.parentOf n = some p := by simp [parentOf, hn, hp]
        simp only [okOr, hn, hp, run_bind, run_get, run_pure] at h
        cases hr : (maybeUpdateBestChildAndDescendant spe p n currentSlot).run s with
        | error e u => simp [hr] at h
        | ok _ u =>
          rw [hr] at h
          have hwu : WellFormed ((maybeUpdateBestChildAndDescendant spe p n currentSlot).run s).state :=
            wellFormed_maybeUpdateBestChildAndDescendant hw hpn
          rw [hr] at hwu
          exact updateBestDownFrom_induction P hvisit hroot n u t hwu (hvisit n s u p hw hpn hP hr) h

theorem unlinked_updateBestDownFrom (hw : WellFormed s) {n : Nat}
    (h : (updateBestDownFrom spe currentSlot n).run s = .ok () t) : t.unlinked = s.unlinked :=
  updateBestDownFrom_induction (fun _ u => u.unlinked = s.unlinked)
    (fun _ _ _ _ _ _ hu hv => (unlinked_maybeUpdateBestChildAndDescendant hv).trans hu)
    (fun _ _ _ _ hu => hu) n s t hw rfl h

theorem settledFrom_updateBestDownFrom (hw : WellFormed s) {n : Nat} (hs : SettledFrom n s)
    (h : (updateBestDownFrom spe currentSlot n).run s = .ok () t) : SettledFrom 0 t := by
  refine updateBestDownFrom_induction SettledFrom (fun _ _ _ _ hw hpi hs hv =>
    settledFrom_visit hw hpi hs hv) ?_ n s t hw hs h
  intro i u hwu hroot hsu q n c hq hnc hic
  refine hsu q n c hq hnc (Nat.lt_of_le_of_ne hic ?_)
  rintro rfl
  rw [hwu.bestChild_parent q n _ hq hnc] at hroot
  cases hroot

theorem heaviestFrom_updateBestDownFrom (hw : WellFormed s) (hv : AllViable spe currentSlot s)
    {n : Nat} (hs : HeaviestFrom n s)
    (h : (updateBestDownFrom spe currentSlot n).run s = .ok () t) : HeaviestFrom 0 t := by
  refine (updateBestDownFrom_induction (fun k u => u.unlinked = s.unlinked ∧ HeaviestFrom k u)
    (fun _ u _ _ hwu hpi hs hr => ⟨(unlinked_maybeUpdateBestChildAndDescendant hr).trans hs.1,
      heaviestFrom_visit hwu (hv.of_unlinked hs.1.symm) hpi hs.2 hr⟩) ?_ n s t hw ⟨rfl, hs⟩ h).2
  intro i u _ hroot hsu
  refine ⟨hsu.1, fun q c m hcq hic hm => hsu.2 q c m hcq (Nat.lt_of_le_of_ne hic ?_) hm⟩
  rintro rfl
  rw [hcq] at hroot
  cases hroot

theorem settledFrom_length (hw : WellFormed s) : SettledFrom s.nodes.length s := by
  intro q n c hq hnc hic
  have hcq := hw.bestChild_parent q n c hq hnc
  cases hc : s.getNode c with
  | none => simp [parentOf, hc] at hcq
  | some m => exact absurd (lt_length_of_getNode s hc) (Nat.not_lt.2 hic)

theorem heaviestFrom_length : HeaviestFrom s.nodes.length s :=
  fun _ _ _ _ hic hm => absurd (lt_length_of_getNode s hm) (Nat.not_lt.2 hic)

end loop

/-! ## `apply_score_changes` and `find_head` -/

/-- A successful `apply_score_changes` ends with its second loop, run from a well-formed array
of the same length. -/
theorem applyScoreChanges_ok {spec : ChainSpec} {deltas : List Int}
    {justifiedCheckpoint finalizedCheckpoint : Checkpoint} {newJustifiedBalances : JustifiedBalances}
    {proposerBoostRoot : Hash256} {currentSlot : Slot} (hw : WellFormed s)
    (h : (applyScoreChanges spec deltas justifiedCheckpoint finalizedCheckpoint newJustifiedBalances
      proposerBoostRoot currentSlot).run s = .ok () t) :
    ∃ u, WellFormed u ∧ u.nodes.length = s.nodes.length ∧
      (updateBestDownFrom spec.slotsPerEpoch currentSlot s.nodes.length).run u = .ok () t := by
  unfold applyScoreChanges at h
  simp only [run_bind, run_get] at h
  split at h
  · simp at h
  · simp only [run_bind, run_set] at h
    have h₀ : Reshape s { s with justifiedCheckpoint, finalizedCheckpoint } :=
      Reshape.of_nodes_eq rfl rfl
    cases h₁ : (applyDeltasDownFrom spec newJustifiedBalances proposerBoostRoot s.nodes.length deltas
        0).run { s with justifiedCheckpoint, finalizedCheckpoint } with
    | error e u => simp [h₁] at h
    | ok r u =>
      simp only [h₁, run_modify] at h
      have h₂ := (moves_applyDeltasDownFrom spec newJustifiedBalances proposerBoostRoot
        s.nodes.length deltas 0).of_run_ok h₁
      have h₃ : Reshape u { u with previousProposerBoost := ⟨proposerBoostRoot, r.2⟩ } :=
        Reshape.of_nodes_eq rfl rfl
      exact ⟨_, hw.reshape ((h₀.trans h₂).trans h₃), ((h₀.trans h₂).trans h₃).length_eq, h⟩

theorem FollowsBest.getNode {c d : Nat} (h : FollowsBest s c d) : ∃ m, s.getNode d = some m := by
  induction h with
  | leaf hm _ => exact ⟨_, hm⟩
  | step _ _ _ ih => exact ih

/-- Settled links from every position end at a leaf, when a node without a best child has no
best descendant. -/
theorem followsBest_of_settledFrom (hw : WellFormed s) (hs : SettledFrom 0 s)
    (hleaf : ∀ c m, s.getNode c = some m → m.bestChild = none → m.bestDescendant = none)
    (c : Nat) {m : ProtoNode} (hm : s.getNode c = some m) :
    ∃ d, FollowsBest s c d ∧ m.bestDescendant.or (some c) = some d := by
  cases hb : m.bestChild with
  | none => exact ⟨c, .leaf hm hb, by simp [hleaf c m hm hb]⟩
  | some c' =>
    obtain ⟨m', hm', hbd⟩ := hs c m c' hm hb (Nat.zero_le _)
    have hlt : c < c' := hw.parent_lt c' c (hw.bestChild_parent c m c' hm hb)
    have hc' : c' < s.nodes.length := lt_length_of_getNode s hm'
    obtain ⟨d, hf, hd⟩ := followsBest_of_settledFrom hw hs hleaf c' hm'
    exact ⟨d, .step hm hb hf, by rw [hbd, hd]; rfl⟩
termination_by s.nodes.length - c

/-- Best links that each point at a heaviest child make a greedy descent. -/
theorem greedyDescent_of_followsBest
    (hheavy : ∀ p n c, s.getNode p = some n → n.bestChild = some c → IsHeaviestChild s p c)
    (hnone : ∀ p n, s.getNode p = some n → n.bestChild = none → ∀ c, s.parentOf c ≠ some p)
    {c d : Nat} (h : FollowsBest s c d) : GreedyDescent s c d := by
  induction h with
  | leaf hm hb => exact .leaf (hnone _ _ hm hb)
  | step hm hb _ ih => exact .step (hheavy _ _ _ hm hb) ih

theorem not_isInvalid_of_viable {spe : Nat} {n : ProtoNode} {currentSlot : Slot}
    (h : s.nodeIsViableForHead spe n currentSlot = true) : n.executionStatus.isInvalid = false := by
  cases hi : n.executionStatus.isInvalid with
  | false => rfl
  | true => simp [nodeIsViableForHead, hi] at h

/-- `find_head` returns the root of the justified node's best descendant, or of the justified
node itself, when both are viable. -/
theorem findHead_of_allViable {spe : Nat} {currentSlot : Slot} (hv : AllViable spe currentSlot s)
    {justifiedRoot : Hash256} {j : Nat} {nj m : ProtoNode} (hj : s.getIndex justifiedRoot = some j)
    (hnj : s.getNode j = some nj) (hm : s.getNode (nj.bestDescendant.getD j) = some m) :
    s.findHead spe justifiedRoot currentSlot = .ok m.root := by
  have hinv := not_isInvalid_of_viable (hv nj (mem_nodes_of_getNode hnj))
  have hvm := hv m (mem_nodes_of_getNode hm)
  simp [findHead, hj, hnj, hinv, hm, hvm, pure, Except.pure]

theorem HeaviestFrom.noChild (hh : HeaviestFrom 0 s) {p : Nat} {n : ProtoNode}
    (hp : s.getNode p = some n) (hb : n.bestChild = none) (c : Nat) : s.parentOf c ≠ some p := by
  intro hc
  obtain ⟨m, hm, -⟩ := getNode_of_parentOf s hc
  obtain ⟨n', b, -, hp', hb', -⟩ := hh p c m hc (Nat.zero_le c) hm
  rw [hp] at hp'
  cases hp'
  rw [hb] at hb'
  cases hb'

theorem HeaviestFrom.isHeaviestChild (hw : WellFormed s) (hh : HeaviestFrom 0 s) {p c : Nat}
    {n : ProtoNode} (hp : s.getNode p = some n) (hb : n.bestChild = some c) :
    IsHeaviestChild s p c := by
  have hcp := hw.bestChild_parent p n c hp hb
  obtain ⟨m, hm, -⟩ := getNode_of_parentOf s hcp
  refine ⟨hcp, m, hm, fun c' m' hc' hm' => ?_⟩
  obtain ⟨n', b, mb, hp', hb', hmb, hle⟩ := hh p c' m' hc' (Nat.zero_le c') hm'
  rw [hp] at hp'
  cases hp'
  rw [hb] at hb'
  cases hb'
  rw [hm] at hmb
  cases hmb
  exact hle

/-- A node without a child has no best descendant. -/
theorem WellFormed.bestDescendant_of_noChild (hw : WellFormed s) {p : Nat} {n : ProtoNode}
    (hp : s.getNode p = some n) (hno : ∀ c, s.parentOf c ≠ some p) : n.bestDescendant = none := by
  cases hd : n.bestDescendant with
  | none => rfl
  | some d =>
    obtain ⟨hpd, -, hr⟩ := hw.bestDescendant_reaches p n d hp hd
    obtain ⟨x, hx⟩ := hr.exists_child (Nat.ne_of_gt hpd)
    exact absurd hx (hno x)

/-- After a successful `apply_score_changes` on a well-formed array in which every node ends
viable for the head, the best child of every node is a heaviest child, and none exactly when it
has no child; its best descendant is the end of the best-child links from there; and
`find_head` returns the end of a greedy descent from the justified node. -/
theorem applyScoreChanges_bestChild_heaviest {spec : ChainSpec} {deltas : List Int}
    {justifiedCheckpoint finalizedCheckpoint : Checkpoint} {newJustifiedBalances : JustifiedBalances}
    {proposerBoostRoot : Hash256} {currentSlot : Slot} (hw : WellFormed s)
    (h : (applyScoreChanges spec deltas justifiedCheckpoint finalizedCheckpoint newJustifiedBalances
      proposerBoostRoot currentSlot).run s = .ok () t)
    (hv : AllViable spec.slotsPerEpoch currentSlot t) :
    (∀ p n, t.getNode p = some n →
      (n.bestChild = none ↔ ∀ c, t.parentOf c ≠ some p) ∧
      (n.bestChild = none → n.bestDescendant = none) ∧
      ∀ c, n.bestChild = some c →
        IsHeaviestChild t p c ∧ ∃ d, FollowsBest t c d ∧ n.bestDescendant = some d) ∧
    ∀ justifiedRoot j, t.getIndex justifiedRoot = some j →
      ∃ h m, GreedyDescent t j h ∧ t.getNode h = some m ∧
        t.findHead spec.slotsPerEpoch justifiedRoot currentSlot = .ok m.root := by
  obtain ⟨u, hwu, hlen, hrun⟩ := applyScoreChanges_ok hw h
  have hwt : WellFormed t := by
    have := keeps_updateBestDownFrom spec.slotsPerEpoch currentSlot s.nodes.length u hwu
    rwa [hrun] at this
  have hsettled : SettledFrom 0 t :=
    settledFrom_updateBestDownFrom hwu (hlen ▸ settledFrom_length hwu) hrun
  have hheavy : HeaviestFrom 0 t :=
    heaviestFrom_updateBestDownFrom hwu (hv.of_unlinked (unlinked_updateBestDownFrom hwu hrun))
      (hlen ▸ heaviestFrom_length) hrun
  have hleaf : ∀ c m, t.getNode c = some m → m.bestChild = none → m.bestDescendant = none :=
    fun c m hm hb => hwt.bestDescendant_of_noChild hm (hheavy.noChild hm hb)
  have hlinks : ∀ p n, t.getNode p = some n → ∀ c, n.bestChild = some c →
      IsHeaviestChild t p c ∧ ∃ d, FollowsBest t c d ∧ n.bestDescendant = some d := by
    intro p n hp c hb
    obtain ⟨m, hm, hbd⟩ := hsettled p n c hp hb (Nat.zero_le c)
    obtain ⟨d, hf, hd⟩ := followsBest_of_settledFrom hwt hsettled hleaf c hm
    exact ⟨hheavy.isHeaviestChild hwt hp hb, d, hf, hbd.trans hd⟩
  refine ⟨fun p n hp => ⟨⟨hheavy.noChild hp, fun hno => ?_⟩, hleaf p n hp, hlinks p n hp⟩, ?_⟩
  · cases hb : n.bestChild with
    | none => rfl
    | some c => exact absurd (hwt.bestChild_parent p n c hp hb) (hno c)
  · intro justifiedRoot j hj
    obtain ⟨nj, hnj, -⟩ := hwt.getIndex_eq_some.1 hj
    cases hb : nj.bestChild with
    | none =>
      have hd : (nj.bestDescendant.getD j) = j := by rw [hleaf j nj hnj hb]; rfl
      exact ⟨j, nj, .leaf (hheavy.noChild hnj hb), hnj,
        findHead_of_allViable hv hj hnj (by rw [hd]; exact hnj)⟩
    | some c =>
      obtain ⟨hheavyc, d, hf, hbd⟩ := hlinks j nj hnj c hb
      obtain ⟨md, hmd⟩ := hf.getNode
      have hd : (nj.bestDescendant.getD j) = d := by rw [hbd]; rfl
      refine ⟨d, md, .step hheavyc (greedyDescent_of_followsBest ?_ ?_ hf), hmd,
        findHead_of_allViable hv hj hnj (by rw [hd]; exact hmd)⟩
      · exact fun p n c hp hb => hheavy.isHeaviestChild hwt hp hb
      · exact fun p n hp hb => hheavy.noChild hp hb

/-- Blocks 3 and 2, in that order, at slot 1 on the genesis block 1; every checkpoint is the
genesis block. -/
def twoChildren : ProtoArray :=
  (ProtoArrayForkChoice.applyAll ⟨8, none, none, 512, none⟩
    ((ProtoArrayForkChoice.new 8 1 0 ⟨0, 1⟩ ⟨0, 1⟩ (.irrelevant false)).toOption.get (by decide))
    [.processBlock (ProtoArrayForkChoice.runBlock 1 3 1 (.irrelevant false) none) 1,
     .processBlock (ProtoArrayForkChoice.runBlock 1 2 1 (.irrelevant false) none) 1]).protoArray

theorem twoChildren_wellFormed : WellFormed twoChildren :=
  ProtoArrayForkChoice.wellFormed_applyAll _ _
    (@ProtoArrayForkChoice.wellFormed_new 8 1 0 ⟨0, 1⟩ ⟨0, 1⟩ (.irrelevant false) _ (by decide))

/-- With the genesis checkpoints kept, at slot 2, every node is viable and block 2 (ten more
votes) is the best child and the head. -/
theorem applyScoreChanges_bestChild_heaviest_twoChildren :
    let t := ((applyScoreChanges ⟨8, none, none, 512, none⟩ [0, 0, 10] ⟨0, 1⟩ ⟨0, 1⟩ ⟨[], 0, 0⟩ 0 2).run
      twoChildren).state
    AllViable 8 2 t ∧
    (∀ p n, t.getNode p = some n →
      (n.bestChild = none ↔ ∀ c, t.parentOf c ≠ some p) ∧
      (n.bestChild = none → n.bestDescendant = none) ∧
      ∀ c, n.bestChild = some c →
        IsHeaviestChild t p c ∧ ∃ d, FollowsBest t c d ∧ n.bestDescendant = some d) ∧
    ∀ justifiedRoot j, t.getIndex justifiedRoot = some j →
      ∃ h m, GreedyDescent t j h ∧ t.getNode h = some m ∧
        t.findHead 8 justifiedRoot 2 = .ok m.root :=
  ⟨by decide, @applyScoreChanges_bestChild_heaviest twoChildren _ ⟨8, none, none, 512, none⟩ [0, 0, 10]
    ⟨0, 1⟩ ⟨0, 1⟩ ⟨[], 0, 0⟩ 0 2 twoChildren_wellFormed rfl (by decide)⟩

/-- A block at `slot` on `parentRoot` whose realized and unrealized justified checkpoints are at
`justifiedEpoch`. -/
def justifiedBlock (slot root parentRoot justifiedEpoch : Nat) : Block :=
  { ProtoArrayForkChoice.runBlock slot root parentRoot (.irrelevant false) none with
    justifiedCheckpoint := ⟨justifiedEpoch, 1⟩,
    unrealizedJustifiedCheckpoint := some ⟨justifiedEpoch, 1⟩ }

/-- Blocks 8, 3 and 4 in a chain on the genesis block 1 and block 5 on the genesis block; a vote
for block 4 counted by `find_head` at slot 4; then blocks 7 and 6 on block 4. Blocks 4 and 5
carry justified epoch 1, the others epoch 0. -/
def staleIncumbent : ProtoArray :=
  (ProtoArrayForkChoice.applyAll ⟨8, none, none, 512, none⟩
    ((ProtoArrayForkChoice.new 8 1 0 ⟨0, 1⟩ ⟨0, 1⟩ (.irrelevant false)).toOption.get (by decide))
    [.processBlock (justifiedBlock 1 8 1 0) 1,
     .processBlock (justifiedBlock 2 3 8 0) 2,
     .processBlock (justifiedBlock 3 4 3 1) 3,
     .processBlock (justifiedBlock 3 5 1 1) 3,
     .processAttestation 0 4 0 3 false,
     .findHead ⟨0, 1⟩ ⟨0, 1⟩ ⟨[10], 10, 1⟩ 0 [] 4,
     .processBlock (justifiedBlock 4 7 4 0) 4,
     .processBlock (justifiedBlock 4 6 4 0) 4]).protoArray

theorem staleIncumbent_wellFormed : WellFormed staleIncumbent :=
  ProtoArrayForkChoice.wellFormed_applyAll _ _
    (@ProtoArrayForkChoice.wellFormed_new 8 1 0 ⟨0, 1⟩ ⟨0, 1⟩ (.irrelevant false) _ (by decide))

/-- `apply_score_changes` on `staleIncumbent` with the justified epoch moved to 1, a delta of 5
for block 6, and the current slot 100. -/
def staleIncumbentScoreChanges :=
  (applyScoreChanges ⟨8, none, none, 512, none⟩ [0, 0, 0, 0, 0, 0, 5] ⟨1, 1⟩ ⟨0, 1⟩
    ⟨[], 0, 0⟩ 0 100).run staleIncumbent

/-- When the justified epoch moves to 1, at slot 100 only blocks 4 and 5 are viable. The second
loop offers block 5 to the genesis block while its best child, block 8, still leads to block 4
through the best descendant of the last `find_head`, so block 8 stays by weight. Block 4 then
takes the heavier of its two unviable children as best child and passes that one up as best
descendant, so block 3 no longer leads to a viable head, and block 8, offered last, is cleared.
The genesis block ends without a best child beside block 5, which leads to a viable head, and
`find_head` from it fails. -/
theorem bestChild_none_beside_viable_child :
    WellFormed staleIncumbent ∧ staleIncumbentScoreChanges.value = .ok () ∧
    staleIncumbentScoreChanges.state.nodes.map
        (fun n => (n.root, n.parent, n.weight, n.bestChild)) =
      [(1, none, 15, none), (8, some 0, 15, none), (3, some 1, 15, some 3), (4, some 2, 15, some 6),
        (5, some 0, 0, none), (7, some 3, 0, none), (6, some 3, 5, none)] ∧
    staleIncumbentScoreChanges.state.nodes.map
        (fun n => staleIncumbentScoreChanges.state.nodeLeadsToViableHead 8 n 100) =
      [.ok false, .ok false, .ok false, .ok true, .ok true, .ok false, .ok false] ∧
    staleIncumbentScoreChanges.state.findHead 8 1 100 = .error (.invalidBestNode 100 1 1) :=
  -- the run goes through a `find_head`, which the kernel evaluates much faster than `whnf` does
  ⟨staleIncumbent_wellFormed, by decide +kernel, by decide +kernel, by decide +kernel,
    by decide +kernel⟩

end ProtoArray
end Vibehouse
