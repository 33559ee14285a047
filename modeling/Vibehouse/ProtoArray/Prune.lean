import Vibehouse.ProtoArray.WellFormed

/-! # Pruning

`maybe_prune` drops the nodes before the finalized one and renumbers the rest: positions,
parent links, best children and best descendants all move down by the finalized position `k`.
On a well-formed array every step succeeds: the indices left after the removal all point at or
after `k`, and the best links of a kept node point after it, so no subtraction underflows and
`IndexOverflow` is never returned (`maybePrune_run`). The renumbered array is well-formed
again (`keeps_maybePrune`). -/

namespace Vibehouse
namespace ProtoArray

open ParentChain EStateM MachineInt

/-- A kept node after pruning at `k`: a parent before `k` is dropped, every link moves down. -/
def shiftNode (k : Nat) (n : ProtoNode) : ProtoNode :=
  { n with parent := n.parent.bind (uCheckedSub · k), bestChild := n.bestChild.map (· - k),
           bestDescendant := n.bestDescendant.map (· - k) }

@[simp] theorem shiftNode_root (k : Nat) (n : ProtoNode) : (shiftNode k n).root = n.root := rfl

/-- Whether no node at `ps` has the root of the entry `e`: the entries that the first loop of
`maybe_prune` keeps. -/
def keptBy (s : ProtoArray) (ps : List Nat) (e : Hash256 × Nat) : Bool :=
  ps.all fun j => (s.getNode j).map (·.root) != some e.1

/-- The first loop of `maybe_prune` removes from `indices` the roots of the nodes at `ps`, and
nothing else. -/
theorem removeIndices_run : ∀ (ps : List Nat) (s : ProtoArray), (∀ j ∈ ps, j < s.nodes.length) →
    (removeIndices ps).run s = .ok () { s with indices := s.indices.filter (keptBy s ps) }
  | [], s, _ => by
    have h : keptBy s [] = fun _ => true := rfl
    rw [h, List.filter_eq_self.2 fun _ _ => rfl]
    rfl
  | j :: rest, s, hps => by
    have hj : j < s.nodes.length := hps j List.mem_cons_self
    obtain ⟨node, hn⟩ : ∃ node, s.getNode j = some node := ⟨s.nodes[j], List.getElem?_eq_getElem hj⟩
    have ih := removeIndices_run rest { s with indices := s.indices.filter (·.1 != node.root) }
      fun j hj => hps j (List.mem_cons_of_mem _ hj)
    simp only [removeIndices, okOr, hn, run_bind, run_get, run_pure, run_set, ih]
    -- the removal of one root, then of the rest, is one filter over both
    congr 2
    rw [List.filter_filter]
    refine List.filter_congr fun e _ => ?_
    have hg : ∀ j, ({ s with indices := s.indices.filter (·.1 != node.root) } : ProtoArray).getNode j
        = s.getNode j := fun _ => rfl
    rw [Bool.eq_iff_iff]
    simp only [keptBy, List.all_cons, hn, hg, Bool.and_eq_true, bne_iff_ne, ne_eq,
      List.all_eq_true]
    simp only [Option.map_some, Option.some.injEq]
    exact ⟨fun h => ⟨fun h' => h.2 h'.symm, h.1⟩, fun h => ⟨h.2, fun h' => h.1 h'.symm⟩⟩

/-- The pass over `indices` succeeds when no position is before `k`. -/
theorem shiftIndices_eq_ok {k : Nat} :
    ∀ {l : List (Hash256 × Nat)}, (∀ e ∈ l, k ≤ e.2) →
      shiftIndices k l = .ok (l.map fun e => (e.1, e.2 - k))
  | [], _ => rfl
  | (r, i) :: l, h => by
    have hi : k ≤ i := h (r, i) List.mem_cons_self
    have ih := shiftIndices_eq_ok fun e he => h e (List.mem_cons_of_mem _ he)
    unfold shiftIndices at ih ⊢
    simp [List.mapM_cons, uCheckedSub_of_le hi, ih]

/-- The best links of a node all point at or after `k`: shifting them by `k` cannot fail. -/
def LinksFrom (k : Nat) (n : ProtoNode) : Prop :=
  (∀ c, n.bestChild = some c → k ≤ c) ∧ ∀ d, n.bestDescendant = some d → k ≤ d

/-- One iteration of the last loop on a node whose best links point at or after `k`. -/
theorem shiftLinks_run {k i : Nat} {s : ProtoArray} {n : ProtoNode} (hn : s.getNode i = some n)
    (hk : LinksFrom k n) : (shiftLinks k i).run s = .ok () (s.setNode i (shiftNode k n)) := by
  have hi := lt_length_of_getNode s hn
  unfold shiftLinks
  cases hc : n.bestChild with
  | none =>
    cases hd : n.bestDescendant with
    | none => simp [modifyNode, okOr, hn, getNode_setNode_self s hi, hc, hd, shiftNode]
    | some d =>
      simp [modifyNode, okOr, hn, getNode_setNode_self s hi, hc, hd, shiftNode,
        uCheckedSub_of_le (hk.2 d hd)]
  | some c =>
    have hc' := uCheckedSub_of_le (hk.1 c hc)
    cases hd : n.bestDescendant with
    | none => simp [modifyNode, okOr, hn, getNode_setNode_self s hi, hc, hd, shiftNode, hc']
    | some d =>
      simp [modifyNode, okOr, hn, getNode_setNode_self s hi, hc, hd, shiftNode, hc',
        uCheckedSub_of_le (hk.2 d hd)]

/-- The list of nodes after the last loop of `maybe_prune` has visited the first `i`. -/
theorem take_shift_set (k : Nat) (l : List ProtoNode) {i : Nat} (hi : i < l.length) :
    ((l.take i).map (shiftNode k) ++ l.drop i).set i (shiftNode k l[i]) =
      (l.take (i + 1)).map (shiftNode k) ++ l.drop (i + 1) := by
  have hlen : ((l.take i).map (shiftNode k)).length = i := by simp [Nat.min_eq_left hi.le]
  rw [List.set_append_right _ _ (by omega), hlen, Nat.sub_self, List.drop_eq_getElem_cons hi,
    List.set_cons_zero, List.take_add_one, List.getElem?_eq_getElem hi]
  simp only [List.map_append, Option.toList_some, List.map_cons, List.map_nil, List.append_assoc,
    List.singleton_append]

/-- The last loop of `maybe_prune` shifts every node, when the links of every node point at or
after `k`. The loop carries the list whose first `i` nodes are shifted. -/
theorem shiftLinksFrom_run (k : Nat) (l : List ProtoNode) (hl : ∀ n ∈ l, LinksFrom k n) :
    ∀ m i (s : ProtoArray), s.nodes = (l.take i).map (shiftNode k) ++ l.drop i →
      i + m = l.length → (shiftLinksFrom k m i).run s = .ok () { s with nodes := l.map (shiftNode k) }
  | 0, i, s, hs, hm => by
    obtain ⟨_, _, _, nodes, _, _⟩ := s
    simp only [Nat.add_zero] at hm
    subst hm
    simp only [List.take_length, List.drop_length, List.append_nil] at hs
    subst hs
    rfl
  | m + 1, i, s, hs, hm => by
    have hi : i < l.length := by omega
    have hn : s.getNode i = some l[i] := by
      have hlen : ((l.take i).map (shiftNode k)).length = i := by simp [Nat.min_eq_left hi.le]
      rw [getNode, hs, List.getElem?_append_right (by omega), hlen, Nat.sub_self,
        List.getElem?_drop, Nat.add_zero, List.getElem?_eq_getElem hi]
    have ih := shiftLinksFrom_run k l hl m (i + 1) (s.setNode i (shiftNode k l[i]))
      (by rw [setNode, ← take_shift_set k l hi, hs]) (by omega)
    simp only [shiftLinksFrom, run_bind, shiftLinks_run hn (hl _ (List.getElem_mem hi))]
    exact ih

/-- The array that `maybe_prune` leaves when it prunes at the finalized position `k`: the
nodes from `k` on, shifted, and the entries of `indices` at or after `k`, shifted. -/
def pruned (k : Nat) (s : ProtoArray) : ProtoArray :=
  { s with nodes := (s.nodes.drop k).map (shiftNode k),
           indices := (s.indices.filter fun e => k ≤ e.2).map fun e => (e.1, e.2 - k) }

theorem getNode_pruned (k : Nat) (s : ProtoArray) (i : Nat) :
    (s.pruned k).getNode i = (s.getNode (i + k)).map (shiftNode k) := by
  simp [getNode, pruned, Nat.add_comm]

theorem parentOf_pruned (k : Nat) (s : ProtoArray) (i : Nat) :
    (s.pruned k).parentOf i = (s.parentOf (i + k)).bind (uCheckedSub · k) := by
  unfold parentOf
  rw [getNode_pruned]
  cases s.getNode (i + k) <;> simp [shiftNode]

section wellFormed

variable {s : ProtoArray} (hw : WellFormed s)
include hw

/-- On a well-formed array, the entries that the first loop keeps are those at or after `k`:
a root has one position, so the root of an entry at or after `k` is no root of a node before. -/
theorem WellFormed.keptBy_range {k : Nat} {e : Hash256 × Nat} (he : e ∈ s.indices) :
    keptBy s (List.range k) e = decide (k ≤ e.2) := by
  obtain ⟨n, hn, hr⟩ := (hw.mem_indices e.1 e.2).1 he
  rw [Bool.eq_iff_iff]
  simp only [keptBy, List.all_eq_true, List.mem_range, bne_iff_ne, ne_eq, decide_eq_true_eq]
  constructor
  · intro h
    by_contra hlt
    exact h e.2 (Nat.lt_of_not_le hlt) (by simp [hn, hr])
  · intro hle j hj hroot
    obtain ⟨m, hm, hmr⟩ := Option.map_eq_some_iff.1 hroot
    have := hw.root_inj hm hn (hmr.trans hr.symm)
    omega

/-- On a well-formed array, the best links of a node point after it. -/
theorem WellFormed.linksFrom {i : Nat} {n : ProtoNode} (hn : s.getNode i = some n) :
    LinksFrom i n := by
  constructor
  · intro c hc
    exact (hw.parent_lt c i (hw.bestChild_parent i n c hn hc)).le
  · intro d hd
    exact (hw.bestDescendant_reaches i n d hn hd).1.le

/-- `maybe_prune` on a well-formed array with the finalized root at `k`, at or past the
threshold: every step succeeds and the result is `pruned k s`. -/
theorem WellFormed.maybePrune_run {finalizedRoot : Hash256} {k : Nat}
    (hk : s.getIndex finalizedRoot = some k) (ht : s.pruneThreshold ≤ k) :
    (maybePrune finalizedRoot).run s = .ok () (s.pruned k) := by
  have hlen : k < s.nodes.length := hw.getIndex_lt hk
  -- the first loop keeps exactly the entries at or after `k`
  have hkept : s.indices.filter (keptBy s (List.range k)) = s.indices.filter fun e => k ≤ e.2 :=
    List.filter_congr fun e he => hw.keptBy_range he
  have hremove := removeIndices_run (List.range k) s fun j hj => by
    rw [List.mem_range] at hj
    omega
  rw [hkept] at hremove
  have hshift : shiftIndices k (s.indices.filter fun e => k ≤ e.2) =
      .ok ((s.indices.filter fun e => k ≤ e.2).map fun e => (e.1, e.2 - k)) :=
    shiftIndices_eq_ok fun e he => by simpa using (List.mem_filter.1 he).2
  -- the nodes from `k` on keep their best links at or after `k`
  have hlinks : ∀ n ∈ s.nodes.drop k, LinksFrom k n := by
    intro n hn
    obtain ⟨j, hj, rfl⟩ := List.getElem_of_mem hn
    have hj' : k + j < s.nodes.length := by
      simp only [List.length_drop] at hj
      omega
    have hget : s.getNode (k + j) = some s.nodes[k + j] := List.getElem?_eq_getElem hj'
    obtain ⟨hc, hd⟩ := hw.linksFrom hget
    simp only [List.getElem_drop]
    exact ⟨fun c h => by have := hc c h; omega, fun d h => by have := hd d h; omega⟩
  simp only [maybePrune, okOr, hk, run_bind, run_get, run_pure, if_neg (Nat.not_lt.2 ht),
    hremove, run_modify, hshift]
  exact shiftLinksFrom_run k (s.nodes.drop k) hlinks _ 0 _ (by simp) (by simp)

/-- Pruning keeps the invariant: the renumbering moves every position, parent and best link
down by `k` together, and a parent before `k` becomes no parent. -/
theorem WellFormed.pruned (k : Nat) : WellFormed (s.pruned k) where
  mem_indices r i := by
    simp only [getNode_pruned, Option.map_eq_some_iff]
    simp only [ProtoArray.pruned, List.mem_map, List.mem_filter, decide_eq_true_eq,
      Prod.mk.injEq]
    constructor
    · rintro ⟨⟨r', j⟩, ⟨he, hkj⟩, rfl, rfl⟩
      obtain ⟨n, hn, rfl⟩ := (hw.mem_indices r' j).1 he
      exact ⟨shiftNode k n, ⟨n, by rwa [Nat.sub_add_cancel hkj], rfl⟩, rfl⟩
    · rintro ⟨_, ⟨n, hn, rfl⟩, rfl⟩
      exact ⟨(n.root, i + k), ⟨(hw.mem_indices _ _).2 ⟨n, hn, rfl⟩, Nat.le_add_left k i⟩, rfl,
        Nat.add_sub_cancel i k⟩
  keys_nodup := by
    have hsub : ((s.indices.filter fun e => k ≤ e.2).map Prod.fst).Sublist (s.indices.map Prod.fst) :=
      List.filter_sublist.map Prod.fst
    simpa [ProtoArray.pruned, Function.comp_def] using hw.keys_nodup.sublist hsub
  parent_lt i p h := by
    rw [parentOf_pruned, Option.bind_eq_some_iff] at h
    obtain ⟨q, hq, hqp⟩ := h
    rw [uCheckedSub_eq_some] at hqp
    have := hw.parent_lt _ _ hq
    omega
  bestChild_parent i n' c' hn' hc' := by
    rw [getNode_pruned, Option.map_eq_some_iff] at hn'
    obtain ⟨n, hn, rfl⟩ := hn'
    obtain ⟨c, hc, rfl⟩ := Option.map_eq_some_iff.1 hc'
    have hpc := hw.bestChild_parent _ n c hn hc
    have hlt := hw.parent_lt _ _ hpc
    rw [parentOf_pruned, Nat.sub_add_cancel (by omega), hpc, Option.bind_some,
      uCheckedSub_of_le (Nat.le_add_left k i), Nat.add_sub_cancel]
  bestDescendant_reaches i n' d' hn' hd' := by
    rw [getNode_pruned, Option.map_eq_some_iff] at hn'
    obtain ⟨n, hn, rfl⟩ := hn'
    obtain ⟨d, hd, rfl⟩ := Option.map_eq_some_iff.1 hd'
    obtain ⟨hid, hdl, hreach⟩ := hw.bestDescendant_reaches _ n d hn hd
    -- the walk from `d` up to `i + k` stays at or after `k`, where the renumbering is a shift
    have hshift : ∀ x p, k ≤ p → s.parentOf x = some p →
        (s.pruned k).parentOf (x - k) = some (p - k) := by
      intro x p hkp hxp
      have := hw.parent_lt _ _ hxp
      rw [parentOf_pruned, Nat.sub_add_cancel (by omega), hxp, Option.bind_some,
        uCheckedSub_of_le hkp]
    refine ⟨by omega, by simp [ProtoArray.pruned]; omega, ?_⟩
    simpa using hreach.shift hw.parent_lt (Nat.le_add_left k i) hshift

end wellFormed

/-- `maybe_prune` keeps the invariant. -/
theorem keeps_maybePrune (finalizedRoot : Hash256) : Keeps WellFormed (maybePrune finalizedRoot) := by
  intro s hw
  cases hk : s.getIndex finalizedRoot with
  | none => simpa [maybePrune, okOr, hk] using hw
  | some k =>
    by_cases ht : k < s.pruneThreshold
    · simpa [maybePrune, okOr, hk, ht] using hw
    · rw [hw.maybePrune_run hk (Nat.le_of_not_lt ht)]
      exact hw.pruned k

/-- On a well-formed array `maybe_prune` fails only when the finalized root is unknown, and
then changes nothing: `IndexOverflow` is never returned. -/
theorem WellFormed.maybePrune_error {s s' : ProtoArray} (hw : WellFormed s) {finalizedRoot : Hash256}
    {e : Error} (h : (maybePrune finalizedRoot).run s = .error e s') :
    e = .finalizedNodeUnknown finalizedRoot ∧ s' = s := by
  cases hk : s.getIndex finalizedRoot with
  | none =>
    simp only [maybePrune, okOr, hk, run_bind, run_get, run_throw_eq_error,
      Result.error.injEq] at h
    exact ⟨h.1.symm, h.2.symm⟩
  | some k =>
    by_cases ht : k < s.pruneThreshold
    · simp [maybePrune, okOr, hk, ht] at h
    · rw [hw.maybePrune_run hk (Nat.le_of_not_lt ht)] at h
      cases h

end ProtoArray
end Vibehouse
