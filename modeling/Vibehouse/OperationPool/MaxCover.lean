import Vibehouse.Lib.RustIter

/-! # The greedy maximum cover

`operation_pool/src/max_cover.rs`: `maximum_cover` keeps the items of non-zero score, each in an
`Option` slot, and for `limit` rounds takes the item of maximal score (the last one on a tie, as
`max_by_key` returns), updates every other item still in a slot for its inclusion, and moves it
into the result. It stops early when no item left has a non-zero score.

`GreedyRun` says what a round does in terms of the input alone: the item taken at each round is
the one at a new position, updated for all the items taken before it, and its score is non-zero
and maximal among the items not yet taken, updated alike. The slots before each round are a
function of the positions taken and the result (`slotsAfter`), which is the invariant of the
loop. -/

namespace Vibehouse.OperationPool

/-- The methods of the `MaxCover` trait that `maximum_cover` calls. `update_covering_set` of an
item reads the intermediate object and the covering set of the best item, so here it is given the
best item itself. -/
structure MaxCover (T : Type) where
  updateCoveringSet : T → T → T
  score : T → Nat

namespace MaxCover

variable {T : Type} (mc : MaxCover T)

/-- The index of the best item: among the slots holding an item of non-zero score, the last of
maximal score. -/
def bestIdx (allItems : List (Option T)) : Option Nat :=
  (RustIter.maxByKey (fun p : Nat × Nat => p.2)
    (allItems.zipIdx.filterMap fun (x, i) => x.bind fun item =>
      let score := mc.score item
      if score ≠ 0 then some (i, score) else none)).map (·.1)

/-- The rounds of `maximum_cover`: `none` where an `unwrap` panics. -/
def maximumCoverLoop : Nat → List (Option T) → List T → Option (List T)
  | 0, _, result => some result
  | limit + 1, allItems, result =>
    match mc.bestIdx allItems with
    | none => some result
    | some bestIdx =>
      -- `split_at_mut` and `split_first_mut().unwrap()`, then `best_slot.as_ref().unwrap()`
      match allItems[bestIdx]? with
      | some (some best) =>
        let allItems := allItems.mapIdx fun i slot =>
          if i = bestIdx then none else slot.map (mc.updateCoveringSet · best)
        maximumCoverLoop limit allItems (result ++ [best])
      | _ => none

/-- `maximum_cover`. -/
def maximumCover (items : List T) (limit : Nat) : Option (List T) :=
  mc.maximumCoverLoop limit ((items.filter fun x => mc.score x ≠ 0).map some) []


/-! ## A greedy run -/

/-- An item updated for the inclusion of each of `taken`, in order. -/
def updatedFor (taken : List T) (x : T) : T :=
  taken.foldl mc.updateCoveringSet x

/-- The rounds of a greedy choice over `items`: the positions taken and the items taken, in
order. Each round takes the item at a new position, updated for the items taken before it, of
non-zero score and of maximal score among the items at the positions not yet taken, updated
alike. -/
inductive GreedyRun (items : List T) : List Nat → List T → Prop
  | nil : GreedyRun items [] []
  | take {picked : List Nat} {result : List T} {i : Nat} {x : T}
      (hrun : GreedyRun items picked result) (hnew : i ∉ picked) (hx : items[i]? = some x)
      (hscore : 0 < mc.score (mc.updatedFor result x))
      (hmax : ∀ (k : Nat) y, k ∉ picked → items[k]? = some y →
        mc.score (mc.updatedFor result y) ≤ mc.score (mc.updatedFor result x)) :
      GreedyRun items (picked ++ [i]) (result ++ [mc.updatedFor result x])

/-- The slots after the rounds that took the items at `picked`: empty there, and elsewhere the
item updated for every item taken. -/
def slotsAfter (items : List T) (picked : List Nat) (result : List T) : List (Option T) :=
  items.mapIdx fun k x => if k ∈ picked then none else some (mc.updatedFor result x)

variable {mc}

@[simp] theorem updatedFor_nil (x : T) : mc.updatedFor [] x = x := rfl

theorem updatedFor_append (taken : List T) (best x : T) :
    mc.updatedFor (taken ++ [best]) x = mc.updateCoveringSet (mc.updatedFor taken x) best := by
  simp [updatedFor]

theorem getElem?_slotsAfter (items : List T) (picked : List Nat) (result : List T) (k : Nat) :
    (mc.slotsAfter items picked result)[k]? =
      items[k]?.map fun x => if k ∈ picked then none else some (mc.updatedFor result x) := by
  simp [slotsAfter, List.getElem?_mapIdx]

theorem GreedyRun.length_eq {items : List T} {picked : List Nat} {result : List T}
    (h : GreedyRun mc items picked result) : picked.length = result.length := by
  induction h with
  | nil => rfl
  | take _ _ _ _ _ ih => simp [ih]

theorem GreedyRun.nodup {items : List T} {picked : List Nat} {result : List T}
    (h : GreedyRun mc items picked result) : picked.Nodup := by
  induction h with
  | nil => exact List.nodup_nil
  | take _ hnew _ _ _ ih =>
    refine List.nodup_append.2 ⟨ih, List.nodup_singleton _, fun a ha b hb hab => hnew ?_⟩
    rw [List.mem_singleton.1 hb] at hab
    exact hab ▸ ha

/-- Each item of a greedy run is an input item updated for the items taken before it. -/
theorem GreedyRun.eq_updatedFor {items : List T} {picked : List Nat} {result : List T}
    (h : GreedyRun mc items picked result) :
    ∀ (j : Nat) (hj : j < result.length), ∃ x ∈ items, result[j] = mc.updatedFor (result.take j) x := by
  induction h with
  | nil => simp
  | @take picked result i x _ _ hx _ _ ih =>
    intro j hj
    simp only [List.length_append, List.length_singleton] at hj
    rcases Nat.lt_or_ge j result.length with hlt | hge
    · obtain ⟨y, hy, heq⟩ := ih j hlt
      refine ⟨y, hy, ?_⟩
      rw [List.getElem_append_left hlt, List.take_append_of_le_length hlt.le, heq]
    · have hj' : j = result.length := by omega
      subst hj'
      refine ⟨x, List.mem_of_getElem? hx, ?_⟩
      simp

/-! ## The best index -/

theorem mem_bestIdx_candidates {allItems : List (Option T)} {i s : Nat} :
    (i, s) ∈ allItems.zipIdx.filterMap (fun (x, i) => x.bind fun item =>
      let score := mc.score item
      if score ≠ 0 then some (i, score) else none) ↔
      ∃ item, allItems[i]? = some (some item) ∧ mc.score item ≠ 0 ∧ s = mc.score item := by
  simp only [List.mem_filterMap, List.mem_zipIdx_iff_getElem?, Prod.exists]
  constructor
  · rintro ⟨x, j, hj, hx⟩
    cases x with
    | none => cases hx
    | some item =>
      simp only [Option.bind_some] at hx
      split at hx
      · cases hx
        exact ⟨item, hj, by assumption, rfl⟩
      · cases hx
  · rintro ⟨item, hi, hs, rfl⟩
    exact ⟨some item, i, hi, by simp [hs]⟩

/-- The best index holds an item of non-zero score, which no item in a slot exceeds. -/
theorem bestIdx_eq_some {allItems : List (Option T)} {i : Nat} (h : mc.bestIdx allItems = some i) :
    ∃ best, allItems[i]? = some (some best) ∧ mc.score best ≠ 0 ∧
      ∀ (k : Nat) y, allItems[k]? = some (some y) → mc.score y ≤ mc.score best := by
  obtain ⟨⟨j, s⟩, hmax, rfl⟩ := Option.map_eq_some_iff.1 h
  obtain ⟨best, hbest, hscore, rfl⟩ := mem_bestIdx_candidates.1 (RustIter.maxByKey_mem hmax)
  refine ⟨best, hbest, hscore, fun k y hy => ?_⟩
  by_cases hy0 : mc.score y = 0
  · omega
  · exact RustIter.maxByKey_le hmax (k, mc.score y) (mem_bestIdx_candidates.2 ⟨y, hy, hy0, rfl⟩)

/-- No best index: every item in a slot has score zero. -/
theorem bestIdx_eq_none {allItems : List (Option T)} (h : mc.bestIdx allItems = none) :
    ∀ (k : Nat) y, allItems[k]? = some (some y) → mc.score y = 0 := by
  intro k y hy
  by_contra hy0
  have hnil := RustIter.maxByKey_eq_none.1 (Option.map_eq_none_iff.1 h)
  have hmem := mem_bestIdx_candidates.2 ⟨y, hy, hy0, rfl⟩
  rw [hnil] at hmem
  cases hmem


/-! ## The loop -/

/-- A round on the slots after some rounds: taking the item at `i` and updating the others for
it gives the slots after one more round. -/
theorem mapIdx_slotsAfter (items : List T) (picked : List Nat) (result : List T) (i : Nat)
    (best : T) :
    (mc.slotsAfter items picked result).mapIdx
        (fun k slot => if k = i then none else slot.map (mc.updateCoveringSet · best)) =
      mc.slotsAfter items (picked ++ [i]) (result ++ [best]) := by
  apply List.ext_getElem?
  intro k
  rw [List.getElem?_mapIdx, getElem?_slotsAfter, getElem?_slotsAfter]
  cases items[k]? with
  | none => rfl
  | some x =>
    by_cases hki : k = i
    · simp [hki]
    · by_cases hk : k ∈ picked
      · simp [hki, hk]
      · simp [hki, hk, updatedFor_append]

/-- From the slots after a greedy run, the loop extends the run by at most `limit` rounds, and
stops short only when every item not taken has score zero. By induction on `limit`; each round
is one `take` of the run. -/
theorem maximumCoverLoop_run (items : List T) : ∀ (limit : Nat) {picked : List Nat}
    {result : List T}, GreedyRun mc items picked result →
    ∃ picked' result', mc.maximumCoverLoop limit (mc.slotsAfter items picked result) result =
        some result' ∧ GreedyRun mc items picked' result' ∧
      result'.length ≤ result.length + limit ∧
      (result'.length < result.length + limit → ∀ (k : Nat) y, k ∉ picked' → items[k]? = some y →
        mc.score (mc.updatedFor result' y) = 0)
  | 0, picked, result, hrun => ⟨picked, result, rfl, hrun, by omega, by omega⟩
  | limit + 1, picked, result, hrun => by
    rw [maximumCoverLoop]
    cases hbest : mc.bestIdx (mc.slotsAfter items picked result) with
    | none =>
      -- no item left with a non-zero score
      refine ⟨picked, result, rfl, hrun, by omega, fun _ k y hk hy => ?_⟩
      exact bestIdx_eq_none hbest k (mc.updatedFor result y) (by simp [getElem?_slotsAfter, hy, hk])
    | some i =>
      obtain ⟨best, hslot, hscore, hmax⟩ := bestIdx_eq_some hbest
      rw [getElem?_slotsAfter] at hslot
      obtain ⟨x, hx, hbestx⟩ := Option.map_eq_some_iff.1 hslot
      have hnew : i ∉ picked := by
        intro hi
        simp [hi] at hbestx
      simp only [hnew, if_false, Option.some.injEq] at hbestx
      subst hbestx
      simp only [getElem?_slotsAfter, hx, Option.map_some, hnew, if_false]
      -- the round is one more step of the greedy run
      have hstep := GreedyRun.take hrun hnew hx (Nat.pos_of_ne_zero hscore) (fun k y hk hy =>
        hmax k _ (by simp [getElem?_slotsAfter, hy, hk]))
      obtain ⟨picked', result', hloop, hrun', hlen, hstop⟩ :=
        maximumCoverLoop_run items limit hstep
      rw [mapIdx_slotsAfter]
      refine ⟨picked', result', hloop, hrun', by simp at hlen; omega, fun hshort => ?_⟩
      exact hstop (by simp at hshort ⊢; omega)


theorem GreedyRun.lt_length {items : List T} {picked : List Nat} {result : List T}
    (h : GreedyRun mc items picked result) : ∀ k ∈ picked, k < items.length := by
  induction h with
  | nil => simp
  | take _ _ hx _ _ ih =>
    intro k hk
    rcases List.mem_append.1 hk with hk | hk
    · exact ih k hk
    · rw [List.mem_singleton.1 hk]
      exact (List.getElem?_eq_some_iff.1 hx).1


/-! ## From the items of non-zero score to all the items -/

section Positions

-- The scores of the items only go down with updates, as for every item of the pool.
variable (hmono : ∀ a b, mc.score (mc.updateCoveringSet a b) ≤ mc.score a)

include hmono in
theorem score_updatedFor_le : ∀ (taken : List T) (x : T),
    mc.score (mc.updatedFor taken x) ≤ mc.score x
  | [], _ => le_rfl
  | best :: taken, x =>
    (score_updatedFor_le taken (mc.updateCoveringSet x best)).trans (hmono x best)

-- The positions among all the items of those of non-zero score, in order, which
-- `RustIter.exists_filter_positions` gives.
variable {items : List T} {pos : List Nat}
  (hlen : pos.length = (items.filter fun x => mc.score x ≠ 0).length) (hnodup : pos.Nodup)
  (hkept : ∀ (k : Nat) x, (items.filter fun x => mc.score x ≠ 0)[k]? = some x →
    ∃ q : Nat, pos[k]? = some q ∧ items[q]? = some x)
  (hdropped : ∀ (q : Nat) x, q ∉ pos → items[q]? = some x → mc.score x = 0)

include hlen hkept hdropped in
/-- A position among all the items that no round took holds an item of non-zero score not taken,
or one of score zero. -/
theorem not_taken_or_score_zero {picked : List Nat} {q : Nat} {y : T}
    (hq : q ∉ picked.map (pos.getD · 0)) (hy : items[q]? = some y) :
    (∃ k, k ∉ picked ∧ (items.filter fun x => mc.score x ≠ 0)[k]? = some y) ∨ mc.score y = 0 := by
  by_cases hqpos : q ∈ pos
  · obtain ⟨k, hk⟩ := List.mem_iff_getElem?.1 hqpos
    have hklt : k < (items.filter fun x => mc.score x ≠ 0).length := by
      rw [← hlen]
      exact (List.getElem?_eq_some_iff.1 hk).1
    obtain ⟨q', hq', hx⟩ := hkept k _ (List.getElem?_eq_getElem hklt)
    rw [hk, Option.some.injEq] at hq'
    subst hq'
    rw [hx, Option.some.injEq] at hy
    refine .inl ⟨k, fun hkp => hq (List.mem_map.2 ⟨k, hkp, by simp [hk]⟩), ?_⟩
    rw [List.getElem?_eq_getElem hklt, hy]
  · exact .inr (hdropped q y hqpos hy)

include hmono hlen hnodup hkept hdropped in
/-- A greedy run over the items of non-zero score is a greedy run over all the items, at their
positions among all of them: an item left out has score zero, and keeps it. By induction on the
run. -/
theorem GreedyRun.of_filter {picked : List Nat} {result : List T}
    (hrun : GreedyRun mc (items.filter fun x => mc.score x ≠ 0) picked result) :
    GreedyRun mc items (picked.map (pos.getD · 0)) result := by
  induction hrun with
  | nil => exact .nil
  | @take picked result i x hrun hnew hx hscore hmax ih =>
    obtain ⟨q, hq, hxq⟩ := hkept i x hx
    have hqi : pos.getD i 0 = q := by simp [hq]
    rw [List.map_append, List.map_singleton, hqi]
    refine .take ih ?_ hxq hscore ?_
    · -- a new position among the kept ones is a new position among all
      rintro hmem
      obtain ⟨k, hk, hkq⟩ := List.mem_map.1 hmem
      have hklt : k < pos.length := hlen ▸ hrun.lt_length k hk
      have hik : pos[k]? = pos[i]? := by rw [hq, ← hkq]; simp [hklt]
      exact hnew ((List.getElem?_inj hklt hnodup).1 hik ▸ hk)
    · intro k' y hk' hy
      rcases not_taken_or_score_zero hlen hkept hdropped hk' hy with ⟨k, hk, hky⟩ | h0
      · exact hmax k y hk hky
      · have := score_updatedFor_le hmono result y
        omega

end Positions

/-- `maximum_cover` never panics and returns at most `limit` items, a greedy run over its input:
each item taken at a new position, of non-zero score, and of maximal score among the items not
yet taken, all updated for the items taken before. It stops short of `limit` only when every
item not taken has score zero. The scores must only go down with updates. -/
theorem maximumCover_greedy (hmono : ∀ a b, mc.score (mc.updateCoveringSet a b) ≤ mc.score a)
    (items : List T) (limit : Nat) :
    ∃ picked result, mc.maximumCover items limit = some result ∧ GreedyRun mc items picked result ∧
      result.length ≤ limit ∧
      (result.length < limit → ∀ (k : Nat) y, k ∉ picked → items[k]? = some y →
        mc.score (mc.updatedFor result y) = 0) := by
  obtain ⟨pos, hlen, hnodup, hkept, hdropped⟩ :=
    RustIter.exists_filter_positions (fun x => decide (mc.score x ≠ 0)) items
  have hdropped' : ∀ (q : Nat) x, q ∉ pos → items[q]? = some x → mc.score x = 0 :=
    fun q x hq hx => by simpa using hdropped q x hq hx
  -- the slots the loop starts from are those after no round
  have hstart : (items.filter fun x => mc.score x ≠ 0).map some =
      mc.slotsAfter (items.filter fun x => mc.score x ≠ 0) [] [] := by
    apply List.ext_getElem?
    intro k
    simp [getElem?_slotsAfter]
  obtain ⟨picked, result, hloop, hrun, hlength, hstop⟩ :=
    maximumCoverLoop_run (items.filter fun x => mc.score x ≠ 0) limit GreedyRun.nil
  refine ⟨picked.map (pos.getD · 0), result, ?_, hrun.of_filter hmono hlen hnodup hkept hdropped',
    by simpa using hlength, fun hshort k y hk hy => ?_⟩
  · rw [maximumCover, hstart]
    exact hloop
  · rcases not_taken_or_score_zero hlen hkept hdropped' hk hy with ⟨k', hk', hky⟩ | h0
    · exact hstop (by simpa using hshort) k' y hk' hky
    · have := score_updatedFor_le hmono result y
      omega

end MaxCover

end Vibehouse.OperationPool
