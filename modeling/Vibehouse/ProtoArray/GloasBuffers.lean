import Vibehouse.ProtoArray.ForkChoice
import Vibehouse.Lib.AssocList
import Vibehouse.Lib.StateRun

/-! # The reusable buffers of `find_head_gloas`

`ProtoArrayForkChoice` keeps buffers from one call of `find_head_gloas` to the next: the
children index `gloas_children_buf`, a map from a position to the positions of its children,
and the ancestor cache `gloas_ancestor_cache_buf`, a map from `(root, slot)` to
`get_ancestor_gloas(root, slot)`. `build_children_index_into` clears the lists of every key the
index holds, including the positions of nodes pruned or renumbered since, and pushes every node
onto its parent's list. The ancestor cache is taken out of the fork choice for the call and
cleared before the weights of each level, whose siblings then share it.

`GloasHead` reads the children off the parent links (`childIndices`) and computes every
ancestor where the source looks it up. This module models the buffered code
(`collectGloasChildrenIn`, `isSupportingVoteGloasCached`, `findHeadGloasWithBuffers`) and shows
that it returns what `GloasHead` does, whatever the buffers held: the index lists the children
of a position in increasing order (`lookup_buildChildrenIndexInto`), as the scan of all nodes
does (`collectGloasChildrenIn_none`), and a cache whose entries are values of
`get_ancestor_gloas` stays one (`AssocList.Memo`). The mask `gloas_filtered_buf` is cleared and
refilled to the node count at each call, so it is computed afresh here. -/

namespace Vibehouse

open MachineInt AssocList

/-- `gloas_children_buf: HashMap<usize, Vec<usize>>`. -/
abbrev ChildrenIndex := List (Nat × List Nat)

/-- `gloas_ancestor_cache_buf: HashMap<(Hash256, Slot), Option<GloasForkChoiceNode>>`. -/
abbrev AncestorCache := List ((Hash256 × Slot) × Option GloasForkChoiceNode)

/-- The buffers of `ProtoArrayForkChoice` that `find_head_gloas` keeps between calls. -/
structure GloasBuffers where
  childrenIndex : ChildrenIndex
  ancestorCache : AncestorCache

namespace ProtoArray

variable (s : ProtoArray)

/-- `build_children_index_into()`: clear the list of every key, then push each node onto the
list of its parent, in increasing position. -/
def buildChildrenIndexInto (buf : ChildrenIndex) : ChildrenIndex :=
  (List.range s.nodes.length).foldl (fun idx i =>
    match s.parentOf i with
    | some parentIdx => pushAt idx parentIdx i
    | none => idx) (clearValues buf)

/-- `collect_gloas_children(pa, node, filtered_nodes, children_index, out)`: with the children
index (`Some`), or by a scan of all nodes (`None`). -/
def collectGloasChildrenIn (filteredNodes : List Bool) (childrenIndex : Option ChildrenIndex)
    (node : GloasForkChoiceNode) : List GloasForkChoiceNode :=
  match node.payloadStatus with
  | .pending =>
    let envelopeReceived := ((s.getIndex node.root).bind s.getNode).any (·.envelopeReceived)
    ⟨node.root, .empty⟩ :: if envelopeReceived then [⟨node.root, .full⟩] else []
  | status =>
    match (s.getIndex node.root).bind fun parentIdx => (s.getNode parentIdx).map (parentIdx, ·) with
    | none => []
    | some (parentIdx, parentNode) =>
      match childrenIndex with
      | some idx =>
        match idx.lookup parentIdx with
        | some childIndices =>
          childIndices.filterMap fun ci =>
            if filteredNodes[ci]?.getD false then
              match s.getNode ci with
              | some childNode =>
                if parentPayloadStatusOf childNode parentNode = status then
                  some ⟨childNode.root, .pending⟩
                else none
              | none => none
            else none
        | none => []
      | none =>
        (List.range s.nodes.length).filterMap fun ci =>
          match s.getNode ci with
          | some childNode =>
            if childNode.parent ≠ some parentIdx then none
            else if !(filteredNodes[ci]?.getD false) then none
            else if parentPayloadStatusOf childNode parentNode = status then
              some ⟨childNode.root, .pending⟩
            else none
          | none => none

/-- `is_supporting_vote_gloas_cached(node, vote, node_slot, ancestor_cache)`. -/
def isSupportingVoteGloasCached (node : GloasForkChoiceNode) (vote : VoteTracker) (nodeSlot : Slot)
    (cache : AncestorCache) : Bool × AncestorCache :=
  if node.root = vote.currentRoot then
    (match node.payloadStatus with
      | .pending => true
      | status =>
        if vote.currentSlot = nodeSlot then false
        else if vote.currentPayloadPresent then status = .full
        else status = .empty, cache)
  else
    let (ancestor, cache) := orInsertWith cache (vote.currentRoot, nodeSlot)
      (s.getAncestorGloas vote.currentRoot nodeSlot)
    (match ancestor with
      | some ancestor =>
        node.root = ancestor.root &&
          (node.payloadStatus = .pending || node.payloadStatus = ancestor.payloadStatus)
      | none => false, cache)

/-- A cache whose every entry `(root, slot)` holds `get_ancestor_gloas(root, slot)`. -/
def AncestorMemo (cache : AncestorCache) : Prop :=
  Memo (fun k : Hash256 × Slot => s.getAncestorGloas k.1 k.2) cache

/-! ## The children index -/

theorem lookup_buildChildrenIndexIntoAux (buf : ChildrenIndex) (p : Nat) : ∀ k,
    (((List.range k).foldl (fun idx i =>
      match s.parentOf i with
      | some parentIdx => pushAt idx parentIdx i
      | none => idx) (clearValues buf)).lookup p).getD [] =
      (List.range k).filter fun i => s.parentOf i == some p
  | 0 => by
    rw [List.range_zero, List.foldl_nil, lookup_clearValues]
    cases buf.lookup p <;> rfl
  | k + 1 => by
    rw [List.range_succ, List.foldl_append, List.filter_append, List.foldl_cons, List.foldl_nil,
      ← lookup_buildChildrenIndexIntoAux buf p k]
    cases hk : s.parentOf k with
    | none => simp [hk]
    | some q =>
      rw [lookup_pushAt]
      by_cases hpq : p = q
      · subst hpq
        simp [hk]
      · simp [hk, hpq, Ne.symm hpq]

/-- The index built from any buffer lists the children of every position in increasing order. -/
theorem lookup_buildChildrenIndexInto (buf : ChildrenIndex) (p : Nat) :
    ((s.buildChildrenIndexInto buf).lookup p).getD [] = s.childIndices p :=
  lookup_buildChildrenIndexIntoAux s buf p s.nodes.length

theorem collectGloasChildrenIn_buildChildrenIndexInto (filteredNodes : List Bool)
    (buf : ChildrenIndex) (node : GloasForkChoiceNode) :
    s.collectGloasChildrenIn filteredNodes (some (s.buildChildrenIndexInto buf)) node =
      s.collectGloasChildren filteredNodes node := by
  obtain ⟨root, status⟩ := node
  cases status with
  | pending => rfl
  | empty | full =>
    simp only [collectGloasChildrenIn, collectGloasChildren]
    generalize (s.getIndex root).bind (fun parentIdx => (s.getNode parentIdx).map (parentIdx, ·)) = o
    rcases o with _ | ⟨parentIdx, parentNode⟩
    · rfl
    · dsimp only
      rw [← lookup_buildChildrenIndexInto s buf]
      cases (s.buildChildrenIndexInto buf).lookup parentIdx <;> rfl

/-- The scan of all nodes finds the children in increasing order, as the index lists them. -/
theorem collectGloasChildrenIn_none (filteredNodes : List Bool) (node : GloasForkChoiceNode) :
    s.collectGloasChildrenIn filteredNodes none node = s.collectGloasChildren filteredNodes node := by
  obtain ⟨root, status⟩ := node
  cases status with
  | pending => rfl
  | empty | full =>
    simp only [collectGloasChildrenIn, collectGloasChildren]
    generalize (s.getIndex root).bind (fun parentIdx => (s.getNode parentIdx).map (parentIdx, ·)) = o
    rcases o with _ | ⟨parentIdx, parentNode⟩
    · rfl
    · dsimp only
      rw [childIndices, List.filterMap_filter]
      refine List.filterMap_congr fun ci _ => ?_
      cases hc : s.getNode ci with
      | none => simp [parentOf, hc]
      | some childNode =>
        by_cases hp : childNode.parent = some parentIdx
        · cases filteredNodes[ci]?.getD false <;> simp [parentOf, hc, hp]
        · simp [parentOf, hc, hp]

/-! ## The ancestor cache -/

variable {s}

theorem isSupportingVoteGloasCached_of_memo {cache : AncestorCache} (h : s.AncestorMemo cache)
    (node : GloasForkChoiceNode) (vote : VoteTracker) (nodeSlot : Slot) :
    (s.isSupportingVoteGloasCached node vote nodeSlot cache).1 =
        s.isSupportingVoteGloasAtSlot node vote nodeSlot ∧
      s.AncestorMemo (s.isSupportingVoteGloasCached node vote nodeSlot cache).2 := by
  unfold isSupportingVoteGloasCached isSupportingVoteGloasAtSlot
  split
  · exact ⟨rfl, h⟩
  · obtain ⟨hv, hm⟩ := h.orInsertWith (vote.currentRoot, nodeSlot)
    generalize orInsertWith cache (vote.currentRoot, nodeSlot)
      (s.getAncestorGloas vote.currentRoot nodeSlot) = r at hv hm ⊢
    obtain ⟨ancestor, cache'⟩ := r
    dsimp only at hv hm ⊢
    subst hv
    exact ⟨rfl, hm⟩

end ProtoArray

namespace ProtoArrayForkChoice

variable (fc : ProtoArrayForkChoice)

/-- The loop over the active votes of `get_gloas_weight`, with the ancestor cache. -/
def attestationWeightCached (activeVotes : List (Nat × Nat)) (node : GloasForkChoiceNode)
    (nodeSlot : Slot) (cache : AncestorCache) : Nat × AncestorCache :=
  activeVotes.foldl (fun (weight, cache) (valIndex, balance) =>
    let (supports, cache) := fc.protoArray.isSupportingVoteGloasCached node
      (fc.votes[valIndex]?.getD default) nodeSlot cache
    (if supports then uSaturatingAdd 64 weight balance else weight, cache)) (0, cache)

/-- The proposer boost of `get_gloas_weight`, added to the attestation weight `weight`. -/
def addProposerBoostGloas (spec : ChainSpec) (node : GloasForkChoiceNode)
    (proposerBoostRoot : Hash256) (applyProposerBoost : Bool) (currentSlot nodeSlot : Slot)
    (weight : Nat) : Nat :=
  match spec.proposerScoreBoost with
  | some boostPct =>
    if proposerBoostRoot ≠ 0 ∧ applyProposerBoost then
      let boostVote : VoteTracker := { currentRoot := proposerBoostRoot, currentSlot := currentSlot }
      if fc.protoArray.isSupportingVoteGloasAtSlot node boostVote nodeSlot then
        match calculateCommitteeFraction spec.slotsPerEpoch fc.balances boostPct with
        | some score => uSaturatingAdd 64 weight score
        | none => weight
      else weight
    else weight
  | none => weight

/-- `get_gloas_weight(node, proposer_boost_root, apply_proposer_boost, current_slot, spec,
ancestor_cache, active_votes)`. -/
def getGloasWeightCached (spec : ChainSpec) (node : GloasForkChoiceNode)
    (proposerBoostRoot : Hash256) (applyProposerBoost : Bool) (currentSlot : Slot)
    (activeVotes : List (Nat × Nat)) (cache : AncestorCache) : Nat × AncestorCache :=
  match (fc.protoArray.getIndex node.root).bind fc.protoArray.getNode with
  | none => (0, cache)
  | some protoNode =>
    let nodeSlot := protoNode.slot
    if node.payloadStatus ≠ .pending ∧ nodeSlot + 1 = currentSlot then (0, cache)
    else
      let (weight, cache) := fc.attestationWeightCached activeVotes node nodeSlot cache
      (fc.addProposerBoostGloas spec node proposerBoostRoot applyProposerBoost currentSlot nodeSlot
        weight, cache)

section descent

variable (spec : ChainSpec) (filteredNodes : List Bool) (activeVotes : List (Nat × Nat))
  (proposerBoostRoot : Hash256) (applyBoost : Bool) (currentSlot : Slot)

/-- The `map` of `find_head_gloas` over the children of a level: the weight and the tiebreaker
of each child in turn, the weights sharing the ancestor cache. -/
def gloasCandidatesCached :
    List GloasForkChoiceNode → AncestorCache → List (GloasForkChoiceNode × Nat × Nat) × AncestorCache
  | [], cache => ([], cache)
  | child :: children, cache =>
    let (w, cache) := fc.getGloasWeightCached spec child proposerBoostRoot applyBoost currentSlot
      activeVotes cache
    let tb := fc.getPayloadTiebreaker child currentSlot (spec.ptcSize / 2) proposerBoostRoot
    let (rest, cache) := gloasCandidatesCached children cache
    ((child, w, tb) :: rest, cache)

/-- The loop of `find_head_gloas` with the children index and the ancestor cache, which is
cleared before the weights of each level. -/
def descendGloasCached (childrenIndex : ChildrenIndex) :
    Nat → GloasForkChoiceNode → AncestorCache →
      Except ForkChoiceError (GloasForkChoiceNode × AncestorCache)
  | 0, head, cache => pure (head, cache)
  | fuel + 1, head, cache =>
    let children := fc.protoArray.collectGloasChildrenIn filteredNodes (some childrenIndex) head
    if children.isEmpty then pure (head, cache)
    else
      let (candidates, cache) := gloasCandidatesCached fc spec activeVotes proposerBoostRoot
        applyBoost currentSlot children []
      match RustIter.maxBy compareGloasCandidates candidates with
      | none => throw .noChildren
      | some best => descendGloasCached childrenIndex fuel best.1 cache

end descent

/-- `find_head_gloas(justified_checkpoint, proposer_boost_root, equivocating_indices,
current_slot, spec)` on the buffers it keeps between calls. The ancestor cache is taken out for
the call (`std::mem::take`) and put back on success only. -/
def findHeadGloasWithBuffers (spec : ChainSpec) (justifiedCheckpoint : Checkpoint)
    (proposerBoostRoot : Hash256) (equivocatingIndices : List Nat) (currentSlot : Slot) :
    EStateM ForkChoiceError GloasBuffers GloasForkChoiceNode := do
  let bufs ← get
  let filteredNodes := fc.protoArray.computeFilteredNodes spec.slotsPerEpoch currentSlot
  let childrenIndex := fc.protoArray.buildChildrenIndexInto bufs.childrenIndex
  let activeVotes := fc.computeActiveVotes
  let applyBoost := fc.shouldApplyProposerBoostGloas spec proposerBoostRoot equivocatingIndices
    activeVotes
  set ({ childrenIndex, ancestorCache := [] } : GloasBuffers)
  let (head, cache) ← liftExcept (descendGloasCached fc spec filteredNodes activeVotes
    proposerBoostRoot applyBoost currentSlot childrenIndex (2 * fc.protoArray.nodes.length + 2)
    ⟨justifiedCheckpoint.root, .pending⟩ bufs.ancestorCache)
  set ({ childrenIndex, ancestorCache := cache } : GloasBuffers)
  pure head

/-! ## The buffered search agrees with `GloasHead` -/

variable {fc}

theorem foldl_attestationWeightCached_of_memo {activeVotes : List (Nat × Nat)} {node : GloasForkChoiceNode}
    {nodeSlot : Slot} : ∀ {cache : AncestorCache} (w : Nat), fc.protoArray.AncestorMemo cache →
    (activeVotes.foldl (fun (weight, cache) (valIndex, balance) =>
      let (supports, cache) := fc.protoArray.isSupportingVoteGloasCached node
        (fc.votes[valIndex]?.getD default) nodeSlot cache
      (if supports then uSaturatingAdd 64 weight balance else weight, cache)) (w, cache)).1 =
      activeVotes.foldl (fun weight (valIndex, balance) =>
        if fc.protoArray.isSupportingVoteGloasAtSlot node (fc.votes[valIndex]?.getD default) nodeSlot
        then uSaturatingAdd 64 weight balance else weight) w ∧
    fc.protoArray.AncestorMemo (activeVotes.foldl (fun (weight, cache) (valIndex, balance) =>
      let (supports, cache) := fc.protoArray.isSupportingVoteGloasCached node
        (fc.votes[valIndex]?.getD default) nodeSlot cache
      (if supports then uSaturatingAdd 64 weight balance else weight, cache)) (w, cache)).2 := by
  induction activeVotes with
  | nil => exact fun w h => ⟨rfl, h⟩
  | cons v votes ih =>
    intro cache w h
    obtain ⟨hs, hm⟩ := ProtoArray.isSupportingVoteGloasCached_of_memo h node
      (fc.votes[v.1]?.getD default) nodeSlot
    simp only [List.foldl_cons]
    rw [← hs]
    exact ih _ hm

theorem attestationWeightCached_of_memo {cache : AncestorCache} (h : fc.protoArray.AncestorMemo cache)
    (activeVotes : List (Nat × Nat)) (node : GloasForkChoiceNode) (nodeSlot : Slot) :
    (fc.attestationWeightCached activeVotes node nodeSlot cache).1 =
        fc.attestationWeight activeVotes node nodeSlot ∧
      fc.protoArray.AncestorMemo (fc.attestationWeightCached activeVotes node nodeSlot cache).2 :=
  foldl_attestationWeightCached_of_memo 0 h

theorem getGloasWeightCached_of_memo {cache : AncestorCache} (h : fc.protoArray.AncestorMemo cache)
    (spec : ChainSpec) (node : GloasForkChoiceNode) (proposerBoostRoot : Hash256)
    (applyProposerBoost : Bool) (currentSlot : Slot) (activeVotes : List (Nat × Nat)) :
    (fc.getGloasWeightCached spec node proposerBoostRoot applyProposerBoost currentSlot activeVotes
        cache).1 =
      fc.getGloasWeight spec node proposerBoostRoot applyProposerBoost currentSlot activeVotes ∧
    fc.protoArray.AncestorMemo (fc.getGloasWeightCached spec node proposerBoostRoot
      applyProposerBoost currentSlot activeVotes cache).2 := by
  unfold getGloasWeightCached getGloasWeight
  generalize (fc.protoArray.getIndex node.root).bind fc.protoArray.getNode = o
  rcases o with _ | protoNode
  · exact ⟨rfl, h⟩
  · dsimp only
    by_cases hprev : node.payloadStatus ≠ .pending ∧ protoNode.slot + 1 = currentSlot
    · rw [if_pos hprev, if_pos hprev]
      exact ⟨rfl, h⟩
    · rw [if_neg hprev, if_neg hprev]
      obtain ⟨hw, hm⟩ := attestationWeightCached_of_memo h activeVotes node protoNode.slot
      generalize fc.attestationWeightCached activeVotes node protoNode.slot cache = r at hw hm ⊢
      obtain ⟨w, c⟩ := r
      dsimp only at hw hm ⊢
      subst hw
      exact ⟨rfl, hm⟩

section descent

variable (spec : ChainSpec) (filteredNodes : List Bool) (activeVotes : List (Nat × Nat))
  (proposerBoostRoot : Hash256) (applyBoost : Bool) (currentSlot : Slot)

theorem gloasCandidatesCached_of_memo : ∀ (children : List GloasForkChoiceNode) {cache : AncestorCache},
    fc.protoArray.AncestorMemo cache →
    (gloasCandidatesCached fc spec activeVotes proposerBoostRoot applyBoost currentSlot children
        cache).1 =
      children.map (gloasCandidate fc spec activeVotes proposerBoostRoot applyBoost currentSlot) ∧
    fc.protoArray.AncestorMemo (gloasCandidatesCached fc spec activeVotes proposerBoostRoot
      applyBoost currentSlot children cache).2
  | [], _, h => ⟨rfl, h⟩
  | child :: children, cache, h => by
    obtain ⟨hw, hm⟩ := getGloasWeightCached_of_memo h spec child proposerBoostRoot applyBoost
      currentSlot activeVotes
    simp only [gloasCandidatesCached]
    generalize fc.getGloasWeightCached spec child proposerBoostRoot applyBoost currentSlot
      activeVotes cache = r at hw hm ⊢
    obtain ⟨w, c⟩ := r
    dsimp only at hw hm ⊢
    obtain ⟨hrest, hm'⟩ := gloasCandidatesCached_of_memo children hm
    generalize gloasCandidatesCached fc spec activeVotes proposerBoostRoot applyBoost currentSlot
      children c = r' at hrest hm' ⊢
    obtain ⟨rest, c'⟩ := r'
    dsimp only at hrest hm' ⊢
    subst hw hrest
    exact ⟨rfl, hm'⟩

/-- The loop with the children index built from any buffer, and any ancestor cache, descends as
`descendGloas` does: the cache is cleared before it is read. -/
theorem descendGloasCached_map_fst (buf : ChildrenIndex) : ∀ fuel head cache,
    (descendGloasCached fc spec filteredNodes activeVotes proposerBoostRoot applyBoost currentSlot
        (fc.protoArray.buildChildrenIndexInto buf) fuel head cache).map Prod.fst =
      descendGloas fc spec filteredNodes activeVotes proposerBoostRoot applyBoost currentSlot fuel head
  | 0, _, _ => rfl
  | fuel + 1, head, cache => by
    simp only [descendGloasCached, descendGloas,
      ProtoArray.collectGloasChildrenIn_buildChildrenIndexInto]
    split_ifs
    · rfl
    · obtain ⟨hc, -⟩ := gloasCandidatesCached_of_memo spec activeVotes proposerBoostRoot applyBoost
        currentSlot (fc.protoArray.collectGloasChildren filteredNodes head) (memo_nil _)
      generalize gloasCandidatesCached fc spec activeVotes proposerBoostRoot applyBoost currentSlot
        (fc.protoArray.collectGloasChildren filteredNodes head) [] = r at hc ⊢
      obtain ⟨candidates, c⟩ := r
      dsimp only at hc ⊢
      subst hc
      cases RustIter.maxBy compareGloasCandidates _ with
      | none => rfl
      | some best => exact descendGloasCached_map_fst buf fuel best.1 c

end descent

theorem findHeadGloasWithBuffers_value (spec : ChainSpec) (justifiedCheckpoint : Checkpoint)
    (proposerBoostRoot : Hash256) (equivocatingIndices : List Nat) (currentSlot : Slot)
    (bufs : GloasBuffers) :
    ((fc.findHeadGloasWithBuffers spec justifiedCheckpoint proposerBoostRoot equivocatingIndices
        currentSlot).run bufs).value =
      fc.findHeadGloas spec justifiedCheckpoint proposerBoostRoot equivocatingIndices currentSlot := by
  have h := @descendGloasCached_map_fst fc spec (fc.protoArray.computeFilteredNodes spec.slotsPerEpoch
    currentSlot) fc.computeActiveVotes proposerBoostRoot (fc.shouldApplyProposerBoostGloas spec
    proposerBoostRoot equivocatingIndices fc.computeActiveVotes) currentSlot bufs.childrenIndex
    (2 * fc.protoArray.nodes.length + 2) ⟨justifiedCheckpoint.root, .pending⟩ bufs.ancestorCache
  unfold findHeadGloasWithBuffers findHeadGloas
  simp only [EStateM.run_bind, EStateM.run_get, EStateM.run_set, EStateM.run_liftExcept]
  rw [← h]
  cases descendGloasCached fc spec _ _ _ _ _ _ _ _ _ with
  | error e => rfl
  | ok r => rfl

/-- The buffers of `find_head_gloas` change nothing: the children index built over any earlier
index lists what the scan of all nodes lists, the cached support test answers as the uncached
one on a cache of ancestors, and the search returns from any buffers the head it returns from
fresh ones, which is the head of `findHeadGloas`. -/
theorem findHeadGloas_buffers_agree :
    (∀ (s : ProtoArray) (buf : ChildrenIndex) (filteredNodes : List Bool)
      (node : GloasForkChoiceNode),
      s.collectGloasChildrenIn filteredNodes (some (s.buildChildrenIndexInto buf)) node =
        s.collectGloasChildrenIn filteredNodes none node) ∧
    (∀ (s : ProtoArray) (cache : AncestorCache), s.AncestorMemo cache →
      ∀ node vote nodeSlot, (s.isSupportingVoteGloasCached node vote nodeSlot cache).1 =
        s.isSupportingVoteGloasAtSlot node vote nodeSlot) ∧
    ∀ (fc : ProtoArrayForkChoice) (spec : ChainSpec) (justifiedCheckpoint : Checkpoint)
      (proposerBoostRoot : Hash256) (equivocatingIndices : List Nat) (currentSlot : Slot)
      (bufs : GloasBuffers),
      ((fc.findHeadGloasWithBuffers spec justifiedCheckpoint proposerBoostRoot equivocatingIndices
          currentSlot).run bufs).value =
        ((fc.findHeadGloasWithBuffers spec justifiedCheckpoint proposerBoostRoot equivocatingIndices
          currentSlot).run ⟨[], []⟩).value ∧
      ((fc.findHeadGloasWithBuffers spec justifiedCheckpoint proposerBoostRoot equivocatingIndices
          currentSlot).run bufs).value =
        fc.findHeadGloas spec justifiedCheckpoint proposerBoostRoot equivocatingIndices
          currentSlot := by
  refine ⟨fun s buf filteredNodes node => ?_, fun s cache h node vote nodeSlot =>
    (ProtoArray.isSupportingVoteGloasCached_of_memo h node vote nodeSlot).1,
    fun fc spec justifiedCheckpoint proposerBoostRoot equivocatingIndices currentSlot bufs => ?_⟩
  · rw [ProtoArray.collectGloasChildrenIn_buildChildrenIndexInto,
      ProtoArray.collectGloasChildrenIn_none]
  · rw [findHeadGloasWithBuffers_value, findHeadGloasWithBuffers_value]
    exact ⟨rfl, rfl⟩

/-- A cache holding the ancestor of the genesis block 1 at slot 0 answers for a vote for block 1
as the walk does. -/
theorem findHeadGloas_buffers_agree_genesis :
    let s := ((new 8 1 0 ⟨0, 1⟩ ⟨0, 1⟩ (.irrelevant false)).toOption.get (by decide)).protoArray
    let cache : AncestorCache := [((1, 0), s.getAncestorGloas 1 0)]
    s.AncestorMemo cache ∧
      (s.isSupportingVoteGloasCached ⟨3, .pending⟩ { currentRoot := 1 } 0 cache).1 =
        s.isSupportingVoteGloasAtSlot ⟨3, .pending⟩ { currentRoot := 1 } 0 := by
  intro s cache
  have hmemo : s.AncestorMemo cache := by
    intro k v h
    cases List.mem_singleton.1 h
    rfl
  exact ⟨hmemo, findHeadGloas_buffers_agree.2.1 s cache hmemo _ _ _⟩

end ProtoArrayForkChoice

end Vibehouse
