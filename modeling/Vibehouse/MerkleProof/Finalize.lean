import Vibehouse.MerkleProof.Tree

/-! # Finalizing deposits, and the snapshot of the finalized tree

`consensus/merkle_proof/src/lib.rs`: `finalize_deposits` collapses the subtrees wholly covered
by the first `k` deposits into finalized nodes, which keep only their hash, splitting `k` between
the two children at each level; `get_finalized_hashes` lists those hashes from left to right;
`from_finalized_snapshot` rebuilds a tree from that list and `k`, taking a hash for the left
subtree where `k` covers it and going left otherwise.

In terms of `Represents`: finalizing the first `k ≥ 1` leaves of a tree gives a tree of the same
leaves with `k` of them finalized, and the snapshot of it rebuilds a tree of the first `k`
leaves, all finalized. Everything about hashes, pushes and proofs then follows from the lemmas
of `Represents`. With `k = 0` the descent reaches the first leaf and finalizes it all the same,
so that its proof fails and its snapshot does not decode. -/

namespace Vibehouse.MerkleProof

variable {H : Type} (hs : Hasher H)

namespace MerkleTree

/-- `finalize_deposits`: the tree after the call, which works in place, and its result. A failed
call on the right subtree keeps what the call on the left one did. The level is at most
`MAX_TREE_DEPTH`, so the shift does not overflow. -/
def finalizeDeposits :
    MerkleTree H → Nat → Nat → MerkleTree H × Except MerkleTreeError Unit
  | finalized h, _, _ => (finalized h, .ok ())
  | zero depth, _, _ => (zero depth, .error .zeroNodeFinalized)
  | .leaf h, _, level =>
    if level ≠ 0 then (.leaf h, .error .pleaseNotifyTheDevs) else (finalized h, .ok ())
  | node h left right, depositsToFinalize, level =>
    if level = 0 then (node h left right, .error .pleaseNotifyTheDevs)
    else
      let deposits := 1 <<< level
      if deposits ≤ depositsToFinalize then (finalized h, .ok ())
      else
        match finalizeDeposits left depositsToFinalize (level - 1) with
        | (left, .error e) => (node h left right, .error e)
        | (left, .ok ()) =>
          if depositsToFinalize > deposits / 2 then
            let remaining := depositsToFinalize - deposits / 2
            match finalizeDeposits right remaining (level - 1) with
            | (right, result) => (node h left right, result)
          else (node h left right, .ok ())

/-- `append_finalized_hashes`. -/
def appendFinalizedHashes : MerkleTree H → List H → List H
  | zero _, result | .leaf _, result => result
  | finalized h, result => result ++ [h]
  | node _ left right, result => appendFinalizedHashes right (appendFinalizedHashes left result)

/-- `get_finalized_hashes`. -/
def getFinalizedHashes (t : MerkleTree H) : List H :=
  appendFinalizedHashes t []

/-- `from_finalized_snapshot`. Where the left subtree is wholly finalized (`checked_sub`
succeeds) it is the first hash of the branch and the right one is rebuilt from the rest;
otherwise the left one is rebuilt from the whole branch and the right one is zero. -/
def fromFinalizedSnapshot :
    List H → Nat → Nat → Except MerkleTreeError (MerkleTree H)
  | [], depositCount, level =>
    if depositCount = 0 then .ok (zero level)
    else .error (.invalidSnapshot (.emptyBranchWithNonZeroDeposits depositCount))
  | first :: rest, depositCount, level =>
    if depositCount = 1 <<< level then .ok (finalized first)
    else
      match level with
      | 0 => .error (.invalidSnapshot .endOfTree)
      | level + 1 => do
        let (left, right) ←
          if 1 <<< level ≤ depositCount then do
            let right ← fromFinalizedSnapshot rest (depositCount - 1 <<< level) level
            pure (finalized first, right)
          else do
            let left ← fromFinalizedSnapshot (first :: rest) depositCount level
            pure (left, zero level)
        pure (node (hs.concat (left.hash hs) (right.hash hs)) left right)

end MerkleTree


/-! ## Finalizing a represented tree -/

namespace MerkleTree

variable {hs}

/-- `finalize_deposits` at a node whose leaves are not all to be finalized: the deposits go to
the left subtree, and what is past its capacity to the right one. -/
theorem finalizeDeposits_node_lt (h : H) (left right : MerkleTree H) {k depth : Nat}
    (hk : k < 2 ^ (depth + 1)) :
    finalizeDeposits (node h left right) k (depth + 1) =
      match finalizeDeposits left k depth with
      | (left, .error e) => (node h left right, .error e)
      | (left, .ok ()) =>
        if k > 2 ^ depth then
          match finalizeDeposits right (k - 2 ^ depth) depth with
          | (right, result) => (node h left right, result)
        else (node h left right, .ok ()) := by
  have hhalf : 2 ^ (depth + 1) / 2 = 2 ^ depth := by simp [Nat.pow_succ]
  simp only [finalizeDeposits, Nat.add_one_ne_zero, if_false, Nat.one_shiftLeft,
    if_neg (Nat.not_le.mpr hk), hhalf, Nat.add_sub_cancel]

namespace Represents

variable {t : MerkleTree H} {leaves : List H} {f depth : Nat}

/-- Finalizing a full tree as far as its capacity makes it one finalized node. -/
theorem finalizeDeposits_full (h : Represents hs t leaves f depth)
    (hfull : leaves.length = 2 ^ depth) {k : Nat} (hk : 2 ^ depth ≤ k) :
    finalizeDeposits t k depth =
      (MerkleTree.finalized ((create hs leaves depth).hash hs), .ok ()) := by
  have hhash := h.hash_eq
  cases h with
  | zero depth => exact absurd hfull.symm (Nat.two_pow_pos _).ne'
  | leaf a => rfl
  | finalized _ => rfl
  | node =>
    rw [← hhash]
    simp only [finalizeDeposits, Nat.add_one_ne_zero, if_false, Nat.one_shiftLeft, if_pos hk]
    rfl

/-- Finalizing the first `k ≥ 1` leaves of a tree, with no more than `k` finalized already, gives
a tree of the same leaves with `k` of them finalized. By induction on the tree: `k` goes to the
left subtree, whole when it fits there, and what is past the left subtree to the right one. -/
theorem finalizeDeposits_represents (h : Represents hs t leaves f depth) {k : Nat}
    (hk : 1 ≤ k) (hfk : f ≤ k) (hkl : k ≤ leaves.length) :
    ∃ t', finalizeDeposits t k depth = (t', .ok ()) ∧ Represents hs t' leaves k depth := by
  induction h generalizing k with
  | zero depth => simp at hkl; omega
  | leaf a =>
    obtain rfl : k = 1 := by simp at hkl; omega
    exact ⟨_, rfl, Represents.finalized (by rfl : [a].length = 2 ^ 0)⟩
  | @finalized leaves depth hfull =>
    obtain rfl : k = 2 ^ depth := by omega
    exact ⟨_, rfl, .finalized hfull⟩
  | @node left right leftLeaves rightLeaves fl fr depth hleft hright hne hsplit hordered hopen
      ihl ihr =>
    have hl := hleft.length_le
    have hr := hright.length_le
    have hpow : 2 ^ (depth + 1) = 2 ^ depth + 2 ^ depth := by rw [Nat.pow_succ]; omega
    simp only [List.length_append] at hkl
    have hnode := Represents.node hleft hright hne hsplit hordered hopen
    rcases Nat.lt_or_ge k (2 ^ (depth + 1)) with hopen' | hall
    · rw [finalizeDeposits_node_lt _ _ _ hopen']
      rcases Nat.lt_or_ge (2 ^ depth) k with hover | hfit
      · -- past the left subtree: it is finalized whole, and the rest goes right
        have hlfull : leftLeaves.length = 2 ^ depth := by
          rcases hsplit with rfl | hlfull
          · simp only [List.length_nil, Nat.add_zero] at hkl
            omega
          · exact hlfull
        obtain ⟨right', hcall, hright'⟩ := ihr (k := k - 2 ^ depth) (by omega) (by omega) (by omega)
        rw [hleft.finalizeDeposits_full hlfull hover.le]
        simp only [if_pos hover, hcall]
        have hfin := Represents.node (.finalized hlfull) hright' hne hsplit (.inr rfl) (by omega)
        rw [hright'.hash_eq, ← hright.hash_eq, Nat.add_sub_cancel' hover.le] at hfin
        rw [hleft.hash_eq]
        exact ⟨_, rfl, hfin⟩
      · -- within the left subtree, which takes them all; the right one has none finalized
        have hfr : fr = 0 := by omega
        subst hfr
        obtain ⟨left', hcall, hleft'⟩ := ihl (k := k) hk (by omega) (by
          rcases hsplit with rfl | hlfull
          · simpa using hkl
          · omega)
        simp only [hcall, if_neg (Nat.not_lt.mpr hfit)]
        have hfin := Represents.node hleft' hright hne hsplit (.inl rfl) (by omega)
        rw [hleft'.hash_eq, ← hleft.hash_eq, Nat.add_zero] at hfin
        exact ⟨_, rfl, hfin⟩
    · -- all the leaves: the node is finalized whole
      have hfull : (leftLeaves ++ rightLeaves).length = 2 ^ (depth + 1) := by
        simp only [List.length_append]
        omega
      exact ⟨_, hnode.finalizeDeposits_full hfull hall, by
        rw [show k = 2 ^ (depth + 1) by omega]; exact .finalized hfull⟩

end Represents


/-! ## The snapshot of the finalized hashes -/

@[simp] theorem getFinalizedHashes_zero (depth : Nat) :
    getFinalizedHashes (zero depth : MerkleTree H) = [] := rfl

@[simp] theorem getFinalizedHashes_leaf (h : H) : getFinalizedHashes (.leaf h) = [] := rfl

@[simp] theorem getFinalizedHashes_finalized (h : H) : getFinalizedHashes (finalized h) = [h] :=
  rfl

theorem appendFinalizedHashes_eq (t : MerkleTree H) (result : List H) :
    appendFinalizedHashes t result = result ++ getFinalizedHashes t := by
  induction t generalizing result with
  | finalized h => rfl
  | leaf h => simp [appendFinalizedHashes]
  | zero depth => simp [appendFinalizedHashes]
  | node h left right ihl ihr =>
    simp only [getFinalizedHashes, appendFinalizedHashes]
    rw [ihr, ihl, ihr (appendFinalizedHashes left []), ihl, List.nil_append, List.append_assoc]

/-- The finalized hashes of a node: those of its left subtree, then those of its right one. -/
@[simp] theorem getFinalizedHashes_node (h : H) (left right : MerkleTree H) :
    getFinalizedHashes (node h left right) = getFinalizedHashes left ++ getFinalizedHashes right := by
  rw [getFinalizedHashes, appendFinalizedHashes, appendFinalizedHashes_eq, ← getFinalizedHashes]

/-- `from_finalized_snapshot` above the leaf level, short of the capacity: a left subtree covered
by the deposits is the first hash, and the right one is rebuilt from the rest; otherwise the left
one is rebuilt and the right one is zero. -/
theorem fromFinalizedSnapshot_cons_lt (first : H) (rest : List H) {k depth : Nat}
    (hk : k < 2 ^ (depth + 1)) :
    fromFinalizedSnapshot hs (first :: rest) k (depth + 1) =
      if 2 ^ depth ≤ k then
        (fromFinalizedSnapshot hs rest (k - 2 ^ depth) depth).map fun right =>
          node (hs.concat first (right.hash hs)) (finalized first) right
      else
        (fromFinalizedSnapshot hs (first :: rest) k depth).map fun left =>
          node (hs.concat (left.hash hs) (zeroHash hs depth)) left (zero depth) := by
  conv_lhs => rw [fromFinalizedSnapshot, if_neg (by rw [Nat.one_shiftLeft]; omega)]
  simp only [Nat.one_shiftLeft]
  split
  · cases fromFinalizedSnapshot hs rest (k - 2 ^ depth) depth <;> rfl
  · cases fromFinalizedSnapshot hs (first :: rest) k depth <;> rfl

namespace Represents

variable {t : MerkleTree H} {leaves : List H} {f depth : Nat}

/-- Nothing finalized: no finalized hashes. -/
theorem getFinalizedHashes_eq_nil (h : Represents hs t leaves f depth) (hf : f = 0) :
    getFinalizedHashes t = [] := by
  induction h with
  | zero | leaf => rfl
  | finalized _ => exact absurd hf (Nat.two_pow_pos _).ne'
  | node _ _ _ _ _ _ ihl ihr => rw [getFinalizedHashes_node, ihl (by omega), ihr (by omega)]; rfl

/-- Something finalized: some finalized hash. -/
theorem getFinalizedHashes_ne_nil (h : Represents hs t leaves f depth) (hf : 0 < f) :
    getFinalizedHashes t ≠ [] := by
  induction h with
  | zero | leaf => omega
  | finalized _ => simp
  | @node _ _ _ _ fl fr _ _ _ _ _ _ _ ihl ihr =>
    rw [getFinalizedHashes_node]
    rcases Nat.eq_zero_or_pos fl with hfl | hfl
    · simp [ihr (by omega)]
    · simp [ihl hfl]

/-- The snapshot of a tree rebuilds the tree of its finalized leaves, all finalized. By induction
on the tree, along the split that `from_finalized_snapshot` makes: a wholly finalized left
subtree is the first hash of the snapshot, and otherwise the right subtree has nothing
finalized. -/
theorem fromFinalizedSnapshot_represents (h : Represents hs t leaves f depth) :
    ∃ s, fromFinalizedSnapshot hs (getFinalizedHashes t) f depth = .ok s ∧
      Represents hs s (leaves.take f) f depth := by
  induction h with
  | zero depth => exact ⟨_, by simp [fromFinalizedSnapshot], .zero depth⟩
  | leaf a => exact ⟨_, by simp [fromFinalizedSnapshot], .zero 0⟩
  | @finalized leaves depth hfull =>
    refine ⟨MerkleTree.finalized ((create hs leaves depth).hash hs), ?_, ?_⟩
    · rcases depth with _ | depth <;> simp [fromFinalizedSnapshot, Nat.one_shiftLeft]
    · rw [List.take_of_length_le hfull.le]
      exact .finalized hfull
  | @node left right leftLeaves rightLeaves fl fr depth hleft hright hne hsplit hordered hopen
      ihl ihr =>
    have hl := hleft.length_le
    have hpow : 2 ^ (depth + 1) = 2 ^ depth + 2 ^ depth := by rw [Nat.pow_succ]; omega
    rcases Nat.eq_zero_or_pos (fl + fr) with hnone | hsome
    · -- nothing finalized: the snapshot is empty
      have hnode := Represents.node hleft hright hne hsplit hordered hopen
      rw [hnode.getFinalizedHashes_eq_nil hnone, hnone, List.take_zero]
      exact ⟨_, rfl, .zero (depth + 1)⟩
    rw [getFinalizedHashes_node]
    rcases Nat.lt_or_ge (fl + fr) (2 ^ depth) with hleftonly | hcover
    · -- within the left subtree: the right one has no finalized hash
      have hfr : fr = 0 := by omega
      subst hfr
      simp only [Nat.add_zero] at hopen hsome hleftonly ⊢
      rw [hright.getFinalizedHashes_eq_nil rfl, List.append_nil]
      obtain ⟨first, rest, hF⟩ := List.exists_cons_of_ne_nil (hleft.getFinalizedHashes_ne_nil hsome)
      obtain ⟨sl, hsl, hrepr⟩ := ihl
      rw [hF] at hsl ⊢
      rw [fromFinalizedSnapshot_cons_lt first rest hopen, if_neg (by omega), hsl]
      have hsnap := Represents.node hrepr (.zero depth) (by simp [hne]; omega) (.inl rfl)
        (.inl rfl) (by omega)
      rw [List.append_nil] at hsnap
      rw [List.take_append_of_le_length (by omega : fl ≤ leftLeaves.length)]
      exact ⟨_, rfl, hsnap⟩
    · -- the left subtree is wholly finalized: it is the first hash
      have hfl : fl = 2 ^ depth := by omega
      have hlfull : leftLeaves.length = 2 ^ depth := by omega
      obtain ⟨sr, hsr, hrepr⟩ := ihr
      rw [hleft.eq_finalized_of_all hfl, getFinalizedHashes_finalized, List.singleton_append,
        fromFinalizedSnapshot_cons_lt _ _ hopen, if_pos hcover, hfl, Nat.add_sub_cancel_left, hsr]
      have hsnap := Represents.node (.finalized hlfull) hrepr hne (.inr hlfull) (.inr rfl)
        (by omega)
      rw [List.take_append, List.take_of_length_le (by omega),
        show 2 ^ depth + fr - leftLeaves.length = fr by omega]
      exact ⟨_, rfl, hsnap⟩

end Represents

end MerkleTree


/-! ## Finalizing and restoring from the snapshot -/

open MerkleTree

/-- With no deposits to finalize, `finalize_deposits` still goes down to the first leaf and
finalizes it: its proof then fails with `NonLeafProof`, and the snapshot, one hash for no
deposits, fails to decode with `EndOfTree`. -/
theorem finalize_zero_deposits_finalizes_first_leaf :
    finalizeDeposits (create sampleHasher [5] 1) 0 1 =
        (node (sampleHasher.concat 5 (zeroHash sampleHasher 0)) (finalized 5) (zero 0), .ok ()) ∧
      (node (sampleHasher.concat 5 (zeroHash sampleHasher 0)) (finalized 5) (zero 0)).generateProof
        sampleHasher 0 1 = some (.error .nonLeafProof) ∧
      getFinalizedHashes
        (node (sampleHasher.concat 5 (zeroHash sampleHasher 0)) (finalized 5) (zero 0)) = [5] ∧
      fromFinalizedSnapshot sampleHasher [5] 0 1 = .error (.invalidSnapshot .endOfTree) :=
  ⟨rfl, rfl, rfl, rfl⟩

/-- Finalizing the first `k ≥ 1` of the leaves of a created tree succeeds and keeps its root; the
proofs of the leaves from the `k`-th on still verify; the snapshot of the finalized hashes decodes
to a tree with the root of the first `k` leaves; and pushing the other leaves and then more
into the decoded tree gives the root of pushing the more into the finalized one, which is the
root `create` builds from all of them. -/
theorem finalize_snapshot_round_trip [DecidableEq H] {depth : Nat} {leaves : List H}
    (hlen : leaves.length ≤ 2 ^ depth) {k : Nat} (hk : 1 ≤ k) (hkl : k ≤ leaves.length) :
    ∃ t, finalizeDeposits (create hs leaves depth) k depth = (t, .ok ()) ∧
      t.hash hs = (create hs leaves depth).hash hs ∧
      (∀ index, k ≤ index → ∀ (hidx : index < leaves.length), ∃ branch,
        t.generateProof hs index depth = some (.ok (leaves[index], branch)) ∧
        verifyMerkleProof hs leaves[index] branch depth index (t.hash hs)) ∧
      ∃ s, fromFinalizedSnapshot hs (getFinalizedHashes t) k depth = .ok s ∧
        s.hash hs = (create hs (leaves.take k) depth).hash hs ∧
        ∀ more, (pushLeaves hs s (leaves.drop k ++ more) depth).1.hash hs =
            (pushLeaves hs t more depth).1.hash hs ∧
          (pushLeaves hs t more depth).1.hash hs = (create hs (leaves ++ more) depth).hash hs := by
  obtain ⟨t, hfin, ht⟩ :=
    (represents_create depth leaves hlen).finalizeDeposits_represents hk (Nat.zero_le k) hkl
  obtain ⟨s, hsnap, hrestored⟩ := ht.fromFinalizedSnapshot_represents
  have hne : leaves ≠ [] := List.ne_nil_of_length_pos (by omega)
  have hfirst : leaves.take k ≠ [] := by simp [hne]; omega
  refine ⟨t, hfin, ht.hash_eq, fun index hafter hidx => ht.generateProof_leaf hafter hidx, s, hsnap,
    hrestored.hash_eq, fun more => ⟨?_, ?_⟩⟩
  · -- both runs keep the first `2 ^ depth` of the same leaves
    rw [(hrestored.pushLeaves_take (fun _ => hfirst) (leaves.drop k ++ more)).hash_eq,
      (ht.pushLeaves_take (fun _ => hne) more).hash_eq, ← List.append_assoc, List.take_append_drop]
  · rw [(ht.pushLeaves_take (fun _ => hne) more).hash_eq, create_take]

theorem finalize_snapshot_round_trip_sample :
    [1, 2, 3].length ≤ 2 ^ 2 ∧ 1 ≤ 2 ∧ 2 ≤ [1, 2, 3].length ∧
      ∃ t, finalizeDeposits (create sampleHasher [1, 2, 3] 2) 2 2 = (t, .ok ()) ∧
        t.hash sampleHasher = (create sampleHasher [1, 2, 3] 2).hash sampleHasher := by
  obtain ⟨t, hfin, hhash, -⟩ := finalize_snapshot_round_trip sampleHasher
    (show [1, 2, 3].length ≤ 2 ^ 2 by decide) (show 1 ≤ 2 by decide)
    (show 2 ≤ [1, 2, 3].length by decide)
  exact ⟨by decide, by decide, by decide, t, hfin, hhash⟩

end Vibehouse.MerkleProof
