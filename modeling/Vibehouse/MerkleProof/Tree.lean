import Mathlib.Data.Nat.Bitwise

/-! # The right-sparse Merkle tree of deposits

`consensus/merkle_proof/src/lib.rs`: a Merkle tree of fixed depth whose first leaves are set and
whose other leaves are zero. `MerkleTree::create` builds it from the leaves, splitting them at
the capacity of the left subtree; `push_leaf` appends a leaf in place, by a case split over the
shapes of the two children; `generate_proof` walks down the bits of the index and collects the
siblings, and `verify_merkle_proof` folds them back up to the root. `hash32_concat` is a
parameter (`Hasher`), with the zero leaf that `ZERO_HASHES` starts from.

Pushing a leaf into the tree of `L` (with room left) gives the tree of `L ++ [x]`, as a value:
the push goes down the left subtree while it has room and then into the right one, which is
where `create` splits. A push into the full tree fails with `MerkleTreeFull` and changes nothing.
The proof of leaf `i` of a created tree follows bit `d` of `i` at depth `d + 1`, which is the
side of the capacity `create` split at, so folding the siblings gives back the root. -/

namespace Vibehouse.MerkleProof

/-- `hash32_concat`, and the zero leaf: `ZERO_HASHES[0]`. -/
structure Hasher (H : Type) where
  concat : H → H → H
  zeroLeaf : H

/-- `InvalidSnapshot`. -/
inductive InvalidSnapshot
  | emptyBranchWithNonZeroDeposits (depositCount : Nat)
  | endOfTree
  deriving DecidableEq, Repr

/-- `MerkleTreeError`, without `ArithError`, which no function here returns. -/
inductive MerkleTreeError
  | leafReached
  | nonLeafProof
  | merkleTreeFull
  | invalid
  | depthTooSmall
  | zeroNodeFinalized
  | finalizedNodePushed
  | invalidSnapshot (e : InvalidSnapshot)
  | proofEncounteredFinalizedNode
  | pleaseNotifyTheDevs
  deriving DecidableEq, Repr

/-- `MerkleTree`. -/
inductive MerkleTree (H : Type)
  | finalized (hash : H)
  | leaf (hash : H)
  | node (hash : H) (left right : MerkleTree H)
  | zero (depth : Nat)
  deriving DecidableEq, Repr

variable {H : Type} (hs : Hasher H)

/-- `ZERO_HASHES[depth]`: the root of `2 ^ depth` zero leaves. -/
def zeroHash : Nat → H
  | 0 => hs.zeroLeaf
  | depth + 1 => hs.concat (zeroHash depth) (zeroHash depth)

namespace MerkleTree

/-- `hash`. -/
def hash : MerkleTree H → H
  | finalized h | leaf h | node h _ _ => h
  | zero depth => zeroHash hs depth

/-- `MerkleTree::create`. Past `2 ^ depth` leaves the extra ones are dropped, as in a release
build, where the `debug_assert` on a single leaf at depth 0 is off. -/
def create : List H → Nat → MerkleTree H
  | [], depth => zero depth
  | first :: _, 0 => .leaf first
  | leaves@(_ :: _), depth + 1 =>
    let subtreeCapacity := 2 ^ depth
    let (leftLeaves, rightLeaves) :=
      if leaves.length ≤ subtreeCapacity then (leaves, [])
      else (leaves.take subtreeCapacity, leaves.drop subtreeCapacity)
    let leftSubtree := create leftLeaves depth
    let rightSubtree := create rightLeaves depth
    node (hs.concat (leftSubtree.hash hs) (rightSubtree.hash hs)) leftSubtree rightSubtree

/-- The node of two subtrees, hashed as `push_leaf` rehashes it. -/
def rehash (left right : MerkleTree H) : MerkleTree H :=
  node (hs.concat (left.hash hs) (right.hash hs)) left right

/-- `push_leaf`: the tree after the call, which works in place, and its result. -/
def pushLeaf : MerkleTree H → H → Nat → MerkleTree H × Except MerkleTreeError Unit
  | t, _, 0 => (t, .error .depthTooSmall)
  | .leaf h, _, _ + 1 => (.leaf h, .error .leafReached)
  | zero _, elem, depth + 1 => (create hs [elem] (depth + 1), .ok ())
  | finalized h, _, _ + 1 => (finalized h, .error .finalizedNodePushed)
  | node h left right, elem, depth + 1 =>
    match left, right with
    | .leaf _, .leaf _ | finalized _, .leaf _ => (node h left right, .error .merkleTreeFull)
    -- there is a right node, so insert in it
    | node .., node .. | finalized _, node .. =>
      match pushLeaf right elem depth with
      | (right, .ok ()) => (rehash hs left right, .ok ())
      | (right, .error e) => (node h left right, .error e)
    | zero _, zero _ => (rehash hs (create hs [elem] depth) right, .ok ())
    | .leaf _, zero _ | finalized _, zero _ => (rehash hs left (create hs [elem] depth), .ok ())
    -- insert on the left, and on the right when the left is full
    | node .., zero _ =>
      match pushLeaf left elem depth with
      | (left, .ok ()) => (rehash hs left right, .ok ())
      | (left, .error .merkleTreeFull) => (rehash hs left (create hs [elem] depth), .ok ())
      | (left, .error e) => (node h left right, .error e)
    | _, _ => (node h left right, .error .invalid)

/-- The leaves pushed one by one with `push_leaf`, as `genesis` and `DepositDataTree` do: the
tree after the calls and the result of each call. -/
def pushLeaves (t : MerkleTree H) (leaves : List H) (depth : Nat) :
    MerkleTree H × List (Except MerkleTreeError Unit) :=
  leaves.foldl (fun (t, results) elem =>
    let (t, result) := pushLeaf hs t elem depth
    (t, results ++ [result])) (t, [])

/-- `left_and_right_branches`: the children of a node, and of a zero tree above the leaves. -/
def leftAndRightBranches : MerkleTree H → Option (MerkleTree H × MerkleTree H)
  | finalized _ | .leaf _ | zero 0 => none
  | node _ left right => some (left, right)
  | zero (depth + 1) => some (zero depth, zero depth)

/-- `is_leaf`. -/
def isLeaf : MerkleTree H → Bool
  | .leaf _ => true
  | _ => false

/-- The loop of `generate_proof` from `current_node` at `current_depth`: the node it ends at and
the proof with the siblings pushed, the top one first; `none` where the `unwrap` panics. -/
def proofLoop (index : Nat) :
    MerkleTree H → Nat → List H → Option (Except MerkleTreeError (MerkleTree H × List H))
  | currentNode, 0, proof => some (.ok (currentNode, proof))
  | currentNode, currentDepth + 1, proof =>
    match currentNode with
    | finalized _ => some (.error .proofEncounteredFinalizedNode)
    | _ =>
      match currentNode.leftAndRightBranches with
      | none => none
      | some (left, right) =>
        -- go right and prove with the left branch, or the other way
        if (index >>> currentDepth) &&& 1 = 1 then
          proofLoop index right currentDepth (proof ++ [left.hash hs])
        else proofLoop index left currentDepth (proof ++ [right.hash hs])

/-- `generate_proof`: the leaf at `index` and its proof, bottom-up; `none` where it panics. -/
def generateProof (t : MerkleTree H) (index depth : Nat) :
    Option (Except MerkleTreeError (H × List H)) :=
  (proofLoop hs index t depth []).map fun r => r.bind fun (currentNode, proof) =>
    if proof.length ≠ depth then .error .pleaseNotifyTheDevs
    else if !currentNode.isLeaf then .error .nonLeafProof
    else .ok (currentNode.hash hs, proof.reverse)

end MerkleTree

/-- `merkle_root_from_branch`, whose `assert` on the length of the branch is left to its caller:
`verify_merkle_proof` checks it first. -/
def merkleRootFromBranch (leaf : H) (branch : List H) (depth index : Nat) : H :=
  (branch.zipIdx.take depth).foldl (fun merkleRoot (sibling, i) =>
    if (index >>> i) &&& 1 = 1 then hs.concat sibling merkleRoot
    else hs.concat merkleRoot sibling) leaf

/-- `verify_merkle_proof`. -/
def verifyMerkleProof [DecidableEq H] (leaf : H) (branch : List H) (depth index : Nat)
    (root : H) : Bool :=
  if branch.length = depth then merkleRootFromBranch hs leaf branch depth index == root else false


/-! ## The shape of a created tree -/

namespace MerkleTree

variable {hs}

@[simp] theorem create_nil (depth : Nat) : create hs [] depth = zero depth := by
  cases depth <;> rfl

@[simp] theorem create_cons_zero (first : H) (rest : List H) :
    create hs (first :: rest) 0 = .leaf first := rfl

/-- Above the leaves `create` splits at the capacity of the left subtree: the right subtree gets
the leaves past it, none when they fit on the left. -/
theorem create_succ {leaves : List H} (hne : leaves ≠ []) (depth : Nat) :
    create hs leaves (depth + 1) = rehash hs (create hs (leaves.take (2 ^ depth)) depth)
      (create hs (leaves.drop (2 ^ depth)) depth) := by
  obtain ⟨first, rest, rfl⟩ := List.exists_cons_of_ne_nil hne
  simp only [create]
  split
  · rename_i hfit
    rw [List.take_of_length_le hfit, List.drop_of_length_le hfit, create_nil]
    rfl
  · rfl

/-- A tree created from some leaves above the leaf level is a node. -/
theorem create_succ_eq_node {leaves : List H} (hne : leaves ≠ []) (depth : Nat) :
    ∃ h left right, create hs leaves (depth + 1) = node h left right :=
  ⟨_, _, _, create_succ hne depth⟩

/-- `create` keeps the first `2 ^ depth` leaves and drops the rest. By induction on the depth:
the left subtree takes the same leaves either way, the right one the next `2 ^ depth`. -/
theorem create_take : ∀ (depth : Nat) (leaves : List H),
    create hs (leaves.take (2 ^ depth)) depth = create hs leaves depth
  | _, [] => by simp
  | 0, first :: rest => rfl
  | depth + 1, first :: rest => by
    have htwice : 2 ^ depth ≤ 2 ^ (depth + 1) := Nat.pow_le_pow_right (by decide) (by omega)
    have hne : (first :: rest).take (2 ^ (depth + 1)) ≠ [] := by simp
    rw [create_succ hne depth, create_succ (List.cons_ne_nil _ _) depth, List.take_take,
      Nat.min_eq_left htwice, List.drop_take, ← create_take depth ((first :: rest).drop (2 ^ depth))]
    have hrest : 2 ^ (depth + 1) - 2 ^ depth = 2 ^ depth := by rw [Nat.pow_succ]; omega
    rw [hrest]

end MerkleTree


/-! ## Pushing leaves -/

namespace MerkleTree

variable {hs}

/-- A push into the full tree of `2 ^ (depth + 1)` leaves fails with `MerkleTreeFull` and leaves
the tree as it was: its rightmost path ends at two leaves. -/
theorem pushLeaf_create_full : ∀ (depth : Nat) {leaves : List H},
    leaves.length = 2 ^ (depth + 1) → ∀ elem,
      pushLeaf hs (create hs leaves (depth + 1)) elem (depth + 1) =
        (create hs leaves (depth + 1), .error .merkleTreeFull)
  | 0, leaves, hlen, elem => by
    match leaves, hlen with
    | [_, _], _ => rfl
  | depth + 1, leaves, hlen, elem => by
    have hcap : 0 < 2 ^ (depth + 1) := Nat.two_pow_pos _
    have hne : leaves ≠ [] := List.ne_nil_of_length_pos (by rw [hlen]; exact Nat.two_pow_pos _)
    have hleft : (leaves.take (2 ^ (depth + 1))).length = 2 ^ (depth + 1) := by
      rw [List.length_take, hlen, Nat.pow_succ 2 (depth + 1)]
      omega
    have hright : (leaves.drop (2 ^ (depth + 1))).length = 2 ^ (depth + 1) := by
      rw [List.length_drop, hlen, Nat.pow_succ 2 (depth + 1)]
      omega
    obtain ⟨hl, ll, lr, hL⟩ : ∃ h left right,
        create hs (leaves.take (2 ^ (depth + 1))) (depth + 1) = node h left right :=
      create_succ_eq_node (List.ne_nil_of_length_pos (by omega)) depth
    obtain ⟨hr, rl, rr, hR⟩ : ∃ h left right,
        create hs (leaves.drop (2 ^ (depth + 1))) (depth + 1) = node h left right :=
      create_succ_eq_node (List.ne_nil_of_length_pos (by omega)) depth
    -- the push goes right, where the tree is full as well
    have ih := pushLeaf_create_full depth hright elem
    rw [hR] at ih
    rw [create_succ hne (depth + 1), hL, hR, rehash, pushLeaf]
    rw [ih]

/-- A push into the tree of fewer than `2 ^ (depth + 1)` leaves gives the tree of the leaves
with the new one appended. By induction on the depth, split by where the leaves end: in the
left subtree, at its end, or in the right subtree. -/
theorem pushLeaf_create : ∀ (depth : Nat) {leaves : List H},
    leaves.length < 2 ^ (depth + 1) → ∀ elem,
      pushLeaf hs (create hs leaves (depth + 1)) elem (depth + 1) =
        (create hs (leaves ++ [elem]) (depth + 1), .ok ())
  | depth, [], _, elem => by simp [pushLeaf]
  | 0, [a], _, elem => rfl
  | 0, _ :: _ :: _, hlen, _ => by
    simp only [List.length_cons, Nat.zero_add, Nat.pow_one] at hlen
    omega
  | depth + 1, first :: rest, hlen, elem => by
    generalize hleaves : first :: rest = leaves at hlen ⊢
    have hne : leaves ≠ [] := hleaves ▸ List.cons_ne_nil _ _
    have hne' : leaves ++ [elem] ≠ [] := by simp
    have hcap : 0 < 2 ^ (depth + 1) := Nat.two_pow_pos _
    have hdouble : 2 ^ (depth + 1 + 1) = 2 ^ (depth + 1) + 2 ^ (depth + 1) := by
      rw [Nat.pow_succ 2 (depth + 1)]
      omega
    rw [create_succ hne (depth + 1), create_succ hne' (depth + 1)]
    rcases Nat.lt_trichotomy leaves.length (2 ^ (depth + 1)) with hlt | heq | hgt
    · -- the leaves end inside the left subtree, which takes the new one
      rw [List.take_of_length_le hlt.le, List.drop_of_length_le hlt.le,
        List.take_of_length_le (by simp; omega), List.drop_of_length_le (by simp; omega)]
      obtain ⟨hl, ll, lr, hL⟩ : ∃ h left right, create hs leaves (depth + 1) = node h left right :=
        create_succ_eq_node hne depth
      have ih := pushLeaf_create depth hlt elem
      rw [hL] at ih
      rw [hL, create_nil, rehash, pushLeaf]
      rw [ih]
    · -- the left subtree is full: the new leaf starts the right one
      rw [List.take_of_length_le heq.le, List.drop_of_length_le heq.le,
        List.take_append_of_le_length heq.ge, List.take_of_length_le heq.le,
        List.drop_append_of_le_length heq.ge, List.drop_of_length_le heq.le, List.nil_append]
      obtain ⟨hl, ll, lr, hL⟩ : ∃ h left right, create hs leaves (depth + 1) = node h left right :=
        create_succ_eq_node hne depth
      have hfull := @pushLeaf_create_full H hs depth leaves heq elem
      rw [hL] at hfull
      rw [hL, create_nil, rehash, pushLeaf]
      rw [hfull]
    · -- the leaves end inside the right subtree, which takes the new one
      have hright : (leaves.drop (2 ^ (depth + 1))).length < 2 ^ (depth + 1) := by
        rw [List.length_drop]
        omega
      rw [List.take_append_of_le_length hgt.le, List.drop_append_of_le_length hgt.le]
      obtain ⟨hl, ll, lr, hL⟩ : ∃ h left right,
          create hs (leaves.take (2 ^ (depth + 1))) (depth + 1) = node h left right :=
        create_succ_eq_node (List.ne_nil_of_length_pos (by simp; omega)) depth
      obtain ⟨hr, rl, rr, hR⟩ : ∃ h left right,
          create hs (leaves.drop (2 ^ (depth + 1))) (depth + 1) = node h left right :=
        create_succ_eq_node (List.ne_nil_of_length_pos (by simp; omega)) depth
      have ih := pushLeaf_create depth hright elem
      rw [hR] at ih
      rw [hL, hR, rehash, pushLeaf]
      rw [ih]

/-- The run of pushes: from the tree of `leaves`, pushing `more` one by one gives the tree of
`leaves ++ more` while they fit, each push succeeding. By induction on the pushed leaves, each
step being `pushLeaf_create`. -/
theorem foldl_pushLeaf_create (depth : Nat) : ∀ (more leaves : List H)
    (results : List (Except MerkleTreeError Unit)),
    (leaves ++ more).length ≤ 2 ^ (depth + 1) →
      more.foldl (fun (t, results) elem =>
          let (t, result) := pushLeaf hs t elem (depth + 1)
          (t, results ++ [result])) (create hs leaves (depth + 1), results) =
        (create hs (leaves ++ more) (depth + 1), results ++ more.map fun _ => .ok ())
  | [], leaves, results, _ => by simp
  | elem :: more, leaves, results, hlen => by
    have hroom : leaves.length < 2 ^ (depth + 1) := by
      simp only [List.length_append, List.length_cons] at hlen
      omega
    dsimp only [List.foldl_cons]
    rw [pushLeaf_create depth hroom elem]
    have ih := foldl_pushLeaf_create depth more (leaves ++ [elem])
      (results ++ [.ok ()]) (by simpa using hlen)
    simpa using ih

/-- Pushing the leaves one by one into the empty tree gives the tree that `create` builds from
them, every push succeeding. -/
theorem pushLeaves_zero {depth : Nat} (hdepth : 1 ≤ depth) {leaves : List H}
    (hlen : leaves.length ≤ 2 ^ depth) :
    pushLeaves hs (create hs [] depth) leaves depth =
      (create hs leaves depth, leaves.map fun _ => .ok ()) := by
  obtain ⟨depth, rfl⟩ : ∃ d, depth = d + 1 := ⟨depth - 1, by omega⟩
  have hrun := @foldl_pushLeaf_create H hs depth leaves [] [] (by simpa using hlen)
  simpa [pushLeaves] using hrun

private theorem foldl_pushLeaf_fst (depth : Nat) : ∀ (more : List H)
    (acc : MerkleTree H × List (Except MerkleTreeError Unit)),
    (more.foldl (fun (t, results) elem =>
        let (t, result) := pushLeaf hs t elem depth
        (t, results ++ [result])) acc).1 = (pushLeaves hs acc.1 more depth).1
  | [], _ => rfl
  | elem :: more, acc => by
    rw [List.foldl_cons, foldl_pushLeaf_fst depth more]
    conv_rhs => rw [pushLeaves, List.foldl_cons, foldl_pushLeaf_fst depth more]

/-- The tree after a run of pushes is the tree after the rest of the run from the first push. -/
theorem pushLeaves_cons (t : MerkleTree H) (elem : H) (more : List H) (depth : Nat) :
    (pushLeaves hs t (elem :: more) depth).1 =
      (pushLeaves hs (pushLeaf hs t elem depth).1 more depth).1 := by
  rw [pushLeaves, List.foldl_cons, foldl_pushLeaf_fst]

end MerkleTree


/-! ## What a tree stands for

`Represents hs t leaves f depth`: `t` is a tree of depth `depth` over `leaves`, whose finalized
nodes cover exactly the first `f` of them. It is the shape that `create`, `push_leaf`,
`finalize_deposits` and `from_finalized_snapshot` build. A finalized node stands for a full
subtree; a node is never wholly finalized, as `finalize_deposits` collapses such a node; the
right subtree of a node holds leaves only once the left one is full, and finalized leaves only
once the left one is wholly finalized. -/

namespace MerkleTree

/-- The trees of depth `depth` over `leaves` with the first `f` finalized. -/
inductive Represents (hs : Hasher H) : MerkleTree H → List H → Nat → Nat → Prop
  | zero (depth : Nat) : Represents hs (zero depth) [] 0 depth
  | leaf (a : H) : Represents hs (.leaf a) [a] 0 0
  | finalized {leaves : List H} {depth : Nat} (hfull : leaves.length = 2 ^ depth) :
      Represents hs (finalized ((create hs leaves depth).hash hs)) leaves (2 ^ depth) depth
  | node {left right : MerkleTree H} {leftLeaves rightLeaves : List H} {fl fr depth : Nat}
      (hleft : Represents hs left leftLeaves fl depth)
      (hright : Represents hs right rightLeaves fr depth)
      (hne : leftLeaves ≠ [])
      (hsplit : rightLeaves = [] ∨ leftLeaves.length = 2 ^ depth)
      (hordered : fr = 0 ∨ fl = 2 ^ depth)
      (hopen : fl + fr < 2 ^ (depth + 1)) :
      Represents hs (node (hs.concat (left.hash hs) (right.hash hs)) left right)
        (leftLeaves ++ rightLeaves) (fl + fr) (depth + 1)

variable {hs}

/-- The leaves of a node split at the capacity of its left subtree. -/
theorem take_drop_of_split {left right : List H} {n : Nat}
    (hsplit : right = [] ∨ left.length = n) (hlen : left.length ≤ n) :
    (left ++ right).take n = left ∧ (left ++ right).drop n = right := by
  rcases hsplit with rfl | rfl
  · simp [List.take_of_length_le hlen, List.drop_of_length_le hlen]
  · simp

namespace Represents

variable {t : MerkleTree H} {leaves : List H} {f depth : Nat}

theorem length_le (h : Represents hs t leaves f depth) :
    f ≤ leaves.length ∧ leaves.length ≤ 2 ^ depth := by
  induction h with
  | zero depth => simp
  | leaf a => simp
  | finalized hfull => simp [hfull]
  | @node _ _ leftLeaves rightLeaves fl fr depth _ _ _ _ _ _ ihl ihr =>
    have hpow : 2 ^ (depth + 1) = 2 ^ depth + 2 ^ depth := by rw [Nat.pow_succ]; omega
    simp only [List.length_append]
    omega

/-- A represented tree has the root of the tree `create` builds from its leaves: finalizing a
subtree keeps its hash. -/
theorem hash_eq (h : Represents hs t leaves f depth) :
    t.hash hs = (create hs leaves depth).hash hs := by
  induction h with
  | zero depth => simp
  | leaf a => rfl
  | finalized _ => rfl
  | @node left right leftLeaves rightLeaves fl fr depth hleft _ hne hsplit _ _ ihl ihr =>
    obtain ⟨htake, hdrop⟩ := take_drop_of_split hsplit hleft.length_le.2
    rw [create_succ (by simp [hne]) depth, htake, hdrop]
    show hs.concat (left.hash hs) (right.hash hs) =
      hs.concat ((create hs leftLeaves depth).hash hs) ((create hs rightLeaves depth).hash hs)
    rw [ihl, ihr]

/-- All leaves finalized: the tree is one finalized node. -/
theorem eq_finalized_of_all (h : Represents hs t leaves f depth) (hf : f = 2 ^ depth) :
    t = MerkleTree.finalized ((create hs leaves depth).hash hs) := by
  cases h with
  | zero => exact absurd hf.symm (Nat.two_pow_pos _).ne'
  | leaf => simp at hf
  | finalized => rfl
  | node _ _ _ _ _ hopen => omega

/-- Above the leaf level a tree with leaves is a node or a finalized node, and a node when not
all its leaves are finalized. -/
theorem eq_node_of_lt (h : Represents hs t leaves f (depth + 1)) (hne : leaves ≠ [])
    (hf : f < 2 ^ (depth + 1)) : ∃ hash left right, t = MerkleTree.node hash left right := by
  cases h with
  | zero => exact absurd rfl hne
  | finalized => omega
  | node => exact ⟨_, _, _, rfl⟩

theorem eq_node_or_finalized (h : Represents hs t leaves f (depth + 1)) (hne : leaves ≠ []) :
    (∃ hash left right, t = MerkleTree.node hash left right) ∨
      ∃ hash, t = MerkleTree.finalized hash := by
  cases h with
  | zero => exact absurd rfl hne
  | finalized => exact .inr ⟨_, rfl⟩
  | node => exact .inl ⟨_, _, _, rfl⟩

/-- At the leaf level a tree with leaves is one leaf, finalized or not. -/
theorem eq_of_depth_zero (h : Represents hs t leaves f 0) (hne : leaves ≠ []) :
    ∃ a, leaves = [a] ∧ (t = MerkleTree.leaf a ∧ f = 0 ∨ t = MerkleTree.finalized a ∧ f = 1) := by
  cases h with
  | zero => exact absurd rfl hne
  | leaf a => exact ⟨a, rfl, .inl ⟨rfl, rfl⟩⟩
  | @finalized leaves _ hfull =>
    match leaves, hfull with
    | [a], _ => exact ⟨a, rfl, .inr ⟨rfl, rfl⟩⟩

/-- Without leaves the tree is the zero tree. -/
theorem eq_zero_of_nil (h : Represents hs t leaves f depth) (hnil : leaves = []) :
    t = MerkleTree.zero depth ∧ f = 0 := by
  cases h with
  | zero => exact ⟨rfl, rfl⟩
  | leaf => simp at hnil
  | finalized hfull =>
    subst hnil
    exact absurd hfull.symm (Nat.two_pow_pos _).ne'
  | node _ _ hne => simp [hne] at hnil

end Represents

/-- `create` builds a represented tree, with nothing finalized. By induction on the depth. -/
theorem represents_create : ∀ (depth : Nat) (leaves : List H), leaves.length ≤ 2 ^ depth →
    Represents hs (create hs leaves depth) leaves 0 depth
  | depth, [], _ => by rw [create_nil]; exact .zero depth
  | 0, [a], _ => .leaf a
  | 0, _ :: _ :: _, hlen => by simp at hlen
  | depth + 1, first :: rest, hlen => by
    generalize hleaves : first :: rest = leaves at hlen ⊢
    have hne : leaves ≠ [] := hleaves ▸ List.cons_ne_nil _ _
    have hcap : 0 < 2 ^ depth := Nat.two_pow_pos depth
    have hpow : 2 ^ (depth + 1) = 2 ^ depth + 2 ^ depth := by rw [Nat.pow_succ]; omega
    have hsplit : leaves.drop (2 ^ depth) = [] ∨ (leaves.take (2 ^ depth)).length = 2 ^ depth := by
      rcases Nat.le_total leaves.length (2 ^ depth) with hfit | hover
      · exact .inl (List.drop_eq_nil_of_le hfit)
      · exact .inr (by simp [hover])
    have hnode := Represents.node
      (represents_create depth (leaves.take (2 ^ depth)) (by simp only [List.length_take]; omega))
      (represents_create depth (leaves.drop (2 ^ depth)) (by simp only [List.length_drop]; omega))
      (by simp [hne]) hsplit (.inl rfl) (by omega)
    rw [List.take_append_drop] at hnode
    rw [create_succ hne depth]
    exact hnode

namespace Represents

variable {t : MerkleTree H} {leaves : List H} {f depth : Nat}

/-- Both subtrees of a full node are full, and the right one is not wholly finalized. -/
theorem full_halves {left right : MerkleTree H} {leftLeaves rightLeaves : List H} {fl fr : Nat}
    (hleft : Represents hs left leftLeaves fl depth) (hright : Represents hs right rightLeaves fr depth)
    (hordered : fr = 0 ∨ fl = 2 ^ depth) (hopen : fl + fr < 2 ^ (depth + 1))
    (hfull : (leftLeaves ++ rightLeaves).length = 2 ^ (depth + 1)) :
    leftLeaves.length = 2 ^ depth ∧ rightLeaves.length = 2 ^ depth ∧ fr < 2 ^ depth := by
  have hl := hleft.length_le
  have hr := hright.length_le
  have hpow : 2 ^ (depth + 1) = 2 ^ depth + 2 ^ depth := by rw [Nat.pow_succ]; omega
  simp only [List.length_append] at hfull
  omega

/-- A push into a full tree that is not wholly finalized fails with `MerkleTreeFull` and leaves
the tree as it was: the push goes down the right subtrees, which are nodes, to a node of two
leaves. By induction on the tree. -/
theorem pushLeaf_full (h : Represents hs t leaves f depth) (hdepth : 0 < depth)
    (hfull : leaves.length = 2 ^ depth) (hf : f < 2 ^ depth) (elem : H) :
    pushLeaf hs t elem depth = (t, .error .merkleTreeFull) := by
  induction h with
  | zero depth => exact absurd hfull.symm (Nat.two_pow_pos _).ne'
  | leaf => omega
  | finalized => omega
  | @node left right leftLeaves rightLeaves fl fr depth hleft hright hne _ hordered hopen _ ihr =>
    obtain ⟨_, hrfull, hfr⟩ := full_halves hleft hright hordered hopen hfull
    have hrne : rightLeaves ≠ [] :=
      List.ne_nil_of_length_pos (by rw [hrfull]; exact Nat.two_pow_pos depth)
    rcases depth with _ | depth
    · -- two leaves below, the right one not finalized
      obtain ⟨b, -, ⟨rfl, -⟩ | ⟨-, rfl⟩⟩ := hright.eq_of_depth_zero hrne
      · obtain ⟨a, -, ⟨rfl, -⟩ | ⟨rfl, -⟩⟩ := hleft.eq_of_depth_zero hne <;> rfl
      · simp at hfr
    · -- the push goes into the right subtree, which is full too
      have hpush := ihr (by omega) hrfull hfr
      obtain ⟨_, _, _, rfl⟩ := hright.eq_node_of_lt hrne hfr
      rcases hleft.eq_node_or_finalized hne with ⟨_, _, _, rfl⟩ | ⟨_, rfl⟩ <;>
        rw [pushLeaf, hpush]

/-- A push into a tree with room adds the leaf, and finalizes nothing. By induction on the tree:
the leaf goes into the left subtree while it has room, then starts the right one, then goes into
the right one. -/
theorem pushLeaf_room (h : Represents hs t leaves f depth) (hdepth : 0 < depth)
    (hroom : leaves.length < 2 ^ depth) (elem : H) :
    ∃ t', pushLeaf hs t elem depth = (t', .ok ()) ∧ Represents hs t' (leaves ++ [elem]) f depth := by
  induction h with
  | zero depth =>
    obtain ⟨depth, rfl⟩ : ∃ d, depth = d + 1 := ⟨depth - 1, by omega⟩
    exact ⟨_, rfl, represents_create (depth + 1) [elem] (Nat.one_le_two_pow)⟩
  | leaf => omega
  | finalized => omega
  | @node left right leftLeaves rightLeaves fl fr depth hleft hright hne hsplit hordered hopen
      ihl ihr =>
    have hl := hleft.length_le
    have hr := hright.length_le
    have hpow : 2 ^ (depth + 1) = 2 ^ depth + 2 ^ depth := by rw [Nat.pow_succ]; omega
    simp only [List.length_append] at hroom
    rcases eq_or_ne rightLeaves [] with rfl | hrne
    · -- the right subtree is empty, so it is a zero tree
      obtain ⟨rfl, rfl⟩ := hright.eq_zero_of_nil rfl
      simp only [List.append_nil, Nat.add_zero]
      rcases Nat.lt_or_ge leftLeaves.length (2 ^ depth) with hlroom | hlfull
      · -- the left subtree has room and takes the leaf
        have hdepth : 0 < depth := by
          have hpos := List.length_pos_iff.mpr hne
          rcases depth with _ | depth
          · simp only [Nat.pow_zero] at hlroom
            omega
          · omega
        obtain ⟨left', hpush, hleft'⟩ := ihl hdepth hlroom
        obtain ⟨depth, rfl⟩ : ∃ d, depth = d + 1 := ⟨depth - 1, by omega⟩
        obtain ⟨_, _, _, rfl⟩ := hleft.eq_node_of_lt hne (by omega)
        have hnode := Represents.node hleft' (.zero (depth + 1)) (by simp) (.inl rfl) (.inl rfl)
          (by omega)
        simp only [List.append_nil, Nat.add_zero] at hnode
        exact ⟨_, by rw [pushLeaf, hpush]; rfl, hnode⟩
      · -- the left subtree is full: the leaf starts the right one
        have hlfull : leftLeaves.length = 2 ^ depth := by omega
        have hnode := Represents.node hleft (represents_create depth [elem] Nat.one_le_two_pow)
          hne (.inr hlfull) (.inl rfl) (by omega)
        simp only [Nat.add_zero] at hnode
        refine ⟨_, ?_, hnode⟩
        rcases depth with _ | depth
        · obtain ⟨a, -, ⟨rfl, -⟩ | ⟨rfl, -⟩⟩ := hleft.eq_of_depth_zero hne <;> rfl
        · rcases hleft.eq_node_or_finalized hne with ⟨_, _, _, rfl⟩ | ⟨_, rfl⟩
          · -- a full left node refuses the push with `MerkleTreeFull`
            have hfl : fl < 2 ^ (depth + 1) := by
              rcases Nat.lt_or_ge fl (2 ^ (depth + 1)) with hlt | hge
              · exact hlt
              · exact absurd (hleft.eq_finalized_of_all (by omega)) (by simp)
            rw [pushLeaf, hleft.pushLeaf_full (by omega) hlfull hfl elem]
            rfl
          · rfl
    · -- the left subtree is full and the right one takes the leaf
      have hlfull : leftLeaves.length = 2 ^ depth := hsplit.resolve_left hrne
      have hrroom : rightLeaves.length < 2 ^ depth := by omega
      have hdepth : 0 < depth := by
        have hpos := List.length_pos_iff.mpr hrne
        rcases depth with _ | depth
        · simp only [Nat.pow_zero] at hrroom
          omega
        · omega
      obtain ⟨right', hpush, hright'⟩ := ihr hdepth hrroom
      obtain ⟨depth, rfl⟩ : ∃ d, depth = d + 1 := ⟨depth - 1, by omega⟩
      obtain ⟨_, _, _, rfl⟩ := hright.eq_node_of_lt hrne (by omega)
      have hnode := Represents.node hleft hright' hne (.inr hlfull) hordered hopen
      rw [List.append_assoc]
      refine ⟨_, ?_, hnode⟩
      rcases hleft.eq_node_or_finalized hne with ⟨_, _, _, rfl⟩ | ⟨_, rfl⟩ <;>
        (rw [pushLeaf, hpush]; rfl)

/-- A push that finds no room leaves the tree as it was: at depth 0 every push is refused, and a
full tree refuses it with `MerkleTreeFull`, or with `FinalizedNodePushed` once wholly finalized. -/
theorem pushLeaf_fst_of_full (h : Represents hs t leaves f depth)
    (hfull : depth = 0 ∨ leaves.length = 2 ^ depth) (elem : H) :
    (pushLeaf hs t elem depth).1 = t := by
  rcases depth with _ | depth
  · cases t <;> rfl
  · have hfull : leaves.length = 2 ^ (depth + 1) := hfull.resolve_left (by omega)
    rcases Nat.lt_or_ge f (2 ^ (depth + 1)) with hf | hf
    · rw [h.pushLeaf_full (by omega) hfull hf elem]
    · rw [h.eq_finalized_of_all (by have := h.length_le; omega)]
      rfl

/-- A run of pushes keeps the leaves that fit: those past the capacity are refused and change
nothing, and at depth 0 the one leaf stays. By induction on the pushed leaves. -/
theorem pushLeaves_take (h : Represents hs t leaves f depth) (hleaf : depth = 0 → leaves ≠ [])
    (more : List H) :
    Represents hs (pushLeaves hs t more depth).1 ((leaves ++ more).take (2 ^ depth)) f depth := by
  induction more generalizing t leaves with
  | nil =>
    rw [List.append_nil, List.take_of_length_le h.length_le.2]
    exact h
  | cons elem more ih =>
    rw [pushLeaves_cons]
    by_cases hroom : 0 < depth ∧ leaves.length < 2 ^ depth
    · -- the leaf is added
      obtain ⟨t', hpush, ht'⟩ := h.pushLeaf_room hroom.1 hroom.2 elem
      have hrun := ih ht' (fun _ => by simp)
      rw [List.append_assoc, List.singleton_append] at hrun
      rw [hpush]
      exact hrun
    · -- the leaf is refused: the leaves that fit are those already there
      have hfull : depth = 0 ∨ leaves.length = 2 ^ depth := by
        have := h.length_le
        omega
      have htake : ∀ rest : List H, (leaves ++ rest).take (2 ^ depth) = leaves.take (2 ^ depth) := by
        intro rest
        rcases hfull with rfl | hlen
        · obtain ⟨a, rest', rfl⟩ := List.exists_cons_of_ne_nil (hleaf rfl)
          rfl
        · exact List.take_append_of_le_length hlen.ge
      rw [h.pushLeaf_fst_of_full hfull elem, htake, ← htake more]
      exact ih h hleaf

end Represents

end MerkleTree


/-! ## Proofs of the leaves of a created tree -/

/-- The bit that `generate_proof` and `merkle_root_from_branch` read at level `depth`. -/
theorem shiftRight_and_one (index depth : Nat) :
    (index >>> depth) &&& 1 = index / 2 ^ depth % 2 := by
  rw [Nat.and_one_is_mod, Nat.shiftRight_eq_div_pow]

variable {hs}

/-- Folding one more sibling, at the level above a branch of `depth` siblings. -/
theorem merkleRootFromBranch_append {branch : List H} {depth : Nat}
    (hlen : branch.length = depth) (leaf sibling : H) (index : Nat) :
    merkleRootFromBranch hs leaf (branch ++ [sibling]) (depth + 1) index =
      if (index >>> depth) &&& 1 = 1 then
        hs.concat sibling (merkleRootFromBranch hs leaf branch depth index)
      else hs.concat (merkleRootFromBranch hs leaf branch depth index) sibling := by
  have htake : (branch.zipIdx.take depth) = branch.zipIdx :=
    List.take_of_length_le (by simp [hlen])
  have htake_succ : ((branch ++ [sibling]).zipIdx.take (depth + 1)) =
      branch.zipIdx ++ [(sibling, depth)] := by
    rw [List.take_of_length_le (by simp [hlen]), List.zipIdx_append]
    simp [hlen]
  simp only [merkleRootFromBranch, htake, htake_succ, List.foldl_append, List.foldl_cons,
    List.foldl_nil]

namespace MerkleTree

/-- The walk of `generate_proof` down a created tree, from the position of the index below
`2 ^ depth`: it ends at the leaf there, with one sibling a level, and those siblings fold back
up to the root. By induction on the depth; at each level bit `depth` of the index picks the
side of the split at `2 ^ depth` that `create` made. -/
theorem proofLoop_create (index : Nat) : ∀ (depth : Nat) {leaves : List H} (proof : List H),
    leaves.length ≤ 2 ^ depth → ∀ (hpos : index % 2 ^ depth < leaves.length),
    ∃ siblings : List H, siblings.length = depth ∧
      proofLoop hs index (create hs leaves depth) depth proof =
        some (.ok (.leaf leaves[index % 2 ^ depth], proof ++ siblings)) ∧
      merkleRootFromBranch hs leaves[index % 2 ^ depth] siblings.reverse depth index =
        (create hs leaves depth).hash hs
  | 0, first :: rest, proof, _, _ =>
    ⟨[], rfl, by simp [proofLoop, Nat.mod_one], by simp [merkleRootFromBranch, hash, Nat.mod_one]⟩
  | depth + 1, leaves, proof, hlen, hpos => by
    have hne : leaves ≠ [] := List.ne_nil_of_length_pos (by omega)
    have hsplit : index % 2 ^ (depth + 1) = index % 2 ^ depth + 2 ^ depth * (index / 2 ^ depth % 2) :=
      Nat.mod_pow_succ
    have hlow : index % 2 ^ depth < 2 ^ depth := Nat.mod_lt _ (Nat.two_pow_pos depth)
    have hcap : 2 ^ (depth + 1) = 2 ^ depth + 2 ^ depth := by omega
    rw [create_succ hne depth]
    rcases Nat.mod_two_eq_zero_or_one (index / 2 ^ depth) with hbit | hbit
    · -- bit clear: the leaf is in the left subtree, and the right one is its top sibling
      have hleft : index % 2 ^ depth < (leaves.take (2 ^ depth)).length := by
        simp only [List.length_take]
        omega
      obtain ⟨siblings, hsl, hloop, hroot⟩ := proofLoop_create index depth
        (proof ++ [(create hs (leaves.drop (2 ^ depth)) depth).hash hs])
        (by simp only [List.length_take]; omega) hleft
      have hleaf : (leaves.take (2 ^ depth))[index % 2 ^ depth] = leaves[index % 2 ^ (depth + 1)] := by
        simp only [List.getElem_take, hsplit, hbit, Nat.mul_zero, Nat.add_zero]
      refine ⟨(create hs (leaves.drop (2 ^ depth)) depth).hash hs :: siblings, by simp [hsl], ?_, ?_⟩
      · simp only [proofLoop, rehash, leftAndRightBranches, shiftRight_and_one, hbit]
        rw [hloop, hleaf]
        simp
      · rw [List.reverse_cons, merkleRootFromBranch_append (by simp [hsl]), ← hleaf, hroot,
          shiftRight_and_one, hbit, if_neg Nat.zero_ne_one]
        rfl
    · -- bit set: the leaf is in the right subtree, and the left one is its top sibling
      rw [hbit, Nat.mul_one] at hsplit
      have hright : index % 2 ^ depth < (leaves.drop (2 ^ depth)).length := by
        simp only [List.length_drop]
        omega
      obtain ⟨siblings, hsl, hloop, hroot⟩ := proofLoop_create index depth
        (proof ++ [(create hs (leaves.take (2 ^ depth)) depth).hash hs])
        (by simp only [List.length_drop]; omega) hright
      have hleaf : (leaves.drop (2 ^ depth))[index % 2 ^ depth] = leaves[index % 2 ^ (depth + 1)] := by
        simp only [List.getElem_drop, hsplit, Nat.add_comm]
      refine ⟨(create hs (leaves.take (2 ^ depth)) depth).hash hs :: siblings, by simp [hsl], ?_, ?_⟩
      · simp only [proofLoop, rehash, leftAndRightBranches, shiftRight_and_one, hbit]
        rw [hloop, hleaf]
        simp
      · rw [List.reverse_cons, merkleRootFromBranch_append (by simp [hsl]), ← hleaf, hroot,
          shiftRight_and_one, hbit, if_pos rfl]
        rfl

/-- `generate_proof` on a created tree gives each leaf, with a branch that `verify_merkle_proof`
accepts against the root. -/
theorem generateProof_create [DecidableEq H] {depth : Nat} {leaves : List H}
    (hlen : leaves.length ≤ 2 ^ depth) {index : Nat} (hidx : index < leaves.length) :
    ∃ branch, (create hs leaves depth).generateProof hs index depth =
        some (.ok (leaves[index], branch)) ∧
      verifyMerkleProof hs leaves[index] branch depth index ((create hs leaves depth).hash hs) :=
  by
  have hmod : index % 2 ^ depth = index := Nat.mod_eq_of_lt (by omega)
  obtain ⟨siblings, hsl, hloop, hroot⟩ :=
    @proofLoop_create H hs index depth leaves [] hlen (by rw [hmod]; exact hidx)
  simp only [hmod] at hloop hroot
  refine ⟨siblings.reverse, ?_, ?_⟩
  · simp [generateProof, hloop, hsl, isLeaf, hash, Except.bind]
  · simp [verifyMerkleProof, hsl, hroot]

/-- The walk of `generate_proof` down a represented tree, to a position at or past its finalized
leaves: it ends at the leaf there, with one sibling a level, and they fold back up to the root.
It never meets a finalized node, which holds only leaves before the position. By induction on
the tree; at each node bit `depth` of the index picks the side. -/
theorem Represents.proofLoop_leaf {t : MerkleTree H} {leaves : List H} {f depth : Nat}
    (h : Represents hs t leaves f depth) (index : Nat) (proof : List H)
    (hfin : f ≤ index % 2 ^ depth) (hpos : index % 2 ^ depth < leaves.length) :
    ∃ siblings : List H, siblings.length = depth ∧
      proofLoop hs index t depth proof =
        some (.ok (.leaf leaves[index % 2 ^ depth], proof ++ siblings)) ∧
      merkleRootFromBranch hs leaves[index % 2 ^ depth] siblings.reverse depth index =
        t.hash hs := by
  induction h generalizing proof with
  | zero depth => simp at hpos
  | leaf a =>
    exact ⟨[], rfl, by simp [proofLoop, Nat.mod_one], by simp [merkleRootFromBranch, hash, Nat.mod_one]⟩
  | finalized _ =>
    have := Nat.mod_lt index (Nat.two_pow_pos depth)
    omega
  | @node left right leftLeaves rightLeaves fl fr depth hleft hright hne hsplit hordered _ ihl ihr =>
    have hl := hleft.length_le
    have hr := hright.length_le
    have hsplit' : index % 2 ^ (depth + 1) =
        index % 2 ^ depth + 2 ^ depth * (index / 2 ^ depth % 2) := Nat.mod_pow_succ
    have hlow : index % 2 ^ depth < 2 ^ depth := Nat.mod_lt _ (Nat.two_pow_pos depth)
    have hlen := hpos
    simp only [List.length_append] at hlen
    rcases Nat.mod_two_eq_zero_or_one (index / 2 ^ depth) with hbit | hbit
    · -- bit clear: the leaf is in the left subtree, and the right one is its top sibling
      rw [hbit, Nat.mul_zero, Nat.add_zero] at hsplit'
      have hleftpos : index % 2 ^ depth < leftLeaves.length := by
        rcases hsplit with rfl | _
        · simp only [List.length_nil, Nat.add_zero] at hlen
          omega
        · omega
      obtain ⟨siblings, hsl, hloop, hroot⟩ := ihl (proof ++ [right.hash hs]) (by omega) hleftpos
      have hleaf : (leftLeaves ++ rightLeaves)[index % 2 ^ (depth + 1)] =
          leftLeaves[index % 2 ^ depth] := by
        simp only [hsplit']
        exact List.getElem_append_left hleftpos
      refine ⟨right.hash hs :: siblings, by simp [hsl], ?_, ?_⟩
      · simp only [proofLoop, leftAndRightBranches, shiftRight_and_one, hbit]
        rw [hloop, hleaf]
        simp
      · rw [hleaf, List.reverse_cons, merkleRootFromBranch_append (by simp [hsl]), hroot,
          shiftRight_and_one, hbit, if_neg Nat.zero_ne_one]
        rfl
    · -- bit set: the leaf is in the right subtree, and the left one is its top sibling
      rw [hbit, Nat.mul_one] at hsplit'
      have hlfull : leftLeaves.length = 2 ^ depth := by
        rcases hsplit with rfl | hlfull
        · simp only [List.length_nil, Nat.add_zero] at hlen
          omega
        · exact hlfull
      have hrightpos : index % 2 ^ depth < rightLeaves.length := by omega
      obtain ⟨siblings, hsl, hloop, hroot⟩ := ihr (proof ++ [left.hash hs]) (by omega) hrightpos
      have hleaf : (leftLeaves ++ rightLeaves)[index % 2 ^ (depth + 1)] =
          rightLeaves[index % 2 ^ depth] := by
        simp only [hsplit']
        rw [List.getElem_append_right (by omega)]
        simp only [hlfull, Nat.add_sub_cancel]
      refine ⟨left.hash hs :: siblings, by simp [hsl], ?_, ?_⟩
      · simp only [proofLoop, leftAndRightBranches, shiftRight_and_one, hbit]
        rw [hloop, hleaf]
        simp
      · rw [hleaf, List.reverse_cons, merkleRootFromBranch_append (by simp [hsl]), hroot,
          shiftRight_and_one, hbit, if_pos rfl]
        rfl

/-- `generate_proof` on a represented tree gives each leaf at or past the finalized ones, with a
branch that `verify_merkle_proof` accepts against the root. -/
theorem Represents.generateProof_leaf [DecidableEq H] {t : MerkleTree H} {leaves : List H}
    {f depth : Nat} (h : Represents hs t leaves f depth) {index : Nat} (hfin : f ≤ index)
    (hidx : index < leaves.length) :
    ∃ branch, t.generateProof hs index depth = some (.ok (leaves[index], branch)) ∧
      verifyMerkleProof hs leaves[index] branch depth index (t.hash hs) := by
  have hmod : index % 2 ^ depth = index := Nat.mod_eq_of_lt (by have := h.length_le; omega)
  obtain ⟨siblings, hsl, hloop, hroot⟩ :=
    h.proofLoop_leaf index [] (by rw [hmod]; exact hfin) (by rw [hmod]; exact hidx)
  simp only [hmod] at hloop hroot
  refine ⟨siblings.reverse, ?_, ?_⟩
  · simp [generateProof, hloop, hsl, isLeaf, hash, Except.bind]
  · simp [verifyMerkleProof, hsl, hroot]

end MerkleTree


/-! ## Pushes and batch construction agree -/

open MerkleTree

variable (hs)

/-- Pushing the leaves one by one into the empty tree of depth `depth ≥ 1` builds the tree that
`create` builds from all of them at once, each push returning `Ok`; a push into that tree once
it is full fails with `MerkleTreeFull` and changes nothing; and on either tree `generate_proof`
gives every leaf with a branch that `verify_merkle_proof` accepts against the root. The zero
hashes are computed at every depth here, where `ZERO_NODES` is a table up to depth 32. -/
theorem push_leaf_agrees_with_create [DecidableEq H] {depth : Nat} (hdepth : 1 ≤ depth)
    {leaves : List H} (hlen : leaves.length ≤ 2 ^ depth) :
    pushLeaves hs (create hs [] depth) leaves depth =
        (create hs leaves depth, leaves.map fun _ => .ok ()) ∧
      (leaves.length = 2 ^ depth → ∀ elem,
        pushLeaf hs (create hs leaves depth) elem depth =
          (create hs leaves depth, .error .merkleTreeFull)) ∧
      ∀ t ∈ [create hs leaves depth, (pushLeaves hs (create hs [] depth) leaves depth).1],
        ∀ index (hidx : index < leaves.length), ∃ branch,
          t.generateProof hs index depth = some (.ok (leaves[index], branch)) ∧
          verifyMerkleProof hs leaves[index] branch depth index (t.hash hs) := by
  have hpush := @pushLeaves_zero H hs depth hdepth leaves hlen
  refine ⟨hpush, ?_, ?_⟩
  · -- the full tree is above the leaves, so `pushLeaf_create_full` applies one level down
    obtain ⟨depth, rfl⟩ : ∃ d, depth = d + 1 := ⟨depth - 1, by omega⟩
    exact pushLeaf_create_full depth
  · intro t ht index hidx
    -- both trees are the created one
    have hcreate : t = create hs leaves depth := by
      simp only [hpush, List.mem_cons, List.not_mem_nil, or_false, or_self] at ht
      exact ht
    subst hcreate
    exact generateProof_create hlen hidx

/-- A hasher on numbers, for the sample below. -/
def sampleHasher : Hasher Nat := ⟨fun left right => 2 * left + right + 1, 0⟩

theorem push_leaf_agrees_with_create_pair :
    1 ≤ 1 ∧ [7, 9].length ≤ 2 ^ 1 ∧
      pushLeaves sampleHasher (create sampleHasher [] 1) [7, 9] 1 =
        (create sampleHasher [7, 9] 1, [.ok (), .ok ()]) :=
  ⟨by decide, by decide, (push_leaf_agrees_with_create sampleHasher (by decide) (by decide)).1⟩

end Vibehouse.MerkleProof
