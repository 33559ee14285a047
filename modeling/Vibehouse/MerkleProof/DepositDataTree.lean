import Mathlib
import Vibehouse.MerkleProof.Finalize
import Vibehouse.Lib.MachineInt

/-! # The deposit tree, its finalization and its snapshot

`consensus/state_processing/src/common/deposit_data_tree.rs`: `DepositDataTree` wraps the Merkle
tree of deposits with their count, which `root` mixes in (`hash32_concat` of the tree's hash and
`int_to_bytes32` of the count: the root of an SSZ list) and `generate_proof` appends as the top
sibling; `push_leaf` pushes into the tree and counts; `finalize` finalizes the tree up to the
count of a finalized execution block and records the block; `get_snapshot` and `from_snapshot`
store and restore the finalized part. `consensus/types/src/deposit_tree_snapshot.rs`:
`DepositTreeSnapshot::calculate_root` recomputes the deposit root from the finalized hashes
alone, bottom-up along the bits of the count, and `is_valid` compares it with the recorded root.

A tree that stands for a list of deposits (`Tracks`) has that list's root as its root and a proof
for each deposit not finalized, and every call of a run that pushes while there is room and
finalizes forward keeps it so (`Tracks.runCalls`). The root that `calculate_root` computes from a
snapshot is the root of the finalized deposits (`Represents.calculateRoot`): the finalized
hashes, read from the last, are the left siblings along the path of the first deposit not
finalized. -/

namespace Vibehouse.MerkleProof

open MachineInt MerkleTree

/-- `DEPOSIT_TREE_DEPTH`. -/
def depositTreeDepth : Nat := 32

/-- `FinalizedExecutionBlock`. -/
structure FinalizedExecutionBlock (H : Type) where
  depositRoot : H
  depositCount : Nat
  blockHash : H
  blockHeight : Nat
  deriving DecidableEq, Repr

/-- `DepositTreeSnapshot`. -/
structure DepositTreeSnapshot (H : Type) where
  finalized : List H
  depositRoot : H
  depositCount : Nat
  executionBlockHash : H
  executionBlockHeight : Nat
  deriving DecidableEq, Repr

/-- `From<&DepositTreeSnapshot> for FinalizedExecutionBlock`. -/
def FinalizedExecutionBlock.ofSnapshot {H : Type} (snapshot : DepositTreeSnapshot H) :
    FinalizedExecutionBlock H :=
  ⟨snapshot.depositRoot, snapshot.depositCount, snapshot.executionBlockHash,
    snapshot.executionBlockHeight⟩

/-- The errors of `DepositDataTree`: those of the tree, and `MerkleTreeError::ArithError`, which
only the `safe_add_assign` on the count returns here. -/
inductive DepositTreeError
  | merkleTree (e : MerkleTreeError)
  | arithError
  deriving DecidableEq, Repr

/-- `DepositDataTree`. -/
structure DepositDataTree (H : Type) where
  tree : MerkleTree H
  mixInLength : Nat
  finalizedExecutionBlock : Option (FinalizedExecutionBlock H)
  depth : Nat
  deriving DecidableEq, Repr

variable {H : Type} (hs : Hasher H) (intToBytes32 : Nat → H)

/-- The root that a list of deposits commits to: the root of their tree of depth `depth`, with
their count mixed in, as the root of an SSZ list of at most `2 ^ depth` deposits. -/
def depositsRoot (leaves : List H) (depth : Nat) : H :=
  hs.concat ((create hs leaves depth).hash hs) (intToBytes32 leaves.length)

namespace DepositTreeSnapshot

/-- A pass of the loop of `calculate_root` at `height`, on `(size, index, deposit_root)`; `none`
where a `?` returns. `ZERO_HASHES` has an entry at every height below `DEPOSIT_TREE_DEPTH`. -/
def calculateRootStep (finalized : List H) : Nat × Nat × H → Nat → Option (Nat × Nat × H)
  | (size, index, depositRoot), height =>
    if size &&& 1 = 1 then do
      let index ← uCheckedSub index 1
      let hash ← finalized[index]?
      pure (size / 2, index, hs.concat hash depositRoot)
    else pure (size / 2, index, hs.concat depositRoot (zeroHash hs height))

/-- `calculate_root`. The loop starts from the zero leaf, `[0; 32]`. -/
def calculateRoot (snapshot : DepositTreeSnapshot H) : Option H := do
  let (_, _, depositRoot) ← (List.range depositTreeDepth).foldlM
    (calculateRootStep hs snapshot.finalized)
    (snapshot.depositCount, snapshot.finalized.length, hs.zeroLeaf)
  pure (hs.concat depositRoot (intToBytes32 snapshot.depositCount))

/-- `is_valid`. -/
def isValid [DecidableEq H] (snapshot : DepositTreeSnapshot H) : Bool :=
  decide (snapshot.calculateRoot hs intToBytes32 = some snapshot.depositRoot)

end DepositTreeSnapshot

namespace DepositDataTree

/-- `create`. -/
def create (leaves : List H) (mixInLength depth : Nat) : DepositDataTree H :=
  ⟨MerkleTree.create hs leaves depth, mixInLength, none, depth⟩

/-- `length_bytes`. -/
def lengthBytes (self : DepositDataTree H) : H := intToBytes32 self.mixInLength

/-- `root`: the 64-byte preimage of the tree's hash and the length bytes, hashed. -/
def root (self : DepositDataTree H) : H :=
  hs.concat (self.tree.hash hs) (self.lengthBytes intToBytes32)

/-- `generate_proof`: the proof of the tree, with the length bytes pushed on top; `none` where
the tree's panics. -/
def generateProof (self : DepositDataTree H) (index : Nat) :
    Option (Except MerkleTreeError (H × List H)) :=
  (self.tree.generateProof hs index self.depth).map fun result =>
    result.map fun (root, proof) => (root, proof ++ [self.lengthBytes intToBytes32])

/-- `push_leaf`: the tree after the call and its result. A failed push keeps what the push into
the tree did; the count is a `usize`. -/
def pushLeaf (self : DepositDataTree H) (leaf : H) :
    DepositDataTree H × Except DepositTreeError Unit :=
  match MerkleTree.pushLeaf hs self.tree leaf self.depth with
  | (tree, .error e) => ({ self with tree := tree }, .error (.merkleTree e))
  | (tree, .ok ()) =>
    match uCheckedAdd 64 self.mixInLength 1 with
    | none => ({ self with tree := tree }, .error .arithError)
    | some mixInLength => ({ self with tree := tree, mixInLength := mixInLength }, .ok ())

/-- `finalize`: the tree finalized up to the block's count, and the block recorded once that
succeeds. -/
def finalize (self : DepositDataTree H) (finalizedExecutionBlock : FinalizedExecutionBlock H) :
    DepositDataTree H × Except DepositTreeError Unit :=
  match finalizeDeposits self.tree finalizedExecutionBlock.depositCount self.depth with
  | (tree, .error e) => ({ self with tree := tree }, .error (.merkleTree e))
  | (tree, .ok ()) =>
    ({ self with tree := tree, finalizedExecutionBlock := some finalizedExecutionBlock }, .ok ())

/-- `get_snapshot`. -/
def getSnapshot (self : DepositDataTree H) : Option (DepositTreeSnapshot H) := do
  let finalizedExecutionBlock ← self.finalizedExecutionBlock
  pure ⟨getFinalizedHashes self.tree, finalizedExecutionBlock.depositRoot,
    finalizedExecutionBlock.depositCount, finalizedExecutionBlock.blockHash,
    finalizedExecutionBlock.blockHeight⟩

/-- `from_snapshot`. -/
def fromSnapshot (snapshot : DepositTreeSnapshot H) (depth : Nat) :
    Except MerkleTreeError (DepositDataTree H) := do
  let tree ← fromFinalizedSnapshot hs snapshot.finalized snapshot.depositCount depth
  pure ⟨tree, snapshot.depositCount, some (.ofSnapshot snapshot), depth⟩

/-- The count of finalized deposits: that of the recorded block, none before one. -/
def finalizedCount (self : DepositDataTree H) : Nat :=
  match self.finalizedExecutionBlock with
  | none => 0
  | some block => block.depositCount

end DepositDataTree


/-! ## The tree of the finalized deposits, level by level -/

namespace MerkleTree

variable {hs}

/-- One level above leaves that fit on the left, the right subtree is zero. -/
theorem hash_create_succ_of_length_le {leaves : List H} {depth : Nat}
    (hlen : leaves.length ≤ 2 ^ depth) :
    (create hs leaves (depth + 1)).hash hs =
      hs.concat ((create hs leaves depth).hash hs) (zeroHash hs depth) := by
  rcases eq_or_ne leaves [] with rfl | hne
  · simp only [create_nil, hash]
    rfl
  · rw [create_succ hne depth, List.take_of_length_le hlen, List.drop_of_length_le hlen, create_nil]
    rfl

/-- One level above a full left subtree, the right one takes the leaves past it. -/
theorem hash_create_append_of_length_eq {left right : List H} {depth : Nat}
    (hlen : left.length = 2 ^ depth) :
    (create hs (left ++ right) (depth + 1)).hash hs =
      hs.concat ((create hs left depth).hash hs) ((create hs right depth).hash hs) := by
  have hne : left ++ right ≠ [] := List.ne_nil_of_length_pos (by
    rw [List.length_append, hlen]
    have := Nat.two_pow_pos depth
    omega)
  rw [create_succ hne depth, ← hlen, List.take_left, List.drop_left]
  rfl

end MerkleTree


/-! ## `calculate_root` computes the root of the finalized deposits

The loop reads the bits of the count from the lowest. At height `h` it holds the root of the
subtree of height `h` that contains the first deposit not finalized; where bit `h` is set, that
subtree is a right child whose left sibling is wholly finalized, and its hash is the last of the
finalized hashes not yet read. By induction on the tree, top-down: the loop over the heights
below the top is the loop of one subtree, and the top height adds the other. -/

namespace DepositTreeSnapshot

variable {hs}

/-- Bit `depth` of `size` splits its low `depth + 1` bits into the low `depth` and `2 ^ depth`. -/
theorem mod_two_pow_succ_cases (size depth : Nat) :
    (size / 2 ^ depth % 2 = 0 ∧ size % 2 ^ (depth + 1) = size % 2 ^ depth) ∨
      (size / 2 ^ depth % 2 = 1 ∧ size % 2 ^ (depth + 1) = size % 2 ^ depth + 2 ^ depth) := by
  rw [Nat.mod_pow_succ]
  rcases Nat.mod_two_eq_zero_or_one (size / 2 ^ depth) with hbit | hbit <;> simp [hbit]

/-- A set bit takes the last finalized hash not read as the left sibling. -/
theorem calculateRootStep_odd {finalized : List H} {size index : Nat} {hash : H}
    (hbit : size % 2 = 1) (hhash : finalized[index]? = some hash) (root : H) (height : Nat) :
    calculateRootStep hs finalized (size, index + 1, root) height =
      some (size / 2, index, hs.concat hash root) := by
  simp [calculateRootStep, Nat.and_one_is_mod, hbit, uCheckedSub, hhash]

/-- A clear bit takes the zero subtree as the right sibling. -/
theorem calculateRootStep_even (finalized : List H) {size : Nat} (hbit : size % 2 = 0)
    (index : Nat) (root : H) (height : Nat) :
    calculateRootStep hs finalized (size, index, root) height =
      some (size / 2, index, hs.concat root (zeroHash hs height)) := by
  simp [calculateRootStep, Nat.and_one_is_mod, hbit]

/-- The loop over one more height is the loop, then the pass at that height. -/
theorem foldlM_range_succ (finalized : List H) (state : Nat × Nat × H) (depth : Nat) :
    (List.range (depth + 1)).foldlM (calculateRootStep hs finalized) state =
      (List.range depth).foldlM (calculateRootStep hs finalized) state >>= fun state =>
        calculateRootStep hs finalized state depth := by
  rw [List.range_succ, List.foldlM_append]
  simp only [List.foldlM_cons, List.foldlM_nil, bind_pure]

/-- With no bit set below `depth`, the loop climbs the zero subtrees and reads no hash. By
induction on the depth. -/
theorem foldlM_calculateRootStep_zero (finalized : List H) (index : Nat) :
    ∀ (depth : Nat) {size : Nat}, size % 2 ^ depth = 0 →
      (List.range depth).foldlM (calculateRootStep hs finalized) (size, index, hs.zeroLeaf) =
        some (size / 2 ^ depth, index, zeroHash hs depth)
  | 0, size, _ => by simp [zeroHash]
  | depth + 1, size, hsize => by
    obtain ⟨hbit, hlow⟩ : size / 2 ^ depth % 2 = 0 ∧ size % 2 ^ depth = 0 := by
      have hpos := Nat.two_pow_pos depth
      rcases mod_two_pow_succ_cases size depth with ⟨hbit, hmod⟩ | ⟨-, hmod⟩ <;> omega
    rw [foldlM_range_succ, foldlM_calculateRootStep_zero finalized index depth hlow]
    simp only [Option.bind_eq_bind, Option.bind_some]
    rw [calculateRootStep_even finalized hbit, Nat.div_div_eq_div_mul, ← Nat.pow_succ]
    rfl

end DepositTreeSnapshot

namespace MerkleTree

namespace Represents

open DepositTreeSnapshot

variable {hs} {t : MerkleTree H} {leaves : List H} {f depth : Nat}

/-- The loop of `calculate_root` over the heights of a tree with fewer than `2 ^ depth` of its
leaves finalized, from a count whose low bits are that number, on its finalized hashes after any
others: it reads those hashes from the last, and ends with the root of the finalized leaves. -/
theorem foldlM_calculateRootStep (h : Represents hs t leaves f depth) (hf : f < 2 ^ depth) :
    ∀ (pre : List H) {size : Nat}, size % 2 ^ depth = f →
      (List.range depth).foldlM (calculateRootStep hs (pre ++ getFinalizedHashes t))
          (size, pre.length + (getFinalizedHashes t).length, hs.zeroLeaf) =
        some (size / 2 ^ depth, pre.length, (create hs (leaves.take f) depth).hash hs) := by
  induction h with
  | zero depth =>
    intro pre size hsize
    simp only [getFinalizedHashes_zero, List.append_nil, List.length_nil, Nat.add_zero,
      List.take_nil, create_nil]
    exact foldlM_calculateRootStep_zero _ _ depth hsize
  | leaf a =>
    intro pre size _
    simp [zeroHash, hash]
  | finalized _ => omega
  | @node left right leftLeaves rightLeaves fl fr depth hleft hright hne hsplit hordered hopen
      ihl ihr =>
    intro pre size hsize
    have hl := hleft.length_le
    have hpos := Nat.two_pow_pos depth
    rw [getFinalizedHashes_node, foldlM_range_succ]
    rcases Nat.lt_or_ge fl (2 ^ depth) with hfl | hfl
    · -- the left subtree is not wholly finalized: the right one has nothing finalized, and bit
      -- `depth` of the count is clear
      have hfr : fr = 0 := hordered.resolve_right (by omega)
      subst hfr
      obtain ⟨hbit, hlow⟩ : size / 2 ^ depth % 2 = 0 ∧ size % 2 ^ depth = fl := by
        rcases mod_two_pow_succ_cases size depth with ⟨hbit, hmod⟩ | ⟨-, hmod⟩ <;> omega
      rw [hright.getFinalizedHashes_eq_nil rfl, List.append_nil, ihl hfl pre hlow]
      simp only [Option.bind_eq_bind, Option.bind_some]
      have htake : (leftLeaves ++ rightLeaves).take (fl + 0) = leftLeaves.take fl :=
        List.take_append_of_le_length (by omega)
      rw [calculateRootStep_even _ hbit, htake,
        hash_create_succ_of_length_le (by simp only [List.length_take]; omega),
        Nat.div_div_eq_div_mul, ← Nat.pow_succ]
    · -- the left subtree is wholly finalized: it is the first hash read last, and bit `depth`
      -- of the count is set
      have hfl' : fl = 2 ^ depth := by omega
      have hlfull : leftLeaves.length = 2 ^ depth := by omega
      obtain ⟨hbit, hlow⟩ : size / 2 ^ depth % 2 = 1 ∧ size % 2 ^ depth = fr := by
        rcases mod_two_pow_succ_cases size depth with ⟨-, hmod⟩ | ⟨hbit, hmod⟩ <;> omega
      rw [hleft.eq_finalized_of_all hfl', getFinalizedHashes_finalized, ← List.append_assoc]
      have hlen : pre.length + ([(create hs leftLeaves depth).hash hs] ++
          getFinalizedHashes right).length =
          (pre ++ [(create hs leftLeaves depth).hash hs]).length +
            (getFinalizedHashes right).length := by
        simp only [List.length_append, List.length_singleton]
        omega
      rw [hlen, ihr (by omega) _ hlow]
      simp only [Option.bind_eq_bind, Option.bind_some, List.length_append, List.length_singleton]
      have hhash : (pre ++ [(create hs leftLeaves depth).hash hs] ++ getFinalizedHashes right)[
          pre.length]? = some ((create hs leftLeaves depth).hash hs) := by
        simp
      have htake : (leftLeaves ++ rightLeaves).take (fl + fr) = leftLeaves ++ rightLeaves.take fr := by
        rw [List.take_append, List.take_of_length_le (by omega), hlfull, hfl',
          Nat.add_sub_cancel_left]
      rw [calculateRootStep_odd hbit hhash, htake, hash_create_append_of_length_eq hlfull,
        Nat.div_div_eq_div_mul, ← Nat.pow_succ]

/-- `calculate_root` on the finalized hashes of a tree of `DEPOSIT_TREE_DEPTH`, with the count of
its finalized deposits, fewer than its capacity: the root of those deposits. -/
theorem calculateRoot (h : Represents hs t leaves f depositTreeDepth)
    (hf : f < 2 ^ depositTreeDepth) (depositRoot executionBlockHash : H)
    (executionBlockHeight : Nat) :
    DepositTreeSnapshot.calculateRoot hs intToBytes32
        ⟨getFinalizedHashes t, depositRoot, f, executionBlockHash, executionBlockHeight⟩ =
      some (depositsRoot hs intToBytes32 (leaves.take f) depositTreeDepth) := by
  have hloop := h.foldlM_calculateRootStep hf [] (Nat.mod_eq_of_lt hf)
  rw [List.nil_append, List.length_nil, Nat.zero_add] at hloop
  have hlen : (leaves.take f).length = f := by
    rw [List.length_take]
    exact Nat.min_eq_left h.length_le.1
  simp only [DepositTreeSnapshot.calculateRoot, hloop, depositsRoot, hlen]
  rfl

end Represents

end MerkleTree


/-! ## A deposit tree that stands for a list of deposits -/

namespace DepositDataTree

variable {hs intToBytes32}

@[simp] theorem finalizedCount_of_eq_some {self : DepositDataTree H}
    {block : FinalizedExecutionBlock H} (hblock : self.finalizedExecutionBlock = some block) :
    self.finalizedCount = block.depositCount := by
  simp [finalizedCount, hblock]

variable (hs) in
/-- The tree stands for the deposits `leaves`: its tree is a tree of them with the deposits the
recorded block counts finalized, none before one, and it counts them. -/
structure Tracks (depositTree : DepositDataTree H) (leaves : List H) : Prop where
  represents : Represents hs depositTree.tree leaves depositTree.finalizedCount depositTree.depth
  mixInLength_eq : depositTree.mixInLength = leaves.length
  depth_pos : 0 < depositTree.depth

variable {self : DepositDataTree H} {leaves : List H}

/-- `create` with the count of its leaves, which fit. -/
theorem tracks_create {leaves : List H} {depth : Nat} (hdepth : 0 < depth)
    (hlen : leaves.length ≤ 2 ^ depth) :
    Tracks hs (create hs leaves leaves.length depth) leaves :=
  ⟨represents_create depth leaves hlen, rfl, hdepth⟩

namespace Tracks

/-- The root is the root of the deposits. -/
theorem root_eq (h : Tracks hs self leaves) :
    self.root hs intToBytes32 = depositsRoot hs intToBytes32 leaves self.depth := by
  rw [root, lengthBytes, h.represents.hash_eq, h.mixInLength_eq]
  rfl

/-- A proof of a leaf under `root` at `depth`, with one more sibling on the right at the top, is a
proof under their hash at `depth + 1`: an index below `2 ^ depth` has bit `depth` clear. -/
theorem verifyMerkleProof_append [DecidableEq H] {leaf root : H} {branch : List H}
    {depth index : Nat} (hverify : verifyMerkleProof hs leaf branch depth index root = true)
    (hidx : index < 2 ^ depth) (sibling : H) :
    verifyMerkleProof hs leaf (branch ++ [sibling]) (depth + 1) index (hs.concat root sibling) =
      true := by
  unfold verifyMerkleProof at hverify ⊢
  split at hverify
  · rename_i hlen
    have hroot : merkleRootFromBranch hs leaf branch depth index = root := by simpa using hverify
    have hbit : ¬(index >>> depth) &&& 1 = 1 := by
      rw [shiftRight_and_one, Nat.div_eq_of_lt hidx]
      decide
    rw [if_pos (by simp [hlen]), merkleRootFromBranch_append hlen, if_neg hbit, hroot]
    simp
  · cases hverify

variable (intToBytes32) in
/-- Every deposit not finalized has a proof that `verify_merkle_proof` accepts at one level
above the tree, against the root: the check that deposit processing makes. -/
theorem generateProof [DecidableEq H] (h : Tracks hs self leaves) {index : Nat}
    (hfin : self.finalizedCount ≤ index) (hidx : index < leaves.length) :
    ∃ branch, self.generateProof hs intToBytes32 index = some (.ok (leaves[index], branch)) ∧
      verifyMerkleProof hs leaves[index] branch (self.depth + 1) index
        (self.root hs intToBytes32) = true := by
  obtain ⟨branch, hproof, hverify⟩ := h.represents.generateProof_leaf hfin hidx
  refine ⟨branch ++ [self.lengthBytes intToBytes32], ?_, ?_⟩
  · simp [DepositDataTree.generateProof, hproof, Except.map]
  · exact verifyMerkleProof_append hverify (by have := h.represents.length_le; omega) _

/-- A push into a tree with room succeeds, and the tree stands for the deposits with the new one. -/
theorem pushLeaf (h : Tracks hs self leaves) (hroom : leaves.length < 2 ^ self.depth)
    (hcount : leaves.length + 1 < 2 ^ 64) (leaf : H) :
    ∃ self', self.pushLeaf hs leaf = (self', .ok ()) ∧ Tracks hs self' (leaves ++ [leaf]) ∧
      self'.finalizedCount = self.finalizedCount ∧ self'.depth = self.depth := by
  obtain ⟨tree, hpush, htree⟩ := h.represents.pushLeaf_room h.depth_pos hroom leaf
  have hadd : uCheckedAdd 64 self.mixInLength 1 = some (leaves.length + 1) := by
    rw [h.mixInLength_eq, uCheckedAdd, if_pos hcount]
  refine ⟨{ self with tree := tree, mixInLength := leaves.length + 1 }, ?_,
    ⟨htree, by simp, h.depth_pos⟩, rfl, rfl⟩
  simp only [DepositDataTree.pushLeaf, hpush, hadd]

/-- A push into a full tree fails and leaves it as it was. -/
theorem pushLeaf_full (h : Tracks hs self leaves) (hfull : leaves.length = 2 ^ self.depth)
    (leaf : H) :
    (self.pushLeaf hs leaf).1 = self ∧ ∃ e, (self.pushLeaf hs leaf).2 = .error (.merkleTree e) := by
  have hrefused : ∃ e, MerkleTree.pushLeaf hs self.tree leaf self.depth = (self.tree, .error e) := by
    rcases Nat.lt_or_ge self.finalizedCount (2 ^ self.depth) with hf | hf
    · exact ⟨_, h.represents.pushLeaf_full h.depth_pos hfull hf leaf⟩
    · -- wholly finalized: one finalized node, which refuses the push
      obtain ⟨depth, hdepth⟩ : ∃ d, self.depth = d + 1 := ⟨self.depth - 1, by have := h.depth_pos; omega⟩
      rw [h.represents.eq_finalized_of_all (by have := h.represents.length_le; omega), hdepth]
      exact ⟨_, rfl⟩
  obtain ⟨e, he⟩ := hrefused
  simp [DepositDataTree.pushLeaf, he]

/-- Finalizing forward, as far as at most the deposits there are, succeeds, and the tree stands
for the same deposits with the block's count finalized. -/
theorem finalize (h : Tracks hs self leaves) {block : FinalizedExecutionBlock H}
    (hk : 1 ≤ block.depositCount) (hfk : self.finalizedCount ≤ block.depositCount)
    (hkl : block.depositCount ≤ leaves.length) :
    ∃ self', self.finalize block = (self', .ok ()) ∧ Tracks hs self' leaves ∧
      self'.finalizedExecutionBlock = some block ∧ self'.depth = self.depth := by
  obtain ⟨tree, hfin, htree⟩ := h.represents.finalizeDeposits_represents hk hfk hkl
  refine ⟨{ self with tree := tree, finalizedExecutionBlock := some block }, ?_,
    ⟨htree, h.mixInLength_eq, h.depth_pos⟩, rfl, rfl⟩
  simp only [DepositDataTree.finalize, hfin]

/-- The snapshot of a tree of `DEPOSIT_TREE_DEPTH` with a recorded block whose count is below the
capacity is valid exactly when the block's root is the root of the deposits it counts: the root
`calculate_root` computes is that one. -/
theorem getSnapshot_isValid [DecidableEq H] (h : Tracks hs self leaves)
    (hdepth : self.depth = depositTreeDepth) {block : FinalizedExecutionBlock H}
    (hblock : self.finalizedExecutionBlock = some block)
    (hcount : block.depositCount < 2 ^ depositTreeDepth) :
    ∃ snapshot, self.getSnapshot = some snapshot ∧
      (snapshot.isValid hs intToBytes32 = true ↔
        block.depositRoot = depositsRoot hs intToBytes32 (leaves.take block.depositCount)
          depositTreeDepth) := by
  have hrep := h.represents
  rw [finalizedCount_of_eq_some hblock, hdepth] at hrep
  refine ⟨⟨getFinalizedHashes self.tree, block.depositRoot, block.depositCount, block.blockHash,
    block.blockHeight⟩, by simp [getSnapshot, hblock], ?_⟩
  rw [DepositTreeSnapshot.isValid, hrep.calculateRoot intToBytes32 hcount, decide_eq_true_iff,
    Option.some_inj]
  exact eq_comm

/-- `from_snapshot` restores from the snapshot a tree that stands for the finalized deposits, all
finalized, with the same block recorded. -/
theorem fromSnapshot (h : Tracks hs self leaves) {snapshot : DepositTreeSnapshot H}
    (hsnap : self.getSnapshot = some snapshot) :
    ∃ restored, DepositDataTree.fromSnapshot hs snapshot self.depth = .ok restored ∧
      Tracks hs restored (leaves.take self.finalizedCount) ∧
      restored.finalizedExecutionBlock = self.finalizedExecutionBlock ∧
      restored.depth = self.depth := by
  obtain ⟨block, hblock, rfl⟩ : ∃ block, self.finalizedExecutionBlock = some block ∧
      snapshot = ⟨getFinalizedHashes self.tree, block.depositRoot, block.depositCount,
        block.blockHash, block.blockHeight⟩ := by
    cases hb : self.finalizedExecutionBlock with
    | none => simp [getSnapshot, hb] at hsnap
    | some block =>
      simp only [getSnapshot, hb, Option.bind_eq_bind, Option.bind_some, Option.pure_def,
        Option.some_inj] at hsnap
      exact ⟨block, rfl, hsnap.symm⟩
  have hcount := finalizedCount_of_eq_some hblock
  obtain ⟨tree, hrestore, hrep⟩ := h.represents.fromFinalizedSnapshot_represents
  rw [hcount] at hrestore hrep
  have hlen : (leaves.take block.depositCount).length = block.depositCount := by
    rw [List.length_take]
    exact Nat.min_eq_left (hcount ▸ h.represents.length_le.1)
  rw [hcount, hblock]
  refine ⟨⟨tree, block.depositCount, some block, self.depth⟩, ?_, ⟨hrep, hlen.symm, h.depth_pos⟩,
    rfl, rfl⟩
  simp only [DepositDataTree.fromSnapshot, hrestore]
  rfl

end Tracks

end DepositDataTree


/-! ## Runs of calls -/

/-- The calls that change a deposit tree. -/
inductive DepositCall (H : Type)
  | pushLeaf (leaf : H)
  | finalize (finalizedExecutionBlock : FinalizedExecutionBlock H)

namespace DepositCall

/-- The call made. -/
def exec : DepositCall H → DepositDataTree H → DepositDataTree H × Except DepositTreeError Unit
  | pushLeaf deposit, self => self.pushLeaf hs deposit
  | finalize block, self => self.finalize block

/-- The deposits after the call: a push adds its leaf. -/
def deposits : DepositCall H → List H → List H
  | pushLeaf deposit, leaves => leaves ++ [deposit]
  | finalize _, leaves => leaves

/-- The calls that keep a tree of `leaves` sound: a push while there is room, and a finalization
of at least one deposit, of no fewer than are finalized and no more than there are. -/
def Allowed (self : DepositDataTree H) (leaves : List H) : DepositCall H → Prop
  | pushLeaf _ => leaves.length < 2 ^ self.depth ∧ leaves.length + 1 < 2 ^ 64
  | finalize block => 1 ≤ block.depositCount ∧ self.finalizedCount ≤ block.depositCount ∧
      block.depositCount ≤ leaves.length

end DepositCall

namespace DepositDataTree

/-- The calls made one after another, with the result of each. -/
def runCalls (self : DepositDataTree H) :
    List (DepositCall H) → DepositDataTree H × List (Except DepositTreeError Unit)
  | [] => (self, [])
  | call :: calls =>
    let step := call.exec hs self
    let rest := runCalls step.1 calls
    (rest.1, step.2 :: rest.2)

/-- The deposits after the calls. -/
def depositsAfter (leaves : List H) (calls : List (DepositCall H)) : List H :=
  calls.foldl (fun leaves call => call.deposits leaves) leaves

/-- Each call is allowed where it is made. -/
def AllowedRun (self : DepositDataTree H) (leaves : List H) : List (DepositCall H) → Prop
  | [] => True
  | call :: calls =>
    call.Allowed self leaves ∧ AllowedRun (call.exec hs self).1 (call.deposits leaves) calls

variable {hs intToBytes32} {self : DepositDataTree H} {leaves : List H}

/-- No call changes the depth. -/
@[simp] theorem depth_exec (call : DepositCall H) (self : DepositDataTree H) :
    (call.exec hs self).1.depth = self.depth := by
  cases call with
  | pushLeaf deposit =>
    simp only [DepositCall.exec, DepositDataTree.pushLeaf]
    split
    · rfl
    · split <;> rfl
  | finalize block =>
    simp only [DepositCall.exec, DepositDataTree.finalize]
    split <;> rfl

@[simp] theorem depth_runCalls : ∀ (self : DepositDataTree H) (calls : List (DepositCall H)),
    (self.runCalls hs calls).1.depth = self.depth
  | _, [] => rfl
  | self, call :: calls => by
    show (runCalls hs (call.exec hs self).1 calls).1.depth = self.depth
    rw [depth_runCalls, depth_exec]

/-- Pushes add their deposits. -/
theorem depositsAfter_map_pushLeaf : ∀ (leaves more : List H),
    depositsAfter leaves (more.map .pushLeaf) = leaves ++ more
  | leaves, [] => (List.append_nil leaves).symm
  | leaves, deposit :: more => by
    show depositsAfter (leaves ++ [deposit]) (more.map .pushLeaf) = _
    rw [depositsAfter_map_pushLeaf, List.append_assoc, List.singleton_append]

namespace Tracks

/-- An allowed call succeeds and keeps the tree standing for the deposits after it. -/
theorem exec (h : Tracks hs self leaves) {call : DepositCall H}
    (hallowed : call.Allowed self leaves) :
    (call.exec hs self).2 = .ok () ∧ Tracks hs (call.exec hs self).1 (call.deposits leaves) := by
  cases call with
  | pushLeaf deposit =>
    obtain ⟨self', hpush, htracks, -, -⟩ := h.pushLeaf hallowed.1 hallowed.2 deposit
    simp only [DepositCall.exec, DepositCall.deposits]
    rw [hpush]
    exact ⟨rfl, htracks⟩
  | finalize block =>
    obtain ⟨hk, hfk, hkl⟩ := hallowed
    obtain ⟨self', hfin, htracks, -, -⟩ := h.finalize hk hfk hkl
    simp only [DepositCall.exec, DepositCall.deposits]
    rw [hfin]
    exact ⟨rfl, htracks⟩

/-- Every call of an allowed run succeeds, and the tree after it stands for the deposits after
it. By induction on the calls, with `exec` for each. -/
theorem runCalls (h : Tracks hs self leaves) {calls : List (DepositCall H)}
    (hrun : AllowedRun hs self leaves calls) :
    (self.runCalls hs calls).2 = calls.map (fun _ => .ok ()) ∧
      Tracks hs (self.runCalls hs calls).1 (depositsAfter leaves calls) := by
  induction calls generalizing self leaves with
  | nil => exact ⟨rfl, h⟩
  | cons call calls ih =>
    obtain ⟨hallowed, hrest⟩ := hrun
    obtain ⟨hok, htracks⟩ := h.exec hallowed
    obtain ⟨hoks, htracks'⟩ := ih htracks hrest
    refine ⟨?_, htracks'⟩
    show (call.exec hs self).2 :: _ = _
    rw [hok, hoks]
    rfl

/-- Pushes of deposits that fit, into a tree of depth below 64, are allowed one after another. By
induction on the deposits, each push keeping the tree standing for them. -/
theorem allowedRun_pushLeaf (h : Tracks hs self leaves) (hdepth : self.depth < 64)
    {more : List H} (hlen : leaves.length + more.length ≤ 2 ^ self.depth) :
    AllowedRun hs self leaves (more.map .pushLeaf) := by
  induction more generalizing self leaves with
  | nil => trivial
  | cons deposit more ih =>
    have hpow : 2 ^ self.depth < 2 ^ 64 := Nat.pow_lt_pow_right (by decide) hdepth
    simp only [List.length_cons] at hlen
    have hallowed : (DepositCall.pushLeaf deposit).Allowed self leaves := ⟨by omega, by omega⟩
    obtain ⟨-, htracks⟩ := h.exec hallowed
    refine ⟨hallowed, ih htracks (by rw [depth_exec]; exact hdepth) ?_⟩
    simp only [DepositCall.deposits, List.length_append, List.length_singleton, depth_exec]
    omega

end Tracks

end DepositDataTree


/-! ## Deposit runs from the empty tree

`genesis` starts from `DepositDataTree::create(&[], 0, DEPOSIT_TREE_DEPTH)` and pushes the
deposits one by one, taking `root()` as the deposit root after each; deposit processing checks
each deposit's proof against that root with `verify_merkle_proof` at `DEPOSIT_TREE_DEPTH + 1`. -/

open DepositDataTree

/-- From the empty tree of any depth `depth ≥ 1`, every call of a run that pushes while there is
room and finalizes forward succeeds; after the run the root is the root of the deposits pushed,
and every deposit not finalized has a proof, from `generate_proof`, that `verify_merkle_proof`
accepts one level above the tree against that root. -/
theorem deposit_runs_keep_root_and_proofs [DecidableEq H] {depth : Nat} (hdepth : 0 < depth)
    {calls : List (DepositCall H)} (hrun : AllowedRun hs (DepositDataTree.create hs [] 0 depth) [] calls) :
    ((DepositDataTree.create hs [] 0 depth).runCalls hs calls).2 = calls.map (fun _ => .ok ()) ∧
      ((DepositDataTree.create hs [] 0 depth).runCalls hs calls).1.root hs intToBytes32 =
        depositsRoot hs intToBytes32 (depositsAfter [] calls) depth ∧
      ∀ index, ((DepositDataTree.create hs [] 0 depth).runCalls hs calls).1.finalizedCount ≤ index →
        ∀ (hidx : index < (depositsAfter [] calls).length), ∃ branch,
          ((DepositDataTree.create hs [] 0 depth).runCalls hs calls).1.generateProof hs intToBytes32
              index = some (.ok ((depositsAfter [] calls)[index], branch)) ∧
            verifyMerkleProof hs (depositsAfter [] calls)[index] branch (depth + 1) index
              (((DepositDataTree.create hs [] 0 depth).runCalls hs calls).1.root hs intToBytes32) =
              true := by
  have hstart : Tracks hs (DepositDataTree.create hs [] 0 depth) [] :=
    tracks_create hdepth (by simp)
  obtain ⟨hoks, htracks⟩ := hstart.runCalls hrun
  have hdepth' : ((DepositDataTree.create hs [] 0 depth).runCalls hs calls).1.depth = depth :=
    depth_runCalls _ calls
  refine ⟨hoks, ?_, fun index hfin hidx => ?_⟩
  · rw [htracks.root_eq, hdepth']
  · obtain ⟨branch, hproof, hverify⟩ := htracks.generateProof intToBytes32 hfin hidx
    rw [hdepth'] at hverify
    exact ⟨branch, hproof, hverify⟩

/-- The numbers as their own bytes, for the samples below. -/
def sampleLengthBytes : Nat → Nat := id

/-- Two deposits pushed into a tree of depth 2, the first finalized, then a third. -/
def sampleCalls : List (DepositCall Nat) :=
  [.pushLeaf 5, .pushLeaf 6, .finalize ⟨0, 1, 0, 0⟩, .pushLeaf 7]

theorem deposit_runs_keep_root_and_proofs_sample :
    ((DepositDataTree.create sampleHasher [] 0 2).runCalls sampleHasher sampleCalls).1.root
        sampleHasher sampleLengthBytes =
      depositsRoot sampleHasher sampleLengthBytes [5, 6, 7] 2 :=
  (deposit_runs_keep_root_and_proofs sampleHasher sampleLengthBytes (by decide)
    (show AllowedRun sampleHasher (DepositDataTree.create sampleHasher [] 0 2) [] sampleCalls from
      ⟨⟨by decide, by decide⟩, ⟨by decide, by decide⟩, ⟨by decide, by decide, by decide⟩,
        ⟨by decide, by decide⟩, trivial⟩)).2.1

/-- After such a run at `DEPOSIT_TREE_DEPTH` that recorded a finalized block counting fewer
deposits than the capacity, `get_snapshot` gives a snapshot that `is_valid` accepts exactly when
the block's root is the root of the deposits it counts. `from_snapshot` restores from it a tree
whose root is that root; pushing the deposits after the finalized ones into the restored tree
succeeds at every push and gives the root of the tree after the run. -/
theorem deposit_snapshot_restores_tree [DecidableEq H] {calls : List (DepositCall H)}
    (hrun : AllowedRun hs (DepositDataTree.create hs [] 0 depositTreeDepth) [] calls)
    {block : FinalizedExecutionBlock H}
    (hblock : ((DepositDataTree.create hs [] 0 depositTreeDepth).runCalls hs
      calls).1.finalizedExecutionBlock = some block)
    (hcount : block.depositCount < 2 ^ depositTreeDepth) :
    ∃ snapshot,
      ((DepositDataTree.create hs [] 0 depositTreeDepth).runCalls hs calls).1.getSnapshot =
        some snapshot ∧
      (snapshot.isValid hs intToBytes32 = true ↔ block.depositRoot =
        depositsRoot hs intToBytes32 ((depositsAfter [] calls).take block.depositCount)
          depositTreeDepth) ∧
      ∃ restored, DepositDataTree.fromSnapshot hs snapshot depositTreeDepth = .ok restored ∧
        restored.root hs intToBytes32 = depositsRoot hs intToBytes32
          ((depositsAfter [] calls).take block.depositCount) depositTreeDepth ∧
        (restored.runCalls hs (((depositsAfter [] calls).drop block.depositCount).map
          .pushLeaf)).2 = ((depositsAfter [] calls).drop block.depositCount).map (fun _ => .ok ()) ∧
        (restored.runCalls hs (((depositsAfter [] calls).drop block.depositCount).map
          .pushLeaf)).1.root hs intToBytes32 =
          ((DepositDataTree.create hs [] 0 depositTreeDepth).runCalls hs calls).1.root hs
            intToBytes32 := by
  have hstart : Tracks hs (DepositDataTree.create hs [] 0 depositTreeDepth) [] :=
    tracks_create (by decide) (by simp)
  obtain ⟨-, htracks⟩ := hstart.runCalls hrun
  have hdepth : ((DepositDataTree.create hs [] 0 depositTreeDepth).runCalls hs calls).1.depth =
      depositTreeDepth := depth_runCalls _ calls
  obtain ⟨snapshot, hsnap, hvalid⟩ := htracks.getSnapshot_isValid hdepth hblock hcount
  obtain ⟨restored, hrestore, hrestored, -, hrdepth⟩ := htracks.fromSnapshot hsnap
  rw [finalizedCount_of_eq_some hblock] at hrestored
  rw [hdepth] at hrestore hrdepth
  refine ⟨snapshot, hsnap, hvalid, restored, hrestore, by rw [hrestored.root_eq, hrdepth], ?_⟩
  -- the deposits after the finalized ones fit, so each push is allowed
  have hfit : ((depositsAfter [] calls).take block.depositCount).length +
      ((depositsAfter [] calls).drop block.depositCount).length ≤ 2 ^ restored.depth := by
    rw [← List.length_append, List.take_append_drop, hrdepth, ← hdepth]
    exact htracks.represents.length_le.2
  obtain ⟨hoks, hafter⟩ :=
    hrestored.runCalls (hrestored.allowedRun_pushLeaf (by rw [hrdepth]; decide) hfit)
  refine ⟨by rw [hoks, List.map_map]; rfl, ?_⟩
  rw [hafter.root_eq, htracks.root_eq, depth_runCalls, hrdepth, hdepth,
    depositsAfter_map_pushLeaf, List.take_append_drop]

/-- One deposit pushed into a tree of `DEPOSIT_TREE_DEPTH` and finalized. -/
def sampleFinalizedCalls : List (DepositCall Nat) := [.pushLeaf 5, .finalize ⟨0, 1, 0, 0⟩]

theorem deposit_snapshot_restores_tree_sample :
    ∃ snapshot, ((DepositDataTree.create sampleHasher [] 0 depositTreeDepth).runCalls sampleHasher
        sampleFinalizedCalls).1.getSnapshot = some snapshot ∧
      ∃ restored, DepositDataTree.fromSnapshot sampleHasher snapshot depositTreeDepth =
        .ok restored ∧
        restored.root sampleHasher sampleLengthBytes =
          depositsRoot sampleHasher sampleLengthBytes [5] depositTreeDepth := by
  obtain ⟨snapshot, hsnap, -, restored, hrestore, hroot, -⟩ :=
    deposit_snapshot_restores_tree sampleHasher sampleLengthBytes
      (show AllowedRun sampleHasher (DepositDataTree.create sampleHasher [] 0 depositTreeDepth) []
        sampleFinalizedCalls from ⟨⟨by decide, by decide⟩, ⟨by decide, by decide, by decide⟩, trivial⟩)
      (show _ = some ⟨0, 1, 0, 0⟩ from rfl) (by decide)
  exact ⟨snapshot, hsnap, restored, hrestore, hroot⟩

/-- After such a run that filled the tree, a push fails with an error of the tree and leaves the
deposit tree as it was: the count is not incremented, and the root stays the root of the
deposits. -/
theorem deposit_push_into_full_tree_changes_nothing {depth : Nat} (hdepth : 0 < depth)
    {calls : List (DepositCall H)} (hrun : AllowedRun hs (DepositDataTree.create hs [] 0 depth) [] calls)
    (hfull : (depositsAfter [] calls).length = 2 ^ depth) (deposit : H) :
    (((DepositDataTree.create hs [] 0 depth).runCalls hs calls).1.pushLeaf hs deposit).1 =
        ((DepositDataTree.create hs [] 0 depth).runCalls hs calls).1 ∧
      ∃ e, (((DepositDataTree.create hs [] 0 depth).runCalls hs calls).1.pushLeaf hs deposit).2 =
        .error (.merkleTree e) := by
  have hstart : Tracks hs (DepositDataTree.create hs [] 0 depth) [] := tracks_create hdepth (by simp)
  obtain ⟨-, htracks⟩ := hstart.runCalls hrun
  have hdepth' : ((DepositDataTree.create hs [] 0 depth).runCalls hs calls).1.depth = depth :=
    depth_runCalls _ calls
  exact htracks.pushLeaf_full (by rw [hdepth']; exact hfull) deposit

theorem deposit_push_into_full_tree_changes_nothing_sample :
    (((DepositDataTree.create sampleHasher [] 0 1).runCalls sampleHasher
        [.pushLeaf 5, .pushLeaf 6]).1.pushLeaf sampleHasher 7).1 =
      ((DepositDataTree.create sampleHasher [] 0 1).runCalls sampleHasher [.pushLeaf 5, .pushLeaf 6]).1 :=
  (deposit_push_into_full_tree_changes_nothing sampleHasher (by decide)
    (show AllowedRun sampleHasher (DepositDataTree.create sampleHasher [] 0 1) []
      [.pushLeaf 5, .pushLeaf 6] from ⟨⟨by decide, by decide⟩, ⟨by decide, by decide⟩, trivial⟩)
    (by decide) 7).1

end Vibehouse.MerkleProof
