import Vibehouse.Slasher.Array

/-! # Cells of the target arrays, and the targets they stand for

Under a valid configuration the cell of a validator at an epoch has one address, a disk key
and an index in its chunk (`cellAddress`), and two epochs share a cell exactly when they agree
modulo `history_length` (`cellAddress_eq_iff`); over the last `history_length` epochs no two
do (`eq_of_mod_eq_of_window`). `cellTarget` is the target a cell decodes to and `writeCell`
the write of one cell, with `cellTarget_writeCell` saying that nothing else changes.

`minTargetOf` and `maxTargetOf` state what a cell should hold: the least target above the
epoch (by default `epoch + MAX_DISTANCE`) among applied attestations with a later source, and
the greatest target (by default the epoch itself) among those with an earlier source. -/

namespace Vibehouse.Slasher

namespace Config

/-- What `validate` accepts. -/
structure Valid (cfg : Config) : Prop where
  chunkSize_pos : 0 < cfg.chunkSize
  validatorChunkSize_pos : 0 < cfg.validatorChunkSize
  historyLength_pos : 0 < cfg.historyLength
  chunkSize_dvd : cfg.chunkSize ∣ cfg.historyLength
  historyLength_le : cfg.historyLength ≤ maxHistoryLength

theorem valid_of_validate {cfg : Config} (h : cfg.validate = .ok ()) : cfg.Valid := by
  unfold validate at h
  split_ifs at h with h₁ h₂ h₃
  exact ⟨by omega, by omega, by omega, Nat.dvd_of_mod_eq_zero (by omega), by omega⟩

/-- Where the cell of a validator at an epoch lives: its chunk's disk key and its index. -/
def cellAddress (cfg : Config) (validatorIndex epoch : Nat) : Nat × Nat :=
  (cfg.diskKey (cfg.validatorChunkIndex validatorIndex) (cfg.chunkIndex epoch),
    cfg.cellIndex (cfg.validatorOffset validatorIndex) (cfg.chunkOffset epoch))

variable {cfg : Config}

/-- Two digits in base `W`. -/
theorem eq_of_mul_add_eq {W a b a' b' : Nat} (hb : b < W) (hb' : b' < W)
    (h : a * W + b = a' * W + b') : a = a' ∧ b = b' := by
  have hW : 0 < W := by omega
  have hmod : b = b' := by
    have := congrArg (· % W) h
    simp only [Nat.mul_comm _ W, Nat.mul_add_mod, Nat.mod_eq_of_lt hb, Nat.mod_eq_of_lt hb'] at this
    exact this
  subst hmod
  exact ⟨Nat.eq_of_mul_eq_mul_right hW (by omega), rfl⟩

theorem chunkIndex_eq (hc : cfg.Valid) (epoch : Nat) :
    cfg.chunkIndex epoch = epoch / cfg.chunkSize % (cfg.historyLength / cfg.chunkSize) := by
  unfold chunkIndex
  conv_lhs => rw [← Nat.mul_div_cancel' hc.chunkSize_dvd]
  exact Nat.mod_mul_right_div_self _ _ _

theorem numChunks_pos (hc : cfg.Valid) : 0 < cfg.historyLength / cfg.chunkSize :=
  Nat.div_pos (Nat.le_of_dvd hc.historyLength_pos hc.chunkSize_dvd) hc.chunkSize_pos

theorem chunkIndex_lt (hc : cfg.Valid) (epoch : Nat) :
    cfg.chunkIndex epoch < cfg.historyLength / cfg.chunkSize := by
  rw [chunkIndex_eq hc]
  exact Nat.mod_lt _ (numChunks_pos hc)

/-- Every cell index is inside the chunk's vector of `chunk_size * validator_chunk_size`
cells, so `get_target` and `set_raw_distance` never fail. -/
theorem cellIndex_lt (hc : cfg.Valid) (validatorIndex epoch : Nat) :
    cfg.cellIndex (cfg.validatorOffset validatorIndex) (cfg.chunkOffset epoch) <
      cfg.chunkSize * cfg.validatorChunkSize := by
  unfold cellIndex validatorOffset chunkOffset
  have h₁ := Nat.mod_lt validatorIndex hc.validatorChunkSize_pos
  have h₂ := Nat.mod_lt epoch hc.chunkSize_pos
  calc validatorIndex % cfg.validatorChunkSize * cfg.chunkSize + epoch % cfg.chunkSize
      < (validatorIndex % cfg.validatorChunkSize + 1) * cfg.chunkSize := by rw [Nat.succ_mul]; omega
    _ ≤ cfg.validatorChunkSize * cfg.chunkSize := Nat.mul_le_mul_right _ h₁
    _ = cfg.chunkSize * cfg.validatorChunkSize := Nat.mul_comm _ _

theorem mod_historyLength (hc : cfg.Valid) (epoch : Nat) :
    epoch % cfg.historyLength = epoch % cfg.chunkSize + cfg.chunkSize * cfg.chunkIndex epoch := by
  rw [chunkIndex_eq hc]
  conv_lhs => rw [← Nat.mul_div_cancel' hc.chunkSize_dvd]
  exact Nat.mod_mul

/-- Two cells coincide exactly for one validator at epochs equal modulo `history_length`. -/
theorem cellAddress_eq_iff (hc : cfg.Valid) {v v' e e' : Nat} :
    cfg.cellAddress v e = cfg.cellAddress v' e' ↔ v = v' ∧ e % cfg.historyLength = e' % cfg.historyLength := by
  constructor
  · intro h
    simp only [cellAddress, diskKey, cellIndex, validatorChunkIndex, validatorOffset, chunkOffset,
      Prod.mk.injEq] at h
    obtain ⟨hv, hci⟩ := eq_of_mul_add_eq (chunkIndex_lt hc e) (chunkIndex_lt hc e') h.1
    obtain ⟨hvo, heo⟩ := eq_of_mul_add_eq (Nat.mod_lt e hc.chunkSize_pos)
      (Nat.mod_lt e' hc.chunkSize_pos) h.2
    refine ⟨?_, by rw [mod_historyLength hc, mod_historyLength hc, heo, hci]⟩
    rw [← Nat.div_add_mod v cfg.validatorChunkSize, ← Nat.div_add_mod v' cfg.validatorChunkSize,
      hv, hvo]
  · rintro ⟨rfl, he⟩
    have hci : cfg.chunkIndex e = cfg.chunkIndex e' := by
      unfold chunkIndex
      rw [he]
    have heo : cfg.chunkOffset e = cfg.chunkOffset e' := by
      unfold chunkOffset
      rw [← Nat.mod_mod_of_dvd e hc.chunkSize_dvd, ← Nat.mod_mod_of_dvd e' hc.chunkSize_dvd, he]
    simp only [cellAddress, hci, heo]

/-- Over the window of `history_length` epochs ending at `c`, epochs are distinct modulo
`history_length`. -/
theorem eq_of_mod_eq_of_window {c e e' : Nat} (he : c < e + cfg.historyLength) (he' : e ≤ c)
    (hf : c < e' + cfg.historyLength) (hf' : e' ≤ c)
    (h : e % cfg.historyLength = e' % cfg.historyLength) : e = e' := by
  rcases Nat.le_total e e' with hle | hle
  · have hz := Nat.sub_mod_eq_zero_of_mod_eq h.symm
    rw [Nat.mod_eq_of_lt (by omega)] at hz
    omega
  · have hz := Nat.sub_mod_eq_zero_of_mod_eq h
    rw [Nat.mod_eq_of_lt (by omega)] at hz
    omega

/-- Epochs of one block of `chunk_size` epochs lie in one chunk. -/
theorem chunkIndex_eq_of_div_eq (hc : cfg.Valid) {e e' : Nat}
    (h : e / cfg.chunkSize = e' / cfg.chunkSize) : cfg.chunkIndex e = cfg.chunkIndex e' := by
  rw [chunkIndex_eq hc, chunkIndex_eq hc, h]

/-- With a single chunk of epochs, every epoch is in it. -/
theorem chunkIndex_eq_zero (hc : cfg.Valid) (hW : cfg.historyLength / cfg.chunkSize = 1)
    (epoch : Nat) : cfg.chunkIndex epoch = 0 := by
  rw [chunkIndex_eq hc, hW, Nat.mod_one]

theorem mod_ne_mod_succ {W q : Nat} (hW : 2 ≤ W) : (q + 1) % W ≠ q % W := by
  intro h
  have hz := Nat.sub_mod_eq_zero_of_mod_eq h
  rw [Nat.add_sub_cancel_left, Nat.mod_eq_of_lt (by omega)] at hz
  omega

/-- The epoch before a block of `chunk_size` epochs is in another chunk. -/
theorem chunkIndex_pred_ne (hc : cfg.Valid) (hW : 2 ≤ cfg.historyLength / cfg.chunkSize)
    {e : Nat} (hB : 0 < e / cfg.chunkSize) :
    cfg.chunkIndex (e / cfg.chunkSize * cfg.chunkSize - 1) ≠ cfg.chunkIndex e := by
  have hC := hc.chunkSize_pos
  have hpos : cfg.chunkSize ≤ e / cfg.chunkSize * cfg.chunkSize := Nat.le_mul_of_pos_left _ hB
  have hdiv : (e / cfg.chunkSize * cfg.chunkSize - 1) / cfg.chunkSize = e / cfg.chunkSize - 1 := by
    apply Nat.div_eq_of_lt_le
    · rw [Nat.sub_one_mul]
      omega
    · rw [Nat.sub_add_cancel hB]
      omega
  rw [chunkIndex_eq hc, chunkIndex_eq hc, hdiv]
  have := mod_ne_mod_succ (q := e / cfg.chunkSize - 1) hW
  rwa [Nat.sub_add_cancel hB, ne_comm] at this

/-- The epoch after a block of `chunk_size` epochs is in another chunk. -/
theorem chunkIndex_succ_ne (hc : cfg.Valid) (hW : 2 ≤ cfg.historyLength / cfg.chunkSize)
    (e : Nat) : cfg.chunkIndex ((e / cfg.chunkSize + 1) * cfg.chunkSize) ≠ cfg.chunkIndex e := by
  rw [chunkIndex_eq hc, chunkIndex_eq hc, Nat.mul_div_cancel _ hc.chunkSize_pos]
  exact mod_ne_mod_succ hW

/-- Epochs of one block of `chunk_size` epochs lie in one chunk. -/
theorem chunkIndex_eq_of_le_of_lt (hc : cfg.Valid) {e e' : Nat}
    (h₁ : e' / cfg.chunkSize * cfg.chunkSize ≤ e) (h₂ : e < (e' / cfg.chunkSize + 1) * cfg.chunkSize) :
    cfg.chunkIndex e = cfg.chunkIndex e' :=
  chunkIndex_eq_of_div_eq hc (Nat.div_eq_of_lt_le h₁ h₂)

/-- With a single chunk of epochs no epoch leaves it. -/
theorem two_le_numChunks (hc : cfg.Valid) {e e' : Nat} (hne : cfg.chunkIndex e ≠ cfg.chunkIndex e') :
    2 ≤ cfg.historyLength / cfg.chunkSize := by
  by_contra h
  have hW : cfg.historyLength / cfg.chunkSize = 1 := by have := numChunks_pos hc; omega
  exact hne (by rw [chunkIndex_eq_zero hc hW, chunkIndex_eq_zero hc hW])

/-- Walking down from `start`, the first epoch outside its chunk is `next_start_epoch` of the min
array, the last epoch of the block before. -/
theorem exit_down_eq (hc : cfg.Valid) {start ex : Nat} (hex : ex ≤ start)
    (hin : ∀ e, ex < e → e ≤ start → cfg.chunkIndex e = cfg.chunkIndex start)
    (hne : cfg.chunkIndex ex ≠ cfg.chunkIndex start) :
    ex = start / cfg.chunkSize * cfg.chunkSize - 1 := by
  have hC := hc.chunkSize_pos
  have hblock := Nat.lt_div_mul_add (a := start) hC
  have hle : start / cfg.chunkSize * cfg.chunkSize ≤ start := Nat.div_mul_le_self start _
  -- `ex` lies below the block of `start`, which is in one chunk
  have hlt : ex < start / cfg.chunkSize * cfg.chunkSize := by
    refine Nat.lt_of_not_le fun hge => hne (chunkIndex_eq_of_le_of_lt hc hge ?_)
    rw [Nat.succ_mul]
    omega
  have hB : 0 < start / cfg.chunkSize := Nat.pos_of_ne_zero fun h => by simp [h] at hlt
  -- and nothing between it and the block is in another chunk
  by_contra hne'
  exact chunkIndex_pred_ne hc (two_le_numChunks hc hne) hB (hin _ (by omega) (by omega))

/-- Walking up from `start`, the first epoch outside its chunk is `next_start_epoch` of the max
array, the first epoch of the next block. -/
theorem exit_up_eq (hc : cfg.Valid) {start ex : Nat} (hex : start ≤ ex)
    (hin : ∀ e, start ≤ e → e < ex → cfg.chunkIndex e = cfg.chunkIndex start)
    (hne : cfg.chunkIndex ex ≠ cfg.chunkIndex start) :
    ex = (start / cfg.chunkSize + 1) * cfg.chunkSize := by
  have hC := hc.chunkSize_pos
  have hblock := Nat.lt_div_mul_add (a := start) hC
  have hle : start / cfg.chunkSize * cfg.chunkSize ≤ start := Nat.div_mul_le_self start _
  have hge : (start / cfg.chunkSize + 1) * cfg.chunkSize ≤ ex :=
    Nat.le_of_not_lt fun hlt => hne (chunkIndex_eq_of_le_of_lt hc (by omega) hlt)
  by_contra hne'
  have hnext := hin ((start / cfg.chunkSize + 1) * cfg.chunkSize) (by rw [Nat.succ_mul]; omega)
    (by omega)
  exact chunkIndex_succ_ne hc (two_le_numChunks hc hne) start hnext

/-- The last `history_length` epochs up to `current`. -/
def InWindow (cfg : Config) (current epoch : Nat) : Prop :=
  current < epoch + cfg.historyLength ∧ epoch ≤ current

theorem inWindow_iff (hc : cfg.Valid) {current epoch : Nat} :
    cfg.InWindow current epoch ↔ current - (cfg.historyLength - 1) ≤ epoch ∧ epoch ≤ current := by
  have := hc.historyLength_pos
  unfold InWindow
  omega

end Config

namespace SlasherDB

variable {cfg : Config} (db : SlasherDB)

/-- The target the cell of `validatorIndex` at `epoch` decodes to. -/
def cellTarget (k : TargetKind) (cfg : Config) (validatorIndex epoch : Nat) : Nat :=
  (db.chunkForUpdate k (cfg.diskKey (cfg.validatorChunkIndex validatorIndex)
    (cfg.chunkIndex epoch))).getTarget cfg validatorIndex epoch

/-- Write the distance `d` into the cell of `validatorIndex` at `epoch`. -/
def writeCell (k : TargetKind) (cfg : Config) (validatorIndex epoch d : Nat) : SlasherDB :=
  let diskKey := cfg.diskKey (cfg.validatorChunkIndex validatorIndex) (cfg.chunkIndex epoch)
  db.putChunk k diskKey ((db.chunkForUpdate k diskKey).setRawDistance cfg validatorIndex epoch d)

theorem cellTarget_eq (k : TargetKind) (v e : Nat) :
    db.cellTarget k cfg v e = e + (db.targets k (cfg.cellAddress v e).1).data (cfg.cellAddress v e).2 :=
  rfl

@[simp] theorem targets_putChunk (k k' : TargetKind) (key : Nat) (ch : Chunk) :
    (db.putChunk k key ch).targets k' =
      if k' = k then Function.update (db.targets k) key ch else db.targets k' := by
  cases k <;> cases k' <;> rfl

@[simp] theorem currentEpochs_putChunk (k : TargetKind) (key : Nat) (ch : Chunk) :
    (db.putChunk k key ch).currentEpochs = db.currentEpochs := by
  cases k <;> rfl

@[simp] theorem attesters_putChunk (k : TargetKind) (key : Nat) (ch : Chunk) :
    (db.putChunk k key ch).attesters = db.attesters := by
  cases k <;> rfl

@[simp] theorem chunkForUpdate_putChunk_self (k : TargetKind) (key : Nat) (ch : Chunk) :
    (db.putChunk k key ch).chunkForUpdate k key = ch := by
  simp [chunkForUpdate]

@[simp] theorem putChunk_chunkForUpdate (k : TargetKind) (key : Nat) :
    db.putChunk k key (db.chunkForUpdate k key) = db := by
  cases k <;> simp [putChunk, chunkForUpdate, targets]

@[simp] theorem putChunk_putChunk (k : TargetKind) (key : Nat) (ch ch' : Chunk) :
    (db.putChunk k key ch).putChunk k key ch' = db.putChunk k key ch' := by
  cases k <;> simp [putChunk]

/-- A chunk put under the key of an epoch's chunk gives that epoch's cells. -/
theorem cellTarget_putChunk_self (k : TargetKind) (ch : Chunk) {v e : Nat} :
    (db.putChunk k (cfg.diskKey (cfg.validatorChunkIndex v) (cfg.chunkIndex e)) ch).cellTarget
      k cfg v e = ch.getTarget cfg v e := by
  simp [cellTarget]

/-- Writing a cell through the chunk that holds it. -/
theorem putChunk_setRawDistance (k : TargetKind) (ch : Chunk) {v e : Nat} (d : Nat) :
    db.putChunk k (cfg.diskKey (cfg.validatorChunkIndex v) (cfg.chunkIndex e))
        (ch.setRawDistance cfg v e d) =
      (db.putChunk k (cfg.diskKey (cfg.validatorChunkIndex v) (cfg.chunkIndex e)) ch).writeCell
        k cfg v e d := by
  simp [writeCell]

/-- A write changes one cell. -/
theorem cellTarget_writeCell (k k' : TargetKind) (v e d v' e' : Nat) :
    (db.writeCell k cfg v e d).cellTarget k' cfg v' e' =
      if k' = k ∧ cfg.cellAddress v' e' = cfg.cellAddress v e then e' + d
      else db.cellTarget k' cfg v' e' := by
  simp only [cellTarget_eq, writeCell, targets_putChunk, chunkForUpdate, Chunk.setRawDistance]
  by_cases hk : k' = k
  · subst hk
    simp only [true_and, if_true]
    by_cases ha : cfg.cellAddress v' e' = cfg.cellAddress v e
    · rw [if_pos ha, ha]
      simp [Config.cellAddress]
    · rw [if_neg ha]
      by_cases hkey : (cfg.cellAddress v' e').1 = (cfg.cellAddress v e).1
      · have hidx : (cfg.cellAddress v' e').2 ≠ (cfg.cellAddress v e).2 :=
          fun h => ha (Prod.ext hkey h)
        simp only [Config.cellAddress] at hkey hidx
        simp [Config.cellAddress, hkey, hidx]
      · simp only [Config.cellAddress] at hkey
        simp [Config.cellAddress, hkey]
  · simp [hk]

/-- Over a window, a write changes the cell of its own epoch only. -/
theorem cellTarget_writeCell_of_inWindow (hc : cfg.Valid) (k : TargetKind) {c v e e' : Nat}
    (d : Nat) (he : cfg.InWindow c e) (he' : cfg.InWindow c e') :
    (db.writeCell k cfg v e d).cellTarget k cfg v e' =
      if e' = e then e' + d else db.cellTarget k cfg v e' := by
  have haddr : cfg.cellAddress v e' = cfg.cellAddress v e ↔ e' = e := by
    rw [Config.cellAddress_eq_iff hc]
    exact ⟨fun h => Config.eq_of_mod_eq_of_window he'.1 he'.2 he.1 he.2 h.2,
      fun h => ⟨rfl, h ▸ rfl⟩⟩
  rw [cellTarget_writeCell]
  simp only [true_and, haddr]

@[simp] theorem currentEpochs_writeCell (k : TargetKind) (v e d : Nat) :
    (db.writeCell k cfg v e d).currentEpochs = db.currentEpochs := by
  simp [writeCell]

@[simp] theorem attesters_writeCell (k : TargetKind) (v e d : Nat) :
    (db.writeCell k cfg v e d).attesters = db.attesters := by
  simp [writeCell]

theorem resetCell_eq_writeCell (k : TargetKind) {vci v : Nat} (hv : cfg.validatorChunkIndex v = vci)
    (e : Nat) : db.resetCell cfg k vci v e = db.writeCell k cfg v e k.neutralElement := by
  subst hv
  rfl

end SlasherDB

/-! ## The targets a cell stands for -/

/-- The least target of an attestation with a later source, `epoch + MAX_DISTANCE` if none. -/
def minTargetOf (applied : List (Nat × Nat)) (epoch : Nat) : Nat :=
  applied.foldl (fun m a => if epoch < a.1 then min m a.2 else m) (epoch + maxDistance)

/-- The greatest target of an attestation with an earlier source, `epoch` if none. -/
def maxTargetOf (applied : List (Nat × Nat)) (epoch : Nat) : Nat :=
  applied.foldl (fun m a => if a.1 < epoch then max m a.2 else m) epoch

/-- What the cells of each array stand for. -/
def TargetKind.targetOf : TargetKind → List (Nat × Nat) → Nat → Nat
  | .min => minTargetOf
  | .max => maxTargetOf

section TargetOf

variable (applied : List (Nat × Nat))

@[simp] theorem minTargetOf_nil (epoch : Nat) : minTargetOf [] epoch = epoch + maxDistance := rfl

@[simp] theorem maxTargetOf_nil (epoch : Nat) : maxTargetOf [] epoch = epoch := rfl

theorem minTargetOf_append_singleton (a : Nat × Nat) (epoch : Nat) :
    minTargetOf (applied ++ [a]) epoch =
      if epoch < a.1 then min (minTargetOf applied epoch) a.2 else minTargetOf applied epoch := by
  simp [minTargetOf, List.foldl_append]

theorem maxTargetOf_append_singleton (a : Nat × Nat) (epoch : Nat) :
    maxTargetOf (applied ++ [a]) epoch =
      if a.1 < epoch then max (maxTargetOf applied epoch) a.2 else maxTargetOf applied epoch := by
  simp [maxTargetOf, List.foldl_append]

theorem foldl_min_mono {e₁ e₂ : Nat} (he : e₁ ≤ e₂) :
    ∀ {m₁ m₂ : Nat}, m₁ ≤ m₂ →
      applied.foldl (fun m a => if e₁ < a.1 then min m a.2 else m) m₁ ≤
        applied.foldl (fun m a => if e₂ < a.1 then min m a.2 else m) m₂ := by
  induction applied with
  | nil => exact id
  | cons a l ih =>
    intro m₁ m₂ hm
    simp only [List.foldl_cons]
    apply ih
    split_ifs <;> omega

theorem foldl_max_mono {e₁ e₂ : Nat} (he : e₁ ≤ e₂) :
    ∀ {m₁ m₂ : Nat}, m₁ ≤ m₂ →
      applied.foldl (fun m a => if a.1 < e₁ then max m a.2 else m) m₁ ≤
        applied.foldl (fun m a => if a.1 < e₂ then max m a.2 else m) m₂ := by
  induction applied with
  | nil => exact id
  | cons a l ih =>
    intro m₁ m₂ hm
    simp only [List.foldl_cons]
    apply ih
    split_ifs <;> omega

/-- The least later target does not decrease with the epoch. -/
theorem minTargetOf_mono {e₁ e₂ : Nat} (he : e₁ ≤ e₂) :
    minTargetOf applied e₁ ≤ minTargetOf applied e₂ :=
  foldl_min_mono applied he (by omega)

/-- The greatest earlier target does not decrease with the epoch. -/
theorem maxTargetOf_mono {e₁ e₂ : Nat} (he : e₁ ≤ e₂) :
    maxTargetOf applied e₁ ≤ maxTargetOf applied e₂ :=
  foldl_max_mono applied he he

theorem foldl_min_le (epoch : Nat) :
    ∀ {m : Nat}, applied.foldl (fun m a => if epoch < a.1 then min m a.2 else m) m ≤ m := by
  induction applied with
  | nil => exact fun {_} => Nat.le_refl _
  | cons a l ih =>
    intro m
    simp only [List.foldl_cons]
    refine Nat.le_trans ih ?_
    split_ifs <;> omega

theorem le_foldl_max (epoch : Nat) :
    ∀ {m : Nat}, m ≤ applied.foldl (fun m a => if a.1 < epoch then max m a.2 else m) m := by
  induction applied with
  | nil => exact fun {_} => Nat.le_refl _
  | cons a l ih =>
    intro m
    simp only [List.foldl_cons]
    refine Nat.le_trans ?_ ih
    split_ifs <;> omega

theorem minTargetOf_le (epoch : Nat) : minTargetOf applied epoch ≤ epoch + maxDistance :=
  foldl_min_le applied epoch

theorem le_maxTargetOf (epoch : Nat) : epoch ≤ maxTargetOf applied epoch :=
  le_foldl_max applied epoch

theorem foldl_min_lt_iff (epoch t : Nat) :
    ∀ {m : Nat}, applied.foldl (fun m a => if epoch < a.1 then min m a.2 else m) m < t ↔
      (∃ a ∈ applied, epoch < a.1 ∧ a.2 < t) ∨ m < t := by
  induction applied with
  | nil => simp
  | cons a l ih =>
    intro m
    rw [List.foldl_cons, ih]
    simp only [List.mem_cons, or_and_right, exists_or, exists_eq_left]
    by_cases ha : epoch < a.1
    · have hmin : min m a.2 < t ↔ m < t ∨ a.2 < t := by omega
      rw [if_pos ha, hmin]
      simp only [ha, true_and, or_comm, or_assoc]
    · rw [if_neg ha]
      simp only [ha, false_and, false_or]

theorem lt_foldl_max_iff (epoch t : Nat) :
    ∀ {m : Nat}, t < applied.foldl (fun m a => if a.1 < epoch then max m a.2 else m) m ↔
      (∃ a ∈ applied, a.1 < epoch ∧ t < a.2) ∨ t < m := by
  induction applied with
  | nil => simp
  | cons a l ih =>
    intro m
    rw [List.foldl_cons, ih]
    simp only [List.mem_cons, or_and_right, exists_or, exists_eq_left]
    by_cases ha : a.1 < epoch
    · have hmax : t < max m a.2 ↔ t < m ∨ t < a.2 := by omega
      rw [if_pos ha, hmax]
      simp only [ha, true_and, or_comm, or_assoc]
    · rw [if_neg ha]
      simp only [ha, false_and, false_or]

/-- A target above the least later target is above the target of an attestation with a later
source. -/
theorem minTargetOf_lt_iff (epoch t : Nat) :
    minTargetOf applied epoch < t ↔
      (∃ a ∈ applied, epoch < a.1 ∧ a.2 < t) ∨ epoch + maxDistance < t :=
  foldl_min_lt_iff applied epoch t

theorem lt_maxTargetOf_iff (epoch t : Nat) :
    t < maxTargetOf applied epoch ↔ (∃ a ∈ applied, a.1 < epoch ∧ t < a.2) ∨ t < epoch :=
  lt_foldl_max_iff applied epoch t

theorem foldl_min_eq_self (epoch : Nat) (h : ∀ a ∈ applied, a.1 ≤ epoch) :
    ∀ {m : Nat}, applied.foldl (fun m a => if epoch < a.1 then min m a.2 else m) m = m := by
  induction applied with
  | nil => exact fun {_} => rfl
  | cons a l ih =>
    intro m
    have ha := h a List.mem_cons_self
    simp only [List.foldl_cons, if_neg (Nat.not_lt.2 ha)]
    exact ih fun b hb => h b (List.mem_cons_of_mem _ hb)

theorem foldl_max_eq_self (epoch : Nat) (h : ∀ a ∈ applied, a.2 ≤ epoch) :
    ∀ {m : Nat}, epoch ≤ m →
      applied.foldl (fun m a => if a.1 < epoch then max m a.2 else m) m = m := by
  induction applied with
  | nil => exact fun {_} _ => rfl
  | cons a l ih =>
    intro m hm
    have ha := h a List.mem_cons_self
    simp only [List.foldl_cons]
    rw [show (if a.1 < epoch then max m a.2 else m) = m by split_ifs <;> omega]
    exact ih (fun b hb => h b (List.mem_cons_of_mem _ hb)) hm

/-- With every source at or below the epoch, there is no later target. -/
theorem minTargetOf_eq_of_forall (epoch : Nat) (h : ∀ a ∈ applied, a.1 ≤ epoch) :
    minTargetOf applied epoch = epoch + maxDistance :=
  foldl_min_eq_self applied epoch h

/-- With every target at or below the epoch, the epoch is the greatest. -/
theorem maxTargetOf_eq_of_forall (epoch : Nat) (h : ∀ a ∈ applied, a.2 ≤ epoch) :
    maxTargetOf applied epoch = epoch :=
  foldl_max_eq_self applied epoch h (Nat.le_refl _)

theorem foldl_min_eq_or_mem (epoch : Nat) :
    ∀ {m : Nat}, applied.foldl (fun m a => if epoch < a.1 then min m a.2 else m) m = m ∨
      ∃ a ∈ applied, epoch < a.1 ∧
        a.2 = applied.foldl (fun m a => if epoch < a.1 then min m a.2 else m) m := by
  induction applied with
  | nil => exact fun {_} => .inl rfl
  | cons a l ih =>
    intro m
    simp only [List.foldl_cons]
    rcases ih (m := if epoch < a.1 then min m a.2 else m) with h | ⟨b, hb, hcond, heq⟩
    · rw [h]
      by_cases ha : epoch < a.1
      · rw [if_pos ha]
        rcases Nat.le_total m a.2 with hle | hle
        · exact .inl (Nat.min_eq_left hle)
        · exact .inr ⟨a, List.mem_cons_self, ha, (Nat.min_eq_right hle).symm⟩
      · exact .inl (if_neg ha)
    · exact .inr ⟨b, List.mem_cons_of_mem _ hb, hcond, heq⟩

theorem foldl_max_eq_or_mem (epoch : Nat) :
    ∀ {m : Nat}, applied.foldl (fun m a => if a.1 < epoch then max m a.2 else m) m = m ∨
      ∃ a ∈ applied, a.1 < epoch ∧
        a.2 = applied.foldl (fun m a => if a.1 < epoch then max m a.2 else m) m := by
  induction applied with
  | nil => exact fun {_} => .inl rfl
  | cons a l ih =>
    intro m
    simp only [List.foldl_cons]
    rcases ih (m := if a.1 < epoch then max m a.2 else m) with h | ⟨b, hb, hcond, heq⟩
    · rw [h]
      by_cases ha : a.1 < epoch
      · rw [if_pos ha]
        rcases Nat.le_total m a.2 with hle | hle
        · exact .inr ⟨a, List.mem_cons_self, ha, (Nat.max_eq_right hle).symm⟩
        · exact .inl (Nat.max_eq_left hle)
      · exact .inl (if_neg ha)
    · exact .inr ⟨b, List.mem_cons_of_mem _ hb, hcond, heq⟩

/-- A least later target below the default is the target of an applied attestation. -/
theorem minTargetOf_mem {epoch : Nat} (h : minTargetOf applied epoch < epoch + maxDistance) :
    ∃ a ∈ applied, epoch < a.1 ∧ a.2 = minTargetOf applied epoch :=
  (foldl_min_eq_or_mem applied epoch).resolve_left (Nat.ne_of_lt h)

/-- A greatest earlier target above the epoch is the target of an applied attestation. -/
theorem maxTargetOf_mem {epoch : Nat} (h : epoch < maxTargetOf applied epoch) :
    ∃ a ∈ applied, a.1 < epoch ∧ a.2 = maxTargetOf applied epoch :=
  (foldl_max_eq_or_mem applied epoch).resolve_left (Nat.ne_of_gt h)

/-- With every applied attestation at or below the epoch, the cell holds the neutral element. -/
theorem targetOf_eq_neutral (k : TargetKind) {epoch : Nat}
    (h : ∀ a ∈ applied, a.1 ≤ epoch ∧ a.2 ≤ epoch) :
    k.targetOf applied epoch = epoch + k.neutralElement := by
  cases k
  · exact minTargetOf_eq_of_forall applied epoch fun a ha => (h a ha).1
  · exact maxTargetOf_eq_of_forall applied epoch fun a ha => (h a ha).2

/-- How an applied target combines with a cell: the least, or the greatest. -/
def TargetKind.join : TargetKind → Nat → Nat → Nat
  | .min, m, t => Min.min m t
  | .max, m, t => Max.max m t

/-- The epochs whose cell an attestation with source `s` bears on: those below it for the min
array, those above it for the max array. -/
def TargetKind.Covers : TargetKind → Nat → Nat → Prop
  | .min, s, e => e < s
  | .max, s, e => s < e

theorem targetOf_append_of_covers {k : TargetKind} {a : Nat × Nat} {e : Nat}
    (h : k.Covers a.1 e) : k.targetOf (applied ++ [a]) e = k.join (k.targetOf applied e) a.2 := by
  cases k
  · simp only [TargetKind.targetOf, minTargetOf_append_singleton, if_pos (show e < a.1 from h),
      TargetKind.join]
  · simp only [TargetKind.targetOf, maxTargetOf_append_singleton, if_pos (show a.1 < e from h),
      TargetKind.join]

theorem targetOf_append_of_not_covers {k : TargetKind} {a : Nat × Nat} {e : Nat}
    (h : ¬ k.Covers a.1 e) : k.targetOf (applied ++ [a]) e = k.targetOf applied e := by
  cases k
  · simp only [TargetKind.targetOf, minTargetOf_append_singleton, if_neg (show ¬ e < a.1 from h)]
  · simp only [TargetKind.targetOf, maxTargetOf_append_singleton, if_neg (show ¬ a.1 < e from h)]

/-- The values a cell of each array stands for at an epoch: at most `MAX_DISTANCE` above it, or
not below it. -/
def TargetKind.Bounded : TargetKind → Nat → Nat → Prop
  | .min, e, x => x ≤ e + maxDistance
  | .max, e, x => e ≤ x

theorem bounded_targetOf (k : TargetKind) (e : Nat) : k.Bounded e (k.targetOf applied e) := by
  cases k
  · exact minTargetOf_le applied e
  · exact le_maxTargetOf applied e

theorem targetOf_mono (k : TargetKind) {e₁ e₂ : Nat} (he : e₁ ≤ e₂) :
    k.targetOf applied e₁ ≤ k.targetOf applied e₂ := by
  cases k
  · exact minTargetOf_mono applied he
  · exact maxTargetOf_mono applied he

end TargetOf

end Vibehouse.Slasher
