import Vibehouse.Slasher.Cells

/-! # The walks of `apply_attestation_for_validator`

Applying an attestation `(s, t)` lowers every min-target cell of the window below `s` to `t`
and raises every max-target cell above `s` to `t`. The code does this chunk by chunk:
`applyLoop` visits the chunks, and `minTargetUpdate` walks down, `maxTargetUpdateAux` up,
through the epochs of one chunk, each stopping at the first cell that needs no change. Stopping
there is sound because the cells of the window are monotone in the epoch (`Walkable`); the min
walk stops at `current_epoch - (history_length - 1)` and the max walk at `current_epoch`, so
neither leaves the window, where no two epochs share a cell.

Both loops keep `Walked`: on a range of epochs the cells are joined with the new target, the
other cells of the window are as they were, and nothing else in the database has changed.
`applyLoop_walk` is the result: the walk ends with the range of epochs the attestation covers. -/

namespace Vibehouse.Slasher

variable {cfg : Config}

namespace SlasherDB

/-- `db'` differs from `db` at most in the cells of the arrays and validators in `touched`. -/
structure Frame (db' db : SlasherDB) (cfg : Config) (touched : TargetKind → Nat → Prop) : Prop where
  cellTarget_eq : ∀ k v e, ¬ touched k v → db'.cellTarget k cfg v e = db.cellTarget k cfg v e
  currentEpochs_eq : db'.currentEpochs = db.currentEpochs
  attesters_eq : db'.attesters = db.attesters

variable {touched touched' : TargetKind → Nat → Prop}

theorem Frame.refl (db : SlasherDB) : db.Frame db cfg touched :=
  ⟨fun _ _ _ _ => rfl, rfl, rfl⟩

theorem Frame.trans {db₀ db₁ db₂ : SlasherDB} (h₂ : db₂.Frame db₁ cfg touched)
    (h₁ : db₁.Frame db₀ cfg touched) : db₂.Frame db₀ cfg touched :=
  ⟨fun k v e h => (h₂.cellTarget_eq k v e h).trans (h₁.cellTarget_eq k v e h),
    h₂.currentEpochs_eq.trans h₁.currentEpochs_eq, h₂.attesters_eq.trans h₁.attesters_eq⟩

theorem Frame.mono {db₀ db : SlasherDB} (h : db.Frame db₀ cfg touched)
    (ht : ∀ k v, touched k v → touched' k v) : db.Frame db₀ cfg touched' :=
  ⟨fun k v e hk => h.cellTarget_eq k v e fun h' => hk (ht k v h'), h.currentEpochs_eq,
    h.attesters_eq⟩

theorem frame_writeCell (hc : cfg.Valid) (db : SlasherDB) (k : TargetKind) (v e d : Nat) :
    (db.writeCell k cfg v e d).Frame db cfg (fun k' v' => k' = k ∧ v' = v) := by
  refine ⟨fun k' v' e' h => ?_, db.currentEpochs_writeCell k v e d,
    db.attesters_writeCell k v e d⟩
  rw [cellTarget_writeCell, if_neg]
  rintro ⟨rfl, ha⟩
  exact h ⟨rfl, ((Config.cellAddress_eq_iff hc).1 ha).1⟩

/-- A cell read through the chunk of its epoch. -/
theorem getTarget_eq_cellTarget (db : SlasherDB) (k : TargetKind) (ch : Chunk) {v e ci : Nat}
    (hci : cfg.chunkIndex e = ci) :
    ch.getTarget cfg v e =
      (db.putChunk k (cfg.diskKey (cfg.validatorChunkIndex v) ci) ch).cellTarget k cfg v e := by
  subst hci
  exact (db.cellTarget_putChunk_self k ch).symm

/-- A cell written through the chunk of its epoch. -/
theorem putChunk_setRawDistance_eq (db : SlasherDB) (k : TargetKind) (ch : Chunk) {v e ci : Nat}
    (hci : cfg.chunkIndex e = ci) (d : Nat) :
    db.putChunk k (cfg.diskKey (cfg.validatorChunkIndex v) ci) (ch.setRawDistance cfg v e d) =
      (db.putChunk k (cfg.diskKey (cfg.validatorChunkIndex v) ci) ch).writeCell k cfg v e d := by
  subst hci
  exact db.putChunk_setRawDistance k ch d

end SlasherDB

theorem Chunk.setTarget_eq_ok {ch : Chunk} {v e t : Nat} (het : e ≤ t) (hlt : t - e < maxDistance) :
    ch.setTarget cfg v e t = .ok (ch.setRawDistance cfg v e (t - e)) := by
  simp [Chunk.setTarget, Chunk.epochDistance, het, hlt]

/-- The invariant of the walks: over the window ending at `c`, the cells of array `k` of
validator `v` on the epochs in `R` are those of `db₀` joined with `t`, the other cells are
those of `db₀`, and nothing else has changed. -/
structure Walked (cfg : Config) (k : TargetKind) (v t c : Nat) (R : Nat → Prop)
    (db₀ db : SlasherDB) : Prop where
  frame : db.Frame db₀ cfg fun k' v' => k' = k ∧ v' = v
  joined : ∀ e, cfg.InWindow c e → R e →
    db.cellTarget k cfg v e = k.join (db₀.cellTarget k cfg v e) t
  kept : ∀ e, cfg.InWindow c e → ¬ R e → db.cellTarget k cfg v e = db₀.cellTarget k cfg v e

/-- What the walk of an attestation `(s, t)` needs: cells monotone over the window and within
the bound of their array, and `s < t ≤ c` with `s` in the window. -/
structure Walkable (cfg : Config) (k : TargetKind) (v s t c : Nat) (db₀ : SlasherDB) : Prop where
  mono : ∀ e₁ e₂, cfg.InWindow c e₁ → cfg.InWindow c e₂ → e₁ ≤ e₂ →
    db₀.cellTarget k cfg v e₁ ≤ db₀.cellTarget k cfg v e₂
  bounded : ∀ e, cfg.InWindow c e → k.Bounded e (db₀.cellTarget k cfg v e)
  source_lt_target : s < t
  target_le_current : t ≤ c
  current_lt : c < s + cfg.historyLength

namespace Walked

variable {k : TargetKind} {v t c : Nat} {R R' : Nat → Prop} {db₀ db : SlasherDB}

/-- Nothing walked yet. -/
theorem start (hR : ∀ e, ¬ R e) : Walked cfg k v t c R db₀ db₀ :=
  ⟨SlasherDB.Frame.refl db₀, fun e _ he => absurd he (hR e), fun _ _ _ => rfl⟩

/-- A walk that stops: the epochs of `R'` it did not reach need no change. -/
theorem stop (hw : Walked cfg k v t c R db₀ db) (hRR' : ∀ e, cfg.InWindow c e → R e → R' e)
    (hfix : ∀ e, cfg.InWindow c e → R' e → ¬ R e →
      k.join (db₀.cellTarget k cfg v e) t = db₀.cellTarget k cfg v e) :
    Walked cfg k v t c R' db₀ db := by
  refine ⟨hw.frame, fun e he hR' => ?_, fun e he hR' => hw.kept e he fun hR => hR' (hRR' e he hR)⟩
  by_cases hR : R e
  · exact hw.joined e he hR
  · rw [hw.kept e he hR, hfix e he hR' hR]

/-- A walk writes the joined value into the cell of one more epoch. -/
theorem writeCell (hc : cfg.Valid) (hw : Walked cfg k v t c R db₀ db) {e d : Nat}
    (he : cfg.InWindow c e) (hRe : ¬ R e) (hd : e + d = k.join (db₀.cellTarget k cfg v e) t)
    (hR' : ∀ e', R' e' ↔ R e' ∨ e' = e) :
    Walked cfg k v t c R' db₀ (db.writeCell k cfg v e d) := by
  refine ⟨(SlasherDB.frame_writeCell hc db k v e d).trans hw.frame, fun e' he' h => ?_,
    fun e' he' h => ?_⟩
  · rw [SlasherDB.cellTarget_writeCell_of_inWindow db hc k d he he']
    rcases (hR' e').1 h with h | rfl
    · rw [if_neg (fun (h' : e' = e) => hRe (h' ▸ h)), hw.joined e' he' h]
    · rw [if_pos rfl, hd]
  · rw [hR' e', not_or] at h
    rw [SlasherDB.cellTarget_writeCell_of_inWindow db hc k d he he', if_neg h.2, hw.kept e' he' h.1]

end Walked

/-! ## The min walk -/

section MinWalk

variable {ci v t c s minEpoch : Nat} {ch ch' : Chunk} {e : Nat}

theorem minTargetUpdate_of_not_walk (h : ¬ (cfg.chunkIndex e = ci ∧ minEpoch ≤ e)) :
    minTargetUpdate cfg ci v t minEpoch ch e = .ok (ch, decide (minEpoch ≤ e)) := by
  rw [minTargetUpdate, if_neg h]

theorem minTargetUpdate_of_le (h : cfg.chunkIndex e = ci ∧ minEpoch ≤ e)
    (hle : ¬ t < ch.getTarget cfg v e) :
    minTargetUpdate cfg ci v t minEpoch ch e = .ok (ch, false) := by
  rw [minTargetUpdate, if_pos h, if_neg hle]

theorem minTargetUpdate_zero_of_lt (h : cfg.chunkIndex 0 = ci ∧ minEpoch ≤ 0)
    (hlt : t < ch.getTarget cfg v 0) (hset : ch.setTarget cfg v 0 t = .ok ch') :
    minTargetUpdate cfg ci v t minEpoch ch 0 = .ok (ch', false) := by
  rw [minTargetUpdate, if_pos h, if_pos hlt, hset]

theorem minTargetUpdate_succ_of_lt (h : cfg.chunkIndex (e + 1) = ci ∧ minEpoch ≤ e + 1)
    (hlt : t < ch.getTarget cfg v (e + 1)) (hset : ch.setTarget cfg v (e + 1) t = .ok ch') :
    minTargetUpdate cfg ci v t minEpoch ch (e + 1) = minTargetUpdate cfg ci v t minEpoch ch' e := by
  rw [minTargetUpdate, if_pos h, if_pos hlt, hset]

/-- How the walk through one chunk from `e` down ends: it left the chunk at `ex`, still inside
the window, having lowered every cell down to it; or it is done. -/
def MinChunkWalked (cfg : Config) (v t c s ci e : Nat) (db₀ db : SlasherDB) : Bool → Prop
  | true => ∃ ex, ex ≤ e ∧ c - (cfg.historyLength - 1) ≤ ex ∧ cfg.chunkIndex ex ≠ ci ∧
      (∀ e', ex < e' → e' ≤ e → cfg.chunkIndex e' = ci) ∧
      Walked cfg .min v t c (fun e' => ex < e' ∧ e' < s) db₀ db
  | false => Walked cfg .min v t c (TargetKind.min.Covers s) db₀ db

variable {db₀ db : SlasherDB}

/-- One write of the min walk: the cell at `e`, above the new target, is lowered to it. -/
theorem min_write (hc : cfg.Valid) (hw : Walkable cfg .min v s t c db₀) (hs : e < s)
    (hW : cfg.chunkIndex e = ci ∧ c - (cfg.historyLength - 1) ≤ e)
    (hwk : Walked cfg .min v t c (fun e' => e < e' ∧ e' < s) db₀
      (db.putChunk .min (cfg.diskKey (cfg.validatorChunkIndex v) ci) ch))
    (hlt : t < ch.getTarget cfg v e) :
    ch.setTarget cfg v e t = .ok (ch.setRawDistance cfg v e (t - e)) ∧
      Walked cfg .min v t c (fun e' => e ≤ e' ∧ e' < s) db₀
        (db.putChunk .min (cfg.diskKey (cfg.validatorChunkIndex v) ci)
          (ch.setRawDistance cfg v e (t - e))) := by
  have hst := hw.source_lt_target
  have htc := hw.target_le_current
  have hwin : cfg.InWindow c e := (Config.inWindow_iff hc).2 ⟨hW.2, by omega⟩
  have hcell : ch.getTarget cfg v e = db₀.cellTarget .min cfg v e := by
    rw [SlasherDB.getTarget_eq_cellTarget db .min ch hW.1, hwk.kept e hwin (by omega)]
  have hbound : db₀.cellTarget .min cfg v e ≤ e + maxDistance := hw.bounded e hwin
  rw [hcell] at hlt
  refine ⟨Chunk.setTarget_eq_ok (by omega) (by omega), ?_⟩
  rw [SlasherDB.putChunk_setRawDistance_eq db .min ch hW.1]
  refine hwk.writeCell hc hwin (by omega) ?_ (fun e' => by omega)
  show e + (t - e) = Min.min _ t
  omega

/-- The min walk at `e` stops without writing: the cell needs no change, or `e` is outside the
chunk or below the window. -/
theorem min_stop (hc : cfg.Valid) (hw : Walkable cfg .min v s t c db₀) (hs : e < s)
    (hwk : Walked cfg .min v t c (fun e' => e < e' ∧ e' < s) db₀
      (db.putChunk .min (cfg.diskKey (cfg.validatorChunkIndex v) ci) ch))
    (hstop : ¬ (cfg.chunkIndex e = ci ∧ c - (cfg.historyLength - 1) ≤ e ∧
      t < ch.getTarget cfg v e)) :
    ∃ keepGoing, minTargetUpdate cfg ci v t (c - (cfg.historyLength - 1)) ch e =
        .ok (ch, keepGoing) ∧
      MinChunkWalked cfg v t c s ci e db₀
        (db.putChunk .min (cfg.diskKey (cfg.validatorChunkIndex v) ci) ch) keepGoing := by
  have hst := hw.source_lt_target
  have htc := hw.target_le_current
  by_cases hW : cfg.chunkIndex e = ci ∧ c - (cfg.historyLength - 1) ≤ e
  · -- the cell at `e` is at most the target, and so are all below it
    have hle : ¬ t < ch.getTarget cfg v e := fun h => hstop ⟨hW.1, hW.2, h⟩
    refine ⟨false, minTargetUpdate_of_le hW hle, hwk.stop (fun e' _ h => h.2) ?_⟩
    have hwin : cfg.InWindow c e := (Config.inWindow_iff hc).2 ⟨hW.2, by omega⟩
    rw [SlasherDB.getTarget_eq_cellTarget db .min ch hW.1, hwk.kept e hwin (by omega)] at hle
    intro e' he' hcov hR
    have hmono := hw.mono e' e he' hwin (by simp only [TargetKind.Covers] at hcov; omega)
    show Min.min _ t = _
    omega
  · refine ⟨_, minTargetUpdate_of_not_walk hW, ?_⟩
    by_cases hm : c - (cfg.historyLength - 1) ≤ e
    · -- out of the chunk, inside the window: the next chunk goes on from `e`
      rw [decide_eq_true hm]
      exact ⟨e, Nat.le_refl e, hm, fun h => hW ⟨h, hm⟩, fun e' h₁ h₂ => absurd h₂ (by omega), hwk⟩
    · -- below the window: every epoch of the window it covers has been walked
      rw [decide_eq_false hm]
      refine hwk.stop (fun e' _ h => h.2) fun e' he' hcov hR => absurd ⟨?_, hcov⟩ hR
      have := ((Config.inWindow_iff hc).1 he').1
      omega

/-- The walk of `MinTargetChunk::update` from `e` down through chunk `ci`. -/
theorem minTargetUpdate_walk (hc : cfg.Valid) (hw : Walkable cfg .min v s t c db₀)
    (db : SlasherDB) (ci : Nat) :
    ∀ (e : Nat) (ch : Chunk), e < s →
      Walked cfg .min v t c (fun e' => e < e' ∧ e' < s) db₀
        (db.putChunk .min (cfg.diskKey (cfg.validatorChunkIndex v) ci) ch) →
      ∃ ch' keepGoing,
        minTargetUpdate cfg ci v t (c - (cfg.historyLength - 1)) ch e = .ok (ch', keepGoing) ∧
        MinChunkWalked cfg v t c s ci e db₀
          (db.putChunk .min (cfg.diskKey (cfg.validatorChunkIndex v) ci) ch') keepGoing := by
  intro e
  induction e with
  | zero =>
    intro ch hs hwk
    by_cases hgo : cfg.chunkIndex 0 = ci ∧ c - (cfg.historyLength - 1) ≤ 0 ∧
        t < ch.getTarget cfg v 0
    · -- the write at epoch zero ends the walk
      obtain ⟨hset, hwk'⟩ := min_write hc hw hs ⟨hgo.1, hgo.2.1⟩ hwk hgo.2.2
      refine ⟨_, false, minTargetUpdate_zero_of_lt ⟨hgo.1, hgo.2.1⟩ hgo.2.2 hset, ?_⟩
      exact hwk'.stop (fun e' _ h => h.2) fun e' _ h₁ h₂ => absurd ⟨Nat.zero_le e', h₁⟩ h₂
    · obtain ⟨keepGoing, h, hkg⟩ := min_stop hc hw hs hwk hgo
      exact ⟨ch, keepGoing, h, hkg⟩
  | succ e ih =>
    intro ch hs hwk
    by_cases hgo : cfg.chunkIndex (e + 1) = ci ∧ c - (cfg.historyLength - 1) ≤ e + 1 ∧
        t < ch.getTarget cfg v (e + 1)
    · obtain ⟨hset, hwk'⟩ := min_write hc hw hs ⟨hgo.1, hgo.2.1⟩ hwk hgo.2.2
      rw [minTargetUpdate_succ_of_lt ⟨hgo.1, hgo.2.1⟩ hgo.2.2 hset]
      obtain ⟨ch', keepGoing, h, hkg⟩ := ih _ (by omega) hwk'
      refine ⟨ch', keepGoing, h, ?_⟩
      cases keepGoing with
      | false => exact hkg
      | true =>
        -- the epochs the recursive walk passed, and `e + 1`, are in the chunk
        obtain ⟨ex, hex, hm, hne, hin, hwex⟩ := hkg
        refine ⟨ex, by omega, hm, hne, fun e' h₁ h₂ => ?_, hwex⟩
        rcases Nat.lt_or_ge e e' with h₃ | h₃
        · rw [show e' = e + 1 by omega]
          exact hgo.1
        · exact hin e' h₁ h₃
    · obtain ⟨keepGoing, h, hkg⟩ := min_stop hc hw hs hwk hgo
      exact ⟨ch, keepGoing, h, hkg⟩

end MinWalk

/-- One chunk of the loop of `apply_attestation_for_validator`. -/
theorem applyLoop_succ_of_update (k : TargetKind) {vci v t c fuel start : Nat} {db : SlasherDB}
    {ch : Chunk} {keepGoing : Bool}
    (h : k.update cfg (db.chunkForUpdate k (cfg.diskKey vci (cfg.chunkIndex start)))
      (cfg.chunkIndex start) v start t c = .ok (ch, keepGoing)) :
    applyLoop cfg k vci v t c (fuel + 1) db start =
      if keepGoing then
        applyLoop cfg k vci v t c fuel (db.putChunk k (cfg.diskKey vci (cfg.chunkIndex start)) ch)
          (k.nextStartEpoch cfg start)
      else .ok (db.putChunk k (cfg.diskKey vci (cfg.chunkIndex start)) ch) := by
  rw [applyLoop]
  simp only [h]

/-- The chunk loop of the min array lowers every cell of the window below `s`. -/
theorem applyLoop_min_walk (hc : cfg.Valid) {v s t c : Nat} {db₀ : SlasherDB}
    (hw : Walkable cfg .min v s t c db₀) :
    ∀ (fuel : Nat) (db : SlasherDB) (start : Nat), start + 1 ≤ fuel → start < s →
      Walked cfg .min v t c (fun e => start < e ∧ e < s) db₀ db →
      ∃ db', applyLoop cfg .min (cfg.validatorChunkIndex v) v t c fuel db start = .ok db' ∧
        Walked cfg .min v t c (TargetKind.min.Covers s) db₀ db' := by
  intro fuel
  induction fuel with
  | zero => intro db start hfuel; omega
  | succ fuel ih =>
    intro db start hfuel hs hwk
    -- the walk through the chunk of `start`, as read from the database
    have hwk₀ : Walked cfg .min v t c (fun e => start < e ∧ e < s) db₀
        (db.putChunk .min (cfg.diskKey (cfg.validatorChunkIndex v) (cfg.chunkIndex start))
          (db.chunkForUpdate .min
            (cfg.diskKey (cfg.validatorChunkIndex v) (cfg.chunkIndex start)))) := by
      rwa [SlasherDB.putChunk_chunkForUpdate]
    obtain ⟨ch', keepGoing, hupd, hkg⟩ :=
      minTargetUpdate_walk hc hw db (cfg.chunkIndex start) start _ hs hwk₀
    rw [applyLoop_succ_of_update .min hupd]
    cases keepGoing with
    | false => exact ⟨_, rfl, hkg⟩
    | true =>
      -- the walk left the chunk at the last epoch of the block before, where the loop goes on
      obtain ⟨ex, hex, hm, hne, hin, hwex⟩ := hkg
      have hnext : TargetKind.min.nextStartEpoch cfg start = ex :=
        (Config.exit_down_eq hc hex hin hne).symm
      have hlt : ex < start := Nat.lt_of_le_of_ne hex fun h => hne (h ▸ rfl)
      obtain ⟨db', hrun, hdone⟩ := ih _ ex (by omega) (by omega) hwex
      exact ⟨db', by rw [if_pos rfl, hnext]; exact hrun, hdone⟩

/-! ## The max walk -/

section MaxWalk

variable {ci v t c s fuel : Nat} {ch ch' : Chunk} {e : Nat}

theorem maxTargetUpdateAux_zero :
    maxTargetUpdateAux cfg ci v t c 0 ch e = .ok (ch, decide (e ≤ c)) := by
  rw [maxTargetUpdateAux]

theorem maxTargetUpdateAux_of_not_walk (h : ¬ (cfg.chunkIndex e = ci ∧ e ≤ c)) :
    maxTargetUpdateAux cfg ci v t c (fuel + 1) ch e = .ok (ch, decide (e ≤ c)) := by
  rw [maxTargetUpdateAux, if_neg h]

theorem maxTargetUpdateAux_of_le (h : cfg.chunkIndex e = ci ∧ e ≤ c)
    (hle : ¬ ch.getTarget cfg v e < t) :
    maxTargetUpdateAux cfg ci v t c (fuel + 1) ch e = .ok (ch, false) := by
  rw [maxTargetUpdateAux, if_pos h, if_neg hle]

theorem maxTargetUpdateAux_of_lt (h : cfg.chunkIndex e = ci ∧ e ≤ c)
    (hlt : ch.getTarget cfg v e < t) (hset : ch.setTarget cfg v e t = .ok ch') :
    maxTargetUpdateAux cfg ci v t c (fuel + 1) ch e =
      maxTargetUpdateAux cfg ci v t c fuel ch' (e + 1) := by
  rw [maxTargetUpdateAux, if_pos h, if_pos hlt, hset]

/-- How the walk through one chunk from `e` up ends: it left the chunk at `ex`, not past the
current epoch, having raised every cell up to it; or it is done. -/
def MaxChunkWalked (cfg : Config) (v t c s ci e : Nat) (db₀ db : SlasherDB) : Bool → Prop
  | true => ∃ ex, e ≤ ex ∧ ex ≤ c ∧ cfg.chunkIndex ex ≠ ci ∧
      (∀ e', e ≤ e' → e' < ex → cfg.chunkIndex e' = ci) ∧
      Walked cfg .max v t c (fun e' => s < e' ∧ e' < ex) db₀ db
  | false => Walked cfg .max v t c (TargetKind.max.Covers s) db₀ db

variable {db₀ db : SlasherDB}

/-- One write of the max walk: the cell at `e`, below the new target, is raised to it. -/
theorem max_write (hc : cfg.Valid) (hw : Walkable cfg .max v s t c db₀) (hs : s < e)
    (hW : cfg.chunkIndex e = ci ∧ e ≤ c)
    (hwk : Walked cfg .max v t c (fun e' => s < e' ∧ e' < e) db₀
      (db.putChunk .max (cfg.diskKey (cfg.validatorChunkIndex v) ci) ch))
    (hlt : ch.getTarget cfg v e < t) :
    ch.setTarget cfg v e t = .ok (ch.setRawDistance cfg v e (t - e)) ∧
      Walked cfg .max v t c (fun e' => s < e' ∧ e' < e + 1) db₀
        (db.putChunk .max (cfg.diskKey (cfg.validatorChunkIndex v) ci)
          (ch.setRawDistance cfg v e (t - e))) := by
  have htc := hw.target_le_current
  have hcs := hw.current_lt
  have hN : cfg.historyLength ≤ 65536 := hc.historyLength_le
  have hwin : cfg.InWindow c e := ⟨by omega, hW.2⟩
  have hcell : ch.getTarget cfg v e = db₀.cellTarget .max cfg v e := by
    rw [SlasherDB.getTarget_eq_cellTarget db .max ch hW.1, hwk.kept e hwin (by omega)]
  have hbound : e ≤ db₀.cellTarget .max cfg v e := hw.bounded e hwin
  rw [hcell] at hlt
  -- the distance fits: `t ≤ c < s + history_length` and `s < e`
  refine ⟨Chunk.setTarget_eq_ok (by omega) (by unfold maxDistance; omega), ?_⟩
  rw [SlasherDB.putChunk_setRawDistance_eq db .max ch hW.1]
  refine hwk.writeCell hc hwin (by omega) ?_ (fun e' => by omega)
  show e + (t - e) = Max.max _ t
  omega

/-- The max walk at `e` stops without writing: the cell needs no change, or `e` is outside the
chunk or past the current epoch. -/
theorem max_stop (hw : Walkable cfg .max v s t c db₀) (fuel : Nat) (hs : s < e)
    (hwk : Walked cfg .max v t c (fun e' => s < e' ∧ e' < e) db₀
      (db.putChunk .max (cfg.diskKey (cfg.validatorChunkIndex v) ci) ch))
    (hstop : ¬ (cfg.chunkIndex e = ci ∧ e ≤ c ∧ ch.getTarget cfg v e < t)) :
    ∃ keepGoing, maxTargetUpdateAux cfg ci v t c (fuel + 1) ch e = .ok (ch, keepGoing) ∧
      MaxChunkWalked cfg v t c s ci e db₀
        (db.putChunk .max (cfg.diskKey (cfg.validatorChunkIndex v) ci) ch) keepGoing := by
  have hcs := hw.current_lt
  by_cases hW : cfg.chunkIndex e = ci ∧ e ≤ c
  · -- the cell at `e` is at least the target, and so are all above it
    have hle : ¬ ch.getTarget cfg v e < t := fun h => hstop ⟨hW.1, hW.2, h⟩
    refine ⟨false, maxTargetUpdateAux_of_le hW hle, hwk.stop (fun e' _ h => h.1) ?_⟩
    have hwin : cfg.InWindow c e := ⟨by omega, hW.2⟩
    rw [SlasherDB.getTarget_eq_cellTarget db .max ch hW.1, hwk.kept e hwin (by omega)] at hle
    intro e' he' hcov hR
    have hmono := hw.mono e e' hwin he' (by simp only [TargetKind.Covers] at hcov; omega)
    show Max.max _ t = _
    omega
  · refine ⟨_, maxTargetUpdateAux_of_not_walk hW, ?_⟩
    by_cases hm : e ≤ c
    · -- out of the chunk, not past the current epoch: the next chunk goes on from `e`
      rw [decide_eq_true hm]
      exact ⟨e, Nat.le_refl e, hm, fun h => hW ⟨h, hm⟩, fun e' h₁ h₂ => absurd h₂ (by omega), hwk⟩
    · -- past the current epoch: every epoch of the window it covers has been walked
      rw [decide_eq_false hm]
      refine hwk.stop (fun e' _ h => h.1) fun e' he' hcov hR => absurd ⟨hcov, ?_⟩ hR
      have := he'.2
      omega

/-- The walk of `MaxTargetChunk::update` from `e` up through chunk `ci`, with `fuel` enough to
reach the current epoch. -/
theorem maxTargetUpdateAux_walk (hc : cfg.Valid) (hw : Walkable cfg .max v s t c db₀)
    (db : SlasherDB) (ci : Nat) :
    ∀ (fuel : Nat) (ch : Chunk) (e : Nat), s < e → c + 1 ≤ e + fuel →
      Walked cfg .max v t c (fun e' => s < e' ∧ e' < e) db₀
        (db.putChunk .max (cfg.diskKey (cfg.validatorChunkIndex v) ci) ch) →
      ∃ ch' keepGoing, maxTargetUpdateAux cfg ci v t c fuel ch e = .ok (ch', keepGoing) ∧
        MaxChunkWalked cfg v t c s ci e db₀
          (db.putChunk .max (cfg.diskKey (cfg.validatorChunkIndex v) ci) ch') keepGoing := by
  intro fuel
  induction fuel with
  | zero =>
    -- out of fuel exactly past the current epoch
    intro ch e hs hfuel hwk
    refine ⟨ch, false, by rw [maxTargetUpdateAux_zero, decide_eq_false (by omega)], ?_⟩
    refine hwk.stop (fun e' _ h => h.1) fun e' he' hcov hR => absurd ⟨hcov, ?_⟩ hR
    have := he'.2
    omega
  | succ fuel ih =>
    intro ch e hs hfuel hwk
    by_cases hgo : cfg.chunkIndex e = ci ∧ e ≤ c ∧ ch.getTarget cfg v e < t
    · obtain ⟨hset, hwk'⟩ := max_write hc hw hs ⟨hgo.1, hgo.2.1⟩ hwk hgo.2.2
      rw [maxTargetUpdateAux_of_lt ⟨hgo.1, hgo.2.1⟩ hgo.2.2 hset]
      obtain ⟨ch', keepGoing, h, hkg⟩ := ih _ (e + 1) (by omega) (by omega) hwk'
      refine ⟨ch', keepGoing, h, ?_⟩
      cases keepGoing with
      | false => exact hkg
      | true =>
        -- the epochs the recursive walk passed, and `e`, are in the chunk
        obtain ⟨ex, hex, hm, hne, hin, hwex⟩ := hkg
        refine ⟨ex, by omega, hm, hne, fun e' h₁ h₂ => ?_, hwex⟩
        rcases Nat.lt_or_ge e e' with h₃ | h₃
        · exact hin e' h₃ h₂
        · rw [show e' = e by omega]
          exact hgo.1
    · obtain ⟨keepGoing, h, hkg⟩ := max_stop hw fuel hs hwk hgo
      exact ⟨ch, keepGoing, h, hkg⟩

end MaxWalk

/-- The chunk loop of the max array raises every cell of the window above `s`. -/
theorem applyLoop_max_walk (hc : cfg.Valid) {v s t c : Nat} {db₀ : SlasherDB}
    (hw : Walkable cfg .max v s t c db₀) :
    ∀ (fuel : Nat) (db : SlasherDB) (start : Nat), c + 1 ≤ start + fuel → s < start →
      Walked cfg .max v t c (fun e => s < e ∧ e < start) db₀ db →
      ∃ db', applyLoop cfg .max (cfg.validatorChunkIndex v) v t c fuel db start = .ok db' ∧
        Walked cfg .max v t c (TargetKind.max.Covers s) db₀ db' := by
  intro fuel
  induction fuel with
  | zero =>
    -- past the current epoch: nothing is left to walk
    intro db start hfuel hs hwk
    refine ⟨db, rfl, hwk.stop (fun e _ h => h.1) fun e he hcov hR => absurd ⟨hcov, ?_⟩ hR⟩
    have := he.2
    omega
  | succ fuel ih =>
    intro db start hfuel hs hwk
    have hwk₀ : Walked cfg .max v t c (fun e => s < e ∧ e < start) db₀
        (db.putChunk .max (cfg.diskKey (cfg.validatorChunkIndex v) (cfg.chunkIndex start))
          (db.chunkForUpdate .max
            (cfg.diskKey (cfg.validatorChunkIndex v) (cfg.chunkIndex start)))) := by
      rwa [SlasherDB.putChunk_chunkForUpdate]
    obtain ⟨ch', keepGoing, hupd, hkg⟩ :=
      maxTargetUpdateAux_walk hc hw db (cfg.chunkIndex start) (c + 1 - start) _ start hs
        (by omega) hwk₀
    rw [applyLoop_succ_of_update .max hupd]
    cases keepGoing with
    | false => exact ⟨_, rfl, hkg⟩
    | true =>
      -- the walk left the chunk at the first epoch of the next block, where the loop goes on
      obtain ⟨ex, hex, hm, hne, hin, hwex⟩ := hkg
      have hnext : TargetKind.max.nextStartEpoch cfg start = ex :=
        (Config.exit_up_eq hc hex hin hne).symm
      have hlt : start < ex := Nat.lt_of_le_of_ne hex fun h => hne (h ▸ rfl)
      obtain ⟨db', hrun, hdone⟩ := ih _ ex (by omega) (by omega) hwex
      exact ⟨db', by rw [if_pos rfl, hnext]; exact hrun, hdone⟩

/-- The walk of an applied attestation `(s, t)` from `first_start_epoch`: it ends with every
cell of the window that `s` covers joined with `t`. -/
theorem applyLoop_walk (hc : cfg.Valid) {k : TargetKind} {v s t c start : Nat} {db₀ : SlasherDB}
    (hw : Walkable cfg k v s t c db₀) (hstart : k.firstStartEpoch cfg s c = some start) :
    ∃ db', applyLoop cfg k (cfg.validatorChunkIndex v) v t c (c + 1) db₀ start = .ok db' ∧
      Walked cfg k v t c (k.Covers s) db₀ db' := by
  have hst := hw.source_lt_target
  have htc := hw.target_le_current
  cases k with
  | min =>
    simp only [TargetKind.firstStartEpoch, Option.ite_none_right_eq_some, Option.some.injEq] at hstart
    obtain ⟨hs, rfl⟩ := hstart
    exact applyLoop_min_walk hc hw (c + 1) db₀ (s - 1) (by omega) (by omega)
      (Walked.start fun e => by omega)
  | max =>
    simp only [TargetKind.firstStartEpoch, Option.ite_none_right_eq_some, Option.some.injEq] at hstart
    obtain ⟨hs, rfl⟩ := hstart
    exact applyLoop_max_walk hc hw (c + 1) db₀ (s + 1) (by omega) (by omega)
      (Walked.start fun e => by omega)

/-- Without a start epoch there is nothing to walk: the source is zero (min array) or not below
the current epoch (max array), and covers no epoch of the window. -/
theorem walked_of_firstStartEpoch_eq_none {k : TargetKind} {v s t c : Nat} {db₀ : SlasherDB}
    (hw : Walkable cfg k v s t c db₀) (hstart : k.firstStartEpoch cfg s c = none) :
    Walked cfg k v t c (k.Covers s) db₀ db₀ := by
  have hst := hw.source_lt_target
  have htc := hw.target_le_current
  have hcs := hw.current_lt
  refine ⟨SlasherDB.Frame.refl db₀, fun e he hcov => absurd hcov ?_, fun _ _ _ => rfl⟩
  have := he.1
  cases k with
  | min =>
    simp only [TargetKind.firstStartEpoch, ite_eq_right_iff, reduceCtorEq, imp_false] at hstart
    simp only [TargetKind.Covers]
    omega
  | max =>
    simp only [TargetKind.firstStartEpoch, ite_eq_right_iff, reduceCtorEq, imp_false] at hstart
    simp only [TargetKind.Covers]
    have := he.2
    omega

end Vibehouse.Slasher
