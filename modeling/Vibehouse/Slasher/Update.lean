import Vibehouse.Slasher.Walk

/-! # `update_array`: the check, the application and the epoch update

`CellsMatch` says that the cells of one array of one validator, over the window of
`history_length` epochs ending at `c`, stand for a list of applied attestations: the min-target
cell at `e` decodes to `minTargetOf`, the max-target cell to `maxTargetOf`. From it:

* `checkSlashable_reports`: the check against the cell at the source epoch finds a surround
  exactly when an applied attestation conflicts with the new one (`Reports`);
* `applyAttestationForValidator_spec`: an attestation reported not slashable is appended;
* `cellTarget_epochUpdateForValidator`: moving the window from the previous current epoch resets
  the epochs that entered it, and they stand for no applied attestation;
* `updateArray_spec`: one pass of `update_array` over a validator chunk, with `ArrayInv` for the
  validators of the chunk and the statuses of the pass (`StatusesReported`). -/

namespace Vibehouse.Slasher

variable {cfg : Config}

/-- The cells of array `k` of validator `v` over the window ending at `c` stand for `applied`. -/
def CellsMatch (cfg : Config) (k : TargetKind) (v c : Nat) (applied : List (Nat × Nat))
    (db : SlasherDB) : Prop :=
  ∀ e, cfg.InWindow c e → db.cellTarget k cfg v e = k.targetOf applied e

/-- An attestation as the slasher processes it at current epoch `c`. -/
def ValidAt (cfg : Config) (c : Nat) (a : IndexedAttestation) : Prop :=
  a.sourceEpoch < a.targetEpoch ∧ a.targetEpoch ≤ c ∧ c - cfg.historyLength < a.sourceEpoch

instance (cfg : Config) (c : Nat) (a : IndexedAttestation) : Decidable (ValidAt cfg c a) :=
  inferInstanceAs (Decidable (_ ∧ _ ∧ _))

section CellsMatch

variable {k : TargetKind} {v c : Nat} {applied : List (Nat × Nat)} {db₀ db : SlasherDB}

theorem CellsMatch.frame (h : CellsMatch cfg k v c applied db₀) {touched : TargetKind → Nat → Prop}
    (hf : db.Frame db₀ cfg touched) (hk : ¬ touched k v) : CellsMatch cfg k v c applied db :=
  fun e he => (hf.cellTarget_eq k v e hk).trans (h e he)

theorem CellsMatch.walkable (h : CellsMatch cfg k v c applied db) {a : IndexedAttestation}
    (ha : ValidAt cfg c a) : Walkable cfg k v a.sourceEpoch a.targetEpoch c db where
  mono e₁ e₂ he₁ he₂ hle := by
    rw [h e₁ he₁, h e₂ he₂]
    exact targetOf_mono applied k hle
  bounded e he := by
    rw [h e he]
    exact bounded_targetOf applied k e
  source_lt_target := ha.1
  target_le_current := ha.2.1
  current_lt := by
    have := ha.2.2
    omega

/-- A finished walk appends the attestation. -/
theorem CellsMatch.walked (h : CellsMatch cfg k v c applied db₀) {s t : Nat}
    (hw : Walked cfg k v t c (k.Covers s) db₀ db) :
    CellsMatch cfg k v c (applied ++ [(s, t)]) db := by
  intro e he
  by_cases hcov : k.Covers s e
  · rw [hw.joined e he hcov, h e he, targetOf_append_of_covers applied (a := (s, t)) hcov]
  · rw [hw.kept e he hcov, h e he, targetOf_append_of_not_covers applied (a := (s, t)) hcov]

end CellsMatch

/-! ## The check -/

/-- The applied attestation `p` is surrounded by `a` (min array), or surrounds it (max array). -/
def TargetKind.Conflicts : TargetKind → IndexedAttestation → Nat × Nat → Prop
  | .min, a, p => a.sourceEpoch < p.1 ∧ p.2 < a.targetEpoch
  | .max, a, p => p.1 < a.sourceEpoch ∧ a.targetEpoch < p.2

instance : ∀ (k : TargetKind) (a : IndexedAttestation) (p : Nat × Nat), Decidable (k.Conflicts a p)
  | .min, _, _ => inferInstanceAs (Decidable (_ ∧ _))
  | .max, _, _ => inferInstanceAs (Decidable (_ ∧ _))

/-- The surround each array reports. -/
def TargetKind.surroundStatus : TargetKind → IndexedAttestation → AttesterSlashingStatus
  | .min, existing => .surroundsExisting existing
  | .max, existing => .surroundedByExisting existing

/-- What an array should report for `a` after the attestations `applied`: not slashable exactly
when none of them conflicts with `a`; otherwise a double vote, or a surround with an existing
attestation that conflicts with `a`. -/
structure Reports (k : TargetKind) (applied : List (Nat × Nat)) (a : IndexedAttestation)
    (status : AttesterSlashingStatus) : Prop where
  notSlashable_iff : status = .notSlashable ↔ ¬ ∃ p ∈ applied, k.Conflicts a p
  slashable : status ≠ .notSlashable → status = .alreadyDoubleVoted ∨
    ∃ existing, status = k.surroundStatus existing ∧
      k.Conflicts a (existing.sourceEpoch, existing.targetEpoch)

section Check

variable {v c : Nat} {applied : List (Nat × Nat)} {db : SlasherDB} {a : IndexedAttestation}

/-- The attester record of an applied target, keyed by its target. -/
theorem getAttestationForValidator_of_mem
    (hrec : ∀ p ∈ applied, (db.attesters v p.2).isSome)
    (hkey : ∀ t existing, db.attesters v t = some existing → existing.targetEpoch = t)
    {p : Nat × Nat} (hp : p ∈ applied) :
    ∃ existing, db.getAttestationForValidator v p.2 = .ok existing ∧
      existing.targetEpoch = p.2 := by
  obtain ⟨existing, hex⟩ := Option.isSome_iff_exists.1 (hrec p hp)
  exact ⟨existing, by simp [SlasherDB.getAttestationForValidator, hex], hkey _ _ hex⟩

theorem checkSlashable_min_reports (hc : cfg.Valid) (h : CellsMatch cfg .min v c applied db)
    (ha : ValidAt cfg c a) (hrec : ∀ p ∈ applied, (db.attesters v p.2).isSome)
    (hkey : ∀ t existing, db.attesters v t = some existing → existing.targetEpoch = t) :
    ∃ status, TargetKind.min.checkSlashable cfg db
        (db.chunkForUpdate .min (cfg.diskKey (cfg.validatorChunkIndex v)
          (cfg.chunkIndex a.sourceEpoch))) v a = .ok status ∧
      Reports .min applied a status := by
  obtain ⟨hst, htc, hsc⟩ := ha
  have hN : cfg.historyLength ≤ 65536 := hc.historyLength_le
  have hcell : (db.chunkForUpdate .min (cfg.diskKey (cfg.validatorChunkIndex v)
      (cfg.chunkIndex a.sourceEpoch))).getTarget cfg v a.sourceEpoch =
        minTargetOf applied a.sourceEpoch := h a.sourceEpoch ⟨by omega, by omega⟩
  -- the target fits in the distance, so the cell is below it exactly at a surround
  have hdist : a.targetEpoch ≤ a.sourceEpoch + maxDistance := by
    unfold maxDistance
    omega
  have hfire : minTargetOf applied a.sourceEpoch < a.targetEpoch ↔
      ∃ p ∈ applied, TargetKind.min.Conflicts a p := by
    rw [minTargetOf_lt_iff, or_iff_left (Nat.not_lt.2 hdist)]
    rfl
  simp only [TargetKind.checkSlashable, hcell]
  by_cases hlt : minTargetOf applied a.sourceEpoch < a.targetEpoch
  · -- the least later target is the target of an applied attestation, which is recorded
    obtain ⟨q, hq, -, hqeq⟩ := minTargetOf_mem applied (Nat.lt_of_lt_of_le hlt hdist)
    obtain ⟨existing, hget, hext⟩ := getAttestationForValidator_of_mem hrec hkey hq
    rw [if_pos hlt, ← hqeq, hget]
    have hslash : ∀ status : AttesterSlashingStatus, status ≠ .notSlashable →
        (status = .notSlashable ↔ ¬ ∃ p ∈ applied, TargetKind.min.Conflicts a p) :=
      fun _ hne => ⟨fun h' => absurd h' hne, fun hn => absurd (hfire.1 hlt) hn⟩
    by_cases hs : a.sourceEpoch < existing.sourceEpoch
    · -- the recorded attestation at the least later target is surrounded
      have hconf : TargetKind.min.Conflicts a (existing.sourceEpoch, existing.targetEpoch) :=
        show _ ∧ _ from ⟨hs, by rw [hext, hqeq]; exact hlt⟩
      exact ⟨.surroundsExisting existing, by simp only [if_pos hs],
        ⟨hslash _ nofun, fun _ => .inr ⟨existing, rfl, hconf⟩⟩⟩
    · exact ⟨.alreadyDoubleVoted, by simp only [if_neg hs], ⟨hslash _ nofun, fun _ => .inl rfl⟩⟩
  · rw [if_neg hlt]
    exact ⟨_, rfl, ⟨⟨fun _ hex => hlt (hfire.2 hex), fun _ => rfl⟩, fun h' => absurd rfl h'⟩⟩

theorem checkSlashable_max_reports (h : CellsMatch cfg .max v c applied db)
    (ha : ValidAt cfg c a) (hrec : ∀ p ∈ applied, (db.attesters v p.2).isSome)
    (hkey : ∀ t existing, db.attesters v t = some existing → existing.targetEpoch = t) :
    ∃ status, TargetKind.max.checkSlashable cfg db
        (db.chunkForUpdate .max (cfg.diskKey (cfg.validatorChunkIndex v)
          (cfg.chunkIndex a.sourceEpoch))) v a = .ok status ∧
      Reports .max applied a status := by
  obtain ⟨hst, htc, hsc⟩ := ha
  have hcell : (db.chunkForUpdate .max (cfg.diskKey (cfg.validatorChunkIndex v)
      (cfg.chunkIndex a.sourceEpoch))).getTarget cfg v a.sourceEpoch =
        maxTargetOf applied a.sourceEpoch := h a.sourceEpoch ⟨by omega, by omega⟩
  -- the target is above the source, so the cell is above it exactly at a surround
  have hfire : a.targetEpoch < maxTargetOf applied a.sourceEpoch ↔
      ∃ p ∈ applied, TargetKind.max.Conflicts a p := by
    rw [lt_maxTargetOf_iff, or_iff_left (by omega)]
    rfl
  simp only [TargetKind.checkSlashable, hcell]
  by_cases hlt : a.targetEpoch < maxTargetOf applied a.sourceEpoch
  · -- the greatest earlier target is the target of an applied attestation, which is recorded
    obtain ⟨q, hq, -, hqeq⟩ := maxTargetOf_mem applied (Nat.lt_trans hst hlt)
    obtain ⟨existing, hget, hext⟩ := getAttestationForValidator_of_mem hrec hkey hq
    rw [if_pos hlt, ← hqeq, hget]
    have hslash : ∀ status : AttesterSlashingStatus, status ≠ .notSlashable →
        (status = .notSlashable ↔ ¬ ∃ p ∈ applied, TargetKind.max.Conflicts a p) :=
      fun _ hne => ⟨fun h' => absurd h' hne, fun hn => absurd (hfire.1 hlt) hn⟩
    by_cases hs : existing.sourceEpoch < a.sourceEpoch
    · -- the recorded attestation at the greatest earlier target surrounds it
      have hconf : TargetKind.max.Conflicts a (existing.sourceEpoch, existing.targetEpoch) :=
        show _ ∧ _ from ⟨hs, by rw [hext, hqeq]; exact hlt⟩
      exact ⟨.surroundedByExisting existing, by simp only [if_pos hs],
        ⟨hslash _ nofun, fun _ => .inr ⟨existing, rfl, hconf⟩⟩⟩
    · exact ⟨.alreadyDoubleVoted, by simp only [if_neg hs], ⟨hslash _ nofun, fun _ => .inl rfl⟩⟩
  · rw [if_neg hlt]
    exact ⟨_, rfl, ⟨⟨fun _ hex => hlt (hfire.2 hex), fun _ => rfl⟩, fun h' => absurd rfl h'⟩⟩

/-- `check_slashable` reports what the applied attestations call for. -/
theorem checkSlashable_reports (hc : cfg.Valid) {k : TargetKind}
    (h : CellsMatch cfg k v c applied db) (ha : ValidAt cfg c a)
    (hrec : ∀ p ∈ applied, (db.attesters v p.2).isSome)
    (hkey : ∀ t existing, db.attesters v t = some existing → existing.targetEpoch = t) :
    ∃ status, k.checkSlashable cfg db
        (db.chunkForUpdate k (cfg.diskKey (cfg.validatorChunkIndex v)
          (cfg.chunkIndex a.sourceEpoch))) v a = .ok status ∧
      Reports k applied a status := by
  cases k
  · exact checkSlashable_min_reports hc h ha hrec hkey
  · exact checkSlashable_max_reports h ha hrec hkey

end Check

/-! ## One attestation -/

/-- `apply_attestation_for_validator`: the status the applied attestations call for, and the
attestation appended when it is not slashable; only the cells of `v` in array `k` change. -/
theorem applyAttestationForValidator_spec (hc : cfg.Valid) {k : TargetKind} {vci v c : Nat}
    {applied : List (Nat × Nat)} {db : SlasherDB} {a : IndexedAttestation}
    (hv : cfg.validatorChunkIndex v = vci) (h : CellsMatch cfg k v c applied db)
    (ha : ValidAt cfg c a) (hrec : ∀ p ∈ applied, (db.attesters v p.2).isSome)
    (hkey : ∀ t existing, db.attesters v t = some existing → existing.targetEpoch = t) :
    ∃ status db', applyAttestationForValidator cfg k db vci v a c = .ok (status, db') ∧
      Reports k applied a status ∧ db'.Frame db cfg (fun k' v' => k' = k ∧ v' = v) ∧
      CellsMatch cfg k v c (if status = .notSlashable then
        applied ++ [(a.sourceEpoch, a.targetEpoch)] else applied) db' := by
  subst hv
  obtain ⟨status, hcheck, hrep⟩ := checkSlashable_reports hc h ha hrec hkey
  unfold applyAttestationForValidator
  simp only [hcheck]
  cases status with
  | notSlashable =>
    cases hstart : k.firstStartEpoch cfg a.sourceEpoch c with
    | none =>
      exact ⟨.notSlashable, db, rfl, hrep, SlasherDB.Frame.refl db, by
        rw [if_pos rfl]
        exact h.walked (walked_of_firstStartEpoch_eq_none (h.walkable ha) hstart)⟩
    | some start =>
      obtain ⟨db', hrun, hw⟩ := applyLoop_walk hc (h.walkable ha) hstart
      exact ⟨.notSlashable, db', by simp only [hrun], hrep, hw.frame, by
        rw [if_pos rfl]
        exact h.walked hw⟩
  | alreadyDoubleVoted =>
    exact ⟨_, db, rfl, hrep, SlasherDB.Frame.refl db, by rw [if_neg (by simp)]; exact h⟩
  | doubleVote existing =>
    exact ⟨_, db, rfl, hrep, SlasherDB.Frame.refl db, by rw [if_neg (by simp)]; exact h⟩
  | surroundsExisting existing =>
    exact ⟨_, db, rfl, hrep, SlasherDB.Frame.refl db, by rw [if_neg (by simp)]; exact h⟩
  | surroundedByExisting existing =>
    exact ⟨_, db, rfl, hrep, SlasherDB.Frame.refl db, by rw [if_neg (by simp)]; exact h⟩

/-! ## The attestation loop -/

/-- Record one status of `update_array`: an attestation reported not slashable is applied. -/
def recordStatus (applied : Nat → List (Nat × Nat)) :
    Nat × IndexedAttestation × AttesterSlashingStatus → Nat → List (Nat × Nat)
  | (v, a, status) =>
    if status = .notSlashable then
      Function.update applied v (applied v ++ [(a.sourceEpoch, a.targetEpoch)])
    else applied

/-- The attestations applied to an array, per validator, after the statuses of a pass. -/
def appliedAfter (applied : Nat → List (Nat × Nat))
    (statuses : List (Nat × IndexedAttestation × AttesterSlashingStatus)) :
    Nat → List (Nat × Nat) :=
  statuses.foldl recordStatus applied

/-- Each status of a pass is what the array should report after the attestations applied
before it, in the pass's order. -/
def StatusesReported (k : TargetKind) :
    (Nat → List (Nat × Nat)) → List (Nat × IndexedAttestation × AttesterSlashingStatus) → Prop
  | _, [] => True
  | applied, (v, a, status) :: rest =>
    Reports k (applied v) a status ∧ StatusesReported k (recordStatus applied (v, a, status)) rest

theorem recordStatus_self (applied : Nat → List (Nat × Nat)) (v : Nat) (a : IndexedAttestation)
    (status : AttesterSlashingStatus) :
    recordStatus applied (v, a, status) v = if status = .notSlashable then
      applied v ++ [(a.sourceEpoch, a.targetEpoch)] else applied v := by
  by_cases h : status = .notSlashable <;> simp [recordStatus, h]

theorem recordStatus_of_ne (applied : Nat → List (Nat × Nat)) {v v' : Nat} (hv : v' ≠ v)
    (a : IndexedAttestation) (status : AttesterSlashingStatus) :
    recordStatus applied (v, a, status) v' = applied v' := by
  by_cases h : status = .notSlashable <;> simp [recordStatus, h, hv]

/-- A validator with no status keeps its attestations. -/
theorem appliedAfter_of_forall_ne {v : Nat} :
    ∀ {applied : Nat → List (Nat × Nat)} {statuses : List (Nat × IndexedAttestation × AttesterSlashingStatus)},
      (∀ x ∈ statuses, x.1 ≠ v) → appliedAfter applied statuses v = applied v
  | _, [], _ => rfl
  | applied, (v', a, status) :: rest, h => by
    rw [appliedAfter, List.foldl_cons, ← appliedAfter,
      appliedAfter_of_forall_ne fun x hx => h x (List.mem_cons_of_mem _ hx),
      recordStatus_of_ne applied (fun hv => h _ List.mem_cons_self hv.symm)]

/-- An attestation applied in a pass comes from one of its statuses. -/
theorem mem_appliedAfter {v : Nat} {p : Nat × Nat} :
    ∀ {applied : Nat → List (Nat × Nat)} {statuses : List (Nat × IndexedAttestation × AttesterSlashingStatus)},
      p ∈ appliedAfter applied statuses v →
        p ∈ applied v ∨ ∃ x ∈ statuses, p = (x.2.1.sourceEpoch, x.2.1.targetEpoch)
  | _, [], h => .inl h
  | applied, (v', a, status) :: rest, h => by
    rw [appliedAfter, List.foldl_cons, ← appliedAfter] at h
    rcases mem_appliedAfter h with h | ⟨x, hx, rfl⟩
    · by_cases hv : v = v'
      · subst hv
        rw [recordStatus_self] at h
        split_ifs at h
        · rcases List.mem_append.1 h with h | h
          · exact .inl h
          · exact .inr ⟨(v, a, status), List.mem_cons_self, List.mem_singleton.1 h⟩
        · exact .inl h
      · rw [recordStatus_of_ne applied hv] at h
        exact .inl h
    · exact .inr ⟨x, List.mem_cons_of_mem _ hx, rfl⟩

/-- The invariant of the attestation loop of `update_array` for array `k`, validator chunk
`vci` and current epoch `c`. -/
structure ArrayInv (cfg : Config) (k : TargetKind) (vci c : Nat)
    (applied : Nat → List (Nat × Nat)) (db : SlasherDB) : Prop where
  cells : ∀ v, cfg.validatorChunkIndex v = vci → CellsMatch cfg k v c (applied v) db
  recorded : ∀ v, ∀ p ∈ applied v, (db.attesters v p.2).isSome
  keyed : ∀ v t existing, db.attesters v t = some existing → existing.targetEpoch = t

/-- One attestation of the loop keeps the invariant. -/
theorem ArrayInv.apply (hc : cfg.Valid) {k : TargetKind} {vci c v : Nat}
    {applied : Nat → List (Nat × Nat)} {db : SlasherDB} {a : IndexedAttestation}
    (hinv : ArrayInv cfg k vci c applied db) (hv : cfg.validatorChunkIndex v = vci)
    (ha : ValidAt cfg c a) (hrec : (db.attesters v a.targetEpoch).isSome) :
    ∃ status db', applyAttestationForValidator cfg k db vci v a c = .ok (status, db') ∧
      Reports k (applied v) a status ∧ db'.Frame db cfg (fun k' v' => k' = k ∧ v' = v) ∧
      ArrayInv cfg k vci c (recordStatus applied (v, a, status)) db' := by
  obtain ⟨status, db', happ, hrep, hframe, hcells⟩ :=
    applyAttestationForValidator_spec hc hv (hinv.cells v hv) ha (hinv.recorded v) (hinv.keyed v)
  refine ⟨status, db', happ, hrep, hframe, ⟨fun v' hv' => ?_, fun v' p hp => ?_, ?_⟩⟩
  · by_cases hvv : v' = v
    · subst hvv
      rw [recordStatus_self]
      exact hcells
    · rw [recordStatus_of_ne applied hvv]
      exact (hinv.cells v' hv').frame hframe fun h => hvv h.2
  · rw [hframe.attesters_eq]
    by_cases hvv : v' = v
    · subst hvv
      rw [recordStatus_self] at hp
      split_ifs at hp
      · rcases List.mem_append.1 hp with hp | hp
        · exact hinv.recorded v' p hp
        · rw [List.mem_singleton.1 hp]
          exact hrec
      · exact hinv.recorded v' p hp
    · rw [recordStatus_of_ne applied hvv] at hp
      exact hinv.recorded v' p hp
  · rw [hframe.attesters_eq]
    exact hinv.keyed

/-- The attestation loop of `update_array`: every attestation of `order` is checked and, when
not slashable, applied; the invariant holds throughout and only the cells of the chunk's
validators in array `k` change. -/
theorem applyAll_spec (hc : cfg.Valid) {k : TargetKind} {vci c : Nat} :
    ∀ (order : List (Nat × IndexedAttestation)) (applied : Nat → List (Nat × Nat))
      (db : SlasherDB),
      (∀ va ∈ order, cfg.validatorChunkIndex va.1 = vci ∧ ValidAt cfg c va.2 ∧
        (db.attesters va.1 va.2.targetEpoch).isSome) →
      ArrayInv cfg k vci c applied db →
      ∃ statuses db', applyAll cfg k vci c db order = .ok (statuses, db') ∧
        statuses.map (fun x => (x.1, x.2.1)) = order ∧
        StatusesReported k applied statuses ∧
        ArrayInv cfg k vci c (appliedAfter applied statuses) db' ∧
        db'.Frame db cfg (fun k' v' => k' = k ∧ cfg.validatorChunkIndex v' = vci)
  | [], applied, db, _, hinv => ⟨[], db, rfl, rfl, trivial, hinv, SlasherDB.Frame.refl db⟩
  | (v, a) :: rest, applied, db, horder, hinv => by
    obtain ⟨hv, ha, hrec⟩ := horder (v, a) List.mem_cons_self
    obtain ⟨status, db₁, happ, hrep, hframe, hinv₁⟩ := hinv.apply hc hv ha hrec
    have hrest : ∀ va ∈ rest, cfg.validatorChunkIndex va.1 = vci ∧ ValidAt cfg c va.2 ∧
        (db₁.attesters va.1 va.2.targetEpoch).isSome := by
      intro va hva
      rw [hframe.attesters_eq]
      exact horder va (List.mem_cons_of_mem _ hva)
    obtain ⟨statuses, db', hall, hmap, hrep', hinv', hframe'⟩ :=
      applyAll_spec hc rest _ db₁ hrest hinv₁
    refine ⟨(v, a, status) :: statuses, db', ?_, by rw [List.map_cons, hmap], ⟨hrep, hrep'⟩,
      hinv', hframe'.trans (hframe.mono fun k' v' h => ⟨h.1, h.2 ▸ hv⟩)⟩
    simp only [applyAll, happ, hall]

/-! ## The epoch update -/

section EpochUpdate

variable (hc : cfg.Valid) (k : TargetKind)
include hc

/-- The cells of `v` after writing `d` at each epoch of `epochs`: a cell is written when one of
them agrees with its epoch modulo `history_length`. -/
theorem cellTarget_foldl_writeCell (v d : Nat) :
    ∀ (epochs : List Nat) (db : SlasherDB) (e : Nat),
      (epochs.foldl (fun db e => db.writeCell k cfg v e d) db).cellTarget k cfg v e =
        if ∃ e' ∈ epochs, e' % cfg.historyLength = e % cfg.historyLength then e + d
        else db.cellTarget k cfg v e
  | [], db, e => by simp
  | e' :: rest, db, e => by
    have haddr : cfg.cellAddress v e = cfg.cellAddress v e' ↔
        e' % cfg.historyLength = e % cfg.historyLength := by
      rw [Config.cellAddress_eq_iff hc]
      exact ⟨fun h => h.2.symm, fun h => ⟨rfl, h.symm⟩⟩
    rw [List.foldl_cons, cellTarget_foldl_writeCell v d rest, SlasherDB.cellTarget_writeCell]
    simp only [true_and, haddr, List.mem_cons, or_and_right, exists_or, exists_eq_left]
    by_cases h₁ : ∃ x ∈ rest, x % cfg.historyLength = e % cfg.historyLength
    · simp only [h₁, if_true, or_true]
    · by_cases h₂ : e' % cfg.historyLength = e % cfg.historyLength
      · simp only [h₁, h₂, if_true, if_false, true_or]
      · simp only [h₁, h₂, if_false, or_self]

theorem frame_foldl_writeCell (v d : Nat) :
    ∀ (epochs : List Nat) (db : SlasherDB),
      (epochs.foldl (fun db e => db.writeCell k cfg v e d) db).Frame db cfg
        (fun k' v' => k' = k ∧ v' = v)
  | [], db => SlasherDB.Frame.refl db
  | e :: rest, db => by
    rw [List.foldl_cons]
    exact (frame_foldl_writeCell v d rest _).trans (SlasherDB.frame_writeCell hc db k v e d)

omit hc in
/-- An epoch of the window is reset exactly when it is not below the previous current epoch. -/
theorem exists_mod_eq_range'_iff {p c e : Nat} (he : cfg.InWindow c e) :
    (∃ e' ∈ List.range' p (c + 1 - p), e' % cfg.historyLength = e % cfg.historyLength) ↔
      p ≤ e := by
  constructor
  · rintro ⟨e', hmem, hmod⟩
    rw [List.mem_range'_1] at hmem
    by_cases hwin : c < p + cfg.historyLength
    · -- the reset epochs lie in the window, where no two share a cell
      have := Config.eq_of_mod_eq_of_window (by omega) (by omega) he.1 he.2 hmod
      omega
    · have := he.1
      omega
  · intro hpe
    exact ⟨e, List.mem_range'_1.2 ⟨hpe, by have := he.2; omega⟩, rfl⟩

omit hc in
theorem epochUpdateForValidator_of_none {vci v c : Nat} {db : SlasherDB}
    (h : db.currentEpochs v = none) : epochUpdateForValidator cfg k db vci v c = db := by
  simp [epochUpdateForValidator, h]

/-- `epoch_update_for_validator` writes the neutral element from the previous current epoch on. -/
theorem cellTarget_epochUpdateForValidator {vci v c p e : Nat} {db : SlasherDB}
    (hv : cfg.validatorChunkIndex v = vci) (h : db.currentEpochs v = some p)
    (he : cfg.InWindow c e) :
    (epochUpdateForValidator cfg k db vci v c).cellTarget k cfg v e =
      if p ≤ e then e + k.neutralElement else db.cellTarget k cfg v e := by
  have hreset : (fun db epoch => db.resetCell cfg k vci v epoch) =
      fun (db : SlasherDB) epoch => db.writeCell k cfg v epoch k.neutralElement :=
    funext fun db => funext fun epoch => db.resetCell_eq_writeCell k hv epoch
  simp only [epochUpdateForValidator, h, hreset]
  rw [cellTarget_foldl_writeCell hc, if_congr (exists_mod_eq_range'_iff he) rfl rfl]

theorem frame_epochUpdateForValidator {vci v c : Nat} (hv : cfg.validatorChunkIndex v = vci)
    (db : SlasherDB) :
    (epochUpdateForValidator cfg k db vci v c).Frame db cfg (fun k' v' => k' = k ∧ v' = v) := by
  cases h : db.currentEpochs v with
  | none =>
    rw [epochUpdateForValidator_of_none k h]
    exact SlasherDB.Frame.refl db
  | some p =>
    have hreset : (fun db epoch => db.resetCell cfg k vci v epoch) =
        fun (db : SlasherDB) epoch => db.writeCell k cfg v epoch k.neutralElement :=
      funext fun db => funext fun epoch => db.resetCell_eq_writeCell k hv epoch
    simp only [epochUpdateForValidator, h, hreset]
    exact frame_foldl_writeCell hc k v _ _ db

/-- The cells of `v` after its epoch update depend only on its cells and its current epoch. -/
theorem cellTarget_epochUpdateForValidator_congr {vci v c : Nat} {db db' : SlasherDB}
    (hv : cfg.validatorChunkIndex v = vci) (hcur : db'.currentEpochs v = db.currentEpochs v)
    (hcell : ∀ e, cfg.InWindow c e → db'.cellTarget k cfg v e = db.cellTarget k cfg v e)
    {e : Nat} (he : cfg.InWindow c e) :
    (epochUpdateForValidator cfg k db' vci v c).cellTarget k cfg v e =
      (epochUpdateForValidator cfg k db vci v c).cellTarget k cfg v e := by
  cases h : db.currentEpochs v with
  | none =>
    rw [epochUpdateForValidator_of_none k h, epochUpdateForValidator_of_none k (hcur.trans h)]
    exact hcell e he
  | some p =>
    rw [cellTarget_epochUpdateForValidator hc k hv h he,
      cellTarget_epochUpdateForValidator hc k hv (hcur.trans h) he, hcell e he]

/-- A second epoch update of a validator changes none of its cells. -/
theorem cellTarget_epochUpdateForValidator_idem {vci v c : Nat} {db : SlasherDB}
    (hv : cfg.validatorChunkIndex v = vci) {e : Nat} (he : cfg.InWindow c e) :
    (epochUpdateForValidator cfg k (epochUpdateForValidator cfg k db vci v c) vci v c).cellTarget
        k cfg v e = (epochUpdateForValidator cfg k db vci v c).cellTarget k cfg v e := by
  cases h : db.currentEpochs v with
  | none => rw [epochUpdateForValidator_of_none k h, epochUpdateForValidator_of_none k h]
  | some p =>
    have h' : (epochUpdateForValidator cfg k db vci v c).currentEpochs v = some p := by
      rw [(frame_epochUpdateForValidator hc k hv db).currentEpochs_eq]
      exact h
    rw [cellTarget_epochUpdateForValidator hc k hv h' he,
      cellTarget_epochUpdateForValidator hc k hv h he]
    split_ifs <;> rfl

/-- The epoch updates of `update_array` over validators `vs` of chunk `vci`: each validator's
cells are those of its own epoch update, and only they change. -/
theorem foldl_epochUpdateForValidator {vci c : Nat} :
    ∀ (vs : List Nat) (db : SlasherDB), (∀ v ∈ vs, cfg.validatorChunkIndex v = vci) →
      (vs.foldl (fun db v => epochUpdateForValidator cfg k db vci v c) db).Frame db cfg
          (fun k' v' => k' = k ∧ v' ∈ vs) ∧
        ∀ v ∈ vs, ∀ e, cfg.InWindow c e →
          (vs.foldl (fun db v => epochUpdateForValidator cfg k db vci v c) db).cellTarget k cfg v e =
            (epochUpdateForValidator cfg k db vci v c).cellTarget k cfg v e
  | [], db, _ => ⟨SlasherDB.Frame.refl db, fun _ hv => absurd hv List.not_mem_nil⟩
  | w :: ws, db, hvs => by
    have hw := hvs w List.mem_cons_self
    have hframe₁ := frame_epochUpdateForValidator hc k (c := c) hw db
    obtain ⟨hframe, hcells⟩ := foldl_epochUpdateForValidator ws
      (epochUpdateForValidator cfg k db vci w c) fun v hv => hvs v (List.mem_cons_of_mem _ hv)
    rw [List.foldl_cons]
    refine ⟨(hframe.mono fun k' v' h => ⟨h.1, List.mem_cons_of_mem _ h.2⟩).trans
      (hframe₁.mono fun k' v' h => ⟨h.1, h.2 ▸ List.mem_cons_self⟩), fun v hv e he => ?_⟩
    by_cases hvws : v ∈ ws
    · -- the later epoch update of `v` starts from `w`'s, which is its own or leaves it alone
      rw [hcells v hvws e he]
      by_cases hvw : v = w
      · subst hvw
        exact cellTarget_epochUpdateForValidator_idem hc k hw he
      · exact cellTarget_epochUpdateForValidator_congr hc k (hvs v (List.mem_cons_of_mem _ hvws))
          (congrFun hframe₁.currentEpochs_eq v)
          (fun e' _ => hframe₁.cellTarget_eq k v e' fun h => hvw h.2) he
    · have hvw : v = w := by simpa [hvws] using hv
      subst hvw
      exact hframe.cellTarget_eq k v e fun h => hvws h.2

end EpochUpdate

/-! ## One pass of `update_array` -/

/-- The validators of a validator chunk. -/
theorem mem_validatorIndicesInChunk (hc : cfg.Valid) {vci v : Nat} :
    v ∈ cfg.validatorIndicesInChunk vci ↔ cfg.validatorChunkIndex v = vci := by
  have hK := hc.validatorChunkSize_pos
  rw [Config.validatorIndicesInChunk, List.mem_range'_1, Config.validatorChunkIndex]
  constructor
  · rintro ⟨h₁, h₂⟩
    exact Nat.div_eq_of_lt_le h₁ (by rw [Nat.succ_mul]; exact h₂)
  · rintro rfl
    exact ⟨Nat.div_mul_le_self v _, Nat.lt_div_mul_add hK⟩

/-- One pass of `update_array` over validator chunk `vci` at current epoch `c`: the epoch
update moves the window of each validator of the chunk to `c`, where it stands for the
attestations applied before, and the attestation loop keeps that. -/
theorem updateArray_spec (hc : cfg.Valid) {k : TargetKind} {vci c : Nat}
    {applied : Nat → List (Nat × Nat)} {db : SlasherDB} {order : List (Nat × IndexedAttestation)}
    (hfresh : ∀ v, cfg.validatorChunkIndex v = vci → db.currentEpochs v = none →
      applied v = [] ∧ ∀ e, db.cellTarget k cfg v e = e + k.neutralElement)
    (hwindow : ∀ v p, cfg.validatorChunkIndex v = vci → db.currentEpochs v = some p →
      p ≤ c ∧ CellsMatch cfg k v p (applied v) db ∧ ∀ q ∈ applied v, q.1 < q.2 ∧ q.2 ≤ p)
    (hrec : ∀ v, ∀ q ∈ applied v, (db.attesters v q.2).isSome)
    (hkey : ∀ v t existing, db.attesters v t = some existing → existing.targetEpoch = t)
    (horder : ∀ va ∈ order, cfg.validatorChunkIndex va.1 = vci ∧ ValidAt cfg c va.2 ∧
      (db.attesters va.1 va.2.targetEpoch).isSome) :
    ∃ statuses db', updateArray cfg k db vci order c = .ok (statuses, db') ∧
      statuses.map (fun x => (x.1, x.2.1)) = order ∧ StatusesReported k applied statuses ∧
      ArrayInv cfg k vci c (appliedAfter applied statuses) db' ∧
      db'.Frame db cfg (fun k' v' => k' = k ∧ cfg.validatorChunkIndex v' = vci) := by
  obtain ⟨hframe₁, hcells₁⟩ := foldl_epochUpdateForValidator hc k (c := c)
    (cfg.validatorIndicesInChunk vci) db fun v hv => (mem_validatorIndicesInChunk hc).1 hv
  -- after the epoch updates, the window ending at `c` stands for the applied attestations
  have hinv₁ : ArrayInv cfg k vci c applied ((cfg.validatorIndicesInChunk vci).foldl
      (fun db v => epochUpdateForValidator cfg k db vci v c) db) := by
    refine ⟨fun v hv e he => ?_, fun v q hq => ?_, ?_⟩
    · rw [hcells₁ v ((mem_validatorIndicesInChunk hc).2 hv) e he]
      cases hcur : db.currentEpochs v with
      | none =>
        obtain ⟨hnil, hneutral⟩ := hfresh v hv hcur
        rw [epochUpdateForValidator_of_none k hcur, hneutral, hnil,
          targetOf_eq_neutral [] k fun _ h => absurd h List.not_mem_nil]
      | some p =>
        obtain ⟨hpc, hmatch, hle⟩ := hwindow v p hv hcur
        rw [cellTarget_epochUpdateForValidator hc k hv hcur he]
        split_ifs with hpe
        · -- an epoch that entered the window: every applied attestation is at or below it
          refine (targetOf_eq_neutral _ k fun q hq => ?_).symm
          have := hle q hq
          omega
        · -- an epoch of the previous window
          exact hmatch e ⟨by have := he.1; omega, by omega⟩
    · rw [hframe₁.attesters_eq]
      exact hrec v q hq
    · rw [hframe₁.attesters_eq]
      exact hkey
  have horder₁ : ∀ va ∈ order, cfg.validatorChunkIndex va.1 = vci ∧ ValidAt cfg c va.2 ∧
      (((cfg.validatorIndicesInChunk vci).foldl (fun db v => epochUpdateForValidator cfg k db vci v c)
        db).attesters va.1 va.2.targetEpoch).isSome := by
    intro va hva
    rw [hframe₁.attesters_eq]
    exact horder va hva
  obtain ⟨statuses, db', hall, hmap, hrep, hinv', hframe'⟩ :=
    applyAll_spec hc order applied _ horder₁ hinv₁
  exact ⟨statuses, db', hall, hmap, hrep, hinv', hframe'.trans
    (hframe₁.mono fun k' v' h => ⟨h.1, (mem_validatorIndicesInChunk hc).1 h.2⟩)⟩

end Vibehouse.Slasher
