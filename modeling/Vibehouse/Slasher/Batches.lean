import Vibehouse.Slasher.Update

/-! # The slasher over runs of batches

`Reachable` is every database the slasher reaches from the empty one by `process_batch` on
batches with non-decreasing current epochs whose attestations are valid at their epoch
(`ValidAt`), together with the attestations each array has applied for each validator: those it
reported not slashable (`appliedAfter`).

`Inv` holds of each: the window of `history_length` epochs ending at a validator's last current
epoch stands for the attestations applied for it (`CellsMatch`), and a validator never processed
has neutral cells. `processBatch_spec` is the step: the next batch is processed without error,
every status it reports is what the applied attestations call for (`StatusesReported`), and `Inv`
holds after it.

The window is that of each validator's own last current epoch, not that of the last batch: a
batch moves the window of the validators of its chunk only, and the cells of the others alias
modulo `history_length` (`slasher_arrays_stale_and_double_vote`). Nor does a surround always
come out as `SurroundsExisting`: the check reads the attester record at the target it found,
which can be another attestation with that target, reported as `AlreadyDoubleVoted`. -/

namespace Vibehouse.Slasher

variable {cfg : Config}

/-- The statuses of one array in one call of `update`. -/
def UpdateStatuses.statuses (st : UpdateStatuses) :
    TargetKind → List (Nat × IndexedAttestation × AttesterSlashingStatus)
  | .min => st.minStatuses
  | .max => st.maxStatuses

/-- The invariant of the database between batches, for the attestations `applied` to each array
for each validator and the last current epoch `c₀`. -/
structure Inv (cfg : Config) (db : SlasherDB) (applied : TargetKind → Nat → List (Nat × Nat))
    (c₀ : Nat) : Prop where
  fresh : ∀ v, db.currentEpochs v = none → ∀ k,
    applied k v = [] ∧ ∀ e, db.cellTarget k cfg v e = e + k.neutralElement
  window : ∀ v p, db.currentEpochs v = some p → p ≤ c₀ ∧ ∀ k,
    CellsMatch cfg k v p (applied k v) db ∧ ∀ q ∈ applied k v, q.1 < q.2 ∧ q.2 ≤ p
  recorded : ∀ k v, ∀ q ∈ applied k v, (db.attesters v q.2).isSome
  keyed : ∀ v t existing, db.attesters v t = some existing → existing.targetEpoch = t

theorem inv_empty : Inv cfg SlasherDB.empty (fun _ _ => []) 0 where
  fresh _ _ k := ⟨rfl, fun _ => by cases k <;> rfl⟩
  window _ _ h := by simp [SlasherDB.empty] at h
  recorded _ _ _ h := absurd h List.not_mem_nil
  keyed _ _ _ h := by simp [SlasherDB.empty] at h

/-! ## The attester records of a batch -/

/-- The record phase of `process_batch`: `check_and_update_attester_record` for every attester
of the batch. -/
def SlasherDB.recordAll (db : SlasherDB) (pairs : List (Nat × IndexedAttestation)) : SlasherDB :=
  pairs.foldl (fun db va => (db.checkAndUpdateAttesterRecord va.1 va.2).2) db

theorem processBatch_eq (db : SlasherDB) (vci : Nat) (batch : List IndexedAttestation)
    (c : Nat) :
    processBatch cfg db vci batch c =
      update cfg (db.recordAll (batch.flatMap fun a =>
        (cfg.attestingValidatorsInChunk a vci).map fun v => (v, a))) vci batch c :=
  rfl

/-- `db'` has the arrays and current epochs of `db`, and every attester record of it. -/
structure RecordsExtend (db' db : SlasherDB) : Prop where
  minTargets_eq : db'.minTargets = db.minTargets
  maxTargets_eq : db'.maxTargets = db.maxTargets
  currentEpochs_eq : db'.currentEpochs = db.currentEpochs
  isSome_attesters : ∀ v t, (db.attesters v t).isSome → (db'.attesters v t).isSome

theorem RecordsExtend.refl (db : SlasherDB) : RecordsExtend db db :=
  ⟨rfl, rfl, rfl, fun _ _ h => h⟩

theorem RecordsExtend.trans {db₀ db₁ db₂ : SlasherDB} (h₂ : RecordsExtend db₂ db₁)
    (h₁ : RecordsExtend db₁ db₀) : RecordsExtend db₂ db₀ :=
  ⟨h₂.minTargets_eq.trans h₁.minTargets_eq, h₂.maxTargets_eq.trans h₁.maxTargets_eq,
    h₂.currentEpochs_eq.trans h₁.currentEpochs_eq,
    fun v t h => h₂.isSome_attesters v t (h₁.isSome_attesters v t h)⟩

theorem RecordsExtend.cellTarget_eq {db' db : SlasherDB} (h : RecordsExtend db' db)
    (k : TargetKind) (v e : Nat) : db'.cellTarget k cfg v e = db.cellTarget k cfg v e := by
  cases k <;> simp [SlasherDB.cellTarget, SlasherDB.chunkForUpdate, SlasherDB.targets,
    h.minTargets_eq, h.maxTargets_eq]

/-- `check_and_update_attester_record` records the attestation when its target has no record. -/
theorem checkAndUpdateAttesterRecord_snd (db : SlasherDB) (v : Nat) (a : IndexedAttestation) :
    (db.checkAndUpdateAttesterRecord v a).2 =
      if (db.attesters v a.targetEpoch).isSome then db else db.recordAttester v a := by
  unfold SlasherDB.checkAndUpdateAttesterRecord
  cases h : db.attesters v a.targetEpoch <;> simp

/-- One record: the attester has a record for the target afterwards, and records stay keyed by
their target. -/
theorem checkAndUpdateAttesterRecord_spec {db : SlasherDB} (v : Nat) (a : IndexedAttestation)
    (hkey : ∀ v t existing, db.attesters v t = some existing → existing.targetEpoch = t) :
    RecordsExtend (db.checkAndUpdateAttesterRecord v a).2 db ∧
      ((db.checkAndUpdateAttesterRecord v a).2.attesters v a.targetEpoch).isSome ∧
      ∀ v' t existing, (db.checkAndUpdateAttesterRecord v a).2.attesters v' t = some existing →
        existing.targetEpoch = t := by
  rw [checkAndUpdateAttesterRecord_snd]
  split_ifs with h
  · exact ⟨RecordsExtend.refl db, h, hkey⟩
  · refine ⟨⟨rfl, rfl, rfl, fun v' t h' => ?_⟩, by simp [SlasherDB.recordAttester], ?_⟩
    · simp only [SlasherDB.recordAttester]
      split_ifs <;> simp_all
    · intro v' t existing h'
      simp only [SlasherDB.recordAttester] at h'
      split_ifs at h' with hvt
      · cases h'
        exact hvt.2.symm
      · exact hkey v' t existing h'

/-- The record phase: every attester of the batch has a record for its target afterwards. -/
theorem recordAll_spec :
    ∀ (pairs : List (Nat × IndexedAttestation)) (db : SlasherDB),
      (∀ v t existing, db.attesters v t = some existing → existing.targetEpoch = t) →
      RecordsExtend (db.recordAll pairs) db ∧
        (∀ va ∈ pairs, ((db.recordAll pairs).attesters va.1 va.2.targetEpoch).isSome) ∧
        ∀ v t existing, (db.recordAll pairs).attesters v t = some existing →
          existing.targetEpoch = t
  | [], db, hkey => ⟨RecordsExtend.refl db, fun _ h => absurd h List.not_mem_nil, hkey⟩
  | (v, a) :: rest, db, hkey => by
    obtain ⟨hext₁, hself, hkey₁⟩ := checkAndUpdateAttesterRecord_spec v a hkey
    obtain ⟨hext, hrest, hkey'⟩ := recordAll_spec rest _ hkey₁
    refine ⟨hext.trans hext₁, fun va hva => ?_, hkey'⟩
    rcases List.mem_cons.1 hva with rfl | hva
    · exact hext.isSome_attesters _ _ hself
    · exact hrest va hva

/-- The record phase keeps the invariant. -/
theorem Inv.records {db db' : SlasherDB} {applied : TargetKind → Nat → List (Nat × Nat)}
    {c₀ : Nat} (hinv : Inv cfg db applied c₀) (h : RecordsExtend db' db)
    (hkey : ∀ v t existing, db'.attesters v t = some existing → existing.targetEpoch = t) :
    Inv cfg db' applied c₀ where
  fresh v hv k := by
    rw [h.currentEpochs_eq] at hv
    obtain ⟨hnil, hn⟩ := hinv.fresh v hv k
    exact ⟨hnil, fun e => (h.cellTarget_eq k v e).trans (hn e)⟩
  window v p hv := by
    rw [h.currentEpochs_eq] at hv
    obtain ⟨hp, hk⟩ := hinv.window v p hv
    exact ⟨hp, fun k => ⟨fun e he => (h.cellTarget_eq k v e).trans ((hk k).1 e he), (hk k).2⟩⟩
  recorded k v q hq := h.isSome_attesters v q.2 (hinv.recorded k v q hq)
  keyed := hkey

/-! ## One batch -/

theorem mem_attestingValidatorsInChunk {a : IndexedAttestation} {vci v : Nat} :
    v ∈ cfg.attestingValidatorsInChunk a vci ↔
      v ∈ a.attestingIndices ∧ cfg.validatorChunkIndex v = vci := by
  simp [Config.attestingValidatorsInChunk]

/-- The order of `update` lists attesters of the batch in the chunk. -/
theorem mem_updateOrder {vci v : Nat} {batch : List IndexedAttestation} {a : IndexedAttestation}
    (h : (v, a) ∈ updateOrder cfg vci batch) :
    a ∈ batch ∧ v ∈ cfg.attestingValidatorsInChunk a vci := by
  simp only [updateOrder, List.mem_flatMap, List.mem_map, List.mem_filter, Prod.mk.injEq] at h
  obtain ⟨a', ⟨_, _, ha', _⟩, v', hv', rfl, rfl⟩ := h
  exact ⟨ha', hv'⟩

/-- After both passes of `update`, the validators of the chunk move their window to `c`. -/
theorem Inv.update {db db₂ : SlasherDB} {applied : TargetKind → Nat → List (Nat × Nat)}
    {c₀ vci c : Nat} {order : List (Nat × IndexedAttestation)} {st : UpdateStatuses}
    (hinv : Inv cfg db applied c₀) (hc₀ : c₀ ≤ c)
    (horder : ∀ va ∈ order, cfg.validatorChunkIndex va.1 = vci ∧ ValidAt cfg c va.2)
    (hmap : ∀ k, (st.statuses k).map (fun x => (x.1, x.2.1)) = order)
    (hpass : ∀ k, ArrayInv cfg k vci c (appliedAfter (applied k) (st.statuses k)) db₂)
    (hframe : db₂.Frame db cfg (fun _ v => cfg.validatorChunkIndex v = vci)) :
    Inv cfg { db₂ with currentEpochs := fun v =>
        if cfg.validatorChunkIndex v = vci then some c else db₂.currentEpochs v }
      (fun k => appliedAfter (applied k) (st.statuses k)) c := by
  -- a status is for a validator of the chunk, with an attestation valid at `c`
  have hstatus : ∀ k, ∀ x ∈ st.statuses k,
      cfg.validatorChunkIndex x.1 = vci ∧ ValidAt cfg c x.2.1 := fun k x hx =>
    horder _ (hmap k ▸ List.mem_map_of_mem hx)
  have hother : ∀ k v, cfg.validatorChunkIndex v ≠ vci →
      appliedAfter (applied k) (st.statuses k) v = applied k v := fun k v hv =>
    appliedAfter_of_forall_ne fun x hx hxv => hv (hxv ▸ (hstatus k x hx).1)
  refine ⟨fun v hv k => ?_, fun v p hv => ?_, fun k v q hq => (hpass k).recorded v q hq,
    (hpass .min).keyed⟩
  · -- a validator never processed is not in the chunk
    simp only at hv
    split_ifs at hv with hvci
    rw [hframe.currentEpochs_eq] at hv
    obtain ⟨hnil, hn⟩ := hinv.fresh v hv k
    refine ⟨by rw [hother k v hvci, hnil], fun e => ?_⟩
    exact (hframe.cellTarget_eq k v e hvci).trans (hn e)
  · simp only at hv
    split_ifs at hv with hvci
    · -- a validator of the chunk: its window now ends at `c`
      cases hv
      refine ⟨Nat.le_refl c, fun k => ⟨(hpass k).cells v hvci, fun q hq => ?_⟩⟩
      rcases mem_appliedAfter hq with hq | ⟨x, hx, rfl⟩
      · cases hcur : db.currentEpochs v with
        | none =>
          rw [(hinv.fresh v hcur k).1] at hq
          exact absurd hq List.not_mem_nil
        | some p₀ =>
          have hp₀ := (hinv.window v p₀ hcur).1
          have hq₀ := ((hinv.window v p₀ hcur).2 k).2 q hq
          omega
      · have hvalid := (hstatus k x hx).2
        exact ⟨hvalid.1, hvalid.2.1⟩
    · -- a validator of another chunk keeps its window
      rw [hframe.currentEpochs_eq] at hv
      obtain ⟨hp, hk⟩ := hinv.window v p hv
      refine ⟨Nat.le_trans hp hc₀, fun k => ?_⟩
      rw [hother k v hvci]
      exact ⟨fun e he => (hframe.cellTarget_eq k v e hvci).trans ((hk k).1 e he), (hk k).2⟩

/-- `update`: both passes of `update_array` succeed, report what the applied attestations call
for, and keep the invariant. -/
theorem update_spec (hc : cfg.Valid) {db : SlasherDB}
    {applied : TargetKind → Nat → List (Nat × Nat)} {c₀ vci c : Nat}
    {batch : List IndexedAttestation} (hinv : Inv cfg db applied c₀) (hc₀ : c₀ ≤ c)
    (hbatch : ∀ a ∈ batch, ValidAt cfg c a)
    (hrecorded : ∀ a ∈ batch, ∀ v ∈ cfg.attestingValidatorsInChunk a vci,
      (db.attesters v a.targetEpoch).isSome) :
    ∃ st db', update cfg db vci batch c = .ok (st, db') ∧
      StatusesReported .min (applied .min) st.minStatuses ∧
      StatusesReported .max (applied .max) st.maxStatuses ∧
      Inv cfg db' (fun k => appliedAfter (applied k) (st.statuses k)) c := by
  have horder : ∀ va ∈ updateOrder cfg vci batch, cfg.validatorChunkIndex va.1 = vci ∧
      ValidAt cfg c va.2 ∧ (db.attesters va.1 va.2.targetEpoch).isSome := by
    rintro ⟨v, a⟩ hva
    obtain ⟨ha, hv⟩ := mem_updateOrder hva
    exact ⟨(mem_attestingValidatorsInChunk.1 hv).2, hbatch a ha, hrecorded a ha v hv⟩
  -- the min-target pass
  obtain ⟨st₁, db₁, hu₁, hmap₁, hrep₁, hinv₁, hframe₁⟩ := updateArray_spec hc (k := .min)
    (fun v _ h => hinv.fresh v h .min)
    (fun v p _ h => ⟨Nat.le_trans (hinv.window v p h).1 hc₀, (hinv.window v p h).2 .min⟩)
    (hinv.recorded .min) hinv.keyed horder
  -- the max-target pass sees the max array and the records as they were
  have hmax₁ : ∀ v e, db₁.cellTarget .max cfg v e = db.cellTarget .max cfg v e :=
    fun v e => hframe₁.cellTarget_eq .max v e (fun h => nomatch h.1)
  have hcur₁ := hframe₁.currentEpochs_eq
  have hatt₁ := hframe₁.attesters_eq
  have hfresh₂ : ∀ v, cfg.validatorChunkIndex v = vci → db₁.currentEpochs v = none →
      applied .max v = [] ∧ ∀ e, db₁.cellTarget .max cfg v e = e + TargetKind.max.neutralElement := by
    intro v _ h
    rw [hcur₁] at h
    obtain ⟨hnil, hn⟩ := hinv.fresh v h .max
    exact ⟨hnil, fun e => (hmax₁ v e).trans (hn e)⟩
  have hwindow₂ : ∀ v p, cfg.validatorChunkIndex v = vci → db₁.currentEpochs v = some p →
      p ≤ c ∧ CellsMatch cfg .max v p (applied .max v) db₁ ∧
        ∀ q ∈ applied .max v, q.1 < q.2 ∧ q.2 ≤ p := by
    intro v p _ h
    rw [hcur₁] at h
    obtain ⟨hp, hk⟩ := hinv.window v p h
    exact ⟨Nat.le_trans hp hc₀, fun e he => (hmax₁ v e).trans ((hk .max).1 e he), (hk .max).2⟩
  have hrec₂ : ∀ v, ∀ q ∈ applied .max v, (db₁.attesters v q.2).isSome := by
    rw [hatt₁]
    exact hinv.recorded .max
  have hkey₂ : ∀ v t existing, db₁.attesters v t = some existing → existing.targetEpoch = t := by
    rw [hatt₁]
    exact hinv.keyed
  have horder₂ : ∀ va ∈ updateOrder cfg vci batch, cfg.validatorChunkIndex va.1 = vci ∧
      ValidAt cfg c va.2 ∧ (db₁.attesters va.1 va.2.targetEpoch).isSome := by
    rw [hatt₁]
    exact horder
  obtain ⟨st₂, db₂, hu₂, hmap₂, hrep₂, hinv₂, hframe₂⟩ :=
    updateArray_spec hc hfresh₂ hwindow₂ hrec₂ hkey₂ horder₂
  -- and leaves the min array alone
  have hpass : ∀ k, ArrayInv cfg k vci c
      (appliedAfter (applied k) ((⟨st₁, st₂⟩ : UpdateStatuses).statuses k)) db₂ := by
    intro k
    cases k with
    | min =>
      refine ⟨fun v hv => (hinv₁.cells v hv).frame hframe₂ (fun h => nomatch h.1), ?_, ?_⟩
      · rw [hframe₂.attesters_eq]
        exact hinv₁.recorded
      · rw [hframe₂.attesters_eq]
        exact hinv₁.keyed
    | max => exact hinv₂
  have hmap : ∀ k, ((⟨st₁, st₂⟩ : UpdateStatuses).statuses k).map (fun x => (x.1, x.2.1)) =
      updateOrder cfg vci batch := by
    intro k
    cases k
    · exact hmap₁
    · exact hmap₂
  have hupd : update cfg db vci batch c = .ok (⟨st₁, st₂⟩, { db₂ with
      currentEpochs := fun v => if cfg.validatorChunkIndex v = vci then some c
        else db₂.currentEpochs v }) := by
    simp only [update, hu₁, hu₂]
  refine ⟨_, _, hupd, hrep₁, hrep₂, ?_⟩
  exact hinv.update hc₀ (fun va hva => ⟨(horder va hva).1, (horder va hva).2.1⟩) hmap hpass
    ((hframe₂.mono fun _ _ h => h.2).trans (hframe₁.mono fun _ _ h => h.2))

/-- `process_batch`: the records, then both arrays, without error; every status is what the
applied attestations call for, and the invariant holds with the newly applied attestations. -/
theorem processBatch_spec (hc : cfg.Valid) {db : SlasherDB}
    {applied : TargetKind → Nat → List (Nat × Nat)} {c₀ vci c : Nat}
    {batch : List IndexedAttestation} (hinv : Inv cfg db applied c₀) (hc₀ : c₀ ≤ c)
    (hbatch : ∀ a ∈ batch, ValidAt cfg c a) :
    ∃ st db', processBatch cfg db vci batch c = .ok (st, db') ∧
      StatusesReported .min (applied .min) st.minStatuses ∧
      StatusesReported .max (applied .max) st.maxStatuses ∧
      Inv cfg db' (fun k => appliedAfter (applied k) (st.statuses k)) c := by
  obtain ⟨hext, hpairs, hkey⟩ := recordAll_spec (batch.flatMap fun a =>
    (cfg.attestingValidatorsInChunk a vci).map fun v => (v, a)) db hinv.keyed
  rw [processBatch_eq]
  exact update_spec hc (hinv.records hext hkey) hc₀ hbatch fun a ha v hv =>
    hpairs (v, a) (List.mem_flatMap.2 ⟨a, ha, List.mem_map.2 ⟨v, hv, rfl⟩⟩)

/-! ## Runs -/

/-- The databases the slasher reaches from the empty one by batches with non-decreasing current
epochs and valid attestations, with the attestations applied to each array for each validator
and the current epoch of the last batch. -/
inductive Reachable (cfg : Config) :
    SlasherDB → (TargetKind → Nat → List (Nat × Nat)) → Nat → Prop
  | empty : Reachable cfg SlasherDB.empty (fun _ _ => []) 0
  | batch {db : SlasherDB} {applied : TargetKind → Nat → List (Nat × Nat)} {c₀ vci c : Nat}
      {batch : List IndexedAttestation} {st : UpdateStatuses} {db' : SlasherDB} :
      Reachable cfg db applied c₀ → c₀ ≤ c → (∀ a ∈ batch, ValidAt cfg c a) →
      processBatch cfg db vci batch c = .ok (st, db') →
      Reachable cfg db' (fun k => appliedAfter (applied k) (st.statuses k)) c

theorem Reachable.inv (hc : cfg.Valid) {db : SlasherDB}
    {applied : TargetKind → Nat → List (Nat × Nat)} {c₀ : Nat}
    (h : Reachable cfg db applied c₀) : Inv cfg db applied c₀ := by
  induction h with
  | empty => exact inv_empty
  | batch _ hc₀ hbatch hrun ih =>
    obtain ⟨st', db'', hrun', -, -, hinv'⟩ := processBatch_spec hc ih hc₀ hbatch
    rw [hrun] at hrun'
    cases hrun'
    exact hinv'

/-- The min-target and max-target arrays over every run: in the window of `history_length`
epochs ending at a validator's last current epoch, the min-target cell decodes to the least
target above the epoch of an attestation applied with a later source, and the max-target cell
to the greatest one below it with an earlier source; and the next batch is processed without
error, each array reporting a surround or a double vote exactly when an attestation applied
before conflicts with the new one, and naming a conflicting attestation when it reports a
surround. -/
theorem slasher_arrays_match_applied (hv : cfg.validate = .ok ()) :
    (∀ db applied c₀, Reachable cfg db applied c₀ → ∀ v p, db.currentEpochs v = some p →
      ∀ e, p - cfg.historyLength < e → e ≤ p →
        db.cellTarget .min cfg v e = minTargetOf (applied .min v) e ∧
        db.cellTarget .max cfg v e = maxTargetOf (applied .max v) e) ∧
    (∀ db applied c₀, Reachable cfg db applied c₀ → ∀ vci batch c, c₀ ≤ c →
      (∀ a ∈ batch, ValidAt cfg c a) →
      ∃ st db', processBatch cfg db vci batch c = .ok (st, db') ∧
        StatusesReported .min (applied .min) st.minStatuses ∧
        StatusesReported .max (applied .max) st.maxStatuses) := by
  have hc := Config.valid_of_validate hv
  refine ⟨fun db applied c₀ hr v p hp e he₁ he₂ => ?_, fun db applied c₀ hr vci batch c hc₀ hbatch => ?_⟩
  · have hwin : cfg.InWindow p e := ⟨by omega, he₂⟩
    have hk := ((hr.inv hc).window v p hp).2
    exact ⟨(hk .min).1 e hwin, (hk .max).1 e hwin⟩
  · obtain ⟨st, db', hrun, hmin, hmax, -⟩ := processBatch_spec hc (hr.inv hc) hc₀ hbatch
    exact ⟨st, db', hrun, hmin, hmax⟩

theorem slasher_arrays_match_applied_config :
    let cfg : Config := ⟨4, 1, 16⟩
    cfg.validate = .ok () ∧
    (∀ db applied c₀, Reachable cfg db applied c₀ → ∀ v p, db.currentEpochs v = some p →
      ∀ e, p - cfg.historyLength < e → e ≤ p →
        db.cellTarget .min cfg v e = minTargetOf (applied .min v) e ∧
        db.cellTarget .max cfg v e = maxTargetOf (applied .max v) e) ∧
    (∀ db applied c₀, Reachable cfg db applied c₀ → ∀ vci batch c, c₀ ≤ c →
      (∀ a ∈ batch, ValidAt cfg c a) →
      ∃ st db', processBatch cfg db vci batch c = .ok (st, db') ∧
        StatusesReported .min (applied .min) st.minStatuses ∧
        StatusesReported .max (applied .max) st.maxStatuses) :=
  ⟨rfl, slasher_arrays_match_applied rfl⟩

/-- Two runs at `chunk_size` 4, `validator_chunk_size` 1 and `history_length` 16. First, validator
0 applies `(5, 6)` at epoch 10, then a batch of validator chunk 1 comes at epoch 20: validator 0's
min-target cell at epoch 16, in the window of the last batch, still holds the distance written
at epoch 0 and decodes to 22, not to `16 + MAX_DISTANCE`. Second, in one batch at epoch 10,
`(3, 6)` and `(5, 6)` are applied and `(4, 7)`, which surrounds `(5, 6)`, is reported as a double
vote: the check reads the record of target 6, which is `(3, 6)`. -/
theorem slasher_arrays_stale_and_double_vote :
    let cfg : Config := ⟨4, 1, 16⟩
    let a₁ : IndexedAttestation := ⟨[0], 5, 6, 1⟩
    let a₂ : IndexedAttestation := ⟨[0], 3, 6, 2⟩
    let b : IndexedAttestation := ⟨[0], 4, 7, 3⟩
    let other : IndexedAttestation := ⟨[1], 15, 16, 4⟩
    cfg.validate = .ok () ∧ ValidAt cfg 10 a₁ ∧ ValidAt cfg 20 other ∧
    (processBatch cfg SlasherDB.empty 0 [a₁] 10).map (fun r => r.1.minStatuses) =
      .ok [(0, a₁, .notSlashable)] ∧
    ((processBatch cfg SlasherDB.empty 0 [a₁] 10).bind fun r =>
      processBatch cfg r.2 1 [other] 20).map (fun r => r.2.cellTarget .min cfg 0 16) = .ok 22 ∧
    minTargetOf [(5, 6)] 16 = 16 + maxDistance ∧
    (∀ a ∈ [a₂, a₁, b], ValidAt cfg 10 a) ∧
    (processBatch cfg SlasherDB.empty 0 [a₂, a₁, b] 10).map (fun r => r.1.minStatuses) =
      .ok [(0, a₂, .notSlashable), (0, a₁, .notSlashable), (0, b, .alreadyDoubleVoted)] ∧
    TargetKind.min.Conflicts b (a₁.sourceEpoch, a₁.targetEpoch) := by
  refine ⟨rfl, ?_, ?_, ?_, ?_, ?_, ?_, ?_, ?_⟩ <;> decide

end Vibehouse.Slasher
