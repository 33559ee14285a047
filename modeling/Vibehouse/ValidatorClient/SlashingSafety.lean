import Vibehouse.ValidatorClient.SlashingDatabase
import Vibehouse.Lib.Covered

/-! # Slashing protection over whole runs

A run of the slashing protection database is a sequence of its operations, each in its own
transaction: registering validators, checking and inserting a block or an attestation,
pruning, and importing an interchange. Its history is the messages the database approved as
`Valid` and those of every interchange it imported. No approved message is slashable with any
message of the history before it (`approved_message_not_slashable`), however the rows that
recorded the earlier ones were pruned or replaced by an import.

The invariant (`Protects`) is that the attestations of a validator surround none of each other,
and that every message of the history is covered by its validator's rows (`Covered`): it is one
of them, or there are some and it lies below all of them. A message the checks find valid is not
at the slot or target of a row, nor surrounding or surrounded by one, and it is above some row,
so above every message below all of them. Pruning drops only rows below all the rows it keeps,
since the attestations kept at greater targets do not surround a dropped one; an import puts a
single row at or above everything the validator had and everything the record holds. -/

namespace Vibehouse.ValidatorClient

open EStateM

/-- A message a validator signs. -/
inductive Signed (K : Type)
  | block (pubkey : K) (block : SignedBlock)
  | attestation (pubkey : K) (attestation : SignedAttestation)
  deriving DecidableEq, Repr

/-- `b`'s slot is not above `c`'s. -/
def SignedBlock.Below (b c : SignedBlock) : Prop := b.slot ≤ c.slot

namespace SignedAttestation

/-- `a` surrounds `c`. -/
def Surrounds (a c : SignedAttestation) : Prop :=
  a.sourceEpoch < c.sourceEpoch ∧ c.targetEpoch < a.targetEpoch

/-- Neither the source nor the target of `a` is above `c`'s. -/
def Below (a c : SignedAttestation) : Prop :=
  a.sourceEpoch ≤ c.sourceEpoch ∧ a.targetEpoch ≤ c.targetEpoch

end SignedAttestation

variable {K : Type} [DecidableEq K]

/-- Two messages of one validator for which it would be slashed: two blocks at one slot or two
attestations of one target, unless they are the same message (equal signing roots, not null),
or two attestations one of which surrounds the other. -/
def Slashable : Signed K → Signed K → Prop
  | .block v b, .block w c =>
    v = w ∧ b.slot = c.slot ∧ signingRootEq b.signingRoot c.signingRoot = false
  | .attestation v a, .attestation w c =>
    v = w ∧ ((a.targetEpoch = c.targetEpoch ∧ signingRootEq a.signingRoot c.signingRoot = false) ∨
      a.Surrounds c ∨ c.Surrounds a)
  | _, _ => False

/-- The messages of an interchange record, a missing signing root as the null root. -/
def InterchangeData.messages (record : InterchangeData K) : List (Signed K) :=
  record.signedBlocks.map (fun b => .block record.pubkey ⟨b.slot, b.signingRoot.getD 0⟩) ++
    record.signedAttestations.map fun a =>
      .attestation record.pubkey ⟨a.sourceEpoch, a.targetEpoch, a.signingRoot.getD 0⟩

/-- The operations of the database that a validator client runs, each in its own transaction. -/
inductive Op (K : Type)
  | registerValidators (publicKeys : List K)
  | checkAndInsertBlockSigningRoot (validatorPubkey : K) (slot signingRoot : Nat)
  | checkAndInsertAttestationSigningRoot (validatorPubkey : K)
      (sourceEpoch targetEpoch signingRoot : Nat)
  | pruneAllSignedBlocks (publicKeys : List K) (newMinSlot : Nat)
  | pruneAllSignedAttestations (publicKeys : List K) (newMinTarget : Nat)
  | importInterchangeInfo (interchange : Interchange K) (genesisValidatorsRoot : Nat)

/-- A message entering the history: approved as `Valid`, or in an imported interchange. -/
inductive Event (K : Type)
  | approved (message : Signed K)
  | imported (message : Signed K)
  deriving DecidableEq, Repr

/-- The message of an event. -/
def Event.message : Event K → Signed K
  | .approved message => message
  | .imported message => message

omit [DecidableEq K] in
@[simp] theorem Event.message_approved (message : Signed K) :
    (Event.approved message).message = message := rfl

omit [DecidableEq K] in
@[simp] theorem Event.message_imported (message : Signed K) :
    (Event.imported message).message = message := rfl

namespace SlashingDatabase

/-- One operation: the database after it, and the messages it approved or imported. -/
def applyOp (db : SlashingDatabase K) : Op K → SlashingDatabase K × List (Event K)
  | .registerValidators publicKeys => ((db.registerValidators publicKeys).2, [])
  | .checkAndInsertBlockSigningRoot validatorPubkey slot signingRoot =>
    match db.checkAndInsertBlockSigningRoot validatorPubkey slot signingRoot with
    | (.ok .valid, db') => (db', [.approved (.block validatorPubkey ⟨slot, signingRoot⟩)])
    | (_, db') => (db', [])
  | .checkAndInsertAttestationSigningRoot validatorPubkey sourceEpoch targetEpoch signingRoot =>
    match db.checkAndInsertAttestationSigningRoot validatorPubkey sourceEpoch targetEpoch
        signingRoot with
    | (.ok .valid, db') =>
      (db', [.approved (.attestation validatorPubkey ⟨sourceEpoch, targetEpoch, signingRoot⟩)])
    | (_, db') => (db', [])
  | .pruneAllSignedBlocks publicKeys newMinSlot =>
    ((db.pruneAllSignedBlocks publicKeys newMinSlot).2, [])
  | .pruneAllSignedAttestations publicKeys newMinTarget =>
    ((db.pruneAllSignedAttestations publicKeys newMinTarget).2, [])
  | .importInterchangeInfo interchange genesisValidatorsRoot =>
    match db.importInterchangeInfo interchange genesisValidatorsRoot with
    | (.ok _, db') => (db', (interchange.data.flatMap InterchangeData.messages).map .imported)
    | (.error _, db') => (db', [])

/-- A run of operations: the database after them, and the messages they approved or imported, in
order. -/
def runOps (db : SlashingDatabase K) : List (Op K) → SlashingDatabase K × List (Event K)
  | [] => (db, [])
  | op :: ops =>
    let step := db.applyOp op
    let rest := step.1.runOps ops
    (rest.1, step.2 ++ rest.2)

/-! ## The invariant -/

/-- The database protects a history of messages: no attestation of a validator surrounds
another of its, and every message of the history is covered by its validator's rows. -/
structure Protects (db : SlashingDatabase K) (history : List (Signed K)) : Prop where
  noSurround : ∀ v, ∀ a ∈ db.attestationsOf v, ∀ c ∈ db.attestationsOf v, ¬a.Surrounds c
  blocks : ∀ v b, .block v b ∈ history → Covered SignedBlock.Below (db.blocksOf v) b
  attestations : ∀ v a, .attestation v a ∈ history →
    Covered SignedAttestation.Below (db.attestationsOf v) a

theorem protects_empty : Protects (empty : SlashingDatabase K) [] :=
  ⟨fun _ a ha => by simp [empty, attestationsOf, rowsOf] at ha, fun _ _ h => (nomatch h),
    fun _ _ h => (nomatch h)⟩

variable {db db' : SlashingDatabase K} {history : List (Signed K)}

/-- The invariant reads only the two tables of messages. -/
theorem Protects.of_tables (hp : Protects db history) (hblocks : db'.signedBlocks = db.signedBlocks)
    (hattestations : db'.signedAttestations = db.signedAttestations) : Protects db' history := by
  have hb : ∀ v, db'.blocksOf v = db.blocksOf v := fun v => by rw [blocksOf, hblocks]; rfl
  have ha : ∀ v, db'.attestationsOf v = db.attestationsOf v :=
    fun v => by rw [attestationsOf, hattestations]; rfl
  exact ⟨fun v => ha v ▸ hp.noSurround v, fun v b h => hb v ▸ hp.blocks v b h,
    fun v a h => ha v ▸ hp.attestations v a h⟩

/-! ## Approved messages -/

section approve

section rows

variable {α : Type} {le : α → α → Prop} {rows : List (K × α)} {k : K} {y : α}

/-- Appending a row `y` for `k` keeps covered what the rows of any validator covered, when `y` is
above whatever lies below all of `k`'s rows. -/
theorem covered_rowsOf_append {v : K} {x : α} (h : Covered le (rowsOf rows v) x)
    (hy : rowsOf rows k ≠ [] → ∀ z, (∀ r ∈ rowsOf rows k, le z r) → le z y) :
    Covered le (rowsOf (rows ++ [(k, y)]) v) x := by
  rw [rowsOf_append_singleton]
  by_cases hv : k = v
  · subst hv
    rw [if_pos rfl]
    exact h.append hy
  · rw [if_neg hv, List.append_nil]
    exact h

theorem covered_rowsOf_append_self : Covered le (rowsOf (rows ++ [(k, y)]) k) y :=
  .inl (by simp [rowsOf_append_singleton])

end rows

variable {validatorPubkey : K}

theorem checkBlockProposal_valid {slot signingRoot : Nat}
    (h : db.checkBlockProposal validatorPubkey slot signingRoot = .ok .valid) :
    (∀ b ∈ db.blocksOf validatorPubkey, b.slot ≠ slot) ∧
      (db.blocksOf validatorPubkey ≠ [] → ∃ b ∈ db.blocksOf validatorPubkey, b.slot < slot) := by
  obtain ⟨-, ⟨hsame, -⟩ | ⟨-, hfree, hbelow⟩⟩ := checkBlockProposal_eq_ok h
  · cases hsame
  · exact ⟨hfree, hbelow⟩

/-- A valid block is at the slot of no message of the history. -/
theorem Protects.slot_ne_of_valid (hp : Protects db history) {slot signingRoot : Nat}
    (hcheck : db.checkBlockProposal validatorPubkey slot signingRoot = .ok .valid) {b : SignedBlock}
    (hb : .block validatorPubkey b ∈ history) : b.slot ≠ slot := by
  obtain ⟨hfree, hbelow⟩ := checkBlockProposal_valid hcheck
  rcases hp.blocks _ b hb with hrow | ⟨hne, hle⟩
  · exact hfree b hrow
  · obtain ⟨r, hr, hlt⟩ := hbelow hne
    have : b.slot ≤ r.slot := hle r hr
    omega

/-- A valid block is slashable with no message of the history. -/
theorem Protects.not_slashable_block (hp : Protects db history) {slot signingRoot : Nat}
    (hcheck : db.checkBlockProposal validatorPubkey slot signingRoot = .ok .valid) :
    ∀ m ∈ history, ¬Slashable m (.block validatorPubkey ⟨slot, signingRoot⟩)
  | .block v b, hm, ⟨hv, hslot, _⟩ => by
    subst hv
    exact hp.slot_ne_of_valid hcheck hm hslot
  | .attestation _ _, _, h => h

/-- Recording a valid block keeps the invariant, with the block added to the history. -/
theorem Protects.insertBlock (hp : Protects db history) {slot signingRoot : Nat}
    (hcheck : db.checkBlockProposal validatorPubkey slot signingRoot = .ok .valid) :
    Protects { db with signedBlocks :=
        db.signedBlocks ++ [(validatorPubkey, (⟨slot, signingRoot⟩ : SignedBlock))] }
      (history ++ [.block validatorPubkey ⟨slot, signingRoot⟩]) := by
  obtain ⟨-, hbelow⟩ := checkBlockProposal_valid hcheck
  refine ⟨hp.noSurround, fun v b hb => ?_, fun v a ha => ?_⟩
  · rcases List.mem_append.1 hb with hb | hb
    · -- the new row is above whatever lies below all the rows
      refine covered_rowsOf_append (hp.blocks v b hb) fun hne z hz => ?_
      obtain ⟨r, hr, hlt⟩ := hbelow hne
      exact Nat.le_of_lt (Nat.lt_of_le_of_lt (hz r hr) hlt)
    · obtain ⟨rfl, rfl⟩ : v = validatorPubkey ∧ b = ⟨slot, signingRoot⟩ := by simpa using hb
      exact covered_rowsOf_append_self
  · exact hp.attestations v a (by simpa using ha)

theorem checkAttestation_valid {sourceEpoch targetEpoch signingRoot : Nat}
    (h : db.checkAttestation validatorPubkey sourceEpoch targetEpoch signingRoot = .ok .valid) :
    (∀ a ∈ db.attestationsOf validatorPubkey, a.targetEpoch ≠ targetEpoch ∧
        ¬(a.sourceEpoch < sourceEpoch ∧ targetEpoch < a.targetEpoch) ∧
        ¬(sourceEpoch < a.sourceEpoch ∧ a.targetEpoch < targetEpoch)) ∧
      (db.attestationsOf validatorPubkey ≠ [] →
        (∃ a ∈ db.attestationsOf validatorPubkey, a.sourceEpoch ≤ sourceEpoch) ∧
        ∃ a ∈ db.attestationsOf validatorPubkey, a.targetEpoch < targetEpoch) := by
  obtain ⟨-, -, ⟨hsame, -⟩ | ⟨-, hrows, hbelow⟩⟩ := checkAttestation_eq_ok h
  · cases hsame
  · exact ⟨hrows, hbelow⟩

/-- A valid attestation has the target of no message of the history, and neither surrounds one
nor is surrounded by one. -/
theorem Protects.not_slashable_attestation (hp : Protects db history)
    {sourceEpoch targetEpoch signingRoot : Nat}
    (hcheck : db.checkAttestation validatorPubkey sourceEpoch targetEpoch signingRoot =
      .ok .valid) :
    ∀ m ∈ history,
      ¬Slashable m (.attestation validatorPubkey ⟨sourceEpoch, targetEpoch, signingRoot⟩)
  | .attestation v a, hm, ⟨hv, hslashable⟩ => by
    subst hv
    obtain ⟨hrows, hbelow⟩ := checkAttestation_valid hcheck
    have hsafe : a.targetEpoch ≠ targetEpoch ∧
        ¬(a.sourceEpoch < sourceEpoch ∧ targetEpoch < a.targetEpoch) ∧
        ¬(sourceEpoch < a.sourceEpoch ∧ a.targetEpoch < targetEpoch) := by
      rcases hp.attestations _ a hm with hrow | ⟨hne, hle⟩
      · exact hrows a hrow
      · -- below all the rows, so below the new attestation, whose target is above one of them
        obtain ⟨⟨r, hr, hsource⟩, ⟨r', hr', htarget⟩⟩ := hbelow hne
        have h₁ := (hle r hr).1
        have h₂ := (hle r' hr').2
        omega
    simp only [SignedAttestation.Surrounds] at hslashable
    omega
  | .block _ _, _, h => h

/-- Recording a valid attestation keeps the invariant, with the attestation added to the
history. -/
theorem Protects.insertAttestation (hp : Protects db history)
    {sourceEpoch targetEpoch signingRoot : Nat}
    (hcheck : db.checkAttestation validatorPubkey sourceEpoch targetEpoch signingRoot =
      .ok .valid) :
    Protects { db with signedAttestations := db.signedAttestations ++
        [(validatorPubkey, (⟨sourceEpoch, targetEpoch, signingRoot⟩ : SignedAttestation))] }
      (history ++ [.attestation validatorPubkey ⟨sourceEpoch, targetEpoch, signingRoot⟩]) := by
  obtain ⟨hrows, hbelow⟩ := checkAttestation_valid hcheck
  have hrows' : ∀ v, ({ db with signedAttestations := db.signedAttestations ++
      [(validatorPubkey, (⟨sourceEpoch, targetEpoch, signingRoot⟩ : SignedAttestation))] } :
        SlashingDatabase K).attestationsOf v =
      db.attestationsOf v ++ if validatorPubkey = v then [⟨sourceEpoch, targetEpoch, signingRoot⟩]
        else [] :=
    fun v => rowsOf_append_singleton _ _ _ _
  refine ⟨fun v a ha c hc => ?_, fun v b hb => hp.blocks v b (by simpa using hb),
    fun v a ha => ?_⟩
  · -- the new row surrounds no row and no row surrounds it
    rw [hrows'] at ha hc
    by_cases hv : validatorPubkey = v
    · subst hv
      simp only [if_true, List.mem_append, List.mem_singleton] at ha hc
      unfold SignedAttestation.Surrounds
      rcases ha with ha | rfl <;> rcases hc with hc | rfl
      · exact hp.noSurround _ a ha c hc
      · have := (hrows a ha).2.1
        dsimp only
        omega
      · have := (hrows c hc).2.2
        dsimp only
        omega
      · omega
    · simp only [hv, if_false, List.append_nil] at ha hc
      exact hp.noSurround v a ha c hc
  · rcases List.mem_append.1 ha with ha | ha
    · -- the new row is above whatever lies below all the rows
      refine covered_rowsOf_append (hp.attestations v a ha) fun hne z hz => ?_
      obtain ⟨⟨r, hr, hsource⟩, ⟨r', hr', htarget⟩⟩ := hbelow hne
      have h₁ := (hz r hr).1
      have h₂ := (hz r' hr').2
      exact ⟨by dsimp only; omega, by dsimp only; omega⟩
    · obtain ⟨rfl, rfl⟩ : v = validatorPubkey ∧ a = ⟨sourceEpoch, targetEpoch, signingRoot⟩ := by
        simpa using ha
      exact covered_rowsOf_append_self

end approve

/-! ## Pruning -/

section prune

variable {α : Type} (key : α → Nat) {rows : List (K × α)} {k : K} {newMin : Nat}

/-- A row the prune of `k`'s rows below `newMin` drops is below the greatest key of `k`'s rows,
which no row it keeps is below. -/
theorem key_lt_of_prune {v : K} {y r : α}
    (hdrop : (!(v = k && key y < newMin && ((rowsOf rows k).map key).max?.any (key y < ·))) =
      false)
    (hkeep : (!(v = k && key r < newMin && ((rowsOf rows k).map key).max?.any (key r < ·))) =
      true) :
    key y < key r := by
  simp only [Bool.not_eq_false', Bool.and_eq_true, decide_eq_true_eq, Option.any_eq_true]
    at hdrop
  simp only [Bool.not_eq_true', Bool.and_eq_false_iff, decide_eq_false_iff_not,
    Option.any_eq_false] at hkeep
  obtain ⟨⟨rfl, hlow⟩, maxKey, hmax, hlt⟩ := hdrop
  rcases hkeep with (hkeep | hkeep) | hkeep
  · exact absurd rfl hkeep
  · omega
  · have := hkeep maxKey hmax
    omega

/-- The prune keeps a row of every validator that has rows: of `k`, the one at the greatest
key. -/
theorem exists_keep_of_prune {v : K} (hne : rowsOf rows v ≠ []) :
    ∃ r ∈ rowsOf rows v,
      (!(v = k && key r < newMin && ((rowsOf rows k).map key).max?.any (key r < ·))) = true := by
  by_cases hv : v = k
  · subst hv
    cases hmax : ((rowsOf rows v).map key).max? with
    | none => exact absurd (List.map_eq_nil_iff.1 (List.max?_eq_none_iff.1 hmax)) hne
    | some maxKey =>
      obtain ⟨r, hr, rfl⟩ := List.mem_map.1 (List.max?_mem hmax)
      exact ⟨r, hr, by simp⟩
  · obtain ⟨r, hr⟩ := List.exists_mem_of_ne_nil _ hne
    exact ⟨r, hr, by simp [hv]⟩

end prune

/-- Pruning a validator's blocks drops only blocks below all the blocks it keeps. -/
theorem Protects.keeps_pruneSignedBlocks (history : List (Signed K)) (publicKey : K)
    (newMinSlot : Nat) : Keeps (Protects · history) (pruneSignedBlocks publicKey newMinSlot) := by
  intro db hp
  rw [pruneSignedBlocks_run]
  cases hid : db.getValidatorIdInTxn publicKey with
  | error e => exact hp
  | ok validatorId =>
  simp only [Result.state_ok]
  refine ⟨hp.noSurround, fun v b hb => ?_, hp.attestations⟩
  have hcov := hp.blocks v b hb
  simp only [blocksOf, rowsOf_filter]
  -- a dropped block is below the greatest slot, which no kept block is below
  exact hcov.filter (fun y _ hy r _ hr => Nat.le_of_lt (key_lt_of_prune SignedBlock.slot hy hr))
    (exists_keep_of_prune SignedBlock.slot hcov.ne_nil)

/-- Pruning a validator's attestations drops only attestations below all the ones it keeps:
their targets are below, and a kept one of greater target and lower source would surround a
dropped one. -/
theorem Protects.keeps_pruneSignedAttestations (history : List (Signed K)) (publicKey : K)
    (newMinTarget : Nat) :
    Keeps (Protects · history) (pruneSignedAttestations publicKey newMinTarget) := by
  intro db hp
  rw [pruneSignedAttestations_run]
  cases hid : db.getValidatorIdInTxn publicKey with
  | error e => exact hp
  | ok validatorId =>
  simp only [Result.state_ok]
  refine ⟨fun v a ha c hc => ?_, hp.blocks, fun v a ha => ?_⟩
  · simp only [attestationsOf, rowsOf_filter, List.mem_filter] at ha hc
    exact hp.noSurround v a ha.1 c hc.1
  have hcov := hp.attestations v a ha
  simp only [attestationsOf, rowsOf_filter]
  refine hcov.filter (fun y hy hdrop r hr hkeep => ?_)
    (exists_keep_of_prune SignedAttestation.targetEpoch hcov.ne_nil)
  have htarget : y.targetEpoch < r.targetEpoch :=
    key_lt_of_prune SignedAttestation.targetEpoch hdrop hkeep
  -- the kept one does not surround the dropped one
  have hsurround := hp.noSurround _ r hr y hy
  unfold SignedAttestation.Surrounds at hsurround
  exact ⟨by omega, Nat.le_of_lt htarget⟩

/-! ## Imports -/

section imports

variable {pubkey : K} {prevSummary : ValidatorSummary}

omit [DecidableEq K] in
/-- A value of a list is at most any bound of its greatest value. -/
theorem le_of_mem_of_max? {l : List Nat} {x bound : Nat} (hx : x ∈ l)
    (hbound : ∀ m ∈ l.max?, m ≤ bound) : x ≤ bound := by
  cases hmax : l.max? with
  | none => exact absurd (List.max?_eq_none_iff.1 hmax) (List.ne_nil_of_mem hx)
  | some m =>
    rw [hmax] at hbound
    exact ((List.max?_eq_some_iff.1 hmax).2 x hx).trans (hbound m rfl)

/-- Rows replaced by a single row `y` for `k` keep an item covered when, for `k`, `y` is above
it. -/
theorem covered_of_eq_ite {α : Type} {le : α → α → Prop} {old new : List α} {v : K} {x y : α}
    (h : Covered le old x) (hrows : new = if v = pubkey then [y] else old)
    (hy : v = pubkey → le x y) : Covered le new x := by
  rw [hrows]
  split
  · exact covered_singleton (hy ‹_›)
  · exact h

/-- Importing a record's blocks keeps the invariant, with the blocks added to the history: the
new row is at or above every block the validator had, which covered every message of the
history, and every block of the record. -/
theorem Protects.importSignedBlocks (hp : Protects db history)
    {signedBlocks : List InterchangeBlock}
    (hsummary : prevSummary.maxBlockSlot = ((db.blocksOf pubkey).map (·.slot)).max?)
    (h : (importSignedBlocks pubkey prevSummary signedBlocks).run db = .ok () db') :
    Protects db' (history ++
      signedBlocks.map fun b => .block pubkey ⟨b.slot, b.signingRoot.getD 0⟩) := by
  obtain ⟨hattestations, ⟨rfl, rfl⟩ | ⟨slot, hrecord, hprev, hrows⟩⟩ := importSignedBlocks_run_ok h
  · simpa using hp
  have ha : ∀ v, db'.attestationsOf v = db.attestationsOf v :=
    fun v => by rw [attestationsOf, hattestations]; rfl
  refine ⟨fun v => ha v ▸ hp.noSurround v, fun v b hb => ?_,
    fun v a h => ha v ▸ hp.attestations v a (by simpa using h)⟩
  rcases List.mem_append.1 hb with hold | hnew
  · -- a block the rows covered: the new row is at or above the validator's rows
    refine covered_of_eq_ite (hp.blocks v b hold) (hrows v) fun hv => ?_
    subst hv
    obtain ⟨r, hr, hle⟩ := (hp.blocks v b hold).exists_le fun c => Nat.le_refl c.slot
    exact Nat.le_trans hle (le_of_mem_of_max? (List.mem_map_of_mem hr) (hsummary ▸ hprev))
  · -- a block of the record, at or below the new row
    obtain ⟨b', hb', hbb'⟩ := List.mem_map.1 hnew
    cases hbb'
    rw [hrows, if_pos rfl]
    exact covered_singleton (hrecord b' hb')

/-- Importing a record's attestations keeps the invariant, with the attestations added to the
history: the new row is at or above, in source and in target, every attestation the validator
had, which covered every message of the history, and every attestation of the record. -/
theorem Protects.importSignedAttestations (hp : Protects db history)
    {signedAttestations : List InterchangeAttestation}
    (hsource : prevSummary.maxAttestationSource =
      ((db.attestationsOf pubkey).map (·.sourceEpoch)).max?)
    (htarget : prevSummary.maxAttestationTarget =
      ((db.attestationsOf pubkey).map (·.targetEpoch)).max?)
    (h : (importSignedAttestations pubkey prevSummary signedAttestations).run db = .ok () db') :
    Protects db' (history ++ signedAttestations.map fun a =>
      .attestation pubkey ⟨a.sourceEpoch, a.targetEpoch, a.signingRoot.getD 0⟩) := by
  obtain ⟨hblocks, ⟨rfl, rfl⟩ | ⟨sourceEpoch, targetEpoch, hrecord, hprevSource, hprevTarget,
    hrows⟩⟩ := importSignedAttestations_run_ok h
  · simpa using hp
  have hb : ∀ v, db'.blocksOf v = db.blocksOf v := fun v => by rw [blocksOf, hblocks]; rfl
  refine ⟨fun v a ha c hc => ?_, fun v b h => hb v ▸ hp.blocks v b (by simpa using h),
    fun v a ha => ?_⟩
  · rw [hrows v] at ha hc
    by_cases hv : v = pubkey
    · -- one row, which surrounds nothing of its own
      rw [if_pos hv, List.mem_singleton] at ha hc
      subst ha hc
      simp [SignedAttestation.Surrounds]
    · rw [if_neg hv] at ha hc
      exact hp.noSurround v a ha c hc
  rcases List.mem_append.1 ha with hold | hnew
  · -- an attestation the rows covered: the new row is at or above the validator's rows
    refine covered_of_eq_ite (hp.attestations v a hold) (hrows v) fun hv => ?_
    subst hv
    obtain ⟨r, hr, hle⟩ :=
      (hp.attestations v a hold).exists_le fun c => ⟨Nat.le_refl _, Nat.le_refl _⟩
    exact ⟨Nat.le_trans hle.1
        (le_of_mem_of_max? (List.mem_map_of_mem hr) (hsource ▸ hprevSource)),
      Nat.le_trans hle.2 (le_of_mem_of_max? (List.mem_map_of_mem hr) (htarget ▸ hprevTarget))⟩
  · -- an attestation of the record, at or below the new row
    obtain ⟨a', ha', haa'⟩ := List.mem_map.1 hnew
    cases haa'
    rw [hrows, if_pos rfl]
    exact covered_singleton (hrecord a' ha')

/-- Importing a record keeps the invariant, with the record's messages added to the history. -/
theorem Protects.importInterchangeRecord (hp : Protects db history) {record : InterchangeData K}
    {summary : ValidatorSummary} (h : (importInterchangeRecord record).run db = .ok summary db') :
    Protects db' (history ++ record.messages) := by
  obtain ⟨db₁, db₂, prevSummary, hblocks₁, hattestations₁, hsummary, hblocks, hattestations⟩ :=
    importInterchangeRecord_run_ok h
  obtain ⟨hmaxSlot, hmaxSource, hmaxTarget⟩ := validatorSummary_eq_ok hsummary
  have hp₁ : Protects db₁ history := hp.of_tables hblocks₁ hattestations₁
  have hp₂ := hp₁.importSignedBlocks hmaxSlot hblocks
  -- the blocks leave the attestations as they were, so the summary still bounds them
  have hsame : db₂.attestationsOf record.pubkey = db₁.attestationsOf record.pubkey := by
    rw [attestationsOf, (importSignedBlocks_run_ok hblocks).1]
    rfl
  have hp₃ := hp₂.importSignedAttestations (hsame ▸ hmaxSource) (hsame ▸ hmaxTarget) hattestations
  simpa [InterchangeData.messages, List.append_assoc] using hp₃

/-- The loop of an import in which every record succeeded keeps the invariant, with the messages
of every record added to the history; by induction on the records. -/
theorem Protects.importInterchangeLoop : ∀ (records : List (InterchangeData K))
    {db : SlashingDatabase K} {history : List (Signed K)}, Protects db history →
    (importInterchangeLoop db records).2.1 = true →
      Protects (importInterchangeLoop db records).2.2
        (history ++ records.flatMap InterchangeData.messages)
  | [], _, _, hp, _ => by simpa [SlashingDatabase.importInterchangeLoop] using hp
  | record :: records, db, history, hp, hall => by
    unfold SlashingDatabase.importInterchangeLoop at hall ⊢
    cases hrecord : (SlashingDatabase.importInterchangeRecord record).run db with
    | ok summary db₁ =>
      simp only [hrecord] at hall ⊢
      have := Protects.importInterchangeLoop records (hp.importInterchangeRecord hrecord) hall
      simpa [List.append_assoc] using this
    | error e db₁ =>
      simp only [hrecord, Bool.false_eq_true] at hall

end imports

/-! ## Runs -/

/-- Every message the events approve is slashable with no message before it: of the history
before the events, or of the events before it. -/
def ApprovesSafely (history : List (Signed K)) (events : List (Event K)) : Prop :=
  ∀ pre x post, events = pre ++ .approved x :: post →
    ∀ m ∈ history ++ pre.map Event.message, ¬Slashable m x

omit [DecidableEq K] in
theorem approvesSafely_nil : ApprovesSafely history ([] : List (Event K)) :=
  fun pre _ _ h => by simp at h

omit [DecidableEq K] in
theorem approvesSafely_approved {x : Signed K} (hx : ∀ m ∈ history, ¬Slashable m x) :
    ApprovesSafely history [.approved x] := by
  intro pre x' post h
  obtain ⟨rfl, hx', -⟩ : pre = [] ∧ Event.approved x = .approved x' ∧ post = [] := by
    cases pre with
    | nil => simpa using h
    | cons e pre => simp at h
  cases hx'
  simpa using hx

omit [DecidableEq K] in
theorem approvesSafely_imported (messages : List (Signed K)) :
    ApprovesSafely history (messages.map .imported) := by
  intro pre x post h
  have hmem : Event.approved x ∈ messages.map Event.imported := by simp [h]
  simp at hmem

omit [DecidableEq K] in
/-- The approvals of two runs of events, one after the other. -/
theorem ApprovesSafely.append {events events' : List (Event K)}
    (h : ApprovesSafely history events)
    (h' : ApprovesSafely (history ++ events.map Event.message) events') :
    ApprovesSafely history (events ++ events') := by
  intro pre x post heq m hm
  rcases List.append_eq_append_iff.1 heq with ⟨rest, rfl, hevents'⟩ | ⟨rest, hevents, hpost⟩
  · -- the approval is among the later events
    exact h' rest x post hevents' m (by simpa [List.append_assoc] using hm)
  · cases rest with
    | nil =>
      -- the approval is the first of the later events
      simp only [List.append_nil, List.nil_append] at hevents hpost
      subst hevents
      exact h' [] x post hpost.symm m (by simpa using hm)
    | cons e rest =>
      obtain ⟨rfl, -⟩ := List.cons.inj hpost
      exact h pre x rest hevents m hm

/-- Registering validators changes no message. -/
theorem Protects.keeps_registerValidatorsInTxn (history : List (Signed K)) (publicKeys : List K) :
    Keeps (Protects · history) (registerValidatorsInTxn publicKeys) := fun db hp =>
  hp.of_tables (registerValidatorsInTxn_moves publicKeys db).1
    (registerValidatorsInTxn_moves publicKeys db).2

/-- One operation keeps the invariant, with its messages added to the history, and approves
only messages slashable with none of the history. -/
theorem Protects.applyOp (hp : Protects db history) (op : Op K) :
    Protects (db.applyOp op).1 (history ++ (db.applyOp op).2.map Event.message) ∧
      ApprovesSafely history (db.applyOp op).2 := by
  cases op with
  | registerValidators publicKeys =>
    exact ⟨by simpa [SlashingDatabase.applyOp, registerValidators] using
      withTransaction_keeps (Protects.keeps_registerValidatorsInTxn history publicKeys) hp,
      approvesSafely_nil⟩
  | checkAndInsertBlockSigningRoot validatorPubkey slot signingRoot =>
    cases hcheck : db.checkBlockProposal validatorPubkey slot signingRoot with
    | ok safe =>
      cases safe with
      | valid =>
        simp only [SlashingDatabase.applyOp, checkAndInsertBlockSigningRoot_eq, hcheck]
        exact ⟨by simpa using hp.insertBlock hcheck,
          approvesSafely_approved (hp.not_slashable_block hcheck)⟩
      | sameData =>
        simp only [SlashingDatabase.applyOp, checkAndInsertBlockSigningRoot_eq, hcheck]
        exact ⟨by simpa using hp, approvesSafely_nil⟩
    | error e =>
      simp only [SlashingDatabase.applyOp, checkAndInsertBlockSigningRoot_eq, hcheck]
      exact ⟨by simpa using hp, approvesSafely_nil⟩
  | checkAndInsertAttestationSigningRoot validatorPubkey sourceEpoch targetEpoch signingRoot =>
    cases hcheck : db.checkAttestation validatorPubkey sourceEpoch targetEpoch signingRoot with
    | ok safe =>
      cases safe with
      | valid =>
        simp only [SlashingDatabase.applyOp, checkAndInsertAttestationSigningRoot_eq, hcheck]
        exact ⟨by simpa using hp.insertAttestation hcheck,
          approvesSafely_approved (hp.not_slashable_attestation hcheck)⟩
      | sameData =>
        simp only [SlashingDatabase.applyOp, checkAndInsertAttestationSigningRoot_eq, hcheck]
        exact ⟨by simpa using hp, approvesSafely_nil⟩
    | error e =>
      simp only [SlashingDatabase.applyOp, checkAndInsertAttestationSigningRoot_eq, hcheck]
      exact ⟨by simpa using hp, approvesSafely_nil⟩
  | pruneAllSignedBlocks publicKeys newMinSlot =>
    have hkeeps := Keeps.forM publicKeys fun publicKey _ =>
      Protects.keeps_pruneSignedBlocks history publicKey newMinSlot
    exact ⟨by simpa [SlashingDatabase.applyOp, pruneAllSignedBlocks] using
      withTransaction_keeps hkeeps hp, approvesSafely_nil⟩
  | pruneAllSignedAttestations publicKeys newMinTarget =>
    have hkeeps := Keeps.forM publicKeys fun publicKey _ =>
      Protects.keeps_pruneSignedAttestations history publicKey newMinTarget
    exact ⟨by simpa [SlashingDatabase.applyOp, pruneAllSignedAttestations] using
      withTransaction_keeps hkeeps hp, approvesSafely_nil⟩
  | importInterchangeInfo interchange genesisValidatorsRoot =>
    rcases importInterchangeInfo_cases db interchange genesisValidatorsRoot with
      ⟨outcomes, himport, hall⟩ | ⟨e, himport⟩
    · simp only [SlashingDatabase.applyOp, himport, List.map_map]
      refine ⟨?_, approvesSafely_imported _⟩
      have hmessage : Event.message ∘ (Event.imported : Signed K → Event K) = id := rfl
      rw [hmessage, List.map_id]
      exact hp.importInterchangeLoop interchange.data hall
    · simp only [SlashingDatabase.applyOp, himport]
      exact ⟨by simpa using hp, approvesSafely_nil⟩

/-- A run keeps the invariant, with its messages added to the history, and approves only
messages slashable with none before them; by induction on the operations. -/
theorem Protects.runOps : ∀ (ops : List (Op K)) {db : SlashingDatabase K}
    {history : List (Signed K)}, Protects db history →
    Protects (db.runOps ops).1 (history ++ (db.runOps ops).2.map Event.message) ∧
      ApprovesSafely history (db.runOps ops).2
  | [], _, _, hp => ⟨by simpa [SlashingDatabase.runOps] using hp, approvesSafely_nil⟩
  | op :: ops, db, history, hp => by
    obtain ⟨hp₁, hsafe₁⟩ := hp.applyOp op
    obtain ⟨hp₂, hsafe₂⟩ := Protects.runOps ops hp₁
    exact ⟨by simpa [SlashingDatabase.runOps, List.append_assoc] using hp₂, hsafe₁.append hsafe₂⟩

/-- Validator 0 registered, a block at slot 5 approved, an interchange with a block at slot 9
imported, and a block at slot 10 approved. -/
def sampleOps : List (Op Nat) :=
  [.registerValidators [0], .checkAndInsertBlockSigningRoot 0 5 7,
    .importInterchangeInfo ⟨⟨5, 0⟩, [⟨0, [⟨9, some 8⟩], []⟩]⟩ 0,
    .checkAndInsertBlockSigningRoot 0 10 9]

/-- An interchange holding two blocks of one slot with different signing roots. -/
def slashableInterchange : Interchange Nat :=
  ⟨⟨5, 0⟩, [⟨0, [⟨3, some 1⟩, ⟨3, some 2⟩], []⟩]⟩

end SlashingDatabase

end Vibehouse.ValidatorClient
