import Mathlib
import Vibehouse.Lib.AssocList
import Vibehouse.Lib.RustIter
import Vibehouse.Lib.StateRun

/-! # The slashing protection database

`validator_client/slashing_protection/src/slashing_database.rs`: an SQLite database with a table
of validators (a public key and whether it is enabled), a table of the blocks each has signed
(a slot and a signing root, one row per slot) and a table of the attestations (source and target
epochs and a signing root, one row per target). Before a validator signs, `check_and_insert_*`
checks the message against the rows of its validator and, when it is safe, records it, in one
exclusive transaction. Pruning drops old rows but keeps the newest; an interchange import
replaces the rows of a validator by one synthetic row at the greatest slot, or the greatest
source and target, of what it had and what is imported. The least slot and epochs left are lower
bounds on what may be signed next.

A transaction is a computation in `EStateM` on the database; a failed one is rolled back
(`withTransaction`). The `validator_id` of a row is the row of its validator in `validators`, and
distinct public keys have distinct ids, so the rows here name their validator by its public key.
Signing roots are `Hash256` numbers with `0` the null root, which the `PartialEq` of
`SigningRoot` equates with nothing (`signingRootEq`). The SQL errors are the violations of the
`UNIQUE` constraints, without SQLite's text; the errors of the file system and the connection
pool are left out. -/

namespace Vibehouse.ValidatorClient

open EStateM

/-- `SigningRoot`'s `PartialEq`: the roots are equal and not null. -/
def signingRootEq (a b : Nat) : Bool := a != 0 && a == b

/-- `SignedBlock`. -/
structure SignedBlock where
  slot : Nat
  signingRoot : Nat
  deriving DecidableEq, Repr

/-- `SignedAttestation`. -/
structure SignedAttestation where
  sourceEpoch : Nat
  targetEpoch : Nat
  signingRoot : Nat
  deriving DecidableEq, Repr

/-- `InvalidBlock`. -/
inductive InvalidBlock
  | doubleBlockProposal (existing : SignedBlock)
  | slotViolatesLowerBound (blockSlot boundSlot : Nat)
  deriving DecidableEq, Repr

/-- `InvalidAttestation`. -/
inductive InvalidAttestation
  | doubleVote (existing : SignedAttestation)
  | newSurroundsPrev (prev : SignedAttestation)
  | prevSurroundsNew (prev : SignedAttestation)
  | sourceExceedsTarget
  | sourceLessThanLowerBound (sourceEpoch boundEpoch : Nat)
  | targetLessThanOrEqLowerBound (targetEpoch boundEpoch : Nat)
  deriving DecidableEq, Repr

/-- `NotSafe`, without the errors of the file system and the connection pool. -/
inductive NotSafe (K : Type)
  | unregisteredValidator (pubkey : K)
  | disabledValidator (pubkey : K)
  | invalidBlock (e : InvalidBlock)
  | invalidAttestation (e : InvalidAttestation)
  | sqlError
  | consistencyError
  deriving DecidableEq, Repr

/-- `Safe`. -/
inductive Safe
  | sameData
  | valid
  deriving DecidableEq, Repr

/-- The three tables of the database, each row of the last two naming its validator. -/
structure SlashingDatabase (K : Type) where
  validators : List (K × Bool)
  signedBlocks : List (K × SignedBlock)
  signedAttestations : List (K × SignedAttestation)
  deriving Repr

/-- `ValidatorSummary`. -/
structure ValidatorSummary where
  minBlockSlot : Option Nat
  maxBlockSlot : Option Nat
  minAttestationSource : Option Nat
  minAttestationTarget : Option Nat
  maxAttestationSource : Option Nat
  maxAttestationTarget : Option Nat
  deriving DecidableEq, Repr

/-! ## The interchange format (`common/eip_3076`) -/

/-- `eip_3076::SignedBlock`. -/
structure InterchangeBlock where
  slot : Nat
  signingRoot : Option Nat
  deriving DecidableEq, Repr

/-- `eip_3076::SignedAttestation`. -/
structure InterchangeAttestation where
  sourceEpoch : Nat
  targetEpoch : Nat
  signingRoot : Option Nat
  deriving DecidableEq, Repr

/-- `InterchangeData`. -/
structure InterchangeData (K : Type) where
  pubkey : K
  signedBlocks : List InterchangeBlock
  signedAttestations : List InterchangeAttestation
  deriving Repr

/-- `InterchangeMetadata`. -/
structure InterchangeMetadata where
  interchangeFormatVersion : Nat
  genesisValidatorsRoot : Nat
  deriving DecidableEq, Repr

/-- `Interchange`. -/
structure Interchange (K : Type) where
  metadata : InterchangeMetadata
  data : List (InterchangeData K)
  deriving Repr

/-- `InterchangeImportOutcome`. -/
inductive InterchangeImportOutcome (K : Type)
  | success (pubkey : K) (summary : ValidatorSummary)
  | failure (pubkey : K) (error : NotSafe K)
  deriving Repr

/-- `InterchangeError`, with the variants that the modelled functions return. -/
inductive InterchangeError (K : Type)
  | unsupportedVersion (version : Nat)
  | genesisValidatorsMismatch (interchangeFile client : Nat)
  | notSafe (e : NotSafe K)
  | atomicBatchAborted (outcomes : List (InterchangeImportOutcome K))
  deriving Repr

/-- `SUPPORTED_INTERCHANGE_FORMAT_VERSION`. -/
def supportedInterchangeFormatVersion : Nat := 5

/-- The rows of a table that name a validator. -/
def rowsOf {K α : Type} [DecidableEq K] (rows : List (K × α)) (validatorId : K) : List α :=
  (rows.filter fun row => row.1 = validatorId).map Prod.snd

/-- `max_or`. -/
def maxOr (optX : Option Nat) (y : Nat) : Nat :=
  match optX with
  | none => y
  | some x => max x y

/-- `monotonic`: `new` is set, and not below `prev` when that is. -/
def monotonic (new prev : Option Nat) : Bool :=
  match new with
  | none => false
  | some newVal =>
    match prev with
    | none => true
    | some prevVal => decide (prevVal ≤ newVal)

theorem rowsOf_append_singleton {K α : Type} [DecidableEq K] (rows : List (K × α)) (k v : K)
    (a : α) :
    rowsOf (rows ++ [(k, a)]) v = rowsOf rows v ++ if k = v then [a] else [] := by
  by_cases hk : k = v <;> simp [rowsOf, hk]

theorem rowsOf_filter {K α : Type} [DecidableEq K] (rows : List (K × α)) (f : K × α → Bool)
    (v : K) :
    rowsOf (rows.filter f) v = (rowsOf rows v).filter fun a => f (v, a) := by
  simp only [rowsOf, List.filter_filter, List.filter_map]
  congr 1
  apply List.filter_congr
  rintro ⟨k, a⟩ _
  by_cases hk : k = v
  · subst hk
    simp [Bool.and_comm]
  · simp [hk]

/-- Clearing a validator's rows and inserting one leaves that one row. -/
theorem rowsOf_filter_append {K α : Type} [DecidableEq K] (rows : List (K × α)) (k v : K)
    (a : α) :
    rowsOf ((rows.filter fun row => !(row.1 = k)) ++ [(k, a)]) v =
      if v = k then [a] else rowsOf rows v := by
  rw [rowsOf_append_singleton, rowsOf_filter]
  by_cases hv : v = k
  · subst hv
    simp [rowsOf]
  · simp [hv, Ne.symm hv]

theorem le_maxOr_right (optX : Option Nat) (y : Nat) : y ≤ maxOr optX y := by
  cases optX <;> simp [maxOr]

theorem le_maxOr_left {optX : Option Nat} {x : Nat} (y : Nat) (hx : x ∈ optX) :
    x ≤ maxOr optX y := by
  cases optX with
  | none => cases hx
  | some x' =>
    cases hx
    exact le_max_left _ _

namespace ValidatorSummary

/-- `check_block_consistency`. -/
def checkBlockConsistency (self prev : ValidatorSummary) (importedBlocks : Bool) : Bool :=
  if importedBlocks then
    monotonic self.maxBlockSlot prev.maxBlockSlot && self.minBlockSlot == self.maxBlockSlot
  else prev.minBlockSlot == self.minBlockSlot && prev.maxBlockSlot == self.maxBlockSlot

/-- `check_attestation_consistency`. -/
def checkAttestationConsistency (self prev : ValidatorSummary) (importedAttestations : Bool) :
    Bool :=
  if importedAttestations then
    monotonic self.maxAttestationSource prev.maxAttestationSource &&
      monotonic self.maxAttestationTarget prev.maxAttestationTarget &&
      self.minAttestationSource == self.maxAttestationSource &&
      self.minAttestationTarget == self.maxAttestationTarget
  else
    self.minAttestationSource == prev.minAttestationSource &&
      self.maxAttestationSource == prev.maxAttestationSource &&
      self.minAttestationTarget == prev.minAttestationTarget &&
      self.maxAttestationTarget == prev.maxAttestationTarget

end ValidatorSummary

namespace SlashingDatabase

variable {K : Type} [DecidableEq K]

/-- `create`: the tables, empty. -/
def empty : SlashingDatabase K := ⟨[], [], []⟩

/-- The blocks of a validator. -/
def blocksOf (db : SlashingDatabase K) (validatorId : K) : List SignedBlock :=
  rowsOf db.signedBlocks validatorId

/-- The attestations of a validator. -/
def attestationsOf (db : SlashingDatabase K) (validatorId : K) : List SignedAttestation :=
  rowsOf db.signedAttestations validatorId

/-- `get_validator_id_in_txn`: the validator, when it is registered and enabled. -/
def getValidatorIdInTxn (db : SlashingDatabase K) (publicKey : K) : Except (NotSafe K) K :=
  match db.validators.lookup publicKey with
  | none => .error (.unregisteredValidator publicKey)
  | some enabled => if enabled then .ok publicKey else .error (.disabledValidator publicKey)

/-- `get_validator_id_ignoring_status`. -/
def getValidatorIdIgnoringStatus (db : SlashingDatabase K) (publicKey : K) :
    Except (NotSafe K) K :=
  match db.validators.lookup publicKey with
  | none => .error (.unregisteredValidator publicKey)
  | some _ => .ok publicKey

/-- `ORDER BY target_epoch DESC LIMIT 1`: an attestation of greatest target; the targets of a
validator are distinct. -/
def latestByTarget (attestations : List SignedAttestation) : Option SignedAttestation :=
  RustIter.maxByKey (·.targetEpoch) attestations

/-- `check_block_proposal`. -/
def checkBlockProposal (db : SlashingDatabase K) (validatorPubkey : K) (slot signingRoot : Nat) :
    Except (NotSafe K) Safe := do
  let validatorId ← db.getValidatorIdInTxn validatorPubkey
  if let some existingBlock := (db.blocksOf validatorId).find? (·.slot == slot) then
    if signingRootEq existingBlock.signingRoot signingRoot then
      -- the same block again
      return .sameData
    throw (.invalidBlock (.doubleBlockProposal existingBlock))
  if let some minSlot := ((db.blocksOf validatorId).map (·.slot)).min? then
    if slot ≤ minSlot then
      throw (.invalidBlock (.slotViolatesLowerBound slot minSlot))
  return .valid

/-- `check_attestation`. -/
def checkAttestation (db : SlashingDatabase K) (validatorPubkey : K)
    (attSourceEpoch attTargetEpoch attSigningRoot : Nat) : Except (NotSafe K) Safe := do
  if attSourceEpoch > attTargetEpoch then
    throw (.invalidAttestation .sourceExceedsTarget)
  let validatorId ← db.getValidatorIdInTxn validatorPubkey
  let attestations := db.attestationsOf validatorId
  -- a double vote: the same target and another signing root
  if let some existingAttestation := attestations.find? (·.targetEpoch == attTargetEpoch) then
    if signingRootEq existingAttestation.signingRoot attSigningRoot then
      return .sameData
    throw (.invalidAttestation (.doubleVote existingAttestation))
  if let some prev := latestByTarget (attestations.filter fun a =>
      a.sourceEpoch < attSourceEpoch && a.targetEpoch > attTargetEpoch) then
    throw (.invalidAttestation (.prevSurroundsNew prev))
  if let some prev := latestByTarget (attestations.filter fun a =>
      a.sourceEpoch > attSourceEpoch && a.targetEpoch < attTargetEpoch) then
    throw (.invalidAttestation (.newSurroundsPrev prev))
  -- the lower bounds left by pruning and imports
  if let some minSource := (attestations.map (·.sourceEpoch)).min? then
    if attSourceEpoch < minSource then
      throw (.invalidAttestation (.sourceLessThanLowerBound attSourceEpoch minSource))
  if let some minTarget := (attestations.map (·.targetEpoch)).min? then
    if attTargetEpoch ≤ minTarget then
      throw (.invalidAttestation (.targetLessThanOrEqLowerBound attTargetEpoch minTarget))
  return .valid

/-- `validator_summary`. -/
def validatorSummary (db : SlashingDatabase K) (publicKey : K) :
    Except (NotSafe K) ValidatorSummary := do
  let validatorId ← db.getValidatorIdInTxn publicKey
  let slots := (db.blocksOf validatorId).map (·.slot)
  let attestations := db.attestationsOf validatorId
  return ⟨slots.min?, slots.max?, (attestations.map (·.sourceEpoch)).min?,
    (attestations.map (·.targetEpoch)).min?, (attestations.map (·.sourceEpoch)).max?,
    (attestations.map (·.targetEpoch)).max?⟩

/-! ## Transactions -/

/-- A transaction: the body run on the database, committed when it returns `Ok`, rolled back
when it returns an error. -/
def withTransaction {ε α : Type} (body : EStateM ε (SlashingDatabase K) α)
    (db : SlashingDatabase K) : Except ε α × SlashingDatabase K :=
  match body.run db with
  | .ok a db' => (.ok a, db')
  | .error e _ => (.error e, db)

/-- `register_validators_in_txn`: a new validator is inserted enabled, a disabled one is
enabled. -/
def registerValidatorsInTxn (publicKeys : List K) : EStateM (NotSafe K) (SlashingDatabase K) Unit :=
  publicKeys.forM fun pubkey => do
    let db ← get
    match db.validators.lookup pubkey with
    | none => set { db with validators := db.validators ++ [(pubkey, true)] }
    | some false => set { db with validators := AssocList.setValue db.validators pubkey true }
    | some true => pure ()

/-- `register_validators`, in a transaction. -/
def registerValidators (db : SlashingDatabase K) (publicKeys : List K) :
    Except (NotSafe K) Unit × SlashingDatabase K :=
  withTransaction (registerValidatorsInTxn publicKeys) db

/-- `update_validator_status`. -/
def updateValidatorStatus (validatorId : K) (status : Bool) :
    EStateM (NotSafe K) (SlashingDatabase K) Unit :=
  modify fun db => { db with validators := AssocList.setValue db.validators validatorId status }

/-- `insert_block_proposal`; the `UNIQUE (validator_id, slot)` constraint fails the insert of a
second row at a slot. -/
def insertBlockProposal (validatorPubkey : K) (slot signingRoot : Nat) :
    EStateM (NotSafe K) (SlashingDatabase K) Unit := do
  let db ← get
  let validatorId ← liftExcept (db.getValidatorIdInTxn validatorPubkey)
  if (db.blocksOf validatorId).any (·.slot == slot) then throw .sqlError
  set { db with signedBlocks :=
    db.signedBlocks ++ [(validatorId, (⟨slot, signingRoot⟩ : SignedBlock))] }

/-- `insert_attestation`; the `UNIQUE (validator_id, target_epoch)` constraint fails the insert
of a second row at a target. -/
def insertAttestation (validatorPubkey : K) (attSourceEpoch attTargetEpoch attSigningRoot : Nat) :
    EStateM (NotSafe K) (SlashingDatabase K) Unit := do
  let db ← get
  let validatorId ← liftExcept (db.getValidatorIdInTxn validatorPubkey)
  if (db.attestationsOf validatorId).any (·.targetEpoch == attTargetEpoch) then throw .sqlError
  set { db with signedAttestations := db.signedAttestations ++
    [(validatorId, (⟨attSourceEpoch, attTargetEpoch, attSigningRoot⟩ : SignedAttestation))] }

/-- `check_and_insert_block_signing_root_txn`. -/
def checkAndInsertBlockSigningRootTxn (validatorPubkey : K) (slot signingRoot : Nat) :
    EStateM (NotSafe K) (SlashingDatabase K) Safe := do
  let safe ← liftExcept ((← get).checkBlockProposal validatorPubkey slot signingRoot)
  if safe ≠ .sameData then insertBlockProposal validatorPubkey slot signingRoot
  return safe

/-- `check_and_insert_attestation_signing_root_txn`. -/
def checkAndInsertAttestationSigningRootTxn (validatorPubkey : K)
    (attSourceEpoch attTargetEpoch attSigningRoot : Nat) :
    EStateM (NotSafe K) (SlashingDatabase K) Safe := do
  let safe ← liftExcept ((← get).checkAttestation validatorPubkey attSourceEpoch attTargetEpoch
    attSigningRoot)
  if safe ≠ .sameData then
    insertAttestation validatorPubkey attSourceEpoch attTargetEpoch attSigningRoot
  return safe

/-- `check_and_insert_block_signing_root`, in an exclusive transaction. -/
def checkAndInsertBlockSigningRoot (db : SlashingDatabase K) (validatorPubkey : K)
    (slot signingRoot : Nat) : Except (NotSafe K) Safe × SlashingDatabase K :=
  withTransaction (checkAndInsertBlockSigningRootTxn validatorPubkey slot signingRoot) db

/-- `check_and_insert_attestation_signing_root`, in an exclusive transaction. -/
def checkAndInsertAttestationSigningRoot (db : SlashingDatabase K) (validatorPubkey : K)
    (attSourceEpoch attTargetEpoch attSigningRoot : Nat) :
    Except (NotSafe K) Safe × SlashingDatabase K :=
  withTransaction (checkAndInsertAttestationSigningRootTxn validatorPubkey attSourceEpoch
    attTargetEpoch attSigningRoot) db

/-- `prune_signed_blocks`: the blocks of the validator below `new_min_slot` and below its
greatest slot, which the subquery reads before the deletion. -/
def pruneSignedBlocks (publicKey : K) (newMinSlot : Nat) :
    EStateM (NotSafe K) (SlashingDatabase K) Unit := do
  let db ← get
  let validatorId ← liftExcept (db.getValidatorIdInTxn publicKey)
  let maxSlot := ((db.blocksOf validatorId).map (·.slot)).max?
  set { db with signedBlocks := db.signedBlocks.filter fun row =>
    !(row.1 = validatorId && row.2.slot < newMinSlot && maxSlot.any (row.2.slot < ·)) }

/-- `prune_signed_attestations`: the attestations of the validator with a target below
`new_min_target` and below its greatest target. -/
def pruneSignedAttestations (publicKey : K) (newMinTarget : Nat) :
    EStateM (NotSafe K) (SlashingDatabase K) Unit := do
  let db ← get
  let validatorId ← liftExcept (db.getValidatorIdInTxn publicKey)
  let maxTarget := ((db.attestationsOf validatorId).map (·.targetEpoch)).max?
  set { db with signedAttestations := db.signedAttestations.filter fun row =>
    !(row.1 = validatorId && row.2.targetEpoch < newMinTarget &&
      maxTarget.any (row.2.targetEpoch < ·)) }

/-- `prune_all_signed_blocks`: one transaction, which the first failure aborts. -/
def pruneAllSignedBlocks (db : SlashingDatabase K) (publicKeys : List K) (newMinSlot : Nat) :
    Except (NotSafe K) Unit × SlashingDatabase K :=
  withTransaction (publicKeys.forM fun pubkey => pruneSignedBlocks pubkey newMinSlot) db

/-- `prune_all_signed_attestations`. -/
def pruneAllSignedAttestations (db : SlashingDatabase K) (publicKeys : List K)
    (newMinTarget : Nat) : Except (NotSafe K) Unit × SlashingDatabase K :=
  withTransaction (publicKeys.forM fun pubkey => pruneSignedAttestations pubkey newMinTarget) db

/-- `clear_signed_blocks`. -/
def clearSignedBlocks (publicKey : K) : EStateM (NotSafe K) (SlashingDatabase K) Unit := do
  let db ← get
  let validatorId ← liftExcept (db.getValidatorIdInTxn publicKey)
  set { db with signedBlocks := db.signedBlocks.filter fun row => !(row.1 = validatorId) }

/-- `clear_signed_attestations`. -/
def clearSignedAttestations (publicKey : K) : EStateM (NotSafe K) (SlashingDatabase K) Unit := do
  let db ← get
  let validatorId ← liftExcept (db.getValidatorIdInTxn publicKey)
  set { db with signedAttestations := db.signedAttestations.filter fun row =>
    !(row.1 = validatorId) }

/-- The blocks of `import_interchange_record`: when the record has any, the validator's blocks
replaced by one at the greatest slot of what it had and what the record holds, with the null
signing root. -/
def importSignedBlocks (pubkey : K) (prevSummary : ValidatorSummary)
    (signedBlocks : List InterchangeBlock) : EStateM (NotSafe K) (SlashingDatabase K) Unit :=
  match RustIter.maxByKey (·.slot) signedBlocks with
  | some maxBlock => do
    let newMaxSlot := maxOr prevSummary.maxBlockSlot maxBlock.slot
    clearSignedBlocks pubkey
    insertBlockProposal pubkey newMaxSlot 0
  | none => pure ()

/-- The attestations of `import_interchange_record`: when the record has any, the validator's
attestations replaced by one at the greatest source and the greatest target of what it had and
what the record holds, with the null signing root. -/
def importSignedAttestations (pubkey : K) (prevSummary : ValidatorSummary)
    (signedAttestations : List InterchangeAttestation) :
    EStateM (NotSafe K) (SlashingDatabase K) Unit :=
  match RustIter.maxByKey (·.sourceEpoch) signedAttestations,
      RustIter.maxByKey (·.targetEpoch) signedAttestations with
  | some maxSourceAtt, some maxTargetAtt => do
    let sourceEpoch := maxOr prevSummary.maxAttestationSource maxSourceAtt.sourceEpoch
    let targetEpoch := maxOr prevSummary.maxAttestationTarget maxTargetAtt.targetEpoch
    -- cleared first, for the target's `UNIQUE` constraint
    clearSignedAttestations pubkey
    insertAttestation pubkey sourceEpoch targetEpoch 0
  | _, _ => pure ()

/-- `import_interchange_record`: the validator registered, its blocks and its attestations
replaced by synthetic ones, then the summary checked against the one before. -/
def importInterchangeRecord (record : InterchangeData K) :
    EStateM (NotSafe K) (SlashingDatabase K) ValidatorSummary := do
  let pubkey := record.pubkey
  registerValidatorsInTxn [pubkey]
  let prevSummary ← liftExcept ((← get).validatorSummary pubkey)
  importSignedBlocks pubkey prevSummary record.signedBlocks
  importSignedAttestations pubkey prevSummary record.signedAttestations
  let summary ← liftExcept ((← get).validatorSummary record.pubkey)
  if summary.checkBlockConsistency prevSummary (!record.signedBlocks.isEmpty) &&
      summary.checkAttestationConsistency prevSummary (!record.signedAttestations.isEmpty) then
    return summary
  else throw .consistencyError

/-- The loop of `import_interchange_info` in its transaction: every record is tried in order,
from the database the records before it left, a failed one included; the outcomes, and whether
all succeeded. -/
def importInterchangeLoop (db : SlashingDatabase K) :
    List (InterchangeData K) → List (InterchangeImportOutcome K) × Bool × SlashingDatabase K
  | [] => ([], true, db)
  | record :: records =>
    match (importInterchangeRecord record).run db with
    | .ok summary db' =>
      let rest := importInterchangeLoop db' records
      (.success record.pubkey summary :: rest.1, rest.2.1, rest.2.2)
    | .error error db' =>
      let rest := importInterchangeLoop db' records
      (.failure record.pubkey error :: rest.1, false, rest.2.2)

/-- `import_interchange_info`: committed only when every record was imported. -/
def importInterchangeInfo (db : SlashingDatabase K) (interchange : Interchange K)
    (genesisValidatorsRoot : Nat) :
    Except (InterchangeError K) (List (InterchangeImportOutcome K)) × SlashingDatabase K :=
  let version := interchange.metadata.interchangeFormatVersion
  if version ≠ supportedInterchangeFormatVersion then (.error (.unsupportedVersion version), db)
  else if genesisValidatorsRoot ≠ interchange.metadata.genesisValidatorsRoot then
    (.error (.genesisValidatorsMismatch interchange.metadata.genesisValidatorsRoot
      genesisValidatorsRoot), db)
  else
    let result := importInterchangeLoop db interchange.data
    if result.2.1 then (.ok result.1, result.2.2) else (.error (.atomicBatchAborted result.1), db)

/-- `export_interchange_blocks_for_validator`: by slot, a null root as none. -/
def exportInterchangeBlocksForValidator (db : SlashingDatabase K) (validatorId : K) :
    List InterchangeBlock :=
  ((db.blocksOf validatorId).mergeSort fun a b => decide (a.slot ≤ b.slot)).map fun b =>
    (⟨b.slot, if b.signingRoot = 0 then none else some b.signingRoot⟩ : InterchangeBlock)

/-- `export_interchange_attestations_for_validator`: by source, then target. -/
def exportInterchangeAttestationsForValidator (db : SlashingDatabase K) (validatorId : K) :
    List InterchangeAttestation :=
  ((db.attestationsOf validatorId).mergeSort fun a b =>
    decide (a.sourceEpoch < b.sourceEpoch ∨
      (a.sourceEpoch = b.sourceEpoch ∧ a.targetEpoch ≤ b.targetEpoch))).map fun a =>
    (⟨a.sourceEpoch, a.targetEpoch, if a.signingRoot = 0 then none else some a.signingRoot⟩ :
      InterchangeAttestation)

/-- `export_interchange_info_in_txn`: the selected validators, registered, or all of them in
the order of their ids. -/
def exportInterchangeInfoInTxn (db : SlashingDatabase K) (genesisValidatorsRoot : Nat)
    (selectedPubkeys : Option (List K)) : Except (InterchangeError K) (Interchange K) := do
  let toExport ← match selectedPubkeys with
    | some selectedPubkeys => selectedPubkeys.mapM fun pubkey =>
        (db.getValidatorIdIgnoringStatus pubkey).mapError .notSafe
    | none => pure (db.validators.map Prod.fst)
  let data := toExport.map fun pubkey =>
    (⟨pubkey, db.exportInterchangeBlocksForValidator pubkey,
      db.exportInterchangeAttestationsForValidator pubkey⟩ : InterchangeData K)
  return ⟨⟨supportedInterchangeFormatVersion, genesisValidatorsRoot⟩, data⟩

/-! ## What the checks accept -/

theorem getValidatorIdInTxn_eq_ok {db : SlashingDatabase K} {publicKey validatorId : K} :
    db.getValidatorIdInTxn publicKey = .ok validatorId ↔
      db.validators.lookup publicKey = some true ∧ validatorId = publicKey := by
  unfold getValidatorIdInTxn
  cases db.validators.lookup publicKey with
  | none => simp
  | some enabled => cases enabled <;> simp [eq_comm]

/-- `check_block_proposal` accepts a block of a registered and enabled validator as the same
data when a block at its slot has its signing root, not null, and as valid when no block is at
its slot and, unless there is none, one is at a lower slot. -/
theorem checkBlockProposal_eq_ok {db : SlashingDatabase K} {validatorPubkey : K}
    {slot signingRoot : Nat} {safe : Safe}
    (h : db.checkBlockProposal validatorPubkey slot signingRoot = .ok safe) :
    db.validators.lookup validatorPubkey = some true ∧
      ((safe = .sameData ∧ ∃ b ∈ db.blocksOf validatorPubkey, b.slot = slot ∧
          signingRootEq b.signingRoot signingRoot = true) ∨
        (safe = .valid ∧ (∀ b ∈ db.blocksOf validatorPubkey, b.slot ≠ slot) ∧
          (db.blocksOf validatorPubkey ≠ [] →
            ∃ b ∈ db.blocksOf validatorPubkey, b.slot < slot))) := by
  unfold checkBlockProposal at h
  rw [Except.bind_eq_ok] at h
  obtain ⟨validatorId, hid, h⟩ := h
  obtain ⟨hlookup, rfl⟩ := getValidatorIdInTxn_eq_ok.1 hid
  refine ⟨hlookup, ?_⟩
  cases hfind : (db.blocksOf validatorId).find? (·.slot == slot) with
  | some existingBlock =>
    -- a block at the slot: the same data, or a double proposal
    simp only [hfind] at h
    split at h
    · rename_i hroot
      cases h
      have hslot : existingBlock.slot = slot := by simpa using List.find?_some hfind
      exact .inl ⟨rfl, existingBlock, List.mem_of_find?_eq_some hfind, hslot, hroot⟩
    · cases h
  | none =>
    simp only [hfind] at h
    have hfree : ∀ b ∈ db.blocksOf validatorId, b.slot ≠ slot := by
      intro b hb hslot
      simpa [hslot] using List.find?_eq_none.1 hfind b hb
    cases hmin : ((db.blocksOf validatorId).map (·.slot)).min? with
    | none =>
      simp only [hmin] at h
      cases h
      refine .inr ⟨rfl, hfree, fun hne => ?_⟩
      simp [List.min?_eq_none_iff] at hmin
      exact absurd hmin hne
    | some minSlot =>
      -- the least slot is a lower bound
      simp only [hmin] at h
      split at h
      · cases h
      · rename_i hlt
        cases h
        refine .inr ⟨rfl, hfree, fun _ => ?_⟩
        obtain ⟨b, hb, hbslot⟩ := List.mem_map.1 (List.min?_mem hmin)
        exact ⟨b, hb, by omega⟩

/-- `check_attestation` accepts an attestation of a registered and enabled validator, with its
source not above its target, as the same data when one at its target has its signing root, not
null, and as valid when none is at its target, none surrounds it and none is surrounded by it,
and, unless there are none, one has a source not above its source and one a target below its
target. -/
theorem checkAttestation_eq_ok {db : SlashingDatabase K} {validatorPubkey : K}
    {sourceEpoch targetEpoch signingRoot : Nat} {safe : Safe}
    (h : db.checkAttestation validatorPubkey sourceEpoch targetEpoch signingRoot = .ok safe) :
    sourceEpoch ≤ targetEpoch ∧ db.validators.lookup validatorPubkey = some true ∧
      ((safe = .sameData ∧ ∃ a ∈ db.attestationsOf validatorPubkey,
          a.targetEpoch = targetEpoch ∧ signingRootEq a.signingRoot signingRoot = true) ∨
        (safe = .valid ∧ (∀ a ∈ db.attestationsOf validatorPubkey,
            a.targetEpoch ≠ targetEpoch ∧
            ¬(a.sourceEpoch < sourceEpoch ∧ targetEpoch < a.targetEpoch) ∧
            ¬(sourceEpoch < a.sourceEpoch ∧ a.targetEpoch < targetEpoch)) ∧
          (db.attestationsOf validatorPubkey ≠ [] →
            (∃ a ∈ db.attestationsOf validatorPubkey, a.sourceEpoch ≤ sourceEpoch) ∧
            ∃ a ∈ db.attestationsOf validatorPubkey, a.targetEpoch < targetEpoch))) := by
  unfold checkAttestation at h
  by_cases hst : sourceEpoch > targetEpoch
  · simp only [hst, if_true] at h
    cases h
  simp only [hst, if_false] at h
  refine ⟨by omega, ?_⟩
  cases hid : db.getValidatorIdInTxn validatorPubkey with
  | error e =>
    simp only [hid] at h
    cases h
  | ok validatorId =>
  obtain ⟨hlookup, rfl⟩ := getValidatorIdInTxn_eq_ok.1 hid
  refine ⟨hlookup, ?_⟩
  simp only [hid, Except.ok_bind] at h
  generalize hatts : db.attestationsOf validatorId = atts at h ⊢
  cases hfind : atts.find? (·.targetEpoch == targetEpoch) with
  | some existing =>
    -- an attestation at the target: the same data, or a double vote
    simp only [hfind] at h
    split at h
    · rename_i hroot
      cases h
      have htarget : existing.targetEpoch = targetEpoch := by simpa using List.find?_some hfind
      exact .inl ⟨rfl, existing, List.mem_of_find?_eq_some hfind, htarget, hroot⟩
    · cases h
  | none =>
    simp only [hfind] at h
    cases hs1 : latestByTarget (atts.filter fun a =>
        a.sourceEpoch < sourceEpoch && a.targetEpoch > targetEpoch) with
    | some prev =>
      simp only [hs1] at h
      cases h
    | none =>
    simp only [hs1] at h
    cases hs2 : latestByTarget (atts.filter fun a =>
        a.sourceEpoch > sourceEpoch && a.targetEpoch < targetEpoch) with
    | some prev =>
      simp only [hs2] at h
      cases h
    | none =>
    simp only [hs2] at h
    -- no row at the target, none surrounding and none surrounded
    have hrows : ∀ a ∈ atts, a.targetEpoch ≠ targetEpoch ∧
        ¬(a.sourceEpoch < sourceEpoch ∧ targetEpoch < a.targetEpoch) ∧
        ¬(sourceEpoch < a.sourceEpoch ∧ a.targetEpoch < targetEpoch) := by
      intro a ha
      have h1 := List.find?_eq_none.1 hfind a ha
      have h2 := List.filter_eq_nil_iff.1 (RustIter.maxByKey_eq_none.1 hs1) a ha
      have h3 := List.filter_eq_nil_iff.1 (RustIter.maxByKey_eq_none.1 hs2) a ha
      simp only [beq_iff_eq, Bool.and_eq_true, decide_eq_true_eq] at h1 h2 h3
      omega
    cases hmin1 : (atts.map (·.sourceEpoch)).min? with
    | none =>
      -- no rows, so no lower bounds
      have hnil : atts = [] := by simpa using hmin1
      subst hnil
      simp only [List.map_nil, List.min?_nil] at h
      cases h
      exact .inr ⟨rfl, hrows, fun hne => absurd rfl hne⟩
    | some minSource =>
      -- the least source and the least target are lower bounds
      simp only [hmin1] at h
      split at h
      · cases h
      · rename_i hsource
        have hne : atts ≠ [] := by
          rintro rfl
          simp at hmin1
        cases hmin2 : (atts.map (·.targetEpoch)).min? with
        | none => simp [hne] at hmin2
        | some minTarget =>
          simp only [hmin2] at h
          split at h
          · cases h
          · rename_i htarget
            cases h
            refine .inr ⟨rfl, hrows, fun _ => ⟨?_, ?_⟩⟩
            · obtain ⟨a, ha, hmin⟩ := List.mem_map.1 (List.min?_mem hmin1)
              exact ⟨a, ha, by omega⟩
            · obtain ⟨a, ha, hmin⟩ := List.mem_map.1 (List.min?_mem hmin2)
              exact ⟨a, ha, by omega⟩

theorem validatorSummary_eq_ok {db : SlashingDatabase K} {publicKey : K}
    {summary : ValidatorSummary}
    (h : db.validatorSummary publicKey = .ok summary) :
    summary.maxBlockSlot = ((db.blocksOf publicKey).map (·.slot)).max? ∧
      summary.maxAttestationSource = ((db.attestationsOf publicKey).map (·.sourceEpoch)).max? ∧
      summary.maxAttestationTarget = ((db.attestationsOf publicKey).map (·.targetEpoch)).max? := by
  cases hid : db.getValidatorIdInTxn publicKey with
  | error e => simp [validatorSummary, hid] at h
  | ok validatorId =>
    obtain ⟨-, rfl⟩ := getValidatorIdInTxn_eq_ok.1 hid
    simp only [validatorSummary, hid, Except.ok_bind] at h
    cases h
    exact ⟨rfl, rfl, rfl⟩

/-! ## What the transactions change -/

omit [DecidableEq K] in
/-- A transaction keeps what its body keeps. -/
theorem withTransaction_keeps {ε α : Type} {P : SlashingDatabase K → Prop}
    {body : EStateM ε (SlashingDatabase K) α} (h : Keeps P body) {db : SlashingDatabase K}
    (hdb : P db) : P (withTransaction body db).2 := by
  have hrun := h db hdb
  unfold SlashingDatabase.withTransaction
  split
  · rename_i hok
    rwa [hok] at hrun
  · exact hdb

/-- `prune_signed_blocks`: for a registered and enabled validator, its blocks below
`new_min_slot` and below its greatest slot dropped. -/
theorem pruneSignedBlocks_run (publicKey : K) (newMinSlot : Nat) (db : SlashingDatabase K) :
    (pruneSignedBlocks publicKey newMinSlot).run db =
      match db.getValidatorIdInTxn publicKey with
      | .ok validatorId => .ok () { db with signedBlocks := db.signedBlocks.filter fun row =>
          !(row.1 = validatorId && row.2.slot < newMinSlot &&
            ((db.blocksOf validatorId).map (·.slot)).max?.any (row.2.slot < ·)) }
      | .error e => .error e db := by
  cases hid : db.getValidatorIdInTxn publicKey <;>
    simp only [pruneSignedBlocks, run_bind, run_get, run_liftExcept, hid]
  rfl

theorem pruneSignedAttestations_run (publicKey : K) (newMinTarget : Nat)
    (db : SlashingDatabase K) :
    (pruneSignedAttestations publicKey newMinTarget).run db =
      match db.getValidatorIdInTxn publicKey with
      | .ok validatorId => .ok ()
        { db with signedAttestations := db.signedAttestations.filter fun row =>
          !(row.1 = validatorId && row.2.targetEpoch < newMinTarget &&
            ((db.attestationsOf validatorId).map (·.targetEpoch)).max?.any
              (row.2.targetEpoch < ·)) }
      | .error e => .error e db := by
  cases hid : db.getValidatorIdInTxn publicKey <;>
    simp only [pruneSignedAttestations, run_bind, run_get, run_liftExcept, hid]
  rfl

theorem clearSignedBlocks_run (publicKey : K) (db : SlashingDatabase K) :
    (clearSignedBlocks publicKey).run db =
      match db.getValidatorIdInTxn publicKey with
      | .ok validatorId => .ok ()
        { db with signedBlocks := db.signedBlocks.filter fun row => !(row.1 = validatorId) }
      | .error e => .error e db := by
  cases hid : db.getValidatorIdInTxn publicKey <;>
    simp only [clearSignedBlocks, run_bind, run_get, run_liftExcept, hid]
  rfl

theorem clearSignedAttestations_run (publicKey : K) (db : SlashingDatabase K) :
    (clearSignedAttestations publicKey).run db =
      match db.getValidatorIdInTxn publicKey with
      | .ok validatorId => .ok ()
        { db with signedAttestations := db.signedAttestations.filter fun row =>
          !(row.1 = validatorId) }
      | .error e => .error e db := by
  cases hid : db.getValidatorIdInTxn publicKey <;>
    simp only [clearSignedAttestations, run_bind, run_get, run_liftExcept, hid]
  rfl

theorem insertBlockProposal_run (validatorPubkey : K) (slot signingRoot : Nat)
    (db : SlashingDatabase K) :
    (insertBlockProposal validatorPubkey slot signingRoot).run db =
      match db.getValidatorIdInTxn validatorPubkey with
      | .ok validatorId =>
        if (db.blocksOf validatorId).any (·.slot == slot) then .error .sqlError db
        else .ok () { db with signedBlocks :=
          db.signedBlocks ++ [(validatorId, (⟨slot, signingRoot⟩ : SignedBlock))] }
      | .error e => .error e db := by
  cases hid : db.getValidatorIdInTxn validatorPubkey <;>
    simp only [insertBlockProposal, run_bind, run_get, run_liftExcept, hid]
  split <;> rfl

theorem insertAttestation_run (validatorPubkey : K) (sourceEpoch targetEpoch signingRoot : Nat)
    (db : SlashingDatabase K) :
    (insertAttestation validatorPubkey sourceEpoch targetEpoch signingRoot).run db =
      match db.getValidatorIdInTxn validatorPubkey with
      | .ok validatorId =>
        if (db.attestationsOf validatorId).any (·.targetEpoch == targetEpoch) then
          .error .sqlError db
        else .ok () { db with signedAttestations := db.signedAttestations ++
          [(validatorId, (⟨sourceEpoch, targetEpoch, signingRoot⟩ : SignedAttestation))] }
      | .error e => .error e db := by
  cases hid : db.getValidatorIdInTxn validatorPubkey <;>
    simp only [insertAttestation, run_bind, run_get, run_liftExcept, hid]
  split <;> rfl

/-- `check_and_insert_block_signing_root`: a valid block is recorded; otherwise nothing
changes. -/
theorem checkAndInsertBlockSigningRoot_eq (db : SlashingDatabase K) (validatorPubkey : K)
    (slot signingRoot : Nat) :
    db.checkAndInsertBlockSigningRoot validatorPubkey slot signingRoot =
      match db.checkBlockProposal validatorPubkey slot signingRoot with
      | .ok .valid => (.ok .valid, { db with signedBlocks :=
          db.signedBlocks ++ [(validatorPubkey, (⟨slot, signingRoot⟩ : SignedBlock))] })
      | result => (result, db) := by
  unfold checkAndInsertBlockSigningRoot checkAndInsertBlockSigningRootTxn
  cases hcheck : db.checkBlockProposal validatorPubkey slot signingRoot with
  | error e => simp [withTransaction, hcheck]
  | ok safe =>
    cases safe with
    | sameData => simp [withTransaction, hcheck]
    | valid =>
      obtain ⟨hlookup, hcases⟩ := checkBlockProposal_eq_ok hcheck
      have hfree : ∀ b ∈ db.blocksOf validatorPubkey, b.slot ≠ slot := by
        rcases hcases with ⟨h, -⟩ | ⟨-, h, -⟩
        · cases h
        · exact h
      have hnone : ¬∃ b ∈ db.blocksOf validatorPubkey, b.slot = slot :=
        fun ⟨b, hb, hslot⟩ => hfree b hb hslot
      simp [withTransaction, hcheck, insertBlockProposal, getValidatorIdInTxn, hlookup, hnone]

/-- `check_and_insert_attestation_signing_root`: a valid attestation is recorded; otherwise
nothing changes. -/
theorem checkAndInsertAttestationSigningRoot_eq (db : SlashingDatabase K) (validatorPubkey : K)
    (sourceEpoch targetEpoch signingRoot : Nat) :
    db.checkAndInsertAttestationSigningRoot validatorPubkey sourceEpoch targetEpoch signingRoot =
      match db.checkAttestation validatorPubkey sourceEpoch targetEpoch signingRoot with
      | .ok .valid => (.ok .valid, { db with signedAttestations := db.signedAttestations ++
          [(validatorPubkey, (⟨sourceEpoch, targetEpoch, signingRoot⟩ : SignedAttestation))] })
      | result => (result, db) := by
  unfold checkAndInsertAttestationSigningRoot checkAndInsertAttestationSigningRootTxn
  cases hcheck : db.checkAttestation validatorPubkey sourceEpoch targetEpoch signingRoot with
  | error e => simp [withTransaction, hcheck]
  | ok safe =>
    cases safe with
    | sameData => simp [withTransaction, hcheck]
    | valid =>
      obtain ⟨-, hlookup, hcases⟩ := checkAttestation_eq_ok hcheck
      have hfree : ∀ a ∈ db.attestationsOf validatorPubkey, a.targetEpoch ≠ targetEpoch := by
        rcases hcases with ⟨h, -⟩ | ⟨-, h, -⟩
        · cases h
        · exact fun a ha => (h a ha).1
      have hnone : ¬∃ a ∈ db.attestationsOf validatorPubkey, a.targetEpoch = targetEpoch :=
        fun ⟨a, ha, htarget⟩ => hfree a ha htarget
      simp [withTransaction, hcheck, insertAttestation, getValidatorIdInTxn, hlookup, hnone]

/-- Registering validators changes neither table of signed messages. -/
theorem registerValidatorsInTxn_moves (publicKeys : List K) :
    Moves (fun db db' : SlashingDatabase K => db'.signedBlocks = db.signedBlocks ∧
      db'.signedAttestations = db.signedAttestations) (registerValidatorsInTxn publicKeys) := by
  refine Moves.forM (fun _ => ⟨rfl, rfl⟩)
    (fun _ _ _ h₁ h₂ => ⟨h₂.1.trans h₁.1, h₂.2.trans h₁.2⟩) publicKeys
    fun pubkey _ => ?_
  refine moves_get_bind fun db => ?_
  cases db.validators.lookup pubkey with
  | none => exact ⟨rfl, rfl⟩
  | some enabled => cases enabled <;> exact ⟨rfl, rfl⟩

/-- The blocks of an import: without blocks in the record nothing changes; with some, the
validator's blocks become one, at a slot at or above every block of the record and the
greatest slot of the summary before. -/
theorem importSignedBlocks_run_ok {pubkey : K} {prevSummary : ValidatorSummary}
    {signedBlocks : List InterchangeBlock} {db db' : SlashingDatabase K}
    (h : (importSignedBlocks pubkey prevSummary signedBlocks).run db = .ok () db') :
    db'.signedAttestations = db.signedAttestations ∧
      ((signedBlocks = [] ∧ db' = db) ∨
        ∃ slot, (∀ b ∈ signedBlocks, b.slot ≤ slot) ∧
          (∀ m ∈ prevSummary.maxBlockSlot, m ≤ slot) ∧
          ∀ v, db'.blocksOf v = if v = pubkey then [⟨slot, 0⟩] else db.blocksOf v) := by
  unfold importSignedBlocks at h
  cases hmax : RustIter.maxByKey (·.slot) signedBlocks with
  | none =>
    rw [hmax] at h
    cases h
    exact ⟨rfl, .inl ⟨RustIter.maxByKey_eq_none.1 hmax, rfl⟩⟩
  | some maxBlock =>
    rw [hmax] at h
    obtain ⟨⟨⟩, db₁, hclear, hinsert⟩ := run_bind_eq_ok.1 h
    rw [clearSignedBlocks_run] at hclear
    cases hid : db.getValidatorIdInTxn pubkey with
    | error e =>
      rw [hid] at hclear
      cases hclear
    | ok validatorId =>
    obtain ⟨hlookup, rfl⟩ := getValidatorIdInTxn_eq_ok.1 hid
    rw [hid] at hclear
    cases hclear
    simp only [insertBlockProposal_run, getValidatorIdInTxn, hlookup, if_true] at hinsert
    split at hinsert
    · cases hinsert
    · cases hinsert
      refine ⟨rfl, .inr ⟨maxOr prevSummary.maxBlockSlot maxBlock.slot, fun b hb => ?_,
        fun m hm => le_maxOr_left _ hm, fun v => ?_⟩⟩
      · exact (RustIter.maxByKey_le hmax b hb).trans (le_maxOr_right _ _)
      · exact rowsOf_filter_append _ _ _ _

/-- The attestations of an import: without attestations in the record nothing changes; with
some, the validator's attestations become one, at a source and a target at or above every
attestation of the record and the greatest source and target of the summary before. -/
theorem importSignedAttestations_run_ok {pubkey : K} {prevSummary : ValidatorSummary}
    {signedAttestations : List InterchangeAttestation} {db db' : SlashingDatabase K}
    (h : (importSignedAttestations pubkey prevSummary signedAttestations).run db = .ok () db') :
    db'.signedBlocks = db.signedBlocks ∧
      ((signedAttestations = [] ∧ db' = db) ∨
        ∃ sourceEpoch targetEpoch, (∀ a ∈ signedAttestations,
            a.sourceEpoch ≤ sourceEpoch ∧ a.targetEpoch ≤ targetEpoch) ∧
          (∀ m ∈ prevSummary.maxAttestationSource, m ≤ sourceEpoch) ∧
          (∀ m ∈ prevSummary.maxAttestationTarget, m ≤ targetEpoch) ∧
          ∀ v, db'.attestationsOf v =
            if v = pubkey then [⟨sourceEpoch, targetEpoch, 0⟩] else db.attestationsOf v) := by
  unfold importSignedAttestations at h
  cases hsource : RustIter.maxByKey (·.sourceEpoch) signedAttestations with
  | none =>
    rw [hsource] at h
    cases h
    exact ⟨rfl, .inl ⟨RustIter.maxByKey_eq_none.1 hsource, rfl⟩⟩
  | some maxSourceAtt =>
  cases htarget : RustIter.maxByKey (·.targetEpoch) signedAttestations with
  | none =>
    rw [hsource, htarget] at h
    cases h
    exact ⟨rfl, .inl ⟨RustIter.maxByKey_eq_none.1 htarget, rfl⟩⟩
  | some maxTargetAtt =>
    rw [hsource, htarget] at h
    obtain ⟨⟨⟩, db₁, hclear, hinsert⟩ := run_bind_eq_ok.1 h
    rw [clearSignedAttestations_run] at hclear
    cases hid : db.getValidatorIdInTxn pubkey with
    | error e =>
      rw [hid] at hclear
      cases hclear
    | ok validatorId =>
    obtain ⟨hlookup, rfl⟩ := getValidatorIdInTxn_eq_ok.1 hid
    rw [hid] at hclear
    cases hclear
    simp only [insertAttestation_run, getValidatorIdInTxn, hlookup, if_true] at hinsert
    split at hinsert
    · cases hinsert
    · cases hinsert
      refine ⟨rfl, .inr ⟨maxOr prevSummary.maxAttestationSource maxSourceAtt.sourceEpoch,
        maxOr prevSummary.maxAttestationTarget maxTargetAtt.targetEpoch, fun a ha => ⟨?_, ?_⟩,
        fun m hm => le_maxOr_left _ hm, fun m hm => le_maxOr_left _ hm, fun v => ?_⟩⟩
      · exact (RustIter.maxByKey_le hsource a ha).trans (le_maxOr_right _ _)
      · exact (RustIter.maxByKey_le htarget a ha).trans (le_maxOr_right _ _)
      · exact rowsOf_filter_append _ _ _ _

/-- A record imported with `Ok`: the validator registered, which leaves the messages as they
were, the summary before read, then the blocks and the attestations imported; the end, which
reads the summary and checks it, changes nothing. -/
theorem importInterchangeRecord_run_ok {record : InterchangeData K} {db db' : SlashingDatabase K}
    {summary : ValidatorSummary} (h : (importInterchangeRecord record).run db = .ok summary db') :
    ∃ db₁ db₂ prevSummary, db₁.signedBlocks = db.signedBlocks ∧
      db₁.signedAttestations = db.signedAttestations ∧
      db₁.validatorSummary record.pubkey = .ok prevSummary ∧
      (importSignedBlocks record.pubkey prevSummary record.signedBlocks).run db₁ =
        .ok () db₂ ∧
      (importSignedAttestations record.pubkey prevSummary record.signedAttestations).run db₂ =
        .ok () db' := by
  unfold importInterchangeRecord at h
  obtain ⟨_, db₁, hregister, h⟩ := run_bind_eq_ok.1 h
  obtain ⟨_, _, hget, h⟩ := run_bind_eq_ok.1 h
  simp only [run_get, Result.ok.injEq] at hget
  obtain ⟨rfl, rfl⟩ := hget
  obtain ⟨summary₁, _, hprev, h⟩ := run_bind_eq_ok.1 h
  cases hsummary : db₁.validatorSummary record.pubkey with
  | error e =>
    rw [run_liftExcept, hsummary] at hprev
    cases hprev
  | ok prevSummary =>
  rw [run_liftExcept, hsummary] at hprev
  simp only [Result.ok.injEq] at hprev
  obtain ⟨rfl, rfl⟩ := hprev
  obtain ⟨⟨⟩, db₂, hblocks, h⟩ := run_bind_eq_ok.1 h
  obtain ⟨⟨⟩, db₃, hattestations, h⟩ := run_bind_eq_ok.1 h
  -- the end reads the summary and checks it, which changes nothing
  have hcheck : ∀ x : Except (NotSafe K) ValidatorSummary,
      Moves (fun db db' : SlashingDatabase K => db = db') (liftExcept x >>= fun summary =>
        if summary.checkBlockConsistency prevSummary (!record.signedBlocks.isEmpty) &&
            summary.checkAttestationConsistency prevSummary
              (!record.signedAttestations.isEmpty) then
          pure summary
        else throw NotSafe.consistencyError : EStateM (NotSafe K) (SlashingDatabase K) _) := by
    intro x
    refine Moves.bind (fun _ _ _ h₁ h₂ => h₁.trans h₂) (moves_liftExcept (fun _ => rfl) x)
      fun summary => ?_
    split
    · exact moves_pure (fun _ => rfl) _
    · exact moves_throw (fun _ => rfl) _
  obtain rfl : db₃ = db' :=
    Moves.of_run_ok (moves_get_bind fun s => hcheck (s.validatorSummary record.pubkey) s) h
  obtain ⟨hblocks₁, hattestations₁⟩ :=
    (registerValidatorsInTxn_moves [record.pubkey]).of_run_ok hregister
  exact ⟨db₁, db₂, prevSummary, hblocks₁, hattestations₁, hsummary, hblocks,
    hattestations⟩

/-- `import_interchange_info` commits the database every record left when all were imported,
and otherwise changes nothing. -/
theorem importInterchangeInfo_cases (db : SlashingDatabase K) (interchange : Interchange K)
    (genesisValidatorsRoot : Nat) :
    (∃ outcomes, db.importInterchangeInfo interchange genesisValidatorsRoot =
        (.ok outcomes, (importInterchangeLoop db interchange.data).2.2) ∧
        (importInterchangeLoop db interchange.data).2.1 = true) ∨
      ∃ e, db.importInterchangeInfo interchange genesisValidatorsRoot = (.error e, db) := by
  dsimp only [importInterchangeInfo]
  by_cases hversion :
    interchange.metadata.interchangeFormatVersion = supportedInterchangeFormatVersion
  · by_cases hroot : genesisValidatorsRoot = interchange.metadata.genesisValidatorsRoot
    · by_cases hall : (importInterchangeLoop db interchange.data).2.1 = true
      · exact .inl ⟨(importInterchangeLoop db interchange.data).1,
          by simp [hversion, hroot, hall], hall⟩
      · exact .inr ⟨.atomicBatchAborted (importInterchangeLoop db interchange.data).1,
          by simp [hversion, hroot, hall]⟩
    · exact .inr ⟨.genesisValidatorsMismatch interchange.metadata.genesisValidatorsRoot
        genesisValidatorsRoot, by simp [hversion, hroot]⟩
  · exact .inr ⟨.unsupportedVersion interchange.metadata.interchangeFormatVersion,
      by simp [hversion]⟩

end SlashingDatabase

end Vibehouse.ValidatorClient

