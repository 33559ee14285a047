import Mathlib.Logic.Function.Basic
import Mathlib.Data.List.Basic

/-! # The slasher's min-target and max-target arrays

`slasher/src/array.rs` and the index arithmetic of `slasher/src/config.rs`. For each validator
and each epoch of the last `history_length` epochs, the min-target array holds the smallest
target of an applied attestation whose source is above the epoch, and the max-target array the
largest target of one whose source is below it, both as `u16` distances from the epoch. A
validator chunk of `validator_chunk_size` validators and `chunk_size` epochs is stored under one
disk key, and epochs are reused modulo `history_length`.

Modelling choices. A chunk's vector of `chunk_size * validator_chunk_size` cells is a function
on cell indices: every index the code computes is below that bound (`cellIndex_lt`), so the
out-of-bounds error of `get_target`/`set_raw_distance` is unreachable. The key-value database
maps every disk key to its chunk, compression being a round trip; a key with nothing stored
reads as `T::empty`, which is the chunk the map gives it. The `updated_chunks` map of `update_array` is a write-back buffer over the
database: every read of a chunk goes through it and all of it is stored at the end of a
successful update, so chunks are read from and written to the map directly. Attester records
are a map from a validator and a target epoch to the first attestation recorded for them; the
database's keying of targets modulo `history_length` and its max-target bookkeeping are left
out. -/

namespace Vibehouse.Slasher

/-- `MAX_DISTANCE = u16::MAX`. -/
def maxDistance : Nat := 65535

/-- `MAX_HISTORY_LENGTH`. -/
def maxHistoryLength : Nat := 65536

/-- The errors of the array code. -/
inductive SlasherError
  | distanceTooLarge
  | distanceCalculationOverflow
  | missingAttesterRecord (validatorIndex targetEpoch : Nat)
  deriving DecidableEq, Repr

/-- The three fields of `Config` the arrays read. -/
structure Config where
  chunkSize : Nat
  validatorChunkSize : Nat
  historyLength : Nat
  deriving DecidableEq, Repr

inductive ConfigError
  | configInvalidZeroParameter
  | configInvalidChunkSize (chunkSize historyLength : Nat)
  | configInvalidHistoryLength (historyLength maxHistoryLength : Nat)
  deriving DecidableEq, Repr

namespace Config

/-- `Config::validate`; the check of `max_db_size_mbs` is left out with its field. -/
def validate (cfg : Config) : Except ConfigError Unit :=
  if cfg.chunkSize = 0 ∨ cfg.validatorChunkSize = 0 ∨ cfg.historyLength = 0 then
    .error .configInvalidZeroParameter
  else if cfg.historyLength % cfg.chunkSize ≠ 0 then
    .error (.configInvalidChunkSize cfg.chunkSize cfg.historyLength)
  else if maxHistoryLength < cfg.historyLength then
    .error (.configInvalidHistoryLength cfg.historyLength maxHistoryLength)
  else .ok ()

def chunkIndex (cfg : Config) (epoch : Nat) : Nat :=
  epoch % cfg.historyLength / cfg.chunkSize

def validatorChunkIndex (cfg : Config) (validatorIndex : Nat) : Nat :=
  validatorIndex / cfg.validatorChunkSize

def chunkOffset (cfg : Config) (epoch : Nat) : Nat :=
  epoch % cfg.chunkSize

def validatorOffset (cfg : Config) (validatorIndex : Nat) : Nat :=
  validatorIndex % cfg.validatorChunkSize

def diskKey (cfg : Config) (validatorChunkIndex chunkIndex : Nat) : Nat :=
  validatorChunkIndex * (cfg.historyLength / cfg.chunkSize) + chunkIndex

def cellIndex (cfg : Config) (validatorOffset chunkOffset : Nat) : Nat :=
  validatorOffset * cfg.chunkSize + chunkOffset

def validatorIndicesInChunk (cfg : Config) (validatorChunkIndex : Nat) : List Nat :=
  List.range' (validatorChunkIndex * cfg.validatorChunkSize) cfg.validatorChunkSize

end Config

/-- The parts of an `IndexedAttestation` the slasher reads. -/
structure IndexedAttestation where
  attestingIndices : List Nat
  sourceEpoch : Nat
  targetEpoch : Nat
  /-- The hash tree root of the attestation data. -/
  dataRoot : Nat
  deriving DecidableEq, Repr

namespace Config

def attestingValidatorsInChunk (cfg : Config) (attestation : IndexedAttestation)
    (validatorChunkIndex : Nat) : List Nat :=
  attestation.attestingIndices.filter fun v => cfg.validatorChunkIndex v = validatorChunkIndex

end Config

inductive AttesterSlashingStatus
  | notSlashable
  | alreadyDoubleVoted
  | doubleVote (existing : IndexedAttestation)
  | surroundsExisting (existing : IndexedAttestation)
  | surroundedByExisting (existing : IndexedAttestation)
  deriving DecidableEq, Repr

/-- `Chunk`: its cells, each a distance from the epoch of the cell. -/
structure Chunk where
  data : Nat → Nat

namespace Chunk

def getTarget (ch : Chunk) (cfg : Config) (validatorIndex epoch : Nat) : Nat :=
  epoch + ch.data (cfg.cellIndex (cfg.validatorOffset validatorIndex) (cfg.chunkOffset epoch))

def setRawDistance (ch : Chunk) (cfg : Config) (validatorIndex epoch targetDistance : Nat) :
    Chunk :=
  ⟨Function.update ch.data (cfg.cellIndex (cfg.validatorOffset validatorIndex)
    (cfg.chunkOffset epoch)) targetDistance⟩

/-- `epoch_distance`: the distance must fit in a `u16` and stay below `MAX_DISTANCE`. -/
def epochDistance (epoch baseEpoch : Nat) : Except SlasherError Nat :=
  if baseEpoch ≤ epoch then
    if epoch - baseEpoch < maxDistance then .ok (epoch - baseEpoch) else .error .distanceTooLarge
  else .error .distanceCalculationOverflow

def setTarget (ch : Chunk) (cfg : Config) (validatorIndex epoch targetEpoch : Nat) :
    Except SlasherError Chunk :=
  match epochDistance targetEpoch epoch with
  | .ok distance => .ok (ch.setRawDistance cfg validatorIndex epoch distance)
  | .error e => .error e

end Chunk

/-- The two arrays, `MinTargetChunk` and `MaxTargetChunk`. -/
inductive TargetKind
  | min
  | max
  deriving DecidableEq, Repr

namespace TargetKind

def neutralElement : TargetKind → Nat
  | .min => maxDistance
  | .max => 0

def empty (k : TargetKind) : Chunk := ⟨fun _ => k.neutralElement⟩

end TargetKind

/-- The slasher database, as far as the arrays read and write it. -/
structure SlasherDB where
  minTargets : Nat → Chunk
  maxTargets : Nat → Chunk
  currentEpochs : Nat → Option Nat
  /-- The attestation recorded for a validator and a target epoch. -/
  attesters : Nat → Nat → Option IndexedAttestation

namespace SlasherDB

def targets (db : SlasherDB) : TargetKind → Nat → Chunk
  | .min => db.minTargets
  | .max => db.maxTargets

/-- `get_chunk_for_update`: the stored chunk, `T::empty` for a key never stored. -/
def chunkForUpdate (db : SlasherDB) (k : TargetKind) (diskKey : Nat) : Chunk :=
  db.targets k diskKey

/-- `store`. -/
def putChunk (db : SlasherDB) (k : TargetKind) (diskKey : Nat) (ch : Chunk) : SlasherDB :=
  match k with
  | .min => { db with minTargets := Function.update db.minTargets diskKey ch }
  | .max => { db with maxTargets := Function.update db.maxTargets diskKey ch }

/-- `get_attestation_for_validator`. -/
def getAttestationForValidator (db : SlasherDB) (validatorIndex targetEpoch : Nat) :
    Except SlasherError IndexedAttestation :=
  match db.attesters validatorIndex targetEpoch with
  | some attestation => .ok attestation
  | none => .error (.missingAttesterRecord validatorIndex targetEpoch)

/-- Record `attestation` for the validator at its target epoch. -/
def recordAttester (db : SlasherDB) (validatorIndex : Nat) (attestation : IndexedAttestation) :
    SlasherDB :=
  { db with
    attesters := fun v t =>
      if v = validatorIndex ∧ t = attestation.targetEpoch then some attestation
      else db.attesters v t }

/-- `check_and_update_attester_record`: the first attestation of a validator for a target is
recorded, and a later one with other data is a double vote. -/
def checkAndUpdateAttesterRecord (db : SlasherDB) (validatorIndex : Nat)
    (attestation : IndexedAttestation) : AttesterSlashingStatus × SlasherDB :=
  match db.attesters validatorIndex attestation.targetEpoch with
  | some existing =>
    (if existing.dataRoot = attestation.dataRoot then .notSlashable else .doubleVote existing, db)
  | none => (.notSlashable, db.recordAttester validatorIndex attestation)

/-- The empty database. -/
def empty : SlasherDB :=
  ⟨fun _ => TargetKind.min.empty, fun _ => TargetKind.max.empty, fun _ => none, fun _ _ => none⟩

end SlasherDB

section Update

variable (cfg : Config)

/-- `MinTargetChunk::update`: from `epoch` down, while in `chunkIndex` and not below
`minEpoch`, every cell above the new target is lowered to it; `false` once a cell is not. -/
def minTargetUpdate (chunkIndex validatorIndex newTargetEpoch minEpoch : Nat) (ch : Chunk)
    (epoch : Nat) : Except SlasherError (Chunk × Bool) :=
  if cfg.chunkIndex epoch = chunkIndex ∧ minEpoch ≤ epoch then
    if newTargetEpoch < ch.getTarget cfg validatorIndex epoch then
      match ch.setTarget cfg validatorIndex epoch newTargetEpoch with
      | .error e => .error e
      | .ok ch' =>
        match epoch with
        -- `epoch -= 1` saturates at zero, and the next test reads the cell just written
        | 0 => .ok (ch', false)
        | epoch + 1 => minTargetUpdate chunkIndex validatorIndex newTargetEpoch minEpoch ch' epoch
    else .ok (ch, false)
  else .ok (ch, minEpoch ≤ epoch)

/-- The loop of `MaxTargetChunk::update`, with `fuel` the number of epochs left up to the current
one: it stops at zero exactly when `epoch` has passed `currentEpoch`. -/
def maxTargetUpdateAux (chunkIndex validatorIndex newTargetEpoch currentEpoch : Nat) :
    (fuel : Nat) → Chunk → (epoch : Nat) → Except SlasherError (Chunk × Bool)
  | 0, ch, epoch => .ok (ch, epoch ≤ currentEpoch)
  | fuel + 1, ch, epoch =>
    if cfg.chunkIndex epoch = chunkIndex ∧ epoch ≤ currentEpoch then
      if ch.getTarget cfg validatorIndex epoch < newTargetEpoch then
        match ch.setTarget cfg validatorIndex epoch newTargetEpoch with
        | .error e => .error e
        | .ok ch' =>
          maxTargetUpdateAux chunkIndex validatorIndex newTargetEpoch currentEpoch fuel ch'
            (epoch + 1)
      else .ok (ch, false)
    else .ok (ch, epoch ≤ currentEpoch)

/-- `MaxTargetChunk::update`: from `epoch` up, while in `chunkIndex` and not past the current
epoch, every cell below the new target is raised to it; `false` once a cell is not. -/
def maxTargetUpdate (chunkIndex validatorIndex newTargetEpoch currentEpoch : Nat) (ch : Chunk)
    (epoch : Nat) : Except SlasherError (Chunk × Bool) :=
  maxTargetUpdateAux cfg chunkIndex validatorIndex newTargetEpoch currentEpoch
    (currentEpoch + 1 - epoch) ch epoch

namespace TargetKind

def update (k : TargetKind) (ch : Chunk) (chunkIndex validatorIndex startEpoch newTargetEpoch
    currentEpoch : Nat) : Except SlasherError (Chunk × Bool) :=
  match k with
  | .min =>
    minTargetUpdate cfg chunkIndex validatorIndex newTargetEpoch
      (currentEpoch - (cfg.historyLength - 1)) ch startEpoch
  | .max => maxTargetUpdate cfg chunkIndex validatorIndex newTargetEpoch currentEpoch ch startEpoch

/-- `first_start_epoch`. The min array's assertion that the source is not zero holds whenever
the source is above `current_epoch - history_length`, a natural number. -/
def firstStartEpoch (k : TargetKind) (sourceEpoch currentEpoch : Nat) : Option Nat :=
  match k with
  | .min =>
    if currentEpoch - cfg.historyLength < sourceEpoch then some (sourceEpoch - 1) else none
  | .max => if sourceEpoch < currentEpoch then some (sourceEpoch + 1) else none

/-- `next_start_epoch`: the last epoch of the previous chunk, or the first of the next. -/
def nextStartEpoch (k : TargetKind) (startEpoch : Nat) : Nat :=
  match k with
  | .min => startEpoch / cfg.chunkSize * cfg.chunkSize - 1
  | .max => (startEpoch / cfg.chunkSize + 1) * cfg.chunkSize

/-- `check_slashable`: the new attestation against the cell at its source epoch. -/
def checkSlashable (k : TargetKind) (db : SlasherDB) (ch : Chunk) (validatorIndex : Nat)
    (attestation : IndexedAttestation) : Except SlasherError AttesterSlashingStatus :=
  match k with
  | .min =>
    let minTarget := ch.getTarget cfg validatorIndex attestation.sourceEpoch
    if minTarget < attestation.targetEpoch then
      match db.getAttestationForValidator validatorIndex minTarget with
      | .error e => .error e
      | .ok existing =>
        if attestation.sourceEpoch < existing.sourceEpoch then .ok (.surroundsExisting existing)
        else .ok .alreadyDoubleVoted
    else .ok .notSlashable
  | .max =>
    let maxTarget := ch.getTarget cfg validatorIndex attestation.sourceEpoch
    if attestation.targetEpoch < maxTarget then
      match db.getAttestationForValidator validatorIndex maxTarget with
      | .error e => .error e
      | .ok existing =>
        if existing.sourceEpoch < attestation.sourceEpoch then
          .ok (.surroundedByExisting existing)
        else .ok .alreadyDoubleVoted
    else .ok .notSlashable

end TargetKind

/-- The chunk loop of `apply_attestation_for_validator`, with `fuel` bounding the number of
chunks visited (`applyLoop_eq_walk` shows it is never the bound that stops it). -/
def applyLoop (k : TargetKind) (validatorChunkIndex validatorIndex newTargetEpoch
    currentEpoch : Nat) : (fuel : Nat) → SlasherDB → (startEpoch : Nat) →
    Except SlasherError SlasherDB
  | 0, db, _ => .ok db
  | fuel + 1, db, startEpoch =>
    let chunkIndex := cfg.chunkIndex startEpoch
    let diskKey := cfg.diskKey validatorChunkIndex chunkIndex
    match k.update cfg (db.chunkForUpdate k diskKey) chunkIndex validatorIndex startEpoch
        newTargetEpoch currentEpoch with
    | .error e => .error e
    | .ok (ch, keepGoing) =>
      if keepGoing then
        applyLoop k validatorChunkIndex validatorIndex newTargetEpoch currentEpoch fuel
          (db.putChunk k diskKey ch) (k.nextStartEpoch cfg startEpoch)
      else .ok (db.putChunk k diskKey ch)

/-- `apply_attestation_for_validator`. -/
def applyAttestationForValidator (k : TargetKind) (db : SlasherDB)
    (validatorChunkIndex validatorIndex : Nat) (attestation : IndexedAttestation)
    (currentEpoch : Nat) : Except SlasherError (AttesterSlashingStatus × SlasherDB) :=
  let chunk := db.chunkForUpdate k
    (cfg.diskKey validatorChunkIndex (cfg.chunkIndex attestation.sourceEpoch))
  match k.checkSlashable cfg db chunk validatorIndex attestation with
  | .error e => .error e
  | .ok .notSlashable =>
    match k.firstStartEpoch cfg attestation.sourceEpoch currentEpoch with
    | none => .ok (.notSlashable, db)
    | some startEpoch =>
      match applyLoop cfg k validatorChunkIndex validatorIndex attestation.targetEpoch
          currentEpoch (currentEpoch + 1) db startEpoch with
      | .error e => .error e
      | .ok db' => .ok (.notSlashable, db')
  | .ok status => .ok (status, db)

/-- Write the neutral element into the cell of `validatorIndex` at `epoch`. -/
def SlasherDB.resetCell (db : SlasherDB) (k : TargetKind) (validatorChunkIndex validatorIndex
    epoch : Nat) : SlasherDB :=
  let diskKey := cfg.diskKey validatorChunkIndex (cfg.chunkIndex epoch)
  db.putChunk k diskKey
    ((db.chunkForUpdate k diskKey).setRawDistance cfg validatorIndex epoch k.neutralElement)

/-- `epoch_update_for_validator`: every epoch from the previous current epoch to the new one
is reset. -/
def epochUpdateForValidator (k : TargetKind) (db : SlasherDB)
    (validatorChunkIndex validatorIndex currentEpoch : Nat) : SlasherDB :=
  match db.currentEpochs validatorIndex with
  | none => db
  | some previousCurrentEpoch =>
    (List.range' previousCurrentEpoch (currentEpoch + 1 - previousCurrentEpoch)).foldl
      (fun db epoch => db.resetCell cfg k validatorChunkIndex validatorIndex epoch) db

/-- The attestations of `update`, grouped by the chunk index of their source epoch in
ascending order, each group in batch order, paired with their attesters in the chunk. -/
def updateOrder (validatorChunkIndex : Nat) (batch : List IndexedAttestation) :
    List (Nat × IndexedAttestation) :=
  ((List.range (cfg.historyLength / cfg.chunkSize)).flatMap fun chunkIndex =>
      batch.filter fun a => cfg.chunkIndex a.sourceEpoch = chunkIndex).flatMap fun a =>
    (cfg.attestingValidatorsInChunk a validatorChunkIndex).map fun v => (v, a)

/-- The attestation loop of `update_array`, with the status of each application. -/
def applyAll (k : TargetKind) (validatorChunkIndex currentEpoch : Nat) :
    SlasherDB → List (Nat × IndexedAttestation) →
      Except SlasherError (List (Nat × IndexedAttestation × AttesterSlashingStatus) × SlasherDB)
  | db, [] => .ok ([], db)
  | db, (v, a) :: rest =>
    match applyAttestationForValidator cfg k db validatorChunkIndex v a currentEpoch with
    | .error e => .error e
    | .ok (status, db') =>
      match applyAll k validatorChunkIndex currentEpoch db' rest with
      | .error e => .error e
      | .ok (statuses, db'') => .ok ((v, a, status) :: statuses, db'')

/-- `update_array`. -/
def updateArray (k : TargetKind) (db : SlasherDB) (validatorChunkIndex : Nat)
    (order : List (Nat × IndexedAttestation)) (currentEpoch : Nat) :
    Except SlasherError (List (Nat × IndexedAttestation × AttesterSlashingStatus) × SlasherDB) :=
  applyAll cfg k validatorChunkIndex currentEpoch
    ((cfg.validatorIndicesInChunk validatorChunkIndex).foldl
      (fun db v => epochUpdateForValidator cfg k db validatorChunkIndex v currentEpoch) db)
    order

/-- The statuses of one call of `update`, per array. -/
structure UpdateStatuses where
  minStatuses : List (Nat × IndexedAttestation × AttesterSlashingStatus)
  maxStatuses : List (Nat × IndexedAttestation × AttesterSlashingStatus)

/-- `array::update`: both arrays, then the current epoch of every validator of the chunk. -/
def update (db : SlasherDB) (validatorChunkIndex : Nat) (batch : List IndexedAttestation)
    (currentEpoch : Nat) : Except SlasherError (UpdateStatuses × SlasherDB) :=
  let order := updateOrder cfg validatorChunkIndex batch
  match updateArray cfg .min db validatorChunkIndex order currentEpoch with
  | .error e => .error e
  | .ok (minStatuses, db) =>
    match updateArray cfg .max db validatorChunkIndex order currentEpoch with
    | .error e => .error e
    | .ok (maxStatuses, db) =>
      .ok (⟨minStatuses, maxStatuses⟩,
        { db with currentEpochs := fun v =>
            if cfg.validatorChunkIndex v = validatorChunkIndex then some currentEpoch
            else db.currentEpochs v })

/-- `process_batch`: the attester records of the batch, then the arrays. -/
def processBatch (db : SlasherDB) (validatorChunkIndex : Nat) (batch : List IndexedAttestation)
    (currentEpoch : Nat) : Except SlasherError (UpdateStatuses × SlasherDB) :=
  update cfg
    ((batch.flatMap fun a => (cfg.attestingValidatorsInChunk a validatorChunkIndex).map
        fun v => (v, a)).foldl (fun db va => (db.checkAndUpdateAttesterRecord va.1 va.2).2) db)
    validatorChunkIndex batch currentEpoch

end Update

end Vibehouse.Slasher
