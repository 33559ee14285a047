import Vibehouse.Lib.FixedCodec

/-! # Hierarchical state diffs

`beacon_node/store/src/hdiff.rs`: the diff between two `HDiffBuffer`s (a beacon state split
into its raw bytes, its balances, inactivity scores, validators and the two append-only
history lists) and its application to the source buffer.

* The state bytes go through xdelta3 (`BytesDiff`), taken here as a codec whose decoding
  undoes its encoding. The loop of `compute_xdelta` that retries with a larger output buffer
  is inside that encoder.
* Balances and inactivity scores are `u64` differences, wrapping, written big-endian and
  compressed (`CompressedU64Diff`). Applying them adds each difference to the entry at its
  index, or appends it past the end.
* Validators are compared one by one (`ValidatorsDiff`), and only those that changed are
  written, as SSZ `ValidatorDiffEntry` records of 129 bytes. A field that did not change is
  written as a sentinel (the empty pubkey, the zero hash, epoch 0), which `apply` reads as
  "keep the old value".
* The history lists only grow (`AppendOnlyDiff`): the diff is the new tail.

Compression is that of `StoreConfig` (zstd), taken as succeeding, with decompression
undoing it; its errors and those of the xdelta3 encoder are I/O and library errors and are
not modelled. `HDiff::apply` fills in the source buffer in place and stops at the first error;
here it returns the new buffer or the error. Machine words keep their fixed widths: `u64`
fields are `UInt64`, a pubkey is its 48 bytes and a `Hash256` its 32 bytes. -/

namespace Vibehouse.Store

open FixedCodec

/-- `PublicKeyBytes`: the 48 bytes of a compressed BLS public key. -/
abbrev PublicKeyBytes := Vector UInt8 48

/-- `Hash256`, as its 32 bytes. -/
abbrev Bytes32 := Vector UInt8 32

/-- `EMPTY_PUBKEY`, that is `PublicKeyBytes::empty()`: 48 zero bytes. -/
def emptyPubkey : PublicKeyBytes := Vector.replicate 48 0

/-- `Hash256::ZERO`. -/
def hash256Zero : Bytes32 := Vector.replicate 32 0

/-- `types::Validator`, its fields in SSZ order. -/
structure Validator where
  pubkey : PublicKeyBytes
  withdrawalCredentials : Bytes32
  effectiveBalance : UInt64
  slashed : Bool
  activationEligibilityEpoch : UInt64
  activationEpoch : UInt64
  exitEpoch : UInt64
  withdrawableEpoch : UInt64
  deriving DecidableEq, Repr

/-- `types::HistoricalSummary`. -/
structure HistoricalSummary where
  blockSummaryRoot : Bytes32
  stateSummaryRoot : Bytes32
  deriving DecidableEq, Repr

/-- `HDiffBuffer`. -/
structure HDiffBuffer where
  state : List UInt8
  balances : List UInt64
  inactivityScores : List UInt64
  validators : List Validator
  historicalRoots : List Bytes32
  historicalSummaries : List HistoricalSummary
  deriving DecidableEq, Repr

/-- The variants of `hdiff::Error` that computing and applying a diff return. -/
inductive Error
  | diffDeletionsNotSupported
  | unableToApplyDiff
  | balancesIncompleteChunk
  | compression
  deriving DecidableEq, Repr

/-- The compression of `StoreConfig` (`compress_bytes`, `decompress_bytes`). -/
structure StoreConfig where
  compressBytes : List UInt8 → List UInt8
  decompressBytes : List UInt8 → Option (List UInt8)
  decompress_compress : ∀ bytes, decompressBytes (compressBytes bytes) = some bytes

/-- The xdelta3 codec: `encode target source` is a delta from which `decode` rebuilds the
target given the same source. -/
structure Xdelta where
  encode : (target source : List UInt8) → List UInt8
  decode : (delta source : List UInt8) → Option (List UInt8)
  decode_encode : ∀ target source, decode (encode target source) source = some target

/-- The configuration that stores bytes as they are: a compression and a delta codec that
meet the laws. -/
def StoreConfig.uncompressed : StoreConfig where
  compressBytes bytes := bytes
  decompressBytes bytes := some bytes
  decompress_compress _ := rfl

def Xdelta.verbatim : Xdelta where
  encode target _ := target
  decode delta _ := some delta
  decode_encode _ _ := rfl

/-! ## SSZ records -/

/-- The SSZ encoding of a `Validator`: its fields in order, each at its fixed size. -/
def Validator.ssz : Codec Validator :=
  ((bytesN 48 (Nat.succ_pos 47)).prod ((bytesN 32 (Nat.succ_pos 31)).prod
    (leU64.prod (sszBool.prod (leU64.prod (leU64.prod (leU64.prod leU64))))))).map
    (fun ⟨pubkey, withdrawalCredentials, effectiveBalance, slashed, activationEligibilityEpoch,
        activationEpoch, exitEpoch, withdrawableEpoch⟩ =>
      ⟨pubkey, withdrawalCredentials, effectiveBalance, slashed, activationEligibilityEpoch,
        activationEpoch, exitEpoch, withdrawableEpoch⟩)
    (fun v => (v.pubkey, v.withdrawalCredentials, v.effectiveBalance, v.slashed,
      v.activationEligibilityEpoch, v.activationEpoch, v.exitEpoch, v.withdrawableEpoch))
    (fun _ => rfl)

/-- `ValidatorDiffEntry`: a validator diff and the index it applies to. -/
structure ValidatorDiffEntry where
  index : UInt64
  validatorDiff : Validator
  deriving DecidableEq, Repr

def ValidatorDiffEntry.ssz : Codec ValidatorDiffEntry :=
  (leU64.prod Validator.ssz).map (fun ⟨index, validatorDiff⟩ => ⟨index, validatorDiff⟩)
    (fun e => (e.index, e.validatorDiff)) (fun _ => rfl)

/-- `<ValidatorDiffEntry as Decode>::ssz_fixed_len()`. -/
example : ValidatorDiffEntry.ssz.width = 129 := rfl

/-! ## The state bytes -/

/-- `BytesDiff`. -/
structure BytesDiff where
  bytes : List UInt8

section Xdelta

variable (xdelta : Xdelta)

/-- `BytesDiff::compute`. -/
def BytesDiff.compute (source target : List UInt8) : Except Error BytesDiff :=
  .ok ⟨xdelta.encode target source⟩

/-- `BytesDiff::apply`: the rebuilt target. -/
def BytesDiff.apply (diff : BytesDiff) (source : List UInt8) : Except Error (List UInt8) :=
  match xdelta.decode diff.bytes source with
  | none => .error .unableToApplyDiff
  | some target => .ok target

end Xdelta

/-! ## Balances and inactivity scores -/

/-- `CompressedU64Diff`. -/
structure CompressedU64Diff where
  bytes : List UInt8

section Config

variable (config : StoreConfig)

/-- `CompressedU64Diff::compute`: the wrapping difference of each entry of `ys` from the entry
of `xs` at its index, or from 0 for a new entry. -/
def CompressedU64Diff.compute (xs ys : List UInt64) : Except Error CompressedU64Diff :=
  if xs.length > ys.length then .error .diffDeletionsNotSupported
  else
    let uncompressedBytes := ys.zipIdx.flatMap fun (y, i) => u64ToBeBytes (y - xs.getD i 0)
    .ok ⟨config.compressBytes uncompressedBytes⟩

/-- The loop of `CompressedU64Diff::apply` from chunk `i` on: the difference is added to the
entry at its index, or pushed. -/
def CompressedU64Diff.applyChunks : Nat → List (List UInt8) → List UInt64 →
    Except Error (List UInt64)
  | _, [], xs => .ok xs
  | i, diffBytes :: rest, xs =>
    match u64FromBeBytes diffBytes with
    | none => .error .balancesIncompleteChunk
    | some diff =>
      applyChunks (i + 1) rest
        (match xs[i]? with
          | some x => xs.set i (x + diff)
          | none => xs ++ [diff])

/-- `CompressedU64Diff::apply`. -/
def CompressedU64Diff.apply (diff : CompressedU64Diff) (xs : List UInt64) :
    Except Error (List UInt64) :=
  match config.decompressBytes diff.bytes with
  | none => .error .compression
  | some balancesDiffBytes => CompressedU64Diff.applyChunks 0 (chunks 8 balancesDiffBytes) xs

end Config

/-! ## Validators -/

/-- The record `ValidatorsDiff::compute` writes for a validator `x` that became `y`. -/
def validatorDiff (x y : Validator) : Validator :=
  let pubkeyChanged := y.pubkey != x.pubkey
  { -- The pubkey can be changed on index re-use
    pubkey := if pubkeyChanged then y.pubkey else emptyPubkey
    withdrawalCredentials :=
      if pubkeyChanged || y.withdrawalCredentials != x.withdrawalCredentials then
        y.withdrawalCredentials
      else hash256Zero
    effectiveBalance := y.effectiveBalance - x.effectiveBalance
    slashed := y.slashed
    activationEligibilityEpoch :=
      if y.activationEligibilityEpoch = x.activationEligibilityEpoch then 0
      else y.activationEligibilityEpoch
    activationEpoch := if y.activationEpoch = x.activationEpoch then 0 else y.activationEpoch
    exitEpoch := if y.exitEpoch = x.exitEpoch then 0 else y.exitEpoch
    withdrawableEpoch :=
      if y.withdrawableEpoch = x.withdrawableEpoch then 0 else y.withdrawableEpoch }

/-- The `filter_map` of `ValidatorsDiff::compute`: no record for an unchanged validator, the
diff for a changed one, the whole validator for a new one. -/
def diffEntry (xs : List Validator) (y : Validator) (i : Nat) : Option ValidatorDiffEntry :=
  match xs[i]? with
  | some x => if y = x then none else some ⟨UInt64.ofNat i, validatorDiff x y⟩
  | none => some ⟨UInt64.ofNat i, y⟩

/-- The body of `ValidatorsDiff::apply` for an entry whose index holds the validator `x`. -/
def applyValidatorDiff (x diff : Validator) : Validator :=
  let pubkeyChanged := diff.pubkey != emptyPubkey
  { pubkey := if pubkeyChanged then diff.pubkey else x.pubkey
    withdrawalCredentials :=
      if pubkeyChanged || diff.withdrawalCredentials != hash256Zero then
        diff.withdrawalCredentials
      else x.withdrawalCredentials
    effectiveBalance :=
      if diff.effectiveBalance != 0 then x.effectiveBalance + diff.effectiveBalance
      else x.effectiveBalance
    slashed := if pubkeyChanged || diff.slashed then diff.slashed else x.slashed
    activationEligibilityEpoch :=
      if diff.activationEligibilityEpoch != 0 then diff.activationEligibilityEpoch
      else x.activationEligibilityEpoch
    activationEpoch :=
      if diff.activationEpoch != 0 then diff.activationEpoch else x.activationEpoch
    exitEpoch := if diff.exitEpoch != 0 then diff.exitEpoch else x.exitEpoch
    withdrawableEpoch :=
      if diff.withdrawableEpoch != 0 then diff.withdrawableEpoch else x.withdrawableEpoch }

/-- `ValidatorsDiff`. -/
structure ValidatorsDiff where
  bytes : List UInt8

section Config

variable (config : StoreConfig)

/-- `ValidatorsDiff::compute`. -/
def ValidatorsDiff.compute (xs ys : List Validator) : Except Error ValidatorsDiff :=
  if xs.length > ys.length then .error .diffDeletionsNotSupported
  else
    let uncompressedBytes := (ys.zipIdx.filterMap fun (y, i) => diffEntry xs y i).flatMap
      fun vDiff => ValidatorDiffEntry.ssz.encode vDiff
    .ok ⟨config.compressBytes uncompressedBytes⟩

/-- The loop of `ValidatorsDiff::apply`: each record is applied to the validator at its index,
or pushed. -/
def ValidatorsDiff.applyEntries : List (List UInt8) → List Validator → Except Error (List Validator)
  | [], xs => .ok xs
  | diffBytes :: rest, xs =>
    match ValidatorDiffEntry.ssz.decode diffBytes with
    | none => .error .balancesIncompleteChunk
    | some ⟨index, diff⟩ =>
      applyEntries rest
        (match xs[index.toNat]? with
          | some x => xs.set index.toNat (applyValidatorDiff x diff)
          | none => xs ++ [diff])

/-- `ValidatorsDiff::apply`. -/
def ValidatorsDiff.apply (diff : ValidatorsDiff) (xs : List Validator) :
    Except Error (List Validator) :=
  match config.decompressBytes diff.bytes with
  | none => .error .compression
  | some validatorDiffBytes =>
    ValidatorsDiff.applyEntries (chunks ValidatorDiffEntry.ssz.width validatorDiffBytes) xs

end Config

/-! ## Append-only lists -/

/-- `AppendOnlyDiff`. -/
structure AppendOnlyDiff (α : Type) where
  values : List α

/-- `AppendOnlyDiff::compute`: the entries of `ys` past the length of `xs`. -/
def AppendOnlyDiff.compute {α : Type} (xs ys : List α) : Except Error (AppendOnlyDiff α) :=
  match compare xs.length ys.length with
  | .lt => .ok ⟨ys.drop xs.length⟩
  | .eq => .ok ⟨[]⟩
  | .gt => .error .diffDeletionsNotSupported

/-- `AppendOnlyDiff::apply`. -/
def AppendOnlyDiff.apply {α : Type} (diff : AppendOnlyDiff α) (xs : List α) : List α :=
  xs ++ diff.values

/-! ## The whole diff -/

/-- `HDiff` (its one version, `V0`). -/
structure HDiff where
  stateDiff : BytesDiff
  balancesDiff : CompressedU64Diff
  inactivityScoresDiff : CompressedU64Diff
  validatorsDiff : ValidatorsDiff
  historicalRoots : AppendOnlyDiff Bytes32
  historicalSummaries : AppendOnlyDiff HistoricalSummary

section Codecs

variable (xdelta : Xdelta) (config : StoreConfig)

/-- `HDiff::compute`. -/
def HDiff.compute (source target : HDiffBuffer) : Except Error HDiff := do
  let stateDiff ← BytesDiff.compute xdelta source.state target.state
  let balancesDiff ← CompressedU64Diff.compute config source.balances target.balances
  let inactivityScoresDiff ←
    CompressedU64Diff.compute config source.inactivityScores target.inactivityScores
  let validatorsDiff ← ValidatorsDiff.compute config source.validators target.validators
  let historicalRoots ← AppendOnlyDiff.compute source.historicalRoots target.historicalRoots
  let historicalSummaries ←
    AppendOnlyDiff.compute source.historicalSummaries target.historicalSummaries
  return ⟨stateDiff, balancesDiff, inactivityScoresDiff, validatorsDiff, historicalRoots,
    historicalSummaries⟩

/-- `HDiff::apply`: the source buffer turned into the target. -/
def HDiff.apply (diff : HDiff) (source : HDiffBuffer) : Except Error HDiffBuffer := do
  let state ← diff.stateDiff.apply xdelta source.state
  let balances ← diff.balancesDiff.apply config source.balances
  let inactivityScores ← diff.inactivityScoresDiff.apply config source.inactivityScores
  let validators ← diff.validatorsDiff.apply config source.validators
  return { state, balances, inactivityScores, validators,
           historicalRoots := diff.historicalRoots.apply source.historicalRoots
           historicalSummaries := diff.historicalSummaries.apply source.historicalSummaries }

end Codecs

end Vibehouse.Store
