import Vibehouse.Lib.MachineInt
import Vibehouse.Lib.StateRun
import Mathlib.Data.Nat.Bitwise

/-! # Gloas withdrawals

`compute_withdrawals_gloas` builds the withdrawal list of a payload in four phases: the
builders' pending withdrawals, the validators' pending partial withdrawals, a sweep over the
builders and a sweep over the validators. The first three stop one entry short of
`MAX_WITHDRAWALS_PER_PAYLOAD`, so that the validator sweep always has room; a withdrawal that
pays a builder carries `BUILDER_INDEX_FLAG` in its `validator_index`. `process_withdrawals_gloas`
applies the list to the balances, when the parent block's payload was delivered, and moves the
queues and the sweep cursors on.

The list is shown to number its withdrawals from `next_withdrawal_index`, to keep its queue part
within the reserved limit, and never to withdraw more from a validator than its balance; so the
balances after `process_withdrawals_gloas` are the old ones less each validator's total, and the
validator cursor lands on a validator. -/

namespace Vibehouse.Gloas.Withdrawals

open MachineInt

/-! ## The source -/

section Source

/-- `BUILDER_INDEX_FLAG`, bit 40 of a withdrawal's `validator_index`: the withdrawal pays a
builder. -/
def builderIndexFlag : Nat := 2 ^ 40

/-- `VALIDATOR_REGISTRY_LIMIT`, the bound of the validator list. -/
def validatorRegistryLimit : Nat := 2 ^ 40

/-- The constants of the preset and of `ChainSpec` that the withdrawals read. -/
structure WithdrawalSpec where
  maxWithdrawalsPerPayload : Nat
  maxPendingPartialsPerWithdrawalsSweep : Nat
  maxBuildersPerWithdrawalsSweep : Nat
  maxValidatorsPerWithdrawalsSweep : Nat
  minActivationBalance : Nat
  maxEffectiveBalanceElectra : Nat
  farFutureEpoch : Nat
  eth1AddressWithdrawalPrefixByte : UInt8
  compoundingWithdrawalPrefixByte : UInt8
  deriving DecidableEq, Repr

/-- The fields of a validator that the withdrawals read. -/
structure Validator where
  withdrawalCredentials : Vector UInt8 32
  effectiveBalance : Nat
  exitEpoch : Nat
  withdrawableEpoch : Nat
  deriving DecidableEq, Repr

/-- The fields of a builder that the withdrawals read and write. -/
structure Builder where
  executionAddress : List UInt8
  balance : Nat
  withdrawableEpoch : Nat
  deriving DecidableEq, Repr

structure BuilderPendingWithdrawal where
  feeRecipient : List UInt8
  amount : Nat
  builderIndex : Nat
  deriving DecidableEq, Repr

structure PendingPartialWithdrawal where
  validatorIndex : Nat
  amount : Nat
  withdrawableEpoch : Nat
  deriving DecidableEq, Repr

structure Withdrawal where
  index : Nat
  validatorIndex : Nat
  address : List UInt8
  amount : Nat
  deriving DecidableEq, Repr

/-- The fields of a Gloas `BeaconState` that the withdrawals read and write. `currentEpoch` is
`current_epoch()`, the epoch of the state's slot; the validator list is an SSZ list bounded by
`VALIDATOR_REGISTRY_LIMIT`. -/
structure BeaconState where
  currentEpoch : Nat
  validators : List Validator
  balances : List Nat
  builders : List Builder
  builderPendingWithdrawals : List BuilderPendingWithdrawal
  pendingPartialWithdrawals : List PendingPartialWithdrawal
  payloadExpectedWithdrawals : List Withdrawal
  nextWithdrawalIndex : Nat
  nextWithdrawalValidatorIndex : Nat
  nextWithdrawalBuilderIndex : Nat
  latestExecutionPayloadBidBlockHash : Vector UInt8 32
  latestBlockHash : Vector UInt8 32
  validators_length_le : validators.length ≤ validatorRegistryLimit

/-- The errors of `process_withdrawals_gloas`, the `BeaconStateError`s and the milhouse error
flattened into one type. -/
inductive Error
  | withdrawalBuilderIndexInvalid (builderIndex buildersCount : Nat)
  | withdrawalCredentialsInvalid
  | unknownValidator (index : Nat)
  | balancesOutOfBounds (index : Nat)
  | nonExecutionAddressWithdrawalCredential
  | arithError
  | milhouseError
  deriving DecidableEq, Repr

/-- A `safe_*` result as a `BlockProcessingError`. -/
def liftArith {α : Type} : Option α → Except Error α
  | some a => .ok a
  | none => .error .arithError

/-- `option.ok_or(error)?`. -/
def okOr {α : Type} (o : Option α) (e : Error) : Except Error α :=
  match o with
  | some a => .ok a
  | none => .error e

@[simp] theorem liftArith_some {α : Type} (a : α) : liftArith (some a) = pure a := rfl

@[simp] theorem okOr_some {α : Type} (a : α) (e : Error) : okOr (some a) e = pure a := rfl

namespace Validator

variable (spec : WithdrawalSpec) (v : Validator)

def hasEth1WithdrawalCredential : Bool :=
  v.withdrawalCredentials[0] == spec.eth1AddressWithdrawalPrefixByte

def hasCompoundingWithdrawalCredential : Bool :=
  v.withdrawalCredentials[0] == spec.compoundingWithdrawalPrefixByte

def hasExecutionWithdrawalCredential : Bool :=
  v.hasCompoundingWithdrawalCredential spec || v.hasEth1WithdrawalCredential spec

/-- The address in bytes `12..` of the credentials, for an execution credential. -/
def getExecutionWithdrawalAddress : Option (List UInt8) :=
  if v.hasExecutionWithdrawalCredential spec then some (v.withdrawalCredentials.toList.drop 12)
  else none

/-- `get_max_effective_balance` from Electra on. -/
def getMaxEffectiveBalance : Nat :=
  if v.hasCompoundingWithdrawalCredential spec then spec.maxEffectiveBalanceElectra
  else spec.minActivationBalance

/-- `is_fully_withdrawable_validator`, in its Electra form. -/
def isFullyWithdrawableValidator (balance epoch : Nat) : Bool :=
  v.hasExecutionWithdrawalCredential spec && decide (v.withdrawableEpoch ≤ epoch) &&
    decide (0 < balance)

/-- `is_partially_withdrawable_validator`, in its Electra form. -/
def isPartiallyWithdrawableValidator (balance : Nat) : Bool :=
  v.hasExecutionWithdrawalCredential spec && v.effectiveBalance == v.getMaxEffectiveBalance spec &&
    decide (v.getMaxEffectiveBalance spec < balance)

end Validator

namespace BeaconState

variable (state : BeaconState)

def getValidator (index : Nat) : Except Error Validator :=
  okOr state.validators[index]? (.unknownValidator index)

def getBalance (index : Nat) : Except Error Nat :=
  okOr state.balances[index]? (.balancesOutOfBounds index)

/-- `is_parent_block_full`: the committed bid's block hash is the latest block hash. -/
def isParentBlockFull : Bool :=
  state.latestExecutionPayloadBidBlockHash == state.latestBlockHash

/-- `decrease_balance`: `get_balance_mut(index)?`, then a saturating subtraction. -/
def decreaseBalance (index delta : Nat) : Except Error BeaconState :=
  if index < state.balances.length then
    pure { state with balances := state.balances.modify index fun b => b - delta }
  else throw (.balancesOutOfBounds index)

end BeaconState

/-- The list built so far and `withdrawal_index`, the index of the next withdrawal. -/
structure Accum where
  withdrawals : List Withdrawal
  withdrawalIndex : Nat

/-- `withdrawals.push(..)` with the running index, then `withdrawal_index.safe_add_assign(1)?`:
the step every phase takes to add a withdrawal. -/
def Accum.push (acc : Accum) (validatorIndex : Nat) (address : List UInt8) (amount : Nat) :
    Except Error Accum := do
  let withdrawalIndex ← liftArith (uCheckedAdd 64 acc.withdrawalIndex 1)
  pure ⟨acc.withdrawals ++ [⟨acc.withdrawalIndex, validatorIndex, address, amount⟩],
    withdrawalIndex⟩

/-- The amounts of the withdrawals so far from `validatorIndex`, summed with `safe_add`. -/
def totalWithdrawn (withdrawals : List Withdrawal) (validatorIndex : Nat) : Except Error Nat :=
  ((withdrawals.filter fun w => w.validatorIndex == validatorIndex).map (·.amount)).foldlM
    (fun acc amt => liftArith (uCheckedAdd 64 acc amt)) 0

/-- Phase 1, over the builders' pending withdrawals, with its processed count. -/
def builderPendingLoop (reservedLimit buildersCount : Nat) :
    List BuilderPendingWithdrawal → Accum → Nat → Except Error (Accum × Nat)
  | [], acc, processed => pure (acc, processed)
  | withdrawal :: rest, acc, processed =>
    if reservedLimit ≤ acc.withdrawals.length then pure (acc, processed)
    else if buildersCount ≤ withdrawal.builderIndex then
      throw (.withdrawalBuilderIndexInvalid withdrawal.builderIndex buildersCount)
    else do
      let acc ← acc.push (withdrawal.builderIndex ||| builderIndexFlag) withdrawal.feeRecipient
        withdrawal.amount
      let processed ← liftArith (uCheckedAdd 64 processed 1)
      builderPendingLoop reservedLimit buildersCount rest acc processed

/-- The body of phase 2 for one withdrawable request: the validator's excess over
`MIN_ACTIVATION_BALANCE`, up to the requested amount, once what the list already takes from it is
counted. -/
def partialWithdrawalStep (spec : WithdrawalSpec) (state : BeaconState)
    (withdrawalReq : PendingPartialWithdrawal) (acc : Accum) : Except Error Accum := do
  let validator ← state.getValidator withdrawalReq.validatorIndex
  let totalWithdrawn ← totalWithdrawn acc.withdrawals withdrawalReq.validatorIndex
  let balance := (← state.getBalance withdrawalReq.validatorIndex) - totalWithdrawn
  if validator.exitEpoch = spec.farFutureEpoch ∧
      spec.minActivationBalance ≤ validator.effectiveBalance ∧
      spec.minActivationBalance < balance then do
    let withdrawableBalance := min (balance - spec.minActivationBalance) withdrawalReq.amount
    let address ← okOr (validator.getExecutionWithdrawalAddress spec)
      .nonExecutionAddressWithdrawalCredential
    acc.push withdrawalReq.validatorIndex address withdrawableBalance
  else pure acc

/-- Phase 2, over the pending partial withdrawals: it stops at the first request that is not
yet withdrawable or once `partialsLimit` withdrawals are in the list. -/
def partialsLoop (spec : WithdrawalSpec) (state : BeaconState) (epoch partialsLimit : Nat) :
    List PendingPartialWithdrawal → Accum → Nat → Except Error (Accum × Nat)
  | [], acc, processed => pure (acc, processed)
  | withdrawalReq :: rest, acc, processed =>
    if ¬withdrawalReq.withdrawableEpoch ≤ epoch ∨ partialsLimit ≤ acc.withdrawals.length then
      pure (acc, processed)
    else do
      let acc ← partialWithdrawalStep spec state withdrawalReq acc
      let processed ← liftArith (uCheckedAdd 64 processed 1)
      partialsLoop spec state epoch partialsLimit rest acc processed

/-- The body of phase 3 for the builder at `builderIndex`: its whole balance, once it is
withdrawable. -/
def builderSweepStep (epoch : Nat) (builders : List Builder) (builderIndex : Nat) (acc : Accum) :
    Except Error Accum :=
  match builders[builderIndex]? with
  | some builder =>
    if builder.withdrawableEpoch ≤ epoch ∧ 0 < builder.balance then
      acc.push (builderIndex ||| builderIndexFlag) builder.executionAddress builder.balance
    else pure acc
  | none => pure acc

/-- Phase 3, `fuel` steps of the sweep over the builders from `builderIndex`. -/
def builderSweepLoop (epoch reservedLimit : Nat) (builders : List Builder) :
    Nat → Accum → Nat → Nat → Except Error (Accum × Nat)
  | 0, acc, _, processed => pure (acc, processed)
  | fuel + 1, acc, builderIndex, processed =>
    if reservedLimit ≤ acc.withdrawals.length then pure (acc, processed)
    else do
      let acc ← builderSweepStep epoch builders builderIndex acc
      let builderIndex ←
        liftArith ((uCheckedAdd 64 builderIndex 1).bind (uCheckedRem · builders.length))
      let processed ← liftArith (uCheckedAdd 64 processed 1)
      builderSweepLoop epoch reservedLimit builders fuel acc builderIndex processed

/-- The body of phase 4 for the validator at `validatorIndex`: its whole balance when it is
fully withdrawable, its excess over its maximal effective balance when it is partially
withdrawable, in both cases less what the list already takes from it. -/
def validatorSweepStep (spec : WithdrawalSpec) (state : BeaconState) (epoch validatorIndex : Nat)
    (acc : Accum) : Except Error Accum := do
  let validator ← state.getValidator validatorIndex
  let partiallyWithdrawnBalance ← totalWithdrawn acc.withdrawals validatorIndex
  let balance := (← state.getBalance validatorIndex) - partiallyWithdrawnBalance
  if validator.isFullyWithdrawableValidator spec balance epoch then do
    let address ← okOr (validator.getExecutionWithdrawalAddress spec)
      .withdrawalCredentialsInvalid
    acc.push validatorIndex address balance
  else if validator.isPartiallyWithdrawableValidator spec balance then do
    let address ← okOr (validator.getExecutionWithdrawalAddress spec)
      .withdrawalCredentialsInvalid
    acc.push validatorIndex address (balance - validator.getMaxEffectiveBalance spec)
  else pure acc

/-- Phase 4, `fuel` steps of the sweep over the validators from `validatorIndex`, up to the full
`maxWithdrawals`. -/
def validatorSweepLoop (spec : WithdrawalSpec) (state : BeaconState) (epoch maxWithdrawals : Nat) :
    Nat → Accum → Nat → Except Error Accum
  | 0, acc, _ => pure acc
  | fuel + 1, acc, validatorIndex =>
    if maxWithdrawals ≤ acc.withdrawals.length then pure acc
    else do
      let acc ← validatorSweepStep spec state epoch validatorIndex acc
      let validatorIndex ←
        liftArith ((uCheckedAdd 64 validatorIndex 1).bind (uCheckedRem · state.validators.length))
      validatorSweepLoop spec state epoch maxWithdrawals fuel acc validatorIndex

/-- `WithdrawalResult`. -/
structure WithdrawalResult where
  withdrawals : List Withdrawal
  processedBuilderWithdrawalsCount : Nat
  processedPartialWithdrawalsCount : Nat
  processedBuildersSweepCount : Nat

/-- Phases 1 to 3 of `compute_withdrawals_gloas`: the withdrawals of the two queues and of the
builder sweep, within `MAX_WITHDRAWALS_PER_PAYLOAD - 1`, with the three processed counts. -/
def queuedWithdrawals (spec : WithdrawalSpec) (state : BeaconState) :
    Except Error (Accum × Nat × Nat × Nat) := do
  let epoch := state.currentEpoch
  let reservedLimit := spec.maxWithdrawalsPerPayload - 1
  -- 1. Builder pending withdrawals
  let (acc, processedBuilderWithdrawalsCount) ←
    builderPendingLoop reservedLimit state.builders.length state.builderPendingWithdrawals
      ⟨[], state.nextWithdrawalIndex⟩ 0
  -- 2. Pending partial withdrawals
  let partialsLimit := min
    (uSaturatingAdd 64 acc.withdrawals.length spec.maxPendingPartialsPerWithdrawalsSweep)
    reservedLimit
  let (acc, processedPartialWithdrawalsCount) ←
    partialsLoop spec state epoch partialsLimit state.pendingPartialWithdrawals acc 0
  -- 3. Builder sweep
  let buildersCount := state.builders.length
  let (acc, processedBuildersSweepCount) ←
    if 0 < buildersCount then do
      let buildersLimit := min buildersCount spec.maxBuildersPerWithdrawalsSweep
      let builderIndex := state.nextWithdrawalBuilderIndex
      if buildersCount ≤ builderIndex then
        throw (.withdrawalBuilderIndexInvalid builderIndex buildersCount)
      builderSweepLoop epoch reservedLimit state.builders buildersLimit acc builderIndex 0
    else pure (acc, 0)
  pure (acc, processedBuilderWithdrawalsCount, processedPartialWithdrawalsCount,
    processedBuildersSweepCount)

/-- `compute_withdrawals_gloas`: the queue phases, then the validator sweep (phase 4). -/
def computeWithdrawalsGloas (spec : WithdrawalSpec) (state : BeaconState) :
    Except Error WithdrawalResult := do
  let (acc, processedBuilderWithdrawalsCount, processedPartialWithdrawalsCount,
    processedBuildersSweepCount) ← queuedWithdrawals spec state
  let bound := min state.validators.length spec.maxValidatorsPerWithdrawalsSweep
  let acc ← validatorSweepLoop spec state state.currentEpoch spec.maxWithdrawalsPerPayload bound acc
    state.nextWithdrawalValidatorIndex
  pure ⟨acc.withdrawals, processedBuilderWithdrawalsCount, processedPartialWithdrawalsCount,
    processedBuildersSweepCount⟩

/-- One withdrawal applied: a flagged one to its builder's balance, when the builder exists
(`get_mut`), any other through `decrease_balance`. -/
def applyWithdrawal (state : BeaconState) (withdrawal : Withdrawal) : Except Error BeaconState :=
  if withdrawal.validatorIndex &&& builderIndexFlag ≠ 0 then
    -- `validator_index & !BUILDER_INDEX_FLAG`, the complement taken in `u64`
    let builderIndex := withdrawal.validatorIndex &&& (uMax 64 - builderIndexFlag)
    pure { state with
      builders := state.builders.modify builderIndex fun b =>
        { b with balance := b.balance - withdrawal.amount } }
  else state.decreaseBalance withdrawal.validatorIndex withdrawal.amount

/-- "Apply withdrawals: decrease balances". -/
def applyWithdrawals (state : BeaconState) (withdrawals : List Withdrawal) :
    Except Error BeaconState :=
  withdrawals.foldlM applyWithdrawal state

/-- "Update next_withdrawal_index": one past the last withdrawal's. -/
def updateNextWithdrawalIndex (state : BeaconState) (withdrawals : List Withdrawal) :
    Except Error BeaconState :=
  match withdrawals.getLast? with
  | some latestWithdrawal => do
    let nextWithdrawalIndex ← liftArith (uCheckedAdd 64 latestWithdrawal.index 1)
    pure { state with nextWithdrawalIndex }
  | none => pure state

/-- "Store payload_expected_withdrawals": `List::new` refuses more than
`MAX_WITHDRAWALS_PER_PAYLOAD` entries. -/
def storePayloadExpectedWithdrawals (spec : WithdrawalSpec) (state : BeaconState)
    (withdrawals : List Withdrawal) : Except Error BeaconState :=
  if spec.maxWithdrawalsPerPayload < withdrawals.length then throw .milhouseError
  else pure { state with payloadExpectedWithdrawals := withdrawals }

/-- `pop_front(n)` of a milhouse list, which fails on a list of fewer than `n` entries. -/
def popFront {α : Type} (n : Nat) (l : List α) : Except Error (List α) :=
  if n ≤ l.length then pure (l.drop n) else throw .milhouseError

/-- `if n > 0 { list.pop_front(n)? }`. -/
def popProcessed {α : Type} (n : Nat) (l : List α) : Except Error (List α) :=
  if 0 < n then popFront n l else pure l

/-- "Update builder_pending_withdrawals" and "Update pending_partial_withdrawals": the processed
requests leave the two queues. -/
def updatePendingQueues (state : BeaconState) (result : WithdrawalResult) :
    Except Error BeaconState := do
  let builderPendingWithdrawals ←
    popProcessed result.processedBuilderWithdrawalsCount state.builderPendingWithdrawals
  let pendingPartialWithdrawals ←
    popProcessed result.processedPartialWithdrawalsCount state.pendingPartialWithdrawals
  pure { state with builderPendingWithdrawals, pendingPartialWithdrawals }

/-- "Update next_withdrawal_builder_index": the builder cursor moves by the builders swept. -/
def updateNextWithdrawalBuilderIndex (state : BeaconState) (processedBuildersSweepCount : Nat) :
    Except Error BeaconState :=
  if 0 < state.builders.length then do
    let nextIndex := uSaturatingAdd 64 state.nextWithdrawalBuilderIndex processedBuildersSweepCount
    let nextWithdrawalBuilderIndex ← liftArith (uCheckedRem nextIndex state.builders.length)
    pure { state with nextWithdrawalBuilderIndex }
  else pure state

/-- "Update next_withdrawal_validator_index": past the last withdrawal's validator when the list
is full, else `MAX_VALIDATORS_PER_WITHDRAWALS_SWEEP` further on. -/
def updateNextWithdrawalValidatorIndex (spec : WithdrawalSpec) (state : BeaconState)
    (withdrawals : List Withdrawal) : Except Error BeaconState := do
  let validatorsLen := state.validators.length
  if 0 < validatorsLen then do
    let nextValidatorIndex ←
      if withdrawals.length = spec.maxWithdrawalsPerPayload then
        liftArith ((uCheckedAdd 64 ((withdrawals.getLast?.map (·.validatorIndex)).getD 0) 1).bind
          (uCheckedRem · validatorsLen))
      else
        liftArith ((uCheckedAdd 64 state.nextWithdrawalValidatorIndex
          spec.maxValidatorsPerWithdrawalsSweep).bind (uCheckedRem · validatorsLen))
    pure { state with nextWithdrawalValidatorIndex := nextValidatorIndex }
  else pure state

/-- `process_withdrawals_gloas`: nothing when the parent block's payload was not delivered. -/
def processWithdrawalsGloas (spec : WithdrawalSpec) (state : BeaconState) :
    Except Error BeaconState :=
  if !state.isParentBlockFull then pure state
  else do
    let result ← computeWithdrawalsGloas spec state
    let state ← applyWithdrawals state result.withdrawals
    let state ← updateNextWithdrawalIndex state result.withdrawals
    let state ← storePayloadExpectedWithdrawals spec state result.withdrawals
    let state ← updatePendingQueues state result
    let state ← updateNextWithdrawalBuilderIndex state result.processedBuildersSweepCount
    updateNextWithdrawalValidatorIndex spec state result.withdrawals

end Source

/-! ## The builder flag -/

section Flag

theorem flagged_iff_testBit {x : Nat} : x &&& builderIndexFlag ≠ 0 ↔ x.testBit 40 = true := by
  rw [builderIndexFlag, Nat.and_two_pow]
  cases x.testBit 40 <;> simp

/-- A builder's withdrawal is flagged. -/
theorem or_builderIndexFlag_flagged (b : Nat) :
    (b ||| builderIndexFlag) &&& builderIndexFlag ≠ 0 := by
  rw [flagged_iff_testBit, builderIndexFlag, Nat.testBit_or, Nat.testBit_two_pow_self,
    Bool.or_true]

/-- An index below the flag is not flagged. -/
theorem and_builderIndexFlag_of_lt {x : Nat} (h : x < builderIndexFlag) :
    x &&& builderIndexFlag = 0 := by
  rw [builderIndexFlag, Nat.and_two_pow, Nat.testBit_lt_two_pow h, Bool.toNat_false, Nat.zero_mul]

theorem builderIndexFlag_le_of_flagged {x : Nat} (h : x &&& builderIndexFlag ≠ 0) :
    builderIndexFlag ≤ x :=
  Nat.le_of_not_lt fun hlt => h (and_builderIndexFlag_of_lt hlt)

/-- Every validator index is below the flag, the registry being no longer than `2 ^ 40`. -/
theorem BeaconState.lt_builderIndexFlag (state : BeaconState) {v : Nat}
    (h : v < state.validators.length) : v < builderIndexFlag :=
  Nat.lt_of_lt_of_le h state.validators_length_le

end Flag

/-! ## What the list takes from a validator -/

section Totals

/-- What `withdrawals` take from `validatorIndex` in all. -/
def withdrawnTotal (withdrawals : List Withdrawal) (validatorIndex : Nat) : Nat :=
  ((withdrawals.filter fun w => w.validatorIndex == validatorIndex).map (·.amount)).sum

@[simp] theorem withdrawnTotal_nil (v : Nat) : withdrawnTotal [] v = 0 := rfl

theorem withdrawnTotal_cons (w : Withdrawal) (ws : List Withdrawal) (v : Nat) :
    withdrawnTotal (w :: ws) v =
      (if w.validatorIndex = v then w.amount else 0) + withdrawnTotal ws v := by
  by_cases h : w.validatorIndex = v <;> simp [withdrawnTotal, h]

theorem withdrawnTotal_append_singleton (ws : List Withdrawal) (w : Withdrawal) (v : Nat) :
    withdrawnTotal (ws ++ [w]) v =
      withdrawnTotal ws v + if w.validatorIndex = v then w.amount else 0 := by
  by_cases h : w.validatorIndex = v <;> simp [withdrawnTotal, List.filter_append, h]

@[simp] theorem liftArith_eq_ok {α : Type} {o : Option α} {a : α} :
    liftArith o = .ok a ↔ o = some a := by
  cases o <;> simp [liftArith]

@[simp] theorem okOr_eq_ok {α : Type} {o : Option α} {e : Error} {a : α} :
    okOr o e = .ok a ↔ o = some a := by
  cases o <;> simp [okOr]

/-- A `safe_add` fold that succeeds is the sum. -/
theorem foldlM_uCheckedAdd_eq_ok : ∀ {l : List Nat} {init t : Nat},
    l.foldlM (fun acc amt => liftArith (uCheckedAdd 64 acc amt)) init = .ok t → t = init + l.sum
  | [], init, t, h => by
    cases h
    simp
  | a :: l, init, t, h => by
    rw [List.foldlM_cons] at h
    obtain ⟨s, hs, h⟩ := Except.bind_eq_ok.1 h
    rw [liftArith_eq_ok, uCheckedAdd_eq_some] at hs
    rw [foldlM_uCheckedAdd_eq_ok h, List.sum_cons, hs.2, Nat.add_assoc]

/-- `totalWithdrawn`, when it does not overflow, is `withdrawnTotal`. -/
theorem totalWithdrawn_eq_ok {ws : List Withdrawal} {v t : Nat}
    (h : totalWithdrawn ws v = .ok t) : t = withdrawnTotal ws v := by
  rw [foldlM_uCheckedAdd_eq_ok h, Nat.zero_add]
  rfl

end Totals

/-! ## The list invariant

Every phase extends the list by `Accum.push` alone; what a push keeps is said once
(`Accum.Valid.push`), and each phase's lemma says only which withdrawals it pushes. -/

section Invariant

variable {state : BeaconState} {start : Nat} {acc acc' : Accum}

theorem Accum.push_eq_ok {i : Nat} {a : List UInt8} {m : Nat} :
    acc.push i a m = .ok acc' ↔ acc.withdrawalIndex + 1 < 2 ^ 64 ∧
      acc' = ⟨acc.withdrawals ++ [⟨acc.withdrawalIndex, i, a, m⟩], acc.withdrawalIndex + 1⟩ := by
  unfold Accum.push
  by_cases h : acc.withdrawalIndex + 1 < 2 ^ 64
  · have hadd : uCheckedAdd 64 acc.withdrawalIndex 1 = some (acc.withdrawalIndex + 1) :=
      uCheckedAdd_eq_some.2 ⟨h, rfl⟩
    rw [hadd, liftArith_some, pure_bind]
    exact ⟨fun e => ⟨h, (Except.ok.inj e).symm⟩, fun e => e.2 ▸ rfl⟩
  · have hadd : uCheckedAdd 64 acc.withdrawalIndex 1 = none := if_neg h
    rw [hadd]
    exact ⟨nofun, fun e => absurd e.1 h⟩

/-- What each phase keeps of the list, numbered from `start`: the indices run on from `start`
and the running index follows the last of them, within `u64` once one is taken; no validator is
owed more than its balance; and every entry is a builder's, flagged, or names a validator that
has a balance. -/
structure Accum.Valid (state : BeaconState) (start : Nat) (acc : Accum) : Prop where
  indices : acc.withdrawals.map (·.index) = List.range' start acc.withdrawals.length
  withdrawalIndex_eq : acc.withdrawalIndex = start + acc.withdrawals.length
  withdrawalIndex_lt : acc.withdrawals = [] ∨ acc.withdrawalIndex < 2 ^ 64
  total_le : ∀ v b, v < state.validators.length → state.balances[v]? = some b →
    withdrawnTotal acc.withdrawals v ≤ b
  entry : ∀ w ∈ acc.withdrawals, w.validatorIndex &&& builderIndexFlag ≠ 0 ∨
    (w.validatorIndex < state.validators.length ∧ w.validatorIndex < state.balances.length)

theorem Accum.valid_start (state : BeaconState) (start : Nat) :
    Accum.Valid state start ⟨[], start⟩ :=
  ⟨rfl, rfl, .inl rfl, fun _ b _ _ => Nat.zero_le b, fun _ h => absurd h List.not_mem_nil⟩

/-- A withdrawal of `amount` from `validatorIndex` that may follow `acc`: a builder's, or one
from a validator whose balance covers it on top of what `acc` already takes. -/
def Accum.Fits (state : BeaconState) (acc : Accum) (validatorIndex amount : Nat) : Prop :=
  validatorIndex &&& builderIndexFlag ≠ 0 ∨
    (validatorIndex < state.validators.length ∧ ∃ b, state.balances[validatorIndex]? = some b ∧
      withdrawnTotal acc.withdrawals validatorIndex + amount ≤ b)

theorem Accum.fits_builder (b m : Nat) : acc.Fits state (b ||| builderIndexFlag) m :=
  .inl (or_builderIndexFlag_flagged b)

/-- A push of a withdrawal that fits keeps the invariant. -/
theorem Accum.Valid.push {i : Nat} {a : List UInt8} {m : Nat} (hv : acc.Valid state start)
    (h : acc.push i a m = .ok acc') (hfits : acc.Fits state i m) : acc'.Valid state start := by
  obtain ⟨hlt, rfl⟩ := Accum.push_eq_ok.1 h
  refine ⟨?_, ?_, .inr hlt, ?_, ?_⟩
  case refine_1 =>
    rw [List.map_append, hv.indices, List.length_append, List.length_singleton,
      ← List.range'_append]
    simp [hv.withdrawalIndex_eq]
  case refine_2 => simp [hv.withdrawalIndex_eq, Nat.add_assoc]
  case refine_3 =>
    intro v b hv' hb
    rw [withdrawnTotal_append_singleton]
    by_cases hiv : i = v
    · -- the new withdrawal is this validator's: it fits its balance
      subst hiv
      rcases hfits with hflag | ⟨-, b', hb', hle⟩
      · exact absurd (state.lt_builderIndexFlag hv')
          (Nat.not_lt_of_le (builderIndexFlag_le_of_flagged hflag))
      · rw [hb, Option.some.injEq] at hb'
        simpa [← hb'] using hle
    · simpa [hiv] using hv.total_le v b hv' hb
  case refine_4 =>
    intro w hw
    rcases List.mem_append.1 hw with hw | hw
    · exact hv.entry w hw
    · rw [List.mem_singleton] at hw
      subst hw
      rcases hfits with hflag | ⟨hlt, b, hb, -⟩
      · exact .inl hflag
      · exact .inr ⟨hlt, (List.getElem?_eq_some_iff.1 hb).1⟩

theorem Accum.length_push {i : Nat} {a : List UInt8} {m : Nat} (h : acc.push i a m = .ok acc') :
    acc'.withdrawals.length = acc.withdrawals.length + 1 := by
  obtain ⟨-, rfl⟩ := Accum.push_eq_ok.1 h
  simp

end Invariant

/-! ## The four phases -/

section Phases

variable {state : BeaconState} {start : Nat} {spec : WithdrawalSpec} {epoch : Nat}

/-- Phase 1 pushes builders' withdrawals only below the reserved limit, and counts at most one
request per entry of the queue. -/
theorem builderPendingLoop_valid {reservedLimit buildersCount : Nat} :
    ∀ {l : List BuilderPendingWithdrawal} {acc acc' : Accum} {p p' : Nat},
      builderPendingLoop reservedLimit buildersCount l acc p = .ok (acc', p') →
      acc.Valid state start → acc.withdrawals.length ≤ reservedLimit →
      acc'.Valid state start ∧ acc'.withdrawals.length ≤ reservedLimit ∧ p' ≤ p + l.length
  | [], acc, acc', p, p', h, hv, hlen => by
    cases h
    exact ⟨hv, hlen, Nat.le_add_right p 0⟩
  | w :: l, acc, acc', p, p', h, hv, hlen => by
    rw [builderPendingLoop] at h
    split at h
    · -- the reserved limit is reached: the loop breaks
      cases h
      exact ⟨hv, hlen, Nat.le_add_right p _⟩
    split at h
    · cases h
    obtain ⟨acc₁, hpush, h⟩ := Except.bind_eq_ok.1 h
    obtain ⟨p₁, hp₁, h⟩ := Except.bind_eq_ok.1 h
    rw [liftArith_eq_ok, uCheckedAdd_eq_some] at hp₁
    obtain ⟨hv', hlen', hp'⟩ := builderPendingLoop_valid h
      (hv.push hpush (Accum.fits_builder _ _)) (by rw [Accum.length_push hpush]; omega)
    exact ⟨hv', hlen', by rw [List.length_cons]; omega⟩

/-- Phase 2's step pushes nothing, or a withdrawal of the requesting validator that its balance
covers: the excess over `MIN_ACTIVATION_BALANCE` of what is left once the list's withdrawals are
counted. -/
theorem partialWithdrawalStep_eq_ok {req : PendingPartialWithdrawal} {acc acc' : Accum}
    (h : partialWithdrawalStep spec state req acc = .ok acc') :
    acc' = acc ∨ ∃ a m, acc.push req.validatorIndex a m = .ok acc' ∧
      acc.Fits state req.validatorIndex m := by
  unfold partialWithdrawalStep at h
  obtain ⟨validator, hval, h⟩ := Except.bind_eq_ok.1 h
  obtain ⟨t, ht, h⟩ := Except.bind_eq_ok.1 h
  obtain ⟨b, hb, h⟩ := Except.bind_eq_ok.1 h
  rw [BeaconState.getValidator, okOr_eq_ok] at hval
  rw [BeaconState.getBalance, okOr_eq_ok] at hb
  obtain rfl : t = withdrawnTotal acc.withdrawals req.validatorIndex := totalWithdrawn_eq_ok ht
  dsimp only at h
  split at h
  · rename_i hcond
    obtain ⟨-, -, hexcess⟩ := hcond
    obtain ⟨address, -, h⟩ := Except.bind_eq_ok.1 h
    refine .inr ⟨address, _, h, .inr ⟨(List.getElem?_eq_some_iff.1 hval).1, b, hb, ?_⟩⟩
    omega
  · exact .inl (Except.ok.inj h).symm

/-- Phase 2 keeps the invariant, pushes only below `partialsLimit`, and counts at most one
request per entry of the queue. -/
theorem partialsLoop_valid {partialsLimit reservedLimit : Nat}
    (hlim : partialsLimit ≤ reservedLimit) :
    ∀ {l : List PendingPartialWithdrawal} {acc acc' : Accum} {p p' : Nat},
      partialsLoop spec state epoch partialsLimit l acc p = .ok (acc', p') →
      acc.Valid state start → acc.withdrawals.length ≤ reservedLimit →
      acc'.Valid state start ∧ acc'.withdrawals.length ≤ reservedLimit ∧ p' ≤ p + l.length
  | [], acc, acc', p, p', h, hv, hlen => by
    cases h
    exact ⟨hv, hlen, Nat.le_add_right p 0⟩
  | req :: l, acc, acc', p, p', h, hv, hlen => by
    rw [partialsLoop] at h
    split at h
    · -- a request not yet withdrawable, or the limit reached: the loop breaks
      cases h
      exact ⟨hv, hlen, Nat.le_add_right p _⟩
    rename_i hgo
    obtain ⟨acc₁, hstep, h⟩ := Except.bind_eq_ok.1 h
    obtain ⟨p₁, hp₁, h⟩ := Except.bind_eq_ok.1 h
    rw [liftArith_eq_ok, uCheckedAdd_eq_some] at hp₁
    have ⟨hv₁, hlen₁⟩ : acc₁.Valid state start ∧ acc₁.withdrawals.length ≤ reservedLimit := by
      rcases partialWithdrawalStep_eq_ok hstep with rfl | ⟨a, m, hpush, hfits⟩
      · exact ⟨hv, hlen⟩
      · exact ⟨hv.push hpush hfits, by rw [Accum.length_push hpush]; omega⟩
    obtain ⟨hv', hlen', hp'⟩ := partialsLoop_valid hlim h hv₁ hlen₁
    exact ⟨hv', hlen', by rw [List.length_cons]; omega⟩

/-- Phase 3's step pushes nothing or the swept builder's withdrawal. -/
theorem builderSweepStep_eq_ok {builders : List Builder} {i : Nat} {acc acc' : Accum}
    (h : builderSweepStep epoch builders i acc = .ok acc') :
    acc' = acc ∨ ∃ a m, acc.push (i ||| builderIndexFlag) a m = .ok acc' := by
  unfold builderSweepStep at h
  split at h
  · split at h
    · exact .inr ⟨_, _, h⟩
    · exact .inl (Except.ok.inj h).symm
  · exact .inl (Except.ok.inj h).symm

/-- Phase 3 keeps the invariant and pushes only below the reserved limit. -/
theorem builderSweepLoop_valid {reservedLimit : Nat} {builders : List Builder} :
    ∀ {fuel : Nat} {acc acc' : Accum} {i p p' : Nat},
      builderSweepLoop epoch reservedLimit builders fuel acc i p = .ok (acc', p') →
      acc.Valid state start → acc.withdrawals.length ≤ reservedLimit →
      acc'.Valid state start ∧ acc'.withdrawals.length ≤ reservedLimit
  | 0, acc, acc', i, p, p', h, hv, hlen => by
    cases h
    exact ⟨hv, hlen⟩
  | fuel + 1, acc, acc', i, p, p', h, hv, hlen => by
    rw [builderSweepLoop] at h
    split at h
    · cases h
      exact ⟨hv, hlen⟩
    obtain ⟨acc₁, hstep, h⟩ := Except.bind_eq_ok.1 h
    obtain ⟨i₁, -, h⟩ := Except.bind_eq_ok.1 h
    obtain ⟨p₁, -, h⟩ := Except.bind_eq_ok.1 h
    have ⟨hv₁, hlen₁⟩ : acc₁.Valid state start ∧ acc₁.withdrawals.length ≤ reservedLimit := by
      rcases builderSweepStep_eq_ok hstep with rfl | ⟨a, m, hpush⟩
      · exact ⟨hv, hlen⟩
      · exact ⟨hv.push hpush (Accum.fits_builder _ _), by rw [Accum.length_push hpush]; omega⟩
    exact builderSweepLoop_valid h hv₁ hlen₁

/-- Phase 4's step reads the swept validator, so it exists, and pushes nothing or a withdrawal of
it that its balance covers: the whole of what is left for a fully withdrawable validator, the
excess over its maximal effective balance for a partially withdrawable one. -/
theorem validatorSweepStep_eq_ok {i : Nat} {acc acc' : Accum}
    (h : validatorSweepStep spec state epoch i acc = .ok acc') :
    i < state.validators.length ∧
      (acc' = acc ∨ ∃ a m, acc.push i a m = .ok acc' ∧ acc.Fits state i m) := by
  unfold validatorSweepStep at h
  obtain ⟨validator, hval, h⟩ := Except.bind_eq_ok.1 h
  obtain ⟨t, ht, h⟩ := Except.bind_eq_ok.1 h
  obtain ⟨b, hb, h⟩ := Except.bind_eq_ok.1 h
  rw [BeaconState.getValidator, okOr_eq_ok] at hval
  rw [BeaconState.getBalance, okOr_eq_ok] at hb
  obtain rfl : t = withdrawnTotal acc.withdrawals i := totalWithdrawn_eq_ok ht
  have hi : i < state.validators.length := (List.getElem?_eq_some_iff.1 hval).1
  refine ⟨hi, ?_⟩
  dsimp only at h
  split at h
  · rename_i hfull
    simp only [Validator.isFullyWithdrawableValidator, Bool.and_eq_true, decide_eq_true_eq]
      at hfull
    obtain ⟨address, -, h⟩ := Except.bind_eq_ok.1 h
    exact .inr ⟨address, _, h, .inr ⟨hi, b, hb, by omega⟩⟩
  split at h
  · rename_i _ hpartial
    simp only [Validator.isPartiallyWithdrawableValidator, Bool.and_eq_true, decide_eq_true_eq]
      at hpartial
    obtain ⟨address, -, h⟩ := Except.bind_eq_ok.1 h
    exact .inr ⟨address, _, h, .inr ⟨hi, b, hb, by omega⟩⟩
  · exact .inl (Except.ok.inj h).symm

/-- Phase 4 keeps the invariant, pushes only below `maxWithdrawals`, and pushes only withdrawals
of validators. -/
theorem validatorSweepLoop_valid {maxWithdrawals : Nat} :
    ∀ {fuel : Nat} {acc acc' : Accum} {i : Nat},
      validatorSweepLoop spec state epoch maxWithdrawals fuel acc i = .ok acc' →
      acc.Valid state start → acc.withdrawals.length ≤ maxWithdrawals →
      acc'.Valid state start ∧ acc'.withdrawals.length ≤ maxWithdrawals ∧
        ∃ sweep, acc'.withdrawals = acc.withdrawals ++ sweep ∧
          ∀ w ∈ sweep, w.validatorIndex < state.validators.length
  | 0, acc, acc', i, h, hv, hlen => by
    cases h
    exact ⟨hv, hlen, [], by simp, by simp⟩
  | fuel + 1, acc, acc', i, h, hv, hlen => by
    rw [validatorSweepLoop] at h
    split at h
    · cases h
      exact ⟨hv, hlen, [], by simp, by simp⟩
    obtain ⟨acc₁, hstep, h⟩ := Except.bind_eq_ok.1 h
    obtain ⟨i₁, -, h⟩ := Except.bind_eq_ok.1 h
    obtain ⟨hi, hstep⟩ := validatorSweepStep_eq_ok hstep
    -- one step pushes at most the swept validator's withdrawal
    have ⟨hv₁, hlen₁, pushed, hpushed, hpushed_lt⟩ : acc₁.Valid state start ∧
        acc₁.withdrawals.length ≤ maxWithdrawals ∧ ∃ pushed, acc₁.withdrawals =
          acc.withdrawals ++ pushed ∧ ∀ w ∈ pushed, w.validatorIndex < state.validators.length := by
      rcases hstep with rfl | ⟨a, m, hpush, hfits⟩
      · exact ⟨hv, hlen, [], by simp, by simp⟩
      · obtain ⟨-, rfl⟩ := Accum.push_eq_ok.1 hpush
        refine ⟨hv.push hpush hfits, by simp; omega, [_], rfl, ?_⟩
        simpa using hi
    obtain ⟨hv', hlen', sweep, hsweep, hsweep_lt⟩ := validatorSweepLoop_valid h hv₁ hlen₁
    refine ⟨hv', hlen', pushed ++ sweep, by rw [hsweep, hpushed, List.append_assoc], ?_⟩
    intro w hw
    rcases List.mem_append.1 hw with hw | hw
    · exact hpushed_lt w hw
    · exact hsweep_lt w hw

end Phases

/-! ## The list -/

section List

variable {state : BeaconState} {spec : WithdrawalSpec}

/-- The queue phases keep their part of the list within `MAX_WITHDRAWALS_PER_PAYLOAD - 1`, and
count no more requests than the queues hold. -/
theorem queuedWithdrawals_valid {acc : Accum} {c₁ c₂ c₃ : Nat}
    (h : queuedWithdrawals spec state = .ok (acc, c₁, c₂, c₃)) :
    acc.Valid state state.nextWithdrawalIndex ∧
      acc.withdrawals.length ≤ spec.maxWithdrawalsPerPayload - 1 ∧
      c₁ ≤ state.builderPendingWithdrawals.length ∧ c₂ ≤ state.pendingPartialWithdrawals.length := by
  unfold queuedWithdrawals at h
  obtain ⟨⟨acc₁, p₁⟩, h₁, h⟩ := Except.bind_eq_ok.1 h
  obtain ⟨hv₁, hlen₁, hp₁⟩ :=
    builderPendingLoop_valid h₁ (Accum.valid_start state _) (Nat.zero_le _)
  dsimp only at h
  obtain ⟨⟨acc₂, p₂⟩, h₂, h⟩ := Except.bind_eq_ok.1 h
  obtain ⟨hv₂, hlen₂, hp₂⟩ := partialsLoop_valid (Nat.min_le_right _ _) h₂ hv₁ hlen₁
  dsimp only at h
  -- the builder sweep runs only over a nonempty list, from a cursor inside it
  split at h
  · split at h
    · cases h
    · obtain ⟨⟨acc₃, p₃⟩, h₃, h⟩ := Except.bind_eq_ok.1 h
      cases h
      obtain ⟨hv₃, hlen₃⟩ := builderSweepLoop_valid h₃ hv₂ hlen₂
      exact ⟨hv₃, hlen₃, by simpa using hp₁, by simpa using hp₂⟩
  · cases h
    exact ⟨hv₂, hlen₂, by simpa using hp₁, by simpa using hp₂⟩

/-- `compute_withdrawals_gloas` is the queue phases followed by the validator sweep. -/
theorem computeWithdrawalsGloas_eq_ok {result : WithdrawalResult}
    (h : computeWithdrawalsGloas spec state = .ok result) :
    ∃ acc c₁ c₂ c₃ swept, queuedWithdrawals spec state = .ok (acc, c₁, c₂, c₃) ∧
      validatorSweepLoop spec state state.currentEpoch spec.maxWithdrawalsPerPayload
        (min state.validators.length spec.maxValidatorsPerWithdrawalsSweep) acc
        state.nextWithdrawalValidatorIndex = .ok swept ∧
      result = ⟨swept.withdrawals, c₁, c₂, c₃⟩ := by
  unfold computeWithdrawalsGloas at h
  obtain ⟨⟨acc, c₁, c₂, c₃⟩, hq, h⟩ := Except.bind_eq_ok.1 h
  obtain ⟨swept, hs, h⟩ := Except.bind_eq_ok.1 h
  exact ⟨acc, c₁, c₂, c₃, swept, hq, hs, (Except.ok.inj h).symm⟩

/-- What `compute_withdrawals_gloas` returns, part by part: the queue phases' list `queued`
within the reserved limit and with counts no larger than the queues, and after it withdrawals of
validators alone; the whole list valid from `next_withdrawal_index` and within
`MAX_WITHDRAWALS_PER_PAYLOAD`. -/
structure ResultShape (spec : WithdrawalSpec) (state : BeaconState) (result : WithdrawalResult)
    (queued : Accum) : Prop where
  queued_eq : ∃ c₃, queuedWithdrawals spec state = .ok (queued,
    result.processedBuilderWithdrawalsCount, result.processedPartialWithdrawalsCount, c₃)
  queued_length_le : queued.withdrawals.length ≤ spec.maxWithdrawalsPerPayload - 1
  builderCount_le : result.processedBuilderWithdrawalsCount ≤ state.builderPendingWithdrawals.length
  partialCount_le : result.processedPartialWithdrawalsCount ≤ state.pendingPartialWithdrawals.length
  valid : Accum.Valid state state.nextWithdrawalIndex
    ⟨result.withdrawals, state.nextWithdrawalIndex + result.withdrawals.length⟩
  length_le : result.withdrawals.length ≤ spec.maxWithdrawalsPerPayload
  sweep : ∃ sweep, result.withdrawals = queued.withdrawals ++ sweep ∧
    ∀ w ∈ sweep, w.validatorIndex < state.validators.length

theorem computeWithdrawalsGloas_shape {result : WithdrawalResult}
    (h : computeWithdrawalsGloas spec state = .ok result) :
    ∃ queued, ResultShape spec state result queued := by
  obtain ⟨acc, c₁, c₂, c₃, swept, hq, hs, rfl⟩ := computeWithdrawalsGloas_eq_ok h
  obtain ⟨hv, hlen, hc₁, hc₂⟩ := queuedWithdrawals_valid hq
  obtain ⟨hv', hlen', sweep, hsweep, hsweep_lt⟩ :=
    validatorSweepLoop_valid hs hv (Nat.le_trans hlen (Nat.sub_le _ _))
  -- the running index of a valid list is determined by the list
  have hswept : swept = ⟨swept.withdrawals,
      state.nextWithdrawalIndex + swept.withdrawals.length⟩ := by
    rw [← hv'.withdrawalIndex_eq]
  exact ⟨acc, ⟨⟨c₃, hq⟩, hlen, hc₁, hc₂, hswept ▸ hv', hlen', sweep, hsweep, hsweep_lt⟩⟩

/-- When the list is full, its last withdrawal comes after the queue part: the reserved limit
leaves the last place to the validator sweep. -/
theorem mem_sweep_of_getLast? {queued sweep : List Withdrawal} {n : Nat} {w : Withdrawal}
    (hqueued : queued.length ≤ n - 1) (hfull : (queued ++ sweep).length = n)
    (hw : (queued ++ sweep).getLast? = some w) : w ∈ sweep := by
  by_cases hs : sweep = []
  · subst hs
    rw [List.append_nil] at hfull hw
    have := List.length_pos_of_mem (List.mem_of_getLast? hw)
    omega
  · rw [List.getLast?_append, List.getLast?_eq_some_getLast hs, Option.some_or,
      Option.some.injEq] at hw
    exact hw ▸ List.getLast_mem hs

end List

/-! ## Applying the list

Each step of `process_withdrawals_gloas` after the list is stated as the record update it makes,
so that the run of all of them is chained by `Except.exists_bind_ok`. -/

section Process

variable {spec : WithdrawalSpec}

/-- A validator index and the one after it are `u64`s. -/
theorem BeaconState.succ_lt_of_lt_length (s : BeaconState) {v : Nat}
    (h : v < s.validators.length) : v + 1 < 2 ^ 64 := by
  have hlim := s.validators_length_le
  have hpow : validatorRegistryLimit < 2 ^ 64 :=
    Nat.pow_lt_pow_right (by decide) (by decide)
  omega

/-- One withdrawal changes the balances and the builders alone: a builder's leaves the balances
as they are, a validator's takes its amount from that validator's balance. -/
theorem applyWithdrawal_eq_ok {s : BeaconState} {w : Withdrawal}
    (hw : w.validatorIndex &&& builderIndexFlag ≠ 0 ∨ w.validatorIndex < s.balances.length) :
    ∃ balances builders, applyWithdrawal s w = .ok { s with balances, builders } ∧
      balances.length = s.balances.length ∧
      ∀ v < builderIndexFlag, balances[v]? =
        s.balances[v]?.map fun b => b - if w.validatorIndex = v then w.amount else 0 := by
  unfold applyWithdrawal
  by_cases hflag : w.validatorIndex &&& builderIndexFlag ≠ 0
  · rw [if_pos hflag]
    refine ⟨s.balances, _, rfl, rfl, fun v hv => ?_⟩
    have hne : w.validatorIndex ≠ v := by
      have := builderIndexFlag_le_of_flagged hflag
      omega
    simp [hne]
  · rw [if_neg hflag]
    have hlt := hw.resolve_left hflag
    refine ⟨s.balances.modify w.validatorIndex fun b => b - w.amount, s.builders, ?_,
      List.length_modify _ _ _, fun v _ => ?_⟩
    · rw [BeaconState.decreaseBalance, if_pos hlt]
      rfl
    · rw [List.getElem?_modify]
      by_cases hv : w.validatorIndex = v <;> simp [hv]

/-- The loop over the list takes from each validator's balance what the list withdraws from it,
the saturating subtractions adding up to one. -/
theorem applyWithdrawals_eq_ok : ∀ {s : BeaconState} {ws : List Withdrawal},
    (∀ w ∈ ws, w.validatorIndex &&& builderIndexFlag ≠ 0 ∨ w.validatorIndex < s.balances.length) →
    ∃ s', applyWithdrawals s ws = .ok s' ∧ ∃ balances builders,
      s' = { s with balances, builders } ∧
      ∀ v < builderIndexFlag, balances[v]? = s.balances[v]?.map fun b => b - withdrawnTotal ws v
  | s, [], _ => ⟨s, rfl, s.balances, s.builders, rfl, fun v _ => by simp⟩
  | s, w :: ws, hws => by
    obtain ⟨bal₁, bs₁, h₁, hlen₁, hget₁⟩ := applyWithdrawal_eq_ok (hws w List.mem_cons_self)
    obtain ⟨s₂, h₂, bal₂, bs₂, rfl, hget₂⟩ :=
      @applyWithdrawals_eq_ok { s with balances := bal₁, builders := bs₁ } ws
        fun w' hw' => by simpa [hlen₁] using hws w' (List.mem_cons_of_mem _ hw')
    refine ⟨_, ?_, bal₂, bs₂, rfl, fun v hv => ?_⟩
    · rw [applyWithdrawals, List.foldlM_cons, h₁, Except.ok_bind]
      exact h₂
    · rw [hget₂ v hv, hget₁ v hv, Option.map_map, withdrawnTotal_cons]
      congr 1
      funext b
      simp [Nat.sub_sub]

theorem updateNextWithdrawalIndex_eq_ok {s : BeaconState} {ws : List Withdrawal}
    (h : ∀ w, ws.getLast? = some w → w.index + 1 < 2 ^ 64) :
    ∃ s', updateNextWithdrawalIndex s ws = .ok s' ∧ ∃ i, s' = { s with nextWithdrawalIndex := i } := by
  unfold updateNextWithdrawalIndex
  cases hlast : ws.getLast? with
  | none => exact ⟨s, rfl, s.nextWithdrawalIndex, rfl⟩
  | some w =>
    have hadd : uCheckedAdd 64 w.index 1 = some (w.index + 1) :=
      uCheckedAdd_eq_some.2 ⟨h w hlast, rfl⟩
    exact ⟨_, by dsimp only; rw [hadd]; rfl, w.index + 1, rfl⟩

theorem storePayloadExpectedWithdrawals_of_le {s : BeaconState} {ws : List Withdrawal}
    (h : ws.length ≤ spec.maxWithdrawalsPerPayload) :
    ∃ s', storePayloadExpectedWithdrawals spec s ws = .ok s' ∧
      s' = { s with payloadExpectedWithdrawals := ws } :=
  ⟨_, if_neg (Nat.not_lt.2 h), rfl⟩

theorem popProcessed_of_le {α : Type} {n : Nat} {l : List α} (h : n ≤ l.length) :
    popProcessed n l = .ok (l.drop n) := by
  unfold popProcessed
  split
  · exact if_pos h
  · rename_i hn
    rw [Nat.eq_zero_of_not_pos hn, List.drop_zero]
    rfl

/-- The queues lose their processed requests, which they hold. -/
theorem updatePendingQueues_eq_ok {s : BeaconState} {result : WithdrawalResult}
    (h₁ : result.processedBuilderWithdrawalsCount ≤ s.builderPendingWithdrawals.length)
    (h₂ : result.processedPartialWithdrawalsCount ≤ s.pendingPartialWithdrawals.length) :
    ∃ s', updatePendingQueues s result = .ok s' ∧ s' = { s with
      builderPendingWithdrawals :=
        s.builderPendingWithdrawals.drop result.processedBuilderWithdrawalsCount,
      pendingPartialWithdrawals :=
        s.pendingPartialWithdrawals.drop result.processedPartialWithdrawalsCount } := by
  refine ⟨_, ?_, rfl⟩
  rw [updatePendingQueues, popProcessed_of_le h₁, Except.ok_bind, popProcessed_of_le h₂]
  rfl

/-- The builder cursor update never fails: it divides by a nonempty list's length. -/
theorem updateNextWithdrawalBuilderIndex_eq_ok (s : BeaconState) (n : Nat) :
    ∃ s', updateNextWithdrawalBuilderIndex s n = .ok s' ∧
      ∃ i, s' = { s with nextWithdrawalBuilderIndex := i } := by
  unfold updateNextWithdrawalBuilderIndex
  split
  · rename_i hpos
    have hrem : uCheckedRem (uSaturatingAdd 64 s.nextWithdrawalBuilderIndex n) s.builders.length =
        some (uSaturatingAdd 64 s.nextWithdrawalBuilderIndex n % s.builders.length) :=
      uCheckedRem_eq_some.2 ⟨Nat.pos_iff_ne_zero.1 hpos, rfl⟩
    exact ⟨_, by dsimp only; rw [hrem]; rfl, _, rfl⟩
  · exact ⟨s, rfl, s.nextWithdrawalBuilderIndex, rfl⟩

/-- The validator cursor lands on a validator: past the last withdrawal's validator when the
list is full, `MAX_VALIDATORS_PER_WITHDRAWALS_SWEEP` further on otherwise. -/
theorem updateNextWithdrawalValidatorIndex_eq_ok {s : BeaconState} {ws : List Withdrawal}
    (hlast : ws.length = spec.maxWithdrawalsPerPayload →
      ∀ w, ws.getLast? = some w → w.validatorIndex < s.validators.length)
    (hsweep : s.nextWithdrawalValidatorIndex + spec.maxValidatorsPerWithdrawalsSweep < 2 ^ 64) :
    ∃ s', updateNextWithdrawalValidatorIndex spec s ws = .ok s' ∧
      ∃ i, s' = { s with nextWithdrawalValidatorIndex := i } ∧
        (0 < s.validators.length → i < s.validators.length) := by
  unfold updateNextWithdrawalValidatorIndex
  dsimp only
  split
  · rename_i hpos
    have hrem : ∀ x, uCheckedRem x s.validators.length = some (x % s.validators.length) :=
      fun x => uCheckedRem_eq_some.2 ⟨Nat.pos_iff_ne_zero.1 hpos, rfl⟩
    split
    · rename_i hfull
      -- from the last withdrawal's validator, or from `0` for an empty list
      have hle : (ws.getLast?.map (·.validatorIndex)).getD 0 < s.validators.length := by
        cases hl : ws.getLast? with
        | none => simpa using hpos
        | some w => simpa using hlast hfull w hl
      have hadd : uCheckedAdd 64 ((ws.getLast?.map (·.validatorIndex)).getD 0) 1 =
          some ((ws.getLast?.map (·.validatorIndex)).getD 0 + 1) :=
        uCheckedAdd_eq_some.2 ⟨s.succ_lt_of_lt_length hle, rfl⟩
      exact ⟨_, by rw [hadd, Option.bind_some, hrem]; rfl, _, rfl,
        fun _ => Nat.mod_lt _ hpos⟩
    · have hadd : uCheckedAdd 64 s.nextWithdrawalValidatorIndex
          spec.maxValidatorsPerWithdrawalsSweep =
          some (s.nextWithdrawalValidatorIndex + spec.maxValidatorsPerWithdrawalsSweep) :=
        uCheckedAdd_eq_some.2 ⟨hsweep, rfl⟩
      exact ⟨_, by rw [hadd, Option.bind_some, hrem]; rfl, _, rfl,
        fun _ => Nat.mod_lt _ hpos⟩
  · rename_i hzero
    exact ⟨s, rfl, _, rfl, fun h => absurd h hzero⟩

/-- When the parent block is full, `process_withdrawals_gloas` succeeds after a successful
`compute_withdrawals_gloas` (given that the validator cursor can move by a whole sweep within
`u64`), takes from each validator's balance what the list withdraws from it, and leaves the
validator cursor on a validator. -/
theorem processWithdrawalsGloas_eq_ok {state : BeaconState} {result : WithdrawalResult}
    (h : computeWithdrawalsGloas spec state = .ok result) (hfull : state.isParentBlockFull = true)
    (hsweep : state.nextWithdrawalValidatorIndex + spec.maxValidatorsPerWithdrawalsSweep < 2 ^ 64) :
    ∃ state', processWithdrawalsGloas spec state = .ok state' ∧
      state'.validators = state.validators ∧
      (∀ v < builderIndexFlag, state'.balances[v]? =
        state.balances[v]?.map fun b => b - withdrawnTotal result.withdrawals v) ∧
      (0 < state.validators.length →
        state'.nextWithdrawalValidatorIndex < state.validators.length) := by
  obtain ⟨queued, hshape⟩ := computeWithdrawalsGloas_shape h
  obtain ⟨sweep, hsweep_eq, hsweep_lt⟩ := hshape.sweep
  have hv := hshape.valid
  -- the last withdrawal of a full list is the sweep's, so of a validator
  have hlast : result.withdrawals.length = spec.maxWithdrawalsPerPayload →
      ∀ w, result.withdrawals.getLast? = some w → w.validatorIndex < state.validators.length := by
    intro hlen w hw
    rw [hsweep_eq] at hlen hw
    exact hsweep_lt w (mem_sweep_of_getLast? hshape.queued_length_le hlen hw)
  -- one past the last index is the running index, a `u64`
  have hindex : ∀ w, result.withdrawals.getLast? = some w → w.index + 1 < 2 ^ 64 := by
    intro w hw
    have hne : result.withdrawals ≠ [] := fun hnil => by simp [hnil] at hw
    have hidx : w.index = state.nextWithdrawalIndex + (result.withdrawals.length - 1) := by
      rw [List.getLast?_eq_getElem?] at hw
      have := congrArg (·[result.withdrawals.length - 1]?) hv.indices
      simp only [List.getElem?_map, hw, Option.map_some] at this
      rw [List.getElem?_range' (by have := List.length_pos_of_ne_nil hne; omega)] at this
      simpa using this
    have hlt := hv.withdrawalIndex_lt.resolve_left hne
    have := List.length_pos_of_ne_nil hne
    simp only at hlt
    omega
  rw [processWithdrawalsGloas, if_neg (by simp [hfull]), h, Except.ok_bind]
  refine Except.exists_bind_ok (applyWithdrawals_eq_ok fun w hw =>
    (hv.entry w hw).imp_right And.right) ?_
  rintro _ ⟨bal, bs, rfl, hbal⟩
  refine Except.exists_bind_ok (updateNextWithdrawalIndex_eq_ok hindex) ?_
  rintro _ ⟨i₁, rfl⟩
  refine Except.exists_bind_ok (storePayloadExpectedWithdrawals_of_le hshape.length_le) ?_
  rintro _ rfl
  refine Except.exists_bind_ok
    (updatePendingQueues_eq_ok hshape.builderCount_le hshape.partialCount_le) ?_
  rintro _ rfl
  refine Except.exists_bind_ok (updateNextWithdrawalBuilderIndex_eq_ok _ _) ?_
  rintro _ ⟨i₂, rfl⟩
  -- the last step, as a bind into `pure`, so that its state is read off the goal
  rw [← bind_pure (updateNextWithdrawalValidatorIndex spec _ result.withdrawals)]
  refine Except.exists_bind_ok (updateNextWithdrawalValidatorIndex_eq_ok hlast hsweep) ?_
  rintro _ ⟨i₃, rfl, hi₃⟩
  exact ⟨_, rfl, rfl, hbal, hi₃⟩

end Process

/-! ## The withdrawal list and its application -/

section WithdrawalList

open List in
/-- The list of `compute_withdrawals_gloas` is at most `MAX_WITHDRAWALS_PER_PAYLOAD` long and
numbered on from `next_withdrawal_index`; the queue phases' part comes first, within
`MAX_WITHDRAWALS_PER_PAYLOAD - 1`, and is followed by withdrawals of validators alone, so that a
full list ends with one (its builder flag clear); and no validator loses more than its balance.
When the parent block is full and the validator cursor can move by a sweep within `u64`,
`process_withdrawals_gloas` succeeds, takes exactly each validator's total from its balance and,
for a state with validators, leaves the cursor on one. -/
theorem gloas_withdrawals_well_formed (spec : WithdrawalSpec) (state : BeaconState)
    (result : WithdrawalResult) (h : computeWithdrawalsGloas spec state = .ok result) :
    result.withdrawals.length ≤ spec.maxWithdrawalsPerPayload ∧
    result.withdrawals.map (·.index) =
      List.range' state.nextWithdrawalIndex result.withdrawals.length ∧
    (∃ queued counts, queuedWithdrawals spec state = .ok (queued, counts) ∧
      queued.withdrawals.length ≤ spec.maxWithdrawalsPerPayload - 1 ∧
      queued.withdrawals <+: result.withdrawals ∧
      (∀ w ∈ result.withdrawals.drop queued.withdrawals.length,
        w.validatorIndex < state.validators.length) ∧
      (result.withdrawals.length = spec.maxWithdrawalsPerPayload →
        ∀ w, result.withdrawals.getLast? = some w →
          w ∈ result.withdrawals.drop queued.withdrawals.length ∧
            w.validatorIndex &&& builderIndexFlag = 0)) ∧
    (∀ v b, v < state.validators.length → state.balances[v]? = some b →
      withdrawnTotal result.withdrawals v ≤ b) ∧
    (state.isParentBlockFull = true →
      state.nextWithdrawalValidatorIndex + spec.maxValidatorsPerWithdrawalsSweep < 2 ^ 64 →
      ∃ state', processWithdrawalsGloas spec state = .ok state' ∧
        (∀ v b, v < state.validators.length → state.balances[v]? = some b →
          state'.balances[v]? = some (b - withdrawnTotal result.withdrawals v)) ∧
        (0 < state.validators.length →
          state'.nextWithdrawalValidatorIndex < state'.validators.length)) := by
  obtain ⟨queued, hshape⟩ := computeWithdrawalsGloas_shape h
  obtain ⟨c₃, hq⟩ := hshape.queued_eq
  obtain ⟨sweep, hsweep_eq, hsweep_lt⟩ := hshape.sweep
  have hv := hshape.valid
  have hdrop : result.withdrawals.drop queued.withdrawals.length = sweep := by
    rw [hsweep_eq, List.drop_left]
  refine ⟨hshape.length_le, hv.indices, ⟨queued, _, hq, hshape.queued_length_le,
    ⟨sweep, hsweep_eq.symm⟩, ?_, ?_⟩, fun v b hvl hb => hv.total_le v b hvl hb, ?_⟩
  case refine_1 =>
    rw [hdrop]
    exact hsweep_lt
  case refine_2 =>
    intro hfull w hw
    rw [hsweep_eq] at hfull hw
    have hmem : w ∈ sweep := mem_sweep_of_getLast? hshape.queued_length_le hfull hw
    rw [hdrop]
    exact ⟨hmem, and_builderIndexFlag_of_lt (state.lt_builderIndexFlag (hsweep_lt w hmem))⟩
  case refine_3 =>
    intro hfull hcursor
    obtain ⟨state', hp, hvals, hbal, hidx⟩ := processWithdrawalsGloas_eq_ok h hfull hcursor
    refine ⟨state', hp, fun v b hvl hb => ?_, fun hpos => ?_⟩
    · rw [hbal v (state.lt_builderIndexFlag hvl), hb]
      rfl
    · rw [hvals]
      exact hidx hpos

/-- The constants of the minimal preset, with payloads of two withdrawals and sweeps of one
builder and two validators. -/
def twoWithdrawalsSpec : WithdrawalSpec := ⟨2, 1, 1, 2, 32, 2048, 100, 1, 2⟩

/-- A builder's pending withdrawal takes the reserved place, and a fully withdrawable validator,
with an eth1 credential, the last. -/
def fullListState : BeaconState :=
  ⟨5, [⟨Vector.replicate 32 1, 32, 100, 3⟩], [40], [⟨[0xbb], 7, 2⟩], [⟨[0xdd], 3, 0⟩], [], [],
    10, 0, 0, Vector.replicate 32 0, Vector.replicate 32 0, by decide⟩

theorem gloas_withdrawals_well_formed_fullList :
    computeWithdrawalsGloas twoWithdrawalsSpec fullListState = .ok
      ⟨[⟨10, 0 ||| builderIndexFlag, [0xdd], 3⟩, ⟨11, 0, (Vector.replicate 32 1).toList.drop 12, 40⟩],
        1, 0, 0⟩ ∧
    [(⟨10, 0 ||| builderIndexFlag, [0xdd], 3⟩ : Withdrawal),
      ⟨11, 0, (Vector.replicate 32 1).toList.drop 12, 40⟩].length ≤ 2 ∧
    [(⟨10, 0 ||| builderIndexFlag, [0xdd], 3⟩ : Withdrawal),
      ⟨11, 0, (Vector.replicate 32 1).toList.drop 12, 40⟩].map (·.index) = List.range' 10 2 ∧
    (∃ queued counts, queuedWithdrawals twoWithdrawalsSpec fullListState = .ok (queued, counts) ∧
      queued.withdrawals.length ≤ 2 - 1 ∧
      queued.withdrawals <+: [(⟨10, 0 ||| builderIndexFlag, [0xdd], 3⟩ : Withdrawal),
        ⟨11, 0, (Vector.replicate 32 1).toList.drop 12, 40⟩] ∧
      (∀ w ∈ [(⟨10, 0 ||| builderIndexFlag, [0xdd], 3⟩ : Withdrawal),
          ⟨11, 0, (Vector.replicate 32 1).toList.drop 12, 40⟩].drop queued.withdrawals.length,
        w.validatorIndex < 1) ∧
      (2 = 2 → ∀ w, [(⟨10, 0 ||| builderIndexFlag, [0xdd], 3⟩ : Withdrawal),
          ⟨11, 0, (Vector.replicate 32 1).toList.drop 12, 40⟩].getLast? = some w →
        w ∈ [(⟨10, 0 ||| builderIndexFlag, [0xdd], 3⟩ : Withdrawal),
          ⟨11, 0, (Vector.replicate 32 1).toList.drop 12, 40⟩].drop queued.withdrawals.length ∧
          w.validatorIndex &&& builderIndexFlag = 0)) ∧
    (∀ v b, v < 1 → [40][v]? = some b →
      withdrawnTotal [⟨10, 0 ||| builderIndexFlag, [0xdd], 3⟩,
        ⟨11, 0, (Vector.replicate 32 1).toList.drop 12, 40⟩] v ≤ b) ∧
    (fullListState.isParentBlockFull = true → 0 + 2 < 2 ^ 64 →
      ∃ state', processWithdrawalsGloas twoWithdrawalsSpec fullListState = .ok state' ∧
        (∀ v b, v < 1 → [40][v]? = some b →
          state'.balances[v]? = some (b - withdrawnTotal [⟨10, 0 ||| builderIndexFlag, [0xdd], 3⟩,
            ⟨11, 0, (Vector.replicate 32 1).toList.drop 12, 40⟩] v)) ∧
        (0 < 1 → state'.nextWithdrawalValidatorIndex < state'.validators.length)) :=
  ⟨rfl, gloas_withdrawals_well_formed twoWithdrawalsSpec fullListState _ rfl⟩

/-- The validator's withdrawal is computed but not applied when the parent block is empty. -/
def emptyParentState : BeaconState :=
  { fullListState with latestBlockHash := Vector.replicate 32 1 }

/-- A state without validators, whose cursor cannot point at one. -/
def noValidatorsState : BeaconState :=
  ⟨5, [], [], [], [], [], [], 0, 0, 0, Vector.replicate 32 0, Vector.replicate 32 0, by decide⟩

/-- A sweep of `2 ^ 64 - 1` validators, which the cursor cannot move by within `u64`. -/
def wideSweepSpec : WithdrawalSpec :=
  { twoWithdrawalsSpec with maxValidatorsPerWithdrawalsSweep := 2 ^ 64 - 1 }

/-- Two validators without an execution credential and the cursor at the second. -/
def wideSweepState : BeaconState :=
  ⟨5, [⟨Vector.replicate 32 0, 32, 100, 3⟩, ⟨Vector.replicate 32 0, 32, 100, 3⟩], [32, 32], [],
    [], [], [], 0, 1, 0, Vector.replicate 32 0, Vector.replicate 32 0, by decide⟩

/-- Without the three conditions the application part fails: after an empty parent block the
validator keeps the 40 that the list withdraws from it; a state without validators keeps a cursor
that points at none; and a sweep width that overflows the cursor makes the block invalid. -/
theorem gloas_withdrawals_unapplied_or_cursor_invalid :
    (computeWithdrawalsGloas twoWithdrawalsSpec emptyParentState = .ok
      ⟨[⟨10, 0 ||| builderIndexFlag, [0xdd], 3⟩, ⟨11, 0, (Vector.replicate 32 1).toList.drop 12, 40⟩],
        1, 0, 0⟩ ∧
      processWithdrawalsGloas twoWithdrawalsSpec emptyParentState = .ok emptyParentState ∧
      emptyParentState.balances[0]? = some 40) ∧
    (computeWithdrawalsGloas twoWithdrawalsSpec noValidatorsState = .ok ⟨[], 0, 0, 0⟩ ∧
      ∃ state', processWithdrawalsGloas twoWithdrawalsSpec noValidatorsState = .ok state' ∧
        state'.validators = []) ∧
    computeWithdrawalsGloas wideSweepSpec wideSweepState = .ok ⟨[], 0, 0, 0⟩ ∧
    processWithdrawalsGloas wideSweepSpec wideSweepState = .error .arithError := by
  have hcompute : computeWithdrawalsGloas wideSweepSpec wideSweepState = .ok ⟨[], 0, 0, 0⟩ := rfl
  refine ⟨⟨rfl, rfl, rfl⟩, ⟨rfl, _, rfl, rfl⟩, hcompute, ?_⟩
  -- nothing is withdrawn, and every step keeps the state up to the cursor update, which overflows
  rw [processWithdrawalsGloas, if_neg (by decide), hcompute, Except.ok_bind]
  show updateNextWithdrawalValidatorIndex wideSweepSpec wideSweepState [] = .error .arithError
  unfold updateNextWithdrawalValidatorIndex
  rw [if_pos (by decide), if_neg (by decide)]
  have hoverflow : uCheckedAdd 64 wideSweepState.nextWithdrawalValidatorIndex
      wideSweepSpec.maxValidatorsPerWithdrawalsSweep = none := rfl
  rw [hoverflow]
  rfl

end WithdrawalList

end Vibehouse.Gloas.Withdrawals
