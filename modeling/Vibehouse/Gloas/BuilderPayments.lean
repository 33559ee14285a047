import Vibehouse.Lib.MachineInt
import Vibehouse.Lib.StateRun

/-! # Builder pending payments

`builder_pending_payments` of a Gloas state holds the payments of the bids of two epochs, at
index `SLOTS_PER_EPOCH + slot % SLOTS_PER_EPOCH` for a slot of the current epoch and
`slot % SLOTS_PER_EPOCH` for a slot of the previous one (`paymentIndex`). Four places compute
that index on their own:

* `process_execution_payload_bid` writes the payment of a bid, from the bid's slot;
* `process_execution_payload_envelope` queues and blanks it, from the state's slot;
* `process_attestation` adds the weight of a same-slot attestation, from its target epoch;
* `process_proposer_slashings` blanks the payment of a slashed proposal, from the epoch of the
  proposal.

At the end of each epoch `process_builder_pending_payments` queues the payments of the
previous epoch that reached the quorum and moves the current epoch's half down
(`rotatePayments`). Each index is shown to be `paymentIndex`, and the rotation to keep the index
of every slot that stays in the window. -/

namespace Vibehouse.Gloas

open MachineInt

/-- The preset's `SLOTS_PER_EPOCH`: positive, and small enough that the `2 * SLOTS_PER_EPOCH`
indices of the payments are `u64`s. -/
structure Preset where
  slotsPerEpoch : Nat
  slotsPerEpoch_pos : 0 < slotsPerEpoch
  slotsPerEpoch_lt : slotsPerEpoch < 2 ^ 63

namespace Preset

variable (p : Preset)

/-- `Slot::epoch`. -/
def epoch (slot : Nat) : Nat := slot / p.slotsPerEpoch

/-- The index of the payment of `slot` while the current epoch is `currentEpoch`, for a slot of
that epoch or the previous one. -/
def paymentIndex (currentEpoch slot : Nat) : Nat :=
  slot % p.slotsPerEpoch + if p.epoch slot = currentEpoch then p.slotsPerEpoch else 0

/-- The slots whose payments the array holds while the current epoch is `currentEpoch`. -/
def InWindow (currentEpoch slot : Nat) : Prop :=
  p.epoch slot = currentEpoch ∨ p.epoch slot + 1 = currentEpoch

end Preset

/-! ## The indices of the source -/

section Indices

variable (p : Preset)

/-- `SLOTS_PER_EPOCH + slot % SLOTS_PER_EPOCH`, computed with `safe_add` and `safe_rem`. -/
def upperPaymentIndex (slot : Nat) : Option Nat := do
  uCheckedAdd 64 p.slotsPerEpoch (← uCheckedRem slot p.slotsPerEpoch)

/-- `slot_index` of `process_execution_payload_bid`, of the bid's slot. -/
def bidSlotIndex (bidSlot : Nat) : Option Nat := upperPaymentIndex p bidSlot

/-- `payment_index` of `process_execution_payload_envelope`, of the state's slot. -/
def envelopePaymentIndex (stateSlot : Nat) : Option Nat := upperPaymentIndex p stateSlot

/-- `payment_slot_index` of a same-slot attestation in `process_attestation`: the upper half
when its target is the current epoch. -/
def attestationPaymentSlotIndex (dataSlot targetEpoch currentEpoch : Nat) : Option Nat := do
  let slotMod ← uCheckedRem dataSlot p.slotsPerEpoch
  if targetEpoch = currentEpoch then uCheckedAdd 64 p.slotsPerEpoch slotMod else pure slotMod

/-- `payment_index` of `process_proposer_slashings`, by the epoch of the proposal; none for a
proposal before the previous epoch. -/
def proposerSlashingPaymentIndex (slot currentEpoch : Nat) : Option (Option Nat) := do
  let proposalEpoch := p.epoch slot
  let previousEpoch := currentEpoch - 1
  let slotMod ← uCheckedRem slot p.slotsPerEpoch
  if proposalEpoch = currentEpoch then some <$> uCheckedAdd 64 p.slotsPerEpoch slotMod
  else if proposalEpoch = previousEpoch then pure (some slotMod)
  else pure none

end Indices

/-- The rotation of `process_builder_pending_payments`: entry `i + SLOTS_PER_EPOCH` moves to
`i` for `i < SLOTS_PER_EPOCH`, and every other entry becomes the default payment. -/
def rotatePayments {α : Type} (slotsPerEpoch : Nat) (default : α) (payments : List α) : List α :=
  (List.range payments.length).map fun i =>
    if i < slotsPerEpoch then
      let srcIdx := i + slotsPerEpoch
      if srcIdx < payments.length then payments.getD srcIdx default else default
    else default

/-! ## The payment updates -/

/-- `BuilderPendingWithdrawal`. -/
structure BuilderPendingWithdrawal where
  feeRecipient : Nat
  amount : Nat
  builderIndex : Nat
  deriving DecidableEq, Repr

/-- `BuilderPendingPayment`. -/
structure BuilderPendingPayment where
  weight : Nat
  withdrawal : BuilderPendingWithdrawal
  deriving DecidableEq, Repr

/-- `BuilderPendingPayment::default()`. -/
def BuilderPendingPayment.empty : BuilderPendingPayment := ⟨0, ⟨0, 0, 0⟩⟩

/-- The errors of the payment updates. -/
inductive PaymentError
  | arith
  | slotIndexOutOfBounds
  | builderPaymentIndexOutOfBounds
  | withdrawalsFull
  deriving DecidableEq, Repr

/-- A `safe_*` index as a payment error. -/
def liftIndex {α : Type} : Option α → Except PaymentError α
  | some a => .ok a
  | none => .error .arith

/-- `List::push` on `builder_pending_withdrawals`, which fails at the list's limit. -/
def pushWithdrawal (limit : Nat) (withdrawals : List BuilderPendingWithdrawal)
    (withdrawal : BuilderPendingWithdrawal) : Except PaymentError (List BuilderPendingWithdrawal) :=
  if withdrawals.length < limit then .ok (withdrawals ++ [withdrawal]) else .error .withdrawalsFull

section Updates

variable (p : Preset)

/-- The payment `process_execution_payload_bid` records: the withdrawal of a bid with a positive
amount, with no weight yet, at the index of the bid's slot. -/
def recordBidPayment (bidSlot feeRecipient amount builderIndex : Nat)
    (payments : List BuilderPendingPayment) : Except PaymentError (List BuilderPendingPayment) :=
  if amount > 0 then do
    let slotIndex ← liftIndex (bidSlotIndex p bidSlot)
    if slotIndex < payments.length then
      .ok (payments.set slotIndex ⟨0, ⟨feeRecipient, amount, builderIndex⟩⟩)
    else .error .slotIndexOutOfBounds
  else .ok payments

/-- "Queue the builder payment" of `process_execution_payload_envelope`: the payment of the
state's slot is queued if it has an amount, then blanked. -/
def queueBuilderPayment (limit stateSlot : Nat) (payments : List BuilderPendingPayment)
    (withdrawals : List BuilderPendingWithdrawal) :
    Except PaymentError (List BuilderPendingPayment × List BuilderPendingWithdrawal) := do
  let paymentIndex ← liftIndex (envelopePaymentIndex p stateSlot)
  let payment ← match payments[paymentIndex]? with
    | some payment => .ok payment
    | none => .error .builderPaymentIndexOutOfBounds
  let withdrawals ← if payment.withdrawal.amount > 0 then
      pushWithdrawal limit withdrawals payment.withdrawal
    else .ok withdrawals
  if paymentIndex < payments.length then
    .ok (payments.set paymentIndex .empty, withdrawals)
  else .error .builderPaymentIndexOutOfBounds

/-- The weight of a same-slot attestation that sets a new flag (`process_attestation`): the
attester's effective balance is added, saturating, to the payment of the slot if it has an
amount. -/
def addSameSlotWeight (dataSlot targetEpoch currentEpoch effectiveBalance : Nat)
    (payments : List BuilderPendingPayment) : Option (List BuilderPendingPayment) := do
  let paymentSlotIndex ← attestationPaymentSlotIndex p dataSlot targetEpoch currentEpoch
  pure <| match payments[paymentSlotIndex]? with
    | some payment =>
      if payment.withdrawal.amount > 0 then
        payments.set paymentSlotIndex
          { payment with weight := uSaturatingAdd 64 payment.weight effectiveBalance }
      else payments
    | none => payments

/-- The payment `process_proposer_slashings` removes for a slashed proposal of the two
epochs. -/
def removeProposerPayment (slot currentEpoch : Nat) (payments : List BuilderPendingPayment) :
    Option (List BuilderPendingPayment) := do
  match ← proposerSlashingPaymentIndex p slot currentEpoch with
  | some idx => pure (if idx < payments.length then payments.set idx .empty else payments)
  | none => pure payments

/-- `process_builder_pending_payments`, given its quorum: the payments of the previous epoch
that reached the quorum are queued, then the array rotates. -/
def processBuilderPendingPayments (limit quorum : Nat) (payments : List BuilderPendingPayment)
    (withdrawals : List BuilderPendingWithdrawal) :
    Except PaymentError (List BuilderPendingPayment × List BuilderPendingWithdrawal) := do
  let qualifying :=
    ((payments.take p.slotsPerEpoch).filter fun q => q.weight ≥ quorum).map (·.withdrawal)
  let withdrawals ← qualifying.foldlM (pushWithdrawal limit) withdrawals
  pure (rotatePayments p.slotsPerEpoch .empty payments, withdrawals)

end Updates

/-! ## Every index is the payment index -/

namespace Preset

variable (p : Preset)

theorem mod_lt (slot : Nat) : slot % p.slotsPerEpoch < p.slotsPerEpoch :=
  Nat.mod_lt _ p.slotsPerEpoch_pos

theorem paymentIndex_lt (currentEpoch slot : Nat) :
    p.paymentIndex currentEpoch slot < 2 * p.slotsPerEpoch := by
  have := p.mod_lt slot
  unfold paymentIndex
  split <;> omega

theorem uCheckedRem_slotsPerEpoch (slot : Nat) :
    uCheckedRem slot p.slotsPerEpoch = some (slot % p.slotsPerEpoch) :=
  uCheckedRem_eq_some.mpr ⟨Nat.pos_iff_ne_zero.mp p.slotsPerEpoch_pos, rfl⟩

theorem uCheckedAdd_slotsPerEpoch (slot : Nat) :
    uCheckedAdd 64 p.slotsPerEpoch (slot % p.slotsPerEpoch) =
      some (p.slotsPerEpoch + slot % p.slotsPerEpoch) := by
  have := p.mod_lt slot
  have := p.slotsPerEpoch_lt
  exact uCheckedAdd_eq_some.mpr ⟨by omega, rfl⟩

end Preset

section Agree

variable (p : Preset)

theorem upperPaymentIndex_eq (slot : Nat) :
    upperPaymentIndex p slot = some (slot % p.slotsPerEpoch + p.slotsPerEpoch) := by
  rw [upperPaymentIndex, p.uCheckedRem_slotsPerEpoch, Option.bind_eq_bind, Option.bind_some,
    p.uCheckedAdd_slotsPerEpoch, Nat.add_comm]

/-- A bid or an envelope of the current slot uses the payment index of that slot. -/
theorem upperPaymentIndex_eq_paymentIndex (slot : Nat) :
    upperPaymentIndex p slot = some (p.paymentIndex (p.epoch slot) slot) := by
  rw [upperPaymentIndex_eq, Preset.paymentIndex, if_pos rfl]

/-- A same-slot attestation, whose target is the epoch of its slot, uses the payment index of
its slot. -/
theorem attestationPaymentSlotIndex_eq (dataSlot currentEpoch : Nat) :
    attestationPaymentSlotIndex p dataSlot (p.epoch dataSlot) currentEpoch =
      some (p.paymentIndex currentEpoch dataSlot) := by
  simp only [attestationPaymentSlotIndex, p.uCheckedRem_slotsPerEpoch, Option.bind_eq_bind,
    Option.bind_some, Preset.paymentIndex]
  split
  · rw [p.uCheckedAdd_slotsPerEpoch, Nat.add_comm]
  · rw [Nat.add_zero]
    rfl

/-- A proposer slashing of a proposal in the window blanks the payment index of its slot. -/
theorem proposerSlashingPaymentIndex_eq {slot currentEpoch : Nat}
    (h : p.InWindow currentEpoch slot) :
    proposerSlashingPaymentIndex p slot currentEpoch =
      some (some (p.paymentIndex currentEpoch slot)) := by
  simp only [proposerSlashingPaymentIndex, p.uCheckedRem_slotsPerEpoch, Option.bind_eq_bind,
    Option.bind_some, Preset.paymentIndex]
  by_cases hcur : p.epoch slot = currentEpoch
  · rw [if_pos hcur, if_pos hcur, p.uCheckedAdd_slotsPerEpoch, Option.map_eq_map, Option.map_some,
      Nat.add_comm]
  · have hprev : p.epoch slot = currentEpoch - 1 := by
      unfold Preset.InWindow at h
      omega
    rw [if_neg hcur, if_pos hprev, if_neg hcur, Nat.add_zero]
    rfl

end Agree

/-! ## The rotation -/

section Rotation

variable {α : Type} {S : Nat} {d : α} {payments : List α}

@[simp] theorem length_rotatePayments : (rotatePayments S d payments).length = payments.length := by
  simp [rotatePayments]

/-- The current epoch's half moves down. -/
theorem getElem?_rotatePayments_lower (hlen : payments.length = 2 * S) {i : Nat} (hi : i < S) :
    (rotatePayments S d payments)[i]? = payments[S + i]? := by
  have hsrc : i + S < payments.length := by omega
  rw [rotatePayments, List.getElem?_map, List.getElem?_range (by omega), Option.map_some,
    if_pos hi, if_pos hsrc, List.getD_eq_getElem?_getD, Nat.add_comm i S,
    List.getElem?_eq_getElem (by omega : S + i < payments.length), Option.getD_some]

/-- The upper half is reset. -/
theorem getElem?_rotatePayments_upper (hlen : payments.length = 2 * S) {i : Nat} (hi : i < S) :
    (rotatePayments S d payments)[S + i]? = some d := by
  rw [rotatePayments, List.getElem?_map, List.getElem?_range (by omega), Option.map_some,
    if_neg (by omega)]

end Rotation

/-- Across the end of epoch `e`, a slot of epoch `e` keeps its payment: the rotated array holds
at the slot's new payment index what the old array held at the old one. -/
theorem getElem?_rotatePayments_paymentIndex (p : Preset) {α : Type} (d : α) {payments : List α}
    (hlen : payments.length = 2 * p.slotsPerEpoch) {e slot : Nat} (hs : p.epoch slot = e) :
    (rotatePayments p.slotsPerEpoch d payments)[p.paymentIndex (e + 1) slot]? =
      payments[p.paymentIndex e slot]? := by
  have hnext : p.paymentIndex (e + 1) slot = slot % p.slotsPerEpoch := by
    rw [Preset.paymentIndex, if_neg (by omega), Nat.add_zero]
  have hcur : p.paymentIndex e slot = p.slotsPerEpoch + slot % p.slotsPerEpoch := by
    rw [Preset.paymentIndex, if_pos hs, Nat.add_comm]
  rw [hnext, hcur, getElem?_rotatePayments_lower hlen (p.mod_lt slot)]

/-- The four payment indices of slot `s` at slot `t` agree: for a slot of the current or the
previous epoch they are all `s % SLOTS_PER_EPOCH`, plus `SLOTS_PER_EPOCH` in the current epoch,
within the `2 * SLOTS_PER_EPOCH` payments; and the rotation at the end of the epoch moves entry
`SLOTS_PER_EPOCH + i` to `i`, resets the upper half, and so keeps the payment of every slot of
the current epoch at that slot's index in the next. -/
theorem builder_payment_index_agrees (p : Preset) {t s : Nat} (hs : p.InWindow (p.epoch t) s) :
    (s = t →
      bidSlotIndex p s =
          some (s % p.slotsPerEpoch + if p.epoch s = p.epoch t then p.slotsPerEpoch else 0) ∧
        envelopePaymentIndex p t =
          some (s % p.slotsPerEpoch + if p.epoch s = p.epoch t then p.slotsPerEpoch else 0)) ∧
    attestationPaymentSlotIndex p s (p.epoch s) (p.epoch t) =
      some (s % p.slotsPerEpoch + if p.epoch s = p.epoch t then p.slotsPerEpoch else 0) ∧
    proposerSlashingPaymentIndex p s (p.epoch t) =
      some (some (s % p.slotsPerEpoch + if p.epoch s = p.epoch t then p.slotsPerEpoch else 0)) ∧
    (s % p.slotsPerEpoch + if p.epoch s = p.epoch t then p.slotsPerEpoch else 0) <
      2 * p.slotsPerEpoch ∧
    ∀ {α : Type} (d : α) (payments : List α), payments.length = 2 * p.slotsPerEpoch →
      (rotatePayments p.slotsPerEpoch d payments).length = 2 * p.slotsPerEpoch ∧
      (∀ i < p.slotsPerEpoch,
        (rotatePayments p.slotsPerEpoch d payments)[i]? = payments[p.slotsPerEpoch + i]? ∧
        (rotatePayments p.slotsPerEpoch d payments)[p.slotsPerEpoch + i]? = some d) ∧
      (p.epoch s = p.epoch t →
        (rotatePayments p.slotsPerEpoch d payments)[p.paymentIndex (p.epoch t + 1) s]? =
          payments[s % p.slotsPerEpoch + if p.epoch s = p.epoch t then p.slotsPerEpoch else 0]?) := by
  refine ⟨?_, attestationPaymentSlotIndex_eq p s (p.epoch t), proposerSlashingPaymentIndex_eq p hs,
    p.paymentIndex_lt (p.epoch t) s, fun d payments hlen => ⟨?_, fun i hi => ?_, fun he => ?_⟩⟩
  · rintro rfl
    exact ⟨upperPaymentIndex_eq_paymentIndex p s, upperPaymentIndex_eq_paymentIndex p s⟩
  · rw [length_rotatePayments, hlen]
  · exact ⟨getElem?_rotatePayments_lower hlen hi, getElem?_rotatePayments_upper hlen hi⟩
  · exact getElem?_rotatePayments_paymentIndex p d hlen he

/-- Slot 70 of mainnet's 32-slot epochs, at slot 100: the previous epoch, index `70 % 32 = 6`. -/
theorem builder_payment_index_agrees_mainnet :
    let p : Preset := ⟨32, by decide, by decide⟩
    p.InWindow (p.epoch 100) 70 ∧
    ((70 = 100 →
      bidSlotIndex p 70 =
          some (70 % p.slotsPerEpoch + if p.epoch 70 = p.epoch 100 then p.slotsPerEpoch else 0) ∧
        envelopePaymentIndex p 100 =
          some (70 % p.slotsPerEpoch + if p.epoch 70 = p.epoch 100 then p.slotsPerEpoch else 0)) ∧
    attestationPaymentSlotIndex p 70 (p.epoch 70) (p.epoch 100) =
      some (70 % p.slotsPerEpoch + if p.epoch 70 = p.epoch 100 then p.slotsPerEpoch else 0) ∧
    proposerSlashingPaymentIndex p 70 (p.epoch 100) =
      some (some (70 % p.slotsPerEpoch + if p.epoch 70 = p.epoch 100 then p.slotsPerEpoch else 0)) ∧
    (70 % p.slotsPerEpoch + if p.epoch 70 = p.epoch 100 then p.slotsPerEpoch else 0) <
      2 * p.slotsPerEpoch ∧
    ∀ {α : Type} (d : α) (payments : List α), payments.length = 2 * p.slotsPerEpoch →
      (rotatePayments p.slotsPerEpoch d payments).length = 2 * p.slotsPerEpoch ∧
      (∀ i < p.slotsPerEpoch,
        (rotatePayments p.slotsPerEpoch d payments)[i]? = payments[p.slotsPerEpoch + i]? ∧
        (rotatePayments p.slotsPerEpoch d payments)[p.slotsPerEpoch + i]? = some d) ∧
      (p.epoch 70 = p.epoch 100 →
        (rotatePayments p.slotsPerEpoch d payments)[p.paymentIndex (p.epoch 100 + 1) 70]? =
          payments[70 % p.slotsPerEpoch + if p.epoch 70 = p.epoch 100 then p.slotsPerEpoch else 0]?)) :=
  ⟨Or.inr rfl, builder_payment_index_agrees _ (Or.inr rfl)⟩

end Vibehouse.Gloas
