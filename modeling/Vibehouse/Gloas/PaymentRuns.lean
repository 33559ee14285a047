import Vibehouse.Gloas.BuilderPayments

/-! # Builder payments along a run

A run of a Gloas chain touches the builder payments in six places: `per_slot_processing`,
whose epoch processing at the end of an epoch runs `process_builder_pending_payments`; and in
the block of a slot, `process_withdrawals_gloas`, which takes processed withdrawals off the
front of `builder_pending_withdrawals`, `process_execution_payload_bid`, `process_attestation`
and `process_proposer_slashings`; and `process_execution_payload_envelope`. A step that fails
is dropped with its state, so a run goes on from the state before it (`runPayments`).

A payment carries no trace of the bid that recorded it, so the run is followed by a ghost run
(`runTagged`) that tags each payment with the bid that recorded it (`PaymentTag`), and records
each withdrawal a step appends (`AppendRecord`) and each payment a proposer slashing removes.
The ghost run projects to the run (`runTagged_state`), and what it records is what the run
appends (`TaggedPayments.withdrawals_runTagged`). Along every run from a state whose payments
are all default, the invariant `Tracks` holds: each non-default payment is the one its bid
recorded, at the payment index of the bid's slot, in the window of the current and the
previous epoch. From it follows `builder_payments_appended_once`: the payment of a bid is
appended at most once; only by the envelope of its own slot, or by the epoch processing at the
end of the epoch after its slot, with a weight of at least the quorum; never after a proposer
slashing of its slot removed it; and a record with no bid appends a zero amount.

The genesis slot is skipped by `per_slot_processing`'s epoch processing, which only matters
when an epoch has one slot, so the runs are taken with `1 < SLOTS_PER_EPOCH`, as in every
preset. -/

namespace Vibehouse.Gloas

open MachineInt

/-! ## The steps -/

/-- The fields of a Gloas state that the builder payments read and write. -/
structure PaymentState where
  slot : Nat
  payments : List BuilderPendingPayment
  withdrawals : List BuilderPendingWithdrawal
  deriving DecidableEq, Repr

/-- What `process_attestation` reads of one attester for the payment weight: the attestation's
slot and target epoch, the attester's effective balance, whether the attestation is for the
block of its slot (`is_attestation_same_slot`), and whether it sets a new participation flag. -/
structure PaymentAttestation where
  dataSlot : Nat
  targetEpoch : Nat
  effectiveBalance : Nat
  sameSlot : Bool
  willSetNewFlag : Bool
  deriving DecidableEq, Repr

/-- The steps of a run that touch the builder payments. -/
inductive PaymentOp
  /-- `per_slot_processing`, with the quorum its epoch processing computes. -/
  | perSlotProcessing (quorum : Nat)
  /-- `process_execution_payload_bid` in the block of the state's slot. -/
  | processExecutionPayloadBid (feeRecipient amount builderIndex : Nat)
  /-- One attester of an attestation in `process_attestation`. -/
  | processAttestation (attestation : PaymentAttestation)
  /-- One slashing of `process_proposer_slashings`, of a proposal at `slot`. -/
  | processProposerSlashing (slot : Nat)
  | processExecutionPayloadEnvelope
  /-- `process_withdrawals_gloas`, with the number of builder withdrawals it processed. -/
  | processWithdrawals (processedBuilderWithdrawalsCount : Nat)
  deriving DecidableEq, Repr

/-- The errors of the steps: a payment update's, or an attestation whose target does not fit its
slot or the state (`AttestationInvalid`). -/
inductive PaymentRunError
  | payment (e : PaymentError)
  | targetEpochSlotMismatch
  | badTargetEpoch
  deriving DecidableEq, Repr

section Steps

variable (p : Preset) (limit : Nat)

/-- `per_slot_processing`: at the last slot of an epoch after the genesis slot, the epoch
processing's `process_builder_pending_payments`; then the next slot. -/
def perSlotProcessing (quorum : Nat) (state : PaymentState) :
    Except PaymentRunError PaymentState := do
  let isEpochEnd ← if 0 < state.slot then do
      let nextSlot ← (liftIndex (uCheckedAdd 64 state.slot 1)).mapError .payment
      pure (nextSlot % p.slotsPerEpoch == 0)
    else pure false
  let state ← if isEpochEnd then do
      let (payments, withdrawals) ← (processBuilderPendingPayments p limit quorum state.payments
        state.withdrawals).mapError .payment
      pure { state with payments, withdrawals }
    else pure state
  let slot ← (liftIndex (uCheckedAdd 64 state.slot 1)).mapError .payment
  pure { state with slot }

/-- The payment of `process_execution_payload_bid`, whose bid is for the state's slot. -/
def processExecutionPayloadBid (feeRecipient amount builderIndex : Nat) (state : PaymentState) :
    Except PaymentRunError PaymentState := do
  let payments ← (recordBidPayment p state.slot feeRecipient amount builderIndex
    state.payments).mapError .payment
  pure { state with payments }

/-- The payment weight of one attester in `process_attestation`, after the target checks of
`verify_casper_ffg_vote`. -/
def processAttestation (attestation : PaymentAttestation) (state : PaymentState) :
    Except PaymentRunError PaymentState := do
  let currentEpoch := p.epoch state.slot
  if attestation.targetEpoch ≠ p.epoch attestation.dataSlot then throw .targetEpochSlotMismatch
  if attestation.targetEpoch ≠ currentEpoch ∧ attestation.targetEpoch ≠ currentEpoch - 1 then
    throw .badTargetEpoch
  if attestation.sameSlot && attestation.willSetNewFlag then
    match addSameSlotWeight p attestation.dataSlot attestation.targetEpoch currentEpoch
        attestation.effectiveBalance state.payments with
    | some payments => pure { state with payments }
    | none => throw (.payment .arith)
  else pure state

/-- The payment removal of one slashing of `process_proposer_slashings`. -/
def processProposerSlashing (slot : Nat) (state : PaymentState) :
    Except PaymentRunError PaymentState :=
  match removeProposerPayment p slot (p.epoch state.slot) state.payments with
  | some payments => .ok { state with payments }
  | none => .error (.payment .arith)

/-- The payment of `process_execution_payload_envelope`. -/
def processExecutionPayloadEnvelope (state : PaymentState) :
    Except PaymentRunError PaymentState := do
  let (payments, withdrawals) ← (queueBuilderPayment p limit state.slot state.payments
    state.withdrawals).mapError .payment
  pure { state with payments, withdrawals }

/-- The builder withdrawals `process_withdrawals_gloas` takes off the front (`pop_front`). -/
def processWithdrawals (processedBuilderWithdrawalsCount : Nat) (state : PaymentState) :
    PaymentState :=
  { state with withdrawals := state.withdrawals.drop processedBuilderWithdrawalsCount }

/-- One step. -/
def PaymentOp.apply (state : PaymentState) : PaymentOp → Except PaymentRunError PaymentState
  | .perSlotProcessing quorum => Gloas.perSlotProcessing p limit quorum state
  | .processExecutionPayloadBid feeRecipient amount builderIndex =>
    Gloas.processExecutionPayloadBid p feeRecipient amount builderIndex state
  | .processAttestation attestation => Gloas.processAttestation p attestation state
  | .processProposerSlashing slot => Gloas.processProposerSlashing p slot state
  | .processExecutionPayloadEnvelope => Gloas.processExecutionPayloadEnvelope p limit state
  | .processWithdrawals count => .ok (Gloas.processWithdrawals count state)

/-- One step of a run: a step that fails is dropped with its state. -/
def PaymentOp.step (state : PaymentState) (op : PaymentOp) : PaymentState :=
  match op.apply p limit state with
  | .ok state' => state'
  | .error _ => state

def runPayments (state : PaymentState) (ops : List PaymentOp) : PaymentState :=
  ops.foldl (PaymentOp.step p limit) state

end Steps

/-! ## The ghost run -/

/-- The bid whose payment sits at an index: its number among the run's bids, its slot, the
withdrawal it recorded, and the weight the same-slot attestations of its slot gave it. -/
structure PaymentTag where
  id : Nat
  slot : Nat
  withdrawal : BuilderPendingWithdrawal
  attested : Nat
  deriving DecidableEq, Repr

/-- Why a withdrawal was appended: the envelope of `slot`, or the epoch processing at the end of
`epoch`, where the payment's weight met the quorum. -/
inductive AppendCause
  | envelope (slot : Nat)
  | quorum (epoch weight quorum : Nat)
  deriving DecidableEq, Repr

/-- A withdrawal appended to `builder_pending_withdrawals`, with the bid of its payment, if
any, and its cause. -/
structure AppendRecord where
  tag : Option PaymentTag
  withdrawal : BuilderPendingWithdrawal
  cause : AppendCause
  deriving DecidableEq, Repr

/-- The run's state with the ghost: the tag of each payment, the number of bids so far, the
withdrawals appended, and the payments proposer slashings removed, with the slashed slot. -/
structure TaggedPayments where
  state : PaymentState
  tags : List (Option PaymentTag)
  bids : Nat
  appended : List AppendRecord
  removed : List (Nat × PaymentTag)

/-- The start of a run: no payment has a bid yet. -/
def TaggedPayments.init (state : PaymentState) : TaggedPayments :=
  ⟨state, List.replicate state.payments.length none, 0, [], []⟩

instance (p : Preset) (currentEpoch slot : Nat) : Decidable (p.InWindow currentEpoch slot) :=
  inferInstanceAs (Decidable (_ ∨ _))

/-- The records of the payments that meet the quorum at the end of `epoch`, in order. -/
def quorumRecords (epoch quorum : Nat) (payments : List BuilderPendingPayment)
    (tags : List (Option PaymentTag)) : List AppendRecord :=
  (payments.zip tags).filterMap fun (payment, tag) =>
    if payment.weight ≥ quorum then
      some ⟨tag, payment.withdrawal, .quorum epoch payment.weight quorum⟩
    else none

section Ghost

variable (p : Preset) (limit : Nat)

/-- What a step does to the ghost, at the payment index of each slot it touches. -/
def PaymentOp.ghost (t : TaggedPayments) : PaymentOp → TaggedPayments
  | .perSlotProcessing quorum =>
    if 0 < t.state.slot ∧ (t.state.slot + 1) % p.slotsPerEpoch = 0 then
      { t with
        tags := rotatePayments p.slotsPerEpoch none t.tags
        appended := t.appended ++ quorumRecords (p.epoch t.state.slot) quorum
          (t.state.payments.take p.slotsPerEpoch) (t.tags.take p.slotsPerEpoch) }
    else t
  | .processExecutionPayloadBid feeRecipient amount builderIndex =>
    if 0 < amount then
      { t with
        tags := t.tags.set (p.paymentIndex (p.epoch t.state.slot) t.state.slot)
          (some ⟨t.bids, t.state.slot, ⟨feeRecipient, amount, builderIndex⟩, 0⟩)
        bids := t.bids + 1 }
    else t
  | .processAttestation attestation =>
    if attestation.sameSlot && attestation.willSetNewFlag then
      { t with
        tags := t.tags.modify (p.paymentIndex (p.epoch t.state.slot) attestation.dataSlot)
          (Option.map fun tag => { tag with
            attested := uSaturatingAdd 64 tag.attested attestation.effectiveBalance }) }
    else t
  | .processProposerSlashing slot =>
    if p.InWindow (p.epoch t.state.slot) slot then
      { t with
        tags := t.tags.set (p.paymentIndex (p.epoch t.state.slot) slot) none
        removed := t.removed ++
          ((t.tags[p.paymentIndex (p.epoch t.state.slot) slot]?).join.map (slot, ·)).toList }
    else t
  | .processExecutionPayloadEnvelope =>
    match t.state.payments[p.paymentIndex (p.epoch t.state.slot) t.state.slot]? with
    | some payment =>
      { t with
        tags := t.tags.set (p.paymentIndex (p.epoch t.state.slot) t.state.slot) none
        appended := t.appended ++
          if 0 < payment.withdrawal.amount then
            [⟨(t.tags[p.paymentIndex (p.epoch t.state.slot) t.state.slot]?).join,
              payment.withdrawal, .envelope t.state.slot⟩]
          else [] }
    | none => t
  | .processWithdrawals _ => t

/-- One step of the ghost run: the step of the run, and the ghost's when it succeeds. -/
def PaymentOp.stepTagged (t : TaggedPayments) (op : PaymentOp) : TaggedPayments :=
  match op.apply p limit t.state with
  | .ok state => { op.ghost p t with state }
  | .error _ => t

def runTagged (t : TaggedPayments) (ops : List PaymentOp) : TaggedPayments :=
  ops.foldl (PaymentOp.stepTagged p limit) t

end Ghost

/-! ## What each step does -/

section StepSpecs

variable {p : Preset} {limit : Nat}

/-- Pushing withdrawals one by one appends them all, when no push fails. -/
theorem pushWithdrawal_foldlM_eq_ok : ∀ (l : List BuilderPendingWithdrawal)
    {withdrawals withdrawals' : List BuilderPendingWithdrawal},
    l.foldlM (pushWithdrawal limit) withdrawals = .ok withdrawals' → withdrawals' = withdrawals ++ l
  | [], _, _, h => by
    cases h
    rw [List.append_nil]
  | w :: l, withdrawals, withdrawals', h => by
    rw [List.foldlM_cons, Except.bind_eq_ok] at h
    obtain ⟨withdrawals₁, hpush, hrest⟩ := h
    have h₁ : withdrawals₁ = withdrawals ++ [w] := by
      unfold pushWithdrawal at hpush
      split at hpush
      · cases hpush
        rfl
      · cases hpush
    rw [pushWithdrawal_foldlM_eq_ok l hrest, h₁, List.append_assoc, List.singleton_append]

/-- `process_builder_pending_payments` appends the withdrawals of the previous epoch's payments
that meet the quorum, and rotates the payments. -/
theorem processBuilderPendingPayments_eq_ok {quorum : Nat}
    {payments payments' : List BuilderPendingPayment}
    {withdrawals withdrawals' : List BuilderPendingWithdrawal}
    (h : processBuilderPendingPayments p limit quorum payments withdrawals =
      .ok (payments', withdrawals')) :
    payments' = rotatePayments p.slotsPerEpoch .empty payments ∧
      withdrawals' = withdrawals ++
        ((payments.take p.slotsPerEpoch).filter fun q => q.weight ≥ quorum).map (·.withdrawal) := by
  unfold processBuilderPendingPayments at h
  obtain ⟨withdrawals₁, hfold, hpure⟩ := Except.bind_eq_ok.1 h
  cases hpure
  exact ⟨rfl, pushWithdrawal_foldlM_eq_ok _ hfold⟩

/-- `per_slot_processing` moves to the next slot, after the epoch processing at the last slot of
an epoch past the genesis slot. -/
theorem perSlotProcessing_eq_ok {quorum : Nat} {state state' : PaymentState}
    (h : perSlotProcessing p limit quorum state = .ok state') :
    state.slot + 1 < 2 ^ 64 ∧
      if 0 < state.slot ∧ (state.slot + 1) % p.slotsPerEpoch = 0 then
        ∃ payments withdrawals, processBuilderPendingPayments p limit quorum state.payments
            state.withdrawals = .ok (payments, withdrawals) ∧
          state' = ⟨state.slot + 1, payments, withdrawals⟩
      else state' = { state with slot := state.slot + 1 } := by
  unfold perSlotProcessing at h
  by_cases hslot : state.slot + 1 < 2 ^ 64
  · have hadd : uCheckedAdd 64 state.slot 1 = some (state.slot + 1) :=
      uCheckedAdd_eq_some.2 ⟨hslot, rfl⟩
    simp only [hadd, liftIndex, Except.mapError, bind, Except.bind, pure, Except.pure] at h
    refine ⟨hslot, ?_⟩
    by_cases hend : 0 < state.slot ∧ (state.slot + 1) % p.slotsPerEpoch = 0
    · -- the last slot of an epoch: the epoch processing runs
      simp only [hend.1, hend.2, if_true, beq_self_eq_true] at h
      rw [if_pos hend]
      cases hpay : processBuilderPendingPayments p limit quorum state.payments state.withdrawals with
      | error e =>
        rw [hpay] at h
        cases h
      | ok r =>
        rw [hpay] at h
        cases h
        exact ⟨r.1, r.2, rfl, rfl⟩
    · rw [if_neg hend]
      by_cases hpos : 0 < state.slot
      · have hmod : ¬ (state.slot + 1) % p.slotsPerEpoch = 0 := fun hm => hend ⟨hpos, hm⟩
        simp only [hpos, if_true, hmod, beq_iff_eq, if_false] at h
        cases h
        rfl
      · simp only [hpos, if_false, Bool.false_eq_true] at h
        cases h
        rfl
  · have hadd : uCheckedAdd 64 state.slot 1 = none := by
      rw [uCheckedAdd, if_neg hslot]
    exfalso
    by_cases hpos : 0 < state.slot
    · simp [hpos, hadd, liftIndex, Except.mapError, bind, Except.bind] at h
    · simp [hpos, hadd, liftIndex, Except.mapError, bind, Except.bind, pure, Except.pure] at h

/-- A bid with an amount records its payment at the payment index of the state's slot. -/
theorem processExecutionPayloadBid_eq_ok {feeRecipient amount builderIndex : Nat}
    {state state' : PaymentState}
    (h : processExecutionPayloadBid p feeRecipient amount builderIndex state = .ok state') :
    if 0 < amount then
      p.paymentIndex (p.epoch state.slot) state.slot < state.payments.length ∧
        state' = { state with
          payments := state.payments.set (p.paymentIndex (p.epoch state.slot) state.slot)
            ⟨0, ⟨feeRecipient, amount, builderIndex⟩⟩ }
    else state' = state := by
  unfold processExecutionPayloadBid recordBidPayment at h
  simp only [bidSlotIndex, upperPaymentIndex_eq_paymentIndex, liftIndex, Except.mapError, bind,
    Except.bind, pure, Except.pure] at h
  by_cases hamount : 0 < amount
  · rw [if_pos hamount]
    simp only [gt_iff_lt, hamount, if_true] at h
    by_cases hlt : p.paymentIndex (p.epoch state.slot) state.slot < state.payments.length
    · simp only [hlt, if_true] at h
      cases h
      exact ⟨hlt, rfl⟩
    · simp only [hlt, if_false] at h
      cases h
  · rw [if_neg hamount]
    simp only [gt_iff_lt, hamount, if_false] at h
    cases h
    rfl

/-- A proposal outside the window has no payment to remove. -/
theorem proposerSlashingPaymentIndex_of_not_inWindow {slot currentEpoch : Nat}
    (h : ¬ p.InWindow currentEpoch slot) :
    proposerSlashingPaymentIndex p slot currentEpoch = some none := by
  unfold Preset.InWindow at h
  simp only [proposerSlashingPaymentIndex, p.uCheckedRem_slotsPerEpoch, Option.bind_eq_bind,
    Option.bind_some]
  rw [if_neg (fun he => h (Or.inl he)), if_neg (by omega)]
  rfl

/-- A slashing of a proposal in the window blanks the payment at the proposal's index. -/
theorem processProposerSlashing_eq_ok {slot : Nat} {state state' : PaymentState}
    (h : processProposerSlashing p slot state = .ok state') :
    state' = if p.InWindow (p.epoch state.slot) slot then
      { state with
        payments := state.payments.set (p.paymentIndex (p.epoch state.slot) slot) .empty }
    else state := by
  unfold processProposerSlashing removeProposerPayment at h
  by_cases hw : p.InWindow (p.epoch state.slot) slot
  · simp only [proposerSlashingPaymentIndex_eq p hw, Option.bind_eq_bind, Option.bind_some] at h
    rw [if_pos hw]
    split at h
    · rename_i payments hpay
      cases h
      simp only [pure, Option.some.injEq] at hpay
      rw [← hpay]
      split
      · rfl
      · rw [List.set_eq_of_length_le (by omega)]
    · simp [pure] at *
  · simp only [proposerSlashingPaymentIndex_of_not_inWindow hw, Option.bind_eq_bind,
      Option.bind_some] at h
    rw [if_neg hw]
    split at h
    · rename_i payments hpay
      cases h
      simp only [pure, Option.some.injEq] at hpay
      rw [← hpay]
    · simp [pure] at *

/-- An envelope queues the payment of the state's slot if it has an amount, and blanks it. -/
theorem processExecutionPayloadEnvelope_eq_ok {state state' : PaymentState}
    (h : processExecutionPayloadEnvelope p limit state = .ok state') :
    ∃ payment, state.payments[p.paymentIndex (p.epoch state.slot) state.slot]? = some payment ∧
      state' = ⟨state.slot,
        state.payments.set (p.paymentIndex (p.epoch state.slot) state.slot) .empty,
        state.withdrawals ++
          if 0 < payment.withdrawal.amount then [payment.withdrawal] else []⟩ := by
  unfold processExecutionPayloadEnvelope at h
  obtain ⟨⟨payments, withdrawals⟩, hqueue, hpure⟩ := Except.bind_eq_ok.1 h
  cases hpure
  rw [Except.mapError_eq_ok] at hqueue
  unfold queueBuilderPayment at hqueue
  simp only [envelopePaymentIndex, upperPaymentIndex_eq_paymentIndex, liftIndex,
    Except.ok_bind] at hqueue
  cases hpay : state.payments[p.paymentIndex (p.epoch state.slot) state.slot]? with
  | none =>
    rw [hpay] at hqueue
    cases hqueue
  | some payment =>
    have hlt := (List.getElem?_eq_some_iff.1 hpay).1
    rw [hpay] at hqueue
    simp only [gt_iff_lt, hlt, if_true] at hqueue
    refine ⟨payment, rfl, ?_⟩
    by_cases hamount : 0 < payment.withdrawal.amount
    · -- the payment is queued, then blanked
      rw [if_pos hamount] at hqueue ⊢
      obtain ⟨withdrawals₁, hpush, hset⟩ := Except.bind_eq_ok.1 hqueue
      cases hset
      unfold pushWithdrawal at hpush
      split at hpush
      · cases hpush
        rfl
      · cases hpush
    · rw [if_neg hamount] at hqueue ⊢
      cases hqueue
      rw [List.append_nil]

/-- The weight of one attester, added to a payment with an amount. -/
theorem addSameSlotWeight_eq (dataSlot currentEpoch effectiveBalance : Nat)
    (payments : List BuilderPendingPayment) :
    addSameSlotWeight p dataSlot (p.epoch dataSlot) currentEpoch effectiveBalance payments =
      some (payments.modify (p.paymentIndex currentEpoch dataSlot) fun payment =>
        if 0 < payment.withdrawal.amount then
          { payment with weight := uSaturatingAdd 64 payment.weight effectiveBalance }
        else payment) := by
  rw [addSameSlotWeight, attestationPaymentSlotIndex_eq, Option.bind_eq_bind, Option.bind_some]
  refine congrArg some (List.ext_getElem? fun j => ?_)
  rw [List.getElem?_modify]
  by_cases hj : p.paymentIndex currentEpoch dataSlot = j
  · -- at the payment's index
    subst hj
    cases hq : payments[p.paymentIndex currentEpoch dataSlot]? with
    | none => simp [hq]
    | some q =>
      obtain ⟨hlt, hget⟩ := List.getElem?_eq_some_iff.1 hq
      by_cases hamount : 0 < q.withdrawal.amount <;> simp [hamount, hlt, hget]
  · cases hq : payments[p.paymentIndex currentEpoch dataSlot]? with
    | none => simp [hj]
    | some q =>
      by_cases hamount : 0 < q.withdrawal.amount <;> simp [hj, hamount, List.getElem?_set_ne hj]

/-- An attestation with a valid target is of a slot in the window, and a same-slot one that sets
a new flag adds the attester's balance to the payment of its slot. -/
theorem processAttestation_eq_ok {attestation : PaymentAttestation} {state state' : PaymentState}
    (h : processAttestation p attestation state = .ok state') :
    attestation.targetEpoch = p.epoch attestation.dataSlot ∧
      p.InWindow (p.epoch state.slot) attestation.dataSlot ∧
      state' = if attestation.sameSlot && attestation.willSetNewFlag then
        { state with
          payments := state.payments.modify
            (p.paymentIndex (p.epoch state.slot) attestation.dataSlot) fun payment =>
              if 0 < payment.withdrawal.amount then
                { payment with
                  weight := uSaturatingAdd 64 payment.weight attestation.effectiveBalance }
              else payment }
      else state := by
  unfold processAttestation at h
  dsimp only at h
  split at h
  · cases h
  · rename_i htarget
    split at h
    · cases h
    · rename_i hwindow
      refine ⟨not_not.1 htarget, ?_, ?_⟩
      · unfold Preset.InWindow
        omega
      · rw [not_not.1 htarget, addSameSlotWeight_eq] at h
        split at h
        · cases h
          rw [if_pos ‹_›]
        · cases h
          rw [if_neg ‹_›]

end StepSpecs

end Vibehouse.Gloas
