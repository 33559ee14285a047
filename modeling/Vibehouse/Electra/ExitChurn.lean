import Vibehouse.Lib.MachineInt
import Vibehouse.Lib.StateRun

/-! # The exit churn of Electra

`BeaconState::compute_exit_epoch_and_update_churn` (`consensus/types/src/beacon_state.rs`)
gives an exiting validator of effective balance `exit_balance` the earliest epoch whose churn
still has room for it, and records the room left in that epoch in `exit_balance_to_consume`.
Single-pass epoch processing (`per_epoch_processing/single_pass.rs`) has its own copy, over a
`StateContext` and the two fields held outside the state during the pass. The block that adds
whole epochs of churn when the exit does not fit is the same text in both (`fitExit`). All
arithmetic is the `safe_*` arithmetic of `u64`: it fails on overflow, underflow and division
by zero.

The state here is the fields of `BeaconState` these functions read and write: the fork, the
current epoch, the total active balance cache and the two churn fields. Of `StateContext` only
the current epoch and the total active balance are read. -/

namespace Vibehouse.Electra

open MachineInt

/-- `ForkName`, for the variant checks of `BeaconState`. -/
inductive ForkName
  | base | altair | bellatrix | capella | deneb | electra | fulu | gloas | heze
  deriving DecidableEq, Repr

/-- The variants that have the Electra churn fields. -/
def ForkName.electraEnabled : ForkName → Bool
  | base | altair | bellatrix | capella | deneb => false
  | electra | fulu | gloas | heze => true

/-- The constants of `ChainSpec` that the churn reads. -/
structure ChurnSpec where
  maxSeedLookahead : Nat
  minPerEpochChurnLimitElectra : Nat
  churnLimitQuotient : Nat
  effectiveBalanceIncrement : Nat
  maxPerEpochActivationExitChurnLimit : Nat
  deriving DecidableEq, Repr

/-- The `BeaconStateError`s of these functions. -/
inductive Error
  | arith
  | incorrectStateVariant
  | totalActiveBalanceCacheUninitialized
  | totalActiveBalanceCacheInconsistent
  deriving DecidableEq, Repr

/-- A `safe_*` result, with `ArithError` as a `BeaconStateError`. -/
def liftArith {α : Type} : Option α → Except Error α
  | some a => .ok a
  | none => .error .arith

/-- The fields of `BeaconState` read and written here. The total active balance cache holds
the epoch it was computed for and the balance. -/
structure ChurnState where
  fork : ForkName
  currentEpoch : Nat
  totalActiveBalance : Option (Nat × Nat)
  earliestExitEpoch : Nat
  exitBalanceToConsume : Nat
  deriving DecidableEq, Repr

/-- The fields of single-pass `StateContext` read here. -/
structure StateContext where
  currentEpoch : Nat
  totalActiveBalance : Nat
  deriving DecidableEq, Repr

section Spec

variable (spec : ChurnSpec)

/-- `ChainSpec::compute_activation_exit_epoch`. -/
def computeActivationExitEpoch (epoch : Nat) : Option Nat := do
  let e ← uCheckedAdd 64 epoch 1
  uCheckedAdd 64 e spec.maxSeedLookahead

/-- `get_balance_churn_limit`, of the total active balance: the churn rounded down to whole
increments. -/
def getBalanceChurnLimit (totalActiveBalance : Nat) : Option Nat := do
  let churn :=
    max spec.minPerEpochChurnLimitElectra (← uCheckedDiv totalActiveBalance spec.churnLimitQuotient)
  uCheckedSub churn (← uCheckedRem churn spec.effectiveBalanceIncrement)

/-- `get_activation_exit_churn_limit`, of the total active balance. -/
def getActivationExitChurnLimit (totalActiveBalance : Nat) : Option Nat := do
  return min spec.maxPerEpochActivationExitChurnLimit (← getBalanceChurnLimit spec totalActiveBalance)

end Spec

/-- "Exit doesn't fit in the current earliest epoch": whole epochs of churn are added to the
earliest exit epoch and to the balance to consume until the exit fits. The new
`(earliest_exit_epoch, exit_balance_to_consume)`, before the exit is consumed. -/
def fitExit (exitBalance earliestExitEpoch exitBalanceToConsume perEpochChurn : Nat) :
    Option (Nat × Nat) :=
  if exitBalance > exitBalanceToConsume then do
    let balanceToProcess ← uCheckedSub exitBalance exitBalanceToConsume
    let additionalEpochs ←
      uCheckedAdd 64 (← uCheckedDiv (← uCheckedSub balanceToProcess 1) perEpochChurn) 1
    let earliestExitEpoch ← uCheckedAdd 64 earliestExitEpoch additionalEpochs
    let exitBalanceToConsume ←
      uCheckedAdd 64 exitBalanceToConsume (← uCheckedMul 64 additionalEpochs perEpochChurn)
    pure (earliestExitEpoch, exitBalanceToConsume)
  else pure (earliestExitEpoch, exitBalanceToConsume)

section Spec

variable (spec : ChurnSpec)

/-- `single_pass::compute_exit_epoch_and_update_churn`: the exit epoch, and the new
`(earliest_exit_epoch, exit_balance_to_consume)` written back. -/
def computeExitEpochAndUpdateChurn (ctxt : StateContext)
    (exitBalance earliestExitEpochState exitBalanceToConsumeState : Nat) :
    Option (Nat × Nat × Nat) := do
  let earliestExitEpoch :=
    max earliestExitEpochState (← computeActivationExitEpoch spec ctxt.currentEpoch)
  let perEpochChurn ← getActivationExitChurnLimit spec ctxt.totalActiveBalance
  -- New epoch for exits
  let exitBalanceToConsume :=
    if earliestExitEpochState < earliestExitEpoch then perEpochChurn else exitBalanceToConsumeState
  let (earliestExitEpoch, exitBalanceToConsume) ←
    fitExit exitBalance earliestExitEpoch exitBalanceToConsume perEpochChurn
  -- Consume the balance and update state variables
  let exitBalanceToConsumeState ← uCheckedSub exitBalanceToConsume exitBalance
  pure (earliestExitEpoch, earliestExitEpoch, exitBalanceToConsumeState)

namespace ChurnState

variable (s : ChurnState)

/-- The superstruct getter `earliest_exit_epoch()`, an error before Electra. -/
def getEarliestExitEpoch : Except Error Nat :=
  if s.fork.electraEnabled then .ok s.earliestExitEpoch else .error .incorrectStateVariant

/-- The superstruct getter `exit_balance_to_consume()`, an error before Electra. -/
def getExitBalanceToConsume : Except Error Nat :=
  if s.fork.electraEnabled then .ok s.exitBalanceToConsume else .error .incorrectStateVariant

/-- `BeaconState::get_total_active_balance`: the cached balance, if computed for the current
epoch. -/
def getTotalActiveBalance : Except Error Nat :=
  match s.totalActiveBalance with
  | none => .error .totalActiveBalanceCacheUninitialized
  | some (initializedEpoch, balance) =>
    if initializedEpoch = s.currentEpoch then .ok balance
    else .error .totalActiveBalanceCacheInconsistent

/-- `BeaconState::compute_exit_epoch_and_update_churn`. -/
def computeExitEpochAndUpdateChurn (exitBalance : Nat) : Except Error (Nat × ChurnState) := do
  let earliestExitEpoch :=
    max (← s.getEarliestExitEpoch) (← liftArith (computeActivationExitEpoch spec s.currentEpoch))
  let perEpochChurn ← liftArith (getActivationExitChurnLimit spec (← s.getTotalActiveBalance))
  -- New epoch for exits
  let exitBalanceToConsume ←
    if (← s.getEarliestExitEpoch) < earliestExitEpoch then pure perEpochChurn
    else s.getExitBalanceToConsume
  let (earliestExitEpoch, exitBalanceToConsume) ←
    liftArith (fitExit exitBalance earliestExitEpoch exitBalanceToConsume perEpochChurn)
  if s.fork.electraEnabled then
    -- Consume the balance and update state variables
    let s' := { s with
      exitBalanceToConsume := ← liftArith (uCheckedSub exitBalanceToConsume exitBalance)
      earliestExitEpoch := earliestExitEpoch }
    pure (← s'.getEarliestExitEpoch, s')
  else .error .incorrectStateVariant

end ChurnState

end Spec

/-! ## Fitting one exit -/

/-- Whole epochs of churn cover the part `d` of an exit that does not fit, with less than one
epoch of churn to spare. -/
theorem additionalEpochs_mul_bounds {d P : Nat} (hd : 0 < d) (hP : 0 < P) :
    d ≤ ((d - 1) / P + 1) * P ∧ ((d - 1) / P + 1) * P < d + P := by
  have hdiv := Nat.div_add_mod (d - 1) P
  have hmod := Nat.mod_lt (d - 1) hP
  rw [Nat.add_mul, Nat.one_mul, Nat.mul_comm]
  generalize P * ((d - 1) / P) = m at *
  omega

section FitExit

variable {b e x P e' x' : Nat}

/-- What `fitExit` can do: nothing when the exit fits, or add the epochs of churn it needs. -/
theorem fitExit_cases (h : fitExit b e x P = some (e', x')) :
    (b ≤ x ∧ e' = e ∧ x' = x) ∨
      (x < b ∧ 0 < P ∧ e' = e + ((b - x - 1) / P + 1) ∧ x' = x + ((b - x - 1) / P + 1) * P) := by
  by_cases hb : b > x
  · simp only [fitExit, if_pos hb, Option.bind_eq_bind, Option.bind_eq_some_iff,
      uCheckedSub_eq_some, uCheckedDiv_eq_some, uCheckedAdd_eq_some, uCheckedMul_eq_some,
      Option.pure_def, Option.some.injEq, Prod.mk.injEq] at h
    obtain ⟨_, ⟨-, rfl⟩, _, ⟨-, rfl⟩, _, ⟨hP, rfl⟩, _, ⟨-, rfl⟩, _, ⟨-, rfl⟩, _, ⟨-, rfl⟩, _,
      ⟨-, rfl⟩, rfl, rfl⟩ := h
    exact .inr ⟨hb, Nat.pos_of_ne_zero hP, rfl, rfl⟩
  · simp only [fitExit, if_neg hb, Option.pure_def, Option.some.injEq, Prod.mk.injEq] at h
    exact .inl ⟨Nat.le_of_not_gt hb, h.1.symm, h.2.symm⟩

/-- After `fitExit` the exit fits: the final subtraction cannot fail. -/
theorem le_of_fitExit (h : fitExit b e x P = some (e', x')) : b ≤ x' := by
  rcases fitExit_cases h with ⟨hb, -, rfl⟩ | ⟨hb, hP, -, rfl⟩
  · exact hb
  · have := (additionalEpochs_mul_bounds (Nat.sub_pos_of_lt hb) hP).1
    omega

theorem le_of_fitExit_epoch (h : fitExit b e x P = some (e', x')) : e ≤ e' := by
  rcases fitExit_cases h with ⟨-, rfl, -⟩ | ⟨-, -, rfl, -⟩
  · exact Nat.le_refl _
  · exact Nat.le_add_right e _

/-- The balance to consume grows by one epoch of churn for each epoch added. -/
theorem consume_of_fitExit (h : fitExit b e x P = some (e', x')) : x' = x + (e' - e) * P := by
  rcases fitExit_cases h with ⟨-, rfl, rfl⟩ | ⟨-, -, rfl, rfl⟩
  · simp
  · rw [Nat.add_sub_cancel_left]

/-- The room left after the exit is at most one epoch of churn. -/
theorem sub_le_of_fitExit (h : fitExit b e x P = some (e', x')) (hx : x ≤ P) : x' - b ≤ P := by
  rcases fitExit_cases h with ⟨-, -, rfl⟩ | ⟨hb, hP, -, rfl⟩
  · omega
  · have := (additionalEpochs_mul_bounds (Nat.sub_pos_of_lt hb) hP).2
    omega

end FitExit

/-! ## One call -/

section Call

variable {spec : ChurnSpec} {ctxt : StateContext} {b E X e E' X' : Nat}

/-- What a call of the single-pass copy that returns does. -/
theorem computeExitEpochAndUpdateChurn_eq_some
    (h : computeExitEpochAndUpdateChurn spec ctxt b E X = some (e, E', X')) :
    ∃ A P x', computeActivationExitEpoch spec ctxt.currentEpoch = some A ∧
      getActivationExitChurnLimit spec ctxt.totalActiveBalance = some P ∧
      fitExit b (max E A) (if E < max E A then P else X) P = some (e, x') ∧
      E' = e ∧ X' = x' - b := by
  simp only [computeExitEpochAndUpdateChurn, Option.bind_eq_bind, Option.bind_eq_some_iff,
    uCheckedSub_eq_some, Option.pure_def, Option.some.injEq, Prod.mk.injEq] at h
  obtain ⟨A, hA, P, hP, ⟨e₁, x'⟩, hfit, _, ⟨-, rfl⟩, rfl, rfl, rfl⟩ := h
  exact ⟨A, P, x', hA, hP, hfit, rfl, rfl⟩

/-- The call returns as soon as everything before the final subtraction does: that
subtraction never fails. -/
theorem computeExitEpochAndUpdateChurn_of_fitExit {A P x' : Nat}
    (hA : computeActivationExitEpoch spec ctxt.currentEpoch = some A)
    (hP : getActivationExitChurnLimit spec ctxt.totalActiveBalance = some P)
    (hfit : fitExit b (max E A) (if E < max E A then P else X) P = some (e, x')) :
    computeExitEpochAndUpdateChurn spec ctxt b E X = some (e, e, x' - b) := by
  have hsub : uCheckedSub x' b = some (x' - b) := uCheckedSub_of_le (le_of_fitExit hfit)
  simp only [computeExitEpochAndUpdateChurn, Option.bind_eq_bind, hA, hP, Option.bind_some,
    hfit, hsub, Option.pure_def]

end Call

@[simp] theorem liftArith_some {α : Type} (a : α) : liftArith (some a) = .ok a := rfl

@[simp] theorem liftArith_none {α : Type} : liftArith (none : Option α) = .error .arith := rfl

namespace ChurnState

variable {spec : ChurnSpec} {s : ChurnState}

theorem getEarliestExitEpoch_of_electraEnabled (h : s.fork.electraEnabled = true) :
    s.getEarliestExitEpoch = .ok s.earliestExitEpoch := by
  rw [getEarliestExitEpoch, if_pos h]

theorem getExitBalanceToConsume_of_electraEnabled (h : s.fork.electraEnabled = true) :
    s.getExitBalanceToConsume = .ok s.exitBalanceToConsume := by
  rw [getExitBalanceToConsume, if_pos h]

theorem getTotalActiveBalance_of_cache {tab : Nat}
    (h : s.totalActiveBalance = some (s.currentEpoch, tab)) : s.getTotalActiveBalance = .ok tab := by
  simp [getTotalActiveBalance, h]

/-- The method of `BeaconState` and the single-pass copy agree on an Electra state whose total
active balance cache is the one of the context: same errors, same exit epoch, and the same two
fields written back. -/
theorem computeExitEpochAndUpdateChurn_toOption {b tab : Nat} (hfork : s.fork.electraEnabled = true)
    (hcache : s.totalActiveBalance = some (s.currentEpoch, tab)) :
    (s.computeExitEpochAndUpdateChurn spec b).toOption =
      (Electra.computeExitEpochAndUpdateChurn spec ⟨s.currentEpoch, tab⟩ b s.earliestExitEpoch
        s.exitBalanceToConsume).map fun (e, E', X') =>
          (e, { s with earliestExitEpoch := E', exitBalanceToConsume := X' }) := by
  have hE := getEarliestExitEpoch_of_electraEnabled hfork
  have hX := getExitBalanceToConsume_of_electraEnabled hfork
  have hT := getTotalActiveBalance_of_cache hcache
  simp only [computeExitEpochAndUpdateChurn, Electra.computeExitEpochAndUpdateChurn, hE, hX, hT,
    hfork, Except.ok_bind, if_true]
  rcases computeActivationExitEpoch spec s.currentEpoch with _ | A
  · rfl
  rcases getActivationExitChurnLimit spec tab with _ | P
  · rfl
  simp only [liftArith_some, Except.ok_bind, Option.bind_eq_bind, Option.bind_some]
  -- the balance to consume is the churn of a new exit epoch or the stored one; the rest of the
  -- two bodies is the same
  have hrest : ∀ X₀ : Nat,
      (do
        let x ← liftArith (fitExit b (max s.earliestExitEpoch A) X₀ P)
        let c ← liftArith (uCheckedSub x.2 b)
        let e ← ({ s with earliestExitEpoch := x.1, exitBalanceToConsume := c } : ChurnState).getEarliestExitEpoch
        pure (e, ({ s with earliestExitEpoch := x.1, exitBalanceToConsume := c } : ChurnState))).toOption =
      Option.map (fun x => (x.1, { s with earliestExitEpoch := x.2.1, exitBalanceToConsume := x.2.2 }))
        ((fitExit b (max s.earliestExitEpoch A) X₀ P).bind fun x =>
          (uCheckedSub x.2 b).bind fun c => pure (x.1, x.1, c)) := by
    intro X₀
    rcases fitExit b (max s.earliestExitEpoch A) X₀ P with _ | ⟨e, x'⟩
    · rfl
    simp only [liftArith_some, Except.ok_bind, Option.bind_some]
    rcases uCheckedSub x' b with _ | c
    · rfl
    simp only [getEarliestExitEpoch, hfork, if_true, Except.ok_bind]
    rfl
  by_cases hnew : s.earliestExitEpoch < max s.earliestExitEpoch A
  · simp only [if_pos hnew, pure_bind]
    exact hrest P
  · simp only [if_neg hnew]
    exact hrest s.exitBalanceToConsume

end ChurnState

/-! ## The exits of one epoch -/

/-- A state within the epoch `cur` whose total active balance `tab` is cached. -/
structure InEpoch (cur tab : Nat) (s : ChurnState) : Prop where
  electra : s.fork.electraEnabled = true
  currentEpoch : s.currentEpoch = cur
  cache : s.totalActiveBalance = some (cur, tab)

/-- The exits of one epoch, one call after another: the exit balance and exit epoch of each call
that returned, and the state after the last call. A call that fails leaves the state as it
was. -/
def ChurnState.exitQueue (spec : ChurnSpec) : ChurnState → List Nat → List (Nat × Nat) × ChurnState
  | s, [] => ([], s)
  | s, b :: bs =>
    match s.computeExitEpochAndUpdateChurn spec b with
    | .ok (e, s') => ((b, e) :: (exitQueue spec s' bs).1, (exitQueue spec s' bs).2)
    | .error _ => exitQueue spec s bs

/-- The churn available for exits up to epoch `E` from state `s`, in an epoch whose
activation-exit epoch is `A` and whose churn is `P`: nothing before the first epoch that exits
can take, the room left in it, and one epoch of churn for each later epoch. -/
def churnAvailable (A P : Nat) (s : ChurnState) (E : Nat) : Nat :=
  if E < max s.earliestExitEpoch A then 0
  else (if s.earliestExitEpoch < max s.earliestExitEpoch A then P else s.exitBalanceToConsume) +
    (E - max s.earliestExitEpoch A) * P

section Epoch

variable {spec : ChurnSpec} {cur tab A P : Nat}
  (hA : computeActivationExitEpoch spec cur = some A)
  (hP : getActivationExitChurnLimit spec tab = some P)
include hA hP

/-- One call that returns: the exit fitted from the first epoch exits can take. -/
theorem InEpoch.call {s s' : ChurnState} {b e : Nat} (hs : InEpoch cur tab s)
    (h : s.computeExitEpochAndUpdateChurn spec b = .ok (e, s')) :
    ∃ x', fitExit b (max s.earliestExitEpoch A)
        (if s.earliestExitEpoch < max s.earliestExitEpoch A then P else s.exitBalanceToConsume) P =
        some (e, x') ∧
      s' = { s with earliestExitEpoch := e, exitBalanceToConsume := x' - b } := by
  have hcache : s.totalActiveBalance = some (s.currentEpoch, tab) := by
    rw [hs.currentEpoch]
    exact hs.cache
  have heq := @ChurnState.computeExitEpochAndUpdateChurn_toOption spec s b tab hs.electra hcache
  rw [h] at heq
  obtain ⟨⟨e₁, E', X'⟩, hsingle, hres⟩ := Option.map_eq_some_iff.mp heq.symm
  obtain ⟨A', P', x', hA', hP', hfit, rfl, rfl⟩ := computeExitEpochAndUpdateChurn_eq_some hsingle
  rw [hs.currentEpoch, hA] at hA'
  rw [hP] at hP'
  cases hA'
  cases hP'
  cases hres
  exact ⟨x', hfit, rfl⟩

/-- A call whose exit fits returns: the final subtraction of the method never fails. -/
theorem InEpoch.call_of_fitExit {s : ChurnState} {b e x' : Nat} (hs : InEpoch cur tab s)
    (hfit : fitExit b (max s.earliestExitEpoch A)
      (if s.earliestExitEpoch < max s.earliestExitEpoch A then P else s.exitBalanceToConsume) P =
      some (e, x')) :
    s.computeExitEpochAndUpdateChurn spec b =
      .ok (e, { s with earliestExitEpoch := e, exitBalanceToConsume := x' - b }) := by
  have hcache : s.totalActiveBalance = some (s.currentEpoch, tab) := by
    rw [hs.currentEpoch]
    exact hs.cache
  have heq := @ChurnState.computeExitEpochAndUpdateChurn_toOption spec s b tab hs.electra hcache
  rw [computeExitEpochAndUpdateChurn_of_fitExit (hs.currentEpoch ▸ hA) hP hfit, Option.map_some] at heq
  revert heq
  cases s.computeExitEpochAndUpdateChurn spec b with
  | error _ => exact fun h => nomatch h
  | ok r => exact fun h => congrArg Except.ok (Option.some.inj h)

/-- A call keeps the state within the epoch. -/
theorem InEpoch.of_call {s s' : ChurnState} {b e : Nat} (hs : InEpoch cur tab s)
    (h : s.computeExitEpochAndUpdateChurn spec b = .ok (e, s')) : InEpoch cur tab s' := by
  obtain ⟨x', -, rfl⟩ := hs.call hA hP h
  exact ⟨hs.electra, hs.currentEpoch, hs.cache⟩

/-- The exit epoch of a call is the new earliest exit epoch, no earlier than the first epoch
exits could take before the call. -/
theorem InEpoch.exitEpoch_of_call {s s' : ChurnState} {b e : Nat} (hs : InEpoch cur tab s)
    (h : s.computeExitEpochAndUpdateChurn spec b = .ok (e, s')) :
    max s.earliestExitEpoch A ≤ e ∧ s'.earliestExitEpoch = e := by
  obtain ⟨x', hfit, rfl⟩ := hs.call hA hP h
  exact ⟨le_of_fitExit_epoch hfit, rfl⟩

/-- A call leaves at most one epoch of churn to consume. -/
theorem InEpoch.consume_le_of_call {s s' : ChurnState} {b e : Nat} (hs : InEpoch cur tab s)
    (h : s.computeExitEpochAndUpdateChurn spec b = .ok (e, s')) (hx : s.exitBalanceToConsume ≤ P) :
    s'.exitBalanceToConsume ≤ P := by
  obtain ⟨x', hfit, rfl⟩ := hs.call hA hP h
  refine sub_le_of_fitExit hfit ?_
  split
  · exact Nat.le_refl P
  · exact hx

/-- A call takes its exit balance out of the churn available up to any epoch from its exit epoch
on. -/
theorem InEpoch.churnAvailable_of_call {s s' : ChurnState} {b e : Nat} (hs : InEpoch cur tab s)
    (h : s.computeExitEpochAndUpdateChurn spec b = .ok (e, s')) {E : Nat} (hE : e ≤ E) :
    b + churnAvailable A P s' E = churnAvailable A P s E := by
  obtain ⟨x', hfit, rfl⟩ := hs.call hA hP h
  have he := le_of_fitExit_epoch hfit
  have hb := le_of_fitExit hfit
  have hx := consume_of_fitExit hfit
  have hmax : max e A = e := Nat.max_eq_left (Nat.le_trans (Nat.le_max_right _ _) he)
  simp only [churnAvailable]
  rw [hmax, if_neg (Nat.not_lt.mpr hE), if_neg (Nat.lt_irrefl e),
    if_neg (Nat.not_lt.mpr (Nat.le_trans he hE))]
  -- the epochs before `e` were paid for by the epochs of churn `fitExit` added
  have hsplit : E - max s.earliestExitEpoch A = (e - max s.earliestExitEpoch A) + (E - e) := by
    omega
  rw [hsplit, Nat.add_mul]
  omega

end Epoch

namespace ChurnState

variable {spec : ChurnSpec} {s s' : ChurnState} {b e : Nat} {bs : List Nat}

theorem exitQueue_cons_of_ok (h : s.computeExitEpochAndUpdateChurn spec b = .ok (e, s')) :
    s.exitQueue spec (b :: bs) = ((b, e) :: (s'.exitQueue spec bs).1, (s'.exitQueue spec bs).2) := by
  rw [exitQueue, h]

theorem exitQueue_cons_of_error {err : Error}
    (h : s.computeExitEpochAndUpdateChurn spec b = .error err) :
    s.exitQueue spec (b :: bs) = s.exitQueue spec bs := by
  rw [exitQueue, h]

/-- Two exits from a fresh epoch: the first fits in the activation-exit epoch `15`; the second
needs two more epochs of churn `152`. -/
example : (exitQueue ⟨4, 128, 65536, 1, 256⟩ ⟨.electra, 10, some (10, 10000000), 0, 0⟩
    [32, 300]).1 = [(32, 15), (300, 17)] := by decide

end ChurnState

section Queue

variable {spec : ChurnSpec} {cur tab A P : Nat}
  (hA : computeActivationExitEpoch spec cur = some A)
  (hP : getActivationExitChurnLimit spec tab = some P)
include hA hP

open ChurnState

/-- Every exit of the queue takes an epoch no earlier than the first epoch exits could take at
its start. -/
theorem le_of_mem_exitQueue :
    ∀ {s : ChurnState} (bs : List Nat), InEpoch cur tab s →
      ∀ p ∈ (s.exitQueue spec bs).1, max s.earliestExitEpoch A ≤ p.2
  | _, [], _ => fun _ hp => nomatch hp
  | s, b :: bs, hs => by
    rcases hc : s.computeExitEpochAndUpdateChurn spec b with err | ⟨e, s'⟩
    · rw [exitQueue_cons_of_error hc]
      exact le_of_mem_exitQueue bs hs
    · rw [exitQueue_cons_of_ok hc]
      obtain ⟨he, hs'e⟩ := hs.exitEpoch_of_call hA hP hc
      intro p hp
      rcases List.mem_cons.mp hp with rfl | hp
      · exact he
      · have := le_of_mem_exitQueue bs (hs.of_call hA hP hc) p hp
        rw [hs'e] at this
        exact Nat.le_trans he (Nat.le_trans (Nat.le_max_left _ _) this)

/-- The exit epochs of the queue never decrease. -/
theorem pairwise_exitQueue :
    ∀ {s : ChurnState} (bs : List Nat), InEpoch cur tab s →
      (s.exitQueue spec bs).1.Pairwise fun p q => p.2 ≤ q.2
  | _, [], _ => List.Pairwise.nil
  | s, b :: bs, hs => by
    rcases hc : s.computeExitEpochAndUpdateChurn spec b with err | ⟨e, s'⟩
    · rw [exitQueue_cons_of_error hc]
      exact pairwise_exitQueue bs hs
    · rw [exitQueue_cons_of_ok hc]
      have hs' := hs.of_call hA hP hc
      refine List.Pairwise.cons (fun q hq => ?_) (pairwise_exitQueue bs hs')
      have := le_of_mem_exitQueue hA hP bs hs' q hq
      rw [(hs.exitEpoch_of_call hA hP hc).2] at this
      exact Nat.le_trans (Nat.le_max_left _ _) this

/-- The balance left to consume stays within one epoch of churn. -/
theorem consume_le_exitQueue :
    ∀ {s : ChurnState} (bs : List Nat), InEpoch cur tab s → s.exitBalanceToConsume ≤ P →
      (s.exitQueue spec bs).2.exitBalanceToConsume ≤ P
  | _, [], _, hx => hx
  | s, b :: bs, hs, hx => by
    rcases hc : s.computeExitEpochAndUpdateChurn spec b with err | ⟨e, s'⟩
    · rw [exitQueue_cons_of_error hc]
      exact consume_le_exitQueue bs hs hx
    · rw [exitQueue_cons_of_ok hc]
      exact consume_le_exitQueue bs (hs.of_call hA hP hc) (hs.consume_le_of_call hA hP hc hx)

/-- The exits given an epoch up to `E` take no more than the churn available up to `E`. -/
theorem sum_le_churnAvailable :
    ∀ {s : ChurnState} (bs : List Nat), InEpoch cur tab s → ∀ E,
      (((s.exitQueue spec bs).1.filter fun p => p.2 ≤ E).map (·.1)).sum ≤ churnAvailable A P s E
  | _, [], _, _ => Nat.zero_le _
  | s, b :: bs, hs, E => by
    rcases hc : s.computeExitEpochAndUpdateChurn spec b with err | ⟨e, s'⟩
    · rw [exitQueue_cons_of_error hc]
      exact sum_le_churnAvailable bs hs E
    · rw [exitQueue_cons_of_ok hc]
      have hs' := hs.of_call hA hP hc
      obtain ⟨-, hs'e⟩ := hs.exitEpoch_of_call hA hP hc
      by_cases hE : e ≤ E
      · -- this exit counts, and the later ones count against what it left
        rw [List.filter_cons_of_pos (by simpa using hE), List.map_cons, List.sum_cons,
          ← hs.churnAvailable_of_call hA hP hc hE]
        exact Nat.add_le_add_left (sum_le_churnAvailable bs hs' E) b
      · -- this exit and all later ones take epochs after `E`
        have hnone : ((s'.exitQueue spec bs).1.filter fun p => p.2 ≤ E) = [] := by
          rw [List.filter_eq_nil_iff]
          intro q hq
          have := le_of_mem_exitQueue hA hP bs hs' q hq
          rw [hs'e] at this
          simp only [decide_eq_true_eq]
          omega
        rw [List.filter_cons_of_neg (by simpa using hE), hnone]
        exact Nat.zero_le _

end Queue

/-- The exit churn rate limit. Within one epoch of an Electra state whose churn is `P`, starting
with at most `P` left to consume: a call fails, if at all, before its final subtraction; the
exit epochs given never decrease and are never before the activation-exit epoch `A`; at most
`P` is left to consume after every call; and the exits given an epoch up to `E` take no more
than the churn available up to `E`. The single-pass copy agrees with the method on every
input. -/
theorem exit_churn_rate_limit {spec : ChurnSpec} {s : ChurnState} {tab A P : Nat}
    (hs : InEpoch s.currentEpoch tab s)
    (hA : computeActivationExitEpoch spec s.currentEpoch = some A)
    (hP : getActivationExitChurnLimit spec tab = some P) (hx : s.exitBalanceToConsume ≤ P)
    (bs : List Nat) :
    (∀ (t : ChurnState) (b e x' : Nat), InEpoch s.currentEpoch tab t →
      fitExit b (max t.earliestExitEpoch A)
          (if t.earliestExitEpoch < max t.earliestExitEpoch A then P else t.exitBalanceToConsume)
          P = some (e, x') →
        t.computeExitEpochAndUpdateChurn spec b =
          .ok (e, { t with earliestExitEpoch := e, exitBalanceToConsume := x' - b })) ∧
    (s.exitQueue spec bs).1.Pairwise (fun p q => p.2 ≤ q.2) ∧
    (∀ p ∈ (s.exitQueue spec bs).1, A ≤ p.2) ∧
    (s.exitQueue spec bs).2.exitBalanceToConsume ≤ P ∧
    (∀ E, (((s.exitQueue spec bs).1.filter fun p => p.2 ≤ E).map (·.1)).sum ≤
      churnAvailable A P s E) ∧
    ∀ (t : ChurnState) (b tab' : Nat), t.fork.electraEnabled = true →
      t.totalActiveBalance = some (t.currentEpoch, tab') →
        (t.computeExitEpochAndUpdateChurn spec b).toOption =
          (computeExitEpochAndUpdateChurn spec ⟨t.currentEpoch, tab'⟩ b t.earliestExitEpoch
            t.exitBalanceToConsume).map fun (e, E', X') =>
              (e, { t with earliestExitEpoch := E', exitBalanceToConsume := X' }) := by
  refine ⟨fun t b e x' ht hfit => ht.call_of_fitExit hA hP hfit, pairwise_exitQueue hA hP bs hs,
    fun p hp => ?_, consume_le_exitQueue hA hP bs hs hx, sum_le_churnAvailable hA hP bs hs,
    fun t b tab' hfork hcache => ChurnState.computeExitEpochAndUpdateChurn_toOption hfork hcache⟩
  exact Nat.le_trans (Nat.le_max_right _ _) (le_of_mem_exitQueue hA hP bs hs p hp)

theorem exit_churn_rate_limit_two_exits :
    let spec : ChurnSpec := ⟨4, 128, 65536, 1, 256⟩
    let s : ChurnState := ⟨.electra, 10, some (10, 10000000), 0, 0⟩
    InEpoch s.currentEpoch 10000000 s ∧ computeActivationExitEpoch spec s.currentEpoch = some 15 ∧
    getActivationExitChurnLimit spec 10000000 = some 152 ∧
    ((∀ (t : ChurnState) (b e x' : Nat), InEpoch s.currentEpoch 10000000 t →
      fitExit b (max t.earliestExitEpoch 15)
          (if t.earliestExitEpoch < max t.earliestExitEpoch 15 then 152
            else t.exitBalanceToConsume) 152 = some (e, x') →
        t.computeExitEpochAndUpdateChurn spec b =
          .ok (e, { t with earliestExitEpoch := e, exitBalanceToConsume := x' - b })) ∧
    (s.exitQueue spec [32, 300]).1.Pairwise (fun p q => p.2 ≤ q.2) ∧
    (∀ p ∈ (s.exitQueue spec [32, 300]).1, 15 ≤ p.2) ∧
    (s.exitQueue spec [32, 300]).2.exitBalanceToConsume ≤ 152 ∧
    (∀ E, (((s.exitQueue spec [32, 300]).1.filter fun p => p.2 ≤ E).map (·.1)).sum ≤
      churnAvailable 15 152 s E) ∧
    ∀ (t : ChurnState) (b tab' : Nat), t.fork.electraEnabled = true →
      t.totalActiveBalance = some (t.currentEpoch, tab') →
        (t.computeExitEpochAndUpdateChurn spec b).toOption =
          (computeExitEpochAndUpdateChurn spec ⟨t.currentEpoch, tab'⟩ b t.earliestExitEpoch
            t.exitBalanceToConsume).map fun (e, E', X') =>
              (e, { t with earliestExitEpoch := E', exitBalanceToConsume := X' })) :=
  ⟨⟨rfl, rfl, rfl⟩, by decide, by decide,
    exit_churn_rate_limit ⟨rfl, rfl, rfl⟩ (by decide) (by decide) (Nat.zero_le _) [32, 300]⟩

end Vibehouse.Electra
