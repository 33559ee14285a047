import Vibehouse.Gloas.BuilderPayments
import Vibehouse.Lib.FixedVector

/-! # The PTC window

A Gloas state caches the payload timeliness committees of `2 + MIN_SEED_LOOKAHEAD` epochs in
`ptc_window`, `SLOTS_PER_EPOCH` entries for each: the previous epoch, the current one and the
lookahead. Three functions agree on where a slot's committee sits:

* `initialize_ptc_window`, called by `upgrade_to_gloas`, zero-fills the previous epoch and runs
  `compute_ptc` for every slot of the others;
* `process_ptc_window`, at the end of each epoch, shifts the window down by one epoch and
  computes the epoch `current + MIN_SEED_LOOKAHEAD + 1` with `compute_ptc_from_committees`;
* `get_ptc_committee` reads it, with a branch of its own for the previous epoch.

`Layout` says where the committee of each slot sits (`windowIndex`); both writers keep it, and the
reader returns what it says. Slots and epochs are natural numbers: the `safe_*` operations of
the three functions on them fail only within a few epochs of `u64::MAX`. -/

namespace Vibehouse.Gloas

/-- The Gloas preset with the sizes of the PTC window: `PtcWindowSlots` of the preset is the
previous epoch, the current one and `min_seed_lookahead` more. -/
structure PtcPreset extends Preset where
  minSeedLookahead : Nat
  ptcSize : Nat
  ptcWindowSlots : Nat
  ptcWindowSlots_eq : ptcWindowSlots = (2 + minSeedLookahead) * slotsPerEpoch

/-- `MinimalEthSpec`: eight slots an epoch, a committee of two, a window of `U24`. -/
def PtcPreset.minimal : PtcPreset :=
  ⟨⟨8, Nat.succ_pos 7, by decide⟩, 1, 2, 24, rfl⟩

/-- `vec![0u64; ptc_size]`, the committee of a slot without one. -/
def PtcPreset.emptyPtc (p : PtcPreset) : List Nat := List.replicate p.ptcSize 0

/-! ## The source -/

section Source

variable (p : PtcPreset)

/-- The slots of the loops of `initialize_ptc_window`, in order: slot `i` of epoch
`current_epoch + e`, for the current epoch and the `MIN_SEED_LOOKAHEAD` after it. -/
def lookaheadSlots (currentEpoch : Nat) : List Nat :=
  (List.range (1 + p.minSeedLookahead)).flatMap fun e =>
    (List.range p.slotsPerEpoch).map fun i => (currentEpoch + e) * p.slotsPerEpoch + i

/-- `initialize_ptc_window` on the upgraded state, whose epoch is `currentEpoch`; `computePtc
slot` is `compute_ptc(state, slot)`, none for its errors. -/
def initializePtcWindow (currentEpoch : Nat) (computePtc : Nat → Option (List Nat)) :
    Option (List (List Nat)) := do
  -- previous epoch: `FixedVector::new(vec![0u64; ptc_size])`, which cannot fail
  let previous := List.replicate p.slotsPerEpoch p.emptyPtc
  let lookahead ← (lookaheadSlots p currentEpoch).mapM fun slot =>
    match computePtc slot with
    | some ptc => FixedVector.new p.ptcSize ptc
    | none => FixedVector.new p.ptcSize p.emptyPtc
  FixedVector.new p.ptcWindowSlots (previous ++ lookahead)

/-- The errors of `compute_ptc_from_committees` that `process_ptc_window` tells apart. -/
inductive PtcComputeError
  | noActiveValidators
  | other
  deriving DecidableEq, Repr

/-- `process_ptc_window` at the end of epoch `currentEpoch`: `committeeCache epoch` is
`CommitteeCache::initialized` for `epoch`, and `computePtcFromCommittees cache slot` is
`compute_ptc_from_committees(state, slot, spec, cache)`. None for every error. -/
def processPtcWindow {C : Type} (currentEpoch : Nat) (committeeCache : Nat → Option C)
    (computePtcFromCommittees : C → Nat → Except PtcComputeError (List Nat))
    (ptcWindow : List (List Nat)) : Option (List (List Nat)) := do
  let shifted ← (List.range' p.slotsPerEpoch (p.ptcWindowSlots - p.slotsPerEpoch)).mapM
    fun i => ptcWindow[i]?
  let nextEpoch := currentEpoch + p.minSeedLookahead + 1
  let lookaheadCache ← committeeCache nextEpoch
  let startSlot := nextEpoch * p.slotsPerEpoch
  let newPtcs ← (List.range p.slotsPerEpoch).mapM fun i =>
    match computePtcFromCommittees lookaheadCache (startSlot + i) with
    | .ok ptc => FixedVector.new p.ptcSize ptc
    | .error .noActiveValidators => FixedVector.new p.ptcSize p.emptyPtc
    | .error .other => none
  let ptcWindow := FixedVector.writeFrom 0 shifted ptcWindow
  let lastEpochStart := p.ptcWindowSlots - p.slotsPerEpoch
  pure (FixedVector.writeFrom lastEpochStart newPtcs ptcWindow)

/-- `BeaconStateError::EpochOutOfBounds`, the one error of `get_ptc_committee` on a Gloas
state. -/
inductive PtcWindowError
  | epochOutOfBounds
  deriving DecidableEq, Repr

/-- `get_ptc_committee` on a Gloas state whose epoch is `stateEpoch`. -/
def getPtcCommittee (stateEpoch slot : Nat) (ptcWindow : List (List Nat)) :
    Except PtcWindowError (List Nat) := do
  let epoch := p.epoch slot
  let index ← if epoch < stateEpoch then
      -- previous epoch lookup
      if epoch + 1 ≠ stateEpoch then throw .epochOutOfBounds
      else pure (slot % p.slotsPerEpoch)
    else
      let maxEpoch := stateEpoch + p.minSeedLookahead
      if epoch > maxEpoch then throw .epochOutOfBounds
      else pure ((epoch - stateEpoch + 1) * p.slotsPerEpoch + slot % p.slotsPerEpoch)
  match ptcWindow[index]? with
  | some entry => pure entry
  | none => throw .epochOutOfBounds

end Source

/-! ## Where a slot's committee sits -/

namespace PtcPreset

variable (p : PtcPreset)

/-- The slots whose committees the window of a state at `stateEpoch` holds: those of the
epochs `stateEpoch - 1` to `stateEpoch + MIN_SEED_LOOKAHEAD`. -/
def Cached (stateEpoch slot : Nat) : Prop :=
  stateEpoch ≤ p.epoch slot + 1 ∧ p.epoch slot ≤ stateEpoch + p.minSeedLookahead

instance (stateEpoch slot : Nat) : Decidable (p.Cached stateEpoch slot) :=
  inferInstanceAs (Decidable (_ ∧ _))

/-- The entry of the window that holds the committee of `slot`: one epoch of entries for each
epoch from the previous one. -/
def windowIndex (stateEpoch slot : Nat) : Nat :=
  (p.epoch slot + 1 - stateEpoch) * p.slotsPerEpoch + slot % p.slotsPerEpoch

theorem mod_lt (slot : Nat) : slot % p.slotsPerEpoch < p.slotsPerEpoch :=
  Nat.mod_lt _ p.slotsPerEpoch_pos

theorem epoch_mul_add_mod (slot : Nat) :
    p.epoch slot * p.slotsPerEpoch + slot % p.slotsPerEpoch = slot :=
  Nat.div_add_mod' slot p.slotsPerEpoch

theorem windowIndex_lt {c slot : Nat} (hs : p.Cached c slot) :
    p.windowIndex c slot < p.ptcWindowSlots := by
  have hoff : p.epoch slot + 1 - c ≤ p.minSeedLookahead + 1 := by
    unfold Cached at hs
    omega
  have hmul := Nat.mul_le_mul_right p.slotsPerEpoch hoff
  have hr := p.mod_lt slot
  rw [windowIndex, p.ptcWindowSlots_eq, show 2 + p.minSeedLookahead = p.minSeedLookahead + 1 + 1 by omega,
    Nat.add_mul _ 1]
  omega

/-- The index of a slot of the previous epoch is its position in the epoch, as the reader's
first branch has it. -/
theorem windowIndex_of_previous {c slot : Nat} (h : p.epoch slot + 1 = c) :
    p.windowIndex c slot = slot % p.slotsPerEpoch := by
  simp [windowIndex, h]

/-- A slot of the current epoch or after sits `S` entries further on than its offset from the
start of the current epoch. -/
theorem windowIndex_of_le {c slot : Nat} (h : c ≤ p.epoch slot) :
    p.windowIndex c slot = p.slotsPerEpoch + (slot - c * p.slotsPerEpoch) := by
  have hslot := p.epoch_mul_add_mod slot
  have hle : c * p.slotsPerEpoch ≤ p.epoch slot * p.slotsPerEpoch := Nat.mul_le_mul_right _ h
  rw [windowIndex, show p.epoch slot + 1 - c = p.epoch slot - c + 1 by omega, Nat.add_mul,
    Nat.sub_mul]
  omega

/-- One epoch later the same slot sits one epoch of entries lower. -/
theorem windowIndex_succ {c slot : Nat} (h : c ≤ p.epoch slot) :
    p.windowIndex (c + 1) slot + p.slotsPerEpoch = p.windowIndex c slot := by
  rw [windowIndex, windowIndex, show p.epoch slot + 1 - c = p.epoch slot + 1 - (c + 1) + 1 by omega,
    Nat.add_mul _ 1]
  omega

/-- A slot of the epoch `process_ptc_window` computes sits in the window's last epoch. -/
theorem windowIndex_of_lookahead {c slot : Nat} (h : p.epoch slot = c + p.minSeedLookahead + 1) :
    p.windowIndex (c + 1) slot = p.ptcWindowSlots - p.slotsPerEpoch + slot % p.slotsPerEpoch := by
  rw [windowIndex, h, p.ptcWindowSlots_eq,
    show c + p.minSeedLookahead + 1 + 1 - (c + 1) = p.minSeedLookahead + 1 by omega, Nat.add_mul,
    Nat.add_mul]
  omega

end PtcPreset

/-! ## The reader -/

section Reader

variable (p : PtcPreset)

/-- `get_ptc_committee` reads the entry at `windowIndex` for a cached slot and fails for any
other. -/
theorem getPtcCommittee_eq (c slot : Nat) (ptcWindow : List (List Nat)) :
    getPtcCommittee p c slot ptcWindow =
      if p.Cached c slot then
        match ptcWindow[p.windowIndex c slot]? with
        | some entry => .ok entry
        | none => .error .epochOutOfBounds
      else .error .epochOutOfBounds := by
  unfold getPtcCommittee
  dsimp only
  by_cases hlt : p.epoch slot < c
  · by_cases hprev : p.epoch slot + 1 = c
    · have hs : p.Cached c slot := by unfold PtcPreset.Cached; constructor <;> omega
      rw [if_pos hlt, if_neg (not_not.2 hprev), if_pos hs, p.windowIndex_of_previous hprev]
      rfl
    · have hs : ¬ p.Cached c slot := fun h => by unfold PtcPreset.Cached at h; omega
      rw [if_pos hlt, if_pos hprev, if_neg hs]
      rfl
  · by_cases hmax : p.epoch slot > c + p.minSeedLookahead
    · have hs : ¬ p.Cached c slot := fun h => by unfold PtcPreset.Cached at h; omega
      rw [if_neg hlt, if_pos hmax, if_neg hs]
      rfl
    · have hs : p.Cached c slot := by unfold PtcPreset.Cached; constructor <;> omega
      rw [if_neg hlt, if_neg hmax, if_pos hs, PtcPreset.windowIndex,
        show p.epoch slot + 1 - c = p.epoch slot - c + 1 by omega]
      rfl

theorem getPtcCommittee_of_not_cached {c slot : Nat} (ptcWindow : List (List Nat))
    (hs : ¬ p.Cached c slot) : getPtcCommittee p c slot ptcWindow = .error .epochOutOfBounds := by
  rw [getPtcCommittee_eq, if_neg hs]

end Reader

/-! ## The layout and its writers -/

/-- The window of a state at `stateEpoch` has the preset's length and holds `committee slot`
at `windowIndex` for every slot it caches. -/
structure Layout (p : PtcPreset) (stateEpoch : Nat) (ptcWindow : List (List Nat))
    (committee : Nat → List Nat) : Prop where
  length_eq : ptcWindow.length = p.ptcWindowSlots
  getElem?_windowIndex : ∀ slot, p.Cached stateEpoch slot →
    ptcWindow[p.windowIndex stateEpoch slot]? = some (committee slot)

theorem Layout.getPtcCommittee {p : PtcPreset} {c : Nat} {ptcWindow committee}
    (h : Layout p c ptcWindow committee) {slot : Nat} (hs : p.Cached c slot) :
    getPtcCommittee p c slot ptcWindow = .ok (committee slot) := by
  rw [getPtcCommittee_eq, if_pos hs, h.getElem?_windowIndex slot hs]

namespace PtcPreset

variable (p : PtcPreset)

/-- What `initialize_ptc_window` stores for a slot: the committee `compute_ptc` returned, or
zeros. -/
def initialPtc (computePtc : Nat → Option (List Nat)) (slot : Nat) : List Nat :=
  (computePtc slot).getD p.emptyPtc

/-- What `process_ptc_window` stores for a slot: the committee computed, or zeros when the slot
has no committee members. -/
def processedPtc (r : Except PtcComputeError (List Nat)) : List Nat :=
  match r with
  | .ok ptc => ptc
  | .error _ => p.emptyPtc

/-- The committees of the window `upgrade_to_gloas` builds at `forkEpoch`: zeros for the
previous epoch, what `compute_ptc` gave for the others. -/
def upgradeCommittee (forkEpoch : Nat) (computePtc : Nat → Option (List Nat)) (slot : Nat) :
    List Nat :=
  if forkEpoch ≤ p.epoch slot then p.initialPtc computePtc slot else p.emptyPtc

/-- The committees after the epoch transition out of `stateEpoch`: `computed` for the slots of
the epoch that enters the window, the old ones for the others. -/
def nextCommittee (stateEpoch : Nat) (computed committee : Nat → List Nat) (slot : Nat) :
    List Nat :=
  if p.epoch slot = stateEpoch + p.minSeedLookahead + 1 then computed slot else committee slot

end PtcPreset

section Writers

variable (p : PtcPreset)

theorem lookaheadSlots_eq (c : Nat) :
    lookaheadSlots p c =
      List.range' (c * p.slotsPerEpoch) ((1 + p.minSeedLookahead) * p.slotsPerEpoch) := by
  unfold lookaheadSlots
  -- the epochs of the outer loop, one at a time
  generalize 1 + p.minSeedLookahead = n
  induction n with
  | zero => simp
  | succ n ih =>
    rw [List.range_succ, List.flatMap_append, ih, List.flatMap_singleton, Nat.succ_mul,
      ← List.range'_append, List.range'_eq_map_range (s := c * p.slotsPerEpoch + 1 * _)]
    congr 2
    funext i
    rw [Nat.one_mul, Nat.add_mul]

namespace PtcPreset

/-- What the loop of `initialize_ptc_window` pushes for a slot is `initialPtc`. -/
theorem initialPtc_of_new {computePtc : Nat → Option (List Nat)} {slot : Nat} {x : List Nat}
    (h : (match computePtc slot with
      | some ptc => FixedVector.new p.ptcSize ptc
      | none => FixedVector.new p.ptcSize p.emptyPtc) = some x) :
    x = p.initialPtc computePtc slot := by
  unfold initialPtc
  cases hc : computePtc slot with
  | some ptc =>
    rw [hc] at h
    exact (FixedVector.new_eq_some.1 h).2.symm
  | none =>
    rw [hc] at h
    exact (FixedVector.new_eq_some.1 h).2.symm

/-- What `process_ptc_window` collects for a slot is `processedPtc`. -/
theorem processedPtc_of_new {r : Except PtcComputeError (List Nat)} {x : List Nat}
    (h : (match r with
      | .ok ptc => FixedVector.new p.ptcSize ptc
      | .error .noActiveValidators => FixedVector.new p.ptcSize p.emptyPtc
      | .error .other => none) = some x) :
    x = p.processedPtc r := by
  unfold processedPtc
  cases r with
  | ok ptc => exact (FixedVector.new_eq_some.1 h).2.symm
  | error e =>
    cases e with
    | noActiveValidators => exact (FixedVector.new_eq_some.1 h).2.symm
    | other => cases h

end PtcPreset

/-- `initialize_ptc_window` lays out the committees of `upgradeCommittee`. -/
theorem layout_initializePtcWindow {c : Nat} {computePtc : Nat → Option (List Nat)}
    {ptcWindow : List (List Nat)} (h : initializePtcWindow p c computePtc = some ptcWindow) :
    Layout p c ptcWindow (p.upgradeCommittee c computePtc) := by
  simp only [initializePtcWindow, Option.bind_eq_bind, Option.bind_eq_some_iff] at h
  obtain ⟨lookahead, hmap, hnew⟩ := h
  obtain ⟨hlen, rfl⟩ := FixedVector.new_eq_some.1 hnew
  have hlenL : lookahead.length = (1 + p.minSeedLookahead) * p.slotsPerEpoch := by
    rw [FixedVector.length_of_mapM hmap, lookaheadSlots_eq, List.length_range']
  refine ⟨hlen, fun slot hs => ?_⟩
  by_cases hprev : p.epoch slot + 1 = c
  · -- the previous epoch: the zeros in front
    have hr := p.mod_lt slot
    rw [p.windowIndex_of_previous hprev, List.getElem?_append_left (by simpa using hr),
      List.getElem?_replicate_of_lt hr, PtcPreset.upgradeCommittee, if_neg (by omega)]
  · -- the current epoch and the lookahead: entry `slot - c * S` of the computed ones
    have hc : c ≤ p.epoch slot := by unfold PtcPreset.Cached at hs; omega
    have hslot := p.epoch_mul_add_mod slot
    have hle : c * p.slotsPerEpoch ≤ slot := by
      have := Nat.mul_le_mul_right p.slotsPerEpoch hc
      omega
    have hj : slot - c * p.slotsPerEpoch < (1 + p.minSeedLookahead) * p.slotsPerEpoch := by
      have := p.windowIndex_lt hs
      rw [p.windowIndex_of_le hc, p.ptcWindowSlots_eq,
        show 2 + p.minSeedLookahead = 1 + p.minSeedLookahead + 1 by omega, Nat.add_mul _ 1] at this
      omega
    have hget := FixedVector.getElem?_of_mapM hmap (slot - c * p.slotsPerEpoch)
    rw [lookaheadSlots_eq, List.getElem?_range' hj, Option.bind_some, Nat.one_mul,
      Nat.add_sub_cancel' hle] at hget
    obtain ⟨x, hx⟩ : ∃ x, lookahead[slot - c * p.slotsPerEpoch]? = some x :=
      ⟨_, List.getElem?_eq_getElem (by omega)⟩
    rw [hx] at hget
    rw [p.windowIndex_of_le hc, List.getElem?_append_right (by simp), List.length_replicate,
      Nat.add_sub_cancel_left, hx, PtcPreset.upgradeCommittee, if_pos hc,
      p.initialPtc_of_new hget.symm]

/-- `process_ptc_window` moves the layout on by one epoch, with the committees it computed for
the epoch that enters the window. -/
theorem layout_processPtcWindow {C : Type} {c : Nat} {ptcWindow ptcWindow' : List (List Nat)}
    {committee : Nat → List Nat} {committeeCache : Nat → Option C}
    {computePtcFromCommittees : C → Nat → Except PtcComputeError (List Nat)} {cache : C}
    (h : Layout p c ptcWindow committee)
    (hcache : committeeCache (c + p.minSeedLookahead + 1) = some cache)
    (hp : processPtcWindow p c committeeCache computePtcFromCommittees ptcWindow =
      some ptcWindow') :
    Layout p (c + 1) ptcWindow'
      (p.nextCommittee c (fun slot => p.processedPtc (computePtcFromCommittees cache slot))
        committee) := by
  unfold processPtcWindow at hp
  simp only [Option.bind_eq_bind, Option.bind_eq_some_iff, hcache, Option.some.injEq,
    exists_eq_left', Option.pure_def] at hp
  obtain ⟨shifted, hshift, newPtcs, hnew, rfl⟩ := hp
  have hlenS : shifted.length = p.ptcWindowSlots - p.slotsPerEpoch := by
    rw [FixedVector.length_of_mapM hshift, List.length_range']
  have hlenN : newPtcs.length = p.slotsPerEpoch := by
    rw [FixedVector.length_of_mapM hnew, List.length_range]
  refine ⟨by simp [h.length_eq], fun slot hs => ?_⟩
  have hk := p.windowIndex_lt hs
  rw [FixedVector.getElem?_writeFrom _ _ _ (by simpa [h.length_eq] using hk)]
  by_cases hnewEpoch : p.epoch slot = c + p.minSeedLookahead + 1
  · -- the epoch that enters the window: the committees just computed
    have hr := p.mod_lt slot
    rw [p.windowIndex_of_lookahead hnewEpoch, if_pos ⟨Nat.le_add_right _ _, by omega⟩,
      Nat.add_sub_cancel_left]
    have hget := FixedVector.getElem?_of_mapM hnew (slot % p.slotsPerEpoch)
    rw [List.getElem?_range hr, Option.bind_some, ← hnewEpoch, p.epoch_mul_add_mod] at hget
    obtain ⟨x, hx⟩ : ∃ x, newPtcs[slot % p.slotsPerEpoch]? = some x :=
      ⟨_, List.getElem?_eq_getElem (by omega)⟩
    rw [hx] at hget
    rw [hx, PtcPreset.nextCommittee, if_pos hnewEpoch, p.processedPtc_of_new hget.symm]
  · -- an epoch already there: the entry one epoch further on, shifted down
    have hc : c ≤ p.epoch slot := by unfold PtcPreset.Cached at hs; omega
    have hold : p.Cached c slot := by unfold PtcPreset.Cached at hs ⊢; omega
    have hsucc := p.windowIndex_succ hc
    have hk' := p.windowIndex_lt hold
    rw [if_neg (by omega), FixedVector.getElem?_writeFrom _ _ _ (by rw [h.length_eq]; omega),
      if_pos ⟨Nat.zero_le _, by omega⟩, Nat.sub_zero]
    have hget := FixedVector.getElem?_of_mapM hshift (p.windowIndex (c + 1) slot)
    rw [List.getElem?_range' (by omega), Option.bind_some, Nat.one_mul, Nat.add_comm p.slotsPerEpoch, hsucc,
      h.getElem?_windowIndex slot hold] at hget
    rw [hget, PtcPreset.nextCommittee, if_neg hnewEpoch]

end Writers

/-! ## Runs -/

/-- The PTC windows of a Gloas chain, with the committee stored for each slot: the window of
`upgrade_to_gloas` at the fork epoch, then one epoch transition after another. The committee of
a slot is what `compute_ptc` gave for it at the upgrade, or what `compute_ptc_from_committees`
gave for it, with the lookahead cache of its epoch, at the transition that brought its epoch
into the window. -/
inductive PtcWindowRun (p : PtcPreset) : Nat → List (List Nat) → (Nat → List Nat) → Prop
  | upgrade {forkEpoch : Nat} {computePtc : Nat → Option (List Nat)}
      {ptcWindow : List (List Nat)} :
      initializePtcWindow p forkEpoch computePtc = some ptcWindow →
      PtcWindowRun p forkEpoch ptcWindow (p.upgradeCommittee forkEpoch computePtc)
  | processEpoch {C : Type} {stateEpoch : Nat} {ptcWindow ptcWindow' : List (List Nat)}
      {committee : Nat → List Nat} {committeeCache : Nat → Option C}
      {computePtcFromCommittees : C → Nat → Except PtcComputeError (List Nat)} {cache : C} :
      PtcWindowRun p stateEpoch ptcWindow committee →
      committeeCache (stateEpoch + p.minSeedLookahead + 1) = some cache →
      processPtcWindow p stateEpoch committeeCache computePtcFromCommittees ptcWindow =
        some ptcWindow' →
      PtcWindowRun p (stateEpoch + 1) ptcWindow'
        (p.nextCommittee stateEpoch (fun slot => p.processedPtc (computePtcFromCommittees cache slot))
          committee)

theorem PtcWindowRun.layout {p : PtcPreset} {c : Nat} {ptcWindow : List (List Nat)}
    {committee : Nat → List Nat} (h : PtcWindowRun p c ptcWindow committee) :
    Layout p c ptcWindow committee := by
  induction h with
  | upgrade hinit => exact layout_initializePtcWindow p hinit
  | processEpoch _ hcache hp ih => exact layout_processPtcWindow p ih hcache hp

/-- On every window of a run, `get_ptc_committee` returns the committee stored for a slot of
the epochs `current - 1` to `current + MIN_SEED_LOOKAHEAD`, and `EpochOutOfBounds` for any
other slot. -/
theorem ptc_window_reader_agrees {p : PtcPreset} {c : Nat} {ptcWindow : List (List Nat)}
    {committee : Nat → List Nat} (hrun : PtcWindowRun p c ptcWindow committee) (slot : Nat) :
    (p.Cached c slot → getPtcCommittee p c slot ptcWindow = .ok (committee slot)) ∧
      (¬ p.Cached c slot → getPtcCommittee p c slot ptcWindow = .error .epochOutOfBounds) :=
  ⟨hrun.layout.getPtcCommittee, getPtcCommittee_of_not_cached p ptcWindow⟩

/-- The minimal preset upgraded at epoch 1, with `compute_ptc` giving `[slot, slot]`, then moved
on by one epoch with `compute_ptc_from_committees` giving `[slot, slot + 1]`. -/
theorem ptc_window_reader_agrees_minimal :
    ∃ ptcWindow committee, PtcWindowRun PtcPreset.minimal 2 ptcWindow committee ∧
      ∀ slot, (PtcPreset.minimal.Cached 2 slot →
          getPtcCommittee PtcPreset.minimal 2 slot ptcWindow = .ok (committee slot)) ∧
        (¬ PtcPreset.minimal.Cached 2 slot →
          getPtcCommittee PtcPreset.minimal 2 slot ptcWindow = .error .epochOutOfBounds) := by
  have hup : PtcWindowRun PtcPreset.minimal 1 _ _ :=
    @PtcWindowRun.upgrade _ 1 (fun slot => some [slot, slot]) _ rfl
  have hrun : PtcWindowRun PtcPreset.minimal 2 _ _ :=
    @PtcWindowRun.processEpoch _ Unit 1 _ _ _ (fun _ => some ())
      (fun _ slot => .ok [slot, slot + 1]) () hup rfl rfl
  exact ⟨_, _, hrun, ptc_window_reader_agrees hrun⟩

end Vibehouse.Gloas
