import Vibehouse.Lib.AssocList
import Vibehouse.Lib.MachineInt
import Vibehouse.Lib.StateRun

/-! # The builder pubkey cache

`BuilderPubkeyCache` (`beacon_state/builder_pubkey_cache.rs`) maps the pubkey of each builder of
a Gloas state to its index in `state.builders`. `update_builder_pubkey_cache` fills it
incrementally: it takes the number of cached entries for the number of builder positions already
indexed, and inserts the builders past them. The builder deposits keep it in step themselves: a
new builder is appended and inserted, or takes the index of an exited builder with no balance,
whose pubkey is removed first. The deposits are routed by the cache, so a builder is created only
for a pubkey the cache does not hold.

A run starts at `upgrade_to_gloas`, which onboards the builders of the pending deposits, and goes
on with `process_deposit_requests`, reloads that drop the cache, and the rest of the processing,
which moves the slot, a builder's balance and exit, the pending deposits and the validators.
Along every run the builders' pubkeys are distinct and the cache holds the pubkeys of the first
`len()` builders, each at its index (`Coherent`). So after `update_builder_pubkey_cache` the cache
holds every builder's pubkey at its index and nothing else, as a cache built from scratch does
(`builder_pubkey_cache_coherent`).

Only Gloas states are modelled, where `builders()` succeeds. BLS signature verification is a
parameter (`isValidDepositSignature`), and the validators' `pubkey_cache` is taken as holding
every validator's pubkey. A block whose processing fails is dropped with its state, so a failed
`process_deposit_requests` leaves the run's state as it was. -/

namespace Vibehouse.Gloas.BuilderDeposits

open MachineInt

/-! ## The source -/

/-- `PublicKeyBytes`: the 48 bytes of a compressed BLS public key. -/
abbrev PublicKeyBytes := Vector UInt8 48

/-- `types::Builder`. -/
structure Builder where
  pubkey : PublicKeyBytes
  version : UInt8
  executionAddress : List UInt8
  balance : Nat
  depositEpoch : Nat
  withdrawableEpoch : Nat
  deriving DecidableEq, Repr

/-- `DepositRequest`; its `index` is read only before Gloas. -/
structure DepositRequest where
  pubkey : PublicKeyBytes
  withdrawalCredentials : Vector UInt8 32
  amount : Nat
  signature : List UInt8
  deriving DecidableEq, Repr

/-- `PendingDeposit`. -/
structure PendingDeposit where
  pubkey : PublicKeyBytes
  withdrawalCredentials : Vector UInt8 32
  amount : Nat
  signature : List UInt8
  slot : Nat
  deriving DecidableEq, Repr

/-- `DepositData`, what the deposit signature signs. -/
structure DepositData where
  pubkey : PublicKeyBytes
  withdrawalCredentials : Vector UInt8 32
  amount : Nat
  signature : List UInt8
  deriving DecidableEq, Repr

/-- `BuilderPubkeyCache`: its `HashTrieMap`, as an association list, which holds each key once. -/
structure BuilderPubkeyCache where
  map : List (PublicKeyBytes × Nat)
  nodup : (map.map Prod.fst).Nodup

namespace BuilderPubkeyCache

/-- `BuilderPubkeyCache::default()`. -/
def empty : BuilderPubkeyCache := ⟨[], List.nodup_nil⟩

/-- `get(pubkey)`. The map compares keys by equality, not by the bytewise `==` of `Vector`. -/
def get (cache : BuilderPubkeyCache) (pubkey : PublicKeyBytes) : Option Nat :=
  @List.lookup _ _ instBEqOfDecidableEq pubkey cache.map

def insert (cache : BuilderPubkeyCache) (pubkey : PublicKeyBytes) (index : Nat) :
    BuilderPubkeyCache :=
  ⟨AssocList.insert cache.map pubkey index, AssocList.nodup_insert cache.nodup pubkey index⟩

def remove (cache : BuilderPubkeyCache) (pubkey : PublicKeyBytes) : BuilderPubkeyCache :=
  ⟨AssocList.erase cache.map pubkey, AssocList.nodup_erase cache.nodup pubkey⟩

def len (cache : BuilderPubkeyCache) : Nat := cache.map.length

end BuilderPubkeyCache

/-- The fields of a Gloas `BeaconState` that the builder deposits read and write: its slot, the
pubkeys the validators' `pubkey_cache` holds, the builders, the pending deposits and the builder
pubkey cache. -/
structure BeaconState where
  slot : Nat
  validatorPubkeys : List PublicKeyBytes
  builders : List Builder
  pendingDeposits : List PendingDeposit
  builderPubkeyCache : BuilderPubkeyCache

/-- The constants of the preset and of `ChainSpec` that the builder deposits read. -/
structure DepositSpec where
  slotsPerEpoch : Nat
  farFutureEpoch : Nat
  builderRegistryLimit : Nat
  pendingDepositsLimit : Nat
  deriving DecidableEq, Repr

/-- The errors of the builder deposits: `BeaconStateError::UnknownValidator`,
`BlockProcessingError::InvalidBuilderCredentials`, the upgrade's `IncorrectStateVariant`, and a
list that would pass its limit (`MilhouseError`). -/
inductive Error
  | unknownValidator (index : Nat)
  | invalidBuilderCredentials
  | incorrectStateVariant
  | milhouseError
  deriving DecidableEq, Repr

/-- `BUILDER_WITHDRAWAL_PREFIX`. -/
def builderWithdrawalPrefix : UInt8 := 0x03

/-- The body of the loop of `update_builder_pubkey_cache`: the builder at `i`, if any, inserted
at its index. -/
def cacheBuilderAt (builders : List Builder) (cache : BuilderPubkeyCache) (i : Nat) :
    BuilderPubkeyCache :=
  match builders[i]? with
  | some builder => cache.insert builder.pubkey i
  | none => cache

/-- `update_builder_pubkey_cache`: the builders from `cache.len()` on inserted at their index. -/
def updateBuilderPubkeyCache (state : BeaconState) : BeaconState :=
  let cache := state.builderPubkeyCache
  let cachedLen := cache.len
  let buildersLen := state.builders.length
  let cache :=
    (List.range' cachedLen (buildersLen - cachedLen)).foldl (cacheBuilderAt state.builders) cache
  { state with builderPubkeyCache := cache }

/-- `get_index_for_new_builder`: the first exited builder with no balance, or the end. -/
def getIndexForNewBuilder (builders : List Builder) (currentEpoch : Nat) : Nat :=
  builders.findIdx fun builder => builder.withdrawableEpoch ≤ currentEpoch && builder.balance == 0

/-- `slice.get(start..)`. -/
def sliceFrom {α : Type} (l : List α) (start : Nat) : Option (List α) :=
  if start ≤ l.length then some (l.drop start) else none

section Deposits

variable (spec : DepositSpec) (isValidDepositSignature : DepositData → Bool)

/-- The body that `apply_deposit_for_builder` and `apply_builder_deposit` share: a top-up of the
builder the cache holds for the pubkey, or, when the signature is valid, a new builder at the
index of an exited builder with no balance, whose pubkey leaves the cache, or at the end. The two
differ in the error for malformed credentials, `credentialsError`. -/
def applyBuilderDepositWith (credentialsError : Error) (state : BeaconState)
    (pubkey : PublicKeyBytes) (withdrawalCredentials : Vector UInt8 32) (amount : Nat)
    (signature : List UInt8) (slot : Nat) : Except Error BeaconState :=
  match state.builderPubkeyCache.get pubkey with
  | some index =>
    -- top-up of an existing builder
    match state.builders[index]? with
    | none => .error (.unknownValidator index)
    | some builder =>
      .ok { state with
        builders := state.builders.set index
          { builder with balance := uSaturatingAdd 64 builder.balance amount } }
  | none =>
    if !isValidDepositSignature ⟨pubkey, withdrawalCredentials, amount, signature⟩ then
      .ok state
    else
      let currentEpoch := state.slot / spec.slotsPerEpoch
      let newIndex := getIndexForNewBuilder state.builders currentEpoch
      match withdrawalCredentials.toList.head?, sliceFrom withdrawalCredentials.toList 12 with
      | some version, some addressBytes =>
        let builder : Builder :=
          { pubkey, version, executionAddress := addressBytes, balance := amount,
            depositEpoch := slot / spec.slotsPerEpoch, withdrawableEpoch := spec.farFutureEpoch }
        if newIndex < state.builders.length then
          -- the index of an exited builder is reused: its pubkey leaves the cache
          let oldPubkey := state.builders[newIndex]?.map (·.pubkey)
          let cache := match oldPubkey with
            | some oldPk => state.builderPubkeyCache.remove oldPk
            | none => state.builderPubkeyCache
          .ok { state with builders := state.builders.set newIndex builder,
                           builderPubkeyCache := cache.insert pubkey newIndex }
        else if spec.builderRegistryLimit ≤ state.builders.length then .error .milhouseError
        else
          .ok { state with builders := state.builders ++ [builder],
                           builderPubkeyCache :=
                             state.builderPubkeyCache.insert pubkey state.builders.length }
      | _, _ => .error credentialsError

/-- `apply_deposit_for_builder(state, request, slot)`. -/
def applyDepositForBuilder (state : BeaconState) (request : DepositRequest) (slot : Nat) :
    Except Error BeaconState :=
  applyBuilderDepositWith spec isValidDepositSignature .invalidBuilderCredentials state
    request.pubkey request.withdrawalCredentials request.amount request.signature slot

/-- `apply_builder_deposit(state, pubkey, withdrawal_credentials, amount, signature, slot)`, at
the fork. -/
def applyBuilderDeposit (state : BeaconState) (pubkey : PublicKeyBytes)
    (withdrawalCredentials : Vector UInt8 32) (amount : Nat) (signature : List UInt8)
    (slot : Nat) : Except Error BeaconState :=
  applyBuilderDepositWith spec isValidDepositSignature .incorrectStateVariant state pubkey
    withdrawalCredentials amount signature slot

/-- `is_pending_validator`: a pending deposit for the pubkey with a valid signature. -/
def isPendingValidator (state : BeaconState) (pubkey : PublicKeyBytes) : Bool :=
  state.pendingDeposits.any fun deposit =>
    deposit.pubkey == pubkey &&
      isValidDepositSignature
        ⟨deposit.pubkey, deposit.withdrawalCredentials, deposit.amount, deposit.signature⟩

/-- `process_deposit_request_gloas`: a deposit of an existing builder, or with builder
credentials and the pubkey of no validator and no pending validator, goes to the builders;
any other is queued as a pending deposit. -/
def processDepositRequestGloas (state : BeaconState) (request : DepositRequest) :
    Except Error BeaconState :=
  let slot := state.slot
  let isBuilder := (state.builderPubkeyCache.get request.pubkey).isSome
  let isValidator := state.validatorPubkeys.contains request.pubkey
  let isBuilderPrefix := request.withdrawalCredentials.toList.head? == some builderWithdrawalPrefix
  if isBuilder ||
      (isBuilderPrefix && !isValidator && !isPendingValidator isValidDepositSignature state
        request.pubkey) then
    applyDepositForBuilder spec isValidDepositSignature state request slot
  else if spec.pendingDepositsLimit ≤ state.pendingDeposits.length then .error .milhouseError
  else
    .ok { state with pendingDeposits := state.pendingDeposits ++
      [⟨request.pubkey, request.withdrawalCredentials, request.amount, request.signature, slot⟩] }

/-- `process_deposit_requests` in a Gloas state: the cache brought up to date, then each request
in turn. -/
def processDepositRequests (state : BeaconState) (requests : List DepositRequest) :
    Except Error BeaconState :=
  requests.foldlM (processDepositRequestGloas spec isValidDepositSignature)
    (updateBuilderPubkeyCache state)

/-- One pending deposit of `onboard_builders_from_pending_deposits`, with the state, the pending
deposits kept, and the pubkeys of the new validators among them. -/
def onboardPendingDeposit (acc : BeaconState × List PendingDeposit × List PublicKeyBytes)
    (deposit : PendingDeposit) :
    Except Error (BeaconState × List PendingDeposit × List PublicKeyBytes) :=
  let (state, newPendingDeposits, newValidatorPubkeys) := acc
  if state.validatorPubkeys.contains deposit.pubkey ||
      newValidatorPubkeys.contains deposit.pubkey then
    -- a deposit of a validator stays one
    .ok (state, newPendingDeposits ++ [deposit], newValidatorPubkeys)
  else
    let isExistingBuilder := (state.builderPubkeyCache.get deposit.pubkey).isSome
    let hasBuilderCredentials :=
      deposit.withdrawalCredentials.toList.head? == some builderWithdrawalPrefix
    if isExistingBuilder || hasBuilderCredentials then
      (applyBuilderDeposit spec isValidDepositSignature state deposit.pubkey
        deposit.withdrawalCredentials deposit.amount deposit.signature deposit.slot).map
        fun state => (state, newPendingDeposits, newValidatorPubkeys)
    else if isValidDepositSignature
        ⟨deposit.pubkey, deposit.withdrawalCredentials, deposit.amount, deposit.signature⟩ then
      .ok (state, newPendingDeposits ++ [deposit], newValidatorPubkeys ++ [deposit.pubkey])
    else .ok (state, newPendingDeposits, newValidatorPubkeys)

/-- `onboard_builders_from_pending_deposits`: the builder deposits applied, the rest kept. -/
def onboardBuildersFromPendingDeposits (state : BeaconState) : Except Error BeaconState := do
  let (state, newPendingDeposits, _) ←
    state.pendingDeposits.foldlM (onboardPendingDeposit spec isValidDepositSignature)
      (state, [], [])
  if spec.pendingDepositsLimit < newPendingDeposits.length then throw .milhouseError
  pure { state with pendingDeposits := newPendingDeposits }

/-- `upgrade_to_gloas`, from the fields of the Fulu state that the builder deposits read: no
builders, an empty builder pubkey cache, and the builders of the pending deposits onboarded. -/
def upgradeToGloas (slot : Nat) (validatorPubkeys : List PublicKeyBytes)
    (pendingDeposits : List PendingDeposit) : Except Error BeaconState :=
  onboardBuildersFromPendingDeposits spec isValidDepositSignature
    { slot, validatorPubkeys, builders := [], pendingDeposits,
      builderPubkeyCache := .empty }

end Deposits

/-! ## The cache as a map -/

namespace BuilderPubkeyCache

variable {cache : BuilderPubkeyCache} {pubkey : PublicKeyBytes}

theorem get_empty (pubkey : PublicKeyBytes) : empty.get pubkey = none := rfl

theorem get_insert (cache : BuilderPubkeyCache) (pubkey other : PublicKeyBytes) (index : Nat) :
    (cache.insert pubkey index).get other =
      if other = pubkey then some index else cache.get other :=
  AssocList.lookup_insert cache.map pubkey other index

theorem get_remove (cache : BuilderPubkeyCache) (pubkey other : PublicKeyBytes) :
    (cache.remove pubkey).get other = if other = pubkey then none else cache.get other :=
  AssocList.lookup_erase cache.map pubkey other

theorem len_insert_of_get_eq_none (h : cache.get pubkey = none) (index : Nat) :
    (cache.insert pubkey index).len = cache.len + 1 :=
  AssocList.length_insert_of_lookup_eq_none h index

theorem len_remove_add_one {index : Nat} (h : cache.get pubkey = some index) :
    (cache.remove pubkey).len + 1 = cache.len :=
  AssocList.length_erase_add_one cache.nodup h

end BuilderPubkeyCache

/-! ## The cache and the builders

The invariant is stated over the builders' pubkeys, the only field of a builder the cache
reads. -/

/-- The cache holds the pubkey of each of the first `n` builders at its index, and nothing
else. -/
def Indexes (cache : BuilderPubkeyCache) (pubkeys : List PublicKeyBytes) (n : Nat) : Prop :=
  ∀ pubkey index, cache.get pubkey = some index ↔ index < n ∧ pubkeys[index]? = some pubkey

section Indexes

variable {cache : BuilderPubkeyCache} {pubkeys : List PublicKeyBytes} {n : Nat}
  {pubkey : PublicKeyBytes}

theorem indexes_empty (pubkeys : List PublicKeyBytes) : Indexes .empty pubkeys 0 := by
  intro pubkey index
  simp [BuilderPubkeyCache.get_empty]

/-- A pubkey of no builder is not in the cache. -/
theorem Indexes.get_eq_none (h : Indexes cache pubkeys n) (hp : pubkey ∉ pubkeys) :
    cache.get pubkey = none := by
  cases hget : cache.get pubkey with
  | none => rfl
  | some index =>
    obtain ⟨-, hindex⟩ := (h pubkey index).1 hget
    exact absurd (List.mem_of_getElem? hindex) hp

/-- Two caches that index the same first `n` builders are the same map. -/
theorem Indexes.get_eq {cache' : BuilderPubkeyCache} (h : Indexes cache pubkeys n)
    (h' : Indexes cache' pubkeys n) (pubkey : PublicKeyBytes) :
    cache.get pubkey = cache'.get pubkey :=
  Option.ext fun index => (h pubkey index).trans (h' pubkey index).symm

/-- Only the first `n` pubkeys matter. -/
theorem Indexes.congr {pubkeys' : List PublicKeyBytes} (h : Indexes cache pubkeys n)
    (heq : ∀ index < n, pubkeys'[index]? = pubkeys[index]?) : Indexes cache pubkeys' n := by
  intro pubkey index
  rw [h pubkey index]
  constructor
  · rintro ⟨hlt, hindex⟩
    exact ⟨hlt, (heq index hlt).trans hindex⟩
  · rintro ⟨hlt, hindex⟩
    exact ⟨hlt, (heq index hlt).symm.trans hindex⟩

/-- In a list of distinct pubkeys a pubkey is at one index. -/
theorem index_eq_of_nodup (hnd : pubkeys.Nodup) {i j : Nat} (hi : pubkeys[i]? = some pubkey)
    (hj : pubkeys[j]? = some pubkey) : i = j := by
  obtain ⟨hi', rfl⟩ := List.getElem?_eq_some_iff.1 hi
  obtain ⟨hj', hj⟩ := List.getElem?_eq_some_iff.1 hj
  exact hnd.getElem_inj_iff.1 hj.symm

/-- With distinct pubkeys, inserting the next builder's pubkey at its index indexes one more
builder, and adds an entry. -/
theorem Indexes.insert_next (h : Indexes cache pubkeys n) (hnd : pubkeys.Nodup)
    (hnext : pubkeys[n]? = some pubkey) :
    Indexes (cache.insert pubkey n) pubkeys (n + 1) ∧
      (cache.insert pubkey n).len = cache.len + 1 := by
  -- the next pubkey is at no earlier index, so the cache does not hold it yet
  have hnone : cache.get pubkey = none := by
    cases hget : cache.get pubkey with
    | none => rfl
    | some index =>
      obtain ⟨hlt, hindex⟩ := (h pubkey index).1 hget
      exact absurd (index_eq_of_nodup hnd hindex hnext) (Nat.ne_of_lt hlt)
  refine ⟨fun other index => ?_, BuilderPubkeyCache.len_insert_of_get_eq_none hnone n⟩
  rw [BuilderPubkeyCache.get_insert]
  by_cases hother : other = pubkey
  · subst hother
    rw [if_pos rfl, Option.some.injEq]
    constructor
    · rintro rfl
      exact ⟨Nat.lt_succ_self n, hnext⟩
    · rintro ⟨-, hindex⟩
      exact (index_eq_of_nodup hnd hindex hnext).symm
  · rw [if_neg hother, h other index]
    constructor
    · rintro ⟨hlt, hindex⟩
      exact ⟨Nat.lt_succ_of_lt hlt, hindex⟩
    · rintro ⟨hlt, hindex⟩
      refine ⟨Nat.lt_of_le_of_ne (Nat.le_of_lt_succ hlt) fun heq => hother ?_, hindex⟩
      subst heq
      rw [hnext] at hindex
      exact (Option.some.inj hindex).symm

/-- Replacing the builder at `j`, whose pubkey is `old`, by one with a pubkey of no builder, and
moving the cache entry from `old` to the new pubkey, keeps every builder indexed and the number
of entries. -/
theorem Indexes.replace (h : Indexes cache pubkeys pubkeys.length) (hnd : pubkeys.Nodup)
    (hp : pubkey ∉ pubkeys) {j : Nat} {old : PublicKeyBytes} (hold : pubkeys[j]? = some old) :
    Indexes ((cache.remove old).insert pubkey j) (pubkeys.set j pubkey) pubkeys.length ∧
      ((cache.remove old).insert pubkey j).len = cache.len := by
  have hj : j < pubkeys.length := (List.getElem?_eq_some_iff.1 hold).1
  have hne : pubkey ≠ old := fun heq => hp (heq ▸ List.mem_of_getElem? hold)
  have hnone : (cache.remove old).get pubkey = none := by
    rw [BuilderPubkeyCache.get_remove, if_neg hne, h.get_eq_none hp]
  have hlen : (cache.remove old).len + 1 = cache.len :=
    BuilderPubkeyCache.len_remove_add_one ((h old j).2 ⟨hj, hold⟩)
  refine ⟨fun other index => ?_,
    by rw [BuilderPubkeyCache.len_insert_of_get_eq_none hnone, hlen]⟩
  rw [BuilderPubkeyCache.get_insert, BuilderPubkeyCache.get_remove]
  by_cases hji : index = j
  · -- at `j` stands the new pubkey
    rw [hji, List.getElem?_set_self hj]
    split_ifs with hpub hold'
    · simp [hpub, hj]
    · simp only [false_iff, not_and, Option.some.injEq]
      exact fun _ heq => hpub heq.symm
    · rw [h other j, hold, Option.some.injEq, Option.some.injEq]
      exact ⟨fun ⟨_, heq⟩ => absurd heq.symm hold',
        fun ⟨_, heq⟩ => absurd heq.symm hpub⟩
  · -- elsewhere the pubkeys are as they were, and neither the new pubkey nor `old` is there
    rw [List.getElem?_set_ne (Ne.symm hji)]
    split_ifs with hpub hold'
    · simp only [Option.some.injEq, Ne.symm hji, false_iff, not_and]
      exact fun _ hindex => hp (hpub ▸ List.mem_of_getElem? hindex)
    · simp only [false_iff, not_and]
      exact fun _ hindex => hji (index_eq_of_nodup hnd (hold' ▸ hindex) hold)
    · exact h other index

end Indexes

/-! ## The invariant of a run -/

/-- The pubkeys of the builders, in order. -/
def BeaconState.builderPubkeys (state : BeaconState) : List PublicKeyBytes :=
  state.builders.map (·.pubkey)

/-- The invariant of a run: the builders' pubkeys are distinct, and the cache holds those of the
first `len()` builders, each at its index. -/
structure Coherent (state : BeaconState) : Prop where
  nodup : state.builderPubkeys.Nodup
  len_le : state.builderPubkeyCache.len ≤ state.builders.length
  indexes : Indexes state.builderPubkeyCache state.builderPubkeys state.builderPubkeyCache.len

/-- A coherent state whose cache holds every builder, as `update_builder_pubkey_cache` leaves
it. -/
structure Complete (state : BeaconState) : Prop where
  coherent : Coherent state
  len_eq : state.builderPubkeyCache.len = state.builders.length

section Invariant

variable {state state' : BeaconState} {pubkey : PublicKeyBytes}

@[simp]
theorem BeaconState.length_builderPubkeys (state : BeaconState) :
    state.builderPubkeys.length = state.builders.length :=
  List.length_map _

/-- A state whose builders have the distinct pubkeys `pubkeys`, all of them in the cache. -/
theorem Complete.of_indexes {pubkeys : List PublicKeyBytes}
    (hpubkeys : state.builderPubkeys = pubkeys) (hnd : pubkeys.Nodup)
    (hidx : Indexes state.builderPubkeyCache pubkeys pubkeys.length)
    (hlen : state.builderPubkeyCache.len = pubkeys.length) : Complete state := by
  subst hpubkeys
  rw [BeaconState.length_builderPubkeys] at hidx hlen
  exact ⟨⟨hnd, hlen.le, hlen ▸ hidx⟩, hlen⟩

theorem Complete.indexes (h : Complete state) :
    Indexes state.builderPubkeyCache state.builderPubkeys state.builderPubkeys.length := by
  rw [BeaconState.length_builderPubkeys, ← h.len_eq]
  exact h.coherent.indexes

/-- A step that keeps the builders' pubkeys and the cache keeps the invariant. -/
theorem BeaconState.length_builders_eq (hp : state'.builderPubkeys = state.builderPubkeys) :
    state'.builders.length = state.builders.length := by
  rw [← BeaconState.length_builderPubkeys, hp, BeaconState.length_builderPubkeys]

theorem Coherent.of_eq (h : Coherent state) (hp : state'.builderPubkeys = state.builderPubkeys)
    (hc : state'.builderPubkeyCache = state.builderPubkeyCache) : Coherent state' :=
  ⟨hp ▸ h.nodup, hc ▸ BeaconState.length_builders_eq hp ▸ h.len_le,
    hp ▸ hc ▸ h.indexes⟩

theorem Complete.of_eq (h : Complete state) (hp : state'.builderPubkeys = state.builderPubkeys)
    (hc : state'.builderPubkeyCache = state.builderPubkeyCache) : Complete state' :=
  ⟨h.coherent.of_eq hp hc, hc ▸ BeaconState.length_builders_eq hp ▸ h.len_eq⟩

/-- A complete cache holds every builder's pubkey: one it lacks is no builder's. -/
theorem Complete.not_mem_of_get_eq_none (h : Complete state)
    (hget : state.builderPubkeyCache.get pubkey = none) : pubkey ∉ state.builderPubkeys := by
  intro hmem
  obtain ⟨index, hlt, hindex⟩ := List.getElem_of_mem hmem
  have hsome := (h.indexes pubkey index).2 ⟨hlt, hindex ▸ List.getElem?_eq_getElem hlt⟩
  rw [hget] at hsome
  cases hsome

/-- Writing over a builder one with the same pubkey keeps the builders' pubkeys. -/
theorem builderPubkeys_set {builders : List Builder} {index : Nat} {builder : Builder}
    (hb : builders[index]? = some builder) {newBuilder : Builder}
    (hp : newBuilder.pubkey = builder.pubkey) :
    (builders.set index newBuilder).map (·.pubkey) = builders.map (·.pubkey) := by
  obtain ⟨hlt, rfl⟩ := List.getElem?_eq_some_iff.1 hb
  have hlt' : index < (builders.map (·.pubkey)).length := by simpa using hlt
  have hat : (builders.map (·.pubkey))[index] = builders[index].pubkey := List.getElem_map _
  rw [List.map_set, hp, ← hat, List.set_getElem_self]

/-- A change of builders that keeps each pubkey keeps the builders' pubkeys. -/
theorem builderPubkeys_modify (builders : List Builder) (index : Nat) {f : Builder → Builder}
    (hf : ∀ builder, (f builder).pubkey = builder.pubkey) :
    (builders.modify index f).map (·.pubkey) = builders.map (·.pubkey) := by
  apply List.ext_getElem?
  intro j
  simp only [List.getElem?_map, List.getElem?_modify]
  cases builders[j]? with
  | none => rfl
  | some builder => by_cases hj : index = j <;> simp [hj, hf]

/-- A new builder, with a pubkey the cache lacks, at the index of the builder with pubkey `old`,
whose entry moves to the new pubkey. -/
theorem Complete.replace (h : Complete state)
    (hget : state.builderPubkeyCache.get pubkey = none) {j : Nat} {old : PublicKeyBytes}
    (hold : state.builders[j]?.map (·.pubkey) = some old) {builder : Builder}
    (hbp : builder.pubkey = pubkey) :
    Complete { state with
      builders := state.builders.set j builder,
      builderPubkeyCache := (state.builderPubkeyCache.remove old).insert pubkey j } := by
  have hp := h.not_mem_of_get_eq_none hget
  have hold' : state.builderPubkeys[j]? = some old := by
    rw [BeaconState.builderPubkeys, List.getElem?_map, hold]
  have hpubkeys :
      (state.builders.set j builder).map (·.pubkey) = state.builderPubkeys.set j pubkey := by
    rw [List.map_set, hbp]
    rfl
  obtain ⟨hidx, hlen⟩ := h.indexes.replace h.coherent.nodup hp hold'
  refine Complete.of_indexes hpubkeys (h.coherent.nodup.set hp) ?_ ?_
  · rwa [List.length_set]
  · rw [hlen, List.length_set, BeaconState.length_builderPubkeys, h.len_eq]

/-- A new builder, with a pubkey the cache lacks, appended and inserted at its index. -/
theorem Complete.append (h : Complete state) (hget : state.builderPubkeyCache.get pubkey = none)
    {builder : Builder} (hbp : builder.pubkey = pubkey) :
    Complete { state with
      builders := state.builders ++ [builder],
      builderPubkeyCache := state.builderPubkeyCache.insert pubkey state.builders.length } := by
  have hp := h.not_mem_of_get_eq_none hget
  have hpubkeys :
      (state.builders ++ [builder]).map (·.pubkey) = state.builderPubkeys ++ [pubkey] := by
    rw [List.map_append, List.map_singleton, hbp]
    rfl
  have hnd : (state.builderPubkeys ++ [pubkey]).Nodup :=
    List.nodup_append.2 ⟨h.coherent.nodup, List.nodup_singleton pubkey,
      fun a ha b hb => by rw [List.mem_singleton.1 hb]; exact fun heq => hp (heq ▸ ha)⟩
  -- the cache indexes the old builders in the longer list, then the new one at the end
  have hold : Indexes state.builderPubkeyCache (state.builderPubkeys ++ [pubkey])
      state.builders.length := by
    refine (BeaconState.length_builderPubkeys state ▸ h.indexes).congr fun index hlt => ?_
    exact List.getElem?_append_left (by simpa using hlt)
  have hnext : (state.builderPubkeys ++ [pubkey])[state.builders.length]? = some pubkey := by
    simp
  obtain ⟨hidx, hlen⟩ := hold.insert_next hnd hnext
  refine Complete.of_indexes hpubkeys hnd ?_ ?_
  · rwa [List.length_append, List.length_singleton, BeaconState.length_builderPubkeys]
  · rw [hlen, List.length_append, List.length_singleton, BeaconState.length_builderPubkeys,
      h.len_eq]

/-- The loop of `update_builder_pubkey_cache` from position `k`, with the first `k` builders
indexed, indexes them all; by induction on the positions left. -/
theorem indexes_foldl_cacheBuilderAt {builders : List Builder}
    (hnd : (builders.map (·.pubkey)).Nodup) :
    ∀ (m k : Nat) (cache : BuilderPubkeyCache), k + m = builders.length →
      Indexes cache (builders.map (·.pubkey)) k → cache.len = k →
      Indexes ((List.range' k m).foldl (cacheBuilderAt builders) cache)
          (builders.map (·.pubkey)) builders.length ∧
        ((List.range' k m).foldl (cacheBuilderAt builders) cache).len = builders.length
  | 0, k, cache, hk, h, hlen => by
    rw [Nat.add_zero] at hk
    subst hk
    exact ⟨h, hlen⟩
  | m + 1, k, cache, hk, h, hlen => by
    have hlt : k < builders.length := by omega
    have hnext : (builders.map (·.pubkey))[k]? = some builders[k].pubkey := by simp [hlt]
    have hstep : cacheBuilderAt builders cache k = cache.insert builders[k].pubkey k := by
      simp [cacheBuilderAt, hlt]
    obtain ⟨h', hlen'⟩ := h.insert_next hnd hnext
    rw [List.range'_succ, List.foldl_cons, hstep]
    exact indexes_foldl_cacheBuilderAt hnd m (k + 1) _ (by omega) h' (by omega)

/-- `update_builder_pubkey_cache` completes a coherent cache. -/
theorem Coherent.complete_update (h : Coherent state) :
    Complete (updateBuilderPubkeyCache state) := by
  have hm : state.builderPubkeyCache.len +
      (state.builders.length - state.builderPubkeyCache.len) = state.builders.length := by
    have := h.len_le
    omega
  obtain ⟨hidx, hlen⟩ := indexes_foldl_cacheBuilderAt h.nodup _ _ _ hm h.indexes rfl
  refine Complete.of_indexes rfl h.nodup ?_ ?_
  · rwa [BeaconState.length_builderPubkeys]
  · rwa [BeaconState.length_builderPubkeys]

/-- A complete cache holds exactly the builders' pubkeys, each at its index. -/
theorem Complete.get_eq_some_iff (h : Complete state) {index : Nat} :
    state.builderPubkeyCache.get pubkey = some index ↔
      state.builders[index]?.map (·.pubkey) = some pubkey := by
  rw [h.indexes pubkey index, ← List.getElem?_map]
  exact ⟨And.right, fun hindex => ⟨(List.getElem?_eq_some_iff.1 hindex).1, hindex⟩⟩

/-! ### The deposits keep the cache complete -/

variable {spec : DepositSpec} {isValidDepositSignature : DepositData → Bool}

/-- A builder deposit keeps a complete cache complete: a top-up keeps the pubkeys, and a new
builder takes a pubkey the cache lacks, at a reused index or at the end. -/
theorem Complete.applyBuilderDepositWith {credentialsError : Error}
    {withdrawalCredentials : Vector UInt8 32} {amount : Nat} {signature : List UInt8} {slot : Nat}
    (h : Complete state)
    (hok : BuilderDeposits.applyBuilderDepositWith spec isValidDepositSignature credentialsError
      state pubkey withdrawalCredentials amount signature slot = .ok state') :
    Complete state' := by
  unfold BuilderDeposits.applyBuilderDepositWith at hok
  split at hok
  · -- a top-up
    split at hok
    · cases hok
    · rename_i builder hb
      cases hok
      exact h.of_eq (builderPubkeys_set hb rfl) rfl
  · rename_i hget
    split at hok
    · cases hok
      exact h
    · split at hok
      · dsimp only at hok
        split at hok
        · -- the index of an exited builder: its pubkey moves out of the cache
          split at hok
          · rename_i old hold
            cases hok
            exact h.replace hget hold rfl
          · -- a reused index holds a builder
            rename_i hlt _ hnone
            simp [hlt] at hnone
        · split at hok
          · cases hok
          · cases hok
            exact h.append hget rfl
      · cases hok

/-- A deposit request keeps a complete cache complete: it goes to the builders, or to the
pending deposits, which the cache does not read. -/
theorem Complete.processDepositRequestGloas {request : DepositRequest} (h : Complete state)
    (hok : BuilderDeposits.processDepositRequestGloas spec isValidDepositSignature state request =
      .ok state') :
    Complete state' := by
  unfold BuilderDeposits.processDepositRequestGloas at hok
  dsimp only at hok
  split at hok
  · exact h.applyBuilderDepositWith hok
  · split at hok
    · cases hok
    · cases hok
      exact h.of_eq rfl rfl

/-- `process_deposit_requests` leaves a coherent cache complete: it updates the cache first,
and each request keeps it complete. -/
theorem Coherent.processDepositRequests {requests : List DepositRequest} (h : Coherent state)
    (hok : BuilderDeposits.processDepositRequests spec isValidDepositSignature state requests =
      .ok state') :
    Complete state' :=
  Except.foldlM_invariant (fun _ _ _ hb hstep => hb.processDepositRequestGloas hstep) requests
    h.complete_update hok

/-- A pending deposit at the fork keeps the cache of the state it carries complete. -/
theorem Complete.onboardPendingDeposit
    {acc acc' : BeaconState × List PendingDeposit × List PublicKeyBytes}
    {deposit : PendingDeposit}
    (h : Complete acc.1)
    (hok : BuilderDeposits.onboardPendingDeposit spec isValidDepositSignature acc deposit =
      .ok acc') :
    Complete acc'.1 := by
  obtain ⟨state, newPendingDeposits, newValidatorPubkeys⟩ := acc
  unfold BuilderDeposits.onboardPendingDeposit at hok
  dsimp only at hok
  split at hok
  · cases hok
    exact h
  · split at hok
    · -- a builder deposit
      obtain ⟨state', hstate', rfl⟩ := Except.map_eq_ok.1 hok
      exact h.applyBuilderDepositWith hstate'
    · split at hok <;> cases hok <;> exact h

/-- `upgrade_to_gloas` leaves the cache complete: it starts empty, with no builders. -/
theorem complete_upgradeToGloas {slot : Nat} {validatorPubkeys : List PublicKeyBytes}
    {pendingDeposits : List PendingDeposit}
    (hok : upgradeToGloas spec isValidDepositSignature slot validatorPubkeys pendingDeposits =
      .ok state) :
    Complete state := by
  unfold upgradeToGloas onboardBuildersFromPendingDeposits at hok
  obtain ⟨⟨state₁, newPendingDeposits, _⟩, hfold, hrest⟩ := Except.bind_eq_ok.1 hok
  -- the fold starts from no builders and an empty cache
  have h₁ : Complete state₁ := by
    refine Except.foldlM_invariant
      (fun (acc : BeaconState × List PendingDeposit × List PublicKeyBytes) _ _
        (hb : Complete acc.1) hstep => hb.onboardPendingDeposit hstep) pendingDeposits ?_ hfold
    exact Complete.of_indexes rfl List.nodup_nil (indexes_empty _) rfl
  dsimp only at hrest
  split at hrest
  · cases hrest
  · cases hrest
    exact h₁.of_eq rfl rfl

end Invariant

/-! ## Runs -/

/-- What a run does to the state between two upgrades of the cache: the block processing of the
deposit requests, dropping the caches (`drop_all_caches`, or a state loaded from the database),
an explicit `update_builder_pubkey_cache`, and the rest of the processing, which moves the slot,
a builder's balance and exit (withdrawals, exits, payments), the pending deposits and the
validators. -/
inductive Op
  | processDepositRequests (requests : List DepositRequest)
  | dropCaches
  | updateBuilderPubkeyCache
  | setSlot (slot : Nat)
  | setBuilderAccount (index balance withdrawableEpoch : Nat)
  | setPendingDeposits (pendingDeposits : List PendingDeposit)
  | addValidator (pubkey : PublicKeyBytes)

section Runs

variable (spec : DepositSpec) (isValidDepositSignature : DepositData → Bool)

/-- The state after `op`; a block whose deposits fail is dropped with its state. -/
def Op.apply (state : BeaconState) : Op → BeaconState
  | .processDepositRequests requests =>
    match BuilderDeposits.processDepositRequests spec isValidDepositSignature state requests with
    | .ok state' => state'
    | .error _ => state
  | .dropCaches => { state with builderPubkeyCache := .empty }
  | .updateBuilderPubkeyCache => BuilderDeposits.updateBuilderPubkeyCache state
  | .setSlot slot => { state with slot }
  | .setBuilderAccount index balance withdrawableEpoch =>
    { state with
      builders := state.builders.modify index fun builder =>
        { builder with balance, withdrawableEpoch } }
  | .setPendingDeposits pendingDeposits => { state with pendingDeposits }
  | .addValidator pubkey => { state with validatorPubkeys := state.validatorPubkeys ++ [pubkey] }

def runOps (state : BeaconState) (ops : List Op) : BeaconState :=
  ops.foldl (Op.apply spec isValidDepositSignature) state

end Runs

/-! ## Every run keeps the cache coherent -/

section RunInvariant

variable {spec : DepositSpec} {isValidDepositSignature : DepositData → Bool} {state : BeaconState}

/-- Each operation keeps the invariant: a block of deposits leaves the cache complete or is
dropped, a reload empties the cache, and the rest moves no pubkey and leaves the cache alone. -/
theorem Coherent.apply_op (h : Coherent state) (op : Op) :
    Coherent (op.apply spec isValidDepositSignature state) := by
  cases op with
  | processDepositRequests requests =>
    rw [Op.apply]
    split
    · rename_i hok
      exact (h.processDepositRequests hok).coherent
    · exact h
  | dropCaches => exact ⟨h.nodup, Nat.zero_le _, indexes_empty _⟩
  | updateBuilderPubkeyCache => exact h.complete_update.coherent
  | setSlot => exact h.of_eq rfl rfl
  | setBuilderAccount index =>
    exact h.of_eq (builderPubkeys_modify state.builders index fun _ => rfl) rfl
  | setPendingDeposits => exact h.of_eq rfl rfl
  | addValidator => exact h.of_eq rfl rfl

/-- A run keeps the invariant; by induction on the operations. -/
theorem Coherent.run (h : Coherent state) (ops : List Op) :
    Coherent (runOps spec isValidDepositSignature state ops) := by
  induction ops generalizing state with
  | nil => exact h
  | cons op ops ih => exact ih (h.apply_op op)

/-- Along every run from the fork, the builders' pubkeys are distinct, and
`update_builder_pubkey_cache` leaves a cache that holds exactly the builders' pubkeys, each at
its index: the map a cache rebuilt from scratch holds. -/
theorem builder_pubkey_cache_coherent {slot : Nat} {validatorPubkeys : List PublicKeyBytes}
    {pendingDeposits : List PendingDeposit}
    (hupgrade : upgradeToGloas spec isValidDepositSignature slot validatorPubkeys pendingDeposits =
      .ok state)
    (ops : List Op) :
    ((runOps spec isValidDepositSignature state ops).builders.map (·.pubkey)).Nodup ∧
      (∀ pubkey index,
        (updateBuilderPubkeyCache
            (runOps spec isValidDepositSignature state ops)).builderPubkeyCache.get pubkey =
          some index ↔
        (runOps spec isValidDepositSignature state ops).builders[index]?.map (·.pubkey) =
          some pubkey) ∧
      ∀ pubkey,
        (updateBuilderPubkeyCache
            (runOps spec isValidDepositSignature state ops)).builderPubkeyCache.get pubkey =
          (updateBuilderPubkeyCache (Op.dropCaches.apply spec isValidDepositSignature
            (runOps spec isValidDepositSignature state ops))).builderPubkeyCache.get pubkey := by
  have hrun : Coherent (runOps spec isValidDepositSignature state ops) :=
    (complete_upgradeToGloas hupgrade).coherent.run ops
  have hupdated := hrun.complete_update
  -- the cache built from scratch: the same builders, from an empty cache
  have hrebuilt : Complete (updateBuilderPubkeyCache (Op.dropCaches.apply spec
      isValidDepositSignature (runOps spec isValidDepositSignature state ops))) :=
    (hrun.apply_op Op.dropCaches).complete_update
  exact ⟨hrun.nodup, fun _ _ => hupdated.get_eq_some_iff,
    hupdated.indexes.get_eq hrebuilt.indexes⟩

/-! ### A run that reuses an index -/

/-- Four slots an epoch, and room for eight builders and eight pending deposits. -/
def sampleSpec : DepositSpec := ⟨4, 1000, 8, 8⟩

def samplePubkey (byte : UInt8) : PublicKeyBytes := Vector.replicate 48 byte

def builderCredentials : Vector UInt8 32 := Vector.replicate 32 builderWithdrawalPrefix

/-- The state after the fork with one pending builder deposit. -/
def onboardedState : BeaconState :=
  { slot := 0, validatorPubkeys := [],
    builders := [⟨samplePubkey 1, builderWithdrawalPrefix,
      List.replicate 20 builderWithdrawalPrefix, 5, 0, 1000⟩],
    pendingDeposits := [],
    builderPubkeyCache := BuilderPubkeyCache.empty.insert (samplePubkey 1) 0 }

/-- The builder exits with no balance; two epochs on, a deposit for a new pubkey takes its index,
and the state is reloaded. -/
def reuseOps : List Op :=
  [.setBuilderAccount 0 0 0, .setSlot 8,
    .processDepositRequests [⟨samplePubkey 2, builderCredentials, 7, []⟩], .dropCaches]

def reusedState : BeaconState := runOps sampleSpec (fun _ => true) onboardedState reuseOps

example : reusedState.builders.map (·.pubkey) = [samplePubkey 2] := by decide

theorem builder_pubkey_cache_coherent_after_reuse :
    (reusedState.builders.map (·.pubkey)).Nodup ∧
      (∀ pubkey index,
        (updateBuilderPubkeyCache reusedState).builderPubkeyCache.get pubkey = some index ↔
          reusedState.builders[index]?.map (·.pubkey) = some pubkey) ∧
      ∀ pubkey, (updateBuilderPubkeyCache reusedState).builderPubkeyCache.get pubkey =
        (updateBuilderPubkeyCache (Op.dropCaches.apply sampleSpec (fun _ => true)
          reusedState)).builderPubkeyCache.get pubkey :=
  builder_pubkey_cache_coherent
    (show upgradeToGloas sampleSpec (fun _ => true) 0 []
      [⟨samplePubkey 1, builderCredentials, 5, [], 0⟩] = .ok onboardedState from rfl) reuseOps

end RunInvariant

end Vibehouse.Gloas.BuilderDeposits
