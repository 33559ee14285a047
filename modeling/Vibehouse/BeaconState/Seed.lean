import Vibehouse.Lib.MachineInt
import Vibehouse.Lib.FixedCodec

/-! # The seed of an epoch

`BeaconState::get_seed` (`consensus/types/src/beacon_state.rs`) hashes the four bytes of a
domain's constant, the eight bytes of the epoch and the RANDAO mix stored for
`epoch + EPOCHS_PER_HISTORICAL_VECTOR - MIN_SEED_LOOKAHEAD - 1`, read modulo the length of the
mixes and without the range check of `get_randao_mix`. The committee cache and the payload
timeliness committee draw their randomness from it. SHA-256 (`hash_fixed`) is a parameter.

In a state the mixes are the `EPOCHS_PER_HISTORICAL_VECTOR` entries of a fixed vector, so the
seed of an epoch exists as soon as the index arithmetic stays within a `u64`
(`getSeed_eq_ok`). -/

namespace Vibehouse

open MachineInt FixedCodec

/-- `int_to_bytes4`: the four little-endian bytes of a `u32`. -/
def intToBytes4 (x : Nat) : List UInt8 := (beBytes 4 x).reverse

/-- `int_to_bytes8`: the eight little-endian bytes of a `u64`. -/
def intToBytes8 (x : Nat) : List UInt8 := u64ToLeBytes (UInt64.ofNat x)

namespace BeaconState

/-- The constants `get_seed` reads: `E::EpochsPerHistoricalVector` and `MIN_SEED_LOOKAHEAD`. -/
structure SeedSpec where
  epochsPerHistoricalVector : Nat
  minSeedLookahead : Nat
  deriving DecidableEq, Repr

/-- The `BeaconStateError`s of `get_seed`. -/
inductive SeedError
  | arithError
  | randaoMixesOutOfBounds (index : Nat)
  deriving DecidableEq, Repr

/-- `epoch.safe_add(EPOCHS_PER_HISTORICAL_VECTOR)?.safe_sub(MIN_SEED_LOOKAHEAD)?.safe_sub(1)?`:
the epoch of the mix, shifted by a whole vector so that epoch 0 does not underflow. -/
def seedMixEpoch (spec : SeedSpec) (epoch : Nat) : Option Nat :=
  (uCheckedAdd 64 epoch spec.epochsPerHistoricalVector).bind fun a =>
    (uCheckedSub a spec.minSeedLookahead).bind fun b => uCheckedSub b 1

/-- `get_seed(epoch, domain_type, spec)`, given the constant of the domain. -/
def getSeed (sha256 : List UInt8 → Vector UInt8 32) (spec : SeedSpec)
    (randaoMixes : List (Vector UInt8 32)) (domainConstant epoch : Nat) :
    Except SeedError (Vector UInt8 32) := do
  let i ← match seedMixEpoch spec epoch with
    | some i => pure i
    | none => throw .arithError
  let iMod ← match uCheckedRem i randaoMixes.length with
    | some iMod => pure iMod
    | none => throw .arithError
  let mix ← match randaoMixes[iMod]? with
    | some mix => pure mix
    | none => throw (.randaoMixesOutOfBounds iMod)
  -- the preimage `[domain_bytes, epoch_bytes, mix]` of `NUM_DOMAIN_BYTES + NUM_EPOCH_BYTES +
  -- NUM_MIX_BYTES` bytes
  pure (sha256 (intToBytes4 domainConstant ++ intToBytes8 epoch ++ mix.toList))

theorem seedMixEpoch_eq {spec : SeedSpec} {epoch : Nat}
    (hepoch : epoch + spec.epochsPerHistoricalVector < 2 ^ 64)
    (hlookahead : spec.minSeedLookahead < epoch + spec.epochsPerHistoricalVector) :
    seedMixEpoch spec epoch =
      some (epoch + spec.epochsPerHistoricalVector - spec.minSeedLookahead - 1) := by
  simp only [seedMixEpoch, uCheckedAdd, if_pos hepoch, Option.bind_some,
    uCheckedSub_of_le (Nat.le_of_lt hlookahead),
    uCheckedSub_of_le (show 1 ≤ epoch + spec.epochsPerHistoricalVector - spec.minSeedLookahead by
      omega)]

/-- With mixes, the seed of an epoch whose shifted index fits a `u64` is the hash of the mix at
that index modulo their number. -/
theorem getSeed_eq_ok (sha256 : List UInt8 → Vector UInt8 32) (spec : SeedSpec)
    {randaoMixes : List (Vector UInt8 32)} (hmixes : 0 < randaoMixes.length)
    (domainConstant : Nat) {epoch : Nat}
    (hepoch : epoch + spec.epochsPerHistoricalVector < 2 ^ 64)
    (hlookahead : spec.minSeedLookahead < epoch + spec.epochsPerHistoricalVector) :
    ∃ mix, randaoMixes[(epoch + spec.epochsPerHistoricalVector - spec.minSeedLookahead - 1) %
        randaoMixes.length]? = some mix ∧
      getSeed sha256 spec randaoMixes domainConstant epoch =
        .ok (sha256 (intToBytes4 domainConstant ++ intToBytes8 epoch ++ mix.toList)) := by
  have hlt := Nat.mod_lt (epoch + spec.epochsPerHistoricalVector - spec.minSeedLookahead - 1)
    hmixes
  refine ⟨_, List.getElem?_eq_getElem hlt, ?_⟩
  have hrem : uCheckedRem (epoch + spec.epochsPerHistoricalVector - spec.minSeedLookahead - 1)
      randaoMixes.length =
      some ((epoch + spec.epochsPerHistoricalVector - spec.minSeedLookahead - 1) %
        randaoMixes.length) := by
    rw [uCheckedRem, if_neg (Nat.pos_iff_ne_zero.1 hmixes)]
  simp only [getSeed, seedMixEpoch_eq hepoch hlookahead, pure_bind, hrem,
    List.getElem?_eq_getElem hlt]
  rfl

end BeaconState
end Vibehouse
