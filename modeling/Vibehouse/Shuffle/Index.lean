import Vibehouse.Lib.FixedCodec

/-! # Swap-or-not shuffling, one index at a time

`compute_shuffled_index` of the `swap_or_not_shuffle` crate: each round draws a pivot from the
hash of the seed and the round, pairs every position `x` with `flip = (pivot - x) mod n`, and
swaps the pair when a bit of the hash at the larger of the two is set. Both members of a pair
read the same bit, so a round is an involution of the positions; a run of rounds is undone by
the same rounds in reverse order. SHA-256 is a parameter: nothing here depends on what it
computes. -/

namespace Vibehouse.Shuffle

open FixedCodec

section Hashing

variable (sha256 : List UInt8 → Vector UInt8 32)

/-- The four bytes of a position in the hashed buffer: `to_le_bytes()[0..4]`. -/
def positionWindow (x : Nat) : List UInt8 := (u64ToLeBytes (UInt64.ofNat x)).take 4

/-- `bytes_to_int64`: the first eight bytes of a digest, little-endian. -/
def bytesToInt64 (bytes : Vector UInt8 32) : Nat := beValue (bytes.toList.take 8).reverse

/-- `hash_with_round`: the hash of the seed and the round. -/
def hashWithRound (seed : Vector UInt8 32) (round : UInt8) : Vector UInt8 32 :=
  sha256 (seed.toList ++ [round])

/-- `hash_with_round_and_position`: the hash of the seed, the round and the 256-position block of
`position`. -/
def hashWithRoundAndPosition (seed : Vector UInt8 32) (round : UInt8) (position : Nat) :
    Vector UInt8 32 :=
  sha256 (seed.toList ++ [round] ++ positionWindow (position / 256))

/-- `do_round`. The byte is a `u8` shifted by less than eight, read here as a natural number. -/
def doRound (seed : Vector UInt8 32) (index pivot : Nat) (round : UInt8) (listSize : Nat) : Nat :=
  let flip := (pivot + (listSize - index)) % listSize
  let position := max index flip
  let source := hashWithRoundAndPosition sha256 seed round position
  let byte := source.toList.getD ((position % 256) / 8) 0
  let bit := (byte.toNat >>> (position % 8)) % 2
  if bit = 1 then flip else index

/-- `usize::MAX`. -/
def usizeMax : Nat := 2 ^ 64 - 1

/-- The pivot of a round: `bytes_to_int64(hash_with_round(seed, round)) % list_size`. -/
def roundPivot (seed : Vector UInt8 32) (round : UInt8) (listSize : Nat) : Nat :=
  bytesToInt64 (hashWithRound sha256 seed round) % listSize

/-- `compute_shuffled_index`. -/
def computeShuffledIndex (index listSize : Nat) (seed : Vector UInt8 32)
    (shuffleRoundCount : UInt8) : Option Nat :=
  if listSize = 0 ∨ index ≥ listSize ∨ listSize > usizeMax / 2 ∨ listSize > 2 ^ 24 then none
  else
    some ((List.range shuffleRoundCount.toNat).foldl (fun index round =>
      doRound sha256 seed index (roundPivot sha256 seed (UInt8.ofNat round) listSize)
        (UInt8.ofNat round) listSize) index)

/-- The bit that decides the pair whose larger member is `position`: bit `position % 8` of byte
`(position % 256) / 8` of the hash of the position's block. -/
def bitAt (seed : Vector UInt8 32) (round : UInt8) (position : Nat) : Prop :=
  ((hashWithRoundAndPosition sha256 seed round position).toList.getD ((position % 256) / 8)
    0).toNat >>> (position % 8) % 2 = 1

instance (seed : Vector UInt8 32) (round : UInt8) (position : Nat) :
    Decidable (bitAt sha256 seed round position) :=
  inferInstanceAs (Decidable (_ = _))

end Hashing

/-! ## The pairing of a round -/

section Flip

variable {pivot n x : Nat}

/-- The partner of `x` in a round with `pivot`: `(pivot - x) mod n`. -/
def flipOf (pivot n x : Nat) : Nat := (pivot + (n - x)) % n

theorem flipOf_of_le (hx : x ≤ pivot) (hp : pivot < n) : flipOf pivot n x = pivot - x := by
  rw [flipOf, show pivot + (n - x) = pivot - x + n by omega, Nat.add_mod_right,
    Nat.mod_eq_of_lt (by omega)]

theorem flipOf_of_lt (hx : pivot < x) (hxn : x < n) : flipOf pivot n x = pivot + n - x := by
  rw [flipOf, Nat.mod_eq_of_lt (by omega)]
  omega

theorem flipOf_lt (hn : 0 < n) : flipOf pivot n x < n := Nat.mod_lt _ hn

/-- The pairing is an involution of the positions `0..n`. -/
theorem flipOf_flipOf (hx : x < n) (hp : pivot < n) : flipOf pivot n (flipOf pivot n x) = x := by
  rcases Nat.lt_or_ge pivot x with hlt | hle
  · rw [flipOf_of_lt hlt hx, flipOf_of_lt (by omega) (by omega)]
    omega
  · rw [flipOf_of_le hle hp, flipOf_of_le (by omega) hp]
    omega

end Flip

/-! ## A round is an involution -/

section Round

variable (sha256 : List UInt8 → Vector UInt8 32) (seed : Vector UInt8 32) (round : UInt8)

/-- `do_round` swaps `index` with its partner when the bit at the larger of the two is set. -/
theorem doRound_eq (index pivot n : Nat) :
    doRound sha256 seed index pivot round n =
      if bitAt sha256 seed round (max index (flipOf pivot n index)) then flipOf pivot n index
      else index := rfl

theorem doRound_lt {index pivot n : Nat} (hx : index < n) :
    doRound sha256 seed index pivot round n < n := by
  rw [doRound_eq]
  split_ifs
  · exact flipOf_lt (by omega)
  · exact hx

/-- Both members of a pair read the same bit, so a round undoes itself. -/
theorem doRound_doRound {index pivot n : Nat} (hx : index < n) (hp : pivot < n) :
    doRound sha256 seed (doRound sha256 seed index pivot round n) pivot round n = index := by
  by_cases hbit : bitAt sha256 seed round (max index (flipOf pivot n index))
  · have hmax : max (flipOf pivot n index) (flipOf pivot n (flipOf pivot n index)) =
        max index (flipOf pivot n index) := by
      rw [flipOf_flipOf hx hp, Nat.max_comm]
    rw [doRound_eq sha256 seed round index, if_pos hbit, doRound_eq, hmax, if_pos hbit,
      flipOf_flipOf hx hp]
  · rw [doRound_eq sha256 seed round index, if_neg hbit, doRound_eq, if_neg hbit]

end Round

/-! ## Runs of rounds -/

section Rounds

variable (sha256 : List UInt8 → Vector UInt8 32) (seed : Vector UInt8 32) (n : Nat)

/-- The per-index rounds, in the order of `rounds`. -/
def roundsFold (rounds : List Nat) (index : Nat) : Nat :=
  rounds.foldl (fun index round =>
    doRound sha256 seed index (roundPivot sha256 seed (UInt8.ofNat round) n) (UInt8.ofNat round)
      n) index

theorem roundPivot_lt (round : UInt8) (hn : 0 < n) : roundPivot sha256 seed round n < n :=
  Nat.mod_lt _ hn

theorem roundsFold_cons (round : Nat) (rounds : List Nat) (index : Nat) :
    roundsFold sha256 seed n (round :: rounds) index =
      roundsFold sha256 seed n rounds
        (doRound sha256 seed index (roundPivot sha256 seed (UInt8.ofNat round) n)
          (UInt8.ofNat round) n) := rfl

theorem roundsFold_append_singleton (rounds : List Nat) (round index : Nat) :
    roundsFold sha256 seed n (rounds ++ [round]) index =
      doRound sha256 seed (roundsFold sha256 seed n rounds index)
        (roundPivot sha256 seed (UInt8.ofNat round) n) (UInt8.ofNat round) n := by
  simp [roundsFold, List.foldl_append]

theorem roundsFold_lt (rounds : List Nat) {index : Nat} (hx : index < n) :
    roundsFold sha256 seed n rounds index < n := by
  induction rounds generalizing index with
  | nil => exact hx
  | cons round rounds ih =>
    rw [roundsFold_cons]
    exact ih (doRound_lt sha256 seed _ hx)

/-- The rounds in reverse order undo the rounds. -/
theorem roundsFold_reverse_roundsFold (hn : 0 < n) (rounds : List Nat) {index : Nat}
    (hx : index < n) :
    roundsFold sha256 seed n rounds.reverse (roundsFold sha256 seed n rounds index) = index := by
  induction rounds generalizing index with
  | nil => rfl
  | cons round rounds ih =>
    have hd : doRound sha256 seed index (roundPivot sha256 seed (UInt8.ofNat round) n)
        (UInt8.ofNat round) n < n := doRound_lt sha256 seed _ hx
    rw [List.reverse_cons, roundsFold_append_singleton, roundsFold_cons, ih hd,
      doRound_doRound sha256 seed _ hx (roundPivot_lt sha256 seed n _ hn)]

theorem computeShuffledIndex_eq {index : Nat} (shuffleRoundCount : UInt8) (hx : index < n)
    (hn : n ≤ 2 ^ 24) :
    computeShuffledIndex sha256 index n seed shuffleRoundCount =
      some (roundsFold sha256 seed n (List.range shuffleRoundCount.toNat) index) := by
  rw [computeShuffledIndex, if_neg (by unfold usizeMax; omega)]
  rfl

end Rounds

end Vibehouse.Shuffle
