import Vibehouse.Store.HDiff

/-! # Applying a computed diff rebuilds the target

`HDiff::apply` on the source buffer undoes `HDiff::compute`, part by part, when the xdelta3
codec and the compression meet their laws. The state bytes come back by the xdelta3 law. A
balance or an inactivity score comes back because wrapping addition undoes wrapping
subtraction, and a new one is pushed at its own index (`CompressedU64Diff.apply_compute`). The
history lists come back when the source's are prefixes of the target's.

A validator comes back as `roundTripValidator` says (`ValidatorsDiff.apply_compute`): pushed
when it is new, and otherwise the source's validator with the diff record applied to it. The
record marks an unchanged field by a sentinel, so a change comes back exactly when no field is
changed into its sentinel (`applyValidatorDiff_validatorDiff_eq_iff`). The comments of the
source say which changes cannot happen (`Validator.MonotoneChange`); the pubkey's sentinel, the
empty pubkey, is not among them, and a pubkey changed into it is read back as kept. A validator
index is written as a `u64`, so the target holds at most `2 ^ 64` validators. -/

namespace Vibehouse.Store

open FixedCodec

/-! ## One validator -/

namespace Validator

/-- The changes the comments of `ValidatorsDiff::compute` rule out do not happen: with its pubkey
kept, a validator's withdrawal credentials are not changed into the zero hash and it does not go
back from slashed, and none of its epochs is changed into epoch 0. -/
def MonotoneChange (x y : Validator) : Prop :=
  (y.pubkey = x.pubkey →
    (y.withdrawalCredentials ≠ x.withdrawalCredentials →
      y.withdrawalCredentials ≠ hash256Zero) ∧ (x.slashed = true → y.slashed = true)) ∧
  (y.activationEligibilityEpoch ≠ x.activationEligibilityEpoch →
    y.activationEligibilityEpoch ≠ 0) ∧
  (y.activationEpoch ≠ x.activationEpoch → y.activationEpoch ≠ 0) ∧
  (y.exitEpoch ≠ x.exitEpoch → y.exitEpoch ≠ 0) ∧
  (y.withdrawableEpoch ≠ x.withdrawableEpoch → y.withdrawableEpoch ≠ 0)

instance (x y : Validator) : Decidable (x.MonotoneChange y) :=
  inferInstanceAs (Decidable (_ ∧ _ ∧ _ ∧ _ ∧ _))

/-- A change that the diff record carries: a monotone one, in which a changed pubkey is not
the empty pubkey. -/
def Diffable (x y : Validator) : Prop :=
  x.MonotoneChange y ∧ (y.pubkey ≠ x.pubkey → y.pubkey ≠ emptyPubkey)

instance (x y : Validator) : Decidable (x.Diffable y) :=
  inferInstanceAs (Decidable (_ ∧ _))

end Validator

/-- A `u64` field written as its wrapping difference and read back by adding it, unless it is
0, comes back. -/
theorem wrapping_sentinel (a b : UInt64) : (if b - a != 0 then a + (b - a) else a) = b := by
  split <;> grind

/-- An epoch written as 0 when unchanged, and read back unless it is 0, comes back exactly when
it was not changed into 0. -/
theorem epoch_sentinel_eq_iff (a b : UInt64) :
    (if (if b = a then 0 else b) != 0 then (if b = a then 0 else b) else a) = b ↔
      (b ≠ a → b ≠ 0) := by
  by_cases hba : b = a
  · simp [hba]
  · by_cases hb : b = 0
    · subst hb
      simp [hba, Ne.symm hba]
    · simp [hba, hb]

/-- Withdrawal credentials written as the sentinel when unchanged, and read back unless they are
the sentinel, come back exactly when they were not changed into the sentinel. -/
theorem credentials_sentinel_eq_iff (a b : Bytes32) :
    (if ((if (b != a) = true then b else hash256Zero) != hash256Zero) = true then
        (if (b != a) = true then b else hash256Zero) else a) = b ↔
      (b ≠ a → b ≠ hash256Zero) := by
  by_cases hba : b = a
  · simp [hba]
  · by_cases hb : b = hash256Zero
    · subst hb
      simp [hba, Ne.symm hba]
    · simp [hba, hb]

/-- Slashed, written as it is and read back when it is set, comes back exactly when it does not
go back to false. -/
theorem slashed_sentinel_eq_iff (a b : Bool) :
    (if b = true then b else a) = b ↔ (a = true → b = true) := by
  cases a <;> cases b <;> decide

/-- The record of a changed validator, applied to it, gives the new validator back exactly when
the change is one the record carries. -/
theorem applyValidatorDiff_validatorDiff_eq_iff (x y : Validator) :
    applyValidatorDiff x (validatorDiff x y) = y ↔ x.Diffable y := by
  obtain ⟨pk, wc, eb, sl, e₁, e₂, e₃, e₄⟩ := x
  obtain ⟨pk', wc', eb', sl', e₁', e₂', e₃', e₄'⟩ := y
  simp only [applyValidatorDiff, validatorDiff, Validator.mk.injEq, Validator.Diffable,
    Validator.MonotoneChange, epoch_sentinel_eq_iff, wrapping_sentinel, true_and]
  by_cases hpk : pk' = pk
  · -- the pubkey is kept and written as the empty pubkey; the credentials and slashed are read
    -- back from their own sentinels
    subst hpk
    simp only [bne_self_eq_false, Bool.false_or, Bool.false_eq_true, if_false,
      credentials_sentinel_eq_iff, slashed_sentinel_eq_iff, true_and, true_implies, ne_eq,
      not_true_eq_false, false_implies, and_true, and_assoc]
  · by_cases hempty : pk' = emptyPubkey
    · -- a pubkey changed into the empty pubkey is read back as kept
      subst hempty
      simp [hpk, Ne.symm hpk]
    · -- a new pubkey overwrites the credentials and slashed
      simp [hpk, hempty]

/-! ## Rebuilding a list in place

The loops of `apply` rebuild the list in place, one index after the other: after the entries
`done` are rebuilt, the list is `done` followed by the source's entries past them. -/

section InPlace

variable {α : Type} {xs done : List α}

theorem getElem?_append_drop_length :
    (done ++ xs.drop done.length)[done.length]? = xs[done.length]? := by
  rw [List.getElem?_append_right (Nat.le_refl _), Nat.sub_self, List.getElem?_drop,
    Nat.add_zero]

/-- Writing over the next source entry rebuilds one more entry. -/
theorem set_append_drop_length {x : α} (hx : xs[done.length]? = some x) (v : α) :
    (done ++ xs.drop done.length).set done.length v = done ++ v :: xs.drop (done.length + 1) := by
  obtain ⟨h, -⟩ := List.getElem?_eq_some_iff.1 hx
  rw [List.set_append_right _ _ (Nat.le_refl _), Nat.sub_self, List.drop_eq_getElem_cons h,
    List.set_cons_zero]

/-- A source entry left as it is counts as rebuilt. -/
theorem append_drop_length_of_getElem? {x : α} (hx : xs[done.length]? = some x) :
    done ++ xs.drop done.length = done ++ x :: xs.drop (done.length + 1) := by
  obtain ⟨h, rfl⟩ := List.getElem?_eq_some_iff.1 hx
  rw [List.drop_eq_getElem_cons h]

/-- Past the source's end, pushing rebuilds one more entry. -/
theorem append_drop_length_of_getElem?_eq_none (hx : xs[done.length]? = none) (v : α) :
    done ++ xs.drop done.length ++ [v] = done ++ v :: xs.drop (done.length + 1) := by
  rw [List.getElem?_eq_none_iff] at hx
  rw [List.drop_of_length_le hx, List.drop_of_length_le (by omega), List.append_nil]

end InPlace

/-! ## Balances and inactivity scores -/

/-- From index `done.length` on, the loop of `CompressedU64Diff::apply` over the differences of
`rest` from the source turns `done ++ xs.drop done.length` into `done ++ rest`; the induction
is on `rest`. -/
theorem CompressedU64Diff.applyChunks_differences {xs : List UInt64} :
    ∀ (rest done : List UInt64), xs.length ≤ done.length + rest.length →
      CompressedU64Diff.applyChunks done.length
          ((rest.zipIdx done.length).map fun (y, i) => u64ToBeBytes (y - xs.getD i 0))
          (done ++ xs.drop done.length) =
        .ok (done ++ rest)
  | [], done, h => by
    rw [List.drop_of_length_le (by simpa using h)]
    rfl
  | y :: rest, done, h => by
    have ih := @applyChunks_differences xs rest (done ++ [y]) (by simp at h ⊢; omega)
    simp only [List.length_append, List.length_singleton, List.append_assoc,
      List.singleton_append] at ih
    rw [List.zipIdx_cons, List.map_cons, CompressedU64Diff.applyChunks,
      u64FromBeBytes_u64ToBeBytes, getElem?_append_drop_length]
    cases hx : xs[done.length]? with
    | some x =>
      -- the entry is there: the difference is added to it
      rw [List.getD_eq_getElem?_getD, hx, Option.getD_some]
      dsimp only at ih ⊢
      rw [set_append_drop_length hx, show x + (y - x) = y by grind]
      exact ih
    | none =>
      -- the entry is new: its difference from 0 is pushed
      rw [List.getD_eq_getElem?_getD, hx, Option.getD_none, UInt64.sub_zero]
      dsimp only at ih ⊢
      rw [append_drop_length_of_getElem?_eq_none hx]
      exact ih

section Config

variable (config : StoreConfig)

/-- Balances or inactivity scores that do not shrink come back from their diff. -/
theorem CompressedU64Diff.apply_compute {xs ys : List UInt64} (h : xs.length ≤ ys.length) :
    ∃ diff, CompressedU64Diff.compute config xs ys = .ok diff ∧
      diff.apply config xs = .ok ys := by
  refine ⟨_, if_neg (Nat.not_lt.2 h), ?_⟩
  have hchunks : chunks 8 (ys.zipIdx.flatMap fun (y, i) => u64ToBeBytes (y - xs.getD i 0)) =
      (ys.zipIdx 0).map fun (y, i) => u64ToBeBytes (y - xs.getD i 0) := by
    have := chunks_flatMap beU64 (ys.zipIdx.map fun (y, i) => y - xs.getD i 0)
    rw [List.flatMap_map, List.map_map] at this
    exact this
  rw [CompressedU64Diff.apply, config.decompress_compress]
  dsimp only
  rw [hchunks]
  simpa using CompressedU64Diff.applyChunks_differences ys [] (by simpa using h)

end Config

/-! ## Validators -/

/-- What applying the computed diff makes of the validator `y` at index `i`: the source's
validator there with its record applied, or `y` itself when it is new. -/
def roundTripValidator (xs : List Validator) (y : Validator) (i : Nat) : Validator :=
  match xs[i]? with
  | some x => applyValidatorDiff x (validatorDiff x y)
  | none => y

theorem applyValidatorDiff_validatorDiff_self (x : Validator) :
    applyValidatorDiff x (validatorDiff x x) = x :=
  (applyValidatorDiff_validatorDiff_eq_iff x x).2 (by
    simp [Validator.Diffable, Validator.MonotoneChange])

/-- From index `done.length` on, the loop of `ValidatorsDiff::apply` over the records of `rest`
turns `done ++ xs.drop done.length` into `done` followed by what the round trip makes of
`rest`; the induction is on `rest`. -/
theorem ValidatorsDiff.applyEntries_diffEntries {xs : List Validator} :
    ∀ (rest done : List Validator), xs.length ≤ done.length + rest.length →
      done.length + rest.length ≤ 2 ^ 64 →
      ValidatorsDiff.applyEntries
          (((rest.zipIdx done.length).filterMap fun (y, i) => diffEntry xs y i).map
            ValidatorDiffEntry.ssz.encode)
          (done ++ xs.drop done.length) =
        .ok (done ++ (rest.zipIdx done.length).map fun (y, i) => roundTripValidator xs y i)
  | [], done, h, _ => by
    rw [List.drop_of_length_le (by simpa using h)]
    rfl
  | y :: rest, done, h, hindex => by
    have ih := @applyEntries_diffEntries xs rest (done ++ [roundTripValidator xs y done.length])
      (by simp at h ⊢; omega) (by simp at hindex ⊢; omega)
    simp only [List.length_append, List.length_singleton, List.append_assoc,
      List.singleton_append] at ih
    -- the index is written as a `u64` and read back
    have hindex' : (UInt64.ofNat done.length).toNat = done.length :=
      UInt64.toNat_ofNat_of_lt' (by simp at hindex; unfold UInt64.size; omega)
    rw [List.zipIdx_cons, List.filterMap_cons, List.map_cons]
    dsimp only
    cases hx : xs[done.length]? with
    | some x =>
      by_cases hyx : y = x
      · -- an unchanged validator has no record, and stays as it is
        subst hyx
        have hentry : diffEntry xs y done.length = none := by simp [diffEntry, hx]
        rw [show roundTripValidator xs y done.length = y by
          simp [roundTripValidator, hx, applyValidatorDiff_validatorDiff_self]] at ih ⊢
        rw [hentry, append_drop_length_of_getElem? hx]
        exact ih
      · -- a changed validator's record is applied to it
        have hentry : diffEntry xs y done.length =
            some ⟨UInt64.ofNat done.length, validatorDiff x y⟩ := by
          simp [diffEntry, hx, hyx]
        rw [show roundTripValidator xs y done.length = applyValidatorDiff x (validatorDiff x y) by
          simp [roundTripValidator, hx]] at ih ⊢
        rw [hentry, List.map_cons, ValidatorsDiff.applyEntries,
          ValidatorDiffEntry.ssz.decode_encode]
        dsimp only
        rw [hindex', getElem?_append_drop_length, hx]
        dsimp only
        rw [set_append_drop_length hx]
        exact ih
    | none =>
      -- a new validator is pushed
      have hentry : diffEntry xs y done.length = some ⟨UInt64.ofNat done.length, y⟩ := by
        simp [diffEntry, hx]
      rw [show roundTripValidator xs y done.length = y by simp [roundTripValidator, hx]] at ih ⊢
      rw [hentry, List.map_cons, ValidatorsDiff.applyEntries,
        ValidatorDiffEntry.ssz.decode_encode]
      dsimp only
      rw [hindex', getElem?_append_drop_length, hx]
      dsimp only
      rw [append_drop_length_of_getElem?_eq_none hx]
      exact ih

section Config

variable (config : StoreConfig)

/-- Validators that do not shrink, at most `2 ^ 64` of them, come back from their diff as the
round trip makes each of them. -/
theorem ValidatorsDiff.apply_compute {xs ys : List Validator} (h : xs.length ≤ ys.length)
    (hindex : ys.length ≤ 2 ^ 64) :
    ∃ diff, ValidatorsDiff.compute config xs ys = .ok diff ∧
      diff.apply config xs = .ok (ys.zipIdx.map fun (y, i) => roundTripValidator xs y i) := by
  refine ⟨_, if_neg (Nat.not_lt.2 h), ?_⟩
  rw [ValidatorsDiff.apply, config.decompress_compress]
  dsimp only
  rw [chunks_flatMap]
  simpa using ValidatorsDiff.applyEntries_diffEntries ys [] (by simpa using h)
    (by simpa using hindex)

end Config

/-- When the change of every validator the source and the target share is one its record
carries, the round trip gives every validator back. -/
theorem map_roundTripValidator_of_diffable {xs ys : List Validator}
    (hdiffable : ∀ p ∈ xs.zip ys, p.1.Diffable p.2) :
    (ys.zipIdx.map fun (y, i) => roundTripValidator xs y i) = ys := by
  conv_rhs => rw [← List.zipIdx_map_fst 0 ys]
  refine List.map_congr_left fun ⟨y, i⟩ hp => ?_
  have hy : ys[i]? = some y := List.mem_zipIdx_iff_getElem?.1 hp
  cases hx : xs[i]? with
  | some x =>
    have hmem : (x, y) ∈ xs.zip ys :=
      List.mem_of_getElem? (List.getElem?_zip_eq_some.2 ⟨hx, hy⟩)
    simpa [roundTripValidator, hx] using
      (applyValidatorDiff_validatorDiff_eq_iff x y).2 (hdiffable _ hmem)
  | none => simp [roundTripValidator, hx]

/-! ## The whole diff -/

/-- A history list of which the source's is a prefix comes back from its diff. -/
theorem AppendOnlyDiff.apply_compute {α : Type} {xs ys : List α} (h : xs <+: ys) :
    ∃ diff, AppendOnlyDiff.compute xs ys = .ok diff ∧ diff.apply xs = ys := by
  obtain ⟨t, rfl⟩ := h
  cases t with
  | nil => exact ⟨⟨[]⟩, by simp [AppendOnlyDiff.compute], rfl⟩
  | cons a t =>
    refine ⟨⟨a :: t⟩, ?_, rfl⟩
    have hlt : compare xs.length (xs ++ a :: t).length = .lt := by simp [Nat.compare_eq_lt]
    rw [AppendOnlyDiff.compute, hlt, List.drop_left]

section Codecs

variable (xdelta : Xdelta) (config : StoreConfig)

theorem BytesDiff.apply_compute (source target : List UInt8) :
    ∃ diff, BytesDiff.compute xdelta source target = .ok diff ∧
      diff.apply xdelta source = .ok target :=
  ⟨_, rfl, by rw [BytesDiff.apply, xdelta.decode_encode]⟩

/-- The round trip of a whole buffer whose lists do not shrink and whose history lists only
grow: every part comes back, and each validator as the round trip makes it. -/
theorem HDiff.apply_compute {source target : HDiffBuffer}
    (hbalances : source.balances.length ≤ target.balances.length)
    (hscores : source.inactivityScores.length ≤ target.inactivityScores.length)
    (hvalidators : source.validators.length ≤ target.validators.length)
    (hindex : target.validators.length ≤ 2 ^ 64)
    (hroots : source.historicalRoots <+: target.historicalRoots)
    (hsummaries : source.historicalSummaries <+: target.historicalSummaries) :
    ∃ diff, HDiff.compute xdelta config source target = .ok diff ∧
      HDiff.apply xdelta config diff source = .ok { target with
        validators := target.validators.zipIdx.map fun (y, i) =>
          roundTripValidator source.validators y i } := by
  obtain ⟨stateDiff, hstate, hstate'⟩ := BytesDiff.apply_compute xdelta source.state target.state
  obtain ⟨balancesDiff, hb, hb'⟩ := CompressedU64Diff.apply_compute config hbalances
  obtain ⟨scoresDiff, hs, hs'⟩ := CompressedU64Diff.apply_compute config hscores
  obtain ⟨validatorsDiff, hv, hv'⟩ := ValidatorsDiff.apply_compute config hvalidators hindex
  obtain ⟨rootsDiff, hr, hr'⟩ := AppendOnlyDiff.apply_compute hroots
  obtain ⟨summariesDiff, hm, hm'⟩ := AppendOnlyDiff.apply_compute hsummaries
  refine ⟨⟨stateDiff, balancesDiff, scoresDiff, validatorsDiff, rootsDiff, summariesDiff⟩, ?_, ?_⟩
  · simp only [HDiff.compute, hstate, hb, hs, hv, hr, hm]
    rfl
  · simp only [HDiff.apply, hstate', hb', hs', hv', hr', hm']
    rfl

/-! ## The round trip -/

end Codecs

/-- An active validator, at `FAR_FUTURE_EPOCH` for its exit. -/
def activeValidator : Validator :=
  ⟨Vector.replicate 48 7, hash256Zero, 32000000000, false, 1, 2, 18446744073709551615,
    18446744073709551615⟩

/-- A state with one active validator. -/
def oneValidatorBuffer : HDiffBuffer :=
  ⟨[1, 2, 3], [32000000000], [0], [activeValidator], [], []⟩

/-- The next state: the validator slashed and exiting, and a new validator deposited. -/
def slashedAndDepositedBuffer : HDiffBuffer :=
  ⟨[1, 2, 3, 4], [31000000000, 32000000000], [0, 0],
    [{ activeValidator with slashed := true, exitEpoch := 10, withdrawableEpoch := 266 },
      { activeValidator with pubkey := Vector.replicate 48 9 }],
    [hash256Zero], []⟩

/-- The index of the validator re-used by a validator with the empty pubkey. -/
def emptyPubkeyReuseBuffer : HDiffBuffer :=
  { oneValidatorBuffer with validators := [{ activeValidator with pubkey := emptyPubkey }] }

end Vibehouse.Store
