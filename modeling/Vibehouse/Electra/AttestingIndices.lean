import Vibehouse.Committees.CommitteeCache
import Vibehouse.Lib.MachineInt
import Vibehouse.Lib.StateRun

/-! # Attesting indices of an Electra attestation

An Electra attestation names the committees of its slot it aggregates (`committee_bits`) and
has one aggregation bit per member of each, committee after committee. The specification
computes the attesters as a set union in `get_attesting_indices`, and asserts in
`process_attestation`, along the same loop, that each named committee exists, has at least one
attester, and that the bits are exactly as many as the members. The source fuses the two:
`attesting_indices_electra::get_attesting_indices` collects the attesters into a vector with a
running offset, reads a missing bit as unset, checks the assertions, and sorts the vector at the
end without removing duplicates.

`specGetAttestingIndices` is the specification's loop; `getAttestingIndices_refines` shows that the
source returns exactly when the specification does, with the same set, and a strictly
increasing list when no validator is in two committees of the slot or twice in one. The
committees that `get_beacon_committees_at_slot` reads from a cache built by `initialized` are
such, being slices of a shuffling without repeats, so for them the source always refines the
specification (`electra_attesting_indices_refine_spec`). -/

namespace Vibehouse.AttestingIndicesElectra

open MachineInt

/-- The errors of `get_attesting_indices` (`BeaconStateError`). -/
inductive Error
  | noCommitteeFound (committeeIndex : Nat)
  | invalidCommitteeIndex (committeeIndex : Nat)
  | arithError
  | emptyCommittee
  | invalidBitfield
  deriving DecidableEq, Repr

/-- A `safe_*` result as a `BeaconStateError`. -/
def liftArith {α : Type} : Option α → Except Error α
  | some a => .ok a
  | none => .error .arithError

@[simp] theorem liftArith_some {α : Type} (a : α) : liftArith (some a) = .ok a := rfl

@[simp] theorem liftArith_none {α : Type} : liftArith (none : Option α) = .error .arithError := rfl

/-! ## The source -/

/-- `get_committee_indices`: the positions of the set committee bits, in increasing order. The
loop of `get_attesting_indices` runs over the same positions. -/
def getCommitteeIndices (committeeBits : List Bool) : List Nat :=
  committeeBits.zipIdx.filterMap fun (bit, index) => if bit then some index else none

/-- The inner loop of `get_attesting_indices`: the members of `committee` whose aggregation bit,
at `committeeOffset` plus their position, is set. A bit past the end of the list, or at an
offset that overflows, reads as unset. -/
def committeeAttesters (aggregationBits : List Bool) (committeeOffset : Nat)
    (committee : List Nat) : List Nat :=
  (committee.zipIdx.filter fun (_, i) =>
    match uCheckedAdd 64 committeeOffset i with
    | some aggregationBitIndex => aggregationBits.getD aggregationBitIndex false
    | none => false).map (·.1)

/-- The variables of the loop: `attesting_indices`, `committee_offset` and
`participant_count`. -/
structure LoopState where
  attestingIndices : List Nat
  committeeOffset : Nat
  participantCount : Nat

/-- One pass of the loop of `get_attesting_indices`, for a set committee bit. -/
def attestStep (committees : List (List Nat)) (aggregationBits : List Bool) (s : LoopState)
    (committeeIndex : Nat) : Except Error LoopState := do
  let committeeCountPerSlot := committees.length
  let beaconCommittee ← match committees[committeeIndex]? with
    | some committee => pure committee
    | none => throw (.noCommitteeFound committeeIndex)
  if committeeIndex ≥ committeeCountPerSlot then throw (.invalidCommitteeIndex committeeIndex)
  let participantCount ← liftArith (uCheckedAdd 64 s.participantCount beaconCommittee.length)
  let countBefore := s.attestingIndices.length
  let attestingIndices :=
    s.attestingIndices ++ committeeAttesters aggregationBits s.committeeOffset beaconCommittee
  if attestingIndices.length = countBefore then throw .emptyCommittee
  let committeeOffset ← liftArith (uCheckedAdd 64 s.committeeOffset beaconCommittee.length)
  pure ⟨attestingIndices, committeeOffset, participantCount⟩

/-- `attesting_indices_electra::get_attesting_indices`, over the committees of the slot in
index order (the member lists of `get_beacon_committees_at_slot`). -/
def getAttestingIndices (committees : List (List Nat)) (aggregationBits committeeBits : List Bool) :
    Except Error (List Nat) := do
  let s ← (getCommitteeIndices committeeBits).foldlM (attestStep committees aggregationBits)
    ⟨[], 0, 0⟩
  if s.participantCount ≠ aggregationBits.length then throw .invalidBitfield
  -- `sort_unstable`: no order is observable among equal validator indices
  pure (s.attestingIndices.insertionSort (· ≤ ·))

/-! ## The specification -/

section Specification

open Classical

/-- `committee_attesters` of the specification: the members of `committee` whose aggregation
bit at `committeeOffset` plus their position is set. -/
def specCommitteeAttesters (aggregationBits : List Bool) (committeeOffset : Nat)
    (committee : List Nat) : Set Nat :=
  {v | ∃ i, committee[i]? = some v ∧ aggregationBits[committeeOffset + i]? = some true}

/-- The loop of the specification's `get_attesting_indices` over the committee indices, with
the assertions `process_attestation` makes on it: `committee_index <
get_committee_count_per_slot`, `len(committee_attesters) > 0`, and at the end
`len(aggregation_bits) == committee_offset`. None when an assertion fails. -/
noncomputable def specLoop (committees : List (List Nat)) (aggregationBits : List Bool) :
    List Nat → Nat → Set Nat → Option (Set Nat)
  | [], committeeOffset, output =>
    if aggregationBits.length = committeeOffset then some output else none
  | committeeIndex :: rest, committeeOffset, output =>
    match committees[committeeIndex]? with
    | none => none
    | some committee =>
      let committeeAttesters := specCommitteeAttesters aggregationBits committeeOffset committee
      if committeeAttesters = ∅ then none
      else specLoop committees aggregationBits rest (committeeOffset + committee.length)
        (output ∪ committeeAttesters)

/-- The specification's attesting indices of an Electra attestation, with the assertions of
`process_attestation` on them. -/
noncomputable def specGetAttestingIndices (committees : List (List Nat))
    (aggregationBits committeeBits : List Bool) : Option (Set Nat) :=
  specLoop committees aggregationBits (getCommitteeIndices committeeBits) 0 ∅

/-- The specification's offsets only grow, and end at the number of bits. -/
theorem le_length_of_specLoop {committees : List (List Nat)} {aggregationBits : List Bool} :
    ∀ {ks : List Nat} {offset : Nat} {output r : Set Nat},
      specLoop committees aggregationBits ks offset output = some r →
        offset ≤ aggregationBits.length
  | [], offset, output, r, h => by
    rw [specLoop] at h
    split_ifs at h with hlen
    omega
  | k :: ks, offset, output, r, h => by
    rw [specLoop] at h
    split at h
    · cases h
    · dsimp only at h
      split_ifs at h
      have := le_length_of_specLoop h
      omega

end Specification

/-! ## One pass of the loop -/

section Step

variable {committees : List (List Nat)} {aggregationBits : List Bool}

/-- One pass, with the unreachable index check dropped: `committees.get(k)` has already failed
for every index it would reject. -/
theorem attestStep_eq (s : LoopState) (k : Nat) :
    attestStep committees aggregationBits s k =
      match committees[k]? with
      | none => .error (.noCommitteeFound k)
      | some committee =>
        if s.participantCount + committee.length < 2 ^ 64 then
          if committeeAttesters aggregationBits s.committeeOffset committee = [] then
            .error .emptyCommittee
          else if s.committeeOffset + committee.length < 2 ^ 64 then
            .ok ⟨s.attestingIndices ++ committeeAttesters aggregationBits s.committeeOffset committee,
              s.committeeOffset + committee.length, s.participantCount + committee.length⟩
          else .error .arithError
        else .error .arithError := by
  unfold attestStep
  cases hk : committees[k]? with
  | none => rfl
  | some committee =>
    have hge : ¬ k ≥ committees.length := Nat.not_le.2 (List.getElem?_eq_some_iff.1 hk).1
    have hlen : ∀ l, (s.attestingIndices ++ l).length = s.attestingIndices.length ↔ l = [] := by
      simp
    dsimp only
    rw [pure_bind, if_neg hge, uCheckedAdd]
    -- the checks in their order: `participant_count`, the attesters, `committee_offset`
    by_cases hcount : s.participantCount + committee.length < 2 ^ 64
    · rw [if_pos hcount, if_pos hcount, liftArith_some, Except.ok_bind]
      by_cases hnil : committeeAttesters aggregationBits s.committeeOffset committee = []
      · rw [if_pos ((hlen _).2 hnil), if_pos hnil]
        rfl
      · rw [if_neg (mt (hlen _).1 hnil), if_neg hnil, uCheckedAdd]
        by_cases hoff : s.committeeOffset + committee.length < 2 ^ 64
        · rw [if_pos hoff, if_pos hoff]
          rfl
        · rw [if_neg hoff, if_neg hoff]
          rfl
    · rw [if_neg hcount, if_neg hcount]
      rfl

theorem mem_committeeAttesters {offset : Nat} {committee : List Nat}
    (h : offset + committee.length < 2 ^ 64) (v : Nat) :
    v ∈ committeeAttesters aggregationBits offset committee ↔
      v ∈ specCommitteeAttesters aggregationBits offset committee := by
  simp only [committeeAttesters, specCommitteeAttesters, List.mem_map, List.mem_filter,
    List.mem_zipIdx_iff_getElem?, Set.mem_ofPred_eq, Prod.exists]
  constructor
  · rintro ⟨_, i, ⟨hi, hbit⟩, rfl⟩
    have hlt : i < committee.length := (List.getElem?_eq_some_iff.1 hi).1
    simp only [uCheckedAdd, if_pos (show offset + i < 2 ^ 64 by omega),
      List.getD_eq_getElem?_getD] at hbit
    refine ⟨i, hi, ?_⟩
    cases hb : aggregationBits[offset + i]? with
    | none => simp [hb] at hbit
    | some b => simp_all
  · rintro ⟨i, hi, hbit⟩
    have hlt : i < committee.length := (List.getElem?_eq_some_iff.1 hi).1
    refine ⟨v, i, ⟨hi, ?_⟩, rfl⟩
    rw [uCheckedAdd, if_pos (show offset + i < 2 ^ 64 by omega)]
    simp [List.getD_eq_getElem?_getD, hbit]

theorem committeeAttesters_sublist (offset : Nat) (committee : List Nat) :
    List.Sublist (committeeAttesters aggregationBits offset committee) committee := by
  unfold committeeAttesters
  conv => rhs; rw [← List.zipIdx_map_fst 0 committee]
  exact List.filter_sublist.map Prod.fst

theorem committeeAttesters_eq_nil_iff {offset : Nat} {committee : List Nat}
    (h : offset + committee.length < 2 ^ 64) :
    committeeAttesters aggregationBits offset committee = [] ↔
      specCommitteeAttesters aggregationBits offset committee = ∅ := by
  rw [List.eq_nil_iff_forall_not_mem, Set.eq_empty_iff_forall_notMem]
  exact forall_congr' fun v => not_congr (mem_committeeAttesters h v)

end Step

/-! ## The loop -/

section Loop

variable {committees : List (List Nat)} {aggregationBits : List Bool}

theorem getCommitteeIndices_nodup (committeeBits : List Bool) :
    (getCommitteeIndices committeeBits).Nodup := by
  have hzip : committeeBits.zipIdx.Nodup := by
    apply List.Nodup.of_map Prod.snd
    rw [List.zipIdx_map_snd]
    exact List.nodup_range'
  apply hzip.filterMap
  rintro ⟨b, i⟩ ⟨b', i'⟩ j hj hj'
  cases b <;> cases b' <;> simp_all

/-- What the loop keeps while it runs over the committee indices `ks` still to come: both
counters are the specification's offset, the attesters so far are the specification's set,
without a repeat, and come from committees not in `ks`. -/
structure LoopInv (committees : List (List Nat)) (ks : List Nat) (s : LoopState) (output : Set Nat) :
    Prop where
  committeeOffset_eq : s.committeeOffset = s.participantCount
  mem_iff : ∀ v, v ∈ s.attestingIndices ↔ v ∈ output
  nodup : s.attestingIndices.Nodup
  mem_committee : ∀ v ∈ s.attestingIndices,
    ∃ j, j ∉ ks ∧ ∃ committee, committees[j]? = some committee ∧ v ∈ committee

/-- Committees at two different indices have no member in common. -/
theorem disjoint_of_pairwise (hdisj : committees.Pairwise List.Disjoint) {j k : Nat}
    {cj ck : List Nat} (hne : j ≠ k) (hj : committees[j]? = some cj)
    (hk : committees[k]? = some ck) : cj.Disjoint ck := by
  obtain ⟨hjl, rfl⟩ := List.getElem?_eq_some_iff.1 hj
  obtain ⟨hkl, rfl⟩ := List.getElem?_eq_some_iff.1 hk
  rcases Nat.lt_or_gt_of_ne hne with hlt | hgt
  · exact List.pairwise_iff_getElem.1 hdisj j k hjl hkl hlt
  · exact (List.pairwise_iff_getElem.1 hdisj k j hkl hjl hgt).symm

/-- A pass that returns keeps the invariant, with the committee's attesters added to the set. -/
theorem LoopInv.step (hdisj : committees.Pairwise List.Disjoint)
    (hnodup : ∀ committee ∈ committees, committee.Nodup) {k : Nat} {ks : List Nat}
    (hk : k ∉ ks) {s : LoopState} {output : Set Nat} (hinv : LoopInv committees (k :: ks) s output)
    {committee : List Nat} (hc : committees[k]? = some committee)
    (hcount : s.participantCount + committee.length < 2 ^ 64) :
    LoopInv committees ks
      ⟨s.attestingIndices ++ committeeAttesters aggregationBits s.committeeOffset committee,
        s.committeeOffset + committee.length, s.participantCount + committee.length⟩
      (output ∪ specCommitteeAttesters aggregationBits s.committeeOffset committee) := by
  have hoff : s.committeeOffset + committee.length < 2 ^ 64 := by
    rw [hinv.committeeOffset_eq]
    exact hcount
  have hsub := @committeeAttesters_sublist aggregationBits s.committeeOffset committee
  refine ⟨by simp [hinv.committeeOffset_eq], fun v => ?_, ?_, fun v hv => ?_⟩
  · simp only [List.mem_append, Set.mem_union, hinv.mem_iff, mem_committeeAttesters hoff]
  · -- the new attesters repeat no one: they are members of a committee met for the first time
    refine List.nodup_append.2 ⟨hinv.nodup, hsub.nodup (hnodup _ (List.mem_of_getElem? hc)), ?_⟩
    intro v hv w hw hvw
    subst hvw
    obtain ⟨j, hj, cj, hcj, hvj⟩ := hinv.mem_committee v hv
    have hne : j ≠ k := fun h => hj (h ▸ List.mem_cons_self)
    exact disjoint_of_pairwise hdisj hne hcj hc hvj (hsub.subset hw)
  · rcases List.mem_append.1 hv with hv | hv
    · obtain ⟨j, hj, cj, hcj, hvj⟩ := hinv.mem_committee v hv
      exact ⟨j, fun h => hj (List.mem_cons_of_mem _ h), cj, hcj, hvj⟩
    · exact ⟨k, hk, committee, hc, hsub.subset hv⟩

/-- The loop and the specification's loop over the same committee indices: the source stops
with an error exactly where the specification fails an assertion on the way, and otherwise ends
where the specification reaches its final length check. -/
theorem foldlM_attestStep (hdisj : committees.Pairwise List.Disjoint)
    (hnodup : ∀ committee ∈ committees, committee.Nodup)
    (hbits : aggregationBits.length < 2 ^ 64) :
    ∀ (ks : List Nat) (s : LoopState) (output : Set Nat), ks.Nodup →
      LoopInv committees ks s output →
      match ks.foldlM (attestStep committees aggregationBits) s with
      | .ok s' => ∃ output', LoopInv committees [] s' output' ∧
          specLoop committees aggregationBits ks s.committeeOffset output =
            specLoop committees aggregationBits [] s'.committeeOffset output'
      | .error _ => specLoop committees aggregationBits ks s.committeeOffset output = none
  | [], s, output, _, hinv => ⟨output, hinv, rfl⟩
  | k :: ks, s, output, hks, hinv => by
    obtain ⟨hk, hks⟩ := List.nodup_cons.1 hks
    have hoff := hinv.committeeOffset_eq
    rw [List.foldlM_cons, attestStep_eq, specLoop]
    cases hc : committees[k]? with
    | none => rfl
    | some committee =>
      dsimp only
      by_cases hcount : s.participantCount + committee.length < 2 ^ 64
      · have hempty := @committeeAttesters_eq_nil_iff aggregationBits _ _
          (show s.committeeOffset + committee.length < 2 ^ 64 by omega)
        by_cases hnil : committeeAttesters aggregationBits s.committeeOffset committee = []
        · rw [if_pos hcount, if_pos hnil, if_pos (hempty.1 hnil)]
          rfl
        · -- the pass returns: continue with the rest of the indices
          rw [if_pos hcount, if_neg hnil, if_pos (by omega), if_neg (mt hempty.2 hnil),
            Except.ok_bind]
          exact foldlM_attestStep hdisj hnodup hbits ks _ _ hks
            (hinv.step hdisj hnodup hk hc hcount)
      · -- `participant_count` overflows: the bits cannot be that many, so the specification
        -- fails its final check if nothing before
        rw [if_neg hcount, Except.error_bind]
        dsimp only
        split_ifs
        · rfl
        · cases hr : specLoop committees aggregationBits ks (s.committeeOffset + committee.length) _
          with
          | none => rfl
          | some r =>
            have := le_length_of_specLoop hr
            omega

end Loop

/-! ## The whole function -/

/-- Sorting a list without repeats gives a strictly increasing one. -/
theorem pairwise_lt_insertionSort {l : List Nat} (h : l.Nodup) :
    (l.insertionSort (· ≤ ·)).Pairwise (· < ·) := by
  have hnodup : (l.insertionSort (· ≤ ·)).Nodup := (List.perm_insertionSort _ l).nodup_iff.2 h
  exact (List.pairwise_insertionSort _ l).imp₂ (fun _ _ hle hne => Nat.lt_of_le_of_ne hle hne)
    hnodup

/-- `get_attesting_indices` refines the specification when no validator is in two committees of
the slot or twice in one: it returns exactly when the specification's assertions hold, with the
specification's set of attesters, as a strictly increasing list. -/
theorem getAttestingIndices_refines (committees : List (List Nat))
    (aggregationBits committeeBits : List Bool) (hdisj : committees.Pairwise List.Disjoint)
    (hnodup : ∀ committee ∈ committees, committee.Nodup)
    (hbits : aggregationBits.length < 2 ^ 64) :
    (getAttestingIndices committees aggregationBits committeeBits).toOption.map
        (fun l => {v | v ∈ l}) = specGetAttestingIndices committees aggregationBits committeeBits ∧
      ∀ l, getAttestingIndices committees aggregationBits committeeBits = .ok l →
        l.Pairwise (· < ·) := by
  have hinit : LoopInv committees (getCommitteeIndices committeeBits) ⟨[], 0, 0⟩ ∅ :=
    ⟨rfl, by simp, List.nodup_nil, by simp⟩
  have hloop := foldlM_attestStep hdisj hnodup hbits _ _ _
    (getCommitteeIndices_nodup committeeBits) hinit
  unfold getAttestingIndices specGetAttestingIndices
  revert hloop
  cases (getCommitteeIndices committeeBits).foldlM (attestStep committees aggregationBits)
    ⟨[], 0, 0⟩ with
  | error e =>
    intro hspec
    exact ⟨hspec.symm ▸ rfl, fun l h => nomatch h⟩
  | ok s =>
    rintro ⟨output, hinv, hspec⟩
    rw [hspec, specLoop, hinv.committeeOffset_eq, Except.ok_bind]
    by_cases hlen : s.participantCount = aggregationBits.length
    · -- the final check passes: the sorted attesters are the specification's set
      rw [if_neg (not_not.2 hlen), if_pos hlen.symm]
      refine ⟨?_, fun l hl => ?_⟩
      · change some {v | v ∈ s.attestingIndices.insertionSort (· ≤ ·)} = some output
        congr 1
        ext v
        exact (List.perm_insertionSort _ _).mem_iff.trans (hinv.mem_iff v)
      · cases hl
        exact pairwise_lt_insertionSort hinv.nodup
    · rw [if_pos hlen, if_neg (Ne.symm hlen)]
      exact ⟨rfl, fun l hl => nomatch hl⟩

example : getAttestingIndices [[1, 3], [2, 4]] [true, false, false, true] [true, true] =
    .ok [1, 4] := by
  decide

open Committees in
/-- Over the committees that `get_beacon_committees_at_slot` gives, by index, for a slot of the
epoch of a cache built by `initialized`, `get_attesting_indices` refines the specification: it
returns exactly when the specification's assertions hold, with the specification's set of
attesters, as a strictly increasing list. The aggregation bits are a
`BitList<MaxValidatorsPerSlot>`, whose length is below `2 ^ 64`. -/
theorem electra_attesting_indices_refine_spec (sha256 : List UInt8 → Vector UInt8 32)
    (spec : CacheSpec) (currentEpoch : Nat) (validators : List Validator)
    (randaoMixes : List (Vector UInt8 32)) (epoch : Nat) (cache : CommitteeCache)
    (h : initialized sha256 spec currentEpoch validators randaoMixes epoch = .ok cache)
    (slot : Nat) (hslot : slot / spec.slotsPerEpoch = epoch)
    (aggregationBits committeeBits : List Bool) (hbits : aggregationBits.length < 2 ^ 64) :
    ∃ committees, cache.getBeaconCommitteesAtSlot slot = .ok committees ∧
      committees.map (·.index) = List.range cache.committeesPerSlot ∧
      (getAttestingIndices (committees.map (·.committee)) aggregationBits committeeBits).toOption.map
          (fun l => {v | v ∈ l}) =
        specGetAttestingIndices (committees.map (·.committee)) aggregationBits committeeBits ∧
      ∀ l, getAttestingIndices (committees.map (·.committee)) aggregationBits committeeBits =
        .ok l → l.Pairwise (· < ·) := by
  obtain ⟨hb, -, hspe⟩ := initialized_eq_ok sha256 h
  rw [← hspe] at hslot
  have hk : slot % cache.slotsPerEpoch < cache.slotsPerEpoch := Nat.mod_lt _ hb.slotsPerEpoch_pos
  refine ⟨_, CommitteeCache.getBeaconCommitteesAtSlot_eq hb hslot, by simp [Function.comp_def], ?_⟩
  -- the member lists are slices of the shuffling: disjoint, and without repeats
  rw [List.map_map]
  refine getAttestingIndices_refines _ aggregationBits committeeBits
    (CommitteeCache.slot_committees_pairwise_disjoint hb hk) (fun committee hc => ?_) hbits
  obtain ⟨index, -, rfl⟩ := List.mem_map.1 hc
  exact CommitteeCache.committeeSlice_nodup hb _

open Committees in
/-- Four validators, three active, two slots an epoch and one committee a slot: at slot 1 the
committee is `[3, 1]`, and the first bit set. -/
theorem electra_attesting_indices_refine_spec_slotOne :
    initialized (fun _ => Vector.replicate 32 0xa5) ⟨2, 1, 4, 1, 1, 4, 1⟩ 0
        [⟨0, 10⟩, ⟨0, 10⟩, ⟨5, 10⟩, ⟨0, 10⟩] [Vector.replicate 32 7] 0 =
      .ok ⟨some 0, [0, 3, 1], [some ⟨1, by decide⟩, some ⟨3, by decide⟩, none, some ⟨2, by decide⟩],
        1, 2⟩ ∧ 1 / 2 = 0 ∧ [true, false].length < 2 ^ 64 ∧
    ∃ committees, CommitteeCache.getBeaconCommitteesAtSlot ⟨some 0, [0, 3, 1], [some ⟨1, by decide⟩,
        some ⟨3, by decide⟩, none, some ⟨2, by decide⟩], 1, 2⟩ 1 = .ok committees ∧
      committees.map (·.index) = List.range 1 ∧
      (getAttestingIndices (committees.map (·.committee)) [true, false] [true]).toOption.map
          (fun l => {v | v ∈ l}) =
        specGetAttestingIndices (committees.map (·.committee)) [true, false] [true] ∧
      ∀ l, getAttestingIndices (committees.map (·.committee)) [true, false] [true] = .ok l →
        l.Pairwise (· < ·) :=
  ⟨rfl, rfl, by decide, electra_attesting_indices_refine_spec (fun _ => Vector.replicate 32 0xa5)
    ⟨2, 1, 4, 1, 1, 4, 1⟩ 0 [⟨0, 10⟩, ⟨0, 10⟩, ⟨5, 10⟩, ⟨0, 10⟩] [Vector.replicate 32 7] 0 _ rfl 1 rfl
    [true, false] [true] (by decide)⟩

end Vibehouse.AttestingIndicesElectra
