import Mathlib.Data.Finset.Card
import Vibehouse.Lib.RustIter

/-! # The storage strategy of the hierarchy of state diffs

`beacon_node/store/src/hdiff.rs`: the freezer stores the state of a slot as a snapshot, as a diff
from the state of a lower slot, or not at all, to be rebuilt by replaying blocks from a lower
slot. `HierarchyConfig` gives the exponents of the layers, from the most frequent diffs to the
snapshots, and the moduli are their powers of two. `storage_strategy` picks the layer of a slot by
scanning the pairs of consecutive moduli from the top, and clamps every base at `start_slot`, the
first slot whose state exists.

Of any two moduli one divides the other (`WellFormed`). A base is the slot rounded down to a
modulus that does not divide the slot, so the moduli dividing the base strictly include those
dividing the slot: following the bases ends at a snapshot after at most one step per layer, and
no base is replayed, since a slot that some modulus divides finds its pair in the scan.
`closest_layer_points` rounds a slot down to each layer; rounding down is monotone, so a point of
a later finalized slot below an earlier finalized slot is a point of the earlier one too. -/

namespace Vibehouse.Store.Hierarchy

open RustIter

/-- The variants of `hdiff::Error` that the hierarchy returns. -/
inductive Error
  | invalidHierarchy
  | lessThanStart (slot startSlot : Nat)
  deriving DecidableEq, Repr

/-- `HierarchyConfig`: the exponents of the layers, as `u8`s. -/
structure HierarchyConfig where
  exponents : List Nat
  deriving DecidableEq, Repr

/-- `HierarchyModuli`: the moduli of the layers, as `u64`s. -/
structure HierarchyModuli where
  moduli : List Nat
  deriving DecidableEq, Repr

/-- `StorageStrategy`. -/
inductive StorageStrategy
  | replayFrom (slot : Nat)
  | diffFrom (slot : Nat)
  | snapshot
  deriving DecidableEq, Repr

namespace StorageStrategy

/-- `diff_base_slot`. -/
def diffBaseSlot : StorageStrategy → Option Nat
  | replayFrom slot | diffFrom slot => some slot
  | snapshot => none

/-- `is_replay_from`. -/
def isReplayFrom : StorageStrategy → Bool
  | replayFrom _ => true
  | _ => false

theorem diffBaseSlot_eq_none {s : StorageStrategy} : s.diffBaseSlot = none ↔ s = snapshot := by
  cases s <;> simp [diffBaseSlot]

end StorageStrategy

namespace HierarchyConfig

/-- `Default`. -/
def default : HierarchyConfig := ⟨[5, 9, 11, 13, 16, 18, 21]⟩

/-- `validate`: some exponent, and each pair of consecutive exponents increasing and below
`u64::BITS`. -/
def validate (c : HierarchyConfig) : Except Error Unit :=
  if !c.exponents.isEmpty &&
      (c.exponents.zip c.exponents.tail).all fun (small, big) => small < big && big < 64 then
    .ok ()
  else .error .invalidHierarchy

/-- `to_moduli`: `1 << n` for each exponent, the shift taken modulo 64 as a `u64` shift is in a
release build (a lone exponent is not bounded by `validate`). -/
def toModuli (c : HierarchyConfig) : Except Error HierarchyModuli := do
  c.validate
  pure ⟨c.exponents.map fun n => 1 <<< (n % 64)⟩

end HierarchyConfig

namespace HierarchyModuli

/-- The scan of `storage_strategy` over a pair `(n_big, n_small)` of consecutive moduli. -/
def diffFromPair (slot startSlot : Nat) (pair : Nat × Nat) : Option StorageStrategy :=
  if slot % pair.2 = 0 then some (.diffFrom (max (slot / pair.1 * pair.1) startSlot)) else none

/-- `storage_strategy`. -/
def storageStrategy (h : HierarchyModuli) (slot startSlot : Nat) : Except Error StorageStrategy :=
  if slot < startSlot then .error (.lessThanStart slot startSlot)
  else if slot = startSlot then .ok .snapshot
  else
    match h.moduli.getLast?, h.moduli.head? with
    | some last, some first =>
      if slot % last = 0 then .ok .snapshot
      else
        -- the pairs of consecutive moduli from the top, `rev().tuple_windows()`
        .ok (((h.moduli.reverse.zip h.moduli.reverse.tail).findSome?
          (diffFromPair slot startSlot)).getD
            (.replayFrom (max (slot / first * first) startSlot)))
    | _, _ => .error .invalidHierarchy

/-- `closest_layer_points`: the slot rounded down to each layer, at least `start_slot`, with
repeats next to each other removed (`Vec::dedup`). -/
def closestLayerPoints (h : HierarchyModuli) (slot startSlot : Nat) : List Nat :=
  (h.moduli.map fun n => max (slot / n * n) startSlot).destutter (· ≠ ·)

/-- What the storage strategy needs of the moduli: some layer, and of any two moduli one divides
the other. -/
structure WellFormed (h : HierarchyModuli) : Prop where
  ne_nil : h.moduli ≠ []
  dvd_total : ∀ m ∈ h.moduli, ∀ n ∈ h.moduli, m ∣ n ∨ n ∣ m

end HierarchyModuli

/-- Validated exponents give powers of two, of which one divides the other. -/
theorem HierarchyConfig.wellFormed_of_toModuli {c : HierarchyConfig} {h : HierarchyModuli}
    (hc : c.toModuli = .ok h) : h.WellFormed := by
  unfold HierarchyConfig.toModuli HierarchyConfig.validate at hc
  split at hc
  · rename_i hv
    cases hc
    refine ⟨fun hnil => ?_, ?_⟩
    · simp only [List.map_eq_nil_iff] at hnil
      simp [hnil] at hv
    simp only [List.mem_map, Nat.shiftLeft_eq, Nat.one_mul]
    rintro _ ⟨a, -, rfl⟩ _ ⟨b, -, rfl⟩
    rcases le_total (a % 64) (b % 64) with hab | hab
    · exact .inl (Nat.pow_dvd_pow 2 hab)
    · exact .inr (Nat.pow_dvd_pow 2 hab)
  · cases hc


namespace HierarchyModuli

variable {slot startSlot : Nat}

/-! ## The scan over the pairs of moduli -/

/-- The scan finds no pair when no modulus below the top divides the slot. -/
theorem findSome?_diffFromPair_eq_none : ∀ (l : List Nat) (big : Nat),
    ((big :: l).zip l).findSome? (diffFromPair slot startSlot) = none ↔ ∀ m ∈ l, ¬m ∣ slot
  | [], _ => by simp
  | small :: rest, big => by
    have ih := findSome?_diffFromPair_eq_none rest small
    simp only [List.zip_cons_cons, List.findSome?_cons, diffFromPair]
    by_cases hs : small ∣ slot
    · simp [Nat.dvd_iff_mod_eq_zero.1 hs, hs]
    · simp [mt Nat.dvd_iff_mod_eq_zero.2 hs, ih, hs]

/-- The pair the scan finds, below a top modulus that does not divide the slot: the slot rounded
down to a modulus that does not divide it either. -/
theorem findSome?_diffFromPair_eq_some : ∀ (l : List Nat) (big : Nat) {s : StorageStrategy},
    ¬big ∣ slot → ((big :: l).zip l).findSome? (diffFromPair slot startSlot) = some s →
      ∃ n ∈ big :: l, ¬n ∣ slot ∧ s = .diffFrom (max (slot / n * n) startSlot)
  | [], _, _, _, h => by simp at h
  | small :: rest, big, s, hbig, h => by
    simp only [List.zip_cons_cons, List.findSome?_cons, diffFromPair] at h
    by_cases hs : slot % small = 0
    · -- the pair `(big, small)` is the first to match
      simp only [hs, if_true] at h
      exact ⟨big, List.mem_cons_self, hbig, (Option.some.inj h).symm⟩
    · simp only [hs, if_false] at h
      obtain ⟨n, hn, hns, rfl⟩ :=
        findSome?_diffFromPair_eq_some rest small (mt Nat.dvd_iff_mod_eq_zero.1 hs) h
      exact ⟨n, List.mem_cons_of_mem _ hn, hns, rfl⟩

/-! ## The strategy of a slot -/

/-- `storage_strategy` of a slot above the start, with the moduli split at the top one. -/
theorem storageStrategy_concat (init : List Nat) (last : Nat) (hs : startSlot < slot) :
    (⟨init ++ [last]⟩ : HierarchyModuli).storageStrategy slot startSlot =
      .ok (if slot % last = 0 then .snapshot
        else (((last :: init.reverse).zip init.reverse).findSome?
          (diffFromPair slot startSlot)).getD
            (.replayFrom (max (slot / init.head?.getD last * init.head?.getD last) startSlot))) := by
  have hfirst : (init ++ [last]).head? = some (init.head?.getD last) := by
    cases init <;> simp
  simp only [storageStrategy, Nat.not_lt.2 hs.le, if_false, Nat.ne_of_gt hs, List.getLast?_concat,
    hfirst, List.reverse_concat, List.tail_cons]
  split <;> rfl

/-- The moduli of a well-formed hierarchy, split at the top one. -/
theorem WellFormed.exists_concat {h : HierarchyModuli} (hw : h.WellFormed) :
    ∃ init last, h = ⟨init ++ [last]⟩ := by
  obtain ⟨moduli⟩ := h
  rcases List.eq_nil_or_concat moduli with hnil | ⟨init, last, rfl⟩
  · exact absurd hnil hw.ne_nil
  · exact ⟨init, last, by simp⟩

variable {h : HierarchyModuli} {s : StorageStrategy} {base : Nat}

theorem storageStrategy_isOk (hw : h.WellFormed) (hle : startSlot ≤ slot) :
    ∃ s, h.storageStrategy slot startSlot = .ok s := by
  rcases Nat.eq_or_lt_of_le hle with rfl | hs
  · exact ⟨.snapshot, by simp [storageStrategy]⟩
  · obtain ⟨init, last, rfl⟩ := hw.exists_concat
    exact ⟨_, storageStrategy_concat init last hs⟩

/-- A base is at the slot rounded down to a modulus that does not divide it, or at the start. -/
theorem storageStrategy_base (hw : h.WellFormed) (hok : h.storageStrategy slot startSlot = .ok s)
    (hb : s.diffBaseSlot = some base) :
    startSlot < slot ∧ ∃ n ∈ h.moduli, ¬n ∣ slot ∧ base = max (slot / n * n) startSlot := by
  rcases Nat.lt_trichotomy startSlot slot with hs | rfl | hs
  · obtain ⟨init, last, rfl⟩ := hw.exists_concat
    rw [storageStrategy_concat init last hs, Except.ok.injEq] at hok
    subst hok
    split at hb
    · cases hb
    rename_i hlast
    refine ⟨hs, ?_⟩
    cases hf : ((last :: init.reverse).zip init.reverse).findSome? (diffFromPair slot startSlot) with
    | some s' =>
      -- the scan found its pair
      rw [hf, Option.getD_some] at hb
      obtain ⟨n, hn, hns, rfl⟩ :=
        findSome?_diffFromPair_eq_some _ last (mt Nat.dvd_iff_mod_eq_zero.1 hlast) hf
      cases hb
      refine ⟨n, ?_, hns, rfl⟩
      simpa [or_comm] using hn
    | none =>
      -- a replay from the first layer, which does not divide the slot either
      rw [hf, Option.getD_none] at hb
      cases hb
      have hnone := (findSome?_diffFromPair_eq_none _ last).1 hf
      refine ⟨init.head?.getD last, ?_, ?_, rfl⟩
      · cases init <;> simp
      · cases init with
        | nil => exact mt Nat.dvd_iff_mod_eq_zero.1 hlast
        | cons first rest => exact hnone first (by simp)
  · simp only [storageStrategy, lt_irrefl, if_false, if_true, Except.ok.injEq] at hok
    subst hok
    cases hb
  · simp [storageStrategy, hs] at hok

/-- A slot that some modulus divides is not replayed: it finds its pair in the scan. -/
theorem storageStrategy_not_replay (hw : h.WellFormed)
    (hok : h.storageStrategy slot startSlot = .ok s)
    (hdvd : slot = startSlot ∨ ∃ n ∈ h.moduli, n ∣ slot) : s.isReplayFrom = false := by
  rcases Nat.lt_trichotomy startSlot slot with hs | rfl | hs
  · obtain ⟨init, last, rfl⟩ := hw.exists_concat
    rw [storageStrategy_concat init last hs, Except.ok.injEq] at hok
    subst hok
    split
    · rfl
    rename_i hlast
    obtain ⟨n, hn, hns⟩ := hdvd.resolve_left (Nat.ne_of_gt hs)
    -- a modulus below the top divides the slot
    have hinit : n ∈ init.reverse := by
      rcases List.mem_append.1 hn with hn | hn
      · exact List.mem_reverse.2 hn
      · rw [List.mem_singleton.1 hn] at hns
        exact absurd (Nat.dvd_iff_mod_eq_zero.1 hns) hlast
    cases hf : ((last :: init.reverse).zip init.reverse).findSome? (diffFromPair slot startSlot) with
    | none => exact absurd hns ((findSome?_diffFromPair_eq_none _ last).1 hf n hinit)
    | some s' =>
      obtain ⟨_, _, _, rfl⟩ :=
        findSome?_diffFromPair_eq_some _ last (mt Nat.dvd_iff_mod_eq_zero.1 hlast) hf
      rfl
  · simp only [storageStrategy, lt_irrefl, if_false, if_true, Except.ok.injEq] at hok
    subst hok
    rfl
  · simp [storageStrategy, hs] at hok

/-! ## Following the bases -/

/-- The moduli that divide a slot. -/
def dividingModuli (h : HierarchyModuli) (slot : Nat) : Finset Nat :=
  h.moduli.toFinset.filter (· ∣ slot)

/-- Rounding a slot down to a modulus that does not divide it keeps the moduli dividing it and
adds that one. -/
theorem dividingModuli_ssubset (hw : h.WellFormed) {n : Nat} (hn : n ∈ h.moduli)
    (hns : ¬n ∣ slot) : h.dividingModuli slot ⊂ h.dividingModuli (slot / n * n) := by
  have hsub : h.dividingModuli slot ⊆ h.dividingModuli (slot / n * n) := by
    intro m hm
    simp only [dividingModuli, Finset.mem_filter, List.mem_toFinset] at hm ⊢
    refine ⟨hm.1, ?_⟩
    rcases hw.dvd_total m hm.1 n hn with hmn | hnm
    · exact Nat.dvd_trans hmn (Nat.dvd_mul_left n _)
    · exact absurd (Nat.dvd_trans hnm hm.2) hns
  rw [Finset.ssubset_iff_of_subset hsub]
  exact ⟨n, by simp [dividingModuli, hn], by simp [dividingModuli, hns]⟩

/-- Following `diff_base_slot` from a slot at or above the start: the bases decrease, stay at or
above the start, are never replayed, and end at a snapshot after fewer steps than there are
moduli not dividing the slot. The induction is on the slot, as the bases decrease. -/
theorem exists_baseChain (hw : h.WellFormed) (slot : Nat) (hle : startSlot ≤ slot) :
    ∃ chain : List Nat,
      chain.length ≤ h.moduli.toFinset.card - (h.dividingModuli slot).card ∧
      (slot :: chain).IsChain (fun a b => b < a ∧
        ∃ s, h.storageStrategy a startSlot = .ok s ∧ s.diffBaseSlot = some b) ∧
      (∀ b ∈ chain, startSlot ≤ b ∧
        ∃ s, h.storageStrategy b startSlot = .ok s ∧ s.isReplayFrom = false) ∧
      h.storageStrategy (chain.getLast?.getD slot) startSlot = .ok .snapshot := by
  induction slot using Nat.strong_induction_on with
  | _ slot ih =>
  obtain ⟨s, hok⟩ := storageStrategy_isOk hw hle
  cases hb : s.diffBaseSlot with
  | none =>
    -- a snapshot: the chain ends here
    rw [StorageStrategy.diffBaseSlot_eq_none] at hb
    subst hb
    exact ⟨[], Nat.zero_le _, List.IsChain.singleton _, fun _ h => (nomatch h), hok⟩
  | some base =>
    obtain ⟨hs, n, hn, hns, rfl⟩ := storageStrategy_base hw hok hb
    have hlt : slot / n * n < slot := lt_of_le_of_ne (Nat.div_mul_le_self slot n)
      fun heq => hns (heq ▸ Nat.dvd_mul_left n _)
    -- a modulus does not divide the slot, so fewer than all divide it
    have hcard : (h.dividingModuli slot).card < h.moduli.toFinset.card :=
      Finset.card_lt_card ((Finset.ssubset_iff_of_subset (Finset.filter_subset _ _)).2
        ⟨n, List.mem_toFinset.2 hn, by simp [hns]⟩)
    by_cases hbase : slot / n * n ≤ startSlot
    · -- the base is the start, a snapshot
      rw [max_eq_right hbase] at hb
      have hsnap : h.storageStrategy startSlot startSlot = .ok .snapshot := by
        simp [storageStrategy]
      refine ⟨[startSlot], by simp only [List.length_singleton]; omega,
        List.isChain_cons_cons.2 ⟨⟨hs, s, hok, hb⟩, .singleton _⟩, ?_, hsnap⟩
      intro b hb'
      rw [List.mem_singleton.1 hb']
      exact ⟨le_rfl, .snapshot, hsnap, rfl⟩
    · -- the base is the slot rounded down, which that modulus divides
      rw [max_eq_left (Nat.le_of_not_le hbase)] at hb
      obtain ⟨chain, hlen, hchain, hmem, hlast⟩ := ih (slot / n * n) hlt (by omega)
      have hrank := Finset.card_lt_card (dividingModuli_ssubset hw hn hns)
      have hall : (h.dividingModuli (slot / n * n)).card ≤ h.moduli.toFinset.card :=
        Finset.card_le_card (Finset.filter_subset _ _)
      refine ⟨slot / n * n :: chain, ?_, List.isChain_cons_cons.2 ⟨⟨hlt, s, hok, hb⟩, hchain⟩,
        ?_, ?_⟩
      · simp only [List.length_cons]
        omega
      · rintro b (_ | ⟨_, hb'⟩)
        · obtain ⟨s', hs'⟩ := storageStrategy_isOk hw (Nat.le_of_not_le hbase)
          exact ⟨Nat.le_of_not_le hbase, s', hs',
            storageStrategy_not_replay hw hs' (.inr ⟨n, hn, Nat.dvd_mul_left n _⟩)⟩
        · exact hmem b hb'
      · rw [List.getLast?_cons]
        exact hlast

/-! ## The points kept at finalization -/

/-- A slot between a multiple of `n` and a later slot rounds down to the same multiple. -/
theorem div_mul_eq_of_le {f f' n : Nat} (hf : f ≤ f') (hlo : f' / n * n ≤ f) :
    f / n * n = f' / n * n := by
  rcases Nat.eq_zero_or_pos n with rfl | hn
  · simp
  · have h1 : f / n ≤ f' / n := Nat.div_le_div_right hf
    have h2 : f' / n ≤ f / n := (Nat.le_div_iff_mul_le hn).2 hlo
    rw [Nat.le_antisymm h1 h2]

/-- A point of `closest_layer_points` of a later slot is a point of an earlier slot, or at or
above the earlier slot. -/
theorem closestLayerPoints_mono (h : HierarchyModuli) (startSlot : Nat) {f f' : Nat}
    (hf : f ≤ f') {p : Nat} (hp : p ∈ h.closestLayerPoints f' startSlot) :
    p ∈ h.closestLayerPoints f startSlot ∨ f ≤ p := by
  rw [closestLayerPoints, mem_destutter_ne, List.mem_map] at hp
  obtain ⟨n, hn, rfl⟩ := hp
  by_cases hlo : f' / n * n ≤ f
  · -- the layer rounds both slots down to the same multiple
    left
    rw [closestLayerPoints, mem_destutter_ne, List.mem_map]
    exact ⟨n, hn, by rw [div_mul_eq_of_le hf hlo]⟩
  · exact .inr (le_max_of_le_left (by omega))

end HierarchyModuli

section StorageStrategy

open HierarchyModuli

theorem storage_strategy_well_founded (c : HierarchyConfig) (h : HierarchyModuli)
    (hc : c.toModuli = .ok h) :
    (∀ startSlot slot, startSlot ≤ slot → ∃ chain : List Nat, chain.length ≤ h.moduli.length ∧
      (slot :: chain).IsChain (fun a b => b < a ∧
        ∃ s, h.storageStrategy a startSlot = .ok s ∧ s.diffBaseSlot = some b) ∧
      (∀ b ∈ chain, startSlot ≤ b ∧
        ∃ s, h.storageStrategy b startSlot = .ok s ∧ s.isReplayFrom = false) ∧
      h.storageStrategy (chain.getLast?.getD slot) startSlot = .ok .snapshot) ∧
    ∀ startSlot f f', f ≤ f' → ∀ p ∈ h.closestLayerPoints f' startSlot,
      p ∈ h.closestLayerPoints f startSlot ∨ f ≤ p := by
  have hw := HierarchyConfig.wellFormed_of_toModuli hc
  refine ⟨fun startSlot slot hle => ?_, fun startSlot f f' hf p hp =>
    h.closestLayerPoints_mono startSlot hf hp⟩
  obtain ⟨chain, hlen, hchain, hmem, hlast⟩ := exists_baseChain hw slot hle
  exact ⟨chain, hlen.trans ((Nat.sub_le _ _).trans (List.toFinset_card_le _)), hchain, hmem, hlast⟩

/-- The moduli of the default exponents `[5, 9, 11, 13, 16, 18, 21]`. -/
def defaultModuli : HierarchyModuli := ⟨[32, 512, 2048, 8192, 65536, 262144, 2097152]⟩

theorem storage_strategy_well_founded_default :
    HierarchyConfig.default.toModuli = .ok defaultModuli ∧
    (∀ startSlot slot, startSlot ≤ slot → ∃ chain : List Nat,
      chain.length ≤ defaultModuli.moduli.length ∧
      (slot :: chain).IsChain (fun a b => b < a ∧
        ∃ s, defaultModuli.storageStrategy a startSlot = .ok s ∧ s.diffBaseSlot = some b) ∧
      (∀ b ∈ chain, startSlot ≤ b ∧
        ∃ s, defaultModuli.storageStrategy b startSlot = .ok s ∧ s.isReplayFrom = false) ∧
      defaultModuli.storageStrategy (chain.getLast?.getD slot) startSlot = .ok .snapshot) ∧
    ∀ startSlot f f', f ≤ f' → ∀ p ∈ defaultModuli.closestLayerPoints f' startSlot,
      p ∈ defaultModuli.closestLayerPoints f startSlot ∨ f ≤ p := by
  have hc : HierarchyConfig.default.toModuli = .ok defaultModuli := by decide
  exact ⟨hc, storage_strategy_well_founded _ _ hc⟩

end StorageStrategy

end Vibehouse.Store.Hierarchy
