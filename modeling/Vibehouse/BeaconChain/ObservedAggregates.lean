import Mathlib.Data.Finset.Card
import Mathlib.Order.Interval.Finset.Nat
import Vibehouse.Lib.AssocList
import Vibehouse.Lib.MachineInt

/-! # The cache of observed aggregates

`ObservedAggregates` remembers, per slot, the aggregation bits of the aggregates seen for each
root, so that gossip can drop an aggregate whose bits are a subset of one already seen. It keeps
one `SlotHashSet` per slot in a window of `max_capacity` slots above `lowest_permissible_slot`.
`get_set_index` finds the set of a slot, creating it, pruning the window forward for a slot past
it, and replacing the set of the lowest slot when `max_capacity` sets exist already.

The stored items are generic, with `sub` their `is_subset`; an aggregate is its slot and the item
`get_item` gives, `none` for a Base attestation whose bits do not extend. The root of an
aggregate is given, as `observe_item` receives it or computes it.

The window is kept by `WindowInv`: the sets have distinct slots inside the window. A prune never
lowers `lowest_permissible_slot` when it comes after every slot seen so far; then by pigeonhole
`get_set_index` never evicts a set. `StoreInv` relates the stored items to `observed`, the items of
the calls to `observe_item` that returned `Ok`: every stored item is one of them (soundness), and
every one of them in the window is below a stored item of its slot and root (completeness), since
a stored item is only ever replaced by a superset. -/

namespace Vibehouse.Aggregates

open MachineInt

/-- `Error`, without `RootError`: the roots are given. -/
inductive Error
  | slotTooLow (slot lowestPermissibleSlot : Nat)
  | invalidSetIndex (index : Nat)
  | reachedMaxObservationsPerSlot (maxCapacity : Nat)
  | incorrectSlot (expected attestation : Nat)
  | getItemError
  deriving DecidableEq, Repr

/-- `ObserveOutcome`. -/
inductive ObserveOutcome
  | subset
  | new
  deriving DecidableEq, Repr

/-- An aggregate as the cache sees it: its slot, and the item `get_item` gives. -/
structure Aggregate (I : Type) where
  slot : Nat
  item : Option I

variable {R I : Type} [DecidableEq R] (sub : I → I → Bool)

namespace Aggregate

/-- `is_subset`: false when the item cannot be formed. -/
def isSubset (a : Aggregate I) (other : I) : Bool := a.item.any (sub · other)

/-- `is_superset`: false when the item cannot be formed. -/
def isSuperset (a : Aggregate I) (other : I) : Bool := a.item.any (sub other ·)

/-- `get_item`. -/
def getItem (a : Aggregate I) : Except Error I :=
  match a.item with
  | some item => .ok item
  | none => .error .getItemError

end Aggregate

/-- `SlotHashSet`: the items of each root, as an association list. -/
structure SlotHashSet (R I : Type) where
  map : List (R × List I)
  slot : Nat
  maxCapacity : Nat

/-- The loop of `observe_item` over the items stored for a root: `none` when it ends without
returning, else the outcome and the items after it. -/
def scan (a : Aggregate I) : List I → Option (Except Error (ObserveOutcome × List I))
  | [] => none
  | existing :: rest =>
    if a.isSubset sub existing then some (.ok (.subset, existing :: rest))
    -- a superset replaces the first item it contains, and the loop stops
    else if a.isSuperset sub existing then
      some (a.getItem.map fun item => (.new, item :: rest))
    else (scan a rest).map (Except.map fun r => (r.1, existing :: r.2))

namespace SlotHashSet

/-- `SlotHashSet::observe_item`. -/
def observeItem (set : SlotHashSet R I) (a : Aggregate I) (root : R) :
    Except Error (ObserveOutcome × SlotHashSet R I) :=
  if a.slot ≠ set.slot then .error (.incorrectSlot set.slot a.slot)
  else
    match (set.map.lookup root).bind (scan sub a) with
    | some r => r.map fun r => (r.1, { set with map := AssocList.setValue set.map root r.2 })
    | none =>
      if set.map.length ≥ set.maxCapacity then
        .error (.reachedMaxObservationsPerSlot set.maxCapacity)
      else do
        let item ← a.getItem
        pure (.new, { set with map := AssocList.pushAt set.map root item })

/-- `SlotHashSet::is_known_subset`. -/
def isKnownSubset (set : SlotHashSet R I) (a : Aggregate I) (root : R) : Except Error Bool :=
  if a.slot ≠ set.slot then .error (.incorrectSlot set.slot a.slot)
  else .ok ((set.map.lookup root).any fun items => items.any (a.isSubset sub))

end SlotHashSet

/-- `ObservedAggregates`. -/
structure ObservedAggregates (R I : Type) where
  lowestPermissibleSlot : Nat
  sets : List (SlotHashSet R I)

variable (maxSlotCapacity maxPerSlotCapacity : Nat)

/-- `max_capacity`: `max_slot_capacity + 2`, a slot either side for clock disparity. -/
def maxCapacity : Nat := maxSlotCapacity + 2

/-- The index of the first set of least slot, as `min_by_key` picks it. -/
def minSlotIndex (sets : List (SlotHashSet R I)) : Nat :=
  ((sets.zipIdx.foldl (fun (best : Option (Nat × Nat)) e =>
      match best with
      | none => some (e.1.slot, e.2)
      | some b => if e.1.slot < b.1 then some (e.1.slot, e.2) else some b) none).map
    Prod.snd).getD 0

namespace ObservedAggregates

/-- `Default`. -/
def start : ObservedAggregates R I := ⟨0, []⟩

/-- `prune`: the window moved to end at `current_slot`. -/
def prune (o : ObservedAggregates R I) (currentSlot : Nat) : ObservedAggregates R I :=
  let lowestPermissibleSlot := currentSlot - (maxCapacity maxSlotCapacity - 1)
  { sets := o.sets.filter fun set => set.slot ≥ lowestPermissibleSlot
    lowestPermissibleSlot }

/-- Whether `get_set_index` prunes for `slot`: `lowest_permissible_slot + max_capacity < slot + 1`
in saturating `Slot` arithmetic. -/
def advances (o : ObservedAggregates R I) (slot : Nat) : Bool :=
  uSaturatingAdd 64 o.lowestPermissibleSlot (maxCapacity maxSlotCapacity) <
    uSaturatingAdd 64 slot 1

/-- `get_set_index`: the index of the set of `slot`, and the cache after. -/
def getSetIndex (o : ObservedAggregates R I) (slot : Nat) :
    Except Error Nat × ObservedAggregates R I :=
  if slot < o.lowestPermissibleSlot then (.error (.slotTooLow slot o.lowestPermissibleSlot), o)
  else
    let o := if o.advances maxSlotCapacity slot then o.prune maxSlotCapacity slot else o
    match o.sets.findIdx? (·.slot = slot) with
    | some index => (.ok index, o)
    | none =>
      let set : SlotHashSet R I := ⟨[], slot, maxPerSlotCapacity⟩
      if o.sets.length < maxCapacity maxSlotCapacity ∨ o.sets.isEmpty then
        (.ok o.sets.length, { o with sets := o.sets ++ [set] })
      else
        -- the set of the lowest slot is replaced
        let index := minSlotIndex o.sets
        (.ok index, { o with sets := o.sets.set index set })

/-- `ObservedAggregates::observe_item`. -/
def observeItem (o : ObservedAggregates R I) (a : Aggregate I) (root : R) :
    Except Error ObserveOutcome × ObservedAggregates R I :=
  match o.getSetIndex maxSlotCapacity maxPerSlotCapacity a.slot with
  | (.error e, o) => (.error e, o)
  | (.ok index, o) =>
    match o.sets[index]? with
    | none => (.error (.invalidSetIndex index), o)
    | some set =>
      match set.observeItem sub a root with
      | .ok r => (.ok r.1, { o with sets := o.sets.set index r.2 })
      | .error e => (.error e, o)

/-- `ObservedAggregates::is_known_subset`. -/
def isKnownSubset (o : ObservedAggregates R I) (a : Aggregate I) (root : R) :
    Except Error Bool × ObservedAggregates R I :=
  match o.getSetIndex maxSlotCapacity maxPerSlotCapacity a.slot with
  | (.error e, o) => (.error e, o)
  | (.ok index, o) =>
    match o.sets[index]? with
    | none => (.error (.invalidSetIndex index), o)
    | some set => (set.isKnownSubset sub a root, o)

/-- Whether `get_set_index` for `slot` would replace the set of the lowest slot. -/
def evicts (o : ObservedAggregates R I) (slot : Nat) : Bool :=
  let o := if o.advances maxSlotCapacity slot then o.prune maxSlotCapacity slot else o
  decide (slot ≥ o.lowestPermissibleSlot) && (o.sets.findIdx? (·.slot = slot)).isNone &&
    !(decide (o.sets.length < maxCapacity maxSlotCapacity) || o.sets.isEmpty)

end ObservedAggregates

/-! ## Runs of calls -/

/-- A call on the cache. -/
inductive Call (R I : Type)
  | observeItem (a : Aggregate I) (root : R)
  | isKnownSubset (a : Aggregate I) (root : R)
  | prune (currentSlot : Nat)

namespace Call

/-- The slot a call names. -/
def slot : Call R I → Nat
  | observeItem a _ | isKnownSubset a _ => a.slot
  | prune currentSlot => currentSlot

/-- The slot of a prune. -/
def pruneSlot? : Call R I → Option Nat
  | prune currentSlot => some currentSlot
  | _ => none

end Call

/-- The calls one after another, with `observed`: the slot, root and item of each call to
`observe_item` that returned `Ok`. -/
def runCalls (o : ObservedAggregates R I) (observed : List (Nat × R × I)) :
    List (Call R I) → ObservedAggregates R I × List (Nat × R × I)
  | [] => (o, observed)
  | .observeItem a root :: calls =>
    let r := o.observeItem sub maxSlotCapacity maxPerSlotCapacity a root
    let observed := match r.1, a.item with
      | .ok _, some item => observed ++ [(a.slot, root, item)]
      | _, _ => observed
    runCalls r.2 observed calls
  | .isKnownSubset a root :: calls =>
    runCalls (o.isKnownSubset sub maxSlotCapacity maxPerSlotCapacity a root).2 observed calls
  | .prune currentSlot :: calls => runCalls (o.prune maxSlotCapacity currentSlot) observed calls

/-- A window of three slots (`max_slot_capacity = 1`, as for sync contributions): an aggregate
of slot 10 moves the window up, a prune at slot 1 moves it back down, and aggregates of slots 0, 1
and 2 follow, all for root 0. -/
def lateAggregateCalls : List (Call Nat (Finset Nat)) :=
  [.observeItem ⟨10, some {0}⟩ 0, .prune 1, .observeItem ⟨0, some {0}⟩ 0,
    .observeItem ⟨1, some {0}⟩ 0, .observeItem ⟨2, some {0}⟩ 0]

/-- The same window at the top of the slots: a prune at slot `u64::MAX - 1` puts it at
`u64::MAX - 3`, and aggregates of its three slots fill it. For an aggregate of slot `u64::MAX`,
`slot + 1` saturates, so the window does not move and the set of the lowest slot is evicted,
although every prune came at a slot no lower than the calls before it. -/
def topAggregateCalls : List (Call Nat (Finset Nat)) :=
  [.prune (uMax 64 - 1), .observeItem ⟨uMax 64 - 3, some {0}⟩ 0,
    .observeItem ⟨uMax 64 - 2, some {0}⟩ 0, .observeItem ⟨uMax 64 - 1, some {0}⟩ 0,
    .observeItem ⟨uMax 64, some {0}⟩ 0]

/-- The runs of the two sequences of calls. -/
def lateAggregateRun : ObservedAggregates Nat (Finset Nat) × List (Nat × Nat × Finset Nat) :=
  runCalls (fun a b => decide (a ⊆ b)) 1 4 ObservedAggregates.start [] lateAggregateCalls

def topAggregateRun : ObservedAggregates Nat (Finset Nat) × List (Nat × Nat × Finset Nat) :=
  runCalls (fun a b => decide (a ⊆ b)) 1 4 ObservedAggregates.start [] topAggregateCalls

/-- The window escapes, and an aggregate still in it is forgotten, after a prune at a slot
below an earlier call, or after an aggregate of slot `u64::MAX`. -/
theorem observed_aggregates_window_escapes :
    ((∃ set ∈ lateAggregateRun.1.sets,
        lateAggregateRun.1.lowestPermissibleSlot + maxCapacity 1 ≤ set.slot) ∧
      lateAggregateRun.1.evicts 1 0 = true ∧ (0, 0, {0}) ∈ lateAggregateRun.2 ∧
      lateAggregateRun.1.lowestPermissibleSlot ≤ 0 ∧
      (lateAggregateRun.1.isKnownSubset (fun a b => decide (a ⊆ b)) 1 4 ⟨0, some {0}⟩ 0).1 =
        .ok false) ∧
    topAggregateCalls.Pairwise (fun c c' => ∀ s, c'.pruneSlot? = some s → c.slot ≤ s) ∧
    (∃ set ∈ topAggregateRun.1.sets,
        topAggregateRun.1.lowestPermissibleSlot + maxCapacity 1 ≤ set.slot) ∧
      (uMax 64 - 3, 0, {0}) ∈ topAggregateRun.2 ∧
      topAggregateRun.1.lowestPermissibleSlot ≤ uMax 64 - 3 ∧
      (topAggregateRun.1.isKnownSubset (fun a b => decide (a ⊆ b)) 1 4
        ⟨uMax 64 - 3, some {0}⟩ 0).1 = .ok false := by
  decide


/-! ## The stored items of a set -/

namespace SlotHashSet

/-- `v` is stored for `root`. -/
def Stored (set : SlotHashSet R I) (root : R) (v : I) : Prop :=
  ∃ items, set.map.lookup root = some items ∧ v ∈ items

/-- `b` is below an item stored for `root`. -/
def Covers (set : SlotHashSet R I) (root : R) (b : I) : Prop :=
  ∃ v, set.Stored root v ∧ sub b v = true

/-- How a set changes when `b` is observed for `root`: its slot stays, every item after is one
before or `b` for `root`, and every item before, and `b`, is below one after. -/
structure Grows (set set' : SlotHashSet R I) (root : R) (b : I) : Prop where
  slot_eq : set'.slot = set.slot
  stored : ∀ r v, set'.Stored r v → (r = root ∧ v = b) ∨ set.Stored r v
  covers_old : ∀ r v, set.Stored r v → set'.Covers sub r v
  covers_new : set'.Covers sub root b

end SlotHashSet

section Store

variable {sub}

/-- The loop of `observe_item` when it returns `Ok`: every item after it is one before it or the
new one, and every item before it, and the new one, is below one after it. -/
theorem scan_ok (hrefl : ∀ v, sub v v = true) {a : Aggregate I} :
    ∀ {l l' : List I} {outcome : ObserveOutcome}, scan sub a l = some (.ok (outcome, l')) →
      ∃ b, a.item = some b ∧ (∀ v ∈ l', v ∈ l ∨ v = b) ∧
        (∀ v ∈ l, ∃ v' ∈ l', sub v v' = true) ∧ ∃ v' ∈ l', sub b v' = true
  | [], _, _, h => by cases h
  | existing :: rest, l', outcome, h => by
    simp only [scan] at h
    split at h
    · -- the new item is below `existing`: the items stay
      rename_i hsub
      obtain ⟨b, hb, hbe⟩ := (Option.any_eq_true _ _).1 hsub
      cases h
      exact ⟨b, hb, fun v hv => .inl hv, fun v hv => ⟨v, hv, hrefl v⟩,
        existing, List.mem_cons_self, hbe⟩
    split at h
    · -- the new item is above `existing` and takes its place
      rename_i _ hsup
      obtain ⟨b, hb, heb⟩ := (Option.any_eq_true _ _).1 hsup
      simp only [Aggregate.getItem, hb, Except.map, Option.some.injEq, Except.ok.injEq,
        Prod.mk.injEq] at h
      obtain ⟨rfl, rfl⟩ := h
      refine ⟨b, hb, ?_, ?_, b, List.mem_cons_self, hrefl b⟩
      · rintro v (_ | ⟨_, hv⟩)
        · exact .inr rfl
        · exact .inl (List.mem_cons_of_mem _ hv)
      · rintro v (_ | ⟨_, hv⟩)
        · exact ⟨b, List.mem_cons_self, heb⟩
        · exact ⟨v, List.mem_cons_of_mem _ hv, hrefl v⟩
    · -- the loop goes on with `existing` kept in front
      cases hrec : scan sub a rest with
      | none => simp [hrec] at h
      | some r =>
        cases r with
        | error e => simp [hrec, Except.map] at h
        | ok r =>
          obtain ⟨outcome', l''⟩ := r
          simp only [hrec, Option.map_some, Except.map, Option.some.injEq, Except.ok.injEq,
            Prod.mk.injEq] at h
          obtain ⟨rfl, rfl⟩ := h
          obtain ⟨b, hb, hsound, hmono, v', hv', hbv'⟩ := scan_ok hrefl hrec
          refine ⟨b, hb, ?_, ?_, v', List.mem_cons_of_mem _ hv', hbv'⟩
          · rintro v (_ | ⟨_, hv⟩)
            · exact .inl List.mem_cons_self
            · exact (hsound v hv).imp_left (List.mem_cons_of_mem _)
          · rintro v (_ | ⟨_, hv⟩)
            · exact ⟨existing, List.mem_cons_self, hrefl existing⟩
            · obtain ⟨w, hw, hvw⟩ := hmono v hv
              exact ⟨w, List.mem_cons_of_mem _ hw, hvw⟩

namespace SlotHashSet

/-- `observe_item` on a set when the loop over the items of `root` returns `Ok`: the items it
leaves replace those of `root`. -/
theorem grows_setValue (hrefl : ∀ v, sub v v = true) {set : SlotHashSet R I} {root : R}
    {items l' : List I} {b : I} (hitems : set.map.lookup root = some items)
    (hsound : ∀ v ∈ l', v ∈ items ∨ v = b) (hmono : ∀ v ∈ items, ∃ v' ∈ l', sub v v' = true)
    (hnew : ∃ v' ∈ l', sub b v' = true) :
    set.Grows sub { set with map := AssocList.setValue set.map root l' } root b := by
  have hlookup : ∀ r, (AssocList.setValue set.map root l').lookup r =
      if r = root then some l' else set.map.lookup r := by
    intro r
    rw [AssocList.lookup_setValue, hitems]
    rfl
  refine ⟨rfl, ?_, ?_, ?_⟩
  · rintro r v ⟨items', hr, hv⟩
    rw [hlookup] at hr
    split_ifs at hr with hrr
    · cases hr
      subst hrr
      exact (hsound v hv).symm.imp (fun hvb => ⟨rfl, hvb⟩) fun hv => ⟨items, hitems, hv⟩
    · exact .inr ⟨items', hr, hv⟩
  · rintro r v ⟨items', hr, hv⟩
    by_cases hrr : r = root
    · subst hrr
      cases hitems.symm.trans hr
      obtain ⟨w, hw, hvw⟩ := hmono v hv
      exact ⟨w, ⟨l', by rw [hlookup, if_pos rfl], hw⟩, hvw⟩
    · exact ⟨v, ⟨items', by rw [hlookup, if_neg hrr]; exact hr, hv⟩, hrefl v⟩
  · obtain ⟨v', hv', hbv'⟩ := hnew
    exact ⟨v', ⟨l', by rw [hlookup, if_pos rfl], hv'⟩, hbv'⟩

/-- `observe_item` on a set when no stored item of `root` decides: `b` is pushed for `root`. -/
theorem grows_pushAt (hrefl : ∀ v, sub v v = true) (set : SlotHashSet R I) (root : R) (b : I) :
    set.Grows sub { set with map := AssocList.pushAt set.map root b } root b := by
  have hlookup := AssocList.lookup_pushAt set.map root
  refine ⟨rfl, ?_, ?_, ?_⟩
  · rintro r v ⟨items', hr, hv⟩
    rw [hlookup] at hr
    split_ifs at hr with hrr
    · cases hr
      subst hrr
      rcases List.mem_append.1 hv with hv | hv
      · cases hitems : set.map.lookup r with
        | none => simp [hitems] at hv
        | some items =>
          rw [hitems] at hv
          exact .inr ⟨items, hitems, hv⟩
      · exact .inl ⟨rfl, List.mem_singleton.1 hv⟩
    · exact .inr ⟨items', hr, hv⟩
  · rintro r v ⟨items', hr, hv⟩
    refine ⟨v, ?_, hrefl v⟩
    by_cases hrr : r = root
    · subst hrr
      exact ⟨_, by rw [hlookup, if_pos rfl], List.mem_append_left _ (by rw [hr]; exact hv)⟩
    · exact ⟨items', by rw [hlookup, if_neg hrr]; exact hr, hv⟩
  · exact ⟨b, ⟨_, by rw [hlookup, if_pos rfl], List.mem_append_right _ (List.mem_singleton_self b)⟩,
      hrefl b⟩

theorem not_stored_of_map_eq_nil {set : SlotHashSet R I} (h : set.map = []) (root : R) (v : I) :
    ¬set.Stored root v := by
  rintro ⟨items, hitems, -⟩
  simp [h] at hitems

/-- `is_known_subset` on a set is `Ok(true)` when the slot is the set's and the aggregate is
below an item stored for the root. -/
theorem isKnownSubset_eq_ok_true {set : SlotHashSet R I} {a : Aggregate I} {root : R} :
    set.isKnownSubset sub a root = .ok true ↔
      a.slot = set.slot ∧ ∃ v, set.Stored root v ∧ a.isSubset sub v = true := by
  unfold SlotHashSet.isKnownSubset Stored
  split_ifs with hslot
  · simp [hslot]
  · simp only [not_not.1 hslot, Except.ok.injEq, Option.any_eq_true, List.any_eq_true, true_and]
    constructor
    · rintro ⟨items, hitems, v, hv, hsub⟩
      exact ⟨v, ⟨items, hitems, hv⟩, hsub⟩
    · rintro ⟨v, ⟨items, hitems, hv⟩, hsub⟩
      exact ⟨items, hitems, v, hv, hsub⟩

/-- `observe_item` on a set when it returns `Ok`: the aggregate has an item and the slot of the
set, and the set grows by the item. -/
theorem observeItem_ok (hrefl : ∀ v, sub v v = true) {set set' : SlotHashSet R I}
    {a : Aggregate I} {root : R} {outcome : ObserveOutcome}
    (h : set.observeItem sub a root = .ok (outcome, set')) :
    ∃ b, a.item = some b ∧ a.slot = set.slot ∧ set.Grows sub set' root b := by
  unfold SlotHashSet.observeItem at h
  split at h
  · cases h
  rename_i hslot
  split at h
  · -- the loop over the items of `root` decides
    rename_i r hr
    obtain ⟨items, hitems, hscan⟩ := Option.bind_eq_some_iff.1 hr
    cases r with
    | error e => cases h
    | ok r =>
      obtain ⟨outcome', l'⟩ := r
      simp only [Except.map, Except.ok.injEq, Prod.mk.injEq] at h
      obtain ⟨rfl, rfl⟩ := h
      obtain ⟨b, hb, hsound, hmono, hnew⟩ := scan_ok hrefl hscan
      exact ⟨b, hb, not_not.1 hslot, grows_setValue hrefl hitems hsound hmono hnew⟩
  · split at h
    · cases h
    cases hb : a.item with
    | none => simp [Aggregate.getItem, hb] at h
    | some b =>
      simp only [Aggregate.getItem, hb] at h
      cases h
      exact ⟨b, rfl, not_not.1 hslot, grows_pushAt hrefl set root b⟩

end SlotHashSet

end Store


/-! ## The window -/

theorem two_le_maxCapacity : 2 ≤ maxCapacity maxSlotCapacity := Nat.le_add_left 2 _

namespace ObservedAggregates

section Window

omit [DecidableEq R]

variable {maxSlotCapacity} {o : ObservedAggregates R I} {slot : Nat}

@[simp] theorem prune_lowestPermissibleSlot (o : ObservedAggregates R I) (currentSlot : Nat) :
    (o.prune maxSlotCapacity currentSlot).lowestPermissibleSlot =
      currentSlot - (maxCapacity maxSlotCapacity - 1) := rfl

@[simp] theorem mem_prune_sets {currentSlot : Nat} {set : SlotHashSet R I} :
    set ∈ (o.prune maxSlotCapacity currentSlot).sets ↔
      set ∈ o.sets ∧ currentSlot - (maxCapacity maxSlotCapacity - 1) ≤ set.slot := by
  simp [prune]

/-- Below `u64::MAX` the saturating comparison of `get_set_index` is the plain one: it prunes
for a slot past the window. -/
theorem advances_iff (hmax : slot < uMax 64) :
    o.advances maxSlotCapacity slot = true ↔
      o.lowestPermissibleSlot + maxCapacity maxSlotCapacity ≤ slot := by
  unfold advances uSaturatingAdd
  simp only [decide_eq_true_eq]
  omega

variable (maxSlotCapacity) in
/-- The window of the cache: its sets have distinct slots, all in
`[lowest_permissible_slot, lowest_permissible_slot + max_capacity)`. -/
structure WindowInv (o : ObservedAggregates R I) : Prop where
  mem_window : ∀ set ∈ o.sets, o.lowestPermissibleSlot ≤ set.slot ∧
    set.slot < o.lowestPermissibleSlot + maxCapacity maxSlotCapacity
  nodup : (o.sets.map (·.slot)).Nodup

theorem windowInv_start : (start : ObservedAggregates R I).WindowInv maxSlotCapacity :=
  ⟨fun _ h => (nomatch h), List.nodup_nil⟩

/-- By pigeonhole, a window without the set of one of its slots has room for one more set. -/
theorem WindowInv.length_lt (h : o.WindowInv maxSlotCapacity) (hlo : o.lowestPermissibleSlot ≤ slot)
    (hhi : slot < o.lowestPermissibleSlot + maxCapacity maxSlotCapacity)
    (hnot : ∀ set ∈ o.sets, set.slot ≠ slot) : o.sets.length < maxCapacity maxSlotCapacity := by
  have hsub : (o.sets.map (·.slot)).toFinset ⊆
      (Finset.Ico o.lowestPermissibleSlot
        (o.lowestPermissibleSlot + maxCapacity maxSlotCapacity)).erase slot := by
    intro s hs
    obtain ⟨set, hset, rfl⟩ := List.mem_map.1 (List.mem_toFinset.1 hs)
    simp only [Finset.mem_erase, Finset.mem_Ico]
    exact ⟨hnot set hset, h.mem_window set hset⟩
  have hcard := Finset.card_le_card hsub
  rw [List.toFinset_card_of_nodup h.nodup, List.length_map,
    Finset.card_erase_of_mem (Finset.mem_Ico.2 ⟨hlo, hhi⟩), Nat.card_Ico] at hcard
  omega

/-- A prune that does not lower `lowest_permissible_slot` keeps the window. -/
theorem WindowInv.prune (h : o.WindowInv maxSlotCapacity) {currentSlot : Nat}
    (hle : o.lowestPermissibleSlot ≤ currentSlot - (maxCapacity maxSlotCapacity - 1)) :
    (o.prune maxSlotCapacity currentSlot).WindowInv maxSlotCapacity := by
  refine ⟨fun set hset => ?_, h.nodup.sublist (List.filter_sublist.map _)⟩
  obtain ⟨hmem, hlo⟩ := mem_prune_sets.1 hset
  have := (h.mem_window set hmem).2
  simp only [prune_lowestPermissibleSlot]
  omega

theorem slot_ne_of_findIdx?_eq_none {sets : List (SlotHashSet R I)}
    (h : sets.findIdx? (·.slot = slot) = none) : ∀ set ∈ sets, set.slot ≠ slot :=
  fun set hset => by simpa using List.findIdx?_eq_none_iff.1 h set hset

/-- The prune `get_set_index` does for a slot at or above the window: after it the slot is in the
window, which is kept and moved up at most to end at the slot. -/
theorem WindowInv.advance (h : o.WindowInv maxSlotCapacity) (hlo : o.lowestPermissibleSlot ≤ slot)
    (hmax : slot < uMax 64) :
    let p := if o.advances maxSlotCapacity slot then o.prune maxSlotCapacity slot else o
    p.WindowInv maxSlotCapacity ∧ o.lowestPermissibleSlot ≤ p.lowestPermissibleSlot ∧
      p.lowestPermissibleSlot ≤ slot ∧ slot < p.lowestPermissibleSlot + maxCapacity maxSlotCapacity ∧
      p.lowestPermissibleSlot ≤ max o.lowestPermissibleSlot (slot - (maxCapacity maxSlotCapacity - 1)) ∧
      ∀ set ∈ o.sets, p.lowestPermissibleSlot ≤ set.slot → set ∈ p.sets := by
  intro p
  have hC := two_le_maxCapacity maxSlotCapacity
  by_cases hadv : o.lowestPermissibleSlot + maxCapacity maxSlotCapacity ≤ slot
  · have hp : p = o.prune maxSlotCapacity slot := if_pos ((advances_iff hmax).2 hadv)
    rw [hp, prune_lowestPermissibleSlot]
    exact ⟨h.prune (by omega), by omega, by omega, by omega, by omega,
      fun set hset hs => mem_prune_sets.2 ⟨hset, hs⟩⟩
  · have hp : p = o := if_neg (mt (advances_iff hmax).1 hadv)
    rw [hp]
    exact ⟨h, le_rfl, hlo, by omega, le_max_left _ _, fun set hset _ => hset⟩

variable (maxSlotCapacity) in
/-- Every set after `get_set_index` is one before it or a new, empty one. -/
theorem getSetIndex_sets (o : ObservedAggregates R I) (slot : Nat) :
    ∀ set ∈ (o.getSetIndex maxSlotCapacity maxPerSlotCapacity slot).2.sets,
      set ∈ o.sets ∨ set.map = [] := by
  unfold ObservedAggregates.getSetIndex
  split
  · exact fun set hset => .inl hset
  have hp : ∀ set ∈ (if o.advances maxSlotCapacity slot then o.prune maxSlotCapacity slot
      else o).sets, set ∈ o.sets := by
    split
    · exact fun set hset => (mem_prune_sets.1 hset).1
    · exact fun set hset => hset
  generalize (if o.advances maxSlotCapacity slot then o.prune maxSlotCapacity slot else o) = p
    at hp ⊢
  dsimp only
  split
  · exact fun set hset => .inl (hp set hset)
  · split
    · intro set hset
      rcases List.mem_append.1 hset with hset | hset
      · exact .inl (hp set hset)
      · rw [List.mem_singleton.1 hset]
        exact .inr rfl
    · intro set hset
      rcases List.mem_or_eq_of_mem_set hset with hset | rfl
      · exact .inl (hp set hset)
      · exact .inr rfl

/-- `get_set_index` for a slot at or above the window and below `u64::MAX`, in a cache that keeps
its window: it returns the index of a set of the slot and evicts nothing; the window is kept. -/
theorem WindowInv.getSetIndex (h : o.WindowInv maxSlotCapacity)
    (hlo : o.lowestPermissibleSlot ≤ slot) (hmax : slot < uMax 64) :
    ∃ index set o', o.getSetIndex maxSlotCapacity maxPerSlotCapacity slot = (.ok index, o') ∧
      o'.sets[index]? = some set ∧ set.slot = slot ∧ o'.WindowInv maxSlotCapacity ∧
      o.lowestPermissibleSlot ≤ o'.lowestPermissibleSlot ∧
      o'.lowestPermissibleSlot ≤ max o.lowestPermissibleSlot (slot - (maxCapacity maxSlotCapacity - 1)) ∧
      ∀ set ∈ o.sets, o'.lowestPermissibleSlot ≤ set.slot → set ∈ o'.sets := by
  obtain ⟨hw, hup, hplo, hphi, hpmax, hkeep⟩ := h.advance hlo hmax
  unfold ObservedAggregates.getSetIndex
  rw [if_neg (Nat.not_lt.2 hlo)]
  generalize (if o.advances maxSlotCapacity slot then o.prune maxSlotCapacity slot else o) = p
    at hw hup hplo hphi hpmax hkeep ⊢
  dsimp only
  cases hidx : p.sets.findIdx? (·.slot = slot) with
  | some index =>
    -- the set of the slot is there
    obtain ⟨hi, hslot, -⟩ := List.findIdx?_eq_some_iff_getElem.1 hidx
    exact ⟨index, _, p, rfl, List.getElem?_eq_getElem hi, of_decide_eq_true hslot, hw, hup,
      hpmax, hkeep⟩
  | none =>
    -- no set of the slot: by pigeonhole there is room for a new one
    have hnot := slot_ne_of_findIdx?_eq_none hidx
    rw [if_pos (Or.inl (hw.length_lt hplo hphi hnot))]
    refine ⟨_, ⟨[], slot, maxPerSlotCapacity⟩, _, rfl, by simp, rfl, ⟨?_, ?_⟩, hup, hpmax,
      fun set hset hs => List.mem_append_left _ (hkeep set hset hs)⟩
    · intro set hset
      rcases List.mem_append.1 hset with hset | hset
      · exact hw.mem_window set hset
      · rw [List.mem_singleton.1 hset]
        exact ⟨hplo, hphi⟩
    · rw [List.map_append, List.nodup_append]
      exact ⟨hw.nodup, List.nodup_singleton _, by simpa using fun set hset => hnot set hset⟩

/-- In a cache that keeps its window, `get_set_index` for the slot of one of its sets finds that
set and changes nothing. -/
theorem WindowInv.getSetIndex_of_mem (h : o.WindowInv maxSlotCapacity) {set : SlotHashSet R I}
    (hset : set ∈ o.sets) :
    ∃ index, o.getSetIndex maxSlotCapacity maxPerSlotCapacity set.slot = (.ok index, o) ∧
      o.sets[index]? = some set := by
  obtain ⟨hlo, hhi⟩ := h.mem_window set hset
  -- a slot of the window is not past it, whatever the saturation
  have hadv : o.advances maxSlotCapacity set.slot = false := by
    unfold advances uSaturatingAdd
    simp only [decide_eq_false_iff_not]
    omega
  have hfound : (o.sets.findIdx? (·.slot = set.slot)).isSome := by
    rw [List.findIdx?_isSome, List.any_eq_true]
    exact ⟨set, hset, by simp⟩
  obtain ⟨index, hidx⟩ := Option.isSome_iff_exists.1 hfound
  obtain ⟨hi, hslot, -⟩ := List.findIdx?_eq_some_iff_getElem.1 hidx
  refine ⟨index, ?_, ?_⟩
  · simp [ObservedAggregates.getSetIndex, Nat.not_lt.2 hlo, hadv, hidx]
  · rw [List.getElem?_eq_getElem hi]
    exact congrArg some (List.inj_on_of_nodup_map h.nodup (List.getElem_mem hi) hset
      (of_decide_eq_true hslot))

/-- Replacing a set by one of the same slot keeps the window. -/
theorem WindowInv.set (h : o.WindowInv maxSlotCapacity) {index : Nat} {set set' : SlotHashSet R I}
    (hidx : o.sets[index]? = some set) (hslot : set'.slot = set.slot) :
    ({ o with sets := o.sets.set index set' } : ObservedAggregates R I).WindowInv maxSlotCapacity := by
  obtain ⟨hi, hget⟩ := List.getElem?_eq_some_iff.1 hidx
  refine ⟨fun t ht => ?_, ?_⟩
  · rcases List.mem_or_eq_of_mem_set ht with ht | rfl
    · exact h.mem_window t ht
    · rw [hslot]
      exact h.mem_window set (List.mem_of_getElem? hidx)
  · have hi' : index < (o.sets.map (·.slot)).length := by simpa using hi
    have hself : (o.sets.map (·.slot))[index] = set.slot := by simp [hget]
    simp only [List.map_set, hslot]
    rw [← hself, List.set_getElem_self]
    exact h.nodup

/-- In a cache that keeps its window, `get_set_index` takes the branch that evicts the set of the
lowest slot for no slot below `u64::MAX`. -/
theorem WindowInv.evicts_eq_false (h : o.WindowInv maxSlotCapacity) (hmax : slot < uMax 64) :
    o.evicts maxSlotCapacity slot = false := by
  unfold evicts
  by_cases hlo : o.lowestPermissibleSlot ≤ slot
  · obtain ⟨hw, -, hplo, hphi, -, -⟩ := h.advance hlo hmax
    generalize (if o.advances maxSlotCapacity slot then o.prune maxSlotCapacity slot else o) = p
      at hw hplo hphi ⊢
    dsimp only
    cases hidx : p.sets.findIdx? (·.slot = slot) with
    | some index => simp
    | none => simp [hw.length_lt hplo hphi (slot_ne_of_findIdx?_eq_none hidx)]
  · -- below the window nothing is pruned and the slot is too low
    have hadv : o.advances maxSlotCapacity slot = false := by
      rw [Bool.eq_false_iff, ne_eq, advances_iff hmax]
      omega
    simp [hadv, Nat.lt_of_not_le hlo]

end Window

/-! ## The stored items and the observed ones -/

section Store

variable {sub} {maxSlotCapacity maxPerSlotCapacity} {o o' : ObservedAggregates R I}
  {observed : List (Nat × R × I)}

variable (sub) in
/-- The stored items and `observed`, the items of the calls to `observe_item` that returned `Ok`:
every stored item is one of them, of its slot and root, and every one of them in the window is
below a stored item of its slot and root. -/
structure StoreInv (observed : List (Nat × R × I)) (o : ObservedAggregates R I) : Prop where
  sound : ∀ set ∈ o.sets, ∀ root v, set.Stored root v → (set.slot, root, v) ∈ observed
  complete : ∀ s root b, (s, root, b) ∈ observed → o.lowestPermissibleSlot ≤ s →
    ∃ set ∈ o.sets, set.slot = s ∧ set.Covers sub root b

theorem storeInv_start : (start : ObservedAggregates R I).StoreInv sub [] :=
  ⟨fun _ h => (nomatch h), fun _ _ _ h => (nomatch h)⟩

/-- Sets changed only by adding empty ones and dropping those below a window that does not move
down keep the relation. -/
theorem StoreInv.of_sets (h : o.StoreInv sub observed)
    (hsets : ∀ set ∈ o'.sets, set ∈ o.sets ∨ set.map = [])
    (hkeep : ∀ set ∈ o.sets, o'.lowestPermissibleSlot ≤ set.slot → set ∈ o'.sets)
    (hlps : o.lowestPermissibleSlot ≤ o'.lowestPermissibleSlot) : o'.StoreInv sub observed := by
  refine ⟨fun set hset root v hv => ?_, fun s root b hb hs => ?_⟩
  · rcases hsets set hset with hset | hempty
    · exact h.sound set hset root v hv
    · exact absurd hv (SlotHashSet.not_stored_of_map_eq_nil hempty root v)
  · obtain ⟨set, hset, rfl, hcov⟩ := h.complete s root b hb (hlps.trans hs)
    exact ⟨set, hkeep set hset hs, rfl, hcov⟩

omit [DecidableEq R] in
private theorem mem_set_of_getElem?_ne {l : List (SlotHashSet R I)} {index : Nat}
    {x y z : SlotHashSet R I} (hx : x ∈ l) (hidx : l[index]? = some y) (hne : x ≠ y) :
    x ∈ l.set index z := by
  obtain ⟨j, hj⟩ := List.mem_iff_getElem?.1 hx
  refine List.mem_iff_getElem?.2 ⟨j, ?_⟩
  rw [List.getElem?_set]
  split
  · subst_vars
    exact absurd (Option.some.inj (hidx.symm.trans hj)) hne.symm
  · exact hj

/-- The set at `index` replaced by the set it grows to when `b` is observed for `root`. -/
theorem StoreInv.grow (htrans : ∀ a b c, sub a b = true → sub b c = true → sub a c = true)
    (h : o.StoreInv sub observed) {index : Nat} {set set' : SlotHashSet R I} {root : R} {b : I}
    (hidx : o.sets[index]? = some set) (hg : set.Grows sub set' root b) :
    ({ o with sets := o.sets.set index set' } : ObservedAggregates R I).StoreInv sub
      (observed ++ [(set.slot, root, b)]) := by
  have hset' : set' ∈ o.sets.set index set' :=
    List.mem_set (List.getElem?_eq_some_iff.1 hidx).1 _
  refine ⟨fun t ht r v hv => ?_, fun s r c hc hs => ?_⟩
  · rcases List.mem_or_eq_of_mem_set ht with ht | rfl
    · exact List.mem_append_left _ (h.sound t ht r v hv)
    · rw [hg.slot_eq]
      rcases hg.stored r v hv with ⟨rfl, rfl⟩ | hv
      · exact List.mem_append_right _ (List.mem_singleton_self _)
      · exact List.mem_append_left _ (h.sound set (List.mem_of_getElem? hidx) r v hv)
  · rcases List.mem_append.1 hc with hc | hc
    · -- an older item: below the same stored item, or below one the new set keeps above it
      obtain ⟨t, ht, rfl, hcov⟩ := h.complete s r c hc hs
      by_cases hts : t = set
      · subst hts
        obtain ⟨v, hv, hcv⟩ := hcov
        obtain ⟨w, hw, hvw⟩ := hg.covers_old r v hv
        exact ⟨set', hset', hg.slot_eq, w, hw, htrans _ _ _ hcv hvw⟩
      · exact ⟨t, mem_set_of_getElem?_ne ht hidx hts, rfl, hcov⟩
    · obtain ⟨rfl, rfl, rfl⟩ : s = set.slot ∧ r = root ∧ c = b := by simpa using hc
      exact ⟨set', hset', hg.slot_eq, hg.covers_new⟩

theorem isKnownSubset_snd (o : ObservedAggregates R I) (a : Aggregate I) (root : R) :
    (o.isKnownSubset sub maxSlotCapacity maxPerSlotCapacity a root).2 =
      (o.getSetIndex maxSlotCapacity maxPerSlotCapacity a.slot).2 := by
  unfold isKnownSubset
  rcases o.getSetIndex maxSlotCapacity maxPerSlotCapacity a.slot with ⟨_ | index, o'⟩
  · rfl
  · dsimp only
    split <;> rfl

/-- `is_known_subset` is `Ok(true)` only for an aggregate with an item below one observed for its
slot and root. -/
theorem StoreInv.isKnownSubset_sound (h : o.StoreInv sub observed) {a : Aggregate I} {root : R}
    (hok : (o.isKnownSubset sub maxSlotCapacity maxPerSlotCapacity a root).1 = .ok true) :
    ∃ x y, a.item = some x ∧ (a.slot, root, y) ∈ observed ∧ sub x y = true := by
  have hsets := getSetIndex_sets maxSlotCapacity maxPerSlotCapacity o a.slot
  unfold isKnownSubset at hok
  rcases hgi : o.getSetIndex maxSlotCapacity maxPerSlotCapacity a.slot with ⟨_ | index, o'⟩
  · simp [hgi] at hok
  rw [hgi] at hok hsets
  cases hidx : o'.sets[index]? with
  | none => simp [hidx] at hok
  | some set =>
    simp only [hidx] at hok
    obtain ⟨hslot, v, hv, hsub⟩ := SlotHashSet.isKnownSubset_eq_ok_true.1 hok
    obtain ⟨x, hx, hxv⟩ := (Option.any_eq_true _ _).1 hsub
    rcases hsets set (List.mem_of_getElem? hidx) with hset | hempty
    · exact ⟨x, v, hx, hslot ▸ h.sound set hset root v hv, hxv⟩
    · exact absurd hv (SlotHashSet.not_stored_of_map_eq_nil hempty root v)

/-- In a cache that keeps its window, `is_known_subset` is `Ok(true)` for every aggregate with an
item below one observed for its slot and root, when the slot is still in the window. -/
theorem StoreInv.isKnownSubset_complete
    (htrans : ∀ a b c, sub a b = true → sub b c = true → sub a c = true)
    (hw : o.WindowInv maxSlotCapacity) (h : o.StoreInv sub observed) {s : Nat} {root : R} {y : I}
    (hy : (s, root, y) ∈ observed) (hs : o.lowestPermissibleSlot ≤ s) {a : Aggregate I} {x : I}
    (hslot : a.slot = s) (hx : a.item = some x) (hxy : sub x y = true) :
    (o.isKnownSubset sub maxSlotCapacity maxPerSlotCapacity a root).1 = .ok true := by
  obtain ⟨set, hset, rfl, v, hv, hyv⟩ := h.complete s root y hy hs
  obtain ⟨index, hgi, hidx⟩ := hw.getSetIndex_of_mem maxPerSlotCapacity hset
  unfold isKnownSubset
  rw [hslot, hgi]
  simp only [hidx]
  refine SlotHashSet.isKnownSubset_eq_ok_true.2 ⟨hslot, v, hv, ?_⟩
  simp [Aggregate.isSubset, hx, htrans _ _ _ hxy hyv]

end Store

/-! ## Runs -/

section Run

variable {sub} {maxSlotCapacity maxPerSlotCapacity} {o : ObservedAggregates R I}
  {observed : List (Nat × R × I)} {m : Nat}

variable (sub maxSlotCapacity) in
/-- The invariant of a run: the window, the stored items against `observed`, and a window that
ends at most at `m`, the highest slot of a call so far. -/
structure RunInv (m : Nat) (observed : List (Nat × R × I)) (o : ObservedAggregates R I) : Prop where
  window : o.WindowInv maxSlotCapacity
  store : o.StoreInv sub observed
  lps_le : o.lowestPermissibleSlot ≤ m - (maxCapacity maxSlotCapacity - 1)

theorem runInv_start : (start : ObservedAggregates R I).RunInv sub maxSlotCapacity 0 [] :=
  ⟨windowInv_start, storeInv_start, Nat.zero_le _⟩

/-- A prune at a slot no lower than any call so far keeps the invariant. -/
theorem RunInv.prune (h : o.RunInv sub maxSlotCapacity m observed) {currentSlot : Nat}
    (hm : m ≤ currentSlot) :
    (o.prune maxSlotCapacity currentSlot).RunInv sub maxSlotCapacity currentSlot observed := by
  have hle : o.lowestPermissibleSlot ≤ currentSlot - (maxCapacity maxSlotCapacity - 1) := by
    have := h.lps_le
    omega
  exact ⟨h.window.prune hle, h.store.of_sets (fun set hset => .inl (mem_prune_sets.1 hset).1)
    (fun set hset hs => mem_prune_sets.2 ⟨hset, hs⟩) hle, le_rfl⟩

/-- `get_set_index` for a slot below `u64::MAX` keeps the invariant. -/
theorem RunInv.getSetIndex (h : o.RunInv sub maxSlotCapacity m observed) {slot : Nat}
    (hmax : slot < uMax 64) :
    (o.getSetIndex maxSlotCapacity maxPerSlotCapacity slot).2.RunInv sub maxSlotCapacity
      (max m slot) observed := by
  have hm := h.lps_le
  by_cases hlo : o.lowestPermissibleSlot ≤ slot
  · obtain ⟨index, set, o', hgi, -, -, hw, hup, hlps, hkeep⟩ :=
      h.window.getSetIndex maxPerSlotCapacity hlo hmax
    have hsets := getSetIndex_sets maxSlotCapacity maxPerSlotCapacity o slot
    rw [hgi] at hsets ⊢
    refine ⟨hw, h.store.of_sets hsets hkeep hup, ?_⟩
    show o'.lowestPermissibleSlot ≤ max m slot - (maxCapacity maxSlotCapacity - 1)
    omega
  · -- the slot is too low: nothing changes
    have hgi : o.getSetIndex maxSlotCapacity maxPerSlotCapacity slot =
        (.error (.slotTooLow slot o.lowestPermissibleSlot), o) :=
      if_pos (Nat.lt_of_not_le hlo)
    rw [hgi]
    refine ⟨h.window, h.store, ?_⟩
    show o.lowestPermissibleSlot ≤ max m slot - (maxCapacity maxSlotCapacity - 1)
    omega

theorem RunInv.isKnownSubset (h : o.RunInv sub maxSlotCapacity m observed) (a : Aggregate I)
    (root : R) (hmax : a.slot < uMax 64) :
    (o.isKnownSubset sub maxSlotCapacity maxPerSlotCapacity a root).2.RunInv sub maxSlotCapacity
      (max m a.slot) observed := by
  rw [isKnownSubset_snd]
  exact h.getSetIndex hmax

/-- `observe_item` for a slot below `u64::MAX` keeps the invariant, with its item added to
`observed` when it returns `Ok`. -/
theorem RunInv.observeItem (hrefl : ∀ v, sub v v = true)
    (htrans : ∀ a b c, sub a b = true → sub b c = true → sub a c = true)
    (h : o.RunInv sub maxSlotCapacity m observed) (a : Aggregate I) (root : R)
    (hmax : a.slot < uMax 64) :
    (o.observeItem sub maxSlotCapacity maxPerSlotCapacity a root).2.RunInv sub maxSlotCapacity
      (max m a.slot)
      (match (o.observeItem sub maxSlotCapacity maxPerSlotCapacity a root).1, a.item with
        | .ok _, some item => observed ++ [(a.slot, root, item)]
        | _, _ => observed) := by
  have hinv : (o.getSetIndex maxSlotCapacity maxPerSlotCapacity a.slot).2.RunInv sub
      maxSlotCapacity (max m a.slot) observed := h.getSetIndex hmax
  unfold ObservedAggregates.observeItem
  rcases hgi : o.getSetIndex maxSlotCapacity maxPerSlotCapacity a.slot with ⟨_ | index, o'⟩
  · rw [hgi] at hinv
    exact hinv
  rw [hgi] at hinv
  dsimp only
  cases hidx : o'.sets[index]? with
  | none => exact hinv
  | some set =>
    dsimp only at hinv ⊢
    cases hobs : set.observeItem sub a root with
    | error e => exact hinv
    | ok r =>
      -- the set of the slot grows by the item
      obtain ⟨outcome, set'⟩ := r
      obtain ⟨b, hb, haslot, hg⟩ := SlotHashSet.observeItem_ok hrefl hobs
      have hgrow := hinv.store.grow htrans hidx hg
      rw [← haslot] at hgrow
      simp only [hb]
      exact ⟨hinv.window.set hidx hg.slot_eq, hgrow, hinv.lps_le⟩

/-- A run keeps the invariant when every prune comes at a slot no lower than every call before
it, and every other call names a slot below `u64::MAX`; `m` bounds the slots of the calls so
far. -/
theorem RunInv.runCalls (hrefl : ∀ v, sub v v = true)
    (htrans : ∀ a b c, sub a b = true → sub b c = true → sub a c = true) :
    ∀ {calls : List (Call R I)} {m : Nat} {o : ObservedAggregates R I}
      {observed : List (Nat × R × I)}, o.RunInv sub maxSlotCapacity m observed →
      (∀ c ∈ calls, ∀ s, c.pruneSlot? = some s → m ≤ s) →
      calls.Pairwise (fun c c' => ∀ s, c'.pruneSlot? = some s → c.slot ≤ s) →
      (∀ c ∈ calls, c.pruneSlot? = none → c.slot < uMax 64) →
      ∃ m', (runCalls sub maxSlotCapacity maxPerSlotCapacity o observed calls).1.RunInv sub
        maxSlotCapacity m' (runCalls sub maxSlotCapacity maxPerSlotCapacity o observed calls).2
  | [], m, _, _, h, _, _, _ => ⟨m, h⟩
  | c :: calls, m, o, observed, h, hm, hpair, hslot => by
    rw [List.pairwise_cons] at hpair
    -- the later prunes are no lower than this call either
    have hm' : ∀ c' ∈ calls, ∀ s, c'.pruneSlot? = some s → max m c.slot ≤ s :=
      fun c' hc' s hs => max_le (hm c' (List.mem_cons_of_mem _ hc') s hs) (hpair.1 c' hc' s hs)
    have hslot' := fun c' hc' => hslot c' (List.mem_cons_of_mem _ hc')
    cases c with
    | observeItem a root =>
      dsimp only [Vibehouse.Aggregates.runCalls]
      exact RunInv.runCalls hrefl htrans
        (h.observeItem hrefl htrans a root (hslot _ List.mem_cons_self rfl)) hm' hpair.2 hslot'
    | isKnownSubset a root =>
      dsimp only [Vibehouse.Aggregates.runCalls]
      exact RunInv.runCalls hrefl htrans
        (h.isKnownSubset a root (hslot _ List.mem_cons_self rfl)) hm' hpair.2 hslot'
    | prune currentSlot =>
      dsimp only [Vibehouse.Aggregates.runCalls]
      exact RunInv.runCalls hrefl htrans (h.prune (hm _ List.mem_cons_self currentSlot rfl))
        hpair.1 hpair.2 hslot'

end Run

end ObservedAggregates


section Window

theorem observed_aggregates_dedup_within_window (maxSlotCapacity maxPerSlotCapacity : Nat)
    (calls : List (Call R (Finset Nat)))
    (hprune : calls.Pairwise fun c c' => ∀ s, c'.pruneSlot? = some s → c.slot ≤ s)
    (hslot : ∀ c ∈ calls, c.pruneSlot? = none → c.slot < uMax 64) :
    let sub := fun x y : Finset Nat => decide (x ⊆ y)
    let r := runCalls sub maxSlotCapacity maxPerSlotCapacity ObservedAggregates.start [] calls
    (∀ set ∈ r.1.sets, r.1.lowestPermissibleSlot ≤ set.slot ∧
        set.slot < r.1.lowestPermissibleSlot + maxCapacity maxSlotCapacity) ∧
      (r.1.sets.map (·.slot)).Nodup ∧
      (∀ slot < uMax 64, r.1.evicts maxSlotCapacity slot = false) ∧
      (∀ (a : Aggregate (Finset Nat)) (root : R),
        (r.1.isKnownSubset sub maxSlotCapacity maxPerSlotCapacity a root).1 = .ok true →
          ∃ x y, a.item = some x ∧ (a.slot, root, y) ∈ r.2 ∧ x ⊆ y) ∧
      ∀ s root y, (s, root, y) ∈ r.2 → r.1.lowestPermissibleSlot ≤ s →
        ∀ (a : Aggregate (Finset Nat)) x, a.slot = s → a.item = some x → x ⊆ y →
          (r.1.isKnownSubset sub maxSlotCapacity maxPerSlotCapacity a root).1 = .ok true := by
  intro sub r
  have hrefl : ∀ x, sub x x = true := fun x => decide_eq_true (Finset.Subset.refl x)
  have htrans : ∀ x y z, sub x y = true → sub y z = true → sub x z = true :=
    fun x y z hxy hyz => decide_eq_true ((of_decide_eq_true hxy).trans (of_decide_eq_true hyz))
  obtain ⟨m, h⟩ := ObservedAggregates.RunInv.runCalls hrefl htrans ObservedAggregates.runInv_start
    (fun _ _ _ _ => Nat.zero_le _) hprune hslot
  refine ⟨h.window.mem_window, h.window.nodup, fun slot hs => h.window.evicts_eq_false hs,
    fun a root hok => ?_, fun s root y hy hs a x hslot hx hxy => ?_⟩
  · obtain ⟨x, y, hx, hy, hxy⟩ := h.store.isKnownSubset_sound hok
    exact ⟨x, y, hx, hy, of_decide_eq_true hxy⟩
  · exact h.store.isKnownSubset_complete htrans h.window hy hs hslot hx (decide_eq_true hxy)

/-- An aggregate of slot 5 for root 0, a prune at slot 5, and two aggregates of slot 6. -/
def sampleAggregateCalls : List (Call Nat (Finset Nat)) :=
  [.observeItem ⟨5, some {0}⟩ 0, .prune 5, .observeItem ⟨6, some {0, 1}⟩ 0,
    .isKnownSubset ⟨6, some {1}⟩ 0]

theorem observed_aggregates_dedup_within_window_sample :
    (sampleAggregateCalls.Pairwise fun c c' => ∀ s, c'.pruneSlot? = some s → c.slot ≤ s) ∧
      (∀ c ∈ sampleAggregateCalls, c.pruneSlot? = none → c.slot < uMax 64) ∧
      let sub := fun x y : Finset Nat => decide (x ⊆ y)
      let r := runCalls sub 1 4 ObservedAggregates.start [] sampleAggregateCalls
      (∀ set ∈ r.1.sets, r.1.lowestPermissibleSlot ≤ set.slot ∧
          set.slot < r.1.lowestPermissibleSlot + maxCapacity 1) ∧
        (r.1.sets.map (·.slot)).Nodup ∧
        (∀ slot < uMax 64, r.1.evicts 1 slot = false) ∧
        (∀ (a : Aggregate (Finset Nat)) (root : Nat),
          (r.1.isKnownSubset sub 1 4 a root).1 = .ok true →
            ∃ x y, a.item = some x ∧ (a.slot, root, y) ∈ r.2 ∧ x ⊆ y) ∧
        ∀ s root y, (s, root, y) ∈ r.2 → r.1.lowestPermissibleSlot ≤ s →
          ∀ (a : Aggregate (Finset Nat)) x, a.slot = s → a.item = some x → x ⊆ y →
            (r.1.isKnownSubset sub 1 4 a root).1 = .ok true := by
  have hprune : sampleAggregateCalls.Pairwise
      fun c c' => ∀ s, c'.pruneSlot? = some s → c.slot ≤ s := by
    simp [sampleAggregateCalls, Call.pruneSlot?, Call.slot]
  have hslot : ∀ c ∈ sampleAggregateCalls, c.pruneSlot? = none → c.slot < uMax 64 := by
    simp [sampleAggregateCalls, Call.pruneSlot?, Call.slot, uMax]
  exact ⟨hprune, hslot, observed_aggregates_dedup_within_window 1 4 sampleAggregateCalls hprune hslot⟩

end Window

end Vibehouse.Aggregates
