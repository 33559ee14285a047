import Mathlib.Order.Basic
import Mathlib.Tactic.Lemma
import Mathlib.Data.Finset.Card

/-! # Forests stored in an array with parent links

A forest whose nodes sit at positions `0, 1, 2, …` of an array, each with an optional parent
position, given here as a partial function `par : Nat → Option Nat`. The forest is
*descending* when every parent sits strictly before its child; then every walk up the parent
links ends, so a loop that follows them terminates.

* `Reaches par i j`: `j` is `i` or an ancestor of `i`;
* `Descending par`: parents come first;
* `Ends par i`: the parent chain from `i` is finite;
* `chain par fuel i`: the positions met on the walk from `i` upwards, with at most `fuel`
  steps; once `fuel` exceeds `i` it is the whole chain (`chain_eq_of_lt`), and its members
  are the ancestors of `i` (`mem_chain_iff`);
* `climb par stop dflt fuel i`: a loop up the parent links that may stop early with a value;
  once `fuel` exceeds `i` its value no longer depends on the fuel (`climb_eq_of_lt`);
  `Climbs par stop dflt i a`: the loop without fuel ends with `a`.

Where parents need not come first, a measure that every link lowers bounds the walks instead:
when links leave positions below `L` only, the walk from `i` meets at most `budget L μ i`
positions below `L`, so `L` steps of fuel are always enough (`climbs_climb`,
`mem_chain_of_budget`). -/

namespace ParentChain

variable (par : Nat → Option Nat)

/-- `j` is `i` or an ancestor of `i`. -/
inductive Reaches : Nat → Nat → Prop
  | refl (i : Nat) : Reaches i i
  | step {i p j : Nat} : par i = some p → Reaches p j → Reaches i j

/-- Every parent sits strictly before its child. -/
def Descending : Prop := ∀ i p, par i = some p → p < i

/-- The walk up the parent links from `i` reaches a node without a parent. -/
inductive Ends : Nat → Prop
  | root {i : Nat} : par i = none → Ends i
  | step {i p : Nat} : par i = some p → Ends p → Ends i

/-- The positions met walking up from `i`, with at most `fuel` positions. -/
def chain : Nat → Nat → List Nat
  | 0, _ => []
  | fuel + 1, i =>
    match par i with
    | none => [i]
    | some p => i :: chain fuel p

/-- A walk up the parent links from `i`: `stop` may end it at a position with a value,
otherwise it moves to the parent; at a position without a parent it ends with `dflt`. -/
def climb {α : Type*} (stop : Nat → Option α) (dflt : Nat → α) : Nat → Nat → α
  | 0, i => dflt i
  | fuel + 1, i =>
    match stop i with
    | some a => a
    | none =>
      match par i with
      | none => dflt i
      | some p => climb stop dflt fuel p

variable {par}

namespace Reaches

theorem trans {i j k : Nat} (h₁ : Reaches par i j) (h₂ : Reaches par j k) : Reaches par i k := by
  induction h₁ with
  | refl => exact h₂
  | step hp _ ih => exact .step hp (ih h₂)

theorem of_parent {i p : Nat} (hp : par i = some p) : Reaches par i p := .step hp (.refl p)

theorem le (hd : Descending par) {i j : Nat} (h : Reaches par i j) : j ≤ i := by
  induction h with
  | refl => exact Nat.le_refl _
  | step hp _ ih => exact Nat.le_trans ih (Nat.le_of_lt (hd _ _ hp))

/-- A proper ancestor goes through the parent. -/
theorem parent_of_ne {i j : Nat} (h : Reaches par i j) (hne : i ≠ j) :
    ∃ p, par i = some p ∧ Reaches par p j := by
  cases h with
  | refl => exact absurd rfl hne
  | step hp h => exact ⟨_, hp, h⟩

/-- Two ancestors of one node are comparable. -/
theorem total {i j k : Nat} (hj : Reaches par i j) (hk : Reaches par i k) :
    Reaches par j k ∨ Reaches par k j := by
  induction hj generalizing k with
  | refl => exact .inl hk
  | @step i p j hp _ ih =>
    rcases hk with _ | ⟨hp', hk⟩
    · exact .inr (.step hp ‹_›)
    · rw [hp] at hp'
      cases hp'
      exact ih hk

/-- Ancestry only reads the parent links of positions between the two ends. -/
theorem congr (hd : Descending par) {par' : Nat → Option Nat} {i j : Nat} (h : Reaches par i j)
    (heq : ∀ k, j < k → k ≤ i → par' k = par k) : Reaches par' i j := by
  induction h with
  | refl => exact .refl _
  | @step i p j hp hr ih =>
    have hpi := hd _ _ hp
    have hjp := hr.le hd
    refine .step ((heq i (Nat.lt_of_le_of_lt hjp hpi) (Nat.le_refl i)).trans hp) (ih fun k hk hk' => ?_)
    exact heq k hk (Nat.le_trans hk' (Nat.le_of_lt hpi))

/-- Renumbering the positions from `k` on by `- k` keeps ancestry between positions from `k`
on, when every parent link from `k` on is renumbered the same way. -/
theorem shift (hd : Descending par) {par' : Nat → Option Nat} {k i j : Nat} (h : Reaches par i j)
    (hj : k ≤ j)
    (hpar : ∀ x p, k ≤ p → par x = some p → par' (x - k) = some (p - k)) :
    Reaches par' (i - k) (j - k) := by
  induction h with
  | refl => exact .refl _
  | @step i p j hp hr ih =>
    have hpj : k ≤ p := Nat.le_trans hj (hr.le hd)
    exact .step (hpar i p hpj hp) (ih hj)

/-- A proper ancestor has a child. -/
theorem exists_child {i j : Nat} (h : Reaches par i j) (hne : i ≠ j) : ∃ x, par x = some j := by
  induction h with
  | refl => exact absurd rfl hne
  | @step i p j hp _ ih =>
    by_cases hpj : p = j
    · exact ⟨i, hpj ▸ hp⟩
    · exact ih hpj

end Reaches

theorem ends_of_descending (hd : Descending par) (i : Nat) : Ends par i := by
  induction i using Nat.strongRecOn with
  | ind i ih =>
    cases hp : par i with
    | none => exact .root hp
    | some p => exact .step hp (ih p (hd i p hp))

section chain

@[simp] theorem chain_zero (i : Nat) : chain par 0 i = [] := rfl

theorem chain_succ (fuel i : Nat) :
    chain par (fuel + 1) i = match par i with
      | none => [i]
      | some p => i :: chain par fuel p := rfl

/-- With more fuel than the starting position, the walk is complete. -/
theorem chain_eq_of_lt (hd : Descending par) :
    ∀ {fuel fuel' i : Nat}, i < fuel → i < fuel' → chain par fuel i = chain par fuel' i
  | 0, _, _, h, _ => absurd h (Nat.not_lt_zero _)
  | _, 0, _, _, h => absurd h (Nat.not_lt_zero _)
  | fuel + 1, fuel' + 1, i, h, h' => by
    rw [chain_succ, chain_succ]
    cases hp : par i with
    | none => rfl
    | some p =>
      have hpi := hd i p hp
      simp only [List.cons.injEq, true_and]
      exact chain_eq_of_lt hd (by omega) (by omega)

theorem mem_chain_reaches : ∀ {fuel i j : Nat}, j ∈ chain par fuel i → Reaches par i j
  | 0, _, _, h => absurd h (List.not_mem_nil)
  | fuel + 1, i, j, h => by
    rw [chain_succ] at h
    cases hp : par i with
    | none =>
      rw [hp, List.mem_singleton] at h
      exact h ▸ @Reaches.refl par i
    | some p =>
      rw [hp, List.mem_cons] at h
      rcases h with rfl | h
      · exact .refl _
      · exact .step hp (mem_chain_reaches h)

theorem mem_chain_of_reaches (hd : Descending par) {i j : Nat} (h : Reaches par i j) :
    ∀ {fuel : Nat}, i < fuel → j ∈ chain par fuel i := by
  induction h with
  | refl i =>
    intro fuel hf
    obtain ⟨fuel, rfl⟩ : ∃ f, fuel = f + 1 := ⟨fuel - 1, by omega⟩
    rw [chain_succ]
    cases par i <;> simp
  | @step i p j hp _ ih =>
    intro fuel hf
    obtain ⟨fuel, rfl⟩ : ∃ f, fuel = f + 1 := ⟨fuel - 1, by omega⟩
    have hpi := hd i p hp
    rw [chain_succ, hp]
    exact List.mem_cons_of_mem _ (ih (by omega))

theorem mem_chain_iff (hd : Descending par) {fuel i j : Nat} (hf : i < fuel) :
    j ∈ chain par fuel i ↔ Reaches par i j :=
  ⟨mem_chain_reaches, fun h => mem_chain_of_reaches hd h hf⟩

end chain

section climb

variable {α : Type*} {stop : Nat → Option α} {dflt : Nat → α}

theorem climb_succ (fuel i : Nat) :
    climb par stop dflt (fuel + 1) i = match stop i with
      | some a => a
      | none => match par i with
        | none => dflt i
        | some p => climb par stop dflt fuel p := rfl

/-- With more fuel than the starting position, the walk reaches its end. -/
theorem climb_eq_of_lt (hd : Descending par) :
    ∀ {fuel fuel' i : Nat}, i < fuel → i < fuel' →
      climb par stop dflt fuel i = climb par stop dflt fuel' i
  | 0, _, _, h, _ => absurd h (Nat.not_lt_zero _)
  | _, 0, _, _, h => absurd h (Nat.not_lt_zero _)
  | fuel + 1, fuel' + 1, i, h, h' => by
    rw [climb_succ, climb_succ]
    cases stop i with
    | some a => rfl
    | none =>
      cases hp : par i with
      | none => rfl
      | some p =>
        have hpi := hd i p hp
        exact climb_eq_of_lt hd (by omega) (by omega)

variable (par) in
/-- The loop of `climb` without fuel ends with `a`. -/
inductive Climbs (stop : Nat → Option α) (dflt : Nat → α) : Nat → α → Prop
  | stop {i : Nat} {a : α} : stop i = some a → Climbs stop dflt i a
  | root {i : Nat} : stop i = none → par i = none → Climbs stop dflt i (dflt i)
  | step {i p : Nat} {a : α} : stop i = none → par i = some p → Climbs stop dflt p a →
      Climbs stop dflt i a

end climb

section budget

variable (par) (L : Nat) (μ : Nat → Nat)

/-- Every link leaves a position below `L` and lowers the measure `μ`. -/
def LinksBelow : Prop := ∀ i p, par i = some p → i < L ∧ μ p < μ i

/-- The positions below `L` whose measure is at most that of `i`: a walk from `i` along links
that lower `μ` meets no other position below `L`. -/
def budget (i : Nat) : Nat := ((Finset.range L).filter fun j => μ j ≤ μ i).card

variable {par L μ}

theorem budget_le (i : Nat) : budget L μ i ≤ L := by
  simpa [budget] using Finset.card_filter_le (Finset.range L) fun j => μ j ≤ μ i

theorem budget_pos {i : Nat} (hi : i < L) : 0 < budget L μ i :=
  Finset.card_pos.2 ⟨i, by simp [hi]⟩

/-- A step down the measure from a position below `L` spends budget. -/
theorem budget_lt {i p : Nat} (hi : i < L) (hμ : μ p < μ i) : budget L μ p < budget L μ i := by
  apply Finset.card_lt_card
  refine Finset.ssubset_iff_of_subset (fun j hj => ?_) |>.2 ⟨i, by simp [hi], by simp [hμ]⟩
  simp only [Finset.mem_filter, Finset.mem_range] at hj ⊢
  exact ⟨hj.1, by omega⟩

variable {α : Type*} {stop : Nat → Option α} {dflt : Nat → α}

/-- With the budget of `i` as fuel, `climb` computes the loop without fuel, when every position
from `L` on stops with its default. -/
theorem climbs_climb (h : LinksBelow par L μ) (hstop : ∀ j, L ≤ j → stop j = some (dflt j)) :
    ∀ fuel i, budget L μ i ≤ fuel → Climbs par stop dflt i (climb par stop dflt fuel i)
  | 0, i, hb => by
    -- no budget left: `i` is not below `L`, where the loop stops with the default
    have hi : L ≤ i := by
      by_contra hi
      have := budget_pos (μ := μ) (Nat.lt_of_not_le hi)
      omega
    exact .stop (hstop i hi)
  | fuel + 1, i, hb => by
    rw [climb_succ]
    cases hs : stop i with
    | some a => exact .stop hs
    | none =>
      cases hp : par i with
      | none => exact .root hs hp
      | some p =>
        obtain ⟨hi, hμ⟩ := h i p hp
        have := budget_lt hi hμ
        exact .step hs hp (climbs_climb h hstop fuel p (by omega))

/-- With the budget of `i` as fuel, the walk from `i` meets every ancestor below `L`. -/
theorem mem_chain_of_budget (h : LinksBelow par L μ) {i j : Nat} (hr : Reaches par i j)
    (hj : j < L) : ∀ {fuel : Nat}, budget L μ i ≤ fuel → j ∈ chain par fuel i := by
  induction hr with
  | refl i =>
    intro fuel hf
    have := budget_pos (μ := μ) hj
    obtain ⟨fuel, rfl⟩ : ∃ f, fuel = f + 1 := ⟨fuel - 1, by omega⟩
    rw [chain_succ]
    cases par i <;> simp
  | @step i p j hp _ ih =>
    intro fuel hf
    obtain ⟨hi, hμ⟩ := h i p hp
    have := budget_lt hi hμ
    obtain ⟨fuel, rfl⟩ : ∃ f, fuel = f + 1 := ⟨fuel - 1, by omega⟩
    rw [chain_succ, hp]
    exact List.mem_cons_of_mem _ (ih hj (by omega))

end budget

end ParentChain
