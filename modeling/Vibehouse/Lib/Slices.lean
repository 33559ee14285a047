import Mathlib.Data.List.Basic

/-! # Slices of a list between growing cut points

A list cut at points `b 0 ≤ b 1 ≤ ⋯ ≤ b m` into the slices `b g .. b (g + 1)`: the slices flatten
back to the prefix up to `b m`, every position from `b 0` below `b m` lies in one of them, and for
the evenly spread cut points `n * g / K` every slice has `⌊n / K⌋` or `⌈n / K⌉` entries. A run
over blocks of `c` numbers in order is a run over all `S * c` of them. -/

namespace Slices

variable {α β : Type*}

/-- Consecutive slices between cut points that only grow from `0` flatten to the prefix up to the
last. -/
theorem flatMap_slices (l : List α) {b : Nat → Nat} (h0 : b 0 = 0) (hb : ∀ g, b g ≤ b (g + 1))
    (m : Nat) :
    (List.range m).flatMap (fun g => (l.drop (b g)).take (b (g + 1) - b g)) = l.take (b m) := by
  induction m with
  | zero => simp [h0]
  | succ m ih =>
    rw [List.range_succ, List.flatMap_append, ih, List.flatMap_singleton, ← List.take_add,
      Nat.add_sub_cancel' (hb m)]

/-- A position between the first and the last cut point lies in some slice. -/
theorem exists_slice_of_lt (b : Nat → Nat) {i : Nat} (h0 : b 0 ≤ i) :
    ∀ {m : Nat}, i < b m → ∃ g < m, b g ≤ i ∧ i < b (g + 1)
  | 0, h => absurd h (by omega)
  | m + 1, h => by
    by_cases hm : i < b m
    · obtain ⟨g, hg, hlo, hhi⟩ := exists_slice_of_lt b h0 hm
      exact ⟨g, by omega, hlo, hhi⟩
    · exact ⟨m, by omega, by omega, h⟩

/-- Blocks of `c` numbers, block after block, are the numbers below `S * c` in order. -/
theorem flatMap_range_mul (f : Nat → β) (S c : Nat) :
    (List.range S).flatMap (fun k => (List.range c).map fun i => f (k * c + i)) =
      (List.range (S * c)).map f := by
  induction S with
  | zero => simp
  | succ S ih =>
    rw [List.range_succ, List.flatMap_append, ih, List.flatMap_singleton, Nat.succ_mul,
      List.range_add, List.map_append, List.map_map]
    rfl

/-! ## Evenly spread cut points -/

section Even

variable {n K g : Nat}

theorem mul_div_mono {g h : Nat} (hgh : g ≤ h) : n * g / K ≤ n * h / K :=
  Nat.div_le_div_right (Nat.mul_le_mul_left n hgh)

theorem mul_div_le (hg : g ≤ K) : n * g / K ≤ n :=
  Nat.div_le_of_le_mul (by rw [Nat.mul_comm K]; exact Nat.mul_le_mul_left n hg)

/-- The slices between the cut points `n * g / K` have `⌊n / K⌋` or `⌈n / K⌉` entries. -/
theorem mul_succ_div_sub_mul_div (hK : 0 < K) :
    n * (g + 1) / K - n * g / K = n / K ∨ n * (g + 1) / K - n * g / K = (n + K - 1) / K := by
  -- with `n = K * q + r`, the slice gains `q` entries and one more when `r` carries over
  obtain ⟨q, r, hr, rfl⟩ : ∃ q r, r < K ∧ n = K * q + r :=
    ⟨n / K, n % K, Nat.mod_lt _ hK, (Nat.div_add_mod n K).symm⟩
  generalize ha : (K * q + r) * g = a
  have hsplit : (K * q + r) * (g + 1) = a + r + K * q := by rw [Nat.mul_succ, ha]; omega
  have hq : (K * q + r) / K = q := by
    rw [Nat.add_comm, Nat.add_mul_div_left _ _ hK, Nat.div_eq_of_lt hr, Nat.zero_add]
  have hceil : (K * q + r + K - 1) / K = q + (r + K - 1) / K := by
    rw [show K * q + r + K - 1 = r + K - 1 + K * q by omega, Nat.add_mul_div_left _ _ hK,
      Nat.add_comm]
  have hlo : a / K ≤ (a + r) / K := Nat.div_le_div_right (by omega)
  have hhi : (a + r) / K ≤ a / K + 1 :=
    calc (a + r) / K ≤ (a + K) / K := Nat.div_le_div_right (by omega)
      _ = a / K + 1 := Nat.add_div_right a hK
  rw [hsplit, Nat.add_mul_div_left _ _ hK, hq, hceil]
  rcases Nat.eq_zero_or_pos r with rfl | hrpos
  · left
    rw [Nat.add_zero]
    omega
  · have hone : (r + K - 1) / K = 1 := Nat.div_eq_of_lt_le (by omega) (by omega)
    omega

end Even

end Slices
