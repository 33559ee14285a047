import Mathlib

/-! # `Iterator::max_by`, `max_by_key` and `Vec::dedup`

`max_by` of Rust's iterators returns the *last* of several equally maximal elements: it folds
with `cmp::max_by(acc, x)`, which keeps `acc` only when `acc > x`; `max_by_key` compares keys. `Vec::dedup` removes the
repeats of an element that follow it, which is `destutter (· ≠ ·)`. -/

namespace RustIter

variable {α : Type*} (cmp : α → α → Ordering)

/-- `iter.max_by(cmp)`. -/
def maxBy : List α → Option α
  | [] => none
  | x :: xs => some (xs.foldl (fun acc y => if cmp acc y = .gt then acc else y) x)

variable {cmp}

theorem maxBy_mem_aux : ∀ (xs : List α) (x : α),
    xs.foldl (fun acc y => if cmp acc y = .gt then acc else y) x ∈ x :: xs
  | [], x => List.mem_singleton_self x
  | y :: ys, x => by
    rw [List.foldl_cons]
    have h := maxBy_mem_aux ys (if cmp x y = .gt then x else y)
    rcases List.mem_cons.1 h with h | h
    · rw [h]
      split
      · exact List.mem_cons_self
      · exact List.mem_cons_of_mem _ List.mem_cons_self
    · exact List.mem_cons_of_mem _ (List.mem_cons_of_mem _ h)

theorem maxBy_mem {l : List α} {m : α} (h : maxBy cmp l = some m) : m ∈ l := by
  cases l with
  | nil => cases h
  | cons x xs =>
    cases h
    exact maxBy_mem_aux xs x

theorem maxBy_eq_none {l : List α} : maxBy cmp l = none ↔ l = [] := by
  cases l <;> simp [maxBy]

section MaxByKey

variable {β : Type*} [LinearOrder β] (key : α → β)

/-- `iter.max_by_key(key)`: `max_by` on the keys. -/
def maxByKey (l : List α) : Option α :=
  maxBy (fun a b => compare (key a) (key b)) l

variable {key}

/-- The fold of `max_by` ends at a key no smaller than the start's and than every element's. -/
theorem le_foldl_maxBy : ∀ (xs : List α) (x : α),
    let m := xs.foldl (fun acc y => if compare (key acc) (key y) = .gt then acc else y) x
    key x ≤ key m ∧ ∀ y ∈ xs, key y ≤ key m
  | [], x => ⟨le_rfl, by simp⟩
  | y :: ys, x => by
    intro m
    -- one step keeps the larger key, the later element on a tie
    have hstep : key x ≤ key (if compare (key x) (key y) = .gt then x else y) ∧
        key y ≤ key (if compare (key x) (key y) = .gt then x else y) := by
      split
      · rename_i hgt
        exact ⟨le_rfl, (compare_gt_iff_gt.1 hgt).le⟩
      · rename_i hngt
        exact ⟨not_lt.1 (fun h => hngt (compare_gt_iff_gt.2 h)), le_rfl⟩
    obtain ⟨hacc, hrest⟩ := le_foldl_maxBy ys (if compare (key x) (key y) = .gt then x else y)
    refine ⟨hstep.1.trans hacc, fun z hz => ?_⟩
    rcases List.mem_cons.1 hz with rfl | hz
    · exact hstep.2.trans hacc
    · exact hrest z hz

/-- `max_by_key` returns an element of the list whose key is at least every element's. -/
theorem maxByKey_le {l : List α} {m : α} (h : maxByKey key l = some m) : ∀ y ∈ l, key y ≤ key m := by
  cases l with
  | nil => cases h
  | cons x xs =>
    cases h
    intro y hy
    obtain ⟨hx, hxs⟩ := @le_foldl_maxBy _ _ _ key xs x
    rcases List.mem_cons.1 hy with rfl | hy
    · exact hx
    · exact hxs y hy

theorem maxByKey_mem {l : List α} {m : α} (h : maxByKey key l = some m) : m ∈ l :=
  maxBy_mem h

theorem maxByKey_eq_none {l : List α} : maxByKey key l = none ↔ l = [] :=
  maxBy_eq_none

end MaxByKey

/-- The positions of the elements that `filter` keeps: distinct positions of `l`, one for each
kept element in order, and every other position holds a dropped element. By induction on the
list, shifting the positions of the tail. -/
theorem exists_filter_positions (p : α → Bool) : ∀ l : List α,
    ∃ pos : List Nat, pos.length = (l.filter p).length ∧ pos.Nodup ∧
      (∀ (k : Nat) x, (l.filter p)[k]? = some x → ∃ q : Nat, pos[k]? = some q ∧ l[q]? = some x) ∧
      ∀ (q : Nat) x, q ∉ pos → l[q]? = some x → p x = false
  | [] => ⟨[], rfl, List.nodup_nil, by simp, by simp⟩
  | a :: l => by
    obtain ⟨pos, hlen, hnd, hkept, hdropped⟩ := exists_filter_positions p l
    have hshift : (pos.map (· + 1)).Nodup := hnd.map (fun _ _ h => Nat.succ.inj h)
    by_cases ha : p a
    · refine ⟨0 :: pos.map (· + 1), by simp [ha, hlen], ?_, ?_, ?_⟩
      · exact List.nodup_cons.2 ⟨by simp, hshift⟩
      · intro k x hk
        rw [List.filter_cons_of_pos ha] at hk
        cases k with
        | zero => exact ⟨0, rfl, by simpa using hk⟩
        | succ k =>
          obtain ⟨q, hq, hx⟩ := hkept k x (by simpa using hk)
          exact ⟨q + 1, by simp [hq], by simpa using hx⟩
      · intro q x hq hx
        cases q with
        | zero => simp at hq
        | succ q => exact hdropped q x (fun h => hq (by simp [h])) (by simpa using hx)
    · refine ⟨pos.map (· + 1), by simp [ha, hlen], hshift, ?_, ?_⟩
      · intro k x hk
        rw [List.filter_cons_of_neg ha] at hk
        obtain ⟨q, hq, hx⟩ := hkept k x hk
        exact ⟨q + 1, by simp [hq], by simpa using hx⟩
      · intro q x hq hx
        cases q with
        | zero =>
          simp only [List.getElem?_cons_zero, Option.some.injEq] at hx
          subst hx
          simpa using ha
        | succ q => exact hdropped q x (fun h => hq (by simp [h])) (by simpa using hx)

/-- `take_while(|x| f(x) >= k).find(|x| f(x) == k)` over a list in which `f` strictly
decreases is `find` alone: once an element is below `k`, so is every later one. -/
theorem find?_takeWhile_of_pairwise {f : α → Nat} {k : Nat} :
    ∀ {l : List α}, l.Pairwise (fun a b => f b < f a) →
      (l.takeWhile fun x => decide (f x ≥ k)).find? (fun x => f x == k) =
        l.find? (fun x => f x == k)
  | [], _ => rfl
  | x :: xs, hp => by
    obtain ⟨hlt, hxs⟩ := List.pairwise_cons.1 hp
    by_cases hx : f x ≥ k
    · rw [List.takeWhile_cons_of_pos (by simpa using hx), List.find?_cons, List.find?_cons,
        find?_takeWhile_of_pairwise hxs]
    · rw [List.takeWhile_cons_of_neg (by simpa using hx), List.find?_nil, eq_comm,
        List.find?_eq_none]
      intro y hy
      rcases List.mem_cons.1 hy with rfl | hy
      · simp only [beq_iff_eq]
        omega
      · have := hlt y hy
        simp only [beq_iff_eq]
        omega

section Dedup

variable [DecidableEq α] {x : α}

theorem mem_destutter'_ne (l : List α) :
    ∀ prev : α, x ∈ l.destutter' (· ≠ ·) prev ↔ x ∈ prev :: l := by
  induction l with
  | nil => simp
  | cons a l ih =>
    intro prev
    by_cases h : prev = a
    · -- a repeat of `prev` is dropped
      subst h
      rw [List.destutter'_cons_neg l (not_not.2 rfl), ih]
      simp
    · rw [List.destutter'_cons_pos l h, List.mem_cons, ih, List.mem_cons (l := a :: l)]

/-- `Vec::dedup` keeps every element. -/
theorem mem_destutter_ne {l : List α} : x ∈ l.destutter (· ≠ ·) ↔ x ∈ l := by
  cases l with
  | nil => simp
  | cons prev l => exact mem_destutter'_ne l prev

end Dedup

end RustIter
