import Mathlib.Data.List.Basic

/-! # Items covered by the rows of a table

A table that drops rows as it goes can still refuse an item that conflicts with one it has
dropped, when every item it took in is still one of its rows or lies below all of them: an item
that is above some row is then above every dropped one, and the rows themselves are checked
directly. `Covered le rows x` says so for one item `x`, for a relation `le` of lying below.

Three updates keep every item covered: adding a row above whatever lies below all rows
(`Covered.append`), dropping rows each of which lies below every row kept (`Covered.filter`), and
replacing the rows by one above the item (`covered_singleton`). -/

variable {α : Type} (le : α → α → Prop)

/-- `x` is one of the rows, or there are rows and `x` lies below all of them. -/
def Covered (rows : List α) (x : α) : Prop :=
  x ∈ rows ∨ (rows ≠ [] ∧ ∀ r ∈ rows, le x r)

variable {le} {rows : List α} {x : α}

theorem Covered.ne_nil (h : Covered le rows x) : rows ≠ [] := by
  rcases h with hx | ⟨hne, -⟩
  · exact List.ne_nil_of_mem hx
  · exact hne

/-- With `le` reflexive, a covered item lies below some row. -/
theorem Covered.exists_le (refl : ∀ a, le a a) (h : Covered le rows x) : ∃ r ∈ rows, le x r := by
  rcases h with hx | ⟨hne, hbelow⟩
  · exact ⟨x, hx, refl x⟩
  · obtain ⟨r, hr⟩ := List.exists_mem_of_ne_nil rows hne
    exact ⟨r, hr, hbelow r hr⟩

/-- Adding a row `y` keeps an item covered when `y` is above whatever lies below all the rows, if
there are any. -/
theorem Covered.append (h : Covered le rows x) {y : α}
    (hy : rows ≠ [] → ∀ z, (∀ r ∈ rows, le z r) → le z y) : Covered le (rows ++ [y]) x := by
  rcases h with hx | ⟨hne, hbelow⟩
  · exact .inl (List.mem_append_left _ hx)
  · refine .inr ⟨by simp, fun r hr => ?_⟩
    rcases List.mem_append.1 hr with hr | hr
    · exact hbelow r hr
    · rw [List.mem_singleton.1 hr]
      exact hy hne x hbelow

/-- Dropping rows keeps an item covered when each dropped row lies below every row kept and some
row is kept. -/
theorem Covered.filter (h : Covered le rows x) {keep : α → Bool}
    (hdrop : ∀ y ∈ rows, keep y = false → ∀ r ∈ rows, keep r = true → le y r)
    (hkeep : ∃ r ∈ rows, keep r = true) : Covered le (rows.filter keep) x := by
  obtain ⟨r₀, hr₀, hk₀⟩ := hkeep
  have hne : rows.filter keep ≠ [] := List.ne_nil_of_mem (List.mem_filter.2 ⟨hr₀, hk₀⟩)
  rcases h with hx | ⟨-, hbelow⟩
  · cases hkx : keep x with
    | false =>
      -- a dropped row lies below the rows kept
      exact .inr ⟨hne, fun r hr =>
        hdrop x hx hkx r (List.mem_filter.1 hr).1 (List.mem_filter.1 hr).2⟩
    | true => exact .inl (List.mem_filter.2 ⟨hx, hkx⟩)
  · exact .inr ⟨hne, fun r hr => hbelow r (List.mem_filter.1 hr).1⟩

/-- One row `y` covers every item below it. -/
theorem covered_singleton {y : α} (h : le x y) : Covered le [y] x :=
  .inr ⟨List.cons_ne_nil _ _, fun _ hr => (List.mem_singleton.1 hr) ▸ h⟩
