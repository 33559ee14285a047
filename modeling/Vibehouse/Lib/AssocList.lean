import Mathlib

/-! # Association lists as maps

A `HashMap` whose operations are lookups, insertions of fresh keys, removals and passes over
all entries behaves as an association list with distinct keys. The lemmas here are the ones a
map needs: with distinct keys, `lookup` finds exactly the entries of the list.

Two uses of a map as a reusable buffer: a memo (`entry(k).or_insert_with(f)`, `orInsertWith`),
whose entries are all values of one function (`Memo`), and a map of lists filled by
`entry(k).or_default().push(x)` (`pushAt`) after its lists were cleared (`clearValues`). -/

namespace AssocList

variable {α β : Type} [DecidableEq α]

theorem lookup_eq_some_iff_mem {l : List (α × β)} (hnd : (l.map Prod.fst).Nodup) {a : α} {b : β} :
    l.lookup a = some b ↔ (a, b) ∈ l := by
  induction l with
  | nil => simp
  | cons e l ih =>
    obtain ⟨k, v⟩ := e
    simp only [List.map_cons, List.nodup_cons] at hnd
    rw [List.lookup_cons, List.mem_cons]
    by_cases hak : a = k
    · subst hak
      have hnot : (a, b) ∉ l := fun h => hnd.1 (List.mem_map.2 ⟨(a, b), h, rfl⟩)
      simp [hnot, eq_comm]
    · have hne : (a, b) ≠ (k, v) := fun h => hak (Prod.mk.inj h).1
      have hbeq : (a == k) = false := beq_false_of_ne hak
      simp only [hbeq, hne, false_or, ih hnd.2]

/-- With distinct keys, a key has one value. -/
theorem eq_of_mem {l : List (α × β)} (hnd : (l.map Prod.fst).Nodup) {a : α} {b c : β}
    (hb : (a, b) ∈ l) (hc : (a, c) ∈ l) : b = c := by
  have h := ((lookup_eq_some_iff_mem hnd).2 hb).symm.trans ((lookup_eq_some_iff_mem hnd).2 hc)
  exact Option.some.inj h

theorem mem_of_lookup_eq_some : ∀ {l : List (α × β)} {a : α} {b : β}, l.lookup a = some b → (a, b) ∈ l
  | [], _, _, h => nomatch h
  | (k, v) :: l, a, b, h => by
    rw [List.lookup_cons] at h
    split at h
    · rename_i hak
      cases h
      rw [eq_of_beq hak]
      exact List.mem_cons_self
    · exact List.mem_cons_of_mem _ (mem_of_lookup_eq_some h)

section memo

/-- `map.entry(k).or_insert_with(|| v)`: the value stored at `k`, or `v`, stored at `k` when the
key is absent. -/
def orInsertWith (m : List (α × β)) (k : α) (v : β) : β × List (α × β) :=
  match m.lookup k with
  | some w => (w, m)
  | none => (v, (k, v) :: m)

/-- Every entry of `m` is the value of `f` at its key. -/
def Memo (f : α → β) (m : List (α × β)) : Prop := ∀ k v, (k, v) ∈ m → v = f k

variable {f : α → β} {m : List (α × β)}

omit [DecidableEq α] in
theorem memo_nil (f : α → β) : Memo f ([] : List (α × β)) := fun _ _ h => nomatch h

/-- Looking up a memo of `f` at `k`, inserting `f k` when absent, gives `f k` and a memo of `f`. -/
theorem Memo.orInsertWith (h : Memo f m) (k : α) :
    (AssocList.orInsertWith m k (f k)).1 = f k ∧ Memo f (AssocList.orInsertWith m k (f k)).2 := by
  unfold AssocList.orInsertWith
  cases hk : m.lookup k with
  | some w => exact ⟨h k w (mem_of_lookup_eq_some hk), h⟩
  | none =>
    refine ⟨rfl, fun k' v hv => ?_⟩
    rcases List.mem_cons.1 hv with hv | hv
    · cases hv
      rfl
    · exact h k' v hv

end memo

/-- `*map.get_mut(&k).unwrap() = v`: the value at `k` replaced, the other entries kept. -/
def setValue (m : List (α × β)) (k : α) (v : β) : List (α × β) :=
  m.map fun e => if e.1 = k then (k, v) else e

theorem lookup_setValue : ∀ (m : List (α × β)) (k j : α) (v : β),
    (setValue m k v).lookup j = if j = k then (m.lookup k).map fun _ => v else m.lookup j
  | [], k, j, v => by simp [setValue]
  | (a, b) :: m, k, j, v => by
    have ih := lookup_setValue m k j v
    simp only [setValue, List.map_cons] at ih ⊢
    by_cases hak : a = k
    · subst hak
      by_cases hja : j = a
      · subst hja
        simp
      · simp [List.lookup_cons, beq_false_of_ne hja, hja, ih]
    · by_cases hja : j = a
      · subst hja
        simp [hak]
      · by_cases hjk : j = k
        · subst hjk
          simp [List.lookup_cons, hak, ih, beq_false_of_ne (Ne.symm hak)]
        · simp [List.lookup_cons, hak, hjk, ih]

/-- `setValue` keeps the keys, so it keeps them distinct. -/
@[simp] theorem map_fst_setValue (m : List (α × β)) (k : α) (v : β) :
    (setValue m k v).map Prod.fst = m.map Prod.fst := by
  rw [setValue, List.map_map]
  apply List.map_congr_left
  intro e _
  by_cases hek : e.1 = k <;> simp [hek]

/-- `HashMap::insert`: the value at `k` replaced in place, or a new entry at the end. -/
def insert (m : List (α × β)) (k : α) (v : β) : List (α × β) :=
  match m.lookup k with
  | some _ => setValue m k v
  | none => m ++ [(k, v)]

theorem lookup_insert (m : List (α × β)) (k j : α) (v : β) :
    (insert m k v).lookup j = if j = k then some v else m.lookup j := by
  unfold insert
  split
  · rename_i hk
    rw [lookup_setValue, hk]
    rfl
  · rename_i hk
    rw [List.lookup_append]
    by_cases hjk : j = k
    · subst hjk
      simp [hk]
    · have hbeq : (j == k) = false := beq_false_of_ne hjk
      cases m.lookup j <;> simp [List.lookup_cons, hbeq, hjk]

theorem nodup_insert {m : List (α × β)} (hnd : (m.map Prod.fst).Nodup) (k : α) (v : β) :
    ((insert m k v).map Prod.fst).Nodup := by
  unfold insert
  split
  · rwa [map_fst_setValue]
  · rename_i hk
    have hnot : k ∉ m.map Prod.fst := by
      intro hmem
      obtain ⟨⟨k', v'⟩, hmem', rfl⟩ := List.mem_map.1 hmem
      have h := (lookup_eq_some_iff_mem hnd).2 hmem'
      rw [hk] at h
      cases h
    rw [List.map_append, List.nodup_append]
    exact ⟨hnd, List.pairwise_singleton _ k, fun a ha b hb => by
      rw [List.mem_singleton.1 hb]
      rintro rfl
      exact hnot ha⟩

/-- An entry of `insert m k v` is one of `m` or the one inserted. -/
theorem mem_insert {m : List (α × β)} {k : α} {v : β} {e : α × β} (he : e ∈ insert m k v) :
    e ∈ m ∨ e = (k, v) := by
  unfold insert at he
  split at he
  · obtain ⟨e', hmem, rfl⟩ := List.mem_map.1 he
    by_cases hek : e'.1 = k
    · exact .inr (if_pos hek)
    · exact .inl (by rwa [if_neg hek])
  · simpa using he

theorem length_insert_le (m : List (α × β)) (k : α) (v : β) :
    (insert m k v).length ≤ m.length + 1 := by
  unfold insert
  split
  · simp [setValue]
  · simp

/-- `Iterator::collect` into a `HashMap`: the pairs inserted in order, a later value of a key
replacing an earlier one. -/
def ofList (l : List (α × β)) : List (α × β) :=
  l.foldl (fun m e => insert m e.1 e.2) []

/-- The entries, the length and the distinct keys of a map filled from a list, from those of the
map it started from; by induction on the list. -/
theorem foldl_insert_spec : ∀ (l m : List (α × β)), (m.map Prod.fst).Nodup →
    let m' := l.foldl (fun m e => insert m e.1 e.2) m
    (m'.map Prod.fst).Nodup ∧ m'.length ≤ m.length + l.length ∧ ∀ e ∈ m', e ∈ m ∨ e ∈ l
  | [], m, hnd => ⟨hnd, by simp, fun e he => .inl he⟩
  | (k, v) :: l, m, hnd => by
    obtain ⟨hnd', hlen, hmem⟩ := foldl_insert_spec l (insert m k v) (nodup_insert hnd k v)
    refine ⟨hnd', ?_, fun e he => ?_⟩
    · have := length_insert_le m k v
      simp only [List.foldl_cons, List.length_cons] at hlen ⊢
      omega
    · rcases hmem e he with he | he
      · rcases mem_insert he with he | rfl
        · exact .inl he
        · exact .inr List.mem_cons_self
      · exact .inr (List.mem_cons_of_mem _ he)

theorem nodup_ofList (l : List (α × β)) : ((ofList l).map Prod.fst).Nodup :=
  (foldl_insert_spec l [] List.nodup_nil).1

theorem length_ofList_le (l : List (α × β)) : (ofList l).length ≤ l.length :=
  ((foldl_insert_spec l [] List.nodup_nil).2.1).trans_eq (Nat.zero_add _)

theorem mem_of_mem_ofList {l : List (α × β)} {e : α × β} (he : e ∈ ofList l) : e ∈ l := by
  rcases (foldl_insert_spec l [] List.nodup_nil).2.2 e he with he | he
  · cases he
  · exact he

/-- Inserting a key that is absent adds one entry. -/
theorem length_insert_of_lookup_eq_none {m : List (α × β)} {k : α} (h : m.lookup k = none)
    (v : β) : (insert m k v).length = m.length + 1 := by
  rw [insert, h, List.length_append, List.length_singleton]

/-- `HashMap::remove`: the entries at `k` dropped. -/
def erase (m : List (α × β)) (k : α) : List (α × β) := m.filter fun e => e.1 ≠ k

theorem lookup_erase : ∀ (m : List (α × β)) (k j : α),
    (erase m k).lookup j = if j = k then none else m.lookup j
  | [], k, j => by simp [erase]
  | (a, b) :: m, k, j => by
    have ih := lookup_erase m k j
    simp only [erase] at ih ⊢
    by_cases hak : a = k
    · subst hak
      rw [List.filter_cons_of_neg (by simp), ih]
      by_cases hja : j = a
      · simp [hja]
      · simp [List.lookup_cons, beq_false_of_ne hja, hja]
    · rw [List.filter_cons_of_pos (by simpa using hak)]
      by_cases hja : j = a
      · subst hja
        simp [hak]
      · simpa [List.lookup_cons, beq_false_of_ne hja] using ih

theorem nodup_erase {m : List (α × β)} (hnd : (m.map Prod.fst).Nodup) (k : α) :
    ((erase m k).map Prod.fst).Nodup :=
  hnd.sublist (List.filter_sublist.map Prod.fst)

/-- Removing a key that is present drops its one entry. -/
theorem length_erase_add_one : ∀ {m : List (α × β)} {k : α} {v : β},
    (m.map Prod.fst).Nodup → m.lookup k = some v → (erase m k).length + 1 = m.length
  | [], _, _, _, h => nomatch h
  | (a, b) :: m, k, v, hnd, h => by
    simp only [List.map_cons, List.nodup_cons] at hnd
    by_cases hak : a = k
    · -- the entry at the head is the one, and no other entry has its key
      subst hak
      have hrest : erase m a = m := List.filter_eq_self.2 fun e he => by
        have : e.1 ≠ a := fun h => hnd.1 (h ▸ List.mem_map_of_mem he)
        simpa using this
      rw [erase, List.filter_cons_of_neg (by simp), ← erase, hrest, List.length_cons]
    · rw [List.lookup_cons, beq_false_of_ne (Ne.symm hak)] at h
      rw [erase, List.filter_cons_of_pos (by simpa using hak), ← erase, List.length_cons,
        List.length_cons, length_erase_add_one hnd.2 h]

section lists

variable {γ : Type}

/-- `map.entry(k).or_default().push(x)` on a map of lists. -/
def pushAt (m : List (α × List γ)) (k : α) (x : γ) : List (α × List γ) :=
  match m.lookup k with
  | some xs => m.map fun e => if e.1 = k then (k, xs ++ [x]) else e
  | none => (k, [x]) :: m

/-- `for v in map.values_mut() { v.clear() }`. -/
def clearValues (m : List (α × List γ)) : List (α × List γ) := m.map fun e => (e.1, [])

theorem lookup_map_of_key (g : α × List γ → List γ) :
    ∀ (m : List (α × List γ)) (j : α), (m.map fun e => (e.1, g e)).lookup j =
      (m.find? fun e => e.1 == j).map g
  | [], _ => rfl
  | (k, v) :: m, j => by
    by_cases hjk : j = k
    · subst hjk
      simp
    · have hb : (k == j) = false := beq_false_of_ne (Ne.symm hjk)
      have hb' : (j == k) = false := beq_false_of_ne hjk
      simp only [List.map_cons, List.lookup_cons, hb', List.find?_cons, hb]
      exact lookup_map_of_key g m j

theorem lookup_eq_find? : ∀ (m : List (α × List γ)) (j : α),
    m.lookup j = (m.find? fun e => e.1 == j).map Prod.snd
  | [], _ => rfl
  | (k, v) :: m, j => by
    by_cases hjk : j = k
    · subst hjk
      simp
    · have hb : (k == j) = false := beq_false_of_ne (Ne.symm hjk)
      have hb' : (j == k) = false := beq_false_of_ne hjk
      simp only [List.lookup_cons, hb', List.find?_cons, hb]
      exact lookup_eq_find? m j

theorem lookup_clearValues (m : List (α × List γ)) (j : α) :
    (clearValues m).lookup j = (m.lookup j).map fun _ => [] := by
  rw [clearValues, lookup_map_of_key (fun _ => []), lookup_eq_find?, Option.map_map]
  rfl

theorem lookup_pushAt (m : List (α × List γ)) (k j : α) (x : γ) :
    (pushAt m k x).lookup j = if j = k then some ((m.lookup k).getD [] ++ [x]) else m.lookup j := by
  unfold pushAt
  cases hk : m.lookup k with
  | none =>
    by_cases hjk : j = k
    · subst hjk
      simp
    · simp [List.lookup_cons, beq_false_of_ne hjk, hjk]
  | some xs =>
    have hmap : (m.map fun e => if e.1 = k then (k, xs ++ [x]) else e) =
        m.map fun e => (e.1, if e.1 = k then xs ++ [x] else e.2) := by
      refine List.map_congr_left fun e _ => ?_
      split_ifs with he
      · rw [he]
      · rfl
    dsimp only
    rw [hmap, lookup_map_of_key, lookup_eq_find? m j]
    rw [lookup_eq_find?] at hk
    cases hf : m.find? (fun e => e.1 == j) with
    | none =>
      by_cases hjk : j = k
      · subst hjk
        rw [hf] at hk
        cases hk
      · simp [hjk]
    | some e =>
      have hej : e.1 = j := by simpa using List.find?_some hf
      by_cases hjk : j = k
      · subst hjk
        simp [hej]
      · simp [hej, hjk]

end lists

section retain

/-! A `retain` over the entries of a map that takes the value of each dropped entry off a running
total, as a cache of the sum of the values. When the total starts at the sum, no subtraction
saturates and it ends at the sum of the values kept. -/

variable {γ : Type} (covered : γ → Bool) (keep : γ × Nat → Bool) (step : Nat → γ × Nat → Nat)
  (hkeep : ∀ k v, keep (k, v) = !covered k)
  (hstep : ∀ total k v, step total (k, v) = if covered k then total - v else total)
include hkeep hstep

theorem foldl_retain_total : ∀ (l : List (γ × Nat)) (c : Nat),
    l.foldl step (c + (l.map Prod.snd).sum) = c + ((l.filter keep).map Prod.snd).sum
  | [], c => by simp
  | (k, v) :: l, c => by
    rw [List.foldl_cons, hstep, List.filter_cons, hkeep]
    by_cases hk : covered k
    · have hsub : c + (((k, v) :: l).map Prod.snd).sum - v = c + (l.map Prod.snd).sum := by
        simp only [List.map_cons, List.sum_cons]
        omega
      simp only [hk, if_true, Bool.not_true, Bool.false_eq_true, if_false]
      rw [hsub, foldl_retain_total l c]
    · simp only [hk, Bool.false_eq_true, if_false, Bool.not_false, if_true, List.map_cons,
        List.sum_cons]
      rw [← Nat.add_assoc, foldl_retain_total l (c + v), Nat.add_assoc]

omit hkeep in
/-- The total only goes down. -/
theorem foldl_retain_le : ∀ (l : List (γ × Nat)) (total : Nat), l.foldl step total ≤ total
  | [], _ => Nat.le_refl _
  | (k, v) :: l, total => by
    rw [List.foldl_cons]
    refine Nat.le_trans (foldl_retain_le l _) ?_
    rw [hstep]
    split <;> omega

end retain

end AssocList
