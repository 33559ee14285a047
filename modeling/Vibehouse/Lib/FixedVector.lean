import Mathlib.Data.List.Basic

/-! # Fixed-length vectors built by fallible loops and written in place

`FixedVector::new` accepts a vector of exactly its type's length; a loop that collects
`Result`s (`.collect::<Result<Vec<_>, _>>()?`) stops at the first error; and a loop of
`if let Some(entry) = v.get_mut(i) { *entry = x }` writes only the entries the vector has;
`Vec::swap` exchanges two entries. This module states how they read back, entry by entry. -/

namespace FixedVector

variable {α β : Type*}

/-- `FixedVector::new`: the vector, when its length is the type's. -/
def new (n : Nat) (xs : List α) : Option (List α) :=
  if xs.length = n then some xs else none

@[simp] theorem new_eq_some {n : Nat} {xs ys : List α} : new n xs = some ys ↔ xs.length = n ∧ xs = ys := by
  unfold new
  split <;> simp_all

/-- A successful `collect` of a fallible map has one entry per input. -/
theorem length_of_mapM {f : α → Option β} :
    ∀ {l : List α} {r : List β}, l.mapM f = some r → r.length = l.length
  | [], r, h => by
    simp only [List.mapM_nil, Option.pure_def, Option.some.injEq] at h
    simp [← h]
  | a :: l, r, h => by
    simp only [List.mapM_cons, Option.pure_def, Option.bind_eq_bind, Option.bind_eq_some_iff,
      Option.some.injEq] at h
    obtain ⟨b, -, rs, hrs, rfl⟩ := h
    simp [length_of_mapM hrs]

/-- A successful `collect` of a fallible map holds at each position what `f` gives for the
input at that position. -/
theorem getElem?_of_mapM {f : α → Option β} :
    ∀ {l : List α} {r : List β}, l.mapM f = some r → ∀ i : Nat, r[i]? = l[i]?.bind f
  | [], r, h, i => by
    simp only [List.mapM_nil, Option.pure_def, Option.some.injEq] at h
    simp [← h]
  | a :: l, r, h, i => by
    simp only [List.mapM_cons, Option.pure_def, Option.bind_eq_bind, Option.bind_eq_some_iff,
      Option.some.injEq] at h
    obtain ⟨b, hb, rs, hrs, rfl⟩ := h
    cases i with
    | zero => simp [hb]
    | succ i => simpa using getElem?_of_mapM hrs i

/-- A map in a monad that returns on every input collects the values. -/
theorem mapM_eq_pure_map {m : Type _ → Type _} [Monad m] [LawfulMonad m] {f : α → m β}
    {g : α → β} : ∀ {l : List α}, (∀ a ∈ l, f a = pure (g a)) → l.mapM f = pure (l.map g)
  | [], _ => by simp
  | a :: l, h => by
    rw [List.mapM_cons, h a List.mem_cons_self,
      mapM_eq_pure_map fun b hb => h b (List.mem_cons_of_mem _ hb)]
    simp

/-- A fallible map that succeeds on every input collects the values. -/
theorem mapM_eq_some_map {f : α → Option β} {g : α → β} {l : List α}
    (h : ∀ a ∈ l, f a = some (g a)) : l.mapM f = some (l.map g) :=
  mapM_eq_pure_map h

/-- The write loop: the `k`-th value goes to entry `dst + k`, where the vector has one. -/
def writeFrom (dst : Nat) : List α → List α → List α
  | [], v => v
  | x :: xs, v => writeFrom (dst + 1) xs (v.set dst x)

@[simp] theorem length_writeFrom (dst : Nat) (xs v : List α) :
    (writeFrom dst xs v).length = v.length := by
  induction xs generalizing dst v with
  | nil => rfl
  | cons x xs ih => simp [writeFrom, ih]

/-- An entry of the vector after the write loop: the value written there, or the old one
outside the written range. -/
theorem getElem?_writeFrom (dst : Nat) (xs v : List α) {k : Nat} (hk : k < v.length) :
    (writeFrom dst xs v)[k]? = if dst ≤ k ∧ k < dst + xs.length then xs[k - dst]? else v[k]? := by
  induction xs generalizing dst v with
  | nil => simp only [writeFrom, List.length_nil]; split_ifs <;> first | rfl | omega
  | cons x xs ih =>
    rw [writeFrom, ih (dst + 1) _ (by simpa using hk)]
    -- the written range of the rest starts one entry later; entry `dst` holds `x`
    rcases Nat.lt_trichotomy k dst with hlt | rfl | hgt
    · rw [if_neg (by omega), if_neg (by omega), List.getElem?_set_ne (by omega)]
    · rw [if_neg (by omega), if_pos (by simp), List.getElem?_set_self hk]
      simp
    · rw [List.length_cons]
      by_cases hin : k < dst + 1 + xs.length
      · rw [if_pos ⟨by omega, hin⟩, if_pos ⟨by omega, by omega⟩,
          show k - dst = k - (dst + 1) + 1 by omega, List.getElem?_cons_succ]
      · rw [if_neg (by omega), if_neg (by omega), List.getElem?_set_ne (by omega)]

/-- The loop `for (i, &x) in l.iter().enumerate() { *v.get_mut(x).ok_or(e(x))? = g(i) }`, its
count starting at `k`: the value of the `i`-th position goes to entry `l[i]`, and an entry the
vector lacks fails. -/
def writeAt {ε : Type*} (e : Nat → ε) (g : Nat → α) : List Nat → Nat → List α → Except ε (List α)
  | [], _, v => .ok v
  | x :: l, k, v => if x < v.length then writeAt e g l (k + 1) (v.set x (g k)) else .error (e x)

/-- Writing the positions of a list without repeats, whose entries the vector has: each entry of
the list holds the value of its position, and every other entry is unchanged. -/
theorem writeAt_eq_ok {ε : Type*} (e : Nat → ε) (g : Nat → α) :
    ∀ {l : List Nat} {k : Nat} {v : List α}, l.Nodup → (∀ x ∈ l, x < v.length) →
      ∃ w, writeAt e g l k v = .ok w ∧ w.length = v.length ∧
        ∀ x, w[x]? = if x ∈ l then some (g (k + l.idxOf x)) else v[x]?
  | [], k, v, _, _ => ⟨v, rfl, rfl, fun x => by simp⟩
  | y :: l, k, v, hnodup, hlt => by
    obtain ⟨hy, hnodup⟩ := List.nodup_cons.1 hnodup
    have hyv : y < v.length := hlt y List.mem_cons_self
    obtain ⟨w, hw, hlen, hget⟩ := writeAt_eq_ok e g hnodup (k := k + 1) (v := v.set y (g k))
      fun x hx => by simpa using hlt x (List.mem_cons_of_mem _ hx)
    refine ⟨w, by rw [writeAt, if_pos hyv, hw], by simpa using hlen, fun x => ?_⟩
    rw [hget x]
    -- entry `y` is written first and never again; the rest are written one position later
    by_cases hxy : x = y
    · subst hxy
      rw [if_neg hy, if_pos List.mem_cons_self, List.idxOf_cons_self, List.getElem?_set_self hyv,
        Nat.add_zero]
    · by_cases hx : x ∈ l
      · rw [if_pos hx, if_pos (List.mem_cons_of_mem _ hx), List.idxOf_cons_ne _ (Ne.symm hxy)]
        simp only [Nat.add_assoc, Nat.add_comm 1]
      · rw [if_neg hx, if_neg (by simp [hxy, hx]), List.getElem?_set_ne (Ne.symm hxy)]

/-- `Vec::swap`, for two entries the vector has. -/
def swap [Inhabited α] (v : List α) (i j : Nat) : List α :=
  (v.set i (v.getD j default)).set j (v.getD i default)

@[simp] theorem length_swap [Inhabited α] (v : List α) (i j : Nat) :
    (swap v i j).length = v.length := by
  simp [swap]

/-- After a swap, the vector reads through the transposition of the two entries. -/
theorem getElem?_swap [Inhabited α] {v : List α} {i j : Nat} (hi : i < v.length)
    (hj : j < v.length) (x : Nat) :
    (swap v i j)[x]? = v[if x = i then j else if x = j then i else x]? := by
  unfold swap
  by_cases hxj : x = j
  · subst hxj
    rw [List.getElem?_set_self (by simpa using hj), List.getD_eq_getElem?_getD,
      List.getElem?_eq_getElem hi, Option.getD_some]
    by_cases hxi : x = i
    · rw [if_pos hxi, hxi, List.getElem?_eq_getElem hi]
    · rw [if_neg hxi, if_pos rfl, List.getElem?_eq_getElem hi]
  · rw [List.getElem?_set_ne (Ne.symm hxj), if_neg hxj]
    by_cases hxi : x = i
    · subst hxi
      rw [List.getElem?_set_self hi, List.getD_eq_getElem?_getD, List.getElem?_eq_getElem hj,
        Option.getD_some, if_pos rfl, List.getElem?_eq_getElem hj]
    · rw [List.getElem?_set_ne (Ne.symm hxi), if_neg hxi]

end FixedVector
