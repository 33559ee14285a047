import Mathlib

/-! # Runs of state-and-error computations

A computation of `EStateM ε σ` ends with a value or with an error, and in both cases in a new
state: a failed call of a `&mut self` method keeps what it changed before the error. This
module names that final state and states how the runs of a few building blocks end, for the
rules of the core library (`EStateM.run_bind` and its siblings) to use. -/

namespace EStateM

variable {ε σ α β : Type}

/-- The state a run ends in, whether with a value or with an error. -/
def Result.state : Result ε σ α → σ
  | .ok _ s => s
  | .error _ s => s

@[simp] theorem Result.state_ok (a : α) (s : σ) : (Result.ok a s : Result ε σ α).state = s := rfl

@[simp] theorem Result.state_error (e : ε) (s : σ) :
    (Result.error e s : Result ε σ α).state = s := rfl

/-- The value or the error a run ends with, without its final state. -/
def Result.value : Result ε σ α → Except ε α
  | .ok a _ => .ok a
  | .error e _ => .error e

@[simp] theorem Result.value_ok (a : α) (s : σ) : (Result.ok a s : Result ε σ α).value = .ok a := rfl

@[simp] theorem Result.value_error (e : ε) (s : σ) :
    (Result.error e s : Result ε σ α).value = .error e := rfl

/-- `EStateM.run_throw` at every result type. -/
@[simp] theorem run_throw_eq_error (e : ε) (s : σ) :
    (throw e : EStateM ε σ α).run s = .error e s := rfl

@[simp] theorem run_liftExcept (x : Except ε α) (s : σ) :
    (liftExcept x : EStateM ε σ α).run s =
      match x with
      | .ok a => .ok a s
      | .error e => .error e s := by
  cases x <;> rfl

/-- A bind ends with `Ok` when its first computation does, and the rest does from there. -/
theorem run_bind_eq_ok {x : EStateM ε σ α} {f : α → EStateM ε σ β} {s s' : σ} {b : β} :
    (x >>= f).run s = .ok b s' ↔ ∃ a s₁, x.run s = .ok a s₁ ∧ (f a).run s₁ = .ok b s' := by
  rw [run_bind]
  cases x.run s <;> simp

/-- `m` keeps `P`: a run from a state with `P` ends in a state with `P`, with a value or an
error. -/
def Keeps (P : σ → Prop) (m : EStateM ε σ α) : Prop := ∀ s, P s → P (m.run s).state

theorem Keeps.bind {P : σ → Prop} {m : EStateM ε σ α} {f : α → EStateM ε σ β}
    (hm : Keeps P m) (hf : ∀ a, Keeps P (f a)) : Keeps P (m >>= f) := by
  intro s hs
  have h := hm s hs
  rw [run_bind]
  cases hr : m.run s with
  | ok a s' =>
    rw [hr] at h
    exact hf a s' h
  | error e s' =>
    rw [hr] at h
    exact h

theorem keeps_pure {P : σ → Prop} (a : α) : Keeps P (pure a : EStateM ε σ α) :=
  fun _ hs => hs

theorem keeps_throw {P : σ → Prop} (e : ε) : Keeps P (throw e : EStateM ε σ α) :=
  fun _ hs => hs

theorem keeps_set {P : σ → Prop} {s' : σ} (h : P s') : Keeps P (set s' : EStateM ε σ PUnit) :=
  fun _ _ => h

theorem keeps_modify {P : σ → Prop} {f : σ → σ} (h : ∀ s, P s → P (f s)) :
    Keeps P (modify f : EStateM ε σ PUnit) :=
  fun s hs => h s hs

theorem keeps_get_bind {P : σ → Prop} {f : σ → EStateM ε σ α}
    (h : ∀ s, P s → P ((f s).run s).state) : Keeps P (get >>= f) :=
  fun s hs => h s hs

/-- A loop keeps what each of its rounds keeps. -/
theorem Keeps.forM {P : σ → Prop} {f : α → EStateM ε σ PUnit} :
    ∀ (l : List α), (∀ a ∈ l, Keeps P (f a)) → Keeps P (l.forM f)
  | [], _ => keeps_pure _
  | a :: l, h => by
    show Keeps P (f a >>= fun _ => l.forM f)
    exact Keeps.bind (h a List.mem_cons_self)
      fun _ => Keeps.forM l fun b hb => h b (List.mem_cons_of_mem a hb)

section moves

variable (R : σ → σ → Prop)

/-- Every run of `m` ends, with a value or an error, in a state `R`-related to where it
started. For a preorder `R` this composes through binds. -/
def Moves (m : EStateM ε σ α) : Prop := ∀ s, R s (m.run s).state

variable {R}

theorem Moves.bind (trans : ∀ a b c, R a b → R b c → R a c) {m : EStateM ε σ α}
    {f : α → EStateM ε σ β} (hm : Moves R m) (hf : ∀ a, Moves R (f a)) : Moves R (m >>= f) := by
  intro s
  have h := hm s
  rw [run_bind]
  cases hr : m.run s with
  | ok a s' =>
    rw [hr] at h
    exact trans _ _ _ h (hf a s')
  | error e s' =>
    rw [hr] at h
    exact h

theorem moves_get_bind {f : σ → EStateM ε σ α} (h : ∀ s, R s ((f s).run s).state) :
    Moves R (get >>= f) :=
  fun s => h s

theorem moves_pure (refl : ∀ s, R s s) (a : α) : Moves R (pure a : EStateM ε σ α) :=
  fun s => refl s

theorem moves_throw (refl : ∀ s, R s s) (e : ε) : Moves R (throw e : EStateM ε σ α) :=
  fun s => refl s

theorem moves_liftExcept (refl : ∀ s, R s s) (x : Except ε α) :
    Moves R (liftExcept x : EStateM ε σ α) := by
  intro s
  cases x <;> exact refl s

/-- For a preorder, a loop moves as each of its rounds does. -/
theorem Moves.forM (refl : ∀ s, R s s) (trans : ∀ a b c, R a b → R b c → R a c)
    {f : α → EStateM ε σ PUnit} :
    ∀ (l : List α), (∀ a ∈ l, Moves R (f a)) → Moves R (l.forM f)
  | [], _ => moves_pure refl _
  | a :: l, h => by
    show Moves R (f a >>= fun _ => l.forM f)
    exact Moves.bind trans (h a List.mem_cons_self)
      fun _ => Moves.forM refl trans l fun b hb => h b (List.mem_cons_of_mem a hb)

/-- A loop that ends with `Ok` ran its first round with `Ok`, and the rest from there. -/
theorem run_forM_cons_eq_ok {f : α → EStateM ε σ PUnit} {a : α} {l : List α} {s s' : σ}
    (h : ((a :: l).forM f).run s = .ok () s') :
    ∃ s₁, (f a).run s = .ok () s₁ ∧ (l.forM f).run s₁ = .ok () s' := by
  have hcons : ((a :: l).forM f).run s = (f a >>= fun _ => l.forM f).run s := rfl
  rw [hcons, run_bind] at h
  cases hr : (f a).run s with
  | ok u s₁ =>
    rw [hr] at h
    exact ⟨s₁, rfl, h⟩
  | error e s₁ =>
    rw [hr] at h
    cases h

theorem Moves.of_run_ok {m : EStateM ε σ α} (h : Moves R m) {s s' : σ} {a : α}
    (hr : m.run s = .ok a s') : R s s' := by
  have hs := h s
  rwa [hr] at hs

theorem Moves.keeps (trans : ∀ a b c, R a b → R b c → R a c) {m : EStateM ε σ α} (h : Moves R m)
    (s₀ : σ) : Keeps (R s₀) m :=
  fun s hs => trans _ _ _ hs (h s)

end moves

end EStateM

namespace Except

variable {ε α β : Type}

theorem ok_bind (a : α) (f : α → Except ε β) : (Except.ok a >>= f) = f a := rfl

theorem error_bind (e : ε) (f : α → Except ε β) : (Except.error e >>= f) = .error e := rfl

theorem bind_eq_ok {x : Except ε α} {f : α → Except ε β} {b : β} :
    x >>= f = .ok b ↔ ∃ a, x = .ok a ∧ f a = .ok b := by
  cases x <;> simp [bind, Except.bind]

theorem mapError_eq_ok {ε' : Type} {x : Except ε α} {f : ε → ε'} {a : α} :
    x.mapError f = .ok a ↔ x = .ok a := by
  cases x <;> simp [Except.mapError]

theorem map_eq_ok {x : Except ε α} {f : α → β} {b : β} :
    x.map f = .ok b ↔ ∃ a, x = .ok a ∧ f a = b := by
  cases x <;> simp [Except.map]

theorem toOption_eq_some {x : Except ε α} {a : α} : x.toOption = some a ↔ x = .ok a := by
  cases x <;> simp [Except.toOption]

/-- A fold whose every successful step keeps `P` ends, when it succeeds, in a state with `P`;
by induction on the list. -/
theorem foldlM_invariant {f : β → α → Except ε β} {P : β → Prop}
    (hf : ∀ b a b', P b → f b a = .ok b' → P b') :
    ∀ (l : List α) {b b' : β}, P b → l.foldlM f b = .ok b' → P b'
  | [], _, _, hb, h => by
    cases h
    exact hb
  | a :: l, b, b', hb, h => by
    rw [List.foldlM_cons, bind_eq_ok] at h
    obtain ⟨b₁, h₁, h₂⟩ := h
    exact foldlM_invariant hf l (hf b a b₁ hb h₁) h₂

/-- A bind succeeds when its first computation succeeds and the rest succeeds from every value
that the first can end with: the rule that chains the success of a sequence of steps, each
described by what it keeps. -/
theorem exists_bind_ok {x : Except ε α} {f : α → Except ε β} {P : α → Prop} {Q : β → Prop}
    (hx : ∃ a, x = .ok a ∧ P a) (hf : ∀ a, P a → ∃ b, f a = .ok b ∧ Q b) :
    ∃ b, (x >>= f) = .ok b ∧ Q b := by
  obtain ⟨a, rfl, ha⟩ := hx
  exact hf a ha

end Except
