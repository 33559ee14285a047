import Mathlib.Data.List.Basic

/-! # Interleavings of threads over a shared state

Threads with local states `τ` share a state `σ`. The next atomic section of a thread is
`step g t`: the new shared state and thread state, or `none` when the thread has nothing
left to run. A schedule lists the threads that run their next section, in order; every
interleaving of the sections of the threads is a schedule, and a serial execution is the
schedule that runs each thread to its end before the next one starts.

The rules here are the equations of a section, the frame rules of a section and of a run (a
thread that is not scheduled keeps its state) and the invariant rules. -/

namespace Interleaving

/-- The shared state and the state of each thread. -/
structure Config (σ τ : Type) where
  shared : σ
  threads : List τ

variable {σ τ : Type} (step : σ → τ → Option (σ × τ))

/-- Thread `i` runs its next atomic section; a thread that does not exist or has finished
leaves the configuration as it is. -/
def stepAt (c : Config σ τ) (i : Nat) : Config σ τ :=
  match c.threads[i]? with
  | none => c
  | some t =>
    match step c.shared t with
    | none => c
    | some (g, t') => ⟨g, c.threads.set i t'⟩

/-- The configuration after the sections of a schedule. -/
def run (c : Config σ τ) (sched : List Nat) : Config σ τ := sched.foldl (stepAt step) c

/-- Run each thread of `order` through `n` sections before the next one starts. -/
def serialSchedule (n : Nat) (order : List Nat) : List Nat :=
  order.flatMap fun i => List.replicate n i

variable {step}

@[simp] theorem run_nil (c : Config σ τ) : run step c [] = c := rfl

@[simp] theorem run_cons (c : Config σ τ) (i : Nat) (sched : List Nat) :
    run step c (i :: sched) = run step (stepAt step c i) sched := rfl

theorem run_append (c : Config σ τ) (s₁ s₂ : List Nat) :
    run step c (s₁ ++ s₂) = run step (run step c s₁) s₂ :=
  List.foldl_append

@[simp] theorem serialSchedule_cons (n i : Nat) (order : List Nat) :
    serialSchedule n (i :: order) = List.replicate n i ++ serialSchedule n order :=
  List.flatMap_cons

/-- What one section can do: nothing, or the step of the scheduled thread. -/
theorem stepAt_cases (c : Config σ τ) (i : Nat) :
    stepAt step c i = c ∨
      ∃ t g t', c.threads[i]? = some t ∧ step c.shared t = some (g, t') ∧
        stepAt step c i = ⟨g, c.threads.set i t'⟩ := by
  unfold stepAt
  rcases ht : c.threads[i]? with _ | t
  · exact .inl rfl
  · dsimp only
    rcases hs : step c.shared t with _ | ⟨g, t'⟩
    · exact .inl rfl
    · exact .inr ⟨t, g, t', rfl, hs, rfl⟩

theorem stepAt_of_step {c : Config σ τ} {i : Nat} {t : τ} {g : σ} {t' : τ}
    (ht : c.threads[i]? = some t) (hs : step c.shared t = some (g, t')) :
    stepAt step c i = ⟨g, c.threads.set i t'⟩ := by
  unfold stepAt
  simp only [ht, hs]

/-- A thread with no section left, or no thread at all, leaves the configuration as it is. -/
theorem stepAt_of_step_eq_none {c : Config σ τ} {i : Nat} {t : τ} (ht : c.threads[i]? = some t)
    (hs : step c.shared t = none) : stepAt step c i = c := by
  unfold stepAt
  simp only [ht, hs]

theorem stepAt_of_getElem?_eq_none {c : Config σ τ} {i : Nat} (ht : c.threads[i]? = none) :
    stepAt step c i = c := by
  unfold stepAt
  simp only [ht]

/-- The invariant rule for one section: an invariant kept by every step of a thread is kept
by the section of any thread. -/
theorem stepAt_induction (P : Config σ τ → Prop) {c : Config σ τ} {i : Nat} (hc : P c)
    (hs : ∀ t g t', c.threads[i]? = some t → step c.shared t = some (g, t') →
      P ⟨g, c.threads.set i t'⟩) :
    P (stepAt step c i) := by
  rcases stepAt_cases c i with h | ⟨t, g, t', ht, hst, h⟩
  · rwa [h]
  · rw [h]
    exact hs t g t' ht hst

/-- The invariant rule for runs. -/
theorem run_induction (P : Config σ τ → Prop) (hs : ∀ c i, P c → P (stepAt step c i)) :
    ∀ {c : Config σ τ} (sched : List Nat), P c → P (run step c sched)
  | _, [], hc => hc
  | c, i :: sched, hc => run_induction P hs sched (hs c i hc)

/-- Frame rule of a section: the other threads keep their states. -/
theorem getElem?_stepAt_of_ne (c : Config σ τ) {i j : Nat} (hij : i ≠ j) :
    (stepAt step c i).threads[j]? = c.threads[j]? := by
  rcases stepAt_cases c i with h | ⟨t, g, t', -, -, h⟩
  · rw [h]
  · rw [h]
    exact List.getElem?_set_ne hij

/-- Frame rule of a run: a thread that is not scheduled keeps its state. -/
theorem getElem?_run_of_not_mem {j : Nat} :
    ∀ {c : Config σ τ} {sched : List Nat}, j ∉ sched → (run step c sched).threads[j]? = c.threads[j]?
  | _, [], _ => rfl
  | c, i :: sched, hj => by
    rw [List.mem_cons, not_or] at hj
    rw [run_cons, getElem?_run_of_not_mem hj.2, getElem?_stepAt_of_ne c (Ne.symm hj.1)]

end Interleaving
