import Vibehouse.Lib.MachineInt

/-! # Worker accounting of the beacon processor

The manager of the beacon processor counts its workers in `current_workers`. It spawns a worker
only while `current_workers < max_workers`, adding one, and it subtracts one (saturating) for
each idle message it receives. A worker sends its idle message from the `Drop` of its
`SendOnDrop` guard, so also when it panics, with `try_send` on a channel of
`MAX_IDLE_QUEUE_LEN` messages: a full channel loses the message.

The model is the accounting the manager and the workers share, with two ghost counters: the
workers spawned and the idle messages received. An event is the manager receiving an idle
message, the manager handling a work or reprocessing event, or a worker dropping its guard. The
manager's branches come down to whether they spawn a worker when one can be spawned.
`Accounting.Inv` says that no idle message is lost, that `current_workers` is the number of
spawned workers whose message is not received yet, and that it stays at most `max_workers`. It
holds from the start and every event keeps it when `max_workers ≤ MAX_IDLE_QUEUE_LEN`: a
dropped guard finds room in the channel because every message in it belongs to a counted
worker. -/

namespace Vibehouse.BeaconProcessor

open MachineInt

/-- `MAX_IDLE_QUEUE_LEN`, the capacity of the idle channel. -/
def maxIdleQueueLen : Nat := 16384

/-- The accounting of workers: the manager's `current_workers`, the workers that still hold
their `SendOnDrop`, the idle messages in the channel, and the ghost counts of the workers spawned
and the idle messages received. -/
structure Accounting where
  currentWorkers : Nat
  running : Nat
  idleMessages : Nat
  spawned : Nat
  consumed : Nat

namespace Accounting

/-- A new processor: `current_workers: 0` and an empty channel. -/
def start : Accounting := ⟨0, 0, 0, 0, 0⟩

/-- `can_spawn`, as the manager computes it once per event. -/
def canSpawn (maxWorkers : Nat) (s : Accounting) : Bool := s.currentWorkers < maxWorkers

/-- `spawn_worker`: `current_workers.saturating_add(1)`, and a worker that holds its guard. -/
def spawnWorker (s : Accounting) : Accounting :=
  { s with
    currentWorkers := uSaturatingAdd 64 s.currentWorkers 1
    running := s.running + 1
    spawned := s.spawned + 1 }

/-- `Drop for SendOnDrop`: `try_send` of the idle message, lost when the channel is full. -/
def dropGuard (s : Accounting) : Accounting :=
  { s with
    running := s.running - 1
    idleMessages := if s.idleMessages < maxIdleQueueLen then s.idleMessages + 1 else s.idleMessages }

/-- `InboundEvent::WorkerIdle`: `current_workers.saturating_sub(1)`. -/
def receiveIdle (s : Accounting) : Accounting :=
  { s with
    currentWorkers := s.currentWorkers - 1
    idleMessages := s.idleMessages - 1
    consumed := s.consumed + 1 }

end Accounting

/-- What happens next, in any interleaving. -/
inductive Event
  /-- The manager receives an idle message; `found` says whether its queues hold work to give a
  new worker. -/
  | workerIdle (found : Bool)
  /-- The manager receives a work or reprocessing event; `spawns` says whether its branch spawns
  a worker when one can be spawned (it does not for reprocess work, for work dropped during
  sync and for a backfill batch sent to the reprocess queue). -/
  | work (spawns : Bool)
  /-- A worker's guard is dropped: the worker finished, or panicked. -/
  | workerDrop

/-- One event; `none` when it cannot happen (no idle message to receive, no worker to drop). -/
def step (maxWorkers : Nat) (s : Accounting) : Event → Option Accounting
  | .workerIdle found =>
    if s.idleMessages = 0 then none
    else
      let s := s.receiveIdle
      -- the `None if can_spawn` branch pops a queue and spawns when it finds work
      some (if s.canSpawn maxWorkers && found then s.spawnWorker else s)
  | .work spawns =>
    some (if s.canSpawn maxWorkers && spawns then s.spawnWorker else s)
  | .workerDrop =>
    if s.running = 0 then none else some s.dropGuard

/-- The states a run of events reaches from the start. -/
inductive Reachable (maxWorkers : Nat) : Accounting → Prop
  | start : Reachable maxWorkers Accounting.start
  | step {s s' : Accounting} (e : Event) :
    Reachable maxWorkers s → step maxWorkers s e = some s' → Reachable maxWorkers s'

/-! ## The invariant -/

namespace Accounting

/-- The accounting invariant under `max_workers`: every spawned worker holds its guard, has its
message in the channel or had it received; `current_workers` counts those not received; and it
stays at most `max_workers`. -/
structure Inv (maxWorkers : Nat) (s : Accounting) : Prop where
  no_loss : s.running + s.idleMessages + s.consumed = s.spawned
  current_eq : s.currentWorkers + s.consumed = s.spawned
  le_max : s.currentWorkers ≤ maxWorkers

variable {maxWorkers : Nat} {s : Accounting}

theorem inv_start : Inv maxWorkers start := ⟨rfl, rfl, Nat.zero_le _⟩

/-- The counted workers are those running and those whose message waits in the channel. -/
theorem Inv.current_eq_add (h : Inv maxWorkers s) : s.currentWorkers = s.running + s.idleMessages := by
  have h1 := h.no_loss
  have h2 := h.current_eq
  omega

section Capacity

variable (hmax : maxWorkers ≤ maxIdleQueueLen)
include hmax

/-- A spawn when one can be spawned: the counter does not saturate. -/
theorem Inv.spawnWorker (h : Inv maxWorkers s) (hc : s.currentWorkers < maxWorkers) :
    Inv maxWorkers s.spawnWorker := by
  have hadd : uSaturatingAdd 64 s.currentWorkers 1 = s.currentWorkers + 1 :=
    uSaturatingAdd_of_le (by unfold uMax maxIdleQueueLen at *; omega)
  have h1 := h.no_loss
  have h2 := h.current_eq
  refine ⟨?_, ?_, ?_⟩ <;> simp only [Accounting.spawnWorker, hadd] <;> omega

/-- A dropped guard finds room in the channel, since every message in it belongs to a counted
worker and a running one is counted too. -/
theorem Inv.idleMessages_lt (h : Inv maxWorkers s) (hr : 0 < s.running) :
    s.idleMessages < maxIdleQueueLen := by
  have := h.current_eq_add
  have := h.le_max
  omega

theorem Inv.dropGuard (h : Inv maxWorkers s) (hr : 0 < s.running) :
    Inv maxWorkers s.dropGuard := by
  have hroom := h.idleMessages_lt hmax hr
  have h1 := h.no_loss
  have h2 := h.current_eq
  have h3 := h.le_max
  refine ⟨?_, ?_, ?_⟩ <;> simp only [Accounting.dropGuard, if_pos hroom] <;> omega

end Capacity

/-- A received message belongs to a counted worker, so the saturating subtraction is exact. -/
theorem Inv.receiveIdle (h : Inv maxWorkers s) (hi : 0 < s.idleMessages) :
    Inv maxWorkers s.receiveIdle := by
  have := h.current_eq_add
  have h1 := h.no_loss
  have h2 := h.current_eq
  have h3 := h.le_max
  refine ⟨?_, ?_, ?_⟩ <;> simp only [Accounting.receiveIdle] <;> omega

/-- After an event the manager spawns exactly when it can and its branch wants to. -/
theorem Inv.spawnIf (hmax : maxWorkers ≤ maxIdleQueueLen) (h : Inv maxWorkers s) (b : Bool) :
    Inv maxWorkers (if s.canSpawn maxWorkers && b then s.spawnWorker else s) := by
  split
  · rename_i hc
    simp only [Bool.and_eq_true, canSpawn, decide_eq_true_eq] at hc
    exact h.spawnWorker hmax hc.1
  · exact h

end Accounting

open Accounting

variable {maxWorkers : Nat} {s s' : Accounting}

/-- Every event keeps the invariant. -/
theorem Accounting.Inv.of_step (hmax : maxWorkers ≤ maxIdleQueueLen) (h : Inv maxWorkers s) (e : Event)
    (hs : step maxWorkers s e = some s') : Inv maxWorkers s' := by
  cases e with
  | workerIdle found =>
    simp only [step] at hs
    split at hs
    · cases hs
    · rename_i hi
      cases hs
      exact (h.receiveIdle (Nat.pos_of_ne_zero hi)).spawnIf hmax found
  | work spawns =>
    cases hs
    exact h.spawnIf hmax spawns
  | workerDrop =>
    simp only [step] at hs
    split at hs
    · cases hs
    · rename_i hr
      cases hs
      exact h.dropGuard hmax (Nat.pos_of_ne_zero hr)

/-- The invariant holds in every reachable state. -/
theorem Reachable.inv (hmax : maxWorkers ≤ maxIdleQueueLen) (hr : Reachable maxWorkers s) :
    Inv maxWorkers s := by
  induction hr with
  | start => exact inv_start
  | step e _ hs ih => exact ih.of_step hmax e hs

section Accounting

theorem worker_accounting_balanced (maxWorkers : Nat) (hmax : maxWorkers ≤ maxIdleQueueLen)
    (hpos : 0 < maxWorkers) (s : Accounting) (hs : Reachable maxWorkers s) :
    s.running ≤ maxWorkers ∧ s.currentWorkers + s.consumed = s.spawned ∧
      s.running + s.idleMessages + s.consumed = s.spawned ∧
      (0 < s.running → s.idleMessages < maxIdleQueueLen) ∧
      (s.running = 0 → s.idleMessages = 0 →
        s.currentWorkers = 0 ∧ s.canSpawn maxWorkers = true) := by
  have h := hs.inv hmax
  have hsum := h.current_eq_add
  have hle := h.le_max
  refine ⟨by omega, h.current_eq, h.no_loss, h.idleMessages_lt hmax, fun hr hi => ?_⟩
  have hzero : s.currentWorkers = 0 := by omega
  exact ⟨hzero, by simp [canSpawn, hzero, hpos]⟩

/-- One worker spawned by a work event, under `max_workers = 1`. -/
def oneWorker : Accounting := Accounting.start.spawnWorker

theorem worker_accounting_balanced_oneWorker :
    (1 ≤ maxIdleQueueLen ∧ 0 < 1 ∧ Reachable 1 oneWorker) ∧
      oneWorker.running ≤ 1 ∧ oneWorker.currentWorkers + oneWorker.consumed = oneWorker.spawned ∧
      oneWorker.running + oneWorker.idleMessages + oneWorker.consumed = oneWorker.spawned ∧
      (0 < oneWorker.running → oneWorker.idleMessages < maxIdleQueueLen) ∧
      (oneWorker.running = 0 → oneWorker.idleMessages = 0 →
        oneWorker.currentWorkers = 0 ∧ oneWorker.canSpawn 1 = true) := by
  have hr : Reachable 1 oneWorker := Reachable.step (.work true) .start rfl
  exact ⟨⟨by decide, by decide, hr⟩,
    worker_accounting_balanced 1 (by decide) (by decide) oneWorker hr⟩

/-- With `max_workers = 0` no worker ever runs, and none can be spawned either. -/
theorem worker_accounting_zero_max_workers :
    0 ≤ maxIdleQueueLen ∧ Reachable 0 Accounting.start ∧ Accounting.start.running = 0 ∧
      Accounting.start.idleMessages = 0 ∧ Accounting.start.canSpawn 0 = false :=
  ⟨Nat.zero_le _, .start, rfl, rfl, rfl⟩

end Accounting

end Vibehouse.BeaconProcessor
