import Vibehouse.BeaconChain.ObservedPayloads
import Vibehouse.Lib.Interleaving

/-! # Gossip verification of payload attestations and envelopes, over interleavings

`verify_payload_attestation_for_gossip` and `verify_payload_envelope_for_gossip`
(`gloas_verification.rs`) as threads over the two caches of observed messages. Each
acquisition of a cache's mutex is one atomic section, so each verification runs two: the
checks, the read of the cache among them, and then the recording of the message. Signature
verification reads and writes no cache, so it belongs to the first section. The checks
against the head state, the store and fork choice, which are fixed, are given by their
results (`indexedAttestationIndices`, `signatureValid`, `blockKnown`, `validation`); the
buffering of an envelope whose block is unknown writes another cache and is left out.

The cache entries are never removed (`observed_runGossip`), every accepted verification has
recorded its keys (`acceptedObserved_runGossip`), and a verification that starts after one of
its keys was recorded is rejected (`not_accepted_of_observed_at_start`); a serial execution
therefore accepts at most one verification per key (`acceptedOnce_serialSchedule`). Between the
two sections of one verification, another may pass its check on the same key: both are then
accepted (`race_accepts_both`). -/

namespace Vibehouse

/-- `PayloadAttestationError`; the nested chain and state errors are not modelled. -/
inductive PayloadAttestationError
  | futureSlot (attestationSlot latestPermissibleSlot : Slot)
  | pastSlot (attestationSlot earliestPermissibleSlot : Slot)
  | unknownBeaconBlockRoot (root : Hash256)
  | validatorEquivocation (validatorIndex : Nat) (slot : Slot) (beaconBlockRoot : Hash256)
  | invalidAggregationBits
  | invalidSignature
  | emptyAggregationBits
  | duplicateAttestation (validatorIndex : Nat) (slot : Slot)
  | ptcCommitteeError (slot : Slot)
  | beaconChainError
  | beaconStateError
  deriving DecidableEq, Repr

/-- `PayloadEnvelopeError`; the nested chain error is not modelled. -/
inductive PayloadEnvelopeError
  | blockRootUnknown (blockRoot : Hash256)
  | slotMismatch (blockSlot envelopeSlot : Slot)
  | builderIndexMismatch (committedBid envelope : BuilderIndex)
  | blockHashMismatch (committedBid envelope : ExecutionBlockHash)
  | invalidSignature
  | missingBeaconBlock (blockRoot : Hash256)
  | notGloasBlock (blockRoot : Hash256)
  | priorToFinalization (envelopeSlot finalizedSlot : Slot)
  | duplicateEnvelope (blockRoot : Hash256)
  | beaconChainError
  deriving DecidableEq, Repr

/-- A payload attestation received on gossip, with the results of the checks that read only
the fixed head state. -/
structure PayloadAttestationGossip where
  slot : Slot
  beaconBlockRoot : Hash256
  payloadPresent : Bool
  /-- Checks 1 to 4 and the PTC committee: the indexed attesting indices, or the error. -/
  indexedAttestationIndices : Except PayloadAttestationError (List Nat)
  /-- Check 6: the signature set is built and verifies. -/
  signatureValid : Bool
  deriving DecidableEq, Repr

/-- A payload envelope received on gossip, with the results of the checks that read only the
fixed fork choice, store and head state. -/
structure PayloadEnvelopeGossip where
  beaconBlockRoot : Hash256
  /-- Check 1: fork choice knows the block. -/
  blockKnown : Bool
  /-- Checks 2 to 6, the signature included. -/
  validation : Except PayloadEnvelopeError Unit
  deriving DecidableEq, Repr

namespace ObservedPayloadAttestations

/-- Check 5, under the lock: the first index whose attestation is not new decides the error. -/
def checkIndices (o : ObservedPayloadAttestations) (slot : Slot) (beaconBlockRoot : Hash256)
    (payloadPresent : Bool) : List Nat → Except PayloadAttestationError Unit
  | [] => .ok ()
  | validatorIndex :: rest =>
    match o.checkAttestation slot beaconBlockRoot validatorIndex payloadPresent with
    | .new => checkIndices o slot beaconBlockRoot payloadPresent rest
    | .duplicate => .error (.duplicateAttestation validatorIndex slot)
    | .equivocation .. => .error (.validatorEquivocation validatorIndex slot beaconBlockRoot)

/-- Check 7, under the lock: every index is observed and the outcomes are ignored. -/
def observeIndices (o : ObservedPayloadAttestations) (slot : Slot) (beaconBlockRoot : Hash256)
    (payloadPresent : Bool) (indices : List Nat) : ObservedPayloadAttestations :=
  indices.foldl (fun o validatorIndex =>
    (o.observeAttestation slot beaconBlockRoot validatorIndex payloadPresent).2) o

variable {o : ObservedPayloadAttestations} {slot : Slot} {beaconBlockRoot : Hash256}
  {payloadPresent : Bool}

theorem observeIndices_cons (o : ObservedPayloadAttestations) (v : Nat) (rest : List Nat) :
    o.observeIndices slot beaconBlockRoot payloadPresent (v :: rest) =
      (o.observeAttestation slot beaconBlockRoot v payloadPresent).2.observeIndices slot
        beaconBlockRoot payloadPresent rest := rfl

theorem checkIndices_eq_ok_iff {indices : List Nat} :
    o.checkIndices slot beaconBlockRoot payloadPresent indices = .ok () ↔
      ∀ v ∈ indices, o.observedAttestations.lookup ⟨slot, beaconBlockRoot, v⟩ = none := by
  induction indices with
  | nil => simp [checkIndices]
  | cons v rest ih =>
    rw [checkIndices, List.forall_mem_cons, ← ih,
      ← @checkAttestation_eq_new_iff o slot beaconBlockRoot v payloadPresent]
    cases o.checkAttestation slot beaconBlockRoot v payloadPresent <;> simp

/-- Observing keeps every recorded key. -/
theorem isSome_lookup_observeIndices {k : AttestationKey} :
    ∀ {o : ObservedPayloadAttestations} {indices : List Nat}, (o.observedAttestations.lookup k).isSome →
      ((o.observeIndices slot beaconBlockRoot payloadPresent indices).observedAttestations.lookup k).isSome
  | _, [], h => h
  | o, _ :: rest, h => by
    obtain ⟨b, hb⟩ := Option.isSome_iff_exists.1 h
    rw [observeIndices_cons]
    exact isSome_lookup_observeIndices (by rw [lookup_observeAttestation_of_eq_some hb]; rfl)

/-- Observing records every index. -/
theorem isSome_lookup_observeIndices_of_mem {v : Nat} :
    ∀ {o : ObservedPayloadAttestations} {indices : List Nat}, v ∈ indices →
      ((o.observeIndices slot beaconBlockRoot payloadPresent indices).observedAttestations.lookup
        ⟨slot, beaconBlockRoot, v⟩).isSome
  | o, w :: rest, h => by
    rw [observeIndices_cons]
    rcases List.mem_cons.1 h with rfl | h
    · exact isSome_lookup_observeIndices lookup_observeAttestation_self
    · exact isSome_lookup_observeIndices_of_mem h

end ObservedPayloadAttestations

namespace PayloadAttestationGossip

/-- The attesting indices, once checks 1 to 4 have passed. -/
def attestingIndices (a : PayloadAttestationGossip) : List Nat :=
  match a.indexedAttestationIndices with
  | .ok indices => indices
  | .error _ => []

/-- Checks 1 to 6 of `verify_payload_attestation_for_gossip`: all but the recording. -/
def verifyUnrecorded (a : PayloadAttestationGossip) (o : ObservedPayloadAttestations) :
    Except PayloadAttestationError Unit :=
  match a.indexedAttestationIndices with
  | .error e => .error e
  | .ok indices =>
    if indices.isEmpty then .error .emptyAggregationBits
    else
      match o.checkIndices a.slot a.beaconBlockRoot a.payloadPresent indices with
      | .error e => .error e
      | .ok () => if a.signatureValid then .ok () else .error .invalidSignature

/-- Check 7 of `verify_payload_attestation_for_gossip`. -/
def record (a : PayloadAttestationGossip) (o : ObservedPayloadAttestations) :
    ObservedPayloadAttestations :=
  o.observeIndices a.slot a.beaconBlockRoot a.payloadPresent a.attestingIndices

/-- An attestation whose key is recorded fails its checks. -/
theorem verifyUnrecorded_ne_ok {a : PayloadAttestationGossip} {o : ObservedPayloadAttestations}
    {v : Nat} (hv : v ∈ a.attestingIndices)
    (hobs : (o.observedAttestations.lookup ⟨a.slot, a.beaconBlockRoot, v⟩).isSome) :
    a.verifyUnrecorded o ≠ .ok () := by
  unfold attestingIndices at hv
  unfold verifyUnrecorded
  rcases hi : a.indexedAttestationIndices with e | indices
  · simp
  · rw [hi] at hv
    have hne : indices.isEmpty = false := List.isEmpty_eq_false_iff_exists_mem.2 ⟨v, hv⟩
    have hcheck : o.checkIndices a.slot a.beaconBlockRoot a.payloadPresent indices ≠ .ok () := by
      rw [Ne, ObservedPayloadAttestations.checkIndices_eq_ok_iff]
      intro h
      rw [h v hv] at hobs
      cases hobs
    dsimp only
    rw [hne, if_neg Bool.false_ne_true]
    rcases hc : o.checkIndices a.slot a.beaconBlockRoot a.payloadPresent indices with e | u
    · simp
    · exact absurd hc hcheck

end PayloadAttestationGossip

namespace PayloadEnvelopeGossip

/-- Checks 1 to 6 of `verify_payload_envelope_for_gossip`: all but the recording. -/
def verifyUnrecorded (e : PayloadEnvelopeGossip) (o : ObservedPayloadEnvelopes) :
    Except PayloadEnvelopeError Unit :=
  if !e.blockKnown then .error (.blockRootUnknown e.beaconBlockRoot)
  else if o.isKnown e.beaconBlockRoot then .error (.duplicateEnvelope e.beaconBlockRoot)
  else e.validation

theorem verifyUnrecorded_ne_ok {e : PayloadEnvelopeGossip} {o : ObservedPayloadEnvelopes}
    (hobs : o.isKnown e.beaconBlockRoot = true) : e.verifyUnrecorded o ≠ .ok () := by
  unfold verifyUnrecorded
  cases e.blockKnown <;> simp [hobs]

end PayloadEnvelopeGossip

/-- The two caches, each behind its own mutex. -/
structure GossipCaches where
  observedPayloadAttestations : ObservedPayloadAttestations
  observedPayloadEnvelopes : ObservedPayloadEnvelopes
  deriving DecidableEq, Repr

/-- What the deduplication is keyed by: an attester at a slot and block, or a block root. -/
inductive GossipKey
  | payloadAttestation (key : AttestationKey)
  | payloadEnvelope (beaconBlockRoot : Hash256)
  deriving DecidableEq, Repr

/-- A key is recorded in the caches. -/
def GossipCaches.Observed (g : GossipCaches) : GossipKey → Prop
  | .payloadAttestation k => (g.observedPayloadAttestations.observedAttestations.lookup k).isSome
  | .payloadEnvelope r => g.observedPayloadEnvelopes.isKnown r = true

inductive GossipMessage
  | payloadAttestation (a : PayloadAttestationGossip)
  | payloadEnvelope (e : PayloadEnvelopeGossip)
  deriving DecidableEq, Repr

inductive GossipError
  | payloadAttestation (e : PayloadAttestationError)
  | payloadEnvelope (e : PayloadEnvelopeError)
  deriving DecidableEq, Repr

namespace GossipMessage

/-- The keys a message is deduplicated by: one per attesting index, or its block root. -/
def keys : GossipMessage → List GossipKey
  | .payloadAttestation a =>
    a.attestingIndices.map fun v => .payloadAttestation ⟨a.slot, a.beaconBlockRoot, v⟩
  | .payloadEnvelope e => [.payloadEnvelope e.beaconBlockRoot]

/-- The first section: every check, with the read of the message's cache. -/
def verifyUnrecorded (g : GossipCaches) : GossipMessage → Except GossipError Unit
  | .payloadAttestation a =>
    (a.verifyUnrecorded g.observedPayloadAttestations).mapError .payloadAttestation
  | .payloadEnvelope e =>
    (e.verifyUnrecorded g.observedPayloadEnvelopes).mapError .payloadEnvelope

/-- The second section: the message is recorded in its cache. -/
def record (g : GossipCaches) : GossipMessage → GossipCaches
  | .payloadAttestation a =>
    { g with observedPayloadAttestations := a.record g.observedPayloadAttestations }
  | .payloadEnvelope e =>
    { g with observedPayloadEnvelopes :=
        g.observedPayloadEnvelopes.observeEnvelope e.beaconBlockRoot }

/-- `verify_payload_attestation_for_gossip` or `verify_payload_envelope_for_gossip` run alone:
the checks and, when they pass, the recording. -/
def verify (g : GossipCaches) (m : GossipMessage) : Except GossipError Unit × GossipCaches :=
  match m.verifyUnrecorded g with
  | .error e => (.error e, g)
  | .ok () => (.ok (), m.record g)

variable {g : GossipCaches} {k : GossipKey}

theorem verify_fst_eq_ok_iff {m : GossipMessage} :
    (m.verify g).1 = .ok () ↔ m.verifyUnrecorded g = .ok () := by
  unfold verify
  split <;> simp_all

theorem observed_record (m : GossipMessage) (h : g.Observed k) : (m.record g).Observed k := by
  cases m with
  | payloadAttestation a =>
    cases k with
    | payloadAttestation k =>
      exact ObservedPayloadAttestations.isSome_lookup_observeIndices h
    | payloadEnvelope r => exact h
  | payloadEnvelope e =>
    cases k with
    | payloadAttestation k => exact h
    | payloadEnvelope r =>
      simp only [GossipCaches.Observed, record] at h ⊢
      simp [h]

theorem observed_record_of_mem {m : GossipMessage} (hk : k ∈ m.keys) : (m.record g).Observed k := by
  cases m with
  | payloadAttestation a =>
    obtain ⟨v, hv, rfl⟩ := List.mem_map.1 hk
    exact ObservedPayloadAttestations.isSome_lookup_observeIndices_of_mem hv
  | payloadEnvelope e =>
    rw [keys, List.mem_singleton] at hk
    subst hk
    simp [GossipCaches.Observed, record]

/-- A message one of whose keys is recorded fails its first section. -/
theorem verifyUnrecorded_ne_ok {m : GossipMessage} (hk : k ∈ m.keys) (h : g.Observed k) :
    m.verifyUnrecorded g ≠ .ok () := by
  cases m with
  | payloadAttestation a =>
    obtain ⟨v, hv, rfl⟩ := List.mem_map.1 hk
    have hne := PayloadAttestationGossip.verifyUnrecorded_ne_ok hv h
    cases hr : a.verifyUnrecorded g.observedPayloadAttestations with
    | error e => simp [verifyUnrecorded, Except.mapError, hr]
    | ok u => exact absurd hr hne
  | payloadEnvelope e =>
    rw [keys, List.mem_singleton] at hk
    subst hk
    have hne := PayloadEnvelopeGossip.verifyUnrecorded_ne_ok (e := e) h
    cases hr : e.verifyUnrecorded g.observedPayloadEnvelopes with
    | error err => simp [verifyUnrecorded, Except.mapError, hr]
    | ok u => exact absurd hr hne

end GossipMessage

/-- Where a verification stands: before its first section, between the two, or returned. -/
inductive Phase
  | start
  | verified
  | finished (result : Except GossipError Unit)
  deriving DecidableEq, Repr

/-- One running verification. -/
@[ext] structure Verification where
  message : GossipMessage
  phase : Phase
  deriving DecidableEq, Repr

namespace Verification

/-- The next atomic section of a verification; a returned one has none. -/
def step (g : GossipCaches) (t : Verification) : Option (GossipCaches × Verification) :=
  match t.phase with
  | .start =>
    some (g, ⟨t.message, match t.message.verifyUnrecorded g with
      | .ok () => .verified
      | .error e => .finished (.error e)⟩)
  | .verified => some (t.message.record g, ⟨t.message, .finished (.ok ())⟩)
  | .finished _ => none

/-- The verification returned `Ok`. -/
def Accepted (t : Verification) : Prop := t.phase = .finished (.ok ())

instance : DecidablePred Accepted := fun t => inferInstanceAs (Decidable (t.phase = _))

variable {g g' : GossipCaches} {t t' : Verification}

/-- What a section can do. -/
theorem step_eq_some (h : step g t = some (g', t')) :
    t'.message = t.message ∧
      ((t.phase = .start ∧ g' = g ∧
        (t'.phase = .verified ∧ t.message.verifyUnrecorded g = .ok () ∨
          ∃ e, t'.phase = .finished (.error e) ∧ t.message.verifyUnrecorded g = .error e)) ∨
      (t.phase = .verified ∧ g' = t.message.record g ∧ t'.phase = .finished (.ok ()))) := by
  obtain ⟨m, phase⟩ := t
  cases phase with
  | start =>
    simp only [step, Option.some.injEq, Prod.mk.injEq] at h
    obtain ⟨rfl, rfl⟩ := h
    refine ⟨rfl, .inl ⟨rfl, rfl, ?_⟩⟩
    cases m.verifyUnrecorded g with
    | ok u => exact .inl ⟨rfl, rfl⟩
    | error e => exact .inr ⟨e, rfl, rfl⟩
  | verified =>
    simp only [step, Option.some.injEq, Prod.mk.injEq] at h
    obtain ⟨rfl, rfl⟩ := h
    exact ⟨rfl, .inr ⟨rfl, rfl, rfl⟩⟩
  | finished r => cases h

theorem step_start_of_ok {m : GossipMessage} (h : m.verifyUnrecorded g = .ok ()) :
    step g ⟨m, .start⟩ = some (g, ⟨m, .verified⟩) := by
  simp [step, h]

theorem step_start_of_error {m : GossipMessage} {e : GossipError}
    (h : m.verifyUnrecorded g = .error e) :
    step g ⟨m, .start⟩ = some (g, ⟨m, .finished (.error e)⟩) := by
  simp [step, h]

theorem step_verified (m : GossipMessage) :
    step g ⟨m, .verified⟩ = some (m.record g, ⟨m, .finished (.ok ())⟩) := rfl

@[simp] theorem step_finished (m : GossipMessage) (r : Except GossipError Unit) :
    step g ⟨m, .finished r⟩ = none := rfl

theorem observed_step {k : GossipKey} (h : step g t = some (g', t')) (hk : g.Observed k) :
    g'.Observed k := by
  obtain ⟨-, ⟨-, rfl, -⟩ | ⟨-, rfl, -⟩⟩ := step_eq_some h
  · exact hk
  · exact t.message.observed_record hk

end Verification

open Interleaving

/-- Concurrent verifications over the caches. -/
abbrev GossipConfig := Config GossipCaches Verification

/-- The caches and verifications after a schedule of sections. -/
def runGossip (c : GossipConfig) (sched : List Nat) : GossipConfig :=
  run Verification.step c sched

section Runs

variable {c : GossipConfig} {k : GossipKey}

/-- Recorded keys stay recorded through every interleaving. -/
theorem observed_runGossip (hk : c.shared.Observed k) (sched : List Nat) :
    (runGossip c sched).shared.Observed k := by
  refine run_induction (fun c : GossipConfig => c.shared.Observed k) (fun c i hc => ?_) sched hk
  exact stepAt_induction (fun c : GossipConfig => c.shared.Observed k) hc
    fun _ _ _ _ hs => Verification.observed_step hs hc

/-- Run alone, a verification computes the source function: its two sections back to back. -/
theorem runGossip_pair {i : Nat} {m : GossipMessage} (hi : c.threads[i]? = some ⟨m, .start⟩) :
    runGossip c [i, i] =
      ⟨(m.verify c.shared).2, c.threads.set i ⟨m, .finished (m.verify c.shared).1⟩⟩ := by
  have hlt : i < c.threads.length := (List.getElem?_eq_some_iff.1 hi).1
  rw [runGossip, run_cons, run_cons, run_nil]
  rcases hv : m.verifyUnrecorded c.shared with e | ⟨⟩
  · rw [stepAt_of_step hi (Verification.step_start_of_error hv),
      stepAt_of_step_eq_none (List.getElem?_set_self hlt) (Verification.step_finished _ _)]
    simp [GossipMessage.verify, hv]
  · rw [stepAt_of_step hi (Verification.step_start_of_ok hv),
      stepAt_of_step (List.getElem?_set_self hlt) (Verification.step_verified _), List.set_set]
    simp [GossipMessage.verify, hv]

/-- Every accepted verification has recorded its keys. -/
def AcceptedObserved (c : GossipConfig) : Prop :=
  ∀ (i : Nat) (t : Verification), c.threads[i]? = some t → t.Accepted →
    ∀ k ∈ t.message.keys, c.shared.Observed k

theorem acceptedObserved_stepAt (h : AcceptedObserved c) (i : Nat) :
    AcceptedObserved (stepAt Verification.step c i) := by
  refine stepAt_induction AcceptedObserved h ?_
  intro t g t' ht hs
  unfold AcceptedObserved
  intro j tj hj hacc k hk
  obtain ⟨hmsg, hcases⟩ := Verification.step_eq_some hs
  by_cases hij : i = j
  · subst hij
    have hlt : i < c.threads.length := (List.getElem?_eq_some_iff.1 ht).1
    rw [List.getElem?_set_self hlt, Option.some.injEq] at hj
    subst hj
    rcases hcases with ⟨-, -, ⟨hv, -⟩ | ⟨e, he, -⟩⟩ | ⟨-, rfl, -⟩
    · rw [Verification.Accepted, hv] at hacc
      cases hacc
    · rw [Verification.Accepted, he] at hacc
      cases hacc
    · rw [hmsg] at hk
      exact t.message.observed_record_of_mem hk
  · rw [List.getElem?_set_ne hij] at hj
    exact Verification.observed_step hs (h j tj hj hacc k hk)

theorem acceptedObserved_runGossip (h : AcceptedObserved c) (sched : List Nat) :
    AcceptedObserved (runGossip c sched) :=
  run_induction AcceptedObserved (fun _ i hc => acceptedObserved_stepAt hc i) sched h

/-- Key `k` is recorded, and thread `b`, which runs `m`, has not started or has returned an
error. -/
def Blocked (k : GossipKey) (b : Nat) (m : GossipMessage) (c : GossipConfig) : Prop :=
  c.shared.Observed k ∧
    (c.threads[b]? = some ⟨m, .start⟩ ∨ ∃ e, c.threads[b]? = some ⟨m, .finished (.error e)⟩)

theorem blocked_stepAt {b : Nat} {m : GossipMessage} (hk : k ∈ m.keys) (h : Blocked k b m c)
    (i : Nat) : Blocked k b m (stepAt Verification.step c i) := by
  refine stepAt_induction (Blocked k b m) h ?_
  intro t g t' ht hs
  refine ⟨Verification.observed_step hs h.1, ?_⟩
  obtain ⟨hmsg, hcases⟩ := Verification.step_eq_some hs
  by_cases hib : i = b
  · subst hib
    rw [List.getElem?_set_self (List.getElem?_eq_some_iff.1 ht).1]
    rcases h.2 with hb | ⟨e, hb⟩
    · rw [hb, Option.some.injEq] at ht
      subst ht
      -- the first section reads the recorded key
      rcases hcases with ⟨-, -, ⟨-, hv⟩ | ⟨e, he, -⟩⟩ | ⟨hp, -, -⟩
      · exact absurd hv (GossipMessage.verifyUnrecorded_ne_ok hk h.1)
      · exact .inr ⟨e, congrArg some (Verification.ext hmsg he)⟩
      · cases hp
    · rw [hb, Option.some.injEq] at ht
      subst ht
      cases hs
  · rw [List.getElem?_set_ne hib]
    exact h.2

/-- A verification that has not started when one of its keys is recorded is never accepted,
whatever the interleaving. -/
theorem not_accepted_of_observed_at_start {b : Nat} {m : GossipMessage} (hk : k ∈ m.keys)
    (hobs : c.shared.Observed k) (hb : c.threads[b]? = some ⟨m, .start⟩) (sched : List Nat)
    {tb : Verification} (htb : (runGossip c sched).threads[b]? = some tb) : ¬ tb.Accepted := by
  obtain ⟨-, hs | ⟨e, hs⟩⟩ :=
    run_induction (Blocked k b m) (fun c i h => blocked_stepAt hk h i) sched ⟨hobs, .inl hb⟩
  · rw [runGossip, hs, Option.some.injEq] at htb
    subst htb
    simp [Verification.Accepted]
  · rw [runGossip, hs, Option.some.injEq] at htb
    subst htb
    simp [Verification.Accepted]

/-- At most one accepted verification carries the key `k`. -/
def AcceptedOnce (c : GossipConfig) (k : GossipKey) : Prop :=
  ∀ (i j : Nat) (ti tj : Verification), c.threads[i]? = some ti → c.threads[j]? = some tj →
    ti.Accepted → tj.Accepted → k ∈ ti.message.keys → k ∈ tj.message.keys → i = j

/-- A verification run alone, after the others have returned, keeps each key accepted at most
once: an accepted verification has recorded its keys, and these fail the new one's check. -/
theorem acceptedOnce_pair {i : Nat} (h1 : AcceptedOnce c k) (h2 : AcceptedObserved c)
    (hi : ∀ t, c.threads[i]? = some t → t.phase = .start) :
    AcceptedOnce (runGossip c [i, i]) k := by
  rcases hci : c.threads[i]? with _ | ⟨m, phase⟩
  · rwa [runGossip, run_cons, run_cons, run_nil, stepAt_of_getElem?_eq_none hci,
      stepAt_of_getElem?_eq_none hci]
  obtain rfl : phase = .start := hi _ hci
  have hlt : i < c.threads.length := (List.getElem?_eq_some_iff.1 hci).1
  -- thread `i` is the only one that changed, and it is accepted only if its check passed
  have hnew : ∀ (x : Nat) (tx : Verification), (c.threads.set i ⟨m, .finished (m.verify c.shared).1⟩)[x]? = some tx →
      x = i ∧ tx = ⟨m, .finished (m.verify c.shared).1⟩ ∨ x ≠ i ∧ c.threads[x]? = some tx := by
    intro x tx hx
    by_cases hxi : x = i
    · subst hxi
      rw [List.getElem?_set_self hlt, Option.some.injEq] at hx
      exact .inl ⟨rfl, hx.symm⟩
    · rw [List.getElem?_set_ne (Ne.symm hxi)] at hx
      exact .inr ⟨hxi, hx⟩
  have hfresh : ∀ (j : Nat) (tj : Verification), c.threads[j]? = some tj → tj.Accepted → k ∈ tj.message.keys →
      (m.verify c.shared).1 = .ok () → k ∉ m.keys := fun j tj hj hacc hk hok hkm =>
    GossipMessage.verifyUnrecorded_ne_ok hkm (h2 j tj hj hacc k hk)
      (GossipMessage.verify_fst_eq_ok_iff.1 hok)
  rw [runGossip_pair hci]
  intro x y tx ty hx hy hax hay hkx hky
  rcases hnew x tx hx with ⟨rfl, rfl⟩ | ⟨-, hx'⟩ <;>
    rcases hnew y ty hy with ⟨rfl, rfl⟩ | ⟨-, hy'⟩
  · rfl
  · exact absurd hkx (hfresh y ty hy' hay hky (Phase.finished.inj hax))
  · exact absurd hky (hfresh x tx hx' hax hkx (Phase.finished.inj hay))
  · exact h1 x y tx ty hx' hy' hax hay hkx hky

theorem acceptedOnce_serial : ∀ {c : GossipConfig} {order : List Nat}, order.Nodup →
    (∀ i ∈ order, ∀ t, c.threads[i]? = some t → t.phase = .start) →
    AcceptedOnce c k → AcceptedObserved c → AcceptedOnce (runGossip c (serialSchedule 2 order)) k
  | _, [], _, _, h1, _ => h1
  | c, i :: order, hnd, hs, h1, h2 => by
    rw [List.nodup_cons] at hnd
    have hrest : ∀ j ∈ order, ∀ t, (runGossip c [i, i]).threads[j]? = some t → t.phase = .start := by
      intro j hj t ht
      have hji : j ∉ [i, i] := by
        simp only [List.mem_cons, List.not_mem_nil, or_false, or_self]
        rintro rfl
        exact hnd.1 hj
      rw [runGossip, getElem?_run_of_not_mem hji] at ht
      exact hs j (List.mem_cons_of_mem _ hj) t ht
    have h := acceptedOnce_serial hnd.2 hrest (acceptedOnce_pair h1 h2 (hs i List.mem_cons_self))
      (acceptedObserved_runGossip h2 _)
    rw [serialSchedule_cons, show List.replicate 2 i = [i, i] from rfl, runGossip, run_append]
    exact h

/-- Run one after another from their start, the verifications accept at most one message per
key. -/
theorem acceptedOnce_serialSchedule {order : List Nat} (hnd : order.Nodup)
    (hstart : ∀ (i : Nat) (t : Verification), c.threads[i]? = some t → t.phase = .start)
    (k : GossipKey) : AcceptedOnce (runGossip c (serialSchedule 2 order)) k := by
  have hnone : ∀ (i : Nat) (t : Verification), c.threads[i]? = some t → ¬ t.Accepted := by
    intro i t ht hacc
    rw [Verification.Accepted, hstart i t ht] at hacc
    cases hacc
  exact acceptedOnce_serial hnd (fun i _ => hstart i)
    (fun i _ ti _ hi _ hai => absurd hai (hnone i ti hi))
    (fun i t ht hacc => absurd hacc (hnone i t ht))

/-- Two verifications that pass their checks against the same caches are both accepted when
each runs its check before the other records. -/
theorem race_accepts_both {a b : Nat} {ma mb : GossipMessage} (hab : a ≠ b)
    (ha : c.threads[a]? = some ⟨ma, .start⟩) (hb : c.threads[b]? = some ⟨mb, .start⟩)
    (hva : ma.verifyUnrecorded c.shared = .ok ()) (hvb : mb.verifyUnrecorded c.shared = .ok ()) :
    (runGossip c [a, b, a, b]).threads[a]? = some ⟨ma, .finished (.ok ())⟩ ∧
      (runGossip c [a, b, a, b]).threads[b]? = some ⟨mb, .finished (.ok ())⟩ := by
  have hla : a < c.threads.length := (List.getElem?_eq_some_iff.1 ha).1
  have hlb : b < c.threads.length := (List.getElem?_eq_some_iff.1 hb).1
  -- both checks read the caches before either message is recorded
  have h₁ : stepAt Verification.step c a = ⟨c.shared, c.threads.set a ⟨ma, .verified⟩⟩ :=
    stepAt_of_step ha (Verification.step_start_of_ok hva)
  have h₂ : stepAt Verification.step ⟨c.shared, c.threads.set a ⟨ma, .verified⟩⟩ b =
      ⟨c.shared, (c.threads.set a ⟨ma, .verified⟩).set b ⟨mb, .verified⟩⟩ :=
    stepAt_of_step (by rwa [List.getElem?_set_ne hab]) (Verification.step_start_of_ok hvb)
  have h₃ : stepAt Verification.step
      ⟨c.shared, (c.threads.set a ⟨ma, .verified⟩).set b ⟨mb, .verified⟩⟩ a =
      ⟨ma.record c.shared, ((c.threads.set a ⟨ma, .verified⟩).set b ⟨mb, .verified⟩).set a
        ⟨ma, .finished (.ok ())⟩⟩ :=
    stepAt_of_step (by rw [List.getElem?_set_ne (Ne.symm hab), List.getElem?_set_self hla])
      (Verification.step_verified _)
  have h₄ : stepAt Verification.step
      ⟨ma.record c.shared, ((c.threads.set a ⟨ma, .verified⟩).set b ⟨mb, .verified⟩).set a
        ⟨ma, .finished (.ok ())⟩⟩ b =
      ⟨mb.record (ma.record c.shared), (((c.threads.set a ⟨ma, .verified⟩).set b
        ⟨mb, .verified⟩).set a ⟨ma, .finished (.ok ())⟩).set b ⟨mb, .finished (.ok ())⟩⟩ :=
    stepAt_of_step (by rw [List.getElem?_set_ne hab, List.getElem?_set_self (by simpa using hlb)])
      (Verification.step_verified _)
  rw [runGossip, run_cons, run_cons, run_cons, run_cons, run_nil, h₁, h₂, h₃, h₄]
  simp [Ne.symm hab, hla, hlb]

end Runs

/-- Two attestations of validator 0 for block 2 at slot 1 that disagree on the payload, and two
envelopes for block 2, all of them valid, against empty caches. -/
def racingGossip : GossipConfig :=
  ⟨⟨⟨[]⟩, ⟨[]⟩⟩,
    [⟨.payloadAttestation ⟨1, 2, true, .ok [0], true⟩, .start⟩,
      ⟨.payloadAttestation ⟨1, 2, false, .ok [0], true⟩, .start⟩,
      ⟨.payloadEnvelope ⟨2, true, .ok ()⟩, .start⟩,
      ⟨.payloadEnvelope ⟨2, true, .ok ()⟩, .start⟩]⟩

example : (runGossip racingGossip (serialSchedule 2 [0, 1, 2, 3])).threads.map Verification.phase =
    [.finished (.ok ()),
      .finished (.error (.payloadAttestation (.validatorEquivocation 0 1 2))),
      .finished (.ok ()),
      .finished (.error (.payloadEnvelope (.duplicateEnvelope 2)))] := by
  decide

/-- Each check runs before the other message of its pair is recorded: all four are accepted. -/
theorem racingGossip_accepted_twice :
    (runGossip racingGossip [0, 1, 0, 1, 2, 3, 2, 3]).threads.map Verification.phase =
        List.replicate 4 (.finished (.ok ())) ∧
      ¬ AcceptedOnce (runGossip racingGossip [0, 1, 0, 1, 2, 3, 2, 3]) (.payloadAttestation ⟨1, 2, 0⟩) ∧
      ¬ AcceptedOnce (runGossip racingGossip [0, 1, 0, 1, 2, 3, 2, 3]) (.payloadEnvelope 2) := by
  have hrun : (runGossip racingGossip [0, 1, 0, 1, 2, 3, 2, 3]).threads =
      racingGossip.threads.map fun t => ⟨t.message, .finished (.ok ())⟩ := by
    decide
  refine ⟨by rw [hrun]; rfl, fun h => ?_, fun h => ?_⟩
  · have h01 := h 0 1 ⟨.payloadAttestation ⟨1, 2, true, .ok [0], true⟩, .finished (.ok ())⟩
      ⟨.payloadAttestation ⟨1, 2, false, .ok [0], true⟩, .finished (.ok ())⟩
      (by rw [hrun]; rfl) (by rw [hrun]; rfl) rfl rfl (by decide) (by decide)
    exact absurd h01 (by decide)
  · have h23 := h 2 3 ⟨.payloadEnvelope ⟨2, true, .ok ()⟩, .finished (.ok ())⟩
      ⟨.payloadEnvelope ⟨2, true, .ok ()⟩, .finished (.ok ())⟩
      (by rw [hrun]; rfl) (by rw [hrun]; rfl) rfl rfl (by decide) (by decide)
    exact absurd h23 (by decide)

end Vibehouse
