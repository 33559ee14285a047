import Vibehouse.ProtoArray.Types

/-! # The caches of observed payload attestations and payload envelopes

`observed_payload_attestations.rs` keeps, for each `(slot, beacon_block_root,
validator_index)`, the `payload_present` value of the first attestation recorded for it;
`observed_payload_envelopes.rs` keeps the block roots whose envelope was accepted. The hash map
is an association list and the hash set a list. The slot set and the insertion order serve
only pruning (`prune`), which no modelled function calls; they are left out.

An entry, once recorded, never changes (`lookup_observeAttestation`,
`isKnown_observeEnvelope`): this is what the gossip checks rely on. -/

namespace Vibehouse

/-- `AttestationKey`. -/
structure AttestationKey where
  slot : Slot
  beaconBlockRoot : Hash256
  validatorIndex : Nat
  deriving DecidableEq, Repr

/-- `AttestationObservationOutcome`. -/
inductive AttestationObservationOutcome
  | new
  | duplicate
  | equivocation (existingPayloadPresent newPayloadPresent : Bool)
  deriving DecidableEq, Repr

/-- `ObservedPayloadAttestations`: `observed_attestations` only. -/
structure ObservedPayloadAttestations where
  observedAttestations : List (AttestationKey × Bool)
  deriving DecidableEq, Repr

namespace ObservedPayloadAttestations

/-- `check_attestation`: the outcome of an attestation, without recording it. -/
def checkAttestation (o : ObservedPayloadAttestations) (slot : Slot) (beaconBlockRoot : Hash256)
    (validatorIndex : Nat) (payloadPresent : Bool) : AttestationObservationOutcome :=
  match o.observedAttestations.lookup ⟨slot, beaconBlockRoot, validatorIndex⟩ with
  | none => .new
  | some existingPayloadPresent =>
    if existingPayloadPresent = payloadPresent then .duplicate
    else .equivocation existingPayloadPresent payloadPresent

/-- `observe_attestation`: the same outcome, and the key recorded when it was new. -/
def observeAttestation (o : ObservedPayloadAttestations) (slot : Slot) (beaconBlockRoot : Hash256)
    (validatorIndex : Nat) (payloadPresent : Bool) :
    AttestationObservationOutcome × ObservedPayloadAttestations :=
  let key : AttestationKey := ⟨slot, beaconBlockRoot, validatorIndex⟩
  match o.observedAttestations.lookup key with
  | none => (.new, ⟨(key, payloadPresent) :: o.observedAttestations⟩)
  | some existingPayloadPresent =>
    (if existingPayloadPresent = payloadPresent then .duplicate
      else .equivocation existingPayloadPresent payloadPresent, o)

variable {o : ObservedPayloadAttestations} {slot : Slot} {beaconBlockRoot : Hash256}
  {validatorIndex : Nat} {payloadPresent : Bool}

theorem checkAttestation_eq_new_iff :
    o.checkAttestation slot beaconBlockRoot validatorIndex payloadPresent = .new ↔
      o.observedAttestations.lookup ⟨slot, beaconBlockRoot, validatorIndex⟩ = none := by
  unfold checkAttestation
  rcases hl : o.observedAttestations.lookup ⟨slot, beaconBlockRoot, validatorIndex⟩ with _ | e
  · simp [hl]
  · by_cases he : e = payloadPresent <;> simp [hl, he]

/-- Recording keeps every entry and gives the observed key its value if it had none. -/
theorem lookup_observeAttestation (k : AttestationKey) :
    (o.observeAttestation slot beaconBlockRoot validatorIndex payloadPresent).2.observedAttestations.lookup k =
      (o.observedAttestations.lookup k).or
        (if k = ⟨slot, beaconBlockRoot, validatorIndex⟩ then some payloadPresent else none) := by
  unfold observeAttestation
  dsimp only
  split
  next hkey =>
    rw [List.lookup_cons]
    by_cases hk : k = ⟨slot, beaconBlockRoot, validatorIndex⟩
    · subst hk
      simp [hkey]
    · simp [hk, beq_false_of_ne hk]
  next e hkey =>
    by_cases hk : k = ⟨slot, beaconBlockRoot, validatorIndex⟩
    · subst hk
      simp [hkey]
    · simp [hk]

/-- A recorded key stays recorded, with its value. -/
theorem lookup_observeAttestation_of_eq_some {k : AttestationKey} {b : Bool}
    (h : o.observedAttestations.lookup k = some b) :
    (o.observeAttestation slot beaconBlockRoot validatorIndex payloadPresent).2.observedAttestations.lookup k =
      some b := by
  rw [lookup_observeAttestation, h, Option.some_or]

/-- The observed key is recorded afterwards. -/
theorem lookup_observeAttestation_self :
    ((o.observeAttestation slot beaconBlockRoot validatorIndex payloadPresent).2.observedAttestations.lookup
      ⟨slot, beaconBlockRoot, validatorIndex⟩).isSome := by
  rw [lookup_observeAttestation, if_pos rfl]
  cases o.observedAttestations.lookup ⟨slot, beaconBlockRoot, validatorIndex⟩ <;> rfl

end ObservedPayloadAttestations

/-- `ObservedPayloadEnvelopes`: `observed_roots` only. -/
structure ObservedPayloadEnvelopes where
  observedRoots : List Hash256
  deriving DecidableEq, Repr

namespace ObservedPayloadEnvelopes

/-- `is_known`. -/
def isKnown (o : ObservedPayloadEnvelopes) (beaconBlockRoot : Hash256) : Bool :=
  o.observedRoots.contains beaconBlockRoot

/-- `observe_envelope`. -/
def observeEnvelope (o : ObservedPayloadEnvelopes) (beaconBlockRoot : Hash256) :
    ObservedPayloadEnvelopes :=
  ⟨o.observedRoots.insert beaconBlockRoot⟩

@[simp] theorem isKnown_observeEnvelope (o : ObservedPayloadEnvelopes) (r r' : Hash256) :
    (o.observeEnvelope r).isKnown r' = (r' == r || o.isKnown r') :=
  List.contains_insert

end ObservedPayloadEnvelopes

end Vibehouse
