import Chtholly.Incremental.Artifacts
import Chtholly.Worklist.Closure

/-!
# Outcome descriptors

How a value, a task or a channel operation ends is described by states and the transitions between
them.  A descriptor is checked before it is used, and every transition of a descriptor has an effect
on the owner of the value.

## Main definitions

* `Outcome.OutcomeDescriptor`, `Outcome.OutcomeDescriptor.verify` — descriptors and their checks.
* `Outcome.OutcomeDescriptor.transitionEffect` — the effect of a transition.
-/

set_option autoImplicit false

namespace Chtholly

namespace Outcome

open Incremental (StableFingerprint)

inductive OutcomeCardinality
  | oneShot
  | multiSubmit
  | count
  deriving DecidableEq

inductive OutcomeArmKind
  | success
  | failure
  | cancelled
  | data
  | eof
  | closed
  | count
  deriving DecidableEq

inductive OutcomePhase
  | prepare
  | invoke
  | classify
  | publish
  | commit
  | cancel
  | consume
  | count
  deriving DecidableEq

inductive OutcomeState
  | pending
  | prepared
  | ready
  | committed
  | cancelled
  | failed
  | consumed
  | count
  deriving DecidableEq

instance : Fintype OutcomeState where
  elems := {.pending, .prepared, .ready, .committed, .cancelled, .failed, .consumed, .count}
  complete state := by
    cases state <;> simp

/-- `core::AnyId::InvalidIndex`. -/
def invalidIndex : ℕ := 2 ^ 32 - 1

structure OutcomePayload where
  lane : ℕ := invalidIndex
  typeFingerprint : StableFingerprint
  owned : Bool := false
  initializes : Bool := false
  invalidates : Bool := false
  deriving DecidableEq

structure OutcomeTransition where
  source : OutcomeState := .count
  target : OutcomeState := .count
  phase : OutcomePhase := .count
  consumesToken : Bool := false
  tokenLane : ℕ := invalidIndex
  deriving DecidableEq

inductive OutcomeEffect
  | none
  | preserveSource
  | moveSource
  | initializeDestination
  | consumePayload
  deriving DecidableEq

structure OutcomeTransitionEffect where
  source : OutcomeEffect := .none
  destination : OutcomeEffect := .none
  consumesToken : Bool := false
  deriving DecidableEq

/-- The epoch that the descriptors of this compiler have. -/
def currentSemanticEpoch : ℕ := 2

structure OutcomeDescriptor where
  cardinality : OutcomeCardinality := .count
  arms : List OutcomeArmKind := []
  payloads : List OutcomePayload := []
  transitions : List OutcomeTransition := []
  retainsOwnerUntilCommit : Bool := true
  cancellationIsTerminal : Bool := false
  semanticEpoch : ℕ := currentSemanticEpoch
  deriving DecidableEq

/-! ## The checks -/

/-- One turn over the lanes of the payloads. -/
def checkPayloads : List OutcomePayload → Except String Unit
  | [] => .ok ()
  | payload :: rest =>
    if payload.lane = invalidIndex then .error "outcome payload has invalid lane"
    else if payload.typeFingerprint.hasValue = false then
      .error "outcome payload has no stable type fingerprint"
    else checkPayloads rest

/-- `expected_edge`. -/
def expectedEdge (transition : OutcomeTransition) (phase : OutcomePhase)
    (source target : OutcomeState) : Bool :=
  decide (transition.phase ≠ phase) ||
    (decide (transition.source = source) && decide (transition.target = target))

/-- The state in which a payload is consumed. -/
def successState (cardinality : OutcomeCardinality) : OutcomeState :=
  if cardinality = .multiSubmit then .committed else .ready

def checkTransition (cardinality : OutcomeCardinality) (transition : OutcomeTransition) :
    Except String Unit :=
  if transition.source = .count ∨ transition.target = .count ∨ transition.phase = .count then
    .error "outcome descriptor has an invalid state transition"
  else if cardinality = .oneShot ∧ transition.consumesToken = true then
    .error "one-shot outcome cannot consume a multi-submit token"
  else if cardinality = .multiSubmit ∧ transition.consumesToken = true ∧
      transition.tokenLane = invalidIndex then
    .error "multi-submit transition has no token lane"
  else if transition.source = .consumed ∨ transition.source = .cancelled ∨
      transition.source = .failed then
    .error "outcome terminal state has an outgoing transition"
  else if expectedEdge transition .prepare .pending .prepared = false ∨
      expectedEdge transition .commit .prepared .committed = false ∨
      expectedEdge transition .consume (successState cardinality) .consumed = false then
    .error "outcome transition phase does not match its state edge"
  else .ok ()

def checkTransitions (cardinality : OutcomeCardinality) :
    List OutcomeTransition → Except String Unit
  | [] => .ok ()
  | transition :: rest =>
    match checkTransition cardinality transition with
    | .error message => .error message
    | .ok _ => checkTransitions cardinality rest

/-- The states that transitions lead to, from one on.  There are eight values, so the cursor takes at
most eight steps. -/
def reachable (transitions : List OutcomeTransition) (start : OutcomeState) : List OutcomeState :=
  Worklist.explore (fun state =>
    (transitions.filter fun t => decide (t.source = state)).map OutcomeTransition.target) 8 0 [start]

/-- Whether all transitions that consume a token have the lane `tokenLane`, which the first of them
gives when there is none yet. -/
def consistentLanes : Option ℕ → List OutcomeTransition → Bool
  | _, [] => true
  | tokenLane, transition :: rest =>
    if transition.consumesToken = false then consistentLanes tokenLane rest
    else
      match tokenLane with
      | none => consistentLanes (some transition.tokenLane) rest
      | some lane => if lane = transition.tokenLane then consistentLanes tokenLane rest else false

/-- A transition of the given edge and phase. -/
def hasEdge (transitions : List OutcomeTransition) (source target : OutcomeState)
    (phase : OutcomePhase) : Bool :=
  transitions.any fun t =>
    decide (t.source = source) && decide (t.target = target) && decide (t.phase = phase)

/-- The same, which consumes the token. -/
def hasTokenEdge (transitions : List OutcomeTransition) (source target : OutcomeState)
    (phase : OutcomePhase) : Bool :=
  transitions.any fun t =>
    decide (t.source = source) && decide (t.target = target) && decide (t.phase = phase) &&
      t.consumesToken

/-- The checks of outcomes that are submitted more than once. -/
def checkMultiSubmit (transitions : List OutcomeTransition) : Except String Unit :=
  if consistentLanes none transitions = false then
    .error "multi-submit transitions use inconsistent token lanes"
  else if hasTokenEdge transitions .pending .prepared .prepare = false ∨
      (transitions.any fun t =>
        decide (t.source = .prepared) && decide (t.target = .committed)) = false then
    .error "multi-submit outcome lacks prepare/commit transitions"
  else if hasEdge transitions .prepared .cancelled .cancel = false ∨
      hasEdge transitions .committed .consumed .consume = false then
    .error "multi-submit outcome lacks cancel/consume transitions"
  else if hasTokenEdge transitions .prepared .committed .commit = false ∨
      hasTokenEdge transitions .prepared .cancelled .cancel = false ∨
      hasTokenEdge transitions .committed .consumed .consume = false then
    .error "multi-submit terminal transitions must consume the token"
  else .ok ()

def checkOneShot (transitions : List OutcomeTransition) : Except String Unit :=
  if (transitions.countP fun t => decide (t.phase = .consume) && decide (t.source = .ready) &&
      decide (t.target = .consumed)) ≠ 1 then
    .error "one-shot outcome must have exactly one consume transition"
  else .ok ()

/-- The arms for which no successful state can be reached. -/
def missesSuccess (descriptor : OutcomeDescriptor) : Bool :=
  descriptor.arms.any fun arm =>
    (if arm = .cancelled then descriptor.cancellationIsTerminal else true) &&
      decide (successState descriptor.cardinality ∉ reachable descriptor.transitions .pending) &&
      decide (arm ≠ .cancelled)

namespace OutcomeDescriptor

/-- `verify`.  Duplicates are found in sorted copies in the source. -/
def verify (descriptor : OutcomeDescriptor) : Except String Unit :=
  if descriptor.cardinality = .count then
    .error "outcome descriptor has invalid cardinality"
  else if descriptor.semanticEpoch ≠ currentSemanticEpoch then
    .error "outcome descriptor has unsupported semantic epoch"
  else if descriptor.arms = [] then
    .error "outcome descriptor has no terminal arms"
  else if .count ∈ descriptor.arms then
    .error "outcome descriptor has an invalid arm"
  else if ¬descriptor.arms.Nodup then
    .error "outcome descriptor has duplicate terminal arms"
  else if .success ∉ descriptor.arms ∧ .data ∉ descriptor.arms ∧ .eof ∉ descriptor.arms then
    .error "outcome descriptor has no successful terminal arm"
  else
    match checkPayloads descriptor.payloads with
    | .error message => .error message
    | .ok _ =>
      if ¬(descriptor.payloads.map OutcomePayload.lane).Nodup then
        .error "outcome descriptor has duplicate payload lanes"
      else
        match checkTransitions descriptor.cardinality descriptor.transitions with
        | .error message => .error message
        | .ok _ =>
          if ¬descriptor.transitions.Nodup then
            .error "outcome descriptor has duplicate state transitions"
          else if missesSuccess descriptor = true then
            .error "outcome descriptor has no reachable success state"
          else if descriptor.cardinality = .multiSubmit then
            checkMultiSubmit descriptor.transitions
          else checkOneShot descriptor.transitions

/-! ## Effects -/

/-- What a transition of a phase does with the source. -/
def sourceEffect : OutcomePhase → OutcomeEffect
  | .prepare | .invoke | .classify | .publish => .preserveSource
  | .commit => .moveSource
  | .cancel => .preserveSource
  | .consume => .consumePayload
  | .count => .none

def transitionEffect (descriptor : OutcomeDescriptor) (transition : OutcomeTransition) :
    Option OutcomeTransitionEffect :=
  match descriptor.verify with
  | .error _ => none
  | .ok _ =>
    if transition ∈ descriptor.transitions then
      some
        { source := sourceEffect transition.phase
          consumesToken := transition.consumesToken }
    else none

end OutcomeDescriptor

/-- `makeChannelOutcome`. -/
def makeChannelOutcome : OutcomeDescriptor where
  cardinality := .multiSubmit
  arms := [.success, .failure, .closed, .cancelled]
  cancellationIsTerminal := true
  transitions :=
    [⟨.pending, .prepared, .prepare, true, 0⟩, ⟨.prepared, .committed, .commit, true, 0⟩,
      ⟨.prepared, .cancelled, .cancel, true, 0⟩, ⟨.committed, .consumed, .consume, true, 0⟩]

end Outcome

end Chtholly
