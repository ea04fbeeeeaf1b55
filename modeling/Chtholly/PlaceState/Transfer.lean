import Chtholly.PlaceState.State

set_option autoImplicit false

/-!
# The effect of straight-line instructions on place states

The state of the place-state analyzer and what it does for the instructions without control flow
(`PlaceStateAnalyzerPlace.inc`, `PlaceStateAnalyzerCleanup.inc`, `PlaceStateAnalyzerCall.inc` and the
straight-line cases of `analyzeBlock`). Tasks, suspensions and channels are left out.

## Main definitions

* `Chtholly.Analysis` — the members of the analyzer.
* `Chtholly.Analysis.observe`, `Chtholly.Analysis.initializeLocal`,
  `Chtholly.Analysis.reinitializePlace`, `Chtholly.Analysis.applyCallEffects` — the operations on
  places.
* `Chtholly.Analysis.appendLocalCleanup` — the cleanup of one local.
* `Chtholly.transfer` — a straight-line instruction.
-/

namespace Chtholly

/-! ## The members of the analyzer -/

/-- `CleanupRegistration`. -/
inductive CleanupRegistration where
  | loc (l : LocalId)
  | temporary (l : LocalId)
  | extended (l : LocalId)
  | defer (body : Block)

/-- The local of a registration that is not a deferred block. -/
def CleanupRegistration.local? : CleanupRegistration → Option LocalId
  | .loc l | .temporary l | .extended l => some l
  | .defer _ => none

/-- `PlaceCleanupAction`. -/
inductive PlaceCleanupAction where
  | destroy (root : LocalId) (path : PlacePath)
  | destroyIfInitialized (root : LocalId) (path : PlacePath)
  | endLifetime (l : LocalId)
  | runDefer (body : InstBlockId)
  deriving DecidableEq, Repr

/-- `PlaceCleanupPlan`. -/
abbrev PlaceCleanupPlan := List PlaceCleanupAction

/-- `OutcomeFact`: what a call that returns a variant of its result did to a place. -/
structure OutcomeFact where
  place : ResolvedPlace
  variant : Nat
  outcomes : CallableOutcomes
  revision : Nat
  before : Possibilities

/-- `LoopFlow`: how far an edge to a loop unwinds, and the join of the states on such edges. -/
structure LoopFlow where
  breakLocalDepth : Nat
  continueLocalDepth : Nat
  breakCleanupDepth : Nat
  continueCleanupDepth : Nat
  breaks : Option StateMap := none
  continues : Option StateMap := none

/-- The state in which the analysis reaches an instruction. The analyzer keeps its observations in
the same way: those of a pass over a loop that did not converge are dropped. -/
structure Snapshot where
  instruction : InstId
  states : StateMap
  activeLocals : List LocalId

/-- The members of `PlaceStateAnalyzer` that change. The loops around the current instruction are
listed from the inside. -/
structure Analysis where
  states : StateMap := []
  activeLocals : List LocalId := []
  cleanupRegistrations : List CleanupRegistration := []
  loopFlows : List LoopFlow := []
  boundValues : List (LocalId × Value) := []
  placeRevisions : LocalId → Nat := fun _ => 0
  outcomeFacts : List (InstId × List OutcomeFact) := []
  initializationAttempts : List LocalId := []
  initializedForwardedParameters : List LocalId := []
  diagnostics : List (InstId × PlaceStateDiagnosticKind) := []
  snapshots : List Snapshot := []
  returnCleanups : List (InstId × PlaceCleanupPlan) := []
  edgeCleanups : List (InstId × PlaceCleanupPlan) := []
  fullExpressionCleanups : List (InstId × PlaceCleanupPlan) := []
  blockCleanups : List (InstBlockId × PlaceCleanupPlan) := []
  reinitializations : List (InstId × PlaceCleanupPlan) := []

/-- What the analyzer reads: the module, the parameters of the current function and the
instructions whose place is only used to form another one. -/
structure PlaceEnv where
  sem : SemIR
  parameters : List LocalId := []
  projectionInputs : List InstId := []

namespace Analysis

/-- Emits a diagnostic. -/
def diagnose (i : InstId) (kind : PlaceStateDiagnosticKind) (a : Analysis) : Analysis :=
  { a with diagnostics := a.diagnostics ++ [(i, kind)] }

/-- Emits the diagnostic, if there is one. -/
def diagnose? (i : InstId) (kind : Option PlaceStateDiagnosticKind) (a : Analysis) : Analysis :=
  match kind with
  | some k => a.diagnose i k
  | none => a

/-- Changes the facts about a local. -/
def modifyRoot (env : PlaceEnv) (l : LocalId) (f : RootState → RootState) (a : Analysis) :
    Analysis :=
  { a with states := a.states.modifyRoot env.sem l f }

/-- `ensureRoot`. -/
def ensureRoot (env : PlaceEnv) (l : LocalId) (a : Analysis) : Analysis :=
  { a with states := a.states.ensureRoot env.sem l }

/-- A new revision of the places of a local. -/
def bumpRevision (l : LocalId) (a : Analysis) : Analysis :=
  { a with placeRevisions := Function.update a.placeRevisions l (a.placeRevisions l + 1) }

/-- The place is the target of a capability that the caller forwarded. -/
def forwards (p : ResolvedPlace) (a : Analysis) : Bool :=
  decide (p.path.head? = some .dereference) && a.initializedForwardedParameters.contains p.root

/-- `stateFor`. -/
def stateFor (env : PlaceEnv) (p : ResolvedPlace) (a : Analysis) : PlaceStateKind :=
  if a.forwards p then .moved else (a.states.root env.sem p.root).stateFor p.path

/-- The facts that `stateFor` creates when it is asked. -/
def touch (env : PlaceEnv) (p : ResolvedPlace) (a : Analysis) : Analysis :=
  if a.forwards p then a else a.ensureRoot env p.root

/-! ## Uses of places -/

/-- `diagnoseUse`. -/
def diagnoseUse (env : PlaceEnv) (i : InstId) (p : ResolvedPlace) (state : PlaceStateKind)
    (a : Analysis) : Analysis :=
  match state with
  | .initialized => a
  | .moved =>
    if (env.sem.loc p.root).uninitialized then
      (a.ensureRoot env p.root).diagnose i
        (if (a.states.root env.sem p.root).everInitialized then .useAfterMove
          else .uninitializedStorage)
    else a.diagnose i .useAfterMove
  | .maybeMoved => a.diagnose i .useOfMaybeMovedPlace
  | .partiallyMoved => a.diagnose i .useOfPartiallyMovedPlace

/-- `PlaceObservationKind`. -/
inductive Observation where
  | read | move | copy | borrow | reinitialization
  deriving DecidableEq, Repr

/-- The observation makes a new revision of the place. -/
def Observation.changes : Observation → Bool
  | .move | .reinitialization => true
  | _ => false

/-- The revision that an observation makes. -/
def revise (kind : Observation) (l : LocalId) (a : Analysis) : Analysis :=
  if kind.changes then a.bumpRevision l else a

/-- `checkUnionAccess && checkEnumAccess`. -/
def checkAccess (env : PlaceEnv) (i : InstId) (p : ResolvedPlace) (a : Analysis) : Analysis :=
  let r := a.states.root env.sem p.root
  match checkUnionAccess r.unions p with
  | some kind => a.diagnose i kind
  | none => a.diagnose? i (checkEnumAccess r.enums p)

/-- The facts about a local after a move out of a part of it. -/
def moveOut (env : PlaceEnv) (path : PlacePath) (r : RootState) : RootState :=
  (r.setLeaves env.sem path fun _ => movedBit).clearUnions path false

/-- `observe`: a use of a place. A move changes the facts only when every leaf of the place is known
to be initialised. -/
def observe (env : PlaceEnv) (i : InstId) (p : ResolvedPlace) (kind : Observation)
    (a : Analysis) : Analysis :=
  let a := (a.revise kind p.root).touch env p
  let before := a.stateFor env p
  let a := a.diagnoseUse env i p before
  if before = .initialized then
    let a := a.checkAccess env i p
    if kind = .move then a.modifyRoot env p.root (moveOut env p.path) else a
  else a

/-- `observeExternal`: a use of a place that the function reaches through a reference. -/
def observeExternal (env : PlaceEnv) (i : InstId) (p : ResolvedPlace) (kind : Observation)
    (a : Analysis) : Analysis :=
  if kind = .reinitialization then a
  else (a.touch env p).diagnoseUse env i p (a.stateFor env p)

/-- `observe` or `observeExternal`. -/
def observePlace (env : PlaceEnv) (i : InstId) (p : ResolvedPlace) (kind : Observation)
    (a : Analysis) : Analysis :=
  if p.isExternal then a.observeExternal env i p kind else a.observe env i p kind

/-- `observeCallEffect`. -/
def observeCallEffect (env : PlaceEnv) (i : InstId) (p : ResolvedPlace) (kind : Observation)
    (a : Analysis) : Analysis :=
  let a := a.revise kind p.root
  if p.isExternal then a.observeExternal env i p kind
  else
    let a' := a.touch env p
    if kind = .reinitialization then a' else a'.diagnoseUse env i p (a.stateFor env p)

/-- `observeDirectPlace`. -/
def observeDirectPlace (env : PlaceEnv) (v : Value) (a : Analysis) : Analysis :=
  if env.projectionInputs.contains v.id then a
  else match resolvePlace env.sem v with
    | some p => a.observePlace env v.id p .read
    | none => a

/-! ## New values for places -/

/-- A local becomes active. -/
def activate (l : LocalId) (a : Analysis) : Analysis :=
  if a.activeLocals.contains l then a else { a with activeLocals := a.activeLocals ++ [l] }

/-- A local is registered for cleanup, unless it is. -/
def register (entry : CleanupRegistration) (a : Analysis) : Analysis :=
  if a.cleanupRegistrations.any fun r => decide (r.local? = entry.local?) then a
  else { a with cleanupRegistrations := a.cleanupRegistrations ++ [entry] }

/-- The facts about a local that has just been given a value. -/
def wholeValue (r : RootState) : RootState :=
  { r with
    everInitialized := true
    leaves := r.leaves.map fun leaf => { leaf with possibilities := initializedBit }
    unions := r.unions.map (UnionState.cleared true)
    enums := r.enums.map fun e =>
      { e with possibleVariants := e.possibleVariants.map fun _ => true, unknown := true } }

/-- What the value stored in a new local says of its unions and enums. -/
def setStatesFromValue (env : PlaceEnv) (l : LocalId) (v : Value) (S : StateMap) : StateMap :=
  let T := if (S.root env.sem l).unions.isEmpty then S
    else setUnionStatesFromValue env.sem l v [] S
  if (T.root env.sem l).enums.isEmpty then T else setEnumStatesFromValue env.sem l [] v T

/-- The states after a local got its value. -/
def initializedStates (env : PlaceEnv) (l : LocalId) (v : Option Value) (S : StateMap) : StateMap :=
  match v with
  | some v => setStatesFromValue env l v (S.modifyRoot env.sem l wholeValue)
  | none => S.modifyRoot env.sem l wholeValue

/-- `initialize`: a local gets its value. -/
def initializeLocal (env : PlaceEnv) (l : LocalId) (v : Option Value) (a : Analysis) : Analysis :=
  let a := activate l { a.bumpRevision l with states := initializedStates env l v a.states }
  a.register (if (env.sem.loc l).temporary then .temporary l else .loc l)

/-- The union facts after a value was stored at a path. -/
def reinitializedUnion (path : PlacePath) (u : UnionState) : UnionState :=
  let u := if isPrefix path u.path then u.cleared true else u
  if isPrefix u.path path ∧ u.path.length + 1 = path.length then
    match path[u.path.length]? with
    | some (.field member) =>
      if member < u.possibleMembers.length then
        { u with possibleMembers := onlyMark u.possibleMembers member, unknown := false }
      else u
    | _ => u
  else u

/-- The store goes to a part of a member of the union. -/
def storesInsideMember (path : PlacePath) (u : UnionState) : Bool :=
  isPrefix u.path path && decide (u.path.length + 1 < path.length) &&
    match path[u.path.length]? with
    | some (.field _) => true
    | _ => false

/-- The checks that storing at a place makes while it goes through the unions; those before the
current one have their new facts already. -/
def storeDiagnostics (p : ResolvedPlace) :
    List UnionState → List UnionState → List PlaceStateDiagnosticKind
  | _, [] => []
  | done, u :: todo =>
    let u' := reinitializedUnion p.path u
    let rest := storeDiagnostics p (done ++ [u']) todo
    if storesInsideMember p.path u then
      (checkUnionAccess (done ++ u' :: todo) p).toList ++ rest
    else rest

/-- How the old value of a place is destroyed before a new one is stored
(`PlaceReinitializationPlan::old_value_cleanups`). -/
def oldValueCleanups (env : PlaceEnv) (p : ResolvedPlace) (r : RootState) : PlaceCleanupPlan :=
  let destroys := fun t => decide ((env.sem.typeRepresentation t).destroy ≠ .none)
  match r.stateFor p.path with
  | .initialized => if destroys p.type then [.destroy p.root p.path] else []
  | .maybeMoved => if destroys p.type then [.destroyIfInitialized p.root p.path] else []
  | .partiallyMoved => r.leaves.filterMap fun leaf =>
    if isPrefix p.path leaf.path ∧ leaf.possibilities.initialized ∧ destroys leaf.type then
      some (if leaf.possibilities = eitherBit then .destroyIfInitialized p.root leaf.path
        else .destroy p.root leaf.path)
    else none
  | .moved => []

/-- `reinitialize`: a value is stored at a place. -/
def reinitializePlace (env : PlaceEnv) (i : InstId) (p : ResolvedPlace) (v : Value)
    (a : Analysis) : Analysis :=
  let a := (a.bumpRevision p.root).ensureRoot env p.root
  let r := a.states.root env.sem p.root
  let stored := fun r : RootState =>
    let r := r.setLeaves env.sem p.path fun _ => initializedBit
    { r with unions := r.unions.map (reinitializedUnion p.path) }
  { a with
    states := setUnionStatesFromValue env.sem p.root v p.path
      (a.states.modifyRoot env.sem p.root stored)
    diagnostics := a.diagnostics ++ (storeDiagnostics p [] r.unions).map fun kind => (i, kind)
    reinitializations := (i, oldValueCleanups env p r) :: a.reinitializations }

/-- The facts about a local whose place got the possibilities from outside
(`setPlacePossibilities`). -/
def withPossibilities (env : PlaceEnv) (path : PlacePath) (q : Possibilities) (r : RootState) :
    RootState :=
  let r := (r.setLeaves env.sem path fun _ => q).clearUnions path q.initialized
  { r with enums := r.enums.map fun e =>
      if isPrefix path e.path || isPrefix e.path path then
        { e with
          possibleVariants := e.possibleVariants.map fun _ => q.initialized
          unknown := q.initialized }
      else e }

/-- `setPlacePossibilities`. -/
def setPlacePossibilities (env : PlaceEnv) (p : ResolvedPlace) (q : Possibilities)
    (a : Analysis) : Analysis :=
  a.modifyRoot env p.root (withPossibilities env p.path q)

/-! ## Cleanup of locals -/

/-- The leaf is not in the payload of a variant that the enums are known not to hold. -/
def activePayload (enums : List EnumState) (leaf : LeafState) : Bool :=
  enums.all fun e =>
    if isPrefix e.path leaf.path then
      match leaf.path[e.path.length]? with
      | some (.enumPayload _ variant) => decide (e.possibleVariants[variant]? = some true)
      | _ => true
    else true

/-- The actions that clean up a local, given the facts about it. -/
def localCleanup (env : PlaceEnv) (l : LocalId) (r : RootState) : PlaceCleanupPlan :=
  let destroys := fun t => decide ((env.sem.typeRepresentation t).destroy ≠ .none)
  let actions : PlaceCleanupPlan := match r.stateFor [] with
    | .initialized => if destroys (env.sem.loc l).type then [.destroy l []] else []
    | .maybeMoved => if destroys (env.sem.loc l).type then [.destroyIfInitialized l []] else []
    | .partiallyMoved => r.leaves.filterMap fun leaf =>
      if leaf.possibilities.initialized ∧ activePayload r.enums leaf ∧
          (env.sem.typeRepresentation leaf.type).ownership = .owned ∧ destroys leaf.type then
        some (if leaf.possibilities = eitherBit then .destroyIfInitialized l leaf.path
          else .destroy l leaf.path)
      else none
    | .moved => []
  actions ++ [.endLifetime l]

/-- `appendLocalCleanup`. -/
def appendLocalCleanup (env : PlaceEnv) (l : LocalId) (a : Analysis) :
    PlaceCleanupPlan × Analysis :=
  if (env.sem.typeRepresentation (env.sem.loc l).type).ownership = .owned then
    (localCleanup env l (a.states.root env.sem l), a.ensureRoot env l)
  else ([], a)

/-- The cleanup of locals, in the given order. -/
def cleanupLocals (env : PlaceEnv) : List LocalId → Analysis → PlaceCleanupPlan × Analysis
  | [], a => ([], a)
  | l :: ls, a =>
    let (actions, a) := a.appendLocalCleanup env l
    let (plan, a) := cleanupLocals env ls a
    (actions ++ plan, a)

/-- `diagnoseUninitializedStorage` for one local. -/
def uninitializedDeclaration? (env : PlaceEnv) (a : Analysis) (l : LocalId) : Option InstId :=
  match a.states.lookup l with
  | none => none
  | some r =>
    if (env.sem.loc l).uninitialized ∧ r.everInitialized = false ∧
        ¬ (a.initializationAttempts.contains l ∧ r.stateFor [] = .moved) then
      r.uninitializedDeclaration
    else none

/-- `diagnoseUninitializedStorage`. -/
def diagnoseUninitializedStorage (env : PlaceEnv) (locals : List LocalId) (a : Analysis) :
    Analysis :=
  { a with diagnostics := a.diagnostics ++
      (locals.filterMap (a.uninitializedDeclaration? env)).map fun i => (i, .uninitializedStorage) }

/-! ## Calls -/

/-- The argument whose region an effect or a postcondition is about, if the region is reached
through a reference. -/
def regionArgument (env : PlaceEnv) (arguments : List Value) (types : List TypeId)
    (region : OwnershipRegion) : Option Value :=
  match arguments[region.parameterIndex]?, types[region.parameterIndex]? with
  | some v, some t => if env.sem.isReference t || region.dereferences then some v else none
  | _, _ => none

/-- The argument is a mutable reference parameter of the current function. -/
def isForwardedParameter (env : PlaceEnv) : Value → Bool
  | .nameRef _ l =>
    env.parameters.contains l &&
      match env.sem.type (env.sem.loc l).type with
      | .reference _ mutability => mutability
      | _ => false
  | _ => false

/-- One effect of a callee. -/
def applyEffect (env : PlaceEnv) (i : InstId) (arguments : List Value) (types : List TypeId)
    (a : Analysis) (effect : CallableRegionEffect) : Analysis :=
  match regionArgument env arguments types effect.region with
  | none => a
  | some argument =>
    match resolveCallEffectPlace env.sem argument effect.region with
    | none => a
    | some p =>
      match effect.kind with
      | .initializes =>
        if p.isExternal || isForwardedParameter env argument then
          if isForwardedParameter env argument &&
              !a.initializedForwardedParameters.contains p.root then
            a.diagnose i .invalidAssignmentTarget
          else a
        else if p.borrowedView then a.diagnose i .invalidAssignmentTarget
        else if a.stateFor env p ≠ .moved then
          (a.touch env p).diagnose i .invalidAssignmentTarget
        else a.touch env p
      | .read => a.observeCallEffect env i p .read
      | .take => a.observeCallEffect env i p .move
      | .write => a.observeCallEffect env i p .reinitialization
      | .borrowShared | .borrowMutable => a.observeCallEffect env i p .borrow

/-- The possibilities of a leaf after a call with the given outcomes. -/
def outcomePossibilities (o : CallableOutcomes) (q : Possibilities) : Possibilities :=
  ⟨o.preserves && q.initialized || o.initializes, o.preserves && q.moved || o.invalidates⟩

/-- The facts about a local after a call with the given outcomes for a part of it. -/
def afterOutcomes (env : PlaceEnv) (path : PlacePath) (o : CallableOutcomes) (r : RootState) :
    RootState :=
  let r := r.setLeaves env.sem path (outcomePossibilities o)
  if o.initializes then r.clearUnions path true
  else if o.invalidates && !o.preserves then r.clearUnions path false
  else r

/-- The possibilities that a state stands for in an outcome fact. -/
def possibilitiesBefore : PlaceStateKind → Possibilities
  | .initialized => initializedBit
  | .moved => movedBit
  | .maybeMoved | .partiallyMoved => eitherBit

/-- Records a fact about the result of a call. -/
def addOutcomeFact (i : InstId) (fact : OutcomeFact) (a : Analysis) : Analysis :=
  { a with outcomeFacts :=
      (i, (a.outcomeFacts.lookup i).getD [] ++ [fact]) :: a.outcomeFacts.filter fun e => e.1 ≠ i }

/-- The outcomes of a postcondition as the caller applies them: one that holds on some calls only may
also leave the region as it was. -/
def effectiveOutcomes (post : CallableRegionPostcondition) : CallableOutcomes :=
  if post.condition.isAlways && post.resultVariant.isNone then post.outcomes
  else { post.outcomes with preserves := true }

/-- The states of the locals before the call, as far as they were asked for. -/
def rememberBefore (p : ResolvedPlace) (state : PlaceStateKind)
    (before : List (LocalId × Possibilities)) : List (LocalId × Possibilities) :=
  if (before.lookup p.root).isSome then before
  else (p.root, possibilitiesBefore state) :: before

/-- A postcondition of a region that the caller was handed as well. -/
def applyExternalOutcomes (p : ResolvedPlace) (o : CallableOutcomes) (a : Analysis) : Analysis :=
  if o = { initializes := true } then
    { a with initializedForwardedParameters :=
        a.initializedForwardedParameters.filter fun l => l ≠ p.root }
  else a

/-- The fact that a postcondition guarded by a variant gives for a later switch. -/
def recordOutcomeFact (i : InstId) (p : ResolvedPlace) (post : CallableRegionPostcondition)
    (before : Possibilities) (a : Analysis) : Analysis :=
  match post.resultVariant with
  | some k =>
    if post.condition.isAlways then
      a.addOutcomeFact i ⟨p, k, post.outcomes, a.placeRevisions p.root, before⟩
    else a
  | none => a

/-- A local that some variant of the result gives a value is registered for cleanup. -/
def recordAttempt (p : ResolvedPlace) (post : CallableRegionPostcondition) (a : Analysis) :
    Analysis :=
  if post.resultVariant.isSome && post.outcomes.initializes then
    register (.loc p.root) { a with initializationAttempts := p.root :: a.initializationAttempts }
  else a

/-- The outcomes of a region of the caller. -/
def applyOutcomes (env : PlaceEnv) (p : ResolvedPlace) (o : CallableOutcomes) (a : Analysis) :
    Analysis :=
  if p.path = [] ∧ o = { initializes := true } then a.initializeLocal env p.root none
  else a.modifyRoot env p.root (afterOutcomes env p.path o)

/-- One postcondition of a callee. -/
def applyPostcondition (env : PlaceEnv) (i : InstId) (arguments : List Value) (types : List TypeId)
    (acc : List (LocalId × Possibilities) × Analysis) (post : CallableRegionPostcondition) :
    List (LocalId × Possibilities) × Analysis :=
  match regionArgument env arguments types post.region with
  | none => acc
  | some argument =>
    match resolveCallEffectPlace env.sem argument post.region with
    | none => acc
    | some p =>
      let before := rememberBefore p (acc.2.stateFor env p) acc.1
      let a := acc.2.touch env p
      let outcomes := effectiveOutcomes post
      if p.isExternal then (before, applyExternalOutcomes p outcomes a)
      else
        let a := recordOutcomeFact i p post ((before.lookup p.root).getD eitherBit) a
        (before, applyOutcomes env p outcomes (recordAttempt p post a))

/-- `applyCallEffects`. -/
def applyCallEffects (env : PlaceEnv) (i : InstId) (callee : FunctionRefId)
    (arguments : List Value) (a : Analysis) : Analysis :=
  match env.sem.summary callee with
  | none => a
  | some summary =>
    let types := env.sem.parameterTypes callee
    let a := summary.effects.foldl (applyEffect env i arguments types) a
    let a := { a with outcomeFacts := a.outcomeFacts.filter fun e => e.1 ≠ i }
    (summary.postconditions.foldl (applyPostcondition env i arguments types) ([], a)).2

/-! ## Instructions -/

/-- The facts that `!external && !hasTrackedLeaf(place)` creates. -/
def ensureOwnRoot (env : PlaceEnv) (p : ResolvedPlace) (a : Analysis) : Analysis :=
  if p.isExternal then a else a.ensureRoot env p.root

/-- `Move`. -/
def moveInst (env : PlaceEnv) (i : InstId) (operand : Value) (a : Analysis) : Analysis :=
  match resolvePlace env.sem operand with
  | none => a.diagnose i .invalidMoveOperand
  | some p =>
    let a := a.ensureOwnRoot env p
    if !p.isExternal && !(a.states.root env.sem p.root).hasTrackedLeaf env.sem p.path then
      a.diagnose i .invalidMoveOperand
    else if p.borrowedView then a.diagnose i .moveUnavailable
    else if (env.sem.typeRepresentation p.type).move = .unavailable then
      a.diagnose i .moveUnavailable
    else a.observePlace env i p .move

/-- `Copy`. -/
def copyInst (env : PlaceEnv) (i : InstId) (operand : Value) (a : Analysis) : Analysis :=
  match resolvePlace env.sem operand with
  | none => a.diagnose i .invalidCopyOperand
  | some p =>
    let a := a.ensureOwnRoot env p
    if !p.isExternal && !(a.states.root env.sem p.root).hasTrackedLeaf env.sem p.path then
      a.diagnose i .invalidCopyOperand
    else if (env.sem.typeRepresentation p.type).copy = .unavailable then
      a.diagnose i .copyUnavailable
    else a.observePlace env i p .copy

/-- `BorrowPlace`. -/
def borrowInst (env : PlaceEnv) (i : InstId) (operand : Value) (a : Analysis) : Analysis :=
  match resolvePlace env.sem operand with
  | none => a.diagnose i .invalidMoveOperand
  | some p =>
    if p.isExternal then a.observeExternal env i p .borrow
    else
      let a := a.ensureRoot env p.root
      if (a.states.root env.sem p.root).hasObservableLeaf p.path then a.observe env i p .borrow
      else a.diagnose i .invalidMoveOperand

/-- `Assign`. -/
def assignInst (env : PlaceEnv) (i : InstId) (target v : Value) (a : Analysis) : Analysis :=
  match resolvePlace env.sem target with
  | none => a.diagnose i .invalidAssignmentTarget
  | some p =>
    let a := { a with boundValues := a.boundValues.filter fun e => e.1 ≠ p.root }
    let a := a.bumpRevision p.root
    if p.isExternal then
      { a with reinitializations := (i, []) :: a.reinitializations }
    else
      let a := a.ensureRoot env p.root
      if !(a.states.root env.sem p.root).hasTrackedLeaf env.sem p.path || p.borrowedView then
        a.diagnose i .invalidAssignmentTarget
      else if !(env.sem.loc p.root).mutable_ then a.diagnose i .assignmentToImmutablePlace
      else if p.hasUnknownElement ∧ a.stateFor env p ≠ .initialized then
        a.diagnose i .uninitializedStorage
      else a.reinitializePlace env i p v

/-- `Placement`: a store that may fail, or one that cannot. -/
def placementInst (env : PlaceEnv) (i : InstId) (target v : Value) (t : TypeId) (a : Analysis) :
    Analysis :=
  match resolvePlace env.sem target with
  | none => a.diagnose i .invalidAssignmentTarget
  | some p =>
    if p.isExternal then a.diagnose i .invalidAssignmentTarget
    else
      let a := a.ensureRoot env p.root
      if !(a.states.root env.sem p.root).hasTrackedLeaf env.sem p.path then
        a.diagnose i .invalidAssignmentTarget
      else if !(env.sem.loc p.root).mutable_ then a.diagnose i .assignmentToImmutablePlace
      else if t = env.sem.voidType then a.reinitializePlace env i p v
      else if a.stateFor env p ≠ .moved then a.diagnose i .invalidAssignmentTarget
      else
        { a.setPlacePossibilities env p eitherBit with
          reinitializations := (i, []) :: a.reinitializations }

/-- `BindName`. Binding a reference reads the place it refers to. -/
def bindInst (env : PlaceEnv) (i : InstId) (l : LocalId) (v : Value) (a : Analysis) : Analysis :=
  let a := if env.sem.isReference (v.type env.sem) then
      match resolveCallEffectPlace env.sem v {} with
      | some p => a.observePlace env i p .copy
      | none => a
    else a
  let a := { a with boundValues := (l, v) :: a.boundValues.filter fun e => e.1 ≠ l }
  a.initializeLocal env l (some v)

/-- `ExtendTemporary`: the first registration of the temporary is that of an extended one. -/
def extendRegistration (l : LocalId) : List CleanupRegistration → List CleanupRegistration
  | [] => []
  | .temporary m :: rs =>
    if m = l then .extended l :: rs else .temporary m :: extendRegistration l rs
  | r :: rs => r :: extendRegistration l rs

/-- The registration is that of the temporary. -/
def CleanupRegistration.isTemporary (l : LocalId) : CleanupRegistration → Bool
  | .temporary m => decide (m = l)
  | _ => false

/-- Takes the temporaries that are registered off the lists, and returns them. -/
def endTemporaries : List LocalId → Analysis → List LocalId × Analysis
  | [], a => ([], a)
  | l :: ls, a =>
    if a.cleanupRegistrations.any (CleanupRegistration.isTemporary l) then
      let a := { a with
        cleanupRegistrations := a.cleanupRegistrations.eraseP (CleanupRegistration.isTemporary l)
        activeLocals := a.activeLocals.filter fun m => m ≠ l }
      let (ended, a) := endTemporaries ls a
      (l :: ended, a)
    else endTemporaries ls a

/-- `EndFullExpression`. -/
def endFullExpression (env : PlaceEnv) (i : InstId) (temporaries : List LocalId) (a : Analysis) :
    Analysis :=
  let (ended, a) := endTemporaries temporaries a
  let (plan, a) := a.cleanupLocals env ended.reverse
  { a with
    fullExpressionCleanups := (i, plan) :: a.fullExpressionCleanups
    states := a.states.eraseLocals ended }

/-- The instruction of a value. -/
def valueInst (env : PlaceEnv) (v : Value) (a : Analysis) : Analysis :=
  match v with
  | .nameRef .. | .structFieldAccess .. | .unionFieldAccess .. | .enumPayloadAccess ..
  | .index .. => a.observeDirectPlace env v
  | .borrowLocal i l _ => a.observe env i (.ofLocal env.sem l) .borrow
  | .borrowPlace i operand _ => a.borrowInst env i operand
  | .move i operand => a.moveInst env i operand
  | .copy i operand => a.copyInst env i operand
  | .placement i target operand t => a.placementInst env i target operand t
  | .call i callee arguments _ => a.applyCallEffects env i callee arguments
  | .materializeTemporary _ l operand => a.initializeLocal env l (some operand)
  | _ => a

end Analysis

/-- The effect of an instruction without control flow. -/
def transfer (env : PlaceEnv) (i : Inst) (a : Analysis) : Analysis :=
  match i with
  | .value v => a.valueInst env v
  | .declareUninitialized id l =>
    (a.modifyRoot env l fun r => { r with uninitializedDeclaration := some id }).activate l
  | .parameter _ l => a.initializeLocal env l none
  | .bindName id l v => a.bindInst env id l v
  | .assign id target v => a.assignInst env id target v
  | .extendTemporary _ v =>
    match v with
    | .materializeTemporary _ l _ =>
      { a with cleanupRegistrations := Analysis.extendRegistration l a.cleanupRegistrations }
    | _ => a
  | .endFullExpression id temporaries => a.endFullExpression env id temporaries
  | _ => a

end Chtholly
