import Mathlib.Algebra.GroupWithZero.Nat
import Chtholly.PlaceState.Transfer

set_option autoImplicit false

/-!
# The place-state analyzer

The control flow of the place-state analysis (`PlaceStateAnalyzerFlow.inc`, `cleanupPlan`). The loops
of the source iterate without a bound, so the definitions count down fuel, which pays for every
nested block and for every pass over a loop; running out of it is a result of its own.

The definitions are parameters in two things. `rec` analyses the nested blocks, and `admits` is asked
before every instruction: an analysis stops at an instruction that it does not admit. The analyzer of
the source admits every instruction (`Chtholly.analyzeFunction`); the other instances say what a run
of the analyzer looks like in which no step is of a given kind.

## Main definitions

* `Chtholly.analyzeInst`, `Chtholly.analyzeBlock` — the analysis of an instruction and of a block.
* `Chtholly.passes`, `Chtholly.analyzeWhile`, `Chtholly.analyzeDoWhile`, `Chtholly.analyzeFor` — the
  passes over a loop and the three loops.
* `Chtholly.analyzeFunction` — the analysis of a function.
-/

namespace Chtholly

/-- Why an analysis has no result. -/
inductive Stop where
  | outOfFuel
  | refused
  deriving DecidableEq, Repr

/-- The results of an analysis, and whether control reaches the end of what was analysed. -/
abbrev Flow := Except Stop (Bool × Analysis)

/-- The analysis of nested blocks. -/
abbrev BlockAnalyzer := Block → Bool → Analysis → Flow

/-- The join of the states on the break edges or on the continue edges to a loop. -/
def LoopFlow.edge (breaks : Bool) (f : LoopFlow) : Option StateMap :=
  if breaks then f.breaks else f.continues

/-- How far a break or a continue unwinds the active locals. -/
def LoopFlow.localDepth (breaks : Bool) (f : LoopFlow) : Nat :=
  if breaks then f.breakLocalDepth else f.continueLocalDepth

/-- How far a break or a continue unwinds the registrations. -/
def LoopFlow.cleanupDepth (breaks : Bool) (f : LoopFlow) : Nat :=
  if breaks then f.breakCleanupDepth else f.continueCleanupDepth

/-- Joins the states on a new edge to a loop. -/
def LoopFlow.addEdge (breaks : Bool) (S : StateMap) (f : LoopFlow) : LoopFlow :=
  if breaks then { f with breaks := some (.mergeOptional f.breaks S) }
  else { f with continues := some (.mergeOptional f.continues S) }

namespace Analysis

/-- Records the state in which an instruction is reached. -/
def snapshot (i : InstId) (a : Analysis) : Analysis :=
  { a with snapshots := a.snapshots ++ [⟨i, a.states, a.activeLocals⟩] }

/-- The states, active locals and registrations that another path starts with. -/
def restart (S : StateMap) (active : List LocalId) (cleanups : List CleanupRegistration)
    (a : Analysis) : Analysis :=
  { a with states := S, activeLocals := active, cleanupRegistrations := cleanups }

/-- Drops what was recorded since a pass started (`AnalysisCheckpoint`). -/
def rollback (start a : Analysis) : Analysis :=
  { a with
    diagnostics := a.diagnostics.take start.diagnostics.length
    snapshots := a.snapshots.take start.snapshots.length }

/-- Enters the body of a loop. -/
def pushFlow (flow : LoopFlow) (a : Analysis) : Analysis :=
  { a with loopFlows := flow :: a.loopFlows }

/-- The edges to the innermost loop. -/
def flow (a : Analysis) : LoopFlow := a.loopFlows.headD ⟨0, 0, 0, 0, none, none⟩

/-- Leaves the body of a loop. -/
def popFlow (a : Analysis) : Analysis := { a with loopFlows := a.loopFlows.tail }

/-- `statesAtDepth`. -/
def statesAtDepth (depth : Nat) (a : Analysis) : StateMap :=
  a.states.eraseLocals (a.activeLocals.drop depth)

/-- The effective length of the walk that `boundValue` takes from a value. -/
def walkLength : Value → Nat
  | .move _ v | .copy _ v => walkLength v + 1
  | _ => 1

/-- The loop of `boundValue`. -/
def boundValueFrom (bound : List (LocalId × Value)) : Nat → List InstId → Value → Value
  | 0, _, v => v
  | n + 1, seen, v =>
    if seen.contains v.id then v
    else match v with
      | .move i w | .copy i w => boundValueFrom bound n (i :: seen) w
      | .nameRef i l =>
        match bound.lookup l with
        | some w => boundValueFrom bound n (i :: seen) w
        | none => v
      | _ => v

/-- `boundValue`: the value that a name was bound to, through moves and copies. -/
def boundValue (v : Value) (a : Analysis) : Value :=
  boundValueFrom a.boundValues (walkLength v + (a.boundValues.map fun e => walkLength e.2).sum + 1)
    [] v

/-! ## Switch arms -/

/-- What a fact about the result of a call says in the arm of a variant. -/
def applyOutcomeFact (env : PlaceEnv) (variant : Nat) (a : Analysis) (fact : OutcomeFact) :
    Analysis :=
  if fact.variant = variant ∧ fact.revision = a.placeRevisions fact.place.root then
    if fact.outcomes = { initializes := true } then
      (a.setPlacePossibilities env fact.place initializedBit).modifyRoot env fact.place.root
        fun r => { r with everInitialized := true }
    else if fact.outcomes = { invalidates := true } then
      a.setPlacePossibilities env fact.place movedBit
    else if fact.outcomes = { preserves := true } then
      a.setPlacePossibilities env fact.place fact.before
    else a
  else a

/-- The place that a fallible store, on whose result a switch branches, stores to, with the variant
of the result that means success. -/
def switchPlacement (env : PlaceEnv) : Value → Option (ResolvedPlace × Nat)
  | .placement _ target _ t => do
    let p ← resolvePlace env.sem target
    let ok ← env.sem.resultOkVariant t
    some (p, ok)
  | _ => none

/-- What the selection of an arm says of the place that was switched on. -/
def narrow (env : PlaceEnv) (scrutinee : Value) (variant : Int) (a : Analysis) : Analysis :=
  match resolvePlace env.sem scrutinee with
  | some p => a.modifyRoot env p.root (RootState.setVariant p.path variant)
  | none => a

/-- The state in which an arm starts; `bound` is the value that the scrutinee was bound to. An arm
with a negative label is the default. -/
def enterArm (env : PlaceEnv) (scrutinee bound : Value) (label : Int) (a : Analysis) : Analysis :=
  if label < 0 then a
  else
    let facts := (a.outcomeFacts.lookup bound.id).getD []
    let a := facts.foldl (applyOutcomeFact env label.toNat) a
    let a := match switchPlacement env bound with
      | some (p, ok) =>
        a.setPlacePossibilities env p (if label.toNat = ok then initializedBit else movedBit)
      | none => a
    a.narrow env scrutinee label

end Analysis

section

variable (env : PlaceEnv) (admits : Inst → Analysis → Bool) (rec : BlockAnalyzer)

/-! ## Cleanup plans -/

/-- `cleanupPlan`, for registrations in the order in which they are cleaned up. A deferred block is
analysed again at every exit that runs it. -/
def cleanupPlan : List CleanupRegistration → Analysis → Except Stop (PlaceCleanupPlan × Analysis)
  | [], a => pure ([], a)
  | .defer d :: l, a => do
    let (_, a) ← rec d true a
    let (plan, a) ← cleanupPlan l a
    pure (.runDefer d.id :: plan, a)
  | .loc m :: l, a | .temporary m :: l, a | .extended m :: l, a => do
    let (actions, a) := a.appendLocalCleanup env m
    let (plan, a) ← cleanupPlan l a
    pure (actions ++ plan, a)

/-! ## Branches -/

/-- The arms of an `If`, each from the state before it. -/
def analyzeIfArms (before : Analysis) :
    List Block → Option StateMap → Analysis → Except Stop (Option StateMap × Analysis)
  | [], merged, a => pure (merged, a)
  | b :: arms, merged, a => do
    let (falls, a) ← rec b true
      (a.restart before.states before.activeLocals before.cleanupRegistrations)
    analyzeIfArms before arms
      (if falls then some (.mergeOptional merged a.states) else merged) a

/-- `If`. -/
def analyzeIf (arms : List Block) (a : Analysis) : Flow := do
  let (merged, a') ← analyzeIfArms rec a arms
    (if arms.length = 1 then some a.states else none) a
  pure (merged.isSome,
    a'.restart (merged.getD a.states) a.activeLocals a.cleanupRegistrations)

/-- The arms of a `Switch`. -/
def analyzeSwitchArms (before : Analysis) (scrutinee bound : Value) :
    List (Int × Block) → Option StateMap → Analysis → Except Stop (Option StateMap × Analysis)
  | [], merged, a => pure (merged, a)
  | (label, b) :: arms, merged, a => do
    let (falls, a) ← rec b true
      ((a.restart before.states before.activeLocals before.cleanupRegistrations).enterArm env
        scrutinee bound label)
    analyzeSwitchArms before scrutinee bound arms
      (if falls then some (.mergeOptional merged a.states) else merged) a

/-- `analyzeSwitch`. -/
def analyzeSwitch (scrutinee : Value) (arms : List (Int × Block)) (a : Analysis) : Flow := do
  let (merged, a') ← analyzeSwitchArms env rec a scrutinee (a.boundValue scrutinee) arms none a
  pure (merged.isSome,
    a'.restart (merged.getD a.states) a.activeLocals a.cleanupRegistrations)

/-! ## Edges -/

/-- `Break` and `Continue`. -/
def analyzeEdge (i : InstId) (breaks : Bool) (distance : Nat) (a : Analysis) : Flow :=
  match a.loopFlows[distance]? with
  | none => pure (false, a)
  | some flow => do
    let (plan, a) ← cleanupPlan env rec
      (a.cleanupRegistrations.drop (flow.cleanupDepth breaks)).reverse a
    pure (false, { a with
      edgeCleanups := (i, plan) :: a.edgeCleanups
      loopFlows := a.loopFlows.modify distance
        (.addEdge breaks (a.statesAtDepth (flow.localDepth breaks))) })

/-- `Return` and the coroutine returns; a cancelled coroutine is not asked for its storage. -/
def analyzeReturn (i : InstId) (kind : ReturnKind) (a : Analysis) : Flow := do
  let a := if kind = .coroutineCancelled then a
    else a.diagnoseUninitializedStorage env a.activeLocals
  let (plan, a) ← cleanupPlan env rec a.cleanupRegistrations.reverse a
  pure (false, { a with returnCleanups := (i, plan) :: a.returnCleanups })

/-! ## Loops -/

/-- A state joined with that of an edge, if there is one. -/
def joinEdge (S : StateMap) (edge : Option StateMap) : StateMap :=
  match edge with
  | some T => S.merge T
  | none => S

/-- `mergeOptionalState` of an edge into what may not be reached. -/
def joinOptional (S : Option StateMap) (edge : Option StateMap) : Option StateMap :=
  match edge with
  | some T => some (.mergeOptional S T)
  | none => S

/-- The iteration that the three loops share. A pass from a header gives the header of the next pass;
a pass that gives its own header back is the last one, and what the others recorded is dropped. -/
def passes {β : Type} (pass : StateMap → Analysis → Except Stop (StateMap × β × Analysis)) :
    Nat → StateMap → Analysis → Except Stop (β × Analysis)
  | 0, _, _ => throw .outOfFuel
  | n + 1, header, a => do
    let (next, out, a') ← pass header a
    if header.same next then pure (out, a') else passes pass n next (a.rollback a')

/-- A clause that is analysed from the joined states of the edges into it, if there are any. -/
def analyzeClause (b : Block) (entry : Option StateMap) (before a : Analysis) :
    Except Stop Analysis :=
  match entry with
  | none => pure a
  | some S => do
    let (_, a) ← rec b false (a.restart S before.activeLocals before.cleanupRegistrations)
    pure a

/-- One pass of `analyzeWhile`, with the states in which the loop is left. -/
def whilePass (c b : Block) (before : Analysis) (header : StateMap) (a : Analysis) :
    Except Stop (StateMap × StateMap × Analysis) := do
  let active := before.activeLocals
  let cleanups := before.cleanupRegistrations
  let (_, a₁) ← rec c false (a.restart header active cleanups)
  let (falls, a₂) ← rec b true
    (a₁.pushFlow ⟨active.length, active.length, cleanups.length, cleanups.length, none, none⟩)
  let next := joinEdge (if falls then before.states.merge a₂.states else before.states)
    a₂.flow.continues
  pure (next, joinEdge a₁.states a₂.flow.breaks, a₂.popFlow)

/-- `analyzeWhile`. -/
def analyzeWhile (fuel : Nat) (c b : Block) (a : Analysis) : Except Stop Analysis := do
  let (exit, a') ← passes (whilePass rec c b a) fuel a.states a
  pure (a'.restart exit a.activeLocals a.cleanupRegistrations)

/-- One pass of `analyzeDoWhile`, with the states in which the loop is left, if it can be. -/
def doWhilePass (c b : Block) (before : Analysis) (header : StateMap) (a : Analysis) :
    Except Stop (StateMap × Option StateMap × Analysis) := do
  let active := before.activeLocals
  let cleanups := before.cleanupRegistrations
  let (falls, a₁) ← rec b true ((a.restart header active cleanups).pushFlow
    ⟨active.length, active.length, cleanups.length, cleanups.length, none, none⟩)
  let entry := joinOptional (if falls then some a₁.states else none) a₁.flow.continues
  let a₂ ← analyzeClause rec c entry before a₁.popFlow
  let backedge := entry.map fun _ => a₂.states
  pure (joinEdge before.states backedge, joinOptional backedge a₁.flow.breaks, a₂)

/-- `analyzeDoWhile`. -/
def analyzeDoWhile (fuel : Nat) (c b : Block) (a : Analysis) : Flow := do
  let (exit, a') ← passes (doWhilePass rec c b a) fuel a.states a
  pure (exit.isSome, a'.restart (exit.getD a.states) a.activeLocals a.cleanupRegistrations)

/-- One pass of `analyzeFor` after its first clause: the states in which the condition and the breaks
leave the loop. The breaks unwind to the given depths. -/
def forPass (c p b : Block) (localDepth cleanupDepth : Nat) (before : Analysis)
    (header : StateMap) (a : Analysis) :
    Except Stop (StateMap × (StateMap × Option StateMap) × Analysis) := do
  let active := before.activeLocals
  let cleanups := before.cleanupRegistrations
  let (_, a₁) ← rec c false (a.restart header active cleanups)
  let (falls, a₂) ← rec b true
    (a₁.pushFlow ⟨localDepth, active.length, cleanupDepth, cleanups.length, none, none⟩)
  let entry := joinOptional (if falls then some a₂.states else none) a₂.flow.continues
  let a₃ ← analyzeClause rec p entry before a₂.popFlow
  pure (joinEdge before.states (entry.map fun _ => a₃.states), (a₁.states, a₂.flow.breaks), a₃)

/-- The end of a `For`: the locals of its first clause are cleaned up on the natural exit. -/
def leaveFor (i : Block) (before loop : Analysis) (exit : StateMap) (breaks : Option StateMap)
    (a : Analysis) : Except Stop Analysis := do
  let (plan, a') ← cleanupPlan env rec
    (loop.cleanupRegistrations.drop before.cleanupRegistrations.length).reverse
    (a.restart exit loop.activeLocals loop.cleanupRegistrations)
  let S := a'.states.eraseLocals (loop.activeLocals.drop before.activeLocals.length)
  pure ({ a' with blockCleanups := (i.id, plan) :: a'.blockCleanups }.restart (joinEdge S breaks)
    (a'.activeLocals.take before.activeLocals.length)
    (a'.cleanupRegistrations.take before.cleanupRegistrations.length))

/-- `analyzeFor`. -/
def analyzeFor (fuel : Nat) (i c p b : Block) (a : Analysis) : Except Stop Analysis := do
  let (_, a₁) ← rec i false a
  let ((exit, breaks), a₂) ← passes (forPass rec c p b a.activeLocals.length
    a.cleanupRegistrations.length a₁) fuel a₁.states a₁
  leaveFor env rec i a a₁ exit breaks a₂

/-! ## Blocks -/

/-- One case of the switch in `analyzeBlock`. -/
def analyzeInst (fuel : Nat) (i : Inst) (a : Analysis) : Flow :=
  match i with
  | .defer _ d =>
    pure (true, { a with cleanupRegistrations := a.cleanupRegistrations ++ [.defer d] })
  | .scopedBlock _ b | .taskScope _ b => rec b true a
  | .ifInst _ _ arms => analyzeIf rec arms a
  | .switch _ v arms => analyzeSwitch env rec v arms a
  | .whileLoop _ c b => do
    let a' ← analyzeWhile rec fuel c b a
    pure (true, a')
  | .doWhile _ c b => analyzeDoWhile rec fuel c b a
  | .forLoop _ init c p b => do
    let a' ← analyzeFor env rec fuel init c p b a
    pure (true, a')
  | .brk id n => analyzeEdge env rec id true n a
  | .cont id n => analyzeEdge env rec id false n a
  | .ret id kind _ => analyzeReturn env rec id kind a
  | _ => pure (true, transfer env i a)

/-- The instructions of a block, as far as control reaches them. -/
def analyzeInsts (fuel : Nat) : List Inst → Analysis → Flow
  | [], a => pure (true, a)
  | i :: l, a =>
    if admits i a then do
      let (falls, a) ← analyzeInst env rec fuel i (a.snapshot i.id)
      if falls then analyzeInsts fuel l a else pure (false, a)
    else throw .refused

/-- The cleanup at the end of a lexical scope, when control reaches it. -/
def scopeCleanup (b : Block) (activeBegin cleanupBegin : Nat) (falls : Bool) (a : Analysis) :
    Except Stop Analysis :=
  if falls then do
    let (plan, a') ← cleanupPlan env rec (a.cleanupRegistrations.drop cleanupBegin).reverse a
    pure ({ a' with
      blockCleanups := (b.id, plan) :: a'.blockCleanups }.diagnoseUninitializedStorage env
        (a.activeLocals.drop activeBegin))
  else pure a

/-- The end of a lexical scope. -/
def leaveScope (b : Block) (activeBegin cleanupBegin : Nat) (falls : Bool) (a : Analysis) :
    Except Stop Analysis := do
  let a' ← scopeCleanup env rec b activeBegin cleanupBegin falls a
  pure (a'.restart (a'.states.eraseLocals (a.activeLocals.drop activeBegin))
    (a'.activeLocals.take activeBegin) (a'.cleanupRegistrations.take cleanupBegin))

/-- The body of `analyzeBlock`. -/
def analyzeBlockWith (fuel : Nat) (b : Block) (lexical : Bool) (a : Analysis) : Flow := do
  let (falls, a') ← analyzeInsts env admits rec fuel b.insts a
  if lexical then do
    let a' ← leaveScope env rec b a.activeLocals.length a.cleanupRegistrations.length falls a'
    pure (falls, a')
  else pure (falls, a')

end

/-- `analyzeBlock`. -/
def analyzeBlock (env : PlaceEnv) (admits : Inst → Analysis → Bool) : Nat → BlockAnalyzer
  | 0 => fun _ _ _ => throw .outOfFuel
  | n + 1 => analyzeBlockWith env admits (analyzeBlock env admits n) n

/-- The parameters whose storage the caller leaves to the function to give a value. -/
def forwardedParameters (f : SemFunction) : List LocalId :=
  f.ownership.effects.filterMap fun effect =>
    if effect.kind = .initializes ∧ effect.region.path = [] then
      f.parameters[effect.region.parameterIndex]?
    else none

/-- The analysis of a function, for the given instructions to admit. -/
def analyzeFunctionWith (env : PlaceEnv) (admits : Inst → Analysis → Bool) (fuel : Nat)
    (f : SemFunction) : Except Stop Analysis := do
  let (falls, a) ← analyzeBlock env admits fuel f.body false
    { initializedForwardedParameters := forwardedParameters f }
  if falls && !f.body.insts.isEmpty then
    pure (a.diagnoseUninitializedStorage env a.activeLocals)
  else pure a

/-- `analyzeFunction`. -/
def analyzeFunction (env : PlaceEnv) (fuel : Nat) (f : SemFunction) : Except Stop Analysis :=
  analyzeFunctionWith env (fun _ _ => true) fuel f

end Chtholly
