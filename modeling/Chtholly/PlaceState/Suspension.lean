import Chtholly.PlaceState.Analyzer

set_option autoImplicit false

/-!
# Suspensions, and the part of the stacks that a block leaves alone

A coroutine that is suspended keeps its locals but not the temporaries of the full expression it is
in: they are cleaned up before the suspension, and come off the stacks of the analyzer
(`CoroutineSuspend` in `analyzeBlock`).  The analysis of a block marks the ends of the two stacks when
it starts, and takes everything above the marks for its own.

The analyzer here is that of `Chtholly.analyzeBlock` with the steps of coroutines, and with a check
that is asked before every instruction, at the end of every block and after its scope was left.  The
analyzer of the source asks for nothing.  Where a mark lies beyond the end of a stack the behaviour
of the source is undefined; here nothing is above the mark then.  The tables of suspension plans and
of cancellation plans, which nothing modelled reads, are left out.

## Main definitions

* `Chtholly.analyzeSuspension`, `Chtholly.snapshotCleanupPlan` — the steps of coroutines.
* `Chtholly.analyzeBlockIn` — the analysis of a block under a check.
* `Chtholly.outerStackKept` — what was on the stacks when a block was entered is there.
* `Chtholly.sparesOuter` — a step takes nothing that was there when its block was entered.

## Main results

* `Chtholly.analyzeBlockIn_eq` — without steps of coroutines it is the analyzer of the other modules.
-/

namespace Chtholly

/-- What the analyzer does at an instruction of a coroutine: `CoroutineSuspend` and the three waits
for completion sets suspend, `CoroutineCancellationCheck` and `CoroutineExecutorSwitch` may be
cancelled, and `CoroutineRuntimeFault` does not return. -/
inductive CoroutineStep where
  | suspension | cancellationPoint | runtimeFault
  deriving DecidableEq, Repr

/-- The instructions of coroutines, by their index. -/
abbrev CoroutineSteps := InstId → Option CoroutineStep

/-- The instructions of kinds that the syntax does not distinguish. -/
def Inst.unnamed? : Inst → Option InstId
  | .other id | .value (.other id _ _) => some id
  | _ => none

def CleanupRegistration.temporary? : CleanupRegistration → Option LocalId
  | .temporary l => some l
  | _ => none

namespace Analysis

/-- The temporaries come off the stacks. -/
def consumeTemporaries (a : Analysis) : List LocalId × Analysis :=
  let consumed := a.cleanupRegistrations.filterMap CleanupRegistration.temporary?
  (consumed, { a with
    cleanupRegistrations := a.cleanupRegistrations.filter fun r => r.temporary?.isNone
    activeLocals := a.activeLocals.filter fun l => l ∉ consumed })

end Analysis

/-! ## Checks -/

/-- What is asked of an analysis, given that at the start of the current block: before an instruction,
or at the end of the block. -/
abbrev StackCheck := Analysis → Option Inst → Analysis → Bool

/-- A registration is still there, a temporary perhaps as an extended one. -/
def CleanupRegistration.becomes : CleanupRegistration → CleanupRegistration → Bool
  | .loc l, .loc m | .temporary l, .temporary m | .extended l, .extended m
  | .temporary l, .extended m => decide (l = m)
  | .defer b, .defer c => decide (b.id = c.id)
  | _, _ => false

/-- The registrations stand in the same order at the start of the later list. -/
def keptBelow : List CleanupRegistration → List CleanupRegistration → Bool
  | [], _ => true
  | r :: rs, s :: ss => r.becomes s && keptBelow rs ss
  | _ :: _, [] => false

/-- How far the edges to a loop unwind. -/
def LoopFlow.depths (f : LoopFlow) : List Nat :=
  [f.breakLocalDepth, f.continueLocalDepth, f.breakCleanupDepth, f.continueCleanupDepth]

/-- The entries that were on the stacks before are there, and the loops unwind as far as before. -/
def Analysis.keeps (before a : Analysis) : Bool :=
  before.activeLocals.isPrefixOf a.activeLocals &&
    keptBelow before.cleanupRegistrations a.cleanupRegistrations &&
    decide (a.loopFlows.map LoopFlow.depths = before.loopFlows.map LoopFlow.depths)

/-- No edge to a loop unwinds to beyond the end of a stack. -/
def Analysis.delimited (a : Analysis) : Bool :=
  a.loopFlows.all fun f =>
    decide (∀ breaks : Bool, f.localDepth breaks ≤ a.activeLocals.length ∧
      f.cleanupDepth breaks ≤ a.cleanupRegistrations.length)

/-- **The outer part of the stacks is kept.**  The entries that were there when the current block was
entered are there, and the depths of the loops delimit parts of the stacks. -/
def outerStackKept : StackCheck := fun entry _ a => entry.keeps a && a.delimited

/-- Nothing is asked. -/
def unchecked : StackCheck := fun _ _ _ => true

/-- The temporary is not registered below the mark of the registrations, and if it is registered at
all, it is not below the mark of the active locals. -/
def sparesTemporary (entry a : Analysis) (l : LocalId) : Bool :=
  !(a.cleanupRegistrations.take entry.cleanupRegistrations.length).any
      (Analysis.CleanupRegistration.isTemporary l) &&
    (!a.cleanupRegistrations.any (Analysis.CleanupRegistration.isTemporary l) ||
      !(a.activeLocals.take entry.activeLocals.length).contains l)

/-- The end of a full expression and a suspension take no temporary that was there when the current
block was entered. -/
def sparesOuter (steps : CoroutineSteps) : StackCheck := fun entry i a =>
  match i with
  | some (.endFullExpression _ temporaries) => temporaries.all (sparesTemporary entry a)
  | some i =>
    if i.unnamed?.bind steps = some .suspension then
      (a.cleanupRegistrations.filterMap CleanupRegistration.temporary?).all
        (sparesTemporary entry a)
    else true
  | none => true

section

variable (env : PlaceEnv) (steps : CoroutineSteps) (rec : BlockAnalyzer)

/-! ## The steps of coroutines -/

/-- `snapshotCleanupPlan` for all registrations: the plan is made, and the places and the stacks are
as before. -/
def snapshotCleanupPlan (a : Analysis) : Except Stop Analysis := do
  let (_, a') ← cleanupPlan env rec a.cleanupRegistrations.reverse a
  pure { a'.restart a.states a.activeLocals a.cleanupRegistrations with
    boundValues := a.boundValues }

/-- `CoroutineSuspend`: the temporaries are cleaned up, and the rest is handed to the frame. -/
def analyzeSuspension (a : Analysis) : Flow := do
  let (consumed, a) := a.consumeTemporaries
  let (_, a) := a.cleanupLocals env consumed.reverse
  let a ← snapshotCleanupPlan env rec { a with states := a.states.eraseLocals consumed }
  pure (true, a)

/-- One case of the switch in `analyzeBlock`, with those of coroutines. -/
def analyzeInstIn (fuel : Nat) (i : Inst) (a : Analysis) : Flow :=
  match i.unnamed?.bind steps with
  | some .suspension => analyzeSuspension env rec a
  | some .cancellationPoint => do
    let a ← snapshotCleanupPlan env rec a
    pure (true, a)
  | some .runtimeFault => pure (false, a)
  | none => analyzeInst env rec fuel i a

/-! ## Blocks -/

/-- The instructions of a block, as far as control reaches them. -/
def analyzeInstsIn (check : Option Inst → Analysis → Bool) (fuel : Nat) :
    List Inst → Analysis → Flow
  | [], a => pure (true, a)
  | i :: l, a =>
    if check (some i) a then do
      let (falls, a) ← analyzeInstIn env steps rec fuel i (a.snapshot i.id)
      if falls then analyzeInstsIn check fuel l a else pure (false, a)
    else throw .refused

/-- The scope of a block is left, when it is one. -/
def leaveBlock (b : Block) (lexical : Bool) (entry : Analysis) (falls : Bool) (a : Analysis) :
    Except Stop Analysis :=
  if lexical then
    leaveScope env rec b entry.activeLocals.length entry.cleanupRegistrations.length falls a
  else pure a

/-- The end of a block. -/
def endBlock (check : StackCheck) (b : Block) (lexical : Bool) (entry : Analysis) (falls : Bool)
    (a : Analysis) : Except Stop Analysis :=
  if check entry none a then do
    let a' ← leaveBlock env rec b lexical entry falls a
    if check entry none a' then pure a' else throw .refused
  else throw .refused

end

/-- `analyzeBlock` under a check. -/
def analyzeBlockIn (env : PlaceEnv) (steps : CoroutineSteps) (check : StackCheck) :
    Nat → BlockAnalyzer
  | 0 => fun _ _ _ => throw .outOfFuel
  | n + 1 => fun b lexical a => do
    let nested := analyzeBlockIn env steps check n
    let (falls, a') ← analyzeInstsIn env steps nested (check a) n b.insts a
    let a' ← endBlock env nested check b lexical a falls a'
    pure (falls, a')

/-- `analyzeFunction` under a check. -/
def analyzeFunctionIn (env : PlaceEnv) (steps : CoroutineSteps) (check : StackCheck) (fuel : Nat)
    (f : SemFunction) : Except Stop Analysis := do
  let (falls, a) ← analyzeBlockIn env steps check fuel f.body false
    { initializedForwardedParameters := forwardedParameters f }
  if falls && !f.body.insts.isEmpty then
    pure (a.diagnoseUninitializedStorage env a.activeLocals)
  else pure a

/-! ## The analyzer without coroutines -/

lemma analyzeInstIn_none (env : PlaceEnv) (rec : BlockAnalyzer) (fuel : Nat) (i : Inst)
    (a : Analysis) :
    analyzeInstIn env (fun _ => none) rec fuel i a = analyzeInst env rec fuel i a := by
  have hbind : (i.unnamed?.bind fun _ => (none : Option CoroutineStep)) = none :=
    Option.bind_eq_none_iff.2 fun _ _ => rfl
  rw [analyzeInstIn, hbind]

lemma analyzeInstsIn_none (env : PlaceEnv) (rec : BlockAnalyzer) (fuel : Nat) (l : List Inst)
    (a : Analysis) :
    analyzeInstsIn env (fun _ => none) rec (fun _ _ => true) fuel l a =
      analyzeInsts env (fun _ _ => true) rec fuel l a := by
  induction l generalizing a with
  | nil => rfl
  | cons i l ih => simp only [analyzeInstsIn, analyzeInsts, analyzeInstIn_none, ih]

/-- Without steps of coroutines and without a check, the analyzer is that of the other modules. -/
theorem analyzeBlockIn_eq (env : PlaceEnv) (n : Nat) :
    analyzeBlockIn env (fun _ => none) unchecked n = analyzeBlock env (fun _ _ => true) n := by
  induction n with
  | zero => rfl
  | succ n ih =>
    funext b lexical a
    have hinsts := analyzeInstsIn_none env (analyzeBlock env (fun _ _ => true) n) n b.insts a
    simp only [analyzeBlockIn, analyzeBlock, analyzeBlockWith, ih]
    show (analyzeInstsIn env (fun _ => none) _ (fun _ _ => true) n b.insts a >>= _) = _
    rw [hinsts]
    cases lexical with
    | true => simp [endBlock, leaveBlock, unchecked]
    | false => simp [endBlock, leaveBlock, unchecked]

end Chtholly
