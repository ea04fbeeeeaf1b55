import Chtholly.SemIR.Syntax
import Chtholly.Ownership.Condition

set_option autoImplicit false

/-!
# The control-flow graph of the callable ownership analysis

`buildFunctionGraph` (`CallableOwnershipGraph.inc`) turns a function body into a graph over its
instructions, with a condition on the arguments at every edge. It works in two passes. The first
walks the body forwards and notes which deferred blocks each lexical block and each exit runs. The
second walks every block backwards, from the instructions that follow it (its *tail*) to its first
instruction (its *entries*), and builds the deferred blocks of a scope anew wherever control leaves
the scope.

The graph is the list of its edges; the source keeps it as a table indexed by the instruction an
edge starts from, without repetitions.

## Main definitions

* `Chtholly.conditionForValue`, `Chtholly.conditionForEnumParameter` — the condition under which a
  branch is taken.
* `Chtholly.collectDefers` — the first pass.
* `Chtholly.GraphEnv.build` — the second pass.
* `Chtholly.buildFunctionGraph` — the graph of a body.

## Design

The second pass descends into the syntax of the body and, at an exit, into deferred blocks that the
tables name. Only deferred blocks that stand inside the present one can be met there, so the nesting
depth of the deferred blocks bounds these descents (`Chtholly.buildLevel`).
-/

namespace Chtholly

open CallableConditionDescriptor

/-! ## Conditions of branches -/

/-- `parameterIndex`: the position of a local among the parameters of the function. -/
def parameterIndex (parameters : List LocalId) (loc : LocalId) : Option Nat :=
  parameters.findIdx? (· == loc)

/-- `conditionForValue`: the condition on the arguments under which a boolean value is true. -/
def conditionForValue (parameters : List LocalId) : Value → Option CallableConditionDescriptor
  | .callbackRegistrationBinding _ v => conditionForValue parameters v
  | .boolLiteral _ b => some (if b then always else never)
  | .nameRef _ loc => (parameterIndex parameters loc).map (atom · true)
  | .logicalNot _ v => (conditionForValue parameters v).map conditionNot
  | .logicalAnd _ v w =>
    match conditionForValue parameters v, conditionForValue parameters w with
    | some lhs, some rhs => some (conditionAnd lhs rhs)
    | _, _ => none
  | .logicalOr _ v w =>
    match conditionForValue parameters v, conditionForValue parameters w with
    | some lhs, some rhs => some (conditionOr lhs rhs)
    | _, _ => none
  | _ => none

/-- `conditionForEnumParameter`: the condition under which an enum value holds a variant. -/
def conditionForEnumParameter (parameters : List LocalId) (v : Value) (variant : Nat) :
    CallableConditionDescriptor :=
  match v with
  | .nameRef _ loc => ((parameterIndex parameters loc).map (enumVariant · variant)).getD always
  | .enumInit _ _ held _ => if held = variant then always else never
  | _ => always

/-- The condition of an instruction that ends a condition block. -/
def Inst.condition? (parameters : List LocalId) : Inst → Option CallableConditionDescriptor
  | .value v => conditionForValue parameters v
  | _ => none

/-! ## The deferred blocks of scopes and exits -/

/-- `LoopDepth`: how many deferred blocks are active where a loop's edges lead. -/
structure LoopDepth where
  breakDepth : Nat
  continueDepth : Nat
  deriving DecidableEq, Repr

/-- The tables `block_defers` and `exit_defers`; the entry written last comes first. -/
structure DeferTables where
  blockDefers : List (InstBlockId × List Block) := []
  exitDefers : List (InstId × List Block) := []

/-- Writes the entry of an exit. -/
def DeferTables.setExit (tables : DeferTables) (id : InstId) (l : List Block) : DeferTables :=
  { tables with exitDefers := (id, l) :: tables.exitDefers }

/-- Writes the entry of a block. -/
def DeferTables.setBlock (tables : DeferTables) (id : InstBlockId) (l : List Block) :
    DeferTables :=
  { tables with blockDefers := (id, l) :: tables.blockDefers }

/-- The entry of an exit; an exit without one runs no deferred block. -/
def DeferTables.exitDefersOf (tables : DeferTables) (id : InstId) : List Block :=
  (tables.exitDefers.lookup id).getD []

/-- The entry of a block; a block without one runs no deferred block. -/
def DeferTables.blockDefersOf (tables : DeferTables) (id : InstBlockId) : List Block :=
  (tables.blockDefers.lookup id).getD []

/-- The deferred blocks an edge to a loop runs: those registered since the loop's depth. -/
def DeferTables.setLoopExit (tables : DeferTables) (id : InstId) (active : List Block)
    (depth : Option Nat) : DeferTables :=
  match depth with
  | some d => tables.setExit id (active.drop d)
  | none => tables

mutual

/-- `collect_defers` on one instruction: the active deferred blocks after it, and the tables. -/
def Inst.collectDefers : Inst → List Block → List LoopDepth → DeferTables →
    List Block × DeferTables
  | .defer _ d, active, _, tables => (active ++ [d], (d.collectDefers [] [] true tables).2)
  | .ret id .ret _, active, _, tables => (active, tables.setExit id active)
  | .brk id n, active, loops, tables =>
    (active, tables.setLoopExit id active (loops[n]?.map (·.breakDepth)))
  | .cont id n, active, loops, tables =>
    (active, tables.setLoopExit id active (loops[n]?.map (·.continueDepth)))
  | .ifInst _ _ arms, active, loops, tables => (active, collectDefersBlocks arms active loops tables)
  | .scopedBlock _ b, active, loops, tables => b.collectDefers active loops true tables
  | .whileLoop _ c b, active, loops, tables =>
    let loops := ⟨active.length, active.length⟩ :: loops
    let tables := (c.collectDefers active loops false tables).2
    (active, (b.collectDefers active loops true tables).2)
  | .forLoop _ i c p b, active, loops, tables =>
    let (active', tables) := i.collectDefers active loops false tables
    let loops := ⟨active.length, active'.length⟩ :: loops
    let tables := (c.collectDefers active' loops false tables).2
    let tables := (b.collectDefers active' loops true tables).2
    (active', (p.collectDefers active' loops false tables).2)
  | .doWhile _ c b, active, loops, tables =>
    let loops := ⟨active.length, active.length⟩ :: loops
    let tables := (b.collectDefers active loops true tables).2
    (active, (c.collectDefers active loops false tables).2)
  | .switch _ _ arms, active, loops, tables => (active, collectDefersArms arms active loops tables)
  | _, active, _, tables => (active, tables)
termination_by structural i => i

/-- `collect_defers` on a block. A lexical scope writes the entry of the block and leaves the active
blocks as they were. -/
def Block.collectDefers : Block → List Block → List LoopDepth → Bool → DeferTables →
    List Block × DeferTables
  | .mk id l, active, loops, lexicalScope, tables =>
    let (active', tables) := collectDefersInsts l active loops tables
    if lexicalScope then
      (active'.take active.length, tables.setBlock id (active'.drop active.length))
    else (active', tables)
termination_by structural b => b

/-- The loop of `collect_defers` over the instructions of a block. -/
def collectDefersInsts : List Inst → List Block → List LoopDepth → DeferTables →
    List Block × DeferTables
  | [], active, _, tables => (active, tables)
  | i :: l, active, loops, tables =>
    let (active, tables) := i.collectDefers active loops tables
    collectDefersInsts l active loops tables
termination_by structural l => l

/-- `collect_defers` on the arms of an `If`, each with its own copy of the active blocks. -/
def collectDefersBlocks : List Block → List Block → List LoopDepth → DeferTables → DeferTables
  | [], _, _, tables => tables
  | b :: l, active, loops, tables =>
    collectDefersBlocks l active loops (b.collectDefers active loops true tables).2
termination_by structural l => l

/-- `collect_defers` on the arms of a `Switch`. -/
def collectDefersArms : List (Int × Block) → List Block → List LoopDepth → DeferTables →
    DeferTables
  | [], _, _, tables => tables
  | (_, b) :: l, active, loops, tables =>
    collectDefersArms l active loops (b.collectDefers active loops true tables).2
termination_by structural l => l

end

/-- The tables of a function body. The body itself is no lexical scope: its deferred blocks run at
the returns. -/
def collectDefers (body : Block) : DeferTables := (body.collectDefers [] [] false {}).2

/-! ## The edges -/

/-- An edge from an instruction to another, with the condition on the arguments under which it is
taken. -/
structure FunctionEdge where
  source : InstId
  instruction : InstId
  condition : CallableConditionDescriptor
  deriving DecidableEq, Repr

/-- `LoopTargets`: where the edges to a loop lead. -/
structure LoopTargets where
  breaks : List InstId
  continues : List InstId
  deriving DecidableEq, Repr

/-- What the second pass asks for: the parameters, the tables, and how to build a deferred block
before the given instructions. -/
structure GraphEnv where
  parameters : List LocalId
  tables : DeferTables
  deferred : Block → List InstId → List LoopTargets → List InstId × List FunctionEdge

/-- Unconditional edges. -/
def plainEdges (source : InstId) (targets : List InstId) : List FunctionEdge :=
  targets.map fun t => ⟨source, t, always⟩

/-- The edges of a branch on a predicate, when there is one. -/
def branchEdges (source : InstId) (predicate : Option CallableConditionDescriptor)
    (yes no : List InstId) : List FunctionEdge :=
  yes.map (fun t => ⟨source, t, predicate.getD always⟩) ++
    no.map fun t => ⟨source, t, (predicate.map conditionNot).getD always⟩

namespace GraphEnv

/-- `cleanup_entries`: builds the deferred blocks of a scope or exit before the instructions that
follow, the one registered first next to them. -/
def cleanupEntries (E : GraphEnv) (targets : List LoopTargets) :
    List Block → List InstId → List InstId × List FunctionEdge
  | [], successor => (successor, [])
  | d :: l, successor =>
    let (successor, edges) := E.deferred d successor targets
    let (successor, edges') := E.cleanupEntries targets l successor
    (successor, edges ++ edges')

mutual

/-- The edges of one instruction and of the blocks it carries, given the instructions that follow
it (`current`). -/
def buildInst (E : GraphEnv) : Inst → List InstId → List LoopTargets → List FunctionEdge
  | .ret id .ret _, _, targets =>
    let (next, edges) := E.cleanupEntries targets (E.tables.exitDefersOf id) []
    edges ++ plainEdges id next
  | .brk id n, _, targets =>
    let (next, edges) := E.cleanupEntries targets (E.tables.exitDefersOf id)
      ((targets[n]?.map (·.breaks)).getD [])
    edges ++ plainEdges id next
  | .cont id n, _, targets =>
    let (next, edges) := E.cleanupEntries targets (E.tables.exitDefersOf id)
      ((targets[n]?.map (·.continues)).getD [])
    edges ++ plainEdges id next
  | .ifInst _ _ [], _, _ => []
  | .ifInst id v [a], current, targets =>
    let (thenBranch, edges) := E.build a current targets
    edges ++ branchEdges id (conditionForValue E.parameters v) thenBranch current
  | .ifInst id v (a :: b :: _), current, targets =>
    let (thenBranch, edges) := E.build a current targets
    let (elseBranch, edges') := E.build b current targets
    edges ++ edges' ++ branchEdges id (conditionForValue E.parameters v) thenBranch elseBranch
  | .switch id v arms, current, targets => E.buildArms id v arms current targets
  | .scopedBlock id b, current, targets =>
    let (next, edges) := E.build b current targets
    edges ++ plainEdges id next
  | .whileLoop id c b, current, targets =>
    match c.insts.head?, c.insts.getLast? with
    | some conditionEntry, some conditionValue =>
      let (body, edges) := E.build b [conditionEntry.id] (⟨current, [conditionEntry.id]⟩ :: targets)
      let (next, edges') := E.build c [] targets
      edges ++ edges' ++
        branchEdges conditionValue.id (conditionValue.condition? E.parameters) body current ++
        plainEdges id next
    | _, _ => plainEdges id current
  | .forLoop id i c p b, current, targets =>
    match c.insts.head?, c.insts.getLast? with
    | some conditionEntry, some conditionValue =>
      let (stepEntries, edges) := E.build p [conditionEntry.id] targets
      let (body, edges') := E.build b stepEntries (⟨current, stepEntries⟩ :: targets)
      let (conditionEntries, edges'') := E.build c [] targets
      let (next, edges''') := E.build i conditionEntries targets
      edges ++ edges' ++ edges'' ++
        branchEdges conditionValue.id (conditionValue.condition? E.parameters) body current ++
        edges''' ++ plainEdges id next
    | _, _ => plainEdges id current
  | .doWhile id c b, current, targets =>
    match c.insts.getLast? with
    | some conditionValue =>
      let (conditionEntries, edges) := E.build c [] targets
      match b.insts.head? with
      | none =>
        edges ++ branchEdges conditionValue.id (conditionValue.condition? E.parameters)
          (conditionEntries.take 1) current ++ plainEdges id conditionEntries
      | some bodyEntry =>
        let (next, edges') := E.build b conditionEntries (⟨current, conditionEntries⟩ :: targets)
        edges ++ edges' ++ branchEdges conditionValue.id (conditionValue.condition? E.parameters)
          [bodyEntry.id] current ++ plainEdges id next
    | none => plainEdges id current
  | i, current, _ => plainEdges i.id current

/-- `build`: the entries and the edges of a block before the given tail. -/
def build (E : GraphEnv) : Block → List InstId → List LoopTargets → List InstId × List FunctionEdge
  | .mk id l, tail, targets =>
    let (current, edges) := E.cleanupEntries targets (E.tables.blockDefersOf id) tail
    let (current, edges') := E.buildInsts l current targets
    (current, edges ++ edges')

/-- The loop of `build`, from the last instruction of a block to the first. -/
def buildInsts (E : GraphEnv) : List Inst → List InstId → List LoopTargets →
    List InstId × List FunctionEdge
  | [], current, _ => (current, [])
  | i :: l, current, targets =>
    let (current, edges) := E.buildInsts l current targets
    ([i.id], edges ++ E.buildInst i current targets)

/-- The edges of a switch: an arm with a label is entered under the condition that the scrutinee
holds the variant. -/
def buildArms (E : GraphEnv) (id : InstId) (v : Value) :
    List (Int × Block) → List InstId → List LoopTargets → List FunctionEdge
  | [], _, _ => []
  | (variant, b) :: arms, current, targets =>
    let (branch, edges) := E.build b current targets
    let predicate :=
      if 0 ≤ variant then conditionForEnumParameter E.parameters v variant.toNat else always
    edges ++ (branch.map fun t => ⟨id, t, predicate⟩) ++ E.buildArms id v arms current targets

end

/-- A task scope is built like a straight-line instruction. -/
lemma buildInst_taskScope (E : GraphEnv) (id : InstId) (b : Block) (current : List InstId)
    (targets : List LoopTargets) :
    E.buildInst (.taskScope id b) current targets = plainEdges id current := by
  simp only [buildInst, Inst.id]

end GraphEnv

/-! ## The graph of a body -/

mutual

/-- How deep deferred blocks are nested in each other. -/
def Inst.deferDepth : Inst → Nat
  | .defer _ d => d.deferDepth + 1
  | .ifInst _ _ arms => deferDepthBlocks arms
  | .scopedBlock _ b | .taskScope _ b => b.deferDepth
  | .whileLoop _ c b | .doWhile _ c b => max c.deferDepth b.deferDepth
  | .forLoop _ i c p b => max (max i.deferDepth c.deferDepth) (max p.deferDepth b.deferDepth)
  | .switch _ _ arms => deferDepthArms arms
  | _ => 0

/-- How deep deferred blocks are nested in a block. -/
def Block.deferDepth : Block → Nat
  | .mk _ l => deferDepthInsts l

/-- How deep deferred blocks are nested in a list of instructions. -/
def deferDepthInsts : List Inst → Nat
  | [] => 0
  | i :: l => max i.deferDepth (deferDepthInsts l)

/-- How deep deferred blocks are nested in the arms of an `If`. -/
def deferDepthBlocks : List Block → Nat
  | [] => 0
  | b :: l => max b.deferDepth (deferDepthBlocks l)

/-- How deep deferred blocks are nested in the arms of a `Switch`. -/
def deferDepthArms : List (Int × Block) → Nat
  | [] => 0
  | (_, b) :: l => max b.deferDepth (deferDepthArms l)

end

/-- `build` with the given number of descents into deferred blocks. -/
def buildLevel (parameters : List LocalId) (tables : DeferTables) : Nat →
    Block → List InstId → List LoopTargets → List InstId × List FunctionEdge
  | 0 => fun _ tail _ => (tail, [])
  | n + 1 => GraphEnv.build ⟨parameters, tables, buildLevel parameters tables n⟩

lemma buildLevel_succ (parameters : List LocalId) (tables : DeferTables) (n : Nat) :
    buildLevel parameters tables (n + 1) =
      GraphEnv.build ⟨parameters, tables, buildLevel parameters tables n⟩ := rfl

/-- `FunctionGraph`: the entries and the edges. -/
structure FunctionGraph where
  entries : List InstId
  edges : List FunctionEdge

/-- `buildFunctionGraph`. -/
def buildFunctionGraph (parameters : List LocalId) (body : Block) : FunctionGraph :=
  let (entries, edges) :=
    buildLevel parameters (collectDefers body) (body.deferDepth + 1) body [] []
  ⟨entries, edges⟩

end Chtholly
