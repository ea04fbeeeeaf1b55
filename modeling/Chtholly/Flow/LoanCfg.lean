import Chtholly.Flow.FunctionGraph

set_option autoImplicit false

/-!
# The control-flow graph of the loan analysis

`analyzeInterproceduralLoans` (`PlaceStateAnalysisApi.inc`) does not use the graph of the callable
ownership analysis. Its `build_cfg` walks every block backwards on its own, without conditions, and
takes the deferred blocks of scopes and exits from the cleanup plans of the place-state analysis.

## Main definitions

* `Chtholly.CleanupPlans` — the deferred blocks that the cleanup plans run.
* `Chtholly.CfgEnv.buildCfg` — the walk.
* `Chtholly.loanCfg` — the graph of a body.
-/

namespace Chtholly

/-- The deferred blocks of the `RunDefer` actions in the cleanup plans of blocks, returns and
edges to loops, in the order of the plan. -/
structure CleanupPlans where
  blockCleanup : InstBlockId → List Block
  returnCleanup : InstId → List Block
  edgeCleanup : InstId → List Block

/-- The plans of a body in which no block is deferred. -/
def CleanupPlans.none : CleanupPlans := ⟨fun _ => [], fun _ => [], fun _ => []⟩

/-- What the walk asks for: the plans, and how to build a deferred block before the given
instructions. -/
structure CfgEnv where
  plans : CleanupPlans
  deferred : Block → List InstId → List LoopTargets → List InstId × List (InstId × InstId)

/-- `append_inst`: the elements of `source` that `target` lacks are added. -/
def appendInst (target source : List InstId) : List InstId :=
  source.foldl (fun t id => if id ∈ t then t else t ++ [id]) target

/-- The edges from an instruction to the ones that follow it. -/
def succEdges (source : InstId) (targets : List InstId) : List (InstId × InstId) :=
  targets.map fun t => (source, t)

namespace CfgEnv

/-- `cleanup_entries` over the deferred blocks of a plan, last one first. -/
def cleanupEntries (E : CfgEnv) (targets : List LoopTargets) (plan : List Block)
    (successor : List InstId) : List InstId × List (InstId × InstId) :=
  plan.foldr
    (fun d (r : List InstId × List (InstId × InstId)) =>
      let (successor, edges) := E.deferred d r.1 targets
      (successor, r.2 ++ edges))
    (successor, [])

mutual

/-- What follows an instruction (`next`) and the edges of the blocks it carries, given the
instructions after it (`current`). -/
def buildCfgInst (E : CfgEnv) : Inst → List InstId → List LoopTargets →
    List InstId × List (InstId × InstId)
  | .ret id _ _, _, targets => E.cleanupEntries targets (E.plans.returnCleanup id) []
  | .brk id n, _, targets =>
    E.cleanupEntries targets (E.plans.edgeCleanup id) ((targets[n]?.map (·.breaks)).getD [])
  | .cont id n, _, targets =>
    E.cleanupEntries targets (E.plans.edgeCleanup id) ((targets[n]?.map (·.continues)).getD [])
  | .ifInst _ _ arms, current, targets =>
    let (next, edges) := E.buildCfgBlocks arms current targets []
    (if arms.length = 1 then appendInst next current else next, edges)
  | .switch _ _ arms, current, targets => E.buildCfgArms arms current targets []
  | .whileLoop _ c b, current, targets =>
    match c.insts.head? with
    | none => (current, [])
    | some conditionEntry =>
      let (body, edges) := E.buildCfg b [conditionEntry.id]
        (⟨current, [conditionEntry.id]⟩ :: targets)
      let (next, edges') := E.buildCfg c (appendInst body current) targets
      (next, edges ++ edges')
  | .forLoop _ i c p b, current, targets =>
    let conditionEntry := (c.insts.head?.map Inst.id).toList
    let (stepEntries, edges) := E.buildCfg p conditionEntry targets
    let (body, edges') := E.buildCfg b stepEntries (⟨current, stepEntries⟩ :: targets)
    let (conditionEntries, edges'') := E.buildCfg c (appendInst body current) targets
    let (next, edges''') := E.buildCfg i conditionEntries targets
    (next, edges ++ edges' ++ edges'' ++ edges''')
  | .doWhile _ c b, current, targets =>
    match c.insts.head? with
    | none => (current, [])
    | some conditionEntry =>
      match b.insts.head? with
      | none => E.buildCfg c (appendInst [conditionEntry.id] current) targets
      | some bodyEntry =>
        let (conditionEntries, edges) := E.buildCfg c (appendInst [bodyEntry.id] current) targets
        let (next, edges') := E.buildCfg b conditionEntries (⟨current, conditionEntries⟩ :: targets)
        (next, edges ++ edges')
  | .taskScope _ b, current, targets => E.buildCfg b current targets
  | _, current, _ => (current, [])

/-- `build_cfg`: the entries and the edges of a block before the given tail. -/
def buildCfg (E : CfgEnv) : Block → List InstId → List LoopTargets →
    List InstId × List (InstId × InstId)
  | .mk id l, tail, targets =>
    let (current, edges) := E.cleanupEntries targets (E.plans.blockCleanup id) tail
    let (current, edges') := E.buildCfgInsts l current targets
    (current, edges ++ edges')

/-- The loop of `build_cfg`, from the last instruction of a block to the first. -/
def buildCfgInsts (E : CfgEnv) : List Inst → List InstId → List LoopTargets →
    List InstId × List (InstId × InstId)
  | [], current, _ => (current, [])
  | i :: l, current, targets =>
    let (current, edges) := E.buildCfgInsts l current targets
    let (next, edges') := E.buildCfgInst i current targets
    ([i.id], edges ++ edges' ++ succEdges i.id next)

/-- The loop over the arms of an `If`, collecting their entries. -/
def buildCfgBlocks (E : CfgEnv) : List Block → List InstId → List LoopTargets → List InstId →
    List InstId × List (InstId × InstId)
  | [], _, _, next => (next, [])
  | b :: l, current, targets, next =>
    let (branch, edges) := E.buildCfg b current targets
    let (next, edges') := E.buildCfgBlocks l current targets (appendInst next branch)
    (next, edges ++ edges')

/-- The loop over the arms of a `Switch`, collecting their entries. -/
def buildCfgArms (E : CfgEnv) : List (Int × Block) → List InstId → List LoopTargets →
    List InstId → List InstId × List (InstId × InstId)
  | [], _, _, next => (next, [])
  | (_, b) :: l, current, targets, next =>
    let (branch, edges) := E.buildCfg b current targets
    let (next, edges') := E.buildCfgArms l current targets (appendInst next branch)
    (next, edges ++ edges')

end

/-- A task scope is built like the block it carries. -/
lemma buildCfgInst_taskScope (E : CfgEnv) (id : InstId) (b : Block) (current : List InstId)
    (targets : List LoopTargets) :
    E.buildCfgInst (.taskScope id b) current targets = E.buildCfg b current targets := by
  simp only [buildCfgInst]

end CfgEnv

/-- `build_cfg` with the given number of descents into deferred blocks. -/
def buildCfgLevel (plans : CleanupPlans) : Nat →
    Block → List InstId → List LoopTargets → List InstId × List (InstId × InstId)
  | 0 => fun _ tail _ => (tail, [])
  | n + 1 => CfgEnv.buildCfg ⟨plans, buildCfgLevel plans n⟩

lemma buildCfgLevel_succ (plans : CleanupPlans) (n : Nat) :
    buildCfgLevel plans (n + 1) = CfgEnv.buildCfg ⟨plans, buildCfgLevel plans n⟩ := rfl

/-- The control-flow graph of the loan analysis: its entries and its edges. -/
structure LoanCfg where
  entries : List InstId
  edges : List (InstId × InstId)

/-- The graph `analyzeInterproceduralLoans` builds for a function body. -/
def loanCfg (plans : CleanupPlans) (body : Block) : LoanCfg :=
  let (entries, edges) := buildCfgLevel plans (body.deferDepth + 1) body [] []
  ⟨entries, edges⟩

end Chtholly
