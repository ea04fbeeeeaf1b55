import Chtholly.Flow.LoanCfg
import Chtholly.Worklist.Reach
import Mathlib.Data.Finset.Basic
import Mathlib.Data.List.Sort

/-!
# The liveness of the loan analysis

`analyzeInterproceduralLoans` (`PlaceStateAnalysisApi.inc`) asks at every observation of a place
which borrows are live.  It walks the instructions of a body that its graph reaches and computes,
backwards over the edges, which results of instructions and which locals may still be used.

## Main definitions

* `Loans.SemInst`, `Loans.Tables` — the instructions as the analysis reads them.
* `Loans.FunctionBody` — a body with its graph, `Loans.FunctionBody.order` what the graph reaches.
* `Loans.SemInst.loanOperands` — the operands whose loans flow into an instruction.
* `Loans.SemInst.liveOperands` — the operands that the liveness counts as used.
* `Loans.SemInst.usedOperands` — the operands that are used, not written.
* `Loans.FunctionBody.liveness` — the sets of the analysis.

## Design

The kinds of instructions that the analysis names are constructors; of the others
(`SemInstKind.other`) it reads what the table of kinds says of their two arguments.  A set without
an entry is empty.
-/

set_option autoImplicit false

namespace Chtholly

namespace Loans

/-! ## Instructions -/

/-- What an argument of an instruction is. -/
inductive SemArgKind
  | none | inst | type | name | function | functionRef | loc | integer | string | block | constant
  deriving DecidableEq

inductive SemInstKind
  | assign | bindName | nameRef
  | call | foreignOperationCall | compilerIntrinsicCall
  | indirectCall | indirectForeignCall | callbackAdapterCall
  | makeCallbackRegistration | aggregateInit | closure | arrayLiteral
  | other (arg0 arg1 : SemArgKind)
  deriving DecidableEq

/-- The table of kinds (`SemIRKind.def`). -/
def semInstArgKinds : SemInstKind → SemArgKind × SemArgKind
  | .assign => (.inst, .inst)
  | .bindName => (.loc, .inst)
  | .nameRef => (.loc, .none)
  | .call => (.functionRef, .block)
  | .foreignOperationCall => (.functionRef, .block)
  | .compilerIntrinsicCall => (.functionRef, .block)
  | .indirectCall => (.inst, .block)
  | .indirectForeignCall => (.inst, .block)
  | .callbackAdapterCall => (.inst, .block)
  | .makeCallbackRegistration => (.block, .none)
  | .aggregateInit => (.block, .none)
  | .closure => (.functionRef, .block)
  | .arrayLiteral => (.block, .none)
  | .other arg0 arg1 => (arg0, arg1)

structure SemInst where
  kind : SemInstKind
  type : TypeId
  arg0 : ℕ
  arg1 : ℕ

/-- The tables of a module; `carriesBorrow` says of which types the loan carrier capability is not
`None`. -/
structure Tables where
  instCount : ℕ
  inst : InstId → SemInst
  instBlock : InstBlockId → List InstId
  localType : LocalId → TypeId
  carriesBorrow : TypeId → Bool

namespace SemInst

/-- The arguments that are instructions, of those that `counted` admits. -/
def directOperands (inst : SemInst) (counted : Fin 2 → Bool) : List InstId :=
  (if (semInstArgKinds inst.kind).1 = .inst ∧ counted 0 = true then [inst.arg0] else []) ++
    (if (semInstArgKinds inst.kind).2 = .inst ∧ counted 1 = true then [inst.arg1] else [])

/-- The operand block whose loans flow into an instruction: the list of kinds of the consumers and
of the inputs. -/
def loanBlock? (inst : SemInst) : Option InstBlockId :=
  match inst.kind with
  | .call | .foreignOperationCall | .compilerIntrinsicCall
  | .indirectCall | .indirectForeignCall | .callbackAdapterCall => some inst.arg1
  | .closure => some inst.arg1
  | .makeCallbackRegistration | .aggregateInit | .arrayLiteral => some inst.arg0
  | _ => Option.none

/-- The operand block that the liveness counts as used: the list of kinds written out there. -/
def liveBlock? (inst : SemInst) : Option InstBlockId :=
  match inst.kind with
  | .call | .foreignOperationCall | .compilerIntrinsicCall => some inst.arg1
  | .closure => some inst.arg1
  | .makeCallbackRegistration | .aggregateInit | .arrayLiteral => some inst.arg0
  | _ => Option.none

/-- The operands whose loans flow into an instruction. -/
def loanOperands (tables : Tables) (inst : SemInst) : List InstId :=
  inst.directOperands (fun _ => true) ++ (inst.loanBlock?.map tables.instBlock).getD []

/-- The operands that the liveness counts as used.  The target of an assignment is written. -/
def liveOperands (tables : Tables) (inst : SemInst) : List InstId :=
  inst.directOperands (fun arg => !(inst.kind = .assign ∧ arg = 0)) ++
    (inst.liveBlock?.map tables.instBlock).getD []

/-- The operands whose values an instruction uses: those whose loans flow into it, but for the target
of an assignment, which is written. -/
def usedOperands (tables : Tables) (inst : SemInst) : List InstId :=
  inst.directOperands (fun arg => !(inst.kind = .assign ∧ arg = 0)) ++
    (inst.loanBlock?.map tables.instBlock).getD []

end SemInst

/-! ## Bodies -/

/-- A function body with the tables of its module.  The graph holds instructions of the module. -/
structure FunctionBody where
  tables : Tables
  root : Block
  plans : CleanupPlans
  entries_lt : ∀ id ∈ (loanCfg plans root).entries, id < tables.instCount
  edges_lt : ∀ edge ∈ (loanCfg plans root).edges, edge.2 < tables.instCount

namespace FunctionBody

variable (body : FunctionBody)

def inst (id : InstId) : SemInst :=
  body.tables.inst id

def carriesBorrow (id : InstId) : Bool :=
  body.tables.carriesBorrow (body.inst id).type

/-- The graph of the body, which `build_cfg` builds. -/
def cfg : LoanCfg :=
  loanCfg body.plans body.root

/-- The successors of an instruction, each of them once. -/
def successors (id : InstId) : List InstId :=
  appendInst [] ((body.cfg.edges.filter (·.1 = id)).map (·.2))

/-- The instructions that the entries of the graph lead to, by their index. -/
def order : List InstId :=
  (DenseWorklist.reach body.successors (DenseWorklist.reachBound body.tables.instCount)
    ((DenseWorklist.create body.tables.instCount .lifo).pushAll body.cfg.entries)
    []).insertionSort (· ≤ ·)

/-- The predecessors of an instruction among those that the graph reaches. -/
def predecessors (id : InstId) : List InstId :=
  body.order.filter fun source => id ∈ body.successors source

def assignmentTargets : List InstId :=
  (body.order.filter fun id => (body.inst id).kind = .assign).map fun id => (body.inst id).arg0

end FunctionBody

/-! ## The sets -/

/-- The live results and locals before an instruction and after it. -/
structure LiveSets where
  instIn : Finset InstId
  instOut : Finset InstId
  localIn : Finset LocalId
  localOut : Finset LocalId
  deriving DecidableEq

def LiveSets.empty : LiveSets :=
  ⟨∅, ∅, ∅, ∅⟩

/-- The union of sets over a list. -/
def joinOver (ids : List InstId) (sets : InstId → Finset ℕ) : Finset ℕ :=
  ids.foldl (fun joined id => joined ∪ sets id) ∅

namespace FunctionBody

variable (body : FunctionBody)

/-- `add_use`: an operand counts when it is an instruction whose type carries a borrow. -/
def addUse (live : Finset InstId) (raw : ℕ) : Finset InstId :=
  if raw < body.tables.instCount ∧ body.carriesBorrow raw = true then insert raw live else live

/-- The local that an instruction gives a new value. -/
def definedLocal? (id : InstId) : Option LocalId :=
  match (body.inst id).kind with
  | .bindName => some (body.inst id).arg0
  | .assign =>
    let target := body.inst (body.inst id).arg0
    if target.kind = .nameRef then some target.arg0 else none
  | _ => none

/-- The local that an instruction reads, when its type carries a borrow. -/
def usedLocal? (id : InstId) : Option LocalId :=
  let inst := body.inst id
  if inst.kind = .nameRef ∧ id ∉ body.assignmentTargets ∧
      body.tables.carriesBorrow (body.tables.localType inst.arg0) = true then
    some inst.arg0
  else none

/-- The sets of an instruction from those of its successors. -/
def evaluate (id : InstId) (store : InstId → LiveSets) : LiveSets :=
  let instOut := joinOver (body.successors id) fun successor => (store successor).instIn
  let localOut := joinOver (body.successors id) fun successor => (store successor).localIn
  let instIn := ((body.inst id).liveOperands body.tables).foldl body.addUse (instOut.erase id)
  let localIn := match body.definedLocal? id with
    | some defined => localOut.erase defined
    | none => localOut
  let localIn := match body.usedLocal? id with
    | some used => insert used localIn
    | none => localIn
  ⟨instIn, instOut, localIn, localOut⟩

/-- The loop over the worklist, with the number of instructions it may process; beyond it the
analysis does not converge and is dropped. -/
def livenessLoop (limit : ℕ) : ℕ → DenseWorklist → (InstId → LiveSets) →
    Option (InstId → LiveSets)
  | 0, _, _ => none
  | rounds + 1, worklist, store =>
    match worklist.pop with
    | none => some store
    | some (id, worklist) =>
      if limit < worklist.processedCount then none
      else
        let value := body.evaluate id store
        if value = store id then livenessLoop limit rounds worklist store
        else
          livenessLoop limit rounds (worklist.pushAll (body.predecessors id))
            (Function.update store id value)

/-- How many instructions may be processed. -/
def liveLimit : ℕ :=
  max 4096 (64 * (body.order.length + 1))

/-- The live sets of a body, unless the analysis does not converge. -/
def liveness : Option (InstId → LiveSets) :=
  body.livenessLoop body.liveLimit (body.liveLimit + 1)
    ((DenseWorklist.create body.tables.instCount .fifo).pushAll body.order.reverse)
    fun _ => .empty

end FunctionBody

end Loans

end Chtholly
