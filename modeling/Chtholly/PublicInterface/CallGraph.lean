import Chtholly.Graph.Tarjan
import Chtholly.PublicInterface.Canonicalize
import Chtholly.SemIR.Syntax
import Chtholly.Worklist.Closure

/-!
# The call graph

The functions of a module with the calls of their control-flow graphs
(`CallableOwnershipRegions.inc`, `CallableOwnershipSummary.inc`).  The call graph has an edge for a
call and for a call of a compiler intrinsic whose function is of the module.  The ownership
summaries are computed component by component of this graph.

## Main definitions

* `PublicInterface.SemIR` — the functions of a module, with what the analysis reads of them.
* `PublicInterface.callEdges`, `PublicInterface.callers` — the call graph in both directions.
* `PublicInterface.callGraphComponents` — its components.

## Main results

* `PublicInterface.mem_callers` — the callers are those with an edge.
* `PublicInterface.callGraphComponents_spec` — the components are a partition; callees come first.
-/

set_option autoImplicit false

namespace Chtholly

namespace PublicInterface

/-! ## Modules -/

inductive SemCallableDeclarationKind
  | definition | forward | foreign
  deriving DecidableEq

/-- A reference to a function of the module, or to an imported entity with its summary. -/
structure SemFunctionRef where
  localFunction : Option ℕ := none
  publicEntity : Option CallableOwnershipSummary := none

/-- The instructions that name a function; all others are alike here. -/
inductive SemInst
  | call (function : SemFunctionRef)
  | compilerIntrinsicCall (function : SemFunctionRef)
  | foreignOperationCall (function : SemFunctionRef)
  | other

/-- The function whose summary an instruction looks up. -/
def SemInst.function? : SemInst → Option SemFunctionRef
  | .call function => some function
  | .compilerIntrinsicCall function => some function
  | .foreignOperationCall function => some function
  | .other => none

def SemInst.localFunction? (inst : SemInst) : Option ℕ :=
  inst.function?.bind SemFunctionRef.localFunction

/-- The callee of an instruction in the call graph. -/
def SemInst.callee? : SemInst → Option ℕ
  | .call function => function.localFunction
  | .compilerIntrinsicCall function => function.localFunction
  | .foreignOperationCall _ => none
  | .other => none

structure SemFunction where
  kind : SemCallableDeclarationKind := .definition
  declaredContract : Option CallableOwnershipSummary := none
  returnOwnership : OwnershipReprKind := .owned
  evaluatorArtifact : Bool := false
  bodyEmpty : Bool := false
  expectedOwnership : Option CallableOwnershipSummary := none
  ownership : CallableOwnershipSummary := {}
  /-- The instructions of the control-flow graph, in the order of their ids. -/
  graph : List SemInst := []

/-- A module.  The functions that are referred to are there, and an operation of a foreign protocol
is a declaration. -/
structure SemIR where
  functions : List SemFunction
  bound : ∀ function ∈ functions, ∀ inst ∈ function.graph, ∀ callee ∈ inst.localFunction?,
    callee < functions.length
  foreign : ∀ function ∈ functions, ∀ inst ∈ function.graph, inst.callee? ≠ inst.localFunction? →
    ∀ callee ∈ inst.localFunction?, ∀ operation ∈ functions[callee]?, operation.kind ≠ .definition

namespace SemIR

def functionCount (sem : SemIR) : ℕ :=
  sem.functions.length

def graph (sem : SemIR) (function : ℕ) : List SemInst :=
  (sem.functions[function]?.map SemFunction.graph).getD []

def isDefinition (sem : SemIR) (function : ℕ) : Bool :=
  sem.functions[function]?.any fun record => record.kind = .definition

end SemIR

/-! ## The graph -/

/-- The callees of a function in the order of the calls. -/
def calledFunctions (sem : SemIR) (function : ℕ) : List ℕ :=
  (sem.graph function).filterMap SemInst.callee?

def callEdges (sem : SemIR) (function : ℕ) : List ℕ :=
  Worklist.pushNew [] (calledFunctions sem function)

def callGraphComponents (sem : SemIR) : List (List ℕ) :=
  Graph.components (callEdges sem) sem.functionCount

def recordCaller (caller : ℕ) (callers : ℕ → List ℕ) (callee : ℕ) : ℕ → List ℕ :=
  if caller ∈ callers callee then callers
  else Function.update callers callee (callers callee ++ [caller])

/-- The callers of all functions, before they are sorted. -/
def recordedCallers (sem : SemIR) : ℕ → List ℕ :=
  (List.range sem.functionCount).foldl (fun callers caller =>
    (calledFunctions sem caller).foldl (recordCaller caller) callers) fun _ => []

def callers (sem : SemIR) (callee : ℕ) : List ℕ :=
  (recordedCallers sem callee).insertionSort (· ≤ ·)

variable {sem : SemIR} {function callee : ℕ}

@[simp] lemma mem_callEdges :
    callee ∈ callEdges sem function ↔ callee ∈ calledFunctions sem function := by
  simp [callEdges, Worklist.mem_pushNew]

lemma mem_recordCaller {caller other : ℕ} {callers : ℕ → List ℕ} :
    other ∈ recordCaller caller callers callee function ↔
      other ∈ callers function ∨ other = caller ∧ function = callee := by
  rw [recordCaller]
  by_cases hmem : caller ∈ callers callee
  · rw [if_pos hmem]
    refine ⟨Or.inl, ?_⟩
    rintro (hother | ⟨rfl, rfl⟩)
    · exact hother
    · exact hmem
  · rw [if_neg hmem]
    by_cases heq : function = callee
    · simp [heq]
    · simp [heq]

lemma mem_foldl_recordCaller {caller other : ℕ} {callees : List ℕ} {callers : ℕ → List ℕ} :
    other ∈ callees.foldl (recordCaller caller) callers function ↔
      other ∈ callers function ∨ other = caller ∧ function ∈ callees := by
  induction callees generalizing callers with
  | nil => simp
  | cons callee callees ih =>
    rw [List.foldl_cons, ih, mem_recordCaller, or_assoc, List.mem_cons, and_or_left]

/-- The callers of a function are the functions with an edge to it. -/
lemma mem_callers {caller : ℕ} :
    caller ∈ callers sem callee ↔ caller < sem.functionCount ∧ callee ∈ callEdges sem caller := by
  have hfold : ∀ (nodes : List ℕ) (recorded : ℕ → List ℕ),
      caller ∈ nodes.foldl (fun callers caller =>
          (calledFunctions sem caller).foldl (recordCaller caller) callers) recorded callee ↔
        caller ∈ recorded callee ∨ caller ∈ nodes ∧ callee ∈ calledFunctions sem caller := by
    intro nodes
    induction nodes with
    | nil => simp
    | cons node nodes ih =>
      intro recorded
      rw [List.foldl_cons, ih, mem_foldl_recordCaller, or_assoc, List.mem_cons, or_and_right]
      refine or_congr_right (or_congr_left (and_congr_right ?_))
      rintro rfl
      exact Iff.rfl
  rw [callers, List.mem_insertionSort, recordedCallers, hfold, mem_callEdges, List.mem_range]
  simp

/-! ## What a function looks up -/

namespace SemIR

/-- An instruction of the function looks the summary of a function of the module up. -/
def LooksUp (sem : SemIR) (function callee : ℕ) : Prop :=
  ∃ inst ∈ sem.graph function, inst.localFunction? = some callee

lemma exists_of_mem_graph {inst : SemInst} (h : inst ∈ sem.graph function) :
    ∃ record, sem.functions[function]? = some record ∧ inst ∈ record.graph := by
  rw [graph] at h
  cases hrecord : sem.functions[function]? with
  | none =>
    rw [hrecord] at h
    exact absurd h List.not_mem_nil
  | some record =>
    rw [hrecord] at h
    exact ⟨record, rfl, h⟩

lemma LooksUp.lt (h : sem.LooksUp function callee) : callee < sem.functionCount := by
  obtain ⟨inst, hinst, hcallee⟩ := h
  obtain ⟨record, hrecord, hmem⟩ := exists_of_mem_graph hinst
  exact sem.bound record (List.mem_of_getElem? hrecord) inst hmem callee hcallee

lemma LooksUp.caller_lt (h : sem.LooksUp function callee) : function < sem.functionCount := by
  obtain ⟨inst, hinst, -⟩ := h
  obtain ⟨record, hrecord, -⟩ := exists_of_mem_graph hinst
  exact (List.getElem?_eq_some_iff.1 hrecord).1

end SemIR

lemma SemInst.localFunction?_of_callee? {inst : SemInst} (h : inst.callee? = some callee) :
    inst.localFunction? = some callee := by
  cases inst with
  | call function => exact h
  | compilerIntrinsicCall function => exact h
  | foreignOperationCall function => cases h
  | other => cases h

lemma looksUp_of_mem_callEdges (h : callee ∈ callEdges sem function) :
    sem.LooksUp function callee := by
  rw [mem_callEdges, calledFunctions, List.mem_filterMap] at h
  obtain ⟨inst, hinst, hcallee⟩ := h
  exact ⟨inst, hinst, SemInst.localFunction?_of_callee? hcallee⟩

/-- Definitions are looked up along edges of the call graph only. -/
lemma mem_callEdges_of_looksUp (h : sem.LooksUp function callee)
    (hdefinition : sem.isDefinition callee = true) : callee ∈ callEdges sem function := by
  obtain ⟨inst, hinst, hcallee⟩ := h
  obtain ⟨record, hrecord, hmem⟩ := SemIR.exists_of_mem_graph hinst
  rw [mem_callEdges, calledFunctions, List.mem_filterMap]
  refine ⟨inst, hinst, ?_⟩
  rw [← hcallee]
  by_contra hne
  obtain ⟨operation, hoperation, hkind⟩ := (Option.any_eq_true _ _).1 hdefinition
  exact sem.foreign record (List.mem_of_getElem? hrecord) inst hmem hne callee hcallee operation
    hoperation (of_decide_eq_true hkind)

/-! ## The components -/

lemma lt_of_mem_callEdges (h : callee ∈ callEdges sem function) : callee < sem.functionCount :=
  (looksUp_of_mem_callEdges h).lt

/-- **The components** of the call graph are a partition of the functions into classes that reach
each other, and every callee is in the component of its caller or in an earlier one. -/
theorem callGraphComponents_spec (sem : SemIR) :
    (callGraphComponents sem).flatten.Nodup ∧
      (∀ function, function ∈ (callGraphComponents sem).flatten ↔ function < sem.functionCount) ∧
      Graph.Settled (callEdges sem) (callGraphComponents sem) :=
  Graph.components_spec fun _ _ _ hcallee => lt_of_mem_callEdges hcallee

end PublicInterface

end Chtholly
