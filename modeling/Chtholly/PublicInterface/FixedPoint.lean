import Mathlib.Algebra.GroupWithZero.Nat
import Chtholly.PublicInterface.CallGraph
import Chtholly.Worklist.Dense
import Chtholly.Worklist.Stable

/-!
# Ownership summaries by a fixed point

The summaries of the functions of a module (`CallableOwnershipSummary.inc`).  A function that is
not a definition keeps its declared summary.  The definitions are evaluated component by component
of the call graph; within a component the callers of a function are put into the worklist again when
its summary changes, until nothing is pending or the budget of the component is used up.

The analysis of one function body is a parameter: it gets the summary that each instruction looks
up, and tells whether the path of a region was too long.

## Main definitions

* `PublicInterface.initialOwnership` — the summaries before the first evaluation.
* `PublicInterface.buildSummary` — the evaluation of one function.
* `PublicInterface.componentLoop`, `PublicInterface.analyzeCallableOwnership` — the fixed point.

## Main results

* `PublicInterface.componentLoop_fuel` — the budget bounds the loop.
* `PublicInterface.componentLoop_looped` — a function of the component is pending or stable.
* `PublicInterface.analyzeCallableOwnership_fixedPoint` — when the analysis converges, all
  definitions are stable.
-/

set_option autoImplicit false

namespace Chtholly

namespace PublicInterface

/-! ## Initial summaries -/

/-- The outcomes that an effect stands for. -/
def declaredOutcomes : CallableEffectKind → UInt8
  | .initializes => callableOutcomeInitialize
  | .write => callableOutcomePreserve ||| callableOutcomeInitialize
  | .take => callableOutcomePreserve ||| callableOutcomeInvalidate
  | _ => 0

/-- The first entry whose region covers the given one or is covered by it, taken out of the list. -/
def mergeFirst (region : OwnershipRegion) (outcomes : UInt8) :
    List CallableRegionPostcondition →
      Option (OwnershipRegion × UInt8 × List CallableRegionPostcondition)
  | [] => none
  | existing :: rest =>
    if !ownershipRegionCovers existing.region region &&
        !ownershipRegionCovers region existing.region then
      (mergeFirst region outcomes rest).map fun (region, outcomes, rest) =>
        (region, outcomes, existing :: rest)
    else
      some (if ownershipRegionCovers existing.region region then existing.region else region,
        outcomes ||| existing.outcomes, rest)

/-- The loop that merges entries, each of which shortens the list. -/
def mergeEntries : ℕ → OwnershipRegion → UInt8 → List CallableRegionPostcondition →
    OwnershipRegion × UInt8 × List CallableRegionPostcondition
  | 0, region, outcomes, entries => (region, outcomes, entries)
  | steps + 1, region, outcomes, entries =>
    match mergeFirst region outcomes entries with
    | none => (region, outcomes, entries)
    | some (region, outcomes, entries) => mergeEntries steps region outcomes entries

/-- The loop over the effects; the entries are those after the explicit ones. -/
def completeEffect (explicit entries : List CallableRegionPostcondition)
    (effect : CallableRegionEffect) : List CallableRegionPostcondition :=
  let outcomes := declaredOutcomes effect.kind
  if outcomes = 0 || explicit.any (ownershipRegionCovers ·.region effect.region) then entries
  else
    let (region, outcomes, rest) := mergeEntries entries.length effect.region outcomes entries
    rest ++ [{ region, outcomes }]

def completeDeclaredPostconditions (summary : CallableOwnershipSummary) :
    CallableOwnershipSummary :=
  canonicalize
    { summary with
      postconditions := summary.postconditions ++
        summary.effects.foldl (completeEffect summary.postconditions) [] }

/-- The summary of a function before the first evaluation. -/
def SemFunction.initialOwnership (function : SemFunction) : CallableOwnershipSummary :=
  if function.evaluatorArtifact && function.bodyEmpty && function.expectedOwnership.isSome then
    function.ownership
  else
    match function.kind, function.declaredContract with
    | .definition, _ => { returnsOwned := function.returnOwnership ≠ .borrowed }
    | _, some contract => completeDeclaredPostconditions contract
    | _, none => { returnsOwned := function.returnOwnership ≠ .borrowed }

def initialOwnership (sem : SemIR) (function : ℕ) : CallableOwnershipSummary :=
  (sem.functions[function]?.map SemFunction.initialOwnership).getD {}

/-! ## The evaluation of a function -/

def callableOwnershipSummary (summaries : ℕ → CallableOwnershipSummary)
    (reference : SemFunctionRef) : Option CallableOwnershipSummary :=
  match reference.localFunction with
  | some function => some (summaries function)
  | none => reference.publicEntity

/-- What an instruction finds of its callee. -/
def calleeSummary (summaries : ℕ → CallableOwnershipSummary) (inst : SemInst) :
    Option CallableOwnershipSummary :=
  inst.function?.bind (callableOwnershipSummary summaries)

/-- The analysis of the body of a function, given the summaries of the callees of its instructions;
it also tells whether a path overflowed. -/
abbrev BodyAnalysis :=
  ℕ → List (Option CallableOwnershipSummary) → CallableOwnershipSummary × Bool

def buildSummary (sem : SemIR) (analysis : BodyAnalysis) (function : ℕ)
    (summaries : ℕ → CallableOwnershipSummary) : CallableOwnershipSummary × Bool :=
  analysis function ((sem.graph function).map (calleeSummary summaries))

/-! ## The fixed point -/

structure Progress where
  summaries : ℕ → CallableOwnershipSummary
  nonConvergent : Bool

/-- The loop over the worklist of a component, with a bound for the number of rounds. -/
def componentLoop (sem : SemIR) (analysis : BodyAnalysis) (component : List ℕ) (limit : ℕ) :
    ℕ → DenseWorklist → Progress → DenseWorklist × Progress
  | 0, worklist, progress => (worklist, progress)
  | rounds + 1, worklist, progress =>
    match worklist.pop with
    | none => (worklist, progress)
    | some (function, worklist) =>
      if limit < worklist.processedCount then
        (worklist, { progress with nonConvergent := true })
      else if sem.isDefinition function = false then
        componentLoop sem analysis component limit rounds worklist progress
      else
        let (summary, pathOverflow) := buildSummary sem analysis function progress.summaries
        let progress :=
          { progress with nonConvergent := progress.nonConvergent || pathOverflow }
        if summary = progress.summaries function then
          componentLoop sem analysis component limit rounds worklist progress
        else
          componentLoop sem analysis component limit rounds
            (worklist.pushAll ((callers sem function).filter (· ∈ component)))
            { progress with summaries := Function.update progress.summaries function summary }

/-- How many functions of a component may be processed. -/
def componentLimit (sem : SemIR) (component : List ℕ) : ℕ :=
  max 4096 (64 * (component.length +
    (component.map fun function => (callers sem function).length).sum + 1))

def analyzeComponent (sem : SemIR) (analysis : BodyAnalysis) (progress : Progress)
    (component : List ℕ) : Progress :=
  let ordered := component.insertionSort (· ≤ ·)
  let limit := componentLimit sem ordered
  let (worklist, progress) := componentLoop sem analysis component limit (limit + 1)
    ((DenseWorklist.create sem.functionCount .fifo).pushAll ordered) progress
  if worklist.pendingCount ≠ 0 then { progress with nonConvergent := true } else progress

/-- The summaries after the fixed point, and whether it did not converge. -/
def analyzeCallableOwnership (sem : SemIR) (analysis : BodyAnalysis) : Progress :=
  (callGraphComponents sem).foldl (analyzeComponent sem analysis)
    { summaries := initialOwnership sem, nonConvergent := false }

/-! ## What an evaluation reads -/

variable {sem : SemIR} {analysis : BodyAnalysis} {component : List ℕ} {limit : ℕ}
  {worklist : DenseWorklist} {progress : Progress}

lemma buildSummary_congr {function : ℕ} {summaries summaries' : ℕ → CallableOwnershipSummary}
    (h : ∀ callee, sem.LooksUp function callee → summaries callee = summaries' callee) :
    buildSummary sem analysis function summaries =
      buildSummary sem analysis function summaries' := by
  have hlookups : (sem.graph function).map (calleeSummary summaries) =
      (sem.graph function).map (calleeSummary summaries') := by
    refine List.map_congr_left fun inst hinst => ?_
    rw [calleeSummary, calleeSummary]
    cases hreference : inst.function? with
    | none => rfl
    | some reference =>
      rw [Option.bind_some, Option.bind_some, callableOwnershipSummary, callableOwnershipSummary]
      cases hlocal : reference.localFunction with
      | none => rfl
      | some callee =>
        have hcallee : inst.localFunction? = some callee := by
          rw [SemInst.localFunction?, hreference, Option.bind_some, hlocal]
        exact congrArg some (h callee ⟨inst, hinst, hcallee⟩)
  rw [buildSummary, buildSummary, hlookups]

/-- The summary that a function is given by its evaluation. -/
abbrev evaluated (sem : SemIR) (analysis : BodyAnalysis) (function : ℕ)
    (summaries : ℕ → CallableOwnershipSummary) : CallableOwnershipSummary :=
  (buildSummary sem analysis function summaries).1

lemma reads_evaluated : Worklist.Reads (evaluated sem analysis) sem.LooksUp :=
  fun _ _ _ h => congrArg Prod.fst (buildSummary_congr h)

/-! ## The loop over a component -/

/-- The definitions of a component, which are the functions that are evaluated. -/
abbrev definitions (sem : SemIR) (component : List ℕ) : List ℕ :=
  component.filter (sem.isDefinition ·)

/-- Before a round of the loop. -/
structure Rounds (sem : SemIR) (analysis : BodyAnalysis) (component : List ℕ)
    (worklist : DenseWorklist) (summaries : ℕ → CallableOwnershipSummary) : Prop where
  valid : worklist.Valid
  idCount : worklist.idCount = sem.functionCount
  members : ∀ function ∈ worklist.pending, function ∈ component
  covered : Worklist.Covered (evaluated sem analysis) summaries (definitions sem component)
    worklist.pending

variable {rest : DenseWorklist} {summaries : ℕ → CallableOwnershipSummary} {function : ℕ}

section

variable (h : Rounds sem analysis component worklist summaries)
  (htaken : DenseWorklist.Taken worklist function rest)

include h htaken

lemma Rounds.covered_taken :
    Worklist.Covered (evaluated sem analysis) summaries (definitions sem component)
      (function :: rest.pending) :=
  h.covered.mono fun _ hmem => htaken.pending.mem_iff.1 hmem

lemma Rounds.members_taken : ∀ other ∈ rest.pending, other ∈ component :=
  fun other hother => h.members other (htaken.pending.mem_iff.2 (List.mem_cons_of_mem _ hother))

/-- A function that is not a definition, or whose summary stays, is taken out. -/
lemma Rounds.keep
    (hstable : sem.isDefinition function = true →
      Worklist.Stable (evaluated sem analysis) summaries function) :
    Rounds sem analysis component rest summaries where
  valid := htaken.valid
  idCount := htaken.idCount.trans h.idCount
  members := h.members_taken htaken
  covered := (h.covered_taken htaken).keep fun hmem => hstable (List.mem_filter.1 hmem).2

/-- A definition whose summary changes is taken out, and its callers in the component are put in. -/
lemma Rounds.update (hdefinition : sem.isDefinition function = true) :
    Rounds sem analysis component
      (rest.pushAll ((callers sem function).filter (· ∈ component)))
      (Function.update summaries function (evaluated sem analysis function summaries)) where
  valid := htaken.valid.pushAll _
  idCount := by rw [DenseWorklist.idCount_pushAll, htaken.idCount, h.idCount]
  members other hother := by
    rcases htaken.valid.mem_pending_pushAll.1 hother with hrest | ⟨hcaller, -⟩
    · exact h.members_taken htaken other hrest
    · exact of_decide_eq_true (List.mem_filter.1 hcaller).2
  covered := by
    refine (h.covered_taken htaken).update reads_evaluated
      (fun other hother => htaken.valid.mem_pending_pushAll.2 (Or.inl hother)) ?_
    -- Who looks a definition up has an edge to it.
    intro caller hcaller hlooksUp
    have hedge := mem_callEdges_of_looksUp hlooksUp hdefinition
    have hcallers := mem_callers.2 ⟨hlooksUp.caller_lt, hedge⟩
    refine htaken.valid.mem_pending_pushAll.2 (Or.inr ⟨List.mem_filter.2 ⟨hcallers, ?_⟩, ?_⟩)
    · exact decide_eq_true (List.mem_filter.1 hcaller).1
    · rw [htaken.idCount, h.idCount]
      exact hlooksUp.caller_lt

end

/-- What the loop over a component leaves. -/
structure Looped (sem : SemIR) (analysis : BodyAnalysis) (component : List ℕ) (progress : Progress)
    (result : DenseWorklist × Progress) : Prop where
  converges : result.2.nonConvergent = false →
    progress.nonConvergent = false ∧
      Worklist.Covered (evaluated sem analysis) result.2.summaries (definitions sem component)
        result.1.pending
  keeps : ∀ function, function ∉ component ∨ sem.isDefinition function = false →
    result.2.summaries function = progress.summaries function

/-- As long as the budget is not used up, a definition of the component is pending or stable. -/
theorem componentLoop_looped (rounds : ℕ) :
    ∀ {worklist : DenseWorklist} {progress : Progress},
      Rounds sem analysis component worklist progress.summaries →
      Looped sem analysis component progress
        (componentLoop sem analysis component limit rounds worklist progress) := by
  induction rounds with
  | zero => exact fun h => ⟨fun hconverges => ⟨hconverges, h.covered⟩, fun _ _ => rfl⟩
  | succ rounds ih =>
    intro worklist progress h
    rw [componentLoop]
    cases hpop : worklist.pop with
    | none => exact ⟨fun hconverges => ⟨hconverges, h.covered⟩, fun _ _ => rfl⟩
    | some taken =>
      obtain ⟨function, rest⟩ := taken
      have htaken := h.valid.pop_eq_some hpop
      have hmember : function ∈ component :=
        h.members function (htaken.pending.mem_iff.2 List.mem_cons_self)
      dsimp only
      by_cases hlimit : limit < rest.processedCount
      · -- The function that was taken is lost, but the loop reports that it did not converge.
        rw [if_pos hlimit]
        exact ⟨fun hconverges => Bool.noConfusion hconverges, fun _ _ => rfl⟩
      rw [if_neg hlimit]
      by_cases hdefinition : sem.isDefinition function = false
      · rw [if_pos hdefinition]
        refine ih (h.keep htaken fun htrue => ?_)
        rw [hdefinition] at htrue
        cases htrue
      rw [if_neg hdefinition]
      rw [Bool.not_eq_false] at hdefinition
      by_cases hsame : (buildSummary sem analysis function progress.summaries).1 =
          progress.summaries function
      · rw [if_pos hsame]
        have hnext : Looped sem analysis component
            { progress with nonConvergent := progress.nonConvergent ||
              (buildSummary sem analysis function progress.summaries).2 } _ :=
          ih (h.keep htaken fun _ => hsame.symm)
        obtain ⟨hconverges, hkeeps⟩ := hnext
        exact ⟨fun hresult => (hconverges hresult).imp_left fun hor =>
          (Bool.or_eq_false_iff.1 hor).1, hkeeps⟩
      · rw [if_neg hsame]
        have hnext : Looped sem analysis component
            ⟨Function.update progress.summaries function
              (buildSummary sem analysis function progress.summaries).1, progress.nonConvergent ||
              (buildSummary sem analysis function progress.summaries).2⟩ _ :=
          ih (h.update htaken hdefinition)
        obtain ⟨hconverges, hkeeps⟩ := hnext
        refine ⟨fun hresult => (hconverges hresult).imp_left fun hor =>
          (Bool.or_eq_false_iff.1 hor).1, fun other hother => ?_⟩
        rw [hkeeps other hother]
        refine Function.update_of_ne ?_ _ _
        rintro rfl
        rcases hother with hout | hdeclared
        · exact hout hmember
        · rw [hdefinition] at hdeclared
          cases hdeclared

/-- The budget bounds the loop: more rounds than the budget has change nothing. -/
theorem componentLoop_fuel (rounds more : ℕ) :
    ∀ {worklist : DenseWorklist} {progress : Progress}, worklist.Valid →
      worklist.processedCount ≤ limit → limit < worklist.processedCount + rounds →
      componentLoop sem analysis component limit (rounds + more) worklist progress =
        componentLoop sem analysis component limit rounds worklist progress := by
  induction rounds with
  | zero =>
    intro worklist progress _ hle hlt
    omega
  | succ rounds ih =>
    intro worklist progress hvalid hle hlt
    rw [Nat.add_right_comm, componentLoop, componentLoop]
    cases hpop : worklist.pop with
    | none => rfl
    | some taken =>
      obtain ⟨function, rest⟩ := taken
      have htaken := hvalid.pop_eq_some hpop
      have hcount := htaken.processedCount
      dsimp only
      by_cases hlimit : limit < rest.processedCount
      · rw [if_pos hlimit, if_pos hlimit]
      have hnext : rest.processedCount ≤ limit := by omega
      have hrounds : limit < rest.processedCount + rounds := by omega
      rw [if_neg hlimit, if_neg hlimit]
      split
      · exact ih htaken.valid hnext hrounds
      split
      · exact ih htaken.valid hnext hrounds
      · refine ih (htaken.valid.pushAll _) ?_ ?_
        · rwa [DenseWorklist.processedCount_pushAll]
        · rwa [DenseWorklist.processedCount_pushAll]

/-! ## All components -/

lemma rounds_create (hbound : ∀ function ∈ component, function < sem.functionCount)
    (summaries : ℕ → CallableOwnershipSummary) :
    Rounds sem analysis component
      ((DenseWorklist.create sem.functionCount .fifo).pushAll (component.insertionSort (· ≤ ·)))
      summaries := by
  have hvalid := DenseWorklist.Valid.create sem.functionCount .fifo
  have hpending : ∀ function, function ∈ ((DenseWorklist.create sem.functionCount .fifo).pushAll
      (component.insertionSort (· ≤ ·))).pending ↔ function ∈ component := by
    intro function
    rw [hvalid.mem_pending_pushAll, List.mem_insertionSort]
    exact ⟨fun hmem => hmem.elim (fun hnil => absurd hnil List.not_mem_nil) And.left,
      fun hmem => Or.inr ⟨hmem, hbound function hmem⟩⟩
  refine ⟨hvalid.pushAll _, DenseWorklist.idCount_pushAll _ _, fun function hmem =>
    (hpending function).1 hmem, fun function hmem => Or.inl ?_⟩
  exact (hpending function).2 (List.mem_filter.1 hmem).1

/-- What the analysis of a component does. -/
structure Analyzed (sem : SemIR) (analysis : BodyAnalysis) (component : List ℕ)
    (progress result : Progress) : Prop where
  converges : result.nonConvergent = false → progress.nonConvergent = false ∧
    ∀ function ∈ definitions sem component,
      Worklist.Stable (evaluated sem analysis) result.summaries function
  keeps : ∀ function, function ∉ component ∨ sem.isDefinition function = false →
    result.summaries function = progress.summaries function

lemma analyzeComponent_analyzed (hbound : ∀ function ∈ component, function < sem.functionCount)
    (progress : Progress) :
    Analyzed sem analysis component progress
      (analyzeComponent sem analysis progress component) := by
  have hlooped : Looped sem analysis component progress (componentLoop sem analysis component
      (componentLimit sem (component.insertionSort (· ≤ ·))) _ _ progress) :=
    componentLoop_looped (componentLimit sem (component.insertionSort (· ≤ ·)) + 1)
      (rounds_create hbound progress.summaries)
  obtain ⟨hconverges, hkeeps⟩ := hlooped
  rw [analyzeComponent]
  dsimp only
  split
  · exact ⟨fun hresult => Bool.noConfusion hresult, hkeeps⟩
  case isFalse hpending =>
    refine ⟨fun hresult => ?_, hkeeps⟩
    obtain ⟨hprogress, hcovered⟩ := hconverges hresult
    refine ⟨hprogress, fun function hfunction => ?_⟩
    -- Nothing is pending any more.
    rw [not_not, ← DenseWorklist.length_pending, List.length_eq_zero_iff] at hpending
    rw [hpending] at hcovered
    exact hcovered.stable hfunction

/-- The definitions of the components that are done are stable; later components do not change what
they have looked up. -/
lemma foldl_analyzeComponent_stable (rest : List (List ℕ)) :
    ∀ (done : List (List ℕ)) (progress : Progress), callGraphComponents sem = done ++ rest →
      (progress.nonConvergent = false → ∀ function ∈ definitions sem done.flatten,
        Worklist.Stable (evaluated sem analysis) progress.summaries function) →
      (rest.foldl (analyzeComponent sem analysis) progress).nonConvergent = false →
      ∀ function ∈ definitions sem (done ++ rest).flatten, Worklist.Stable (evaluated sem analysis)
        (rest.foldl (analyzeComponent sem analysis) progress).summaries function := by
  obtain ⟨hnodup, hall, hsettled⟩ := callGraphComponents_spec sem
  induction rest with
  | nil =>
    intro done progress _ hdone hresult
    rw [List.append_nil]
    exact hdone hresult
  | cons component rest ih =>
    intro done progress hcomponents hdone hresult
    have hsplit : callGraphComponents sem = (done ++ [component]) ++ rest := by
      rw [hcomponents, List.append_assoc]
      rfl
    have hbound : ∀ function ∈ component, function < sem.functionCount := by
      intro function hfunction
      rw [← hall, hcomponents, List.flatten_append, List.flatten_cons]
      exact List.mem_append_right _ (List.mem_append_left _ hfunction)
    have hclosed : Graph.Settled (callEdges sem) done := by
      rw [hcomponents] at hsettled
      exact hsettled.left
    have hapart : ∀ function ∈ done.flatten, function ∉ component := by
      rw [hcomponents, List.flatten_append, List.flatten_cons, List.nodup_append] at hnodup
      exact fun function hfunction hmem =>
        hnodup.2.2 function hfunction function (List.mem_append_left _ hmem) rfl
    have hanalyzed : Analyzed sem analysis component progress _ :=
      analyzeComponent_analyzed hbound progress
    obtain ⟨hconverges, hkeeps⟩ := hanalyzed
    have hstable := ih (done ++ [component]) (analyzeComponent sem analysis progress component)
      hsplit ?_ hresult
    · rwa [← hsplit, hcomponents] at hstable
    · intro hcomponent function hfunction
      obtain ⟨hprogress, hnew⟩ := hconverges hcomponent
      obtain ⟨hmem, hdefinition⟩ := List.mem_filter.1 hfunction
      rw [List.flatten_append, List.flatten_singleton, List.mem_append] at hmem
      rcases hmem with hold | hmem
      · refine (hdone hprogress function (List.mem_filter.2 ⟨hold, hdefinition⟩)).congr
          reads_evaluated (hkeeps function (Or.inl (hapart function hold))).symm ?_
        intro callee hcallee
        refine (hkeeps callee ?_).symm
        by_cases hkind : sem.isDefinition callee = false
        · exact Or.inr hkind
        · rw [Bool.not_eq_false] at hkind
          have hedge := mem_callEdges_of_looksUp hcallee hkind
          exact Or.inl (hapart callee (hclosed.closed hold hedge))
      · exact hnew function (List.mem_filter.2 ⟨hmem, hdefinition⟩)

/-- **A converged analysis** is a fixed point: every definition has the summary that its evaluation
gives with the summaries of all functions.  The components it goes through are the classes of
functions that call each other, and a callee is in the component of its caller or in an earlier
one. -/
theorem analyzeCallableOwnership_fixedPoint (sem : SemIR) (analysis : BodyAnalysis) :
    ((analyzeCallableOwnership sem analysis).nonConvergent = false →
      ∀ function < sem.functionCount, sem.isDefinition function = true →
        (analyzeCallableOwnership sem analysis).summaries function =
          (buildSummary sem analysis function
            (analyzeCallableOwnership sem analysis).summaries).1) ∧
    (callGraphComponents sem).flatten.Nodup ∧
    (∀ function, function ∈ (callGraphComponents sem).flatten ↔ function < sem.functionCount) ∧
    (∀ component ∈ callGraphComponents sem, component ≠ [] ∧ ∀ function ∈ component, ∀ other,
      other ∈ component ↔ other < sem.functionCount ∧
        Graph.Reaches (callEdges sem) function other ∧
        Graph.Reaches (callEdges sem) other function) ∧
    ∀ before component after, callGraphComponents sem = before ++ component :: after →
      ∀ function ∈ component, ∀ callee ∈ callEdges sem function,
        callee ∈ before.flatten ∨ callee ∈ component := by
  obtain ⟨hnodup, hall, hsettled⟩ := callGraphComponents_spec sem
  refine ⟨fun hconverges function hlt hdefinition => ?_, hnodup, hall, fun component hcomponent =>
    ⟨?_, fun function hfunction other => ?_⟩, fun before component after hsplit =>
    (hsettled before component after hsplit).2.2⟩
  · refine foldl_analyzeComponent_stable (callGraphComponents sem) [] _ rfl
      (fun _ _ hnil => absurd hnil List.not_mem_nil) hconverges function ?_
    exact List.mem_filter.2 ⟨(hall function).2 hlt, hdefinition⟩
  · obtain ⟨before, after, hsplit⟩ := List.append_of_mem hcomponent
    exact (hsettled before component after hsplit).1
  · rw [← hall]
    exact hsettled.mem_iff hnodup hcomponent hfunction

/-- Two functions that call each other; one of them calls a third one, too. -/
def mutualCalls : SemIR where
  functions :=
    [{ graph := [.call { localFunction := some 1 }, .other] },
      { graph := [.call { localFunction := some 0 }, .call { localFunction := some 2 }] },
      { graph := [.other] }]
  bound := by decide
  foreign := by decide

/-- The third function does not own what it returns, and no caller of such a function does. -/
def ownedThroughout : BodyAnalysis := fun function callees =>
  ({ returnsOwned := function ≠ 2 && callees.all fun callee => callee.all (·.returnsOwned) }, false)

theorem analyzeCallableOwnership_mutualCalls :
    callGraphComponents mutualCalls = [[2], [0, 1]] ∧
      ((analyzeCallableOwnership mutualCalls ownedThroughout).summaries 0).returnsOwned = false ∧
      (analyzeCallableOwnership mutualCalls ownedThroughout).summaries 0 =
        (buildSummary mutualCalls ownedThroughout 0
          (analyzeCallableOwnership mutualCalls ownedThroughout).summaries).1 :=
  ⟨by decide, by decide,
    (analyzeCallableOwnership_fixedPoint mutualCalls ownedThroughout).1 (by decide) 0
      (by decide) (by decide)⟩

end PublicInterface

end Chtholly
