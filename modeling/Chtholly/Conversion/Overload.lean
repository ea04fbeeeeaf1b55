import Chtholly.Conversion.Planner
import Chtholly.Selection.UniqueMinimum
import Mathlib.Data.Prod.Lex

/-!
# Overload resolution

A call by name has candidates.  For each of them the arguments are assigned to parameters by position
and by name, a generic candidate is specialised for them, and every argument must have a conversion.
The candidates that are left are ranked by their worst conversion, by the sum of all, and by whether
they are generic; the call goes to the best one, if no other is as good.

## Main definitions

* `Conversion.selectCallCandidate` — the selection among ranks.
* `Conversion.assignSources`, `Conversion.planCandidate` — the plan of a candidate.
* `Conversion.resolveCall` — what the call goes to.

## Main results

* `Conversion.assigned_of_assignSources` — every argument has its parameter.
* `Conversion.resolveCall_selected_iff` — the selected plan is the only least one.
* `Conversion.resolveCall_perm` — the order of the candidates does not matter.
-/

set_option autoImplicit false

namespace Chtholly

namespace Conversion

open Selection

/-! ## Ranks -/

structure SemanticCallCandidateRank where
  maximumConversionRank : ℕ := 0
  totalConversionRank : ℕ := 0
  generic : Bool := false
  deriving DecidableEq

/-- The ranks are compared by their components, one after the other. -/
def SemanticCallCandidateRank.key (rank : SemanticCallCandidateRank) :
    Lex (ℕ × Lex (ℕ × Bool)) :=
  toLex (rank.maximumConversionRank, toLex (rank.totalConversionRank, rank.generic))

inductive SemanticCallSelectionKind
  | none | selected | ambiguous
  deriving DecidableEq

structure SemanticCallSelection where
  kind : SemanticCallSelectionKind := .none
  index : ℕ := 0
  deriving DecidableEq

def selectCallCandidate : List SemanticCallCandidateRank → SemanticCallSelection
  | [] => {}
  | first :: candidates =>
    let (best, ambiguous) := scan SemanticCallCandidateRank.key candidates 1 0 first false
    { kind := if ambiguous then .ambiguous else .selected, index := best }

/-! ## Functions and arguments -/

/-- The names and the defaults of the parameters, from the declaration or from the public entity; a
default is the constant it stands for, if that can be had in this module. -/
structure CallableDeclaration where
  parameterNames : List ℕ
  defaultArguments : List (Option (Option Value))
  deriving DecidableEq

/-- A function reference.  `initializes` are the parameters with an initialisation contract, and
`isDefinition` is set for the functions of this module that may declare such parameters. -/
structure FunctionRef where
  index : ℕ
  isFunction : Bool := true
  parameters : List SemType
  declaration : Option CallableDeclaration
  generic : Bool := false
  initializes : List ℕ := []
  isDefinition : Bool := true
  deriving DecidableEq

structure SourceArgument where
  name : Option ℕ := none
  value : Value

/-- A call: its arguments, the first of which is the receiver of a method call.  The receiver may be
the operand of an explicit move.  Calls outside of functions stand in the values of constants. -/
structure CallSite where
  arguments : List SourceArgument
  hasReceiver : Bool := false
  receiverMoved : Bool := false
  inFunction : Bool := true

/-- `specializeFunction`: the instance of a generic function for the arguments. -/
abbrev Specializer := FunctionRef → List Value → Option FunctionRef

/-- Named arguments come after all others. -/
def namedLast : List SourceArgument → Bool
  | [] => true
  | argument :: arguments =>
    (argument.name = none || arguments.all fun other => other.name ≠ none) && namedLast arguments

/-! ## The plan of a candidate -/

/-- The parameter of an argument: that of its name, or the next one without a name. -/
def parameterFor (names : List ℕ) (positional : ℕ) (argument : SourceArgument) : Option ℕ :=
  match argument.name with
  | some name => names.idxOf? name
  | none => some positional

/-- The loop over the arguments; for every parameter the index of its argument, if it has one.  A
failure says whether it is about a name. -/
def assignSources (names : List ℕ) :
    List SourceArgument → ℕ → ℕ → List (Option ℕ) → Except Bool (List (Option ℕ))
  | [], _, _, sources => .ok sources
  | argument :: arguments, sourceIndex, positional, sources =>
    match parameterFor names positional argument with
    | none => .error true
    | some parameter =>
      if sources[parameter]? = some none then
        assignSources names arguments (sourceIndex + 1)
          (if argument.name = none then positional + 1 else positional)
          (sources.set parameter (some sourceIndex))
      else .error (argument.name ≠ none)

def hasDefault (declaration : CallableDeclaration) (parameter : ℕ) : Bool :=
  (declaration.defaultArguments[parameter]?.join).isSome

/-- The parameters without an argument have defaults. -/
def defaultsPresent (declaration : CallableDeclaration) (sources : List (Option ℕ)) : Bool :=
  (List.range sources.length).all fun parameter =>
    sources[parameter]? ≠ some none || hasDefault declaration parameter

/-- The value from which a parameter of a generic function is deduced. -/
def deductionArgument (site : CallSite) (declaration : CallableDeclaration)
    (sources : List (Option ℕ)) (parameter : ℕ) : Option Value :=
  match sources[parameter]?.join with
  | some source => (site.arguments[source]?).map SourceArgument.value
  | none => (declaration.defaultArguments[parameter]?.join).join

def specialized (specialize : Specializer) (site : CallSite) (candidate : FunctionRef)
    (declaration : CallableDeclaration) (sources : List (Option ℕ)) : Option FunctionRef :=
  if candidate.generic then
    ((List.range candidate.parameters.length).mapM
      (deductionArgument site declaration sources)).bind fun values =>
        specialize candidate (values.drop (if site.hasReceiver then 1 else 0))
  else some candidate

def containsRawPointerDereference : Value → Bool
  | .dereference _ operand => operand.type.isRawPointer || containsRawPointerDereference operand
  | .structFieldAccess _ base _ | .unionFieldAccess _ base _ | .index _ base =>
    containsRawPointerDereference base
  | _ => false

def canBindMethodReceiver (site : CallSite) (receiver : Value) (expected : SemType) : Bool :=
  if containsRawPointerDereference receiver then false
  else
    match expected with
    | .reference pointee mutability _ =>
      if receiver.type.isReference then
        canonicalType receiver.type.referent = canonicalType pointee &&
          (mutability ≠ .mutable || receiver.type.permitsMutation && receiver.isMutablePlace)
      else receiver.isPlace && (mutability ≠ .mutable || receiver.isMutablePlace)
    | _ => !receiver.isPlace || site.receiverMoved

/-- The local holds a mutable reference to what the parameter refers to. -/
def isMutableReferenceParameter (site : CallSite) (storage : SemLocal) (expected : SemType) :
    Bool :=
  match storage.type, expected with
  | .reference pointee .mutable _, .reference pointee' .mutable _ =>
    site.inFunction && pointee = pointee'
  | _, _ => false

/-- The argument names storage that the parameter initialises. -/
def isInitializationArgument (site : CallSite) (function : FunctionRef) (parameter : ℕ)
    (argument : Value) (expected : SemType) : Bool :=
  let mutableReference := expected.isReference && expected.permitsMutation
  if parameter ∉ function.initializes && !(mutableReference && function.isDefinition) then false
  else
    match argument with
    | .nameRef _ storage =>
      isMutableReferenceParameter site storage expected ||
        storage.isUninitialized && mutableReference &&
          (match expected with
            | .reference pointee _ _ => pointee = storage.type
            | _ => false)
    | _ => false

/-- The parameters with an argument: position, type and argument. -/
def assignedArguments (site : CallSite) (function : FunctionRef) (sources : List (Option ℕ)) :
    List (ℕ × SemType × ℕ × Value) :=
  function.parameters.zipIdx.filterMap fun (type, parameter) =>
    (sources[parameter]?.join).bind fun source =>
      (site.arguments[source]?).map fun argument => (parameter, type, source, argument.value)

def receiverBinds (site : CallSite) (function : FunctionRef) (sources : List (Option ℕ)) : Bool :=
  (assignedArguments site function sources).all fun (_, type, source, value) =>
    !(site.hasReceiver && source = 0) || canBindMethodReceiver site value type

/-- The arguments that are converted, with the types of their parameters. -/
def conversions (site : CallSite) (function : FunctionRef) (sources : List (Option ℕ)) :
    List (Value × SemType) :=
  (assignedArguments site function sources).filterMap fun (parameter, type, source, value) =>
    if site.hasReceiver && source = 0 || isInitializationArgument site function parameter value type
    then none
    else some (value, type)

structure CandidatePlan where
  reference : FunctionRef
  argumentMetadataReference : FunctionRef
  parameterSources : List (Option ℕ)
  rank : SemanticCallCandidateRank
  deriving DecidableEq

def conversionRank (conversion : Value × SemType) : ℕ :=
  (query conversion.1 conversion.2).rank

def rankOf (generic : Bool) (converted : List (Value × SemType)) : SemanticCallCandidateRank where
  maximumConversionRank := (converted.map conversionRank).foldl max 0
  totalConversionRank := (converted.map conversionRank).sum
  generic := generic

/-- The plan of a candidate; a failure says whether it is about a name. -/
def planCandidate (specialize : Specializer) (site : CallSite) (candidate : FunctionRef) :
    Except Bool CandidatePlan :=
  match candidate.declaration with
  | none => .error false
  | some declaration =>
    if !candidate.isFunction then .error false
    else
      match assignSources declaration.parameterNames site.arguments 0 0
        (List.replicate candidate.parameters.length none) with
      | .error named => .error named
      | .ok sources =>
        if !defaultsPresent declaration sources then .error false
        else
          match specialized specialize site candidate declaration sources with
          | none => .error false
          | some function =>
            if receiverBinds site function sources &&
                (conversions site function sources).all fun conversion =>
                  (query conversion.1 conversion.2).valid then
              .ok
                { reference := function
                  argumentMetadataReference := candidate
                  parameterSources := sources
                  rank := rankOf candidate.generic (conversions site function sources) }
            else .error false

/-! ## Resolution -/

inductive CallOutcome
  | invalidNamedArgument
  | noneViable (named : Bool)
  | ambiguous
  | selected (plan : CandidatePlan)
  deriving DecidableEq

def viablePlans (specialize : Specializer) (site : CallSite) (candidates : List FunctionRef) :
    List CandidatePlan :=
  candidates.filterMap fun candidate => (planCandidate specialize site candidate).toOption

/-- A candidate failed because of a name. -/
def namedFailure (specialize : Specializer) (site : CallSite) (candidates : List FunctionRef) :
    Bool :=
  candidates.any fun candidate =>
    match planCandidate specialize site candidate with
    | .error named => named
    | .ok _ => false

def resolveCall (specialize : Specializer) (site : CallSite) (candidates : List FunctionRef) :
    CallOutcome :=
  if !namedLast site.arguments then .invalidNamedArgument
  else
    let viable := viablePlans specialize site candidates
    let selection := selectCallCandidate (viable.map CandidatePlan.rank)
    match selection.kind, viable[selection.index]? with
    | .selected, some plan => .selected plan
    | .ambiguous, _ => .ambiguous
    | _, _ => .noneViable (namedFailure specialize site candidates)

/-- The plan is better than all others. -/
def IsBest (plans : List CandidatePlan) (plan : CandidatePlan) : Prop :=
  IsUniqueMinimum (fun plan : CandidatePlan => plan.rank.key) plans plan

/-! ## Every argument has its parameter -/

/-- The number of arguments without a name before the one at the position. -/
def positionalBefore (arguments : List SourceArgument) (source : ℕ) : ℕ :=
  (arguments.take source).countP fun argument => argument.name = none

def parameterOf (names : List ℕ) (arguments : List SourceArgument) (source : ℕ) : Option ℕ :=
  (arguments[source]?).bind (parameterFor names (positionalBefore arguments source))

/-- The arguments that have been passed have their parameters, and no other arguments do. -/
structure Placed (names : List ℕ) (done : List SourceArgument) (sources : List (Option ℕ)) :
    Prop where
  isSome : ∀ source < done.length, (parameterOf names done source).isSome = true
  placed : ∀ parameter source, sources[parameter]? = some (some source) ↔
    parameterOf names done source = some parameter

variable {arguments : List SourceArgument} {source : ℕ}

lemma positionalBefore_append (h : source ≤ arguments.length) (more : List SourceArgument) :
    positionalBefore (arguments ++ more) source = positionalBefore arguments source := by
  rw [positionalBefore, List.take_append_of_le_length h, positionalBefore]

variable {names : List ℕ}

lemma parameterOf_append (h : source < arguments.length) (more : List SourceArgument) :
    parameterOf names (arguments ++ more) source = parameterOf names arguments source := by
  rw [parameterOf, List.getElem?_append_left h, positionalBefore_append h.le, parameterOf]

lemma parameterOf_eq_none (h : arguments.length ≤ source) :
    parameterOf names arguments source = none := by
  rw [parameterOf, List.getElem?_eq_none h, Option.bind_none]

lemma Placed.step {done : List SourceArgument} {sources : List (Option ℕ)}
    (h : Placed names done sources) {argument : SourceArgument} {parameter : ℕ}
    (hparameter : parameterFor names (positionalBefore done done.length) argument = some parameter)
    (hfree : sources[parameter]? = some none) :
    Placed names (done ++ [argument]) (sources.set parameter (some done.length)) := by
  obtain ⟨hisSome, hplaced⟩ := h
  have hlast : parameterOf names (done ++ [argument]) done.length = some parameter := by
    rw [parameterOf, List.getElem?_concat_length, Option.bind_some,
      positionalBefore_append (le_refl _), hparameter]
  have hrange : parameter < sources.length := (List.getElem?_eq_some_iff.1 hfree).1
  constructor
  · intro source hsource
    rw [List.length_append, List.length_singleton] at hsource
    rcases Nat.lt_succ_iff_lt_or_eq.1 hsource with hold | rfl
    · rw [parameterOf_append hold]
      exact hisSome source hold
    · rw [hlast]
      rfl
  · intro other source
    rcases Nat.lt_trichotomy source done.length with hold | rfl | hnew
    · rw [parameterOf_append hold]
      by_cases heq : parameter = other
      · -- The parameter was free, so no earlier argument is for it.
        subst heq
        rw [List.getElem?_set_self hrange, Option.some.injEq, Option.some.injEq, ← hplaced, hfree]
        constructor
        · intro hsame
          omega
        · intro hsame
          cases hsame
      · rw [List.getElem?_set_ne heq, hplaced]
    · rw [hlast, Option.some.injEq]
      by_cases heq : parameter = other
      · subst heq
        rw [List.getElem?_set_self hrange]
        exact iff_of_true rfl rfl
      · rw [List.getElem?_set_ne heq, hplaced, parameterOf_eq_none (le_refl _)]
        exact iff_of_false (fun hsame => by cases hsame) heq
    · have hlength : (done ++ [argument]).length ≤ source := by
        rw [List.length_append, List.length_singleton]
        exact hnew
      rw [parameterOf_eq_none hlength]
      refine iff_of_false (fun hsame => ?_) fun hsame => by cases hsame
      by_cases heq : parameter = other
      · subst heq
        rw [List.getElem?_set_self hrange, Option.some.injEq, Option.some.injEq] at hsame
        omega
      · rw [List.getElem?_set_ne heq, hplaced, parameterOf_eq_none hnew.le] at hsame
        cases hsame

lemma placed_assignSources (arguments : List SourceArgument) :
    ∀ {done : List SourceArgument} {sources result : List (Option ℕ)}, Placed names done sources →
      assignSources names arguments done.length (positionalBefore done done.length) sources =
        .ok result → Placed names (done ++ arguments) result ∧ result.length = sources.length := by
  induction arguments with
  | nil =>
    intro done sources result h hresult
    cases hresult
    rw [List.append_nil]
    exact ⟨h, rfl⟩
  | cons argument arguments ih =>
    intro done sources result h hresult
    rw [assignSources] at hresult
    split at hresult
    · cases hresult
    · rename_i parameter hparameter
      split at hresult
      · rename_i hfree
        have hlength : done.length + 1 = (done ++ [argument]).length := by simp
        have hpositional : (if argument.name = none then positionalBefore done done.length + 1
            else positionalBefore done done.length) =
              positionalBefore (done ++ [argument]) (done ++ [argument]).length := by
          simp only [positionalBefore, List.take_length, List.countP_append, List.countP_singleton]
          split <;> rename_i hname <;> simp [hname]
        rw [hpositional, hlength] at hresult
        obtain ⟨hplaced, hresultLength⟩ := ih (h.step hparameter hfree) hresult
        rw [List.append_assoc, List.singleton_append] at hplaced
        rw [List.length_set] at hresultLength
        exact ⟨hplaced, hresultLength⟩
      · cases hresult

/-- What is known of the sources of a plan: an argument without a name is for the parameter at its
position, an argument with a name is for a parameter of that name, each for no other, and all other
parameters have defaults. -/
structure Assigned (candidate : FunctionRef) (declaration : CallableDeclaration)
    (arguments : List SourceArgument) (sources : List (Option ℕ)) : Prop where
  length : sources.length = candidate.parameters.length
  positional : ∀ (source : ℕ) (argument : SourceArgument), arguments[source]? = some argument →
    argument.name = none → ∀ parameter : ℕ, sources[parameter]? = some (some source) ↔
      parameter = positionalBefore arguments source
  named : ∀ (source : ℕ) (argument : SourceArgument) (name : ℕ), arguments[source]? = some argument →
    argument.name = some name → ∃ target : ℕ, declaration.parameterNames[target]? = some name ∧
      ∀ parameter : ℕ, sources[parameter]? = some (some source) ↔ parameter = target
  inRange : ∀ parameter source : ℕ, sources[parameter]? = some (some source) →
    source < arguments.length
  defaults : ∀ parameter : ℕ, sources[parameter]? = some none →
    hasDefault declaration parameter = true

lemma assigned_of_assignSources {candidate : FunctionRef} {declaration : CallableDeclaration}
    {sources : List (Option ℕ)}
    (hsources : assignSources declaration.parameterNames arguments 0 0
      (List.replicate candidate.parameters.length none) = .ok sources)
    (hdefaults : defaultsPresent declaration sources = true) :
    Assigned candidate declaration arguments sources := by
  have hempty : Placed declaration.parameterNames []
      (List.replicate candidate.parameters.length none) := by
    refine ⟨fun source hsource => absurd hsource (Nat.not_lt_zero source), ?_⟩
    intro parameter source
    rw [parameterOf_eq_none (Nat.zero_le source)]
    refine iff_of_false (fun hsame => ?_) fun hsame => by cases hsame
    have hmem := List.eq_of_mem_replicate (List.mem_of_getElem? hsame)
    cases hmem
  obtain ⟨⟨hisSome, hplaced⟩, hlength⟩ := placed_assignSources arguments hempty hsources
  rw [List.nil_append] at hisSome hplaced
  rw [List.length_replicate] at hlength
  refine ⟨hlength, ?_, ?_, ?_, ?_⟩
  · intro source argument hargument hname parameter
    rw [hplaced, parameterOf, hargument, Option.bind_some, parameterFor, hname, Option.some.injEq]
    exact eq_comm
  · intro source argument name hargument hname
    have hlt := (List.getElem?_eq_some_iff.1 hargument).1
    obtain ⟨target, htarget⟩ := Option.isSome_iff_exists.1 (hisSome source hlt)
    have hindex : declaration.parameterNames.idxOf? name = some target := by
      rw [← htarget, parameterOf, hargument, Option.bind_some, parameterFor, hname]
    obtain ⟨hrange, hfound, -⟩ := List.idxOf?_eq_some_iff.1 hindex
    refine ⟨target, ?_, fun parameter => ?_⟩
    · rw [List.getElem?_eq_getElem hrange]
      exact congrArg some (by simpa using hfound)
    · rw [hplaced, htarget, Option.some.injEq]
      exact eq_comm
  · intro parameter source hsource
    by_contra hle
    rw [hplaced, parameterOf_eq_none (Nat.le_of_not_lt hle)] at hsource
    cases hsource
  · intro parameter hfree
    have hrange := (List.getElem?_eq_some_iff.1 hfree).1
    have hall := List.all_eq_true.1 hdefaults parameter (List.mem_range.2 hrange)
    simpa [hfree] using hall

variable {specialize : Specializer} {site : CallSite} {plan : CandidatePlan}

/-- What is known of the plan of a candidate. -/
lemma planCandidate_eq_ok {candidate : FunctionRef}
    (h : planCandidate specialize site candidate = .ok plan) :
    plan.argumentMetadataReference = candidate ∧
      (∃ declaration, candidate.declaration = some declaration ∧
        Assigned candidate declaration site.arguments plan.parameterSources) ∧
      plan.rank =
        rankOf candidate.generic (conversions site plan.reference plan.parameterSources) ∧
      ∀ conversion ∈ conversions site plan.reference plan.parameterSources,
        (query conversion.1 conversion.2).valid = true := by
  unfold planCandidate at h
  split at h
  · cases h
  · rename_i declaration hdeclaration
    split at h
    · cases h
    · split at h
      · cases h
      · rename_i sources hsources
        split at h
        · cases h
        · rename_i hdefaults
          split at h
          · cases h
          · split at h
            · rename_i hviable
              cases h
              rw [Bool.and_eq_true, List.all_eq_true] at hviable
              have hpresent : defaultsPresent declaration sources = true := by
                simpa using hdefaults
              exact ⟨rfl, ⟨declaration, hdeclaration, assigned_of_assignSources hsources hpresent⟩,
                rfl, hviable.2⟩
            · cases h

/-! ## The selection -/

variable {candidates : List FunctionRef}

lemma mem_viablePlans : plan ∈ viablePlans specialize site candidates ↔
      ∃ candidate ∈ candidates, planCandidate specialize site candidate = .ok plan := by
  have hoption : ∀ candidate, (planCandidate specialize site candidate).toOption = some plan ↔
      planCandidate specialize site candidate = .ok plan := by
    intro candidate
    cases planCandidate specialize site candidate with
    | error named => exact iff_of_false (fun h => nomatch h) (fun h => nomatch h)
    | ok other =>
      rw [Except.ok.injEq]
      exact Option.some_inj
  simp only [viablePlans, List.mem_filterMap, hoption]

/-- The selection among the plans: the best one if there is one, and a tie otherwise. -/
lemma selectCallCandidate_plans (first : CandidatePlan) (plans : List CandidatePlan) :
    (∃ plan index, selectCallCandidate ((first :: plans).map CandidatePlan.rank) =
        { kind := .selected, index := index } ∧ (first :: plans)[index]? = some plan ∧
        IsBest (first :: plans) plan) ∨
      (∃ index, selectCallCandidate ((first :: plans).map CandidatePlan.rank) =
        { kind := .ambiguous, index := index }) ∧ ¬∃ plan, IsBest (first :: plans) plan := by
  obtain ⟨plan, hscanned⟩ := scan_spec (fun plan : CandidatePlan => plan.rank.key) first plans
  obtain ⟨hbest, hunique⟩ := hscanned.isUniqueMinimum_iff
  have hselect : selectCallCandidate ((first :: plans).map CandidatePlan.rank) =
      { kind := if (scan (fun plan : CandidatePlan => plan.rank.key) plans 1 0 first false).2 = true
          then .ambiguous else .selected
        index := (scan (fun plan : CandidatePlan => plan.rank.key) plans 1 0 first false).1 } := by
    rw [List.map_cons, selectCallCandidate, scan_map]
  rw [hselect]
  cases htied : (scan (fun plan : CandidatePlan => plan.rank.key) plans 1 0 first false).2 with
  | false => exact Or.inl ⟨plan, _, rfl, hscanned.found, hbest htied⟩
  | true =>
    refine Or.inr ⟨⟨_, rfl⟩, ?_⟩
    rintro ⟨other, hother⟩
    have hfalse := (hunique other hother).1
    rw [htied] at hfalse
    cases hfalse

/-- **Resolution.** What a call goes to is decided by the plans of the candidates: there may be none,
one that is better than all others, or no best one. -/
lemma resolveCall_eq (specialize : Specializer) (site : CallSite) (candidates : List FunctionRef)
    (hnamed : namedLast site.arguments = true) :
    (viablePlans specialize site candidates = [] ∧ resolveCall specialize site candidates =
        .noneViable (namedFailure specialize site candidates)) ∨
      (∃ plan, IsBest (viablePlans specialize site candidates) plan ∧
        resolveCall specialize site candidates = .selected plan) ∨
      (viablePlans specialize site candidates ≠ [] ∧
        (¬∃ plan, IsBest (viablePlans specialize site candidates) plan) ∧
        resolveCall specialize site candidates = .ambiguous) := by
  unfold resolveCall
  rw [hnamed]
  simp only [Bool.not_true, Bool.false_eq_true, if_false]
  cases hviable : viablePlans specialize site candidates with
  | nil => exact Or.inl ⟨rfl, rfl⟩
  | cons first plans =>
    rcases selectCallCandidate_plans first plans with ⟨plan, index, hselect, hfound, hbest⟩ |
      ⟨⟨index, hselect⟩, hnone⟩
    · refine Or.inr (Or.inl ⟨plan, hbest, ?_⟩)
      rw [hselect, hfound]
    · refine Or.inr (Or.inr ⟨List.cons_ne_nil _ _, hnone, ?_⟩)
      rw [hselect]

theorem resolveCall_selected_iff :
    resolveCall specialize site candidates = .selected plan ↔
      namedLast site.arguments = true ∧ IsBest (viablePlans specialize site candidates) plan := by
  cases hnamed : namedLast site.arguments with
  | false => simp [resolveCall, hnamed]
  | true =>
    have hnil : ¬IsBest [] plan := by
      rintro ⟨others, hothers, -⟩
      exact List.cons_ne_nil _ _ hothers.nil_eq.symm
    rcases resolveCall_eq specialize site candidates hnamed with ⟨hviable, hresolve⟩ |
      ⟨other, hother, hresolve⟩ | ⟨-, hnone, hresolve⟩
    · rw [hresolve, hviable]
      exact iff_of_false (fun h => by cases h) fun h => hnil h.2
    · rw [hresolve, CallOutcome.selected.injEq]
      constructor
      · rintro rfl
        exact ⟨rfl, hother⟩
      · exact fun h => IsUniqueMinimum.eq hother h.2
    · rw [hresolve]
      exact iff_of_false (fun h => by cases h) fun h => hnone ⟨plan, h.2⟩

/-- **The order of the candidates** does not matter. -/
theorem resolveCall_perm (specialize : Specializer) (site : CallSite) {order : List FunctionRef}
    (hperm : order.Perm candidates) :
    resolveCall specialize site order = resolveCall specialize site candidates := by
  cases hnamed : namedLast site.arguments with
  | false => simp [resolveCall, hnamed]
  | true =>
    have hviable : (viablePlans specialize site order).Perm
        (viablePlans specialize site candidates) := hperm.filterMap _
    have hfailure : namedFailure specialize site order =
        namedFailure specialize site candidates := by
      rw [Bool.eq_iff_iff]
      simp only [namedFailure, List.any_eq_true, hperm.mem_iff]
    rcases resolveCall_eq specialize site order hnamed with ⟨hnil, hresolve⟩ |
      ⟨plan, hbest, hresolve⟩ | ⟨hcons, hnone, hresolve⟩
    · rcases resolveCall_eq specialize site candidates hnamed with ⟨-, hresolve'⟩ |
        ⟨plan, hbest, -⟩ | ⟨hcons, -⟩
      · rw [hresolve, hresolve', hfailure]
      · obtain ⟨others, hothers, -⟩ := IsUniqueMinimum.perm hbest hviable.symm
        rw [hnil] at hothers
        exact absurd hothers.nil_eq.symm (List.cons_ne_nil _ _)
      · rw [hnil] at hviable
        exact absurd hviable.nil_eq.symm hcons
    · rw [hresolve, eq_comm, resolveCall_selected_iff]
      exact ⟨hnamed, IsUniqueMinimum.perm hbest hviable⟩
    · rcases resolveCall_eq specialize site candidates hnamed with ⟨hnil, -⟩ |
        ⟨plan, hbest, -⟩ | ⟨-, -, hresolve'⟩
      · rw [hnil] at hviable
        exact absurd hviable.symm.nil_eq.symm hcons
      · exact absurd ⟨plan, IsUniqueMinimum.perm hbest hviable.symm⟩ hnone
      · rw [hresolve, hresolve']

end Conversion

end Chtholly
