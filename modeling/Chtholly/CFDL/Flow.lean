import Mathlib.Data.List.Infix
import Chtholly.Scanning.Text
import Mathlib.Data.List.Basic
import Chtholly.CFDL.Syntax

/-!
# The flow of resources through a callable

The facts of a signature and of its `where` clause become facts about positions: of parameters, of
events and of actions.  The positions are those in lists of names that are collected by passes of
their own.

## Main definitions

* `CFDL.ResourceFlowDeclaration` — the facts, with the lists of names.
* `CFDL.placeFor`, `CFDL.endpointFor`, `CFDL.actionFor` — the positions of names.
* `CFDL.makeResourceFlowDeclaration` — the declaration of a callable.
* `CFDL.protocolResourceName` — the foreign type that a callable is about.

## Main results

* `CFDL.findEvent_event_iff` — where an event is looked up.
* `CFDL.collectNames_spec` — which names are collected.
-/

set_option autoImplicit false

namespace Chtholly

namespace CFDL

open Registry (Text)

/-! ## Declarations -/

inductive FlowCategory
  | value | resource | projection
  deriving DecidableEq

inductive RelationKind
  | valueResult | loanBorrow | loanMutate | loanEscapes | loanStores | derives | eventInvokes
  | obligationCreate | obligationTransfer | obligationObliges | obligationDischarges | requires
  | resourceInitialize
  deriving DecidableEq

inductive PlaceKind
  | parameter | result | count
  deriving DecidableEq

structure Place where
  kind : PlaceKind := .count
  index : ℕ := 0
  deriving DecidableEq

inductive EndpointKind
  | callReturn | event | count
  deriving DecidableEq

structure Endpoint where
  kind : EndpointKind := .count
  index : ℕ := 0
  deriving DecidableEq

structure Action where
  index : ℕ := 0
  deriving DecidableEq

inductive FlowPredicate
  | valid | initialized | quiescent | sameThread
  deriving DecidableEq

/-- `ResourceFlowFact`. -/
structure FlowFact where
  category : FlowCategory
  relation : RelationKind
  subject : Place
  subjectAction : Option Action := none
  targetPlace : Option Place := none
  endpoint : Option Endpoint := none
  action : Option Action := none
  predicate : Option FlowPredicate := none
  deriving DecidableEq

/-- `ResourceFlowDeclaration`, where a callable type is of any kind. -/
structure ResourceFlowDeclaration (τ : Type) where
  callableName : Text
  callableType : τ
  parameterNames : List Text
  eventNames : List Text
  actionNames : List Text
  facts : List FlowFact

/-! ## Positions of names -/

def flowCategoryFor (callable : CallableSyntax) : FlowCategory :=
  let hasResource := callable.result.qualifier == .owned ||
    callable.parameters.any (fun parameter => parameter.type.qualifier == .ref ||
      parameter.type.qualifier == .refMut || parameter.type.qualifier == .move) ||
    callable.whereFacts.any fun fact => fact.kind != .requires
  let hasMemory := callable.result.qualifier == .view || callable.result.qualifier == .viewMut ||
    callable.parameters.any fun parameter => parameter.type.qualifier == .view ||
      parameter.type.qualifier == .viewMut
  if hasResource then .resource else if hasMemory then .projection else .value

def placeFor (callable : CallableSyntax) (name : Text) : Place :=
  if name = resultName then ⟨.result, 0⟩
  else
    match callable.parameters.findIdx? fun parameter => parameter.name == name with
    | some index => ⟨.parameter, index⟩
    | none => {}

/-- The loop of `endpointFor`. -/
def findEvent (name : Text) (eventIndex : ℕ) : List WhereFactSyntax → Endpoint
  | [] => {}
  | fact :: rest =>
    if fact.kind ≠ .invokes then findEvent name eventIndex rest
    else if name = fact.target then ⟨.event, eventIndex⟩
    else findEvent name (eventIndex + 1) rest

def endpointFor (callable : CallableSyntax) (name : Text) : Endpoint :=
  if name = callReturn then ⟨.callReturn, 0⟩ else findEvent name 0 callable.whereFacts

def actionFor (actions : List Text) (name : Text) : Action :=
  match actions.findIdx? fun action => action == name with
  | some index => ⟨index⟩
  | none => {}

def predicateFor (name : Text) : Option FlowPredicate :=
  if name = "valid".toList then some .valid
  else if name = "initialized".toList then some .initialized
  else if name = "quiescent".toList then some .quiescent
  else if name = "same_thread".toList then some .sameThread
  else none

def flowFact (category : FlowCategory) (relation : RelationKind) (subject : Place) : FlowFact :=
  { category := category, relation := relation, subject := subject }

/-! ## The declaration of a callable -/

/-- A name that is not in the list yet. -/
def addName (names : List Text) (name : Text) : List Text :=
  if name ∈ names then names else names ++ [name]

/-- The names of the events and of the actions. -/
def collectNames (events actions : List Text) : List WhereFactSyntax → List Text × List Text
  | [] => (events, actions)
  | fact :: rest =>
    let events :=
      if fact.kind = .invokes ∧ fact.target ≠ callReturn then events ++ [fact.target] else events
    let actions :=
      if fact.kind = .obliges ∨ fact.kind = .discharges then addName actions fact.action
      else actions
    let actions := if fact.kind = .requires then addName actions fact.subject else actions
    collectNames events actions rest

/-- The relation that the qualifier of a parameter states. -/
def parameterRelation : FlowQualifier → Option RelationKind
  | .ref | .view => some .loanBorrow
  | .refMut | .viewMut | .inOut => some .loanMutate
  | .move => some .obligationTransfer
  | .out => some .resourceInitialize
  | .value | .owned | .count => none

def parameterFact (callable : CallableSyntax) (category : FlowCategory)
    (parameter : CallableParameterSyntax) : Option FlowFact :=
  (parameterRelation parameter.type.qualifier).map fun relation =>
    flowFact category relation (placeFor callable parameter.name)

/-- The fact of a `where` clause. -/
def whereFact (callable : CallableSyntax) (category : FlowCategory) (actions : List Text)
    (fact : WhereFactSyntax) : Option FlowFact :=
  match fact.kind with
  | .escapes => some { flowFact category .loanEscapes (placeFor callable fact.subject) with
      endpoint := some (endpointFor callable fact.target) }
  | .stores => some { flowFact category .loanStores (placeFor callable fact.subject) with
      targetPlace := some (placeFor callable fact.target) }
  | .derives => some { flowFact category .derives (placeFor callable resultName) with
      targetPlace := some (placeFor callable fact.target) }
  | .invokes => some { flowFact category .eventInvokes (placeFor callable fact.subject) with
      endpoint := some (endpointFor callable fact.target) }
  | .obliges => some { flowFact category .obligationObliges (placeFor callable fact.subject) with
      action := some (actionFor actions fact.action) }
  | .discharges =>
    some { flowFact category .obligationDischarges (placeFor callable fact.subject) with
      action := some (actionFor actions fact.action) }
  | .requires => some { flowFact category .requires {} with
      subjectAction := some (actionFor actions fact.subject)
      predicate := predicateFor fact.predicate }
  | .count => none

def makeResourceFlowDeclaration {τ : Type} (callable : CallableSyntax) (callableType : τ) :
    ResourceFlowDeclaration τ :=
  let (events, actions) := collectNames [] [] callable.whereFacts
  let category := flowCategoryFor callable
  let facts := callable.parameters.filterMap (parameterFact callable category) ++
    (if callable.result.qualifier = .owned then
      [flowFact category .obligationCreate (placeFor callable resultName)] else []) ++
    callable.whereFacts.filterMap (whereFact callable category actions)
  { callableName := callable.name
    callableType := callableType
    parameterNames := callable.parameters.map CallableParameterSyntax.name
    eventNames := events
    actionNames := actions
    facts := if facts = [] then
        [flowFact category .valueResult (placeFor callable resultName)]
      else facts }

/-! ## The resource of a protocol -/

/-- The types of a signature, as they are spelled. -/
def signatureSpellings (callable : CallableSyntax) : List Text :=
  callable.result.physicalType ::
    callable.parameters.map fun parameter => parameter.type.physicalType

/-- `find` does not return `npos` for one of the spellings. -/
def spelledIn (callable : CallableSyntax) (name : Text) : Bool :=
  (signatureSpellings callable).any fun spelling => decide (name <:+: spelling)

def anonymousName : Text := "anonymous".toList

def protocolResourceName (file : SyntaxFile) (callable : CallableSyntax) : Text :=
  match file.foreignTypes.find? fun type => spelledIn callable type.name with
  | some type => type.name
  | none => anonymousName

/-! ## Lookups -/

lemma placeFor_result (callable : CallableSyntax) : placeFor callable resultName = ⟨.result, 0⟩ :=
  if_pos rfl

/-- The first parameter of a name. -/
lemma placeFor_parameter {callable : CallableSyntax} {name : Text} (hname : name ≠ resultName)
    (h : name ∈ callable.parameters.map CallableParameterSyntax.name) :
    ∃ index, placeFor callable name = ⟨.parameter, index⟩ ∧
      (callable.parameters.map CallableParameterSyntax.name)[index]? = some name := by
  obtain ⟨parameter, hparameter, rfl⟩ := List.mem_map.1 h
  cases hfind : callable.parameters.findIdx? fun other => other.name == parameter.name with
  | none =>
    have hnone := List.findIdx?_eq_none_iff.1 hfind parameter hparameter
    rw [beq_self_eq_true] at hnone
    cases hnone
  | some index =>
    obtain ⟨hindex, hname', -⟩ := List.findIdx?_eq_some_iff_getElem.1 hfind
    refine ⟨index, ?_, ?_⟩
    · rw [placeFor, if_neg hname, hfind]
    · rw [List.getElem?_map, List.getElem?_eq_getElem hindex]
      exact congrArg some (beq_iff_eq.1 hname')

lemma actionFor_spec {actions : List Text} {name : Text} (h : name ∈ actions) :
    actions[(actionFor actions name).index]? = some name := by
  unfold actionFor
  cases hfind : actions.findIdx? fun action => action == name with
  | none =>
    have hnone := List.findIdx?_eq_none_iff.1 hfind name h
    rw [beq_self_eq_true] at hnone
    cases hnone
  | some index =>
    obtain ⟨hindex, hname, -⟩ := List.findIdx?_eq_some_iff_getElem.1 hfind
    rw [List.getElem?_eq_getElem hindex]
    exact congrArg some (beq_iff_eq.1 hname)

/-- The events that facts invoke. -/
def eventsOf : List WhereFactSyntax → List Text
  | [] => []
  | fact :: rest =>
    if fact.kind = .invokes ∧ fact.target ≠ callReturn then fact.target :: eventsOf rest
    else eventsOf rest

/-- The facts that invoke the end of the call. -/
def returnsIn (facts : List WhereFactSyntax) : ℕ :=
  facts.countP fun fact => fact.kind == .invokes && fact.target == callReturn

lemma eventsOf_append (front back : List WhereFactSyntax) :
    eventsOf (front ++ back) = eventsOf front ++ eventsOf back := by
  induction front with
  | nil => rfl
  | cons fact rest ih =>
    rw [List.cons_append, eventsOf, eventsOf, ih]
    split
    · rfl
    · rfl

lemma mem_addName {names : List Text} {name other : Text} :
    other ∈ addName names name ↔ other ∈ names ∨ other = name := by
  unfold addName
  split
  case isTrue hmem =>
    exact ⟨.inl, fun h => h.elim id fun heq => heq ▸ hmem⟩
  case isFalse => rw [List.mem_append, List.mem_singleton]

/-- Every event and every action is collected. -/
lemma collectNames_spec (events actions : List Text) (facts : List WhereFactSyntax) :
    (collectNames events actions facts).1 = events ++ eventsOf facts ∧
      actions ⊆ (collectNames events actions facts).2 ∧
      ∀ fact ∈ facts,
        (fact.kind = .obliges ∨ fact.kind = .discharges →
          fact.action ∈ (collectNames events actions facts).2) ∧
        (fact.kind = .requires → fact.subject ∈ (collectNames events actions facts).2) := by
  induction facts generalizing events actions with
  | nil =>
    exact ⟨(List.append_nil _).symm, fun _ h => h, fun _ h => absurd h List.not_mem_nil⟩
  | cons fact rest ih =>
    unfold collectNames
    dsimp only
    obtain ⟨hevents, hactions, hrest⟩ := ih
      (if fact.kind = .invokes ∧ fact.target ≠ callReturn then events ++ [fact.target] else events)
      (if fact.kind = .requires then addName (if fact.kind = .obliges ∨ fact.kind = .discharges then
        addName actions fact.action else actions) fact.subject
      else if fact.kind = .obliges ∨ fact.kind = .discharges then addName actions fact.action
      else actions)
    refine ⟨?_, fun name hname => hactions ?_, List.forall_mem_cons.2 ⟨⟨?_, ?_⟩, hrest⟩⟩
    · rw [hevents, eventsOf]
      split
      · rw [List.append_assoc, List.singleton_append]
      · rfl
    · -- What is collected stays.
      have hobliged : name ∈ (if fact.kind = .obliges ∨ fact.kind = .discharges then
          addName actions fact.action else actions) := by
        split
        · exact mem_addName.2 (.inl hname)
        · exact hname
      split
      · exact mem_addName.2 (.inl hobliged)
      · exact hobliged
    · intro hkind
      apply hactions
      rw [if_neg (by obtain h | h := hkind <;> rw [h] <;> decide), if_pos hkind, mem_addName]
      exact .inr rfl
    · intro hkind
      apply hactions
      rw [if_pos hkind, mem_addName]
      exact .inr rfl

/-- The position of an event counts all that is invoked before it. -/
lemma findEvent_event_iff {name : Text} {first index : ℕ} {facts : List WhereFactSyntax} :
    findEvent name first facts = ⟨.event, index⟩ ↔
      ∃ front fact back, facts = front ++ fact :: back ∧ fact.kind = .invokes ∧
        fact.target = name ∧ (∀ earlier ∈ front, earlier.kind = .invokes → earlier.target ≠ name) ∧
        index = first + ((eventsOf front).length + returnsIn front) := by
  induction facts generalizing first with
  | nil =>
    constructor
    · intro h
      cases h
    · rintro ⟨front, fact, back, h, -⟩
      cases front <;> cases h
  | cons head rest ih =>
    rw [findEvent]
    split
    case isTrue hkind =>
      rw [ih]
      constructor
      · rintro ⟨front, fact, back, rfl, hinvokes, hname, hfirst, hindex⟩
        refine ⟨head :: front, fact, back, rfl, hinvokes, hname,
          List.forall_mem_cons.2 ⟨fun h => absurd h hkind, hfirst⟩, ?_⟩
        rw [hindex, eventsOf, if_neg fun h => hkind h.1, returnsIn, returnsIn,
          List.countP_cons_of_neg (by simp [hkind])]
      · rintro ⟨front, fact, back, heq, hinvokes, hname, hfirst, hindex⟩
        cases front with
        | nil => exact absurd ((List.cons.inj heq).1 ▸ hinvokes) hkind
        | cons other front =>
          obtain ⟨rfl, rfl⟩ := List.cons.inj heq
          refine ⟨front, fact, back, rfl, hinvokes, hname, (List.forall_mem_cons.1 hfirst).2, ?_⟩
          rw [hindex, eventsOf, if_neg fun h => hkind h.1, returnsIn, returnsIn,
            List.countP_cons_of_neg (by simp [hkind])]
    case isFalse hkind =>
      have hkind : head.kind = .invokes := not_not.1 hkind
      split
      case isTrue hname =>
        constructor
        · intro h
          injection h with _ hindex
          exact ⟨[], head, rest, rfl, hkind, hname.symm, fun _ h => absurd h List.not_mem_nil,
            hindex.symm⟩
        · rintro ⟨front, fact, back, heq, -, -, hfirst, hindex⟩
          cases front with
          | nil => rw [hindex]; rfl
          | cons other front =>
            obtain ⟨rfl, rfl⟩ := List.cons.inj heq
            exact absurd hname.symm (hfirst _ List.mem_cons_self hkind)
      case isFalse hname =>
        -- One more is invoked: an event, or the end of the call.
        have hcount (front : List WhereFactSyntax) :
            (eventsOf (head :: front)).length + returnsIn (head :: front) =
              (eventsOf front).length + returnsIn front + 1 := by
          by_cases htarget : head.target = callReturn
          · rw [eventsOf, if_neg fun h => h.2 htarget, returnsIn, returnsIn,
              List.countP_cons_of_pos (by simp [hkind, htarget]), Nat.add_assoc]
          · rw [eventsOf, if_pos ⟨hkind, htarget⟩, returnsIn, returnsIn,
              List.countP_cons_of_neg (by simp [htarget]), List.length_cons, Nat.add_right_comm]
        rw [ih]
        constructor
        · rintro ⟨front, fact, back, rfl, hinvokes, hsame, hfirst, hindex⟩
          refine ⟨head :: front, fact, back, rfl, hinvokes, hsame,
            List.forall_mem_cons.2 ⟨fun _ h => hname h.symm, hfirst⟩, ?_⟩
          rw [hcount]
          omega
        · rintro ⟨front, fact, back, heq, hinvokes, hsame, hfirst, hindex⟩
          cases front with
          | nil => exact absurd ((List.cons.inj heq).1 ▸ hsame.symm) hname
          | cons other front =>
            obtain ⟨rfl, rfl⟩ := List.cons.inj heq
            refine ⟨front, fact, back, rfl, hinvokes, hsame, (List.forall_mem_cons.1 hfirst).2, ?_⟩
            rw [hcount] at hindex
            omega

end CFDL

end Chtholly
