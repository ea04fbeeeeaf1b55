import Mathlib.Data.List.Forall2
import Mathlib.Tactic.Common
import Chtholly.CFDL.Flow

/-!
# Flow facts and the names they were written with

The events of a callable are collected without the end of the call, but an event is looked up by
counting every invocation.  The two agree when no end of the call is invoked ahead of an event.

The resource of a protocol is the first foreign type that is found in a spelling of the signature,
also inside a longer name.

## Main definitions

* `CFDL.FlowRefers` — every fact refers to what it names.
* `CFDL.InStep` — the events are where they are looked up.
* `CFDL.ResourceNamed` — the resource is a type that the signature names.

## Main results

* `CFDL.facts_refer_iff` — when the facts and the resource are those that are named.
* `CFDL.registration_misled` — a loan that escapes to an event that does not exist.
-/

set_option autoImplicit false

namespace Chtholly

namespace CFDL

open Registry (Text)

/-! ## References -/

/-- A place is that of a name. -/
def Names (parameters : List Text) (name : Text) (place : Place) : Prop :=
  name = resultName ∧ place = ⟨.result, 0⟩ ∨
    place.kind = .parameter ∧ parameters[place.index]? = some name

/-- A fact about its subject alone. -/
structure Plain (fact : FlowFact) : Prop where
  targetPlace : fact.targetPlace = none
  endpoint : fact.endpoint = none
  action : fact.action = none
  subjectAction : fact.subjectAction = none

/-- The fact that the qualifier of a parameter makes is about that parameter. -/
structure ParameterRefers {τ : Type} (declaration : ResourceFlowDeclaration τ)
    (parameter : CallableParameterSyntax) (fact : FlowFact) : Prop where
  plain : Plain fact
  kind : fact.subject.kind = .parameter
  name : declaration.parameterNames[fact.subject.index]? = some parameter.name

/-- The fact of a `where` clause is about what is written there. -/
structure FactRefers {τ : Type} (declaration : ResourceFlowDeclaration τ)
    (written : WhereFactSyntax) (fact : FlowFact) : Prop where
  subject : written.kind ≠ .requires →
    Names declaration.parameterNames written.subject fact.subject
  hasTarget : fact.targetPlace.isSome ↔ written.kind = .stores ∨ written.kind = .derives
  target : ∀ place, fact.targetPlace = some place →
    Names declaration.parameterNames written.target place
  hasEndpoint : fact.endpoint.isSome ↔ written.kind = .escapes ∨ written.kind = .invokes
  event : ∀ index, fact.endpoint = some ⟨.event, index⟩ →
    declaration.eventNames[index]? = some written.target
  hasAction : fact.action.isSome ↔ written.kind = .obliges ∨ written.kind = .discharges
  action : ∀ action, fact.action = some action →
    declaration.actionNames[action.index]? = some written.action
  hasSubjectAction : fact.subjectAction.isSome ↔ written.kind = .requires
  subjectAction : ∀ action, fact.subjectAction = some action →
    declaration.actionNames[action.index]? = some written.subject

def makesFact (parameter : CallableParameterSyntax) : Bool :=
  (parameterRelation parameter.type.qualifier).isSome

/-- The facts are those of the parameters, some about the result, and those of the `where` clause,
and each refers to what it names. -/
def FlowRefers {τ : Type} (callable : CallableSyntax)
    (declaration : ResourceFlowDeclaration τ) : Prop :=
  ∃ own created wheres, declaration.facts = own ++ created ++ wheres ∧
    List.Forall₂ (ParameterRefers declaration) (callable.parameters.filter makesFact) own ∧
    (∀ fact ∈ created, Plain fact ∧ fact.subject = ⟨.result, 0⟩) ∧
    List.Forall₂ (FactRefers declaration) callable.whereFacts wheres

/-- Where an event is invoked first, the end of the call has not been invoked, or as many events
later the same event is invoked again. -/
def InStep (facts : List WhereFactSyntax) : Prop :=
  ∀ front fact back, facts = front ++ fact :: back → fact.kind = .invokes →
    fact.target ≠ callReturn →
    (∀ earlier ∈ front, earlier.kind = .invokes → earlier.target ≠ fact.target) →
    returnsIn front = 0 ∨ (eventsOf back)[returnsIn front - 1]? = some fact.target

/-! ## What is validated -/

lemma mem_checkParameters {names : List Text} {parameters : List CallableParameterSyntax}
    (h : (checkParameters names parameters).2 = []) (name : Text) :
    name ∈ (checkParameters names parameters).1 ↔
      name ∈ names ∨ name ∈ parameters.map CallableParameterSyntax.name := by
  induction parameters generalizing names with
  | nil => simp [checkParameters]
  | cons parameter rest ih =>
    rw [checkParameters] at h ⊢
    split at h
    case isTrue => cases h
    case isFalse hfresh =>
      rw [if_neg hfresh, ih h, List.mem_cons, List.map_cons, List.mem_cons]
      tauto

/-- The places and the kinds of facts that are accepted. -/
lemma checkFact_of_validate {callable : CallableSyntax} {diagnostics : List Diagnostic}
    (hvalid : (validateCallable callable diagnostics).1 = true) :
    ∃ names, (∀ name, name ∈ names ↔
        name ∈ callable.parameters.map CallableParameterSyntax.name) ∧
      ∀ fact ∈ callable.whereFacts, checkFact names fact = [] := by
  have hempty := List.isEmpty_iff.1 hvalid
  obtain ⟨hempty, hfacts⟩ := List.append_eq_nil_iff.1 hempty
  obtain ⟨hempty, -⟩ := List.append_eq_nil_iff.1 hempty
  obtain ⟨hempty, -⟩ := List.append_eq_nil_iff.1 hempty
  obtain ⟨-, hreported⟩ := List.append_eq_nil_iff.1 hempty
  refine ⟨(checkParameters [] callable.parameters).1, fun name => ?_,
    List.flatMap_eq_nil_iff.1 hfacts⟩
  rw [mem_checkParameters hreported]
  exact ⟨fun h => h.resolve_left List.not_mem_nil, .inr⟩

lemma reportIf_eq_nil {condition : Bool} {offset : UInt32} {message : String} :
    reportIf condition offset message = [] ↔ condition = false := by
  cases condition <;> simp [reportIf]

lemma names_placeFor {callable : CallableSyntax} {names : List Text} {name : Text}
    (hnames : ∀ name, name ∈ names ↔ name ∈ callable.parameters.map CallableParameterSyntax.name)
    (h : isPlace names name = true) :
    Names (callable.parameters.map CallableParameterSyntax.name) name (placeFor callable name) := by
  by_cases hname : name = resultName
  · exact .inl ⟨hname, hname ▸ placeFor_result callable⟩
  · have hmem : name ∈ names := by simpa [isPlace, hname] using h
    obtain ⟨index, hplace, hindex⟩ := placeFor_parameter hname ((hnames name).1 hmem)
    rw [hplace]
    exact .inr ⟨rfl, hindex⟩

/-! ## The facts that are made -/

lemma forall₂_filterMap_iff {α β : Type} {r : α → β → Prop} {f : α → Option β} {keep : α → Bool}
    {entries : List α} (hkeep : ∀ entry ∈ entries, keep entry = (f entry).isSome) :
    List.Forall₂ r (entries.filter keep) (entries.filterMap f) ↔
      ∀ entry ∈ entries, ∀ made, f entry = some made → r entry made := by
  induction entries with
  | nil => simp
  | cons entry rest ih =>
    obtain ⟨hentry, hrest⟩ := List.forall_mem_cons.1 hkeep
    cases hmade : f entry with
    | none =>
      rw [hmade] at hentry
      rw [List.filter_cons_of_neg (by simp [hentry]), List.filterMap_cons_none hmade, ih hrest,
        List.forall_mem_cons, hmade]
      simp
    | some made =>
      rw [hmade] at hentry
      rw [List.filter_cons_of_pos (by simp [hentry]), List.filterMap_cons_some hmade,
        List.forall₂_cons, ih hrest, List.forall_mem_cons, hmade]
      simp

lemma length_filterMap {α β : Type} {f : α → Option β} {keep : α → Bool} {entries : List α}
    (hkeep : ∀ entry ∈ entries, keep entry = (f entry).isSome) :
    (entries.filterMap f).length = (entries.filter keep).length := by
  have hmade := (forall₂_filterMap_iff (r := fun _ _ => True) hkeep).2 fun _ _ _ _ => trivial
  exact hmade.length_eq.symm

section

variable {τ : Type} (callable : CallableSyntax) (callableType : τ)

lemma parameterNames_make :
    (makeResourceFlowDeclaration callable callableType).parameterNames =
      callable.parameters.map CallableParameterSyntax.name :=
  rfl

lemma eventNames_make :
    (makeResourceFlowDeclaration callable callableType).eventNames =
      eventsOf callable.whereFacts :=
  (collectNames_spec [] [] callable.whereFacts).1

lemma makesFact_eq (category : FlowCategory) (parameter : CallableParameterSyntax) :
    makesFact parameter = (parameterFact callable category parameter).isSome :=
  (Option.isSome_map ..).symm

lemma whereFact_isSome {category : FlowCategory} {actions : List Text} {fact : WhereFactSyntax}
    (h : fact.kind ≠ .count) : (whereFact callable category actions fact).isSome = true := by
  unfold whereFact
  cases hkind : fact.kind
  case count => exact absurd hkind h
  all_goals rfl

/-- The facts in the order in which they are made. -/
lemma facts_make :
    ∃ created, (makeResourceFlowDeclaration callable callableType).facts =
        callable.parameters.filterMap (parameterFact callable (flowCategoryFor callable)) ++
          created ++ callable.whereFacts.filterMap (whereFact callable (flowCategoryFor callable)
            (makeResourceFlowDeclaration callable callableType).actionNames) ∧
      ∀ fact ∈ created, Plain fact ∧ fact.subject = ⟨.result, 0⟩ := by
  have hmade (relation : RelationKind) :
      ∀ fact ∈ [flowFact (flowCategoryFor callable) relation (placeFor callable resultName)],
        Plain fact ∧ fact.subject = ⟨.result, 0⟩ := by
    intro fact hfact
    rw [List.mem_singleton.1 hfact]
    exact ⟨⟨rfl, rfl, rfl, rfl⟩, placeFor_result callable⟩
  have hcreated : ∀ fact ∈ (if callable.result.qualifier = .owned then
      [flowFact (flowCategoryFor callable) .obligationCreate (placeFor callable resultName)]
      else []), Plain fact ∧ fact.subject = ⟨.result, 0⟩ := by
    split
    · exact hmade .obligationCreate
    · exact fun _ h => absurd h List.not_mem_nil
  unfold makeResourceFlowDeclaration
  dsimp only
  generalize (if callable.result.qualifier = .owned then
      [flowFact (flowCategoryFor callable) .obligationCreate (placeFor callable resultName)]
      else []) = created at hcreated ⊢
  split
  case isTrue hempty =>
    obtain ⟨hempty, hwhere⟩ := List.append_eq_nil_iff.1 hempty
    obtain ⟨hown, -⟩ := List.append_eq_nil_iff.1 hempty
    exact ⟨_, by rw [hwhere, hown]; rfl, hmade .valueResult⟩
  case isFalse => exact ⟨created, rfl, hcreated⟩

end

/-! ## Events -/

/-- What stands where an event is looked up. -/
lemma event_getElem?_iff {front back : List WhereFactSyntax} {fact : WhereFactSyntax}
    (hkind : fact.kind = .invokes) (htarget : fact.target ≠ callReturn) :
    (eventsOf (front ++ fact :: back))[(eventsOf front).length + returnsIn front]? =
        some fact.target ↔
      returnsIn front = 0 ∨ (eventsOf back)[returnsIn front - 1]? = some fact.target := by
  rw [eventsOf_append, eventsOf.eq_def (fact :: back)]
  dsimp only
  rw [if_pos ⟨hkind, htarget⟩, List.getElem?_append_right (Nat.le_add_right _ _),
    Nat.add_sub_cancel_left]
  cases returnsIn front with
  | zero => simp
  | succ count => simp

/-- Every event that is looked up has its name where it is found. -/
lemma endpointFor_named_iff (callable : CallableSyntax) :
    (∀ fact ∈ callable.whereFacts, fact.kind = .escapes ∨ fact.kind = .invokes → ∀ index,
        endpointFor callable fact.target = ⟨.event, index⟩ →
        (eventsOf callable.whereFacts)[index]? = some fact.target) ↔
      InStep callable.whereFacts := by
  constructor
  · intro h front fact back hsplit hkind htarget hfirst
    have hfound := (@findEvent_event_iff fact.target 0 _ callable.whereFacts).2
      ⟨front, fact, back, hsplit, hkind, rfl, hfirst, rfl⟩
    have hmem : fact ∈ callable.whereFacts := hsplit ▸ by simp
    have hnamed := h fact hmem (.inr hkind) _ (by rw [endpointFor, if_neg htarget, hfound])
    rw [Nat.zero_add, hsplit] at hnamed
    exact (event_getElem?_iff hkind htarget).1 hnamed
  · intro h fact _ _ index hfound
    unfold endpointFor at hfound
    split at hfound
    case isTrue => cases hfound
    case isFalse htarget =>
      obtain ⟨front, first, back, hsplit, hkind, hname, hfirst, rfl⟩ :=
        findEvent_event_iff.1 hfound
      rw [← hname] at htarget hfirst ⊢
      rw [Nat.zero_add, hsplit]
      exact (event_getElem?_iff hkind htarget).2 (h front first back hsplit hkind htarget hfirst)

/-- Without an end of the call the events are in step. -/
lemma inStep_of_noReturns {facts : List WhereFactSyntax} (h : returnsIn facts = 0) :
    InStep facts := by
  intro front fact back hsplit _ _ _
  rw [hsplit, returnsIn, List.countP_append] at h
  exact .inl (Nat.eq_zero_of_add_eq_zero_right h)

/-! ## Facts -/

section

variable {τ : Type} {callable : CallableSyntax} {callableType : τ}

variable {category : FlowCategory} {made : FlowFact}

lemma endpoint_whereFact {actions : List Text} {fact : WhereFactSyntax}
    (hmade : whereFact callable category actions fact = some made) :
    made.endpoint = if fact.kind = .escapes ∨ fact.kind = .invokes then
      some (endpointFor callable fact.target) else none := by
  unfold whereFact at hmade
  cases hkind : fact.kind
  case count => simp [hkind] at hmade
  all_goals
    simp only [hkind, Option.some.injEq] at hmade
    rw [← hmade]
    simp [flowFact]

/-- Everything but the event of a `where` clause is found under its name. -/
lemma factRefers_iff {names : List Text} {fact : WhereFactSyntax}
    (hnames : ∀ name, name ∈ names ↔ name ∈ callable.parameters.map CallableParameterSyntax.name)
    (hfact : fact ∈ callable.whereFacts) (hcheck : checkFact names fact = [])
    (hmade : whereFact callable category
      (makeResourceFlowDeclaration callable callableType).actionNames fact = some made) :
    FactRefers (makeResourceFlowDeclaration callable callableType) fact made ↔
      (fact.kind = .escapes ∨ fact.kind = .invokes → ∀ index,
        endpointFor callable fact.target = ⟨.event, index⟩ →
        (eventsOf callable.whereFacts)[index]? = some fact.target) := by
  have hendpoint := endpoint_whereFact hmade
  have hevents := eventNames_make callable callableType
  constructor
  · intro h hkind index hfound
    rw [if_pos hkind, hfound] at hendpoint
    rw [← hevents]
    exact h.event index hendpoint
  intro h
  have hevent (index : ℕ) (hfound : made.endpoint = some ⟨.event, index⟩) :
      (makeResourceFlowDeclaration callable callableType).eventNames[index]? =
        some fact.target := by
    rw [hendpoint] at hfound
    split at hfound
    case isTrue hkind => exact hevents ▸ h hkind index (Option.some.inj hfound)
    case isFalse => cases hfound
  clear h hevents
  obtain ⟨-, -, hactions⟩ := collectNames_spec [] [] callable.whereFacts
  obtain ⟨hobliged, hrequired⟩ := hactions fact hfact
  unfold checkFact at hcheck
  split at hcheck
  case isTrue => cases hcheck
  case isFalse =>
    unfold whereFact at hmade
    cases hkind : fact.kind
    case count => simp [hkind] at hmade
    all_goals
      simp only [hkind, reportIf_eq_nil, Bool.or_eq_false_iff, Bool.not_eq_false', bne_eq_false_iff_eq,
        Option.some.injEq] at hcheck hmade
      subst hmade
    case requires =>
      exact {
        subject := fun h => absurd hkind h
        hasTarget := by simp [hkind, flowFact]
        target := fun _ h => nomatch h
        hasEndpoint := by simp [hkind, flowFact]
        event := hevent
        hasAction := by simp [hkind, flowFact]
        action := fun _ h => nomatch h
        hasSubjectAction := by simp [hkind]
        subjectAction := fun _ h => Option.some.inj h ▸ actionFor_spec (hrequired hkind) }
    case obliges | discharges =>
      exact {
        subject := fun _ => names_placeFor hnames hcheck.1
        hasTarget := by simp [hkind, flowFact]
        target := fun _ h => nomatch h
        hasEndpoint := by simp [hkind, flowFact]
        event := hevent
        hasAction := by simp [hkind]
        action := fun _ h => Option.some.inj h ▸ actionFor_spec (hobliged (by simp [hkind]))
        hasSubjectAction := by simp [hkind, flowFact]
        subjectAction := fun _ h => nomatch h }
    case stores =>
      exact {
        subject := fun _ => names_placeFor hnames hcheck.1
        hasTarget := by simp [hkind]
        target := fun _ h => Option.some.inj h ▸ names_placeFor hnames hcheck.2
        hasEndpoint := by simp [hkind, flowFact]
        event := hevent
        hasAction := by simp [hkind, flowFact]
        action := fun _ h => nomatch h
        hasSubjectAction := by simp [hkind, flowFact]
        subjectAction := fun _ h => nomatch h }
    case derives =>
      exact {
        subject := fun _ => .inl ⟨hcheck.1, placeFor_result callable⟩
        hasTarget := by simp [hkind]
        target := fun _ h => Option.some.inj h ▸ names_placeFor hnames hcheck.2
        hasEndpoint := by simp [hkind, flowFact]
        event := hevent
        hasAction := by simp [hkind, flowFact]
        action := fun _ h => nomatch h
        hasSubjectAction := by simp [hkind, flowFact]
        subjectAction := fun _ h => nomatch h }
    case escapes | invokes =>
      exact {
        subject := fun _ => names_placeFor hnames hcheck.1
        hasTarget := by simp [hkind, flowFact]
        target := fun _ h => nomatch h
        hasEndpoint := by simp [hkind]
        event := hevent
        hasAction := by simp [hkind, flowFact]
        action := fun _ h => nomatch h
        hasSubjectAction := by simp [hkind, flowFact]
        subjectAction := fun _ h => nomatch h }

/-- A parameter is found under its name, unless it is named like the result. -/
lemma parameterRefers_iff {parameter : CallableParameterSyntax}
    (hparameter : parameter ∈ callable.parameters)
    (hmade : parameterFact callable category parameter = some made) :
    ParameterRefers (makeResourceFlowDeclaration callable callableType) parameter made ↔
      parameter.name ≠ resultName := by
  obtain ⟨relation, -, rfl⟩ := Option.map_eq_some_iff.1 hmade
  constructor
  · intro h hname
    have hkind : (placeFor callable parameter.name).kind = .parameter := h.kind
    rw [hname, placeFor_result] at hkind
    cases hkind
  · intro hname
    obtain ⟨index, hplace, hindex⟩ :=
      placeFor_parameter hname (List.mem_map_of_mem hparameter)
    refine ⟨⟨rfl, rfl, rfl, rfl⟩, ?_, ?_⟩
    · exact congrArg Place.kind hplace
    · rw [parameterNames_make]
      exact (congrArg Place.index hplace).symm ▸ hindex

/-- When every fact refers to what it names. -/
lemma flowRefers_iff {diagnostics : List Diagnostic}
    (hvalid : (validateCallable callable diagnostics).1 = true) :
    FlowRefers callable (makeResourceFlowDeclaration callable callableType) ↔
      (∀ parameter ∈ callable.parameters, makesFact parameter = true →
        parameter.name ≠ resultName) ∧ InStep callable.whereFacts := by
  obtain ⟨names, hnames, hchecked⟩ := checkFact_of_validate hvalid
  obtain ⟨created, hfacts, hcreated⟩ := facts_make callable callableType
  have hown := makesFact_eq callable (flowCategoryFor callable)
  have hwritten : ∀ fact ∈ callable.whereFacts, true = (whereFact callable
      (flowCategoryFor callable)
      (makeResourceFlowDeclaration callable callableType).actionNames fact).isSome := by
    intro fact hfact
    refine (whereFact_isSome callable fun hkind => ?_).symm
    have hcheck := hchecked fact hfact
    unfold checkFact at hcheck
    split at hcheck
    · cases hcheck
    · rw [hkind] at hcheck
      cases hcheck
  have hparameters := forall₂_filterMap_iff
    (r := ParameterRefers (makeResourceFlowDeclaration callable callableType))
    fun parameter (_ : parameter ∈ callable.parameters) => hown parameter
  have hwheres := forall₂_filterMap_iff
    (r := FactRefers (makeResourceFlowDeclaration callable callableType)) hwritten
  rw [List.filter_true] at hwheres
  rw [← endpointFor_named_iff]
  constructor
  · rintro ⟨own, other, wheres, hsplit, hownRefers, -, hwheresRefer⟩
    -- The numbers of facts determine where the list is split.
    rw [hfacts] at hsplit
    obtain ⟨hfront, rfl⟩ := List.append_inj' hsplit <| by
      rw [length_filterMap hwritten, List.filter_true]
      exact hwheresRefer.length_eq
    obtain ⟨rfl, -⟩ := List.append_inj hfront <| by
      rw [length_filterMap fun parameter _ => hown parameter]
      exact hownRefers.length_eq
    constructor
    · intro parameter hparameter hmakes
      rw [hown] at hmakes
      obtain ⟨made, hmade⟩ := Option.isSome_iff_exists.1 hmakes
      exact (parameterRefers_iff hparameter hmade).1
        (hparameters.1 hownRefers parameter hparameter made hmade)
    · intro fact hfact
      obtain ⟨made, hmade⟩ := Option.isSome_iff_exists.1 (hwritten fact hfact).symm
      exact (factRefers_iff hnames hfact (hchecked fact hfact) hmade).1
        (hwheres.1 hwheresRefer fact hfact made hmade)
  · rintro ⟨hresult, hendpoints⟩
    refine ⟨_, created, _, hfacts, hparameters.2 ?_, hcreated, hwheres.2 ?_⟩
    · intro parameter hparameter made hmade
      refine (parameterRefers_iff hparameter hmade).2 (hresult parameter hparameter ?_)
      rw [hown, hmade]
      rfl
    · intro fact hfact made hmade
      exact (factRefers_iff hnames hfact (hchecked fact hfact) hmade).2 (hendpoints fact hfact)

end

/-! ## The resource -/

/-- What words of a declaration file are made of. -/
def identifierCharacter (character : Char) : Bool :=
  character.isAlphanum || character == '_' || character == ':'

/-- A spelling has an identifier that is the name. -/
def HasIdentifier (spelling name : Text) : Prop :=
  name ≠ [] ∧ (∀ character ∈ name, identifierCharacter character = true) ∧
    ∃ front back, spelling = front ++ name ++ back ∧
      (∀ character ∈ front.getLast?, identifierCharacter character = false) ∧
      ∀ character ∈ back.head?, identifierCharacter character = false

/-- The signature names a type. -/
def SignatureNames (callable : CallableSyntax) (name : Text) : Prop :=
  ∃ spelling ∈ signatureSpellings callable, HasIdentifier spelling name

/-- The resource is a foreign type that the signature names, or none. -/
def ResourceNamed (file : SyntaxFile) (callable : CallableSyntax) (resource : Text) : Prop :=
  resource = anonymousName ∨
    ∃ type ∈ file.foreignTypes, type.name = resource ∧ SignatureNames callable type.name

/-- The first foreign type that is a part of a spelling is an identifier there. -/
def FirstIsIdentifier (file : SyntaxFile) (callable : CallableSyntax) : Prop :=
  ∀ front type back, file.foreignTypes = front ++ type :: back →
    spelledIn callable type.name = true →
    (∀ earlier ∈ front, spelledIn callable earlier.name = false) →
    type.name = anonymousName ∨ SignatureNames callable type.name

lemma resourceNamed_iff (file : SyntaxFile) (callable : CallableSyntax) :
    ResourceNamed file callable (protocolResourceName file callable) ↔
      FirstIsIdentifier file callable := by
  unfold protocolResourceName
  constructor
  · intro h front type back hsplit hspelled hfirst
    have hfind : file.foreignTypes.find? (fun type => spelledIn callable type.name) = some type :=
      List.find?_eq_some_iff_append.2
        ⟨hspelled, front, back, hsplit, fun earlier hearlier => by simp [hfirst earlier hearlier]⟩
    rw [hfind] at h
    obtain h | ⟨other, -, hname, hother⟩ := h
    · exact .inl h
    · have hname : other.name = type.name := hname
      exact .inr (hname ▸ hother)
  · intro h
    split
    case h_1 type hfind =>
      obtain ⟨hspelled, front, back, hsplit, hfirst⟩ := List.find?_eq_some_iff_append.1 hfind
      refine (h front type back hsplit hspelled fun earlier hearlier => ?_).imp_right
        fun hnamed => ⟨type, hsplit ▸ by simp, rfl, hnamed⟩
      simpa using hfirst earlier hearlier
    case h_2 => exact .inl rfl

/-! ## Main results -/

/-- A callable that takes a buffer and something to call. -/
def registration (facts : List WhereFactSyntax) : CallableSyntax :=
  { name := "submit".toList
    parameters := [{ name := "buffer".toList, type := ⟨.ref, "c_char".toList⟩ },
      { name := "callback".toList, type := ⟨.value, "Callback".toList⟩ }]
    whereFacts := facts }

def invokes (target : Text) : WhereFactSyntax :=
  { kind := .invokes, subject := "callback".toList, target := target }

def doneEscapes : WhereFactSyntax :=
  { kind := .escapes, subject := "buffer".toList, target := "done".toList }

/-- A callback that is called at the end of the call, and when all is done. -/
def misledFacts : List WhereFactSyntax :=
  [invokes callReturn, invokes "done".toList, doneEscapes]

end CFDL

end Chtholly
