import Chtholly.Registry.Digest

/-!
# Foreign callables

A declaration file describes foreign types and foreign callables.  The signature of a callable says
how its parameters and its result flow, and a `where` clause adds facts about places, events and
actions.

The enumerations have the constructor `count` of the source, which no parsed text has.

## Main definitions

* `CFDL.CallableSyntax`, `CFDL.SyntaxFile` — what is written.
* `CFDL.validateCallable` — `validateCFDLCallable`.
-/

set_option autoImplicit false

namespace Chtholly

namespace CFDL

open Registry (Text)

/-! ## Syntax -/

inductive FlowQualifier
  | value | owned | ref | refMut | view | viewMut | move | out | inOut | count
  deriving DecidableEq

inductive WhereFactKind
  | escapes | stores | derives | invokes | obliges | discharges | requires | count
  deriving DecidableEq

structure FlowTypeSyntax where
  qualifier : FlowQualifier := .value
  physicalType : Text := []
  deriving DecidableEq

structure WhereFactSyntax where
  kind : WhereFactKind := .count
  subject : Text := []
  target : Text := []
  action : Text := []
  predicate : Text := []
  offset : UInt32 := 0
  deriving DecidableEq

structure CallableParameterSyntax where
  name : Text := []
  type : FlowTypeSyntax := {}
  offset : UInt32 := 0
  deriving DecidableEq

inductive ErrorPredicateKind
  | none | equal | notEqual | less | null | invalid | inSet | notInSet | count
  deriving DecidableEq

inductive ErrorDomainKind
  | none | code | errno | win32 | count
  deriving DecidableEq

/-- `CFDLErrorContractSyntax`. -/
structure ErrorContractSyntax where
  domain : ErrorDomainKind := .none
  observed : Text := "result".toList
  predicate : ErrorPredicateKind := .none
  offset : UInt32 := 0
  deriving DecidableEq

inductive OutcomeKind
  | none | posixRead | win32Read | fread | count
  deriving DecidableEq

structure OutcomeContractSyntax where
  kind : OutcomeKind := .none
  elementType : Text := []
  buffer : Text := []
  capacity : Text := []
  elementSize : Text := []
  elementCount : Text := []
  stream : Text := []
  count : Text := []
  context : Text := []
  eofSymbol : Text := []
  ferrorSymbol : Text := []
  offset : UInt32 := 0
  deriving DecidableEq

structure ForeignTypeSyntax where
  name : Text := []
  deriving DecidableEq

structure CallableSyntax where
  name : Text := []
  parameters : List CallableParameterSyntax := []
  result : FlowTypeSyntax := {}
  whereFacts : List WhereFactSyntax := []
  outcomeContract : Option OutcomeContractSyntax := none
  errorContract : Option ErrorContractSyntax := none
  deriving DecidableEq

structure SyntaxFile where
  foreignTypes : List ForeignTypeSyntax := []

/-- `CFDLDiagnostic`, of the kind `InvalidProtocol` and of length one. -/
structure Diagnostic where
  offset : UInt32
  message : String
  deriving DecidableEq

/-! ## Validation -/

def resultName : Text := "result".toList

def callReturn : Text := "call_return".toList

/-- The names of the parameters, as a set, and what is reported of them. -/
def checkParameters (names : List Text) : List CallableParameterSyntax → List Text × List Diagnostic
  | [] => (names, [])
  | parameter :: rest =>
    if parameter.name = [] ∨ parameter.name ∈ names then
      let (names, reported) := checkParameters names rest
      (names, ⟨parameter.offset, "CFDL callable has a duplicate or empty parameter name"⟩ :: reported)
    else checkParameters (parameter.name :: names) rest

def reportIf (condition : Bool) (offset : UInt32) (message : String) : List Diagnostic :=
  if condition = true then [⟨offset, message⟩] else []

def isOutput (parameter : CallableParameterSyntax) : Bool :=
  parameter.type.qualifier == .out || parameter.type.qualifier == .inOut

/-- The callable has an outcome contract of a kind. -/
def hasOutcome (callable : CallableSyntax) (kind : OutcomeKind) : Bool :=
  callable.outcomeContract.any fun contract => contract.kind == kind

def checkErrorContract (callable : CallableSyntax) (contract : ErrorContractSyntax) :
    List Diagnostic :=
  let statusPlusOutput := contract.domain == .code &&
    (callable.result.physicalType == "c_int".toList ||
      callable.result.physicalType == "c_long".toList)
  let otherOutput := callable.parameters.any fun parameter => isOutput parameter &&
    callable.outcomeContract.any fun outcome => parameter.name != outcome.count
  reportIf (contract.observed != resultName &&
      (!hasOutcome callable .fread || contract.observed != "ferror".toList))
    contract.offset "error accessor is only valid as fread \x60ferror\x60" ++
  reportIf (contract.domain == .none || contract.domain == .count || contract.predicate == .none ||
      contract.predicate == .count)
    contract.offset "foreign error contract has an invalid domain or predicate" ++
  reportIf (callable.result.qualifier != .value)
    contract.offset "foreign error contract requires a by-value result" ++
  reportIf (callable.parameters.any isOutput &&
      (!statusPlusOutput && (!hasOutcome callable .win32Read || otherOutput)))
    contract.offset "foreign error contract does not admit out or inout parameters"

def checkOutcomeContract (names : List Text) (contract : OutcomeContractSyntax) :
    List Diagnostic :=
  let win32 := contract.kind == .win32Read
  let fread := contract.kind == .fread
  reportIf ((contract.kind != .posixRead && !win32 && !fread) || contract.elementType.isEmpty ||
      contract.buffer.isEmpty || contract.capacity.isEmpty ||
      contract.buffer == contract.capacity || !names.contains contract.buffer ||
      !names.contains contract.capacity ||
      (win32 && (contract.count.isEmpty || contract.context.isEmpty ||
        !names.contains contract.count || !names.contains contract.context ||
        contract.count == contract.context)) ||
      (fread && (contract.elementSize.isEmpty || contract.elementCount.isEmpty ||
        contract.stream.isEmpty || contract.eofSymbol.isEmpty || contract.ferrorSymbol.isEmpty ||
        !names.contains contract.elementSize || !names.contains contract.elementCount ||
        !names.contains contract.stream)))
    contract.offset "foreign outcome contract has invalid parameters"

def isPlace (names : List Text) (value : Text) : Bool :=
  value == resultName || names.contains value

def isEndpoint (value : Text) : Bool :=
  value == callReturn || (!value.isEmpty && !value.contains '.')

def checkFact (names : List Text) (fact : WhereFactSyntax) : List Diagnostic :=
  if fact.subject = [] then [⟨fact.offset, "CFDL fact has an empty subject"⟩]
  else
    match fact.kind with
    | .escapes | .invokes =>
      reportIf (!isPlace names fact.subject || !isEndpoint fact.target)
        fact.offset "CFDL escape or invoke fact has an invalid place or endpoint"
    | .stores =>
      reportIf (!isPlace names fact.subject || !isPlace names fact.target)
        fact.offset "CFDL store fact must name places"
    | .derives =>
      reportIf (fact.subject != resultName || !isPlace names fact.target)
        fact.offset "CFDL derive fact must derive result from a place"
    | .obliges | .discharges =>
      reportIf (!isPlace names fact.subject || fact.action.isEmpty)
        fact.offset "CFDL obligation fact has an invalid place or action"
    | .requires =>
      reportIf (fact.subject.isEmpty || fact.predicate.isEmpty)
        fact.offset "CFDL requirement fact has an invalid action or predicate"
    | .count => [⟨fact.offset, "CFDL fact has an invalid relation"⟩]

/-- `validateCFDLCallable`: the diagnostics behind those that there were, and whether there are
none. -/
def validateCallable (callable : CallableSyntax) (diagnostics : List Diagnostic) :
    Bool × List Diagnostic :=
  let (names, reported) := checkParameters [] callable.parameters
  let diagnostics := diagnostics ++ reported ++
    callable.errorContract.elim [] (checkErrorContract callable) ++
    callable.outcomeContract.elim [] (checkOutcomeContract names) ++
    callable.whereFacts.flatMap (checkFact names)
  (diagnostics.isEmpty, diagnostics)

end CFDL

end Chtholly
