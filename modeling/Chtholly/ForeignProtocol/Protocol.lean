import Mathlib.Data.List.Basic
import Mathlib.Data.List.Lex

/-!
# Foreign resource protocols

A foreign resource protocol says which functions of a foreign library acquire, borrow, close and wait
for a resource, and what each of their parameters is.

The enumerations of the source have one byte; an object of such a type may hold any byte.

## Main definitions

* `ForeignProtocol.ForeignResourceProtocol` — the protocol.
* `ForeignProtocol.ForeignResourceProtocol.verify` — the protocols that are well formed.
-/

set_option autoImplicit false

namespace Chtholly

namespace ForeignProtocol

abbrev Bytes := List UInt8

/-! ## The protocol -/

/-- `ForeignResourceRoleKind`. -/
abbrev RoleKind := UInt8

namespace RoleKind

def acquireOwned : RoleKind := 0
def borrow : RoleKind := 1
def closeQuiescent : RoleKind := 2
def cancelQuiescent : RoleKind := 3
def cancelAsync : RoleKind := 4
def waitCompletion : RoleKind := 5
def inspectReady : RoleKind := 6
def armOneShot : RoleKind := 7
def detachCompletion : RoleKind := 8
def count : RoleKind := 9

end RoleKind

/-- `ForeignResourceParameterKind`. -/
abbrev ParameterKind := UInt8

namespace ParameterKind

def resource : ParameterKind := 0
def completion : ParameterKind := 1
def callbackEntry : ParameterKind := 2
def callbackUserdata : ParameterKind := 3
def callbackRelease : ParameterKind := 4
def wakerEntry : ParameterKind := 5
def wakerUserdata : ParameterKind := 6
def wakerRelease : ParameterKind := 7
def bound : ParameterKind := 8
def count : ParameterKind := 9

end ParameterKind

/-- `ForeignResourceInvalidState`. -/
abbrev InvalidState := UInt8

namespace InvalidState

def null : InvalidState := 0
def integer : InvalidState := 1
def pointerBitPattern : InvalidState := 2
def count : InvalidState := 3

end InvalidState

/-- `ForeignResourceQuiescence`. -/
abbrev Quiescence := UInt8

namespace Quiescence

def none : Quiescence := 0
def quiescent : Quiescence := 1
def nonQuiescent : Quiescence := 2

end Quiescence

/-- `core::AnyId::InvalidIndex`. -/
def invalidIndex : UInt32 := 0xFFFFFFFF

def currentSemanticEpoch : UInt32 := 5

structure ForeignResourceParameterBinding where
  kind : ParameterKind := ParameterKind.count
  parameterIndex : UInt32 := invalidIndex
  name : Bytes := []
  deriving DecidableEq

structure ForeignResourceRole where
  kind : RoleKind := RoleKind.count
  callableTypeIndex : UInt32 := invalidIndex
  quiescence : Quiescence := Quiescence.none
  parameters : List ForeignResourceParameterBinding := []
  deriving DecidableEq

structure ForeignResourceProtocol where
  semanticEpoch : UInt32 := currentSemanticEpoch
  completionProjection : Bool := false
  callbackTypeIndex : UInt32 := invalidIndex
  resourceTypeIndex : UInt32 := invalidIndex
  completionTypeIndex : UInt32 := invalidIndex
  invalidState : InvalidState := InvalidState.null
  invalidInteger : Int64 := 0
  releaseAuthority : UInt8 := 0
  cleanupPath : List RoleKind := []
  completionCleanupPath : List RoleKind := []
  wakeCleanupPath : List RoleKind := []
  roles : List ForeignResourceRole := []
  deriving DecidableEq

/-! ## Verification -/

/-- The order of parameters: by kind, index and name. -/
def ForeignResourceParameterBinding.lt (lhs rhs : ForeignResourceParameterBinding) : Bool :=
  decide (lhs.kind < rhs.kind) || lhs.kind == rhs.kind &&
    (decide (lhs.parameterIndex < rhs.parameterIndex) ||
      lhs.parameterIndex == rhs.parameterIndex && decide (lhs.name < rhs.name))

/-- The loop over the parameters of a role, with the parameter before and the indices so far. -/
def verifyParameters (previous : Option ForeignResourceParameterBinding) (occupied : List UInt32) :
    List ForeignResourceParameterBinding → Except String Unit
  | [] => .ok ()
  | parameter :: rest =>
    if parameter.kind ≥ ParameterKind.count ∨ parameter.parameterIndex = invalidIndex ∨
        decide (parameter.kind = ParameterKind.bound) ≠ !parameter.name.isEmpty ∨
        previous.any (fun previous => !previous.lt parameter) = true then
      .error "foreign resource role has invalid parameter bindings"
    else if parameter.parameterIndex ∈ occupied then
      .error "foreign resource role maps two facts to one parameter"
    else verifyParameters (some parameter) (parameter.parameterIndex :: occupied) rest

def expectedQuiescence (kind : RoleKind) : Quiescence :=
  if kind = RoleKind.closeQuiescent ∨ kind = RoleKind.cancelQuiescent ∨
      kind = RoleKind.waitCompletion then Quiescence.quiescent
  else if kind = RoleKind.cancelAsync ∨ kind = RoleKind.detachCompletion then
    Quiescence.nonQuiescent
  else Quiescence.none

/-- The loop over the roles, with the kind of the role before. -/
def verifyRoles (typeCount : UInt32) (previous : Option RoleKind) :
    List ForeignResourceRole → Except String Unit
  | [] => .ok ()
  | role :: rest =>
    if role.kind ≥ RoleKind.count ∨ role.callableTypeIndex ≥ typeCount ∨
        previous.any (fun previous => decide (role.kind ≤ previous)) = true then
      .error "foreign resource protocol roles are not canonical and unique"
    else if role.quiescence ≠ expectedQuiescence role.kind then
      .error "foreign resource role has inconsistent quiescence"
    else
      match verifyParameters none [] role.parameters with
      | .error error => .error error
      | .ok () => verifyRoles typeCount (some role.kind) rest

namespace ForeignResourceProtocol

/-- `findRole`: the first role that is not of a smaller kind, if it is of that kind. -/
def findRole (protocol : ForeignResourceProtocol) (kind : RoleKind) : Option ForeignResourceRole :=
  (protocol.roles.find? fun role => decide (kind ≤ role.kind)).filter fun role => role.kind == kind

def has (protocol : ForeignResourceProtocol) (kind : RoleKind) : Bool :=
  (protocol.findRole kind).isSome

def validType (typeCount index : UInt32) : Bool :=
  index == invalidIndex || decide (index < typeCount)

def completionRoles (protocol : ForeignResourceProtocol) : Bool :=
  protocol.has RoleKind.cancelAsync || protocol.has RoleKind.waitCompletion ||
    protocol.has RoleKind.inspectReady || protocol.has RoleKind.armOneShot ||
    protocol.has RoleKind.detachCompletion

def ordinaryCleanup (protocol : ForeignResourceProtocol) : Bool :=
  protocol.cleanupPath == [RoleKind.closeQuiescent] ||
    protocol.cleanupPath == [RoleKind.cancelQuiescent] ||
    protocol.completionProjection && protocol.cleanupPath == [RoleKind.waitCompletion]

def asynchronousCleanup (protocol : ForeignResourceProtocol) : Bool :=
  !protocol.completionProjection &&
    protocol.cleanupPath == [RoleKind.cancelAsync, RoleKind.waitCompletion]

def validProjectionCleanup (protocol : ForeignResourceProtocol) (path : List RoleKind) : Bool :=
  path == [RoleKind.waitCompletion] && protocol.has RoleKind.waitCompletion

/-- What is verified after the roles: the completion type, the closure of the roles and the cleanup
paths. -/
def verifyClosure (protocol : ForeignResourceProtocol) : Except String Unit :=
  if protocol.completionRoles = true ∧ protocol.completionTypeIndex = invalidIndex then
    .error "foreign resource completion roles require a completion type"
  else if protocol.completionProjection = false ∧
        protocol.has RoleKind.cancelAsync ≠ protocol.has RoleKind.waitCompletion ∨
      protocol.has RoleKind.inspectReady = true ∧ protocol.has RoleKind.waitCompletion = false ∨
      protocol.has RoleKind.armOneShot ≠ protocol.has RoleKind.detachCompletion ∨
      protocol.has RoleKind.armOneShot = true ∧ protocol.has RoleKind.inspectReady = false then
    .error "foreign resource completion role closure is incomplete"
  else if protocol.completionProjection = true ∧ (protocol.has RoleKind.acquireOwned = true ∨
      protocol.has RoleKind.borrow = true ∨ protocol.has RoleKind.closeQuiescent = true ∨
      protocol.has RoleKind.cancelQuiescent = true ∨ protocol.has RoleKind.cancelAsync = true) then
    .error "foreign resource completion projection contains owner roles"
  else if protocol.ordinaryCleanup = false ∧ protocol.asynchronousCleanup = false then
    .error "foreign resource protocol has an invalid cleanup path"
  else if protocol.cleanupPath.all protocol.has = false then
    .error "foreign resource cleanup path role is absent"
  else if protocol.completionTypeIndex ≠ invalidIndex ∧
      protocol.validProjectionCleanup protocol.completionCleanupPath = false then
    .error "foreign resource completion cleanup path is invalid"
  else if protocol.has RoleKind.armOneShot = true ∧
      protocol.validProjectionCleanup protocol.wakeCleanupPath = false then
    .error "foreign resource wake cleanup path is invalid"
  else .ok ()

/-- `ForeignResourceProtocol::verify`. -/
def verify (protocol : ForeignResourceProtocol) (typeCount : UInt32) : Except String Unit :=
  if protocol.semanticEpoch ≠ currentSemanticEpoch then
    .error "foreign resource protocol has an unsupported semantic epoch"
  else if validType typeCount protocol.callbackTypeIndex = false ∨
      protocol.resourceTypeIndex ≥ typeCount ∨
      validType typeCount protocol.completionTypeIndex = false ∨ protocol.releaseAuthority > 1 ∨
      protocol.invalidState ≥ InvalidState.count ∨ protocol.roles = [] then
    .error "foreign resource protocol has invalid core facts"
  else
    match verifyRoles typeCount none protocol.roles with
    | .error error => .error error
    | .ok () => protocol.verifyClosure

end ForeignResourceProtocol

end ForeignProtocol

end Chtholly
