import Chtholly.SemIR.Syntax
import Chtholly.Ownership.Summary

set_option autoImplicit false

/-!
# Modules of the semantic IR

The tables of a module that its function bodies refer to, and the type of a value.

## Main definitions

* `Chtholly.SemIR` — types, locals and callees.
* `Chtholly.Value.type` — the type of the instruction that computes a value.
* `Chtholly.SemFunction` — a function with its body.
-/

namespace Chtholly

/-- A local variable, parameter or temporary, with the flags the analyses read. -/
structure SemLocal where
  type : TypeId
  mutable_ : Bool := false
  temporary : Bool := false
  uninitialized : Bool := false
  deriving DecidableEq, Repr

/-- The tables of a module that function bodies refer to. `resultOkVariant` is the success variant
of a canonical `Result` type (`canonicalResultShape`), `summary` and `parameterTypes` are what the
callee of a call is known by. -/
structure SemIR where
  type : TypeId → SemType
  typeRepresentation : TypeId → TypeRepresentation
  voidType : TypeId
  loc : LocalId → SemLocal
  resultOkVariant : TypeId → Option Nat := fun _ => none
  summary : FunctionRefId → Option CallableOwnershipSummary := fun _ => none
  parameterTypes : FunctionRefId → List TypeId := fun _ => []

/-- The type is a union. -/
def SemIR.isUnion (sem : SemIR) (t : TypeId) : Bool :=
  match sem.type t with
  | .nominal .union .. => true
  | _ => false

/-- The type is a reference. -/
def SemIR.isReference (sem : SemIR) (t : TypeId) : Bool :=
  match sem.type t with
  | .reference .. => true
  | _ => false

/-- What a reference or a raw pointer points to. -/
def SemIR.pointee? (sem : SemIR) (t : TypeId) : Option TypeId :=
  match sem.type t with
  | .reference t _ | .rawPointer t => some t
  | _ => none

/-- The type of a value. A literal has a type without structure, for which the type of nothing
stands. -/
def Value.type (sem : SemIR) : Value → TypeId
  | .nameRef _ l | .materializeTemporary _ l _ => (sem.loc l).type
  | .initializePlace _ _ t | .structFieldAccess _ _ _ t | .unionFieldAccess _ _ _ t
  | .enumPayloadAccess _ _ _ _ t
  | .index _ _ _ t | .carrierView _ _ t | .borrowLocal _ _ t | .borrowPlace _ _ t
  | .placement _ _ _ t | .call _ _ _ t | .enumInit _ _ _ t | .unionInit _ _ _ t
  | .aggregateInit _ _ t | .arrayLiteral _ _ t | .other _ _ t => t
  | .dereference _ b => (sem.pointee? (b.type sem)).getD sem.voidType
  | .move _ v | .copy _ v | .callbackRegistrationBinding _ v => v.type sem
  | .integerLiteral .. | .boolLiteral .. | .logicalNot .. | .logicalAnd .. | .logicalOr .. =>
    sem.voidType

/-- A function with its body and the summary that was inferred for it. -/
structure SemFunction where
  parameters : List LocalId
  body : Block
  ownership : CallableOwnershipSummary := {}

end Chtholly
