import Chtholly.Ownership.Condition

set_option autoImplicit false

/-!
# Callable ownership summaries

What a caller knows of a callee (`CallableOwnershipSummary`, `PublicInterface.h`): the regions
reachable from its parameters that it reads, writes, takes, borrows or gives their first value, and
the state in which it leaves them.

## Main definitions

* `Chtholly.OwnershipRegion` — a path from a parameter.
* `Chtholly.CallableOutcomes` — the ways in which a call may leave a region.
* `Chtholly.CallableOwnershipSummary` — effects and postconditions. Where a returned reference comes
  from is left out, since only the loan analysis reads it.
-/

namespace Chtholly

/-- `OwnershipRegionStep`, with the index that its kind carries. -/
inductive OwnershipRegionStep where
  | field (index : Nat)
  | staticElement (index : Nat)
  | anyElement
  | dereference (index : Nat)
  deriving DecidableEq, Repr

/-- `OwnershipRegion`: what is reached from a parameter by a path. -/
structure OwnershipRegion where
  parameterIndex : Nat := invalidIndex
  path : List OwnershipRegionStep := []
  deriving DecidableEq, Repr

/-- The region is reached through a reference or a pointer that the parameter holds. -/
def OwnershipRegion.dereferences (r : OwnershipRegion) : Bool :=
  r.path.any fun
    | .dereference _ => true
    | _ => false

/-- `CallableEffectKind`; `initializes` is the effect that gives storage its first value. -/
inductive CallableEffectKind where
  | read | write | take | borrowShared | borrowMutable | initializes
  deriving DecidableEq, Repr

/-- `CallableRegionEffect`. -/
structure CallableRegionEffect where
  kind : CallableEffectKind
  region : OwnershipRegion
  deriving DecidableEq, Repr

/-- The bits of `CallablePostconditionOutcome`. -/
structure CallableOutcomes where
  preserves : Bool := false
  initializes : Bool := false
  invalidates : Bool := false
  deriving DecidableEq, Repr

/-- `CallableRegionPostcondition`: the outcomes of a region on the calls that satisfy the condition
and, with a variant, return this variant of the result. -/
structure CallableRegionPostcondition where
  region : OwnershipRegion
  outcomes : CallableOutcomes := { preserves := true }
  condition : CallableConditionDescriptor := CallableConditionDescriptor.always
  resultVariant : Option Nat := none
  deriving DecidableEq, Repr

/-- `CallableOwnershipSummary`. -/
structure CallableOwnershipSummary where
  effects : List CallableRegionEffect := []
  postconditions : List CallableRegionPostcondition := []
  deriving DecidableEq, Repr

end Chtholly
