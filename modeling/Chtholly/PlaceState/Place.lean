import Chtholly.SemIR.Module

set_option autoImplicit false

/-!
# Places

The place-state analysis names storage by a local and a path of projections (`PlaceState.cpp`,
`PlaceStateAnalyzerPlace.inc`). This file has the paths, the comparison of paths, and the place
that a value denotes, if it denotes one.

## Main definitions

* `Chtholly.PlaceProjection`, `Chtholly.isPrefix` — steps into a value and the comparison of paths,
  in which an unknown element stands for every element.
* `Chtholly.ResolvedPlace`, `Chtholly.resolvePlace` — the place of a value.
* `Chtholly.resolveCallEffectPlace` — the place that a region of a callee is for the caller.
-/

namespace Chtholly

/-- `PlaceProjection`: one step from a place to a part of it. -/
inductive PlaceProjection where
  | field (index : Nat)
  | element (index : Nat)
  | anyElement
  | enumPayload (field variant : Nat)
  | dereference
  | carrierView (type : TypeId)
  deriving DecidableEq, Repr

/-- A path of projections, outermost first. -/
abbrev PlacePath := List PlaceProjection

/-- The projection selects array elements. -/
def PlaceProjection.isElement : PlaceProjection → Bool
  | .element _ | .anyElement => true
  | _ => false

/-- Two projections of one place select the same part; an unknown element matches every element. -/
def PlaceProjection.meets (lhs rhs : PlaceProjection) : Bool :=
  if lhs = .anyElement ∨ rhs = .anyElement then lhs.isElement && rhs.isElement
  else decide (lhs = rhs)

/-- `isPrefix`: the second path selects a part of what the first one selects. -/
def isPrefix : PlacePath → PlacePath → Bool
  | [], _ => true
  | _ :: _, [] => false
  | p :: l, q :: m => p.meets q && isPrefix l m

/-- `ResolvedPlace`. -/
structure ResolvedPlace where
  root : LocalId
  type : TypeId
  path : PlacePath := []
  unsafeUnionAccess : Bool := false
  borrowedView : Bool := false
  deriving DecidableEq, Repr

/-- The whole of a local. -/
def ResolvedPlace.ofLocal (sem : SemIR) (l : LocalId) : ResolvedPlace :=
  { root := l, type := (sem.loc l).type }

/-- A part of a place. -/
def ResolvedPlace.project (p : ResolvedPlace) (step : PlaceProjection) (t : TypeId) :
    ResolvedPlace :=
  { p with path := p.path ++ [step], type := t }

@[simp] lemma ResolvedPlace.project_root (p : ResolvedPlace) (step : PlaceProjection) (t : TypeId) :
    (p.project step t).root = p.root := rfl

/-- `isExternal`: the place is reached through a reference or a pointer. -/
def ResolvedPlace.isExternal (p : ResolvedPlace) : Bool :=
  p.path.contains .dereference

/-- The place has an element of an array that is not known at compile time. -/
def ResolvedPlace.hasUnknownElement (p : ResolvedPlace) : Bool :=
  p.path.contains .anyElement

/-- `MaxTrackedElements`. -/
def maxTrackedElements : Nat := 4096

/-- The largest index of a projection. -/
def maxProjectionIndex : Int := 4294967295

/-- The index of a field as a projection has it, if it fits. -/
def fieldIndex? (field : Int) : Option Nat :=
  if 0 ≤ field ∧ field ≤ maxProjectionIndex then some field.toNat else none

/-- The projection of an `Index` into a place, with whether it reads through a borrowed view. -/
def indexProjection (base : SemType) (position : Value) : Option (PlaceProjection × Bool) :=
  match base with
  | .array _ count =>
    if count = 0 ∨ maxTrackedElements < count then none
    else match position with
      | .integerLiteral _ k =>
        if 0 ≤ k ∧ k ≤ maxProjectionIndex ∧ k < count then some (.element k.toNat, false) else none
      | _ => some (.anyElement, false)
  | .slice _ => some (.anyElement, true)
  | _ => none

/-- `resolvePlace`: the place that a value denotes. A negative field of a union is an access that
was written as unsafe. -/
def resolvePlace (sem : SemIR) : Value → Option ResolvedPlace
  | .initializePlace _ l _ | .materializeTemporary _ l _ | .nameRef _ l => some (.ofLocal sem l)
  | .callbackRegistrationBinding _ v => resolvePlace sem v
  | .carrierView _ base t => do
    let p ← resolvePlace sem base
    some (p.project (.carrierView t) t)
  | .dereference _ base => do
    let p ← resolvePlace sem base
    let t ← sem.pointee? p.type
    some (p.project .dereference t)
  | .enumPayloadAccess _ base field variant t => do
    let p ← resolvePlace sem base
    some (p.project (.enumPayload field variant) t)
  | .structFieldAccess _ base field t => do
    let p ← resolvePlace sem base
    let k ← fieldIndex? field
    some (p.project (.field k) t)
  | .unionFieldAccess _ base field t => do
    let p ← resolvePlace sem base
    if field = -9223372036854775808 then none
    else
      let k ← fieldIndex? (if field < 0 then -field - 1 else field)
      some { p.project (.field k) t with
        unsafeUnionAccess := p.unsafeUnionAccess || decide (field < 0) }
  | .index _ base position t => do
    let p ← resolvePlace sem base
    let (step, view) ← indexProjection (sem.type p.type) position
    some { p.project step t with borrowedView := p.borrowedView || view }
  | _ => none

/-- The steps of a region from a place of the caller, as `resolveCallEffectPlace` takes them. -/
def projectRegion (sem : SemIR) : List OwnershipRegionStep → ResolvedPlace → Option ResolvedPlace
  | [], p => some p
  | .dereference k :: l, p => do
    let t ← sem.pointee? p.type
    if k ≠ 0 then none else projectRegion sem l (p.project .dereference t)
  | .anyElement :: _, p =>
    -- an unknown element ends the path
    match sem.type p.type with
    | .array t _ => some (p.project .anyElement t)
    | .slice t => some { p.project .anyElement t with borrowedView := true }
    | _ => none
  | .staticElement k :: l, p =>
    match sem.type p.type with
    | .array t count =>
      if k < count then projectRegion sem l (p.project (.element k) t) else none
    | _ => none
  | .field k :: l, p =>
    match sem.type p.type with
    | .nominal _ fields _ =>
      match fields[k]? with
      | some f => projectRegion sem l (p.project (.field k) f.type)
      | none => none
    | _ => none

/-- The value whose place a callee works on when it is handed the argument. -/
def callArgumentPlace (sem : SemIR) : Value → Option ResolvedPlace
  | .borrowLocal _ l _ => some (.ofLocal sem l)
  | .borrowPlace _ v _ | .move _ v | .copy _ v => resolvePlace sem v
  | v => resolvePlace sem v

/-- `resolveCallEffectPlace`: the place of the caller that a region of the callee's parameter is,
given the argument for the parameter. -/
def resolveCallEffectPlace (sem : SemIR) (argument : Value) (region : OwnershipRegion) :
    Option ResolvedPlace := do
  let argument := match argument with
    | .callbackRegistrationBinding _ v => v
    | v => v
  let p ← callArgumentPlace sem argument
  let p := match sem.type p.type with
    | .reference t _ => p.project .dereference t
    | _ => p
  projectRegion sem region.path p

end Chtholly
