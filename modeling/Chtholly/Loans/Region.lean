import Chtholly.PlaceState.Place
import Chtholly.PublicInterface.Summary

set_option autoImplicit false

/-!
# The regions of the loan analysis

The loan analysis (`PlaceStateAnalysisApi.inc`) compares storage by regions: a local and a path of
components.  A component is the name of a field, an element of an array, an element that is not known,
or the storage that the alternatives of a union share.  The fields of a type with a representation of
its own are compared by where the carrier stores them.

## Main definitions

* `Loans.Types` — one level of each type, as `region_for` reads it.
* `Loans.regionFor` — the region of a place.
* `Loans.Region.overlaps` — whether two regions may share storage.
* `Loans.projectRegion` — the region of a callee, within the storage that it was handed.
-/

namespace Chtholly

namespace Loans

/-! ## Types -/

/-- Index of a name. -/
abbrev NameId := ℕ

inductive PublicObjectProjectionKind
  | stableAddress | computed | bitPacked
  deriving DecidableEq

/-- `SemNominalField`, with the type that the field has in the instance it is read from. -/
structure SemNominalField where
  name : NameId
  type : TypeId
  projectionKind : PublicObjectProjectionKind := .stableAddress
  storagePath : List NameId := []
  projectionRegionPath : List NameId := []
  bitBegin : ℕ := 0
  bitEnd : ℕ := 0

/-- One level of a type.  The carrier of a nominal type is the type that represents its objects, if
it has a representation of its own. -/
inductive StoredType
  | nominal (kind : NominalKind) (fields : List SemNominalField) (carrier : Option TypeId)
  | array (element : TypeId) (count : ℕ)
  | slice (element : TypeId)
  | reference (pointee : TypeId)
  | other

/-- The types of a module. -/
abbrev Types := TypeId → StoredType

/-! ## Regions -/

/-- A component of the path of a region: the kinds 1 to 4 of the source. -/
inductive Component
  | field (name : NameId)
  | element (index : ℕ)
  | anyElement (index : ℕ)
  | union
  deriving DecidableEq

/-- The two components are elements, and one of them is not known. -/
def Component.elementWildcard : Component → Component → Bool
  | .anyElement _, .element _ | .anyElement _, .anyElement _ | .element _, .anyElement _ => true
  | _, _ => false

/-- The comparison goes on after the two components. -/
def Component.meets (c d : Component) : Bool := c.elementWildcard d || c = d

structure Region where
  root : LocalId
  path : List Component := []
  bitRange : Bool := false
  bitBegin : ℕ := 0
  bitEnd : ℕ := 0
  widened : Bool := false
  deriving DecidableEq

/-- `SemPlace`. -/
structure SemPlace where
  root : LocalId
  projections : List PlaceProjection := []

/-- What a step from an object adds to a region: the type of the part, its components, and the bits
of a field that is packed into a word. -/
structure Part where
  type : TypeId
  components : List Component := []
  bits : Option (ℕ × ℕ) := none

def Region.extend (r : Region) (part : Part) : Region :=
  match part.bits with
  | some (first, last) =>
    { r with path := r.path ++ part.components, bitRange := true, bitBegin := first, bitEnd := last }
  | none => { r with path := r.path ++ part.components }

/-- Where the carrier stores a field that is not computed. -/
def SemNominalField.storage (f : SemNominalField) : List NameId :=
  if f.storagePath.isEmpty then [f.name] else f.storagePath

/-- All union alternatives denote the same storage region. -/
def SemNominalField.components (f : SemNominalField) (kind : NominalKind) : List Component :=
  if kind = .union then [.union]
  else if f.projectionKind = .computed then f.projectionRegionPath.map .field
  else f.storage.map .field

/-- The bits of a field that is packed into a word. -/
def SemNominalField.bits (f : SemNominalField) (kind : NominalKind) : Option (ℕ × ℕ) :=
  if kind ≠ .union ∧ f.projectionKind = .bitPacked then some (f.bitBegin, f.bitEnd) else none

/-- A field of a nominal type, by its index. -/
def Types.field? (types : Types) (t : TypeId) (k : ℕ) : Option (NominalKind × SemNominalField) :=
  match types t with
  | .nominal kind fields _ => fields[k]?.map (kind, ·)
  | _ => none

section

variable (types : Types)

/-- One step of `region_for`. -/
def placePart (t : TypeId) : PlaceProjection → Option Part
  | .carrierView u => some { type := u }
  | .dereference =>
    match types t with
    | .reference p => some { type := p }
    | _ => none
  | .element k =>
    match types t with
    | .array e _ => some { type := e, components := [.element k] }
    | _ => none
  | .anyElement =>
    match types t with
    | .array e _ | .slice e => some { type := e, components := [.anyElement 0] }
    | _ => none
  | .field k | .enumPayload k _ =>
    (types.field? t k).map fun (kind, f) =>
      { type := f.type, components := f.components kind, bits := f.bits kind }

/-- The loop of `region_for`. -/
def regionFrom : List PlaceProjection → TypeId → Region → Option Region
  | [], _, r => some r
  | p :: ps, t, r =>
    match placePart types t p with
    | some part => regionFrom ps part.type (r.extend part)
    | none => none

/-- `region_for`. -/
def regionFor (locals : LocalId → TypeId) (place : SemPlace) : Option Region :=
  regionFrom types place.projections (locals place.root) { root := place.root }

/-- One step of `project_region`.  A field that is packed into a word stands for the word. -/
def sourcePart (t : TypeId) (step : PublicInterface.OwnershipRegionStep) : Option Part :=
  match step.kind, types t with
  | .dereference, .reference p => if step.index = 0 then some { type := p } else none
  | .staticElement, .array e _ => some { type := e, components := [.element step.index] }
  | .anyElement, .array e _ => some { type := e, components := [.anyElement step.index] }
  | .field, .nominal kind fields _ =>
    fields[step.index]?.map fun f => { type := f.type, components := f.components kind }
  | _, _ => none

/-- The loop of `project_region`. -/
def projectFrom : List PublicInterface.OwnershipRegionStep → TypeId → Region → Option Region
  | [], _, r => some r
  | step :: steps, t, r =>
    match sourcePart types t step with
    | some part => projectFrom steps part.type (r.extend part)
    | none => none

/-- The type behind a reference. -/
def referent (t : TypeId) : TypeId :=
  match types t with
  | .reference p => p
  | _ => t

/-- `project_region`. -/
def projectRegion (r : Region) (t : TypeId) (source : PublicInterface.OwnershipRegion) :
    Option Region :=
  if r.widened then some r
  else (projectFrom types source.path (referent types t) r).map fun projected =>
    let projected := if source.hasBitRange then
        { projected with bitRange := true, bitBegin := source.bitBegin, bitEnd := source.bitEnd }
      else projected
    -- a suffix that repeats the end of the path widens the region to all of the local
    let added := projected.path.drop r.path.length
    if added ≠ [] ∧ added <:+ r.path then { root := projected.root, widened := true }
    else projected

end

/-! ## Overlap -/

/-- The loop of `overlaps`; the last argument is asked where both paths end. -/
def overlapsFrom : List Component → List Component → Bool → Bool
  | .union :: _, .union :: _, _ => true
  | c :: l, d :: m, bits => c.meets d && overlapsFrom l m bits
  | [], [], bits => bits
  | _, _, _ => true

/-- The ranges of bits of the two regions meet, or one of them is not of bits. -/
def Region.bitsMeet (lhs rhs : Region) : Bool :=
  !(lhs.bitRange && rhs.bitRange) ||
    decide (max lhs.bitBegin rhs.bitBegin < min lhs.bitEnd rhs.bitEnd)

/-- `overlaps`. -/
def Region.overlaps (lhs rhs : Region) : Bool :=
  decide (lhs.root = rhs.root) && overlapsFrom lhs.path rhs.path (lhs.bitsMeet rhs)

end Loans

end Chtholly
