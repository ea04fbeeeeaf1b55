import Chtholly.NumberFormat.Exact

/-!
# Types, values and places of implicit conversions

A value is an instruction together with the instructions that it reads.  Some of them are places, and
a place may be reached through references, through slices and through raw pointers.  The compiler
asks the storage at the root of a place whether it is mutable, or the raw pointer that is passed
last; it does not ask the references and slices on the way.

## Main definitions

* `Conversion.SemType`, `Conversion.canonicalType` — types, and their canonical forms.
* `Conversion.Value` — instructions with their operands.
* `Conversion.Value.isPlace`, `Conversion.Value.isMutablePlace` — the tests of the compiler.
* `Conversion.Value.passedViews`, `Conversion.Value.Permits` — the references and slices on the way
  to a place, and whether the place may be written.

## Main results

* `Conversion.Value.permits_iff` — a place that passes the test of the compiler may be written if
  none of the views on the way is read-only.
-/

set_option autoImplicit false

namespace Chtholly

namespace Conversion

/-! ## Types -/

/-- `SemReferenceMutability`. -/
inductive SemReferenceMutability
  | readOnly | mutable
  deriving DecidableEq

/-- The types as far as conversions look into them; the two numbers of any other type are its index
and the index of its canonical form. -/
inductive SemType
  | void
  | never
  | integer (width : ℕ) (signed : Bool)
  | float (width : ℕ)
  | array (element : SemType) (length : ℕ)
  | slice (element : SemType) (mutability : SemReferenceMutability)
  | reference (pointee : SemType) (mutability : SemReferenceMutability) (provenance : ℕ)
  | rawPointer (pointee : SemType) (pointeeConst : Bool)
  | other (index canonical : ℕ)
  deriving DecidableEq

def canonicalType : SemType → SemType
  | .void => .void
  | .never => .never
  | .integer width signed => .integer width signed
  | .float width => .float width
  | .array element length => .array (canonicalType element) length
  | .slice element mutability => .slice (canonicalType element) mutability
  | .reference pointee mutability provenance =>
    .reference (canonicalType pointee) mutability provenance
  | .rawPointer pointee pointeeConst => .rawPointer (canonicalType pointee) pointeeConst
  | .other _ canonical => .other canonical canonical

namespace SemType

def isReference : SemType → Bool
  | .reference .. => true
  | _ => false

def isRawPointer : SemType → Bool
  | .rawPointer .. => true
  | _ => false

/-- What is referred to behind all references. -/
def referent : SemType → SemType
  | .reference pointee _ _ => referent pointee
  | type => type

/-- What is behind at most so many references, and the number of references before it. -/
def stripReferences : ℕ → SemType → SemType × ℕ
  | limit + 1, .reference pointee _ _ =>
    let (stripped, depth) := stripReferences limit pointee
    (stripped, depth + 1)
  | _, type => (type, 0)

/-- References and pointers of the type allow what they point at to be written. -/
def permitsMutation : SemType → Bool
  | .reference _ mutability _ => mutability = .mutable
  | .rawPointer _ pointeeConst => !pointeeConst
  | _ => false

/-- The widths that number types have. -/
def Valid : SemType → Prop
  | .integer width _ => 0 < width ∧ width ≤ 64
  | .float width => width = 32 ∨ width = 64
  | _ => True

lemma referent_not_reference (type : SemType) : type.referent.isReference = false := by
  induction type with
  | reference pointee mutability provenance ih => exact ih
  | _ => rfl

lemma referent_of_not_reference {type : SemType} (h : type.isReference = false) :
    type.referent = type := by
  cases type with
  | reference => cases h
  | _ => rfl

end SemType

/-! ## Values -/

/-- A local variable with its type; the flags are `SemLocalMutable` and `SemLocalUninitialized`. -/
structure SemLocal where
  type : SemType
  isMutable : Bool
  isUninitialized : Bool := false
  deriving DecidableEq

/-- The digits of a literal without a suffix. -/
structure SemanticIntegerLiteral where
  magnitude : ℕ
  negative : Bool
  deriving DecidableEq

/-- The mathematical value of the digits. -/
def SemanticIntegerLiteral.number (literal : SemanticIntegerLiteral) : ℤ :=
  if literal.negative then -(literal.magnitude : ℤ) else literal.magnitude

/-- Instructions with the instructions that they read.  Literals without a suffix have the record
that the conversion planner keeps for them; a floating point literal is the number it stands for. -/
inductive Value
  | nameRef (type : SemType) (storage : SemLocal)
  | materializeTemporary (type : SemType) (value : Value)
  | structFieldAccess (type : SemType) (base : Value) (field : ℕ)
  | unionFieldAccess (type : SemType) (base : Value) (field : ℕ)
  | index (type : SemType) (base : Value)
  | dereference (type : SemType) (operand : Value)
  | borrowLocal (type : SemType) (storage : SemLocal)
  | borrowPlace (type : SemType) (place : Value)
  | nullPointer (type : SemType)
  | integerLiteral (type : SemType) (bits : BitVec 64) (literal : Option SemanticIntegerLiteral)
  | floatLiteral (type : SemType) (number : ℚ) (literal : Option ℚ)
  | numericConvert (type : SemType) (value : Value)
  | other (type : SemType) (inst : ℕ)
  deriving DecidableEq

namespace Value

def type : Value → SemType
  | .nameRef type _ | .materializeTemporary type _ | .structFieldAccess type _ _
  | .unionFieldAccess type _ _ | .index type _ | .dereference type _ | .borrowLocal type _
  | .borrowPlace type _ | .nullPointer type | .integerLiteral type _ _ | .floatLiteral type _ _
  | .numericConvert type _ | .other type _ => type

/-- `setInstType`. -/
def setInstType (value : Value) (type : SemType) : Value :=
  match value with
  | .nameRef _ storage => .nameRef type storage
  | .materializeTemporary _ value => .materializeTemporary type value
  | .structFieldAccess _ base field => .structFieldAccess type base field
  | .unionFieldAccess _ base field => .unionFieldAccess type base field
  | .index _ base => .index type base
  | .dereference _ operand => .dereference type operand
  | .borrowLocal _ storage => .borrowLocal type storage
  | .borrowPlace _ place => .borrowPlace type place
  | .nullPointer _ => .nullPointer type
  | .integerLiteral _ bits literal => .integerLiteral type bits literal
  | .floatLiteral _ number literal => .floatLiteral type number literal
  | .numericConvert _ value => .numericConvert type value
  | .other _ inst => .other type inst

@[simp] lemma type_setInstType (value : Value) (type : SemType) :
    (value.setInstType type).type = type := by
  cases value <;> rfl

@[simp] lemma setInstType_type (value : Value) : value.setInstType value.type = value := by
  cases value <;> rfl

/-! ## Places -/

def isPlace : Value → Bool
  | .nameRef .. | .materializeTemporary .. | .structFieldAccess .. | .unionFieldAccess ..
  | .index .. | .dereference .. => true
  | _ => false

def isMutablePlace : Value → Bool
  | .nameRef _ storage =>
    storage.isMutable || storage.type.isReference && storage.type.permitsMutation
  | .dereference _ operand =>
    if operand.type.isRawPointer then operand.type.permitsMutation else operand.isMutablePlace
  | .structFieldAccess _ base _ | .unionFieldAccess _ base _ | .index _ base => base.isMutablePlace
  | _ => false

/-- What `isMutablePlace` passes over: the references and slices between a place and the storage at
its root, or the last raw pointer on the way. -/
def passedViews : Value → List SemReferenceMutability
  | .dereference _ operand =>
    match operand.type with
    | .reference _ mutability _ => mutability :: operand.passedViews
    | _ => []
  | .index _ base =>
    match base.type with
    | .slice _ mutability => mutability :: base.passedViews
    | _ => base.passedViews
  | .structFieldAccess _ base _ | .unionFieldAccess _ base _ => base.passedViews
  | _ => []

/-- The place may be written: its storage is mutable, or all the views through which it is reached
are. -/
def Permits : Value → Prop
  | .nameRef _ storage => storage.isMutable = true
  | .dereference _ operand =>
    match operand.type with
    | .reference _ mutability _ => mutability = .mutable ∧ ∀ view ∈ operand.passedViews, view = .mutable
    | .rawPointer _ pointeeConst => pointeeConst = false
    | _ => False
  | .index _ base =>
    match base.type with
    | .slice _ mutability => mutability = .mutable ∧ ∀ view ∈ base.passedViews, view = .mutable
    | _ => base.Permits
  | .structFieldAccess _ base _ | .unionFieldAccess _ base _ => base.Permits
  | _ => False

/-- The facts that the verifier checks of an instruction and those it reads. -/
def Typed : Value → Prop
  | .nameRef type storage => type = storage.type
  | .materializeTemporary type value => type = value.type ∧ value.Typed
  | .structFieldAccess _ base _ | .unionFieldAccess _ base _ =>
    (∃ index canonical, base.type = .other index canonical) ∧ base.Typed
  | .index type base =>
    ((∃ length, base.type = .array type length) ∨ ∃ view, base.type = .slice type view) ∧ base.Typed
  | .dereference type operand =>
    ((∃ view provenance, operand.type = .reference type view provenance) ∨
      ∃ pointeeConst, operand.type = .rawPointer type pointeeConst) ∧ operand.Typed
  | .borrowLocal type storage => ∃ view provenance, type = .reference storage.type view provenance
  | .borrowPlace type place =>
    (∃ view provenance, type = .reference place.type view provenance) ∧ place.Typed
  | .nullPointer type => type.isRawPointer = true
  | .integerLiteral _ bits literal => ∀ digits ∈ literal, digits.magnitude < 2 ^ 64 ∧
      bits = BitVec.ofInt 64 digits.number
  | .floatLiteral _ _ _ | .other _ _ => True
  | .numericConvert _ value => value.Typed

/-- A place that is no reference and passes the test of the compiler may be written if and only if
no view on the way is read-only. -/
theorem permits_iff {place : Value} (htyped : place.Typed)
    (htype : place.type.isReference = false) (h : place.isMutablePlace = true) :
    place.Permits ↔ ∀ view ∈ place.passedViews, view = .mutable := by
  induction place with
  | nameRef type storage =>
    have hstorage : storage.type.isReference = false := by
      rw [← show type = storage.type from htyped]
      exact htype
    have hmutable : storage.isMutable = true := by
      simpa [isMutablePlace, hstorage] using h
    simp [Permits, passedViews, hmutable]
  | structFieldAccess type base field ih | unionFieldAccess type base field ih =>
    obtain ⟨⟨index, canonical, hbase⟩, htyped⟩ := htyped
    exact ih htyped (by rw [hbase]; rfl) h
  | index type base ih =>
    obtain ⟨⟨length, hbase⟩ | ⟨view, hbase⟩, htyped⟩ := htyped
    · simp only [Permits, passedViews, hbase]
      exact ih htyped (by rw [hbase]; rfl) h
    · simp [Permits, passedViews, hbase]
  | dereference type operand ih =>
    obtain ⟨⟨view, provenance, hoperand⟩ | ⟨pointeeConst, hoperand⟩, htyped⟩ := htyped
    · simp [Permits, passedViews, hoperand]
    · have hmutable : pointeeConst = false := by
        simpa [isMutablePlace, hoperand, SemType.isRawPointer, SemType.permitsMutation] using h
      simp [Permits, passedViews, hoperand, hmutable]
  | _ => cases h

end Value

end Conversion

end Chtholly
