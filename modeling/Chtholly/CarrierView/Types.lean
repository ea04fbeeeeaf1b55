import Mathlib.Data.List.Forall2

/-!
# Semantic types and the substitution of type arguments

A type is kept once for each of its spellings, so that two of them are the same type exactly when
their trees are the same.  The tree of a type has the type parameters and their projections at its
leaves; a projection has a type parameter at its bottom, as the verifier of the semantic program
demands.

## Main definitions

* `CarrierView.SemType` — types as trees.
* `CarrierView.SemType.substitute` — arguments put in the place of the parameters of a generic.
* `CarrierView.SemType.FreeOf` — no parameter of the generic is left.

## Main results

* `CarrierView.SemType.substitute_of_freeOf` — a type without parameters is its own instance.
-/

set_option autoImplicit false

namespace Chtholly

namespace CarrierView

/-! ## Types -/

/-- The kinds that have no component. -/
inductive ScalarKind
  | void | never | bool | char
  | integer (width : ℕ) (isSigned : Bool)
  | float (width : ℕ)
  | string
  | foreignCompletion (resource : ℕ) | foreignWake (resource : ℕ)
  | coroutineExecutor | coroutineScope | coroutineTaskCompletion
  deriving DecidableEq

inductive ForeignCallingConvention
  | c | win64 | sysV64
  deriving DecidableEq

/-- What a C function pointer has beyond its parameters and its result; `contract` stands for the
canonical bytes of the ownership summary. -/
structure CallableAbi where
  callingConvention : ForeignCallingConvention := .c
  contract : List ℕ := []
  contextParameter : Option ℕ := none
  deriving DecidableEq

inductive CallbackKind
  | adapter | registration | completion | wake
  deriving DecidableEq

inductive CoroutineKind
  | task | taskOutcome | taskCompletionSet | taskSelection | checked
  deriving DecidableEq

/-- What a type has beside its components.  The components of a function are its parameters and then
its result, those of an asynchronous function its parameters and then its outcomes. -/
inductive Head
  | array (length : ℕ)
  | tuple (abiUnion : Bool)
  | slice (mutableView : Bool)
  | function
  | asyncFunction (parameters : ℕ)
  | nominal (declaration : ℕ) (operationState : Option ℕ)
  | reference (facts : ℕ)
  | rawPointer (pointeeConst : Bool)
  | cFunctionPointer (variadic : Bool) (abi : CallableAbi)
  | callback (kind : CallbackKind) (facts : List ℕ)
  | coroutine (kind : CoroutineKind) (count : ℕ)
  deriving DecidableEq

inductive ProjectionStep
  | element (index : ℕ)
  | pointee
  deriving DecidableEq

/-- A type; `dependent` is a type parameter with the projections that are taken of it. -/
inductive SemType
  | scalar (kind : ScalarKind)
  | dependent (generic index : ℕ) (steps : List ProjectionStep)
  | compound (head : Head) (elements : List SemType)

namespace SemType

mutual

/-- Equality of type ids. -/
def decEq : (a b : SemType) → Decidable (a = b)
  | scalar s, scalar t =>
    if h : s = t then isTrue (by rw [h]) else isFalse fun heq => h (scalar.inj heq)
  | dependent g i steps, dependent g' i' steps' =>
    if h : g = g' ∧ i = i' ∧ steps = steps' then isTrue (by rw [h.1, h.2.1, h.2.2])
    else isFalse fun heq => h (dependent.inj heq)
  | compound head elements, compound head' elements' =>
    if h : head = head' then
      match decEqList elements elements' with
      | isTrue hsame => isTrue (by rw [h, hsame])
      | isFalse hdifferent => isFalse fun heq => hdifferent (compound.inj heq).2
    else isFalse fun heq => h (compound.inj heq).1
  | scalar _, dependent _ _ _ => isFalse nofun
  | scalar _, compound _ _ => isFalse nofun
  | dependent _ _ _, scalar _ => isFalse nofun
  | dependent _ _ _, compound _ _ => isFalse nofun
  | compound _ _, scalar _ => isFalse nofun
  | compound _ _, dependent _ _ _ => isFalse nofun

def decEqList : (as bs : List SemType) → Decidable (as = bs)
  | [], [] => isTrue rfl
  | [], _ :: _ => isFalse nofun
  | _ :: _, [] => isFalse nofun
  | a :: as, b :: bs =>
    match decEq a b, decEqList as bs with
    | isTrue hfirst, isTrue hrest => isTrue (by rw [hfirst, hrest])
    | isFalse hfirst, _ => isFalse fun heq => hfirst (List.cons.inj heq).1
    | _, isFalse hrest => isFalse fun heq => hrest (List.cons.inj heq).2

end

instance : DecidableEq SemType := decEq

/-- Types by induction, with the hypothesis for every component. -/
@[elab_as_elim]
theorem induction {motive : SemType → Prop} (scalar : ∀ kind, motive (.scalar kind))
    (dependent : ∀ generic index steps, motive (.dependent generic index steps))
    (compound : ∀ head elements, (∀ element ∈ elements, motive element) →
      motive (.compound head elements)) : ∀ type, motive type
  | .scalar kind => scalar kind
  | .dependent generic index steps => dependent generic index steps
  | .compound head elements => compound head elements fun element _ =>
    induction scalar dependent compound element

/-! ## Substitution -/

/-- One projection of a type that is known; a projection of a parameter is kept. -/
def project : SemType → ProjectionStep → Option SemType
  | .dependent generic index steps, step => some (.dependent generic index (steps ++ [step]))
  | .compound (.array length) [element], .element index =>
    if index < length then some element else none
  | .compound (.tuple _) elements, .element index => elements[index]?
  | .compound (.reference _) [pointee], .pointee
  | .compound (.rawPointer _) [pointee], .pointee
  | .compound (.slice _) [pointee], .pointee => some pointee
  | _, _ => none

/-- The kinds whose components are substituted; the others are left as they are. -/
def descends : Head → Bool
  | .coroutine _ _ => false
  | _ => true

mutual

/-- `substitute_canonical`.  There is no type where an argument is missing or where a projection is
not one of the argument. -/
def substitute (generic : ℕ) (arguments : List SemType) : SemType → Option SemType
  | .scalar kind => some (.scalar kind)
  | .dependent owner index steps =>
    if owner = generic then arguments[index]?.bind fun argument => steps.foldlM project argument
    else some (.dependent owner index steps)
  | .compound head elements =>
    if descends head then (substituteAll generic arguments elements).map (.compound head)
    else some (.compound head elements)

def substituteAll (generic : ℕ) (arguments : List SemType) : List SemType → Option (List SemType)
  | [] => some []
  | type :: types =>
    (substitute generic arguments type).bind fun first =>
      (substituteAll generic arguments types).map (first :: ·)

end

/-- No parameter of the generic occurs in the type. -/
inductive FreeOf (generic : ℕ) : SemType → Prop
  | scalar (kind : ScalarKind) : FreeOf generic (.scalar kind)
  | dependent (owner index : ℕ) (steps : List ProjectionStep) (h : owner ≠ generic) :
    FreeOf generic (.dependent owner index steps)
  | compound (head : Head) (elements : List SemType)
    (h : ∀ element ∈ elements, FreeOf generic element) : FreeOf generic (.compound head elements)

variable {generic : ℕ} {arguments : List SemType}

lemma FreeOf.elements {head : Head} {elements : List SemType}
    (h : FreeOf generic (.compound head elements)) : ∀ element ∈ elements, FreeOf generic element := by
  cases h with
  | compound _ _ h => exact h

lemma substituteAll_eq_some_iff {types instances : List SemType} :
    substituteAll generic arguments types = some instances ↔
      List.Forall₂ (fun type result => substitute generic arguments type = some result)
        types instances := by
  induction types generalizing instances with
  | nil => cases instances <;> simp [substituteAll]
  | cons type types ih =>
    cases instances with
    | nil => simp [substituteAll, Option.bind_eq_some_iff]
    | cons result results =>
      simp [substituteAll, Option.bind_eq_some_iff, ih]

/-- A type in which no parameter of the generic occurs is its own instance. -/
theorem substitute_of_freeOf {type : SemType} (h : FreeOf generic type) :
    substitute generic arguments type = some type := by
  induction type using SemType.induction with
  | scalar kind => rfl
  | dependent owner index steps =>
    cases h with
    | dependent _ _ _ hne => simp [substitute, hne]
  | compound head elements ih =>
    have hall : substituteAll generic arguments elements = some elements :=
      substituteAll_eq_some_iff.2
        (List.forall₂_same.2 fun element hmem => ih element hmem (h.elements element hmem))
    simp [substitute, hall]

end SemType

end CarrierView

end Chtholly
