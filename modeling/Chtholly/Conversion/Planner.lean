import Chtholly.Conversion.Types

/-!
# Planning and applying implicit conversions

The planner says whether a value may be converted to a type, with which kind of conversion, and how
costly that is.  Applying the plan gives the converted value.  A plan can be refused when it is
applied: the planner does not look at places.

## Main definitions

* `Conversion.query` — the plan for a value and a target type.
* `Conversion.applyConversion` — the converted value.
* `Conversion.Planned` — what is known of a value and a target that have a plan.

## Main results

* `Conversion.planned_query` — every valid plan is one of those.
* `Conversion.pow_countrZero_dvd` — the trailing zeros of a magnitude.
-/

set_option autoImplicit false

namespace Chtholly

namespace Conversion

open NumberFormat

/-! ## Plans -/

inductive SemanticConversionKind
  | invalid | identity | never | contextualInteger | contextualIntegerToFloat | contextualFloat
  | contextualNull | numeric | referenceToValue | valueToReference | referenceAuthority
  | pointerAuthority
  deriving DecidableEq

structure SemanticConversionPlan where
  kind : SemanticConversionKind := .invalid
  rank : ℕ := 0xff
  referenceDepth : ℕ := 0
  deriving DecidableEq

def SemanticConversionPlan.valid (plan : SemanticConversionPlan) : Bool :=
  plan.kind ≠ .invalid

/-! ## Numbers -/

def integerMagnitudeFits (magnitude : ℕ) (target : SemType) (negative : Bool) : Bool :=
  match target with
  | .integer width false => !negative && (width = 64 || magnitude < 2 ^ width)
  | .integer width true =>
    if negative then magnitude ≤ 2 ^ (width - 1) else magnitude ≤ 2 ^ (width - 1) - 1
  | _ => false

def floatPrecision (width : ℕ) : ℕ :=
  if width = 32 then 24 else 53

/-- `std::countr_zero` of 64 bits. -/
def countrZero (magnitude : ℕ) : ℕ :=
  ((List.range 64).takeWhile fun bit => !magnitude.testBit bit).length

def integerMagnitudeExactlyRepresentableAsFloat (magnitude width : ℕ) : Bool :=
  if magnitude = 0 then true
  else
    let precision := floatPrecision width
    let significantBits := magnitude.size
    if significantBits ≤ precision then true
    else significantBits - precision ≤ countrZero magnitude

def losslessNumericConversion (source target : SemType) : Bool :=
  match source, target with
  | .integer width signed, .integer width' signed' =>
    if signed = signed' then width ≤ width' else !signed && signed' && width < width'
  | .float width, .float width' => width < width'
  | .integer width signed, .float width' =>
    -- The width is a `uint32`, and nothing has width zero.
    if signed then width - 1 ≤ floatPrecision width' else width ≤ floatPrecision width'
  | _, _ => false

/-- `std::isfinite` of the number as a `float`: it rounds to a number below the overflow. -/
def finiteAsFloat (number : ℚ) : Bool :=
  |number| < (2 ^ 25 - 1) * 2 ^ 103

/-! ## The planner -/

namespace Value

def integerRecord : Value → Option SemanticIntegerLiteral
  | .integerLiteral _ _ literal => literal
  | _ => none

def floatRecord : Value → Option ℚ
  | .floatLiteral _ _ literal => literal
  | _ => none

def isNullPointer : Value → Bool
  | .nullPointer _ => true
  | _ => false

def isBorrow : Value → Bool
  | .borrowLocal .. | .borrowPlace .. => true
  | _ => false

end Value

def nullPlan (value : Value) (target : SemType) : Option SemanticConversionPlan :=
  if value.isNullPointer && target.isRawPointer then some { kind := .contextualNull, rank := 1 }
  else none

def integerPlan (value : Value) (target : SemType) : Option SemanticConversionPlan :=
  match value.integerRecord with
  | none => none
  | some literal =>
    if integerMagnitudeFits literal.magnitude target literal.negative then
      some { kind := .contextualInteger, rank := 1 }
    else
      match target with
      | .float width =>
        if integerMagnitudeExactlyRepresentableAsFloat literal.magnitude width then
          some { kind := .contextualIntegerToFloat, rank := 1 }
        else none
      | _ => none

def floatPlan (value : Value) (target : SemType) : Option SemanticConversionPlan :=
  match value.floatRecord, target with
  | some number, .float width =>
    if width = 64 || finiteAsFloat number then some { kind := .contextualFloat, rank := 1 } else none
  | _, _ => none

def numericPlan (value : Value) (target : SemType) : Option SemanticConversionPlan :=
  if losslessNumericConversion value.type target then some { kind := .numeric, rank := 2 } else none

/-- References are followed through at most 255 levels. -/
def referencePlan (value : Value) (target : SemType) : Option SemanticConversionPlan :=
  if value.type.isReference then
    let (pointee, depth) := SemType.stripReferences 255 value.type
    if target.isReference then
      if pointee = target.referent && !target.permitsMutation then
        some { kind := .referenceAuthority, rank := 2, referenceDepth := depth }
      else if pointee = target.referent && depth ≠ 0 then
        some { kind := .referenceAuthority, rank := 2, referenceDepth := depth }
      else none
    else if pointee = target && depth ≠ 0 then
      some { kind := .referenceToValue, rank := 2, referenceDepth := depth }
    else none
  else none

def bindingPlan (value : Value) (target : SemType) : Option SemanticConversionPlan :=
  if target.isReference && value.type = target.referent then
    some { kind := .valueToReference, rank := 2 }
  else none

def pointerPlan (value : Value) (target : SemType) : Option SemanticConversionPlan :=
  match value.type, target with
  | .rawPointer sourcePointee sourceConst, .rawPointer targetPointee targetConst =>
    if (!sourceConst || targetConst) && (sourcePointee = targetPointee || targetPointee = .void) then
      some { kind := .pointerAuthority, rank := 2 }
    else none
  | _, _ => none

def query (value : Value) (target : SemType) : SemanticConversionPlan :=
  if value.type = target then { kind := .identity, rank := 0 }
  else if value.type = .never then { kind := .never, rank := 0 }
  else
    (nullPlan value target <|> integerPlan value target <|> floatPlan value target <|>
      numericPlan value target <|> referencePlan value target <|> bindingPlan value target <|>
      pointerPlan value target).getD {}

/-! ## Applying a plan -/

/-- What a conversion needs besides the value: a full expression that owns temporaries, and the
conversion of a `double` to the nearest `float`. -/
structure Context where
  fullExpression : Bool
  toFloat : ℚ → ℚ

/-- `static_cast` of the digits to a `double`, and from there to a `float`. -/
def castLiteral (literal : SemanticIntegerLiteral) (width : ℕ) : ℤ :=
  let asDouble :=
    if literal.negative then -(roundMagnitude 53 literal.magnitude : ℤ)
    else roundMagnitude 53 literal.magnitude
  if width = 32 then roundInteger 24 asDouble else asDouble

/-- The place behind so many references. -/
def dereferences : ℕ → Value → Option Value
  | 0, value => some value
  | depth + 1, value =>
    match value.type with
    | .reference pointee _ _ => dereferences depth (.dereference pointee value)
    | _ => none

/-- A borrow that has the pointee of the target and at least its authority. -/
def keepsBorrow (value : Value) (target : SemType) : Bool :=
  value.isBorrow &&
    match value.type, target with
    | .reference pointee mutability _, .reference pointee' mutability' _ =>
      canonicalType pointee = canonicalType pointee' &&
        (mutability = mutability' || mutability' = .readOnly)
    | _, _ => false

def borrowAs (target : SemType) (place : Value) : Option Value :=
  if target.permitsMutation && !place.isMutablePlace then none else some (.borrowPlace target place)

def applyConversion (context : Context) (value : Value) (target : SemType)
    (plan : SemanticConversionPlan) : Option Value :=
  match plan.kind with
  | .invalid => none
  | .identity | .never => some value
  | .contextualInteger | .contextualNull | .pointerAuthority => some (value.setInstType target)
  | .contextualIntegerToFloat =>
    match value.integerRecord, target with
    | some literal, .float width => some (.floatLiteral target (castLiteral literal width) none)
    | _, _ => none
  | .contextualFloat =>
    match value.floatRecord, target with
    | some number, .float width =>
      some (.floatLiteral target (if width = 32 then context.toFloat number else number) none)
    | _, _ => none
  | .numeric => some (.numericConvert target value)
  | .valueToReference =>
    if !target.isReference then none
    else if value.isPlace then borrowAs target value
    else if target.permitsMutation || !context.fullExpression then none
    else borrowAs target (.materializeTemporary value.type value)
  | .referenceToValue =>
    match dereferences plan.referenceDepth value with
    | some current => if current.type = target then some current else none
    | none => none
  | .referenceAuthority =>
    if keepsBorrow value target then some (value.setInstType target)
    else
      match dereferences plan.referenceDepth value, target with
      | some current, .reference pointee _ _ =>
        if pointee ≠ current.type then none else borrowAs target current
      | _, _ => none

/-! ## What a plan says -/

/-- The value and the target of a plan. -/
inductive Planned (value : Value) (target : SemType) : SemanticConversionPlan → Prop
  | identity (h : value.type = target) : Planned value target { kind := .identity, rank := 0 }
  | never (h : value.type = .never) : Planned value target { kind := .never, rank := 0 }
  | contextualNull (hvalue : value.isNullPointer = true) (htarget : target.isRawPointer = true) :
    Planned value target { kind := .contextualNull, rank := 1 }
  | contextualInteger (literal : SemanticIntegerLiteral) (hvalue : value.integerRecord = some literal)
    (hfits : integerMagnitudeFits literal.magnitude target literal.negative = true) :
    Planned value target { kind := .contextualInteger, rank := 1 }
  | contextualIntegerToFloat (literal : SemanticIntegerLiteral) (width : ℕ)
    (hvalue : value.integerRecord = some literal) (htarget : target = .float width)
    (hexact : integerMagnitudeExactlyRepresentableAsFloat literal.magnitude width = true) :
    Planned value target { kind := .contextualIntegerToFloat, rank := 1 }
  | contextualFloat (number : ℚ) (width : ℕ) (hvalue : value.floatRecord = some number)
    (htarget : target = .float width) : Planned value target { kind := .contextualFloat, rank := 1 }
  | numeric (h : losslessNumericConversion value.type target = true) :
    Planned value target { kind := .numeric, rank := 2 }
  | referenceAuthority (depth : ℕ) (hne : value.type ≠ target) (hvalue : value.type.isReference = true)
    (htarget : target.isReference = true)
    (hstrip : SemType.stripReferences 255 value.type = (target.referent, depth)) :
    Planned value target { kind := .referenceAuthority, rank := 2, referenceDepth := depth }
  | referenceToValue (depth : ℕ) (hvalue : value.type.isReference = true)
    (htarget : target.isReference = false)
    (hstrip : SemType.stripReferences 255 value.type = (target, depth)) :
    Planned value target { kind := .referenceToValue, rank := 2, referenceDepth := depth }
  | valueToReference (htarget : target.isReference = true) (hnever : value.type ≠ .never)
    (h : value.type = target.referent) :
    Planned value target { kind := .valueToReference, rank := 2 }
  | pointerAuthority (sourcePointee targetPointee : SemType) (sourceConst targetConst : Bool)
    (hvalue : value.type = .rawPointer sourcePointee sourceConst)
    (htarget : target = .rawPointer targetPointee targetConst)
    (hauthority : sourceConst = false ∨ targetConst = true) :
    Planned value target { kind := .pointerAuthority, rank := 2 }

variable {value : Value} {target : SemType} {plan : SemanticConversionPlan}

lemma planned_integerPlan (h : integerPlan value target = some plan) :
    Planned value target plan := by
  unfold integerPlan at h
  split at h
  · cases h
  · rename_i literal hvalue
    split at h
    · rename_i hfits
      cases h
      exact .contextualInteger literal hvalue hfits
    · split at h
      · rename_i width _
        split at h
        · rename_i hexact
          cases h
          exact .contextualIntegerToFloat literal width hvalue rfl hexact
        · cases h
      · cases h

lemma planned_floatPlan (h : floatPlan value target = some plan) : Planned value target plan := by
  unfold floatPlan at h
  split at h
  · rename_i number width hvalue
    split at h
    · cases h
      exact .contextualFloat number width hvalue rfl
    · cases h
  · cases h

lemma planned_referencePlan (hne : value.type ≠ target)
    (h : referencePlan value target = some plan) : Planned value target plan := by
  unfold referencePlan at h
  split at h
  · rename_i hvalue
    have hpair : SemType.stripReferences 255 value.type =
        ((SemType.stripReferences 255 value.type).1, (SemType.stripReferences 255 value.type).2) := rfl
    dsimp only at h
    split at h
    · rename_i htarget
      have hauthority : (SemType.stripReferences 255 value.type).1 = target.referent →
          Planned value target
            ⟨.referenceAuthority, 2, (SemType.stripReferences 255 value.type).2⟩ := fun hpointee =>
        .referenceAuthority _ hne hvalue htarget (by rw [hpair, hpointee])
      split at h
      · rename_i hreadOnly
        cases h
        simp only [Bool.and_eq_true, decide_eq_true_eq] at hreadOnly
        exact hauthority hreadOnly.1
      · split at h
        · rename_i hdepth
          cases h
          simp only [Bool.and_eq_true, decide_eq_true_eq] at hdepth
          exact hauthority hdepth.1
        · cases h
    · rename_i htarget
      split at h
      · rename_i hpointee
        cases h
        simp only [Bool.and_eq_true, decide_eq_true_eq] at hpointee
        exact .referenceToValue _ hvalue (Bool.eq_false_iff.2 htarget) (by rw [hpair, hpointee.1])
      · cases h
  · cases h

lemma planned_pointerPlan (h : pointerPlan value target = some plan) :
    Planned value target plan := by
  unfold pointerPlan at h
  split at h
  · rename_i sourcePointee sourceConst targetPointee targetConst hvalue
    split at h
    · rename_i hauthority
      cases h
      simp only [Bool.and_eq_true, Bool.or_eq_true, Bool.not_eq_true'] at hauthority
      exact .pointerAuthority _ _ _ _ hvalue rfl hauthority.1
    · cases h
  · cases h

/-- **Plans.** A valid plan says what the value and the target are. -/
theorem planned_query (h : (query value target).valid = true) :
    Planned value target (query value target) := by
  unfold query at h ⊢
  split
  · rename_i hsame
    exact .identity hsame
  · rename_i hne
    split
    · rename_i hnever
      exact .never hnever
    · rename_i hnotNever
      rw [if_neg hne, if_neg hnotNever] at h
      generalize hplan : (nullPlan value target <|> integerPlan value target <|>
        floatPlan value target <|> numericPlan value target <|> referencePlan value target <|>
        bindingPlan value target <|> pointerPlan value target) = plan at h
      cases plan with
      | none => cases h
      | some plan =>
        simp only [Option.orElse_eq_orElse, Option.orElse_eq_or, Option.or_eq_some_iff] at hplan
        rw [Option.getD_some]
        rcases hplan with hplan | ⟨-, hplan⟩
        · simp only [nullPlan, Option.ite_none_right_eq_some, Bool.and_eq_true,
            Option.some.injEq] at hplan
          obtain ⟨⟨hvalue, htarget⟩, rfl⟩ := hplan
          exact .contextualNull hvalue htarget
        rcases hplan with hplan | ⟨-, hplan⟩
        · exact planned_integerPlan hplan
        rcases hplan with hplan | ⟨-, hplan⟩
        · exact planned_floatPlan hplan
        rcases hplan with hplan | ⟨-, hplan⟩
        · simp only [numericPlan, Option.ite_none_right_eq_some, Option.some.injEq] at hplan
          obtain ⟨hlossless, rfl⟩ := hplan
          exact .numeric hlossless
        rcases hplan with hplan | ⟨-, hplan⟩
        · exact planned_referencePlan hne hplan
        rcases hplan with hplan | ⟨-, hplan⟩
        · simp only [bindingPlan, Option.ite_none_right_eq_some, Bool.and_eq_true,
            decide_eq_true_eq, Option.some.injEq] at hplan
          obtain ⟨⟨htarget, hsame⟩, rfl⟩ := hplan
          exact .valueToReference htarget hnotNever hsame
        · exact planned_pointerPlan hplan

/-- Reference types are no targets of literals, numbers and pointers. -/
lemma query_reference (value : Value) (pointee : SemType) (mutability : SemReferenceMutability)
    (provenance : ℕ) :
    query value (.reference pointee mutability provenance) =
      if value.type = .reference pointee mutability provenance then { kind := .identity, rank := 0 }
      else if value.type = .never then { kind := .never, rank := 0 }
      else (referencePlan value (.reference pointee mutability provenance) <|>
        bindingPlan value (.reference pointee mutability provenance)).getD {} := by
  have hnull : nullPlan value (.reference pointee mutability provenance) = none := by
    simp [nullPlan, SemType.isRawPointer]
  have hinteger : integerPlan value (.reference pointee mutability provenance) = none := by
    unfold integerPlan
    split <;> simp [integerMagnitudeFits]
  have hfloat : floatPlan value (.reference pointee mutability provenance) = none := by
    simp [floatPlan]
  have hnumeric : numericPlan value (.reference pointee mutability provenance) = none := by
    simp [numericPlan, losslessNumericConversion]
  have hpointer : pointerPlan value (.reference pointee mutability provenance) = none := by
    simp [pointerPlan]
  simp [query, hnull, hinteger, hfloat, hnumeric, hpointer]

/-! ## Numbers that fit -/

lemma pow_countrZero_dvd (magnitude : ℕ) : 2 ^ countrZero magnitude ∣ magnitude := by
  have hzeros : ∀ bit < countrZero magnitude, magnitude.testBit bit = false := by
    intro bit hbit
    have hrange : ((List.range 64).takeWhile fun bit => !magnitude.testBit bit)[bit] = bit := by
      rw [(List.takeWhile_prefix _).getElem hbit, List.getElem_range]
    have hall := List.all_eq_true.1 (List.all_takeWhile (l := List.range 64)
      (p := fun bit => !magnitude.testBit bit)) _ (List.getElem_mem hbit)
    rw [hrange] at hall
    simpa using hall
  refine Nat.dvd_of_mod_eq_zero (Nat.eq_of_testBit_eq fun bit => ?_)
  rw [Nat.testBit_mod_two_pow, Nat.zero_testBit]
  by_cases hbit : bit < countrZero magnitude
  · simp [hzeros bit hbit]
  · simp [hbit]

end Conversion

end Chtholly
