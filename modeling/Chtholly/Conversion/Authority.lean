import Chtholly.Conversion.Planner

/-!
# Implicit conversions keep values and authority

An implicit conversion of a number gives the same number in the target format.  A reference or a raw
pointer that a conversion gives may be used for writing only if the place, the references on the way
or the pointer that it was made of could.  The compiler gets this wrong for a place that is reached
through a read-only reference or slice which lies in mutable storage, or in another view: it looks at
the storage only.

## Main definitions

* `Conversion.KeepsNumber`, `Conversion.KeepsAuthority` — what a conversion must not lose and must
  not gain.
* `Conversion.Sound` — what holds of every conversion that is applied.
* `Conversion.borrowedPlace`, `Conversion.Overreaches` — the place that is borrowed again, and when
  the test for it is too weak.

## Main results

* `Conversion.exactNumeric_of_lossless`, `Conversion.castLiteral_eq` — numbers are kept.
* `Conversion.sound_iff` — the conversion is sound if and only if it does not overreach.
-/

set_option autoImplicit false

namespace Chtholly

namespace Conversion

open NumberFormat

/-! ## What a conversion keeps -/

/-- Every value of the source type is one of the target type, and the conversion of the machine gives
it: integers are extended by the sign of the source, and rounded for a floating point target. -/
def ExactNumeric (source target : SemType) : Prop :=
  match source, target with
  | .integer width signed, .integer width' signed' => ∀ bits : BitVec width,
      integerValue signed' (extend signed bits width') = integerValue signed bits
  | .integer width signed, .float width' => ∀ bits : BitVec width,
      HasPrecision (floatPrecision width') (integerValue signed bits) ∧
        roundInteger (floatPrecision width') (integerValue signed bits) = integerValue signed bits
  | .float width, .float width' =>
    ∀ number, HasPrecision (floatPrecision width) number → HasPrecision (floatPrecision width') number
  | _, _ => False

/-- The number of the source is the one of the result, in the format of its type. -/
def KeepsNumber (kind : SemanticConversionKind) (value result : Value) : Prop :=
  match kind with
  | .numeric => result = .numericConvert result.type value ∧ ExactNumeric value.type result.type
  | .contextualInteger => ∃ literal ∈ value.integerRecord, ∃ width signed bits,
      result = .integerLiteral (.integer width signed) bits (some literal) ∧
        integerValue signed (bits.setWidth width) = literal.number
  | .contextualIntegerToFloat => ∃ literal ∈ value.integerRecord, ∃ width,
      result = .floatLiteral (.float width) literal.number none ∧
        HasPrecision (floatPrecision width) literal.number
  | _ => True

/-- The source could write: as the reference or pointer that the result is at another type, through
the place that is borrowed, or as the pointer that is read behind the references. -/
def Authorized (value result : Value) : Prop :=
  (∃ type, result = value.setInstType type) ∧ value.type.permitsMutation = true ∨
    (∃ place, result = .borrowPlace result.type place ∧ place.Permits) ∨
      ∃ depth, dereferences depth value = some result ∧ result.type.isRawPointer = true

/-- A null pointer points at nothing, and may have any pointer type. -/
def KeepsAuthority (value result : Value) : Prop :=
  result.type.permitsMutation = true → result.isNullPointer = true ∨ Authorized value result

/-- What holds of every conversion that is planned and applied. -/
def Sound (context : Context) (value : Value) (target : SemType) : Prop :=
  (query value target).valid = true → ∀ result,
    applyConversion context value target (query value target) = some result →
      KeepsNumber (query value target).kind value result ∧ KeepsAuthority value result

/-! ## Numbers -/

lemma floatPrecision_pos (width : ℕ) : 0 < floatPrecision width := by
  unfold floatPrecision
  split <;> omega

variable {target : SemType}

lemma exactNumeric_of_lossless {source : SemType} (hsource : source.Valid)
    (htarget : target.Valid) (h : losslessNumericConversion source target = true) :
    ExactNumeric source target := by
  cases source with
  | integer width signed =>
    cases target with
    | integer width' signed' =>
      intro bits
      simp only [losslessNumericConversion] at h
      split at h
      · rename_i hsigned
        subst hsigned
        exact integerValue_extend signed bits (by simpa using h)
      · rename_i hsigned
        simp only [Bool.and_eq_true, Bool.not_eq_true', decide_eq_true_eq] at h
        obtain ⟨⟨rfl, rfl⟩, hwidth⟩ := h
        exact integerValue_extend_unsigned bits hwidth
    | float width' =>
      intro bits
      have hle : (integerValue signed bits).natAbs ≤ 2 ^ floatPrecision width' := by
        refine natAbs_integerValue_le signed bits _ ?_
        cases signed
        · simpa [losslessNumericConversion] using h
        · simpa [losslessNumericConversion] using h
      have hprecision := hasPrecision_of_natAbs_le (floatPrecision_pos width') hle
      exact ⟨hprecision, roundInteger_eq_self hprecision⟩
    | _ => cases h
  | float width =>
    cases target with
    | float width' =>
      intro number hnumber
      have hwidth : width < width' := by simpa [losslessNumericConversion] using h
      refine hnumber.mono ?_
      have hwidths : width = 32 ∧ width' = 64 := by
        obtain rfl | rfl := hsource <;> obtain rfl | rfl := htarget <;> omega
      obtain ⟨rfl, rfl⟩ := hwidths
      decide
    | _ => cases h
  | _ => cases h

/-- The bits of a literal at the width of a type in which it fits. -/
lemma integerValue_of_fits {magnitude width : ℕ} {signed negative : Bool}
    (hvalid : (SemType.integer width signed).Valid) (hmagnitude : magnitude < 2 ^ 64)
    (h : integerMagnitudeFits magnitude (.integer width signed) negative = true) :
    integerValue signed ((BitVec.ofInt 64
        (SemanticIntegerLiteral.mk magnitude negative).number).setWidth width) =
      (SemanticIntegerLiteral.mk magnitude negative).number := by
  obtain ⟨hpos, hle⟩ := hvalid
  have hbits : ∀ x : ℤ, (BitVec.ofInt 64 x).setWidth width = BitVec.ofInt width x := by
    intro x
    have hdvd : (2 : ℤ) ^ width ∣ 18446744073709551616 := by
      simpa using pow_dvd_pow (2 : ℤ) hle
    refine BitVec.eq_of_toNat_eq (Int.ofNat_inj.1 ?_)
    rw [BitVec.toNat_setWidth, BitVec.toNat_ofInt, BitVec.toNat_ofInt]
    push_cast
    rw [Int.toNat_of_nonneg (Int.emod_nonneg _ (by positivity)),
      Int.toNat_of_nonneg (Int.emod_nonneg _ (by positivity)), Int.emod_emod_of_dvd x hdvd]
  rw [hbits]
  cases signed
  · -- Unsigned types have no negative literals.
    simp only [integerMagnitudeFits, Bool.and_eq_true, Bool.not_eq_true', Bool.or_eq_true,
      decide_eq_true_eq] at h
    obtain ⟨rfl, h⟩ := h
    have hlt : magnitude < 2 ^ width := by
      obtain rfl | h := h
      · exact hmagnitude
      · exact h
    refine integerValue_ofInt_unsigned (Int.natCast_nonneg _) ?_
    simp only [SemanticIntegerLiteral.number, Bool.false_eq_true, if_false]
    exact_mod_cast hlt
  · have hone : 1 ≤ 2 ^ (width - 1) := Nat.one_le_two_pow
    cases negative
    · have hfits : magnitude ≤ 2 ^ (width - 1) - 1 := by simpa [integerMagnitudeFits] using h
      refine integerValue_ofInt_signed hpos ?_ ?_
      all_goals
        simp only [SemanticIntegerLiteral.number, Bool.false_eq_true, if_false]
        zify [hone] at hfits
        omega
    · have hfits : magnitude ≤ 2 ^ (width - 1) := by simpa [integerMagnitudeFits] using h
      refine integerValue_ofInt_signed hpos ?_ ?_
      all_goals
        simp only [SemanticIntegerLiteral.number, if_true]
        zify at hfits hone
        omega

lemma hasPrecision_of_exact {magnitude width : ℕ}
    (h : integerMagnitudeExactlyRepresentableAsFloat magnitude width = true) :
    HasPrecision (floatPrecision width) magnitude := by
  refine hasPrecision_of_dvd ?_
  unfold integerMagnitudeExactlyRepresentableAsFloat at h
  split at h
  · rename_i hzero
    rw [hzero]
    exact dvd_zero _
  · dsimp only at h
    split at h
    · rename_i hshort
      rw [Nat.sub_eq_zero_of_le hshort, pow_zero]
      exact one_dvd _
    · exact (Nat.pow_dvd_pow 2 (by simpa using h)).trans (pow_countrZero_dvd magnitude)

/-- Casting a literal that is exactly representable does not round. -/
lemma castLiteral_eq {literal : SemanticIntegerLiteral} {width : ℕ}
    (h : integerMagnitudeExactlyRepresentableAsFloat literal.magnitude width = true) :
    castLiteral literal width = literal.number ∧
      HasPrecision (floatPrecision width) literal.number := by
  have hprecision := hasPrecision_of_exact h
  have hnumber : HasPrecision (floatPrecision width) literal.number := by
    unfold SemanticIntegerLiteral.number
    split
    · push_cast
      exact hprecision.neg
    · exact_mod_cast hprecision
  have hdouble : roundMagnitude 53 literal.magnitude = literal.magnitude := by
    refine roundMagnitude_eq_self ?_
    have hwide : HasPrecision 53 ((literal.magnitude : ℤ) : ℚ) := by
      refine HasPrecision.mono (by exact_mod_cast hprecision) ?_
      unfold floatPrecision
      split <;> omega
    simpa using dvd_of_hasPrecision hwide
  refine ⟨?_, hnumber⟩
  have hcast : castLiteral literal width =
      if width = 32 then roundInteger 24 literal.number else literal.number := by
    unfold castLiteral SemanticIntegerLiteral.number
    rw [hdouble]
  rw [hcast]
  split
  · rename_i hwidth
    rw [hwidth] at hnumber
    exact roundInteger_eq_self hnumber
  · rfl

/-! ## Places behind references -/

variable {depth : ℕ} {value : Value}

lemma dereferences_of_strip {limit : ℕ} {type stripped : SemType} (htype : value.type = type)
    (h : SemType.stripReferences limit type = (stripped, depth)) :
    ∃ place, dereferences depth value = some place ∧ place.type = stripped ∧
      (value.Typed → place.Typed) := by
  induction limit generalizing value type depth with
  | zero =>
    have hpair : (type, 0) = (stripped, depth) := by
      rw [← h]
      cases type <;> rfl
    cases hpair
    exact ⟨value, rfl, htype, id⟩
  | succ limit ih =>
    cases type with
    | reference pointee mutability provenance =>
      simp only [SemType.stripReferences, Prod.mk.injEq] at h
      obtain ⟨hstripped, rfl⟩ := h
      have htypeBehind : (Value.dereference pointee value).type = pointee := rfl
      obtain ⟨place, hplace, hplaceType, htyped⟩ := ih htypeBehind (Prod.ext hstripped rfl)
      refine ⟨place, ?_, hplaceType, fun hvalue => htyped ⟨Or.inl ⟨_, _, htype⟩, hvalue⟩⟩
      rw [dereferences, htype]
      exact hplace
    | _ =>
      cases h
      exact ⟨value, rfl, htype, id⟩

lemma depth_pos_of_strip {limit : ℕ} {type stripped : SemType} (htype : type.isReference = true)
    (h : SemType.stripReferences (limit + 1) type = (stripped, depth)) : 0 < depth := by
  cases type with
  | reference pointee mutability provenance =>
    simp only [SemType.stripReferences, Prod.mk.injEq] at h
    omega
  | _ => cases htype

variable {place : Value}

lemma sizeOf_le_of_dereferences (h : dereferences depth value = some place) :
    sizeOf value ≤ sizeOf place := by
  induction depth generalizing value with
  | zero =>
    cases h
    exact le_refl _
  | succ depth ih =>
    rw [dereferences] at h
    split at h
    · have hle := ih h
      simp only [Value.dereference.sizeOf_spec] at hle
      omega
    · cases h

/-- What is behind a reference is read by a dereference. -/
lemma eq_dereference_of_dereferences (hpos : 0 < depth)
    (h : dereferences depth value = some place) :
    ∃ type operand, place = .dereference type operand := by
  induction depth generalizing value with
  | zero => omega
  | succ depth ih =>
    rw [dereferences] at h
    split at h
    · rcases Nat.eq_zero_or_pos depth with rfl | hdepth
      · cases h
        exact ⟨_, _, rfl⟩
      · exact ih hdepth h
    · cases h

/-! ## Conversions that borrow again -/

/-- The place that the conversion to a reference type borrows: the value itself, or what is behind
all its references.  A borrow expression is kept as it is. -/
def borrowedPlace (value : Value) (target : SemType) : Option Value :=
  match target with
  | .reference pointee _ _ =>
    if value.type = target || value.type = .never then none
    else if value.type.isReference then
      if keepsBorrow value target then none
      else
        let (stripped, depth) := SemType.stripReferences 255 value.type
        if stripped = pointee && !pointee.isReference then dereferences depth value else none
    else if value.type = target.referent then some value
    else none
  | _ => none

/-- A place is borrowed for writing although it is reached through a read-only view: the compiler
takes it for mutable because of the storage, or the raw pointer, that lies before the view. -/
def Overreaches (value : Value) (target : SemType) : Prop :=
  target.permitsMutation = true ∧ ∃ place, borrowedPlace value target = some place ∧
    place.isMutablePlace = true ∧ ∃ view ∈ place.passedViews, view = .readOnly

variable {result : Value}

lemma borrowAs_eq_some (h : borrowAs target place = some result) :
    result = .borrowPlace target place ∧
      (target.permitsMutation = true → place.isMutablePlace = true) := by
  unfold borrowAs at h
  split at h
  · cases h
  · rename_i hmutable
    cases h
    refine ⟨rfl, fun htarget => ?_⟩
    simpa [htarget] using hmutable

/-- What a fresh borrow may be used for is what its place permits. -/
lemma authorized_borrow_iff (hplace : dereferences depth value = some place) :
    Authorized value (.borrowPlace target place) ↔ place.Permits := by
  constructor
  · rintro (⟨⟨type, hretyped⟩, -⟩ | ⟨other, hborrow, hpermits⟩ | ⟨depth', hread, hpointer⟩)
    · -- The borrow reads the value, and so it is not the value itself.
      have hvalue : ∃ type', value = .borrowPlace type' place := by
        cases value with
        | borrowPlace type' other =>
          simp only [Value.setInstType, Value.borrowPlace.injEq] at hretyped
          exact ⟨type', by rw [hretyped.2]⟩
        | _ => simp [Value.setInstType] at hretyped
      obtain ⟨type', rfl⟩ := hvalue
      have hle := sizeOf_le_of_dereferences hplace
      simp only [Value.borrowPlace.sizeOf_spec] at hle
      omega
    · cases hborrow
      exact hpermits
    · rcases Nat.eq_zero_or_pos depth' with rfl | hpos
      · cases hread
        have hle := sizeOf_le_of_dereferences hplace
        simp only [Value.borrowPlace.sizeOf_spec] at hle
        omega
      · obtain ⟨_, _, hread'⟩ := eq_dereference_of_dereferences hpos hread
        cases hread'
  · exact fun hpermits => Or.inr (Or.inl ⟨place, rfl, hpermits⟩)

/-- Borrowing a place keeps the authority, unless a view on the way is read-only. -/
lemma keepsAuthority_borrow_iff (hplace : dereferences depth value = some place)
    (htyped : place.Typed) (htype : place.type.isReference = false)
    (hmutable : target.permitsMutation = true → place.isMutablePlace = true) :
    KeepsAuthority value (.borrowPlace target place) ↔
      ¬(target.permitsMutation = true ∧ ∃ view ∈ place.passedViews, view = .readOnly) := by
  have hviews : (¬∃ view ∈ place.passedViews, view = SemReferenceMutability.readOnly) ↔
      ∀ view ∈ place.passedViews, view = .mutable := by
    constructor
    · intro h view hview
      cases view with
      | readOnly => exact absurd ⟨_, hview, rfl⟩ h
      | mutable => rfl
    · rintro h ⟨view, hview, rfl⟩
      cases h _ hview
  rw [not_and, hviews, KeepsAuthority]
  refine imp_congr_right fun htarget => ?_
  rw [authorized_borrow_iff hplace, Value.permits_iff htyped htype (hmutable htarget)]
  simp [Value.isNullPointer]

lemma keepsAuthority_retyped
    (h : target.permitsMutation = true → value.type.permitsMutation = true) :
    KeepsAuthority value (value.setInstType target) := by
  intro hresult
  rw [Value.type_setInstType] at hresult
  exact Or.inr (Or.inl ⟨⟨target, rfl⟩, h hresult⟩)

lemma permitsMutation_of_keepsBorrow (h : keepsBorrow value target = true)
    (htarget : target.permitsMutation = true) : value.type.permitsMutation = true := by
  unfold keepsBorrow at h
  split at h
  · rename_i pointee mutability provenance pointee' mutability' provenance' hvalue
    simp only [SemType.permitsMutation, decide_eq_true_eq] at htarget
    subst htarget
    rw [hvalue]
    simpa [SemType.permitsMutation] using (by simpa using h : _ ∧ _ ∧ _).2.2
  · simp at h

lemma isPlace_of_isMutablePlace (h : place.isMutablePlace = true) : place.isPlace = true := by
  cases place <;> first | rfl | cases h

/-- What is known of the place that is borrowed. -/
lemma borrowedPlace_spec (h : borrowedPlace value target = some place) :
    (∃ depth, dereferences depth value = some place) ∧ place.type.isReference = false ∧
      (value.Typed → place.Typed) := by
  cases target with
  | reference pointee mutability provenance =>
    unfold borrowedPlace at h
    dsimp only at h
    split at h
    · cases h
    · split at h
      · split at h
        · cases h
        · split at h
          · rename_i hpointee
            simp only [Bool.and_eq_true, Bool.not_eq_true', decide_eq_true_eq] at hpointee
            obtain ⟨behind, hbehind, htype, htyped⟩ := dereferences_of_strip rfl
              (Prod.ext hpointee.1 (Eq.refl (SemType.stripReferences 255 value.type).2))
            rw [hbehind, Option.some.injEq] at h
            subst h
            exact ⟨⟨_, hbehind⟩, by rw [htype]; exact hpointee.2, htyped⟩
          · cases h
      · rename_i hreference
        split at h
        · cases h
          exact ⟨⟨0, rfl⟩, Bool.eq_false_iff.2 hreference, id⟩
        · cases h
  | _ => cases h

/-- If the place passes the test of the compiler, a borrow of it is what the conversion gives. -/
lemma applyConversion_of_borrowedPlace (context : Context)
    (h : borrowedPlace value target = some place) (hmutable : place.isMutablePlace = true) :
    (query value target).valid = true ∧ applyConversion context value target (query value target) =
      some (.borrowPlace target place) := by
  have hborrow : borrowAs target place = some (.borrowPlace target place) := by
    simp [borrowAs, hmutable]
  cases target with
  | reference pointee mutability provenance =>
    rw [query_reference]
    unfold borrowedPlace at h
    dsimp only at h
    split at h
    · cases h
    · rename_i hother
      simp only [Bool.or_eq_true, decide_eq_true_eq, not_or] at hother
      rw [if_neg hother.1, if_neg hother.2]
      split at h
      · rename_i hreference
        split at h
        · cases h
        · rename_i hkept
          split at h
          · -- The conversion follows the references of the value.
            rename_i hpointee
            simp only [Bool.and_eq_true, Bool.not_eq_true', decide_eq_true_eq] at hpointee
            obtain ⟨hstrip, hnotReference⟩ := hpointee
            have hreferent : (SemType.reference pointee mutability provenance).referent = pointee :=
              SemType.referent_of_not_reference hnotReference
            have hdepth : 0 < (SemType.stripReferences 255 value.type).2 :=
              depth_pos_of_strip hreference (Eq.refl (SemType.stripReferences 255 value.type))
            have hplan : referencePlan value (.reference pointee mutability provenance) =
                some ⟨.referenceAuthority, 2, (SemType.stripReferences 255 value.type).2⟩ := by
              have hnonzero : (SemType.stripReferences 255 value.type).2 ≠ 0 := by omega
              have htarget : (SemType.reference pointee mutability provenance).isReference = true :=
                rfl
              simp only [referencePlan, hreference, htarget, if_true, hreferent, hstrip,
                decide_true, Bool.true_and, decide_not, hnonzero, decide_false, Bool.not_false]
              split <;> rfl
            obtain ⟨behind, hbehind, htype, -⟩ := dereferences_of_strip rfl
              (Prod.ext hstrip (Eq.refl (SemType.stripReferences 255 value.type).2))
            have hsame : behind = place := Option.some.inj (hbehind.symm.trans h)
            rw [hplan]
            refine ⟨rfl, ?_⟩
            simp only [Option.orElse_eq_orElse, Option.orElse_eq_or, Option.some_or, Option.getD_some,
              applyConversion]
            rw [if_neg hkept, h]
            simp only [ne_eq, ← hsame, htype, not_true, if_false]
            rw [hsame]
            exact hborrow
          · cases h
      · rename_i hreference
        split at h
        · rename_i hvalue
          cases h
          have hplan : referencePlan value (.reference pointee mutability provenance) = none := by
            simp [referencePlan, hreference]
          have hbinding : bindingPlan value (.reference pointee mutability provenance) =
              some { kind := .valueToReference, rank := 2 } := by
            simp only [bindingPlan, SemType.isReference, hvalue, Bool.true_and, decide_true, if_true]
          rw [hplan, hbinding]
          refine ⟨rfl, ?_⟩
          simp only [Option.orElse_eq_orElse, Option.orElse_eq_or, Option.none_or, Option.getD_some,
            applyConversion]
          simp only [SemType.isReference, Bool.not_true, Bool.false_eq_true, if_false,
            isPlace_of_isMutablePlace hmutable, if_true]
          exact hborrow
        · cases h
  | _ => cases h

/-! ## Soundness -/

/-- Numbers are kept by every conversion. -/
lemma keepsNumber_of_planned (context : Context) {plan : SemanticConversionPlan}
    (htyped : value.Typed) (hsource : value.type.Valid) (htarget : target.Valid)
    (hplan : Planned value target plan)
    (h : applyConversion context value target plan = some result) :
    KeepsNumber plan.kind value result := by
  cases hplan with
  | contextualInteger literal hvalue hfits =>
    cases h
    cases value with
    | integerLiteral type bits record =>
      have hrecord : record = some literal := hvalue
      subst hrecord
      cases target with
      | integer width signed =>
        obtain ⟨hmagnitude, hbits⟩ := htyped literal rfl
        refine ⟨literal, rfl, width, signed, bits, rfl, ?_⟩
        rw [hbits]
        exact integerValue_of_fits htarget hmagnitude hfits
      | _ => cases hfits
    | _ => cases hvalue
  | contextualIntegerToFloat literal width hvalue hfloat hexact =>
    subst hfloat
    simp only [applyConversion, hvalue, Option.some.injEq] at h
    subst h
    obtain ⟨hcast, hprecision⟩ := castLiteral_eq hexact
    refine ⟨literal, hvalue, width, ?_, hprecision⟩
    rw [hcast]
  | numeric hlossless =>
    cases h
    exact ⟨rfl, exactNumeric_of_lossless hsource htarget hlossless⟩
  | _ => trivial

/-- Authority is kept by every conversion that does not overreach. -/
lemma keepsAuthority_of_planned (context : Context) {plan : SemanticConversionPlan}
    (htyped : value.Typed) (hplan : Planned value target plan)
    (h : applyConversion context value target plan = some result)
    (hover : ¬Overreaches value target) : KeepsAuthority value result := by
  have hborrowed : ∀ place, borrowedPlace value target = some place →
      borrowAs target place = some result → KeepsAuthority value result := by
    intro place hplace hborrow
    obtain ⟨rfl, hmutable⟩ := borrowAs_eq_some hborrow
    obtain ⟨⟨depth, hdepth⟩, htype, hplaceTyped⟩ := borrowedPlace_spec hplace
    rw [keepsAuthority_borrow_iff hdepth (hplaceTyped htyped) htype hmutable]
    rintro ⟨htarget, hview⟩
    exact hover ⟨htarget, place, hplace, hmutable htarget, hview⟩
  cases hplan with
  | identity hsame =>
    cases h
    have hkeeps : KeepsAuthority value (value.setInstType value.type) := keepsAuthority_retyped id
    rwa [Value.setInstType_type] at hkeeps
  | never hnever =>
    cases h
    intro hresult
    rw [hnever] at hresult
    cases hresult
  | contextualNull hvalue htarget =>
    cases h
    intro _
    cases value with
    | nullPointer type => exact Or.inl rfl
    | _ => cases hvalue
  | contextualInteger literal hvalue hfits =>
    cases h
    refine keepsAuthority_retyped fun htarget => ?_
    cases target with
    | integer => cases htarget
    | _ => cases hfits
  | contextualIntegerToFloat literal width hvalue hfloat hexact =>
    subst hfloat
    simp only [applyConversion, hvalue, Option.some.injEq] at h
    subst h
    exact fun hresult => nomatch hresult
  | contextualFloat number width hvalue hfloat =>
    subst hfloat
    simp only [applyConversion, hvalue, Option.some.injEq] at h
    subst h
    exact fun hresult => nomatch hresult
  | numeric hlossless =>
    cases h
    intro hresult
    have htarget : target.permitsMutation = false := by
      unfold losslessNumericConversion at hlossless
      split at hlossless
      · rfl
      · rfl
      · rfl
      · cases hlossless
    rw [show (Value.numericConvert target value).type = target from rfl, htarget] at hresult
    cases hresult
  | pointerAuthority sourcePointee targetPointee sourceConst targetConst hvalue htarget hauthority =>
    cases h
    refine keepsAuthority_retyped fun hmutable => ?_
    rw [hvalue]
    rw [htarget] at hmutable
    simp only [SemType.permitsMutation, Bool.not_eq_true'] at hmutable ⊢
    exact hauthority.resolve_right (by simp [hmutable])
  | referenceToValue depth hvalue htarget hstrip =>
    obtain ⟨place, hplace, htype, -⟩ := dereferences_of_strip rfl hstrip
    simp only [applyConversion, hplace, htype, if_true, Option.some.injEq] at h
    subst h
    intro hresult
    refine Or.inr (Or.inr (Or.inr ⟨depth, hplace, ?_⟩))
    rw [htype] at hresult ⊢
    cases target with
    | rawPointer => rfl
    | reference => cases htarget
    | _ => cases hresult
  | referenceAuthority depth hne hvalue htarget hstrip =>
    simp only [applyConversion] at h
    split at h
    · rename_i hkept
      cases h
      exact keepsAuthority_retyped (permitsMutation_of_keepsBorrow hkept)
    · rename_i hkept
      obtain ⟨place, hplace, htype, -⟩ := dereferences_of_strip rfl hstrip
      cases target with
      | reference pointee mutability provenance =>
        simp only [hplace, ne_eq, ite_not] at h
        split at h
        · rename_i hpointee
          refine hborrowed place ?_ h
          have hnotReference : pointee.isReference = false := by
            rw [hpointee, htype]
            exact SemType.referent_not_reference _
          have hnever : value.type ≠ .never := fun hnever => by
            rw [hnever] at hvalue
            cases hvalue
          rw [SemType.referent, SemType.referent_of_not_reference hnotReference] at hstrip
          simp only [borrowedPlace, hne, hnever, hvalue, hkept, hstrip, hnotReference, decide_false,
            Bool.or_false, Bool.false_eq_true, if_false, if_true, decide_true, Bool.not_false,
            Bool.and_true]
          exact hplace
        · cases h
      | _ => cases htarget
  | valueToReference htarget hnever hsame =>
    cases target with
    | reference pointee mutability provenance =>
      have hnotReference : value.type.isReference = false := by
        rw [hsame]
        exact SemType.referent_not_reference _
      have hne : value.type ≠ .reference pointee mutability provenance := fun heq => by
        rw [heq] at hnotReference
        cases hnotReference
      simp only [applyConversion, SemType.isReference, Bool.not_true, Bool.false_eq_true,
        if_false] at h
      split at h
      · refine hborrowed value ?_ h
        simp [borrowedPlace, hne, hnever, hnotReference, ← hsame]
      · split at h
        · cases h
        · rename_i htemporary
          -- A temporary is borrowed only for reading.
          obtain ⟨rfl, -⟩ := borrowAs_eq_some h
          intro hresult
          rw [show (Value.borrowPlace (.reference pointee mutability provenance)
            (.materializeTemporary value.type value)).type =
              .reference pointee mutability provenance from rfl] at hresult
          simp [hresult] at htemporary
    | _ => cases htarget

/-- **Conversions.** An implicit conversion keeps the number and gains no authority if and only if it
does not borrow a place for writing that is reached through a read-only view and that the compiler
takes for mutable. -/
theorem sound_iff (context : Context) {value : Value} {target : SemType} (htyped : value.Typed)
    (hsource : value.type.Valid) (htarget : target.Valid) :
    Sound context value target ↔ ¬Overreaches value target := by
  constructor
  · rintro hsound ⟨hmutable, place, hplace, hplaceMutable, hview⟩
    obtain ⟨hvalid, happly⟩ := applyConversion_of_borrowedPlace context hplace hplaceMutable
    obtain ⟨⟨depth, hdepth⟩, htype, hplaceTyped⟩ := borrowedPlace_spec hplace
    have hkeeps := (hsound hvalid _ happly).2
    rw [keepsAuthority_borrow_iff hdepth (hplaceTyped htyped) htype fun _ => hplaceMutable] at hkeeps
    exact hkeeps ⟨hmutable, hview⟩
  · intro hover hvalid result hresult
    have hplan := planned_query hvalid
    exact ⟨keepsNumber_of_planned context htyped hsource htarget hplan hresult,
      keepsAuthority_of_planned context htyped hplan hresult hover⟩

/-- A local variable is read as a value of its type. -/
def variableOf (type : SemType) (isMutable : Bool) : Value :=
  .nameRef type { type := type, isMutable := isMutable }

/-- A full expression in which every number is a `float`. -/
def fullExpression : Context where
  fullExpression := true
  toFloat := id

/-- A 16-bit integer is converted to the smaller floating point type. -/
theorem sound_shortToFloat :
    (query (variableOf (.integer 16 true) false) (.float 32)).kind = .numeric ∧
      Sound fullExpression (variableOf (.integer 16 true) false) (.float 32) := by
  have htyped : (variableOf (.integer 16 true) false).Typed := rfl
  have hsource : (variableOf (.integer 16 true) false).type.Valid :=
    show 0 < 16 ∧ 16 ≤ 64 by decide
  have htarget : (SemType.float 32).Valid := Or.inl rfl
  refine ⟨by decide, (sound_iff fullExpression htyped hsource htarget).2 ?_⟩
  rintro ⟨hmutable, -⟩
  cases hmutable

/-- `var r: const T&` lies in mutable storage, and is accepted as a `T&`. -/
theorem storedReadOnly_not_sound :
    ¬∀ (context : Context) (value : Value) (target : SemType), value.Typed → value.type.Valid →
      target.Valid → Sound context value target := by
  intro h
  have hsound := h fullExpression (variableOf (.reference (.integer 32 true) .readOnly 0) true)
    (.reference (.integer 32 true) .mutable 0) rfl trivial trivial
  have hkeeps := (hsound (by decide) _ rfl).2 (by decide)
  obtain hnull | ⟨-, hauthority⟩ | ⟨place, hplace, hpermits⟩ | ⟨depth, hread, hpointer⟩ := hkeeps
  · cases hnull
  · cases hauthority
  · cases hplace
    cases hpermits.1
  · cases hpointer

end Conversion

end Chtholly
