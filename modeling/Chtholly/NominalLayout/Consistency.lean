import Mathlib.Order.CompletePartialOrder
import Chtholly.NominalLayout.Verification
import Mathlib.Order.Interval.Set.Disjoint

/-!
# Accepted layouts are physical

A layout is physical when every field lies inside the object, is aligned, and fields do not share
storage bits.  What is verified of structs and unions gives that.  Of an enum it is not verified that
the fields of a payload are apart, that their alignments are alignments of the object, and that the sum
of the payload offset and the largest payload does not wrap around.

## Main definitions

* `NominalLayout.NominalFieldLayoutArtifact.bits` — the storage bits of a field.
* `NominalLayout.Physical` — what an accepted layout should be.

## Main results

* `NominalLayout.checkedAlign_eq_some` — rounding up.
* `NominalLayout.physical_of_verifyAggregate` — structs and unions that are accepted are physical.
* `NominalLayout.verify_physical_iff` — the accepted layouts that are physical.
-/

set_option autoImplicit false

namespace Chtholly

namespace NominalLayout

open Registry (Text)

/-! ## Alignments -/

variable {alignment : UInt64}

lemma powerOfTwo_iff : powerOfTwo alignment = true ↔ alignment.toNat.isPowerOfTwo := by
  rw [← Nat.ne_zero_and_sub_one_eq_zero_iff_isPowerOfTwo]
  simp only [powerOfTwo, Bool.and_eq_true, bne_iff_ne, beq_iff_eq, ← UInt64.toNat_inj,
    UInt64.toNat_and, UInt64.toNat_zero]
  have hzero : alignment ≠ 0 ↔ alignment.toNat ≠ 0 := by
    rw [Ne, ← UInt64.toNat_inj]
    rfl
  rw [hzero]
  refine and_congr_right fun hne => ?_
  have hone : (1 : UInt64) ≤ alignment := by
    rw [UInt64.le_iff_toNat_le]
    exact Nat.one_le_iff_ne_zero.2 hne
  rw [UInt64.toNat_sub_of_le _ _ hone]
  rfl

/-- Without its lowest bits a word is rounded down. -/
lemma toNat_and_not_mask {value mask : UInt64} {k : ℕ} (hmask : mask.toNat = 2 ^ k - 1) :
    (value &&& ~~~mask).toNat = value.toNat / 2 ^ k * 2 ^ k := by
  apply Nat.eq_of_testBit_eq
  intro i
  have hnot : (~~~mask).toNat = 2 ^ 64 - (mask.toNat + 1) := by
    rw [UInt64.toNat_not, Nat.sub_add_eq, Nat.sub_right_comm]
    rfl
  have hbits : (2 ^ k - 1).testBit i = decide (i < k) := Nat.testBit_two_pow_sub_one k i
  rw [UInt64.toNat_and, Nat.testBit_and, hnot, Nat.testBit_two_pow_sub_succ mask.toNat_lt, hmask,
    hbits, Nat.testBit_mul_two_pow, Nat.testBit_div_two_pow]
  by_cases hk : i < k
  · simp [hk]
  · have hik : i - k + k = i := by omega
    by_cases hi : i < 64
    · simp [hk, hi, hik, Nat.not_lt.1 hk]
    · have hvalue : value.toNat.testBit i = false :=
        Nat.testBit_lt_two_pow (value.toNat_lt.trans_le (Nat.pow_le_pow_right (by omega) (by omega)))
      simp [hik, hvalue]

/-- Rounding up gives the next multiple of the alignment, if it is a word. -/
theorem checkedAlign_eq_some {value result : UInt64}
    (h : checkedAlign value alignment = some result) :
    alignment.toNat.isPowerOfTwo ∧ alignment.toNat ∣ result.toNat ∧ value.toNat ≤ result.toNat ∧
      result.toNat < value.toNat + alignment.toNat := by
  unfold checkedAlign at h
  split at h
  case isTrue => cases h
  case isFalse hpower =>
    have hpower := powerOfTwo_iff.1 ((Bool.not_eq_false _).mp hpower)
    split at h
    case isTrue => cases h
    case isFalse hle =>
      cases h
      obtain ⟨k, hk⟩ := hpower
      have hpos : 0 < alignment.toNat := hk ▸ Nat.two_pow_pos k
      have hmask : (alignment - 1).toNat = alignment.toNat - 1 := by
        rw [UInt64.toNat_sub_of_le]
        · rfl
        · rw [UInt64.le_iff_toNat_le]
          exact hpos
      have hsum : (value + (alignment - 1)).toNat = value.toNat + (alignment.toNat - 1) := by
        rw [UInt64.toNat_add, hmask, Nat.mod_eq_of_lt]
        have hle : value ≤ maxUInt64 - (alignment - 1) := UInt64.not_lt.1 hle
        rw [UInt64.le_iff_toNat_le, UInt64.toNat_sub_of_le, hmask] at hle
        · have hmax : maxUInt64.toNat = 2 ^ 64 - 1 := rfl
          have := alignment.toNat_lt
          omega
        · rw [UInt64.le_iff_toNat_le]
          have hmax : maxUInt64.toNat = 2 ^ 64 - 1 := rfl
          have := (alignment - 1).toNat_lt
          omega
      rw [toNat_and_not_mask (hmask.trans (congrArg (· - 1) hk)), hsum]
      rw [hk] at hpos ⊢
      have hlt := Nat.mod_lt (value.toNat + (2 ^ k - 1)) hpos
      have hdiv := Nat.div_add_mod' (value.toNat + (2 ^ k - 1)) (2 ^ k)
      exact ⟨⟨k, rfl⟩, Nat.dvd_mul_left _ _, by omega, by omega⟩

lemma dvd_of_le {lhs rhs : ℕ} (hlhs : lhs.isPowerOfTwo) (hrhs : rhs.isPowerOfTwo) (h : lhs ≤ rhs) :
    lhs ∣ rhs := by
  obtain ⟨k, rfl⟩ := hlhs
  obtain ⟨l, rfl⟩ := hrhs
  exact Nat.pow_dvd_pow 2 ((Nat.pow_le_pow_iff_right (by omega)).1 h)

/-- Rounding four up to an alignment that is no smaller gives the alignment. -/
lemma checkedAlign_four {result : UInt64} (h : checkedAlign 4 alignment = some result)
    (hle : 4 ≤ alignment.toNat) : result = alignment := by
  obtain ⟨-, ⟨factor, hfactor⟩, hfour, hlt⟩ := checkedAlign_eq_some h
  have hvalue : (4 : UInt64).toNat = 4 := rfl
  rw [hvalue] at hfour hlt
  obtain rfl : factor = 1 := by
    have hpos : 0 < factor := by
      by_contra hzero
      rw [Nat.eq_zero_of_not_pos hzero, Nat.mul_zero] at hfactor
      omega
    by_contra hne
    have htwo := Nat.mul_le_mul_left alignment.toNat (show 2 ≤ factor by omega)
    omega
  rw [Nat.mul_one] at hfactor
  exact UInt64.toNat_inj.1 hfactor

/-! ## Physical layouts -/

section Physical

variable {PublicType : Type}

/-- The storage bits of a field of something that starts at the byte `base`. -/
def NominalFieldLayoutArtifact.bits (base : ℕ) (field : NominalFieldLayoutArtifact PublicType) :
    Set ℕ :=
  match field.kind with
  | .stableAddress =>
    Set.Ico (8 * (base + field.offset.toNat)) (8 * (base + field.offset.toNat + field.size.toNat))
  | .bitPacked =>
    Set.Ico (8 * (base + field.offset.toNat) + field.bitBegin.toNat)
      (8 * (base + field.offset.toNat) + field.bitEnd.toNat)
  | .computed => ∅
  | .count => ∅

/-- A field has a place in an object. -/
structure Placed (layout : NominalTypeLayoutArtifact PublicType) (base : ℕ)
    (field : NominalFieldLayoutArtifact PublicType) : Prop where
  inside : base + field.offset.toNat + field.size.toNat ≤ layout.size.toNat
  bits_subset : field.bits base ⊆ Set.Ico 0 (8 * layout.size.toNat)
  aligned : field.alignment.toNat ∣ base + field.offset.toNat
  alignment_dvd : field.alignment.toNat ∣ layout.alignment.toNat

/-- No two fields share a storage bit. -/
def Apart (base : ℕ) (fields : List (NominalFieldLayoutArtifact PublicType)) : Prop :=
  fields.Pairwise fun left right => Disjoint (left.bits base) (right.bits base)

/-- A variant has a place in an object. -/
structure PlacedVariant (layout : NominalTypeLayoutArtifact PublicType)
    (variant : EnumVariantLayoutArtifact PublicType) : Prop where
  inside : layout.payloadOffset.toNat + variant.size.toNat ≤ layout.size.toNat
  placed : ∀ field ∈ variant.fields, Placed layout layout.payloadOffset.toNat field
  apart : Apart layout.payloadOffset.toNat variant.fields

/-- What an accepted layout should be. -/
structure Physical (layout : NominalTypeLayoutArtifact PublicType) : Prop where
  variants : layout.kind = .enum → ∀ variant ∈ layout.variants, PlacedVariant layout variant
  fields : layout.kind ≠ .enum → ∀ field ∈ layout.fields, field.kind ≠ .computed →
    Placed layout 0 field
  apart : layout.kind ≠ .enum → layout.kind ≠ .union → Apart 0 layout.fields

/-- Without wrapping sums, the test for an overlap is that of the bytes. -/
lemma byteOverlap_eq_false_iff {left right : NominalFieldLayoutArtifact PublicType} (base : ℕ)
    (hleft : left.offset.toNat + left.size.toNat < 2 ^ 64)
    (hright : right.offset.toNat + right.size.toNat < 2 ^ 64) :
    byteOverlap left right = false ↔
      Disjoint
        (Set.Ico (8 * (base + left.offset.toNat)) (8 * (base + left.offset.toNat + left.size.toNat)))
        (Set.Ico (8 * (base + right.offset.toNat))
          (8 * (base + right.offset.toNat + right.size.toNat))) := by
  have hsum : (left.offset + left.size).toNat = left.offset.toNat + left.size.toNat := by
    rw [UInt64.toNat_add, Nat.mod_eq_of_lt hleft]
  have hsum' : (right.offset + right.size).toNat = right.offset.toNat + right.size.toNat := by
    rw [UInt64.toNat_add, Nat.mod_eq_of_lt hright]
  have hzero : (0 : UInt64).toNat = 0 := rfl
  rw [Set.Ico_disjoint_Ico, ← Bool.not_eq_true]
  simp only [byteOverlap, Bool.and_eq_true, bne_iff_ne, decide_eq_true_eq, UInt64.lt_iff_toNat_lt,
    ne_eq, ← UInt64.toNat_inj, hsum, hsum', hzero]
  omega

lemma bits_of_stable {field : NominalFieldLayoutArtifact PublicType} (base : ℕ)
    (h : field.kind = .stableAddress) : field.bits base =
      Set.Ico (8 * (base + field.offset.toNat))
        (8 * (base + field.offset.toNat + field.size.toNat)) := by
  rw [NominalFieldLayoutArtifact.bits, h]

end Physical

/-! ## Enums -/

section Verify

variable {PublicType : Type} {verifyPublicType : PublicType → Bool → Bool}

/-- What is verified of a field of a payload. -/
structure PayloadField (variantSize : UInt64) (field : NominalFieldLayoutArtifact PublicType) :
    Prop where
  kind : field.kind = .stableAddress
  power : field.alignment.toNat.isPowerOfTwo
  aligned : field.alignment.toNat ∣ field.offset.toNat
  inside : field.offset.toNat + field.size.toNat ≤ variantSize.toNat

lemma sum_le_of_checks {offset size limit : UInt64} (hoffset : ¬offset > limit)
    (hsize : ¬size > limit - offset) : offset.toNat + size.toNat ≤ limit.toNat := by
  have hoffset : offset ≤ limit := UInt64.not_lt.1 hoffset
  have hsize : size ≤ limit - offset := UInt64.not_lt.1 hsize
  rw [UInt64.le_iff_toNat_le, UInt64.toNat_sub_of_le _ _ hoffset] at hsize
  rw [UInt64.le_iff_toNat_le] at hoffset
  omega

lemma dvd_of_mod_eq_zero {value alignment : UInt64} (h : value % alignment = 0) :
    alignment.toNat ∣ value.toNat := by
  rw [← UInt64.toNat_inj, UInt64.toNat_mod] at h
  exact Nat.dvd_of_mod_eq_zero h

variable {names : List Text} {field : NominalFieldLayoutArtifact PublicType}

lemma payloadField_of_valid {variantSize : UInt64}
    (h : payloadFieldInvalid verifyPublicType variantSize names field = false) :
    PayloadField variantSize field := by
  simp only [payloadFieldInvalid, Bool.or_eq_false_iff, bne_eq_false_iff_eq, Bool.not_eq_false',
    decide_eq_false_iff_not] at h
  obtain ⟨⟨⟨⟨⟨⟨⟨⟨-, hkind⟩, -⟩, hpower⟩, halign⟩, hoffset⟩, hsize⟩, -⟩, -⟩ := h
  exact ⟨hkind, powerOfTwo_iff.1 hpower, dvd_of_mod_eq_zero halign, sum_le_of_checks hoffset hsize⟩

variable {fields : List (NominalFieldLayoutArtifact PublicType)}

lemma payloadField_of_verify {variantSize : UInt64}
    (h : verifyPayloadFields verifyPublicType variantSize names fields = .ok ()) :
    ∀ field ∈ fields, PayloadField variantSize field := by
  induction fields generalizing names with
  | nil => exact nofun
  | cons field fields ih =>
    rw [verifyPayloadFields] at h
    split at h
    case isTrue => cases h
    case isFalse hvalid =>
      rw [List.forall_mem_cons]
      exact ⟨payloadField_of_valid ((Bool.not_eq_true _).mp hvalid), ih h⟩

/-- What is verified of a variant, given the largest size and alignment. -/
structure VerifiedVariant (maxSize maxAlignment : UInt64)
    (variant : EnumVariantLayoutArtifact PublicType) : Prop where
  fields : ∀ field ∈ variant.fields, PayloadField variant.size field
  size_le : variant.size.toNat ≤ maxSize.toNat
  alignment_le : variant.alignment.toNat ≤ maxAlignment.toNat

lemma toNat_max (lhs rhs : UInt64) : (max lhs rhs).toNat = max lhs.toNat rhs.toNat := by
  show (if lhs ≤ rhs then rhs else lhs).toNat = _
  split
  case isTrue h => exact (max_eq_right (UInt64.le_iff_toNat_le.1 h)).symm
  case isFalse h => exact (max_eq_left (UInt64.le_iff_toNat_le.not.1 h |> Nat.le_of_not_le)).symm

lemma max_eq_or (lhs rhs : UInt64) : max lhs rhs = lhs ∨ max lhs rhs = rhs := by
  show (if lhs ≤ rhs then rhs else lhs) = lhs ∨ (if lhs ≤ rhs then rhs else lhs) = rhs
  split
  · exact .inr rfl
  · exact .inl rfl

lemma verifyVariants_eq_ok {maxSize maxAlignment : UInt64}
    {variants : List (EnumVariantLayoutArtifact PublicType)} {result : UInt64 × UInt64}
    (h : verifyVariants verifyPublicType names maxSize maxAlignment variants = .ok result) :
    (∀ variant ∈ variants, VerifiedVariant result.1 result.2 variant) ∧
      maxSize.toNat ≤ result.1.toNat ∧ maxAlignment.toNat ≤ result.2.toNat ∧
      (result.1 = maxSize ∨ ∃ variant ∈ variants, result.1 = variant.size) := by
  induction variants generalizing names maxSize maxAlignment with
  | nil =>
    cases h
    exact ⟨nofun, le_rfl, le_rfl, .inl rfl⟩
  | cons variant variants ih =>
    rw [verifyVariants] at h
    split at h
    case isTrue => cases h
    case isFalse =>
      split at h
      case h_1 => cases h
      case h_2 hfields =>
        obtain ⟨hrest, hsize, halignment, hresult⟩ := ih h
        rw [toNat_max, max_le_iff] at hsize halignment
        refine ⟨?_, hsize.1, halignment.1, ?_⟩
        · rw [List.forall_mem_cons]
          exact ⟨⟨payloadField_of_verify hfields, hsize.2, halignment.2⟩, hrest⟩
        · obtain heq | ⟨other, hother, heq⟩ := hresult
          · obtain hmax | hmax := max_eq_or maxSize variant.size
            · exact .inl (heq.trans hmax)
            · exact .inr ⟨variant, .head _, heq.trans hmax⟩
          · exact .inr ⟨other, .tail _ hother, heq⟩

/-- What is verified of an enum. -/
structure VerifiedEnum (layout : NominalTypeLayoutArtifact PublicType) : Prop where
  power : layout.alignment.toNat.isPowerOfTwo
  payloadOffset : layout.payloadOffset = layout.alignment
  fields : ∀ variant ∈ layout.variants, ∀ field ∈ variant.fields, PayloadField variant.size field
  -- the payload fits unless the largest one wraps the size around
  inside : (∀ variant ∈ layout.variants,
      layout.payloadOffset.toNat + variant.size.toNat < 2 ^ 64) →
    ∀ variant ∈ layout.variants, layout.payloadOffset.toNat + variant.size.toNat ≤ layout.size.toNat

variable {layout : NominalTypeLayoutArtifact PublicType}

lemma verifyEnum_eq_ok (h : verifyEnum verifyPublicType layout = .ok ()) : VerifiedEnum layout := by
  unfold verifyEnum at h
  split at h
  case isTrue => cases h
  case isFalse =>
    split at h
    case h_1 => cases h
    case h_2 maxSize maxAlignment hvariants =>
      obtain ⟨hverified, -, halignment, hmax⟩ := verifyVariants_eq_ok hvariants
      simp only at h
      split at h
      case h_1 => cases h
      case h_2 expectedOffset hoffset =>
        split at h
        case h_1 => cases h
        case h_2 expectedSize hsize =>
          split at h
          case isTrue => cases h
          case isFalse hsame =>
            obtain ⟨rfl, halign, rfl⟩ : layout.payloadOffset = expectedOffset ∧
                layout.alignment = max 4 maxAlignment ∧ layout.size = expectedSize := by
              simpa only [not_or, not_not] using hsame
            rw [← halign] at hoffset hsize
            have hfour : 4 ≤ layout.alignment.toNat := by
              rw [halign, toNat_max]
              exact le_max_left _ _
            refine ⟨(checkedAlign_eq_some hoffset).1, checkedAlign_four hoffset hfour,
              fun variant hvariant => (hverified variant hvariant).fields, ?_⟩
            intro hwords variant hvariant
            have hle := (hverified variant hvariant).size_le
            have hword : layout.payloadOffset.toNat + maxSize.toNat < 2 ^ 64 := by
              obtain hzero | ⟨largest, hlargest, heq⟩ := hmax
              · have := layout.payloadOffset.toNat_lt
                have hzero : maxSize.toNat = 0 := congrArg UInt64.toNat hzero
                omega
              · have heq : maxSize = largest.size := heq
                rw [heq]
                exact hwords largest hlargest
            obtain ⟨-, -, hsum, -⟩ := checkedAlign_eq_some hsize
            rw [UInt64.toNat_add, Nat.mod_eq_of_lt hword] at hsum
            exact (Nat.add_le_add_left hle _).trans hsum

/-- The condition under which an accepted layout is physical. -/
structure PhysicalEnum (layout : NominalTypeLayoutArtifact PublicType) : Prop where
  /-- No variant is so large that the sum of the payload offset and its size wraps around. -/
  sums : ∀ variant ∈ layout.variants, layout.payloadOffset.toNat + variant.size.toNat < 2 ^ 64
  /-- No field of a payload has a larger alignment than the object. -/
  alignments : ∀ variant ∈ layout.variants, ∀ field ∈ variant.fields,
    field.alignment ≤ layout.alignment
  /-- The test that is made for the fields of structs finds no overlap in a payload. -/
  overlaps : ∀ variant ∈ layout.variants,
    variant.fields.Pairwise fun left right => byteOverlap left right = false

variable {variant : EnumVariantLayoutArtifact PublicType}

lemma VerifiedEnum.placed (h : VerifiedEnum layout) (hvariant : variant ∈ layout.variants)
    (hfield : field ∈ variant.fields)
    (hinside : layout.payloadOffset.toNat + variant.size.toNat ≤ layout.size.toNat)
    (halignment : field.alignment ≤ layout.alignment) :
    Placed layout layout.payloadOffset.toNat field := by
  obtain ⟨hkind, hpower, haligned, hfits⟩ := h.fields variant hvariant field hfield
  have hdvd := dvd_of_le hpower h.power (UInt64.le_iff_toNat_le.1 halignment)
  refine ⟨by omega, ?_, ?_, hdvd⟩
  · rw [bits_of_stable _ hkind]
    exact Set.Ico_subset_Ico (Nat.zero_le _) (by omega)
  · rw [h.payloadOffset]
    exact Nat.dvd_add hdvd haligned

/-- In a payload that is verified, the fields are apart when the test of structs says so. -/
lemma VerifiedEnum.apart_iff (h : VerifiedEnum layout) (hvariant : variant ∈ layout.variants)
    (base : ℕ) :
    (variant.fields.Pairwise fun left right => byteOverlap left right = false) ↔
      Apart base variant.fields := by
  refine List.Pairwise.iff_of_mem fun {left right} hleft hright => ?_
  obtain ⟨hkind, -, -, hfits⟩ := h.fields variant hvariant left hleft
  obtain ⟨hkind', -, -, hfits'⟩ := h.fields variant hvariant right hright
  have := variant.size.toNat_lt
  rw [bits_of_stable _ hkind, bits_of_stable _ hkind',
    byteOverlap_eq_false_iff base (by omega) (by omega)]

lemma VerifiedEnum.placedVariant_iff (h : VerifiedEnum layout) :
    (∀ variant ∈ layout.variants, PlacedVariant layout variant) ↔ PhysicalEnum layout := by
  constructor
  · intro hplaced
    refine ⟨fun variant hvariant => ?_, fun variant hvariant field hfield => ?_,
      fun variant hvariant => (h.apart_iff hvariant _).2 (hplaced variant hvariant).apart⟩
    · exact (hplaced variant hvariant).inside.trans_lt layout.size.toNat_lt
    · have hdvd := ((hplaced variant hvariant).placed field hfield).alignment_dvd
      exact UInt64.le_iff_toNat_le.2 (Nat.le_of_dvd (Nat.pos_of_isPowerOfTwo h.power) hdvd)
  · intro hphysical variant hvariant
    have hinside := h.inside hphysical.sums variant hvariant
    exact ⟨hinside, fun field hfield =>
      h.placed hvariant hfield hinside (hphysical.alignments variant hvariant field hfield),
      (h.apart_iff hvariant _).1 (hphysical.overlaps variant hvariant)⟩

/-! ## Structs and unions -/

/-- What is verified of a field that has a place in the object. -/
structure PhysicalField (layout : NominalTypeLayoutArtifact PublicType)
    (field : NominalFieldLayoutArtifact PublicType) : Prop where
  kind : field.kind = .stableAddress ∨ (field.kind = .bitPacked ∧
    field.bitEnd.toNat ≤ 8 * field.size.toNat)
  power : field.alignment.toNat.isPowerOfTwo
  aligned : field.alignment.toNat ∣ field.offset.toNat
  inside : field.offset.toNat + field.size.toNat ≤ layout.size.toNat

lemma verifyField_eq_ok {physical : Bool}
    (h : verifyField verifyPublicType layout names field = .ok physical) :
    (field.kind = .computed ∧ physical = false) ∨
      (physical = true ∧ PhysicalField layout field) := by
  unfold verifyField at h
  split at h
  case isTrue => cases h
  case isFalse hvalid =>
    have hcount : field.kind ≠ .count := by
      intro hkind
      apply hvalid
      simp [hkind]
    split at h
    case isTrue hkind =>
      split at h
      case isTrue => cases h
      case isFalse =>
        cases h
        exact .inl ⟨hkind, rfl⟩
    case isFalse hkind =>
      split at h
      case isTrue => cases h
      case isFalse =>
        split at h
        case isTrue => cases h
        case isFalse hplace =>
          simp only [Bool.or_eq_true, not_or, Bool.not_eq_true', Bool.not_eq_false, bne_iff_ne,
            ne_eq, not_not, decide_eq_true_eq] at hplace
          obtain ⟨⟨⟨hpower, halign⟩, hoffset⟩, hsize⟩ := hplace
          have hfield : ∀ hkind, PhysicalField layout field := fun hkind =>
            ⟨hkind, powerOfTwo_iff.1 hpower, dvd_of_mod_eq_zero halign,
              sum_le_of_checks hoffset hsize⟩
          split at h
          case isTrue hstable =>
            split at h
            case isTrue => cases h
            case isFalse =>
              cases h
              exact .inr ⟨rfl, hfield (.inl hstable)⟩
          case isFalse hstable =>
            split at h
            case isTrue => cases h
            case isFalse hbits =>
              cases h
              simp only [Bool.or_eq_true, not_or, decide_eq_true_eq] at hbits
              have hend : field.bitEnd.toUInt64 ≤ field.size * 8 := UInt64.not_lt.1 hbits.2
              have height : (8 : UInt64).toNat = 8 := rfl
              rw [UInt64.le_iff_toNat_le, UInt64.toNat_mul, UInt32.toNat_toUInt64, height] at hend
              have hmod := Nat.mod_le (field.size.toNat * 8) (2 ^ 64)
              refine .inr ⟨rfl, hfield (.inr ⟨?_, by omega⟩)⟩
              cases hkind' : field.kind <;> simp_all

lemma verifyFields_eq_ok {alignment size : UInt64} {result : UInt64 × UInt64}
    (h : verifyFields verifyPublicType layout names alignment size fields = .ok result) :
    (∀ field ∈ fields, field.kind = .computed ∨
      (PhysicalField layout field ∧ field.alignment.toNat ≤ result.1.toNat)) ∧
      alignment.toNat ≤ result.1.toNat := by
  induction fields generalizing names alignment size with
  | nil =>
    cases h
    exact ⟨nofun, le_rfl⟩
  | cons field fields ih =>
    rw [verifyFields] at h
    rw [List.forall_mem_cons]
    split at h
    case h_1 => cases h
    case h_2 hfield =>
      obtain ⟨hrest, hle⟩ := ih h
      obtain ⟨hkind, -⟩ | ⟨hfalse, -⟩ := verifyField_eq_ok hfield
      · exact ⟨⟨.inl hkind, hrest⟩, hle⟩
      · cases hfalse
    case h_3 hfield =>
      obtain ⟨hrest, hle⟩ := ih h
      rw [toNat_max, max_le_iff] at hle
      obtain ⟨-, hfalse⟩ | ⟨-, hphysical⟩ := verifyField_eq_ok hfield
      · cases hfalse
      · exact ⟨⟨.inr ⟨hphysical, hle.2⟩, hrest⟩, hle.1⟩

/-- The bits of a field are bits of its bytes. -/
lemma PhysicalField.bits_subset (h : PhysicalField layout field) (base : ℕ) :
    field.bits base ⊆ Set.Ico (8 * (base + field.offset.toNat))
      (8 * (base + field.offset.toNat + field.size.toNat)) := by
  obtain hkind | ⟨hkind, hend⟩ := h.kind
  · rw [bits_of_stable base hkind]
  · rw [NominalFieldLayoutArtifact.bits, hkind]
    exact Set.Ico_subset_Ico (by omega) (by omega)

lemma PhysicalField.placed (h : PhysicalField layout field)
    (hpower : layout.alignment.toNat.isPowerOfTwo)
    (hle : field.alignment.toNat ≤ layout.alignment.toNat) : Placed layout 0 field := by
  have hinside := h.inside
  refine ⟨by omega, (h.bits_subset 0).trans ?_, ?_, dvd_of_le h.power hpower hle⟩
  · exact Set.Ico_subset_Ico (Nat.zero_le _) (by omega)
  · rw [Nat.zero_add]
    exact h.aligned

variable [DecidableEq PublicType]

lemma anyOverlap_eq_false_iff :
    anyOverlap layout fields = false ↔
      fields.Pairwise fun left right => fieldsOverlap layout left right = false := by
  induction fields with
  | nil => exact iff_of_true rfl .nil
  | cons left fields ih =>
    rw [anyOverlap, Bool.or_eq_false_iff, ih, List.pairwise_cons, List.any_eq_false]
    simp only [Bool.not_eq_true]

/-- Fields that are not found to overlap share no bits. -/
lemma disjoint_of_fieldsOverlap {left right : NominalFieldLayoutArtifact PublicType}
    (hunion : layout.kind ≠ .union) (hleft : left.kind = .computed ∨ PhysicalField layout left)
    (hright : right.kind = .computed ∨ PhysicalField layout right)
    (h : fieldsOverlap layout left right = false) : Disjoint (left.bits 0) (right.bits 0) := by
  have hcomputed : ∀ field : NominalFieldLayoutArtifact PublicType, field.kind = .computed →
      field.bits 0 = ∅ := by
    intro field hkind
    rw [NominalFieldLayoutArtifact.bits, hkind]
  obtain hkind | hleft := hleft
  · rw [hcomputed left hkind]
    exact Set.empty_disjoint _
  obtain hkind | hright := hright
  · rw [hcomputed right hkind]
    exact Set.disjoint_empty _
  have hword := layout.size.toNat_lt
  have hinside := hleft.inside
  have hinside' := hright.inside
  unfold fieldsOverlap at h
  split at h
  case isTrue hkind =>
    obtain hkind | hkind := hkind
    · rw [hcomputed left hkind]
      exact Set.empty_disjoint _
    · rw [hcomputed right hkind]
      exact Set.disjoint_empty _
  case isFalse =>
    split at h
    case isTrue hbytes =>
      rw [byteOverlap_eq_false_iff 0 (by omega) (by omega)] at hbytes
      exact hbytes.mono (hleft.bits_subset 0) (hright.bits_subset 0)
    case isFalse =>
      rw [if_neg fun hkind => hunion hkind.1, Bool.or_eq_false_iff] at h
      obtain ⟨hword, hbits⟩ := h
      simp only [sharedBitWord, Bool.not_eq_false', Bool.and_eq_true, beq_iff_eq] at hword
      obtain ⟨⟨⟨⟨hkind, hkind'⟩, hoffset⟩, -⟩, -⟩ := hword
      simp only [Bool.and_eq_false_iff, decide_eq_false_iff_not, UInt32.lt_iff_toNat_lt] at hbits
      rw [NominalFieldLayoutArtifact.bits, NominalFieldLayoutArtifact.bits, hkind, hkind', hoffset]
      simp only [Set.Ico_disjoint_Ico]
      omega

/-- Structs and unions that are accepted are physical. -/
theorem physical_of_verifyAggregate (hpower : layout.alignment.toNat.isPowerOfTwo)
    (hkind : layout.kind ≠ .enum) (h : verifyAggregate verifyPublicType layout = .ok ()) :
    Physical layout := by
  unfold verifyAggregate at h
  split at h
  case isTrue => cases h
  case isFalse =>
    split at h
    case h_1 => cases h
    case h_2 expectedAlignment unionMemberSize hfields =>
      obtain ⟨hverified, -⟩ := verifyFields_eq_ok hfields
      split at h
      case isTrue => cases h
      case isFalse hoverlap =>
        have halignment : expectedAlignment.toNat ≤ layout.alignment.toNat := by
          split at h
          case isTrue =>
            split at h
            case h_1 => cases h
            case h_2 =>
              split at h
              case isTrue => cases h
              case isFalse hsame =>
                simp only [not_or, not_not] at hsame
                exact (congrArg UInt64.toNat hsame.2.1).ge
          case isFalse =>
            split at h
            case isTrue => cases h
            case isFalse hsame =>
              simp only [Bool.or_eq_true, not_or, decide_eq_true_eq] at hsame
              exact UInt64.le_iff_toNat_le.1 (UInt64.not_lt.1 hsame.1)
        refine ⟨fun henum => absurd henum hkind, fun _ field hfield hnot => ?_, fun _ hunion => ?_⟩
        · obtain hcomputed | ⟨hphysical, hle⟩ := hverified field hfield
          · exact absurd hcomputed hnot
          · exact hphysical.placed hpower (hle.trans halignment)
        · have hpairs := anyOverlap_eq_false_iff.1 ((Bool.not_eq_true _).mp hoverlap)
          refine hpairs.imp_of_mem fun {left right} hleft hright hnone => ?_
          exact disjoint_of_fieldsOverlap hunion ((hverified left hleft).imp_right And.left)
            ((hverified right hright).imp_right And.left) hnone

/-! ## All layouts -/

/-- An accepted layout is physical, unless it is an enum with too large a variant, a payload field
with too large an alignment or payload fields that overlap. -/
theorem verify_physical_iff {state : NominalLayoutVerificationState PublicType}
    (h : verify verifyPublicType state = .ok ()) :
    Physical state.layout ↔ (state.layout.kind = .enum → PhysicalEnum state.layout) := by
  unfold verify at h
  simp only at h
  split at h
  case isTrue => cases h
  case isFalse hmetadata =>
    have hpower : state.layout.alignment.toNat.isPowerOfTwo := by
      simp only [Bool.or_eq_true, not_or, Bool.not_eq_true', Bool.not_eq_false] at hmetadata
      exact powerOfTwo_iff.1 hmetadata.1.2
    split at h
    case isTrue hkind =>
      have hverified := verifyEnum_eq_ok h
      rw [← hverified.placedVariant_iff, forall_prop_of_true hkind]
      exact ⟨fun hphysical => hphysical.variants hkind,
        fun hvariants => ⟨fun _ => hvariants, absurd hkind, absurd hkind⟩⟩
    case isFalse hkind =>
      exact iff_of_true (physical_of_verifyAggregate hpower hkind h) fun henum => absurd henum hkind

end Verify

/-! ## Enums of one variant -/

/-- An enum over the integer types, given by their widths, with the fingerprints of the state. -/
def enumState (size alignment payloadOffset : UInt64)
    (variant : EnumVariantLayoutArtifact ℕ) : NominalLayoutVerificationState ℕ where
  layout :=
    { typeSpecificFingerprint := Incremental.stamp 1
      targetFingerprint := Incremental.stamp 2
      size := size
      alignment := alignment
      fields := []
      tagSize := 4
      payloadOffset := payloadOffset
      variants := [variant]
      requestFingerprint := Incremental.stamp 3
      resultFingerprint := Incremental.stamp 4
      kind := .enum }
  requestFingerprint := fun _ => Incremental.stamp 3
  resultFingerprint := fun _ => Incremental.stamp 4

def integerWidth (width : ℕ) (_ : Bool) : Bool := [8, 16, 32, 64].contains width

/-- A payload of two integers of 32 bits next to each other. -/
def pairVariant : EnumVariantLayoutArtifact ℕ where
  name := ['a']
  size := 8
  alignment := 4
  fields := [{ name := ['x'], type := 32, size := 4, alignment := 4 },
    { name := ['y'], type := 32, offset := 4, size := 4, alignment := 4 }]

theorem verify_physical_pair : Physical (enumState 12 4 4 pairVariant).layout := by
  have haccepted : verify integerWidth (enumState 12 4 4 pairVariant) = .ok () := by decide
  refine (verify_physical_iff haccepted).2 fun _ => ⟨?_, ?_, ?_⟩
  · exact List.forall_mem_singleton.2 (by decide)
  · exact List.forall_mem_singleton.2 (by decide)
  · exact List.forall_mem_singleton.2 (by decide)

/-- Both fields are at the start of the payload. -/
def overlappingVariant : EnumVariantLayoutArtifact ℕ where
  name := ['a']
  size := 8
  alignment := 8
  fields := [{ name := ['x'], type := 64, size := 8, alignment := 8 },
    { name := ['y'], type := 64, size := 8, alignment := 8 }]

/-- The field has a larger alignment than the variant says. -/
def misalignedVariant : EnumVariantLayoutArtifact ℕ where
  name := ['a']
  size := 8
  alignment := 1
  fields := [{ name := ['x'], type := 64, size := 8, alignment := 8 }]

/-- The variant is nearly as large as the address space. -/
def hugeVariant : EnumVariantLayoutArtifact ℕ where
  name := ['a']
  size := 0xFFFFFFFFFFFFFFFD
  alignment := 1
  fields := []

/-- Layouts with overlapping payload fields, a field that is not aligned and a variant that does not fit
are accepted. -/
theorem unphysical_layouts_accepted :
    (verify integerWidth (enumState 16 8 8 overlappingVariant) = .ok () ∧
      ¬Physical (enumState 16 8 8 overlappingVariant).layout) ∧
    (verify integerWidth (enumState 12 4 4 misalignedVariant) = .ok () ∧
      ¬Physical (enumState 12 4 4 misalignedVariant).layout) ∧
    verify integerWidth (enumState 4 4 4 hugeVariant) = .ok () ∧
      ¬Physical (enumState 4 4 4 hugeVariant).layout := by
  refine ⟨⟨by decide, fun h => ?_⟩, ⟨by decide, fun h => ?_⟩, by decide,
    fun h => ?_⟩
  · have hapart := (h.variants rfl overlappingVariant (.head _)).apart
    have hdisjoint := (List.pairwise_cons.1 hapart).1 _ (.head _)
    have hbit : 64 ∈ Set.Ico (8 * (8 + 0)) (8 * (8 + 0 + 8)) := by simp
    exact Set.disjoint_left.1 hdisjoint hbit hbit
  · have hplaced := (h.variants rfl misalignedVariant (.head _)).placed _ (.head _)
    exact absurd hplaced.alignment_dvd (by decide)
  · have hinside := (h.variants rfl hugeVariant (.head _)).inside
    exact absurd hinside (by decide)

end NominalLayout

end Chtholly
