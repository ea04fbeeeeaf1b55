import Chtholly.Incremental.Artifacts

/-!
# The verification of nominal layouts

The layout of a nominal type is an artifact: where its fields are, or the payloads of its variants.
An artifact that is read is verified before it is used.

The types of fields are verified by a predicate that stands for `verifyPublicType`, and the
fingerprints are computed by functions of the layout.  Sizes, offsets and alignments are 64-bit words,
and sums of them wrap around.

## Main definitions

* `NominalLayout.NominalTypeLayoutArtifact` — the artifact.
* `NominalLayout.checkedAlign` — rounding up to an alignment.
* `NominalLayout.verify` — the verification.
-/

set_option autoImplicit false

namespace Chtholly

namespace NominalLayout

open Registry (Text)
open Incremental (StableFingerprint)

/-! ## The artifact -/

/-- `ObjectFieldProjectionKind`, where `count` stands for every value that is not a kind. -/
inductive ObjectFieldProjectionKind
  | stableAddress
  | computed
  | bitPacked
  | count
  deriving DecidableEq

/-- `NominalKind`, where `count` stands for every value that is not a kind. -/
inductive NominalKind
  | struct
  | union
  | enum
  | foreignHandle
  | foreignResource
  | count
  deriving DecidableEq

section Artifact

variable (PublicType : Type)

structure NominalFieldLayoutArtifact where
  name : Text
  type : PublicType
  kind : ObjectFieldProjectionKind := .stableAddress
  storageType : Option PublicType := none
  offset : UInt64 := 0
  size : UInt64 := 0
  alignment : UInt64 := 1
  bitBegin : UInt32 := 0
  bitEnd : UInt32 := 0

structure EnumVariantLayoutArtifact where
  name : Text
  size : UInt64 := 0
  alignment : UInt64 := 1
  fields : List (NominalFieldLayoutArtifact PublicType)

structure NominalTypeLayoutArtifact where
  typeSpecificFingerprint : StableFingerprint
  targetFingerprint : StableFingerprint
  size : UInt64 := 0
  alignment : UInt64 := 1
  fields : List (NominalFieldLayoutArtifact PublicType)
  tagSize : UInt32 := 0
  payloadOffset : UInt64 := 0
  variants : List (EnumVariantLayoutArtifact PublicType)
  requestFingerprint : StableFingerprint
  resultFingerprint : StableFingerprint
  kind : NominalKind := .struct

structure NominalLayoutVerificationState where
  layout : NominalTypeLayoutArtifact PublicType
  requestFingerprint : NominalTypeLayoutArtifact PublicType → StableFingerprint
  resultFingerprint : NominalTypeLayoutArtifact PublicType → StableFingerprint

end Artifact

/-! ## Alignments -/

/-- The test of the source that a word is a power of two. -/
def powerOfTwo (alignment : UInt64) : Bool := alignment != 0 && alignment &&& (alignment - 1) == 0

/-- `std::numeric_limits<std::uint64_t>::max()`. -/
def maxUInt64 : UInt64 := 0xFFFFFFFFFFFFFFFF

def checkedAlign (value alignment : UInt64) : Option UInt64 :=
  if powerOfTwo alignment = false then none
  else if value > maxUInt64 - (alignment - 1) then none
  else some ((value + (alignment - 1)) &&& ~~~(alignment - 1))

/-! ## Enums -/

section Verify

variable {PublicType : Type} [DecidableEq PublicType]
variable (verifyPublicType : PublicType → Bool → Bool)

/-- Whether a field of a payload of `variantSize` bytes is rejected, after fields with other names. -/
def payloadFieldInvalid (variantSize : UInt64) (names : List Text)
    (field : NominalFieldLayoutArtifact PublicType) : Bool :=
  field.name.isEmpty || names.contains field.name || !verifyPublicType field.type true ||
    field.kind != .stableAddress || field.storageType.isSome || !powerOfTwo field.alignment ||
    field.offset % field.alignment != 0 || decide (field.offset > variantSize) ||
    decide (field.size > variantSize - field.offset) || field.bitBegin != 0 || field.bitEnd != 0

def verifyPayloadFields (variantSize : UInt64) (names : List Text) :
    List (NominalFieldLayoutArtifact PublicType) → Except String Unit
  | [] => .ok ()
  | field :: rest =>
    if payloadFieldInvalid verifyPublicType variantSize names field = true then
      .error "enum layout artifact has an invalid payload field"
    else verifyPayloadFields variantSize (field.name :: names) rest

/-- The loop over the variants, with the largest size and alignment so far. -/
def verifyVariants (names : List Text) (maxPayloadSize maxPayloadAlignment : UInt64) :
    List (EnumVariantLayoutArtifact PublicType) → Except String (UInt64 × UInt64)
  | [] => .ok (maxPayloadSize, maxPayloadAlignment)
  | variant :: rest =>
    if (variant.name.isEmpty || names.contains variant.name || !powerOfTwo variant.alignment ||
        variant.size % variant.alignment != 0) = true then
      .error "enum layout artifact has an invalid variant"
    else
      match verifyPayloadFields verifyPublicType variant.size [] variant.fields with
      | .error error => .error error
      | .ok () =>
        verifyVariants (variant.name :: names) (max maxPayloadSize variant.size)
          (max maxPayloadAlignment variant.alignment) rest

def verifyEnum (layout : NominalTypeLayoutArtifact PublicType) : Except String Unit :=
  if (!layout.fields.isEmpty || layout.variants.isEmpty || layout.tagSize != 4 ||
      decide (layout.payloadOffset < layout.tagSize.toUInt64) ||
      layout.payloadOffset % layout.alignment != 0 || layout.size % layout.alignment != 0 ||
      decide (layout.size < layout.payloadOffset)) = true then
    .error "enum layout artifact has invalid tag or payload metadata"
  else
    match verifyVariants verifyPublicType [] 0 1 layout.variants with
    | .error error => .error error
    | .ok (maxPayloadSize, maxPayloadAlignment) =>
      let expectedAlignment := max 4 maxPayloadAlignment
      match checkedAlign 4 expectedAlignment with
      | none => .error "enum layout artifact has inconsistent aggregate size"
      | some expectedOffset =>
        match checkedAlign (expectedOffset + maxPayloadSize) expectedAlignment with
        | none => .error "enum layout artifact has inconsistent aggregate size"
        | some expectedSize =>
          if layout.payloadOffset ≠ expectedOffset ∨ layout.alignment ≠ expectedAlignment ∨
              layout.size ≠ expectedSize then
            .error "enum layout artifact has inconsistent aggregate size"
          else .ok ()

/-! ## Structs and unions -/

/-- The checks on one field, which give whether it has a place in the object. -/
def verifyField (layout : NominalTypeLayoutArtifact PublicType) (names : List Text)
    (field : NominalFieldLayoutArtifact PublicType) : Except String Bool :=
  if (field.name.isEmpty || names.contains field.name || !verifyPublicType field.type false ||
      field.kind == .count) = true then
    .error "nominal layout artifact has an invalid field layout"
  else if field.kind = .computed then
    if (field.storageType.isSome || field.offset != 0 || field.size != 0 || field.alignment != 1 ||
        field.bitBegin != 0 || field.bitEnd != 0) = true then
      .error "opaque logical field fabricates a physical layout"
    else .ok false
  else if layout.kind = .union ∧ (field.kind ≠ .stableAddress ∨ field.offset ≠ 0) then
    .error "nominal union layout requires stable fields at offset zero"
  else if (!powerOfTwo field.alignment || field.offset % field.alignment != 0 ||
      decide (field.offset > layout.size) ||
      decide (field.size > layout.size - field.offset)) = true then
    .error "nominal layout artifact has an invalid physical field layout"
  else if field.kind = .stableAddress then
    if (field.storageType.isSome || field.bitBegin != 0 || field.bitEnd != 0) = true then
      .error "stable field layout has bit-packed storage metadata"
    else .ok true
  else if (!(field.storageType.any fun type => verifyPublicType type false) ||
      decide (field.bitBegin ≥ field.bitEnd) || decide (field.bitEnd.toUInt64 > field.size * 8)) = true
      then
    .error "bit-packed field layout has invalid carrier metadata"
  else .ok true

/-- The loop over the fields, with the largest alignment and size so far. -/
def verifyFields (layout : NominalTypeLayoutArtifact PublicType) (names : List Text)
    (expectedAlignment unionMemberSize : UInt64) :
    List (NominalFieldLayoutArtifact PublicType) → Except String (UInt64 × UInt64)
  | [] => .ok (expectedAlignment, unionMemberSize)
  | field :: rest =>
    match verifyField verifyPublicType layout names field with
    | .error error => .error error
    | .ok false =>
      verifyFields layout (field.name :: names) expectedAlignment unionMemberSize rest
    | .ok true =>
      verifyFields layout (field.name :: names) (max expectedAlignment field.alignment)
        (max unionMemberSize field.size) rest

/-- `byte_overlap`. -/
def byteOverlap (left right : NominalFieldLayoutArtifact PublicType) : Bool :=
  left.size != 0 && right.size != 0 && decide (left.offset < right.offset + right.size) &&
    decide (right.offset < left.offset + left.size)

/-- `shared_bit_word`. -/
def sharedBitWord (left right : NominalFieldLayoutArtifact PublicType) : Bool :=
  left.kind == .bitPacked && right.kind == .bitPacked && left.offset == right.offset &&
    left.size == right.size && left.storageType == right.storageType

/-- The body of the loop over the pairs of fields. -/
def fieldsOverlap (layout : NominalTypeLayoutArtifact PublicType)
    (left right : NominalFieldLayoutArtifact PublicType) : Bool :=
  if left.kind = .computed ∨ right.kind = .computed then false
  else if byteOverlap left right = false then false
  else if layout.kind = .union ∧ left.offset = 0 ∧ right.offset = 0 then false
  else !sharedBitWord left right ||
    (decide (left.bitBegin < right.bitEnd) && decide (right.bitBegin < left.bitEnd))

/-- The loops over the pairs of fields. -/
def anyOverlap (layout : NominalTypeLayoutArtifact PublicType) :
    List (NominalFieldLayoutArtifact PublicType) → Bool
  | [] => false
  | left :: rest => rest.any (fieldsOverlap layout left) || anyOverlap layout rest

def verifyAggregate (layout : NominalTypeLayoutArtifact PublicType) : Except String Unit :=
  if (layout.tagSize != 0 || layout.payloadOffset != 0 || !layout.variants.isEmpty) = true then
    .error "non-enum layout artifact contains enum metadata"
  else
    match verifyFields verifyPublicType layout [] 1 0 layout.fields with
    | .error error => .error error
    | .ok (expectedAlignment, unionMemberSize) =>
      if anyOverlap layout layout.fields = true then
        .error "nominal layout artifact has overlapping logical fields"
      else if layout.kind = .union then
        match checkedAlign unionMemberSize expectedAlignment with
        | none => .error "nominal union layout has invalid size or alignment"
        | some expectedSize =>
          if layout.fields.isEmpty = true ∨ layout.alignment ≠ expectedAlignment ∨
              layout.size ≠ expectedSize then
            .error "nominal union layout has invalid size or alignment"
          else .ok ()
      else if (decide (layout.alignment < expectedAlignment) ||
          layout.size % layout.alignment != 0) = true then
        .error "nominal layout artifact has invalid tail padding"
      else .ok ()

/-- `NominalLayoutVerificationService::verify`. -/
def verify (state : NominalLayoutVerificationState PublicType) : Except String Unit :=
  let layout := state.layout
  if (!layout.typeSpecificFingerprint.hasValue || !layout.targetFingerprint.hasValue ||
      layout.requestFingerprint != state.requestFingerprint layout ||
      layout.resultFingerprint != state.resultFingerprint layout ||
      !powerOfTwo layout.alignment || layout.kind == .count) = true then
    .error "nominal layout artifact has invalid metadata"
  else if layout.kind = .enum then verifyEnum verifyPublicType layout
  else verifyAggregate verifyPublicType layout

end Verify

end NominalLayout

end Chtholly
