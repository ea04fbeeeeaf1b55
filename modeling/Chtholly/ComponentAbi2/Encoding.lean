import Chtholly.ComponentAbi2.Descriptor

/-!
# The bytes of a descriptor

The codec of descriptors has no faults.  It accepts exactly the bytes that it writes for a descriptor
with valid fields and its own digest.

## Main definitions

* `ComponentAbi2.Descriptor.body`, `ComponentAbi2.Descriptor.encoded` — the bytes of a descriptor.
* `ComponentAbi2.Descriptor.Verified` — a descriptor that `verify` accepts.

## Main results

* `ComponentAbi2.encode_eq`, `ComponentAbi2.decode_ok` — which descriptors are written and which bytes
  are read.
-/

set_option autoImplicit false

namespace Chtholly

namespace ComponentAbi2

open Codec
open Registry (Bytes Text)
open Incremental (StableFingerprint)

/-! ## Descriptors as bytes -/

def stringBytes (value : Bytes) : Bytes := appendU32 (UInt32.ofNat value.length) ++ value

/-- What `canonicalBody` writes. -/
def Descriptor.body (descriptor : Descriptor) : Bytes :=
  appendU32 descriptor.abiEpoch ++ appendU16 descriptor.descriptorVersion ++
    [descriptor.operationKind, descriptor.terminalCardinality, descriptor.leasePolicy,
      descriptor.ownershipFlags] ++ stringBytes descriptor.componentIdentity ++
    stringBytes descriptor.entityIdentity ++ stringBytes descriptor.resourceIdentity ++
    descriptor.payloadTypeDigest.bytes ++ descriptor.layoutDigest.bytes ++
    descriptor.lifecycleDigest.bytes ++ descriptor.contractDigest.bytes ++
    descriptor.runtimeAbiDigest.bytes

def Descriptor.digest (descriptor : Descriptor) : StableFingerprint :=
  .fromCanonicalBytes (digestTag ++ descriptor.body)

/-- What the header says, and the body. -/
def headerBytes (version flags : UInt16) (bodySize : UInt32) (digest : StableFingerprint) : Bytes :=
  appendU16 version ++ appendU16 flags ++ appendU32 bodySize ++ digest.bytes

def Descriptor.encoded (descriptor : Descriptor) : Bytes :=
  magic ++ headerBytes 1 0 (UInt32.ofNat descriptor.body.length) descriptor.descriptorDigest ++
    descriptor.body

/-- A descriptor that `canonicalize` accepts. -/
structure Descriptor.Valid (descriptor : Descriptor) : Prop where
  epoch : descriptor.abiEpoch = 2
  version : descriptor.descriptorVersion = 1
  fields : validFields descriptor = true

/-- A descriptor that `verify` accepts. -/
structure Descriptor.Verified (descriptor : Descriptor) : Prop extends descriptor.Valid where
  digest_eq : descriptor.descriptorDigest = descriptor.digest

/-- The descriptor with its own digest. -/
def Descriptor.canonical (descriptor : Descriptor) : Descriptor :=
  { descriptor with descriptorDigest := descriptor.digest }

variable {descriptor : Descriptor}

lemma Descriptor.Valid.verified_canonical (h : descriptor.Valid) : descriptor.canonical.Verified :=
  ⟨⟨h.epoch, h.version, h.fields⟩, rfl⟩

lemma Descriptor.Verified.canonical_eq (h : descriptor.Verified) :
    descriptor.canonical = descriptor := by
  rw [Descriptor.canonical, ← h.digest_eq]

/-! ## Sizes -/

lemma length_le_of_validIdentity {value : Bytes} (h : validIdentity value = true) :
    value.length ≤ maxStringBytes ∧ plainBytes value = true := by
  simp only [validIdentity, Bool.and_eq_true, decide_eq_true_iff] at h
  exact ⟨h.1.2, h.2⟩

/-- The identities of valid fields are short. -/
structure Descriptor.Sized (descriptor : Descriptor) : Prop where
  component : descriptor.componentIdentity.length ≤ maxStringBytes
  entity : descriptor.entityIdentity.length ≤ maxStringBytes
  resource : descriptor.resourceIdentity.length ≤ maxStringBytes

lemma sized_of_validFields (h : validFields descriptor = true) : descriptor.Sized := by
  simp only [validFields, Bool.and_eq_true] at h
  obtain ⟨⟨⟨⟨⟨⟨⟨⟨-, hcomponent⟩, hentity⟩, hresource⟩, -⟩, -⟩, -⟩, -⟩, -⟩ := h
  exact ⟨(length_le_of_validIdentity hcomponent).1, (length_le_of_validIdentity hentity).1,
    (length_le_of_validIdentity hresource).1⟩

lemma appendString_eq {value : Bytes} (h : value.length ≤ maxStringBytes) :
    appendString value = .ok (stringBytes value) := by
  rw [appendString, narrow_eq (h.trans_lt (by decide))]
  rfl

lemma length_appendU16 (value : UInt16) : (appendU16 value).length = 2 := length_littleEndian _ _

lemma length_appendU32 (value : UInt32) : (appendU32 value).length = 4 := length_littleEndian _ _

lemma length_stringBytes (value : Bytes) : (stringBytes value).length = 4 + value.length := by
  rw [stringBytes, List.length_append, length_appendU32]

lemma Descriptor.length_body (descriptor : Descriptor) :
    descriptor.body.length = 182 + descriptor.componentIdentity.length +
      descriptor.entityIdentity.length + descriptor.resourceIdentity.length := by
  simp only [Descriptor.body, List.length_append, length_appendU32, length_appendU16,
    length_stringBytes, StableFingerprint.size, List.length_cons, List.length_nil]
  omega

lemma Descriptor.Sized.length_body_lt (h : descriptor.Sized) : descriptor.body.length < 200000 := by
  obtain ⟨hcomponent, hentity, hresource⟩ := h
  rw [Descriptor.length_body]
  simp only [maxStringBytes] at hcomponent hentity hresource
  omega

lemma Descriptor.Sized.canonicalBody_eq (h : descriptor.Sized) :
    canonicalBody descriptor = .ok descriptor.body := by
  have hreserved : ∃ size, reservedSize descriptor = .ok size := by
    obtain ⟨hcomponent, hentity, hresource⟩ := h
    simp only [maxStringBytes] at hcomponent hentity hresource
    refine ⟨256 + descriptor.componentIdentity.length + descriptor.entityIdentity.length +
      descriptor.resourceIdentity.length, ?_⟩
    unfold reservedSize
    rw [sizeAdd_eq (by omega)]
    change (sizeAdd _ _ >>= fun size => sizeAdd size _) = _
    rw [sizeAdd_eq (by omega)]
    exact sizeAdd_eq (by omega)
  obtain ⟨size, hsize⟩ := hreserved
  unfold canonicalBody
  rw [hsize, appendString_eq h.component, appendString_eq h.entity, appendString_eq h.resource]
  rfl

lemma Descriptor.Sized.digest_eq (h : descriptor.Sized) :
    componentAbi2DescriptorDigest descriptor = .ok descriptor.digest := by
  rw [componentAbi2DescriptorDigest, h.canonicalBody_eq]
  rfl

/-! ## The checks have no faults -/

lemma canonicalize_eq (descriptor : Descriptor) :
    descriptor.Valid ∧ canonicalize descriptor = .ok (.ok descriptor.canonical) ∨
      ¬ descriptor.Valid ∧ ∃ message, canonicalize descriptor = .ok (.error message) := by
  unfold canonicalize
  by_cases hvalid : descriptor.abiEpoch ≠ 2 ∨ descriptor.descriptorVersion ≠ 1 ∨
      validFields descriptor = false
  · right
    refine ⟨fun h => ?_, _, if_pos hvalid⟩
    obtain hepoch | hversion | hfields := hvalid
    · exact hepoch h.epoch
    · exact hversion h.version
    · rw [h.fields] at hfields
      cases hfields
  · left
    rw [not_or, not_or, not_not, not_not, Bool.not_eq_false] at hvalid
    obtain ⟨hepoch, hversion, hfields⟩ := hvalid
    refine ⟨⟨hepoch, hversion, hfields⟩, ?_⟩
    rw [if_neg (by simp [hepoch, hversion, hfields]), (sized_of_validFields hfields).digest_eq]
    rfl

lemma verify_eq (descriptor : Descriptor) :
    ∃ result, verify descriptor = .ok result ∧ (result = .ok () ↔ descriptor.Verified) := by
  unfold verify
  by_cases hversions : descriptor.abiEpoch ≠ 2 ∨ descriptor.descriptorVersion ≠ 1
  · refine ⟨_, if_pos hversions, iff_of_false nofun fun h => ?_⟩
    exact hversions.elim (fun hepoch => hepoch h.epoch) fun hversion => hversion h.version
  · by_cases hfields : validFields descriptor = false
    · rw [if_neg hversions, if_pos hfields]
      refine ⟨_, rfl, iff_of_false nofun fun h => ?_⟩
      rw [h.fields] at hfields
      cases hfields
    · rw [if_neg hversions, if_neg hfields]
      rw [not_or, not_not, not_not] at hversions
      rw [Bool.not_eq_false] at hfields
      rw [(sized_of_validFields hfields).digest_eq]
      by_cases hdigest : descriptor.descriptorDigest = descriptor.digest
      · refine ⟨.ok (), ?_, iff_of_true rfl ⟨⟨hversions.1, hversions.2, hfields⟩, hdigest⟩⟩
        change (if descriptor.descriptorDigest ≠ descriptor.digest then _ else _) = _
        rw [if_neg (not_not.2 hdigest)]
        rfl
      · refine ⟨.error "ABI-2 descriptor digest mismatch", ?_,
          iff_of_false nofun fun h => hdigest h.digest_eq⟩
        change (if descriptor.descriptorDigest ≠ descriptor.digest then _ else _) = _
        rw [if_pos hdigest]
        rfl

/-- Every valid descriptor is encoded, and no other one. -/
theorem encode_eq (descriptor : Descriptor) :
    descriptor.Valid ∧ encode descriptor = .ok (.ok descriptor.canonical.encoded) ∨
      ¬ descriptor.Valid ∧ ∃ message, encode descriptor = .ok (.error message) := by
  obtain ⟨hvalid, hcanonical⟩ | ⟨hvalid, message, hcanonical⟩ := canonicalize_eq descriptor
  · left
    have hsized : descriptor.canonical.Sized := sized_of_validFields hvalid.fields
    have hlength := hsized.length_body_lt
    have hbudget : ¬ 2 ^ 32 - 1 < descriptor.canonical.body.length := by omega
    have htotal : ¬ maxDescriptorBytes < headerSize + descriptor.canonical.body.length := by
      simp only [maxDescriptorBytes, headerSize]
      omega
    refine ⟨hvalid, ?_⟩
    have hadd : sizeAdd headerSize descriptor.canonical.body.length =
        .ok (headerSize + descriptor.canonical.body.length) :=
      sizeAdd_eq (by simp only [headerSize]; omega)
    unfold encode
    simp only [hcanonical, checked_bind, hsized.canonicalBody_eq, if_neg hbudget, hadd,
      if_neg htotal, narrow_eq (hlength.trans (by decide)), checked_pure, Descriptor.encoded,
      headerBytes, List.append_assoc]
  · right
    refine ⟨hvalid, message, ?_⟩
    unfold encode
    rw [hcanonical]
    rfl

/-! ## What the readers read -/

def restU8 : Rest UInt8 := do
  let value ← restSized 1 ofLittleEndian
  return UInt8.ofNat value

def restU16 : Rest UInt16 := do
  let value ← restSized 2 ofLittleEndian
  return UInt16.ofNat value

def restU32 : Rest UInt32 := do
  let value ← restSized 4 ofLittleEndian
  return UInt32.ofNat value

def restString : Rest Bytes := do
  let size ← restU32
  restRequire (decide (size.toNat ≤ maxStringBytes))
  let value ← restSized size.toNat id
  restRequire (plainBytes value)
  return value

def restFingerprint : Rest StableFingerprint := do
  let bytes ← restSized 32 id
  return fingerprintOf bytes

def restHeader : Rest (UInt16 × UInt16 × UInt32 × StableFingerprint) := do
  let version ← restU16
  let flags ← restU16
  let bodySize ← restU32
  let digest ← restFingerprint
  return (version, flags, bodySize, digest)

def restBody : Rest Descriptor := do
  let abiEpoch ← restU32
  let descriptorVersion ← restU16
  let operation ← restU8
  let cardinality ← restU8
  let lease ← restU8
  let ownership ← restU8
  let component ← restString
  let entity ← restString
  let resource ← restString
  let payload ← restFingerprint
  let layout ← restFingerprint
  let lifecycle ← restFingerprint
  let contract ← restFingerprint
  let runtimeAbi ← restFingerprint
  restEnd
  return {
    abiEpoch := abiEpoch
    descriptorVersion := descriptorVersion
    operationKind := operation
    terminalCardinality := cardinality
    leasePolicy := lease
    ownershipFlags := ownership
    componentIdentity := component
    entityIdentity := entity
    resourceIdentity := resource
    payloadTypeDigest := payload
    layoutDigest := layout
    lifecycleDigest := lifecycle
    contractDigest := contract
    runtimeAbiDigest := runtimeAbi }

lemma refines_u8 : Refines readU8 restU8 := (refines_word 1).bind fun _ => refines_pure _

lemma refines_u16 : Refines readU16 restU16 := (refines_word 2).bind fun _ => refines_pure _

lemma refines_u32 : Refines readU32 restU32 := (refines_word 4).bind fun _ => refines_pure _

lemma refines_string : Refines readString restString :=
  refines_u32.bind fun size => (refines_require _).bind fun _ =>
    (refines_bytes size.toNat).bind fun _ => (refines_require _).bind fun _ => refines_pure _

lemma refines_fingerprint : Refines readFingerprint restFingerprint :=
  (refines_bytes 32).bind fun _ => refines_pure _

lemma refines_header : Refines readHeader restHeader :=
  refines_u16.bind fun _ => refines_u16.bind fun _ => refines_u32.bind fun _ =>
    refines_fingerprint.bind fun _ => refines_pure _

lemma refines_body : Refines readBody restBody :=
  refines_u32.bind fun _ => refines_u16.bind fun _ => refines_u8.bind fun _ =>
    refines_u8.bind fun _ => refines_u8.bind fun _ => refines_u8.bind fun _ =>
    refines_string.bind fun _ => refines_string.bind fun _ => refines_string.bind fun _ =>
    refines_fingerprint.bind fun _ => refines_fingerprint.bind fun _ =>
    refines_fingerprint.bind fun _ => refines_fingerprint.bind fun _ =>
    refines_fingerprint.bind fun _ => refines_end.bind fun _ => refines_pure _

section Written

variable {bytes after : Bytes}

lemma restU8_eq_some {value : UInt8} :
    restU8 bytes = some (value, after) ↔ bytes = value :: after := by
  simp only [restU8, rest_bind_eq_some, restWord_eq_some, rest_pure_eq_some]
  constructor
  · rintro ⟨number, middle, ⟨hlt, rfl⟩, rfl, rfl⟩
    rfl
  · rintro rfl
    refine ⟨value.toNat, after, ⟨value.toNat_lt, ?_⟩, UInt8.ofNat_toNat, rfl⟩
    rw [littleEndian, littleEndian, UInt8.ofNat_toNat]
    rfl

lemma restU16_eq_some {value : UInt16} :
    restU16 bytes = some (value, after) ↔ bytes = appendU16 value ++ after := by
  simp only [restU16, rest_bind_eq_some, restWord_eq_some, rest_pure_eq_some]
  constructor
  · rintro ⟨number, middle, ⟨hlt, rfl⟩, rfl, rfl⟩
    rw [appendU16, UInt16.toNat_ofNat_of_lt' hlt]
  · rintro rfl
    exact ⟨value.toNat, after, ⟨value.toNat_lt, rfl⟩, UInt16.ofNat_toNat, rfl⟩

lemma restU32_eq_some {value : UInt32} :
    restU32 bytes = some (value, after) ↔ bytes = appendU32 value ++ after := by
  simp only [restU32, rest_bind_eq_some, restWord_eq_some, rest_pure_eq_some]
  constructor
  · rintro ⟨number, middle, ⟨hlt, rfl⟩, rfl, rfl⟩
    rw [appendU32, UInt32.toNat_ofNat_of_lt' hlt]
  · rintro rfl
    exact ⟨value.toNat, after, ⟨value.toNat_lt, rfl⟩, UInt32.ofNat_toNat, rfl⟩

/-- A string as the reader accepts it. -/
def Readable (value : Bytes) : Prop := value.length ≤ maxStringBytes ∧ plainBytes value = true

lemma restString_eq_some {value : Bytes} :
    restString bytes = some (value, after) ↔ Readable value ∧ bytes = stringBytes value ++ after := by
  simp only [restString, rest_bind_eq_some, restU32_eq_some, restBytes_eq_some,
    restRequire_eq_some, rest_pure_eq_some, decide_eq_true_iff]
  constructor
  · rintro ⟨size, _, rfl, _, _, ⟨hsize, rfl⟩, text, _, ⟨hlength, rfl⟩, _, _, ⟨hplain, rfl⟩, rfl, rfl⟩
    refine ⟨⟨hlength ▸ hsize, hplain⟩, ?_⟩
    rw [stringBytes, hlength, UInt32.ofNat_toNat, List.append_assoc]
  · rintro ⟨⟨hlength, hplain⟩, rfl⟩
    have hnat : (UInt32.ofNat value.length).toNat = value.length :=
      UInt32.toNat_ofNat_of_lt' (hlength.trans_lt (by decide))
    refine ⟨_, value ++ after, ?_, (), _, ⟨hnat.symm ▸ hlength, rfl⟩, value, after,
      ⟨hnat.symm, rfl⟩, (), _, ⟨hplain, rfl⟩, rfl, rfl⟩
    rw [stringBytes, List.append_assoc]

lemma fingerprintOf_bytes (value : StableFingerprint) : fingerprintOf value.bytes = value := by
  obtain ⟨bytes, hsize⟩ := value
  unfold fingerprintOf
  simp only [StableFingerprint.mk.injEq]
  exact List.take_left' hsize

lemma restFingerprint_eq_some {value : StableFingerprint} :
    restFingerprint bytes = some (value, after) ↔ bytes = value.bytes ++ after := by
  simp only [restFingerprint, rest_bind_eq_some, restBytes_eq_some, rest_pure_eq_some]
  constructor
  · rintro ⟨front, middle, ⟨hlength, rfl⟩, rfl, rfl⟩
    have hfront : (fingerprintOf front).bytes = front := List.take_left' hlength
    rw [hfront]
  · rintro rfl
    exact ⟨value.bytes, after, ⟨value.size, rfl⟩, fingerprintOf_bytes value, rfl⟩

lemma restHeader_eq_some {version flags : UInt16} {bodySize : UInt32} {digest : StableFingerprint} :
    restHeader bytes = some ((version, flags, bodySize, digest), after) ↔
      bytes = headerBytes version flags bodySize digest ++ after := by
  simp only [restHeader, rest_bind_eq_some, restU16_eq_some, restU32_eq_some,
    restFingerprint_eq_some, rest_pure_eq_some, headerBytes, List.append_assoc]
  constructor
  · rintro ⟨_, _, rfl, _, _, rfl, _, _, rfl, _, _, rfl, heq, rfl⟩
    cases heq
    rfl
  · rintro rfl
    exact ⟨_, _, rfl, _, _, rfl, _, _, rfl, _, _, rfl, rfl, rfl⟩

/-- The identities of a descriptor that was read. -/
structure Descriptor.Read (descriptor : Descriptor) : Prop where
  component : Readable descriptor.componentIdentity
  entity : Readable descriptor.entityIdentity
  resource : Readable descriptor.resourceIdentity
  digest : descriptor.descriptorDigest = .zero

lemma restBody_eq_some {descriptor : Descriptor} :
    restBody bytes = some (descriptor, after) ↔
      (descriptor.Read ∧ after = []) ∧ bytes = descriptor.body := by
  simp only [restBody, rest_bind_eq_some, restU8_eq_some, restU16_eq_some, restU32_eq_some,
    restString_eq_some, restFingerprint_eq_some, rest_pure_eq_some, restEnd_eq_some,
    Descriptor.body, List.append_assoc]
  constructor
  · rintro ⟨_, _, rfl, _, _, rfl, _, _, rfl, _, _, rfl, _, _, rfl, _, _, rfl, _, _, ⟨hcomponent, rfl⟩,
      _, _, ⟨hentity, rfl⟩, _, _, ⟨hresource, rfl⟩, _, _, rfl, _, _, rfl, _, _, rfl, _, _, rfl,
      _, _, rfl, _, _, ⟨rfl, rfl⟩, rfl, rfl⟩
    refine ⟨⟨⟨hcomponent, hentity, hresource, rfl⟩, rfl⟩, ?_⟩
    simp
  · rintro ⟨⟨⟨hcomponent, hentity, hresource, hdigest⟩, rfl⟩, rfl⟩
    refine ⟨_, _, rfl, _, _, rfl, _, _, rfl, _, _, rfl, _, _, rfl, _, _, rfl, _, _, ⟨hcomponent, rfl⟩,
      _, _, ⟨hentity, rfl⟩, _, _, ⟨hresource, rfl⟩, _, _, rfl, _, _, rfl, _, _, rfl, _, _, rfl,
      _, [], (List.append_nil _).symm, (), _, ⟨rfl, rfl⟩, ?_, rfl⟩
    rw [← hdigest]

end Written

/-! ## Decoding -/

lemma checkDecoded_ok (descriptor : Descriptor) :
    ∃ result, checkDecoded descriptor = .ok result ∧
      ∀ decoded, result = .ok decoded ↔ decoded = descriptor ∧ descriptor.Verified := by
  unfold checkDecoded
  by_cases hepoch : descriptor.abiEpoch ≠ 2
  · exact ⟨_, if_pos hepoch, fun _ => iff_of_false nofun fun h => hepoch h.2.epoch⟩
  · obtain ⟨result, hverify, hverified⟩ := verify_eq descriptor
    simp only [if_neg hepoch, hverify, checked_bind, checked_pure]
    cases result with
    | error message =>
      refine ⟨_, rfl, fun _ => iff_of_false nofun fun h => ?_⟩
      cases hverified.2 h.2
    | ok =>
      refine ⟨_, rfl, fun decoded => ?_⟩
      rw [Except.ok.injEq, eq_comm]
      exact ⟨fun h => ⟨h, hverified.1 rfl⟩, fun h => h.1⟩

/-- What a reader does on bytes that have a size. -/
lemma run_of_refines {α : Type} {read : Read α} {rest : Rest α} (h : Refines read rest)
    {bytes : Bytes} (hbytes : bytes.length < 2 ^ 64) :
    rest bytes = none ∧ (read ⟨bytes, 0⟩).run = .ok none ∨
      ∃ value reader, rest bytes = some (value, reader.rest) ∧
        (read ⟨bytes, 0⟩).run = .ok (some (value, reader)) := by
  obtain ⟨hrest, hread⟩ | ⟨value, reader, -, hrest, hread⟩ :=
    h ⟨bytes, 0⟩ ⟨Nat.zero_le _, hbytes⟩
  · exact .inl ⟨hrest, congrArg OptionT.run hread⟩
  · exact .inr ⟨value, reader, hrest, congrArg OptionT.run hread⟩

/-- The body of a verified descriptor is read. -/
lemma Descriptor.Verified.restBody_body (h : descriptor.Verified) :
    restBody descriptor.body = some ({ descriptor with descriptorDigest := .zero }, []) := by
  have hfields := h.fields
  simp only [validFields, Bool.and_eq_true] at hfields
  obtain ⟨⟨⟨⟨⟨⟨⟨⟨-, hcomponent⟩, hentity⟩, hresource⟩, -⟩, -⟩, -⟩, -⟩, -⟩ := hfields
  exact restBody_eq_some.2 ⟨⟨⟨length_le_of_validIdentity hcomponent,
    length_le_of_validIdentity hentity, length_le_of_validIdentity hresource, rfl⟩, rfl⟩, rfl⟩

lemma decodeBody_ok {bytes : Bytes} (hbytes : bytes.length ≤ maxDescriptorBytes)
    (bodySize : UInt32) (digest : StableFingerprint) :
    ∃ result, decodeBody bytes bodySize digest = .ok result ∧
      ∀ decoded, result = .ok decoded ↔ decoded.Verified ∧ decoded.descriptorDigest = digest ∧
        bytes.length = headerSize + bodySize.toNat ∧ bytes.drop headerSize = decoded.body := by
  have hsub : sizeSub maxDescriptorBytes headerSize = .ok (maxDescriptorBytes - headerSize) :=
    sizeSub_eq (by decide)
  have hsmall := bodySize.toNat_lt
  have hadd : sizeAdd headerSize bodySize.toNat = .ok (headerSize + bodySize.toNat) :=
    sizeAdd_eq (by simp only [headerSize]; omega)
  unfold decodeBody
  simp only [hsub, hadd, checked_bind, checked_pure]
  by_cases hlength : maxDescriptorBytes - headerSize < bodySize.toNat ∨
      bytes.length ≠ headerSize + bodySize.toNat
  · refine ⟨_, if_pos hlength, fun _ => iff_of_false nofun fun h => ?_⟩
    have hsize := h.2.2.1
    simp only [maxDescriptorBytes, headerSize] at hlength hbytes hsize
    omega
  · rw [not_or, not_not] at hlength
    have hbody : (bytes.drop headerSize).length = bodySize.toNat := by
      rw [List.length_drop]
      omega
    have hslice : slice bytes headerSize bodySize.toNat = .ok (bytes.drop headerSize) := by
      rw [slice_eq (by omega), ← hbody, List.take_length]
    rw [if_neg (by rw [not_or, not_not]; exact hlength), hslice, checked_bind]
    obtain ⟨hrest, hread⟩ | ⟨result, reader, hrest, hread⟩ :=
      @run_of_refines _ _ _ refines_body (bytes.drop headerSize) (by rw [hbody]; omega)
    · rw [hread, checked_bind]
      refine ⟨_, rfl, fun decoded => iff_of_false nofun fun h => ?_⟩
      -- the body of a verified descriptor would have been read
      have hsome := h.1.restBody_body
      rw [← h.2.2.2, hrest] at hsome
      cases hsome
    · obtain ⟨-, hdrop⟩ := restBody_eq_some.1 hrest
      rw [hread, checked_bind]
      obtain ⟨checked, hchecked, hiff⟩ := checkDecoded_ok { result with descriptorDigest := digest }
      refine ⟨checked, hchecked, fun decoded => (hiff decoded).trans ⟨?_, ?_⟩⟩
      · rintro ⟨rfl, hverified⟩
        exact ⟨hverified, rfl, hlength.2, hdrop⟩
      · rintro ⟨hverified, rfl, -, hdecoded⟩
        have hsome := hverified.restBody_body
        rw [← hdecoded, hrest] at hsome
        have hresult := (Prod.mk.inj (Option.some.inj hsome)).1
        rw [hresult]
        exact ⟨rfl, hverified⟩

lemma length_magic : magic.length = 7 := by decide

lemma length_headerBytes (version flags : UInt16) (bodySize : UInt32)
    (digest : StableFingerprint) : (headerBytes version flags bodySize digest).length = 40 := by
  simp only [headerBytes, List.length_append, length_appendU16, length_appendU32, digest.size]

/-- The body is read behind a header that was accepted. -/
lemma decodeBody_header {bytes after : Bytes} (hbytes : bytes.length ≤ maxDescriptorBytes)
    (hmagic : bytes.take magic.length = magic) {bodySize : UInt32} {digest : StableFingerprint}
    (hheader : bytes.drop magic.length = headerBytes 1 0 bodySize digest ++ after) :
    ∃ result, decodeBody bytes bodySize digest = .ok result ∧
      ∀ decoded, result = .ok decoded ↔ decoded.Verified ∧ bytes = decoded.encoded := by
  have hsplit : bytes = magic ++ (headerBytes 1 0 bodySize digest ++ after) := by
    rw [← hheader]
    calc bytes = bytes.take magic.length ++ bytes.drop magic.length :=
          (List.take_append_drop _ _).symm
      _ = magic ++ bytes.drop magic.length := congrArg (· ++ _) hmagic
  have hafter : bytes.drop headerSize = after := by
    rw [hsplit, ← List.append_assoc]
    refine List.drop_left' ?_
    rw [List.length_append, length_magic, length_headerBytes, headerSize]
  have hlength : bytes.length = headerSize + after.length := by
    rw [hsplit, List.length_append, List.length_append, length_magic, length_headerBytes, headerSize]
    omega
  obtain ⟨result, hresult, hiff⟩ := decodeBody_ok hbytes bodySize digest
  refine ⟨result, hresult, fun decoded => (hiff decoded).trans ⟨?_, ?_⟩⟩
  · rintro ⟨hverified, rfl, hsize, hbody⟩
    rw [hafter] at hbody
    have hnumber : bodySize = UInt32.ofNat decoded.body.length := by
      rw [← hbody, Nat.add_left_cancel (hlength.symm.trans hsize), UInt32.ofNat_toNat]
    refine ⟨hverified, ?_⟩
    rw [hsplit, hnumber, hbody, Descriptor.encoded, List.append_assoc]
  · rintro ⟨hverified, hencoded⟩
    have hbody := (sized_of_validFields hverified.fields).length_body_lt
    rw [hencoded, Descriptor.encoded, List.append_assoc] at hsplit
    have hread := restHeader_eq_some.2 (List.append_cancel_left hsplit)
    rw [restHeader_eq_some.2 rfl] at hread
    simp only [Option.some.injEq, Prod.mk.injEq] at hread
    obtain ⟨⟨-, -, hsize, hdigest⟩, hrest⟩ := hread
    refine ⟨hverified, hdigest, ?_, hafter.trans hrest.symm⟩
    rw [hlength, ← hrest, ← hsize, UInt32.toNat_ofNat_of_lt' (hbody.trans (by decide))]

/-- The bytes of verified descriptors are accepted, and no other ones; no access is outside of the
bytes. -/
theorem decode_ok (bytes : Bytes) :
    ∃ result, decode bytes = .ok result ∧
      ∀ decoded, result = .ok decoded ↔ decoded.Verified ∧ bytes = decoded.encoded := by
  have hencoded : ∀ {decoded : Descriptor}, decoded.Verified → bytes = decoded.encoded →
      bytes.length = headerSize + decoded.body.length ∧ bytes.length ≤ maxDescriptorBytes ∧
      bytes.take magic.length = magic := by
    rintro decoded hverified rfl
    have hlength := (sized_of_validFields hverified.fields).length_body_lt
    have htotal : decoded.encoded.length = headerSize + decoded.body.length := by
      simp only [Descriptor.encoded, List.length_append, length_magic, length_headerBytes, headerSize]
    refine ⟨htotal, ?_, ?_⟩
    · rw [htotal]
      simp only [headerSize, maxDescriptorBytes]
      omega
    · rw [Descriptor.encoded, List.append_assoc]
      exact List.take_left' rfl
  unfold decode
  by_cases hlarge : maxDescriptorBytes < bytes.length
  · refine ⟨_, if_pos hlarge, fun decoded => iff_of_false nofun fun h => ?_⟩
    exact absurd (hencoded h.1 h.2).2.1 (Nat.not_le.2 hlarge)
  · have hsmall : bytes.length < 2 ^ 64 := by
      simp only [maxDescriptorBytes] at hlarge
      omega
    by_cases hshort : bytes.length < magic.length
    · rw [if_neg hlarge, if_pos hshort]
      refine ⟨_, rfl, fun decoded => iff_of_false nofun fun h => ?_⟩
      have hlength := (hencoded h.1 h.2).1
      rw [length_magic] at hshort
      simp only [headerSize] at hlength
      omega
    · rw [if_neg hlarge, if_neg hshort, slice_eq (by omega), checked_bind, List.drop_zero]
      by_cases hmagic : bytes.take magic.length = magic
      · rw [if_neg (not_not.2 hmagic), sliceFrom_eq (by omega), checked_bind]
        have hheader : ∀ {decoded : Descriptor}, bytes = decoded.encoded →
            restHeader (bytes.drop magic.length) = some ((1, 0,
              UInt32.ofNat decoded.body.length, decoded.descriptorDigest), decoded.body) := by
          rintro decoded rfl
          rw [restHeader_eq_some, Descriptor.encoded, List.append_assoc]
          exact List.drop_left' rfl
        obtain ⟨hrest, hread⟩ | ⟨⟨version, flags, bodySize, digest⟩, reader, hrest, hread⟩ :=
          @run_of_refines _ _ _ refines_header (bytes.drop magic.length)
            (by rw [List.length_drop]; omega)
        · rw [hread, checked_bind]
          refine ⟨_, rfl, fun decoded => iff_of_false nofun fun h => ?_⟩
          have hsome := hheader h.2
          rw [hrest] at hsome
          cases hsome
        · have hsame : ∀ {decoded : Descriptor}, bytes = decoded.encoded → version = 1 ∧ flags = 0 ∧
              bodySize = UInt32.ofNat decoded.body.length ∧ digest = decoded.descriptorDigest := by
            intro decoded hbytes
            have hsome := hheader hbytes
            rw [hrest] at hsome
            simp only [Option.some.injEq, Prod.mk.injEq] at hsome
            exact hsome.1
          rw [hread, checked_bind]
          dsimp only
          by_cases hversion : version = 1
          · by_cases hflags : flags = 0
            · rw [if_neg (not_not.2 hversion), if_neg (not_not.2 hflags)]
              subst hversion hflags
              exact decodeBody_header (Nat.le_of_not_lt hlarge) hmagic (restHeader_eq_some.1 hrest)
            · rw [if_neg (not_not.2 hversion), if_pos hflags]
              exact ⟨_, rfl, fun _ => iff_of_false nofun fun h => hflags (hsame h.2).2.1⟩
          · rw [if_pos hversion]
            exact ⟨_, rfl, fun _ => iff_of_false nofun fun h => hversion (hsame h.2).1⟩
      · rw [if_pos hmagic]
        exact ⟨_, rfl, fun decoded => iff_of_false nofun fun h => hmagic (hencoded h.1 h.2).2.2⟩

end ComponentAbi2

end Chtholly
