import Mathlib.Data.List.Infix
import Chtholly.Codec.Reader
import Chtholly.Incremental.Artifacts

/-!
# Descriptors of component operations

A descriptor names an operation of a component and the digests that a host checks.  It is written
into an envelope with a version, the length of its body and the digest of its body.

The enumerations of the source are bytes: a cast makes a value of one from any byte, and
`validEnum` checks the range.

## Main definitions

* `ComponentAbi2.Descriptor` — the record.
* `ComponentAbi2.canonicalize`, `ComponentAbi2.verify`, `ComponentAbi2.encode`,
  `ComponentAbi2.decode` — its checks and its codec, with every access to memory.
-/

set_option autoImplicit false

namespace Chtholly

namespace ComponentAbi2

open Codec
open Registry (Bytes Text)
open Incremental (StableFingerprint)

/-! ## The record -/

/-- `ComponentAbi2Descriptor`. -/
structure Descriptor where
  abiEpoch : UInt32 := 2
  descriptorVersion : UInt16 := 1
  operationKind : UInt8 := 3
  terminalCardinality : UInt8 := 1
  leasePolicy : UInt8 := 1
  ownershipFlags : UInt8 := 0
  componentIdentity : Bytes := []
  entityIdentity : Bytes := []
  resourceIdentity : Bytes := []
  payloadTypeDigest : StableFingerprint := .zero
  layoutDigest : StableFingerprint := .zero
  lifecycleDigest : StableFingerprint := .zero
  contractDigest : StableFingerprint := .zero
  runtimeAbiDigest : StableFingerprint := .zero
  descriptorDigest : StableFingerprint := .zero
  deriving DecidableEq

inductive DescriptorError
  | invalidMagic
  | unsupportedVersion
  | truncated
  | sizeOverflow
  | invalidField
  | nonCanonical
  | digestMismatch
  | abiMismatch
  | ioError
  deriving DecidableEq

/-- `componentAbi2DescriptorErrorText`. -/
def DescriptorError.text : DescriptorError → String
  | .invalidMagic => "invalid magic"
  | .unsupportedVersion => "unsupported version"
  | .truncated => "truncated descriptor"
  | .sizeOverflow => "descriptor size overflow"
  | .invalidField => "invalid descriptor field"
  | .nonCanonical => "non-canonical descriptor"
  | .digestMismatch => "descriptor digest mismatch"
  | .abiMismatch => "component ABI mismatch"
  | .ioError => "artifact I/O error"

def magic : Bytes := Text.bytes "CHTHAB2".toList

def headerSize : ℕ := 7 + 2 + 2 + 4 + 32

def maxDescriptorBytes : ℕ := 1024 * 1024

def maxStringBytes : ℕ := 64 * 1024

/-! ## Digests -/

def appendU16 (value : UInt16) : Bytes := littleEndian 2 value.toNat

def appendU32 (value : UInt32) : Bytes := littleEndian 4 value.toNat

def appendString (value : Bytes) : Checked Bytes := do
  let size ← narrow value.length
  return appendU32 size ++ value

/-- The size that `canonicalBody` reserves. -/
def reservedSize (descriptor : Descriptor) : Checked ℕ := do
  let size ← sizeAdd 256 descriptor.componentIdentity.length
  let size ← sizeAdd size descriptor.entityIdentity.length
  sizeAdd size descriptor.resourceIdentity.length

def canonicalBody (descriptor : Descriptor) : Checked Bytes := do
  let _ ← reservedSize descriptor
  let component ← appendString descriptor.componentIdentity
  let entity ← appendString descriptor.entityIdentity
  let resource ← appendString descriptor.resourceIdentity
  return appendU32 descriptor.abiEpoch ++ appendU16 descriptor.descriptorVersion ++
    [descriptor.operationKind, descriptor.terminalCardinality, descriptor.leasePolicy,
      descriptor.ownershipFlags] ++ component ++ entity ++ resource ++
    descriptor.payloadTypeDigest.bytes ++ descriptor.layoutDigest.bytes ++
    descriptor.lifecycleDigest.bytes ++ descriptor.contractDigest.bytes ++
    descriptor.runtimeAbiDigest.bytes

def digestTag : Bytes := Text.bytes "chtholly.component.abi2.descriptor.v1\n".toList

def componentAbi2DescriptorDigest (descriptor : Descriptor) : Checked StableFingerprint := do
  let body ← canonicalBody descriptor
  return .fromCanonicalBytes (digestTag ++ body)

/-! ## Checks -/

def validEnum (descriptor : Descriptor) : Bool :=
  1 ≤ descriptor.operationKind && descriptor.operationKind ≤ 3 &&
    1 ≤ descriptor.terminalCardinality && descriptor.terminalCardinality ≤ 2 &&
    1 ≤ descriptor.leasePolicy && descriptor.leasePolicy ≤ 2

/-- No zero byte and no line break. -/
def plainBytes (value : Bytes) : Bool :=
  !value.contains 0 && !value.contains 10 && !value.contains 13

def validIdentity (value : Bytes) : Bool :=
  !value.isEmpty && decide (value.length ≤ maxStringBytes) && plainBytes value

/-- The conditions that `canonicalize` and `verify` share. -/
def validFields (descriptor : Descriptor) : Bool :=
  validEnum descriptor && validIdentity descriptor.componentIdentity &&
    validIdentity descriptor.entityIdentity && validIdentity descriptor.resourceIdentity &&
    descriptor.payloadTypeDigest.hasValue && descriptor.layoutDigest.hasValue &&
    descriptor.lifecycleDigest.hasValue && descriptor.contractDigest.hasValue &&
    descriptor.runtimeAbiDigest.hasValue

def canonicalize (descriptor : Descriptor) : Checked (Except String Descriptor) := do
  if descriptor.abiEpoch ≠ 2 ∨ descriptor.descriptorVersion ≠ 1 ∨
      validFields descriptor = false then
    return .error "invalid ABI-2 descriptor fields"
  let digest ← componentAbi2DescriptorDigest descriptor
  return .ok { descriptor with descriptorDigest := digest }

def verify (descriptor : Descriptor) : Checked (Except String Unit) := do
  if descriptor.abiEpoch ≠ 2 ∨ descriptor.descriptorVersion ≠ 1 then
    return .error "unsupported ABI-2 descriptor version"
  if validFields descriptor = false then return .error "invalid ABI-2 descriptor fields"
  let digest ← componentAbi2DescriptorDigest descriptor
  if descriptor.descriptorDigest ≠ digest then return .error "ABI-2 descriptor digest mismatch"
  return .ok ()

/-! ## The codec -/

/-- `ComponentAbi2Descriptor::encode`. -/
def encode (descriptor : Descriptor) : Checked (Except String Bytes) := do
  match ← canonicalize descriptor with
  | .error message => return .error message
  | .ok canonical =>
    let body ← canonicalBody canonical
    if 2 ^ 32 - 1 < body.length then return .error "ABI-2 descriptor exceeds its size budget"
    let total ← sizeAdd headerSize body.length
    if maxDescriptorBytes < total then return .error "ABI-2 descriptor exceeds its size budget"
    let size ← narrow body.length
    return .ok (magic ++ appendU16 1 ++ appendU16 0 ++ appendU32 size ++
      canonical.descriptorDigest.bytes ++ body)

def readU8 : Read UInt8 := do
  let value ← readWord 1
  return UInt8.ofNat value

def readU16 : Read UInt16 := do
  let value ← readWord 2
  return UInt16.ofNat value

def readU32 : Read UInt32 := do
  let value ← readWord 4
  return UInt32.ofNat value

def readString : Read Bytes := do
  let size ← readU32
  require (decide (size.toNat ≤ maxStringBytes))
  let value ← readBytes size.toNat
  require (plainBytes value)
  return value

/-- An array of zeros that bytes are copied to. -/
def fingerprintOf (bytes : Bytes) : StableFingerprint :=
  ⟨(bytes ++ List.replicate 32 0).take 32, by
    rw [List.length_take, List.length_append, List.length_replicate]
    omega⟩

def readFingerprint : Read StableFingerprint := do
  let bytes ← readBytes 32
  return fingerprintOf bytes

/-- The version, the flags, the length of the body and the digest. -/
def readHeader : Read (UInt16 × UInt16 × UInt32 × StableFingerprint) := do
  let version ← readU16
  let flags ← readU16
  let bodySize ← readU32
  let digest ← readFingerprint
  return (version, flags, bodySize, digest)

def readBody : Read Descriptor := do
  let abiEpoch ← readU32
  let descriptorVersion ← readU16
  let operation ← readU8
  let cardinality ← readU8
  let lease ← readU8
  let ownership ← readU8
  let component ← readString
  let entity ← readString
  let resource ← readString
  let payload ← readFingerprint
  let layout ← readFingerprint
  let lifecycle ← readFingerprint
  let contract ← readFingerprint
  let runtimeAbi ← readFingerprint
  atEnd
  return {
    abiEpoch := abiEpoch
    descriptorVersion := descriptorVersion
    operationKind := operation
    terminalCardinality := cardinality
    leasePolicy := lease
    ownershipFlags := ownership
    componentIdentity := component
    entityIdentity := entity
    resourceIdentity := resource
    payloadTypeDigest := payload
    layoutDigest := layout
    lifecycleDigest := lifecycle
    contractDigest := contract
    runtimeAbiDigest := runtimeAbi }

/-- What a decoder returns. -/
abbrev Decoded := Except (DescriptorError × String) Descriptor

def fail (error : DescriptorError) : Decoded := .error (error, error.text)

/-- A descriptor whose body was read, with the digest of the header. -/
def checkDecoded (result : Descriptor) : Checked Decoded := do
  if result.abiEpoch ≠ 2 then return fail .abiMismatch
  match ← verify result with
  | .error message =>
    return .error (if "digest".toList <:+: message.toList then .digestMismatch else .nonCanonical,
      message)
  | .ok () => return .ok result

/-- The body behind a header that was read. -/
def decodeBody (bytes : Bytes) (bodySize : UInt32) (digest : StableFingerprint) :
    Checked Decoded := do
  let limit ← sizeSub maxDescriptorBytes headerSize
  let total ← sizeAdd headerSize bodySize.toNat
  if limit < bodySize.toNat ∨ bytes.length ≠ total then
    return fail (if bytes.length < total then .truncated else .nonCanonical)
  let body ← slice bytes headerSize bodySize.toNat
  match ← (readBody ⟨body, 0⟩).run with
  | none => return fail .invalidField
  | some (result, _) => checkDecoded { result with descriptorDigest := digest }

/-- `ComponentAbi2Descriptor::decode`. -/
def decode (bytes : Bytes) : Checked Decoded := do
  if maxDescriptorBytes < bytes.length then return fail .sizeOverflow
  if bytes.length < magic.length then return fail .invalidMagic
  let first ← slice bytes 0 magic.length
  if first ≠ magic then return fail .invalidMagic
  let rest ← sliceFrom bytes magic.length
  match ← (readHeader ⟨rest, 0⟩).run with
  | none => return fail .truncated
  | some ((version, flags, bodySize, digest), _) =>
    if version ≠ 1 then return fail .unsupportedVersion
    if flags ≠ 0 then return fail .invalidField
    decodeBody bytes bodySize digest

end ComponentAbi2

end Chtholly
