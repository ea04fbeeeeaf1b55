import Chtholly.ComponentAbi2.Encoding

/-!
# Artifacts of descriptors

An artifact is an envelope around the bytes of a descriptor, with the digest of the descriptor a
second time.

## Main definitions

* `ComponentAbi2.encodeComponentAbi2Artifact`, `ComponentAbi2.decodeComponentAbi2Artifact` — the
  codec of artifacts.
* `ComponentAbi2.Descriptor.artifact` — the bytes of an artifact.

## Main results

* `ComponentAbi2.encodeArtifact_eq`, `ComponentAbi2.decodeArtifact_ok` — which descriptors are written
  and which bytes are read.
-/

set_option autoImplicit false

namespace Chtholly

namespace ComponentAbi2

open Codec
open Registry (Bytes Text)
open Incremental (StableFingerprint)

def artifactMagic : Bytes := Text.bytes "CHNXA2R".toList

def artifactHeaderSize : ℕ := 7 + 2 + 4 + 32

def artifactMaxBytes : ℕ := 1024 * 1024

/-- An encoding is empty only when it failed. -/
def encodeComponentAbi2Artifact (descriptor : Descriptor) : Checked (Except String Bytes) := do
  match ← encode descriptor with
  | .error message => return .error message
  | .ok encoded =>
    let limit ← sizeSub artifactMaxBytes artifactHeaderSize
    if limit < encoded.length then return .error "ABI-2 artifact exceeds its size budget"
    let size ← narrow encoded.length
    let digest ← componentAbi2DescriptorDigest descriptor
    return .ok (artifactMagic ++ [1, 0] ++ appendU32 size ++ digest.bytes ++ encoded)

/-- The descriptor in an envelope whose version and size were checked. -/
def decodeEnvelope (bytes : Bytes) : Checked Decoded := do
  let rest ← sliceFrom bytes artifactHeaderSize
  match ← decode rest with
  | .error error => return .error error
  | .ok descriptor =>
    let digest ← slice bytes 13 32
    if digest ≠ descriptor.descriptorDigest.bytes then
      return .error (.digestMismatch, "ABI-2 artifact envelope digest mismatch")
    return .ok descriptor

/-- An envelope whose header is complete. -/
def decodeHeader (bytes : Bytes) : Checked Decoded := do
  let low ← byteAt bytes 7
  let high ← byteAt bytes 8
  if low ≠ 1 ∨ high ≠ 0 then
    return .error (.unsupportedVersion, "unsupported ABI-2 artifact version")
  let size ← wordAt bytes 9 4
  let limit ← sizeSub artifactMaxBytes artifactHeaderSize
  if limit < size then
    return .error (.sizeOverflow, "ABI-2 artifact descriptor size exceeds its budget")
  let total ← sizeAdd artifactHeaderSize size
  if bytes.length < total then return .error (.truncated, "truncated ABI-2 artifact descriptor")
  if bytes.length ≠ total then return .error (.nonCanonical, "trailing bytes in ABI-2 artifact")
  decodeEnvelope bytes

def decodeComponentAbi2Artifact (bytes : Bytes) : Checked Decoded := do
  if artifactMaxBytes < bytes.length then
    return .error (.sizeOverflow, "ABI-2 artifact exceeds its size budget")
  if bytes.length < artifactMagic.length then
    return .error (.truncated, "truncated ABI-2 artifact magic")
  let first ← slice bytes 0 artifactMagic.length
  if first ≠ artifactMagic then return .error (.invalidMagic, "invalid ABI-2 artifact magic")
  if bytes.length < artifactHeaderSize then
    return .error (.truncated, "truncated ABI-2 artifact envelope")
  decodeHeader bytes

/-! ## The bytes of an artifact -/

/-- The parts of an artifact. -/
def envelope (low high : UInt8) (size digest rest : Bytes) : Bytes :=
  artifactMagic ++ (low :: high :: (size ++ (digest ++ rest)))

def Descriptor.artifact (descriptor : Descriptor) : Bytes :=
  envelope 1 0 (appendU32 (UInt32.ofNat descriptor.encoded.length)) descriptor.descriptorDigest.bytes
    descriptor.encoded

lemma length_artifactMagic : artifactMagic.length = 7 := by decide

lemma length_encoded (descriptor : Descriptor) :
    descriptor.encoded.length = headerSize + descriptor.body.length := by
  simp only [Descriptor.encoded, List.length_append, length_magic, length_headerBytes, headerSize]

lemma Descriptor.Sized.length_encoded_lt {descriptor : Descriptor} (h : descriptor.Sized) :
    descriptor.encoded.length < 300000 := by
  have hbody := h.length_body_lt
  rw [length_encoded, headerSize]
  omega

/-- Every valid descriptor is written, and no other one. -/
theorem encodeArtifact_eq (descriptor : Descriptor) :
    descriptor.Valid ∧
        encodeComponentAbi2Artifact descriptor = .ok (.ok descriptor.canonical.artifact) ∨
      ¬ descriptor.Valid ∧
        ∃ message, encodeComponentAbi2Artifact descriptor = .ok (.error message) := by
  unfold encodeComponentAbi2Artifact
  obtain ⟨hvalid, hencode⟩ | ⟨hvalid, message, hencode⟩ := encode_eq descriptor
  · left
    have hsized := sized_of_validFields hvalid.fields
    have hlength : descriptor.canonical.encoded.length < 300000 :=
      Descriptor.Sized.length_encoded_lt ⟨hsized.component, hsized.entity, hsized.resource⟩
    have hlimit : ¬ artifactMaxBytes - artifactHeaderSize < descriptor.canonical.encoded.length := by
      simp only [artifactMaxBytes, artifactHeaderSize]
      omega
    have hsub : sizeSub artifactMaxBytes artifactHeaderSize =
        .ok (artifactMaxBytes - artifactHeaderSize) := sizeSub_eq (by decide)
    refine ⟨hvalid, ?_⟩
    simp only [hencode, checked_bind, hsub, if_neg hlimit,
      narrow_eq (hlength.trans (by decide)), hsized.digest_eq, checked_pure, Descriptor.artifact,
      envelope, List.append_assoc, List.cons_append, List.nil_append]
    rfl
  · right
    rw [hencode]
    exact ⟨hvalid, message, rfl⟩

/-- Bytes that are long enough have the parts of an artifact. -/
lemma exists_envelope {bytes : Bytes} (hlength : artifactHeaderSize ≤ bytes.length)
    (hmagic : bytes.take artifactMagic.length = artifactMagic) :
    ∃ low high size digest rest, bytes = envelope low high size digest rest ∧ size.length = 4 ∧
      digest.length = 32 := by
  simp only [artifactHeaderSize] at hlength
  have hfront : (bytes.drop artifactMagic.length).length = bytes.length - 7 := by
    rw [List.length_drop, length_artifactMagic]
  obtain ⟨low, tail, htail⟩ := List.exists_cons_of_length_pos
    (show 0 < (bytes.drop artifactMagic.length).length by omega)
  rw [htail, List.length_cons] at hfront
  obtain ⟨high, tail', rfl⟩ := List.exists_cons_of_length_pos (show 0 < tail.length by omega)
  rw [List.length_cons] at hfront
  refine ⟨low, high, tail'.take 4, (tail'.drop 4).take 32, (tail'.drop 4).drop 32, ?_, ?_, ?_⟩
  · rw [envelope, List.take_append_drop, List.take_append_drop, ← htail]
    calc bytes = bytes.take artifactMagic.length ++ bytes.drop artifactMagic.length :=
          (List.take_append_drop _ _).symm
      _ = artifactMagic ++ bytes.drop artifactMagic.length := congrArg (· ++ _) hmagic
  · rw [List.length_take]
    omega
  · rw [List.length_take, List.length_drop]
    omega

section Envelope

variable {low high : UInt8} {size digest rest : Bytes}

lemma byteAt_envelope : byteAt (envelope low high size digest rest) 7 = .ok low ∧
    byteAt (envelope low high size digest rest) 8 = .ok high := by
  have hdrop : (envelope low high size digest rest).drop 7 =
      low :: high :: (size ++ (digest ++ rest)) := List.drop_left' length_artifactMagic
  have hnext : (envelope low high size digest rest).drop 8 = high :: (size ++ (digest ++ rest)) := by
    calc (envelope low high size digest rest).drop 8
        = ((envelope low high size digest rest).drop 7).drop 1 := by rw [List.drop_drop]
      _ = high :: (size ++ (digest ++ rest)) := by rw [hdrop]; rfl
  exact ⟨byteAt_eq hdrop, byteAt_eq hnext⟩

variable (hsize : size.length = 4) (hdigest : digest.length = 32)

include hsize hdigest

lemma length_envelope :
    (envelope low high size digest rest).length = artifactHeaderSize + rest.length := by
  simp only [envelope, List.length_append, List.length_cons, length_artifactMagic, hsize, hdigest,
    artifactHeaderSize]
  omega

lemma envelope_eq_artifact_iff {descriptor : Descriptor} (hsized : descriptor.Sized) :
    envelope low high size digest rest = descriptor.artifact ↔
      low = 1 ∧ high = 0 ∧ ofLittleEndian size = rest.length ∧
        digest = descriptor.descriptorDigest.bytes ∧ rest = descriptor.encoded := by
  have hbound := hsized.length_encoded_lt
  have hnumber : appendU32 (UInt32.ofNat descriptor.encoded.length) =
      littleEndian 4 descriptor.encoded.length := by
    rw [appendU32, UInt32.toNat_ofNat_of_lt' (hbound.trans (by decide))]
  constructor
  · intro h
    have hparts := List.append_cancel_left h
    rw [List.cons.injEq, List.cons.injEq] at hparts
    obtain ⟨hlow, hhigh, hparts⟩ := hparts
    obtain ⟨hword, hbehind⟩ := List.append_inj hparts (hsize.trans (length_appendU32 _).symm)
    obtain ⟨hdigests, hrests⟩ :=
      List.append_inj hbehind (hdigest.trans descriptor.descriptorDigest.size.symm)
    refine ⟨hlow, hhigh, ?_, hdigests, hrests⟩
    rw [hword, hrests]
    rw [hnumber, ofLittleEndian_littleEndian]
    exact Nat.mod_eq_of_lt (hbound.trans (by decide))
  · rintro ⟨rfl, rfl, hlength, rfl, rfl⟩
    have hword : size = appendU32 (UInt32.ofNat descriptor.encoded.length) := by
      rw [hnumber, ← hlength, ← hsize, littleEndian_ofLittleEndian]
    rw [hword]
    rfl

lemma drop_envelope : (envelope low high size digest rest).drop 9 = size ++ (digest ++ rest) ∧
    (envelope low high size digest rest).drop 13 = digest ++ rest ∧
    (envelope low high size digest rest).drop artifactHeaderSize = rest := by
  have hword : (envelope low high size digest rest).drop 9 = size ++ (digest ++ rest) := by
    have hsplit : envelope low high size digest rest =
        (artifactMagic ++ [low, high]) ++ (size ++ (digest ++ rest)) := by
      rw [envelope, List.append_assoc]
      rfl
    rw [hsplit]
    exact List.drop_left' (by rw [List.length_append, length_artifactMagic]; rfl)
  have hrest : (envelope low high size digest rest).drop 13 = digest ++ rest := by
    calc (envelope low high size digest rest).drop 13
        = ((envelope low high size digest rest).drop 9).drop 4 := by rw [List.drop_drop]
      _ = digest ++ rest := by rw [hword, List.drop_left' hsize]
  refine ⟨hword, hrest, ?_⟩
  calc (envelope low high size digest rest).drop artifactHeaderSize
      = ((envelope low high size digest rest).drop 13).drop 32 := by rw [List.drop_drop]; rfl
    _ = rest := by rw [hrest, List.drop_left' hdigest]

end Envelope

/-! ## Reading artifacts -/

lemma length_artifact (descriptor : Descriptor) :
    descriptor.artifact.length = artifactHeaderSize + descriptor.encoded.length :=
  length_envelope (length_appendU32 _) descriptor.descriptorDigest.size

lemma decodeEnvelope_ok {low high : UInt8} {size digest rest : Bytes} (hsize : size.length = 4)
    (hdigest : digest.length = 32) :
    ∃ result, decodeEnvelope (envelope low high size digest rest) = .ok result ∧
      ∀ decoded, result = .ok decoded ↔ (decoded.Verified ∧ rest = decoded.encoded) ∧
        digest = decoded.descriptorDigest.bytes := by
  have hlength := @length_envelope low high size digest rest hsize hdigest
  obtain ⟨-, hdrop, hrest⟩ := @drop_envelope low high size digest rest hsize hdigest
  have hslice : slice (envelope low high size digest rest) 13 32 = .ok digest := by
    rw [slice_eq (by rw [hlength, artifactHeaderSize]; omega), hdrop, List.take_left' hdigest]
  obtain ⟨result, hdecode, hiff⟩ := decode_ok rest
  unfold decodeEnvelope
  rw [sliceFrom_eq (by rw [hlength]; omega), checked_bind, hrest, hdecode, checked_bind]
  cases result with
  | error error =>
    refine ⟨_, rfl, fun decoded => iff_of_false nofun fun h => ?_⟩
    exact absurd ((hiff decoded).2 h.1) nofun
  | ok descriptor =>
    simp only [hslice, checked_bind]
    by_cases hsame : digest = descriptor.descriptorDigest.bytes
    · rw [if_neg (not_not.2 hsame)]
      refine ⟨_, rfl, fun decoded => ?_⟩
      constructor
      · intro h
        have hdecoded : (Except.ok descriptor : Decoded) = .ok decoded := h
        cases hdecoded
        exact ⟨(hiff _).1 rfl, hsame⟩
      · exact fun h => (hiff decoded).2 h.1
    · rw [if_pos hsame]
      refine ⟨_, rfl, fun decoded => iff_of_false nofun fun h => hsame ?_⟩
      have hdecoded := (hiff decoded).2 h.1
      cases hdecoded
      exact h.2

lemma decodeHeader_ok {low high : UInt8} {size digest rest : Bytes} (hsize : size.length = 4)
    (hdigest : digest.length = 32)
    (hlarge : (envelope low high size digest rest).length ≤ artifactMaxBytes) :
    ∃ result, decodeHeader (envelope low high size digest rest) = .ok result ∧
      ∀ decoded, result = .ok decoded ↔ decoded.Verified ∧
        envelope low high size digest rest = decoded.artifact := by
  have hlength := @length_envelope low high size digest rest hsize hdigest
  obtain ⟨hlow, hhigh⟩ := @byteAt_envelope low high size digest rest
  have hparts : ∀ {decoded : Descriptor}, decoded.Verified →
      envelope low high size digest rest = decoded.artifact → low = 1 ∧ high = 0 ∧
        ofLittleEndian size = rest.length ∧ digest = decoded.descriptorDigest.bytes ∧
        rest = decoded.encoded := fun hverified =>
    (envelope_eq_artifact_iff hsize hdigest (sized_of_validFields hverified.fields)).1
  have hword : wordAt (envelope low high size digest rest) 9 4 = .ok (ofLittleEndian size) := by
    obtain ⟨hdrop, -, -⟩ := @drop_envelope low high size digest rest hsize hdigest
    simp only [artifactMaxBytes] at hlarge
    rw [wordAt_eq (by omega) (by rw [hlength, artifactHeaderSize]; omega), hdrop,
      List.take_left' hsize]
  have hsub : sizeSub artifactMaxBytes artifactHeaderSize =
      .ok (artifactMaxBytes - artifactHeaderSize) := sizeSub_eq (by decide)
  unfold decodeHeader
  simp only [hlow, hhigh, hword, hsub, checked_bind]
  by_cases hversion : low ≠ 1 ∨ high ≠ 0
  · rw [if_pos hversion]
    refine ⟨_, rfl, fun decoded => iff_of_false nofun fun h => ?_⟩
    obtain ⟨hone, hzero, -⟩ := hparts h.1 h.2
    exact hversion.elim (fun hne => hne hone) fun hne => hne hzero
  rw [if_neg hversion]
  rw [not_or, not_not, not_not] at hversion
  by_cases hbudget : artifactMaxBytes - artifactHeaderSize < ofLittleEndian size
  · rw [if_pos hbudget]
    refine ⟨_, rfl, fun decoded => iff_of_false nofun fun h => ?_⟩
    obtain ⟨-, -, hrest, -⟩ := hparts h.1 h.2
    omega
  have hadd : sizeAdd artifactHeaderSize (ofLittleEndian size) =
      .ok (artifactHeaderSize + ofLittleEndian size) := by
    refine sizeAdd_eq ?_
    simp only [artifactMaxBytes, artifactHeaderSize] at hbudget ⊢
    omega
  rw [if_neg hbudget, hadd, checked_bind]
  by_cases htruncated : (envelope low high size digest rest).length <
      artifactHeaderSize + ofLittleEndian size
  · rw [if_pos htruncated]
    refine ⟨_, rfl, fun decoded => iff_of_false nofun fun h => ?_⟩
    obtain ⟨-, -, hrest, -⟩ := hparts h.1 h.2
    omega
  rw [if_neg htruncated]
  by_cases hexact : (envelope low high size digest rest).length =
      artifactHeaderSize + ofLittleEndian size
  · obtain ⟨result, hresult, hiff⟩ :=
      @decodeEnvelope_ok low high size digest rest hsize hdigest
    rw [if_neg (not_not.2 hexact)]
    refine ⟨result, hresult, fun decoded => (hiff decoded).trans ⟨?_, ?_⟩⟩
    · rintro ⟨⟨hverified, hrest⟩, hdigests⟩
      refine ⟨hverified, ?_⟩
      rw [envelope_eq_artifact_iff hsize hdigest (sized_of_validFields hverified.fields)]
      exact ⟨hversion.1, hversion.2, by omega, hdigests, hrest⟩
    · rintro ⟨hverified, hbytes⟩
      obtain ⟨-, -, -, hdigests, hrest⟩ := hparts hverified hbytes
      exact ⟨⟨hverified, hrest⟩, hdigests⟩
  · rw [if_pos hexact]
    refine ⟨_, rfl, fun decoded => iff_of_false nofun fun h => ?_⟩
    obtain ⟨-, -, hrest, -⟩ := hparts h.1 h.2
    omega

/-- The artifacts of verified descriptors are accepted, and no other bytes; no size wraps and no access
is outside of the bytes. -/
theorem decodeArtifact_ok (bytes : Bytes) :
    ∃ result, decodeComponentAbi2Artifact bytes = .ok result ∧
      ∀ decoded, result = .ok decoded ↔ decoded.Verified ∧ bytes = decoded.artifact := by
  have hartifact : ∀ {decoded : Descriptor}, decoded.Verified → bytes = decoded.artifact →
      artifactHeaderSize ≤ bytes.length ∧ bytes.length ≤ artifactMaxBytes ∧
        bytes.take artifactMagic.length = artifactMagic := by
    rintro decoded hverified rfl
    have hbound := (sized_of_validFields hverified.fields).length_encoded_lt
    rw [length_artifact]
    refine ⟨Nat.le_add_right _ _, ?_, List.take_left' rfl⟩
    simp only [artifactHeaderSize, artifactMaxBytes]
    omega
  unfold decodeComponentAbi2Artifact
  by_cases hlarge : artifactMaxBytes < bytes.length
  · refine ⟨_, if_pos hlarge, fun decoded => iff_of_false nofun fun h => ?_⟩
    exact absurd (hartifact h.1 h.2).2.1 (Nat.not_le.2 hlarge)
  rw [if_neg hlarge]
  by_cases hshort : bytes.length < artifactMagic.length
  · rw [if_pos hshort]
    refine ⟨_, rfl, fun decoded => iff_of_false nofun fun h => ?_⟩
    have hlength := (hartifact h.1 h.2).1
    rw [length_artifactMagic] at hshort
    simp only [artifactHeaderSize] at hlength
    omega
  rw [if_neg hshort, slice_eq (by omega), checked_bind, List.drop_zero]
  by_cases hmagic : bytes.take artifactMagic.length = artifactMagic
  swap
  · rw [if_pos hmagic]
    exact ⟨_, rfl, fun decoded => iff_of_false nofun fun h => hmagic (hartifact h.1 h.2).2.2⟩
  rw [if_neg (not_not.2 hmagic)]
  by_cases hheader : bytes.length < artifactHeaderSize
  · rw [if_pos hheader]
    refine ⟨_, rfl, fun decoded => iff_of_false nofun fun h => ?_⟩
    exact absurd (hartifact h.1 h.2).1 (Nat.not_le.2 hheader)
  rw [if_neg hheader]
  obtain ⟨low, high, size, digest, rest, rfl, hsize, hdigest⟩ :=
    exists_envelope (Nat.le_of_not_lt hheader) hmagic
  exact decodeHeader_ok hsize hdigest (Nat.le_of_not_lt hlarge)

end ComponentAbi2

end Chtholly
