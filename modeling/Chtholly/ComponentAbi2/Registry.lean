import Chtholly.ComponentAbi2.Artifact

/-!
# The registry of descriptors

The registry of a session holds verified descriptors under their identity and digest, with the number
of their leases.  A component has at most one descriptor in it, over any sequence of operations.

## Main definitions

* `ComponentAbi2.DescriptorRegistry` — the entries, in the order of their insertion.
* `ComponentAbi2.RegistryCall`, `ComponentAbi2.run` — the operations, one after the other.

## Main results

* `ComponentAbi2.run_single` — a component has one descriptor at most.
* `ComponentAbi2.artifacts_exact` — the codec of artifacts is exact, and the registry is right.
-/

set_option autoImplicit false

namespace Chtholly

namespace ComponentAbi2

open Codec
open Registry (Bytes Text)
open Incremental (StableFingerprint)

inductive RegistryResult
  | inserted
  | alreadyRegistered
  | retained
  | released
  | erased
  | conflict
  | invalid
  | notFound
  | busy
  deriving DecidableEq

/-- `ComponentAbi2DescriptorRegistry::Entry`, with its key. -/
structure Entry where
  key : Bytes
  descriptor : Descriptor
  activeLeases : UInt32 := 0

/-- `ComponentAbi2DescriptorRegistry`: the order of the entries plays no part. -/
abbrev DescriptorRegistry := List Entry

/-- The identity, a zero byte and the digest. -/
def key (identity : Bytes) (digest : StableFingerprint) : Bytes :=
  identity ++ 0 :: Text.bytes digest.hex

namespace DescriptorRegistry

def find (registry : DescriptorRegistry) (key : Bytes) : Option Entry :=
  List.find? (fun entry => entry.key == key) registry

def registerDescriptor (registry : DescriptorRegistry) (descriptor : Descriptor) :
    Checked (RegistryResult × DescriptorRegistry) := do
  match ← verify descriptor with
  | .error _ => return (.invalid, registry)
  | .ok () =>
    let descriptorKey := key descriptor.componentIdentity descriptor.descriptorDigest
    if (registry.find descriptorKey).isSome then return (.alreadyRegistered, registry)
    if List.any registry fun entry =>
        entry.descriptor.componentIdentity == descriptor.componentIdentity then
      return (.conflict, registry)
    return (.inserted, registry ++ [⟨descriptorKey, descriptor, 0⟩])

/-- What a decoder found, if it found something. -/
def registerDecoded (registry : DescriptorRegistry) (decoded : Decoded) :
    Checked (RegistryResult × DescriptorRegistry) :=
  match decoded with
  | .error _ => .ok (.invalid, registry)
  | .ok descriptor => registry.registerDescriptor descriptor

/-- `registerDescriptor` of bytes. -/
def registerBytes (registry : DescriptorRegistry) (bytes : Bytes) :
    Checked (RegistryResult × DescriptorRegistry) := do
  let decoded ← decode bytes
  registry.registerDecoded decoded

/-- `replayArtifactFile`, with what could be read of the file. -/
def replayArtifactFile (registry : DescriptorRegistry) (file : Option Bytes) :
    Checked (RegistryResult × DescriptorRegistry) := do
  match file with
  | none => return (.invalid, registry)
  | some bytes =>
    let decoded ← decodeComponentAbi2Artifact bytes
    registry.registerDecoded decoded

def lookup (registry : DescriptorRegistry) (identity : Bytes) (digest : StableFingerprint) :
    Option Descriptor :=
  (registry.find (key identity digest)).map Entry.descriptor

/-- The entry of a key with another number of leases. -/
def setLeases (registry : DescriptorRegistry) (key : Bytes) (leases : UInt32) :
    DescriptorRegistry :=
  List.map (fun entry => if entry.key = key then { entry with activeLeases := leases } else entry)
    registry

def retainLease (registry : DescriptorRegistry) (identity : Bytes) (digest : StableFingerprint) :
    RegistryResult × DescriptorRegistry :=
  match registry.find (key identity digest) with
  | none => (.notFound, registry)
  | some entry =>
    if entry.activeLeases.toNat = 2 ^ 32 - 1 then (.busy, registry)
    else (.retained, registry.setLeases (key identity digest) (entry.activeLeases + 1))

def releaseLease (registry : DescriptorRegistry) (identity : Bytes) (digest : StableFingerprint) :
    RegistryResult × DescriptorRegistry :=
  match registry.find (key identity digest) with
  | none => (.notFound, registry)
  | some entry =>
    if entry.activeLeases = 0 then (.invalid, registry)
    else (.released, registry.setLeases (key identity digest) (entry.activeLeases - 1))

def erase (registry : DescriptorRegistry) (identity : Bytes) (digest : StableFingerprint) :
    RegistryResult × DescriptorRegistry :=
  match registry.find (key identity digest) with
  | none => (.notFound, registry)
  | some entry =>
    if entry.activeLeases ≠ 0 then (.busy, registry)
    else (.erased, List.filter (fun other => other.key != key identity digest) registry)

end DescriptorRegistry

/-! ## Runs -/

inductive RegistryCall
  | register (descriptor : Descriptor)
  | registerBytes (bytes : Bytes)
  | replay (file : Option Bytes)
  | retain (identity : Bytes) (digest : StableFingerprint)
  | release (identity : Bytes) (digest : StableFingerprint)
  | erase (identity : Bytes) (digest : StableFingerprint)
  | clear

def call (registry : DescriptorRegistry) : RegistryCall → Checked (RegistryResult × DescriptorRegistry)
  | .register descriptor => registry.registerDescriptor descriptor
  | .registerBytes bytes => registry.registerBytes bytes
  | .replay file => registry.replayArtifactFile file
  | .retain identity digest => .ok (registry.retainLease identity digest)
  | .release identity digest => .ok (registry.releaseLease identity digest)
  | .erase identity digest => .ok (registry.erase identity digest)
  | .clear => .ok (.erased, [])

def run (registry : DescriptorRegistry) : List RegistryCall → Checked DescriptorRegistry
  | [] => .ok registry
  | first :: rest => do
    let (_, registry) ← call registry first
    run registry rest

/-! ## One descriptor of a component -/

/-- The components of the entries. -/
def DescriptorRegistry.identities (registry : DescriptorRegistry) : List Bytes :=
  List.map (fun entry => entry.descriptor.componentIdentity) registry

/-- The entries are verified, stand under their keys and are of different components. -/
structure DescriptorRegistry.Single (registry : DescriptorRegistry) : Prop where
  nodup : registry.identities.Nodup
  entries : ∀ entry ∈ registry, entry.descriptor.Verified ∧
    entry.key = key entry.descriptor.componentIdentity entry.descriptor.descriptorDigest

namespace DescriptorRegistry

variable {registry : DescriptorRegistry}

lemma single_nil : Single [] :=
  ⟨List.nodup_nil, fun _ h => absurd h List.not_mem_nil⟩

lemma Single.registerDescriptor (h : registry.Single) (descriptor : Descriptor) :
    ∃ result, registry.registerDescriptor descriptor = .ok result ∧ result.2.Single := by
  obtain ⟨verified, hverify, hiff⟩ := verify_eq descriptor
  unfold DescriptorRegistry.registerDescriptor
  rw [hverify, checked_bind]
  cases verified with
  | error message => exact ⟨_, rfl, h⟩
  | ok =>
    by_cases hfound : (registry.find (key descriptor.componentIdentity
        descriptor.descriptorDigest)).isSome = true
    · exact ⟨(.alreadyRegistered, registry), if_pos hfound, h⟩
    by_cases hconflict : List.any registry (fun entry =>
        entry.descriptor.componentIdentity == descriptor.componentIdentity) = true
    · refine ⟨(.conflict, registry), ?_, h⟩
      dsimp only
      rw [if_neg hfound, if_pos hconflict]
      rfl
    · refine ⟨(.inserted, registry ++ [⟨key descriptor.componentIdentity
        descriptor.descriptorDigest, descriptor, 0⟩]), ?_, ?_⟩
      · dsimp only
        rw [if_neg hfound, if_neg hconflict]
        rfl
      · constructor
        · rw [identities, List.map_append, List.nodup_append]
          refine ⟨h.nodup, List.nodup_singleton _, ?_⟩
          intro identity hidentity other hother
          rw [List.map_singleton, List.mem_singleton] at hother
          obtain ⟨entry, hentry, rfl⟩ := List.mem_map.1 hidentity
          rintro rfl
          refine hconflict (List.any_eq_true.2 ⟨entry, hentry, ?_⟩)
          rw [hother, beq_self_eq_true]
        · refine List.forall_mem_append.2 ⟨h.entries, ?_⟩
          rw [List.forall_mem_singleton]
          exact ⟨hiff.1 rfl, rfl⟩

lemma Single.registerDecoded (h : registry.Single) (decoded : Decoded) :
    ∃ result, registry.registerDecoded decoded = .ok result ∧ result.2.Single := by
  cases decoded with
  | error error => exact ⟨_, rfl, h⟩
  | ok descriptor => exact h.registerDescriptor descriptor

lemma Single.setLeases (h : registry.Single) (key : Bytes) (leases : UInt32) :
    (registry.setLeases key leases).Single := by
  have hsame : (registry.setLeases key leases).identities = registry.identities := by
    rw [identities, DescriptorRegistry.setLeases, List.map_map]
    apply List.map_congr_left
    intro entry _
    dsimp only [Function.comp_apply]
    split
    · rfl
    · rfl
  refine ⟨hsame ▸ h.nodup, ?_⟩
  intro entry hentry
  obtain ⟨before, hbefore, rfl⟩ := List.mem_map.1 hentry
  have hentries := h.entries before hbefore
  split
  · exact hentries
  · exact hentries

lemma Single.filter (h : registry.Single) (keep : Entry → Bool) :
    Single (List.filter keep registry) :=
  ⟨h.nodup.sublist (List.filter_sublist.map _),
    fun entry hentry => h.entries entry (List.mem_filter.1 hentry).1⟩

/-- What a call preserves. -/
lemma Single.call (h : registry.Single) (operation : RegistryCall) :
    ∃ result, ComponentAbi2.call registry operation = .ok result ∧ result.2.Single := by
  cases operation with
  | register descriptor => exact h.registerDescriptor descriptor
  | registerBytes bytes =>
    obtain ⟨decoded, hdecode, -⟩ := decode_ok bytes
    rw [ComponentAbi2.call, DescriptorRegistry.registerBytes, hdecode, checked_bind]
    exact h.registerDecoded decoded
  | replay file =>
    cases file with
    | none => exact ⟨_, rfl, h⟩
    | some bytes =>
      obtain ⟨decoded, hdecode, -⟩ := decodeArtifact_ok bytes
      rw [ComponentAbi2.call, DescriptorRegistry.replayArtifactFile, hdecode, checked_bind]
      exact h.registerDecoded decoded
  | retain identity digest =>
    refine ⟨_, rfl, ?_⟩
    unfold retainLease
    split
    · exact h
    · split
      · exact h
      · exact h.setLeases _ _
  | release identity digest =>
    refine ⟨_, rfl, ?_⟩
    unfold releaseLease
    split
    · exact h
    · split
      · exact h
      · exact h.setLeases _ _
  | erase identity digest =>
    refine ⟨_, rfl, ?_⟩
    unfold erase
    split
    · exact h
    · split
      · exact h
      · exact h.filter _
  | clear => exact ⟨_, rfl, single_nil⟩

/-- What a run preserves. -/
lemma Single.run (h : registry.Single) (operations : List RegistryCall) :
    ∃ result, ComponentAbi2.run registry operations = .ok result ∧ result.Single := by
  induction operations generalizing registry with
  | nil => exact ⟨registry, rfl, h⟩
  | cons first rest ih =>
    obtain ⟨⟨outcome, next⟩, hcall, hnext⟩ := h.call first
    obtain ⟨result, hrun, hresult⟩ := ih hnext
    refine ⟨result, ?_, hresult⟩
    rw [ComponentAbi2.run, hcall, checked_bind]
    exact hrun

end DescriptorRegistry

/-- A component has at most one descriptor in the registry, after any sequence of operations. -/
theorem run_single (operations : List RegistryCall) :
    ∃ registry, run [] operations = .ok registry ∧ registry.Single :=
  DescriptorRegistry.single_nil.run operations

/-! ## The artifacts -/

/-- Artifacts are exact: a descriptor that can be made canonical is written and read back with its
own digest, and what is read is written again; no size wraps and no access is outside of the bytes;
and the registry never has two descriptors of one component. -/
theorem artifacts_exact :
    (∀ descriptor canonical, canonicalize descriptor = .ok (.ok canonical) →
      canonical = descriptor.canonical ∧
      ∃ bytes, encodeComponentAbi2Artifact descriptor = .ok (.ok bytes) ∧
        decodeComponentAbi2Artifact bytes = .ok (.ok canonical)) ∧
    (∀ bytes descriptor, decodeComponentAbi2Artifact bytes = .ok (.ok descriptor) →
      encodeComponentAbi2Artifact descriptor = .ok (.ok bytes)) ∧
    (∀ bytes, ∃ result, decodeComponentAbi2Artifact bytes = .ok result) ∧
    (∀ descriptor, ∃ result, encodeComponentAbi2Artifact descriptor = .ok result) ∧
    ∀ operations, ∃ registry, run [] operations = .ok registry ∧
      registry.identities.Nodup := by
  refine ⟨fun descriptor canonical h => ?_, fun bytes descriptor h => ?_, fun bytes => ?_,
    fun descriptor => ?_, fun operations => ?_⟩
  · obtain ⟨hvalid, hcanonical⟩ | ⟨-, message, hcanonical⟩ := canonicalize_eq descriptor
    · rw [hcanonical] at h
      cases h
      obtain ⟨-, hencode⟩ | ⟨hinvalid, -⟩ := encodeArtifact_eq descriptor
      · refine ⟨rfl, _, hencode, ?_⟩
        obtain ⟨result, hdecode, hiff⟩ := decodeArtifact_ok descriptor.canonical.artifact
        rw [hdecode, (hiff _).2 ⟨hvalid.verified_canonical, rfl⟩]
      · exact absurd hvalid hinvalid
    · rw [hcanonical] at h
      cases h
  · obtain ⟨result, hdecode, hiff⟩ := decodeArtifact_ok bytes
    rw [hdecode] at h
    cases h
    obtain ⟨hverified, hbytes⟩ := (hiff _).1 rfl
    obtain ⟨-, hencode⟩ | ⟨hinvalid, -⟩ := encodeArtifact_eq descriptor
    · rw [hencode, hverified.canonical_eq, hbytes]
    · exact absurd hverified.toValid hinvalid
  · obtain ⟨result, hdecode, -⟩ := decodeArtifact_ok bytes
    exact ⟨result, hdecode⟩
  · obtain ⟨-, hencode⟩ | ⟨-, message, hencode⟩ := encodeArtifact_eq descriptor
    · exact ⟨_, hencode⟩
    · exact ⟨_, hencode⟩
  · obtain ⟨registry, hrun, hsingle⟩ := run_single operations
    exact ⟨registry, hrun, hsingle.nodup⟩

/-- An operation of a component. -/
def readOperation : Descriptor where
  componentIdentity := Text.bytes "component".toList
  entityIdentity := Text.bytes "entity".toList
  resourceIdentity := Text.bytes "resource".toList
  payloadTypeDigest := Incremental.stamp 1
  layoutDigest := Incremental.stamp 2
  lifecycleDigest := Incremental.stamp 3
  contractDigest := Incremental.stamp 4
  runtimeAbiDigest := Incremental.stamp 5

theorem readOperation_exact : validFields readOperation = true ∧
    ∃ bytes, encodeComponentAbi2Artifact readOperation = .ok (.ok bytes) ∧
      decodeComponentAbi2Artifact bytes = .ok (.ok readOperation.canonical) := by
  have hfields : validFields readOperation = true := by decide
  obtain ⟨-, hcanonical⟩ | ⟨hinvalid, -⟩ := canonicalize_eq readOperation
  · exact ⟨hfields, (artifacts_exact.1 readOperation _ hcanonical).2⟩
  · exact absurd ⟨rfl, rfl, hfields⟩ hinvalid

end ComponentAbi2

end Chtholly
