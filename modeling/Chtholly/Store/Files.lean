import Mathlib.Logic.Function.Basic
import Chtholly.Incremental.Verification
import Chtholly.Tracing.Traversal

/-!
# The files of the artifact store

The store keeps every artifact under its fingerprint: manifests of packages, objects, components of
specializations, and the three kinds of nominal artifacts.  A manifest names artifacts of every
kind, and a component names components.

A file is modelled by the artifact whose encoding was written to it.  Of a component the model keeps
the requests of its nodes, the components that it calls and its encoding; of a nominal artifact its
two fingerprints, the witness of a specific and its encoding.  The checks of components and nominal
artifacts belong to other parts of the compiler and are parameters.

## Main definitions

* `Store.Component`, `Store.NominalArtifact` — the artifacts besides manifests and objects.
* `Store.ArtifactName` — the name of an artifact.
* `Store.Files` — the files.
* `Store.Files.edges`, `Store.Files.Holds` — what an artifact names, and that it is there.
-/

set_option autoImplicit false

namespace Chtholly

namespace Store

open Registry (Text Bytes)
open Incremental

/-! ## Artifacts -/

inductive NominalKind
  | specific
  | witness
  | layout
  deriving DecidableEq

/-- `ConcreteSpecializationComponentArtifact`. -/
structure Component where
  requests : List StableFingerprint
  dependencies : List StableFingerprint
  /-- What `encode` writes. -/
  encoded : Bytes
  deriving DecidableEq

/-- `NominalTypeSpecificArtifact`, `NominalSemanticWitnessArtifact` and
`NominalTypeLayoutArtifact`. -/
structure NominalArtifact where
  requestFingerprint : StableFingerprint
  resultFingerprint : StableFingerprint
  /-- The `nominal_semantic_witness` of a specific. -/
  semanticWitness : ArtifactReference := ⟨.zero, .zero⟩
  /-- What `encode` writes. -/
  encoded : Bytes
  deriving DecidableEq

/-- What the store takes from other parts of the compiler, and its directory. -/
structure ArtifactCodec extends Codec where
  verifyComponent : Component → Except String Unit
  verifyNominal : NominalKind → NominalArtifact → Except String Unit
  root : Text

def Component.fingerprint (codec : ArtifactCodec) (component : Component) : StableFingerprint :=
  match codec.verifyComponent component with
  | .ok _ => .fromCanonicalBytes
      (Registry.Text.bytes "chtholly.next.specialization-component.v19".toList ++ component.encoded)
  | .error _ => .zero

/-- The references of a module to nominal artifacts of a kind. -/
def nominalReferences (module : PackageModuleArtifact) : NominalKind → List ArtifactReference
  | .specific => module.nominalTypeSpecifics
  | .witness => module.nominalSemanticWitnesses
  | .layout => module.nominalTypeLayouts

inductive ArtifactName
  | manifest (fingerprint : StableFingerprint)
  | object (fingerprint : StableFingerprint)
  | component (fingerprint : StableFingerprint)
  | nominal (kind : NominalKind) (fingerprint : StableFingerprint)
  deriving DecidableEq

/-- The nominal artifacts that a module names. -/
def nominalNames (module : PackageModuleArtifact) : List ArtifactName :=
  [NominalKind.specific, .witness, .layout].flatMap fun kind =>
    (nominalReferences module kind).map fun reference => .nominal kind reference.resultFingerprint

/-- What a module names. -/
def moduleNames (module : PackageModuleArtifact) : List ArtifactName :=
  .object module.objectFingerprint ::
    module.specializations.map (fun reference => .component reference.resultFingerprint) ++
      nominalNames module

/-- What a manifest names. -/
def manifestNames (manifest : Manifest) : List ArtifactName :=
  manifest.directDependencies.map (fun dependency => .manifest dependency.manifestFingerprint) ++
    manifest.modules.flatMap moduleNames

lemma mem_nominalNames {module : PackageModuleArtifact} {name : ArtifactName} :
    name ∈ nominalNames module ↔ ∃ kind, ∃ reference ∈ nominalReferences module kind,
      name = .nominal kind reference.resultFingerprint := by
  simp only [nominalNames, List.mem_flatMap, List.mem_map, List.mem_cons, List.not_mem_nil,
    or_false]
  constructor
  · rintro ⟨kind, -, reference, hreference, rfl⟩
    exact ⟨kind, reference, hreference, rfl⟩
  · rintro ⟨kind, reference, hreference, rfl⟩
    refine ⟨kind, ?_, reference, hreference, rfl⟩
    cases kind <;> simp

/-! ## Files -/

/-- The files of the store.  Objects are kept by fingerprint and extension. -/
structure Files where
  manifests : StableFingerprint → Option Manifest := fun _ => none
  objects : StableFingerprint → Text → Option Bytes := fun _ _ => none
  components : StableFingerprint → Option Component := fun _ => none
  nominals : NominalKind → StableFingerprint → Option NominalArtifact := fun _ _ => none

/-- `shardedPath`. -/
def shardedPath (root : Text) (directory : String) (fingerprint : StableFingerprint)
    (suffix : String) : String :=
  String.ofList root ++ "/" ++ directory ++ "/" ++ String.ofList (fingerprint.hex.take 2) ++ "/" ++
    String.ofList fingerprint.hex ++ suffix

/-- The message of `readTextFile` for a file that is not there. -/
def openFailure (path : String) : String := "failed to open input file: " ++ path

/-- A manifest that is read, is verified and has the fingerprint of its file. -/
def Files.loadManifest (codec : ArtifactCodec) (files : Files) (fingerprint : StableFingerprint) :
    Except String Manifest :=
  match files.manifests fingerprint with
  | none => .error (openFailure (shardedPath codec.root "manifests" fingerprint ".manifest"))
  | some manifest =>
    match manifest.verify codec.toCodec with
    | .error message => .error message
    | .ok _ =>
      if manifest.fingerprint codec.toCodec = fingerprint then .ok manifest
      else .error "compiler artifact reference points to an invalid manifest"

/-- A component that is read, is verified and has the fingerprint of its file. -/
def Files.loadComponent (codec : ArtifactCodec) (mismatch : String) (files : Files)
    (fingerprint : StableFingerprint) : Except String Component :=
  match files.components fingerprint with
  | none => .error (openFailure (shardedPath codec.root "specializations" fingerprint ".specific"))
  | some component =>
    match codec.verifyComponent component with
    | .error message => .error message
    | .ok _ =>
      if component.fingerprint codec = fingerprint then .ok component else .error mismatch

/-- A nominal artifact that can be read. -/
def Files.readNominal (codec : ArtifactCodec) (files : Files) (kind : NominalKind)
    (fingerprint : StableFingerprint) : Option NominalArtifact :=
  (files.nominals kind fingerprint).filter fun artifact =>
    (codec.verifyNominal kind artifact).toBool

lemma Files.loadManifest_eq_ok {codec : ArtifactCodec} {files : Files}
    {fingerprint : StableFingerprint} {manifest : Manifest}
    (h : files.loadManifest codec fingerprint = .ok manifest) :
    files.manifests fingerprint = some manifest ∧ manifest.verify codec.toCodec = .ok () ∧
      manifest.fingerprint codec.toCodec = fingerprint := by
  unfold Files.loadManifest at h
  split at h
  · simp at h
  · rename_i found hfound
    split at h
    · simp at h
    · rename_i hverify
      split at h
      · rename_i hfingerprint
        obtain rfl := Except.ok.inj h
        exact ⟨hfound, hverify, hfingerprint⟩
      · simp at h

lemma Files.loadComponent_eq_ok {codec : ArtifactCodec} {mismatch : String} {files : Files}
    {fingerprint : StableFingerprint} {component : Component}
    (h : files.loadComponent codec mismatch fingerprint = .ok component) :
    files.components fingerprint = some component ∧
      codec.verifyComponent component = .ok () ∧ component.fingerprint codec = fingerprint := by
  unfold Files.loadComponent at h
  split at h
  · simp at h
  · rename_i found hfound
    split at h
    · simp at h
    · rename_i hverify
      split at h
      · rename_i hfingerprint
        obtain rfl := Except.ok.inj h
        exact ⟨hfound, hverify, hfingerprint⟩
      · simp at h

/-! ## References between files -/

/-- What the artifact of a name names. -/
def Files.edges (files : Files) : ArtifactName → List ArtifactName
  | .manifest fingerprint => ((files.manifests fingerprint).map manifestNames).getD []
  | .component fingerprint =>
    ((files.components fingerprint).map fun component =>
      component.dependencies.map ArtifactName.component).getD []
  | .object _ => []
  | .nominal _ _ => []

/-- The artifact of a name is there, with the content that its fingerprint names. -/
def Files.Holds (codec : ArtifactCodec) (files : Files) : ArtifactName → Prop
  | .manifest fingerprint => ∃ manifest, files.manifests fingerprint = some manifest ∧
      manifest.verify codec.toCodec = .ok () ∧ manifest.fingerprint codec.toCodec = fingerprint
  | .object fingerprint => ∃ extension bytes targetTriple specificFingerprint,
      files.objects fingerprint extension = some bytes ∧ bytes ≠ [] ∧
        fingerprintObject targetTriple bytes specificFingerprint = fingerprint
  | .component fingerprint => ∃ component, files.components fingerprint = some component ∧
      codec.verifyComponent component = .ok () ∧ component.fingerprint codec = fingerprint
  | .nominal kind fingerprint => ∃ artifact, files.nominals kind fingerprint = some artifact ∧
      codec.verifyNominal kind artifact = .ok () ∧ artifact.resultFingerprint = fingerprint

end Store

end Chtholly
