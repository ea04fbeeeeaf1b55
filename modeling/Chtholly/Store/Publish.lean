import Mathlib.Data.List.Sort
import Chtholly.Store.Files

/-!
# Publishing artifacts

A publication carries the manifests of a build with its new artifacts.  It is validated before the
lock of the store is taken: artifacts that it names without carrying them have to be in the store.
Under the lock the reference of the session is compared with the one that the publisher observed,
the closure of the components is followed once more, and the files and the reference are written.

## Main definitions

* `Store.Publication` — what is published.
* `Store.Publication.validate` — the checks before the lock.
* `Store.verifyComponents` — the closure of components, under the lock.
* `Store.Files.performAll` — the writes under the lock.
-/

set_option autoImplicit false

namespace Chtholly

namespace Store

open Registry (Text Bytes)
open Incremental

/-- `CompilerSessionArtifactReference`. -/
structure SessionReference where
  targetTriple : Text
  rootPackage : Text
  rootManifest : StableFingerprint
  deriving DecidableEq

def hasInvalidFieldCharacter (value : Text) : Bool :=
  value.any fun ch => ch == '\t' || ch == '\r' || ch == '\n'

def SessionReference.verify (reference : SessionReference) : Except String Unit :=
  ensure
    (!reference.targetTriple.isEmpty && !reference.rootPackage.isEmpty &&
      !hasInvalidFieldCharacter reference.targetTriple &&
      !hasInvalidFieldCharacter reference.rootPackage && reference.rootManifest.hasValue)
    "compiler session artifact reference has an invalid identity"

/-- `CompilerPublishedObject`. -/
structure PublishedObject where
  fingerprint : StableFingerprint
  specificFingerprint : StableFingerprint
  targetTriple : Text
  extension : Text
  bytes : Bytes
  deriving DecidableEq

/-- The arguments of `publish`. -/
structure Publication where
  rootManifest : Manifest
  manifests : List Manifest
  objects : List PublishedObject := []
  specializations : List Component := []
  nominals : NominalKind → List NominalArtifact := fun _ => []

/-- What the validation leaves for the commit: the manifests by package, the artifacts without
repetitions, and the new reference. -/
structure Prepared where
  manifests : List Manifest
  objects : List PublishedObject
  components : List Component
  nominals : NominalKind → List NominalArtifact
  reference : SessionReference

/-! ## Validation of what is carried -/

def findPackage (manifests : List Manifest) (packageName : Text) : Option Manifest :=
  manifests.find? fun manifest => manifest.packageName == packageName

/-- The loop that fills `by_package`. -/
def checkManifests (codec : ArtifactCodec) : List Manifest → List Manifest → Except String Unit
  | _, [] => .ok ()
  | seen, manifest :: rest => do
    manifest.verify codec.toCodec
    ensure (findPackage seen manifest.packageName).isNone
      "compiler artifact publication contains invalid manifests"
    checkManifests codec (seen ++ [manifest]) rest

/-- A manifest and its direct dependencies, which are published with it. -/
def checkClosure (codec : ArtifactCodec) (manifests : List Manifest) (manifest : Manifest) :
    Except String Unit := do
  let dependencies ← manifest.directDependencies.mapM fun dependency =>
    match findPackage manifests dependency.packageName with
    | none => .error "compiler artifact publication has an incomplete manifest closure"
    | some found => .ok found
  manifest.verifyDependencies codec.toCodec dependencies

/-- A loop that keeps one artifact for each name: a second one of a name has to be the same. -/
def prepareArtifacts {α : Type} [DecidableEq α] (check : α → Except String Unit)
    (name : α → StableFingerprint) (collision : String) (prepared : List α) :
    List α → Except String (List α)
  | [] => .ok prepared
  | artifact :: rest =>
    match check artifact with
    | .error message => .error message
    | .ok _ =>
      match prepared.find? fun found => name found == name artifact with
      | none => prepareArtifacts check name collision (prepared ++ [artifact]) rest
      | some found =>
        if found = artifact then prepareArtifacts check name collision prepared rest
        else .error collision

/-- A component is verified and its fingerprint is not zero; the second failure leaves no
message. -/
def checkComponent (codec : ArtifactCodec) (component : Component) : Except String Unit := do
  codec.verifyComponent component
  ensure (component.fingerprint codec).hasValue ""

def nominalCollision : NominalKind → String
  | .specific => "nominal type specific publication contains a fingerprint collision"
  | .witness => "nominal semantic witness publication contains a fingerprint collision"
  | .layout => "nominal type layout publication contains a fingerprint collision"

def prepareNominals (codec : ArtifactCodec) (publication : Publication) (kind : NominalKind) :
    Except String (List NominalArtifact) :=
  prepareArtifacts (codec.verifyNominal kind) NominalArtifact.resultFingerprint
    (nominalCollision kind) [] (publication.nominals kind)

/-! ## Validation of what is named -/

/-- A prepared component, or one of the store. -/
def findComponent (codec : ArtifactCodec) (files : Files) (components : List Component)
    (fingerprint : StableFingerprint) : Option Component :=
  match components.find? fun component => component.fingerprint codec == fingerprint with
  | some component => some component
  | none => (files.loadComponent codec "" fingerprint).toOption

def checkSpecialization (codec : ArtifactCodec) (files : Files) (components : List Component)
    (reference : ArtifactReference) : Except String Unit :=
  ensure
    ((findComponent codec files components reference.resultFingerprint).any fun component =>
      component.requests.contains reference.requestFingerprint)
    "manifest references an unavailable specialization component"

/-- A prepared artifact of a name. -/
def findNominal (artifacts : List NominalArtifact) (fingerprint : StableFingerprint) :
    Option NominalArtifact :=
  artifacts.find? fun artifact => artifact.resultFingerprint == fingerprint

/-- The artifact is the one that is referred to. -/
def NominalArtifact.answers (artifact : NominalArtifact) (reference : ArtifactReference) : Bool :=
  artifact.requestFingerprint == reference.requestFingerprint &&
    artifact.resultFingerprint == reference.resultFingerprint

/-- The loop over the specifics of a module, whose witnesses the module has to name. -/
def checkSpecific (codec : ArtifactCodec) (files : Files) (artifacts : List NominalArtifact)
    (module : PackageModuleArtifact) (reference : ArtifactReference) : Except String Unit :=
  let found := match findNominal artifacts reference.resultFingerprint with
    | some artifact => some artifact
    | none => files.readNominal codec .specific reference.resultFingerprint
  match found.filter fun artifact => artifact.answers reference with
  | none => .error "manifest references an unavailable nominal type specific"
  | some artifact =>
    ensure (module.nominalSemanticWitnesses.contains artifact.semanticWitness)
      "manifest nominal specific omits its nominal semantic witness"

/-- The loops over the witnesses and the layouts of a module. -/
def checkNominal (codec : ArtifactCodec) (files : Files) (kind : NominalKind)
    (artifacts : List NominalArtifact) (disagrees unavailable : String)
    (reference : ArtifactReference) : Except String Unit :=
  match findNominal artifacts reference.resultFingerprint with
  | some artifact =>
    ensure (artifact.requestFingerprint == reference.requestFingerprint) disagrees
  | none =>
    ensure
      ((files.readNominal codec kind reference.resultFingerprint).any fun artifact =>
        artifact.answers reference)
      unavailable

def checkModule (codec : ArtifactCodec) (files : Files) (components : List Component)
    (nominals : NominalKind → List NominalArtifact) (module : PackageModuleArtifact) :
    Except String Unit := do
  checkAll (checkSpecialization codec files components) module.specializations
  checkAll (checkSpecific codec files (nominals .specific) module) module.nominalTypeSpecifics
  checkAll
    (checkNominal codec files .witness (nominals .witness)
      "manifest nominal semantic witness reference disagrees with publication"
      "manifest references an unavailable nominal semantic witness")
    module.nominalSemanticWitnesses
  checkAll
    (checkNominal codec files .layout (nominals .layout)
      "manifest nominal layout reference disagrees with publication"
      "manifest references an unavailable nominal type layout")
    module.nominalTypeLayouts

def checkObject (expectedTarget : Text) (object : PublishedObject) : Except String Unit :=
  ensure
    (object.fingerprint.hasValue && object.specificFingerprint.hasValue &&
      !object.extension.isEmpty && object.targetTriple == expectedTarget &&
      !object.bytes.isEmpty &&
      fingerprintObject object.targetTriple object.bytes object.specificFingerprint ==
        object.fingerprint)
    "compiler artifact publication contains an invalid object"

/-- The checks of `publish` before the lock is taken, on the files of that moment. -/
def Publication.validate (codec : ArtifactCodec) (files : Files) (expectedTarget : Text)
    (publication : Publication) : Except String Prepared := do
  checkManifests codec [] publication.manifests
  let manifests := publication.manifests.insertionSort fun a b => a.packageName ≤ b.packageName
  checkAll (checkClosure codec manifests) manifests
  let components ← prepareArtifacts (checkComponent codec) (Component.fingerprint codec)
    "specialization publication contains a fingerprint collision" [] publication.specializations
  let specifics ← prepareNominals codec publication .specific
  let witnesses ← prepareNominals codec publication .witness
  let layouts ← prepareNominals codec publication .layout
  let nominals := fun
    | .specific => specifics
    | .witness => witnesses
    | .layout => layouts
  checkAll (fun manifest => checkAll (checkModule codec files components nominals) manifest.modules)
    manifests
  ensure (findPackage manifests publication.rootManifest.packageName == some publication.rootManifest)
    "compiler artifact publication omitted its root manifest"
  checkAll (checkObject expectedTarget) publication.objects
  let reference : SessionReference :=
    ⟨publication.rootManifest.targetTriple, publication.rootManifest.packageName,
      publication.rootManifest.fingerprint codec.toCodec⟩
  reference.verify
  return ⟨manifests, publication.objects, components, nominals, reference⟩

/-! ## The closure of components -/

/-- The component that `verify_component` looks at. -/
def availableComponent (codec : ArtifactCodec) (files : Files) (components : List Component)
    (fingerprint : StableFingerprint) : Except String Component :=
  match components.find? fun component => component.fingerprint codec == fingerprint with
  | some component => .ok component
  | none =>
    files.loadComponent codec "specialization publication closure is unavailable" fingerprint

/-- `verify_component`; the state is `verified_components`. -/
def componentTracer (codec : ArtifactCodec) (files : Files) (components : List Component) :
    Tracing.Tracer StableFingerprint (List StableFingerprint) String where
  settled verified fingerprint := verified.contains fingerprint
  enter verified fingerprint :=
    match availableComponent codec files components fingerprint with
    | .error message => .error message
    | .ok component => .ok (component.dependencies, verified)
  leave verified fingerprint := .ok (fingerprint :: verified)
  cycle := "specialization publication closure contains a component cycle"
  tooDeep := "specialization publication closure is too deep"

/-- The components that the manifests name. -/
def componentReferences (manifests : List Manifest) : List StableFingerprint :=
  manifests.flatMap fun manifest => manifest.modules.flatMap fun module =>
    module.specializations.map ArtifactReference.resultFingerprint

def verifyComponents (codec : ArtifactCodec) (depth : ℕ) (files : Files) (prepared : Prepared) :
    Except String (List StableFingerprint) :=
  (componentReferences prepared.manifests).foldlM
    (Tracing.trace (componentTracer codec files prepared.components) depth []) []

/-! ## Writes -/

/-- A file that the commit writes, unless it is there. -/
inductive Write
  | object (object : PublishedObject)
  | component (component : Component)
  | nominal (kind : NominalKind) (artifact : NominalArtifact)
  | manifest (manifest : Manifest)

/-- The writes of a commit, in their order. -/
def Prepared.writes (prepared : Prepared) : List Write :=
  prepared.objects.map Write.object ++ prepared.components.map Write.component ++
    [NominalKind.specific, .witness, .layout].flatMap
      (fun kind => (prepared.nominals kind).map (Write.nominal kind)) ++
    prepared.manifests.map Write.manifest

namespace Files

/-- The load of an object finds it: it is there, and has the fingerprint. -/
def hasObject (files : Files) (object : PublishedObject) : Bool :=
  (files.objects object.fingerprint object.extension).any fun bytes =>
    !bytes.isEmpty && fingerprintObject object.targetTriple bytes object.specificFingerprint ==
      object.fingerprint

def perform (codec : ArtifactCodec) (files : Files) : Write → Except String Files
  | .object object =>
    if files.hasObject object then .ok files
    else .ok { files with
      objects := Function.update files.objects object.fingerprint
        (Function.update (files.objects object.fingerprint) object.extension
          (some object.bytes)) }
  | .component component =>
    let fingerprint := component.fingerprint codec
    match files.loadComponent codec "" fingerprint with
    | .ok _ => .ok files
    | .error _ => .ok { files with
        components := Function.update files.components fingerprint (some component) }
  | .nominal kind artifact => .ok { files with
      nominals := Function.update files.nominals kind
        (Function.update (files.nominals kind) artifact.resultFingerprint (some artifact)) }
  | .manifest manifest =>
    let fingerprint := manifest.fingerprint codec.toCodec
    match files.manifests fingerprint with
    | none => .ok { files with
        manifests := Function.update files.manifests fingerprint (some manifest) }
    | some existing =>
      match existing.verify codec.toCodec with
      | .error message => .error message
      | .ok _ =>
        if existing.fingerprint codec.toCodec = fingerprint then .ok files
        else .error "compiler manifest CAS contains corrupt content"

/-- The writes one after the other, as far as the file system lets them: after `budget` of them the
next one fails.  The files are those at the end or at the failure. -/
def performAll (codec : ArtifactCodec) : ℕ → Files → List Write → Except String Unit × Files
  | _, files, [] => (.ok (), files)
  | 0, files, _ :: _ => (.error "failed to publish compiler artifact", files)
  | budget + 1, files, write :: rest =>
    match files.perform codec write with
    | .error message => (.error message, files)
    | .ok files => performAll codec budget files rest

end Files

end Store

end Chtholly
