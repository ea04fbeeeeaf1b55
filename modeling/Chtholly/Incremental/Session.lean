import Chtholly.Incremental.Verification

/-!
# Which units are compiled again

A session compiles the units of a package in the order of their imports.  A unit whose module is in
the previous manifest is reused when nothing that the manifest recorded about it has changed: its
source, its kind, the configuration, its emission role, and what it observed of other modules.  The
observations are compared with the interfaces as they are now: those of the dependencies, and those
that earlier units of the session have published.

What building a unit does, and whether the registry takes an interface, are parameters.  A unit that
has not published an interface yet has none; the session does not look ahead.

## Main definitions

* `Incremental.PublishedInterface` — an interface in the registry, next to what a manifest keeps of
  it.
* `Incremental.Session` — the package, the request and the parameters.
* `Incremental.Session.observationInvalidation` — what has become of an observation.
* `Incremental.Session.compileUnit`, `Incremental.Session.compileUnits` — one unit, and many.
-/

set_option autoImplicit false

namespace Chtholly

namespace Incremental

open Registry (Text Bytes)

/-- An interface in the registry.  Its bindings and its nominal types stand in the order in which
they were registered, which need not be the order of the artifact.  The registry rejects two
different exported types of one name, and a type has one entry. -/
structure PublishedInterface where
  artifact : PublicInterfaceArtifact
  bindings : List PublicFunctionArtifact
  nominals : List PublicNominalTypeArtifact
  bindings_perm : bindings.Perm artifact.functions
  nominals_perm : nominals.Perm artifact.nominalTypes
  exportedOnce : ∀ a ∈ nominals, ∀ b ∈ nominals, a.isExported = true → b.isExported = true →
    a.canonicalName = b.canonicalName → a = b
  identifiedOnce : ∀ a ∈ nominals, ∀ b ∈ nominals, a.canonicalPackage = b.canonicalPackage →
    a.canonicalModule = b.canonicalModule → a.canonicalName = b.canonicalName → a = b

namespace PublishedInterface

/-- The nominal type that an exported name is bound to. -/
def findNominalType (interface : PublishedInterface) (name : Text) :
    Option PublicNominalTypeArtifact :=
  interface.nominals.find? fun nominal => nominal.isExported && nominal.canonicalName == name

end PublishedInterface

/-- A unit of the session. -/
structure CompilationUnit where
  moduleName : Text
  kind : CompilationUnitKind := .chthollySource
  source : Text
  emissionRole : ModuleEmissionRole := .library
  /-- The unit is among `required_transient_outputs`. -/
  outputRequired : Bool := false

inductive CompilationMode
  | check
  | build
  deriving DecidableEq

inductive ObjectArtifactLoadStatus
  | found
  | missing
  | corrupt
  | error
  deriving DecidableEq

structure ObjectArtifactLoadResult where
  status : ObjectArtifactLoadStatus := .missing
  bytes : Bytes := []
  error : String := ""

inductive UnitInvalidationReason
  | moduleAdded
  | moduleRemoved
  | sourceChanged
  | sourceKindChanged
  | objectEmissionRoleChanged
  | compilationConfigurationChanged
  | requestedOutput
  | objectArtifactMissing
  | objectArtifactCorrupt
  | importedModuleRemoved
  | entityBindingChanged
  | lifecycleCallableChanged
  | exportSetChanged
  | nominalBindingChanged
  | relocationClosureChanged
  deriving DecidableEq

structure UnitInvalidation where
  reason : UnitInvalidationReason
  provider : ModuleIdentity := ⟨[], []⟩
  bindingName : Text := []
  deriving DecidableEq

inductive UnitCompilationAction
  | rebuild
  | reuse
  | removed
  deriving DecidableEq

structure UnitCompilationDecision where
  moduleName : Text
  action : UnitCompilationAction
  invalidations : List UnitInvalidation
  deriving DecidableEq

/-- What the units compiled so far have left. -/
structure SessionState where
  published : List (Text × PublishedInterface) := []
  moduleArtifacts : List PackageModuleArtifact := []
  decisions : List UnitCompilationDecision := []

/-- What building a unit gives. -/
structure BuiltUnit where
  interface : PublishedInterface
  module : PackageModuleArtifact
  publishes : module.publicInterface = interface.artifact

structure Session where
  packageName : Text
  targetTriple : Text
  compileToolchainFingerprint : StableFingerprint
  resolvedFeatures : List Text := []
  provenance : PackageProvenance := {}
  languageContract : LanguageContract := {}
  cffiIdentity : Option CFFIReceiptIdentity := none
  mode : CompilationMode := .build
  previousManifest : Option Manifest
  dependencyManifests : List Manifest := []
  templateDependencyClosure : List Manifest := []
  componentExports : List Text := []
  /-- The interfaces of other packages that are registered before the units are compiled. -/
  dependencyInterfaces : List PublishedInterface := []
  loadObject : StableFingerprint → StableFingerprint → ObjectArtifactLoadResult
  /-- Whether the registry takes the interface of a reused module. -/
  register : SessionState → PublicInterfaceArtifact → Except String PublishedInterface
  register_artifact : ∀ state artifact interface,
    register state artifact = .ok interface → interface.artifact = artifact
  /-- The compilation of a unit. -/
  build : SessionState → CompilationUnit → Except String BuiltUnit

namespace Session

variable (session : Session)

/-- The interface of a module as it is now. -/
def currentInterface (state : SessionState) (provider : ModuleIdentity) :
    Option PublishedInterface :=
  if provider.packageName = session.packageName then
    (state.published.find? fun entry => entry.1 == provider.moduleName).map Prod.snd
  else
    session.dependencyInterfaces.find? fun interface =>
      interface.artifact.packageName == provider.packageName &&
        interface.artifact.moduleName == provider.moduleName

/-- A module that lists the witness. -/
def listsWitness (observation : DependencyObservation) (module : PackageModuleArtifact) : Bool :=
  module.nominalSemanticWitnesses.any fun reference =>
    reference.resultFingerprint == observation.witnessFingerprint

/-- The artifact of the provider of a lifecycle observation. -/
def providerArtifact (state : SessionState) (moduleName : Text) (previous : PackageModuleArtifact)
    (provider : ModuleIdentity) : Option PackageModuleArtifact :=
  if provider.packageName = session.packageName then
    match state.moduleArtifacts.find? fun module => module.moduleName == provider.moduleName with
    | some found => some found
    | none => if provider.moduleName = moduleName then some previous else none
  else
    (session.dependencyManifests.find? fun manifest =>
      manifest.packageName == provider.packageName).bind fun manifest =>
        manifest.findModule provider.moduleName

/-- The witness is listed by the provider, by a direct dependency or by the template closure. -/
def witnessAvailable (state : SessionState) (moduleName : Text) (previous : PackageModuleArtifact)
    (observation : DependencyObservation) : Bool :=
  (session.providerArtifact state moduleName previous observation.provider).any
      (listsWitness observation) ||
    session.dependencyManifests.any (fun manifest => manifest.modules.any
      (listsWitness observation)) ||
    session.templateDependencyClosure.any fun manifest => manifest.modules.any
      (listsWitness observation)

/-- The fingerprint of the observed nominal type as it is now, or no fingerprint. -/
def currentNominalFingerprint (interface : PublishedInterface)
    (observation : DependencyObservation) : StableFingerprint :=
  match (interface.findNominalType observation.bindingName).filter observation.identifies with
  | none => .zero
  | some entity =>
    if observation.kind = .nominalBinding then entity.definitionFingerprint
    else
      match interface.nominals.find? observation.identifies with
      | some artifact => fingerprintRelocationClosure artifact
      | none => .zero

/-- The fingerprint of the observed function as it is now: the loop over the bindings stops at the
first one of the name that is bound to a function of the observed identity. -/
def boundFingerprint (interface : PublishedInterface) (observation : DependencyObservation) :
    Option StableFingerprint :=
  (interface.bindings.find? observation.binds).map PublicFunctionArtifact.entityFingerprint

/-- What has become of an observation of another module: nothing, or a reason to build. -/
def observationInvalidation (state : SessionState) (moduleName : Text)
    (previous : PackageModuleArtifact) (observation : DependencyObservation) :
    Option UnitInvalidation :=
  match session.currentInterface state observation.provider with
  | none => some { reason := .importedModuleRemoved, provider := observation.provider }
  | some interface =>
    match observation.kind with
    | .modulePresence => none
    | .exportSet =>
      if interface.artifact.fingerprint ≠ observation.expectedFingerprint then
        some { reason := .exportSetChanged, provider := observation.provider }
      else none
    | .nominalBinding =>
      if currentNominalFingerprint interface observation ≠ observation.expectedFingerprint then
        some ⟨.nominalBindingChanged, observation.provider, observation.bindingName⟩
      else none
    | .relocationClosure =>
      if currentNominalFingerprint interface observation ≠ observation.expectedFingerprint then
        some ⟨.relocationClosureChanged, observation.provider, observation.bindingName⟩
      else none
    | .entityBinding =>
      if boundFingerprint interface observation ≠ some observation.expectedFingerprint then
        some ⟨.entityBindingChanged, observation.provider, observation.bindingName⟩
      else none
    | .lifecycleCallable =>
      if boundFingerprint interface observation ≠ some observation.expectedFingerprint then
        some ⟨.lifecycleCallableChanged, observation.provider, observation.bindingName⟩
      else if session.witnessAvailable state moduleName previous observation then none
      else some ⟨.lifecycleCallableChanged, observation.provider, observation.bindingName⟩

/-- The observations that are compared: a unit does not observe itself. -/
def isForeign (moduleName : Text) (observation : DependencyObservation) : Bool :=
  observation.provider != ⟨session.packageName, moduleName⟩

def sourceFingerprint (unit : CompilationUnit) : StableFingerprint :=
  fingerprintSource session.packageName unit.moduleName unit.kind unit.source

def configurationMatches : Bool :=
  session.previousManifest.all fun manifest =>
    manifest.configurationFingerprint ==
      fingerprintCompilationConfiguration session.packageName session.targetTriple
        session.compileToolchainFingerprint session.resolvedFeatures session.provenance
        session.languageContract session.cffiIdentity

def previousModule (unit : CompilationUnit) : Option PackageModuleArtifact :=
  session.previousManifest.bind fun manifest => manifest.findModule unit.moduleName

/-- A reason, when a condition holds. -/
def reasonWhen (condition : Prop) [Decidable condition] (reason : UnitInvalidationReason) :
    List UnitInvalidation :=
  if condition then [{ reason := reason }] else []

/-- The comparison of a unit with its module in the previous manifest. -/
def moduleInvalidations (state : SessionState) (unit : CompilationUnit)
    (previous : PackageModuleArtifact) : List UnitInvalidation :=
  reasonWhen (session.configurationMatches = false) .compilationConfigurationChanged ++
    reasonWhen (previous.sourceFingerprint ≠ session.sourceFingerprint unit) .sourceChanged ++
    reasonWhen (previous.unitKind ≠ unit.kind) .sourceKindChanged ++
    reasonWhen (previous.emissionRole ≠ unit.emissionRole) .objectEmissionRoleChanged ++
    if previous.sourceFingerprint = session.sourceFingerprint unit then
      (previous.observations.filter (session.isForeign unit.moduleName)).filterMap
        (session.observationInvalidation state unit.moduleName previous)
    else []

/-- The object of a module, which is read when nothing else is in the way. -/
def objectInvalidations (previous : PackageModuleArtifact) :
    Except String (List UnitInvalidation) :=
  if session.mode = .build then
    let loaded := session.loadObject previous.objectFingerprint previous.specificFingerprint
    match loaded.status with
    | .error =>
      .error (if loaded.error.isEmpty then "failed to load an incremental object artifact"
        else loaded.error)
    | .missing => .ok [{ reason := .objectArtifactMissing }]
    | .corrupt => .ok [{ reason := .objectArtifactCorrupt }]
    | .found =>
      .ok (reasonWhen (loaded.bytes = [] ∨
        fingerprintObject session.targetTriple loaded.bytes previous.specificFingerprint ≠
          previous.objectFingerprint) .objectArtifactCorrupt)
  else .ok []

/-- The next check is made only when the checks before it found nothing. -/
def orElse (found : List UnitInvalidation)
    (next : Unit → Except String (List UnitInvalidation)) :
    Except String (List UnitInvalidation) :=
  if found = [] then next () else .ok found

/-- Every reason to build a unit that is found. -/
def unitInvalidations (state : SessionState) (unit : CompilationUnit) :
    Except String (List UnitInvalidation) :=
  match session.previousModule unit with
  | none => .ok [{ reason := .moduleAdded }]
  | some previous =>
    orElse (session.moduleInvalidations state unit previous) fun _ =>
      orElse (reasonWhen (unit.outputRequired = true) .requestedOutput) fun _ => do
        let found ← session.objectInvalidations previous
        orElse found fun _ =>
          .ok (reasonWhen (session.componentExports ≠ []) .requestedOutput)

/-- One unit: it is reused, with the interface and the artifact it had, or built. -/
def compileUnit (state : SessionState) (unit : CompilationUnit) : Except String SessionState := do
  let invalidations ← session.unitInvalidations state unit
  match invalidations, session.previousModule unit with
  | [], some previous =>
    let interface ← session.register state previous.publicInterface
    .ok
      { published := state.published ++ [(unit.moduleName, interface)]
        moduleArtifacts := state.moduleArtifacts ++ [previous]
        decisions := state.decisions ++ [⟨unit.moduleName, .reuse, []⟩] }
  | invalidations, _ =>
    let built ← session.build state unit
    .ok
      { published := state.published ++ [(unit.moduleName, built.interface)]
        moduleArtifacts :=
          if session.mode = .build then state.moduleArtifacts ++ [built.module]
          else state.moduleArtifacts
        decisions := state.decisions ++ [⟨unit.moduleName, .rebuild, invalidations⟩] }

/-- The units in order. -/
def compileUnits (state : SessionState) : List CompilationUnit → Except String SessionState
  | [] => .ok state
  | unit :: units => do
    let next ← session.compileUnit state unit
    compileUnits next units

end Session

end Incremental

end Chtholly
