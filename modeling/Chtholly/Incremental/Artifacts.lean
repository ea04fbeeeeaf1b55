import Mathlib.Data.Char
import Mathlib.Data.List.Lex
import Mathlib.Data.List.Sort
import Mathlib.Data.Prod.Lex
import Chtholly.Registry.Fields

/-!
# What a package keeps of its compilation

A compiled package leaves a manifest: its configuration, its direct dependencies and, for each
module, the public interface, what the module saw of other modules and what it needs of foreign
code.  This module holds the records and the fingerprints of them.

Of a public interface the model keeps what a manifest looks at: the bindings of its functions and
nominal types and its fingerprint.  A nominal type comes with the bytes that `encode` writes for it.

## Main definitions

* `Incremental.StableFingerprint` — thirty-two bytes.
* `Incremental.PublicInterfaceArtifact` — the public interface of a module.
* `Incremental.ForeignSymbolRequirement` — a foreign symbol that a module calls.
* `Incremental.DependencyObservation` — what a module saw of another one.
* `Incremental.PackageModuleArtifact`, `Incremental.Manifest` — a module, and a package.
-/

set_option autoImplicit false

namespace Chtholly

namespace Incremental

open Registry (Text Bytes)

/-! ## Fingerprints -/

structure StableFingerprint where
  bytes : Bytes
  size : bytes.length = 32
  deriving DecidableEq

namespace StableFingerprint

/-- `StableFingerprint()`. -/
def zero : StableFingerprint := ⟨List.replicate 32 0, List.length_replicate⟩

def hasValue (fingerprint : StableFingerprint) : Bool :=
  fingerprint.bytes.any fun byte => byte != 0

def hex (fingerprint : StableFingerprint) : Text :=
  fingerprint.bytes.flatMap fun byte =>
    [Registry.hexDigit (byte.toNat / 16), Registry.hexDigit (byte.toNat % 16)]

/-- The digest of a byte string, its text read two digits at a time. -/
def fromCanonicalBytes (input : Bytes) : StableFingerprint :=
  let hex := Registry.sha256Hex input
  ⟨(List.range 32).map fun i =>
      (Registry.digit (hex.getD (i * 2) '0') <<< 4) ||| Registry.digit (hex.getD (i * 2 + 1) '0'),
    by simp⟩

end StableFingerprint

/-- A fingerprint of one repeated byte. -/
def stamp (byte : UInt8) : StableFingerprint :=
  ⟨List.replicate 32 byte, List.length_replicate⟩

/-- The largest `std::uint32_t`. -/
def uint32Max : ℕ := 2 ^ 32 - 1

/-- The four bytes of a number, least significant first. -/
def appendU32 (value : ℕ) : Bytes :=
  (List.range 4).map fun i => UInt8.ofNat (value / 256 ^ i)

def appendField (value : Text) : Bytes := appendU32 value.length ++ value.bytes

/-! ## Interfaces -/

/-- The binding of a function in an interface, and the identity of the function itself. -/
structure PublicFunctionArtifact where
  name : Text
  canonicalPackage : Text
  canonicalModule : Text
  canonicalName : Text
  entityFingerprint : StableFingerprint
  deriving DecidableEq

structure PublicNominalTypeArtifact where
  canonicalPackage : Text
  canonicalModule : Text
  canonicalName : Text
  isExported : Bool := true
  definitionFingerprint : StableFingerprint
  /-- The kind is `ForeignResource`. -/
  foreignResource : Bool := false
  /-- What `encode` writes. -/
  encoded : Bytes
  deriving DecidableEq

structure PublicInterfaceArtifact where
  packageName : Text
  moduleName : Text
  functions : List PublicFunctionArtifact := []
  nominalTypes : List PublicNominalTypeArtifact := []
  fingerprint : StableFingerprint
  deriving DecidableEq

def PublicInterfaceArtifact.findNominalType (interface : PublicInterfaceArtifact) (name : Text) :
    Option PublicNominalTypeArtifact :=
  interface.nominalTypes.find? fun nominal => nominal.isExported && nominal.canonicalName == name

def fingerprintRelocationClosure (nominal : PublicNominalTypeArtifact) : StableFingerprint :=
  if nominal.foreignResource then
    .fromCanonicalBytes (Registry.Text.bytes "chtholly.next.relocation-closure.v1\n".toList ++ nominal.encoded)
  else .zero

/-! ## Modules -/

structure ModuleIdentity where
  packageName : Text
  moduleName : Text
  deriving DecidableEq

/-- Modules are ordered by package, then by name. -/
def ModuleIdentity.key (identity : ModuleIdentity) : Text ×ₗ Text :=
  toLex (identity.packageName, identity.moduleName)

inductive DependencyObservationKind
  | modulePresence
  | entityBinding
  | exportSet
  | lifecycleCallable
  | nominalBinding
  | relocationClosure
  deriving DecidableEq

namespace DependencyObservationKind

def toNat : DependencyObservationKind → ℕ
  | modulePresence => 0
  | entityBinding => 1
  | exportSet => 2
  | lifecycleCallable => 3
  | nominalBinding => 4
  | relocationClosure => 5

/-- The kinds that name a binding of the provider. -/
def names : DependencyObservationKind → Bool
  | entityBinding | lifecycleCallable | nominalBinding | relocationClosure => true
  | modulePresence | exportSet => false

end DependencyObservationKind

inductive LifecycleObservationRole
  | copy
  | drop
  | count
  deriving DecidableEq

def LifecycleObservationRole.toNat : LifecycleObservationRole → ℕ
  | copy => 0
  | drop => 1
  | count => 2

structure DependencyObservation where
  kind : DependencyObservationKind
  provider : ModuleIdentity
  bindingName : Text := []
  expectedFingerprint : StableFingerprint
  lifecycleRole : LifecycleObservationRole := .count
  witnessFingerprint : StableFingerprint := .zero
  specificClosureFingerprint : StableFingerprint := .zero
  canonicalProvider : ModuleIdentity := ⟨[], []⟩
  canonicalName : Text := []
  deriving DecidableEq

/-- `observationKey`. -/
def DependencyObservation.key (value : DependencyObservation) :
    ℕ ×ₗ Text ×ₗ Text ×ₗ Text ×ₗ Text ×ₗ Text ×ₗ Text ×ₗ ℕ ×ₗ Text :=
  toLex (value.kind.toNat, toLex (value.provider.packageName, toLex (value.provider.moduleName,
    toLex (value.bindingName, toLex (value.canonicalProvider.packageName,
      toLex (value.canonicalProvider.moduleName, toLex (value.canonicalName,
        toLex (value.lifecycleRole.toNat, value.expectedFingerprint.hex))))))))

inductive ForeignCallingConvention
  | c
  | win64
  | sysV64
  deriving DecidableEq

def ForeignCallingConvention.toNat : ForeignCallingConvention → ℕ
  | c => 0
  | win64 => 1
  | sysV64 => 2

structure ForeignSymbolRequirement where
  logicalName : Text
  externalSymbol : Text
  callingConvention : ForeignCallingConvention := .c
  signatureFingerprint : StableFingerprint
  deriving DecidableEq

/-- What `operator<=>` compares. -/
def ForeignSymbolRequirement.key (value : ForeignSymbolRequirement) : Text ×ₗ Text ×ₗ ℕ ×ₗ Text :=
  toLex (value.externalSymbol, toLex (value.logicalName,
    toLex (value.callingConvention.toNat, value.signatureFingerprint.hex)))

inductive CompilationUnitKind
  | chthollySource
  | foreignBinding
  deriving DecidableEq

def CompilationUnitKind.toNat : CompilationUnitKind → ℕ
  | chthollySource => 0
  | foreignBinding => 1

inductive ModuleEmissionRole
  | library
  | executableEntry
  | coroutineExecutionEntry
  | componentLibrary
  deriving DecidableEq

/-- `ConcreteSpecializationReference` and `NominalArtifactReference`: what was asked for, and the
stored result. -/
structure ArtifactReference where
  requestFingerprint : StableFingerprint
  resultFingerprint : StableFingerprint
  deriving DecidableEq

structure PackageModuleArtifact where
  sourceFingerprint : StableFingerprint
  unitKind : CompilationUnitKind := .chthollySource
  emissionRole : ModuleEmissionRole := .library
  publicInterface : PublicInterfaceArtifact
  moduleDependencies : List ModuleIdentity := []
  requiredForeignSymbols : List ForeignSymbolRequirement := []
  observations : List DependencyObservation := []
  specializations : List ArtifactReference := []
  nominalTypeSpecifics : List ArtifactReference := []
  nominalSemanticWitnesses : List ArtifactReference := []
  nominalTypeLayouts : List ArtifactReference := []
  specificFingerprint : StableFingerprint
  objectFingerprint : StableFingerprint
  deriving DecidableEq

def PackageModuleArtifact.moduleName (module : PackageModuleArtifact) : Text :=
  module.publicInterface.moduleName

def fingerprintSource (packageName moduleName : Text) (unitKind : CompilationUnitKind)
    (sourceText : Text) : StableFingerprint :=
  .fromCanonicalBytes (appendField "chtholly.next.source.v3".toList ++ appendField packageName ++
    appendField moduleName ++ [UInt8.ofNat unitKind.toNat] ++ appendField sourceText)

def fingerprintModuleIdentity (packageName moduleName : Text) : StableFingerprint :=
  .fromCanonicalBytes (appendField "chtholly.next.module-identity.v2".toList ++
    appendField packageName ++ appendField moduleName)

def fingerprintObject (targetTriple : Text) (objectBytes : Bytes)
    (specificFingerprint : StableFingerprint) : StableFingerprint :=
  .fromCanonicalBytes (appendField "chtholly.next.object.v2".toList ++ appendField targetTriple ++
    specificFingerprint.bytes ++ appendU32 objectBytes.length ++ objectBytes)

/-! ## Packages -/

inductive PackageProvenanceKind
  | workspace
  | toolchainStandardLibrary
  deriving DecidableEq

def PackageProvenanceKind.toNat : PackageProvenanceKind → ℕ
  | workspace => 0
  | toolchainStandardLibrary => 1

structure PackageProvenance where
  kind : PackageProvenanceKind := .workspace
  contractFingerprint : StableFingerprint := .zero
  deriving DecidableEq

def canonicalProvenance (packageName : Text) (provenance : PackageProvenance) : PackageProvenance :=
  if provenance.contractFingerprint.hasValue then provenance
  else
    { provenance with
      contractFingerprint := .fromCanonicalBytes
        (Registry.Text.bytes "chtholly.next.workspace-package-contract.v1\n".toList ++
          packageName.bytes) }

structure LanguageContract where
  major : ℕ := 1
  minor : ℕ := 0
  semanticArtifactEpoch : ℕ := 27
  standardLibraryEpoch : ℕ := 13
  deriving DecidableEq

namespace LanguageContract

/-- The versions from 1.0 to 1.10, with the epochs of this compiler. -/
def isSupported (contract : LanguageContract) : Bool :=
  contract.major == 1 && contract.minor ≤ 10 && contract.semanticArtifactEpoch == 27 &&
    contract.standardLibraryEpoch == 13

def isDependencyCompatibleWith (contract dependency : LanguageContract) : Bool :=
  contract.semanticArtifactEpoch == dependency.semanticArtifactEpoch &&
    contract.standardLibraryEpoch == dependency.standardLibraryEpoch

end LanguageContract

/-- Of a receipt of the C interface generator: its target and its fingerprint. -/
structure CFFIReceiptIdentity where
  target : Text
  fingerprint : StableFingerprint
  deriving DecidableEq

def fingerprintCompilationConfiguration (packageName targetTriple : Text)
    (compileToolchainFingerprint : StableFingerprint) (resolvedFeatures : List Text)
    (provenance : PackageProvenance) (languageContract : LanguageContract)
    (cffiIdentity : Option CFFIReceiptIdentity) : StableFingerprint :=
  let provenance := canonicalProvenance packageName provenance
  let features := (resolvedFeatures.insertionSort (· ≤ ·)).dedup
  .fromCanonicalBytes (appendField "chtholly.next.compilation-configuration.v7".toList ++
    appendField packageName ++ appendField targetTriple ++
    appendField compileToolchainFingerprint.hex ++ [UInt8.ofNat provenance.kind.toNat] ++
    appendField provenance.contractFingerprint.hex ++ appendU32 languageContract.major ++
    appendU32 languageContract.minor ++ appendU32 languageContract.semanticArtifactEpoch ++
    appendU32 languageContract.standardLibraryEpoch ++
    (match cffiIdentity with
      | some identity => [1] ++ appendField identity.fingerprint.hex
      | none => [0]) ++
    appendU32 features.length ++ features.flatMap appendField)

structure PackageManifestDependency where
  packageName : Text
  manifestFingerprint : StableFingerprint
  deriving DecidableEq

/-- `CompilerPackageArtifactManifest`. -/
structure Manifest where
  packageName : Text
  targetTriple : Text
  compileToolchainFingerprint : StableFingerprint
  provenance : PackageProvenance
  languageContract : LanguageContract := {}
  cffiIdentity : Option CFFIReceiptIdentity := none
  configurationFingerprint : StableFingerprint
  resolvedFeatures : List Text := []
  directDependencies : List PackageManifestDependency := []
  modules : List PackageModuleArtifact := []
  deriving DecidableEq

/-- A package of the workspace, as the constructor of a manifest makes it. -/
def barePackage (packageName : Text) (directDependencies : List PackageManifestDependency)
    (modules : List PackageModuleArtifact) : Manifest where
  packageName := packageName
  targetTriple := "x86_64".toList
  compileToolchainFingerprint := stamp 4
  provenance := { contractFingerprint := stamp 5 }
  configurationFingerprint :=
    fingerprintCompilationConfiguration packageName "x86_64".toList (stamp 4) []
      { contractFingerprint := stamp 5 } {} none
  directDependencies := directDependencies
  modules := modules

namespace Manifest

/-- The search of a sorted list: its first entry that is not below the name, if it has the name. -/
def findDependency (manifest : Manifest) (name : Text) : Option PackageManifestDependency :=
  (manifest.directDependencies.find? fun dependency => name ≤ dependency.packageName).filter
    fun dependency => dependency.packageName == name

def findModule (manifest : Manifest) (name : Text) : Option PackageModuleArtifact :=
  (manifest.modules.find? fun module => name ≤ module.moduleName).filter
    fun module => module.moduleName == name

/-- The requirements of all modules, in order. -/
def requirements (manifest : Manifest) : List ForeignSymbolRequirement :=
  manifest.modules.flatMap PackageModuleArtifact.requiredForeignSymbols

end Manifest

end Incremental

end Chtholly
