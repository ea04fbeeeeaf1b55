import Chtholly.Incremental.Artifacts

/-!
# The verification of a manifest

A manifest is verified on its own, and then against the manifests of its direct dependencies.  The
verification of a public interface and the encoding of a manifest belong to other parts of the
compiler; they are the parameters of `Codec`.

## Main definitions

* `Incremental.validForeignSymbols` — the check of the foreign symbols of a module.
* `Incremental.PackageModuleArtifact.verify` — the check of a module.
* `Incremental.checkObservation` — whether an observation still holds of its provider.
* `Incremental.Manifest.verify`, `Incremental.Manifest.verifyDependencies` — the two verifications.

## Main results

* `Incremental.Manifest.validForeignSymbols_of_verify` — the modules of a manifest that passes have
  passed the check of their foreign symbols.
* `Incremental.Manifest.allAgree_of_verifyDependencies` — and their requirements, with those of the
  direct dependencies, agree with each other.
-/

set_option autoImplicit false

namespace Chtholly

namespace Incremental

open Registry (Text Bytes)

/-- What the verification takes from other parts of the compiler. -/
structure Codec where
  /-- `PublicInterfaceArtifact::verify`. -/
  verifyInterface : PublicInterfaceArtifact → Except String Unit
  /-- What `encode` writes for a manifest that is verified. -/
  encode : Manifest → Bytes

/-- A check, with the message that its failure leaves. -/
def ensure (condition : Bool) (message : String) : Except String Unit :=
  if condition then .ok () else .error message

/-- A check of each element in turn. -/
def checkAll {α : Type} (check : α → Except String Unit) : List α → Except String Unit
  | [] => .ok ()
  | value :: values =>
    match check value with
    | .error message => .error message
    | .ok () => checkAll check values

@[simp]
lemma ensure_eq_ok {condition : Bool} {message : String} {u : Unit} :
    ensure condition message = .ok u ↔ condition = true := by
  unfold ensure
  split <;> simp_all

@[simp]
lemma checkAll_eq_ok {α : Type} {check : α → Except String Unit} {values : List α} {u : Unit} :
    checkAll check values = .ok u ↔ ∀ value ∈ values, check value = .ok () := by
  induction values with
  | nil => simp [checkAll]
  | cons value values ih =>
    unfold checkAll
    split
    · simp_all
    · simp_all

@[simp]
lemma andThen_eq_ok {check : Except String Unit} {next : Unit → Except String Unit} {u : Unit} :
    (check >>= next) = .ok u ↔ check = .ok () ∧ next () = .ok u := by
  cases check with
  | error message => simp [bind, Except.bind]
  | ok v => simp [bind, Except.bind]

lemma except_bind_eq_ok {α β : Type} {x : Except String α} {f : α → Except String β} {b : β} :
    (x >>= f) = .ok b ↔ ∃ a, x = .ok a ∧ f a = .ok b := by
  cases x with
  | error message => simp [bind, Except.bind]
  | ok a => simp [bind, Except.bind]

/-! ## A module -/

def validModuleDependencies (values : List ModuleIdentity) (owner : String) : Except String Unit :=
  ensure
    (values.all (fun value => !value.packageName.isEmpty && !value.moduleName.isEmpty) &&
      decide (values.IsChain fun a b => a.key < b.key))
    (owner ++ " has invalid module dependencies")

/-- A requirement that names a symbol on both sides and has a signature. -/
def ForeignSymbolRequirement.complete (value : ForeignSymbolRequirement) : Bool :=
  !value.logicalName.isEmpty && !value.externalSymbol.isEmpty &&
    value.signatureFingerprint.hasValue

/-- The second check compares a requirement with its neighbour only. -/
def validForeignSymbols (values : List ForeignSymbolRequirement) (owner : String) :
    Except String Unit := do
  ensure
    (decide (values.IsChain fun a b => a.key ≤ b.key) &&
      decide (values.IsChain fun a b => a ≠ b) &&
      values.all ForeignSymbolRequirement.complete)
    (owner ++ " has invalid foreign symbol requirements")
  ensure (decide (values.IsChain fun a b => a.logicalName ≠ b.logicalName))
    (owner ++ " has duplicate foreign symbol requirements")

/-- The checks of one observation, its place in the list apart. -/
def DependencyObservation.wellFormed (observation : DependencyObservation) : Bool :=
  !observation.provider.packageName.isEmpty && !observation.provider.moduleName.isEmpty &&
    observation.provider.packageName.length ≤ uint32Max &&
    observation.provider.moduleName.length ≤ uint32Max &&
    observation.bindingName.length ≤ uint32Max &&
    observation.canonicalProvider.packageName.length ≤ uint32Max &&
    observation.canonicalProvider.moduleName.length ≤ uint32Max &&
    observation.canonicalName.length ≤ uint32Max &&
    observation.expectedFingerprint.hasValue &&
    (observation.kind.names == !observation.bindingName.isEmpty) &&
    (observation.kind.names ==
      (!observation.canonicalProvider.packageName.isEmpty &&
        !observation.canonicalProvider.moduleName.isEmpty && !observation.canonicalName.isEmpty)) &&
    (observation.kind == .lifecycleCallable) ==
      (observation.lifecycleRole != .count && observation.witnessFingerprint.hasValue &&
        observation.specificClosureFingerprint.hasValue)

def invalidObservation (moduleName : Text) (observation : DependencyObservation) : String :=
  "package check module artifact has an invalid observation: " ++ String.ofList moduleName ++
    " kind=" ++ toString observation.kind.toNat ++
    " provider=" ++ String.ofList observation.provider.packageName ++ "/" ++
    String.ofList observation.provider.moduleName ++
    " binding=" ++ String.ofList observation.bindingName ++
    " witness=" ++ String.ofList observation.witnessFingerprint.hex ++
    " specific=" ++ String.ofList observation.specificClosureFingerprint.hex

/-- The loop over the observations of a module, which are in order. -/
def verifyObservations (moduleName : Text) :
    Option DependencyObservation → List DependencyObservation → Except String Unit
  | _, [] => .ok ()
  | previous, observation :: rest => do
    ensure
      (observation.wellFormed && previous.all fun value => decide (value.key < observation.key))
      (invalidObservation moduleName observation)
    verifyObservations moduleName (some observation) rest

/-- References in the order of their requests, without a request made twice. -/
def validReferences (references : List ArtifactReference) : Bool :=
  references.length ≤ uint32Max &&
    decide (references.IsChain fun a b => a.requestFingerprint.hex ≤ b.requestFingerprint.hex) &&
    decide (references.IsChain fun a b => a.requestFingerprint ≠ b.requestFingerprint) &&
    references.all fun reference =>
      reference.requestFingerprint.hasValue && reference.resultFingerprint.hasValue

namespace PackageModuleArtifact

/-- `PackageModuleCheckArtifact::verify`, on the part of a module that a check artifact holds. -/
def verifyCheck (codec : Codec) (module : PackageModuleArtifact) : Except String Unit := do
  ensure (module.sourceFingerprint.hasValue && module.specificFingerprint.hasValue)
    "package check module artifact has invalid content"
  codec.verifyInterface module.publicInterface
  ensure (module.observations.length ≤ uint32Max)
    "package check module artifact has invalid content"
  validModuleDependencies module.moduleDependencies "package check module"
  validForeignSymbols module.requiredForeignSymbols "package check module"
  verifyObservations module.moduleName none module.observations

def verify (codec : Codec) (module : PackageModuleArtifact) : Except String Unit := do
  module.verifyCheck codec
  ensure (module.objectFingerprint.hasValue && validReferences module.specializations)
    "incremental module artifact has invalid content"
  ensure
    (module.nominalTypeSpecifics.length == module.nominalSemanticWitnesses.length &&
      validReferences module.nominalTypeSpecifics &&
      validReferences module.nominalSemanticWitnesses && validReferences module.nominalTypeLayouts)
    "incremental module has invalid nominal artifact references"

end PackageModuleArtifact

/-! ## Observations -/

/-- The messages for the four ways in which an observation can fail. -/
structure ObservationMessages where
  presence : String
  exports : String
  nominal : String
  entity : String

/-- The binding of the observation: the same name, bound to the same function. -/
def DependencyObservation.binds (observation : DependencyObservation)
    (function : PublicFunctionArtifact) : Bool :=
  function.name == observation.bindingName &&
    function.canonicalPackage == observation.canonicalProvider.packageName &&
    function.canonicalModule == observation.canonicalProvider.moduleName &&
    function.canonicalName == observation.canonicalName

/-- The nominal type that was observed. -/
def DependencyObservation.identifies (observation : DependencyObservation)
    (nominal : PublicNominalTypeArtifact) : Bool :=
  nominal.canonicalPackage == observation.canonicalProvider.packageName &&
    nominal.canonicalModule == observation.canonicalProvider.moduleName &&
    nominal.canonicalName == observation.canonicalName

/-- The fingerprint that an observation of a nominal type recorded. -/
def DependencyObservation.nominalFingerprint (observation : DependencyObservation)
    (nominal : PublicNominalTypeArtifact) : StableFingerprint :=
  if observation.kind = .nominalBinding then nominal.definitionFingerprint
  else fingerprintRelocationClosure nominal

def checkObservation (messages : ObservationMessages) (provider : PublicInterfaceArtifact)
    (observation : DependencyObservation) : Except String Unit :=
  match observation.kind with
  | .modulePresence =>
    ensure
      (observation.expectedFingerprint ==
        fingerprintModuleIdentity observation.provider.packageName observation.provider.moduleName)
      messages.presence
  | .exportSet => ensure (observation.expectedFingerprint == provider.fingerprint) messages.exports
  | .nominalBinding | .relocationClosure =>
    ensure
      ((provider.findNominalType observation.bindingName).any fun binding =>
        observation.identifies binding &&
          observation.nominalFingerprint binding == observation.expectedFingerprint)
      messages.nominal
  | .entityBinding | .lifecycleCallable =>
    ensure
      (provider.functions.any fun function =>
        observation.binds function && function.entityFingerprint == observation.expectedFingerprint)
      messages.entity

/-! ## A package -/

def localMessages : ObservationMessages where
  presence := "compiler package manifest has an invalid module observation"
  exports := "compiler package manifest has an invalid export-set observation"
  nominal := "compiler package manifest has an invalid nominal observation"
  entity := "compiler package manifest has an invalid entity observation"

def dependencyMessages : ObservationMessages where
  presence := "package manifest has an invalid dependency module observation"
  exports := "package manifest has a stale dependency export-set observation"
  nominal := "package manifest has a stale dependency nominal observation"
  entity := "package manifest has a stale dependency entity observation"

namespace Manifest

/-- The configuration fingerprint is the one of the fields. -/
def recordsConfiguration (manifest : Manifest) : Bool :=
  manifest.configurationFingerprint ==
    fingerprintCompilationConfiguration manifest.packageName manifest.targetTriple
      manifest.compileToolchainFingerprint manifest.resolvedFeatures manifest.provenance
      manifest.languageContract manifest.cffiIdentity

/-- The other conditions of the first check of `verify`. -/
def validConfiguration (manifest : Manifest) : Bool :=
  !manifest.packageName.isEmpty && !manifest.targetTriple.isEmpty &&
    manifest.packageName.length ≤ uint32Max && manifest.targetTriple.length ≤ uint32Max &&
    manifest.resolvedFeatures.length ≤ uint32Max &&
    manifest.directDependencies.length ≤ uint32Max && manifest.modules.length ≤ uint32Max &&
    manifest.compileToolchainFingerprint.hasValue && manifest.languageContract.isSupported &&
    (manifest.cffiIdentity.all fun identity =>
      identity.target == manifest.targetTriple && identity.fingerprint.hasValue) &&
    manifest.provenance.contractFingerprint.hasValue &&
    ((manifest.provenance.kind == .toolchainStandardLibrary) ==
      (manifest.packageName == "std".toList)) &&
    decide (manifest.resolvedFeatures.IsChain (· < ·)) &&
    decide (manifest.directDependencies.IsChain fun a b => a.packageName < b.packageName) &&
    manifest.resolvedFeatures.all
      (fun value => !value.isEmpty && decide (value.length ≤ uint32Max)) &&
    manifest.directDependencies.all fun value =>
      !value.packageName.isEmpty && value.packageName != manifest.packageName &&
        decide (value.packageName.length ≤ uint32Max) && value.manifestFingerprint.hasValue

/-- The loop over the modules, which are in order. -/
def verifyModules (codec : Codec) (packageName : Text) :
    Text → List PackageModuleArtifact → Except String Unit
  | _, [] => .ok ()
  | previous, module :: rest => do
    ensure
      ((previous.isEmpty || decide (previous < module.moduleName)) &&
        module.publicInterface.packageName == packageName)
      "compiler package manifest has duplicate modules"
    module.verify codec
    verifyModules codec packageName module.moduleName rest

def verifyLink (manifest : Manifest) (dependency : ModuleIdentity) : Except String Unit :=
  if dependency.packageName = manifest.packageName then
    ensure (manifest.findModule dependency.moduleName).isSome
      "package manifest link closure names a missing local module"
  else
    ensure (manifest.findDependency dependency.packageName).isSome
      "package manifest link closure names an undeclared package"

def verifyLocal (manifest : Manifest) (observation : DependencyObservation) :
    Except String Unit :=
  if observation.provider.packageName ≠ manifest.packageName then
    ensure (manifest.findDependency observation.provider.packageName).isSome
      "package manifest observes an undeclared dependency"
  else
    match manifest.findModule observation.provider.moduleName with
    | none => .error "compiler package manifest is not closed over local imports"
    | some provider => checkObservation localMessages provider.publicInterface observation

def verify (codec : Codec) (manifest : Manifest) : Except String Unit := do
  ensure (manifest.validConfiguration && manifest.recordsConfiguration)
    "compiler package manifest has an invalid configuration"
  verifyModules codec manifest.packageName [] manifest.modules
  checkAll
    (fun module => do
      checkAll manifest.verifyLink module.moduleDependencies
      checkAll manifest.verifyLocal module.observations)
    manifest.modules

/-- The bytes that are digested for the fingerprint of a manifest. -/
def canonicalBytes (codec : Codec) (manifest : Manifest) : Bytes :=
  Registry.Text.bytes "chtholly.next.package-manifest.v14".toList ++ codec.encode manifest

def fingerprint (codec : Codec) (manifest : Manifest) : StableFingerprint :=
  match manifest.verify codec with
  | .ok () => .fromCanonicalBytes (manifest.canonicalBytes codec)
  | .error _ => .zero

/-! ## A package and its dependencies -/

/-- One requirement into `closure_requirements`. -/
def mergeRequirement (known : List ForeignSymbolRequirement)
    (requirement : ForeignSymbolRequirement) : Option (List ForeignSymbolRequirement) :=
  match known.find? fun found => found.externalSymbol == requirement.externalSymbol with
  | none => some (known ++ [requirement])
  | some found =>
    if found.callingConvention ≠ requirement.callingConvention ∨
        found.signatureFingerprint ≠ requirement.signatureFingerprint then none
    else some known

def mergeRequirements (known : List ForeignSymbolRequirement) :
    List ForeignSymbolRequirement → Option (List ForeignSymbolRequirement)
  | [] => some known
  | requirement :: rest =>
    (mergeRequirement known requirement).bind fun known => mergeRequirements known rest

/-- The loop over the dependencies, which are in the order of their names. -/
def verifyDirect (codec : Codec) (manifest : Manifest) :
    Option Manifest → List (Manifest × PackageManifestDependency) → Except String Unit
  | _, [] => .ok ()
  | previous, (dependency, recorded) :: rest => do
    dependency.verify codec
    ensure
      (manifest.languageContract.isDependencyCompatibleWith dependency.languageContract &&
        dependency.packageName == recorded.packageName &&
        dependency.fingerprint codec == recorded.manifestFingerprint &&
        previous.all fun value => value.packageName != dependency.packageName)
      "package manifest dependency set is inconsistent"
    verifyDirect codec manifest (some dependency) rest

def verifyForeign (manifest : Manifest) (dependencies : List Manifest)
    (observation : DependencyObservation) : Except String Unit :=
  if observation.provider.packageName = manifest.packageName then .ok ()
  else
    match (dependencies.find? fun value =>
        observation.provider.packageName ≤ value.packageName).filter
        fun value => value.packageName == observation.provider.packageName with
    | none => .error "package manifest observation provider is unavailable"
    | some dependency =>
      match dependency.findModule observation.provider.moduleName with
      | none => .error "package manifest observes a missing dependency module"
      | some provider => checkObservation dependencyMessages provider.publicInterface observation

def verifyDependencies (codec : Codec) (manifest : Manifest) (dependencies : List Manifest) :
    Except String Unit := do
  manifest.verify codec
  ensure (dependencies.length == manifest.directDependencies.length)
    "package manifest dependency set is incomplete"
  let ordered := dependencies.insertionSort fun a b => a.packageName ≤ b.packageName
  verifyDirect codec manifest none (ordered.zip manifest.directDependencies)
  ensure
    (mergeRequirements [] (manifest.requirements ++ ordered.flatMap requirements)).isSome
    "package dependency closure has conflicting foreign symbol ABI requirements"
  checkAll (fun module => checkAll (manifest.verifyForeign ordered) module.observations)
    manifest.modules

/-! ## What passes -/

variable {codec : Codec} {manifest : Manifest}

lemma fingerprint_of_verify (h : manifest.verify codec = .ok ()) :
    manifest.fingerprint codec = .fromCanonicalBytes (manifest.canonicalBytes codec) := by
  unfold fingerprint
  rw [h]

variable {module : PackageModuleArtifact}

lemma verify_of_verifyModules {packageName previous : Text} {modules : List PackageModuleArtifact}
    (h : verifyModules codec packageName previous modules = .ok ()) (hmem : module ∈ modules) :
    module.verify codec = .ok () := by
  induction modules generalizing previous with
  | nil => simp at hmem
  | cons first rest ih =>
    simp only [verifyModules, andThen_eq_ok] at h
    obtain ⟨-, hfirst, hrest⟩ := h
    obtain rfl | hmem := List.mem_cons.mp hmem
    · exact hfirst
    · exact ih hrest hmem

lemma verify_of_mem (h : manifest.verify codec = .ok ()) (hmem : module ∈ manifest.modules) :
    module.verify codec = .ok () := by
  simp only [verify, andThen_eq_ok] at h
  exact verify_of_verifyModules h.2.1 hmem

lemma fingerprint_of_verifyDirect {previous : Option Manifest}
    {pairs : List (Manifest × PackageManifestDependency)}
    {pair : Manifest × PackageManifestDependency}
    (h : verifyDirect codec manifest previous pairs = .ok ()) (hmem : pair ∈ pairs) :
    pair.1.fingerprint codec = pair.2.manifestFingerprint := by
  induction pairs generalizing previous with
  | nil => simp at hmem
  | cons first rest ih =>
    obtain ⟨dependency, recorded⟩ := first
    simp only [verifyDirect, andThen_eq_ok, ensure_eq_ok, Bool.and_eq_true, beq_iff_eq] at h
    obtain ⟨-, ⟨⟨-, hfingerprint⟩, -⟩, hrest⟩ := h
    obtain rfl | hmem := List.mem_cons.mp hmem
    · exact hfingerprint
    · exact ih hrest hmem

lemma exists_mem_zip {α β : Type} {as : List α} {bs : List β} {b : β}
    (hlength : as.length = bs.length) (hmem : b ∈ bs) : ∃ a, (a, b) ∈ as.zip bs := by
  obtain ⟨i, hi, rfl⟩ := List.getElem_of_mem hmem
  have hzip : i < (as.zip bs).length := by
    rw [List.length_zip]
    omega
  have hget : (as.zip bs)[i] = (as[i], bs[i]) := List.getElem_zip
  exact ⟨as[i], hget ▸ List.getElem_mem hzip⟩

lemma exists_of_verifyDirect {ordered : List Manifest} {recorded : PackageManifestDependency}
    (h : verifyDirect codec manifest none (ordered.zip manifest.directDependencies) = .ok ())
    (hlength : ordered.length = manifest.directDependencies.length)
    (hmem : recorded ∈ manifest.directDependencies) :
    ∃ dependency ∈ ordered, dependency.fingerprint codec = recorded.manifestFingerprint := by
  obtain ⟨dependency, hpair⟩ := exists_mem_zip hlength hmem
  have hfingerprint := fingerprint_of_verifyDirect h hpair
  exact ⟨dependency, (List.of_mem_zip hpair).1, hfingerprint⟩

/-- The recorded dependencies are the given manifests. -/
lemma exists_of_verifyDependencies {dependencies : List Manifest}
    {recorded : PackageManifestDependency}
    (h : manifest.verifyDependencies codec dependencies = .ok ())
    (hmem : recorded ∈ manifest.directDependencies) :
    ∃ dependency ∈ dependencies, dependency.fingerprint codec = recorded.manifestFingerprint := by
  simp only [verifyDependencies, andThen_eq_ok, ensure_eq_ok, beq_iff_eq] at h
  obtain ⟨-, hlength, hdirect, -⟩ := h
  obtain ⟨dependency, hdependency, hfingerprint⟩ := exists_of_verifyDirect hdirect
    (by rw [List.length_insertionSort, hlength]) hmem
  exact ⟨dependency, (List.mem_insertionSort _).mp hdependency, hfingerprint⟩

theorem validForeignSymbols_of_verify (h : manifest.verify codec = .ok ())
    (hmem : module ∈ manifest.modules) :
    validForeignSymbols module.requiredForeignSymbols "package check module" = .ok () := by
  have hmodule := verify_of_mem h hmem
  simp only [PackageModuleArtifact.verify, PackageModuleArtifact.verifyCheck,
    andThen_eq_ok] at hmodule
  exact hmodule.1.2.2.2.2.1

end Manifest

/-- What is left to check of a package of the workspace. -/
lemma barePackage_verify {codec : Codec} {packageName : Text}
    {directDependencies : List PackageManifestDependency} {modules : List PackageModuleArtifact}
    (hconfiguration :
      (barePackage packageName directDependencies modules).validConfiguration = true)
    (hmodules : Manifest.verifyModules codec packageName [] modules = .ok ())
    (hclosed : ∀ module ∈ modules,
      (∀ dependency ∈ module.moduleDependencies,
        (barePackage packageName directDependencies modules).verifyLink dependency = .ok ()) ∧
      ∀ observation ∈ module.observations,
        (barePackage packageName directDependencies modules).verifyLocal observation = .ok ()) :
    (barePackage packageName directDependencies modules).verify codec = .ok () := by
  have hrecords :
      (barePackage packageName directDependencies modules).recordsConfiguration = true := by
    simp [Manifest.recordsConfiguration, barePackage]
  simp only [Manifest.verify, andThen_eq_ok, ensure_eq_ok, hconfiguration, hrecords,
    Bool.and_self, checkAll_eq_ok, true_and]
  exact ⟨hmodules, hclosed⟩

/-- Two requirements of one external symbol are of one calling convention and one signature. -/
def ForeignSymbolRequirement.Agrees (a b : ForeignSymbolRequirement) : Prop :=
  a.externalSymbol = b.externalSymbol →
    a.callingConvention = b.callingConvention ∧ a.signatureFingerprint = b.signatureFingerprint

def AllAgree (requirements : List ForeignSymbolRequirement) : Prop :=
  ∀ a ∈ requirements, ∀ b ∈ requirements, a.Agrees b

lemma ForeignSymbolRequirement.Agrees.symm {a b : ForeignSymbolRequirement} (h : a.Agrees b) :
    b.Agrees a := by
  intro hsymbol
  obtain ⟨hconvention, hsignature⟩ := h hsymbol.symm
  exact ⟨hconvention.symm, hsignature.symm⟩

variable {requirement : ForeignSymbolRequirement}

/-- A requirement that is new in its symbol agrees with all. -/
lemma allAgree_append_singleton {known : List ForeignSymbolRequirement} (h : AllAgree known)
    (hnew : ∀ found ∈ known, found.externalSymbol ≠ requirement.externalSymbol) :
    AllAgree (known ++ [requirement]) := by
  intro a ha b hb
  simp only [List.mem_append, List.mem_singleton] at ha hb
  rcases ha with ha | rfl
  · rcases hb with hb | rfl
    · exact h a ha b hb
    · exact fun hsymbol => absurd hsymbol (hnew a ha)
  · rcases hb with hb | rfl
    · exact fun hsymbol => absurd hsymbol.symm (hnew b hb)
    · exact fun _ => ⟨rfl, rfl⟩

/-- A requirement like a known one agrees with what the known one agrees with. -/
lemma allAgree_insert {known rest : List ForeignSymbolRequirement}
    {found : ForeignSymbolRequirement} (hfound : found ∈ known)
    (hsymbol : found.externalSymbol = requirement.externalSymbol)
    (hconvention : found.callingConvention = requirement.callingConvention)
    (hsignature : found.signatureFingerprint = requirement.signatureFingerprint) :
    AllAgree (known ++ requirement :: rest) ↔ AllAgree (known ++ rest) := by
  have hold : found ∈ known ++ rest := List.mem_append_left _ hfound
  constructor
  · intro h a ha b hb
    apply h a _ b _
    · simp only [List.mem_append, List.mem_cons] at ha ⊢
      tauto
    · simp only [List.mem_append, List.mem_cons] at hb ⊢
      tauto
  · have hagrees : AllAgree (known ++ rest) → ∀ b ∈ known ++ rest, requirement.Agrees b := by
      intro h b hb hb'
      obtain ⟨hc, hs⟩ := h found hold b hb (hsymbol.trans hb')
      exact ⟨hconvention.symm.trans hc, hsignature.symm.trans hs⟩
    intro h a ha b hb
    have hcases : ∀ c ∈ known ++ requirement :: rest, c = requirement ∨ c ∈ known ++ rest := by
      intro c hc
      simp only [List.mem_append, List.mem_cons] at hc ⊢
      tauto
    obtain rfl | ha' := hcases a ha
    · obtain rfl | hb' := hcases b hb
      · exact fun _ => ⟨rfl, rfl⟩
      · exact hagrees h b hb'
    · obtain rfl | hb' := hcases b hb
      · exact (hagrees h a ha').symm
      · exact h a ha' b hb'

namespace Manifest

/-- Merging succeeds exactly when all requirements agree: the first one of a symbol stands for the
others. -/
theorem mergeRequirements_isSome {known requirements : List ForeignSymbolRequirement}
    (hknown : AllAgree known) :
    (mergeRequirements known requirements).isSome ↔ AllAgree (known ++ requirements) := by
  induction requirements generalizing known with
  | nil => simp [mergeRequirements, hknown]
  | cons requirement rest ih =>
    unfold mergeRequirements mergeRequirement
    split
    · rename_i hnone
      have hnew : ∀ found ∈ known, found.externalSymbol ≠ requirement.externalSymbol := by
        simpa using hnone
      rw [Option.bind_some, ih (allAgree_append_singleton hknown hnew), List.append_assoc]
      rfl
    · rename_i found hsome
      have hmem : found ∈ known := List.mem_of_find?_eq_some hsome
      have hsymbol : found.externalSymbol = requirement.externalSymbol := by
        simpa using List.find?_some hsome
      split
      · rename_i hconflict
        simp only [Option.bind_none, Option.isSome_none, Bool.false_eq_true, false_iff]
        intro h
        obtain ⟨hc, hs⟩ := h found (by simp [hmem]) requirement (by simp) hsymbol
        exact hconflict.elim (fun hne => hne hc) (fun hne => hne hs)
      · rename_i hagree
        push Not at hagree
        rw [Option.bind_some, ih hknown, allAgree_insert hmem hsymbol hagree.1 hagree.2]

theorem allAgree_of_verifyDependencies {codec : Codec} {manifest : Manifest}
    {dependencies : List Manifest}
    (h : manifest.verifyDependencies codec dependencies = .ok ()) :
    AllAgree (manifest.requirements ++ dependencies.flatMap requirements) := by
  simp only [verifyDependencies, andThen_eq_ok, ensure_eq_ok] at h
  obtain ⟨-, -, -, hmerge, -⟩ := h
  rw [mergeRequirements_isSome (by simp [AllAgree]), List.nil_append] at hmerge
  intro a ha b hb
  -- sorting the dependencies does not change which requirements there are
  apply hmerge a _ b _
  · simpa using ha
  · simpa using hb

end Manifest

end Incremental

end Chtholly
