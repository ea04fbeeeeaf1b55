import Chtholly.Scanning.Text
import Chtholly.Incremental.Plan

/-!
# A compilation from its units to its plan

A compilation first inspects its units: each one has to name a module, and no two of them the same
one.  Then the imports are resolved, and the units are put in the order of their imports and
compiled.  A compilation whose imports are diagnosed still makes a plan, for its caller to see what
would have been built; the plan is verified before the diagnostics are handed out.

The tokens and the parse trees of the units are not modelled.  A parsed unit comes with what
was diagnosed in it and with its import declarations.  A diagnostic is kept as its kind, without its
position, and the text of a report as the list of the diagnostics in it.

## Main definitions

* `Incremental.ParsedUnit`, `Incremental.Compilation` — a unit after parsing, and a compilation.
* `Incremental.Compilation.resolveImports` — the resolution of the imports of a unit.
* `Incremental.Compilation.failedDecisions` — the decisions of a compilation whose imports are
  diagnosed.
* `Incremental.Compilation.compile` — the plan and the error that a compilation leaves.
-/

set_option autoImplicit false

namespace Chtholly

namespace Incremental

open Registry (Text)

/-! ## Units -/

inductive DiagnosticLevel
  | note
  | warning
  | error
  deriving DecidableEq

/-- The kinds that the inspection itself emits; those of the lexer and the parsers by their level. -/
inductive DiagnosticKind
  | parsing (level : DiagnosticLevel)
  | duplicateModule
  | unknownImport
  | ambiguousImport
  | duplicateImport
  | cfdlInvalidImport
  | importCycle
  deriving DecidableEq

def diagnosticLevel : DiagnosticKind → DiagnosticLevel
  | .parsing level => level
  | _ => .error

/-- `DiagnosticEmitter::hasError`. -/
def hasError (diagnostics : List DiagnosticKind) : Bool :=
  diagnostics.any fun kind => diagnosticLevel kind == .error

structure ImportDeclaration where
  moduleName : Text
  aliasName : Option Text := none
  deriving DecidableEq

/-- A unit after parsing.  The name of its module is empty when the parser found none, and then
that has been diagnosed. -/
structure ParsedUnit extends CompilationUnit where
  diagnostics : List DiagnosticKind := []
  imports : List ImportDeclaration := []
  named : moduleName ≠ [] ∨ hasError diagnostics = true

/-- What the caller of a failed compilation gets to see. -/
inductive CompileError
  | message (text : String)
  /-- The diagnostics of the modules that have errors. -/
  | diagnostics (report : List (Text × List DiagnosticKind))
  deriving DecidableEq

/-- `format_diagnostics`: units with an error are formatted, and only those. -/
def formatDiagnostics (units : List (Text × List DiagnosticKind)) :
    List (Text × List DiagnosticKind) :=
  units.filter fun unit => hasError unit.2

/-- The check artifact of a dependency, as far as imports are resolved in it. -/
structure DependencyCheck where
  packageName : Text
  modules : List (Text × CompilationUnitKind)
  deriving DecidableEq

def DependencyCheck.findModule (dependency : DependencyCheck) (name : Text) :
    Option CompilationUnitKind :=
  (dependency.modules.find? fun module => module.1 == name).map Prod.snd

structure Compilation extends Session where
  units : List ParsedUnit
  dependencyChecks : List DependencyCheck := []

/-- What a compilation leaves: a plan, once there is one, and an error, if it failed. -/
structure CompileResult where
  plan : Option IncrementalCompilationPlan := none
  error : Option CompileError := none
  deriving DecidableEq

/-- An import that was resolved, to a unit of the package or to a module of a dependency. -/
structure UnitImport where
  localUnit : Option ℕ := none
  provider : ModuleIdentity
  deriving DecidableEq

/-- What the loop over the import declarations of a unit keeps. -/
structure ImportState where
  diagnostics : List DiagnosticKind
  seenLookupNames : List Text := []
  seen : List Text := []
  imports : List UnitImport := []

namespace ImportState

def emit (state : ImportState) (kind : DiagnosticKind) : ImportState :=
  { state with diagnostics := state.diagnostics ++ [kind] }

/-- A module is imported once. -/
def push (state : ImportState) (unitImport : UnitImport) : ImportState :=
  let key := unitImport.provider.packageName ++ '\n' :: unitImport.provider.moduleName
  if key ∈ state.seen then state.emit .duplicateImport
  else
    { state with
      seen := key :: state.seen
      imports := state.imports ++ [unitImport] }

end ImportState

namespace Compilation

variable (compilation : Compilation)

/-! ## The inspection of the units -/

/-- The names in `modules`. -/
def moduleNames : List Text :=
  (compilation.units.map fun unit => unit.moduleName).filter fun name => !name.isEmpty

/-- The diagnostics of the units, with one for each name that an earlier unit has. -/
def inspectUnits (seen : List Text) : List ParsedUnit → List (Text × List DiagnosticKind)
  | [] => []
  | unit :: units =>
    (unit.moduleName,
      if !unit.moduleName.isEmpty ∧ unit.moduleName ∈ seen then
        unit.diagnostics ++ [.duplicateModule]
      else unit.diagnostics) :: inspectUnits (unit.moduleName :: seen) units

/-! ## The resolution of imports -/

/-- The dependencies that have a module of the name.  The check artifacts are looked at instead of
the manifests when there are any. -/
def candidates (name : Text) : List ModuleIdentity :=
  if compilation.dependencyChecks = [] then
    (compilation.dependencyManifests.filter fun manifest => (manifest.findModule name).isSome).map
      fun manifest => ⟨manifest.packageName, name⟩
  else
    (compilation.dependencyChecks.filter fun check => (check.findModule name).isSome).map
      fun check => ⟨check.packageName, name⟩

/-- The dependencies that have a foreign binding of the name, by their check artifacts. -/
def bindingCandidates (name : Text) : List ModuleIdentity :=
  (compilation.dependencyChecks.filter fun check =>
    check.findModule name == some .foreignBinding).map fun check => ⟨check.packageName, name⟩

/-- The first unit of the name, with its index. -/
def findUnit (name : Text) : Option (ℕ × ParsedUnit) :=
  (compilation.units.zipIdx.find? fun entry =>
    !entry.1.moduleName.isEmpty && entry.1.moduleName == name).map Prod.swap

/-- An import declaration of a source file. -/
def importModule (state : ImportState) (declaration : ImportDeclaration) : ImportState :=
  let lookupName := declaration.aliasName.getD declaration.moduleName
  if lookupName ∈ state.seenLookupNames then state.emit .duplicateImport
  else
    let state := { state with seenLookupNames := lookupName :: state.seenLookupNames }
    if declaration.aliasName.any fun name => decide (name ∈ compilation.moduleNames) then
      state.emit .duplicateImport
    else
      match compilation.findUnit declaration.moduleName with
      | some (id, _) =>
        state.push ⟨some id, ⟨compilation.packageName, declaration.moduleName⟩⟩
      | none =>
        match compilation.candidates declaration.moduleName with
        | [provider] => state.push { provider := provider }
        | [] => if hasError state.diagnostics then state else state.emit .unknownImport
        -- the import that was found first is dropped; the unit has an error by now
        | _ :: _ :: _ => state.emit .ambiguousImport

/-- An import declaration of a foreign binding, which imports foreign bindings only. -/
def importBinding (state : ImportState) (declaration : ImportDeclaration) : ImportState :=
  match compilation.findUnit declaration.moduleName with
  | some (id, provider) =>
    if provider.kind ≠ .foreignBinding then state.emit .cfdlInvalidImport
    else state.push ⟨some id, ⟨compilation.packageName, declaration.moduleName⟩⟩
  | none =>
    match compilation.bindingCandidates declaration.moduleName with
    | [provider] => state.push { provider := provider }
    | [] => state.emit .unknownImport
    | _ :: _ :: _ => (state.emit .ambiguousImport).emit .unknownImport

def resolveImports (unit : ParsedUnit) : ImportState :=
  match unit.kind with
  | .chthollySource =>
    unit.imports.foldl compilation.importModule { diagnostics := unit.diagnostics }
  | .foreignBinding =>
    unit.imports.foldl compilation.importBinding { diagnostics := unit.diagnostics }

/-- The report once the imports are resolved. -/
def importDiagnostics : List (Text × List DiagnosticKind) :=
  formatDiagnostics (compilation.units.map fun unit =>
    (unit.moduleName, (compilation.resolveImports unit).diagnostics))

/-! ## The order of the units -/

/-- The units that a unit imports. -/
def localImports (id : ℕ) : List ℕ :=
  (compilation.units[id]?.map fun unit =>
    (compilation.resolveImports unit).imports.filterMap UnitImport.localUnit).getD []

/-- The first unit that has not been taken and whose imports have been: the top of the queue. -/
def nextReady (order : List ℕ) : Option ℕ :=
  (List.range compilation.units.length).find? fun id =>
    decide (id ∉ order) && (compilation.localImports id).all fun dependency =>
      decide (dependency ∈ order)

/-- The loop that empties the queue, for a number of turns. -/
def takeReady (order : List ℕ) : ℕ → List ℕ
  | 0 => order
  | turns + 1 =>
    match compilation.nextReady order with
    | none => order
    | some id => takeReady (order ++ [id]) turns

def order : List ℕ := compilation.takeReady [] compilation.units.length

/-- The report when a unit is left over. -/
def cycleDiagnostics : List (Text × List DiagnosticKind) :=
  formatDiagnostics (compilation.units.zipIdx.map fun (unit, id) =>
    (unit.moduleName, (compilation.resolveImports unit).diagnostics ++
      if id ∈ compilation.order then [] else [.importCycle]))

/-! ## The plan when imports are diagnosed -/

/-- The module that was observed is a unit, or a module of a dependency. -/
def providerExists (observation : DependencyObservation) : Bool :=
  if observation.provider.packageName = compilation.packageName then
    decide (observation.provider.moduleName ∈ compilation.moduleNames)
  else
    (compilation.dependencyManifests.find? fun manifest =>
      manifest.packageName == observation.provider.packageName).any fun manifest =>
        (manifest.findModule observation.provider.moduleName).isSome

/-- What is known of an observation without the interfaces.  The reason is given the binding. -/
def failedObservation (observation : DependencyObservation) : Option UnitInvalidation :=
  if compilation.providerExists observation = true then none
  else some ⟨.importedModuleRemoved, observation.provider, observation.bindingName⟩

def failedInvalidations (unit : CompilationUnit) : List UnitInvalidation :=
  match compilation.previousModule unit with
  | none => [{ reason := .moduleAdded }]
  | some previous =>
    Session.reasonWhen (compilation.configurationMatches = false)
        .compilationConfigurationChanged ++
      if previous.sourceFingerprint ≠ compilation.sourceFingerprint unit then
        { reason := .sourceChanged } ::
          Session.reasonWhen (previous.unitKind ≠ unit.kind) .sourceKindChanged
      else
        Session.reasonWhen (unit.outputRequired = true) .requestedOutput ++
          previous.observations.filterMap compilation.failedObservation

def failedDecision (unit : ParsedUnit) : UnitCompilationDecision :=
  let invalidations := compilation.failedInvalidations unit.toCompilationUnit
  ⟨unit.moduleName, if invalidations = [] then .reuse else .rebuild, invalidations⟩

/-- The modules of the previous manifest that are no longer there. -/
def removedDecisions : List UnitCompilationDecision :=
  (compilation.previousManifest.toList.flatMap Manifest.modules).filterMap fun module =>
    if module.moduleName ∈ compilation.moduleNames then none
    else some ⟨module.moduleName, .removed, [{ reason := .moduleRemoved }]⟩

def failedDecisions : List UnitCompilationDecision :=
  compilation.units.map compilation.failedDecision ++ compilation.removedDecisions

/-! ## The compilation -/

/-- The checks of the previous manifest and of the manifests of the dependencies. -/
def checkRequest (codec : Codec) : Except String Unit := do
  checkAll (Manifest.verify codec) compilation.previousManifest.toList
  checkAll
    (fun dependency => do
      dependency.verify codec
      ensure
        (dependency.targetTriple == compilation.targetTriple &&
          dependency.compileToolchainFingerprint == compilation.compileToolchainFingerprint &&
          compilation.languageContract.isDependencyCompatibleWith dependency.languageContract &&
          dependency.packageName != compilation.packageName)
        "compilation request has an invalid direct dependency manifest")
    compilation.dependencyManifests
  ensure (decide (compilation.dependencyManifests.map Manifest.packageName).Nodup)
    "compilation request has an invalid direct dependency manifest"

/-- The plan is kept in any case; when it is not accepted, the error is the one of the plan. -/
def finish (decisions : List UnitCompilationDecision) (error : Option CompileError) :
    CompileResult :=
  let plan := IncrementalCompilationPlan.ofDecisions decisions
  match plan.verify with
  | .error planError => ⟨some plan, some (.message planError)⟩
  | .ok () => ⟨some plan, error⟩

/-- The compilation, as far as its plan goes. -/
def compile (codec : Codec) : CompileResult :=
  match compilation.checkRequest codec with
  | .error message => { error := some (.message message) }
  | .ok () =>
    let report := formatDiagnostics (inspectUnits [] compilation.units)
    if report ≠ [] then { error := some (.diagnostics report) }
    else if compilation.importDiagnostics ≠ [] then
      finish compilation.failedDecisions (some (.diagnostics compilation.importDiagnostics))
    else if compilation.order.length ≠ compilation.units.length then
      { error := some (.diagnostics compilation.cycleDiagnostics) }
    else
      let units := compilation.order.filterMap fun id => compilation.units[id]?
      match compilation.compileUnits {} (units.map ParsedUnit.toCompilationUnit) with
      | .error message => { error := some (.message message) }
      | .ok state => finish (state.decisions ++ compilation.removedDecisions) none

end Compilation

end Incremental

end Chtholly
