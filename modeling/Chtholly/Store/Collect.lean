import Chtholly.Store.Publish

/-!
# The closure of a reference, and collection

The closure of a manifest is loaded depth first: the dependencies of a manifest come before it, and
it is checked against them.  An acquisition loads the closure of its reference to see that it is
consistent.  A collection loads the closures of all references and active leases, marks what they
name, and removes the other files; where a closure does not load, nothing is removed.

## Main definitions

* `Store.ReachableArtifacts` — the marked artifacts.
* `Store.closureTracer`, `Store.loadManifestClosure` — the closure of a manifest.
* `Store.verifyReferenceClosure` — the closure of a session reference.
* `Store.markAll`, `Store.Files.sweep` — the two parts of a collection.

## Main results

* `Store.markAll_spec` — what is marked names marked artifacts, and the roots are marked.
-/

set_option autoImplicit false

namespace Chtholly

namespace Store

open Registry (Text Bytes)
open Incremental

/-- The record of a lease file. -/
structure Lease where
  sessionKey : Text
  targetTriple : Text
  rootPackage : Text
  rootManifest : StableFingerprint
  deriving DecidableEq

structure ReachableArtifacts where
  manifests : List StableFingerprint := []
  objects : List StableFingerprint := []
  specializationComponents : List StableFingerprint := []
  nominals : NominalKind → List StableFingerprint := fun _ => []

namespace ReachableArtifacts

def marks (reachable : ReachableArtifacts) : ArtifactName → Prop
  | .manifest fingerprint => fingerprint ∈ reachable.manifests
  | .object fingerprint => fingerprint ∈ reachable.objects
  | .component fingerprint => fingerprint ∈ reachable.specializationComponents
  | .nominal kind fingerprint => fingerprint ∈ reachable.nominals kind

instance (reachable : ReachableArtifacts) (name : ArtifactName) :
    Decidable (reachable.marks name) :=
  match name with
  | .manifest fingerprint => inferInstanceAs (Decidable (fingerprint ∈ reachable.manifests))
  | .object fingerprint => inferInstanceAs (Decidable (fingerprint ∈ reachable.objects))
  | .component fingerprint =>
    inferInstanceAs (Decidable (fingerprint ∈ reachable.specializationComponents))
  | .nominal kind fingerprint =>
    inferInstanceAs (Decidable (fingerprint ∈ reachable.nominals kind))

/-- The nominal artifacts of a module. -/
def addNominals (reachable : ReachableArtifacts) (module : PackageModuleArtifact) :
    ReachableArtifacts :=
  { reachable with
    nominals := fun kind =>
      (nominalReferences module kind).map ArtifactReference.resultFingerprint ++
        reachable.nominals kind }

/-- A manifest and the objects of its modules. -/
def addManifest (reachable : ReachableArtifacts) (fingerprint : StableFingerprint)
    (manifest : Manifest) : ReachableArtifacts :=
  { reachable with
    manifests := fingerprint :: reachable.manifests
    objects := manifest.modules.map PackageModuleArtifact.objectFingerprint ++ reachable.objects }

end ReachableArtifacts

/-! ## The closure of a manifest -/

/-- The calls of a stored component. -/
def componentDependencies (codec : ArtifactCodec) (files : Files)
    (fingerprint : StableFingerprint) : Except String (List StableFingerprint) :=
  match files.loadComponent codec "specialization manifest closure contains a corrupt component"
      fingerprint with
  | .error message => .error message
  | .ok component => .ok component.dependencies

def markSpecializationClosure (codec : ArtifactCodec) (depth : ℕ) (files : Files)
    (reachable : ReachableArtifacts) (fingerprint : StableFingerprint) :
    Except String ReachableArtifacts :=
  match Tracing.mark (componentDependencies codec files)
      "specialization manifest closure is too deep" depth reachable.specializationComponents
      fingerprint with
  | .error message => .error message
  | .ok components => .ok { reachable with specializationComponents := components }

def markModule (codec : ArtifactCodec) (depth : ℕ) (files : Files)
    (reachable : ReachableArtifacts) (module : PackageModuleArtifact) :
    Except String ReachableArtifacts :=
  match (module.specializations.map ArtifactReference.resultFingerprint).foldlM
      (markSpecializationClosure codec depth files) reachable with
  | .error message => .error message
  | .ok reachable => .ok (reachable.addNominals module)

/-- The state of `loadManifestClosure`: `visited`, the output and the marks. -/
structure ClosureState where
  visited : List StableFingerprint := []
  manifests : List Manifest := []
  reachable : ReachableArtifacts := {}

/-- `emplace`: the manifest that stands for the package afterwards, and the output. -/
def emplaceManifest (codec : ArtifactCodec) (manifests : List Manifest) (manifest : Manifest) :
    Except String (Manifest × List Manifest) :=
  match findPackage manifests manifest.packageName with
  | none => .ok (manifest, manifests ++ [manifest])
  | some existing =>
    if existing.fingerprint codec.toCodec = manifest.fingerprint codec.toCodec then
      .ok (existing, manifests)
    else .error "compiler manifest closure contains duplicate package identities"

/-- A manifest whose dependencies have been visited joins the output, and is checked against
them. -/
def settleManifest (codec : ArtifactCodec) (manifests : List Manifest) (manifest : Manifest) :
    Except String (List Manifest) := do
  let (stored, manifests) ← emplaceManifest codec manifests manifest
  let dependencies ← stored.directDependencies.mapM fun dependency =>
    match findPackage manifests dependency.packageName with
    | none => .error "compiler manifest closure omitted a direct dependency"
    | some found => .ok found
  stored.verifyDependencies codec.toCodec dependencies
  return manifests

/-- `visit` of `loadManifestClosure`.  The files do not change while the lock is held, so the
manifest that is loaded first is there afterwards. -/
def closureTracer (codec : ArtifactCodec) (marking : Bool) (depth : ℕ) (files : Files) :
    Tracing.Tracer StableFingerprint ClosureState String where
  settled state fingerprint := state.visited.contains fingerprint
  enter state fingerprint :=
    match files.loadManifest codec fingerprint with
    | .error message => .error message
    | .ok manifest =>
      let next := manifest.directDependencies.map PackageManifestDependency.manifestFingerprint
      if marking then
        match manifest.modules.foldlM (markModule codec depth files) state.reachable with
        | .error message => .error message
        | .ok reachable => .ok (next, { state with reachable })
      else .ok (next, state)
  leave state fingerprint :=
    match files.loadManifest codec fingerprint with
    | .error message => .error message
    | .ok manifest =>
      match settleManifest codec state.manifests manifest with
      | .error message => .error message
      | .ok manifests => .ok
        { visited := fingerprint :: state.visited
          manifests := manifests
          reachable :=
            if marking then state.reachable.addManifest fingerprint manifest
            else state.reachable }
  cycle := "compiler package manifest dependency closure contains a cycle"
  tooDeep := "compiler package manifest dependency closure is too deep"

def loadManifestClosure (codec : ArtifactCodec) (marking : Bool) (depth : ℕ) (files : Files)
    (reachable : ReachableArtifacts) (root : StableFingerprint) : Except String ClosureState :=
  Tracing.trace (closureTracer codec marking depth files) depth [] { reachable } root

/-- The root package of a closure is the root manifest. -/
def resolvesRoot (codec : ArtifactCodec) (manifests : List Manifest) (rootPackage : Text)
    (rootManifest : StableFingerprint) : Bool :=
  (findPackage manifests rootPackage).any fun manifest =>
    manifest.fingerprint codec.toCodec == rootManifest

def verifyReferenceClosure (codec : ArtifactCodec) (marking : Bool) (depth : ℕ) (files : Files)
    (reachable : ReachableArtifacts) (reference : SessionReference) :
    Except String ReachableArtifacts := do
  let state ← loadManifestClosure codec marking depth files reachable reference.rootManifest
  ensure (state.manifests.all fun manifest => manifest.targetTriple == reference.targetTriple)
    "compiler session manifest closure has an inconsistent target"
  ensure (resolvesRoot codec state.manifests reference.rootPackage reference.rootManifest)
    "compiler session reference does not resolve to its root package"
  return state.reachable

/-! ## Collection -/

def invalidReference (session : Text) (message : String) : String :=
  "compiler GC aborted on invalid reference '" ++ String.ofList session ++ ".ref': " ++ message ++
    "; the namespace was retained without deleting artifacts; " ++
    "retry with a fresh --cache-dir or remove this cache " ++
    "namespace only after all compiler processes exit"

def invalidLease (lease : StableFingerprint) (message : String) : String :=
  "compiler GC aborted on invalid active lease '" ++ String.ofList lease.hex ++ ".lease': " ++
    message

/-- The loop over the references. -/
def markReference (codec : ArtifactCodec) (depth : ℕ) (files : Files)
    (reachable : ReachableArtifacts) (entry : Text × SessionReference) :
    Except String ReachableArtifacts :=
  match verifyReferenceClosure codec true depth files reachable entry.2 with
  | .error message => .error (invalidReference entry.1 message)
  | .ok reachable => .ok reachable

/-- The loop over the active leases. -/
def markLease (codec : ArtifactCodec) (depth : ℕ) (files : Files)
    (reachable : ReachableArtifacts) (entry : StableFingerprint × Lease) :
    Except String ReachableArtifacts :=
  match loadManifestClosure codec true depth files reachable entry.2.rootManifest with
  | .error message => .error (invalidLease entry.1 message)
  | .ok state =>
    if resolvesRoot codec state.manifests entry.2.rootPackage entry.2.rootManifest &&
        state.manifests.all fun manifest => manifest.targetTriple == entry.2.targetTriple then
      .ok state.reachable
    else .error "compiler GC aborted on inconsistent active lease closure"

def markAll (codec : ArtifactCodec) (depth : ℕ) (files : Files)
    (references : List (Text × SessionReference)) (active : List (StableFingerprint × Lease)) :
    Except String ReachableArtifacts := do
  let reachable ← references.foldlM (markReference codec depth files) {}
  active.foldlM (markLease codec depth files) reachable

/-- The files that are left: those of marked artifacts, and those that `kept` says the collection
did not come to. -/
def Files.sweep (files : Files) (reachable : ReachableArtifacts)
    (kept : ArtifactName → Text → Bool) : Files where
  manifests fingerprint :=
    if reachable.marks (.manifest fingerprint) ∨ kept (.manifest fingerprint) [] then
      files.manifests fingerprint
    else none
  objects fingerprint extension :=
    if reachable.marks (.object fingerprint) ∨ kept (.object fingerprint) extension then
      files.objects fingerprint extension
    else none
  components fingerprint :=
    if reachable.marks (.component fingerprint) ∨ kept (.component fingerprint) [] then
      files.components fingerprint
    else none
  nominals kind fingerprint :=
    if reachable.marks (.nominal kind fingerprint) ∨ kept (.nominal kind fingerprint) [] then
      files.nominals kind fingerprint
    else none

/-! ## What is marked -/

/-- The marks of the first are marks of the second. -/
def ReachableArtifacts.Within (reachable reachable' : ReachableArtifacts) : Prop :=
  ∀ name, reachable.marks name → reachable'.marks name

/-- A marked artifact names marked artifacts. -/
def ReachableArtifacts.Closed (files : Files) (reachable : ReachableArtifacts) : Prop :=
  ∀ name, reachable.marks name → ∀ next ∈ files.edges name, reachable.marks next

lemma ReachableArtifacts.Within.refl (reachable : ReachableArtifacts) :
    reachable.Within reachable :=
  fun _ h => h

lemma ReachableArtifacts.Within.trans (a b c : ReachableArtifacts) (hab : a.Within b)
    (hbc : b.Within c) : a.Within c :=
  fun name h => hbc name (hab name h)

section Marks

variable {codec : ArtifactCodec} {depth : ℕ} {files : Files} {reachable : ReachableArtifacts}

variable {fingerprint : StableFingerprint}

lemma componentDependencies_eq_ok {dependencies : List StableFingerprint}
    (h : componentDependencies codec files fingerprint = .ok dependencies) :
    files.edges (.component fingerprint) = dependencies.map ArtifactName.component := by
  unfold componentDependencies at h
  split at h
  · cases h
  · rename_i component hload
    obtain rfl := Except.ok.inj h
    simp [Files.edges, (Files.loadComponent_eq_ok hload).1]

/-- One more component with what it calls. -/
lemma markSpecializationClosure_spec (reachable : ReachableArtifacts)
    (fingerprint : StableFingerprint) (reachable' : ReachableArtifacts)
    (hclosed : reachable.Closed files)
    (h : markSpecializationClosure codec depth files reachable fingerprint = .ok reachable') :
    reachable'.Closed files ∧ reachable.Within reachable' ∧
      reachable'.marks (.component fingerprint) := by
  unfold markSpecializationClosure at h
  split at h
  · cases h
  · rename_i components hmark
    obtain rfl := Except.ok.inj h
    obtain ⟨⟨hsub, hnew⟩, hmem⟩ := Tracing.mark_spec hmark
    have hwithin : reachable.Within { reachable with specializationComponents := components } := by
      intro name hname
      cases name with
      | component name => exact hsub hname
      | manifest name => exact hname
      | object name => exact hname
      | nominal kind name => exact hname
    refine ⟨fun name hname next hnext => ?_, hwithin, hmem⟩
    by_cases hold : reachable.marks name
    · exact hwithin next (hclosed name hold next hnext)
    · -- only components have been added
      cases name with
      | component name =>
        obtain ⟨dependencies, hload, hdependencies⟩ := hnew name hname hold
        rw [componentDependencies_eq_ok hload, List.mem_map] at hnext
        obtain ⟨dependency, hdependency, rfl⟩ := hnext
        exact hdependencies hdependency
      | manifest name => exact absurd hname hold
      | object name => exact absurd hname hold
      | nominal kind name => exact absurd hname hold

lemma addNominals_within (module : PackageModuleArtifact) :
    reachable.Within (reachable.addNominals module) := by
  intro name hname
  cases name with
  | nominal kind name => exact List.mem_append_right _ hname
  | manifest name => exact hname
  | object name => exact hname
  | component name => exact hname

lemma addNominals_marks {module : PackageModuleArtifact} {name : ArtifactName}
    (h : name ∈ nominalNames module) : (reachable.addNominals module).marks name := by
  obtain ⟨kind, reference, hreference, rfl⟩ := mem_nominalNames.mp h
  exact List.mem_append_left _ (List.mem_map_of_mem hreference)

/-- What a module names, its object apart. -/
def sharedNames (module : PackageModuleArtifact) : List ArtifactName :=
  module.specializations.map (fun reference => .component reference.resultFingerprint) ++
    nominalNames module

lemma markModule_spec (reachable : ReachableArtifacts) (module : PackageModuleArtifact)
    (reachable' : ReachableArtifacts) (hclosed : reachable.Closed files)
    (h : markModule codec depth files reachable module = .ok reachable') :
    reachable'.Closed files ∧ reachable.Within reachable' ∧
      ∀ name ∈ sharedNames module, reachable'.marks name := by
  unfold markModule at h
  split at h
  · cases h
  · rename_i middle hfold
    obtain rfl := Except.ok.inj h
    obtain ⟨hmiddle, hwithin, hcomponents⟩ :=
      Tracing.foldlM_rule markSpecializationClosure_spec ReachableArtifacts.Within.refl
        ReachableArtifacts.Within.trans (fun _ _ _ hgrow hmark => hgrow _ hmark) hclosed hfold
    refine ⟨fun name hname next hnext => ?_, hwithin.trans _ _ _ (addNominals_within module),
      fun name hname => ?_⟩
    · -- a nominal artifact names nothing
      cases name with
      | nominal kind name => simp [Files.edges] at hnext
      | object name => simp [Files.edges] at hnext
      | manifest name => exact addNominals_within module _ (hmiddle (.manifest name) hname _ hnext)
      | component name =>
        exact addNominals_within module _ (hmiddle (.component name) hname _ hnext)
    · rcases List.mem_append.mp hname with hname | hname
      · obtain ⟨reference, hreference, rfl⟩ := List.mem_map.mp hname
        exact addNominals_within module _ (hcomponents _ (List.mem_map_of_mem hreference))
      · exact addNominals_marks hname

lemma addManifest_within {manifest : Manifest} :
    reachable.Within (reachable.addManifest fingerprint manifest) := by
  intro name hname
  cases name with
  | manifest name => exact .tail _ hname
  | object name => exact List.mem_append_right _ hname
  | component name => exact hname
  | nominal kind name => exact hname

/-- A manifest is marked once all that it names is. -/
lemma addManifest_closed {manifest : Manifest} (hclosed : reachable.Closed files)
    (hmanifest : files.manifests fingerprint = some manifest)
    (hdependencies : ∀ dependency ∈ manifest.directDependencies,
      reachable.marks (.manifest dependency.manifestFingerprint))
    (hmodules : ∀ module ∈ manifest.modules, ∀ name ∈ sharedNames module, reachable.marks name) :
    (reachable.addManifest fingerprint manifest).Closed files := by
  intro name hname next hnext
  cases name with
  | object name => simp [Files.edges] at hnext
  | nominal kind name => simp [Files.edges] at hnext
  | component name => exact addManifest_within _ (hclosed (.component name) hname _ hnext)
  | manifest name =>
    rcases List.mem_cons.mp hname with rfl | hname
    · simp only [Files.edges, hmanifest, Option.map_some, Option.getD_some, manifestNames,
        List.mem_append, List.mem_map, List.mem_flatMap] at hnext
      rcases hnext with ⟨dependency, hdependency, rfl⟩ | ⟨module, hmodule, hnext⟩
      · exact addManifest_within _ (hdependencies dependency hdependency)
      · rcases List.mem_cons.mp hnext with rfl | hnext
        · exact List.mem_append_left _ (List.mem_map_of_mem hmodule)
        · exact addManifest_within _ (hmodules module hmodule next hnext)
    · exact addManifest_within _ (hclosed (.manifest name) hname _ hnext)

/-- The invariant of the closure: marks are closed, and a visited manifest is marked. -/
def ClosureState.Marked (files : Files) (state : ClosureState) : Prop :=
  state.reachable.Closed files ∧
    ∀ fingerprint ∈ state.visited, state.reachable.marks (.manifest fingerprint)

/-- Between `enter` and `leave`, what the modules of a manifest share is marked. -/
def ClosureState.Entered (files : Files) (fingerprint : StableFingerprint)
    (next : List StableFingerprint) (state : ClosureState) : Prop :=
  ∃ manifest, files.manifests fingerprint = some manifest ∧
    next = manifest.directDependencies.map PackageManifestDependency.manifestFingerprint ∧
    ∀ module ∈ manifest.modules, ∀ name ∈ sharedNames module, state.reachable.marks name

variable {state : ClosureState}

lemma closureTracer_enter {state' : ClosureState} {next : List StableFingerprint}
    (hmarked : state.Marked files)
    (h : (closureTracer codec true depth files).enter state fingerprint = .ok (next, state')) :
    state'.Marked files ∧ state.reachable.Within state'.reachable ∧
      state'.Entered files fingerprint next := by
  simp only [closureTracer, if_true] at h
  split at h
  · cases h
  · rename_i manifest hload
    split at h
    · cases h
    · rename_i reachable hfold
      obtain ⟨rfl, rfl⟩ := Prod.mk.inj (Except.ok.inj h)
      obtain ⟨hclosed, hwithin, hmodules⟩ :=
        Tracing.foldlM_rule markModule_spec ReachableArtifacts.Within.refl
          ReachableArtifacts.Within.trans
          (fun _ _ _ hgrow hmark name hname => hgrow _ (hmark name hname)) hmarked.1 hfold
      exact ⟨⟨hclosed, fun fingerprint hvisited => hwithin _ (hmarked.2 fingerprint hvisited)⟩,
        hwithin, manifest, (Files.loadManifest_eq_ok hload).1, rfl, hmodules⟩

lemma closureTracer_leave {state' : ClosureState} {next : List StableFingerprint}
    (hmarked : state.Marked files) (hentered : state.Entered files fingerprint next)
    (hnext : ∀ dependency ∈ next, state.reachable.marks (.manifest dependency))
    (h : (closureTracer codec true depth files).leave state fingerprint = .ok state') :
    state'.Marked files ∧ state.reachable.Within state'.reachable ∧
      state'.reachable.marks (.manifest fingerprint) := by
  obtain ⟨manifest, hmanifest, rfl, hmodules⟩ := hentered
  simp only [closureTracer, if_true] at h
  split at h
  · cases h
  · rename_i loaded hload
    obtain rfl : loaded = manifest :=
      Option.some.inj ((Files.loadManifest_eq_ok hload).1.symm.trans hmanifest)
    split at h
    · cases h
    · obtain rfl := Except.ok.inj h
      have hclosed := addManifest_closed hmarked.1 hmanifest
        (fun dependency hdependency => hnext _ (List.mem_map_of_mem hdependency)) hmodules
      refine ⟨⟨hclosed, fun visited hvisited => ?_⟩, addManifest_within, .head _⟩
      rcases List.mem_cons.mp hvisited with rfl | hvisited
      · exact .head _
      · exact addManifest_within _ (hmarked.2 visited hvisited)

lemma closureTracer_rule (codec : ArtifactCodec) (depth : ℕ) (files : Files) :
    (closureTracer codec true depth files).Rule (fun state => state.Marked files)
      (fun state state' => state.reachable.Within state'.reachable)
      (fun fingerprint next state => state.Entered files fingerprint next)
      (fun fingerprint state => state.reachable.marks (.manifest fingerprint)) where
  refl state := .refl _
  trans _ _ _ hst htu := hst.trans _ _ _ htu
  entered_mono := by
    rintro fingerprint next state state' hwithin ⟨manifest, hmanifest, hnext, hmodules⟩
    exact ⟨manifest, hmanifest, hnext,
      fun module hmodule name hname => hwithin _ (hmodules module hmodule name hname)⟩
  settled_mono fingerprint _ _ hwithin hmark := hwithin _ hmark
  settled fingerprint state hmarked hsettled :=
    hmarked.2 fingerprint (by simpa [closureTracer] using hsettled)
  enter _ _ _ _ hmarked h := closureTracer_enter hmarked h
  leave _ _ _ _ hmarked hentered hnext h := closureTracer_leave hmarked hentered hnext h

lemma loadManifestClosure_spec {root : StableFingerprint} (hclosed : reachable.Closed files)
    (h : loadManifestClosure codec true depth files reachable root = .ok state) :
    state.reachable.Closed files ∧ reachable.Within state.reachable ∧
      state.reachable.marks (.manifest root) := by
  have hstart : ClosureState.Marked files { reachable } :=
    ⟨hclosed, fun fingerprint hvisited => absurd hvisited List.not_mem_nil⟩
  obtain ⟨hmarked, hwithin, hroot⟩ :=
    Tracing.trace_rule (closureTracer_rule codec depth files) hstart h
  exact ⟨hmarked.1, hwithin, hroot⟩

lemma markReference_spec (reachable : ReachableArtifacts) (entry : Text × SessionReference)
    (reachable' : ReachableArtifacts) (hclosed : reachable.Closed files)
    (h : markReference codec depth files reachable entry = .ok reachable') :
    reachable'.Closed files ∧ reachable.Within reachable' ∧
      reachable'.marks (.manifest entry.2.rootManifest) := by
  unfold markReference at h
  split at h
  · cases h
  · rename_i marked hverify
    obtain rfl := Except.ok.inj h
    unfold verifyReferenceClosure at hverify
    obtain ⟨state, hload, hchecks⟩ := except_bind_eq_ok.mp hverify
    obtain ⟨-, -, hchecks⟩ := except_bind_eq_ok.mp hchecks
    obtain ⟨-, -, hstate⟩ := except_bind_eq_ok.mp hchecks
    obtain rfl := Except.ok.inj hstate
    exact loadManifestClosure_spec hclosed hload

lemma markLease_spec (reachable : ReachableArtifacts) (entry : StableFingerprint × Lease)
    (reachable' : ReachableArtifacts) (hclosed : reachable.Closed files)
    (h : markLease codec depth files reachable entry = .ok reachable') :
    reachable'.Closed files ∧ reachable.Within reachable' ∧
      reachable'.marks (.manifest entry.2.rootManifest) := by
  unfold markLease at h
  split at h
  · cases h
  · rename_i state hload
    split at h
    · obtain rfl := Except.ok.inj h
      exact loadManifestClosure_spec hclosed hload
    · cases h

/-- What is marked names marked artifacts, and the roots are marked. -/
theorem markAll_spec {references : List (Text × SessionReference)}
    {active : List (StableFingerprint × Lease)} {marked : ReachableArtifacts}
    (h : markAll codec depth files references active = .ok marked) :
    marked.Closed files ∧
      (∀ entry ∈ references, marked.marks (.manifest entry.2.rootManifest)) ∧
      ∀ entry ∈ active, marked.marks (.manifest entry.2.rootManifest) := by
  unfold markAll at h
  obtain ⟨middle, hreferences, hactive⟩ := except_bind_eq_ok.mp h
  have hstart : ReachableArtifacts.Closed files {} := by
    intro name hname
    cases name <;> simp [ReachableArtifacts.marks] at hname
  obtain ⟨hmiddle, -, hrefs⟩ :=
    Tracing.foldlM_rule markReference_spec ReachableArtifacts.Within.refl
      ReachableArtifacts.Within.trans (fun _ _ _ hgrow hmark => hgrow _ hmark) hstart hreferences
  obtain ⟨hclosed, hwithin, hleases⟩ :=
    Tracing.foldlM_rule markLease_spec ReachableArtifacts.Within.refl
      ReachableArtifacts.Within.trans (fun _ _ _ hgrow hmark => hgrow _ hmark) hmiddle hactive
  exact ⟨hclosed, fun entry hentry => hwithin _ (hrefs entry hentry), hleases⟩

end Marks

end Store

end Chtholly
