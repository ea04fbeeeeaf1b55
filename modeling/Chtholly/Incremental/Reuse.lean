import Chtholly.Incremental.Session

/-!
# Reuse and the observations of a unit

The session compares an observation with the interfaces in the registry; the verification of a
manifest compares it with the artifacts.  Here the two are compared with each other: a unit that is
otherwise unchanged is reused exactly when its observations hold in the sense of the verification
and the witnesses of its lifecycle observations are still listed, provided that no binding it
observed is overloaded.  The session looks at the first function of a binding only.

## Main definitions

* `Incremental.Session.Holds` — an observation holds of the interfaces as they are now.
* `Incremental.Unambiguous` — the functions that a binding can mean have one fingerprint.
* `Incremental.Session.UnitUnchanged`, `Incremental.Session.PackageUnchanged` — nothing but the
  observations can be a reason to build the unit; nothing has changed at all.

## Main results

* `Incremental.Session.observationInvalidation_eq_none_iff` — one observation.
* `Incremental.Session.compileUnit_reuse_iff` — one unit.
* `Incremental.Session.compileUnits_reuse` — every run of a session.
-/

set_option autoImplicit false

namespace Chtholly

namespace Incremental

open Registry (Text Bytes)

/-! ## What the previous manifest has been checked for -/

variable {observations : List DependencyObservation}

lemma wellFormed_of_verifyObservations {moduleName : Text}
    {previous : Option DependencyObservation} {observation : DependencyObservation}
    (h : verifyObservations moduleName previous observations = .ok ())
    (hmem : observation ∈ observations) : observation.wellFormed = true := by
  induction observations generalizing previous with
  | nil => simp at hmem
  | cons first rest ih =>
    simp only [verifyObservations, andThen_eq_ok, ensure_eq_ok, Bool.and_eq_true] at h
    obtain rfl | hmem := List.mem_cons.mp hmem
    · exact h.1.1
    · exact ih h.2 hmem

namespace Manifest

variable {codec : Codec} {manifest : Manifest} {dependencies : List Manifest}
  {module : PackageModuleArtifact} {observation : DependencyObservation}

lemma verify_of_verifyDependencies
    (h : manifest.verifyDependencies codec dependencies = .ok ()) :
    manifest.verify codec = .ok () := by
  simp only [verifyDependencies, andThen_eq_ok] at h
  exact h.1

lemma hasValue_expectedFingerprint (h : manifest.verify codec = .ok ())
    (hmodule : module ∈ manifest.modules) (hmem : observation ∈ module.observations) :
    observation.expectedFingerprint.hasValue = true := by
  have hverify := verify_of_mem h hmodule
  simp only [PackageModuleArtifact.verify, PackageModuleArtifact.verifyCheck,
    andThen_eq_ok] at hverify
  have hformed := wellFormed_of_verifyObservations hverify.1.2.2.2.2.2 hmem
  simp only [DependencyObservation.wellFormed, Bool.and_eq_true] at hformed
  exact hformed.1.1.1.2

lemma verifyLocal_of_verify (h : manifest.verify codec = .ok ())
    (hmodule : module ∈ manifest.modules) (hmem : observation ∈ module.observations) :
    manifest.verifyLocal observation = .ok () := by
  simp only [verify, andThen_eq_ok, checkAll_eq_ok] at h
  exact (h.2.2 module hmodule).2 observation hmem

lemma verifyForeign_of_verifyDependencies
    (h : manifest.verifyDependencies codec dependencies = .ok ())
    (hmodule : module ∈ manifest.modules) (hmem : observation ∈ module.observations) :
    manifest.verifyForeign
      (dependencies.insertionSort fun a b => a.packageName ≤ b.packageName) observation =
        .ok () := by
  simp only [verifyDependencies, andThen_eq_ok, checkAll_eq_ok] at h
  exact h.2.2.2.2 module hmodule observation hmem

lemma findModule_eq_some {name : Text} (h : manifest.findModule name = some module) :
    module ∈ manifest.modules ∧ module.moduleName = name := by
  obtain ⟨hfind, hname⟩ := Option.filter_eq_some_iff.mp h
  exact ⟨List.mem_of_find?_eq_some hfind, by simpa using hname⟩

/-- An observation of a module of the package holds of that module. -/
lemma checkObservation_local (h : manifest.verify codec = .ok ())
    (hmodule : module ∈ manifest.modules) (hmem : observation ∈ module.observations)
    (hlocal : observation.provider.packageName = manifest.packageName) :
    ∃ provider, manifest.findModule observation.provider.moduleName = some provider ∧
      checkObservation localMessages provider.publicInterface observation = .ok () := by
  have hverify := verifyLocal_of_verify h hmodule hmem
  rw [verifyLocal, if_neg (by simpa using hlocal)] at hverify
  split at hverify
  · simp at hverify
  · rename_i provider hprovider
    exact ⟨provider, hprovider, hverify⟩

/-- An observation of another package holds of a module of a direct dependency. -/
lemma checkObservation_foreign (h : manifest.verifyDependencies codec dependencies = .ok ())
    (hmodule : module ∈ manifest.modules) (hmem : observation ∈ module.observations)
    (hforeign : observation.provider.packageName ≠ manifest.packageName) :
    ∃ dependency ∈ dependencies, dependency.packageName = observation.provider.packageName ∧
      ∃ provider, dependency.findModule observation.provider.moduleName = some provider ∧
        checkObservation dependencyMessages provider.publicInterface observation = .ok () := by
  have hverify := verifyForeign_of_verifyDependencies h hmodule hmem
  rw [verifyForeign, if_neg hforeign] at hverify
  split at hverify
  · simp at hverify
  · rename_i dependency hfound
    obtain ⟨hfind, hname⟩ := Option.filter_eq_some_iff.mp hfound
    have hmem' : dependency ∈ dependencies := by
      simpa using List.mem_of_find?_eq_some hfind
    split at hverify
    · simp at hverify
    · rename_i provider hprovider
      exact ⟨dependency, hmem', by simpa using hname, provider, hprovider, hverify⟩

end Manifest

/-- Whether an observation holds does not depend on the messages. -/
lemma checkObservation_messages {messages messages' : ObservationMessages}
    {provider : PublicInterfaceArtifact} {observation : DependencyObservation}
    (h : checkObservation messages provider observation = .ok ()) :
    checkObservation messages' provider observation = .ok () := by
  unfold checkObservation at h ⊢
  split at h <;> simp_all

lemma expectedFingerprint_of_presence {messages : ObservationMessages}
    {provider : PublicInterfaceArtifact} {observation : DependencyObservation}
    (h : checkObservation messages provider observation = .ok ())
    (hkind : observation.kind = .modulePresence) :
    observation.expectedFingerprint =
      fingerprintModuleIdentity observation.provider.packageName
        observation.provider.moduleName := by
  simpa [checkObservation, hkind] using h

namespace Manifest

lemma expectedFingerprint_of_verifyDependencies {codec : Codec} {manifest : Manifest}
    {dependencies : List Manifest} {module : PackageModuleArtifact}
    {observation : DependencyObservation}
    (h : manifest.verifyDependencies codec dependencies = .ok ())
    (hmodule : module ∈ manifest.modules) (hmem : observation ∈ module.observations)
    (hkind : observation.kind = .modulePresence) :
    observation.expectedFingerprint =
      fingerprintModuleIdentity observation.provider.packageName
        observation.provider.moduleName := by
  by_cases hlocal : observation.provider.packageName = manifest.packageName
  · obtain ⟨provider, -, hcheck⟩ :=
      checkObservation_local (verify_of_verifyDependencies h) hmodule hmem hlocal
    exact expectedFingerprint_of_presence hcheck hkind
  · obtain ⟨dependency, -, -, provider, -, hcheck⟩ :=
      checkObservation_foreign h hmodule hmem hlocal
    exact expectedFingerprint_of_presence hcheck hkind

end Manifest

/-! ## One observation -/

/-- The first element with a property, when at most one element has it, does not depend on the
order. -/
lemma find?_eq_of_perm {α : Type} {p : α → Bool} {l l' : List α} (h : l.Perm l')
    (hunique : ∀ a ∈ l, ∀ b ∈ l, p a = true → p b = true → a = b) : l.find? p = l'.find? p := by
  cases hfind : l.find? p with
  | none =>
    symm
    rw [List.find?_eq_none] at hfind ⊢
    exact fun a ha => hfind a (h.mem_iff.mpr ha)
  | some a =>
    have ha := List.mem_of_find?_eq_some hfind
    have hpa := List.find?_some hfind
    cases hfind' : l'.find? p with
    | none => exact absurd hpa (List.find?_eq_none.mp hfind' a (h.mem_iff.mp ha))
    | some b =>
      have hb := h.mem_iff.mpr (List.mem_of_find?_eq_some hfind')
      rw [hunique a ha b hb hpa (List.find?_some hfind')]

namespace PublishedInterface

lemma findNominalType_artifact (interface : PublishedInterface) (name : Text) :
    interface.findNominalType name = interface.artifact.findNominalType name := by
  apply find?_eq_of_perm interface.nominals_perm
  intro a ha b hb hpa hpb
  simp only [Bool.and_eq_true, beq_iff_eq] at hpa hpb
  exact interface.exportedOnce a ha b hb hpa.1 hpb.1 (hpa.2.trans hpb.2.symm)

/-- The entry of an observed type is the type that its name is bound to. -/
lemma find?_identifies {interface : PublishedInterface} {observation : DependencyObservation}
    {nominal : PublicNominalTypeArtifact} (hmem : nominal ∈ interface.nominals)
    (h : observation.identifies nominal = true) :
    interface.nominals.find? observation.identifies = some nominal := by
  cases hfind : interface.nominals.find? observation.identifies with
  | none => exact absurd h (List.find?_eq_none.mp hfind nominal hmem)
  | some found =>
    have hfound := List.find?_some hfind
    simp only [DependencyObservation.identifies, Bool.and_eq_true, beq_iff_eq] at h hfound
    rw [interface.identifiedOnce found (List.mem_of_find?_eq_some hfind) nominal hmem
      (hfound.1.1.trans h.1.1.symm) (hfound.1.2.trans h.1.2.symm) (hfound.2.trans h.2.symm)]

end PublishedInterface

/-- The functions that a binding can mean have one fingerprint. -/
def Unambiguous (observation : DependencyObservation) (provider : PublicInterfaceArtifact) : Prop :=
  ∀ f ∈ provider.functions, ∀ g ∈ provider.functions, observation.binds f = true →
    observation.binds g = true → f.entityFingerprint = g.entityFingerprint

lemma StableFingerprint.zero_ne_of_hasValue {fingerprint : StableFingerprint}
    (h : fingerprint.hasValue = true) : StableFingerprint.zero ≠ fingerprint := by
  rintro rfl
  exact absurd h (by decide)

namespace Session

variable (session : Session)

/-- The observation holds of the interface that its provider has now, in the sense of the
verification of a manifest. -/
def Holds (state : SessionState) (observation : DependencyObservation) : Prop :=
  ∃ interface, session.currentInterface state observation.provider = some interface ∧
    checkObservation localMessages interface.artifact observation = .ok ()

variable {session}

/-- The comparison of nominal types is the one of the verification. -/
lemma currentNominalFingerprint_eq_iff (interface : PublishedInterface)
    {observation : DependencyObservation}
    (hvalue : observation.expectedFingerprint.hasValue = true) :
    currentNominalFingerprint interface observation = observation.expectedFingerprint ↔
      (interface.artifact.findNominalType observation.bindingName).any (fun binding =>
        observation.identifies binding &&
          observation.nominalFingerprint binding == observation.expectedFingerprint) = true := by
  rw [← interface.findNominalType_artifact]
  unfold currentNominalFingerprint
  cases hfind : interface.findNominalType observation.bindingName with
  | none => simpa using StableFingerprint.zero_ne_of_hasValue hvalue
  | some nominal =>
    have hmem : nominal ∈ interface.nominals := List.mem_of_find?_eq_some hfind
    by_cases hidentifies : observation.identifies nominal = true
    · rw [Option.filter_some_pos hidentifies]
      simp only [Option.any_some, hidentifies, Bool.true_and, beq_iff_eq,
        DependencyObservation.nominalFingerprint,
        PublishedInterface.find?_identifies hmem hidentifies]
    · rw [Option.filter_some_neg (by simpa using hidentifies)]
      simpa [hidentifies] using StableFingerprint.zero_ne_of_hasValue hvalue

/-- The first function of a binding has the fingerprint that some function of it has. -/
lemma boundFingerprint_eq_iff {interface : PublishedInterface} {observation : DependencyObservation}
    (h : Unambiguous observation interface.artifact) :
    boundFingerprint interface observation = some observation.expectedFingerprint ↔
      interface.artifact.functions.any (fun function =>
        observation.binds function &&
          function.entityFingerprint == observation.expectedFingerprint) = true := by
  simp only [boundFingerprint, Option.map_eq_some_iff, List.any_eq_true, Bool.and_eq_true,
    beq_iff_eq]
  constructor
  · rintro ⟨binding, hfind, hfingerprint⟩
    have hmem := interface.bindings_perm.mem_iff.mp (List.mem_of_find?_eq_some hfind)
    exact ⟨binding, hmem, List.find?_some hfind, hfingerprint⟩
  · rintro ⟨function, hmem, hbinds, hfingerprint⟩
    have hmem' := interface.bindings_perm.mem_iff.mpr hmem
    cases hfind : interface.bindings.find? observation.binds with
    | none => exact absurd hbinds (List.find?_eq_none.mp hfind function hmem')
    | some binding =>
      have hbinding := interface.bindings_perm.mem_iff.mp (List.mem_of_find?_eq_some hfind)
      have hsame := h binding hbinding function hmem (List.find?_some hfind) hbinds
      exact ⟨binding, rfl, hsame.trans hfingerprint⟩

variable {previous : PackageModuleArtifact}

/-- Nothing has become of an observation exactly when it holds and, if it is one of a lifecycle
function, its witness is listed. -/
theorem observationInvalidation_eq_none_iff {state : SessionState} {moduleName : Text}
    {observation : DependencyObservation}
    (hvalue : observation.expectedFingerprint.hasValue = true)
    (hpresence : observation.kind = .modulePresence →
      observation.expectedFingerprint =
        fingerprintModuleIdentity observation.provider.packageName
          observation.provider.moduleName)
    (hunambiguous : observation.kind = .entityBinding ∨ observation.kind = .lifecycleCallable →
      ∀ interface, session.currentInterface state observation.provider = some interface →
        Unambiguous observation interface.artifact) :
    session.observationInvalidation state moduleName previous observation = none ↔
      session.Holds state observation ∧
        (observation.kind = .lifecycleCallable →
          session.witnessAvailable state moduleName previous observation = true) := by
  unfold observationInvalidation Holds
  cases hcurrent : session.currentInterface state observation.provider with
  | none => simp
  | some interface =>
    have hbound := fun hkind => boundFingerprint_eq_iff (hunambiguous hkind interface hcurrent)
    have hnominal := currentNominalFingerprint_eq_iff interface hvalue
    simp only [Option.some.injEq, exists_eq_left']
    unfold checkObservation
    cases hkind : observation.kind with
    | modulePresence =>
      have hexpected := hpresence hkind
      simp only [ensure_eq_ok, beq_iff_eq, hexpected, reduceCtorEq, false_imp_iff, and_self]
    | exportSet =>
      rw [ensure_eq_ok, beq_iff_eq, eq_comm (a := observation.expectedFingerprint)]
      simp
    | nominalBinding => simpa using hnominal
    | relocationClosure => simpa using hnominal
    | entityBinding => simpa using hbound (Or.inl hkind)
    | lifecycleCallable =>
      rw [ensure_eq_ok, ← hbound (Or.inr hkind)]
      by_cases hsame :
          boundFingerprint interface observation = some observation.expectedFingerprint
      · simp [hsame]
      · simp [hsame]

/-! ## One unit -/

variable (session) in
/-- In a build, the object of the module is found, and it is the one of the manifest. -/
def ObjectLoads (previous : PackageModuleArtifact) : Prop :=
  session.mode = .build →
    let loaded := session.loadObject previous.objectFingerprint previous.specificFingerprint
    loaded.status = .found ∧ loaded.bytes ≠ [] ∧
      fingerprintObject session.targetTriple loaded.bytes previous.specificFingerprint =
        previous.objectFingerprint

variable (session) in
/-- Nothing but its observations can be a reason to build the unit: its source, its kind, the
configuration and its emission role are those of the manifest, no output of it is asked for, and its
object loads. -/
structure UnitUnchanged (unit : CompilationUnit) (previous : PackageModuleArtifact) : Prop where
  module : session.previousModule unit = some previous
  configuration : session.configurationMatches = true
  source : previous.sourceFingerprint = session.sourceFingerprint unit
  kind : previous.unitKind = unit.kind
  role : previous.emissionRole = unit.emissionRole
  output : unit.outputRequired = false
  component : session.componentExports = []
  object : session.ObjectLoads previous

variable {unit : CompilationUnit}

/-- All that is found for an unchanged unit is found in its observations of other modules. -/
lemma moduleInvalidations_of_unchanged {state : SessionState}
    (h : session.UnitUnchanged unit previous) :
    session.moduleInvalidations state unit previous =
      (previous.observations.filter (session.isForeign unit.moduleName)).filterMap
        (session.observationInvalidation state unit.moduleName previous) := by
  simp [moduleInvalidations, h.configuration, h.source, h.kind, h.role, reasonWhen]

lemma moduleInvalidations_eq_nil_iff {state : SessionState}
    (h : session.UnitUnchanged unit previous) :
    session.moduleInvalidations state unit previous = [] ↔
      ∀ observation ∈ previous.observations,
        session.isForeign unit.moduleName observation = true →
          session.observationInvalidation state unit.moduleName previous observation = none := by
  rw [moduleInvalidations_of_unchanged h]
  simp

lemma objectInvalidations_of_loads (h : session.ObjectLoads previous) :
    session.objectInvalidations previous = .ok [] := by
  unfold objectInvalidations
  split
  · rename_i hmode
    obtain ⟨hstatus, hbytes, hfingerprint⟩ := h hmode
    simp [hstatus, hbytes, hfingerprint, reasonWhen]
  · rfl

/-- The later checks find nothing for an unchanged unit. -/
lemma unitInvalidations_of_unchanged {state : SessionState}
    (h : session.UnitUnchanged unit previous) :
    session.unitInvalidations state unit =
      .ok (session.moduleInvalidations state unit previous) := by
  unfold unitInvalidations
  simp only [h.module, orElse]
  split
  · rename_i hnil
    simp [hnil, h.output, objectInvalidations_of_loads h.object, h.component, reasonWhen, bind,
      Except.bind]
  · rfl

variable {next : SessionState}

/-- A unit leaves one decision: to reuse it, when nothing was found against it. -/
lemma compileUnit_eq_ok {state : SessionState} (h : session.compileUnit state unit = .ok next) :
    ∃ invalidations, session.unitInvalidations state unit = .ok invalidations ∧
      ((invalidations = [] ∧ ∃ previous interface, session.previousModule unit = some previous ∧
          session.register state previous.publicInterface = .ok interface ∧
          next.published = state.published ++ [(unit.moduleName, interface)] ∧
          next.moduleArtifacts = state.moduleArtifacts ++ [previous] ∧
          next.decisions = state.decisions ++ [⟨unit.moduleName, .reuse, []⟩]) ∨
        ((invalidations ≠ [] ∨ session.previousModule unit = none) ∧
          next.decisions = state.decisions ++ [⟨unit.moduleName, .rebuild, invalidations⟩])) := by
  obtain ⟨invalidations, hinvalidations, h⟩ := except_bind_eq_ok.mp h
  refine ⟨invalidations, hinvalidations, ?_⟩
  split at h
  · rename_i previous hprevious
    obtain ⟨interface, hregister, h⟩ := except_bind_eq_ok.mp h
    obtain rfl := Except.ok.inj h
    exact Or.inl ⟨rfl, previous, interface, hprevious, hregister, rfl, rfl, rfl⟩
  · rename_i hother
    obtain ⟨built, -, h⟩ := except_bind_eq_ok.mp h
    obtain rfl := Except.ok.inj h
    refine Or.inr ⟨?_, rfl⟩
    cases hprevious : session.previousModule unit with
    | none => exact Or.inr rfl
    | some previous =>
      left
      rintro rfl
      exact hother previous rfl hprevious

/-- One more decision, for the unit. -/
lemma compileUnit_decisions {state : SessionState} (h : session.compileUnit state unit = .ok next) :
    ∃ decision, next.decisions = state.decisions ++ [decision] ∧
      decision.moduleName = unit.moduleName := by
  obtain ⟨invalidations, -, hcase | hcase⟩ := compileUnit_eq_ok h
  · obtain ⟨-, previous, interface, -, -, -, -, hdecisions⟩ := hcase
    exact ⟨_, hdecisions, rfl⟩
  · exact ⟨_, hcase.2, rfl⟩

variable (session) in
/-- No binding of a function that the unit has observed in another module is overloaded now. -/
def BindingsUnambiguous (state : SessionState) (unit : CompilationUnit)
    (previous : PackageModuleArtifact) : Prop :=
  ∀ observation ∈ previous.observations, session.isForeign unit.moduleName observation = true →
    observation.kind = .entityBinding ∨ observation.kind = .lifecycleCallable →
      ∀ interface, session.currentInterface state observation.provider = some interface →
        Unambiguous observation interface.artifact

/-- What an accepted manifest says about the observations of an unchanged unit is enough to compare
them. -/
lemma moduleInvalidations_eq_nil_iff_holds {codec : Codec} {manifest : Manifest}
    {dependencies : List Manifest} {state : SessionState}
    (hmanifest : session.previousManifest = some manifest)
    (haccepted : manifest.verifyDependencies codec dependencies = .ok ())
    (h : session.UnitUnchanged unit previous)
    (hunambiguous : session.BindingsUnambiguous state unit previous) :
    session.moduleInvalidations state unit previous = [] ↔
      ∀ observation ∈ previous.observations,
        session.isForeign unit.moduleName observation = true →
          session.Holds state observation ∧
            (observation.kind = .lifecycleCallable →
              session.witnessAvailable state unit.moduleName previous observation = true) := by
  have hmodule := h.module
  rw [previousModule, hmanifest, Option.bind_some] at hmodule
  have hmem := (Manifest.findModule_eq_some hmodule).1
  have hverify := Manifest.verify_of_verifyDependencies haccepted
  rw [moduleInvalidations_eq_nil_iff h]
  refine forall₃_congr fun observation hobservation hforeign => ?_
  exact observationInvalidation_eq_none_iff
    (Manifest.hasValue_expectedFingerprint hverify hmem hobservation)
    (Manifest.expectedFingerprint_of_verifyDependencies haccepted hmem hobservation)
    (hunambiguous observation hobservation hforeign)

/-- An unchanged unit is reused exactly when nothing is found in its observations. -/
theorem compileUnit_reuse_iff {state : SessionState} (h : session.UnitUnchanged unit previous)
    (hnext : session.compileUnit state unit = .ok next) :
    ∃ decision, next.decisions = state.decisions ++ [decision] ∧
      decision.moduleName = unit.moduleName ∧
      (decision.action = .reuse ↔ session.moduleInvalidations state unit previous = []) := by
  obtain ⟨invalidations, hinvalidations, hcase⟩ := compileUnit_eq_ok hnext
  rw [unitInvalidations_of_unchanged h] at hinvalidations
  obtain rfl := Except.ok.inj hinvalidations
  obtain hcase | hcase := hcase
  · obtain ⟨hnil, previous, interface, -, -, -, -, hdecisions⟩ := hcase
    exact ⟨_, hdecisions, rfl, by simp [hnil]⟩
  · obtain ⟨hsome, hdecisions⟩ := hcase
    have hne : session.moduleInvalidations state unit previous ≠ [] := by
      obtain hne | hnone := hsome
      · exact hne
      · rw [h.module] at hnone
        exact absurd hnone (by simp)
    exact ⟨_, hdecisions, rfl, by simp [hne]⟩

/-! ## Runs -/

variable {final : SessionState} {units : List CompilationUnit}

lemma compileUnits_cons {state : SessionState} (hnext : session.compileUnit state unit = .ok next)
    (hfinal : session.compileUnits next units = .ok final) :
    session.compileUnits state (unit :: units) = .ok final :=
  except_bind_eq_ok.mpr ⟨next, hnext, hfinal⟩

variable {before after : List CompilationUnit}

lemma compileUnits_append {state : SessionState}
    (h : session.compileUnits state (before ++ after) = .ok final) :
    ∃ middle, session.compileUnits state before = .ok middle ∧
      session.compileUnits middle after = .ok final := by
  induction before generalizing state with
  | nil => exact ⟨state, rfl, h⟩
  | cons unit rest ih =>
    obtain ⟨next, hnext, hrest⟩ := except_bind_eq_ok.mp h
    obtain ⟨middle, hmiddle, hafter⟩ := ih hrest
    exact ⟨middle, compileUnits_cons hnext hmiddle, hafter⟩

/-- A run leaves one decision for each unit, in order. -/
lemma compileUnits_decisions {state : SessionState}
    (h : session.compileUnits state units = .ok final) :
    ∃ decisions, final.decisions = state.decisions ++ decisions ∧
      decisions.map UnitCompilationDecision.moduleName =
        units.map CompilationUnit.moduleName := by
  induction units generalizing state with
  | nil =>
    obtain rfl := Except.ok.inj h
    exact ⟨[], by simp, rfl⟩
  | cons unit rest ih =>
    obtain ⟨next, hnext, hrest⟩ := except_bind_eq_ok.mp h
    obtain ⟨decision, hdecision, hname⟩ := compileUnit_decisions hnext
    obtain ⟨decisions, hdecisions, hnames⟩ := ih hrest
    refine ⟨decision :: decisions, ?_, ?_⟩
    · rw [hdecisions, hdecision, List.append_assoc, List.singleton_append]
    · rw [List.map_cons, List.map_cons, hname, hnames]

/-- The decision on a unit stands at its place, and is made on what the units before it have
published. -/
lemma decision_of_run {state : SessionState}
    (hrun : session.compileUnits {} (before ++ unit :: after) = .ok final)
    (hbefore : session.compileUnits {} before = .ok state)
    (h : session.UnitUnchanged unit previous) :
    ∃ decision, final.decisions[before.length]? = some decision ∧
      decision.moduleName = unit.moduleName ∧
      (decision.action = .reuse ↔ session.moduleInvalidations state unit previous = []) := by
  obtain ⟨middle, hmiddle, hafter⟩ := compileUnits_append hrun
  obtain rfl : middle = state := Except.ok.inj (hmiddle.symm.trans hbefore)
  obtain ⟨next, hnext, hrest⟩ := except_bind_eq_ok.mp hafter
  obtain ⟨decision, hdecision, hname, hiff⟩ := compileUnit_reuse_iff h hnext
  obtain ⟨earlier, hearlier, hnames⟩ := compileUnits_decisions hbefore
  obtain ⟨later, hlater, -⟩ := compileUnits_decisions hrest
  refine ⟨decision, ?_, hname, hiff⟩
  have hlength : earlier.length = before.length := by
    simpa using congrArg List.length hnames
  rw [hlater, hdecision, hearlier, ← hlength]
  simp

/-! ## A package that has not changed -/

variable (session) in
/-- Nothing has changed since the manifest: it was accepted with the dependencies of the session,
whose interfaces are registered; every unit is unchanged, and the modules of the package that it
observes come before it; the registry takes the interfaces of the manifest; the witnesses that were
seen are listed, and the bindings that were seen are not overloaded. -/
structure PackageUnchanged (codec : Codec) (manifest : Manifest) (units : List CompilationUnit) :
    Prop where
  previous : session.previousManifest = some manifest
  package : session.packageName = manifest.packageName
  accepted : manifest.verifyDependencies codec session.dependencyManifests = .ok ()
  registered : ∀ dependency ∈ session.dependencyManifests, ∀ module ∈ dependency.modules,
    ∀ state, ∃ interface,
      session.currentInterface state ⟨dependency.packageName, module.moduleName⟩ = some interface ∧
        interface.artifact = module.publicInterface
  unchanged : ∀ unit ∈ units, ∃ previous, session.UnitUnchanged unit previous
  order : ∀ before unit after, units = before ++ unit :: after →
    ∀ module, manifest.findModule unit.moduleName = some module →
      ∀ observation ∈ module.observations, session.isForeign unit.moduleName observation = true →
        observation.provider.packageName = manifest.packageName →
          observation.provider.moduleName ∈ before.map CompilationUnit.moduleName
  registers : ∀ state, ∀ module ∈ manifest.modules, ∃ interface,
    session.register state module.publicInterface = .ok interface
  witnesses : ∀ module ∈ manifest.modules, ∀ observation ∈ module.observations,
    observation.kind = .lifecycleCallable →
      (observation.provider.packageName = manifest.packageName ∧
        ∃ provider, manifest.findModule observation.provider.moduleName = some provider ∧
          listsWitness observation provider = true) ∨
      (∃ dependency ∈ session.dependencyManifests ++ session.templateDependencyClosure,
        ∃ provider ∈ dependency.modules, listsWitness observation provider = true)
  unambiguous : ∀ module ∈ manifest.modules, ∀ observation ∈ module.observations,
    observation.kind = .entityBinding ∨ observation.kind = .lifecycleCallable →
      ∀ provider ∈ (manifest :: session.dependencyManifests).flatMap Manifest.modules,
        Unambiguous observation provider.publicInterface

/-- What the units of a package that has not changed have published: the interfaces and the modules
of the manifest. -/
structure Republished (manifest : Manifest) (names : List Text) (state : SessionState) : Prop where
  published : ∀ entry ∈ state.published, ∃ module,
    manifest.findModule entry.1 = some module ∧ entry.2.artifact = module.publicInterface
  artifacts : ∀ module ∈ state.moduleArtifacts,
    manifest.findModule module.moduleName = some module
  names_published : ∀ name ∈ names, ∃ entry ∈ state.published, entry.1 = name
  names_artifacts : ∀ name ∈ names, ∃ module ∈ state.moduleArtifacts, module.moduleName = name

namespace Republished

variable {manifest : Manifest} {names : List Text} {state : SessionState}

lemma initial : Republished manifest [] {} where
  published := by simp
  artifacts := by simp
  names_published := by simp
  names_artifacts := by simp

section

variable {provider : ModuleIdentity} {module : PackageModuleArtifact}
  (h : Republished manifest names state) (hpackage : session.packageName = manifest.packageName)
  (hlocal : provider.packageName = manifest.packageName) (hname : provider.moduleName ∈ names)
  (hmodule : manifest.findModule provider.moduleName = some module)

include h hpackage hlocal hname hmodule

/-- The current interface of a module that has been republished is the one of the manifest. -/
lemma currentInterface :
    ∃ interface, session.currentInterface state provider = some interface ∧
      interface.artifact = module.publicInterface := by
  rw [Session.currentInterface, if_pos (hlocal.trans hpackage.symm)]
  obtain ⟨entry, hentry, hentryName⟩ := h.names_published _ hname
  cases hfind : state.published.find? (fun entry => entry.1 == provider.moduleName) with
  | none => exact absurd (by simpa using hentryName) (List.find?_eq_none.mp hfind entry hentry)
  | some found =>
    obtain ⟨module', hmodule', hartifact⟩ := h.published found (List.mem_of_find?_eq_some hfind)
    have hname' : found.1 = provider.moduleName := by simpa using List.find?_some hfind
    rw [hname', hmodule] at hmodule'
    obtain rfl := Option.some.inj hmodule'
    exact ⟨found.2, rfl, hartifact⟩

/-- The artifact of a module that has been republished is the one of the manifest. -/
lemma providerArtifact (moduleName : Text) (previous : PackageModuleArtifact) :
    session.providerArtifact state moduleName previous provider = some module := by
  rw [Session.providerArtifact, if_pos (hlocal.trans hpackage.symm)]
  obtain ⟨artifact, hartifact, hartifactName⟩ := h.names_artifacts _ hname
  cases hfind : state.moduleArtifacts.find? (fun module => module.moduleName == provider.moduleName)
    with
  | none =>
    exact absurd (by simpa using hartifactName) (List.find?_eq_none.mp hfind artifact hartifact)
  | some found =>
    have hfound := h.artifacts found (List.mem_of_find?_eq_some hfind)
    have hname' : found.moduleName = provider.moduleName := by simpa using List.find?_some hfind
    rw [hname', hmodule] at hfound
    obtain rfl := Option.some.inj hfound
    rfl

end

/-- One more unit is reused. -/
lemma step (h : Republished manifest names state) {unit : CompilationUnit}
    {module : PackageModuleArtifact} {interface : PublishedInterface} {next : SessionState}
    (hmodule : manifest.findModule unit.moduleName = some module)
    (hartifact : interface.artifact = module.publicInterface)
    (hpublished : next.published = state.published ++ [(unit.moduleName, interface)])
    (hartifacts : next.moduleArtifacts = state.moduleArtifacts ++ [module]) :
    Republished manifest (names ++ [unit.moduleName]) next := by
  have hname := (Manifest.findModule_eq_some hmodule).2
  constructor
  · intro entry hentry
    rw [hpublished, List.mem_append, List.mem_singleton] at hentry
    obtain hentry | rfl := hentry
    · exact h.published entry hentry
    · exact ⟨module, hmodule, hartifact⟩
  · intro artifact hmem
    rw [hartifacts, List.mem_append, List.mem_singleton] at hmem
    obtain hmem | rfl := hmem
    · exact h.artifacts artifact hmem
    · rw [hname]
      exact hmodule
  · intro name hmem
    rw [hpublished]
    rw [List.mem_append, List.mem_singleton] at hmem
    obtain hmem | rfl := hmem
    · obtain ⟨entry, hentry, hentryName⟩ := h.names_published name hmem
      exact ⟨entry, List.mem_append_left _ hentry, hentryName⟩
    · exact ⟨_, List.mem_append_right _ (List.mem_singleton_self _), rfl⟩
  · intro name hmem
    rw [hartifacts]
    rw [List.mem_append, List.mem_singleton] at hmem
    obtain hmem | rfl := hmem
    · obtain ⟨artifact, hartifact, hartifactName⟩ := h.names_artifacts name hmem
      exact ⟨artifact, List.mem_append_left _ hartifact, hartifactName⟩
    · exact ⟨module, List.mem_append_right _ (List.mem_singleton_self _), hname⟩

end Republished

section

variable {codec : Codec} {manifest : Manifest} {module : PackageModuleArtifact}
  {observation : DependencyObservation} {state : SessionState}
  (h : session.PackageUnchanged codec manifest units) (hunits : units = before ++ unit :: after)
  (hstate : Republished manifest (before.map CompilationUnit.moduleName) state)
  (hmodule : manifest.findModule unit.moduleName = some module)
  (hobservation : observation ∈ module.observations)
  (hforeign : session.isForeign unit.moduleName observation = true)

include h hunits hmodule hobservation hforeign hstate

/-- Where an observation of a package that has not changed finds its provider: in the manifest, or in
a dependency. -/
lemma PackageUnchanged.provider :
    ∃ provider ∈ (manifest :: session.dependencyManifests).flatMap Manifest.modules,
      checkObservation localMessages provider.publicInterface observation = .ok () ∧
      ∃ interface, session.currentInterface state observation.provider = some interface ∧
        interface.artifact = provider.publicInterface := by
  have hmem := (Manifest.findModule_eq_some hmodule).1
  by_cases hlocal : observation.provider.packageName = manifest.packageName
  · obtain ⟨provider, hprovider, hcheck⟩ :=
      Manifest.checkObservation_local (Manifest.verify_of_verifyDependencies h.accepted) hmem
        hobservation hlocal
    have hname := h.order before unit after hunits module hmodule observation hobservation hforeign
      hlocal
    refine ⟨provider, ?_, hcheck, hstate.currentInterface h.package hlocal hname hprovider⟩
    rw [List.flatMap_cons]
    exact List.mem_append_left _ (Manifest.findModule_eq_some hprovider).1
  · obtain ⟨dependency, hdependency, hpackage, provider, hprovider, hcheck⟩ :=
      Manifest.checkObservation_foreign h.accepted hmem hobservation hlocal
    obtain ⟨hprovider', hname⟩ := Manifest.findModule_eq_some hprovider
    obtain ⟨interface, hinterface, hartifact⟩ :=
      h.registered dependency hdependency provider hprovider' state
    rw [hpackage, hname] at hinterface
    refine ⟨provider, ?_, checkObservation_messages hcheck, interface, hinterface, hartifact⟩
    rw [List.flatMap_cons]
    exact List.mem_append_right _ (List.mem_flatMap.mpr ⟨dependency, hdependency, hprovider'⟩)

lemma PackageUnchanged.witnessAvailable (hkind : observation.kind = .lifecycleCallable) :
    session.witnessAvailable state unit.moduleName module observation = true := by
  have hmem := (Manifest.findModule_eq_some hmodule).1
  simp only [Session.witnessAvailable, Bool.or_eq_true, List.any_eq_true]
  obtain ⟨hlocal, provider, hprovider, hlists⟩ | ⟨dependency, hdependency, provider, hprovider,
    hlists⟩ := h.witnesses module hmem observation hobservation hkind
  · have hname := h.order before unit after hunits module hmodule observation hobservation hforeign
      hlocal
    rw [hstate.providerArtifact h.package hlocal hname hprovider]
    exact Or.inl (Or.inl hlists)
  · obtain hdependency | hdependency := List.mem_append.mp hdependency
    · exact Or.inl (Or.inr ⟨dependency, hdependency, provider, hprovider, hlists⟩)
    · exact Or.inr ⟨dependency, hdependency, provider, hprovider, hlists⟩

end

/-- The next unit of a package that has not changed is reused. -/
lemma PackageUnchanged.compileUnit {codec : Codec} {manifest : Manifest} {state : SessionState}
    (h : session.PackageUnchanged codec manifest units) (hunits : units = before ++ unit :: after)
    (hstate : Republished manifest (before.map CompilationUnit.moduleName) state) :
    ∃ next, session.compileUnit state unit = .ok next ∧
      Republished manifest ((before ++ [unit]).map CompilationUnit.moduleName) next ∧
      next.decisions = state.decisions ++ [⟨unit.moduleName, .reuse, []⟩] := by
  obtain ⟨module, hunchanged⟩ := h.unchanged unit (by simp [hunits])
  have hmodule := hunchanged.module
  rw [previousModule, h.previous, Option.bind_some] at hmodule
  have hunambiguous : session.BindingsUnambiguous state unit module := by
    intro observation hobservation hforeign hkind interface hinterface
    obtain ⟨provider, hprovider, -, interface', hinterface', hartifact⟩ :=
      h.provider hunits hstate hmodule hobservation hforeign
    obtain rfl := Option.some.inj (hinterface.symm.trans hinterface')
    rw [hartifact]
    exact h.unambiguous module (Manifest.findModule_eq_some hmodule).1 observation hobservation hkind
      provider hprovider
  have hnil : session.moduleInvalidations state unit module = [] := by
    rw [moduleInvalidations_eq_nil_iff_holds h.previous h.accepted hunchanged hunambiguous]
    intro observation hobservation hforeign
    obtain ⟨provider, -, hcheck, interface, hinterface, hartifact⟩ :=
      h.provider hunits hstate hmodule hobservation hforeign
    refine ⟨⟨interface, hinterface, ?_⟩, ?_⟩
    · rw [hartifact]
      exact hcheck
    · exact h.witnessAvailable hunits hstate hmodule hobservation hforeign
  obtain ⟨interface, hregister⟩ :=
    h.registers state module (Manifest.findModule_eq_some hmodule).1
  refine ⟨{ published := state.published ++ [(unit.moduleName, interface)]
            moduleArtifacts := state.moduleArtifacts ++ [module]
            decisions := state.decisions ++ [⟨unit.moduleName, .reuse, []⟩] }, ?_, ?_, rfl⟩
  · rw [Session.compileUnit, unitInvalidations_of_unchanged hunchanged, hnil, hunchanged.module]
    simp only [bind, Except.bind, hregister]
  · rw [List.map_append]
    exact hstate.step hmodule (session.register_artifact _ _ _ hregister) rfl rfl

/-- Every unit of a package that has not changed is reused: by induction on the units that are left,
with what the units before them have published. -/
lemma PackageUnchanged.compileUnits {codec : Codec} {manifest : Manifest} {state : SessionState}
    (h : session.PackageUnchanged codec manifest units) (hunits : units = before ++ after)
    (hstate : Republished manifest (before.map CompilationUnit.moduleName) state) :
    ∃ final, session.compileUnits state after = .ok final ∧
      final.decisions =
        state.decisions ++ after.map fun unit => ⟨unit.moduleName, .reuse, []⟩ := by
  induction after generalizing before state with
  | nil => exact ⟨state, rfl, by simp⟩
  | cons unit rest ih =>
    obtain ⟨next, hnext, hrepublished, hdecision⟩ := h.compileUnit hunits hstate
    obtain ⟨final, hfinal, hdecisions⟩ := ih (by simp [hunits]) hrepublished
    refine ⟨final, compileUnits_cons hnext hfinal, ?_⟩
    rw [hdecisions, hdecision, List.append_assoc, List.map_cons, List.singleton_append]

end Session

/-! ## A package of three modules

The module `m` publishes two functions of the name `f` and one of the name `g`; `n` has observed the
second `f`, and `o` has observed `g`, with a witness that nothing lists. -/

/-- A function of the module `m` of the package `a`. -/
def functionOfM (name : Text) (fingerprint : UInt8) : PublicFunctionArtifact :=
  ⟨name, ['a'], ['m'], name, stamp fingerprint⟩

/-- A module of the package `a`, with the source `x`. -/
def moduleOfA (name : Text) (functions : List PublicFunctionArtifact)
    (observations : List DependencyObservation) : PackageModuleArtifact where
  sourceFingerprint := fingerprintSource ['a'] name .chthollySource ['x']
  publicInterface :=
    { packageName := ['a'], moduleName := name, functions := functions, fingerprint := stamp 12 }
  observations := observations
  specificFingerprint := stamp 2
  objectFingerprint := stamp 3

/-- An observation of a function of the module `m`. -/
def sawFunction (name : Text) (fingerprint : UInt8) : DependencyObservation where
  kind := .entityBinding
  provider := ⟨['a'], ['m']⟩
  bindingName := name
  expectedFingerprint := stamp fingerprint
  canonicalProvider := ⟨['a'], ['m']⟩
  canonicalName := name

/-- An observation of a function of the module `m` as a function of a lifecycle. -/
def sawLifecycle (name : Text) (fingerprint : UInt8) : DependencyObservation :=
  { sawFunction name fingerprint with
    kind := .lifecycleCallable
    lifecycleRole := .drop
    witnessFingerprint := stamp 10
    specificClosureFingerprint := stamp 11 }

/-- Interfaces of functions that have a fingerprint. -/
def functionCodec : Codec where
  verifyInterface := fun interface =>
    ensure
      (!interface.packageName.isEmpty && !interface.moduleName.isEmpty &&
        interface.fingerprint.hasValue && interface.nominalTypes.isEmpty &&
        interface.functions.all fun function => function.entityFingerprint.hasValue)
      "public interface artifact has an invalid identity"
  encode := fun manifest => manifest.packageName.bytes

/-- The registration of an interface without nominal types. -/
def registerFunctions (artifact : PublicInterfaceArtifact) : Except String PublishedInterface :=
  if h : artifact.nominalTypes = [] then
    .ok
      { artifact := artifact
        bindings := artifact.functions
        nominals := []
        bindings_perm := List.Perm.refl _
        nominals_perm := by rw [h]
        exportedOnce := by simp
        identifiedOnce := by simp }
  else .error "public interface has conflicting exported nominal bindings"

lemma registerFunctions_artifact {artifact : PublicInterfaceArtifact}
    {interface : PublishedInterface} (h : registerFunctions artifact = .ok interface) :
    interface.artifact = artifact := by
  unfold registerFunctions at h
  split at h
  · obtain rfl := Except.ok.inj h
    rfl
  · simp at h

/-- Building a unit gives a module that publishes nothing. -/
def buildEmpty (unit : CompilationUnit) : BuiltUnit where
  interface :=
    { artifact := (moduleOfA unit.moduleName [] []).publicInterface
      bindings := []
      nominals := []
      bindings_perm := List.Perm.refl _
      nominals_perm := List.Perm.refl _
      exportedOnce := by simp
      identifiedOnce := by simp }
  module := moduleOfA unit.moduleName [] []
  publishes := rfl

/-- A check of the package `a` after a manifest with the given modules. -/
def checkOfA (modules : List PackageModuleArtifact) : Session where
  packageName := ['a']
  targetTriple := "x86_64".toList
  compileToolchainFingerprint := stamp 4
  provenance := { contractFingerprint := stamp 5 }
  mode := .check
  previousManifest := some (barePackage ['a'] [] modules)
  loadObject := fun _ _ => {}
  register := fun _ artifact => registerFunctions artifact
  register_artifact := fun _ _ _ h => registerFunctions_artifact h
  build := fun _ unit => .ok (buildEmpty unit)

/-- A unit of the package, with the source `x`. -/
def unitOfA (name : Text) : CompilationUnit where
  moduleName := name
  source := ['x']

variable {name : Text} {functions : List PublicFunctionArtifact}

/-- The module `m` and its two observers. -/
def observedModules : List PackageModuleArtifact :=
  [moduleOfA ['m'] [functionOfM ['f'] 7, functionOfM ['f'] 8, functionOfM ['g'] 9] [],
    moduleOfA ['n'] [] [sawFunction ['f'] 8], moduleOfA ['o'] [] [sawLifecycle ['g'] 9]]

lemma observedModules_accepted :
    (barePackage ['a'] [] observedModules).verifyDependencies functionCodec [] = .ok () := by
  refine andThen_eq_ok.mpr ⟨barePackage_verify rfl (by decide +kernel) (by decide +kernel), ?_⟩
  decide +kernel

lemma checkOfA_configurationMatches (modules : List PackageModuleArtifact) :
    (checkOfA modules).configurationMatches = true := by
  rw [Session.configurationMatches, checkOfA, Option.all_some, beq_iff_eq, barePackage]

variable {modules : List PackageModuleArtifact}

lemma unitOfA_unchanged
    (h : (barePackage ['a'] [] modules).findModule name =
      some (moduleOfA name functions observations)) :
    (checkOfA modules).UnitUnchanged (unitOfA name) (moduleOfA name functions observations) where
  module := h
  configuration := checkOfA_configurationMatches modules
  source := rfl
  kind := rfl
  role := rfl
  output := rfl
  component := rfl
  object := fun hmode => by simp [checkOfA] at hmode

/-- What `m` publishes, as it is registered again. -/
def publishedM (functions : List PublicFunctionArtifact) : PublishedInterface where
  artifact := (moduleOfA ['m'] functions []).publicInterface
  bindings := functions
  nominals := []
  bindings_perm := List.Perm.refl _
  nominals_perm := List.Perm.refl _
  exportedOnce := by simp
  identifiedOnce := by simp

/-- The session after `m`, which is reused. -/
def afterM (functions : List PublicFunctionArtifact) : SessionState where
  published := [(['m'], publishedM functions)]
  moduleArtifacts := [moduleOfA ['m'] functions []]
  decisions := [⟨['m'], .reuse, []⟩]

lemma compileUnit_m
    (h : (barePackage ['a'] [] modules).findModule ['m'] = some (moduleOfA ['m'] functions [])) :
    (checkOfA modules).compileUnit {} (unitOfA ['m']) = .ok (afterM functions) := by
  have hunchanged := unitOfA_unchanged h
  have hnil : (checkOfA modules).moduleInvalidations {} (unitOfA ['m'])
      (moduleOfA ['m'] functions []) = [] := by
    rw [Session.moduleInvalidations_eq_nil_iff hunchanged]
    simp [moduleOfA]
  rw [Session.compileUnit, Session.unitInvalidations_of_unchanged hunchanged, hnil,
    hunchanged.module]
  rfl

/-- A unit with one observation, against which a reason is found. -/
lemma compileUnit_observer {state : SessionState} (observation : DependencyObservation)
    (invalidation : UnitInvalidation)
    (h : (barePackage ['a'] [] modules).findModule name = some (moduleOfA name [] [observation]))
    (hforeign : (checkOfA modules).isForeign name observation = true)
    (hfound : (checkOfA modules).observationInvalidation state name
      (moduleOfA name [] [observation]) observation = some invalidation) :
    (checkOfA modules).compileUnit state (unitOfA name) =
      .ok
        { published := state.published ++ [(name, (buildEmpty (unitOfA name)).interface)]
          moduleArtifacts := state.moduleArtifacts
          decisions := state.decisions ++ [⟨name, .rebuild, [invalidation]⟩] } := by
  have hunchanged := unitOfA_unchanged h
  have hsome : (checkOfA modules).moduleInvalidations state (unitOfA name)
      (moduleOfA name [] [observation]) = [invalidation] := by
    rw [Session.moduleInvalidations_of_unchanged hunchanged]
    show List.filterMap _ (List.filter _ [observation]) = _
    rw [List.filter_singleton, unitOfA, hforeign, cond_true, List.filterMap_cons, hfound,
      List.filterMap_nil]
  rw [Session.compileUnit, Session.unitInvalidations_of_unchanged hunchanged, hsome]
  rfl

/-- The functions of `m`. -/
def functionsOfM : List PublicFunctionArtifact :=
  [functionOfM ['f'] 7, functionOfM ['f'] 8, functionOfM ['g'] 9]

/-- The session after `n`, which is built. -/
def afterN : SessionState where
  published := (afterM functionsOfM).published ++
    [(['n'], (buildEmpty (unitOfA ['n'])).interface)]
  moduleArtifacts := (afterM functionsOfM).moduleArtifacts
  decisions := (afterM functionsOfM).decisions ++
    [⟨['n'], .rebuild, [⟨.entityBindingChanged, ⟨['a'], ['m']⟩, ['f']⟩]⟩]

/-- The session after `o`, which is built. -/
def afterO : SessionState where
  published := afterN.published ++ [(['o'], (buildEmpty (unitOfA ['o'])).interface)]
  moduleArtifacts := afterN.moduleArtifacts
  decisions := afterN.decisions ++
    [⟨['o'], .rebuild, [⟨.lifecycleCallableChanged, ⟨['a'], ['m']⟩, ['g']⟩]⟩]

lemma compileUnit_n :
    (checkOfA observedModules).compileUnit (afterM functionsOfM) (unitOfA ['n']) = .ok afterN :=
  compileUnit_observer (sawFunction ['f'] 8) _ rfl rfl rfl

lemma compileUnit_o :
    (checkOfA observedModules).compileUnit afterN (unitOfA ['o']) = .ok afterO :=
  compileUnit_observer (sawLifecycle ['g'] 9) _ rfl rfl rfl

/-- The module `m` with one function, and one observer of it. -/
def quietModules : List PackageModuleArtifact :=
  [moduleOfA ['m'] [functionOfM ['f'] 8] [], moduleOfA ['n'] [] [sawFunction ['f'] 8]]

lemma quietModules_accepted :
    (barePackage ['a'] [] quietModules).verifyDependencies functionCodec [] = .ok () := by
  refine andThen_eq_ok.mpr ⟨barePackage_verify rfl (by decide +kernel) (by decide +kernel), ?_⟩
  decide +kernel

/-- The functions of the quiet package are not overloaded. -/
lemma quietModules_unambiguous {observation : DependencyObservation}
    (provider : PackageModuleArtifact) (h : provider ∈ quietModules) :
    Unambiguous observation provider.publicInterface := by
  simp only [quietModules, List.mem_cons, List.not_mem_nil, or_false] at h
  obtain rfl | rfl := h
  · intro f hf g hg _ _
    simp only [moduleOfA, List.mem_singleton] at hf hg
    rw [hf, hg]
  · intro f hf
    simp [moduleOfA] at hf

lemma quietModules_unchanged :
    (checkOfA quietModules).PackageUnchanged functionCodec (barePackage ['a'] [] quietModules)
      [unitOfA ['m'], unitOfA ['n']] where
  previous := rfl
  package := rfl
  accepted := quietModules_accepted
  registered := by simp [checkOfA]
  unchanged := by
    intro unit hunit
    simp only [List.mem_cons, List.not_mem_nil, or_false] at hunit
    obtain rfl | rfl := hunit
    · exact ⟨moduleOfA ['m'] [functionOfM ['f'] 8] [], unitOfA_unchanged rfl⟩
    · exact ⟨moduleOfA ['n'] [] [sawFunction ['f'] 8], unitOfA_unchanged rfl⟩
  order := by
    intro before unit after hunits module hmodule observation hobservation _ _
    match before, hunits with
    | [], hunits =>
      obtain rfl : unit = unitOfA ['m'] := (List.cons.inj hunits).1.symm
      obtain rfl : moduleOfA ['m'] [functionOfM ['f'] 8] [] = module := Option.some.inj hmodule
      simp [moduleOfA] at hobservation
    | first :: rest, hunits =>
      obtain rfl : first = unitOfA ['m'] := (List.cons.inj hunits).1.symm
      have hunits' := (List.cons.inj hunits).2
      match rest, hunits' with
      | [], hunits' =>
        obtain rfl : unit = unitOfA ['n'] := (List.cons.inj hunits').1.symm
        obtain rfl : moduleOfA ['n'] [] [sawFunction ['f'] 8] = module := Option.some.inj hmodule
        obtain rfl : observation = sawFunction ['f'] 8 := by simpa [moduleOfA] using hobservation
        simp [sawFunction, unitOfA]
      | second :: others, hunits' => simp at hunits'
  registers := by
    intro state module hmodule
    simp only [barePackage, quietModules, List.mem_cons, List.not_mem_nil, or_false] at hmodule
    obtain rfl | rfl := hmodule
    · exact ⟨_, rfl⟩
    · exact ⟨_, rfl⟩
  witnesses := by
    intro module hmodule observation hobservation hkind
    simp only [barePackage, quietModules, List.mem_cons, List.not_mem_nil, or_false] at hmodule
    obtain rfl | rfl := hmodule
    · simp [moduleOfA] at hobservation
    · obtain rfl : observation = sawFunction ['f'] 8 := by simpa [moduleOfA] using hobservation
      simp [sawFunction] at hkind
  unambiguous := by
    intro module _ observation _ _ provider hprovider
    apply quietModules_unambiguous
    simpa [checkOfA, barePackage] using hprovider

end Incremental

end Chtholly
