import Chtholly.Incremental.Inspection
import Chtholly.Incremental.Reuse

/-!
# Whether the plan of a compilation is accepted

Two passes make the reasons of a plan: the pass that compiles the units, and the pass that is made
when imports are diagnosed.  The first one gives each reason exactly the fields that the verification
expects, in every run.  The second one gives the removal of a provider the binding that was observed,
which the verification does not expect of that reason.  So the plan is accepted unless imports are
diagnosed while an unchanged unit has observed a binding of a module that is gone; and then the error
about the plan is what the caller gets instead of the diagnostics.

## Main definitions

* `Incremental.Codec.ChecksNames` — the verification of an interface rejects one without a name.
* `Incremental.UnitCompilationDecision.Accepted` — a decision that `verify` has nothing against.
* `Incremental.Compilation.LosesBinding` — an unchanged unit has observed a binding of a module that
  is gone.

## Main results

* `Incremental.Session.compileUnits_accepted` — every run of a session leaves accepted decisions.
* `Incremental.Compilation.compile_plan_iff` — when the plan of a compilation is accepted, and when
  the diagnostics of the imports are handed out.
-/

set_option autoImplicit false

namespace Chtholly

namespace Incremental

open Registry (Text)

/-! ## What the previous manifest has been checked for -/

/-- `PublicInterfaceArtifactVerificationService::identity`: an interface names its module. -/
def Codec.ChecksNames (codec : Codec) : Prop :=
  ∀ interface, codec.verifyInterface interface = .ok () → interface.moduleName ≠ []

namespace Manifest

variable {codec : Codec} {manifest : Manifest} {module : PackageModuleArtifact}
  {observation : DependencyObservation}

lemma wellFormed_of_verify (h : manifest.verify codec = .ok ())
    (hmodule : module ∈ manifest.modules) (hmem : observation ∈ module.observations) :
    observation.wellFormed = true := by
  have hverify := verify_of_mem h hmodule
  simp only [PackageModuleArtifact.verify, PackageModuleArtifact.verifyCheck,
    andThen_eq_ok] at hverify
  exact wellFormed_of_verifyObservations hverify.1.2.2.2.2.2 hmem

lemma moduleName_ne_nil_of_verify (hcodec : codec.ChecksNames)
    (h : module.verify codec = .ok ()) : module.moduleName ≠ [] := by
  simp only [PackageModuleArtifact.verify, PackageModuleArtifact.verifyCheck,
    andThen_eq_ok] at h
  exact hcodec _ h.1.2.1

/-- The modules of a manifest ascend by name. -/
lemma isChain_of_verifyModules (hcodec : codec.ChecksNames) {packageName previous : Text}
    {modules : List PackageModuleArtifact}
    (h : verifyModules codec packageName previous modules = .ok ()) (hprevious : previous ≠ []) :
    (previous :: modules.map PackageModuleArtifact.moduleName).IsChain (· < ·) := by
  induction modules generalizing previous with
  | nil => simp
  | cons first rest ih =>
    simp only [verifyModules, andThen_eq_ok, ensure_eq_ok, Bool.and_eq_true, Bool.or_eq_true,
      List.isEmpty_iff, hprevious, false_or, decide_eq_true_eq] at h
    obtain ⟨⟨hlt, -⟩, hfirst, hrest⟩ := h
    rw [List.map_cons, List.isChain_cons_cons]
    exact ⟨hlt, ih hrest (moduleName_ne_nil_of_verify hcodec hfirst)⟩

lemma nodup_moduleNames (hcodec : codec.ChecksNames) (h : manifest.verify codec = .ok ()) :
    (manifest.modules.map PackageModuleArtifact.moduleName).Nodup := by
  simp only [verify, andThen_eq_ok] at h
  obtain ⟨-, hmodules, -⟩ := h
  cases hlist : manifest.modules with
  | nil => simp
  | cons first rest =>
    simp only [hlist, verifyModules, andThen_eq_ok] at hmodules
    obtain ⟨-, hfirst, hrest⟩ := hmodules
    have hchain := isChain_of_verifyModules hcodec hrest
      (moduleName_ne_nil_of_verify hcodec hfirst)
    rw [List.map_cons]
    exact hchain.pairwise.imp fun hab => hab.ne

end Manifest

namespace DependencyObservation

variable {observation : DependencyObservation}

lemma provider_of_wellFormed (h : observation.wellFormed = true) :
    observation.provider.packageName ≠ [] ∧ observation.provider.moduleName ≠ [] := by
  simp only [wellFormed, Bool.and_eq_true] at h
  obtain ⟨⟨⟨⟨⟨⟨⟨⟨⟨⟨⟨hpackage, hmodule⟩, -⟩, -⟩, -⟩, -⟩, -⟩, -⟩, -⟩, -⟩, -⟩, -⟩ := h
  exact ⟨by simpa using hpackage, by simpa using hmodule⟩

/-- An observation of a binding names it. -/
lemma bindingName_of_wellFormed (h : observation.wellFormed = true) :
    observation.kind.names = !observation.bindingName.isEmpty := by
  simp only [wellFormed, Bool.and_eq_true] at h
  obtain ⟨⟨⟨-, hnames⟩, -⟩, -⟩ := h
  exact beq_iff_eq.mp hnames

end DependencyObservation

/-! ## Reasons that are accepted -/

namespace UnitInvalidation

/-- A reason within the unit or its configuration. -/
lemma wellFormed_own {reason : UnitInvalidationReason} (hprovider : reason.hasProvider = false)
    (hbinding : reason.hasBinding = false) :
    wellFormed { reason := reason } = true := by
  simp [wellFormed, hasProvider, hprovider, hbinding]

/-- A reason that lies with an observed module. -/
lemma wellFormed_observed {reason : UnitInvalidationReason} {observation : DependencyObservation}
    {bindingName : Text} (h : observation.wellFormed = true)
    (hprovider : reason.hasProvider = true)
    (hbinding : reason.hasBinding = !bindingName.isEmpty) :
    wellFormed ⟨reason, observation.provider, bindingName⟩ = true := by
  obtain ⟨hpackage, hmodule⟩ := DependencyObservation.provider_of_wellFormed h
  simp [wellFormed, hasProvider, hprovider, hbinding, hpackage, hmodule]

/-- The removal of a provider is accepted without a binding only. -/
lemma wellFormed_importedModuleRemoved {observation : DependencyObservation} {bindingName : Text}
    (h : observation.wellFormed = true) :
    wellFormed ⟨.importedModuleRemoved, observation.provider, bindingName⟩ = true ↔
      bindingName = [] := by
  constructor
  · intro hformed
    simp only [wellFormed, Bool.and_eq_true] at hformed
    simpa [UnitInvalidationReason.hasBinding] using hformed.2
  · rintro rfl
    exact wellFormed_observed h rfl rfl

end UnitInvalidation

/-- A reason for a decision other than a removal. -/
def UnitInvalidation.Sound (value : UnitInvalidation) : Prop :=
  value.wellFormed = true ∧ value.reason ≠ .moduleRemoved

/-- A decision that the verification has nothing against, its place in the plan apart. -/
def UnitCompilationDecision.Accepted (decision : UnitCompilationDecision) : Prop :=
  decision.canonical.wellFormed = true ∧ ∀ value ∈ decision.invalidations, value.wellFormed = true

variable {moduleName : Text}

lemma UnitCompilationDecision.accepted_rebuild {invalidations : List UnitInvalidation}
    (hname : moduleName ≠ []) (hsome : invalidations ≠ [])
    (hsound : ∀ value ∈ invalidations, value.Sound) :
    (⟨moduleName, .rebuild, invalidations⟩ : UnitCompilationDecision).Accepted :=
  ⟨wellFormed_rebuild hname hsome fun value hvalue => (hsound value hvalue).2,
    fun value hvalue => (hsound value hvalue).1⟩

lemma UnitCompilationDecision.accepted_reuse (hname : moduleName ≠ []) :
    (⟨moduleName, .reuse, []⟩ : UnitCompilationDecision).Accepted :=
  ⟨wellFormed_reuse hname, by simp⟩

lemma UnitCompilationDecision.accepted_removed (hname : moduleName ≠ []) :
    (⟨moduleName, .removed, [{ reason := .moduleRemoved }]⟩ : UnitCompilationDecision).Accepted :=
  ⟨wellFormed_removed hname, by
    simpa using @UnitInvalidation.wellFormed_own .moduleRemoved rfl rfl⟩

namespace Session

variable {session : Session}

variable {value : UnitInvalidation}

lemma sound_of_reasonWhen {condition : Prop} [Decidable condition]
    {reason : UnitInvalidationReason} (hprovider : reason.hasProvider = false)
    (hbinding : reason.hasBinding = false) (hreason : reason ≠ .moduleRemoved)
    (h : value ∈ reasonWhen condition reason) : value.Sound := by
  unfold reasonWhen at h
  split at h
  · obtain rfl := List.mem_singleton.mp h
    exact ⟨UnitInvalidation.wellFormed_own hprovider hbinding, hreason⟩
  · simp at h

/-! ## The pass that compiles the units -/

variable {state : SessionState} {previous : PackageModuleArtifact}

/-- What is found in an observation has the fields that its reason calls for. -/
lemma sound_of_observationInvalidation {moduleName : Text} {observation : DependencyObservation}
    (hformed : observation.wellFormed = true)
    (h : session.observationInvalidation state moduleName previous observation = some value) :
    value.Sound := by
  have hbinding := DependencyObservation.bindingName_of_wellFormed hformed
  unfold observationInvalidation at h
  split at h
  · obtain rfl := Option.some.inj h
    exact ⟨UnitInvalidation.wellFormed_observed hformed rfl rfl, by simp⟩
  · split at h
    · simp at h
    · split at h
      · obtain rfl := Option.some.inj h
        exact ⟨UnitInvalidation.wellFormed_observed hformed rfl rfl, by simp⟩
      · simp at h
    all_goals
      rename_i hkind
      rw [hkind] at hbinding
    · split at h
      · obtain rfl := Option.some.inj h
        exact ⟨UnitInvalidation.wellFormed_observed hformed rfl hbinding, by simp⟩
      · simp at h
    · split at h
      · obtain rfl := Option.some.inj h
        exact ⟨UnitInvalidation.wellFormed_observed hformed rfl hbinding, by simp⟩
      · simp at h
    · split at h
      · obtain rfl := Option.some.inj h
        exact ⟨UnitInvalidation.wellFormed_observed hformed rfl hbinding, by simp⟩
      · simp at h
    · split at h
      · obtain rfl := Option.some.inj h
        exact ⟨UnitInvalidation.wellFormed_observed hformed rfl hbinding, by simp⟩
      · split at h
        · simp at h
        · obtain rfl := Option.some.inj h
          exact ⟨UnitInvalidation.wellFormed_observed hformed rfl hbinding, by simp⟩

variable {unit : CompilationUnit}

lemma sound_of_moduleInvalidations
    (hformed : ∀ observation ∈ previous.observations, observation.wellFormed = true)
    (h : value ∈ session.moduleInvalidations state unit previous) : value.Sound := by
  simp only [moduleInvalidations, List.mem_append] at h
  obtain (((h | h) | h) | h) | h := h
  · exact sound_of_reasonWhen rfl rfl (by simp) h
  · exact sound_of_reasonWhen rfl rfl (by simp) h
  · exact sound_of_reasonWhen rfl rfl (by simp) h
  · exact sound_of_reasonWhen rfl rfl (by simp) h
  · split at h
    · obtain ⟨observation, hmem, hvalue⟩ := List.mem_filterMap.mp h
      exact sound_of_observationInvalidation
        (hformed observation (List.mem_filter.mp hmem).1) hvalue
    · simp at h

lemma sound_of_objectInvalidations {values : List UnitInvalidation}
    (h : session.objectInvalidations previous = .ok values) (hmem : value ∈ values) :
    value.Sound := by
  unfold objectInvalidations at h
  split at h
  · simp only at h
    split at h
    · simp at h
    · obtain rfl := Except.ok.inj h
      obtain rfl := List.mem_singleton.mp hmem
      exact ⟨rfl, by simp⟩
    · obtain rfl := Except.ok.inj h
      obtain rfl := List.mem_singleton.mp hmem
      exact ⟨rfl, by simp⟩
    · obtain rfl := Except.ok.inj h
      exact sound_of_reasonWhen rfl rfl (by simp) hmem
  · obtain rfl := Except.ok.inj h
    simp at hmem

/-- Every reason that a unit is built for is sound, and a unit that is new has one. -/
lemma sound_of_unitInvalidations {values : List UnitInvalidation}
    (hformed : ∀ previous, session.previousModule unit = some previous →
      ∀ observation ∈ previous.observations, observation.wellFormed = true)
    (h : session.unitInvalidations state unit = .ok values) :
    (∀ value ∈ values, value.Sound) ∧ (session.previousModule unit = none → values ≠ []) := by
  unfold unitInvalidations at h
  split at h
  · obtain rfl := Except.ok.inj h
    refine ⟨?_, by simp⟩
    intro value hmem
    obtain rfl := List.mem_singleton.mp hmem
    exact ⟨rfl, by simp⟩
  · rename_i previous hprevious
    refine ⟨?_, by simp [hprevious]⟩
    intro value hmem
    -- the checks are made in turn, each one when the ones before it have found nothing
    unfold orElse at h
    split at h
    · split at h
      · obtain ⟨found, hfound, h⟩ := except_bind_eq_ok.mp h
        split at h
        · obtain rfl := Except.ok.inj h
          exact sound_of_reasonWhen rfl rfl (by simp) hmem
        · obtain rfl := Except.ok.inj h
          exact sound_of_objectInvalidations hfound hmem
      · obtain rfl := Except.ok.inj h
        exact sound_of_reasonWhen rfl rfl (by simp) hmem
    · obtain rfl := Except.ok.inj h
      exact sound_of_moduleInvalidations (hformed previous hprevious) hmem

/-- A unit leaves an accepted decision about its module. -/
lemma compileUnit_accepted {next : SessionState} (hname : unit.moduleName ≠ [])
    (hformed : ∀ previous, session.previousModule unit = some previous →
      ∀ observation ∈ previous.observations, observation.wellFormed = true)
    (h : session.compileUnit state unit = .ok next) :
    ∃ decision, next.decisions = state.decisions ++ [decision] ∧
      decision.moduleName = unit.moduleName ∧ decision.Accepted := by
  obtain ⟨invalidations, hinvalidations, hcase | hcase⟩ := compileUnit_eq_ok h
  · obtain ⟨-, previous, interface, -, -, -, -, hdecisions⟩ := hcase
    exact ⟨_, hdecisions, rfl, UnitCompilationDecision.accepted_reuse hname⟩
  · obtain ⟨hsound, hadded⟩ := sound_of_unitInvalidations hformed hinvalidations
    obtain ⟨hsome, hdecisions⟩ := hcase
    have hne : invalidations ≠ [] := hsome.elim id hadded
    exact ⟨_, hdecisions, rfl, UnitCompilationDecision.accepted_rebuild hname hne hsound⟩

/-- Every run leaves accepted decisions about the modules of its units, in order. -/
theorem compileUnits_accepted {final : SessionState} {units : List CompilationUnit}
    (hname : ∀ unit ∈ units, unit.moduleName ≠ [])
    (hformed : ∀ unit previous, session.previousModule unit = some previous →
      ∀ observation ∈ previous.observations, observation.wellFormed = true)
    (h : session.compileUnits state units = .ok final) :
    ∃ decisions, final.decisions = state.decisions ++ decisions ∧
      decisions.map UnitCompilationDecision.moduleName = units.map CompilationUnit.moduleName ∧
      ∀ decision ∈ decisions, decision.Accepted := by
  induction units generalizing state with
  | nil =>
    obtain rfl := Except.ok.inj h
    exact ⟨[], by simp⟩
  | cons unit rest ih =>
    obtain ⟨next, hnext, hrest⟩ := except_bind_eq_ok.mp h
    obtain ⟨decision, hdecision, hsame, haccepted⟩ :=
      compileUnit_accepted (hname unit (by simp)) (hformed unit) hnext
    obtain ⟨decisions, hdecisions, hnames, hall⟩ :=
      ih (fun unit hunit => hname unit (by simp [hunit])) hrest
    refine ⟨decision :: decisions, ?_, ?_, ?_⟩
    · rw [hdecisions, hdecision, List.append_assoc, List.singleton_append]
    · rw [List.map_cons, List.map_cons, hsame, hnames]
    · simpa [haccepted] using hall

end Session

/-! ## The units of a compilation -/

@[simp]
lemma formatDiagnostics_eq_nil {units : List (Text × List DiagnosticKind)} :
    formatDiagnostics units = [] ↔ ∀ unit ∈ units, hasError unit.2 = false := by
  simp [formatDiagnostics, List.filter_eq_nil_iff]

namespace Compilation

variable {compilation : Compilation}

/-- Units that pass the inspection name different modules. -/
lemma named_of_inspectUnits {seen : List Text} {units : List ParsedUnit}
    (h : formatDiagnostics (inspectUnits seen units) = []) :
    (∀ unit ∈ units, unit.moduleName ≠ [] ∧ unit.moduleName ∉ seen) ∧
      (units.map fun unit => unit.moduleName).Nodup := by
  induction units generalizing seen with
  | nil => simp
  | cons unit units ih =>
    simp only [inspectUnits, formatDiagnostics_eq_nil, List.forall_mem_cons] at h
    obtain ⟨hunit, hrest⟩ := h
    obtain ⟨hnamed, hnodup⟩ := ih (formatDiagnostics_eq_nil.mpr hrest)
    have hhead : unit.moduleName ≠ [] ∧ unit.moduleName ∉ seen := by
      split at hunit
      · simp [hasError, diagnosticLevel] at hunit
      · rename_i hnot
        have hname := unit.named.resolve_right (by simp [hunit])
        exact ⟨hname, by simpa [hname] using hnot⟩
    refine ⟨?_, ?_⟩
    · intro other hother
      obtain rfl | hother := List.mem_cons.mp hother
      · exact hhead
      · exact ⟨(hnamed other hother).1, fun hseen => (hnamed other hother).2 (by simp [hseen])⟩
    · rw [List.map_cons, List.nodup_cons]
      refine ⟨?_, hnodup⟩
      rintro hmem
      obtain ⟨other, hother, hsame⟩ := List.mem_map.mp hmem
      exact (hnamed other hother).2 (by simp [hsame])

lemma mem_moduleNames {unit : ParsedUnit} (hunit : unit ∈ compilation.units)
    (hname : unit.moduleName ≠ []) : unit.moduleName ∈ compilation.moduleNames := by
  simp only [moduleNames, List.mem_filter, List.mem_map]
  exact ⟨⟨unit, hunit, rfl⟩, by simpa using hname⟩

/-! ## The order of the units -/

/-- The queue hands out each unit at most once. -/
lemma takeReady_nodup {order : List ℕ} {turns : ℕ} (h : order.Nodup) :
    (compilation.takeReady order turns).Nodup := by
  induction turns generalizing order with
  | zero => exact h
  | succ turns ih =>
    unfold takeReady
    split
    · exact h
    · rename_i id hid
      apply ih
      have hnew := List.find?_some hid
      simp only [Bool.and_eq_true, decide_eq_true_eq] at hnew
      rw [List.nodup_append_comm, List.singleton_append, List.nodup_cons]
      exact ⟨hnew.1, h⟩

lemma order_nodup : compilation.order.Nodup := takeReady_nodup List.nodup_nil

/-- The units in the order in which they are compiled. -/
lemma nodup_ordered (h : (compilation.units.map fun unit => unit.moduleName).Nodup) :
    ((compilation.order.filterMap fun id => compilation.units[id]?).map
      fun unit => unit.moduleName).Nodup := by
  have hunits : compilation.units.Nodup := List.Nodup.of_map _ h
  have hinjective : Set.InjOn (fun unit : ParsedUnit => unit.moduleName)
      {unit | unit ∈ compilation.units} := fun a ha b hb hab =>
    List.inj_on_of_nodup_map h ha hb hab
  refine List.Nodup.map_on ?_ ?_
  · intro a ha b hb hab
    obtain ⟨i, -, hi⟩ := List.mem_filterMap.mp ha
    obtain ⟨j, -, hj⟩ := List.mem_filterMap.mp hb
    exact hinjective (List.mem_of_getElem? hi) (List.mem_of_getElem? hj) hab
  · refine order_nodup.filterMap ?_
    intro i j unit hi hj
    obtain ⟨hilt, hi⟩ := List.getElem?_eq_some_iff.mp hi
    obtain ⟨hjlt, hj⟩ := List.getElem?_eq_some_iff.mp hj
    exact (List.Nodup.getElem_inj_iff hunits).mp (hi.trans hj.symm)

/-! ## The modules that are gone -/

section

variable {codec : Codec} (hcodec : codec.ChecksNames)

/-- The manifests of a request that passes its checks are accepted. -/
lemma verify_of_checkRequest {manifest : Manifest}
    (h : compilation.checkRequest codec = .ok ())
    (hmanifest : compilation.previousManifest = some manifest) :
    manifest.verify codec = .ok () := by
  simp only [checkRequest, andThen_eq_ok, checkAll_eq_ok, hmanifest] at h
  exact h.1 manifest (by simp)

lemma wellFormed_of_checkRequest (h : compilation.checkRequest codec = .ok ())
    {unit : CompilationUnit} {previous : PackageModuleArtifact}
    (hprevious : compilation.previousModule unit = some previous)
    {observation : DependencyObservation} (hmem : observation ∈ previous.observations) :
    observation.wellFormed = true := by
  obtain ⟨manifest, hmanifest, hfind⟩ := Option.bind_eq_some_iff.mp hprevious
  exact Manifest.wellFormed_of_verify (verify_of_checkRequest h hmanifest)
    (Manifest.findModule_eq_some hfind).1 hmem

include hcodec

lemma removedDecisions_accepted (h : compilation.checkRequest codec = .ok ())
    {decision : UnitCompilationDecision} (hdecision : decision ∈ compilation.removedDecisions) :
    decision.Accepted := by
  obtain ⟨module, hmodule, hsome⟩ := List.mem_filterMap.mp hdecision
  obtain ⟨manifest, hmanifest, hmem⟩ := List.mem_flatMap.mp hmodule
  split at hsome
  · simp at hsome
  · obtain rfl := Option.some.inj hsome
    have hverify := verify_of_checkRequest h (Option.mem_toList.mp hmanifest)
    exact UnitCompilationDecision.accepted_removed
      (Manifest.moduleName_ne_nil_of_verify hcodec (Manifest.verify_of_mem hverify hmem))

/-- The decisions about removed modules are about different modules, none of which is a unit. -/
lemma removedDecisions_names (h : compilation.checkRequest codec = .ok ()) :
    (compilation.removedDecisions.map UnitCompilationDecision.moduleName).Nodup ∧
      ∀ decision ∈ compilation.removedDecisions,
        decision.moduleName ∉ compilation.moduleNames := by
  have hnames : compilation.removedDecisions.map UnitCompilationDecision.moduleName =
      ((compilation.previousManifest.toList.flatMap Manifest.modules).map
        PackageModuleArtifact.moduleName).filter fun name =>
          decide (name ∉ compilation.moduleNames) := by
    rw [removedDecisions, List.map_filterMap, List.filter_map, ← List.filterMap_eq_map,
      List.filterMap_filter]
    congr 1
    funext module
    by_cases hmem : module.moduleName ∈ compilation.moduleNames <;> simp [hmem]
  constructor
  · rw [hnames]
    apply List.Nodup.filter
    cases hmanifest : compilation.previousManifest with
    | none => simp
    | some manifest =>
      simpa using Manifest.nodup_moduleNames hcodec (verify_of_checkRequest h hmanifest)
  · intro decision hdecision
    have hmem : decision.moduleName ∈
        compilation.removedDecisions.map UnitCompilationDecision.moduleName :=
      List.mem_map.mpr ⟨decision, hdecision, rfl⟩
    rw [hnames, List.mem_filter] at hmem
    simpa using hmem.2

/-- Decisions about units, next to those about removed modules, make an accepted plan exactly when
they are accepted themselves. -/
lemma verify_withRemoved (h : compilation.checkRequest codec = .ok ())
    {decisions : List UnitCompilationDecision}
    (hnodup : (decisions.map UnitCompilationDecision.moduleName).Nodup)
    (hnames : ∀ decision ∈ decisions, decision.moduleName ∈ compilation.moduleNames) :
    (IncrementalCompilationPlan.ofDecisions
        (decisions ++ compilation.removedDecisions)).verify = .ok () ↔
      ∀ decision ∈ decisions, decision.Accepted := by
  obtain ⟨hremoved, hgone⟩ := removedDecisions_names hcodec h
  have hall : ((decisions ++ compilation.removedDecisions).map
      UnitCompilationDecision.moduleName).Nodup := by
    rw [List.map_append]
    refine hnodup.append hremoved ?_
    intro name hunit hname
    obtain ⟨decision, hdecision, rfl⟩ := List.mem_map.mp hunit
    obtain ⟨other, hother, hsame⟩ := List.mem_map.mp hname
    exact hgone other hother (hsame ▸ hnames decision hdecision)
  rw [IncrementalCompilationPlan.verify_ofDecisions_iff]
  constructor
  · intro ⟨_, hfine⟩ decision hdecision
    exact hfine decision (List.mem_append_left _ hdecision)
  · intro hfine
    refine ⟨hall, fun decision hdecision => ?_⟩
    obtain hdecision | hdecision := List.mem_append.mp hdecision
    · exact hfine decision hdecision
    · exact removedDecisions_accepted hcodec h hdecision

end

/-! ## The pass that is made when imports are diagnosed -/

variable (compilation) in
/-- The unit is unchanged, and it has observed a binding of a module that is gone. -/
def LosesBinding (unit : CompilationUnit) : Prop :=
  ∃ previous, compilation.previousModule unit = some previous ∧
    previous.sourceFingerprint = compilation.sourceFingerprint unit ∧
      ∃ observation ∈ previous.observations,
        compilation.providerExists observation = false ∧ observation.bindingName ≠ []

lemma failedObservation_eq_some {observation : DependencyObservation} {value : UnitInvalidation} :
    compilation.failedObservation observation = some value ↔
      compilation.providerExists observation = false ∧
        value = ⟨.importedModuleRemoved, observation.provider, observation.bindingName⟩ := by
  unfold failedObservation
  cases compilation.providerExists observation with
  | true => simp
  | false => simp [eq_comm]

/-- No unit is removed by this pass. -/
lemma reason_of_failedInvalidations {unit : CompilationUnit} {value : UnitInvalidation}
    (h : value ∈ compilation.failedInvalidations unit) : value.reason ≠ .moduleRemoved := by
  unfold failedInvalidations at h
  split at h
  · obtain rfl := List.mem_singleton.mp h
    simp
  · obtain h | h := List.mem_append.mp h
    · exact (Session.sound_of_reasonWhen rfl rfl (by simp) h).2
    · split at h
      · obtain rfl | h := List.mem_cons.mp h
        · simp
        · exact (Session.sound_of_reasonWhen rfl rfl (by simp) h).2
      · obtain h | h := List.mem_append.mp h
        · exact (Session.sound_of_reasonWhen rfl rfl (by simp) h).2
        · obtain ⟨observation, -, hvalue⟩ := List.mem_filterMap.mp h
          obtain ⟨-, rfl⟩ := failedObservation_eq_some.mp hvalue
          simp

/-- The only reasons of this pass that are not well formed are about lost bindings. -/
lemma wellFormed_failedInvalidations {unit : CompilationUnit}
    (hformed : ∀ previous, compilation.previousModule unit = some previous →
      ∀ observation ∈ previous.observations, observation.wellFormed = true) :
    (∀ value ∈ compilation.failedInvalidations unit, value.wellFormed = true) ↔
      ¬ compilation.LosesBinding unit := by
  constructor
  · rintro h ⟨previous, hprevious, hsource, observation, hmem, hgone, hbinding⟩
    refine hbinding ((UnitInvalidation.wellFormed_importedModuleRemoved
      (hformed previous hprevious observation hmem)).mp (h _ ?_))
    simp only [failedInvalidations, hprevious, hsource, ne_eq, not_true_eq_false, if_false]
    refine List.mem_append_right _ (List.mem_append_right _ (List.mem_filterMap.mpr ?_))
    exact ⟨observation, hmem, failedObservation_eq_some.mpr ⟨hgone, rfl⟩⟩
  · intro h value hvalue
    unfold failedInvalidations at hvalue
    split at hvalue
    · obtain rfl := List.mem_singleton.mp hvalue
      rfl
    · rename_i previous hprevious
      obtain hvalue | hvalue := List.mem_append.mp hvalue
      · exact (Session.sound_of_reasonWhen rfl rfl (by simp) hvalue).1
      · split at hvalue
        · obtain rfl | hvalue := List.mem_cons.mp hvalue
          · rfl
          · exact (Session.sound_of_reasonWhen rfl rfl (by simp) hvalue).1
        · rename_i hsource
          obtain hvalue | hvalue := List.mem_append.mp hvalue
          · exact (Session.sound_of_reasonWhen rfl rfl (by simp) hvalue).1
          · obtain ⟨observation, hmem, hsome⟩ := List.mem_filterMap.mp hvalue
            obtain ⟨hgone, rfl⟩ := failedObservation_eq_some.mp hsome
            refine (UnitInvalidation.wellFormed_importedModuleRemoved
              (hformed previous hprevious observation hmem)).mpr ?_
            by_contra hbinding
            exact h ⟨previous, hprevious, not_not.mp hsource, observation, hmem, hgone, hbinding⟩

lemma failedDecision_accepted_iff {unit : ParsedUnit} (hname : unit.moduleName ≠ [])
    (hformed : ∀ previous, compilation.previousModule unit.toCompilationUnit = some previous →
      ∀ observation ∈ previous.observations, observation.wellFormed = true) :
    (compilation.failedDecision unit).Accepted ↔
      ¬ compilation.LosesBinding unit.toCompilationUnit := by
  rw [← wellFormed_failedInvalidations hformed]
  refine ⟨And.right, fun h => ⟨?_, h⟩⟩
  unfold failedDecision
  by_cases hnil : compilation.failedInvalidations unit.toCompilationUnit = []
  · simp only [hnil, if_true]
    exact UnitCompilationDecision.wellFormed_reuse hname
  · simp only [hnil, if_false]
    exact UnitCompilationDecision.wellFormed_rebuild hname hnil
      fun value hvalue => reason_of_failedInvalidations hvalue

/-! ## The plan of a compilation -/

variable {decisions : List UnitCompilationDecision}

@[simp]
lemma finish_plan {error : Option CompileError} :
    (finish decisions error).plan = some (.ofDecisions decisions) := by
  simp only [finish]
  split <;> rfl

/-- A diagnosis is handed out with an accepted plan, and only then. -/
lemma finish_error_iff {report : List (Text × List DiagnosticKind)} :
    (finish decisions (some (.diagnostics report))).error = some (.diagnostics report) ↔
      (IncrementalCompilationPlan.ofDecisions decisions).verify = .ok () := by
  simp only [finish]
  split
  · simp_all
  · simp_all

lemma finish_of_error {error : Option CompileError} {planError : String}
    (h : (IncrementalCompilationPlan.ofDecisions decisions).verify = .error planError) :
    finish decisions error = ⟨some (.ofDecisions decisions), some (.message planError)⟩ := by
  simp only [finish, h]

lemma compile_of_diagnosed {codec : Codec} (hrequest : compilation.checkRequest codec = .ok ())
    (hclean : formatDiagnostics (inspectUnits [] compilation.units) = [])
    (hdiagnosed : compilation.importDiagnostics ≠ []) :
    compilation.compile codec =
      finish compilation.failedDecisions (some (.diagnostics compilation.importDiagnostics)) := by
  rw [compile, hrequest]
  show (if formatDiagnostics (inspectUnits [] compilation.units) ≠ [] then _ else _) = _
  rw [if_neg (not_not.mpr hclean), if_pos hdiagnosed]

/-- The two ways in which a compilation makes a plan. -/
lemma compile_plan_cases {codec : Codec} {plan : IncrementalCompilationPlan}
    (h : (compilation.compile codec).plan = some plan) :
    compilation.checkRequest codec = .ok () ∧
      formatDiagnostics (inspectUnits [] compilation.units) = [] ∧
      ((compilation.importDiagnostics ≠ [] ∧
          plan = .ofDecisions compilation.failedDecisions ∧
          compilation.compile codec = finish compilation.failedDecisions
            (some (.diagnostics compilation.importDiagnostics))) ∨
        (compilation.importDiagnostics = [] ∧ ∃ state,
          compilation.compileUnits {} ((compilation.order.filterMap fun id =>
            compilation.units[id]?).map ParsedUnit.toCompilationUnit) = .ok state ∧
          plan = .ofDecisions (state.decisions ++ compilation.removedDecisions))) := by
  unfold compile at h ⊢
  split at h
  · simp at h
  · rename_i hrequest
    refine ⟨hrequest, ?_⟩
    simp only at h
    split at h
    · simp at h
    · rename_i hclean
      refine ⟨not_not.mp hclean, ?_⟩
      split at h
      · rename_i hdiagnosed
        rw [finish_plan] at h
        refine Or.inl ⟨hdiagnosed, (Option.some.inj h).symm, ?_⟩
        simpa only [compile, hrequest] using
          compile_of_diagnosed hrequest (not_not.mp hclean) hdiagnosed
      · rename_i hdiagnosed
        refine Or.inr ⟨not_not.mp hdiagnosed, ?_⟩
        split at h
        · simp at h
        · split at h
          · simp at h
          · rename_i state hstate
            rw [finish_plan] at h
            exact ⟨state, hstate, (Option.some.inj h).symm⟩

/-- The plan that a compilation makes is accepted unless imports are diagnosed while an unchanged
unit has observed a binding of a module that is gone; in that case the diagnostics are not what the
caller gets. -/
theorem compile_plan_iff {codec : Codec} (hcodec : codec.ChecksNames)
    {plan : IncrementalCompilationPlan} (hplan : (compilation.compile codec).plan = some plan) :
    (plan.verify = .ok () ↔
        ¬ (compilation.importDiagnostics ≠ [] ∧
          ∃ unit ∈ compilation.units, compilation.LosesBinding unit.toCompilationUnit)) ∧
      (compilation.importDiagnostics ≠ [] →
        ((compilation.compile codec).error =
            some (.diagnostics compilation.importDiagnostics) ↔
          ¬ ∃ unit ∈ compilation.units, compilation.LosesBinding unit.toCompilationUnit)) := by
  obtain ⟨hrequest, hclean, hcase⟩ := compile_plan_cases hplan
  obtain ⟨hnamed, hnodup⟩ := named_of_inspectUnits hclean
  have hformed : ∀ unit previous, compilation.previousModule unit = some previous →
      ∀ observation ∈ previous.observations, observation.wellFormed = true :=
    fun unit previous hprevious observation hmem =>
      wellFormed_of_checkRequest hrequest hprevious hmem
  obtain ⟨hdiagnosed, rfl, hcompile⟩ | ⟨hdiagnosed, state, hstate, rfl⟩ := hcase
  · have hplan : (IncrementalCompilationPlan.ofDecisions compilation.failedDecisions).verify =
        .ok () ↔ ¬ ∃ unit ∈ compilation.units,
          compilation.LosesBinding unit.toCompilationUnit := by
      rw [failedDecisions, verify_withRemoved hcodec hrequest]
      · simp only [List.forall_mem_map, not_exists, not_and]
        exact forall₂_congr fun unit hunit =>
          failedDecision_accepted_iff (hnamed unit hunit).1 (hformed _)
      · simpa [List.map_map, Function.comp_def, failedDecision] using hnodup
      · intro decision hdecision
        obtain ⟨unit, hunit, rfl⟩ := List.mem_map.mp hdecision
        exact mem_moduleNames hunit (hnamed unit hunit).1
    refine ⟨?_, fun _ => ?_⟩
    · rw [hplan]
      simp [hdiagnosed]
    · rw [hcompile, finish_error_iff, hplan]
  · refine ⟨?_, fun h => absurd hdiagnosed h⟩
    have hunit : ∀ unit ∈ compilation.order.filterMap fun id => compilation.units[id]?,
        unit ∈ compilation.units := by
      intro unit hmem
      obtain ⟨id, -, hid⟩ := List.mem_filterMap.mp hmem
      exact List.mem_of_getElem? hid
    obtain ⟨decisions, hdecisions, hnames, haccepted⟩ :=
      Session.compileUnits_accepted (by
        intro unit hmem
        obtain ⟨parsed, hparsed, rfl⟩ := List.mem_map.mp hmem
        exact (hnamed parsed (hunit parsed hparsed)).1) hformed hstate
    rw [hdecisions, List.nil_append, verify_withRemoved hcodec hrequest]
    · simpa [hdiagnosed] using haccepted
    · rw [hnames, List.map_map]
      exact nodup_ordered hnodup
    · intro decision hdecision
      have hmem : decision.moduleName ∈ decisions.map UnitCompilationDecision.moduleName :=
        List.mem_map.mpr ⟨decision, hdecision, rfl⟩
      rw [hnames, List.map_map] at hmem
      obtain ⟨parsed, hparsed, hname⟩ := List.mem_map.mp hmem
      rw [← hname]
      exact mem_moduleNames (hunit parsed hparsed) (hnamed parsed (hunit parsed hparsed)).1

end Compilation

/-! ## A module that is removed

The module `main` of the package `a` calls a function of the module `utility`.  Then `utility` is
removed, and `main` is left as it was. -/

lemma functionCodec_checksNames : functionCodec.ChecksNames := by
  intro interface h
  simp only [functionCodec, ensure_eq_ok, Bool.and_eq_true] at h
  simpa using h.1.1.1.2

def sourceOfMain : Text :=
  "module main;\nimport utility;\nfn main(): i32 \x7b return utility::shared(1); \x7d\n".toList

def sourceOfUtility : Text :=
  "module utility;\nexport fn shared(value: i32): i32 \x7b return value; \x7d\n".toList

/-- A module of the package `a` that was compiled from a source. -/
def compiledFrom (source name : Text) (functions : List PublicFunctionArtifact)
    (observations : List DependencyObservation) : PackageModuleArtifact :=
  { moduleOfA name functions observations with
    sourceFingerprint := fingerprintSource ['a'] name .chthollySource source }

def utilityIdentity : ModuleIdentity := ⟨['a'], "utility".toList⟩

/-- What `main` has observed: that `utility` is there, and its function. -/
def observationsOfMain : List DependencyObservation :=
  [{ kind := .modulePresence
     provider := utilityIdentity
     expectedFingerprint := fingerprintModuleIdentity ['a'] "utility".toList },
   { kind := .entityBinding
     provider := utilityIdentity
     bindingName := "shared".toList
     expectedFingerprint := stamp 7
     canonicalProvider := utilityIdentity
     canonicalName := "shared".toList }]

def calledModules : List PackageModuleArtifact :=
  [compiledFrom sourceOfMain "main".toList [] observationsOfMain,
    compiledFrom sourceOfUtility "utility".toList
      [⟨"shared".toList, ['a'], "utility".toList, "shared".toList, stamp 7⟩] []]

lemma calledModules_verify :
    (barePackage ['a'] [] calledModules).verify functionCodec = .ok () :=
  barePackage_verify rfl (by decide +kernel) (by decide +kernel)

/-- A source file that was parsed without a diagnostic. -/
def parsedFile (name source : Text) (imports : List ImportDeclaration) (h : name ≠ []) :
    ParsedUnit where
  moduleName := name
  source := source
  imports := imports
  named := Or.inl h

def parsedMain : ParsedUnit :=
  parsedFile "main".toList sourceOfMain [⟨"utility".toList, none⟩] (by decide)

def parsedUtility : ParsedUnit :=
  parsedFile "utility".toList sourceOfUtility [] (by decide)

/-- A compilation of the package after both modules have been compiled. -/
def recompile (units : List ParsedUnit) : Compilation :=
  { checkOfA calledModules with units := units }

lemma recompile_checkRequest (units : List ParsedUnit) :
    (recompile units).checkRequest functionCodec = .ok () := by
  simp only [Compilation.checkRequest, andThen_eq_ok, checkAll_eq_ok, ensure_eq_ok]
  refine ⟨?_, by simp [recompile, checkOfA], rfl⟩
  intro manifest hmanifest
  obtain rfl : manifest = barePackage ['a'] [] calledModules := by
    simpa [recompile, checkOfA] using hmanifest
  exact calledModules_verify

/-- The decisions after `utility` has been removed. -/
def decisionsWithoutUtility : List UnitCompilationDecision :=
  [⟨"main".toList, .rebuild,
      [⟨.importedModuleRemoved, utilityIdentity, []⟩,
        ⟨.importedModuleRemoved, utilityIdentity, "shared".toList⟩]⟩,
    ⟨"utility".toList, .removed, [{ reason := .moduleRemoved }]⟩]

lemma decisionsWithoutUtility_verify :
    (IncrementalCompilationPlan.ofDecisions decisionsWithoutUtility).verify =
      .error ("incremental compilation plan has an invalid reason: " ++
        "imported-module-removed provider=a/utility binding=shared") := by
  decide

/-- `utility` has been removed: the import of `main` is diagnosed as unknown, and the caller gets an
error about the plan. -/
theorem removed_import_unreported :
    functionCodec.ChecksNames ∧
      (barePackage ['a'] [] calledModules).verify functionCodec = .ok () ∧
      (recompile [parsedMain]).previousManifest = some (barePackage ['a'] [] calledModules) ∧
      (recompile [parsedMain]).importDiagnostics = [("main".toList, [.unknownImport])] ∧
      (∃ plan, ((recompile [parsedMain]).compile functionCodec).plan = some plan ∧
        plan.verify ≠ .ok ()) ∧
      ((recompile [parsedMain]).compile functionCodec).error =
        some (.message ("incremental compilation plan has an invalid reason: " ++
          "imported-module-removed provider=a/utility binding=shared")) := by
  have hdiagnostics : (recompile [parsedMain]).importDiagnostics =
      [("main".toList, [.unknownImport])] := by
    decide
  have hprevious : (recompile [parsedMain]).previousModule parsedMain.toCompilationUnit =
      some (compiledFrom sourceOfMain "main".toList [] observationsOfMain) := rfl
  have hmatches : (recompile [parsedMain]).configurationMatches = true :=
    checkOfA_configurationMatches calledModules
  have hsource : (compiledFrom sourceOfMain "main".toList [] observationsOfMain).sourceFingerprint =
      (recompile [parsedMain]).sourceFingerprint parsedMain.toCompilationUnit := rfl
  have hinvalidations :
      (recompile [parsedMain]).failedInvalidations parsedMain.toCompilationUnit =
        [⟨.importedModuleRemoved, utilityIdentity, []⟩,
          ⟨.importedModuleRemoved, utilityIdentity, "shared".toList⟩] := by
    simp only [Compilation.failedInvalidations, hprevious, hmatches, hsource, ne_eq,
      not_true_eq_false, if_false]
    decide
  have hremoved : (recompile [parsedMain]).removedDecisions =
      [⟨"utility".toList, .removed, [{ reason := .moduleRemoved }]⟩] := rfl
  have hfailed : (recompile [parsedMain]).failedDecisions = decisionsWithoutUtility := by
    rw [Compilation.failedDecisions, hremoved]
    show [Compilation.failedDecision _ parsedMain] ++ _ = _
    rw [Compilation.failedDecision, hinvalidations]
    rfl
  have hcompile := Compilation.compile_of_diagnosed (recompile_checkRequest [parsedMain])
    (by decide) (by rw [hdiagnostics]; simp)
  rw [hfailed, Compilation.finish_of_error decisionsWithoutUtility_verify] at hcompile
  rw [hcompile]
  refine ⟨functionCodec_checksNames, calledModules_verify, rfl, hdiagnostics, ⟨_, rfl, ?_⟩, rfl⟩
  rw [decisionsWithoutUtility_verify]
  simp

/-- A new file that imports a module that is not there. -/
def parsedExtra : ParsedUnit :=
  parsedFile "extra".toList "module extra;\nimport missing;\n".toList [⟨"missing".toList, none⟩]
    (by decide)

/-- With `utility` in place, the import of a new file is diagnosed as unknown, and that is what the
caller gets. -/
theorem added_import_reported :
    ((recompile [parsedMain, parsedUtility, parsedExtra]).compile functionCodec).error =
      some (.diagnostics [("extra".toList, [.unknownImport])]) := by
  have hdiagnostics : (recompile [parsedMain, parsedUtility, parsedExtra]).importDiagnostics =
      [("extra".toList, [.unknownImport])] := by
    decide
  have hne : (recompile [parsedMain, parsedUtility, parsedExtra]).importDiagnostics ≠ [] := by
    rw [hdiagnostics]
    simp
  have hcompile := Compilation.compile_of_diagnosed
    (recompile_checkRequest [parsedMain, parsedUtility, parsedExtra]) (by decide) hne
  have hiff := Compilation.compile_plan_iff functionCodec_checksNames
    (congrArg CompileResult.plan hcompile |>.trans Compilation.finish_plan)
  rw [← hdiagnostics, hiff.2 hne]
  rintro ⟨unit, -, previous, hprevious, -, observation, hmem, hgone, -⟩
  obtain ⟨manifest, hmanifest, hfind⟩ := Option.bind_eq_some_iff.mp hprevious
  obtain rfl : manifest = barePackage ['a'] [] calledModules := by
    simpa [recompile, checkOfA] using hmanifest.symm
  have hmodule : previous ∈ calledModules := (Manifest.findModule_eq_some hfind).1
  have hutility : observation.provider = utilityIdentity := by
    simp only [calledModules, List.mem_cons, List.not_mem_nil, or_false] at hmodule
    obtain rfl | rfl := hmodule
    · have hobserved : observation ∈ observationsOfMain := hmem
      simp only [observationsOfMain, List.mem_cons, List.not_mem_nil, or_false] at hobserved
      obtain rfl | rfl := hobserved
      · rfl
      · rfl
    · exact absurd hmem (by simp [compiledFrom, moduleOfA])
  have hthere : (recompile [parsedMain, parsedUtility, parsedExtra]).providerExists observation =
      true := by
    rw [Compilation.providerExists, hutility]
    decide
  simp [hthere] at hgone

end Incremental

end Chtholly
