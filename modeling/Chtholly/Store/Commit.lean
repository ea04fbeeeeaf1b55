import Chtholly.Store.World

/-!
# What a commit leaves

The validation says of what a publication carries that it is well formed, and of its manifests that
they are closed under dependencies.  The writes of a commit keep every artifact that is there, and
the closure of components that is followed under the lock is there after them.  Of the objects and
nominal artifacts that are named without being carried the commit knows nothing; where they are in
the store, the new root is closed.

## Main definitions

* `Store.Prepared.Sound` — what the validation says.
* `Store.Prepared.Supplied` — the objects and nominal artifacts are carried or in the store.
* `Store.Prepared.CollisionFree` — no two artifacts share a fingerprint.
* `Store.Files.Extends` — what writes do to the files.

## Main results

* `Store.Publication.validate_sound` — a validated publication is sound.
* `Store.Files.performAll_extends` — the writes keep what is there.
* `Store.verifyComponents_spec` — the closure of components is available.
* `Store.closedFrom_published` — the manifests of a commit are closed.
-/

set_option autoImplicit false

namespace Chtholly

namespace Store

open Registry (Text Bytes)
open Incremental

/-! ## Sound publications -/

/-- The check of a write that the validation has made. -/
def Write.Sound (codec : ArtifactCodec) : Write → Prop
  | .object published => published.bytes ≠ [] ∧
      fingerprintObject published.targetTriple published.bytes published.specificFingerprint =
        published.fingerprint
  | .component value => codec.verifyComponent value = .ok ()
  | .nominal kind artifact => codec.verifyNominal kind artifact = .ok ()
  | .manifest value => value.verify codec.toCodec = .ok ()

/-- The artifact that is written. -/
def Write.name (codec : ArtifactCodec) : Write → ArtifactName
  | .object published => .object published.fingerprint
  | .component value => .component (value.fingerprint codec)
  | .nominal kind artifact => .nominal kind artifact.resultFingerprint
  | .manifest value => .manifest (value.fingerprint codec.toCodec)

/-- What the validation says of a publication. -/
structure Prepared.Sound (codec : ArtifactCodec) (prepared : Prepared) : Prop where
  writes : ∀ write ∈ prepared.writes, write.Sound codec
  dependencies : ∀ manifest ∈ prepared.manifests,
    ∀ dependency ∈ manifest.directDependencies, ∃ found ∈ prepared.manifests,
      found.fingerprint codec.toCodec = dependency.manifestFingerprint
  root : ∃ manifest ∈ prepared.manifests,
    manifest.fingerprint codec.toCodec = prepared.reference.rootManifest

variable {manifests : List Manifest} {manifest : Manifest}

lemma verify_of_checkManifests {codec : ArtifactCodec} {seen : List Manifest}
    (h : checkManifests codec seen manifests = .ok ()) (hmem : manifest ∈ manifests) :
    manifest.verify codec.toCodec = .ok () := by
  induction manifests generalizing seen with
  | nil => simp at hmem
  | cons first rest ih =>
    simp only [checkManifests, andThen_eq_ok] at h
    obtain ⟨hfirst, -, hrest⟩ := h
    obtain rfl | hmem := List.mem_cons.mp hmem
    · exact hfirst
    · exact ih hrest hmem

lemma mem_of_findPackage {packageName : Text}
    (h : findPackage manifests packageName = some manifest) : manifest ∈ manifests :=
  List.mem_of_find?_eq_some h

lemma mem_of_mapM {α β : Type} {f : α → Except String β} {as : List α} {bs : List β} {b : β}
    (h : as.mapM f = .ok bs) (hmem : b ∈ bs) : ∃ a ∈ as, f a = .ok b := by
  induction as generalizing bs with
  | nil =>
    obtain rfl := Except.ok.inj h
    simp at hmem
  | cons a as ih =>
    rw [List.mapM_cons] at h
    obtain ⟨first, hfirst, h⟩ := except_bind_eq_ok.mp h
    obtain ⟨rest, hrest, h⟩ := except_bind_eq_ok.mp h
    obtain rfl := Except.ok.inj h
    rcases List.mem_cons.mp hmem with rfl | hmem
    · exact ⟨a, List.mem_cons_self, hfirst⟩
    · obtain ⟨a', ha', hf⟩ := ih hrest hmem
      exact ⟨a', List.mem_cons_of_mem _ ha', hf⟩

/-- The dependencies of a manifest are published with it. -/
lemma exists_of_checkClosure {codec : ArtifactCodec}
    (h : checkClosure codec manifests manifest = .ok ()) {dependency : PackageManifestDependency}
    (hmem : dependency ∈ manifest.directDependencies) :
    ∃ found ∈ manifests,
      found.fingerprint codec.toCodec = dependency.manifestFingerprint := by
  unfold checkClosure at h
  obtain ⟨dependencies, hdependencies, hverify⟩ := except_bind_eq_ok.mp h
  obtain ⟨found, hfound, hfingerprint⟩ := Manifest.exists_of_verifyDependencies hverify hmem
  obtain ⟨recorded, -, hrecorded⟩ := mem_of_mapM hdependencies hfound
  refine ⟨found, ?_, hfingerprint⟩
  split at hrecorded
  · cases hrecorded
  · rename_i manifest' hpackage
    obtain rfl := Except.ok.inj hrecorded
    exact mem_of_findPackage hpackage

lemma check_of_prepareArtifacts {α : Type} [DecidableEq α] {check : α → Except String Unit}
    {name : α → StableFingerprint} {collision : String} {prepared artifacts result : List α}
    (hprepared : ∀ artifact ∈ prepared, check artifact = .ok ())
    (h : prepareArtifacts check name collision prepared artifacts = .ok result) :
    ∀ artifact ∈ result, check artifact = .ok () := by
  induction artifacts generalizing prepared with
  | nil =>
    obtain rfl := Except.ok.inj h
    exact hprepared
  | cons first rest ih =>
    unfold prepareArtifacts at h
    split at h
    · cases h
    · rename_i hcheck
      split at h
      · refine ih (fun artifact hartifact => ?_) h
        rcases List.mem_append.mp hartifact with hartifact | hartifact
        · exact hprepared artifact hartifact
        · obtain rfl := List.mem_singleton.mp hartifact
          exact hcheck
      · split at h
        · exact ih hprepared h
        · cases h

lemma mem_writes {prepared : Prepared} {write : Write} :
    write ∈ prepared.writes ↔
      (∃ published ∈ prepared.objects, write = .object published) ∨
      (∃ component ∈ prepared.components, write = .component component) ∨
      (∃ kind, ∃ artifact ∈ prepared.nominals kind, write = .nominal kind artifact) ∨
      ∃ manifest ∈ prepared.manifests, write = .manifest manifest := by
  simp only [Prepared.writes, List.mem_append, List.mem_map, List.mem_flatMap, or_assoc,
    eq_comm (b := write)]
  refine or_congr_right (or_congr_right (or_congr_left ⟨?_, ?_⟩))
  · rintro ⟨kind, -, h⟩
    exact ⟨kind, h⟩
  · rintro ⟨kind, h⟩
    refine ⟨kind, ?_, h⟩
    cases kind <;> simp

/-- A validated publication is sound. -/
theorem Publication.validate_sound {codec : ArtifactCodec} {files : Files} {expectedTarget : Text}
    {publication : Publication} {prepared : Prepared}
    (h : publication.validate codec files expectedTarget = .ok prepared) :
    prepared.Sound codec := by
  unfold Publication.validate at h
  obtain ⟨⟨⟩, hmanifests, h⟩ := except_bind_eq_ok.mp h
  obtain ⟨⟨⟩, hclosure, h⟩ := except_bind_eq_ok.mp h
  obtain ⟨components, hcomponents, h⟩ := except_bind_eq_ok.mp h
  obtain ⟨specifics, hspecifics, h⟩ := except_bind_eq_ok.mp h
  obtain ⟨witnesses, hwitnesses, h⟩ := except_bind_eq_ok.mp h
  obtain ⟨layouts, hlayouts, h⟩ := except_bind_eq_ok.mp h
  obtain ⟨⟨⟩, -, h⟩ := except_bind_eq_ok.mp h
  obtain ⟨⟨⟩, hroot, h⟩ := except_bind_eq_ok.mp h
  obtain ⟨⟨⟩, hobjects, h⟩ := except_bind_eq_ok.mp h
  obtain ⟨⟨⟩, -, h⟩ := except_bind_eq_ok.mp h
  obtain rfl := Except.ok.inj h
  rw [checkAll_eq_ok] at hclosure hobjects
  refine ⟨fun write hwrite => ?_, fun manifest hmanifest dependency hdependency =>
    exists_of_checkClosure (hclosure manifest hmanifest) hdependency, ?_⟩
  · rcases mem_writes.mp hwrite with ⟨published, hmem, rfl⟩ | ⟨component, hmem, rfl⟩ |
      ⟨kind, artifact, hmem, rfl⟩ | ⟨manifest, hmem, rfl⟩
    · have hobject := hobjects published hmem
      simp only [checkObject, ensure_eq_ok, Bool.and_eq_true, beq_iff_eq, Bool.not_eq_true',
        List.isEmpty_eq_false_iff] at hobject
      exact ⟨hobject.1.2, hobject.2⟩
    · have hcheck := check_of_prepareArtifacts (by simp) hcomponents component hmem
      simp only [checkComponent, andThen_eq_ok] at hcheck
      exact hcheck.1
    · cases kind with
      | specific => exact check_of_prepareArtifacts (by simp) hspecifics artifact hmem
      | witness => exact check_of_prepareArtifacts (by simp) hwitnesses artifact hmem
      | layout => exact check_of_prepareArtifacts (by simp) hlayouts artifact hmem
    · exact verify_of_checkManifests hmanifests ((List.mem_insertionSort _).mp hmem)
  · simp only [ensure_eq_ok, beq_iff_eq] at hroot
    exact ⟨publication.rootManifest, mem_of_findPackage hroot, rfl⟩

/-! ## Writes -/

namespace Files

/-- What writes do to the files: artifacts that are there stay with what they name, and the new
manifests and components are written ones. -/
structure Extends (codec : ArtifactCodec) (writes : List Write) (files files' : Files) : Prop where
  holds : ∀ name, files.Holds codec name → files'.Holds codec name
  edges : ∀ name, files.Holds codec name → ∀ next ∈ files'.edges name, next ∈ files.edges name
  manifests : ∀ fingerprint manifest, files'.manifests fingerprint = some manifest →
    files.manifests fingerprint = some manifest ∨ Write.manifest manifest ∈ writes
  components : ∀ fingerprint component, files'.components fingerprint = some component →
    files.components fingerprint = some component ∨ Write.component component ∈ writes

lemma Extends.refl (codec : ArtifactCodec) (writes : List Write) (files : Files) :
    files.Extends codec writes files :=
  ⟨fun _ h => h, fun _ _ _ h => h, fun _ _ h => .inl h, fun _ _ h => .inl h⟩

lemma Extends.trans {codec : ArtifactCodec} {writes : List Write} {a b c : Files}
    (hab : a.Extends codec writes b) (hbc : b.Extends codec writes c) :
    a.Extends codec writes c where
  holds name h := hbc.holds name (hab.holds name h)
  edges name h next hnext := hab.edges name h next (hbc.edges name (hab.holds name h) next hnext)
  manifests fingerprint manifest h := by
    rcases hbc.manifests fingerprint manifest h with h | h
    · exact hab.manifests fingerprint manifest h
    · exact .inr h
  components fingerprint component h := by
    rcases hbc.components fingerprint component h with h | h
    · exact hab.components fingerprint component h
    · exact .inr h

variable {codec : ArtifactCodec} {writes : List Write} {files files' : Files}

lemma perform_object {object : PublishedObject} (hsound : (Write.object object).Sound codec)
    (h : files.perform codec (.object object) = .ok files') :
    files.Extends codec writes files' ∧ files'.Holds codec (.object object.fingerprint) := by
  obtain ⟨hbytes, hfingerprint⟩ := hsound
  simp only [perform] at h
  split at h
  · rename_i hthere
    obtain rfl := Except.ok.inj h
    refine ⟨.refl _ _ _, ?_⟩
    simp only [hasObject, Option.any_eq_true, Bool.and_eq_true, Bool.not_eq_true',
      List.isEmpty_eq_false_iff, beq_iff_eq] at hthere
    obtain ⟨bytes, hfound, hbytes, hfingerprint⟩ := hthere
    exact ⟨_, bytes, _, _, hfound, hbytes, hfingerprint⟩
  · obtain rfl := Except.ok.inj h
    refine ⟨⟨fun name hname => ?_, fun name _ next hnext => ?_, fun _ _ h => .inl h,
      fun _ _ h => .inl h⟩, ?_⟩
    · cases name with
      | manifest name => exact hname
      | component name => exact hname
      | nominal kind name => exact hname
      | object name =>
        obtain ⟨extension, bytes, target, specific, hfound, hname⟩ := hname
        by_cases hsame : name = object.fingerprint ∧ extension = object.extension
        · -- the bytes that replace the old ones have the fingerprint as well
          obtain ⟨rfl, rfl⟩ := hsame
          exact ⟨object.extension, object.bytes, _, _, by simp, hbytes, hfingerprint⟩
        · refine ⟨extension, bytes, target, specific, ?_, hname⟩
          rw [← hfound]
          by_cases hfirst : name = object.fingerprint
          · subst hfirst
            have hsecond : extension ≠ object.extension := fun h => hsame ⟨rfl, h⟩
            simp [Function.update_of_ne hsecond]
          · simp [Function.update_of_ne hfirst]
    · cases name <;> exact hnext
    · exact ⟨object.extension, object.bytes, _, _, by simp, hbytes, hfingerprint⟩

lemma perform_component {component : Component} (hwrite : Write.component component ∈ writes)
    (hsound : (Write.component component).Sound codec)
    (h : files.perform codec (.component component) = .ok files') :
    files.Extends codec writes files' ∧
      files'.Holds codec (.component (component.fingerprint codec)) := by
  simp only [perform] at h
  split at h
  · rename_i existing hload
    obtain rfl := Except.ok.inj h
    exact ⟨.refl _ _ _, existing, loadComponent_eq_ok hload⟩
  · rename_i message hload
    obtain rfl := Except.ok.inj h
    -- an artifact of this name was not there
    have hmissing : ¬ files.Holds codec (.component (component.fingerprint codec)) := by
      rintro ⟨existing, hfound, hverify, hfingerprint⟩
      simp [loadComponent, hfound, hverify, hfingerprint] at hload
    refine ⟨⟨fun name hname => ?_, fun name hname next hnext => ?_, fun _ _ h => .inl h,
      fun fingerprint found hfound => ?_⟩, component, by simp, hsound, rfl⟩
    · cases name with
      | manifest name => exact hname
      | object name => exact hname
      | nominal kind name => exact hname
      | component name =>
        have hne : name ≠ component.fingerprint codec := fun heq => hmissing (heq ▸ hname)
        simpa [Holds, Function.update_of_ne hne] using hname
    · cases name with
      | manifest name => exact hnext
      | object name => exact hnext
      | nominal kind name => exact hnext
      | component name =>
        have hne : name ≠ component.fingerprint codec := fun heq => hmissing (heq ▸ hname)
        simpa [edges, Function.update_of_ne hne] using hnext
    · by_cases hsame : fingerprint = component.fingerprint codec
      · subst hsame
        obtain rfl : component = found := by simpa using hfound
        exact .inr hwrite
      · exact .inl (by simpa [Function.update_of_ne hsame] using hfound)

lemma perform_nominal {kind : NominalKind} {artifact : NominalArtifact}
    (hsound : (Write.nominal kind artifact).Sound codec)
    (h : files.perform codec (.nominal kind artifact) = .ok files') :
    files.Extends codec writes files' ∧
      files'.Holds codec (.nominal kind artifact.resultFingerprint) := by
  obtain rfl := Except.ok.inj h
  have hnew : Holds codec
      { files with
        nominals := Function.update files.nominals kind
          (Function.update (files.nominals kind) artifact.resultFingerprint (some artifact)) }
      (.nominal kind artifact.resultFingerprint) :=
    ⟨artifact, by simp, hsound, rfl⟩
  refine ⟨⟨fun name hname => ?_, fun name _ next hnext => ?_, fun _ _ h => .inl h,
    fun _ _ h => .inl h⟩, hnew⟩
  · cases name with
    | manifest name => exact hname
    | object name => exact hname
    | component name => exact hname
    | nominal kind' name =>
      by_cases hsame : kind' = kind ∧ name = artifact.resultFingerprint
      · obtain ⟨rfl, rfl⟩ := hsame
        exact hnew
      · obtain ⟨stored, hfound, hstored⟩ := hname
        refine ⟨stored, ?_, hstored⟩
        rw [← hfound]
        by_cases hfirst : kind' = kind
        · subst hfirst
          have hsecond : name ≠ artifact.resultFingerprint := fun h => hsame ⟨rfl, h⟩
          simp [Function.update_of_ne hsecond]
        · simp [Function.update_of_ne hfirst]
  · cases name <;> exact hnext

lemma perform_manifest {manifest : Manifest} (hwrite : Write.manifest manifest ∈ writes)
    (hsound : (Write.manifest manifest).Sound codec)
    (h : files.perform codec (.manifest manifest) = .ok files') :
    files.Extends codec writes files' ∧
      files'.Holds codec (.manifest (manifest.fingerprint codec.toCodec)) := by
  simp only [perform] at h
  split at h
  · rename_i hmissing
    obtain rfl := Except.ok.inj h
    refine ⟨⟨fun name hname => ?_, fun name hname next hnext => ?_, fun fingerprint found hfound => ?_,
      fun _ _ h => .inl h⟩, manifest, by simp, hsound, rfl⟩
    · cases name with
      | component name => exact hname
      | object name => exact hname
      | nominal kind name => exact hname
      | manifest name =>
        obtain ⟨stored, hfound, hstored⟩ := hname
        have hne : name ≠ manifest.fingerprint codec.toCodec := by
          rintro rfl
          simp [hmissing] at hfound
        exact ⟨stored, by simpa [Function.update_of_ne hne] using hfound, hstored⟩
    · cases name with
      | component name => exact hnext
      | object name => exact hnext
      | nominal kind name => exact hnext
      | manifest name =>
        obtain ⟨stored, hfound, hstored⟩ := hname
        have hne : name ≠ manifest.fingerprint codec.toCodec := by
          rintro rfl
          simp [hmissing] at hfound
        simpa [edges, Function.update_of_ne hne] using hnext
    · by_cases hsame : fingerprint = manifest.fingerprint codec.toCodec
      · subst hsame
        obtain rfl : manifest = found := by simpa using hfound
        exact .inr hwrite
      · exact .inl (by simpa [Function.update_of_ne hsame] using hfound)
  · rename_i existing hfound
    split at h
    · cases h
    · rename_i hverify
      split at h
      · rename_i hfingerprint
        obtain rfl := Except.ok.inj h
        exact ⟨.refl _ _ _, existing, hfound, hverify, hfingerprint⟩
      · cases h

lemma perform_extends {write : Write} (hwrite : write ∈ writes) (hsound : write.Sound codec)
    (h : files.perform codec write = .ok files') :
    files.Extends codec writes files' ∧ files'.Holds codec (write.name codec) := by
  cases write with
  | object object => exact perform_object hsound h
  | component component => exact perform_component hwrite hsound h
  | nominal kind artifact => exact perform_nominal hsound h
  | manifest manifest => exact perform_manifest hwrite hsound h

/-- The writes keep what is there; when they all succeed, what they write is there. -/
theorem performAll_extends {budget : ℕ} {rest : List Write} {outcome : Except String Unit}
    (hrest : rest ⊆ writes) (hsound : ∀ write ∈ rest, write.Sound codec)
    (h : files.performAll codec budget rest = (outcome, files')) :
    files.Extends codec writes files' ∧
      (outcome = .ok () → ∀ write ∈ rest, files'.Holds codec (write.name codec)) := by
  induction rest generalizing budget files with
  | nil =>
    simp only [performAll, Prod.mk.injEq] at h
    obtain ⟨-, rfl⟩ := h
    exact ⟨.refl _ _ _, fun _ write hwrite => absurd hwrite List.not_mem_nil⟩
  | cons write rest ih =>
    cases budget with
    | zero =>
      simp only [performAll, Prod.mk.injEq] at h
      obtain ⟨rfl, rfl⟩ := h
      exact ⟨.refl _ _ _, fun houtcome => by cases houtcome⟩
    | succ budget =>
      simp only [performAll] at h
      split at h
      · obtain ⟨rfl, rfl⟩ := Prod.mk.inj h
        exact ⟨.refl _ _ _, fun houtcome => by cases houtcome⟩
      · rename_i middle hperform
        have hmem : write ∈ writes := hrest List.mem_cons_self
        obtain ⟨hfirst, hholds⟩ := perform_extends hmem (hsound write List.mem_cons_self) hperform
        obtain ⟨hlast, hall⟩ := ih (fun _ h => hrest (List.mem_cons_of_mem _ h))
          (fun _ h => hsound _ (List.mem_cons_of_mem _ h)) h
        refine ⟨hfirst.trans hlast, fun houtcome other hother => ?_⟩
        rcases List.mem_cons.mp hother with rfl | hother
        · exact hlast.holds _ hholds
        · exact hall houtcome other hother

end Files

/-! ## The closure of components -/

/-- The invariant of `verify_component`: what is verified is available, and calls what is
verified. -/
def Verified (codec : ArtifactCodec) (files : Files) (components : List Component)
    (verified : List StableFingerprint) : Prop :=
  ∀ fingerprint ∈ verified, ∃ component,
    availableComponent codec files components fingerprint = .ok component ∧
      component.dependencies ⊆ verified

lemma componentTracer_rule (codec : ArtifactCodec) (files : Files) (components : List Component) :
    (componentTracer codec files components).Rule (Verified codec files components)
      (fun verified verified' => verified ⊆ verified')
      (fun fingerprint next _ => ∃ component,
        availableComponent codec files components fingerprint = .ok component ∧
          component.dependencies = next)
      (fun fingerprint verified => fingerprint ∈ verified) where
  refl _ := List.Subset.refl _
  trans _ _ _ := List.Subset.trans
  entered_mono _ _ _ _ _ h := h
  settled_mono _ _ _ hsub h := hsub h
  settled fingerprint verified _ h := by simpa [componentTracer] using h
  enter fingerprint verified next verified' hverified h := by
    simp only [componentTracer] at h
    split at h
    · cases h
    · rename_i component hcomponent
      obtain ⟨rfl, rfl⟩ := Prod.mk.inj (Except.ok.inj h)
      exact ⟨hverified, List.Subset.refl _, component, hcomponent, rfl⟩
  leave fingerprint next verified verified' hverified hentered hnext h := by
    obtain ⟨component, hcomponent, rfl⟩ := hentered
    obtain rfl := Except.ok.inj h
    refine ⟨fun other hother => ?_, List.subset_cons_self _ _, List.mem_cons_self⟩
    rcases List.mem_cons.mp hother with rfl | hother
    · exact ⟨component, hcomponent, fun _ hmem => List.mem_cons_of_mem _ (hnext _ hmem)⟩
    · obtain ⟨found, hfound, hsub⟩ := hverified other hother
      exact ⟨found, hfound, fun _ hmem => List.mem_cons_of_mem _ (hsub hmem)⟩

/-- The closure of the components that the manifests name is available. -/
theorem verifyComponents_spec {codec : ArtifactCodec} {depth : ℕ} {files : Files}
    {prepared : Prepared} {verified : List StableFingerprint}
    (h : verifyComponents codec depth files prepared = .ok verified) :
    Verified codec files prepared.components verified ∧
      componentReferences prepared.manifests ⊆ verified := by
  have rule := componentTracer_rule codec files prepared.components
  have hvisit : ∀ verified fingerprint verified',
      Verified codec files prepared.components verified →
      Tracing.trace (componentTracer codec files prepared.components) depth [] verified
          fingerprint = .ok verified' →
      Verified codec files prepared.components verified' ∧ verified ⊆ verified' ∧
        fingerprint ∈ verified' := fun _ _ _ hverified htrace => Tracing.trace_rule rule hverified htrace
  have hstart : Verified codec files prepared.components [] :=
    fun _ hmem => absurd hmem List.not_mem_nil
  obtain ⟨hverified, -, hall⟩ :=
    Tracing.foldlM_rule hvisit rule.refl rule.trans rule.settled_mono hstart h
  exact ⟨hverified, hall⟩

/-! ## The published manifests -/

/-- What the commit does not look at: the object of a module and the nominal artifacts. -/
def uncheckedNames (module : PackageModuleArtifact) : List ArtifactName :=
  .object module.objectFingerprint :: nominalNames module

namespace Prepared

/-- Every object and nominal artifact that a manifest names is carried, or in the store. -/
def Supplied (codec : ArtifactCodec) (files : Files) (prepared : Prepared) : Prop :=
  ∀ manifest ∈ prepared.manifests, ∀ module ∈ manifest.modules, ∀ name ∈ uncheckedNames module,
    (∃ write ∈ prepared.writes, write.name codec = name) ∨ files.Holds codec name

/-- No published manifest or component shares its fingerprint with another one that is published
or in the store. -/
structure CollisionFree (codec : ArtifactCodec) (files : Files) (prepared : Prepared) : Prop where
  manifests : ∀ manifest ∈ prepared.manifests, ∀ other,
    (other ∈ prepared.manifests ∨ ∃ name, files.manifests name = some other) →
      other.fingerprint codec.toCodec = manifest.fingerprint codec.toCodec → other = manifest
  components : ∀ component ∈ prepared.components, ∀ other,
    (other ∈ prepared.components ∨ ∃ name, files.components name = some other) →
      other.fingerprint codec = component.fingerprint codec → other = component

/-- The artifacts that a commit makes reachable. -/
def Names (codec : ArtifactCodec) (prepared : Prepared) (verified : List StableFingerprint) :
    ArtifactName → Prop
  | .manifest fingerprint => ∃ manifest ∈ prepared.manifests,
      manifest.fingerprint codec.toCodec = fingerprint
  | .component fingerprint => fingerprint ∈ verified
  | name => ∃ manifest ∈ prepared.manifests, ∃ module ∈ manifest.modules,
      name ∈ uncheckedNames module

end Prepared

section Published

variable {codec : ArtifactCodec} {files files' : Files} {prepared : Prepared}
  {verified : List StableFingerprint}

variable {manifest : Manifest}

lemma manifest_mem_writes :
    Write.manifest manifest ∈ prepared.writes ↔ manifest ∈ prepared.manifests := by
  simp [mem_writes]

lemma component_mem_writes {component : Component} :
    Write.component component ∈ prepared.writes ↔ component ∈ prepared.components := by
  simp [mem_writes]

lemma names_of_uncheckedNames {module : PackageModuleArtifact} {name : ArtifactName}
    (hmanifest : manifest ∈ prepared.manifests) (hmodule : module ∈ manifest.modules)
    (hname : name ∈ uncheckedNames module) : prepared.Names codec verified name := by
  cases name with
  | object name => exact ⟨manifest, hmanifest, module, hmodule, hname⟩
  | nominal kind name => exact ⟨manifest, hmanifest, module, hmodule, hname⟩
  | manifest name => simp [uncheckedNames, mem_nominalNames] at hname
  | component name => simp [uncheckedNames, mem_nominalNames] at hname

/-- A component that is available is there after the commit, under its name. -/
lemma component_after {fingerprint : StableFingerprint} {component : Component}
    (hextends : files.Extends codec prepared.writes files')
    (hwritten : ∀ write ∈ prepared.writes, files'.Holds codec (write.name codec))
    (hfree : prepared.CollisionFree codec files)
    (h : availableComponent codec files prepared.components fingerprint = .ok component) :
    files'.Holds codec (.component fingerprint) ∧
      files'.components fingerprint = some component := by
  unfold availableComponent at h
  split at h
  · rename_i found hfind
    obtain rfl := Except.ok.inj h
    have hmem : found ∈ prepared.components := List.mem_of_find?_eq_some hfind
    obtain rfl : found.fingerprint codec = fingerprint := by
      simpa using List.find?_some hfind
    have hholds := hwritten (.component found) (component_mem_writes.mpr hmem)
    obtain ⟨stored, hstored, -, hfingerprint⟩ := hholds
    refine ⟨hwritten (.component found) (component_mem_writes.mpr hmem), ?_⟩
    rcases hextends.components _ _ hstored with hold | hnew
    · rw [hstored, hfree.components found hmem stored (.inr ⟨_, hold⟩) hfingerprint]
    · rw [hstored, hfree.components found hmem stored (.inl (component_mem_writes.mp hnew))
        hfingerprint]
  · rename_i hnone
    have hload := Files.loadComponent_eq_ok h
    have hholds : files'.Holds codec (.component fingerprint) :=
      hextends.holds (.component fingerprint) ⟨component, hload⟩
    refine ⟨hholds, ?_⟩
    obtain ⟨stored, hstored, -, hfingerprint⟩ := hholds
    rcases hextends.components _ _ hstored with hold | hnew
    · rw [hstored, ← hold, hload.1]
    · -- a published component of this name would have been found first
      have hnot := List.find?_eq_none.mp hnone stored (component_mem_writes.mp hnew)
      simp [hfingerprint] at hnot

/-- A published manifest is there after the commit, under its name. -/
lemma manifest_after (hmem : manifest ∈ prepared.manifests)
    (hextends : files.Extends codec prepared.writes files')
    (hwritten : ∀ write ∈ prepared.writes, files'.Holds codec (write.name codec))
    (hfree : prepared.CollisionFree codec files) :
    files'.manifests (manifest.fingerprint codec.toCodec) = some manifest := by
  obtain ⟨stored, hstored, -, hfingerprint⟩ :=
    hwritten (.manifest manifest) (manifest_mem_writes.mpr hmem)
  rcases hextends.manifests _ _ hstored with hold | hnew
  · rw [hstored, hfree.manifests manifest hmem stored (.inr ⟨_, hold⟩) hfingerprint]
  · rw [hstored, hfree.manifests manifest hmem stored (.inl (manifest_mem_writes.mp hnew))
      hfingerprint]

lemma names_manifestNames {next : ArtifactName} (hsound : prepared.Sound codec)
    (hreferences : componentReferences prepared.manifests ⊆ verified)
    (hmem : manifest ∈ prepared.manifests) (hnext : next ∈ manifestNames manifest) :
    prepared.Names codec verified next := by
  rcases List.mem_append.mp hnext with hnext | hnext
  · obtain ⟨dependency, hdependency, rfl⟩ := List.mem_map.mp hnext
    exact hsound.dependencies manifest hmem dependency hdependency
  · obtain ⟨module, hmodule, hnext⟩ := List.mem_flatMap.mp hnext
    simp only [moduleNames, List.cons_append, List.mem_cons, List.mem_append] at hnext
    rcases hnext with hobject | hcomponent | hnominal
    · exact names_of_uncheckedNames hmem hmodule (List.mem_cons.mpr (.inl hobject))
    · obtain ⟨reference, hreference, rfl⟩ := List.mem_map.mp hcomponent
      apply hreferences
      simp only [componentReferences, List.mem_flatMap, List.mem_map]
      exact ⟨manifest, hmem, module, hmodule, reference, hreference, rfl⟩
    · exact names_of_uncheckedNames hmem hmodule (List.mem_cons.mpr (.inr hnominal))

/-- After a commit whose artifacts are supplied, the published manifests are closed. -/
theorem closedFrom_published (hsound : prepared.Sound codec)
    (hsupplied : prepared.Supplied codec files) (hfree : prepared.CollisionFree codec files)
    (hverified : Verified codec files prepared.components verified)
    (hreferences : componentReferences prepared.manifests ⊆ verified)
    (hextends : files.Extends codec prepared.writes files')
    (hwritten : ∀ write ∈ prepared.writes, files'.Holds codec (write.name codec)) :
    Tracing.ClosedFrom files'.edges (files'.Holds codec) (prepared.Names codec verified) := by
  have hunchecked : ∀ manifest ∈ prepared.manifests, ∀ module ∈ manifest.modules,
      ∀ name ∈ uncheckedNames module, files'.Holds codec name := by
    intro manifest hmanifest module hmodule name hname
    rcases hsupplied manifest hmanifest module hmodule name hname with ⟨write, hwrite, rfl⟩ | hold
    · exact hwritten write hwrite
    · exact hextends.holds name hold
  apply Tracing.closedFrom_of_set
  · intro name hname
    cases name with
    | manifest name =>
      obtain ⟨manifest, hmem, rfl⟩ := hname
      exact hwritten (.manifest manifest) (manifest_mem_writes.mpr hmem)
    | component name =>
      obtain ⟨component, havailable, -⟩ := hverified name hname
      exact (component_after hextends hwritten hfree havailable).1
    | object name =>
      obtain ⟨manifest, hmanifest, module, hmodule, hname⟩ := hname
      exact hunchecked manifest hmanifest module hmodule _ hname
    | nominal kind name =>
      obtain ⟨manifest, hmanifest, module, hmodule, hname⟩ := hname
      exact hunchecked manifest hmanifest module hmodule _ hname
  · intro name hname next hnext
    cases name with
    | object name => simp [Files.edges] at hnext
    | nominal kind name => simp [Files.edges] at hnext
    | manifest name =>
      obtain ⟨manifest, hmem, rfl⟩ := hname
      simp only [Files.edges, manifest_after hmem hextends hwritten hfree, Option.map_some,
        Option.getD_some] at hnext
      exact names_manifestNames hsound hreferences hmem hnext
    | component name =>
      obtain ⟨component, havailable, hdependencies⟩ := hverified name hname
      simp only [Files.edges, (component_after hextends hwritten hfree havailable).2,
        Option.map_some, Option.getD_some, List.mem_map] at hnext
      obtain ⟨dependency, hdependency, rfl⟩ := hnext
      exact hdependencies hdependency

end Published

end Store

end Chtholly
