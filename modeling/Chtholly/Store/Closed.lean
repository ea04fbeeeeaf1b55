import Chtholly.Incremental.ForeignSymbols
import Chtholly.Store.Commit

/-!
# The store stays closed

Every reachable artifact is there, in every run whose commits find the objects and nominal artifacts
that they do not carry.  A step that fails leaves the references, and a reference is replaced by a
commit that finds the reference its session observed.

The condition is needed.  The validation of a publication looks for nominal artifacts before the lock
is taken, and nothing keeps them until the commit: a collection may remove them in between.

## Main definitions

* `Store.Action.Ready`, `Store.ReadyRun` — the condition on commits.

## Main results

* `Store.step_closed` — a step keeps the store closed.
* `Store.run_closed` — the store stays closed, and no publication is lost.
-/

set_option autoImplicit false

namespace Chtholly

namespace Store

open Registry (Text Bytes)
open Incremental

/-! ## The condition -/

/-- A commit that finds the observed reference finds what it does not carry. -/
def Action.Ready (codec : ArtifactCodec) (world : World) : Action → Prop
  | .commit index _ _ _ _ => ∀ number prepared handle,
      world.pending[index]? = some (number, prepared) → world.handles[number]? = some handle →
      world.reference handle.sessionKey = handle.observedReference →
        prepared.Supplied codec world.files ∧ prepared.CollisionFree codec world.files
  | _ => True

/-- The steps of a run meet the condition, each in the world that it finds. -/
def ReadyRun (codec : ArtifactCodec) : World → List Action → Prop
  | _, [] => True
  | world, action :: actions =>
    action.Ready codec world ∧ ReadyRun codec (step codec world action).1 actions

/-- What holds of a world in such a run. -/
structure World.Good (codec : ArtifactCodec) (world : World) : Prop where
  closed : world.Closed codec
  pending : ∀ entry ∈ world.pending, entry.2.Sound codec

/-! ## Collection -/

section Sweep

variable {codec : ArtifactCodec} {files : Files} {reachable : ReachableArtifacts}
  {kept : ArtifactName → Text → Bool} {name : ArtifactName}

lemma sweep_holds (hmark : reachable.marks name) (h : files.Holds codec name) :
    (files.sweep reachable kept).Holds codec name := by
  cases name <;> simpa only [Files.Holds, Files.sweep, hmark, true_or, if_true] using h

lemma sweep_edges {next : ArtifactName} (h : next ∈ (files.sweep reachable kept).edges name) :
    next ∈ files.edges name := by
  cases name with
  | object name => exact h
  | nominal kind name => exact h
  | manifest name =>
    simp only [Files.edges, Files.sweep] at h
    split at h
    · exact h
    · simp at h
  | component name =>
    simp only [Files.edges, Files.sweep] at h
    split at h
    · exact h
    · simp at h

end Sweep

lemma readyRun_append {codec : ArtifactCodec} {world : World} {before after : List Action} :
    ReadyRun codec world (before ++ after) ↔
      ReadyRun codec world before ∧ ReadyRun codec (run codec world before) after := by
  induction before generalizing world with
  | nil => simp [ReadyRun, run]
  | cons action before ih => simp only [List.cons_append, ReadyRun, run, ih, and_assoc]

section Steps

variable {codec : ArtifactCodec} {world : World}

variable {references : List (Text × SessionReference)} {leases : List (StableFingerprint × Lease)}
  {depth : ℕ}

/-- What is reachable from the references and active leases is marked, and stays. -/
lemma sweep_closed {reachable : ReachableArtifacts} (kept : ArtifactName → Text → Bool)
    (hreferences : references.Perm world.references) (hleases : leases.Perm world.leases)
    (hmark : markAll codec depth world.files references
      (leases.filter fun entry => world.isLocked entry.1) = .ok reachable)
    (h : world.Closed codec) :
    Tracing.ClosedFrom (world.files.sweep reachable kept).edges
      ((world.files.sweep reachable kept).Holds codec) world.Root := by
  obtain ⟨hclosed, hrefs, hactive⟩ := markAll_spec hmark
  have hroot : ∀ root, world.Root root → reachable.marks root := by
    rintro root (⟨entry, hentry, rfl⟩ | ⟨entry, hentry, hlocked, rfl⟩)
    · exact hrefs entry (hreferences.mem_iff.mpr hentry)
    · exact hactive entry (List.mem_filter.mpr ⟨hleases.mem_iff.mpr hentry, hlocked⟩)
  apply Tracing.closedFrom_of_kept
  intro root hstart name hreach
  have hname : reachable.marks name := Tracing.reaches_mem hclosed (hroot root hstart) hreach
  exact ⟨sweep_holds hname (h root hstart name hreach), fun next hnext => sweep_edges hnext⟩

lemma collect_good {interruption : Option Interruption} (h : world.Good codec) :
    (world.collect codec references leases interruption depth).1.Good codec := by
  unfold World.collect
  split
  · rename_i hperm
    split
    · exact h
    · rename_i reachable hmark
      have hroot : ∀ leases' name, (∀ entry ∈ leases', entry ∈ world.leases) →
          World.Root { world with leases := leases' } name → world.Root name := by
        rintro leases' name hsub (href | ⟨entry, hentry, hlocked, rfl⟩)
        · exact .inl href
        · exact .inr ⟨entry, hsub entry hentry, hlocked, rfl⟩
      split
      · exact ⟨(sweep_closed (fun _ _ => false) hperm.1 hperm.2 hmark h.closed).mono fun name hname =>
          hroot _ name (fun _ => List.mem_of_mem_filter) hname, h.pending⟩
      · rename_i partway
        exact ⟨(sweep_closed partway.file hperm.1 hperm.2 hmark h.closed).mono fun name hname =>
          hroot _ name (fun _ => List.mem_of_mem_filter) hname, h.pending⟩
  · exact h

/-! ## Leases -/

lemma retire_references (index : ℕ) (removed : Bool) :
    (world.retire index removed).references = world.references := by
  unfold World.retire
  split
  · rfl
  · split <;> rfl

lemma retire_files (index : ℕ) (removed : Bool) :
    (world.retire index removed).files = world.files := by
  unfold World.retire
  split
  · rfl
  · split <;> rfl

lemma retire_pending (index : ℕ) (removed : Bool) :
    (world.retire index removed).pending = world.pending := by
  unfold World.retire
  split
  · rfl
  · split <;> rfl

variable {removed : Bool}

/-- The end of a lease adds no root. -/
lemma retire_root {index : ℕ} {name : ArtifactName} (h : (world.retire index removed).Root name) :
    world.Root name := by
  unfold World.retire at h
  split at h
  · exact h
  · split at h
    · rcases h with h | ⟨entry, hentry, hlocked, rfl⟩
      · exact .inl h
      · refine .inr ⟨entry, ?_, ?_, rfl⟩
        · dsimp only at hentry
          split at hentry
          · exact List.mem_of_mem_filter hentry
          · exact hentry
        · -- a handle that has a lock afterwards is one that has not ended
          obtain ⟨handle, hhandle, hholds⟩ := List.any_eq_true.mp hlocked
          rcases List.mem_or_eq_of_mem_set hhandle with hhandle | rfl
          · exact List.any_eq_true.mpr ⟨handle, hhandle, hholds⟩
          · simp at hholds
    · exact h

lemma retire_good {index : ℕ} (h : world.Good codec) : (world.retire index removed).Good codec := by
  refine ⟨?_, fun entry hentry => h.pending entry (by rwa [retire_pending] at hentry)⟩
  show Tracing.ClosedFrom _ _ _
  rw [retire_files]
  exact h.closed.mono fun name hname => retire_root hname

/-- A new handle locks its lease only. -/
lemma isLocked_append {world : World} {handle : LeaseHandle} {lease : StableFingerprint}
    (h : World.isLocked { world with handles := world.handles ++ [handle] } lease = true) :
    world.isLocked lease = true ∨ handle.leasePath = some lease := by
  simp only [World.isLocked, List.any_append, Bool.or_eq_true, List.any_cons, List.any_nil,
    Bool.or_false, Bool.and_eq_true, beq_iff_eq] at h
  rcases h with h | h
  · exact .inl h
  · exact .inr h.2

variable {sessionKey : Text}

lemma mem_references_of_reference {reference : SessionReference}
    (h : world.reference sessionKey = some reference) :
    ∃ entry ∈ world.references, entry.2 = reference := by
  simp only [World.reference, Option.map_eq_some_iff] at h
  obtain ⟨entry, hfind, hentry⟩ := h
  exact ⟨entry, List.mem_of_find?_eq_some hfind, hentry⟩

/-- The root of a new lease is the root of a reference. -/
lemma acquire_good {expectedTarget expectedRoot : Text} {lease : StableFingerprint}
    {allocation : Allocation} (h : world.Good codec) :
    (world.acquire codec sessionKey expectedTarget expectedRoot lease allocation depth).1.Good
      codec := by
  unfold World.acquire
  split
  · exact h
  · dsimp only
    split
    · refine ⟨h.closed.mono ?_, h.pending⟩
      rintro name (href | ⟨entry, hentry, hlocked, rfl⟩)
      · exact .inl href
      · rcases isLocked_append hlocked with hlocked | hnone
        · exact .inr ⟨entry, hentry, hlocked, rfl⟩
        · cases hnone
    · rename_i reference hreference
      obtain ⟨found, hfound, rfl⟩ := mem_references_of_reference hreference
      split
      · exact h
      · split
        · exact h
        · split
          · exact h
          · rename_i hfresh
            cases allocation with
            | writeFails => exact h
            | lockFails removed =>
              cases removed with
              | true => exact h
              | false =>
                refine ⟨h.closed.mono ?_, h.pending⟩
                rintro name (href | ⟨entry, hentry, hlocked, rfl⟩)
                · exact .inl href
                · rcases List.mem_cons.mp hentry with rfl | hentry
                  · exact .inl ⟨found, hfound, rfl⟩
                  · exact .inr ⟨entry, hentry, hlocked, rfl⟩
            | granted =>
              refine ⟨h.closed.mono ?_, h.pending⟩
              rintro name (href | ⟨entry, hentry, hlocked, rfl⟩)
              · exact .inl href
              · rcases List.mem_cons.mp hentry with rfl | hentry
                · exact .inl ⟨found, hfound, rfl⟩
                · rcases isLocked_append hlocked with hlocked | hsame
                  · exact .inr ⟨entry, hentry, hlocked, rfl⟩
                  · -- the file of the new lease was not there before
                    have hthere : world.leases.any (fun entry => entry.1 == lease) = true :=
                      List.any_eq_true.mpr ⟨entry, hentry, by simpa using (Option.some.inj hsame).symm⟩
                    exact absurd hthere hfresh

/-! ## Publishing -/

lemma validate_good {index : ℕ} {publication : Publication} (h : world.Good codec) :
    (world.validate codec index publication).1.Good codec := by
  unfold World.validate
  split
  · exact h
  · split
    · exact h
    · split
      · exact h
      · split
        · exact h
        · rename_i prepared hvalidate
          refine ⟨h.closed, fun entry hentry => ?_⟩
          rcases List.mem_append.mp hentry with hentry | hentry
          · exact h.pending entry hentry
          · obtain rfl := List.mem_singleton.mp hentry
            exact Publication.validate_sound hvalidate

lemma setReference_root {reference : SessionReference} {name : ArtifactName}
    (h : (world.setReference sessionKey reference).Root name) :
    world.Root name ∨ name = .manifest reference.rootManifest := by
  rcases h with ⟨entry, hentry, rfl⟩ | h
  · rcases List.mem_cons.mp hentry with rfl | hentry
    · exact .inr rfl
    · exact .inl (.inl ⟨entry, List.mem_of_mem_filter hentry, rfl⟩)
  · exact .inl (.inr h)

lemma publish_good {index budget : ℕ} {handle : LeaseHandle} {prepared : Prepared}
    {replaced : Bool} (h : world.Good codec) (hsound : prepared.Sound codec)
    (hready : world.reference handle.sessionKey = handle.observedReference →
      prepared.Supplied codec world.files ∧ prepared.CollisionFree codec world.files) :
    (world.publish codec index handle prepared depth budget replaced removed).1.Good codec := by
  unfold World.publish
  split
  · exact h
  · rename_i hobserved
    obtain ⟨hsupplied, hfree⟩ := hready (not_not.mp hobserved)
    split
    · exact h
    · rename_i verified hverify
      obtain ⟨hverified, hreferences⟩ := verifyComponents_spec hverify
      split
      all_goals
        rename_i files hperform
        obtain ⟨hextends, hwritten⟩ :=
          Files.performAll_extends (List.Subset.refl _) hsound.writes hperform
        -- the old roots stay closed, however far the writes have come
        have hold : Tracing.ClosedFrom files.edges (files.Holds codec) world.Root :=
          h.closed.transport fun name hname =>
            ⟨hextends.holds name hname, hextends.edges name hname⟩
      · exact ⟨hold, h.pending⟩
      · split
        · have hnew := closedFrom_published hsound hsupplied hfree hverified hreferences hextends
            (hwritten rfl)
          obtain ⟨root, hroot, hname⟩ := hsound.root
          refine retire_good ⟨(hold.union hnew).mono fun name hmem => ?_, h.pending⟩
          rcases setReference_root hmem with hmem | rfl
          · exact .inl hmem
          · exact .inr ⟨root, hroot, hname⟩
        · exact ⟨hold, h.pending⟩

lemma commit_good {index budget : ℕ} {replaced : Bool} (h : world.Good codec)
    (hready : (Action.commit index depth budget replaced removed).Ready codec world) :
    (world.commit codec index depth budget replaced removed).1.Good codec := by
  unfold World.commit
  split
  · exact h
  · rename_i number prepared hpending
    split
    · exact h
    · rename_i handle hhandle
      have hmem : (number, prepared) ∈ world.pending := List.mem_of_getElem? hpending
      refine publish_good ⟨h.closed, fun entry hentry => ?_⟩ (h.pending _ hmem)
        (hready number prepared handle hpending hhandle)
      exact h.pending entry (List.mem_of_mem_eraseIdx hentry)

/-- A step keeps the store closed. -/
theorem step_good {action : Action} (h : world.Good codec) (hready : action.Ready codec world) :
    (step codec world action).1.Good codec := by
  cases action with
  | acquire sessionKey expectedTarget expectedRoot lease allocation depth => exact acquire_good h
  | validate handle publication => exact validate_good h
  | commit index depth budget replaced removed => exact commit_good h hready
  | collect references leases interruption depth => exact collect_good h
  | release handle removed =>
    simp only [step, World.release]
    split
    · exact h
    · exact retire_good h
  | crash handle =>
    exact retire_good ⟨h.closed, fun entry hentry =>
      h.pending entry (List.mem_of_mem_filter hentry)⟩

lemma run_good {actions : List Action} (h : world.Good codec)
    (hready : ReadyRun codec world actions) : (run codec world actions).Good codec := by
  induction actions generalizing world with
  | nil => exact h
  | cons action actions ih => exact ih (step_good h hready.1) hready.2

lemma empty_good (codec : ArtifactCodec) : World.Good codec {} := by
  refine ⟨?_, fun entry hentry => absurd hentry List.not_mem_nil⟩
  rintro root (⟨entry, hentry, -⟩ | ⟨entry, hentry, -⟩)
  · exact absurd hentry List.not_mem_nil
  · exact absurd hentry List.not_mem_nil

/-! ## References -/

/-- A commit that replaces the reference of its session found the reference that was observed. -/
def Replaces (codec : ArtifactCodec) (world : World) (action : Action) (sessionKey : Text) : Prop :=
  ∃ index depth budget replaced removed number prepared handle,
    action = .commit index depth budget replaced removed ∧
    world.pending[index]? = some (number, prepared) ∧ world.handles[number]? = some handle ∧
    handle.sessionKey = sessionKey ∧ world.reference sessionKey = handle.observedReference ∧
    (step codec world action).2 = .ok () ∧
    (step codec world action).1.reference sessionKey = some prepared.reference

lemma reference_congr {world world' : World} (h : world'.references = world.references)
    (sessionKey : Text) : world'.reference sessionKey = world.reference sessionKey := by
  unfold World.reference
  rw [h]

lemma reference_setReference {sessionKey other : Text} {reference : SessionReference} :
    (world.setReference sessionKey reference).reference other =
      if other = sessionKey then some reference else world.reference other := by
  unfold World.reference World.setReference
  by_cases hother : other = sessionKey
  · simp [hother]
  · have hne : (sessionKey == other) = false := by simpa using fun h => hother h.symm
    simp only [List.find?_cons, hne, if_neg hother, List.find?_filter]
    congr 2
    funext entry
    by_cases hentry : entry.1 = other
    · simp [hentry, hother]
    · simp [hentry]

/-- What a commit does to the references. -/
lemma publish_references {index depth budget : ℕ} {handle : LeaseHandle} {prepared : Prepared}
    {replaced removed : Bool} :
    (∃ message, (world.publish codec index handle prepared depth budget replaced removed).2 =
        .error message) ∧
      (world.publish codec index handle prepared depth budget replaced removed).1.references =
        world.references ∨
    world.reference handle.sessionKey = handle.observedReference ∧
      (world.publish codec index handle prepared depth budget replaced removed).2 = .ok () ∧
      (world.publish codec index handle prepared depth budget replaced removed).1.references =
        (world.setReference handle.sessionKey prepared.reference).references := by
  unfold World.publish
  split
  · exact .inl ⟨⟨_, rfl⟩, rfl⟩
  · rename_i hobserved
    split
    · exact .inl ⟨⟨_, rfl⟩, rfl⟩
    · split
      · exact .inl ⟨⟨_, rfl⟩, rfl⟩
      · split
        · refine .inr ⟨not_not.mp hobserved, rfl, ?_⟩
          rw [retire_references]
          rfl
        · exact .inl ⟨⟨_, rfl⟩, rfl⟩

/-- A step leaves the references, or is a commit that replaces one. -/
lemma step_references (codec : ArtifactCodec) (world : World) (action : Action) :
    (step codec world action).1.references = world.references ∨
      (step codec world action).2 = .ok () ∧ ∀ sessionKey,
        (step codec world action).1.reference sessionKey = world.reference sessionKey ∨
          Replaces codec world action sessionKey := by
  cases action with
  | acquire sessionKey expectedTarget expectedRoot lease allocation depth =>
    refine .inl ?_
    simp only [step, World.acquire]
    repeat' split
    all_goals rfl
  | validate handle publication =>
    refine .inl ?_
    simp only [step, World.validate]
    repeat' split
    all_goals rfl
  | collect references leases interruption depth =>
    refine .inl ?_
    simp only [step, World.collect]
    repeat' split
    all_goals rfl
  | release handle removed =>
    refine .inl ?_
    simp only [step, World.release]
    split
    · rfl
    · exact retire_references _ _
  | crash handle => exact .inl (retire_references _ _)
  | commit index depth budget replaced removed =>
    simp only [step, World.commit]
    cases hpending : world.pending[index]? with
    | none => exact .inl rfl
    | some entry =>
      obtain ⟨number, prepared⟩ := entry
      cases hhandle : world.handles[number]? with
      | none => exact .inl (by simp [hhandle])
      | some handle =>
        have hstep : step codec world (.commit index depth budget replaced removed) =
            World.publish codec { world with pending := world.pending.eraseIdx index } number handle
              prepared depth budget replaced removed := by
          simp only [step, World.commit, hpending, hhandle]
        simp only [hhandle]
        rcases @publish_references codec { world with pending := world.pending.eraseIdx index }
            number depth budget handle prepared replaced removed
          with ⟨-, hsame⟩ | ⟨hobserved, hok, hnew⟩
        · exact .inl hsame
        · refine .inr ⟨hok, fun sessionKey => ?_⟩
          have hreference := reference_congr hnew sessionKey
          rw [reference_setReference] at hreference
          split at hreference
          · rename_i hsession
            subst hsession
            exact .inr ⟨index, depth, budget, replaced, removed, number, prepared, handle, rfl,
              hpending, hhandle, rfl, hobserved, by rw [hstep]; exact hok,
              by rw [hstep]; exact hreference⟩
          · exact .inl hreference

end Steps

/-- The store stays closed in every run whose commits find what they do not carry.  A step that fails
leaves the references, and a reference that changes still was the observed one. -/
theorem run_closed {codec : ArtifactCodec} {actions : List Action}
    (hready : ReadyRun codec {} actions) :
    (run codec {} actions).Closed codec ∧ ∀ action,
      ((∃ message, (step codec (run codec {} actions) action).2 = .error message) →
        (step codec (run codec {} actions) action).1.references =
          (run codec {} actions).references) ∧
      ∀ sessionKey,
        (step codec (run codec {} actions) action).1.reference sessionKey ≠
            (run codec {} actions).reference sessionKey →
          Replaces codec (run codec {} actions) action sessionKey := by
  refine ⟨(run_good (empty_good codec) hready).closed, fun action => ?_⟩
  rcases step_references codec (run codec {} actions) action with hsame | ⟨hok, hreplaced⟩
  · exact ⟨fun _ => hsame, fun sessionKey hne => absurd (reference_congr hsame sessionKey) hne⟩
  · refine ⟨?_, fun sessionKey hne => (hreplaced sessionKey).resolve_left hne⟩
    rintro ⟨message, hmessage⟩
    rw [hok] at hmessage
    cases hmessage

/-! ## A package with a layout

A module names an object and a layout.  The publication that carries both makes a closed store.  One
that leaves the layout to the store is accepted while the layout is there, and commits after a
collection has removed it. -/

/-- The verification of interfaces without declarations; the encoding keeps the name only. -/
def plainCodec : ArtifactCodec where
  toCodec := bareCodec
  verifyComponent _ := .error "specialization component is empty"
  verifyNominal _ artifact := ensure artifact.resultFingerprint.hasValue "nominal artifact is empty"
  root := "/cache".toList

def plainLayout : NominalArtifact where
  requestFingerprint := stamp 7
  resultFingerprint := stamp 8
  encoded := [1]

def plainObject : PublishedObject where
  fingerprint := fingerprintObject "x86_64".toList [1] (stamp 2)
  specificFingerprint := stamp 2
  targetTriple := "x86_64".toList
  extension := ".o".toList
  bytes := [1]

def plainModule : PackageModuleArtifact :=
  { bareModule ['p'] [] with
    nominalTypeLayouts := [⟨stamp 7, stamp 8⟩]
    objectFingerprint := plainObject.fingerprint }

def plainPackage : Manifest := barePackage ['p'] [] [plainModule]

def plainPublication (layouts : List NominalArtifact) : Publication where
  rootManifest := plainPackage
  manifests := [plainPackage]
  objects := [plainObject]
  nominals
    | .layout => layouts
    | _ => []

/-- The key of the session. -/
def plainKey : Text := List.replicate 64 'a'

def plainReference : SessionReference :=
  ⟨"x86_64".toList, ['p'], plainPackage.fingerprint bareCodec⟩

def plainPrepared (layouts : List NominalArtifact) : Prepared where
  manifests := [plainPackage]
  objects := [plainObject]
  components := []
  nominals
    | .layout => layouts
    | _ => []
  reference := plainReference

/-- The steps until the first publication waits. -/
def startActions : List Action :=
  [.acquire plainKey "x86_64".toList ['p'] (stamp 9) .granted 1,
    .validate 0 (plainPublication [plainLayout])]

/-- The reference of the first publication cannot be written; the second one leaves the layout to
the store, and a collection comes before its commit. -/
def lateActions : List Action :=
  startActions ++
    [.commit 0 1 3 false true, .validate 0 (plainPublication []), .collect [] [] none 1,
      .commit 0 1 3 true true]

lemma plainObject_hasValue : plainObject.fingerprint.hasValue = true := by
  decide +kernel

lemma plainPackage_verify : plainPackage.verify bareCodec = .ok () := by
  apply barePackage_verify
  · rfl
  · simp only [Manifest.verifyModules, andThen_eq_ok, ensure_eq_ok, and_true]
    refine ⟨rfl, ?_⟩
    have hfingerprint : (emptyInterfaceFingerprint ['p'] ['m']).hasValue = true := by
      decide +kernel
    simp only [PackageModuleArtifact.verify, PackageModuleArtifact.verifyCheck, andThen_eq_ok,
      ensure_eq_ok]
    refine ⟨⟨rfl, ?_, rfl, rfl, rfl, rfl⟩, ?_, rfl⟩
    · simp [plainModule, bareCodec, bareModule, hfingerprint]
    · simp only [plainModule, plainObject_hasValue, Bool.true_and]
      rfl
  · simp [plainModule, bareModule]

lemma plainPackage_verifyDependencies : plainPackage.verifyDependencies bareCodec [] = .ok () := by
  apply verifyDependencies_of_records rfl plainPackage_verify
  · simp
  · simp
  · exact List.Pairwise.nil
  · simp [AllAgree, Manifest.requirements, plainPackage, barePackage, plainModule, bareModule]
  · simp [plainPackage, barePackage, plainModule, bareModule]

lemma plainPackage_hasValue : (plainPackage.fingerprint bareCodec).hasValue = true := by
  rw [Manifest.fingerprint_of_verify plainPackage_verify]
  decide +kernel

lemma checkObject_plain : checkObject "x86_64".toList plainObject = .ok () := by
  have hfingerprint :
      fingerprintObject plainObject.targetTriple plainObject.bytes
        plainObject.specificFingerprint = plainObject.fingerprint := by
    dsimp only [plainObject]
  simp only [checkObject, ensure_eq_ok, plainObject_hasValue, hfingerprint, beq_self_eq_true,
    Bool.and_true, Bool.true_and]
  decide

/-- A publication that carries the layout, or leaves it to the store. -/
lemma validate_plain {files : Files} {layouts : List NominalArtifact}
    (hlayouts : layouts = [plainLayout] ∨ layouts = [])
    (hmodule : checkModule plainCodec files [] (plainPublication layouts).nominals plainModule =
      .ok ()) :
    (plainPublication layouts).validate plainCodec files "x86_64".toList =
      .ok (plainPrepared layouts) := by
  have hclosure : checkClosure plainCodec [plainPackage] plainPackage = .ok () := by
    have hnone : plainPackage.directDependencies = [] := rfl
    simp only [checkClosure, hnone, List.mapM_nil, pure_bind]
    exact plainPackage_verifyDependencies
  have hmanifests : checkManifests plainCodec [] [plainPackage] = .ok () := by
    simp only [checkManifests, andThen_eq_ok, and_true]
    exact ⟨plainPackage_verify, by decide⟩
  have hreference : plainReference.verify = .ok () := by
    simp only [SessionReference.verify, ensure_eq_ok, plainReference, plainPackage_hasValue]
    decide
  have hroot : findPackage [plainPackage] plainPackage.packageName = some plainPackage := by
    simp [findPackage]
  have hnominals : ∀ nominals : NominalKind → List NominalArtifact, nominals .specific = [] →
      nominals .witness = [] → nominals .layout = layouts →
        nominals = (plainPublication layouts).nominals := by
    intro nominals hspecific hwitness hlayout
    funext kind
    cases kind with
    | specific => exact hspecific
    | witness => exact hwitness
    | layout => exact hlayout
  have hsorted : (plainPublication layouts).manifests.insertionSort
      (fun a b => a.packageName ≤ b.packageName) = [plainPackage] := rfl
  have hmodules : plainPackage.modules = [plainModule] := rfl
  unfold Publication.validate
  refine except_bind_eq_ok.mpr ⟨(), hmanifests, ?_⟩
  refine except_bind_eq_ok.mpr ⟨(), by rw [hsorted, checkAll, hclosure]; rfl, ?_⟩
  refine except_bind_eq_ok.mpr ⟨[], rfl, ?_⟩
  refine except_bind_eq_ok.mpr ⟨[], rfl, ?_⟩
  refine except_bind_eq_ok.mpr ⟨[], rfl, ?_⟩
  refine except_bind_eq_ok.mpr ⟨layouts, by rcases hlayouts with rfl | rfl <;> rfl, ?_⟩
  dsimp only
  rw [hsorted]
  refine except_bind_eq_ok.mpr ⟨(), ?_, ?_⟩
  · simp only [checkAll_eq_ok, List.mem_singleton, forall_eq, hmodules]
    refine (congrArg (fun nominals => checkModule plainCodec files [] nominals plainModule)
      ?_).trans hmodule
    exact hnominals _ rfl rfl rfl
  refine except_bind_eq_ok.mpr ⟨(), ?_, ?_⟩
  · simp only [plainPublication, hroot, beq_self_eq_true, ensure_eq_ok]
  refine except_bind_eq_ok.mpr ⟨(), ?_, ?_⟩
  · simp only [plainPublication, checkAll, checkObject_plain]
  refine except_bind_eq_ok.mpr ⟨(), hreference, ?_⟩
  refine congrArg (fun nominals => (Except.ok ⟨[plainPackage], [plainObject], [], nominals,
    plainReference⟩ : Except String Prepared)) ?_
  exact hnominals _ rfl rfl rfl

def plainHandle : LeaseHandle where
  sessionKey := plainKey
  expectedTarget := "x86_64".toList
  expectedRoot := ['p']
  observedReference := none
  leasePath := none

section Runs

variable {codec : ArtifactCodec} {world : World} {index : ℕ} {handle : LeaseHandle}
  {publication : Publication} {prepared : Prepared}

lemma run_cons_eq {action : Action} {actions : List Action} {world' : World}
    {outcome : Except String Unit} (h : step codec world action = (world', outcome)) :
    run codec world (action :: actions) = run codec world' actions := by
  rw [run, h]

lemma validate_eq (hhandle : world.handles[index]? = some handle) (hvalid : handle.valid = true)
    (hpackage : publication.rootManifest.packageName = handle.expectedRoot)
    (htarget : publication.rootManifest.targetTriple = handle.expectedTarget)
    (hroot : publication.rootManifest.verify codec.toCodec = .ok ())
    (hvalidate : publication.validate codec world.files handle.expectedTarget = .ok prepared) :
    step codec world (.validate index publication) =
      ({ world with pending := world.pending ++ [(index, prepared)] }, .ok ()) := by
  simp [step, World.validate, hhandle, hvalid, hpackage, htarget, hroot, hvalidate]

end Runs

lemma acquire_plain :
    step plainCodec {} (.acquire plainKey "x86_64".toList ['p'] (stamp 9) .granted 1) =
      ({ handles := [plainHandle] }, .ok ()) := by
  have hkey : validHexKey plainKey = true := by decide
  simp only [step, World.acquire, hkey]
  rfl

/-- The store while the first publication waits. -/
def startWorld : World :=
  { handles := [plainHandle], pending := [(0, plainPrepared [plainLayout])] }

lemma run_startActions (rest : List Action) :
    run plainCodec {} (startActions ++ rest) = run plainCodec startWorld rest :=
  (run_cons_eq acquire_plain).trans (run_cons_eq
    (validate_eq rfl rfl rfl rfl plainPackage_verify (validate_plain (.inl rfl) rfl)))

/-- The files of a commit that finds an empty store. -/
def plainFiles (layouts : List NominalArtifact) : Files :=
  (Files.performAll plainCodec 3 {} (plainPrepared layouts).writes).2

lemma commit_start : step plainCodec startWorld (.commit 0 1 3 false true) =
    ({ files := plainFiles [plainLayout], handles := [plainHandle] },
      .error "failed to publish compiler artifact") := by
  rfl

/-- The store while the second publication waits. -/
def lateWorld : World where
  files := plainFiles [plainLayout]
  handles := [plainHandle]
  pending := [(0, plainPrepared [])]

lemma collect_late : step plainCodec lateWorld (.collect [] [] none 1) =
    ({ handles := [plainHandle], pending := [(0, plainPrepared [])] }, .ok ()) := by
  simp only [step, World.collect]
  rfl

lemma commit_late :
    step plainCodec { handles := [plainHandle], pending := [(0, plainPrepared [])] }
      (.commit 0 1 3 true true) =
    ({ files := plainFiles []
       references := [(plainKey, plainReference)]
       handles := [{ plainHandle with active := false }] }, .ok ()) := by
  rfl

lemma run_lateActions : run plainCodec {} lateActions =
    { files := plainFiles []
      references := [(plainKey, plainReference)]
      handles := [{ plainHandle with active := false }] } := by
  have hmodule : checkModule plainCodec (plainFiles [plainLayout]) []
      (plainPublication []).nominals plainModule = .ok () := by decide +kernel
  have hvalidate : step plainCodec { files := plainFiles [plainLayout], handles := [plainHandle] }
      (.validate 0 (plainPublication [])) = (lateWorld, .ok ()) :=
    validate_eq rfl rfl rfl rfl plainPackage_verify (validate_plain (.inr rfl) hmodule)
  rw [lateActions, run_startActions, run_cons_eq commit_start, run_cons_eq hvalidate,
    run_cons_eq collect_late, run_cons_eq commit_late]
  rfl

lemma plainLayout_named : .nominal .layout (stamp 8) ∈ manifestNames plainPackage := by
  have hmodule : .nominal .layout (stamp 8) ∈ nominalNames plainModule :=
    mem_nominalNames.mpr ⟨.layout, ⟨stamp 7, stamp 8⟩, List.mem_cons_self, rfl⟩
  exact List.mem_append_right _
    (List.mem_flatMap.mpr ⟨plainModule, List.mem_cons_self, List.mem_append_right _ hmodule⟩)

/-- A collection between the validation and the commit removes what the publication names. -/
theorem lateActions_not_closed :
    ¬ ∀ (codec : ArtifactCodec) (actions : List Action), (run codec {} actions).Closed codec := by
  intro h
  have hclosed := h plainCodec lateActions
  rw [run_lateActions] at hclosed
  have hlayout := hclosed (.manifest plainReference.rootManifest)
    (.inl ⟨(plainKey, plainReference), List.mem_cons_self, rfl⟩) (.nominal .layout (stamp 8))
  have hmanifest : (plainFiles []).manifests plainReference.rootManifest = some plainPackage := by
    have hcodec : plainCodec.toCodec = bareCodec := rfl
    simp [plainFiles, Prepared.writes, plainPrepared, Files.performAll, Files.perform, hcodec,
      Files.hasObject, plainReference]
  have hreach : Tracing.Reaches (plainFiles []).edges (.manifest plainReference.rootManifest)
      (.nominal .layout (stamp 8)) := by
    refine Relation.ReflTransGen.single ?_
    simp only [Files.edges, hmanifest]
    exact plainLayout_named
  obtain ⟨artifact, hartifact, -⟩ := hlayout hreach
  cases hartifact

lemma plainPrepared_supplied : (plainPrepared [plainLayout]).Supplied plainCodec {} := by
  intro manifest hmanifest module hmodule name hname
  obtain rfl := List.mem_singleton.mp hmanifest
  obtain rfl := List.mem_singleton.mp hmodule
  refine .inl ?_
  rcases List.mem_cons.mp hname with rfl | hname
  · exact ⟨.object plainObject, mem_writes.mpr (.inl ⟨_, List.mem_cons_self, rfl⟩), rfl⟩
  · obtain ⟨kind, reference, hreference, rfl⟩ := mem_nominalNames.mp hname
    cases kind with
    | specific => exact absurd hreference List.not_mem_nil
    | witness => exact absurd hreference List.not_mem_nil
    | layout =>
      obtain rfl := List.mem_singleton.mp hreference
      exact ⟨.nominal .layout plainLayout,
        mem_writes.mpr (.inr (.inr (.inl ⟨.layout, _, List.mem_cons_self, rfl⟩))), rfl⟩

lemma plainPrepared_collisionFree : (plainPrepared [plainLayout]).CollisionFree plainCodec {} where
  manifests manifest hmanifest other hother _ := by
    rcases hother with hother | ⟨name, hname⟩
    · rw [List.mem_singleton.mp hmanifest, List.mem_singleton.mp hother]
    · cases hname
  components component hcomponent := absurd hcomponent List.not_mem_nil

/-- The publication that carries the layout commits to a closed store. -/
theorem run_closed_start :
    (run plainCodec {} (startActions ++ [.commit 0 1 3 true true])).Closed plainCodec := by
  have hworld : run plainCodec {} startActions = startWorld := run_startActions []
  have hcommit : (Action.commit 0 1 3 true true).Ready plainCodec
      (run plainCodec {} startActions) := by
    rw [hworld]
    intro number prepared handle hpending hhandle hobserved
    obtain ⟨rfl, rfl⟩ := Prod.mk.inj (Option.some.inj hpending)
    exact ⟨plainPrepared_supplied, plainPrepared_collisionFree⟩
  have hready : ReadyRun plainCodec {} (startActions ++ [.commit 0 1 3 true true]) :=
    readyRun_append.mpr ⟨⟨trivial, trivial, trivial⟩, hcommit, trivial⟩
  exact (run_closed hready).1

end Store

end Chtholly
