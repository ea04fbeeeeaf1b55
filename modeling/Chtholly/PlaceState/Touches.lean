import Chtholly.PlaceState.Inversion
import Chtholly.PlaceState.Shape
import Chtholly.SemIR.Scope

set_option autoImplicit false

/-!
# What a straight-line instruction can do to an analysis

Every operation on places works on the locals that the instruction mentions: it creates facts about
them, makes them active, registers them for cleanup and emits diagnostics. It leaves the edges to the
loops alone and forgets nothing. `EndFullExpression`, which takes temporaries out again, is the
exception and is not covered here.

## Main definitions

* `Chtholly.Analysis.Touches` — the relation between an analysis before and after such an operation.

## Main results

* `Chtholly.touches_transfer` — the straight-line instructions.
-/

namespace Chtholly

/-! ## Locals of places -/

variable {p : ResolvedPlace}

/-- The root of a place is a local of the value that denotes it. -/
lemma root_mem_locals {sem : SemIR} {v : Value} (h : resolvePlace sem v = some p) :
    p.root ∈ v.locals := by
  fun_induction resolvePlace sem v generalizing p with
  | case1 | case2 | case3 =>
    obtain rfl := Option.some.inj h
    simp [Value.locals, ResolvedPlace.ofLocal]
  | case4 id v ih => exact ih h
  | case5 id base t ih =>
    simp only [bind, Option.bind_eq_some_iff, Option.some.injEq] at h
    obtain ⟨q, hq, rfl⟩ := h
    simpa [Value.locals] using ih hq
  | case6 id base ih =>
    simp only [bind, Option.bind_eq_some_iff, Option.some.injEq] at h
    obtain ⟨q, hq, t, -, rfl⟩ := h
    simpa [Value.locals] using ih hq
  | case7 id base f k t ih =>
    simp only [bind, Option.bind_eq_some_iff, Option.some.injEq] at h
    obtain ⟨q, hq, rfl⟩ := h
    simpa [Value.locals] using ih hq
  | case8 id base f t ih =>
    simp only [bind, Option.bind_eq_some_iff, Option.some.injEq] at h
    obtain ⟨q, hq, k, -, rfl⟩ := h
    simpa [Value.locals] using ih hq
  | case9 id base f t ih =>
    simp only [bind, Option.bind_eq_some_iff] at h
    obtain ⟨q, hq, h⟩ := h
    split at h
    · simp at h
    · simp only [Option.bind_eq_some_iff, Option.some.injEq] at h
      obtain ⟨k, -, rfl⟩ := h
      simpa [Value.locals] using ih hq
  | case10 id base position t ih =>
    simp only [bind, Option.bind_eq_some_iff, Option.some.injEq, Prod.exists] at h
    obtain ⟨q, hq, step, view, -, rfl⟩ := h
    simp only [Value.locals, List.mem_append, ResolvedPlace.project_root]
    exact Or.inl (ih hq)
  | case11 => simp at h

/-- A region of a callee starts at a local of the argument. -/
lemma root_projectRegion {sem : SemIR} {path : List OwnershipRegionStep} {q : ResolvedPlace}
    (h : projectRegion sem path p = some q) : q.root = p.root := by
  induction path generalizing p with
  | nil =>
    obtain rfl := Option.some.inj h
    rfl
  | cons step path ih =>
    cases step with
    | dereference k =>
      simp only [projectRegion, bind, Option.bind_eq_some_iff] at h
      obtain ⟨t, -, h⟩ := h
      split at h
      · simp at h
      · simpa using ih h
    | anyElement =>
      simp only [projectRegion] at h
      split at h
      · obtain rfl := Option.some.inj h
        rfl
      · obtain rfl := Option.some.inj h
        rfl
      · simp at h
    | staticElement k =>
      simp only [projectRegion] at h
      split at h
      · split at h
        · simpa using ih h
        · simp at h
      · simp at h
    | field k =>
      simp only [projectRegion] at h
      split at h
      · split at h
        · simpa using ih h
        · simp at h
      · simp at h

/-- The place a callee works on starts at a local of the argument. -/
lemma root_callArgumentPlace {sem : SemIR} {v : Value} (h : callArgumentPlace sem v = some p) :
    p.root ∈ v.locals := by
  unfold callArgumentPlace at h
  split at h
  · obtain rfl := Option.some.inj h
    simp [Value.locals, ResolvedPlace.ofLocal]
  · simpa [Value.locals] using root_mem_locals h
  · simpa [Value.locals] using root_mem_locals h
  · simpa [Value.locals] using root_mem_locals h
  · exact root_mem_locals h

lemma root_resolveCallEffectPlace {sem : SemIR} {v : Value} {region : OwnershipRegion}
    (h : resolveCallEffectPlace sem v region = some p) : p.root ∈ v.locals := by
  simp only [resolveCallEffectPlace, bind, Option.bind_eq_some_iff] at h
  obtain ⟨q, hq, h⟩ := h
  have hroot : p.root = q.root := by
    rw [root_projectRegion h]
    split
    · rfl
    · rfl
  rw [hroot]
  split at hq
  · simpa [Value.locals] using root_callArgumentPlace hq
  · exact root_callArgumentPlace hq

/-! ## The facts about a value that is stored -/

section Stored

variable {sem : SemIR} {target : LocalId} {ls : List LocalId}

@[simp] lemma leaves_copyEnumStates (source : List EnumState) (p q : PlacePath) (r : RootState) :
    (copyEnumStates source p q r).leaves = r.leaves := by
  unfold copyEnumStates
  induction source generalizing r with
  | nil => rfl
  | cons e source ih =>
    rw [List.foldl_cons, ih]
    split
    · rfl
    · rfl

@[simp] lemma leaves_copyUnionStates (source : List UnionState) (p q : PlacePath) (r : RootState) :
    (copyUnionStates source p q r).leaves = r.leaves := by
  unfold copyUnionStates
  induction source generalizing r with
  | nil => rfl
  | cons u source ih =>
    rw [List.foldl_cons, ih]
    split
    · rfl
    · rfl

/-- A relation between maps that holds when facts are created, and when facts other than those about
leaves change, holds between the maps before and after a value is stored. -/
structure StoredRel (sem : SemIR) (target : LocalId) (ls : List LocalId)
    (P : StateMap → StateMap → Prop) : Prop where
  refl : ∀ S, P S S
  trans : ∀ {S T U}, P S T → P T U → P S U
  ensureRoot : ∀ S, ∀ l ∈ ls, P S (S.ensureRoot sem l)
  update : ∀ S (f : RootState → RootState), (∀ r, (f r).shape = r.shape) →
    (∀ r, (f r).leaves = r.leaves) → P S (S.update target f)

variable {P : StateMap → StateMap → Prop}

/-- What storing a value says of the enums of the target. -/
lemma StoredRel.setEnumStatesFromValue (hP : StoredRel sem target ls P) (path : PlacePath)
    (v : Value) (S : StateMap) (hv : ∀ l ∈ v.locals, l ∈ ls) :
    P S (setEnumStatesFromValue sem target path v S) := by
  fun_induction Chtholly.setEnumStatesFromValue sem target path v S with
  | case1 id v S ih | case2 id v S ih => exact ih (by simpa [Value.locals] using hv)
  | case3 => exact hP.update _ _ (fun r => RootState.shape_setVariant r _ _) fun _ => rfl
  | case4 => exact hP.refl _
  | case5 v S h₁ h₂ h₃ p hp T =>
    exact hP.trans (hP.ensureRoot S p.root (hv _ (root_mem_locals hp)))
      (hP.update _ _ (fun r => shape_copyEnumStates r _ _ _)
        fun r => leaves_copyEnumStates _ _ _ r)

/-- What storing a value says of the unions of the target.

**Proof sketch.** Induction on the value, over the parts of aggregates and arrays at the same time. A
union of the target only gets other marks, and a source that is not yet known is created. -/
lemma StoredRel.setUnionStatesFromValue (hP : StoredRel sem target ls P) (v : Value)
    (path : PlacePath) (S : StateMap) (hv : ∀ l ∈ v.locals, l ∈ ls) :
    P S (setUnionStatesFromValue sem target v path S) := by
  refine setUnionStatesFromValue.induct sem target
    (fun v path S => (∀ l ∈ v.locals, l ∈ ls) →
      P S (Chtholly.setUnionStatesFromValue sem target v path S))
    (fun step l k path S => (∀ x ∈ valuesLocals l, x ∈ ls) →
      P S (setUnionStatesFromParts sem target step l k path S))
    ?_ ?_ ?_ ?_ ?_ ?_ ?_ ?_ ?_ ?_ v path S hv
  · intro id v path S ih hv
    rw [Chtholly.setUnionStatesFromValue]
    exact ih (by simpa [Value.locals] using hv)
  · intro id v path S ih hv
    rw [Chtholly.setUnionStatesFromValue]
    exact ih (by simpa [Value.locals] using hv)
  · intro id v member t path S hm ih hv
    rw [Chtholly.setUnionStatesFromValue, if_pos hm]
    exact hP.trans (hP.update _ _ (fun r => RootState.shape_setMember r _ _) fun _ => rfl)
      (ih (by simpa [Value.locals] using hv))
  · intro id v member t path S hm hv
    rw [Chtholly.setUnionStatesFromValue, if_neg hm]
    exact hP.refl _
  · intro id fields t path S ih hv
    rw [Chtholly.setUnionStatesFromValue]
    exact ih (by simpa [Value.locals] using hv)
  · intro id elements t path S ih hv
    rw [Chtholly.setUnionStatesFromValue]
    exact ih (by simpa [Value.locals] using hv)
  · intro v path S h₁ h₂ h₃ h₄ h₅ hp hv
    rw [Chtholly.setUnionStatesFromValue]
    · simp only [hp]
      exact hP.refl _
    all_goals assumption
  · intro v path S h₁ h₂ h₃ h₄ h₅ p hp hv
    rw [Chtholly.setUnionStatesFromValue]
    · simp only [hp]
      exact hP.trans (hP.ensureRoot S p.root (hv _ (root_mem_locals hp)))
        (hP.update _ _ (fun r => shape_copyUnionStates r _ _ _)
          fun r => leaves_copyUnionStates _ _ _ r)
    all_goals assumption
  · intro step k path S _
    rw [setUnionStatesFromParts]
    exact hP.refl _
  · intro step v l k path S ih₁ ih₂ hl
    rw [setUnionStatesFromParts]
    simp only [valuesLocals, List.mem_append] at hl
    exact hP.trans (ih₁ fun x hx => hl x (Or.inl hx)) (ih₂ fun x hx => hl x (Or.inr hx))

/-- Storing a value touches the locals in it. -/
lemma storedRel_touches : StoredRel sem target ls (StateMap.Touches sem ls) :=
  ⟨.refl, .trans, fun _ _ hl => StateMap.touches_ensureRoot hl,
    fun _ _ hf _ => StateMap.touches_update hf⟩

/-- The leaves of no local change when a value is stored. -/
lemma storedRel_leaves : StoredRel sem target ls fun S T =>
    ∀ l, (T.root sem l).leaves = (S.root sem l).leaves := by
  refine ⟨fun _ _ => rfl, fun h₁ h₂ l => (h₂ l).trans (h₁ l), fun S l _ m => ?_,
    fun S f _ hf l => ?_⟩
  · rw [StateMap.root_ensureRoot]
  · rw [StateMap.root, StateMap.lookup_update, StateMap.root]
    split
    · cases S.lookup l with
      | none => rfl
      | some r => exact hf r
    · rfl

end Stored

/-! ## Operations on places -/

namespace Analysis

/-- What an operation that mentions the locals does to an analysis. -/
structure Touches (env : PlaceEnv) (ls : List LocalId) (a a' : Analysis) : Prop where
  states : StateMap.Touches env.sem ls a.states a'.states
  active : ∃ new, a'.activeLocals = a.activeLocals ++ new ∧
    (∀ l ∈ new, l ∈ ls ∧ a'.states.has l = true) ∧
    (a.activeLocals.Nodup → a'.activeLocals.Nodup)
  registrations : ∀ r ∈ a'.cleanupRegistrations,
    r ∈ a.cleanupRegistrations ∨ ∃ l ∈ ls, r.local? = some l
  flows : a'.loopFlows = a.loopFlows
  diagnostics : a.diagnostics <+: a'.diagnostics
  snapshots : a'.snapshots = a.snapshots
  bound : ∀ e ∈ a'.boundValues, e ∈ a.boundValues ∨ e.2.plain = true
  facts : a'.outcomeFacts = a.outcomeFacts

variable {env : PlaceEnv} {ls : List LocalId} {a b c : Analysis}

/-- An operation that changes the states and emits diagnostics. -/
lemma Touches.of_states (hS : StateMap.Touches env.sem ls a.states b.states)
    (hd : a.diagnostics <+: b.diagnostics) (hact : b.activeLocals = a.activeLocals)
    (hreg : b.cleanupRegistrations = a.cleanupRegistrations) (hf : b.loopFlows = a.loopFlows)
    (hs : b.snapshots = a.snapshots) (hb : b.boundValues = a.boundValues)
    (ho : b.outcomeFacts = a.outcomeFacts) : Touches env ls a b where
  states := hS
  active := ⟨[], by simp [hact], by simp, by rw [hact]; exact id⟩
  registrations r hr := Or.inl (hreg ▸ hr)
  flows := hf
  diagnostics := hd
  snapshots := hs
  bound e he := Or.inl (hb ▸ he)
  facts := ho

lemma Touches.refl (a : Analysis) : Touches env ls a a :=
  .of_states (.refl _) (List.prefix_refl _) rfl rfl rfl rfl rfl rfl

lemma Touches.trans (h₁ : Touches env ls a b) (h₂ : Touches env ls b c) : Touches env ls a c := by
  obtain ⟨new₁, hb, hnew₁, hn₁⟩ := h₁.active
  obtain ⟨new₂, hc, hnew₂, hn₂⟩ := h₂.active
  refine ⟨h₁.states.trans h₂.states, ⟨new₁ ++ new₂, ?_, ?_, fun h => hn₂ (hn₁ h)⟩, ?_,
    h₂.flows.trans h₁.flows, h₁.diagnostics.trans h₂.diagnostics,
    h₂.snapshots.trans h₁.snapshots, ?_, h₂.facts.trans h₁.facts⟩
  · rw [hc, hb, List.append_assoc]
  · intro l hl
    rcases List.mem_append.1 hl with hl | hl
    · exact ⟨(hnew₁ l hl).1, h₂.states.keeps l (hnew₁ l hl).2⟩
    · exact hnew₂ l hl
  · intro r hr
    rcases h₂.registrations r hr with hr | hr
    · exact h₁.registrations r hr
    · exact Or.inr hr
  · intro e he
    rcases h₂.bound e he with he | he
    · exact h₁.bound e he
    · exact Or.inr he

/-- Tables that are not about states or about values may change. -/
lemma touches_tables (hS : b.states = a.states) (hd : b.diagnostics = a.diagnostics)
    (hact : b.activeLocals = a.activeLocals)
    (hreg : b.cleanupRegistrations = a.cleanupRegistrations) (hf : b.loopFlows = a.loopFlows)
    (hs : b.snapshots = a.snapshots) (hb : b.boundValues = a.boundValues)
    (ho : b.outcomeFacts = a.outcomeFacts) : Touches env ls a b :=
  .of_states (hS ▸ .refl _) (hd ▸ List.prefix_refl _) hact hreg hf hs hb ho

lemma touches_diagnose (i : InstId) (kind : PlaceStateDiagnosticKind) :
    Touches env ls a (a.diagnose i kind) :=
  .of_states (.refl _) (List.prefix_append _ _) rfl rfl rfl rfl rfl rfl

lemma touches_diagnose? (i : InstId) (kind : Option PlaceStateDiagnosticKind) :
    Touches env ls a (a.diagnose? i kind) := by
  cases kind with
  | none => exact .refl a
  | some k => exact touches_diagnose i k

lemma touches_bumpRevision (l : LocalId) : Touches env ls a (a.bumpRevision l) :=
  touches_tables rfl rfl rfl rfl rfl rfl rfl rfl

lemma touches_revise (kind : Observation) (l : LocalId) :
    Touches env ls a (a.revise kind l) := by
  unfold revise
  split
  · exact touches_bumpRevision l
  · exact .refl a

variable {l : LocalId}

lemma touches_ensureRoot (hl : l ∈ ls) : Touches env ls a (a.ensureRoot env l) :=
  .of_states (StateMap.touches_ensureRoot hl) (List.prefix_refl _) rfl rfl rfl rfl rfl rfl

lemma touches_modifyRoot (hl : l ∈ ls) {f : RootState → RootState}
    (hf : ∀ r, (f r).shape = r.shape) : Touches env ls a (a.modifyRoot env l f) :=
  .of_states (StateMap.touches_modifyRoot hl hf) (List.prefix_refl _) rfl rfl rfl rfl rfl rfl

variable {p : ResolvedPlace}

lemma touches_touch (hp : p.root ∈ ls) : Touches env ls a (a.touch env p) := by
  unfold touch
  split
  · exact .refl a
  · exact touches_ensureRoot hp

lemma touches_diagnoseUse (hp : p.root ∈ ls) (i : InstId) (state : PlaceStateKind) :
    Touches env ls a (a.diagnoseUse env i p state) := by
  cases state with
  | initialized => exact .refl a
  | moved =>
    simp only [diagnoseUse]
    split
    · exact (touches_ensureRoot hp).trans (touches_diagnose i _)
    · exact touches_diagnose i _
  | maybeMoved => exact touches_diagnose i _
  | partiallyMoved => exact touches_diagnose i _

lemma touches_checkAccess (i : InstId) (p : ResolvedPlace) :
    Touches env ls a (a.checkAccess env i p) := by
  simp only [checkAccess]
  split
  · exact touches_diagnose i _
  · exact touches_diagnose? i _

@[simp] lemma shape_moveOut (path : PlacePath) (r : RootState) :
    (moveOut env path r).shape = r.shape := by simp [moveOut]

lemma touches_observe (hp : p.root ∈ ls) (i : InstId) (kind : Observation) :
    Touches env ls a (a.observe env i p kind) := by
  have h₁ : Touches env ls a (a.revise kind p.root) := touches_revise kind p.root
  have h₂ : ∀ state, Touches env ls a
      (((a.revise kind p.root).touch env p).diagnoseUse env i p state) :=
    fun state => (h₁.trans (touches_touch hp)).trans (touches_diagnoseUse hp i state)
  simp only [observe]
  split
  · split
    · exact ((h₂ _).trans (touches_checkAccess i p)).trans
        (touches_modifyRoot hp (shape_moveOut p.path))
    · exact (h₂ _).trans (touches_checkAccess i p)
  · exact h₂ _

lemma touches_observeExternal (hp : p.root ∈ ls) (i : InstId) (kind : Observation) :
    Touches env ls a (a.observeExternal env i p kind) := by
  simp only [observeExternal]
  split
  · exact .refl a
  · exact (touches_touch hp).trans (touches_diagnoseUse hp i _)

lemma touches_observePlace (hp : p.root ∈ ls) (i : InstId) (kind : Observation) :
    Touches env ls a (a.observePlace env i p kind) := by
  simp only [observePlace]
  split
  · exact touches_observeExternal hp i kind
  · exact touches_observe hp i kind

lemma touches_observeDirectPlace (v : Value) (hv : ∀ l ∈ v.locals, l ∈ ls) :
    Touches env ls a (a.observeDirectPlace env v) := by
  simp only [observeDirectPlace]
  split
  · exact .refl a
  · split
    · rename_i p hp
      exact touches_observePlace (hv _ (root_mem_locals hp)) _ _
    · exact .refl a

/-! ## New values -/

lemma touches_activate (hl : l ∈ ls) (hs : a.states.has l = true) :
    Touches env ls a (activate l a) := by
  unfold activate
  split
  · exact .refl a
  · rename_i hact
    refine ⟨.refl _, ⟨[l], rfl, ?_, fun h => ?_⟩, fun r hr => Or.inl hr, rfl, List.prefix_refl _,
      rfl, fun e he => Or.inl he, rfl⟩
    · intro m hm
      obtain rfl := List.mem_singleton.1 hm
      exact ⟨hl, hs⟩
    · have hmem : l ∉ a.activeLocals := by simpa using hact
      rw [List.nodup_append]
      refine ⟨h, List.nodup_singleton l, fun x hx y hy => ?_⟩
      rw [List.mem_singleton] at hy
      rintro rfl
      exact hmem (hy ▸ hx)

lemma touches_register {entry : CleanupRegistration} (hl : l ∈ ls) (he : entry.local? = some l) :
    Touches env ls a (register entry a) := by
  unfold register
  split
  · exact .refl a
  · refine ⟨.refl _, ⟨[], by simp, by simp, id⟩, fun r hr => ?_, rfl, List.prefix_refl _, rfl,
      fun e he => Or.inl he, rfl⟩
    rcases List.mem_append.1 hr with hr | hr
    · exact Or.inl hr
    · rw [List.mem_singleton] at hr
      exact Or.inr ⟨l, hl, hr ▸ he⟩

@[simp] lemma shape_wholeValue (r : RootState) : (wholeValue r).shape = r.shape := by
  simp [wholeValue, RootState.shape, Function.comp_def, UnionState.cleared]

/-- What the value stored in a new local says of the local. -/
lemma storedRel_setStatesFromValue {P : StateMap → StateMap → Prop}
    (hP : StoredRel env.sem l ls P) (v : Value) (S : StateMap) (hv : ∀ l ∈ v.locals, l ∈ ls) :
    P S (setStatesFromValue env l v S) := by
  have h₁ : P S (if (S.root env.sem l).unions.isEmpty then S
      else setUnionStatesFromValue env.sem l v [] S) := by
    split
    · exact hP.refl S
    · exact hP.setUnionStatesFromValue v [] S hv
  unfold setStatesFromValue
  generalize (if (S.root env.sem l).unions.isEmpty then S
      else setUnionStatesFromValue env.sem l v [] S) = T at h₁ ⊢
  dsimp only
  split
  · exact h₁
  · exact hP.trans h₁ (hP.setEnumStatesFromValue [] v T hv)

lemma touches_initializedStates (hl : l ∈ ls) (v : Option Value) (S : StateMap)
    (hv : ∀ w, v = some w → ∀ m ∈ w.locals, m ∈ ls) :
    StateMap.Touches env.sem ls S (initializedStates env l v S) ∧
      (initializedStates env l v S).has l = true := by
  have h₁ : StateMap.Touches env.sem ls S (S.modifyRoot env.sem l wholeValue) :=
    StateMap.touches_modifyRoot hl shape_wholeValue
  have hhas : (S.modifyRoot env.sem l wholeValue).has l = true := by simp
  cases v with
  | none => exact ⟨h₁, hhas⟩
  | some w =>
    have h₂ : StateMap.Touches env.sem ls (S.modifyRoot env.sem l wholeValue)
        (setStatesFromValue env l w (S.modifyRoot env.sem l wholeValue)) :=
      storedRel_setStatesFromValue storedRel_touches w _ (hv w rfl)
    exact ⟨h₁.trans h₂, h₂.keeps l hhas⟩

lemma touches_initializeLocal (hl : l ∈ ls) (v : Option Value)
    (hv : ∀ w, v = some w → ∀ m ∈ w.locals, m ∈ ls) :
    Touches env ls a (a.initializeLocal env l v) := by
  obtain ⟨hS, hhas⟩ : StateMap.Touches env.sem ls a.states (initializedStates env l v a.states) ∧
      (initializedStates env l v a.states).has l = true :=
    touches_initializedStates hl v a.states hv
  unfold initializeLocal
  refine Touches.trans (b := activate l
    { a.bumpRevision l with states := initializedStates env l v a.states }) ?_
    (touches_register hl ?_)
  · refine Touches.trans ?_ (touches_activate hl hhas)
    exact .of_states hS (List.prefix_refl _) rfl rfl rfl rfl rfl rfl
  · split
    · rfl
    · rfl

lemma path_reinitializedUnion (path : PlacePath) (u : UnionState) :
    (reinitializedUnion path u).path = u.path := by
  simp only [reinitializedUnion]
  repeat' split
  all_goals rfl

lemma touches_reinitializePlace (hp : p.root ∈ ls) (i : InstId) (v : Value)
    (hv : ∀ l ∈ v.locals, l ∈ ls) : Touches env ls a (a.reinitializePlace env i p v) := by
  have h₁ : Touches env ls a ((a.bumpRevision p.root).ensureRoot env p.root) :=
    (touches_bumpRevision _).trans (touches_ensureRoot hp)
  refine h₁.trans (.of_states ?_ (List.prefix_append _ _) rfl rfl rfl rfl rfl rfl)
  refine (StateMap.touches_modifyRoot hp fun r => ?_).trans
    (storedRel_touches.setUnionStatesFromValue v p.path _ hv)
  have h₂ : (r.setLeaves env.sem p.path fun _ => initializedBit).shape = r.shape :=
    r.shape_setLeaves _ _
  rw [← h₂]
  simp [RootState.shape, Function.comp_def, path_reinitializedUnion]

/-- The values that names are bound to are other ones. -/
lemma touches_values (hS : b.states = a.states) (hd : b.diagnostics = a.diagnostics)
    (hact : b.activeLocals = a.activeLocals)
    (hreg : b.cleanupRegistrations = a.cleanupRegistrations) (hf : b.loopFlows = a.loopFlows)
    (hs : b.snapshots = a.snapshots)
    (hb : ∀ e ∈ b.boundValues, e ∈ a.boundValues ∨ e.2.plain = true)
    (ho : b.outcomeFacts = a.outcomeFacts) : Touches env ls a b where
  states := hS ▸ .refl _
  active := ⟨[], by simp [hact], by simp, by rw [hact]; exact id⟩
  registrations r hr := Or.inl (hreg ▸ hr)
  flows := hf
  diagnostics := hd ▸ List.prefix_refl _
  snapshots := hs
  bound := hb
  facts := ho

/-! ## Instructions -/

lemma touches_ensureOwnRoot (hp : p.root ∈ ls) : Touches env ls a (a.ensureOwnRoot env p) := by
  unfold ensureOwnRoot
  split
  · exact .refl a
  · exact touches_ensureRoot hp

lemma touches_moveInst (i : InstId) (v : Value) (hv : ∀ l ∈ v.locals, l ∈ ls) :
    Touches env ls a (a.moveInst env i v) := by
  unfold moveInst
  split
  · exact touches_diagnose i _
  · rename_i p hp
    have hroot := hv _ (root_mem_locals hp)
    refine (touches_ensureOwnRoot hroot).trans ?_
    dsimp only
    split
    · exact touches_diagnose i _
    · split
      · exact touches_diagnose i _
      · split
        · exact touches_diagnose i _
        · exact touches_observePlace hroot i _

lemma touches_copyInst (i : InstId) (v : Value) (hv : ∀ l ∈ v.locals, l ∈ ls) :
    Touches env ls a (a.copyInst env i v) := by
  unfold copyInst
  split
  · exact touches_diagnose i _
  · rename_i p hp
    have hroot := hv _ (root_mem_locals hp)
    refine (touches_ensureOwnRoot hroot).trans ?_
    dsimp only
    split
    · exact touches_diagnose i _
    · split
      · exact touches_diagnose i _
      · exact touches_observePlace hroot i _

lemma touches_borrowInst (i : InstId) (v : Value) (hv : ∀ l ∈ v.locals, l ∈ ls) :
    Touches env ls a (a.borrowInst env i v) := by
  unfold borrowInst
  split
  · exact touches_diagnose i _
  · rename_i p hp
    have hroot := hv _ (root_mem_locals hp)
    split
    · exact touches_observeExternal hroot i _
    · refine (touches_ensureRoot hroot).trans ?_
      dsimp only
      split
      · exact touches_observe hroot i _
      · exact touches_diagnose i _

lemma touches_assignInst (i : InstId) (t v : Value) (ht : ∀ l ∈ t.locals, l ∈ ls)
    (hv : ∀ l ∈ v.locals, l ∈ ls) : Touches env ls a (a.assignInst env i t v) := by
  unfold assignInst
  split
  · exact touches_diagnose i _
  · rename_i p hp
    have hroot := ht _ (root_mem_locals hp)
    refine Touches.trans (b := { a with
      boundValues := a.boundValues.filter fun e => e.1 ≠ p.root })
      (touches_values rfl rfl rfl rfl rfl rfl
        (fun e he => Or.inl (List.mem_of_mem_filter he)) rfl) ?_
    refine (touches_bumpRevision p.root).trans ?_
    dsimp only
    split
    · exact touches_tables rfl rfl rfl rfl rfl rfl rfl rfl
    · refine (touches_ensureRoot hroot).trans ?_
      split
      · exact touches_diagnose i _
      · split
        · exact touches_diagnose i _
        · split
          · exact touches_diagnose i _
          · exact touches_reinitializePlace hroot i v hv

lemma touches_bindInst (i : InstId) (l : LocalId) (v : Value) (hplain : v.plain = true)
    (hl : l ∈ ls) (hv : ∀ l ∈ v.locals, l ∈ ls) : Touches env ls a (a.bindInst env i l v) := by
  unfold bindInst
  extract_lets observed
  have h₁ : Touches env ls a observed := by
    simp only [observed]
    split
    · split
      · rename_i p hp
        exact touches_observePlace (hv _ (root_resolveCallEffectPlace hp)) i _
      · exact .refl a
    · exact .refl a
  refine h₁.trans (Touches.trans ?_ (touches_initializeLocal hl (some v) ?_))
  · refine touches_values rfl rfl rfl rfl rfl rfl (fun e he => ?_) rfl
    rcases List.mem_cons.1 he with rfl | he
    · exact Or.inr hplain
    · exact Or.inl (List.mem_of_mem_filter he)
  · rintro w hw
    obtain rfl := Option.some.inj hw
    exact hv

lemma touches_valueInst (v : Value) (hq : (Inst.value v).quiet = true)
    (hv : ∀ l ∈ v.locals, l ∈ ls) :
    Touches env ls a (a.valueInst env v) := by
  cases v with
  | nameRef id l => exact touches_observeDirectPlace _ hv
  | structFieldAccess id b f t => exact touches_observeDirectPlace _ hv
  | unionFieldAccess id b f t => exact touches_observeDirectPlace _ hv
  | enumPayloadAccess id b f k t => exact touches_observeDirectPlace _ hv
  | index id b p t => exact touches_observeDirectPlace _ hv
  | borrowLocal id l t =>
    exact touches_observe (hv l (by simp [Value.locals])) id _
  | borrowPlace id v t => exact touches_borrowInst id v (by simpa [Value.locals] using hv)
  | move id v => exact touches_moveInst id v (by simpa [Value.locals] using hv)
  | copy id v => exact touches_copyInst id v (by simpa [Value.locals] using hv)
  | placement id t v ty | call id callee args t => simp [Inst.quiet] at hq
  | materializeTemporary id l v =>
    simp only [Value.locals, List.mem_cons] at hv
    refine touches_initializeLocal (hv l (Or.inl rfl)) (some v) ?_
    rintro w hw m hm
    obtain rfl := Option.some.inj hw
    exact hv m (Or.inr hm)
  | _ => exact .refl a

lemma mem_extendRegistration {rs : List CleanupRegistration} {r : CleanupRegistration}
    (h : r ∈ extendRegistration l rs) : r ∈ rs ∨ r.local? = some l := by
  induction rs with
  | nil => simp [extendRegistration] at h
  | cons x rs ih =>
    have hcons : ∀ y, r ∈ y :: extendRegistration l rs → y = x →
        r ∈ x :: rs ∨ r.local? = some l := by
      rintro y hy rfl
      rcases List.mem_cons.1 hy with rfl | hy
      · exact Or.inl (List.mem_cons_self)
      · exact (ih hy).imp_left (List.mem_cons_of_mem _)
    cases x with
    | temporary m =>
      simp only [extendRegistration] at h
      split at h
      · rcases List.mem_cons.1 h with rfl | h
        · exact Or.inr rfl
        · exact Or.inl (List.mem_cons_of_mem _ h)
      · exact hcons _ h rfl
    | loc m => exact hcons _ h rfl
    | extended m => exact hcons _ h rfl
    | defer d => exact hcons _ h rfl

end Analysis

/-- **The straight-line instructions** touch only the locals they mention. -/
theorem touches_transfer {env : PlaceEnv} (i : Inst) (hi : i.quiet = true) (a : Analysis) :
    Analysis.Touches env i.locals a (transfer env i a) := by
  cases i with
  | value v => exact Analysis.touches_valueInst v hi fun _ h => h
  | declareUninitialized id l =>
    have hl : l ∈ (Inst.declareUninitialized id l).locals := by simp [Inst.locals]
    have hhas : (a.modifyRoot env l fun r =>
        { r with uninitializedDeclaration := some id }).states.has l = true := by
      simp [Analysis.modifyRoot]
    refine Analysis.Touches.trans ?_ (Analysis.touches_activate hl hhas)
    exact Analysis.touches_modifyRoot hl fun r => rfl
  | parameter id l =>
    exact Analysis.touches_initializeLocal (by simp [Inst.locals]) none (by simp)
  | bindName id l v =>
    exact Analysis.touches_bindInst id l v hi (by simp [Inst.locals]) fun x hx => by
      simp [Inst.locals, hx]
  | assign id t v =>
    exact Analysis.touches_assignInst id t v (fun x hx => by simp [Inst.locals, hx])
      fun x hx => by simp [Inst.locals, hx]
  | extendTemporary id v =>
    cases v with
    | materializeTemporary j l w =>
      refine ⟨.refl _, ⟨[], by simp [transfer], by simp, fun h => h⟩, fun r hr => ?_, rfl,
        List.prefix_refl _, rfl, fun e he => Or.inl he, rfl⟩
      rcases Analysis.mem_extendRegistration hr with hr | hr
      · exact Or.inl hr
      · exact Or.inr ⟨l, by simp [Inst.locals, Value.locals], hr⟩
    | _ => exact .refl a
  | endFullExpression id ls => simp [Inst.quiet] at hi
  | _ => exact .refl a

end Chtholly
