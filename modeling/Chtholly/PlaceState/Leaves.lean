import Chtholly.PlaceState.Soundness

set_option autoImplicit false

/-!
# The possibilities of leaves are sound

An execution at the level of detail of the leaves: for every component of a local, given by its path
and its type, whether it is initialised or not, that is uninitialised or moved out of. The analysis
covers the executions when every status is among the possibilities of its leaf.

Storage that is declared without a value holds nothing. The facts about a new local say the same of
every leaf but the elements that a slice views, which count as initialised from the start
(`Chtholly.collectLeaves`); so a local with a slice in it is not covered until it gets a value.

## Main definitions

* `Chtholly.leafMachine` — what the instructions do to the status of the components.
* `Chtholly.LeafSound` — the claim that the analysis covers the executions of a body.

## Main results

* `Chtholly.analyzeFunction_leafSound` — the analysis of a body that declares no slice without a
  value covers its executions.
* `Chtholly.analyzeFunction_not_leafSound` — in general it does not.
-/

namespace Chtholly

open Analysis

/-! ## Executions -/

/-- For every component of a local, named by its path and its type, whether it is initialised. -/
abbrev LeafStatus := LocalId → PlacePath → TypeId → Bool

/-- A component changes with a place: it is a part of it, or it is a union around it. -/
def changesWith (sem : SemIR) (p : ResolvedPlace) (path : PlacePath) (t : TypeId) : Bool :=
  isPrefix p.path path || sem.isUnion t && isPrefix path p.path

/-- All components of a local get a status. -/
def setLocal (l : LocalId) (b : Bool) (s : LeafStatus) : LeafStatus :=
  fun m path t => if m = l then b else s m path t

/-- The components that change with a place get a status. A place that is reached through a
reference is not part of a local. -/
def setPlace (sem : SemIR) (p : Option ResolvedPlace) (b : Bool) (s : LeafStatus) : LeafStatus :=
  match p with
  | some p =>
    if p.isExternal then s
    else fun m path t => if m = p.root ∧ changesWith sem p path t = true then b else s m path t
  | none => s

/-- What an instruction does to the components. -/
def leafStep (sem : SemIR) : Inst → LeafStatus → LeafStatus
  | .declareUninitialized _ l => setLocal l false
  | .parameter _ l | .bindName _ l _ | .value (.materializeTemporary _ l _) => setLocal l true
  | .value (.move _ v) => setPlace sem (resolvePlace sem v) false
  | .assign _ target _ => setPlace sem (resolvePlace sem target) true
  | _ => id

/-- The executions at the level of leaves. Conditions that are no literals and the arms of a switch
are chosen freely; when a scope is left, nothing is said of its locals any more. -/
def leafMachine (sem : SemIR) : Machine LeafStatus where
  step i s s' := s' = leafStep sem i s
  truth v _ c := ∀ i b, v = .boolLiteral i b → c = b
  selects _ _ _ := True
  leave _ s s' := s' = s
  edge _ s s' := s' = s
  truth_literal h := h _ _ rfl

/-- The possibilities allow a status. -/
def Possibilities.allows (p : Possibilities) (b : Bool) : Bool :=
  if b then p.initialized else p.moved

/-- The leaves of a local allow the status of its components. -/
def LeavesAllow (l : LocalId) (r : RootState) (s : LeafStatus) : Prop :=
  ∀ leaf ∈ r.leaves, leaf.possibilities.allows (s l leaf.path leaf.type) = true

instance (l : LocalId) (r : RootState) (s : LeafStatus) : Decidable (LeavesAllow l r s) :=
  inferInstanceAs (Decidable (∀ leaf ∈ r.leaves,
    leaf.possibilities.allows (s l leaf.path leaf.type) = true))

/-- The place has constant elements only. -/
def constantPlace (sem : SemIR) (v : Value) : Bool :=
  match resolvePlace sem v with
  | some p => !p.hasUnknownElement
  | none => true

/-- The instructions of the bodies: no calls, no stores that may fail, no deferred blocks, no ends of
temporaries, and moves and stores of places with constant elements. -/
def Inst.placeOnly (sem : SemIR) (i : Inst) : Bool :=
  i.quiet && match i with
    | .value (.move _ v) | .assign _ v _ => constantPlace sem v
    | _ => true

/-- No leaf of a local counts as initialised before the local has a value. -/
def startsEmpty (sem : SemIR) (l : LocalId) : Bool :=
  (RootState.fresh sem l).leaves.all fun leaf => decide (leaf.possibilities = movedBit)

/-- The analysis `a` of a body covers its executions: whenever one reaches an instruction, the status
of every leaf of every active local is among the possibilities that the analysis has there. -/
def LeafSound (env : PlaceEnv) (body : Block) (a : Analysis) : Prop :=
  ∀ ⦃s t e s'⦄, Run (leafMachine env.sem) (.insts body.insts) s t e s' → ∀ x ∈ t,
    ∃ snap ∈ a.snapshots, snap.instruction = x.1 ∧
      ∀ l ∈ snap.activeLocals, LeavesAllow l (snap.states.root env.sem l) x.2

/-! ## Joins -/

section

variable {l : LocalId} {r r' : RootState} {s : LeafStatus}

lemma Possibilities.allows_union_left {p q : Possibilities} {b : Bool}
    (h : p.allows b = true) : (p.union q).allows b = true := by
  cases b with
  | true => simp_all [Possibilities.allows, Possibilities.union]
  | false => simp_all [Possibilities.allows, Possibilities.union]

lemma Possibilities.allows_union_right {p q : Possibilities} {b : Bool}
    (h : q.allows b = true) : (p.union q).allows b = true := by
  cases b with
  | true => simp_all [Possibilities.allows, Possibilities.union]
  | false => simp_all [Possibilities.allows, Possibilities.union]

/-- Each leaf of a join comes from one of the first list. -/
lemma mem_map₂Left_merge {x : LeafState} {xs ys : List LeafState}
    (h : x ∈ List.map₂Left LeafState.merge xs ys) : ∃ y ∈ xs, ∃ z, x = y.merge z := by
  induction xs generalizing ys with
  | nil => simp at h
  | cons y xs ih =>
    cases ys with
    | nil =>
      rw [List.map₂Left, List.mem_map] at h
      obtain ⟨w, hw, rfl⟩ := h
      exact ⟨w, hw, none, rfl⟩
    | cons z ys =>
      rw [List.map₂Left, List.mem_cons] at h
      rcases h with rfl | h
      · exact ⟨y, List.mem_cons_self, some z, rfl⟩
      · obtain ⟨w, hw, u, rfl⟩ := ih h
        exact ⟨w, List.mem_cons_of_mem _ hw, u, rfl⟩

/-- Each leaf of a join of leaves with the same paths has what one of the second list has. -/
lemma mem_map₂Left_merge_right {x : LeafState} {xs ys : List LeafState}
    (hshape : xs.map (fun x => (x.path, x.type)) = ys.map fun y => (y.path, y.type))
    (h : x ∈ List.map₂Left LeafState.merge xs ys) :
    ∃ y ∈ ys, x.path = y.path ∧ x.type = y.type ∧
      ∃ p : Possibilities, x.possibilities = p.union y.possibilities := by
  induction xs generalizing ys with
  | nil => simp at h
  | cons w xs ih =>
    cases ys with
    | nil => simp at hshape
    | cons z ys =>
      simp only [List.map_cons, List.cons.injEq, Prod.mk.injEq] at hshape
      rw [List.map₂Left, List.mem_cons] at h
      rcases h with rfl | h
      · exact ⟨z, List.mem_cons_self, hshape.1.1, hshape.1.2, w.possibilities, rfl⟩
      · obtain ⟨y, hy, hp⟩ := ih hshape.2 h
        exact ⟨y, List.mem_cons_of_mem _ hy, hp⟩

lemma LeavesAllow.merge_left (h : LeavesAllow l r s) (r' : RootState) :
    LeavesAllow l (r.merge r') s := by
  intro x hx
  obtain ⟨y, hy, z, rfl⟩ := mem_map₂Left_merge hx
  cases z with
  | none => exact h y hy
  | some z => exact Possibilities.allows_union_left (h y hy)

lemma LeavesAllow.merge_right (hshape : r.shape = r'.shape) (h : LeavesAllow l r' s) :
    LeavesAllow l (r.merge r') s := by
  intro x hx
  simp only [RootState.shape, Prod.mk.injEq] at hshape
  obtain ⟨y, hy, hp, ht, q, hq⟩ := mem_map₂Left_merge_right hshape.1 hx
  rw [hp, ht, hq]
  exact Possibilities.allows_union_right (h y hy)

/-- Leaves with the same paths and the same possibilities are the same. -/
lemma leaves_eq_of_same (hshape : r.shape = r'.shape) (hsame : r.same r' = true) :
    r.leaves = r'.leaves := by
  simp only [RootState.shape, Prod.mk.injEq] at hshape
  simp only [RootState.same, Bool.and_eq_true, decide_eq_true_eq] at hsame
  have key : ∀ xs ys : List LeafState,
      xs.map (fun x => (x.path, x.type)) = ys.map (fun y => (y.path, y.type)) →
      xs.map (·.possibilities) = ys.map (·.possibilities) → xs = ys := by
    intro xs
    induction xs with
    | nil =>
      intro ys h _
      exact (List.map_eq_nil_iff.1 h.symm).symm
    | cons x xs ih =>
      intro ys h₁ h₂
      cases ys with
      | nil => simp at h₁
      | cons y ys =>
        simp only [List.map_cons, List.cons.injEq, Prod.mk.injEq] at h₁ h₂
        rw [ih ys h₁.2 h₂.2]
        cases x
        cases y
        simp_all
  exact key _ _ hshape.1 hsame.1.1.1

end

/-! ## Instructions -/

/-- Neither the leaves of a local nor the active locals change. -/
structure LeavesKept (env : PlaceEnv) (a a' : Analysis) : Prop where
  leaves : ∀ l, (a'.states.root env.sem l).leaves = (a.states.root env.sem l).leaves
  active : a'.activeLocals = a.activeLocals

section

variable {env : PlaceEnv} {a b c : Analysis} {s : LeafStatus}

lemma LeavesKept.refl (a : Analysis) : LeavesKept env a a := ⟨fun _ => rfl, rfl⟩

lemma LeavesKept.trans (h₁ : LeavesKept env a b) (h₂ : LeavesKept env b c) : LeavesKept env a c :=
  ⟨fun l => (h₂.leaves l).trans (h₁.leaves l), h₂.active.trans h₁.active⟩

lemma LeavesKept.covers (h : LeavesKept env a b)
    (hs : Covers env LeavesAllow a.states a.activeLocals s) :
    Covers env LeavesAllow b.states b.activeLocals s := by
  intro l hl leaf hleaf
  rw [h.active] at hl
  rw [h.leaves l] at hleaf
  exact hs l hl leaf hleaf

lemma leavesKept_ensureRoot (l : LocalId) : LeavesKept env a (a.ensureRoot env l) :=
  ⟨fun m => by rw [Analysis.ensureRoot, StateMap.root_ensureRoot], rfl⟩

lemma leavesKept_touch (p : ResolvedPlace) : LeavesKept env a (a.touch env p) := by
  unfold touch
  split
  · exact .refl a
  · exact leavesKept_ensureRoot _

lemma leavesKept_revise (kind : Observation) (l : LocalId) :
    LeavesKept env a (a.revise kind l) := by
  unfold revise
  split
  · exact ⟨fun _ => rfl, rfl⟩
  · exact .refl a

lemma leavesKept_diagnoseUse (i : InstId) (p : ResolvedPlace) (state : PlaceStateKind) :
    LeavesKept env a (a.diagnoseUse env i p state) := by
  cases state with
  | moved =>
    simp only [diagnoseUse]
    split
    · exact (leavesKept_ensureRoot p.root).trans ⟨fun _ => rfl, rfl⟩
    · exact ⟨fun _ => rfl, rfl⟩
  | _ => exact ⟨fun _ => rfl, rfl⟩

lemma leavesKept_checkAccess (i : InstId) (p : ResolvedPlace) :
    LeavesKept env a (a.checkAccess env i p) := by
  simp only [checkAccess]
  split
  · exact ⟨fun _ => rfl, rfl⟩
  · cases checkEnumAccess (a.states.root env.sem p.root).enums p with
    | none => exact .refl a
    | some k => exact ⟨fun _ => rfl, rfl⟩

/-- A use that is not a move changes no leaf. -/
lemma leavesKept_observe (i : InstId) (p : ResolvedPlace) {kind : Observation}
    (hk : kind ≠ .move) : LeavesKept env a (a.observe env i p kind) := by
  have h : LeavesKept env a ((a.revise kind p.root).touch env p) :=
    (leavesKept_revise kind p.root).trans (leavesKept_touch p)
  simp only [observe, if_neg hk]
  split
  · exact (h.trans (leavesKept_diagnoseUse i p _)).trans (leavesKept_checkAccess i p)
  · exact h.trans (leavesKept_diagnoseUse i p _)

lemma leavesKept_observeExternal (i : InstId) (p : ResolvedPlace) (kind : Observation) :
    LeavesKept env a (a.observeExternal env i p kind) := by
  simp only [observeExternal]
  split
  · exact .refl a
  · exact (leavesKept_touch p).trans (leavesKept_diagnoseUse i p _)

lemma leavesKept_observePlace (i : InstId) (p : ResolvedPlace) {kind : Observation}
    (hk : kind ≠ .move) : LeavesKept env a (a.observePlace env i p kind) := by
  simp only [observePlace]
  split
  · exact leavesKept_observeExternal i p kind
  · exact leavesKept_observe i p hk

lemma leavesKept_observeDirectPlace (v : Value) :
    LeavesKept env a (a.observeDirectPlace env v) := by
  simp only [observeDirectPlace]
  split
  · exact .refl a
  · split
    · exact leavesKept_observePlace _ _ (by simp)
    · exact .refl a

lemma leavesKept_ensureOwnRoot (p : ResolvedPlace) : LeavesKept env a (a.ensureOwnRoot env p) := by
  unfold ensureOwnRoot
  split
  · exact .refl a
  · exact leavesKept_ensureRoot _

lemma leavesKept_copyInst (i : InstId) (v : Value) : LeavesKept env a (a.copyInst env i v) := by
  unfold copyInst
  split
  · exact ⟨fun _ => rfl, rfl⟩
  · rename_i p hp
    refine (leavesKept_ensureOwnRoot p).trans ?_
    dsimp only
    split
    · exact ⟨fun _ => rfl, rfl⟩
    · split
      · exact ⟨fun _ => rfl, rfl⟩
      · exact leavesKept_observePlace i p (by simp)

lemma leavesKept_borrowInst (i : InstId) (v : Value) :
    LeavesKept env a (a.borrowInst env i v) := by
  unfold borrowInst
  split
  · exact ⟨fun _ => rfl, rfl⟩
  · rename_i p hp
    split
    · exact leavesKept_observeExternal i p _
    · refine (leavesKept_ensureRoot p.root).trans ?_
      dsimp only
      split
      · exact leavesKept_observe i p (by simp)
      · exact ⟨fun _ => rfl, rfl⟩

/-! ### New values -/

/-- The leaves of a local that got a value are initialised, those of the others do not change. -/
lemma leaves_initializedStates (l m : LocalId) (v : Option Value) (S : StateMap) :
    ((initializedStates env l v S).root env.sem m).leaves =
      if m = l then (S.root env.sem m).leaves.map fun x => { x with possibilities := initializedBit }
      else (S.root env.sem m).leaves := by
  have hone : ((S.modifyRoot env.sem l wholeValue).root env.sem m).leaves =
      if m = l then (S.root env.sem m).leaves.map fun x => { x with possibilities := initializedBit }
      else (S.root env.sem m).leaves := by
    rw [StateMap.root_modifyRoot]
    split
    · rename_i h
      subst h
      rfl
    · rfl
  cases v with
  | none => exact hone
  | some w =>
    rw [← hone]
    have hrel : StoredRel env.sem l w.locals _ := storedRel_leaves
    exact storedRel_setStatesFromValue hrel w _ (fun _ h => h) m

lemma states_initializeLocal (l : LocalId) (v : Option Value) :
    (a.initializeLocal env l v).states = initializedStates env l v a.states := by
  simp only [initializeLocal, register, activate]
  repeat' split
  all_goals rfl

lemma mem_activate {l m : LocalId} (h : m ∈ (activate l a).activeLocals) :
    m ∈ a.activeLocals ∨ m = l := by
  unfold activate at h
  split at h
  · exact Or.inl h
  · simpa using h

lemma mem_activeLocals_initializeLocal {l m : LocalId} {v : Option Value}
    (h : m ∈ (a.initializeLocal env l v).activeLocals) : m ∈ a.activeLocals ∨ m = l := by
  have hreg : ∀ (e : CleanupRegistration) (b : Analysis),
      (register e b).activeLocals = b.activeLocals := by
    intro e b
    unfold register
    split
    · rfl
    · rfl
  rw [initializeLocal, hreg] at h
  exact mem_activate (a := { a.bumpRevision l with states := initializedStates env l v a.states }) h

/-- A local that got a value has every leaf initialised; nothing else changes. -/
lemma covers_initializeLocal {l : LocalId} (v : Option Value)
    (hs : Covers env LeavesAllow a.states a.activeLocals s) :
    Covers env LeavesAllow (a.initializeLocal env l v).states
      (a.initializeLocal env l v).activeLocals (setLocal l true s) := by
  intro m hm leaf hleaf
  rw [states_initializeLocal, leaves_initializedStates] at hleaf
  by_cases hml : m = l
  · rw [if_pos hml, List.mem_map] at hleaf
    obtain ⟨x, -, rfl⟩ := hleaf
    simp [setLocal, hml, Possibilities.allows, initializedBit]
  · rw [if_neg hml] at hleaf
    have hact := (mem_activeLocals_initializeLocal hm).resolve_right hml
    simpa [setLocal, hml] using hs m hact leaf hleaf

variable {p : ResolvedPlace}

/-- The leaves that change with a place get new possibilities, and their components a status that
these allow. -/
lemma covers_setLeaves (hp : p.isExternal = false) {q : Possibilities} {bit : Bool}
    (hq : q.allows bit = true) {g : RootState → RootState}
    (hg : ∀ r, (g r).leaves = (r.setLeaves env.sem p.path fun _ => q).leaves)
    (hs : Covers env LeavesAllow a.states a.activeLocals s) :
    Covers env LeavesAllow (a.modifyRoot env p.root g).states a.activeLocals
      (setPlace env.sem (some p) bit s) := by
  intro l hl leaf hleaf
  simp only [setPlace, hp, Bool.false_eq_true, if_false]
  simp only [Analysis.modifyRoot, StateMap.root_modifyRoot] at hleaf
  by_cases hlp : l = p.root
  · rw [if_pos hlp, hg, ← hlp] at hleaf
    simp only [RootState.setLeaves, List.mem_map] at hleaf
    obtain ⟨x, hx, rfl⟩ := hleaf
    by_cases hcov : x.coveredBy env.sem p.path = true
    · have hch : changesWith env.sem p x.path x.type = true := hcov
      simpa [hcov, hlp, hch] using hq
    · have hch : changesWith env.sem p x.path x.type = false := Bool.eq_false_iff.2 hcov
      simpa [hcov, hlp, hch] using hs l hl x hx
  · rw [if_neg hlp] at hleaf
    simpa [hlp] using hs l hl leaf hleaf

lemma diagnose_ne (i : InstId) (k : PlaceStateDiagnosticKind) :
    (a.diagnose i k).diagnostics ≠ a.diagnostics := by
  simp [Analysis.diagnose]

/-- A use of a place whose state is not `Initialized` is diagnosed. -/
lemma diagnoseUse_ne (i : InstId) (p : ResolvedPlace) {state : PlaceStateKind}
    (h : state ≠ .initialized) : (a.diagnoseUse env i p state).diagnostics ≠ a.diagnostics := by
  cases state with
  | initialized => exact absurd rfl h
  | moved =>
    simp only [diagnoseUse]
    split
    · exact diagnose_ne (a := a.ensureRoot env p.root) i _
    · exact diagnose_ne i _
  | maybeMoved => exact diagnose_ne i _
  | partiallyMoved => exact diagnose_ne i _

variable {i : InstId}

/-- A move that is not diagnosed moves every leaf of the place. -/
lemma observe_move (hd : (a.observe env i p .move).diagnostics = a.diagnostics) :
    ∃ b, LeavesKept env a b ∧
      a.observe env i p .move = b.modifyRoot env p.root (moveOut env p.path) := by
  have hkept : LeavesKept env a ((a.revise .move p.root).touch env p) :=
    (leavesKept_revise .move p.root).trans (leavesKept_touch p)
  have hsame : ((a.revise .move p.root).touch env p).diagnostics = a.diagnostics := by
    unfold touch
    split
    · rfl
    · rfl
  simp only [observe, if_true] at hd ⊢
  split at hd
  · rename_i hinit
    rw [if_pos hinit]
    exact ⟨_, (hkept.trans (leavesKept_diagnoseUse i p _)).trans (leavesKept_checkAccess i p), rfl⟩
  · rename_i hinit
    exact absurd (hd.trans hsame.symm) (diagnoseUse_ne i p hinit)

variable {v : Value}

lemma covers_moveInst (hd : (a.moveInst env i v).diagnostics = a.diagnostics)
    (hs : Covers env LeavesAllow a.states a.activeLocals s) :
    Covers env LeavesAllow (a.moveInst env i v).states (a.moveInst env i v).activeLocals
      (setPlace env.sem (resolvePlace env.sem v) false s) := by
  unfold moveInst at hd ⊢
  cases hp : resolvePlace env.sem v with
  | none =>
    rw [hp] at hd
    exact absurd hd (diagnose_ne i _)
  | some p =>
    rw [hp] at hd
    have hkept : LeavesKept env a (a.ensureOwnRoot env p) := leavesKept_ensureOwnRoot p
    have hsame : (a.ensureOwnRoot env p).diagnostics = a.diagnostics := by
      unfold ensureOwnRoot
      split
      · rfl
      · rfl
    simp only at hd ⊢
    generalize a.ensureOwnRoot env p = b at hd hkept hsame ⊢
    rw [← hsame] at hd
    split at hd
    · exact absurd hd (diagnose_ne i _)
    rename_i h₁
    split at hd
    · exact absurd hd (diagnose_ne i _)
    rename_i h₂
    split at hd
    · exact absurd hd (diagnose_ne i _)
    rename_i h₃
    rw [if_neg h₁, if_neg h₂, if_neg h₃]
    by_cases hext : p.isExternal = true
    · simp only [observePlace, hext, if_true, setPlace]
      exact (hkept.trans (leavesKept_observeExternal i p _)).covers hs
    · have hext' : p.isExternal = false := by simpa using hext
      simp only [observePlace, hext', Bool.false_eq_true, if_false] at hd ⊢
      obtain ⟨c, hc, heq⟩ := observe_move hd
      rw [heq]
      have hcov := (hkept.trans hc).covers hs
      exact covers_setLeaves hext' (q := movedBit) rfl (fun r => rfl) hcov

lemma covers_reinitializePlace (hp : p.isExternal = false)
    (hs : Covers env LeavesAllow a.states a.activeLocals s) :
    Covers env LeavesAllow (a.reinitializePlace env i p v).states
      (a.reinitializePlace env i p v).activeLocals (setPlace env.sem (some p) true s) := by
  have hkept : LeavesKept env a ((a.bumpRevision p.root).ensureRoot env p.root) :=
    ⟨fun m => by simp [Analysis.ensureRoot, bumpRevision], rfl⟩
  have hstore := covers_setLeaves (g := fun r =>
      let r := r.setLeaves env.sem p.path fun _ => initializedBit
      { r with unions := r.unions.map (reinitializedUnion p.path) }) hp
    (show initializedBit.allows true = true from rfl) (fun _ => rfl) (hkept.covers hs)
  intro l hl leaf hleaf
  simp only [reinitializePlace] at hleaf
  rw [storedRel_leaves.setUnionStatesFromValue v p.path _ (fun _ h => h) l] at hleaf
  exact hstore l hl leaf hleaf

/-- A store that is not diagnosed initialises every leaf of the place. -/
lemma covers_assignInst {t : Value} (hd : (a.assignInst env i t v).diagnostics = a.diagnostics)
    (hs : Covers env LeavesAllow a.states a.activeLocals s) :
    Covers env LeavesAllow (a.assignInst env i t v).states (a.assignInst env i t v).activeLocals
      (setPlace env.sem (resolvePlace env.sem t) true s) := by
  unfold assignInst at hd ⊢
  cases hp : resolvePlace env.sem t with
  | none =>
    rw [hp] at hd
    exact absurd hd (diagnose_ne i _)
  | some p =>
    rw [hp] at hd
    simp only at hd ⊢
    by_cases hext : p.isExternal = true
    · simp only [hext, if_true, setPlace]
      exact hs
    · have hext' : p.isExternal = false := by simpa using hext
      simp only [hext', Bool.false_eq_true, if_false] at hd ⊢
      split at hd
      · exact absurd hd (diagnose_ne (a := Analysis.ensureRoot env p.root _) i _)
      rename_i h₁
      split at hd
      · exact absurd hd (diagnose_ne (a := Analysis.ensureRoot env p.root _) i _)
      rename_i h₂
      split at hd
      · exact absurd hd (diagnose_ne (a := Analysis.ensureRoot env p.root _) i _)
      rename_i h₃
      rw [if_neg h₁, if_neg h₂, if_neg h₃]
      refine covers_reinitializePlace hext' (LeavesKept.covers (a := a) ?_ hs)
      exact ⟨fun m => by simp [Analysis.ensureRoot, bumpRevision], rfl⟩

lemma covers_bindInst {l : LocalId} (hs : Covers env LeavesAllow a.states a.activeLocals s) :
    Covers env LeavesAllow (a.bindInst env i l v).states (a.bindInst env i l v).activeLocals
      (setLocal l true s) := by
  have hkept : LeavesKept env a (if env.sem.isReference (v.type env.sem) then
      match resolveCallEffectPlace env.sem v {} with
      | some p => a.observePlace env i p .copy
      | none => a
    else a) := by
    split
    · split
      · exact leavesKept_observePlace i _ (by simp)
      · exact .refl a
    · exact .refl a
  unfold bindInst
  refine covers_initializeLocal (some v) ?_
  exact hkept.covers hs

/-- New storage has no value. -/
lemma covers_declareUninitialized {id : InstId} {l : LocalId} (hnew : a.states.has l = false)
    (hl : startsEmpty env.sem l = true)
    (hs : Covers env LeavesAllow a.states a.activeLocals s) :
    Covers env LeavesAllow (transfer env (.declareUninitialized id l) a).states
      (transfer env (.declareUninitialized id l) a).activeLocals (setLocal l false s) := by
  have hstates : (transfer env (.declareUninitialized id l) a).states =
      a.states.modifyRoot env.sem l fun r => { r with uninitializedDeclaration := some id } := by
    simp only [transfer, activate]
    split
    · rfl
    · rfl
  intro m hm leaf hleaf
  rw [hstates, StateMap.root_modifyRoot] at hleaf
  by_cases hml : m = l
  · rw [if_pos hml] at hleaf
    have hfresh : a.states.root env.sem l = RootState.fresh env.sem l := by
      cases hlook : a.states.lookup l with
      | none =>
        rw [StateMap.root, hlook]
        rfl
      | some r => simp [StateMap.has, hlook] at hnew
    rw [hfresh] at hleaf
    simp only [startsEmpty, List.all_eq_true, decide_eq_true_eq] at hl
    rw [hl leaf hleaf]
    simp [setLocal, hml, Possibilities.allows, movedBit]
  · rw [if_neg hml] at hleaf
    have hact : m ∈ a.activeLocals := (mem_activate hm).resolve_right hml
    simpa [setLocal, hml] using hs m hact leaf hleaf

end

/-! ## Bodies -/

section

variable {env : PlaceEnv}

/-- The instructions for which the possibilities of leaves are sound: a declaration without a value
is of a local that starts empty. -/
def Inst.leafCovered (sem : SemIR) (i : Inst) : Bool :=
  i.placeOnly sem && match i with
    | .declareUninitialized _ l => startsEmpty sem l
    | _ => true

/-- The straight-line instructions keep the status of the leaves covered. -/
lemma covers_transfer {i : Inst} (hi : i.leafCovered env.sem = true) {a : Analysis} {s : LeafStatus}
    (hnew : ∀ id l, i = .declareUninitialized id l → a.states.has l = false)
    (hd : (transfer env i a).diagnostics = a.diagnostics)
    (hs : Covers env LeavesAllow a.states a.activeLocals s) :
    Covers env LeavesAllow (transfer env i a).states (transfer env i a).activeLocals
      (leafStep env.sem i s) := by
  simp only [Inst.leafCovered, Inst.placeOnly, Bool.and_eq_true] at hi
  cases i with
  | value v =>
    cases v with
    | nameRef id l => exact (leavesKept_observeDirectPlace _).covers hs
    | structFieldAccess id b f t => exact (leavesKept_observeDirectPlace _).covers hs
    | unionFieldAccess id b f t => exact (leavesKept_observeDirectPlace _).covers hs
    | enumPayloadAccess id b f k t => exact (leavesKept_observeDirectPlace _).covers hs
    | index id b p t => exact (leavesKept_observeDirectPlace _).covers hs
    | borrowLocal id l t => exact (leavesKept_observe id _ (by simp)).covers hs
    | borrowPlace id v t => exact (leavesKept_borrowInst id v).covers hs
    | move id v => exact covers_moveInst hd hs
    | copy id v => exact (leavesKept_copyInst id v).covers hs
    | placement id t v ty => simp [Inst.quiet] at hi
    | call id f args t => simp [Inst.quiet] at hi
    | materializeTemporary id l v => exact covers_initializeLocal (some v) hs
    | _ => exact hs
  | declareUninitialized id l => exact covers_declareUninitialized (hnew id l rfl) hi.2 hs
  | parameter id l => exact covers_initializeLocal none hs
  | bindName id l v => exact covers_bindInst hs
  | assign id t v => exact covers_assignInst hd hs
  | extendTemporary id v =>
    refine LeavesKept.covers (a := a) ?_ hs
    simp only [transfer]
    split
    · exact ⟨fun _ => rfl, rfl⟩
    · exact .refl a
  | endFullExpression id l => simp [Inst.quiet] at hi
  | _ => exact hs

lemma interprets_leaves (env : PlaceEnv) :
    Interprets env (leafMachine env.sem) LeavesAllow (Inst.leafCovered env.sem) where
  quiet i hi := by
    simp only [Inst.leafCovered, Inst.placeOnly, Bool.and_eq_true] at hi
    exact hi.1.1
  merge_left r' := fun h => h.merge_left r'
  merge_right hshape h := h.merge_right hshape
  same hshape hsame h := by
    intro leaf hleaf
    rw [leaves_eq_of_same hshape hsame] at hleaf
    exact h leaf hleaf
  arm _ _ _ _ h := h
  step := by
    rintro i a s _ hi ha hnew hd hs rfl
    exact covers_transfer hi hnew hd hs
  leave h := h
  edge h := h

/-- **Soundness of the possibilities of leaves.** Let the analysis of a body emit no diagnostic. Then
it covers the executions of the body, provided that no local whose type has a slice among its tracked
components is declared without a value. -/
theorem analyzeFunction_leafSound (env : PlaceEnv) (f : SemFunction) (fuel : Nat) (a : Analysis)
    (hbody : ∀ i ∈ f.body.instructions, i.placeOnly env.sem = true)
    (hdecl : declaresFirst [] f.body.instructions = true)
    (hslice : ∀ id l, .declareUninitialized id l ∈ f.body.instructions →
      startsEmpty env.sem l = true)
    (h : analyzeFunction env fuel f = .ok a) (hdiag : a.diagnostics = []) :
    LeafSound env f.body a := by
  obtain ⟨⟨falls, a₁⟩, h₁, h₂⟩ := bind_eq_ok.1 h
  have ha : Inv env { initializedForwardedParameters := forwardedParameters f } :=
    ⟨List.nodup_nil, ⟨StateMap.shaped_nil, by simp⟩, by simp, by simp, by simp, rfl⟩
  have hcov : ∀ i ∈ f.body.instructions, i.leafCovered env.sem = true := by
    intro i hi
    have hplace := hbody i hi
    cases i with
    | declareUninitialized id l => simp [Inst.leafCovered, hplace, hslice id l hi]
    | _ => simpa [Inst.leafCovered] using hplace
  have hend : a₁.diagnostics = [] ∧ a.snapshots = a₁.snapshots := by
    simp only at h₂
    split at h₂
    · rw [pure_eq_ok] at h₂
      subst h₂
      simp only [diagnoseUninitializedStorage, List.append_eq_nil_iff] at hdiag
      exact ⟨hdiag.1, rfl⟩
    · rw [pure_eq_ok] at h₂
      subst h₂
      exact ⟨hdiag, rfl⟩
  have htriple := sound_analyzeBlock (interprets_leaves env) _ _ h₁ hcov ha
    (W := []) (fun x hx => by
      cases hx with
      | states hx => simp [StateMap.has] at hx
      | registered hr hx => simp at hr) hdecl hend.1
  intro s t e s' hrun x hx
  obtain ⟨ht, -⟩ := htriple (fun l hl => by simp at hl) hrun
  obtain ⟨snap, hsnap, hi, hc⟩ := ht x hx
  exact ⟨snap, hend.2 ▸ hsnap, hi, hc⟩

end

/-! ### A body that is covered -/

/-- A module with a struct of two owned fields. -/
def fieldModule : SemIR where
  type t := if t = 1 then .nominal .struct [{ type := 2 }, { type := 2 }] [] else .other
  typeRepresentation t :=
    { ownership := .owned, move := .trivial, destroy := if t = 2 then .custom else .trivial }
  voidType := 0
  loc l := if l = 0 then { type := 1, mutable_ := true }
    else { type := 2, mutable_ := true, uninitialized := true }

/-- A loop that moves a field of a parameter and stores it again, and one that declares a local
without a value, stores one, reads it and breaks. -/
def fieldLoops : SemFunction where
  parameters := [0]
  body := .mk 0 [.parameter 1 0,
    .whileLoop 2 (.mk 1 [.value (.other 3 [] 0)])
      (.mk 2 [.value (.move 5 (.structFieldAccess 4 (.nameRef 4 0) 0 2)),
        .assign 6 (.structFieldAccess 7 (.nameRef 7 0) 0 2) (.other 8 [] 2)]),
    .whileLoop 9 (.mk 3 [.value (.other 10 [] 0)])
      (.mk 4 [.declareUninitialized 11 1, .assign 12 (.nameRef 13 1) (.other 14 [] 2),
        .value (.nameRef 15 1), .brk 16 0]),
    .ret 17 .ret (.other 18 [] 0)]

/-- The result of an analysis that ends. -/
def resultOf (x : Except Stop Analysis) : Analysis :=
  match x with
  | .ok a => a
  | .error _ => {}

theorem fieldLoops_leafSound :
    LeafSound { sem := fieldModule } fieldLoops.body
      (resultOf (analyzeFunction { sem := fieldModule } 4 fieldLoops)) := by
  refine analyzeFunction_leafSound { sem := fieldModule } fieldLoops 4 _ (by decide) (by decide)
    (fun id l h => ?_) rfl rfl
  have hl : l = 1 := by
    simp only [fieldLoops, Block.instructions, instsInstructions, Inst.nested, List.mem_cons,
      List.mem_append, List.append_nil, List.not_mem_nil, reduceCtorEq, false_or, or_false,
      Inst.declareUninitialized.injEq] at h
    exact h.2
  subst hl
  decide

/-! ### A body that is not covered -/

/-- A module with a slice. -/
def sliceModule : SemIR where
  type t := if t = 1 then .slice 2 else .other
  typeRepresentation _ := {}
  voidType := 0
  loc _ := { type := 1, uninitialized := true }

/-- A loop that declares a slice without a value, reads it and breaks. The check for storage that
never gets a value is made at the end of a scope, which this loop does not reach. -/
def sliceLoop : SemFunction where
  parameters := []
  body := .mk 0 [.whileLoop 1 (.mk 1 [.value (.boolLiteral 2 true)])
    (.mk 2 [.declareUninitialized 3 0, .value (.nameRef 4 0), .brk 5 0])]

/-- The loop reads the slice while it has no value. -/
lemma sliceLoop_run (s : LeafStatus) :
    Run (leafMachine sliceModule) (.insts sliceLoop.body.insts) s
      [(1, s), (2, s), (3, s), (4, setLocal 0 false s)] .cut (setLocal 0 false s) := by
  have hcond : Run (leafMachine sliceModule) (.insts [.value (.boolLiteral 2 true)]) s [(2, s)]
      .normal s := .seq (by simp) (.step rfl rfl) .nil
  have hbody : Run (leafMachine sliceModule)
      (.block (.mk 2 [.declareUninitialized 3 0, .value (.nameRef 4 0), .brk 5 0])) s
      [(3, s), (4, setLocal 0 false s)] .cut (setLocal 0 false s) :=
    .blockOut (by simp) (.seq (by simp) (.step rfl rfl)
      (.stop (by simp) (by simp) (.reached rfl)))
  have htest : (leafMachine sliceModule).test (.mk 1 [.value (.boolLiteral 2 true)]) s true := by
    intro i b h
    cases h
    rfl
  have hloop := Run.whileOut (c := .mk 1 [.value (.boolLiteral 2 true)]) htest rfl hcond hbody
  exact .stop (by simp) (by simp) (.whileLoop hloop)

/-- A body with a slice that is declared without a value: the analysis emits no diagnostic, and an
execution reads the slice where the analysis has it as initialised. -/
theorem analyzeFunction_not_leafSound :
    ¬ ∀ (env : PlaceEnv) (f : SemFunction) (fuel : Nat) (a : Analysis),
      (∀ i ∈ f.body.instructions, i.placeOnly env.sem = true) →
      declaresFirst [] f.body.instructions = true → analyzeFunction env fuel f = .ok a →
      a.diagnostics = [] → LeafSound env f.body a := by
  intro h
  have hsound := h { sem := sliceModule } sliceLoop 4
    (resultOf (analyzeFunction { sem := sliceModule } 4 sliceLoop)) (by decide) (by decide) rfl rfl
  obtain ⟨snap, hsnap, hi, hc⟩ := hsound (sliceLoop_run fun _ _ _ => false)
    (4, setLocal 0 false fun _ _ _ => false) (by simp)
  have hbad : ∀ snap ∈ (resultOf (analyzeFunction { sem := sliceModule } 4 sliceLoop)).snapshots,
      snap.instruction = 4 → 0 ∈ snap.activeLocals ∧
        ¬ LeavesAllow 0 (snap.states.root sliceModule 0) (setLocal 0 false fun _ _ _ => false) := by
    decide
  exact (hbad snap hsnap hi).2 (hc 0 (hbad snap hsnap hi).1)

end Chtholly
