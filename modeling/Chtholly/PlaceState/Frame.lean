import Chtholly.PlaceState.Touches

set_option autoImplicit false

/-!
# What the analysis of nested code leaves alone

The analysis of a block works on top of what was there before it: the active locals of the code
around it stay at the bottom of the list, the states collected on the edges to enclosing loops only
get joined with more, and diagnostics and snapshots are only added. Every active local has facts, and
every map has for each local the leaves of its type.

The bodies here have only the instructions of `Chtholly.Inst.quiet`.

## Main definitions

* `Chtholly.Analysis.Inv` — the invariant of the analyzer.
* `Chtholly.Analysis.Frame` — what later states of an analysis keep of an earlier one.

## Main results

* `Chtholly.frame_analyzeBlock` — the analysis of a block keeps the invariant and the frame.
-/

namespace Chtholly

namespace Analysis

/-! ## The invariant -/

/-- A map that has facts of the right shape about the given locals. -/
structure MapOk (env : PlaceEnv) (S : StateMap) (active : List LocalId) : Prop where
  shaped : S.Shaped env.sem
  has : ∀ l ∈ active, S.has l = true

/-- The states on the edges to a loop have facts about the locals that are active there. -/
structure FlowOk (env : PlaceEnv) (active : List LocalId) (f : LoopFlow) : Prop where
  depth : ∀ k, f.localDepth k ≤ active.length
  edge : ∀ k S, f.edge k = some S → MapOk env S (active.take (f.localDepth k))

/-- **The invariant of the analyzer**, for bodies without deferred blocks. -/
structure Inv (env : PlaceEnv) (a : Analysis) : Prop where
  nodup : a.activeLocals.Nodup
  states : MapOk env a.states a.activeLocals
  flows : ∀ f ∈ a.loopFlows, FlowOk env a.activeLocals f
  locals : ∀ r ∈ a.cleanupRegistrations, ∃ l, r.local? = some l
  bound : ∀ e ∈ a.boundValues, e.2.plain = true
  facts : a.outcomeFacts = []

/-- The analysis has facts about a local or will clean it up. -/
inductive Knows (a : Analysis) (x : LocalId) : Prop
  | states : a.states.has x = true → Knows a x
  | registered {r : CleanupRegistration} : r ∈ a.cleanupRegistrations → r.local? = some x →
      Knows a x

/-- The states on the edges to a loop got joined with others, and the first one has facts about the
given locals only. -/
structure Grows (K : LocalId → Prop) (f f' : LoopFlow) : Prop where
  depth : ∀ k, f'.localDepth k = f.localDepth k
  edge : ∀ k S, f.edge k = some S → ∃ Ts : List StateMap, f'.edge k = some (Ts.foldl .merge S)
  keys : ∀ k S, f.edge k = none → f'.edge k = some S → ∀ x, S.has x = true → K x

/-- What a later state of the analysis keeps of an earlier one, when only the given locals were
mentioned in between. -/
structure Frame (L : List LocalId) (a a' : Analysis) : Prop where
  active : a.activeLocals <+: a'.activeLocals
  flows : List.Forall₂ (Grows fun x => a.Knows x ∨ x ∈ L) a.loopFlows a'.loopFlows
  diagnostics : a.diagnostics <+: a'.diagnostics
  snapshots : a.snapshots <+: a'.snapshots
  knows : ∀ x, a'.Knows x → a.Knows x ∨ x ∈ L

variable {env : PlaceEnv} {L L' : List LocalId} {a b c : Analysis}

variable {S : StateMap}

lemma has_foldl_merge {Ts : List StateMap} {x : LocalId} : (Ts.foldl .merge S).has x = S.has x := by
  induction Ts generalizing S with
  | nil => rfl
  | cons T Ts ih => rw [List.foldl_cons, ih, StateMap.has_merge]

variable {K K' : LocalId → Prop}

lemma Grows.refl (f : LoopFlow) : Grows K f f :=
  ⟨fun _ => rfl, fun _ _ h => ⟨[], h⟩, fun _ _ h h' => by simp [h] at h'⟩

variable {f : LoopFlow}

lemma Grows.trans {g h : LoopFlow} (h₁ : Grows K f g) (h₂ : Grows K' g h) (hK : ∀ x, K' x → K x) :
    Grows K f h := by
  refine ⟨fun k => (h₂.depth k).trans (h₁.depth k), fun k S hS => ?_, fun k S hnone hS x hx => ?_⟩
  · obtain ⟨Ts, hT⟩ := h₁.edge k S hS
    obtain ⟨Us, hU⟩ := h₂.edge k _ hT
    exact ⟨Ts ++ Us, by rw [List.foldl_append, hU]⟩
  · cases hg : g.edge k with
    | none => exact hK x (h₂.keys k S hg hS x hx)
    | some T =>
      obtain ⟨Us, hU⟩ := h₂.edge k T hg
      obtain rfl := Option.some.inj (hU.symm.trans hS)
      rw [has_foldl_merge] at hx
      exact h₁.keys k T hnone hg x hx

lemma forall₂_grows_refl (l : List LoopFlow) : List.Forall₂ (Grows K) l l :=
  List.forall₂_same.2 fun f _ => Grows.refl f

lemma forall₂_grows_trans {l m n : List LoopFlow} (h₁ : List.Forall₂ (Grows K) l m)
    (h₂ : List.Forall₂ (Grows K') m n) (hK : ∀ x, K' x → K x) : List.Forall₂ (Grows K) l n := by
  induction h₁ generalizing n with
  | nil => cases h₂; exact .nil
  | cons hf _ ih =>
    cases h₂ with
    | cons hg hrest => exact .cons (hf.trans hg hK) (ih hrest)

lemma forall₂_grows_mono {l m : List LoopFlow} (h : List.Forall₂ (Grows K') l m)
    (hK : ∀ x, K' x → K x) : List.Forall₂ (Grows K) l m :=
  forall₂_grows_trans (forall₂_grows_refl l) h hK

lemma Frame.refl (a : Analysis) : Frame L a a :=
  ⟨List.prefix_refl _, forall₂_grows_refl _, List.prefix_refl _, List.prefix_refl _,
    fun _ h => Or.inl h⟩

/-- Locals that the earlier state knew need not be mentioned. -/
lemma Frame.absorb (h : Frame L a b) (hl : ∀ x ∈ L, a.Knows x ∨ x ∈ L') : Frame L' a b := by
  have hK : ∀ x, a.Knows x ∨ x ∈ L → a.Knows x ∨ x ∈ L' := fun x hx => hx.elim Or.inl (hl x)
  exact ⟨h.active, forall₂_grows_mono h.flows hK, h.diagnostics, h.snapshots,
    fun x hx => hK x (h.knows x hx)⟩

lemma Frame.mono (h : Frame L a b) (hl : ∀ l ∈ L, l ∈ L') : Frame L' a b :=
  h.absorb fun x hx => Or.inr (hl x hx)

lemma Frame.trans (h₁ : Frame L a b) (h₂ : Frame L b c) : Frame L a c := by
  have hK : ∀ x, b.Knows x ∨ x ∈ L → a.Knows x ∨ x ∈ L := fun x hx =>
    hx.elim (h₁.knows x) Or.inr
  exact ⟨h₁.active.trans h₂.active, forall₂_grows_trans h₁.flows h₂.flows hK,
    h₁.diagnostics.trans h₂.diagnostics, h₁.snapshots.trans h₂.snapshots,
    fun x hx => hK x (h₂.knows x hx)⟩

/-- What is recorded only grows, whatever path the analysis goes on with. -/
structure Extends (a a' : Analysis) : Prop where
  flows : List.Forall₂ (Grows fun _ => True) a.loopFlows a'.loopFlows
  diagnostics : a.diagnostics <+: a'.diagnostics
  snapshots : a.snapshots <+: a'.snapshots

lemma Extends.refl (a : Analysis) : Extends a a :=
  ⟨forall₂_grows_refl _, List.prefix_refl _, List.prefix_refl _⟩

lemma Extends.trans (h₁ : Extends a b) (h₂ : Extends b c) : Extends a c :=
  ⟨forall₂_grows_trans h₁.flows h₂.flows fun _ h => h, h₁.diagnostics.trans h₂.diagnostics,
    h₁.snapshots.trans h₂.snapshots⟩

/-- Another path goes on with what is recorded. -/
lemma extends_restart (a : Analysis) (S : StateMap) (active : List LocalId)
    (regs : List CleanupRegistration) : Extends a (a.restart S active regs) :=
  ⟨forall₂_grows_refl _, List.prefix_refl _, List.prefix_refl _⟩

lemma Frame.extends (h : Frame L a b) : Extends a b :=
  ⟨forall₂_grows_mono h.flows fun _ _ => trivial, h.diagnostics, h.snapshots⟩

/-- The depths of the loops around are those of the earlier state. -/
lemma Frame.depth (h : Frame L a b) (ha : Inv env a) (hf : f ∈ b.loopFlows) (k : Bool) :
    f.localDepth k ≤ a.activeLocals.length := by
  obtain ⟨n, hn, rfl⟩ := List.getElem_of_mem hf
  have hlen := h.flows.length_eq
  have hg : Grows _ (a.loopFlows.get ⟨n, by omega⟩) (b.loopFlows.get ⟨n, hn⟩) :=
    List.forall₂_iff_get.1 h.flows |>.2 n (by omega) hn
  have hdepth := hg.depth k
  have hok := (ha.flows _ (List.getElem_mem (l := a.loopFlows) (n := n) (by omega))).depth k
  simp only [List.get_eq_getElem] at hdepth
  omega

variable {act : List LocalId}

/-- The maps on the edges to a loop, seen with the active locals of the code around. -/
lemma FlowOk.restrict {act' : List LocalId} (h : FlowOk env act' f) (hp : act <+: act')
    (hd : ∀ k, f.localDepth k ≤ act.length) : FlowOk env act f := by
  obtain ⟨rest, rfl⟩ := hp
  refine ⟨hd, fun k S hS => ?_⟩
  have := h.edge k S hS
  rwa [List.take_append_of_le_length (hd k)] at this

lemma FlowOk.extend {act' : List LocalId} (h : FlowOk env act f) (hp : act <+: act') :
    FlowOk env act' f := by
  obtain ⟨rest, rfl⟩ := hp
  refine ⟨fun k => ?_, fun k S hS => ?_⟩
  · rw [List.length_append]
    exact (h.depth k).trans (Nat.le_add_right _ _)
  · rw [List.take_append_of_le_length (h.depth k)]
    exact h.edge k S hS

/-! ## Maps -/

lemma MapOk.merge {T : StateMap} (h : MapOk env S act) : MapOk env (S.merge T) act :=
  ⟨h.shaped.merge, fun l hl => by simpa using h.has l hl⟩

lemma MapOk.mergeOptional {S : Option StateMap} {T : StateMap}
    (hS : ∀ U, S = some U → MapOk env U act) (hT : MapOk env T act) :
    MapOk env (StateMap.mergeOptional S T) act := by
  cases S with
  | none => exact hT
  | some U => exact (hS U rfl).merge

lemma MapOk.joinEdge {T : Option StateMap} (h : MapOk env S act) :
    MapOk env (joinEdge S T) act := by
  cases T with
  | none => exact h
  | some T => exact h.merge

/-- The locals of the inner scopes go, the facts about the others stay. -/
lemma MapOk.eraseLocals (h : MapOk env S act) (hn : act.Nodup) (k : Nat) :
    MapOk env (S.eraseLocals (act.drop k)) (act.take k) := by
  refine ⟨h.shaped.eraseLocals _, fun l hl => ?_⟩
  have hdisj : l ∉ act.drop k := by
    have hsplit := List.nodup_append.1 ((List.take_append_drop k act).symm ▸ hn)
    exact fun hd => hsplit.2.2 l hl l hd rfl
  rw [StateMap.has_eraseLocals, h.has l (List.mem_of_mem_take hl)]
  simp [hdisj]

@[simp] lemma has_joinEdge {T : Option StateMap} {x : LocalId} :
    (joinEdge S T).has x = S.has x := by
  cases T with
  | none => rfl
  | some T => exact StateMap.has_merge

/-! ## Straight-line instructions -/

/-- An operation that touches some locals keeps the invariant. -/
lemma Touches.inv (h : Touches env L a b) (ha : Inv env a) : Inv env b := by
  obtain ⟨new, hact, hnew, hn⟩ := h.active
  refine ⟨hn ha.nodup, ⟨h.states.shaped ha.states.shaped, fun l hl => ?_⟩, fun f hf => ?_,
    fun r hr => ?_, fun e he => (h.bound e he).elim (ha.bound e) id, h.facts.trans ha.facts⟩
  · rw [hact, List.mem_append] at hl
    rcases hl with hl | hl
    · exact h.states.keeps l (ha.states.has l hl)
    · exact (hnew l hl).2
  · rw [h.flows] at hf
    exact (ha.flows f hf).extend ⟨new, hact.symm⟩
  · rcases h.registrations r hr with hr | ⟨l, -, hl⟩
    · exact ha.locals r hr
    · exact ⟨l, hl⟩

lemma Touches.frame (h : Touches env L a b) : Frame L a b := by
  obtain ⟨new, hact, hnew, hn⟩ := h.active
  refine ⟨⟨new, hact.symm⟩, by rw [h.flows]; exact forall₂_grows_refl _, h.diagnostics,
    h.snapshots ▸ List.prefix_refl _, fun x hx => ?_⟩
  cases hx with
  | states hx => exact (h.states.new x hx).imp_left .states
  | registered hr hx =>
    rcases h.registrations _ hr with hr | ⟨l, hl, hrl⟩
    · exact Or.inl (.registered hr hx)
    · rw [hrl, Option.some.injEq] at hx
      exact Or.inr (hx ▸ hl)

/-- What differs from a state only in what was recorded keeps the invariant. -/
lemma Inv.of_eq (ha : Inv env a) (hS : b.states = a.states)
    (hact : b.activeLocals = a.activeLocals) (hf : b.loopFlows = a.loopFlows)
    (hr : b.cleanupRegistrations = a.cleanupRegistrations) (hb : b.boundValues = a.boundValues)
    (ho : b.outcomeFacts = a.outcomeFacts) : Inv env b := by
  refine ⟨?_, ?_, ?_, ?_, hb ▸ ha.bound, ho ▸ ha.facts⟩
  · rw [hact]
    exact ha.nodup
  · rw [hS, hact]
    exact ha.states
  · rw [hact, hf]
    exact ha.flows
  · rw [hr]
    exact ha.locals

/-! ## Cleanup -/

/-- Cleaning up registered locals may create the facts about them and does nothing else. -/
lemma touches_cleanupPlan {rec : BlockAnalyzer} {regs : List CleanupRegistration}
    (hregs : ∀ r ∈ regs, ∃ l ∈ L, r.local? = some l) {plan : PlaceCleanupPlan}
    (h : cleanupPlan env rec regs a = .ok (plan, b)) :
    Touches env L a b ∧ b.activeLocals = a.activeLocals ∧
      b.cleanupRegistrations = a.cleanupRegistrations ∧ b.diagnostics = a.diagnostics := by
  induction regs generalizing a plan with
  | nil =>
    obtain ⟨-, rfl⟩ := cleanupPlan_nil_ok.1 h
    exact ⟨.refl _, rfl, rfl, rfl⟩
  | cons r regs ih =>
    obtain ⟨l, hl, hr⟩ := hregs r List.mem_cons_self
    obtain ⟨rest, h, -⟩ := (cleanupPlan_local_ok hr).1 h
    obtain ⟨ht, hact, hreg, hd⟩ := ih (fun r' hr' => hregs r' (List.mem_cons_of_mem _ hr')) h
    have hone : Touches env L a (a.appendLocalCleanup env l).2 ∧
        (a.appendLocalCleanup env l).2.activeLocals = a.activeLocals ∧
        (a.appendLocalCleanup env l).2.cleanupRegistrations = a.cleanupRegistrations ∧
        (a.appendLocalCleanup env l).2.diagnostics = a.diagnostics := by
      unfold appendLocalCleanup
      split
      · exact ⟨touches_ensureRoot hl, rfl, rfl, rfl⟩
      · exact ⟨.refl a, rfl, rfl, rfl⟩
    exact ⟨hone.1.trans ht, hact.trans hone.2.1, hreg.trans hone.2.2.1, hd.trans hone.2.2.2⟩

/-- The locals that are registered. -/
def registeredLocals (regs : List CleanupRegistration) : List LocalId :=
  regs.filterMap CleanupRegistration.local?

/-- Cleaning up some of what is registered keeps the invariant and mentions no new local. -/
lemma frame_cleanupPlan {rec : BlockAnalyzer} {regs : List CleanupRegistration} (ha : Inv env a)
    (hregs : ∀ r ∈ regs, r ∈ a.cleanupRegistrations) {plan : PlaceCleanupPlan}
    (h : cleanupPlan env rec regs a = .ok (plan, b)) :
    Inv env b ∧ Frame [] a b ∧ b.activeLocals = a.activeLocals ∧
      b.cleanupRegistrations = a.cleanupRegistrations ∧ b.diagnostics = a.diagnostics ∧
      Touches env (registeredLocals a.cleanupRegistrations) a b := by
  have hloc : ∀ r ∈ regs, ∃ l ∈ registeredLocals a.cleanupRegistrations, r.local? = some l := by
    intro r hr
    obtain ⟨l, hl⟩ := ha.locals r (hregs r hr)
    exact ⟨l, List.mem_filterMap.2 ⟨r, hregs r hr, hl⟩, hl⟩
  obtain ⟨ht, hact, hreg, hd⟩ := touches_cleanupPlan hloc h
  refine ⟨ht.inv ha, ht.frame.absorb fun x hx => ?_, hact, hreg, hd, ht⟩
  obtain ⟨r, hr, hx⟩ := List.mem_filterMap.1 hx
  exact Or.inl (.registered hr hx)

/-! ## Other paths -/

/-- A path from the state before some code, with what the analysis of the code has recorded. -/
lemma Inv.restart {before : Analysis} (hb : Inv env before) (ha : Inv env a)
    (hf : Frame L before a) (hS : MapOk env S before.activeLocals) :
    Inv env (a.restart S before.activeLocals before.cleanupRegistrations) where
  nodup := hb.nodup
  states := hS
  flows f hf' := (ha.flows f hf').restrict hf.active (hf.depth hb hf')
  locals := hb.locals
  bound := ha.bound
  facts := ha.facts

lemma Frame.restart {before : Analysis} (hf : Frame L before a)
    (hS : ∀ x, S.has x = true → before.Knows x ∨ x ∈ L) :
    Frame L before (a.restart S before.activeLocals before.cleanupRegistrations) := by
  refine ⟨List.prefix_refl _, hf.flows, hf.diagnostics, hf.snapshots, fun x hx => ?_⟩
  cases hx with
  | states hx => exact hS x hx
  | registered hr hx => exact Or.inl (.registered hr hx)

lemma Frame.rollback_diagnostics (h : Frame L a b) :
    (a.rollback b).diagnostics = a.diagnostics :=
  (List.prefix_iff_eq_take.1 h.diagnostics).symm

lemma Frame.rollback_snapshots (h : Frame L a b) : (a.rollback b).snapshots = a.snapshots :=
  (List.prefix_iff_eq_take.1 h.snapshots).symm

/-- A pass that did not converge leaves the diagnostics and snapshots that were there before it. -/
lemma Frame.rollback (h : Frame L a b) : Frame L a (a.rollback b) := by
  refine ⟨h.active, h.flows, ?_, ?_, fun x hx => ?_⟩
  · exact ⟨[], by rw [h.rollback_diagnostics, List.append_nil]⟩
  · exact ⟨[], by rw [h.rollback_snapshots, List.append_nil]⟩
  · cases hx with
    | states hx => exact h.knows x (.states hx)
    | registered hr hx => exact h.knows x (.registered hr hx)

end Analysis

open Analysis

/-! ## Nested code -/

/-- What the analysis of nested blocks is known to do. -/
def RecFrame (env : PlaceEnv) (rec : BlockAnalyzer) : Prop :=
  ∀ {b : Block} {lexical : Bool} {a a' : Analysis} {r : Bool}, rec b lexical a = .ok (r, a') →
    (∀ i ∈ b.instructions, i.quiet = true) → Inv env a →
    Inv env a' ∧ Frame (mentioned b.instructions) a a' ∧
      (lexical = true → a'.activeLocals = a.activeLocals)

section

variable {env : PlaceEnv} {rec : BlockAnalyzer} {L : List LocalId}

/-- A map from which a path of the code after `before` starts. -/
structure PathOk (env : PlaceEnv) (L : List LocalId) (before : Analysis) (S : StateMap) : Prop where
  map : MapOk env S before.activeLocals
  known : ∀ x, S.has x = true → before.Knows x ∨ x ∈ L

/-- What the paths that were joined so far have facts about. -/
def JoinOk (env : PlaceEnv) (L : List LocalId) (before : Analysis) (merged : Option StateMap) :
    Prop :=
  ∀ U, merged = some U → PathOk env L before U

variable {before : Analysis}

lemma JoinOk.none : JoinOk env L before none := fun _ h => by simp at h

variable {merged : Option StateMap}

/-- A path that ends with the active locals it started with joins the others. -/
lemma JoinOk.join {a : Analysis} (h : JoinOk env L before merged) (ha : Inv env a)
    (hf : Frame L before a) (hact : a.activeLocals = before.activeLocals) :
    JoinOk env L before (some (.mergeOptional merged a.states)) := by
  rintro U hU
  obtain rfl := Option.some.inj hU
  have hmap : MapOk env a.states before.activeLocals := hact ▸ ha.states
  refine ⟨MapOk.mergeOptional (fun V hV => (h V hV).1) hmap, fun x hx => ?_⟩
  cases merged with
  | none => exact hf.knows x (.states hx)
  | some V => exact (h V rfl).2 x (by simpa [StateMap.mergeOptional] using hx)

variable {a' : Analysis}

/-- The arms of an `If`. -/
lemma frame_analyzeIfArms (hrec : RecFrame env rec) (hb : Inv env before) {arms : List Block}
    (hquiet : ∀ i ∈ blocksInstructions arms, i.quiet = true)
    (hls : ∀ x ∈ mentioned (blocksInstructions arms), x ∈ L) {a : Analysis}
    {merged' : Option StateMap} (h : analyzeIfArms rec before arms merged a = .ok (merged', a'))
    (ha : Inv env a) (hf : Frame L before a) (hm : JoinOk env L before merged) :
    Inv env a' ∧ Frame L before a' ∧ JoinOk env L before merged' ∧ Extends a a' := by
  induction arms generalizing a merged with
  | nil =>
    obtain ⟨rfl, rfl⟩ := analyzeIfArms_nil_ok.1 h
    exact ⟨ha, hf, hm, .refl _⟩
  | cons b arms ih =>
    simp only [blocksInstructions, List.mem_append] at hquiet
    simp only [blocksInstructions, mentioned_append, List.mem_append] at hls
    obtain ⟨falls, a₁, h₁, h₂⟩ := analyzeIfArms_cons_ok.1 h
    have hr : Inv env (a.restart before.states before.activeLocals before.cleanupRegistrations) :=
      hb.restart ha hf hb.states
    have hfr := hf.restart (S := before.states) fun x hx => Or.inl (.states hx)
    obtain ⟨hi₁, hf₁, hact⟩ := hrec h₁ (fun i hi => hquiet i (Or.inl hi)) hr
    have hf₁' := hfr.trans (hf₁.mono fun x hx => hls x (Or.inl hx))
    have hm₁ : JoinOk env L before
        (if falls then some (.mergeOptional merged a₁.states) else merged) := by
      cases falls with
      | true => exact hm.join hi₁ hf₁' (hact rfl)
      | false => exact hm
    obtain ⟨hi₂, hf₂, hm₂, hx₂⟩ := ih (fun i hi => hquiet i (Or.inr hi))
      (fun x hx => hls x (Or.inr hx)) h₂ hi₁ hf₁' hm₁
    exact ⟨hi₂, hf₂, hm₂, ((extends_restart _ _ _ _).trans hf₁.extends).trans hx₂⟩

/-- After a branch, the analysis goes on from the join or, when no arm falls through, from the state
before the branch. -/
lemma frame_afterBranch {a : Analysis} (hb : Inv env before) (ha : Inv env a)
    (hf : Frame L before a) (hm : JoinOk env L before merged) :
    Inv env (a.restart (merged.getD before.states) before.activeLocals
        before.cleanupRegistrations) ∧
      Frame L before (a.restart (merged.getD before.states) before.activeLocals
        before.cleanupRegistrations) := by
  cases merged with
  | none => exact ⟨hb.restart ha hf hb.states, hf.restart fun x hx => Or.inl (.states hx)⟩
  | some U => exact ⟨hb.restart ha hf (hm U rfl).1, hf.restart (hm U rfl).2⟩

/-! ## Switch arms -/

variable {v : Value}

lemma touches_narrow (hv : ∀ x ∈ v.locals, x ∈ L) (k : Int) {a : Analysis} :
    Touches env L a (a.narrow env v k) := by
  unfold narrow
  split
  · rename_i p hp
    exact touches_modifyRoot (hv _ (root_mem_locals hp)) fun r => r.shape_setVariant _ _
  · exact .refl a

/-- The value that a name was bound to is plain when all the values in the table are. -/
lemma plain_boundValueFrom {bound : List (LocalId × Value)} (hb : ∀ e ∈ bound, e.2.plain = true)
    {n : Nat} {seen : List InstId} (hv : v.plain = true) :
    (boundValueFrom bound n seen v).plain = true := by
  induction n generalizing seen v with
  | zero => exact hv
  | succ n ih =>
    simp only [boundValueFrom]
    split
    · exact hv
    · split
      · exact ih hv
      · exact ih hv
      · rename_i j l hseen
        cases hl : bound.lookup l with
        | none => exact hv
        | some w =>
          obtain ⟨l₁, l₂, heq, -⟩ := List.lookup_eq_some_iff.1 hl
          exact ih (hb (l, w) (by simp [heq]))
      · exact hv

/-- Entering an arm says nothing but which variant the scrutinee holds. -/
lemma enterArm_eq {a : Analysis} {w : Value} {k : Int} (hw : w.plain = true)
    (hfacts : a.outcomeFacts = []) :
    a.enterArm env v w k = if k < 0 then a else a.narrow env v k := by
  have hplace : switchPlacement env w = none := by
    cases w with
    | placement id t u ty => simp [Value.plain] at hw
    | _ => rfl
  unfold enterArm
  simp [hfacts, hplace]

/-- Entering an arm touches the locals of the scrutinee and makes none active. -/
lemma touches_enterArm (hv : ∀ x ∈ v.locals, x ∈ L) (hplain : v.plain = true) (k : Int)
    {a : Analysis} (hb : Inv env before) (ha : Inv env a) :
    Touches env L a (a.enterArm env v (before.boundValue v) k) ∧
      (a.enterArm env v (before.boundValue v) k).activeLocals = a.activeLocals := by
  have hbound : (before.boundValue v).plain = true := plain_boundValueFrom hb.bound hplain
  rw [enterArm_eq hbound ha.facts]
  split
  · exact ⟨.refl a, rfl⟩
  · refine ⟨touches_narrow hv k, ?_⟩
    unfold narrow
    split
    · rfl
    · rfl

/-- The arms of a `Switch`. -/
lemma frame_analyzeSwitchArms (hrec : RecFrame env rec) (hb : Inv env before)
    (hv : ∀ x ∈ v.locals, x ∈ L) (hplain : v.plain = true) {arms : List (Int × Block)}
    (hquiet : ∀ i ∈ armsInstructions arms, i.quiet = true)
    (hls : ∀ x ∈ mentioned (armsInstructions arms), x ∈ L) {a : Analysis}
    {merged' : Option StateMap}
    (h : analyzeSwitchArms env rec before v (before.boundValue v) arms merged a =
      .ok (merged', a')) (ha : Inv env a) (hf : Frame L before a)
    (hm : JoinOk env L before merged) :
    Inv env a' ∧ Frame L before a' ∧ JoinOk env L before merged' ∧ Extends a a' := by
  induction arms generalizing a merged with
  | nil =>
    obtain ⟨rfl, rfl⟩ := analyzeSwitchArms_nil_ok.1 h
    exact ⟨ha, hf, hm, .refl _⟩
  | cons arm arms ih =>
    obtain ⟨k, b⟩ := arm
    simp only [armsInstructions, List.mem_append] at hquiet
    simp only [armsInstructions, mentioned_append, List.mem_append] at hls
    obtain ⟨falls, a₁, h₁, h₂⟩ := analyzeSwitchArms_cons_ok.1 h
    have hr := hb.restart ha hf hb.states
    obtain ⟨ht, hact₀⟩ := touches_enterArm hv hplain k hb hr
    obtain ⟨hi₁, hf₁, hact⟩ := hrec h₁ (fun i hi => hquiet i (Or.inl hi)) (ht.inv hr)
    have hf₁' := ((hf.restart fun x hx => Or.inl (.states hx)).trans ht.frame).trans
      (hf₁.mono fun x hx => hls x (Or.inl hx))
    have hm₁ : JoinOk env L before
        (if falls then some (.mergeOptional merged a₁.states) else merged) := by
      cases falls with
      | true => exact hm.join hi₁ hf₁' ((hact rfl).trans hact₀)
      | false => exact hm
    obtain ⟨hi₂, hf₂, hm₂, hx₂⟩ := ih (fun i hi => hquiet i (Or.inr hi))
      (fun x hx => hls x (Or.inr hx)) h₂ hi₁ hf₁' hm₁
    exact ⟨hi₂, hf₂, hm₂,
      ((extends_restart _ _ _ _).trans (ht.frame.extends.trans hf₁.extends)).trans hx₂⟩

/-! ## Edges -/

lemma addEdge_localDepth (breaks k : Bool) (S : StateMap) (f : LoopFlow) :
    (f.addEdge breaks S).localDepth k = f.localDepth k := by
  cases breaks <;> rfl

lemma addEdge_edge (breaks k : Bool) (S : StateMap) (f : LoopFlow) :
    (f.addEdge breaks S).edge k =
      if k = breaks then some (.mergeOptional (f.edge k) S) else f.edge k := by
  cases breaks <;> cases k <;> rfl

/-- The states on a new edge join those on the others. -/
lemma grows_addEdge {K : LocalId → Prop} {S : StateMap} (hK : ∀ x, S.has x = true → K x)
    (breaks : Bool) (f : LoopFlow) : Grows K f (f.addEdge breaks S) := by
  refine ⟨fun k => addEdge_localDepth breaks k S f, fun k T hT => ?_, fun k T hnone hT x hx => ?_⟩
  · rw [addEdge_edge]
    by_cases hk : k = breaks
    · rw [if_pos hk, hT]
      exact ⟨[S], rfl⟩
    · rw [if_neg hk]
      exact ⟨[], hT⟩
  · rw [addEdge_edge, hnone] at hT
    by_cases hk : k = breaks
    · rw [if_pos hk] at hT
      obtain rfl := Option.some.inj hT
      exact hK x hx
    · rw [if_neg hk] at hT
      simp at hT

lemma forall₂_modify {K : LocalId → Prop} {g : LoopFlow → LoopFlow}
    (hg : ∀ f, Grows K f (g f)) (l : List LoopFlow) (k : Nat) :
    List.Forall₂ (Grows K) l (l.modify k g) := by
  induction l generalizing k with
  | nil => simp
  | cons f l ih =>
    cases k with
    | zero => exact .cons (hg f) (forall₂_grows_refl l)
    | succ k => exact .cons (Grows.refl f) (ih k)

lemma mem_modify {g : LoopFlow → LoopFlow} {l : List LoopFlow} {k : Nat} {f : LoopFlow}
    (h : f ∈ l.modify k g) : f ∈ l ∨ ∃ f₀, l[k]? = some f₀ ∧ f = g f₀ := by
  induction l generalizing k with
  | nil => simp at h
  | cons f₁ l ih =>
    cases k with
    | zero =>
      simp only [List.modify_zero_cons, List.mem_cons] at h
      rcases h with rfl | h
      · exact Or.inr ⟨f₁, rfl, rfl⟩
      · exact Or.inl (List.mem_cons_of_mem _ h)
    | succ k =>
      simp only [List.modify_succ_cons, List.mem_cons] at h
      rcases h with rfl | h
      · exact Or.inl List.mem_cons_self
      · exact (ih h).imp (List.mem_cons_of_mem _) id

variable {r : Bool}

/-- An edge to a loop joins its state with those of the other edges to it. -/
lemma frame_analyzeEdge {i : InstId} {breaks : Bool} {k : Nat} {a : Analysis}
    (h : analyzeEdge env rec i breaks k a = .ok (r, a')) (ha : Inv env a) :
    Inv env a' ∧ Frame [] a a' := by
  cases hk : a.loopFlows[k]? with
  | none =>
    obtain ⟨-, rfl⟩ := (analyzeEdge_missing hk).1 h
    exact ⟨ha, .refl _⟩
  | some flow =>
    obtain ⟨plan, a₁, hplan, -, rfl⟩ := (analyzeEdge_ok hk).1 h
    obtain ⟨hi, hf, hact, hreg, -, ht⟩ := frame_cleanupPlan ha
      (fun r hr => List.mem_of_mem_drop (List.mem_reverse.1 hr)) hplan
    have hk₁ : a₁.loopFlows[k]? = some flow := by rw [ht.flows, hk]
    have hflow := hi.flows flow (List.mem_of_getElem? hk₁)
    refine ⟨⟨hi.nodup, hi.states, fun f hf' => ?_, hi.locals, hi.bound, hi.facts⟩, ?_⟩
    · rcases mem_modify hf' with hf' | ⟨f₀, hf₀, rfl⟩
      · exact hi.flows f hf'
      · obtain rfl := Option.some.inj (hf₀.symm.trans hk₁)
        refine ⟨fun j => ?_, fun j T hT => ?_⟩
        · rw [addEdge_localDepth]
          exact hflow.depth j
        · rw [addEdge_edge] at hT
          rw [addEdge_localDepth]
          by_cases hj : j = breaks
          · subst hj
            rw [if_pos rfl] at hT
            obtain rfl := Option.some.inj hT
            exact MapOk.mergeOptional (hflow.edge j) (hi.states.eraseLocals hi.nodup _)
          · rw [if_neg hj] at hT
            exact hflow.edge j T hT
    · have hedge : ∀ x, (a₁.statesAtDepth (flow.localDepth breaks)).has x = true → a₁.Knows x := by
        intro x hx
        rw [statesAtDepth, StateMap.has_eraseLocals, Bool.and_eq_true] at hx
        exact .states hx.2
      have hflows := forall₂_grows_trans hf.flows
        (forall₂_modify (fun f => grows_addEdge hedge breaks f) a₁.loopFlows k) hf.knows
      refine ⟨hf.active, hflows, hf.diagnostics, hf.snapshots, fun x hx => hf.knows x ?_⟩
      cases hx with
      | states hx => exact .states hx
      | registered hr hx => exact .registered hr hx

lemma frame_analyzeReturn {i : InstId} {kind : ReturnKind} {a : Analysis}
    (h : analyzeReturn env rec i kind a = .ok (r, a')) (ha : Inv env a) :
    Inv env a' ∧ Frame [] a a' := by
  obtain ⟨a₀, plan, a₁, h₀, hplan, -, rfl⟩ := analyzeReturn_ok.1 h
  have ht₀ : Touches env [] a a₀ := by
    rcases h₀ with ⟨-, rfl⟩ | ⟨-, rfl⟩
    · exact .refl _
    · exact .of_states (.refl _) (List.prefix_append _ _) rfl rfl rfl rfl rfl rfl
  obtain ⟨hi, hf, -⟩ := frame_cleanupPlan (ht₀.inv ha) (fun r hr => List.mem_reverse.1 hr) hplan
  have hf' := ht₀.frame.trans hf
  refine ⟨hi.of_eq rfl rfl rfl rfl rfl rfl, hf'.active, hf'.flows, hf'.diagnostics, hf'.snapshots,
    fun x hx => ?_⟩
  cases hx with
  | states hx => exact hf'.knows x (.states hx)
  | registered hr hx => exact hf'.knows x (.registered hr hx)

/-! ## Passes over a loop -/

lemma PathOk.self (hb : Inv env before) : PathOk env L before before.states :=
  ⟨hb.states, fun _ hx => Or.inl (.states hx)⟩

lemma PathOk.joinEdge {before : Analysis} {S : StateMap} (h : PathOk env L before S)
    (T : Option StateMap) : PathOk env L before (joinEdge S T) :=
  ⟨h.map.joinEdge, fun x hx => h.known x (by simpa using hx)⟩

/-- The state after some code, as one from which a path starts. -/
lemma PathOk.of_frame {a : Analysis} (ha : Inv env a) (hf : Frame L before a) :
    PathOk env L before a.states := by
  refine ⟨⟨ha.states.shaped, fun l hl => ha.states.has l ?_⟩, fun x hx => hf.knows x (.states hx)⟩
  obtain ⟨rest, hrest⟩ := hf.active
  exact hrest ▸ List.mem_append_left _ hl

lemma JoinOk.joinOptional {S T : Option StateMap} (hS : JoinOk env L before S)
    (hT : JoinOk env L before T) : JoinOk env L before (joinOptional S T) := by
  cases T with
  | none => exact hS
  | some T =>
    rintro U hU
    obtain rfl := Option.some.inj hU
    cases S with
    | none => exact hT T rfl
    | some S => exact (hS S rfl).joinEdge (some T)

/-- The edges to a loop whose body has been analysed. -/
lemma frame_popFlow {flow : LoopFlow} {a : Analysis} (hnone : ∀ k, flow.edge k = none)
    (hi : Inv env a') (hf : Frame L (a.pushFlow flow) a') :
    Inv env a'.popFlow ∧ Frame L a a'.popFlow ∧
      ∀ k S, a'.flow.edge k = some S →
        MapOk env S (a'.activeLocals.take (flow.localDepth k)) ∧
          ∀ x, S.has x = true → a.Knows x ∨ x ∈ L := by
  have hknows : ∀ x, (a.pushFlow flow).Knows x ∨ x ∈ L → a.Knows x ∨ x ∈ L := by
    rintro x (hx | hx)
    · cases hx with
      | states hx => exact Or.inl (.states hx)
      | registered hr hx => exact Or.inl (.registered hr hx)
    · exact Or.inr hx
  obtain ⟨f, rest, hgrow, hrest, heq⟩ := List.forall₂_cons_left_iff.1 hf.flows
  have hflow : a'.flow = f := by simp [Analysis.flow, heq]
  have hmem : f ∈ a'.loopFlows := by simp [heq]
  have htail : List.Forall₂ (Grows fun x => a.Knows x ∨ x ∈ L) a.loopFlows a'.loopFlows.tail := by
    rw [heq]
    exact forall₂_grows_mono hrest hknows
  refine ⟨⟨hi.nodup, hi.states, fun g hg => hi.flows g (List.mem_of_mem_tail hg), hi.locals,
    hi.bound, hi.facts⟩, ⟨hf.active, htail, hf.diagnostics, hf.snapshots, fun x hx => ?_⟩,
    fun k S hS => ?_⟩
  · refine hknows x (hf.knows x ?_)
    cases hx with
    | states hx => exact .states hx
    | registered hr hx => exact .registered hr hx
  · rw [hflow] at hS
    refine ⟨?_, fun x hx => hknows x (hgrow.keys k S (hnone k) hS x hx)⟩
    rw [← hgrow.depth k]
    exact (hi.flows f hmem).edge k S hS

/-- The flow of a loop that is entered. -/
lemma inv_pushFlow {flow : LoopFlow} {a : Analysis} (ha : Inv env a)
    (hnone : ∀ k, flow.edge k = none) (hd : ∀ k, flow.localDepth k ≤ a.activeLocals.length) :
    Inv env (a.pushFlow flow) := by
  refine ⟨ha.nodup, ha.states, fun f hf => ?_, ha.locals, ha.bound, ha.facts⟩
  rcases List.mem_cons.1 hf with rfl | hf
  · exact ⟨hd, fun k S hS => by simp [hnone] at hS⟩
  · exact ha.flows f hf

/-- The header of a loop: the states before it, joined with those of other edges. -/
structure HeaderOk (env : PlaceEnv) (before : Analysis) (S : StateMap) : Prop where
  map : MapOk env S before.activeLocals
  keys : ∀ x, S.has x = true → before.states.has x = true

lemma HeaderOk.self (hb : Inv env before) : HeaderOk env before before.states :=
  ⟨hb.states, fun _ hx => hx⟩

lemma HeaderOk.joinEdge {before : Analysis} {S : StateMap} (h : HeaderOk env before S)
    (T : Option StateMap) : HeaderOk env before (joinEdge S T) :=
  ⟨h.map.joinEdge, fun x hx => h.keys x (by simpa using hx)⟩

/-- A pass over a loop is about to start: nothing is recorded that was not recorded before the
loop. -/
structure PassStart (env : PlaceEnv) (L : List LocalId) (before : Analysis) (header : StateMap)
    (a : Analysis) : Prop where
  header : HeaderOk env before header
  inv : Inv env a
  frame : Frame L before a
  diagnostics : a.diagnostics = before.diagnostics
  snapshots : a.snapshots = before.snapshots

/-- The first pass. -/
lemma PassStart.first (hb : Inv env before) : PassStart env L before before.states before :=
  ⟨.self hb, hb, .refl _, rfl, rfl⟩

/-- The pass after one that did not converge. -/
lemma PassStart.next {before a a' : Analysis} {header next : StateMap}
    (h : PassStart env L before header a) (hi : Inv env a') (hf : Frame L before a')
    (hn : HeaderOk env before next) : PassStart env L before next (a.rollback a') := by
  have hd : (a.rollback a').diagnostics = (before.rollback a').diagnostics := by
    simp only [rollback, h.diagnostics]
  have hs : (a.rollback a').snapshots = (before.rollback a').snapshots := by
    simp only [rollback, h.snapshots]
  have hr := hf.rollback
  refine ⟨hn, hi.of_eq rfl rfl rfl rfl rfl rfl, ⟨hr.active, hr.flows, ?_, ?_, fun x hx => ?_⟩, ?_, ?_⟩
  · rw [hd]
    exact hr.diagnostics
  · rw [hs]
    exact hr.snapshots
  · refine hf.knows x ?_
    cases hx with
    | states hx => exact .states hx
    | registered hr hx => exact .registered hr hx
  · rw [hd, hf.rollback_diagnostics]
  · rw [hs, hf.rollback_snapshots]

variable {header : StateMap}

/-- The start of a pass, as a path from the state before the loop. -/
lemma PassStart.restart {a : Analysis} (hb : Inv env before) (h : PassStart env L before header a) :
    Inv env (a.restart header before.activeLocals before.cleanupRegistrations) ∧
      Frame L before (a.restart header before.activeLocals before.cleanupRegistrations) :=
  ⟨hb.restart h.inv h.frame h.header.map,
    h.frame.restart fun x hx => Or.inl (.states (h.header.keys x hx))⟩

/-- A clause that is analysed from the edges into it. -/
lemma frame_analyzeClause (hrec : RecFrame env rec) (hb : Inv env before) {c : Block}
    (hquiet : ∀ i ∈ c.instructions, i.quiet = true) (hls : ∀ x ∈ mentioned c.instructions, x ∈ L)
    {entry : Option StateMap} {a : Analysis} (h : analyzeClause rec c entry before a = .ok a')
    (ha : Inv env a) (hf : Frame L before a) (hentry : JoinOk env L before entry) :
    Inv env a' ∧ Frame L before a' ∧ Extends a a' := by
  cases entry with
  | none =>
    obtain rfl := analyzeClause_none_ok.1 h
    exact ⟨ha, hf, .refl _⟩
  | some S =>
    obtain ⟨x, h⟩ := analyzeClause_some_ok.1 h
    obtain ⟨hi, hf', -⟩ := hrec h hquiet (hb.restart ha hf (hentry S rfl).map)
    exact ⟨hi, (hf.restart (hentry S rfl).known).trans (hf'.mono hls),
      (extends_restart _ _ _ _).trans hf'.extends⟩

/-- The body of a loop, entered with the given depths after the code before it. The depths are those
of locals that the state before the loop has. -/
lemma frame_loopBody (hrec : RecFrame env rec) {o : Analysis} {b : Block}
    (hquiet : ∀ i ∈ b.instructions, i.quiet = true) (hls : ∀ x ∈ mentioned b.instructions, x ∈ L)
    {m k j : Nat} {a : Analysis}
    (h : rec b true (a.pushFlow ⟨m, o.activeLocals.length, k, j, none, none⟩) = .ok (r, a'))
    (hm : m ≤ o.activeLocals.length) (ha : Inv env a) (hf : Frame L o a) :
    Inv env a'.popFlow ∧ Frame L o a'.popFlow ∧ a'.activeLocals = a.activeLocals ∧
      JoinOk env L o a'.flow.continues ∧
      (∀ S, a'.flow.breaks = some S → MapOk env S (o.activeLocals.take m) ∧
        ∀ x, S.has x = true → o.Knows x ∨ x ∈ L) ∧
      Extends a a'.popFlow := by
  obtain ⟨rest, hrest⟩ := hf.active
  have hlen : o.activeLocals.length ≤ a.activeLocals.length := by
    rw [← hrest, List.length_append]
    exact Nat.le_add_right _ _
  have hnone : ∀ e, (LoopFlow.mk m o.activeLocals.length k j none none).edge e = none := by
    intro e
    cases e <;> rfl
  have hi₀ : Inv env (a.pushFlow ⟨m, o.activeLocals.length, k, j, none, none⟩) := by
    refine inv_pushFlow ha hnone fun e => ?_
    cases e
    · exact hlen
    · exact hm.trans hlen
  obtain ⟨hi, hf', hact⟩ := hrec h hquiet hi₀
  have hact' : a'.activeLocals = a.activeLocals := hact rfl
  obtain ⟨hip, hfp, hedges⟩ := frame_popFlow hnone hi (hf'.mono hls)
  have hfb := hf.trans hfp
  have hknown : ∀ x, a.Knows x ∨ x ∈ L → o.Knows x ∨ x ∈ L := fun x hx =>
    hx.elim (hf.knows x) Or.inr
  have htake : ∀ n, n ≤ o.activeLocals.length →
      a'.activeLocals.take n = o.activeLocals.take n := by
    intro n hn
    rw [hact', ← hrest, List.take_append_of_le_length hn]
  refine ⟨hip, hfb, hact', fun S hS => ?_, fun S hS => ?_, hfp.extends⟩
  · obtain ⟨hmap, hhas⟩ := hedges false S hS
    refine ⟨?_, fun x hx => hknown x (hhas x hx)⟩
    have := htake _ (le_refl o.activeLocals.length)
    rw [List.take_length] at this
    exact this ▸ hmap
  · obtain ⟨hmap, hhas⟩ := hedges true S hS
    exact ⟨htake m hm ▸ hmap, fun x hx => hknown x (hhas x hx)⟩

/-- The edges into the step of a `For` or the condition of a `DoWhile`. -/
lemma joinOk_entry {a : Analysis} (ha : Inv env a.popFlow) (hf : Frame L before a.popFlow)
    (hc : JoinOk env L before a.flow.continues) :
    JoinOk env L before (joinOptional (if r then some a.states else none) a.flow.continues) := by
  refine JoinOk.joinOptional ?_ hc
  cases r with
  | true =>
    rintro U hU
    obtain rfl := Option.some.inj hU
    exact (PathOk.of_frame ha hf : PathOk env L before a.popFlow.states)
  | false => exact JoinOk.none

variable {next : StateMap}

section

variable {c b : Block} {a : Analysis} (hrec : RecFrame env rec) (hb : Inv env before)
  (hc : ∀ i ∈ c.instructions, i.quiet = true) (hbody : ∀ i ∈ b.instructions, i.quiet = true)
  (hlc : ∀ x ∈ mentioned c.instructions, x ∈ L) (hlb : ∀ x ∈ mentioned b.instructions, x ∈ L)
  (hs : PassStart env L before header a)

include hrec hb hc hbody hlc hlb hs

/-- One pass over a `While`. -/
lemma frame_whilePass {out : StateMap}
    (h : whilePass rec c b before header a = .ok (next, out, a')) :
    Inv env a' ∧ Frame L before a' ∧ HeaderOk env before next ∧ PathOk env L before out := by
  obtain ⟨x, a₁, falls, a₂, h₁, h₂, rfl, rfl, rfl⟩ := whilePass_ok.1 h
  obtain ⟨hi, hf⟩ := hs.restart hb
  obtain ⟨hi₁, hf₁, -⟩ := hrec h₁ hc hi
  have hf₁' := hf.trans (hf₁.mono hlc)
  obtain ⟨hi₂, hf₂, -, hcont, -⟩ := frame_loopBody hrec hbody hlb h₂ (le_refl _) hi₁ hf₁'
  refine ⟨hi₂, hf₂, .joinEdge ?_ _, .joinEdge (.of_frame hi₁ hf₁') _⟩
  cases falls with
  | true => exact (HeaderOk.self hb).joinEdge (some a₂.states)
  | false => exact .self hb

/-- One pass over a `DoWhile`. -/
lemma frame_doWhilePass {out : Option StateMap}
    (h : doWhilePass rec c b before header a = .ok (next, out, a')) :
    Inv env a' ∧ Frame L before a' ∧ HeaderOk env before next ∧ JoinOk env L before out := by
  obtain ⟨falls, a₁, h₁, h₂, rfl, rfl⟩ := doWhilePass_ok.1 h
  obtain ⟨hi, hf⟩ := hs.restart hb
  obtain ⟨hi₁, hf₁, -, hcont, hbreaks, -⟩ := frame_loopBody hrec hbody hlb h₁ (le_refl _) hi hf
  have hentry := joinOk_entry (r := falls) hi₁ hf₁ hcont
  obtain ⟨hi₂, hf₂, -⟩ := frame_analyzeClause hrec hb hc hlc h₂ hi₁ hf₁ hentry
  refine ⟨hi₂, hf₂, .joinEdge (.self hb) _, .joinOptional ?_ fun S hS => ?_⟩
  · rintro U hU
    obtain ⟨V, -, rfl⟩ := Option.map_eq_some_iff.1 hU
    exact .of_frame hi₂ hf₂
  · obtain ⟨hmap, hhas⟩ := hbreaks S hS
    exact ⟨by rwa [List.take_length] at hmap, hhas⟩

end

/-- One pass over a `For`. -/
lemma frame_forPass (hrec : RecFrame env rec) (hb : Inv env before) {c p b : Block}
    (hc : ∀ i ∈ c.instructions, i.quiet = true) (hp : ∀ i ∈ p.instructions, i.quiet = true)
    (hbody : ∀ i ∈ b.instructions, i.quiet = true) (hlc : ∀ x ∈ mentioned c.instructions, x ∈ L)
    (hlp : ∀ x ∈ mentioned p.instructions, x ∈ L) (hlb : ∀ x ∈ mentioned b.instructions, x ∈ L)
    {m k : Nat} (hm : m ≤ before.activeLocals.length) {exit : StateMap} {breaks : Option StateMap}
    {a : Analysis} (hs : PassStart env L before header a)
    (h : forPass rec c p b m k before header a = .ok (next, (exit, breaks), a')) :
    Inv env a' ∧ Frame L before a' ∧ HeaderOk env before next ∧ PathOk env L before exit ∧
      ∀ S, breaks = some S → MapOk env S (before.activeLocals.take m) ∧
        ∀ x, S.has x = true → before.Knows x ∨ x ∈ L := by
  obtain ⟨x, a₁, falls, a₂, h₁, h₂, h₃, rfl, rfl, rfl⟩ := forPass_ok.1 h
  obtain ⟨hi, hf⟩ := hs.restart hb
  obtain ⟨hi₁, hf₁, -⟩ := hrec h₁ hc hi
  have hf₁' := hf.trans (hf₁.mono hlc)
  obtain ⟨hi₂, hf₂, -, hcont, hbreaks, -⟩ := frame_loopBody hrec hbody hlb h₂ hm hi₁ hf₁'
  have hentry := joinOk_entry (r := falls) hi₂ hf₂ hcont
  obtain ⟨hi₃, hf₃, -⟩ := frame_analyzeClause hrec hb hp hlp h₃ hi₂ hf₂ hentry
  exact ⟨hi₃, hf₃, .joinEdge (.self hb) _, .of_frame hi₁ hf₁', hbreaks⟩

/-- The passes of a loop end with one that started as a pass does and gave its header back. -/
lemma frame_passes {β : Type} {Q : β → Prop} {before : Analysis} (hb : Inv env before)
    {pass : StateMap → Analysis → Except Stop (StateMap × β × Analysis)}
    (hpass : ∀ {header a next out a'}, PassStart env L before header a →
      pass header a = .ok (next, out, a') →
      Inv env a' ∧ Frame L before a' ∧ HeaderOk env before next ∧ Q out)
    {n : Nat} {out : β} {a' : Analysis} (h : passes pass n before.states before = .ok (out, a')) :
    Inv env a' ∧ Frame L before a' ∧ Q out ∧ ∃ header a next,
      PassStart env L before header a ∧ pass header a = .ok (next, out, a') ∧
        header.same next = true := by
  obtain ⟨header, a, next, hs, hlast, hsame⟩ := passes_induction
    (P := PassStart env L before)
    (fun H a next out a' hP hpass' => by
      obtain ⟨hi, hf, hn, -⟩ := hpass hP hpass'
      exact hP.next hi hf hn) h (.first hb)
  obtain ⟨hi, hf, -, hq⟩ := hpass hs hlast
  exact ⟨hi, hf, hq, header, a, next, hs, hlast, hsame⟩

/-! ## The end of a scope -/

/-- The locals of a scope and what was registered in it go. -/
lemma frame_leave {a : Analysis} (hb : Inv env before) (ha : Inv env a) (hf : Frame L before a)
    {S : StateMap} (hS : PathOk env L before S) {regs : List CleanupRegistration}
    (hregs : ∀ r ∈ regs, r ∈ a.cleanupRegistrations) :
    Inv env (a.restart S before.activeLocals regs) ∧
      Frame L before (a.restart S before.activeLocals regs) := by
  refine ⟨⟨hb.nodup, hS.map, fun f hf' => (ha.flows f hf').restrict hf.active (hf.depth hb hf'),
    fun r hr => ha.locals r (hregs r hr), ha.bound, ha.facts⟩, List.prefix_refl _, hf.flows, hf.diagnostics,
    hf.snapshots, fun x hx => ?_⟩
  cases hx with
  | states hx => exact hS.known x hx
  | registered hr hx => exact hf.knows x (.registered (hregs _ hr) hx)

/-- The facts that are left when the locals of a scope go. -/
lemma pathOk_eraseLocals {a : Analysis} (ha : Inv env a) (hf : Frame L before a) :
    PathOk env L before
      (a.states.eraseLocals (a.activeLocals.drop before.activeLocals.length)) := by
  have hmap := ha.states.eraseLocals ha.nodup before.activeLocals.length
  rw [← List.prefix_iff_eq_take.1 hf.active] at hmap
  refine ⟨hmap, fun x hx => hf.knows x (.states ?_)⟩
  rw [StateMap.has_eraseLocals, Bool.and_eq_true] at hx
  exact hx.2

/-- The end of a lexical scope gives back the locals that were active before it. -/
lemma frame_leaveScope {a : Analysis} {b : Block} {falls : Bool} (hb : Inv env before)
    (ha : Inv env a) (hf : Frame L before a)
    (h : leaveScope env rec b before.activeLocals.length before.cleanupRegistrations.length falls
      a = .ok a') : Inv env a' ∧ Frame L before a' ∧ a'.activeLocals = before.activeLocals := by
  obtain ⟨a₁, hclean, rfl⟩ := leaveScope_ok.1 h
  have hstep : Inv env a₁ ∧ Frame L before a₁ ∧ a₁.activeLocals = a.activeLocals := by
    rcases hclean with ⟨-, plan, a₂, hplan, rfl⟩ | ⟨-, rfl⟩
    · obtain ⟨hi, hf', hact, -⟩ := frame_cleanupPlan ha
        (fun r hr => List.mem_of_mem_drop (List.mem_reverse.1 hr)) hplan
      have ht : Touches env [] a₂ ({ a₂ with
          blockCleanups := (b.id, plan) :: a₂.blockCleanups }.diagnoseUninitializedStorage env
            (a.activeLocals.drop before.activeLocals.length)) :=
        .of_states (.refl _) (List.prefix_append _ _) rfl rfl rfl rfl rfl rfl
      exact ⟨ht.inv hi, hf.trans ((hf'.trans ht.frame).mono (by simp)), hact⟩
    · exact ⟨ha, hf, rfl⟩
  obtain ⟨hi₁, hf₁, hact⟩ := hstep
  have htake : a₁.activeLocals.take before.activeLocals.length = before.activeLocals :=
    (List.prefix_iff_eq_take.1 hf₁.active).symm
  rw [← hact, htake]
  obtain ⟨hi, hf⟩ := frame_leave hb hi₁ hf₁ (pathOk_eraseLocals hi₁ hf₁)
    fun r hr => List.mem_of_mem_take hr
  exact ⟨hi, hf, rfl⟩

/-- The end of a `For`. -/
lemma frame_leaveFor {loop a : Analysis} {i : Block} {exit : StateMap} {breaks : Option StateMap}
    (hb : Inv env before) (hl : Inv env loop) (hbl : Frame L before loop) (ha : Inv env a)
    (hf : Frame L loop a) (hexit : PathOk env L loop exit)
    (h : leaveFor env rec i before loop exit breaks a = .ok a') :
    Inv env a' ∧ Frame L before a' ∧ a'.activeLocals = before.activeLocals := by
  obtain ⟨plan, a₁, hplan, rfl⟩ := leaveFor_ok.1 h
  obtain ⟨hi₁, hf₁, hact, hreg, -⟩ := frame_cleanupPlan
    (hl.restart ha hf hexit.map) (fun r hr => List.mem_of_mem_drop (List.mem_reverse.1 hr)) hplan
  have hactl : a₁.activeLocals = loop.activeLocals := hact
  have hf₁' : Frame L before a₁ :=
    hbl.trans ((hf.restart hexit.known).trans (hf₁.mono (by simp)))
  have ht : Touches env [] a₁ { a₁ with blockCleanups := (i.id, plan) :: a₁.blockCleanups } :=
    .of_states (.refl _) (List.prefix_refl _) rfl rfl rfl rfl rfl rfl
  have htake : a₁.activeLocals.take before.activeLocals.length = before.activeLocals :=
    (List.prefix_iff_eq_take.1 hf₁'.active).symm
  rw [htake, ← hactl]
  obtain ⟨hi, hf⟩ := frame_leave hb (ht.inv hi₁) (hf₁'.trans (ht.frame.mono (by simp)))
    ((pathOk_eraseLocals hi₁ hf₁').joinEdge breaks)
    fun r (hr : r ∈ a₁.cleanupRegistrations.take before.cleanupRegistrations.length) =>
      List.mem_of_mem_take hr
  exact ⟨hi, hf, rfl⟩

/-! ## Instructions and blocks -/

/-- What the analysis of an instruction keeps. -/
theorem frame_analyzeInst (hrec : RecFrame env rec) {fuel : Nat} {i : Inst} {a : Analysis}
    (h : analyzeInst env rec fuel i a = .ok (r, a')) (hi : i.quiet = true)
    (hquiet : ∀ j ∈ i.nested, j.quiet = true) (ha : Inv env a) :
    Inv env a' ∧ Frame (i.locals ++ mentioned i.nested) a a' := by
  have hstraight : ∀ {i : Inst} {b : Analysis}, i.quiet = true → b = transfer env i a → Inv env b ∧ Frame (i.locals ++ mentioned i.nested) a b := by
    rintro i b hne rfl
    have ht : Touches env i.locals a (transfer env i a) := touches_transfer i hne a
    exact ⟨ht.inv ha, ht.frame.mono fun x hx => List.mem_append_left _ hx⟩
  cases i with
  | value v | declareUninitialized id l | parameter id l | bindName id l v | assign id t v
  | extendTemporary id v | unrecoverableFailure id | other id =>
    simp only [analyzeInst, pure_eq_ok, Prod.mk.injEq] at h
    exact hstraight hi h.2.symm
  | endFullExpression id l | defer id d => simp [Inst.quiet] at hi
  | ret id kind v =>
    obtain ⟨hi', hf⟩ := frame_analyzeReturn h ha
    exact ⟨hi', hf.mono (by simp)⟩
  | brk id n | cont id n =>
    obtain ⟨hi', hf⟩ := frame_analyzeEdge h ha
    exact ⟨hi', hf.mono (by simp)⟩
  | scopedBlock id b | taskScope id b =>
    obtain ⟨hi', hf, -⟩ := hrec h hquiet ha
    exact ⟨hi', hf.mono fun x hx => List.mem_append_right _ hx⟩
  | ifInst id c arms =>
    obtain ⟨merged, a₁, harms, -, rfl⟩ := analyzeIf_ok.1 h
    have hm : JoinOk env ((Inst.ifInst id c arms).locals ++ mentioned (Inst.ifInst id c arms).nested)
        a (if arms.length = 1 then some a.states else none) := by
      split
      · rintro U hU
        obtain rfl := Option.some.inj hU
        exact .self ha
      · exact JoinOk.none
    obtain ⟨hi₁, hf₁, hm₁, -⟩ := frame_analyzeIfArms hrec ha hquiet
      (fun x hx => List.mem_append_right _ hx) harms ha (.refl _) hm
    exact frame_afterBranch ha hi₁ hf₁ hm₁
  | switch id v arms =>
    obtain ⟨merged, a₁, harms, -, rfl⟩ := analyzeSwitch_ok.1 h
    obtain ⟨hi₁, hf₁, hm₁, -⟩ := frame_analyzeSwitchArms hrec ha
      (fun x hx => List.mem_append_left _ hx) hi hquiet
      (fun x hx => List.mem_append_right _ hx) harms ha (.refl _) JoinOk.none
    exact frame_afterBranch ha hi₁ hf₁ hm₁
  | whileLoop id c b =>
    simp only [Inst.nested, List.mem_append] at hquiet
    obtain ⟨a₁, h₁, h₂⟩ := bind_eq_ok.1 h
    simp only [pure_eq_ok, Prod.mk.injEq] at h₂
    obtain ⟨-, rfl⟩ := h₂
    obtain ⟨exit, a₂, hpasses, rfl⟩ := analyzeWhile_ok.1 h₁
    obtain ⟨hi₂, hf₂, hq, -⟩ := frame_passes ha (fun hs hpass => frame_whilePass hrec ha
      (fun j hj => hquiet j (Or.inl hj)) (fun j hj => hquiet j (Or.inr hj))
      (L := (Inst.whileLoop id c b).locals ++ mentioned (Inst.whileLoop id c b).nested)
      (fun x hx => by simp only [Inst.nested, mentioned_append, List.mem_append]; tauto)
      (fun x hx => by simp only [Inst.nested, mentioned_append, List.mem_append]; tauto)
      hs hpass) hpasses
    exact ⟨ha.restart hi₂ hf₂ hq.map, hf₂.restart hq.known⟩
  | doWhile id c b =>
    simp only [Inst.nested, List.mem_append] at hquiet
    obtain ⟨exit, a₂, hpasses, -, rfl⟩ := analyzeDoWhile_ok.1 h
    obtain ⟨hi₂, hf₂, hq, -⟩ := frame_passes ha (fun hs hpass => frame_doWhilePass hrec ha
      (fun j hj => hquiet j (Or.inr hj)) (fun j hj => hquiet j (Or.inl hj))
      (L := (Inst.doWhile id c b).locals ++ mentioned (Inst.doWhile id c b).nested)
      (fun x hx => by simp only [Inst.nested, mentioned_append, List.mem_append]; tauto)
      (fun x hx => by simp only [Inst.nested, mentioned_append, List.mem_append]; tauto)
      hs hpass) hpasses
    exact frame_afterBranch ha hi₂ hf₂ hq
  | forLoop id init c p b =>
    simp only [Inst.nested, List.mem_append] at hquiet
    obtain ⟨a₀, h₀, h₃⟩ := bind_eq_ok.1 h
    simp only [pure_eq_ok, Prod.mk.injEq] at h₃
    obtain ⟨-, rfl⟩ := h₃
    obtain ⟨x, a₁, exit, breaks, a₂, h₁, h₂, h₃⟩ := analyzeFor_ok.1 h₀
    obtain ⟨hi₁, hf₁, -⟩ := hrec h₁ (fun j hj => hquiet j (Or.inl hj)) ha
    have hf₁' : Frame ((Inst.forLoop id init c p b).locals ++
        mentioned (Inst.forLoop id init c p b).nested) a a₁ := hf₁.mono fun x hx => by
      simp only [Inst.nested, mentioned_append, List.mem_append]
      tauto
    have hlen : a.activeLocals.length ≤ a₁.activeLocals.length := hf₁.active.length_le
    obtain ⟨hi₂, hf₂, hq, -⟩ := frame_passes hi₁ (Q := fun out => PathOk env
        ((Inst.forLoop id init c p b).locals ++ mentioned (Inst.forLoop id init c p b).nested) a₁
        out.1)
      (fun {header a next out a'} hs hpass => by
        obtain ⟨exit, breaks⟩ := out
        obtain ⟨hi, hf, hn, he, -⟩ := frame_forPass hrec hi₁
          (fun j hj => hquiet j (Or.inr (Or.inl hj)))
          (fun j hj => hquiet j (Or.inr (Or.inr (Or.inr hj))))
          (fun j hj => hquiet j (Or.inr (Or.inr (Or.inl hj))))
          (L := (Inst.forLoop id init c p b).locals ++
            mentioned (Inst.forLoop id init c p b).nested)
          (fun x hx => by simp only [Inst.nested, mentioned_append, List.mem_append]; tauto)
          (fun x hx => by simp only [Inst.nested, mentioned_append, List.mem_append]; tauto)
          (fun x hx => by simp only [Inst.nested, mentioned_append, List.mem_append]; tauto)
          hlen hs hpass
        exact ⟨hi, hf, hn, he⟩) h₂
    obtain ⟨hi₃, hf₃, -⟩ := frame_leaveFor ha hi₁ hf₁' hi₂ hf₂ hq h₃
    exact ⟨hi₃, hf₃⟩

/-- The state in which an instruction is reached is recorded. -/
lemma frame_snapshot {i : InstId} {a : Analysis} (ha : Inv env a) :
    Inv env (a.snapshot i) ∧ Frame L a (a.snapshot i) := by
  refine ⟨ha.of_eq rfl rfl rfl rfl rfl rfl, List.prefix_refl _, forall₂_grows_refl _, List.prefix_refl _,
    List.prefix_append _ _, fun x hx => Or.inl ?_⟩
  cases hx with
  | states hx => exact .states hx
  | registered hr hx => exact .registered hr hx

lemma frame_analyzeInsts (hrec : RecFrame env rec) {admits : Inst → Analysis → Bool} {fuel : Nat}
    {l : List Inst} {a : Analysis} (h : analyzeInsts env admits rec fuel l a = .ok (r, a'))
    (hquiet : ∀ i ∈ instsInstructions l, i.quiet = true) (ha : Inv env a) :
    Inv env a' ∧ Frame (mentioned (instsInstructions l)) a a' := by
  induction l generalizing a with
  | nil =>
    obtain ⟨-, rfl⟩ := analyzeInsts_nil_ok.1 h
    exact ⟨ha, .refl _⟩
  | cons i l ih =>
    simp only [instsInstructions, List.mem_cons, List.mem_append] at hquiet
    obtain ⟨-, falls, a₁, h₁, h₂⟩ := analyzeInsts_cons_ok.1 h
    obtain ⟨his, hfs⟩ := frame_snapshot (L := mentioned (instsInstructions (i :: l)))
      (i := i.id) ha
    obtain ⟨hi₁, hf₁⟩ := frame_analyzeInst hrec h₁ (hquiet i (Or.inl rfl))
      (fun j hj => hquiet j (Or.inr (Or.inl hj))) his
    have hf₁' := hfs.trans (hf₁.mono fun x hx => by
      simp only [instsInstructions, mentioned_cons, mentioned_append, List.mem_append] at hx ⊢
      tauto)
    rcases h₂ with ⟨-, h₂⟩ | ⟨-, -, rfl⟩
    · obtain ⟨hi₂, hf₂⟩ := ih h₂ (fun j hj => hquiet j (Or.inr (Or.inr hj))) hi₁
      refine ⟨hi₂, hf₁'.trans (hf₂.mono fun x hx => ?_)⟩
      simp only [instsInstructions, mentioned_cons, mentioned_append, List.mem_append]
      tauto
    · exact ⟨hi₁, hf₁'⟩

/-- **The frame of the analysis.** The analysis of a block keeps the invariant of the analyzer and
only adds to what was there before it. -/
theorem frame_analyzeBlock (admits : Inst → Analysis → Bool) (n : Nat) :
    RecFrame env (analyzeBlock env admits n) := by
  induction n with
  | zero => exact fun h => absurd h analyzeBlock_zero_ne_ok
  | succ n ih =>
    intro b lexical a a' r h hquiet ha
    obtain ⟨a₁, h₁, h₂⟩ := analyzeBlockWith_ok.1 h
    rw [Block.instructions_eq] at hquiet ⊢
    obtain ⟨hi₁, hf₁⟩ := frame_analyzeInsts ih h₁ hquiet ha
    rcases h₂ with ⟨rfl, hleave⟩ | ⟨rfl, rfl⟩
    · obtain ⟨hi, hf, hact⟩ := frame_leaveScope ha hi₁ hf₁ hleave
      exact ⟨hi, hf, fun _ => hact⟩
    · exact ⟨hi₁, hf₁, fun h => by simp at h⟩

end

end Chtholly
