import Mathlib.Logic.Relation
import Mathlib.Order.Basic

/-!
# Traversals of a graph whose nodes are loaded

A graph is given by names, and the edges of a name are known once the name is loaded.  Two
depth-first traversals go along the edges: one marks a name before it looks at the edges, the other
settles a name after all its edges and refuses a cycle.  Both stop at the first name that does not
load, and both carry a bound on the depth of the recursion.

## Main definitions

* `Tracing.ClosedFrom` — every name that is reached from given roots is present.
* `Tracing.mark` — the traversal that marks first.
* `Tracing.Tracer`, `Tracing.trace` — the traversal that settles last, with a state.

## Main results

* `Tracing.closedFrom_of_kept`, `Tracing.ClosedFrom.transport` — what keeps the reachable names
  keeps closedness.
* `Tracing.closedFrom_of_set` — a set of present names that edges do not leave is closed.
* `Tracing.foldlM_rule` — the rule for invariants of a fold that may fail.
* `Tracing.mark_spec` — the marked names lead to marked names.
* `Tracing.trace_rule` — the rule for invariants of the second traversal.
-/

set_option autoImplicit false

namespace Chtholly

namespace Tracing

variable {N : Type}

/-! ## Closed sets of names -/

/-- The names that are reached from a name. -/
def Reaches (edges : N → List N) : N → N → Prop :=
  Relation.ReflTransGen fun a b => b ∈ edges a

/-- Every name that is reached from the roots is present. -/
def ClosedFrom (edges : N → List N) (present : N → Prop) (roots : N → Prop) : Prop :=
  ∀ root, roots root → ∀ name, Reaches edges root name → present name

variable {edges edges' : N → List N} {present present' roots roots' : N → Prop}

lemma ClosedFrom.mono (h : ClosedFrom edges present roots) (hroots : ∀ n, roots' n → roots n) :
    ClosedFrom edges present roots' :=
  fun root hroot name hreach => h root (hroots root hroot) name hreach

lemma ClosedFrom.union (h : ClosedFrom edges present roots)
    (h' : ClosedFrom edges present roots') :
    ClosedFrom edges present fun n => roots n ∨ roots' n := by
  intro root hroot name hreach
  rcases hroot with hroot | hroot
  · exact h root hroot name hreach
  · exact h' root hroot name hreach

lemma reaches_mem {S : N → Prop} (hedges : ∀ n, S n → ∀ m ∈ edges n, S m) {root name : N}
    (hroot : S root) (hreach : Reaches edges root name) : S name := by
  induction hreach with
  | refl => exact hroot
  | tail _ hedge ih => exact hedges _ ih _ hedge

/-- A set of present names that edges do not leave is closed. -/
theorem closedFrom_of_set (S : N → Prop) (hpresent : ∀ n, S n → present n)
    (hedges : ∀ n, S n → ∀ m ∈ edges n, S m) : ClosedFrom edges present S :=
  fun _ hroot name hreach => hpresent name (reaches_mem hedges hroot hreach)

/-- What keeps every reachable name, and gives it no new edge, keeps closedness. -/
theorem closedFrom_of_kept
    (hkeep : ∀ root, roots root → ∀ n, Reaches edges root n →
      present' n ∧ ∀ m ∈ edges' n, m ∈ edges n) :
    ClosedFrom edges' present' roots := by
  intro root hroot name hreach
  have hold : Reaches edges root name := by
    induction hreach with
    | refl => exact .refl
    | tail _ hedge ih => exact ih.tail ((hkeep root hroot _ ih).2 _ hedge)
  exact (hkeep root hroot name hold).1

/-- What keeps every present name keeps closedness. -/
theorem ClosedFrom.transport (h : ClosedFrom edges present roots)
    (hkeep : ∀ n, present n → present' n ∧ ∀ m ∈ edges' n, m ∈ edges n) :
    ClosedFrom edges' present' roots :=
  closedFrom_of_kept fun root hroot n hreach => hkeep n (h root hroot n hreach)

/-! ## Folds that may fail -/

/-- An invariant of a fold, an order in which its state grows, and what is known of an element once
it has been visited. -/
lemma foldlM_rule {α σ ε : Type} {visit : σ → α → Except ε σ} {Inv : σ → Prop}
    {Grows : σ → σ → Prop} {Done : α → σ → Prop}
    (hvisit : ∀ s a t, Inv s → visit s a = .ok t → Inv t ∧ Grows s t ∧ Done a t)
    (hrefl : ∀ s, Grows s s) (htrans : ∀ s t u, Grows s t → Grows t u → Grows s u)
    (hmono : ∀ a s t, Grows s t → Done a s → Done a t)
    {elements : List α} {s t : σ} (hinv : Inv s) (h : elements.foldlM visit s = .ok t) :
    Inv t ∧ Grows s t ∧ ∀ a ∈ elements, Done a t := by
  induction elements generalizing s with
  | nil =>
    obtain rfl := Except.ok.inj h
    exact ⟨hinv, hrefl _, fun a ha => absurd ha List.not_mem_nil⟩
  | cons first elements ih =>
    rw [List.foldlM_cons] at h
    cases hfirst : visit s first with
    | error message =>
      rw [hfirst] at h
      cases h
    | ok next =>
      rw [hfirst] at h
      obtain ⟨hnext, hgrow, hdone⟩ := hvisit _ _ _ hinv hfirst
      obtain ⟨hlast, hrest, hall⟩ := ih hnext h
      refine ⟨hlast, htrans _ _ _ hgrow hrest, fun a ha => ?_⟩
      rcases List.mem_cons.mp ha with rfl | ha
      · exact hmono _ _ _ hrest hdone
      · exact hall a ha

/-! ## Marking first -/

section Mark

variable {ε : Type} (load : N → Except ε (List N)) (tooDeep : ε)

/-- Marks a name, then what its edges lead to. -/
def mark [DecidableEq N] : ℕ → List N → N → Except ε (List N)
  | 0, _, _ => .error tooDeep
  | depth + 1, marked, name =>
    if name ∈ marked then .ok marked
    else
      match load name with
      | .error message => .error message
      | .ok next => next.foldlM (mark depth) (name :: marked)

variable {load tooDeep}

/-- What is newly marked has loaded, and leads to marked names. -/
def NewlyClosed (load : N → Except ε (List N)) (marked marked' : List N) : Prop :=
  marked ⊆ marked' ∧ ∀ n ∈ marked', n ∉ marked → ∃ next, load n = .ok next ∧ next ⊆ marked'

lemma NewlyClosed.refl (marked : List N) : NewlyClosed load marked marked :=
  ⟨List.Subset.refl _, fun _ hmem hnew => absurd hmem hnew⟩

lemma NewlyClosed.trans {a b c : List N} (hab : NewlyClosed load a b)
    (hbc : NewlyClosed load b c) : NewlyClosed load a c := by
  refine ⟨List.Subset.trans hab.1 hbc.1, fun n hmem hnew => ?_⟩
  by_cases hn : n ∈ b
  · obtain ⟨next, hload, hnext⟩ := hab.2 n hn hnew
    exact ⟨next, hload, List.Subset.trans hnext hbc.1⟩
  · exact hbc.2 n hmem hn

/-- The marked names lead to marked names. -/
theorem mark_spec [DecidableEq N] {depth : ℕ} {marked marked' : List N} {name : N}
    (h : mark load tooDeep depth marked name = .ok marked') :
    NewlyClosed load marked marked' ∧ name ∈ marked' := by
  induction depth generalizing marked name marked' with
  | zero => cases h
  | succ depth ih =>
    unfold mark at h
    split at h
    · rename_i hmem
      obtain rfl := Except.ok.inj h
      exact ⟨.refl _, hmem⟩
    · rename_i hnew
      split at h
      · cases h
      · rename_i next hload
        have hvisit : ∀ s n t, True → mark load tooDeep depth s n = .ok t →
            True ∧ NewlyClosed load s t ∧ n ∈ t := fun _ _ _ _ hmark => ⟨trivial, ih hmark⟩
        obtain ⟨-, hclosed, hnext⟩ := foldlM_rule hvisit NewlyClosed.refl
          (fun _ _ _ => NewlyClosed.trans) (fun _ _ _ hgrow hmem => hgrow.1 hmem) trivial h
        have hsub : marked ⊆ marked' := fun n hn => hclosed.1 (.tail _ hn)
        refine ⟨⟨hsub, fun n hmem hold => ?_⟩, hclosed.1 (.head _)⟩
        by_cases hn : n = name
        · subst hn
          exact ⟨next, hload, hnext⟩
        · exact hclosed.2 n hmem fun hcons => (List.mem_cons.mp hcons).elim hn hold

end Mark

/-! ## Settling last -/

/-- A traversal that settles a name after its edges.  The state says which names are settled;
`enter` loads a name and gives its edges, `leave` settles it. -/
structure Tracer (N σ ε : Type) where
  settled : σ → N → Bool
  enter : σ → N → Except ε (List N × σ)
  leave : σ → N → Except ε σ
  cycle : ε
  tooDeep : ε

section Trace

variable {σ ε : Type}

def trace [DecidableEq N] (tracer : Tracer N σ ε) : ℕ → List N → σ → N → Except ε σ
  | 0, _, _, _ => .error tracer.tooDeep
  | depth + 1, visiting, state, name =>
    if tracer.settled state name then .ok state
    else if name ∈ visiting then .error tracer.cycle
    else
      match tracer.enter state name with
      | .error message => .error message
      | .ok (next, state) =>
        match next.foldlM (trace tracer depth (name :: visiting)) state with
        | .error message => .error message
        | .ok state => tracer.leave state name

/-- What has to be shown of a tracer: an invariant of the state, an order in which the state grows,
what is known of a name between `enter` and `leave`, and what is known of a settled name. -/
structure Tracer.Rule (tracer : Tracer N σ ε) (Inv : σ → Prop) (Grows : σ → σ → Prop)
    (Entered : N → List N → σ → Prop) (Settled : N → σ → Prop) : Prop where
  refl : ∀ s, Grows s s
  trans : ∀ s t u, Grows s t → Grows t u → Grows s u
  entered_mono : ∀ n next s t, Grows s t → Entered n next s → Entered n next t
  settled_mono : ∀ n s t, Grows s t → Settled n s → Settled n t
  settled : ∀ n s, Inv s → tracer.settled s n = true → Settled n s
  enter : ∀ n s next t, Inv s → tracer.enter s n = .ok (next, t) →
    Inv t ∧ Grows s t ∧ Entered n next t
  leave : ∀ n next s t, Inv s → Entered n next s → (∀ m ∈ next, Settled m s) →
    tracer.leave s n = .ok t → Inv t ∧ Grows s t ∧ Settled n t

variable {tracer : Tracer N σ ε} {Inv : σ → Prop} {Grows : σ → σ → Prop}
  {Entered : N → List N → σ → Prop} {Settled : N → σ → Prop}

/-- The rule for invariants: the induction is on the depth, along the edges by `foldlM`. -/
theorem trace_rule [DecidableEq N] (rule : tracer.Rule Inv Grows Entered Settled) {depth : ℕ}
    {visiting : List N} {s t : σ} {name : N} (hinv : Inv s) (h : trace tracer depth visiting s name = .ok t) :
    Inv t ∧ Grows s t ∧ Settled name t := by
  induction depth generalizing visiting s t name with
  | zero => cases h
  | succ depth ih =>
    unfold trace at h
    split at h
    · rename_i hsettled
      obtain rfl := Except.ok.inj h
      exact ⟨hinv, rule.refl _, rule.settled _ _ hinv hsettled⟩
    · split at h
      · cases h
      · split at h
        · cases h
        · rename_i next entered henter
          obtain ⟨hinv', hgrow, hentered⟩ := rule.enter _ _ _ _ hinv henter
          split at h
          · cases h
          · rename_i inner hinner
            have hvisit : ∀ s n t, Inv s → trace tracer depth (name :: visiting) s n = .ok t →
                Inv t ∧ Grows s t ∧ Settled n t := fun _ _ _ hs htrace => ih hs htrace
            obtain ⟨hinv'', hgrow', hall⟩ :=
              foldlM_rule hvisit rule.refl rule.trans rule.settled_mono hinv' hinner
            obtain ⟨hlast, hgrow'', hsettled⟩ := rule.leave _ _ _ _ hinv''
              (rule.entered_mono _ _ _ _ hgrow' hentered) hall h
            exact ⟨hlast, rule.trans _ _ _ hgrow (rule.trans _ _ _ hgrow' hgrow''), hsettled⟩

end Trace

end Tracing

end Chtholly
