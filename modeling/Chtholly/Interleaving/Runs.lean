import Mathlib.Algebra.BigOperators.Group.List.Basic

/-!
# Runs of an interleaved system

The threads of a program take turns: an action is one atomic step of one of them, and a run is a
list of actions.  `step` says what an action does to the state of the whole system, and is `none`
where the action cannot be taken.

## Main definitions

* `Interleaving.run` — the state after a list of actions.
* `Interleaving.Reachable` — the states that some run ends in.

## Main results

* `Interleaving.Reachable.induction` — what holds at the start and is kept by each action holds
  in every reachable state.
* `Interleaving.sum_map_set` — a sum over the parties of a system, after one party has moved.
-/

set_option autoImplicit false

namespace Interleaving

variable {S A : Type}

/-- The state after the actions `as`, if each of them can be taken in its turn. -/
def run (step : S → A → Option S) : S → List A → Option S
  | s, [] => some s
  | s, a :: as => (step s a).bind fun s' => run step s' as

/-- Some run from `init` ends in `s`. -/
def Reachable (step : S → A → Option S) (init s : S) : Prop :=
  ∃ as, run step init as = some s

variable {step : S → A → Option S} {init s s' : S} {a : A}

lemma run_append (as bs : List A) (s : S) :
    run step s (as ++ bs) = (run step s as).bind fun s' => run step s' bs := by
  induction as generalizing s with
  | nil => rfl
  | cons a as ih =>
    rw [List.cons_append, run, run]
    cases step s a with
    | none => rfl
    | some s' => exact ih s'

lemma Reachable.refl : Reachable step init init := ⟨[], rfl⟩

lemma Reachable.tail (h : Reachable step init s) (ha : step s a = some s') :
    Reachable step init s' := by
  obtain ⟨as, has⟩ := h
  refine ⟨as ++ [a], ?_⟩
  rw [run_append, has]
  show (step s a).bind (fun s' => run step s' []) = some s'
  rw [ha]
  rfl

/-- What each action keeps, a run keeps. -/
lemma run_induction {motive : S → Prop}
    (hstep : ∀ s a s', motive s → step s a = some s' → motive s') :
    ∀ (as : List A) (s s' : S), motive s → run step s as = some s' → motive s'
  | [], s, s', h, hrun => by
    rw [run, Option.some.injEq] at hrun
    exact hrun ▸ h
  | a :: as, s, s', h, hrun => by
    obtain ⟨t, ht, hrun⟩ := Option.bind_eq_some_iff.1 hrun
    exact run_induction hstep as t s' (hstep s a t h ht) hrun

/-- **The invariant rule.** -/
theorem Reachable.induction {motive : S → Prop} (h : Reachable step init s) (hinit : motive init)
    (hstep : ∀ s a s', motive s → step s a = some s' → motive s') : motive s := by
  obtain ⟨as, has⟩ := h
  exact run_induction hstep as init s hinit has

/-! ## Sums over the parties -/

/-- When the party `k` moves from `x` to `y`, a sum over all parties changes by what these two
contribute. -/
lemma sum_map_set {α M : Type} [AddCommMonoid M] (f : α → M) {l : List α} {k : ℕ} {x y : α}
    (h : l[k]? = some x) : ((l.set k y).map f).sum + f x = (l.map f).sum + f y := by
  induction l generalizing k with
  | nil => simp at h
  | cons z l ih =>
    cases k with
    | zero =>
      rw [List.getElem?_cons_zero, Option.some.injEq] at h
      subst h
      simp only [List.set_cons_zero, List.map_cons, List.sum_cons]
      rw [add_comm (f y), add_right_comm, add_comm _ (f z)]
    | succ k =>
      rw [List.getElem?_cons_succ] at h
      simp only [List.set_cons_succ, List.map_cons, List.sum_cons]
      rw [add_assoc, ih h, add_assoc]

end Interleaving
