import Mathlib.Data.Finset.Card
import Mathlib.Data.Fintype.Basic
import Mathlib.Data.Fintype.EquivFin
import Mathlib.Order.WellFounded
import Mathlib.Logic.Relation

/-!
# Counting down dependencies

A node of a graph can be handled when all that it depends on is done.  Instead of looking at the
dependencies again and again, a scheduler counts for each node how many are missing, and counts down
when one of them is done.

## Main definitions

* `Countdown.missing` — the number of dependencies that are not done.
* `Countdown.Acyclic` — no node depends on itself through others.

## Main results

* `Countdown.missing_insert` — what one more node that is done changes.
* `Countdown.Acyclic.exists_free` — without cycles, there is a next node as long as some are left.
-/

set_option autoImplicit false

namespace Chtholly

namespace Countdown

variable {α : Type} {deps : α → List α}

/-- One node depends on another. -/
def DependsOn (deps : α → List α) (a b : α) : Prop := b ∈ deps a

/-- No node depends on itself through others. -/
def Acyclic (deps : α → List α) : Prop := ∀ a, ¬Relation.TransGen (DependsOn deps) a a

/-- A node is on no cycle when nothing that it depends on is. -/
lemma not_transGen_of_deps {a : α}
    (h : ∀ b ∈ deps a, ¬Relation.TransGen (DependsOn deps) b b) :
    ¬Relation.TransGen (DependsOn deps) a a := by
  intro hcycle
  obtain ⟨b, hab, hba⟩ := Relation.TransGen.head'_iff.1 hcycle
  exact h b hab (Relation.TransGen.tail'_iff.2 ⟨a, hba, hab⟩)

/-- Without cycles, there is a next node as long as some are left. -/
theorem Acyclic.exists_free (h : Acyclic deps) {rest : Finset α} (hne : rest.Nonempty) :
    ∃ a ∈ rest, ∀ b ∈ deps a, b ∉ rest := by
  have htrans : IsTrans rest fun b a => Relation.TransGen (DependsOn deps) a.1 b.1 :=
    ⟨fun _ _ _ hab hbc => hbc.trans hab⟩
  have hirrefl : Std.Irrefl fun b a : rest => Relation.TransGen (DependsOn deps) a.1 b.1 :=
    ⟨fun a ha => h a.1 ha⟩
  have hwf := Finite.wellFounded_of_trans_of_irrefl
    fun b a : rest => Relation.TransGen (DependsOn deps) a.1 b.1
  obtain ⟨first, hfirst⟩ := hne
  obtain ⟨⟨a, ha⟩, -, hleast⟩ := hwf.has_min Set.univ ⟨⟨first, hfirst⟩, trivial⟩
  refine ⟨a, ha, fun b hab hb => ?_⟩
  exact hleast ⟨b, hb⟩ trivial (.single hab)

variable [DecidableEq α]

/-- The number of dependencies that are not done. -/
def missing (deps : α → List α) (done : Finset α) (a : α) : ℕ :=
  (deps a).countP fun b => decide (b ∉ done)

lemma missing_eq_zero_iff {done : Finset α} {a : α} :
    missing deps done a = 0 ↔ ∀ b ∈ deps a, b ∈ done := by
  simp [missing, List.countP_eq_zero]

lemma missing_empty (a : α) : missing deps ∅ a = (deps a).length := by
  simp [missing]

/-- One more node that is done is missing no longer where it was a dependency. -/
theorem missing_insert {done : Finset α} {a b : α} (hnodup : (deps a).Nodup) (hb : b ∉ done) :
    missing deps done a =
      missing deps (insert b done) a + if b ∈ deps a then 1 else 0 := by
  have hsplit : ∀ all : List α, all.Nodup →
      (all.countP fun c => decide (c ∉ done)) =
        (all.countP fun c => decide (c ∉ insert b done)) + if b ∈ all then 1 else 0 := by
    intro all hall
    induction all with
    | nil => rfl
    | cons c all ih =>
      obtain ⟨hc, hall⟩ := List.nodup_cons.1 hall
      rw [List.countP_cons, List.countP_cons, ih hall]
      by_cases hcb : c = b
      · subst hcb
        simp [hb, hc]
      · have hbc : b ≠ c := Ne.symm hcb
        simp only [Finset.mem_insert, hcb, false_or, List.mem_cons, hbc]
        omega
  exact hsplit (deps a) hnodup

end Countdown

end Chtholly
