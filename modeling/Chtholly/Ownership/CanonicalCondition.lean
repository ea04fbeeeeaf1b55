import Mathlib.Data.Prod.Lex
import Mathlib.Order.Lattice
import Chtholly.NormalForm.Minimal
import Chtholly.Ownership.Contradiction

/-!
# Canonical conditions

Canonicalisation sorts the atoms of every clause and the clauses, drops what contradicts itself and
what another clause subsumes.  Done twice it does no more than done once, so that a condition can be
checked for being canonical by canonicalising it again.

## Main definitions

* `Chtholly.CallableConditionDescriptor.key` — what conditions are sorted by.

## Main results

* `Chtholly.canonicalize_canonicalize` — a fixed point after one pass.
* `Chtholly.canonicalize_conditionOr`, `Chtholly.conditionOr_ne_never` — what a disjunction is.
-/

set_option autoImplicit false

namespace Chtholly

open CallableConditionDescriptor
open NormalForm (sortBy)

/-! ## The order of clauses -/

/-- The fields of an atom, in the order in which they are compared. -/
def CallableConditionAtom.key (a : CallableConditionAtom) : ℕ ×ₗ Bool ×ₗ ℕ :=
  toLex (a.parameterIndex, toLex (a.expected, a.variant))

def CallableConditionClause.key (clause : CallableConditionClause) : List (ℕ ×ₗ Bool ×ₗ ℕ) :=
  clause.atoms.map CallableConditionAtom.key

def CallableConditionDescriptor.key (c : CallableConditionDescriptor) :
    List (List (ℕ ×ₗ Bool ×ₗ ℕ)) :=
  c.clauses.map CallableConditionClause.key

lemma CallableConditionAtom.key_injective : Function.Injective CallableConditionAtom.key := by
  rintro ⟨p, e, v⟩ ⟨q, f, w⟩ h
  simpa [CallableConditionAtom.key] using h

lemma CallableConditionClause.key_injective : Function.Injective CallableConditionClause.key := by
  rintro ⟨atoms⟩ ⟨others⟩ h
  exact congrArg CallableConditionClause.mk
    (List.map_injective_iff.2 CallableConditionAtom.key_injective h)

lemma CallableConditionDescriptor.ext_key {c d : CallableConditionDescriptor}
    (hexact : c.exact = d.exact) (h : c.key = d.key) : c = d := by
  obtain ⟨clauses, exact⟩ := c
  obtain ⟨others, exact'⟩ := d
  dsimp only at hexact
  subst hexact
  exact congrArg (CallableConditionDescriptor.mk · exact)
    (List.map_injective_iff.2 CallableConditionClause.key_injective h)

lemma CallableConditionDescriptor.eq_of_key {c d : CallableConditionDescriptor}
    (hc : c.exact = true) (hd : d.exact = true) (h : c.key = d.key) : c = d :=
  ext_key (hc.trans hd.symm) h

lemma CallableConditionAtom.le_iff_key (a b : CallableConditionAtom) :
    a.le b = true ↔ a.key ≤ b.key := by
  obtain ⟨p, e, v⟩ := a
  obtain ⟨q, f, w⟩ := b
  simp only [le, key, Prod.Lex.toLex_le_toLex, Bool.or_eq_true, Bool.and_eq_true,
    decide_eq_true_eq, beq_iff_eq, Bool.not_eq_true', Bool.lt_iff]

lemma atomsLe_iff_key (as bs : List CallableConditionAtom) :
    atomsLe as bs = true ↔ as.map CallableConditionAtom.key ≤ bs.map CallableConditionAtom.key := by
  induction as generalizing bs with
  | nil => simp [atomsLe, NormalForm.nil_le]
  | cons a as ih =>
    cases bs with
    | nil => simp [atomsLe, NormalForm.not_cons_le_nil]
    | cons b bs =>
      rw [atomsLe, List.map_cons, List.map_cons, NormalForm.cons_le_cons_iff]
      split
      · rename_i heq
        subst heq
        simp [ih]
      · rename_i hne
        have hkey : a.key ≠ b.key := fun h => hne (CallableConditionAtom.key_injective h)
        simp [CallableConditionAtom.le_iff_key, hkey, le_iff_lt_or_eq]

lemma CallableConditionClause.le_iff_key (a b : CallableConditionClause) :
    a.le b = true ↔ a.key ≤ b.key :=
  atomsLe_iff_key a.atoms b.atoms

lemma insertionSort_clauses (clauses : List CallableConditionClause) :
    (clauses.insertionSort fun a b => a.le b = true) =
      sortBy CallableConditionClause.key clauses := by
  simp only [sortBy, CallableConditionClause.le_iff_key]

/-! ## Lists without repetitions -/

lemma adjacentUnique_eq_self {α : Type} [DecidableEq α] {entries : List α} (h : entries.Nodup) :
    adjacentUnique entries = entries := by
  induction entries using adjacentUnique.induct with
  | case1 => rfl
  | case2 a => rfl
  | case3 a rest ih => simp at h
  | case4 a b rest hne ih =>
    rw [adjacentUnique, if_neg hne, ih (List.nodup_cons.1 h).2]

/-- A clause that is sorted once is sorted. -/
lemma sortClause_sortClause (clause : CallableConditionClause) :
    sortClause (sortClause clause) = sortClause clause := by
  have hpairwise := pairwise_sortClause clause
  have hsorted : (sortClause clause).atoms.insertionSort (fun a b => a.le b = true) =
      (sortClause clause).atoms := (hpairwise.imp And.left).insertionSort_eq
  have hnodup : (sortClause clause).atoms.Nodup := hpairwise.imp And.right
  rw [sortClause, hsorted, adjacentUnique_eq_self hnodup]

/-! ## Canonicalisation -/

lemma clauseSubsumes_refl (clause : CallableConditionClause) : clauseSubsumes clause clause = true := by
  simp [clauseSubsumes]

lemma foldl_keepMinimal (clauses : List CallableConditionClause) :
    clauses.foldl CallableConditionDescriptor.keepMinimal [] =
      NormalForm.minimize clauseSubsumes CallableConditionClause.key clauses := by
  have hstep : CallableConditionDescriptor.keepMinimal =
      NormalForm.keepMinimal clauseSubsumes CallableConditionClause.key := by
    funext minimal clause
    simp only [CallableConditionDescriptor.keepMinimal, NormalForm.keepMinimal, insertionSort_clauses]
  rw [hstep, NormalForm.minimize]

/-- A canonical condition within the limits: its clauses are the minimal ones of those kept. -/
lemma canonicalize_cases (c : CallableConditionDescriptor) :
    c.canonicalize = unknown ∨ c.canonicalize = always ∨
      (∀ clause ∈ keptClauses c, clause.atoms ≠ [] ∧
          clause.atoms.length ≤ maxConditionAtomsPerClause) ∧
        (keptClauses c).length ≤ maxConditionClauses ∧
        c.canonicalize = ⟨NormalForm.minimize clauseSubsumes CallableConditionClause.key
          (adjacentUnique (sortBy CallableConditionClause.key (keptClauses c))), true⟩ := by
  unfold canonicalize
  rw [← keptClauses]
  dsimp only
  split
  · exact Or.inl rfl
  split
  · exact Or.inr (Or.inl rfl)
  split
  · exact Or.inl rfl
  · rename_i hempty hlimits
    refine Or.inr (Or.inr ⟨fun clause hclause => ?_, ?_, ?_⟩)
    · simp only [List.any_eq_true, not_exists, not_and, List.isEmpty_iff] at hempty
      simp only [Bool.or_eq_true, List.any_eq_true, decide_eq_true_eq, not_or, not_exists,
        not_and, not_lt] at hlimits
      exact ⟨hempty clause hclause, hlimits.1 clause hclause⟩
    · simp only [Bool.or_eq_true, decide_eq_true_eq, not_or, not_lt] at hlimits
      exact hlimits.2
    · rw [foldl_keepMinimal, insertionSort_clauses]

lemma canonicalize_always : always.canonicalize = always := by
  decide

/-- **Idempotence.** Canonicalising a condition again changes nothing. -/
theorem canonicalize_canonicalize (c : CallableConditionDescriptor) :
    c.canonicalize.canonicalize = c.canonicalize := by
  obtain h | h | ⟨hclauses, hcount, h⟩ := canonicalize_cases c
  · rw [h]
    rfl
  · rw [h, canonicalize_always]
  · rw [h]
    set minimal := NormalForm.minimize clauseSubsumes CallableConditionClause.key
      (adjacentUnique (sortBy CallableConditionClause.key (keptClauses c))) with hminimal
    have hkept : ∀ clause ∈ minimal, clause ∈ keptClauses c := by
      intro clause hclause
      have hmem := NormalForm.mem_of_mem_minimize hclause
      rwa [mem_adjacentUnique, NormalForm.mem_sortBy] at hmem
    have hapart : minimal.Pairwise (NormalForm.Apart clauseSubsumes) :=
      NormalForm.pairwise_minimize _
    have hsorted : minimal.Pairwise fun a b => a.key ≤ b.key := NormalForm.sorted_minimize _
    have hnodup : minimal.Nodup := hapart.imp fun {a b} hab heq => by
      subst heq
      rw [NormalForm.Apart, clauseSubsumes_refl] at hab
      exact Bool.noConfusion hab.1
    have hsame : keptClauses ⟨minimal, true⟩ = minimal := by
      have hmap : minimal.map sortClause = minimal := by
        conv_rhs => rw [← List.map_id minimal]
        refine List.map_congr_left fun clause hclause => ?_
        obtain ⟨original, -, rfl⟩ :=
          List.mem_map.1 (List.mem_filter.1 (hkept clause hclause)).1
        exact sortClause_sortClause original
      rw [keptClauses, hmap]
      exact List.filter_eq_self.2 fun clause hclause =>
        (List.mem_filter.1 (hkept clause hclause)).2
    have hlength : minimal.length ≤ maxConditionClauses :=
      (List.subperm_of_subset hnodup hkept).length_le.trans hcount
    unfold canonicalize
    rw [← keptClauses, hsame]
    have hempty : ¬(minimal.any fun clause => clause.atoms.isEmpty) = true := by
      simp only [List.any_eq_true, not_exists, not_and, List.isEmpty_iff]
      exact fun clause hclause => (hclauses clause (hkept clause hclause)).1
    have hlimits : ¬(minimal.any (fun clause => maxConditionAtomsPerClause < clause.atoms.length) ||
        decide (maxConditionClauses < minimal.length)) = true := by
      simp only [Bool.or_eq_true, List.any_eq_true, decide_eq_true_eq, not_or, not_exists, not_and,
        not_lt]
      exact ⟨fun clause hclause => (hclauses clause (hkept clause hclause)).2, hlength⟩
    simp only [Bool.not_true, Bool.false_eq_true, if_false, hempty, hlimits]
    rw [foldl_keepMinimal, insertionSort_clauses, NormalForm.sortBy_eq_self hsorted,
      adjacentUnique_eq_self hnodup, NormalForm.minimize_eq_self hsorted hapart]

/-! ## Disjunctions -/

/-- A disjunction is canonical. -/
lemma canonicalize_conditionOr (a b : CallableConditionDescriptor) :
    (conditionOr a b).canonicalize = conditionOr a b := by
  unfold conditionOr
  split
  · exact canonicalize_always
  split
  · rfl
  · exact canonicalize_canonicalize _

lemma reduced_of_canonicalize {c : CallableConditionDescriptor} (h : c.canonicalize = c) :
    Reduced c :=
  h ▸ reduced_canonicalize c

/-- A disjunction with a clause that does not contradict itself has a clause. -/
lemma conditionOr_ne_never {a : CallableConditionDescriptor} (b : CallableConditionDescriptor)
    (hreduced : Reduced a) (hne : a.clauses ≠ []) : (conditionOr a b).clauses ≠ [] := by
  unfold conditionOr
  split
  · exact List.cons_ne_nil _ _
  split
  · exact List.cons_ne_nil _ _
  · rename_i hexact
    intro hnil
    obtain ⟨clause, hclause⟩ := List.exists_mem_of_ne_nil _ hne
    have hcanonical : (canonicalize ⟨a.clauses ++ b.clauses, true⟩).isNever = true ∨
        (canonicalize ⟨a.clauses ++ b.clauses, true⟩).exact = false := by
      by_cases h : (canonicalize ⟨a.clauses ++ b.clauses, true⟩).exact = true
      · exact Or.inl ((isNever_iff h).2 hnil)
      · exact Or.inr (Bool.eq_false_iff.2 h)
    obtain h | h := hcanonical
    · exact hreduced clause hclause
        ((isNever_canonicalize_iff rfl).1 h clause (List.mem_append_left _ hclause))
    · obtain hunknown | halways | ⟨-, -, hlist⟩ :=
        canonicalize_cases ⟨a.clauses ++ b.clauses, true⟩
      · rw [hunknown] at hnil
        cases hnil
      · rw [halways] at hnil
        cases hnil
      · rw [hlist] at h
        cases h

end Chtholly
