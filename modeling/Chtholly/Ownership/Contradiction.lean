import Mathlib.Tactic.Common
import Chtholly.Ownership.Condition

/-!
# Contradictions in conditions

A clause that no argument satisfies is dropped when its condition is canonicalised, if the
contradiction is seen.  Two variants of one parameter are looked for anywhere in the clause, but an
atom and its opposite only next to each other.

The atoms of a parameter are sorted by what is expected and then by the variant, so an atom stands
next to its opposite when it excludes the last of the variants that are excluded, and the opposite
is the first of those that are asked for.

## Main definitions

* `Chtholly.Contradicts` — a clause that no argument satisfies.
* `Chtholly.Recognised` — the contradiction is one that is seen.

## Main results

* `Chtholly.conditions_mean` — what the operations on conditions mean.
* `Chtholly.never_iff_unsatisfiable_iff` — when a condition that nothing satisfies is recognised.
* `Chtholly.excluded_twice` — one that is not.
-/

set_option autoImplicit false

namespace Chtholly

open CallableConditionDescriptor

/-! ## The operations -/

/-- An exact result means what the operands mean. -/
theorem conditions_mean (ρ : Assignment) (a b : CallableConditionDescriptor) :
    ((conditionAnd a b).exact = true → (conditionAnd a b).eval ρ = (a.eval ρ && b.eval ρ)) ∧
      ((conditionOr a b).exact = true → (conditionOr a b).eval ρ = (a.eval ρ || b.eval ρ)) ∧
      ((conditionNot a).exact = true → (conditionNot a).eval ρ = !a.eval ρ) ∧
      (a.canonicalize.exact = true → a.canonicalize.eval ρ = a.eval ρ) :=
  ⟨eval_conditionAnd, eval_conditionOr, eval_conditionNot, eval_canonicalize⟩

/-- A variant or a flag, and the opposite of it. -/
theorem conditions_mean_variant (ρ : Assignment) :
    (conditionAnd (enumVariant 0 3) (.atom 1 true)).eval ρ =
        ((enumVariant 0 3).eval ρ && (CallableConditionDescriptor.atom 1 true).eval ρ) ∧
      (conditionOr (enumVariant 0 3) (.atom 1 true)).eval ρ =
        ((enumVariant 0 3).eval ρ || (CallableConditionDescriptor.atom 1 true).eval ρ) ∧
      (conditionNot (enumVariant 0 3)).eval ρ = !(enumVariant 0 3).eval ρ ∧
      (enumVariant 0 3).canonicalize.eval ρ = (enumVariant 0 3).eval ρ := by
  obtain ⟨hand, hor, hnot, hcanonical⟩ := conditions_mean ρ (enumVariant 0 3) (.atom 1 true)
  exact ⟨hand (by decide), hor (by decide), hnot (by decide),
    hcanonical (by decide)⟩

/-! ## Sorted clauses -/

namespace CallableConditionAtom

lemma le_total (a b : CallableConditionAtom) : a.le b = true ∨ b.le a = true := by
  obtain ⟨p, e, v⟩ := a
  obtain ⟨q, f, w⟩ := b
  simp only [le, Bool.or_eq_true, Bool.and_eq_true, decide_eq_true_eq, beq_iff_eq,
    Bool.not_eq_true']
  cases e <;> cases f <;> simp <;> omega

lemma le_trans {a b c : CallableConditionAtom} (hab : a.le b = true) (hbc : b.le c = true) :
    a.le c = true := by
  obtain ⟨p, e, v⟩ := a
  obtain ⟨q, f, w⟩ := b
  obtain ⟨r, g, u⟩ := c
  simp only [le, Bool.or_eq_true, Bool.and_eq_true, decide_eq_true_eq, beq_iff_eq,
    Bool.not_eq_true'] at hab hbc ⊢
  cases e <;> cases f <;> cases g <;> simp at hab hbc ⊢ <;> omega

lemma le_antisymm {a b : CallableConditionAtom} (hab : a.le b = true) (hba : b.le a = true) :
    a = b := by
  obtain ⟨p, e, v⟩ := a
  obtain ⟨q, f, w⟩ := b
  simp only [le, Bool.or_eq_true, Bool.and_eq_true, decide_eq_true_eq, beq_iff_eq,
    Bool.not_eq_true'] at hab hba
  rw [mk.injEq]
  cases e <;> cases f <;> simp at hab hba ⊢ <;> omega

instance : Std.Total fun a b : CallableConditionAtom => a.le b = true := ⟨le_total⟩

instance : IsTrans CallableConditionAtom fun a b => a.le b = true := ⟨fun _ _ _ => le_trans⟩

end CallableConditionAtom

/-- In a sorted list without adjacent equal elements, nothing is repeated. -/
lemma pairwise_adjacentUnique {α : Type} [DecidableEq α] {r : α → α → Prop}
    (hantisymm : ∀ a b, r a b → r b a → a = b) {entries : List α} (h : entries.Pairwise r) :
    (adjacentUnique entries).Pairwise fun a b => r a b ∧ a ≠ b := by
  induction entries using adjacentUnique.induct with
  | case1 => exact .nil
  | case2 a => exact List.pairwise_singleton _ a
  | case3 a rest ih =>
    rw [adjacentUnique, if_pos rfl]
    exact ih (List.pairwise_cons.1 h).2
  | case4 a b rest hne ih =>
    obtain ⟨ha, hrest⟩ := List.pairwise_cons.1 h
    rw [adjacentUnique, if_neg hne]
    refine List.pairwise_cons.2 ⟨fun c hc => ?_, ih hrest⟩
    have hc := (mem_adjacentUnique c _).1 hc
    refine ⟨ha c hc, fun heq => hne ?_⟩
    -- All that stands between equal elements is equal to them.
    obtain rfl | hlater := List.mem_cons.1 hc
    · exact heq
    · have hba : r b a := heq ▸ (List.pairwise_cons.1 hrest).1 c hlater
      exact hantisymm a b (ha b List.mem_cons_self) hba

lemma pairwise_sortClause (clause : CallableConditionClause) :
    (sortClause clause).atoms.Pairwise fun a b => a.le b = true ∧ a ≠ b :=
  pairwise_adjacentUnique (fun _ _ => CallableConditionAtom.le_antisymm)
    (List.pairwise_insertionSort (fun a b : CallableConditionAtom => a.le b = true) clause.atoms)

variable {clause : CallableConditionClause}

lemma mem_sortClause {a : CallableConditionAtom} :
    a ∈ (sortClause clause).atoms ↔ a ∈ clause.atoms :=
  (mem_adjacentUnique a _).trans (List.mem_insertionSort _)

/-! ## Contradictions -/

/-- An enum parameter is asked for two variants. -/
def AsksTwice (atoms : List CallableConditionAtom) : Prop :=
  ∃ p v w, v ≠ w ∧ v ≠ invalidIndex ∧ w ≠ invalidIndex ∧
    (⟨p, true, v⟩ : CallableConditionAtom) ∈ atoms ∧
    (⟨p, true, w⟩ : CallableConditionAtom) ∈ atoms

/-- No argument satisfies the atoms. -/
def Contradicts (atoms : List CallableConditionAtom) : Prop :=
  AsksTwice atoms ∨ ∃ p v, (⟨p, false, v⟩ : CallableConditionAtom) ∈ atoms ∧
    (⟨p, true, v⟩ : CallableConditionAtom) ∈ atoms

/-- The atoms ask for two variants, or the last variant that they exclude is the first for which
they ask. -/
def Recognised (atoms : List CallableConditionAtom) : Prop :=
  AsksTwice atoms ∨ ∃ p v, (⟨p, false, v⟩ : CallableConditionAtom) ∈ atoms ∧
    (⟨p, true, v⟩ : CallableConditionAtom) ∈ atoms ∧
    (∀ w, (⟨p, false, w⟩ : CallableConditionAtom) ∈ atoms → w ≤ v) ∧
    ∀ w, (⟨p, true, w⟩ : CallableConditionAtom) ∈ atoms → v ≤ w

lemma twoVariants_iff : twoVariants clause = true ↔ AsksTwice clause.atoms := by
  simp only [twoVariants, List.any_eq_true, Bool.and_eq_true, beq_iff_eq, bne_iff_ne]
  constructor
  · rintro ⟨⟨p, e, v⟩, ha, ⟨q, f, w⟩, hb, ⟨⟨⟨⟨rfl, rfl⟩, rfl⟩, hv⟩, hw⟩, hne⟩
    exact ⟨p, v, w, hne, hv, hw, ha, hb⟩
  · rintro ⟨p, v, w, hne, hv, hw, ha, hb⟩
    exact ⟨⟨p, true, v⟩, ha, ⟨p, true, w⟩, hb, ⟨⟨⟨⟨rfl, rfl⟩, rfl⟩, hv⟩, hw⟩, hne⟩

variable {atoms : List CallableConditionAtom}

lemma asksTwice_congr {others : List CallableConditionAtom} (h : ∀ a, a ∈ atoms ↔ a ∈ others) :
    AsksTwice atoms ↔ AsksTwice others := by
  simp only [AsksTwice, h]

lemma recognised_congr {others : List CallableConditionAtom} (h : ∀ a, a ∈ atoms ↔ a ∈ others) :
    Recognised atoms ↔ Recognised others := by
  simp only [Recognised, AsksTwice, h]

/-- The neighbours that contradict each other. -/
lemma adjacentContradiction_iff :
    adjacentContradiction atoms = true ↔ ∃ front a b back, atoms = front ++ a :: b :: back ∧
      a.parameterIndex = b.parameterIndex ∧ a.variant = b.variant ∧ a.expected ≠ b.expected := by
  induction atoms using adjacentContradiction.induct with
  | case1 a b rest ih =>
    simp only [adjacentContradiction, Bool.or_eq_true, Bool.and_eq_true, beq_iff_eq, bne_iff_ne, ih]
    constructor
    · rintro (⟨⟨hp, hv⟩, he⟩ | ⟨front, c, d, back, heq, hsame⟩)
      · exact ⟨[], a, b, rest, rfl, hp, hv, he⟩
      · exact ⟨a :: front, c, d, back, by rw [heq]; rfl, hsame⟩
    · rintro ⟨front, c, d, back, heq, hp, hv, he⟩
      cases front with
      | nil =>
        obtain ⟨rfl, hrest⟩ := List.cons.inj heq
        obtain ⟨rfl, -⟩ := List.cons.inj hrest
        exact .inl ⟨⟨hp, hv⟩, he⟩
      | cons first front =>
        exact .inr ⟨front, c, d, back, (List.cons.inj heq).2, hp, hv, he⟩
  | case2 atoms hshort =>
    constructor
    · intro h
      rw [adjacentContradiction] at h
      · cases h
      · exact hshort
    · rintro ⟨front, a, b, back, rfl, -⟩
      obtain _ | ⟨first, _ | ⟨second, front⟩⟩ := front
      · exact absurd rfl (hshort a b back)
      · exact absurd rfl (hshort first a (b :: back))
      · exact absurd rfl (hshort first second (front ++ a :: b :: back))

lemma le_false_iff {p v w : ℕ} :
    (CallableConditionAtom.mk p false v).le ⟨p, false, w⟩ = true ↔ v ≤ w := by
  simp [CallableConditionAtom.le]

lemma le_true_iff {p v w : ℕ} :
    (CallableConditionAtom.mk p true v).le ⟨p, true, w⟩ = true ↔ v ≤ w := by
  simp [CallableConditionAtom.le]

lemma not_le_false {p v w : ℕ} :
    ¬(CallableConditionAtom.mk p true v).le ⟨p, false, w⟩ = true := by
  simp [CallableConditionAtom.le]

/-- What stands between an atom and its opposite is about the same parameter. -/
lemma between {p v : ℕ} {c : CallableConditionAtom}
    (hlow : (CallableConditionAtom.mk p false v).le c = true) (hlow' : ⟨p, false, v⟩ ≠ c)
    (hhigh : c.le ⟨p, true, v⟩ = true) :
    c = ⟨p, true, v⟩ ∨ (∃ w, v < w ∧ c = ⟨p, false, w⟩) ∨ ∃ w, w < v ∧ c = ⟨p, true, w⟩ := by
  obtain ⟨q, e, w⟩ := c
  simp only [CallableConditionAtom.le, Bool.or_eq_true, Bool.and_eq_true, decide_eq_true_eq,
    beq_iff_eq, Bool.not_eq_true'] at hlow hhigh
  have hq : q = p := by omega
  subst hq
  cases e with
  | false =>
    have hne : v ≠ w := fun h => hlow' (by rw [h])
    have hvw : v ≤ w := by simpa using hlow
    exact .inr (.inl ⟨w, by omega, rfl⟩)
  | true =>
    have hwv : w ≤ v := by simpa using hhigh
    obtain rfl | hlt := hwv.eq_or_lt
    · exact .inl rfl
    · exact .inr (.inr ⟨w, hlt, rfl⟩)

/-- **Neighbours in a sorted clause.** An atom stands next to its opposite when it is the last of
the exclusions and the opposite is the first of the demands.

**Proof sketch.** What is sorted ahead of the atom or behind its opposite is no counterexample to
the two bounds.  Conversely the atom behind the exclusion is not above the opposite, and what is
strictly between them would break one of the bounds. -/
lemma adjacentContradiction_sorted_iff (hsorted : atoms.Pairwise fun a b => a.le b = true ∧ a ≠ b) :
    adjacentContradiction atoms = true ↔
      ∃ p v, (⟨p, false, v⟩ : CallableConditionAtom) ∈ atoms ∧
        (⟨p, true, v⟩ : CallableConditionAtom) ∈ atoms ∧
        (∀ w, (⟨p, false, w⟩ : CallableConditionAtom) ∈ atoms → w ≤ v) ∧
        ∀ w, (⟨p, true, w⟩ : CallableConditionAtom) ∈ atoms → v ≤ w := by
  rw [adjacentContradiction_iff]
  constructor
  · rintro ⟨front, ⟨p, e, v⟩, ⟨q, f, w⟩, back, rfl, hp, hv, he⟩
    obtain ⟨-, hpair, hfront⟩ := List.pairwise_append.1 hsorted
    obtain ⟨hfirst, hpair⟩ := List.pairwise_cons.1 hpair
    obtain ⟨hsecond, -⟩ := List.pairwise_cons.1 hpair
    dsimp only at hp hv he
    subst hp hv
    have hle := (hfirst _ List.mem_cons_self).1
    obtain ⟨rfl, rfl⟩ : e = false ∧ f = true := by
      cases e <;> cases f
      · exact absurd rfl he
      · exact ⟨rfl, rfl⟩
      · exact absurd hle not_le_false
      · exact absurd rfl he
    refine ⟨p, v, by simp, by simp, fun w hw => ?_, fun w hw => ?_⟩
    · obtain hw | hw := List.mem_append.1 hw
      · exact le_false_iff.1 (hfront _ hw _ List.mem_cons_self).1
      · obtain hw | hw := List.mem_cons.1 hw
        · rw [CallableConditionAtom.mk.injEq] at hw
          omega
        · obtain hw | hw := List.mem_cons.1 hw
          · cases hw
          · exact absurd (hsecond _ hw).1 not_le_false
    · obtain hw | hw := List.mem_append.1 hw
      · exact absurd (hfront _ hw _ List.mem_cons_self).1 not_le_false
      · obtain hw | hw := List.mem_cons.1 hw
        · cases hw
        · obtain hw | hw := List.mem_cons.1 hw
          · rw [CallableConditionAtom.mk.injEq] at hw
            omega
          · exact le_true_iff.1 (hsecond _ hw).1
  · rintro ⟨p, v, hexcluded, hasked, hlast, hfirst⟩
    obtain ⟨front, rest, rfl⟩ := List.append_of_mem hexcluded
    obtain ⟨-, hpair, hfront⟩ := List.pairwise_append.1 hsorted
    obtain ⟨hbehind, hpair⟩ := List.pairwise_cons.1 hpair
    have hrest : (⟨p, true, v⟩ : CallableConditionAtom) ∈ rest := by
      obtain h | h := List.mem_append.1 hasked
      · exact absurd (hfront _ h _ List.mem_cons_self).1 not_le_false
      · exact (List.mem_cons.1 h).resolve_left (by simp)
    cases rest with
    | nil => cases hrest
    | cons next rest =>
      obtain ⟨hnext, -⟩ := List.pairwise_cons.1 hpair
      have hhigh : next.le ⟨p, true, v⟩ = true := by
        obtain rfl | h := List.mem_cons.1 hrest
        · exact (CallableConditionAtom.le_total _ _).elim id id
        · exact (hnext _ h).1
      obtain ⟨hlow, hne⟩ := hbehind next List.mem_cons_self
      obtain rfl | ⟨w, hw, rfl⟩ | ⟨w, hw, rfl⟩ := between hlow hne hhigh
      · exact ⟨front, _, _, rest, rfl, rfl, rfl, by simp⟩
      · exact absurd (hlast w (by simp)) (by omega)
      · exact absurd (hfirst w (by simp)) (by omega)

/-- The clauses that are dropped. -/
lemma recognised_iff :
    (twoVariants (sortClause clause) || adjacentContradiction (sortClause clause).atoms) = true ↔
      Recognised clause.atoms := by
  rw [Bool.or_eq_true, twoVariants_iff, asksTwice_congr fun _ => mem_sortClause,
    adjacentContradiction_sorted_iff (pairwise_sortClause clause)]
  simp only [mem_sortClause, Recognised]

/-! ## What nothing satisfies -/

lemma eval_of_contradicts {ρ : Assignment} (h : Contradicts atoms) :
    atoms.all (·.eval ρ) = false := by
  by_contra hall
  have hall := List.all_eq_true.1 (Bool.eq_true_of_not_eq_false hall)
  obtain ⟨p, v, w, hne, hv, hw, hfirst, hsecond⟩ | ⟨p, v, hexcluded, hasked⟩ := h
  · have hfirst := hall _ hfirst
    have hsecond := hall _ hsecond
    simp only [CallableConditionAtom.eval, if_neg hv, if_neg hw, beq_true, beq_iff_eq] at hfirst hsecond
    exact hne (hfirst.symm.trans hsecond)
  · have hexcluded := hall _ hexcluded
    have hasked := hall _ hasked
    rw [← Bool.not_true, eval_negated, hasked] at hexcluded
    cases hexcluded

/-- A number above all variants. -/
def freshVariant (atoms : List CallableConditionAtom) : ℕ :=
  (atoms.map CallableConditionAtom.variant).foldr max invalidIndex + 1

lemma lt_freshVariant {a : CallableConditionAtom} (h : a ∈ atoms) :
    a.variant < freshVariant atoms := by
  unfold freshVariant
  induction atoms with
  | nil => cases h
  | cons other rest ih =>
    rw [List.map_cons, List.foldr_cons]
    obtain rfl | h := List.mem_cons.1 h
    · omega
    · have := ih h
      omega

/-- The arguments that do what the atoms ask for, and hold a variant of their own otherwise. -/
def witnessOf (atoms : List CallableConditionAtom) : Assignment where
  bool p := decide ((⟨p, true, invalidIndex⟩ : CallableConditionAtom) ∈ atoms)
  variant p :=
    match atoms.find? fun a =>
      a.parameterIndex == p && a.expected && a.variant != invalidIndex with
    | some a => a.variant
    | none => freshVariant atoms

/-- Atoms that do not contradict each other are satisfied. -/
lemma eval_witnessOf (h : ¬Contradicts atoms) : atoms.all (·.eval (witnessOf atoms)) = true := by
  rw [List.all_eq_true]
  rintro ⟨p, e, v⟩ hmem
  have hopposite (hasked : (⟨p, true, v⟩ : CallableConditionAtom) ∈ atoms) : e = true := by
    cases e
    · exact absurd (.inr ⟨p, v, hmem, hasked⟩) h
    · rfl
  by_cases hv : v = invalidIndex
  · subst hv
    cases e with
    | true => simp [CallableConditionAtom.eval, witnessOf, hmem]
    | false =>
      have hnot : (⟨p, true, invalidIndex⟩ : CallableConditionAtom) ∉ atoms := fun hasked => by
        cases hopposite hasked
      simp [CallableConditionAtom.eval, witnessOf, hnot]
  · simp only [CallableConditionAtom.eval, if_neg hv, witnessOf]
    split
    case h_1 other hfind =>
      have hother := List.mem_of_find?_eq_some hfind
      have hsome := List.find?_some hfind
      simp only [Bool.and_eq_true, beq_iff_eq, bne_iff_ne] at hsome
      obtain ⟨⟨hp, he⟩, hw⟩ := hsome
      obtain ⟨q, f, w⟩ := other
      dsimp only at hp he hw
      subst hp he
      cases e with
      | true =>
        have hvw : w = v := by
          by_contra hne
          exact h (.inl ⟨_, w, v, hne, hw, hv, hother, hmem⟩)
        simp [hvw]
      | false =>
        have hvw : w ≠ v := by
          rintro rfl
          cases hopposite hother
        simp [hvw]
    case h_2 hnone =>
      cases e with
      | true =>
        have hnone := List.find?_eq_none.1 hnone _ hmem
        simp [hv] at hnone
      | false =>
        have hlt : v < freshVariant atoms := lt_freshVariant hmem
        have hne : freshVariant atoms ≠ v := by omega
        simp [hne]

/-- A condition that nothing satisfies. -/
lemma unsatisfiable_iff (c : CallableConditionDescriptor) :
    (∀ ρ, c.eval ρ = false) ↔ ∀ clause ∈ c.clauses, Contradicts clause.atoms := by
  constructor
  · intro h clause hclause
    by_contra hnot
    have heval := h (witnessOf clause.atoms)
    rw [CallableConditionDescriptor.eval, List.any_eq_false] at heval
    exact heval clause hclause (eval_witnessOf hnot)
  · intro h ρ
    rw [CallableConditionDescriptor.eval, List.any_eq_false]
    intro clause hclause
    rw [CallableConditionClause.eval, eval_of_contradicts (h clause hclause)]
    decide

/-! ## What is recognised -/

/-- The clauses that are left after the contradictions have been dropped. -/
def keptClauses (c : CallableConditionDescriptor) : List CallableConditionClause :=
  (c.clauses.map sortClause).filter fun clause =>
    !(twoVariants clause || adjacentContradiction clause.atoms)

variable {c : CallableConditionDescriptor}

lemma keptClauses_eq_nil_iff :
    keptClauses c = [] ↔ ∀ clause ∈ c.clauses, Recognised clause.atoms := by
  simp only [keptClauses, List.filter_eq_nil_iff, List.mem_map, forall_exists_index, and_imp,
    forall_apply_eq_imp_iff₂, ← recognised_iff, Bool.not_eq_true', Bool.not_eq_false]

lemma keepMinimal_ne_nil (minimal : List CallableConditionClause)
    (clause : CallableConditionClause) : keepMinimal minimal clause ≠ [] := by
  unfold keepMinimal
  split
  · rename_i h
    rintro rfl
    cases h
  · intro h
    have hlength := congrArg List.length h
    rw [List.length_insertionSort, List.length_append] at hlength
    simp at hlength

lemma foldl_keepMinimal_ne_nil {clauses minimal : List CallableConditionClause}
    (h : minimal ≠ [] ∨ clauses ≠ []) : clauses.foldl keepMinimal minimal ≠ [] := by
  induction clauses generalizing minimal with
  | nil => exact h.resolve_right fun h => h rfl
  | cons clause rest ih => exact ih (.inl (keepMinimal_ne_nil minimal clause))

lemma adjacentUnique_ne_nil {α : Type} [DecidableEq α] {entries : List α} (h : entries ≠ []) :
    adjacentUnique entries ≠ [] := by
  obtain ⟨a, ha⟩ := List.exists_mem_of_ne_nil entries h
  exact List.ne_nil_of_mem ((mem_adjacentUnique a entries).2 ha)

/-- A condition is recognised as one that nothing satisfies when all its clauses are. -/
lemma isNever_canonicalize_iff (hexact : c.exact = true) :
    c.canonicalize.isNever = true ↔ ∀ clause ∈ c.clauses, Recognised clause.atoms := by
  rw [← keptClauses_eq_nil_iff]
  unfold canonicalize
  simp only [hexact, Bool.not_true, Bool.false_eq_true, if_false]
  rw [← keptClauses]
  constructor
  · intro h
    by_contra hkept
    split at h
    · cases h
    · split at h
      · cases h
      · have hsorted : (keptClauses c).insertionSort (fun a b => a.le b = true) ≠ [] := by
          intro hnil
          have hlength := congrArg List.length hnil
          rw [List.length_insertionSort, List.length_nil, List.length_eq_zero_iff] at hlength
          exact hkept hlength
        have hfold := @foldl_keepMinimal_ne_nil _ [] (.inr (adjacentUnique_ne_nil hsorted))
        simp only [isNever, Bool.true_and, List.isEmpty_iff] at h
        exact hfold h
  · intro h
    rw [h]
    decide

/-- An argument that satisfies one condition satisfies the other. -/
def Entails (requirement actual : CallableConditionDescriptor) : Prop :=
  ∀ ρ, requirement.eval ρ = true → actual.eval ρ = true

/-- None of the contradictions that are left in a condition can be seen. -/
def Reduced (c : CallableConditionDescriptor) : Prop :=
  ∀ clause ∈ c.clauses, ¬Recognised clause.atoms

lemma not_recognised_nil : ¬Recognised [] := by
  rintro (⟨p, v, w, -, -, -, h, -⟩ | ⟨p, v, h, -⟩)
  · cases h
  · cases h

lemma reduced_always : Reduced always := by
  intro clause hclause
  rw [List.mem_singleton.1 hclause]
  exact not_recognised_nil

lemma reduced_never : Reduced never := fun _ h => absurd h List.not_mem_nil

lemma mem_foldl_keepMinimal {clauses minimal : List CallableConditionClause}
    (h : clause ∈ clauses.foldl keepMinimal minimal) : clause ∈ minimal ∨ clause ∈ clauses := by
  induction clauses generalizing minimal with
  | nil => exact .inl h
  | cons first rest ih =>
    obtain h | h := ih h
    · unfold keepMinimal at h
      split at h
      · exact .inl h
      · rw [List.mem_insertionSort, List.mem_append, List.mem_singleton] at h
        obtain h | rfl := h
        · exact .inl (List.mem_filter.1 h).1
        · exact .inr List.mem_cons_self
    · exact .inr (List.mem_cons_of_mem _ h)

lemma reduced_canonicalize (c : CallableConditionDescriptor) : Reduced c.canonicalize := by
  unfold canonicalize
  split
  · exact reduced_always
  · rw [← keptClauses]
    dsimp only
    split
    · exact reduced_always
    · split
      · exact reduced_always
      · intro clause hclause
        have hkept := (mem_foldl_keepMinimal hclause).resolve_left List.not_mem_nil
        rw [mem_adjacentUnique, List.mem_insertionSort, keptClauses, List.mem_filter] at hkept
        obtain ⟨hmem, hkept⟩ := hkept
        obtain ⟨original, -, rfl⟩ := List.mem_map.1 hmem
        intro hrecognised
        rw [recognised_congr fun _ => mem_sortClause, ← recognised_iff] at hrecognised
        rw [hrecognised] at hkept
        cases hkept

lemma reduced_conditionAnd {a b : CallableConditionDescriptor} (ha : Reduced a) (hb : Reduced b) :
    Reduced (conditionAnd a b) := by
  unfold conditionAnd
  split
  · exact reduced_never
  split
  · exact reduced_always
  split
  · exact hb
  split
  · exact ha
  split
  · exact reduced_always
  · exact reduced_canonicalize _

lemma reduced_conditionNot (c : CallableConditionDescriptor) : Reduced (conditionNot c) := by
  have hloop (clauses : List CallableConditionClause) {result : CallableConditionDescriptor}
      (h : Reduced result) : Reduced (negateClauses clauses result) := by
    induction clauses generalizing result with
    | nil => exact h
    | cons clause rest ih =>
      have hnext : Reduced (conditionAnd result (negateClause clause)) :=
        reduced_conditionAnd h (reduced_canonicalize _)
      rw [negateClauses]
      split
      · exact hnext
      · exact ih hnext
  unfold conditionNot
  split
  · exact reduced_always
  split
  · exact reduced_always
  · exact hloop c.clauses reduced_always

lemma isNever_iff (h : c.exact = true) : c.isNever = true ↔ c.clauses = [] := by
  rw [isNever, h, Bool.true_and, List.isEmpty_iff]

lemma isAlways_iff (h : c.exact = true) : c.isAlways = true ↔ c.clauses = [⟨[]⟩] := by
  obtain ⟨clauses, exact⟩ := c
  dsimp only at h
  subst h
  rcases clauses with _ | ⟨⟨_ | ⟨a, rest⟩⟩, _ | ⟨c, others⟩⟩ <;> simp [isAlways]

/-- When the conjunction of two conditions is recognised as one that nothing satisfies. -/
lemma isNever_conditionAnd_iff {a b : CallableConditionDescriptor} (hb : b.exact = true)
    (hreduced : Reduced b) (hexact : (conditionAnd a b).exact = true) :
    (conditionAnd a b).isNever = true ↔ a.clauses = [] ∨ b.isAlways = false ∧
      ∀ left ∈ a.clauses, ∀ right ∈ b.clauses, Recognised (left.atoms ++ right.atoms) := by
  unfold conditionAnd at hexact ⊢
  by_cases hbnever : b.clauses = []
  · rw [if_pos (by rw [(isNever_iff hb).2 hbnever, Bool.or_true])]
    refine iff_of_true rfl (.inr ⟨?_, fun _ _ right hright => ?_⟩)
    · rw [Bool.eq_false_iff, ne_eq, isAlways_iff hb, hbnever]
      exact List.cons_ne_nil _ _ ∘ Eq.symm
    · rw [hbnever] at hright
      cases hright
  have ha : a.exact = true := by
    by_contra ha
    have ha := Bool.eq_false_iff.2 ha
    rw [if_neg (by simp [isNever, ha, hb, hbnever]), if_pos (by simp [ha])] at hexact
    cases hexact
  by_cases hanever : a.clauses = []
  · rw [if_pos (by rw [(isNever_iff ha).2 hanever, Bool.true_or])]
    exact iff_of_true rfl (.inl hanever)
  have hnever : ¬(a.isNever || b.isNever) = true := by
    rw [Bool.or_eq_true, isNever_iff ha, isNever_iff hb]
    exact not_or.2 ⟨hanever, hbnever⟩
  rw [if_neg hnever, if_neg (by simp [ha, hb])] at hexact ⊢
  have hempty : ¬a.clauses = [] := hanever
  split
  case isTrue halways =>
    -- The other condition is reduced, and it has a clause.
    rw [isNever_iff hb]
    refine iff_of_false hbnever (not_or.2 ⟨hempty, fun h => ?_⟩)
    obtain ⟨right, hright⟩ := List.exists_mem_of_ne_nil _ hbnever
    rw [isAlways_iff ha] at halways
    have hrecognised := h.2 ⟨[]⟩ (by rw [halways]; exact List.mem_singleton_self _) right hright
    exact hreduced right hright hrecognised
  case isFalse halways =>
    rw [if_neg halways] at hexact
    split
    case isTrue hbalways =>
      rw [isNever_iff ha]
      exact iff_of_false hempty (not_or.2 ⟨hempty, fun h => by rw [hbalways] at h; cases h.1⟩)
    case isFalse hbalways =>
      rw [if_neg hbalways] at hexact
      split
      case isTrue hmany =>
        rw [if_pos hmany] at hexact
        cases hexact
      case isFalse =>
        rw [isNever_canonicalize_iff rfl]
        simp only [List.mem_flatMap, List.mem_map, forall_exists_index, and_imp, hempty, false_or,
          Bool.eq_false_iff.2 hbalways, true_and]
        constructor
        · intro h left hleft right hright
          exact h _ left hleft right hright rfl
        · rintro h _ left hleft right hright rfl
          exact h left hleft right hright

/-! ## Main results -/

/-- Every contradiction between the requirement and the negation of what there is can be seen. -/
def EntailmentSeen (requirement actual : CallableConditionDescriptor) : Prop :=
  requirement.clauses = [] ∨ (conditionNot actual).isAlways = false ∧
    ∀ left ∈ requirement.clauses, ∀ right ∈ (conditionNot actual).clauses,
      Recognised (left.atoms ++ right.atoms)

lemma never_iff (hexact : c.exact = true) :
    (c.canonicalize.isNever = true ↔ ∀ ρ, c.eval ρ = false) ↔
      (∃ clause ∈ c.clauses, ¬Contradicts clause.atoms) ∨
        ∀ clause ∈ c.clauses, Recognised clause.atoms := by
  have hsound : (∀ clause ∈ c.clauses, Recognised clause.atoms) →
      ∀ clause ∈ c.clauses, Contradicts clause.atoms := by
    intro h clause hclause
    exact (h clause hclause).imp_right fun ⟨p, v, hexcluded, hasked, _⟩ =>
      ⟨p, v, hexcluded, hasked⟩
  rw [isNever_canonicalize_iff hexact, unsatisfiable_iff]
  constructor
  · intro h
    by_cases hall : ∀ clause ∈ c.clauses, Contradicts clause.atoms
    · exact .inr (h.2 hall)
    · push Not at hall
      exact .inl hall
  · rintro (⟨clause, hclause, hnot⟩ | h)
    · exact ⟨hsound, fun hall => absurd (hall clause hclause) hnot⟩
    · exact iff_of_true h (hsound h)

lemma entails_seen_iff {requirement actual : CallableConditionDescriptor}
    (hnot : (conditionNot actual).exact = true)
    (hand : (conditionAnd requirement (conditionNot actual)).exact = true) :
    (conditionAnd requirement (conditionNot actual)).isNever = true ↔
      EntailmentSeen requirement actual :=
  isNever_conditionAnd_iff hnot (reduced_conditionNot actual) hand

end Chtholly
