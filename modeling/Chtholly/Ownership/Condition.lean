import Mathlib.Data.List.Sort

set_option autoImplicit false

/-!
# Conditions on the arguments of a function

The conditions the callable ownership analysis attaches to edges and facts
(`CallableConditionDescriptor`, `PublicInterfaceCanonicalize.cpp`): disjunctions of clauses, each a
conjunction of atoms over the boolean and enum parameters of a function. A condition that would
outgrow the size limits becomes `unknown`, which is not `exact` and admits every argument.

## Main definitions

* `Chtholly.CallableConditionDescriptor` with `canonicalize`, `conditionAnd`, `conditionOr` and
  `conditionNot`.
* `Chtholly.Assignment`, `Chtholly.CallableConditionDescriptor.eval` — what a condition says of the
  arguments.

## Main results

* `Chtholly.eval_conditionAnd`, `Chtholly.eval_conditionOr`, `Chtholly.eval_conditionNot` — an exact
  result means what the operands mean.
-/

namespace Chtholly

/-! ## Descriptors -/

/-- `core::AnyId::InvalidIndex`. -/
def invalidIndex : Nat := 4294967295

/-- `CallableConditionAtom`: the boolean parameter has the expected value or, with a variant, the
enum parameter does (`expected`) or does not hold the variant. -/
structure CallableConditionAtom where
  parameterIndex : Nat
  expected : Bool := true
  variant : Nat := invalidIndex
  deriving DecidableEq, Repr

/-- `CallableConditionClause`: all atoms hold. -/
structure CallableConditionClause where
  atoms : List CallableConditionAtom
  deriving DecidableEq, Repr

/-- `CallableConditionDescriptor`: one of the clauses holds. -/
structure CallableConditionDescriptor where
  clauses : List CallableConditionClause
  exact : Bool := true
  deriving DecidableEq, Repr

/-- The defaulted `<=>` of atoms, as a `≤`. -/
def CallableConditionAtom.le (a b : CallableConditionAtom) : Bool :=
  a.parameterIndex < b.parameterIndex || a.parameterIndex == b.parameterIndex &&
    (!a.expected && b.expected || a.expected == b.expected && a.variant ≤ b.variant)

/-- The defaulted `<=>` of vectors of atoms, as a `≤`. -/
def atomsLe : List CallableConditionAtom → List CallableConditionAtom → Bool
  | [], _ => true
  | _ :: _, [] => false
  | a :: as, b :: bs => if a = b then atomsLe as bs else a.le b

/-- The defaulted `<=>` of clauses, as a `≤`. -/
def CallableConditionClause.le (a b : CallableConditionClause) : Bool :=
  atomsLe a.atoms b.atoms

/-- `std::unique`: of adjacent equal elements the first stays. -/
def adjacentUnique {α : Type} [DecidableEq α] : List α → List α
  | [] => []
  | [a] => [a]
  | a :: b :: l => if a = b then adjacentUnique (b :: l) else a :: adjacentUnique (b :: l)

namespace CallableConditionDescriptor

/-- `MaxConditionAtomsPerClause`. -/
def maxConditionAtomsPerClause : Nat := 8

/-- `MaxConditionClauses`. -/
def maxConditionClauses : Nat := 32

/-- `always`. -/
def always : CallableConditionDescriptor := ⟨[⟨[]⟩], true⟩

/-- `never`. -/
def never : CallableConditionDescriptor := ⟨[], true⟩

/-- `unknown`. -/
def unknown : CallableConditionDescriptor := ⟨[⟨[]⟩], false⟩

/-- `atom`. -/
def atom (parameterIndex : Nat) (expected : Bool) : CallableConditionDescriptor :=
  ⟨[⟨[⟨parameterIndex, expected, invalidIndex⟩]⟩], true⟩

/-- `enumVariant`. -/
def enumVariant (parameter variant : Nat) : CallableConditionDescriptor :=
  ⟨[⟨[⟨parameter, true, variant⟩]⟩], true⟩

/-- `isAlways`. -/
def isAlways (c : CallableConditionDescriptor) : Bool :=
  c.exact && match c.clauses with
    | [⟨[]⟩] => true
    | _ => false

/-- `isNever`. -/
def isNever (c : CallableConditionDescriptor) : Bool := c.exact && c.clauses.isEmpty

/-- The sorted clause without repeated atoms. -/
def sortClause (c : CallableConditionClause) : CallableConditionClause :=
  ⟨adjacentUnique (c.atoms.insertionSort fun a b => a.le b = true)⟩

/-- The clause asks one enum parameter for two variants. -/
def twoVariants (c : CallableConditionClause) : Bool :=
  c.atoms.any fun a => c.atoms.any fun b =>
    a.parameterIndex == b.parameterIndex && a.expected && b.expected &&
      a.variant != invalidIndex && b.variant != invalidIndex && a.variant != b.variant

/-- Two neighbours of the clause contradict each other. -/
def adjacentContradiction : List CallableConditionAtom → Bool
  | a :: b :: l =>
    a.parameterIndex == b.parameterIndex && a.variant == b.variant && a.expected != b.expected ||
      adjacentContradiction (b :: l)
  | _ => false

/-- `clauseSubsumes`: `std::includes` of the sorted atoms. -/
def clauseSubsumes (lhs rhs : CallableConditionClause) : Bool :=
  lhs.atoms.all fun a => rhs.atoms.contains a

/-- One turn of the loop that keeps the clauses no other clause subsumes. -/
def keepMinimal (minimal : List CallableConditionClause) (clause : CallableConditionClause) :
    List CallableConditionClause :=
  if minimal.any fun candidate => clauseSubsumes candidate clause then minimal
  else (minimal.filter (fun candidate => !clauseSubsumes clause candidate) ++
    [clause]).insertionSort fun a b => a.le b = true

/-- `canonicalize`. -/
def canonicalize (c : CallableConditionDescriptor) : CallableConditionDescriptor :=
  if !c.exact then unknown
  else
    let clauses := (c.clauses.map sortClause).filter fun clause =>
      !(twoVariants clause || adjacentContradiction clause.atoms)
    if clauses.any fun clause => clause.atoms.isEmpty then always
    else if clauses.any (fun clause => maxConditionAtomsPerClause < clause.atoms.length) ||
        maxConditionClauses < clauses.length then unknown
    else ⟨(adjacentUnique (clauses.insertionSort fun a b => a.le b = true)).foldl keepMinimal [],
      true⟩

end CallableConditionDescriptor

open CallableConditionDescriptor

/-- `conditionOr`. -/
def conditionOr (lhs rhs : CallableConditionDescriptor) : CallableConditionDescriptor :=
  if lhs.isAlways || rhs.isAlways then always
  else if !lhs.exact || !rhs.exact then unknown
  else canonicalize ⟨lhs.clauses ++ rhs.clauses, true⟩

/-- `conditionAnd`. -/
def conditionAnd (lhs rhs : CallableConditionDescriptor) : CallableConditionDescriptor :=
  if lhs.isNever || rhs.isNever then never
  else if !lhs.exact || !rhs.exact then unknown
  else if lhs.isAlways then rhs
  else if rhs.isAlways then lhs
  else if maxConditionClauses / rhs.clauses.length < lhs.clauses.length then unknown
  else canonicalize
    ⟨lhs.clauses.flatMap fun left => rhs.clauses.map fun right => ⟨left.atoms ++ right.atoms⟩, true⟩

/-- The clauses of `conditionNot` for one clause of its operand: one negated atom each. -/
def negateClause (clause : CallableConditionClause) : CallableConditionDescriptor :=
  canonicalize ⟨clause.atoms.map fun a => ⟨[⟨a.parameterIndex, !a.expected, a.variant⟩]⟩, true⟩

/-- The loop of `conditionNot`. -/
def negateClauses : List CallableConditionClause → CallableConditionDescriptor →
    CallableConditionDescriptor
  | [], result => result
  | clause :: clauses, result =>
    let result := conditionAnd result (negateClause clause)
    if !result.exact then result else negateClauses clauses result

/-- `conditionNot`. -/
def conditionNot (condition : CallableConditionDescriptor) : CallableConditionDescriptor :=
  if !condition.exact then unknown
  else if condition.isNever then always
  else negateClauses condition.clauses always

/-! ## Meaning -/

/-- The arguments of a call, as far as conditions ask: the booleans and the variants held by the
enums. -/
structure Assignment where
  bool : Nat → Bool
  variant : Nat → Nat

/-- What an atom says of the arguments. -/
def CallableConditionAtom.eval (ρ : Assignment) (a : CallableConditionAtom) : Bool :=
  (if a.variant = invalidIndex then ρ.bool a.parameterIndex
    else ρ.variant a.parameterIndex == a.variant) == a.expected

/-- What a clause says of the arguments. -/
def CallableConditionClause.eval (ρ : Assignment) (c : CallableConditionClause) : Bool :=
  c.atoms.all (·.eval ρ)

/-- What a condition says of the arguments. -/
def CallableConditionDescriptor.eval (ρ : Assignment) (c : CallableConditionDescriptor) : Bool :=
  c.clauses.any (·.eval ρ)

section Meaning

variable (ρ : Assignment)

@[simp] lemma eval_always : always.eval ρ = true := rfl

@[simp] lemma eval_never : never.eval ρ = false := rfl

@[simp] lemma eval_unknown : unknown.eval ρ = true := rfl

variable {ρ}

variable {c : CallableConditionDescriptor}

/-- A condition that is syntactically true holds. -/
lemma eval_of_isAlways (h : c.isAlways = true) : c.eval ρ = true := by
  rcases c with ⟨clauses, e⟩
  simp only [isAlways, Bool.and_eq_true] at h
  rcases clauses with _ | ⟨⟨_ | ⟨a, as⟩⟩, _ | ⟨c, cs⟩⟩
  · simp at h
  · rfl
  · simp at h
  · simp at h
  · simp at h

/-- A condition that is syntactically false does not hold. -/
lemma eval_of_isNever (h : c.isNever = true) : c.eval ρ = false := by
  simp only [isNever, Bool.and_eq_true, List.isEmpty_iff] at h
  simp [CallableConditionDescriptor.eval, h.2]

/-! ## Canonicalisation keeps the meaning -/

/-- `std::unique` keeps the elements. -/
lemma mem_adjacentUnique {α : Type} [DecidableEq α] (x : α) (l : List α) :
    x ∈ adjacentUnique l ↔ x ∈ l := by
  induction l using adjacentUnique.induct with
  | case1 => simp [adjacentUnique]
  | case2 a => simp [adjacentUnique]
  | case3 b l ih => rw [adjacentUnique, if_pos rfl, ih]; simp
  | case4 a b l hab ih => rw [adjacentUnique, if_neg hab]; simp [ih]

/-- Sorting a clause keeps its meaning. -/
lemma eval_sortClause (c : CallableConditionClause) : (sortClause c).eval ρ = c.eval ρ := by
  rw [Bool.eq_iff_iff]
  simp [sortClause, CallableConditionClause.eval, mem_adjacentUnique, List.mem_insertionSort]

/-- A clause that asks for two variants is never true. -/
lemma eval_of_twoVariants {c : CallableConditionClause} (h : twoVariants c = true) :
    c.eval ρ = false := by
  simp only [twoVariants, List.any_eq_true, Bool.and_eq_true, beq_iff_eq, bne_iff_ne] at h
  obtain ⟨a, ha, b, hb, ⟨⟨⟨⟨hp, hae⟩, hbe⟩, hav⟩, hbv⟩, hne⟩ := h
  by_contra hc
  simp only [CallableConditionClause.eval, Bool.not_eq_false, List.all_eq_true] at hc
  have h₁ := hc a ha
  have h₂ := hc b hb
  simp only [CallableConditionAtom.eval, if_neg hav, if_neg hbv, hae, hbe, beq_iff_eq] at h₁ h₂
  exact hne (by rw [← h₁, ← h₂, hp])

/-- An atom with the opposite expectation. -/
lemma eval_negated (p v : Nat) (b : Bool) :
    (CallableConditionAtom.mk p (!b) v).eval ρ = !(CallableConditionAtom.mk p b v).eval ρ := by
  simp only [CallableConditionAtom.eval]
  cases b <;> simp

/-- A clause with contradicting neighbours is never true. -/
lemma eval_of_adjacentContradiction {l : List CallableConditionAtom}
    (h : adjacentContradiction l = true) : l.all (·.eval ρ) = false := by
  induction l using adjacentContradiction.induct with
  | case1 a b l ih =>
    simp only [adjacentContradiction, Bool.or_eq_true, Bool.and_eq_true, beq_iff_eq,
      bne_iff_ne] at h
    rcases h with ⟨⟨hp, hv⟩, he⟩ | h
    · have hab : a.eval ρ = !b.eval ρ := by
        have hx : a.expected = !b.expected := by
          cases ha : a.expected <;> cases hb : b.expected <;> simp_all
        rw [← eval_negated, ← hp, ← hv, ← hx]
      simp only [List.all_cons, hab]
      cases b.eval ρ <;> rfl
    · rw [List.all_cons, ih h, Bool.and_false]
  | case2 l hl =>
    rcases l with _ | ⟨a, _ | ⟨b, l⟩⟩
    · simp [adjacentContradiction] at h
    · simp [adjacentContradiction] at h
    · exact absurd rfl (hl a b l)

/-- Keeping the minimal clauses keeps the meaning of a disjunction. -/
lemma any_keepMinimal (minimal : List CallableConditionClause) (clause : CallableConditionClause) :
    (keepMinimal minimal clause).any (·.eval ρ) = (minimal.any (·.eval ρ) || clause.eval ρ) := by
  have hs : ∀ {a b : CallableConditionClause}, clauseSubsumes a b = true → b.eval ρ = true →
      a.eval ρ = true := by
    intro a b hab hb
    simp only [clauseSubsumes, CallableConditionClause.eval, List.all_eq_true,
      List.contains_iff_mem] at hab hb ⊢
    exact fun x hx => hb x (hab x hx)
  unfold keepMinimal
  split
  · next h =>
    obtain ⟨a, ha, hac⟩ := List.any_eq_true.1 h
    rw [Bool.eq_iff_iff, Bool.or_eq_true]
    refine ⟨Or.inl, fun hx => hx.elim id fun hc => ?_⟩
    exact List.any_eq_true.2 ⟨a, ha, hs hac hc⟩
  · rw [Bool.eq_iff_iff]
    simp only [List.any_eq_true, List.mem_insertionSort, List.mem_append, List.mem_filter,
      List.mem_singleton, Bool.or_eq_true, Bool.not_eq_true']
    constructor
    · rintro ⟨x, ⟨hx, -⟩ | rfl, he⟩
      · exact .inl ⟨x, hx, he⟩
      · exact .inr he
    · rintro (⟨x, hx, he⟩ | he)
      · by_cases hc : clauseSubsumes clause x = true
        · exact ⟨clause, .inr rfl, hs hc he⟩
        · exact ⟨x, .inl ⟨hx, by simpa using hc⟩, he⟩
      · exact ⟨clause, .inr rfl, he⟩

/-- The loop that keeps the minimal clauses keeps the meaning. -/
lemma any_foldl_keepMinimal (l minimal : List CallableConditionClause) :
    (l.foldl keepMinimal minimal).any (·.eval ρ) = (minimal.any (·.eval ρ) || l.any (·.eval ρ)) := by
  induction l generalizing minimal with
  | nil => simp
  | cons c l ih => rw [List.foldl_cons, ih, any_keepMinimal, List.any_cons, Bool.or_assoc]

/-- **Canonicalisation** of a condition keeps its meaning when its result is exact.

**Proof sketch.** Sorting keeps the atoms, the clauses that are dropped are contradictory or
subsumed by one that stays, and the two early results are exact only when a clause is empty. -/
lemma eval_canonicalize (h : c.canonicalize.exact = true) : c.canonicalize.eval ρ = c.eval ρ := by
  have hfilter : (((c.clauses.map sortClause).filter fun clause =>
      !(twoVariants clause || adjacentContradiction clause.atoms)).any (·.eval ρ)) = c.eval ρ := by
    rw [Bool.eq_iff_iff]
    simp only [CallableConditionDescriptor.eval, List.any_eq_true, List.mem_filter, List.mem_map]
    constructor
    · rintro ⟨_, ⟨⟨x, hx, rfl⟩, -⟩, he⟩
      exact ⟨x, hx, by rwa [eval_sortClause] at he⟩
    · rintro ⟨x, hx, he⟩
      have he' : (sortClause x).eval ρ = true := by rwa [eval_sortClause]
      refine ⟨sortClause x, ⟨⟨x, hx, rfl⟩, ?_⟩, he'⟩
      rw [Bool.not_eq_true', Bool.or_eq_false_iff]
      constructor
      · by_contra ht
        rw [eval_of_twoVariants (by simpa using ht)] at he'
        exact absurd he' (by simp)
      · by_contra ht
        have hf := eval_of_adjacentContradiction (ρ := ρ) (l := (sortClause x).atoms)
          (by simpa using ht)
        exact absurd (he'.symm.trans hf) (by simp)
  rw [← hfilter]
  unfold canonicalize at h ⊢
  by_cases hx : c.exact = true
  swap
  · simp [hx, unknown] at h
  simp only [hx, Bool.not_true, Bool.false_eq_true, if_false] at h ⊢
  split
  · next he =>
    obtain ⟨x, hx, hxe⟩ := List.any_eq_true.1 he
    refine (eval_always ρ).trans (Eq.symm (List.any_eq_true.2 ⟨x, hx, ?_⟩))
    rw [List.isEmpty_iff] at hxe
    simp [CallableConditionClause.eval, hxe]
  · next he =>
    rw [if_neg he] at h
    split
    · next hm =>
      rw [if_pos hm] at h
      simp [unknown] at h
    · rw [CallableConditionDescriptor.eval, any_foldl_keepMinimal, List.any_nil, Bool.false_or,
        Bool.eq_iff_iff]
      simp only [List.any_eq_true, mem_adjacentUnique, List.mem_insertionSort]

/-! ## The operations mean what they say -/

variable {a b : CallableConditionDescriptor}

/-- **Disjunction.** -/
theorem eval_conditionOr (h : (conditionOr a b).exact = true) :
    (conditionOr a b).eval ρ = (a.eval ρ || b.eval ρ) := by
  unfold conditionOr at h ⊢
  split
  · next ha =>
    rcases Bool.or_eq_true_iff.1 ha with ha | ha
    · simp [eval_of_isAlways ha]
    · simp [eval_of_isAlways ha]
  · next ha =>
    rw [if_neg ha] at h
    split
    · next hx =>
      rw [if_pos hx] at h
      simp [unknown] at h
    · next hx =>
      rw [if_neg hx] at h
      rw [eval_canonicalize h]
      simp [CallableConditionDescriptor.eval]

/-- **Conjunction.** -/
theorem eval_conditionAnd (h : (conditionAnd a b).exact = true) :
    (conditionAnd a b).eval ρ = (a.eval ρ && b.eval ρ) := by
  unfold conditionAnd at h ⊢
  split
  · next hn =>
    rcases Bool.or_eq_true_iff.1 hn with hn | hn
    · simp [eval_of_isNever hn]
    · simp [eval_of_isNever hn]
  next hn =>
  rw [if_neg hn] at h
  split
  · next hx =>
    rw [if_pos hx] at h
    simp [unknown] at h
  next hx =>
  rw [if_neg hx] at h
  split
  · next ha => simp [eval_of_isAlways ha]
  next ha =>
  rw [if_neg ha] at h
  split
  · next hb => simp [eval_of_isAlways hb]
  next hb =>
  rw [if_neg hb] at h
  split
  · next hm =>
    rw [if_pos hm] at h
    simp [unknown] at h
  next hm =>
  rw [if_neg hm] at h
  rw [eval_canonicalize h, Bool.eq_iff_iff]
  simp only [CallableConditionDescriptor.eval, CallableConditionClause.eval, List.any_eq_true,
    List.mem_flatMap, List.mem_map, Bool.and_eq_true]
  constructor
  · rintro ⟨_, ⟨x, hx, y, hy, rfl⟩, he⟩
    rw [List.all_append, Bool.and_eq_true] at he
    exact ⟨⟨x, hx, he.1⟩, ⟨y, hy, he.2⟩⟩
  · rintro ⟨⟨x, hx, hx'⟩, ⟨y, hy, hy'⟩⟩
    exact ⟨_, ⟨x, hx, y, hy, rfl⟩, by rw [List.all_append, hx', hy', Bool.and_true]⟩

/-- The conjunction of an inexact condition is exact only when the other one is never true. -/
lemma exact_right_of_conditionAnd (h : (conditionAnd a b).exact = true) (hb : b.exact = false) :
    a.isNever = true ∨ b.isNever = true := by
  unfold conditionAnd at h
  by_cases hn : (a.isNever || b.isNever) = true
  · exact Bool.or_eq_true_iff.1 hn
  · rw [if_neg hn] at h
    simp [hb, unknown] at h

/-- The negation of one clause. -/
lemma eval_negateClause {clause : CallableConditionClause}
    (h : (negateClause clause).exact = true) :
    (negateClause clause).eval ρ = !clause.eval ρ := by
  unfold negateClause at h ⊢
  rw [eval_canonicalize h]
  simp only [CallableConditionDescriptor.eval, CallableConditionClause.eval, List.any_map,
    Function.comp_def, List.all_cons, List.all_nil, Bool.and_true, eval_negated,
    List.not_all_eq_any_not]

/-- The negations of several clauses, joined to a condition.

**Proof sketch.** Induction on the clauses. A conjunction that is exact although one operand is not
has an operand that is never true, and then both sides are false. -/
lemma eval_negateClauses {clauses : List CallableConditionClause}
    {result : CallableConditionDescriptor} (h : (negateClauses clauses result).exact = true) :
    (negateClauses clauses result).eval ρ = (result.eval ρ && !clauses.any (·.eval ρ)) := by
  induction clauses generalizing result with
  | nil => simp [negateClauses]
  | cons clause clauses ih =>
    have hx : (conditionAnd result (negateClause clause)).exact = true := by
      by_contra hx
      rw [Bool.not_eq_true] at hx
      simp [negateClauses, hx] at h
    have hstep : (conditionAnd result (negateClause clause)).eval ρ =
        (result.eval ρ && !clause.eval ρ) := by
      rw [eval_conditionAnd hx]
      by_cases hn : (negateClause clause).exact = true
      · rw [eval_negateClause hn]
      · rcases exact_right_of_conditionAnd hx (by simpa using hn) with hr | hr
        · simp [eval_of_isNever hr]
        · simp [isNever, hn] at hr
    simp only [negateClauses, hx, Bool.not_true, Bool.false_eq_true, if_false] at h ⊢
    rw [ih h, hstep, List.any_cons, Bool.not_or, Bool.and_assoc]

/-- **Negation.** -/
theorem eval_conditionNot (h : (conditionNot c).exact = true) :
    (conditionNot c).eval ρ = !c.eval ρ := by
  unfold conditionNot at h ⊢
  split
  · next hx =>
    rw [if_pos hx] at h
    simp [unknown] at h
  next hx =>
  rw [if_neg hx] at h
  split
  · next hn => simp [eval_of_isNever hn]
  next hn =>
  rw [if_neg hn] at h
  rw [eval_negateClauses h, eval_always, Bool.true_and]
  rfl

end Meaning

end Chtholly
