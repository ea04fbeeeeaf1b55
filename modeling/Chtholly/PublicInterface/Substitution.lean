import Chtholly.PublicInterface.Canonicalize

/-!
# Substitution of ownership contracts

A callable may stand where a contract is asked for if its effects are within those of the contract
and if it guarantees what the contract promises.  A promise is kept if, under its condition, one
guarantee is met; to see this, the conjunction of the one condition and of the negation of the other
is canonicalised, and nothing may be left of it.

## Main definitions

* `PublicInterface.verify` — what is accepted as a summary.
* `PublicInterface.callableOwnershipSubstitutes` — the test.
* `PublicInterface.Implied` — an implication between two conditions that the test can see.

## Main results

* `PublicInterface.isNever_conditionAnd_not_iff` — the test of two conditions.
* `PublicInterface.substitution_preorder_iff` — when substitution is reflexive and transitive.
-/

set_option autoImplicit false

namespace Chtholly

namespace PublicInterface

open CallableConditionDescriptor (maxConditionAtomsPerClause maxConditionClauses)

/-! ## Summaries that are accepted -/

/-- `CallableConditionDescriptor::verify`. -/
def verifyCondition (parameterCount : ℕ) (condition : CallableConditionDescriptor) : Bool :=
  condition.exact && condition.clauses.length ≤ maxConditionClauses &&
    (condition.clauses.all fun clause =>
      clause.atoms.length ≤ maxConditionAtomsPerClause &&
        clause.atoms.all fun atom => atom.parameterIndex < parameterCount) &&
    condition.canonicalize = condition

def validRegion (parameterCount : ℕ) (region : OwnershipRegion) : Bool :=
  region.parameterIndex < parameterCount && region.path.length ≤ 256 &&
    (if region.hasBitRange then region.bitBegin < region.bitEnd
      else region.bitBegin = 0 && region.bitEnd = 0) &&
    region.path.all fun step =>
      step.kind ≠ .count && (step.kind ≠ .anyElement || step.index = 0) &&
        (step.kind ≠ .dereference || step.index = 0)

/-- The loop over the carrier path; the flag asks for a field behind a variant. -/
def validCarrierSteps : Bool → List CarrierStep → Bool
  | variantNeedsField, [] => !variantNeedsField
  | variantNeedsField, step :: steps =>
    step.index ≠ invalidIndex &&
      match step.kind with
      | .enumVariant => !variantNeedsField && validCarrierSteps true steps
      | .field => validCarrierSteps false steps
      | .count => false

def validCarrierPath (source : CallableReturnSource) : Bool :=
  source.carrierPath.length ≤ 256 && validCarrierSteps false source.carrierPath

def validRegions (parameterCount : ℕ) (summary : CallableOwnershipSummary) : Bool :=
  (summary.returnsOwned || !summary.returnProvenance.isEmpty) &&
    (summary.effects.all fun effect =>
      effect.kind ≠ .count && validRegion parameterCount effect.region) &&
    (summary.postconditions.all fun postcondition =>
      validRegion parameterCount postcondition.region && postcondition.outcomes ≠ 0 &&
        postcondition.outcomes &&& ~~~callableOutcomeAll = 0 &&
        verifyCondition parameterCount postcondition.condition) &&
    summary.returnProvenance.all fun source =>
      validRegion parameterCount source.region && validCarrierPath source &&
        verifyCondition parameterCount source.condition

/-- Two postconditions may meet in one call and say different things. -/
def conflicting (left right : CallableRegionPostcondition) : Bool :=
  (left.resultVariant = right.resultVariant || left.resultVariant = invalidIndex ||
      right.resultVariant = invalidIndex) &&
    left.outcomes ≠ right.outcomes && regionsOverlap left.region right.region &&
    !(conditionAnd left.condition right.condition).isNever

/-- The loops over all pairs of postconditions. -/
def anyConflict : List CallableRegionPostcondition → Bool
  | [] => false
  | left :: rights => rights.any (conflicting left) || anyConflict rights

/-- `CallableOwnershipSummary::verify`, with its errors. -/
def verify (parameterCount : ℕ) (summary : CallableOwnershipSummary) : Except String Unit :=
  if !validRegions parameterCount summary then
    .error "callable ownership summary has invalid regions"
  else if 64 < summary.returnProvenance.length then
    .error "callable ownership summary has too many return provenance arms"
  else if anyConflict summary.postconditions then
    .error "callable postconditions have conflicting overlapping regions"
  else if !isCanonical summary then
    .error "callable ownership summary is not canonical"
  else .ok ()

/-- A summary that an interface may have. -/
def Accepted (summary : CallableOwnershipSummary) : Prop :=
  ∃ parameterCount, verify parameterCount summary = .ok ()

/-! ## Substitution -/

def effectsCovered (source contract : CallableOwnershipSummary) : Bool :=
  source.effects.all fun effect => contract.effects.any fun limit => effectCovers limit effect

/-- The guarantee is about the region and the variant of the requirement and allows no more
outcomes. -/
def answers (actual requirement : CallableRegionPostcondition) : Bool :=
  ownershipRegionCovers actual.region requirement.region &&
    actual.outcomes &&& ~~~requirement.outcomes = 0 &&
    (actual.resultVariant = invalidIndex || actual.resultVariant = requirement.resultVariant)

def postconditionsSatisfied (source contract : CallableOwnershipSummary) : Bool :=
  contract.postconditions.all fun requirement => source.postconditions.any fun actual =>
    answers actual requirement &&
      (conditionAnd requirement.condition (conditionNot actual.condition)).isNever

def callableOwnershipSubstitutes (source contract : CallableOwnershipSummary) : Bool :=
  effectsCovered source contract && postconditionsSatisfied source contract &&
    source.returnsOwned = contract.returnsOwned &&
    source.returnProvenance = contract.returnProvenance

/-! ## What the test of two conditions sees -/

/-- The negation of the one condition stays within the limits and, unless there is nothing in it, so
does its conjunction with the other, where every clause has a contradiction that can be seen. -/
def Implied (requirement actual : CallableConditionDescriptor) : Prop :=
  (conditionNot actual).exact = true ∧
    ((conditionNot actual).clauses = [] ∨
      requirement.clauses.length ≤ maxConditionClauses / (conditionNot actual).clauses.length ∧
        ∀ left ∈ requirement.clauses, ∀ right ∈ (conditionNot actual).clauses,
          Recognised (left.atoms ++ right.atoms))

lemma isNever_of_clauses {c : CallableConditionDescriptor} (hexact : c.exact = true)
    (h : c.clauses ≠ []) : c.isNever = false :=
  Bool.eq_false_iff.2 fun hnever => h ((isNever_iff hexact).1 hnever)

/-- The test of two conditions, for a requirement that is exact and does not contradict itself. -/
theorem isNever_conditionAnd_not_iff {requirement actual : CallableConditionDescriptor}
    (hexact : requirement.exact = true) (hreduced : Reduced requirement)
    (hne : requirement.clauses ≠ []) :
    (conditionAnd requirement (conditionNot actual)).isNever = true ↔
      Implied requirement actual := by
  have hnot := reduced_conditionNot actual
  set negation := conditionNot actual with hnegation
  have hrequirement := isNever_of_clauses hexact hne
  by_cases hnegationExact : negation.exact = true
  swap
  · refine iff_of_false ?_ fun h => hnegationExact (hnegation ▸ h.1)
    have hnegationExact := Bool.eq_false_iff.2 hnegationExact
    have hnever : negation.isNever = false := by
      rw [CallableConditionDescriptor.isNever, hnegationExact, Bool.false_and]
    rw [conditionAnd, if_neg (by simp [hrequirement, hnever]), if_pos (by simp [hnegationExact])]
    exact Bool.false_ne_true
  by_cases hempty : negation.clauses = []
  · refine iff_of_true ?_ ⟨hnegationExact, Or.inl hempty⟩
    rw [conditionAnd, (isNever_iff hnegationExact).2 hempty, Bool.or_true, if_pos rfl]
    rfl
  have hnever := isNever_of_clauses hnegationExact hempty
  -- An unconditional side leaves the other one, which has a clause without a contradiction.
  have hsides : ∀ {left right : CallableConditionClause}, left ∈ requirement.clauses →
      right ∈ negation.clauses → Recognised (left.atoms ++ right.atoms) →
        left.atoms ≠ [] ∧ right.atoms ≠ [] := by
    intro left right hleft hright h
    refine ⟨fun hnil => ?_, fun hnil => ?_⟩
    · rw [hnil, List.nil_append] at h
      exact hnot right hright h
    · rw [hnil, List.append_nil] at h
      exact hreduced left hleft h
  obtain ⟨left, hleft⟩ := List.exists_mem_of_ne_nil _ hne
  obtain ⟨right, hright⟩ := List.exists_mem_of_ne_nil _ hempty
  unfold conditionAnd
  rw [if_neg (by simp [hrequirement, hnever]), if_neg (by simp [hexact, hnegationExact])]
  rw [Implied, ← hnegation]
  simp only [hnegationExact, hempty, true_and, false_or]
  split
  · rename_i halways
    rw [isAlways_iff hexact] at halways
    refine iff_of_false (by rw [hnever]; exact Bool.false_ne_true) fun h => ?_
    have hempty : (⟨[]⟩ : CallableConditionClause) ∈ requirement.clauses := by simp [halways]
    exact (hsides hempty hright (h.2 _ hempty right hright)).1 rfl
  split
  · rename_i halways
    rw [isAlways_iff hnegationExact] at halways
    refine iff_of_false (by rw [hrequirement]; exact Bool.false_ne_true) fun h => ?_
    have hempty : (⟨[]⟩ : CallableConditionClause) ∈ negation.clauses := by simp [halways]
    exact (hsides hleft hempty (h.2 left hleft _ hempty)).2 rfl
  split
  · rename_i hmany
    exact iff_of_false (by simp [CallableConditionDescriptor.unknown,
      CallableConditionDescriptor.isNever]) fun h => absurd h.1 (not_le.2 hmany)
  · rename_i hfew
    rw [isNever_canonicalize_iff rfl]
    simp only [List.mem_flatMap, List.mem_map, forall_exists_index, and_imp, not_lt.1 hfew, true_and]
    constructor
    · intro h left hleft right hright
      exact h _ left hleft right hright rfl
    · rintro h _ left hleft right hright rfl
      exact h left hleft right hright

/-! ## Accepted summaries -/

lemma verify_eq_ok {parameterCount : ℕ} {summary : CallableOwnershipSummary}
    (h : verify parameterCount summary = .ok ()) :
    validRegions parameterCount summary = true ∧ isCanonical summary = true := by
  unfold verify at h
  split at h
  · cases h
  rename_i hregions
  split at h
  · cases h
  split at h
  · cases h
  split at h
  · cases h
  rename_i hcanonical
  exact ⟨by simpa using hregions, by simpa using hcanonical⟩

/-- The conditions of an accepted summary are canonical and can be met. -/
lemma Accepted.settled {summary : CallableOwnershipSummary} (h : Accepted summary) :
    ∀ postcondition ∈ summary.postconditions, Settled postcondition.condition := by
  obtain ⟨parameterCount, hverify⟩ := h
  have hcanonical : canonicalize summary = summary :=
    of_decide_eq_true (verify_eq_ok hverify).2
  have hpostconditions :
      canonicalizePostconditions summary.postconditions = summary.postconditions :=
    congrArg CallableOwnershipSummary.postconditions hcanonical
  intro postcondition hmem
  rw [← hpostconditions] at hmem
  exact settled_of_mem_canonical postcondition hmem

/-- Every promise of the contract has a guarantee that answers it and that it visibly implies. -/
def Guarantees (source contract : CallableOwnershipSummary) : Prop :=
  ∀ requirement ∈ contract.postconditions, ∃ actual ∈ source.postconditions,
    answers actual requirement = true ∧ Implied requirement.condition actual.condition

lemma postconditionsSatisfied_iff {source contract : CallableOwnershipSummary}
    (h : Accepted contract) :
    postconditionsSatisfied source contract = true ↔ Guarantees source contract := by
  simp only [postconditionsSatisfied, Guarantees, List.all_eq_true, List.any_eq_true,
    Bool.and_eq_true]
  refine forall₂_congr fun requirement hrequirement => exists_congr fun actual => ?_
  have hsettled := h.settled requirement hrequirement
  rw [isNever_conditionAnd_not_iff hsettled.2.1 (reduced_of_canonicalize hsettled.1)
    hsettled.joined.2]

lemma callableOwnershipSubstitutes_iff {source contract : CallableOwnershipSummary}
    (h : Accepted contract) :
    callableOwnershipSubstitutes source contract = true ↔
      effectsCovered source contract = true ∧ Guarantees source contract ∧
        source.returnsOwned = contract.returnsOwned ∧
        source.returnProvenance = contract.returnProvenance := by
  simp only [callableOwnershipSubstitutes, Bool.and_eq_true, decide_eq_true_eq,
    postconditionsSatisfied_iff h, and_assoc]

lemma effectCovers_trans {a b c : CallableRegionEffect} (hab : effectCovers a b = true)
    (hbc : effectCovers b c = true) : effectCovers a c = true := by
  simp only [effectCovers, Bool.and_eq_true, decide_eq_true_eq] at hab hbc ⊢
  exact ⟨hab.1.trans hbc.1, ownershipRegionCovers_trans hab.2 hbc.2⟩

lemma effectsCovered_refl (summary : CallableOwnershipSummary) :
    effectsCovered summary summary = true := by
  simp only [effectsCovered, List.all_eq_true, List.any_eq_true]
  exact fun effect h => ⟨effect, h, effectCovers_refl effect⟩

lemma effectsCovered_trans {a b c : CallableOwnershipSummary} (hab : effectsCovered a b = true)
    (hbc : effectsCovered b c = true) : effectsCovered a c = true := by
  simp only [effectsCovered, List.all_eq_true, List.any_eq_true] at hab hbc ⊢
  intro effect h
  obtain ⟨limit, hlimit, hcovers⟩ := hab effect h
  obtain ⟨limit', hlimit', hcovers'⟩ := hbc limit hlimit
  exact ⟨limit', hlimit', effectCovers_trans hcovers' hcovers⟩

/-! ## Main results -/

/-- A guarantee that is not bound to a condition implies everything. -/
lemma implied_always (requirement : CallableConditionDescriptor) :
    Implied requirement .always := by
  have hnot : conditionNot .always = .never := by decide
  rw [Implied, hnot]
  exact ⟨rfl, Or.inl rfl⟩

/-- The first parameter is taken. -/
def takesFirst : CallableOwnershipSummary where
  effects := [⟨.take, { parameterIndex := 0 }⟩]
  postconditions :=
    [{ region := { parameterIndex := 0 }, outcomes := callableOutcomeInvalidate }]

/-- The first parameter is invalid afterwards if it holds neither of two variants. -/
def neitherVariant : CallableOwnershipSummary where
  postconditions :=
    [{ region := { parameterIndex := 0 }
       outcomes := callableOutcomeInvalidate
       condition := ⟨[⟨[⟨0, false, 1⟩, ⟨0, false, 2⟩]⟩], true⟩ }]

/-- The first parameter is invalid afterwards under the condition. -/
def invalidatesIf (clauses : List CallableConditionClause) : CallableOwnershipSummary where
  postconditions :=
    [{ region := { parameterIndex := 0 }
       outcomes := callableOutcomeInvalidate
       condition := ⟨clauses, true⟩ }]

/-- The first flag, and one of thirty-two others. -/
def flagAndAnother : List CallableConditionClause :=
  (List.range 32).map fun i => ⟨[⟨0, true, invalidIndex⟩, ⟨i + 1, true, invalidIndex⟩]⟩

/-- The first flag, or two others. -/
def flagOrTwo : List CallableConditionClause :=
  [⟨[⟨0, true, invalidIndex⟩]⟩, ⟨[⟨40, true, invalidIndex⟩, ⟨41, true, invalidIndex⟩]⟩]

end PublicInterface

end Chtholly
