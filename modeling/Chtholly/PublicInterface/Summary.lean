import Chtholly.Ownership.CanonicalCondition

/-!
# Ownership summaries of public interfaces

The summary of a callable as it is kept in an interface: what the callable does with the regions that
are reached from its parameters, in which state it leaves them, and where a returned reference comes
from.  A region covers another one if it contains it.

## Main definitions

* `PublicInterface.OwnershipRegion`, `PublicInterface.CallableOwnershipSummary` — the data.
* `PublicInterface.ownershipRegionCovers` — one region contains another one.
* `PublicInterface.regionKey` — what regions are sorted by.

## Main results

* `PublicInterface.ownershipRegionCovers_refl`, `PublicInterface.ownershipRegionCovers_trans` — the
  regions are preordered.
* `PublicInterface.regionKey_injective` — the key has all that is in a region.
-/

set_option autoImplicit false

namespace Chtholly

namespace PublicInterface

/-! ## Regions -/

inductive OwnershipRegionStepKind
  | field | staticElement | anyElement | dereference | count
  deriving DecidableEq

/-- The value of the enumerator. -/
def OwnershipRegionStepKind.rank : OwnershipRegionStepKind → ℕ
  | .field => 0
  | .staticElement => 1
  | .anyElement => 2
  | .dereference => 3
  | .count => 4

structure OwnershipRegionStep where
  kind : OwnershipRegionStepKind := .count
  index : ℕ := 0
  deriving DecidableEq

structure OwnershipRegion where
  parameterIndex : ℕ := invalidIndex
  path : List OwnershipRegionStep := []
  hasBitRange : Bool := false
  bitBegin : ℕ := 0
  bitEnd : ℕ := 0
  deriving DecidableEq

def regionStepCovers (allowed actual : OwnershipRegionStep) : Bool :=
  if allowed.kind = .anyElement then
    actual.kind = .anyElement || actual.kind = .staticElement
  else allowed = actual

/-- The loop over the steps of the allowed region. -/
def pathCovers : List OwnershipRegionStep → List OwnershipRegionStep → Bool
  | [], _ => true
  | _ :: _, [] => false
  | allowed :: alloweds, actual :: actuals =>
    regionStepCovers allowed actual && pathCovers alloweds actuals

def ownershipRegionCovers (allowed actual : OwnershipRegion) : Bool :=
  allowed.parameterIndex = actual.parameterIndex &&
    pathCovers allowed.path actual.path &&
    (allowed.path.length < actual.path.length || !allowed.hasBitRange ||
      actual.hasBitRange && allowed.bitBegin ≤ actual.bitBegin && actual.bitEnd ≤ allowed.bitEnd)

/-- The loop over the common steps. -/
def pathsOverlap : List OwnershipRegionStep → List OwnershipRegionStep → Bool
  | left :: lefts, right :: rights =>
    (left.kind = .anyElement || right.kind = .anyElement || left = right) &&
      pathsOverlap lefts rights
  | _, _ => true

def regionsOverlap (lhs rhs : OwnershipRegion) : Bool :=
  lhs.parameterIndex = rhs.parameterIndex && pathsOverlap lhs.path rhs.path &&
    (lhs.path.length != rhs.path.length || !lhs.hasBitRange || !rhs.hasBitRange ||
      lhs.bitBegin < rhs.bitEnd && rhs.bitBegin < lhs.bitEnd)

def OwnershipRegionStep.key (step : OwnershipRegionStep) : ℕ ×ₗ ℕ :=
  toLex (step.kind.rank, step.index)

def regionKey (region : OwnershipRegion) : ℕ ×ₗ List (ℕ ×ₗ ℕ) ×ₗ Bool ×ₗ ℕ ×ₗ ℕ :=
  toLex (region.parameterIndex, toLex (region.path.map OwnershipRegionStep.key,
    toLex (region.hasBitRange, toLex (region.bitBegin, region.bitEnd))))

/-! ## Summaries -/

inductive CallableEffectKind
  | read | write | take | borrowShared | borrowMutable | initializes | count
  deriving DecidableEq

/-- The value of the enumerator. -/
def CallableEffectKind.rank : CallableEffectKind → ℕ
  | .read => 0
  | .write => 1
  | .take => 2
  | .borrowShared => 3
  | .borrowMutable => 4
  | .initializes => 5
  | .count => 6

structure CallableRegionEffect where
  kind : CallableEffectKind := .count
  region : OwnershipRegion := {}
  deriving DecidableEq

def callableOutcomePreserve : UInt8 := 1
def callableOutcomeInitialize : UInt8 := 2
def callableOutcomeInvalidate : UInt8 := 4
def callableOutcomeAll : UInt8 := 7

structure CallableRegionPostcondition where
  region : OwnershipRegion := {}
  outcomes : UInt8 := callableOutcomePreserve
  condition : CallableConditionDescriptor := .always
  resultVariant : ℕ := invalidIndex
  deriving DecidableEq

inductive CarrierStepKind
  | enumVariant | field | count
  deriving DecidableEq

/-- The value of the enumerator. -/
def CarrierStepKind.rank : CarrierStepKind → ℕ
  | .enumVariant => 0
  | .field => 1
  | .count => 2

structure CarrierStep where
  kind : CarrierStepKind := .field
  index : ℕ := invalidIndex
  deriving DecidableEq

structure CallableReturnSource where
  region : OwnershipRegion := {}
  carrierPath : List CarrierStep := []
  condition : CallableConditionDescriptor := .always
  deriving DecidableEq

structure CallableOwnershipSummary where
  effects : List CallableRegionEffect := []
  postconditions : List CallableRegionPostcondition := []
  returnsOwned : Bool := true
  returnProvenance : List CallableReturnSource := []
  deriving DecidableEq

def CarrierStep.key (step : CarrierStep) : ℕ ×ₗ ℕ :=
  toLex (step.kind.rank, step.index)

/-! ## The order of regions -/

lemma OwnershipRegionStepKind.rank_injective : Function.Injective OwnershipRegionStepKind.rank := by
  intro kind kind' h
  cases kind <;> cases kind' <;> first | rfl | exact absurd h (by decide)

lemma CarrierStepKind.rank_injective : Function.Injective CarrierStepKind.rank := by
  intro kind kind' h
  cases kind <;> cases kind' <;> first | rfl | exact absurd h (by decide)

lemma CallableEffectKind.rank_injective : Function.Injective CallableEffectKind.rank := by
  intro kind kind' h
  cases kind <;> cases kind' <;> first | rfl | exact absurd h (by decide)

lemma OwnershipRegionStep.key_injective : Function.Injective OwnershipRegionStep.key := by
  rintro ⟨kind, index⟩ ⟨kind', index'⟩ h
  simp only [OwnershipRegionStep.key, EmbeddingLike.apply_eq_iff_eq, Prod.mk.injEq] at h
  rw [OwnershipRegionStepKind.rank_injective h.1, h.2]

lemma CarrierStep.key_injective : Function.Injective CarrierStep.key := by
  rintro ⟨kind, index⟩ ⟨kind', index'⟩ h
  simp only [CarrierStep.key, EmbeddingLike.apply_eq_iff_eq, Prod.mk.injEq] at h
  rw [CarrierStepKind.rank_injective h.1, h.2]

theorem regionKey_injective : Function.Injective regionKey := by
  rintro ⟨parameter, path, range, first, last⟩ ⟨parameter', path', range', first', last'⟩ h
  simp only [regionKey, EmbeddingLike.apply_eq_iff_eq, Prod.mk.injEq] at h
  obtain ⟨rfl, hpath, rfl, rfl, rfl⟩ := h
  rw [List.map_injective_iff.2 OwnershipRegionStep.key_injective hpath]

/-! ## Coverage -/

lemma regionStepCovers_refl (step : OwnershipRegionStep) : regionStepCovers step step = true := by
  unfold regionStepCovers
  split <;> simp_all

lemma regionStepCovers_trans {a b c : OwnershipRegionStep} (hab : regionStepCovers a b = true)
    (hbc : regionStepCovers b c = true) : regionStepCovers a c = true := by
  unfold regionStepCovers at hab hbc ⊢
  by_cases ha : a.kind = .anyElement
  · rw [if_pos ha] at hab ⊢
    by_cases hb : b.kind = .anyElement
    · rwa [if_pos hb] at hbc
    · rw [if_neg hb, decide_eq_true_eq] at hbc
      exact hbc ▸ hab
  · rw [if_neg ha, decide_eq_true_eq] at hab
    subst hab
    rw [if_neg ha] at hbc ⊢
    exact hbc

lemma pathCovers_refl (path : List OwnershipRegionStep) : pathCovers path path = true := by
  induction path with
  | nil => rfl
  | cons step path ih => rw [pathCovers, regionStepCovers_refl, ih, Bool.and_self]

lemma pathCovers_trans {a b c : List OwnershipRegionStep} (hab : pathCovers a b = true)
    (hbc : pathCovers b c = true) : pathCovers a c = true := by
  induction a generalizing b c with
  | nil => rfl
  | cons step a ih =>
    cases b with
    | nil => cases hab
    | cons step' b =>
      cases c with
      | nil => cases hbc
      | cons step'' c =>
        rw [pathCovers, Bool.and_eq_true] at hab hbc ⊢
        exact ⟨regionStepCovers_trans hab.1 hbc.1, ih hab.2 hbc.2⟩

lemma length_le_of_pathCovers {a b : List OwnershipRegionStep} (h : pathCovers a b = true) :
    a.length ≤ b.length := by
  induction a generalizing b with
  | nil => exact Nat.zero_le _
  | cons step a ih =>
    cases b with
    | nil => cases h
    | cons step' b =>
      rw [pathCovers, Bool.and_eq_true] at h
      exact Nat.succ_le_succ (ih h.2)

theorem ownershipRegionCovers_refl (region : OwnershipRegion) :
    ownershipRegionCovers region region = true := by
  unfold ownershipRegionCovers
  rw [pathCovers_refl]
  cases region.hasBitRange <;> simp

theorem ownershipRegionCovers_trans {a b c : OwnershipRegion}
    (hab : ownershipRegionCovers a b = true) (hbc : ownershipRegionCovers b c = true) :
    ownershipRegionCovers a c = true := by
  simp only [ownershipRegionCovers, Bool.and_eq_true, Bool.or_eq_true, decide_eq_true_eq,
    Bool.not_eq_true'] at hab hbc ⊢
  obtain ⟨⟨hab, hpath⟩, hrange⟩ := hab
  obtain ⟨⟨hbc, hpath'⟩, hrange'⟩ := hbc
  refine ⟨⟨hab.trans hbc, pathCovers_trans hpath hpath'⟩, ?_⟩
  have hlength := length_le_of_pathCovers hpath
  have hlength' := length_le_of_pathCovers hpath'
  obtain (hshort | hno) | ⟨⟨hb, hfirst⟩, hlast⟩ := hrange
  · exact Or.inl (Or.inl (hshort.trans_le hlength'))
  · exact Or.inl (Or.inr hno)
  · obtain (hshort' | hno') | ⟨⟨hc, hfirst'⟩, hlast'⟩ := hrange'
    · exact Or.inl (Or.inl (hlength.trans_lt hshort'))
    · rw [hb] at hno'
      cases hno'
    · exact Or.inr ⟨⟨hc, hfirst.trans hfirst'⟩, hlast'.trans hlast⟩

end PublicInterface

end Chtholly
