import Chtholly.NormalForm.Merge
import Chtholly.PublicInterface.Summary

/-!
# Canonical ownership summaries

A summary is canonicalised before it is written into an interface, and what is read from one has to
be canonical.  The effects and the postconditions have a canonical form indeed; of the return sources
those with one region and one carrier path are joined, and a disjunction that becomes too large is
kept as `unknown`, which the next pass takes for `always`.

## Main definitions

* `PublicInterface.canonicalize` — the canonical form.
* `PublicInterface.joinedCondition`, `PublicInterface.JoinsFit` — the disjunctions of the return
  sources, and that none of them is left `unknown`.

## Main results

* `PublicInterface.canonicalizeEffects_idem`, `PublicInterface.canonicalizePostconditions_idem` — the
  canonical forms of two of the three lists.
* `PublicInterface.canonicalize_canonical_iff` — when the summary has a canonical form.
-/

set_option autoImplicit false

namespace Chtholly

namespace PublicInterface

open NormalForm

/-! ## Effects -/

def effectKey (effect : CallableRegionEffect) :
    ℕ ×ₗ ℕ ×ₗ List (ℕ ×ₗ ℕ) ×ₗ Bool ×ₗ ℕ ×ₗ ℕ :=
  toLex (effect.kind.rank, regionKey effect.region)

def effectCovers (candidate effect : CallableRegionEffect) : Bool :=
  candidate.kind = effect.kind && ownershipRegionCovers candidate.region effect.region

def canonicalizeEffects (effects : List CallableRegionEffect) : List CallableRegionEffect :=
  minimize effectCovers effectKey (adjacentUnique (sortBy effectKey effects))

/-! ## Postconditions -/

/-- A condition that is not exact admits every call and every outcome. -/
def widen (postcondition : CallableRegionPostcondition) : CallableRegionPostcondition :=
  if postcondition.condition.canonicalize.exact then
    { postcondition with condition := postcondition.condition.canonicalize }
  else { postcondition with condition := .always, outcomes := callableOutcomeAll }

/-- Region, variant and condition: the order of the result. -/
def placeKey (postcondition : CallableRegionPostcondition) :
    (ℕ ×ₗ List (ℕ ×ₗ ℕ) ×ₗ Bool ×ₗ ℕ ×ₗ ℕ) ×ₗ ℕ ×ₗ List (List (ℕ ×ₗ Bool ×ₗ ℕ)) :=
  toLex (regionKey postcondition.region,
    toLex (postcondition.resultVariant, postcondition.condition.key))

/-- The order in which equal places become neighbours. -/
def postconditionKey (postcondition : CallableRegionPostcondition) :
    ((ℕ ×ₗ List (ℕ ×ₗ ℕ) ×ₗ Bool ×ₗ ℕ ×ₗ ℕ) ×ₗ ℕ ×ₗ List (List (ℕ ×ₗ Bool ×ₗ ℕ))) ×ₗ ℕ :=
  toLex (placeKey postcondition, postcondition.outcomes.toNat)

def samePlace (back postcondition : CallableRegionPostcondition) : Bool :=
  back.region = postcondition.region && back.condition = postcondition.condition &&
    back.resultVariant = postcondition.resultVariant

def addOutcomes (back postcondition : CallableRegionPostcondition) : CallableRegionPostcondition :=
  { back with outcomes := back.outcomes ||| postcondition.outcomes }

def overlapping (existing merged : CallableRegionPostcondition) : Bool :=
  (ownershipRegionCovers existing.region merged.region ||
      ownershipRegionCovers merged.region existing.region) &&
    existing.resultVariant = merged.resultVariant && existing.condition = merged.condition

def absorbInto (existing merged : CallableRegionPostcondition) : CallableRegionPostcondition :=
  { merged with
    region := if ownershipRegionCovers existing.region merged.region then existing.region
      else merged.region
    outcomes := merged.outcomes ||| existing.outcomes }

/-- The postconditions that can be met, each with its canonical condition, in their order. -/
def preparedPostconditions (postconditions : List CallableRegionPostcondition) :
    List CallableRegionPostcondition :=
  sortBy postconditionKey
    ((postconditions.map widen).filter fun postcondition => !postcondition.condition.isNever)

def canonicalizePostconditions (postconditions : List CallableRegionPostcondition) :
    List CallableRegionPostcondition :=
  sortBy placeKey (absorbAll overlapping absorbInto
    (mergeRuns samePlace addOutcomes (preparedPostconditions postconditions)))

/-! ## Return sources -/

def widenSource (source : CallableReturnSource) : CallableReturnSource :=
  { source with
    condition := if source.condition.canonicalize.exact then source.condition.canonicalize
      else .always }

/-- Region and carrier path: the sources that are joined have both in common. -/
def sourceKey (source : CallableReturnSource) :
    (ℕ ×ₗ List (ℕ ×ₗ ℕ) ×ₗ Bool ×ₗ ℕ ×ₗ ℕ) ×ₗ List (ℕ ×ₗ ℕ) :=
  toLex (regionKey source.region, source.carrierPath.map CarrierStep.key)

/-- `return_less`. -/
def returnKey (source : CallableReturnSource) :
    ((ℕ ×ₗ List (ℕ ×ₗ ℕ) ×ₗ Bool ×ₗ ℕ ×ₗ ℕ) ×ₗ List (ℕ ×ₗ ℕ)) ×ₗ
      List (List (ℕ ×ₗ Bool ×ₗ ℕ)) :=
  toLex (sourceKey source, source.condition.key)

def sameSource (back source : CallableReturnSource) : Bool :=
  back.region = source.region && back.carrierPath = source.carrierPath

def joinSources (back source : CallableReturnSource) : CallableReturnSource :=
  { back with condition := conditionOr back.condition source.condition }

def sourceCovers (candidate source : CallableReturnSource) : Bool :=
  candidate.carrierPath = source.carrierPath &&
    ownershipRegionCovers candidate.region source.region &&
    (candidate.condition.isAlways || candidate.condition = source.condition)

/-- The sources that can be met, each with its canonical condition, in their order. -/
def preparedSources (sources : List CallableReturnSource) : List CallableReturnSource :=
  sortBy returnKey
    ((sources.map widenSource).filter fun source => !source.condition.isNever)

def mergedSources (sources : List CallableReturnSource) : List CallableReturnSource :=
  mergeRuns sameSource joinSources (preparedSources sources)

def canonicalizeSources (sources : List CallableReturnSource) : List CallableReturnSource :=
  minimize sourceCovers returnKey (mergedSources sources)

/-! ## Summaries -/

/-- `CallableOwnershipSummary::canonicalize`. -/
def canonicalize (summary : CallableOwnershipSummary) : CallableOwnershipSummary where
  effects := canonicalizeEffects summary.effects
  postconditions := canonicalizePostconditions summary.postconditions
  returnsOwned := summary.returnsOwned
  returnProvenance := canonicalizeSources summary.returnProvenance

/-- The last test of `CallableOwnershipSummary::verify`. -/
def isCanonical (summary : CallableOwnershipSummary) : Bool :=
  canonicalize summary = summary

/-! ## The canonical form of the effects -/

lemma effectKey_injective : Function.Injective effectKey := by
  rintro ⟨kind, region⟩ ⟨kind', region'⟩ h
  simp only [effectKey, EmbeddingLike.apply_eq_iff_eq, Prod.mk.injEq] at h
  rw [CallableEffectKind.rank_injective h.1, regionKey_injective h.2]

lemma effectCovers_refl (effect : CallableRegionEffect) : effectCovers effect effect = true := by
  simp [effectCovers, ownershipRegionCovers_refl]

lemma nodup_of_apart {α : Type} {covers : α → α → Bool} (hrefl : ∀ a, covers a a = true)
    {facts : List α} (h : facts.Pairwise (Apart covers)) : facts.Nodup :=
  h.imp fun {a b} hab heq => by
    subst heq
    rw [Apart, hrefl] at hab
    exact Bool.noConfusion hab.1

theorem canonicalizeEffects_idem (effects : List CallableRegionEffect) :
    canonicalizeEffects (canonicalizeEffects effects) = canonicalizeEffects effects := by
  have hsorted : (canonicalizeEffects effects).Pairwise fun a b => effectKey a ≤ effectKey b :=
    sorted_minimize _
  have hapart : (canonicalizeEffects effects).Pairwise (Apart effectCovers) := pairwise_minimize _
  rw [canonicalizeEffects, sortBy_eq_self hsorted,
    adjacentUnique_eq_self (nodup_of_apart effectCovers_refl hapart), minimize_eq_self hsorted hapart]

theorem canonicalizeEffects_perm {effects others : List CallableRegionEffect}
    (h : effects.Perm others) : canonicalizeEffects effects = canonicalizeEffects others := by
  rw [canonicalizeEffects, sortBy_congr h fun a _ b _ heq => effectKey_injective heq,
    canonicalizeEffects]

/-! ## The canonical form of the postconditions -/

/-- A condition that canonicalisation leaves alone and that can be met. -/
def Settled (condition : CallableConditionDescriptor) : Prop :=
  condition.canonicalize = condition ∧ condition.exact = true ∧ condition.isNever = false

lemma widen_condition (postcondition : CallableRegionPostcondition) :
    (widen postcondition).condition.canonicalize = (widen postcondition).condition ∧
      (widen postcondition).condition.exact = true := by
  unfold widen
  split
  · rename_i hexact
    exact ⟨canonicalize_canonicalize _, hexact⟩
  · exact ⟨canonicalize_always, rfl⟩

variable {postcondition : CallableRegionPostcondition}

lemma widen_eq_self (h : Settled postcondition.condition) :
    widen postcondition = postcondition := by
  obtain ⟨hcanonical, hexact, -⟩ := h
  rw [widen, hcanonical, if_pos hexact]

variable {postconditions : List CallableRegionPostcondition}

lemma settled_of_mem_prepared (h : postcondition ∈ preparedPostconditions postconditions) :
    Settled postcondition.condition := by
  rw [preparedPostconditions, mem_sortBy, List.mem_filter] at h
  obtain ⟨hmem, hnever⟩ := h
  obtain ⟨original, -, rfl⟩ := List.mem_map.1 hmem
  exact ⟨(widen_condition original).1, (widen_condition original).2, by simpa using hnever⟩

lemma settled_of_mem_canonical :
    ∀ postcondition ∈ canonicalizePostconditions postconditions,
      Settled postcondition.condition := by
  intro postcondition h
  rw [canonicalizePostconditions, mem_sortBy] at h
  have hadd : ∀ a b : CallableRegionPostcondition, Settled a.condition → Settled b.condition →
      Settled (addOutcomes a b).condition := fun _ _ ha _ => ha
  have habsorb : ∀ a b : CallableRegionPostcondition, Settled a.condition →
      Settled b.condition → Settled (absorbInto a b).condition := fun _ _ _ hb => hb
  exact forall_mem_absorbAll habsorb
    (forall_mem_mergeRuns hadd fun _ => settled_of_mem_prepared) postcondition h

variable {a b : CallableRegionPostcondition}

/-- Facts that are related are so in both directions. -/
lemma overlapping_symm (h : overlapping a b = false) : overlapping b a = false := by
  rw [← h]
  unfold overlapping
  rw [Bool.or_comm]
  rw [decide_eq_decide.2 (eq_comm (a := b.resultVariant)),
    decide_eq_decide.2 (eq_comm (a := b.condition))]

lemma overlapping_of_samePlace (h : samePlace a b = true) : overlapping a b = true := by
  simp only [samePlace, Bool.and_eq_true, decide_eq_true_eq] at h
  obtain ⟨⟨hregion, hcondition⟩, hvariant⟩ := h
  simp [overlapping, hregion, hcondition, hvariant, ownershipRegionCovers_refl]

lemma pairwise_canonicalPostconditions (postconditions : List CallableRegionPostcondition) :
    (canonicalizePostconditions postconditions).Pairwise fun a b => overlapping a b = false :=
  (pairwise_absorbAll _).perm (sortBy_perm placeKey _).symm overlapping_symm

lemma samePlace_of_placeKey (ha : Settled a.condition) (hb : Settled b.condition)
    (h : placeKey a = placeKey b) : samePlace a b = true := by
  simp only [placeKey, EmbeddingLike.apply_eq_iff_eq, Prod.mk.injEq] at h
  obtain ⟨hregion, hvariant, hcondition⟩ := h
  simp [samePlace, regionKey_injective hregion, hvariant,
    CallableConditionDescriptor.eq_of_key ha.2.1 hb.2.1 hcondition]

theorem canonicalizePostconditions_idem (postconditions : List CallableRegionPostcondition) :
    canonicalizePostconditions (canonicalizePostconditions postconditions) =
      canonicalizePostconditions postconditions := by
  set result := canonicalizePostconditions postconditions with hresult
  have hsettled : ∀ a ∈ result, Settled a.condition := settled_of_mem_canonical
  have hapart : result.Pairwise fun a b => overlapping a b = false :=
    pairwise_canonicalPostconditions postconditions
  have hplace : result.Pairwise fun a b => placeKey a ≤ placeKey b := pairwise_sortBy _ _
  have hdistinct : result.Pairwise fun a b => samePlace a b = false :=
    hapart.imp fun {a b} hab =>
      Bool.eq_false_iff.2 fun hsame => by
        rw [overlapping_of_samePlace hsame] at hab
        exact Bool.noConfusion hab
  -- Different places have different keys, so that the outcomes are not looked at.
  have hkeys : result.Pairwise fun a b => postconditionKey a ≤ postconditionKey b := by
    refine (List.Pairwise.and hplace hdistinct).imp_of_mem fun {a b} ha hb hab => ?_
    have hne : placeKey a ≠ placeKey b := fun heq => by
      rw [samePlace_of_placeKey (hsettled a ha) (hsettled b hb) heq] at hab
      exact Bool.noConfusion hab.2
    rw [postconditionKey, postconditionKey, Prod.Lex.toLex_le_toLex]
    exact Or.inl (lt_of_le_of_ne hab.1 hne)
  have hmap : result.map widen = result := by
    conv_rhs => rw [← List.map_id result]
    exact List.map_congr_left fun a ha => widen_eq_self (hsettled a ha)
  have hfilter : (result.filter fun a => !a.condition.isNever) = result :=
    List.filter_eq_self.2 fun a ha => by rw [(hsettled a ha).2.2]; rfl
  rw [canonicalizePostconditions, preparedPostconditions, hmap, hfilter, sortBy_eq_self hkeys,
    mergeRuns_eq_self hdistinct, absorbAll_eq_self hapart, sortBy_eq_self hplace]

lemma postconditionKey_inj (ha : Settled a.condition) (hb : Settled b.condition)
    (h : postconditionKey a = postconditionKey b) : a = b := by
  simp only [postconditionKey, EmbeddingLike.apply_eq_iff_eq, Prod.mk.injEq] at h
  have hsame := samePlace_of_placeKey ha hb h.1
  simp only [samePlace, Bool.and_eq_true, decide_eq_true_eq] at hsame
  obtain ⟨⟨hregion, hcondition⟩, hvariant⟩ := hsame
  obtain ⟨region, outcomes, condition, variant⟩ := a
  obtain ⟨region', outcomes', condition', variant'⟩ := b
  dsimp only at hregion hcondition hvariant h
  rw [hregion, hcondition, hvariant, UInt8.toNat_inj.1 h.2]

lemma preparedPostconditions_perm {others : List CallableRegionPostcondition}
    (h : postconditions.Perm others) :
    preparedPostconditions postconditions = preparedPostconditions others := by
  refine sortBy_congr ((h.map widen).filter _) fun a ha b hb heq => postconditionKey_inj ?_ ?_ heq
  · exact settled_of_mem_prepared ((mem_sortBy _).2 ha)
  · exact settled_of_mem_prepared ((mem_sortBy _).2 hb)

theorem canonicalizePostconditions_perm {others : List CallableRegionPostcondition}
    (h : postconditions.Perm others) :
    canonicalizePostconditions postconditions = canonicalizePostconditions others := by
  rw [canonicalizePostconditions, preparedPostconditions_perm h, canonicalizePostconditions]

/-! ## The return sources -/

lemma widenSource_condition (source : CallableReturnSource) :
    (widenSource source).condition.canonicalize = (widenSource source).condition ∧
      (widenSource source).condition.exact = true := by
  rw [widenSource]
  split
  · rename_i hexact
    exact ⟨canonicalize_canonicalize _, hexact⟩
  · exact ⟨canonicalize_always, rfl⟩

variable {sources : List CallableReturnSource} {source : CallableReturnSource}

lemma settled_of_mem_preparedSources (h : source ∈ preparedSources sources) :
    Settled source.condition := by
  rw [preparedSources, mem_sortBy, List.mem_filter] at h
  obtain ⟨hmem, hnever⟩ := h
  obtain ⟨original, -, rfl⟩ := List.mem_map.1 hmem
  exact ⟨(widenSource_condition original).1, (widenSource_condition original).2,
    by simpa using hnever⟩

lemma sourceKey_inj {a b : CallableReturnSource} :
    sourceKey a = sourceKey b ↔ a.region = b.region ∧ a.carrierPath = b.carrierPath := by
  simp only [sourceKey, EmbeddingLike.apply_eq_iff_eq, Prod.mk.injEq]
  exact and_congr regionKey_injective.eq_iff
    (List.map_injective_iff.2 CarrierStep.key_injective).eq_iff

lemma sameSource_iff (a b : CallableReturnSource) :
    sameSource a b = true ↔ sourceKey a = sourceKey b := by
  rw [sourceKey_inj, sameSource, Bool.and_eq_true, decide_eq_true_eq, decide_eq_true_eq]

lemma sourceKey_joinSources (a b : CallableReturnSource) :
    sourceKey (joinSources a b) = sourceKey a := rfl

lemma returnKey_inj {a b : CallableReturnSource} (ha : a.condition.exact = true)
    (hb : b.condition.exact = true) (h : returnKey a = returnKey b) : a = b := by
  simp only [returnKey, EmbeddingLike.apply_eq_iff_eq, Prod.mk.injEq] at h
  obtain ⟨hregion, hpath⟩ := sourceKey_inj.1 h.1
  have hcondition := CallableConditionDescriptor.eq_of_key ha hb h.2
  obtain ⟨region, path, condition⟩ := a
  obtain ⟨region', path', condition'⟩ := b
  dsimp only at hregion hpath hcondition
  rw [hregion, hpath, hcondition]

lemma preparedSources_perm {others : List CallableReturnSource} (h : sources.Perm others) :
    preparedSources sources = preparedSources others := by
  refine sortBy_congr ((h.map widenSource).filter _) fun a ha b hb heq => returnKey_inj ?_ ?_ heq
  · exact (settled_of_mem_preparedSources ((mem_sortBy _).2 ha)).2.1
  · exact (settled_of_mem_preparedSources ((mem_sortBy _).2 hb)).2.1

theorem canonicalizeSources_perm {others : List CallableReturnSource} (h : sources.Perm others) :
    canonicalizeSources sources = canonicalizeSources others := by
  rw [canonicalizeSources, mergedSources, preparedSources_perm h, ← mergedSources,
    ← canonicalizeSources]

lemma sourceKey_le_of_returnKey {a b : CallableReturnSource} (h : returnKey a ≤ returnKey b) :
    sourceKey a ≤ sourceKey b := by
  rw [returnKey, returnKey, Prod.Lex.toLex_le_toLex] at h
  exact h.elim le_of_lt fun h => h.1.le

lemma pairwise_preparedSources (sources : List CallableReturnSource) :
    (preparedSources sources).Pairwise fun a b => sourceKey a ≤ sourceKey b :=
  (pairwise_sortBy returnKey _).imp sourceKey_le_of_returnKey

lemma pairwise_mergedSources (sources : List CallableReturnSource) :
    (mergedSources sources).Pairwise fun a b => sourceKey a < sourceKey b :=
  pairwise_mergeRuns sameSource_iff sourceKey_joinSources (pairwise_preparedSources sources)

/-- What is kept of the conditions while they are joined: they are canonical and can be met. -/
def Joined (condition : CallableConditionDescriptor) : Prop :=
  condition.canonicalize = condition ∧ condition.clauses ≠ []

lemma Settled.joined {condition : CallableConditionDescriptor} (h : Settled condition) :
    Joined condition := by
  refine ⟨h.1, fun hnil => ?_⟩
  have hnever := (isNever_iff h.2.1).2 hnil
  rw [h.2.2] at hnever
  exact Bool.noConfusion hnever

lemma joined_of_mem_mergedSources : ∀ source ∈ mergedSources sources, Joined source.condition := by
  have hjoin : ∀ a b : CallableReturnSource, Joined a.condition → Joined b.condition →
      Joined (joinSources a b).condition := fun a b ha _ =>
    ⟨canonicalize_conditionOr _ _, conditionOr_ne_never _ (reduced_of_canonicalize ha.1) ha.2⟩
  exact forall_mem_mergeRuns hjoin fun a ha => (settled_of_mem_preparedSources ha).joined

lemma sourceCovers_refl (source : CallableReturnSource) : sourceCovers source source = true := by
  simp [sourceCovers, ownershipRegionCovers_refl]

lemma sourceCovers_trans (a b c : CallableReturnSource) (hab : sourceCovers a b = true)
    (hbc : sourceCovers b c = true) : sourceCovers a c = true := by
  simp only [sourceCovers, Bool.and_eq_true, Bool.or_eq_true, decide_eq_true_eq] at hab hbc ⊢
  obtain ⟨⟨hpath, hregion⟩, hcondition⟩ := hab
  obtain ⟨⟨hpath', hregion'⟩, hcondition'⟩ := hbc
  refine ⟨⟨hpath.trans hpath', ownershipRegionCovers_trans hregion hregion'⟩, ?_⟩
  obtain halways | heq := hcondition
  · exact Or.inl halways
  · rw [heq]
    exact hcondition'

/-- The sources of the result have different regions or carrier paths. -/
lemma pairwise_canonicalSources (sources : List CallableReturnSource) :
    (canonicalizeSources sources).Pairwise fun a b => sameSource a b = false := by
  have hapart : (canonicalizeSources sources).Pairwise (Apart sourceCovers) := pairwise_minimize _
  have hmerged : ∀ a ∈ mergedSources sources, ∀ b ∈ mergedSources sources,
      sourceKey a = sourceKey b → a = b := by
    have hdistinct : (mergedSources sources).Pairwise fun a b => sourceKey a ≠ sourceKey b :=
      (pairwise_mergedSources sources).imp fun {a b} h => ne_of_lt h
    have : Std.Symm fun a b : CallableReturnSource => sourceKey a ≠ sourceKey b :=
      ⟨fun _ _ h => Ne.symm h⟩
    intro a ha b hb heq
    by_contra hne
    exact hdistinct.forall ha hb hne heq
  refine hapart.imp_of_mem fun {a b} ha hb hab => Bool.eq_false_iff.2 fun hsame => ?_
  have heq := hmerged a (mem_of_mem_minimize ha) b (mem_of_mem_minimize hb)
    ((sameSource_iff a b).1 hsame)
  subst heq
  rw [Apart, sourceCovers_refl] at hab
  exact Bool.noConfusion hab.1

/-- Where all conditions are exact, the next pass changes nothing. -/
lemma canonicalizeSources_idem_of_exact
    (h : ∀ source ∈ canonicalizeSources sources, source.condition.exact = true) :
    canonicalizeSources (canonicalizeSources sources) = canonicalizeSources sources := by
  set result := canonicalizeSources sources with hresult
  have hjoined : ∀ a ∈ result, Joined a.condition := fun a ha =>
    joined_of_mem_mergedSources a (mem_of_mem_minimize ha)
  have hsorted : result.Pairwise fun a b => returnKey a ≤ returnKey b := sorted_minimize _
  have hmap : result.map widenSource = result := by
    conv_rhs => rw [← List.map_id result]
    refine List.map_congr_left fun a ha => ?_
    rw [widenSource, (hjoined a ha).1, if_pos (h a ha)]
    rfl
  have hfilter : (result.filter fun a => !a.condition.isNever) = result := by
    refine List.filter_eq_self.2 fun a ha => ?_
    rw [Bool.not_eq_true', Bool.eq_false_iff, ne_eq, isNever_iff (h a ha)]
    exact (hjoined a ha).2
  rw [canonicalizeSources, mergedSources, preparedSources, hmap, hfilter, sortBy_eq_self hsorted,
    mergeRuns_eq_self (pairwise_canonicalSources sources),
    minimize_eq_self hsorted (pairwise_minimize _)]

/-- The conditions of sources that are not joined are exact after a pass. -/
lemma exact_of_mem_canonicalSources (h : sources.Pairwise fun a b => sameSource a b = false) :
    ∀ source ∈ canonicalizeSources sources, source.condition.exact = true := by
  have hprepared : (preparedSources sources).Pairwise fun a b => sameSource a b = false := by
    refine List.Pairwise.perm ?_ (sortBy_perm returnKey _).symm fun {a b} hab => ?_
    · exact (List.pairwise_map.2 h).filter _
    · rw [← hab]
      unfold sameSource
      rw [decide_eq_decide.2 (eq_comm (a := b.region)),
        decide_eq_decide.2 (eq_comm (a := b.carrierPath))]
  intro source hsource
  have hmem := mem_of_mem_minimize hsource
  rw [mergedSources, mergeRuns_eq_self hprepared] at hmem
  exact (settled_of_mem_preparedSources hmem).2.1

lemma canonicalizeSources_idem_iff (sources : List CallableReturnSource) :
    canonicalizeSources (canonicalizeSources sources) = canonicalizeSources sources ↔
      ∀ source ∈ canonicalizeSources sources, source.condition.exact = true := by
  constructor
  · intro h source hsource
    rw [← h] at hsource
    exact exact_of_mem_canonicalSources (pairwise_canonicalSources sources) source hsource
  · exact canonicalizeSources_idem_of_exact

/-! ## Joins that fit -/

/-- The disjunction of the conditions of all sources that have the region and the carrier path of
this one. -/
def joinedCondition (sources : List CallableReturnSource) (source : CallableReturnSource) :
    CallableConditionDescriptor :=
  match (preparedSources sources).filter fun other => sameSource other source with
  | [] => .never
  | first :: rest =>
    rest.foldl (fun condition other => conditionOr condition other.condition) first.condition

/-- A disjunction that becomes too large belongs to a region that is within another one whose sources
are met whatever the arguments are. -/
def JoinsFit (sources : List CallableReturnSource) : Prop :=
  ∀ source ∈ preparedSources sources, (joinedCondition sources source).exact = false →
    ∃ other ∈ preparedSources sources, other.carrierPath = source.carrierPath ∧
      ownershipRegionCovers other.region source.region = true ∧
      (joinedCondition sources other).isAlways = true

lemma foldl_joinSources (rest : List CallableReturnSource) (first : CallableReturnSource) :
    (rest.foldl joinSources first).condition =
      rest.foldl (fun condition other => conditionOr condition other.condition) first.condition := by
  induction rest generalizing first with
  | nil => rfl
  | cons next rest ih => rw [List.foldl_cons, ih, List.foldl_cons, joinSources]

lemma joinedCondition_congr (sources : List CallableReturnSource) {a b : CallableReturnSource}
    (h : sourceKey a = sourceKey b) : joinedCondition sources a = joinedCondition sources b := by
  have hsame : (fun other => sameSource other a) = fun other => sameSource other b := by
    funext other
    rw [Bool.eq_iff_iff, sameSource_iff, sameSource_iff, h]
  rw [joinedCondition, hsame, joinedCondition]

/-- The merged sources have the disjunctions. -/
lemma condition_of_mem_mergedSources (h : source ∈ mergedSources sources) :
    source.condition = joinedCondition sources source := by
  obtain ⟨first, rest, hfilter, hsource⟩ :=
    mem_mergeRuns sameSource_iff sourceKey_joinSources (pairwise_preparedSources sources) h
  have hsame : (fun other => sameSource other source) =
      fun other => decide (sourceKey other = sourceKey source) := by
    funext other
    rw [Bool.eq_iff_iff, sameSource_iff, decide_eq_true_eq]
  rw [joinedCondition, hsame, hfilter]
  conv_lhs => rw [hsource]
  exact foldl_joinSources rest first

/-- The disjunctions of the prepared sources are the conditions of the merged ones. -/
lemma joinsFit_iff (sources : List CallableReturnSource) :
    JoinsFit sources ↔ ∀ source ∈ mergedSources sources, source.condition.exact = false →
      ∃ other ∈ mergedSources sources, other.carrierPath = source.carrierPath ∧
        ownershipRegionCovers other.region source.region = true ∧
        other.condition.isAlways = true := by
  have hto : ∀ source ∈ preparedSources sources, ∃ merged ∈ mergedSources sources,
      sourceKey merged = sourceKey source ∧
        merged.condition = joinedCondition sources source := by
    intro source hsource
    obtain ⟨merged, hmerged, hkey⟩ :=
      exists_mem_mergeRuns sameSource_iff sourceKey_joinSources hsource
    exact ⟨merged, hmerged, hkey,
      (condition_of_mem_mergedSources hmerged).trans (joinedCondition_congr sources hkey)⟩
  have hfrom : ∀ merged ∈ mergedSources sources, ∃ source ∈ preparedSources sources,
      sourceKey merged = sourceKey source ∧
        merged.condition = joinedCondition sources source := by
    intro merged hmerged
    obtain ⟨first, rest, hfilter, -⟩ :=
      mem_mergeRuns sameSource_iff sourceKey_joinSources (pairwise_preparedSources sources) hmerged
    have hfirst : first ∈ (preparedSources sources).filter fun other =>
        sourceKey other = sourceKey merged := hfilter ▸ List.mem_cons_self
    have hkey : sourceKey merged = sourceKey first := by
      simpa [eq_comm] using (List.mem_filter.1 hfirst).2
    exact ⟨first, (List.mem_filter.1 hfirst).1, hkey,
      (condition_of_mem_mergedSources hmerged).trans (joinedCondition_congr sources hkey)⟩
  constructor
  · intro h merged hmerged hexact
    obtain ⟨source, hsource, hkey, hcondition⟩ := hfrom merged hmerged
    obtain ⟨other, hother, hpath, hcovers, halways⟩ := h source hsource (hcondition ▸ hexact)
    obtain ⟨merged', hmerged', hkey', hcondition'⟩ := hto other hother
    rw [sourceKey_inj] at hkey hkey'
    refine ⟨merged', hmerged', ?_, ?_, ?_⟩
    · rw [hkey'.2, hkey.2, hpath]
    · rw [hkey'.1, hkey.1, hcovers]
    · rw [hcondition', halways]
  · intro h source hsource hexact
    obtain ⟨merged, hmerged, hkey, hcondition⟩ := hto source hsource
    obtain ⟨other, hother, hpath, hcovers, halways⟩ := h merged hmerged (hcondition ▸ hexact)
    obtain ⟨source', hsource', hkey', hcondition'⟩ := hfrom other hother
    rw [sourceKey_inj] at hkey hkey'
    refine ⟨source', hsource', ?_, ?_, ?_⟩
    · rw [← hkey'.2, ← hkey.2, hpath]
    · rw [← hkey'.1, ← hkey.1, hcovers]
    · rw [← hcondition', halways]

lemma exists_covers_mergedSources (h : source ∈ mergedSources sources) :
    ∃ keeper ∈ canonicalizeSources sources, sourceCovers keeper source = true :=
  exists_covers_minimize sourceCovers_refl sourceCovers_trans h

/-- The result has only exact conditions when the joins fit. -/
lemma exact_canonicalSources_iff (sources : List CallableReturnSource) :
    (∀ source ∈ canonicalizeSources sources, source.condition.exact = true) ↔ JoinsFit sources := by
  rw [joinsFit_iff]
  constructor
  · intro h source hsource hexact
    obtain ⟨keeper, hkeeper, hcovers⟩ := exists_covers_mergedSources hsource
    simp only [sourceCovers, Bool.and_eq_true, Bool.or_eq_true, decide_eq_true_eq] at hcovers
    obtain ⟨⟨hpath, hregion⟩, halways | heq⟩ := hcovers
    · exact ⟨keeper, mem_of_mem_minimize hkeeper, hpath, hregion, halways⟩
    · have hkept := h keeper hkeeper
      rw [heq, hexact] at hkept
      exact Bool.noConfusion hkept
  · intro h source hsource
    by_contra hinexact
    have hinexact := Bool.eq_false_iff.2 hinexact
    obtain ⟨other, hother, hpath, hregion, halways⟩ :=
      h source (mem_of_mem_minimize hsource) hinexact
    -- What covers the unconditional source is unconditional, and covers this one.
    obtain ⟨keeper, hkeeper, hcovers⟩ := exists_covers_mergedSources hother
    have hkeeper_always : keeper.condition.isAlways = true := by
      simp only [sourceCovers, Bool.and_eq_true, Bool.or_eq_true, decide_eq_true_eq] at hcovers
      exact hcovers.2.elim id fun heq => heq ▸ halways
    have hcovers' : sourceCovers keeper source = true := by
      refine sourceCovers_trans _ _ _ hcovers ?_
      simp [sourceCovers, hpath, hregion, halways]
    have hne : keeper ≠ source := by
      rintro rfl
      rw [CallableConditionDescriptor.isAlways, hinexact] at hkeeper_always
      exact Bool.noConfusion hkeeper_always
    have hapart : (canonicalizeSources sources).Pairwise (Apart sourceCovers) :=
      pairwise_minimize _
    have hkept := hapart.forall hkeeper hsource hne
    rw [Apart, hcovers'] at hkept
    exact Bool.noConfusion hkept.1

/-! ## Main results -/

/-- The same summary but for the order in which its facts are listed. -/
structure SameUpToOrder (summary other : CallableOwnershipSummary) : Prop where
  effects : summary.effects.Perm other.effects
  postconditions : summary.postconditions.Perm other.postconditions
  returnsOwned : summary.returnsOwned = other.returnsOwned
  returnProvenance : summary.returnProvenance.Perm other.returnProvenance

theorem canonicalize_congr {summary other : CallableOwnershipSummary}
    (h : SameUpToOrder summary other) : canonicalize summary = canonicalize other := by
  unfold canonicalize
  rw [canonicalizeEffects_perm h.effects, canonicalizePostconditions_perm h.postconditions,
    h.returnsOwned, canonicalizeSources_perm h.returnProvenance]

lemma canonicalize_idem_iff (summary : CallableOwnershipSummary) :
    canonicalize (canonicalize summary) = canonicalize summary ↔
      JoinsFit summary.returnProvenance := by
  rw [← exact_canonicalSources_iff, ← canonicalizeSources_idem_iff]
  unfold canonicalize
  rw [CallableOwnershipSummary.mk.injEq, canonicalizeEffects_idem, canonicalizePostconditions_idem]
  simp only [true_and]

/-- **Canonical form.** Canonicalising twice is canonicalising once, the order of the lists does not
matter and the result passes for canonical, exactly when every disjunction of return sources that
becomes too large belongs to a region within one that is returned unconditionally. -/
theorem canonicalize_canonical_iff (summary : CallableOwnershipSummary) :
    (canonicalize (canonicalize summary) = canonicalize summary ∧
        (∀ other, SameUpToOrder summary other → canonicalize other = canonicalize summary) ∧
        isCanonical (canonicalize summary) = true) ↔
      JoinsFit summary.returnProvenance := by
  rw [← canonicalize_idem_iff]
  constructor
  · exact And.left
  · intro h
    exact ⟨h, fun other hother => (canonicalize_congr hother).symm, decide_eq_true h⟩

/-- Two sources of one region, one of them met when one of the first seventeen arguments holds, the
other when one of the next seventeen does. -/
def manyConditions : CallableOwnershipSummary where
  returnsOwned := false
  returnProvenance :=
    [{ region := { parameterIndex := 0 }
       condition := ⟨(List.range 17).map fun i => ⟨[⟨i, true, invalidIndex⟩]⟩, true⟩ },
     { region := { parameterIndex := 0 }
       condition := ⟨(List.range 17).map fun i => ⟨[⟨17 + i, true, invalidIndex⟩]⟩, true⟩ }]

/-- The second pass changes what the first one has made. -/
theorem canonicalize_manyConditions :
    ¬∀ summary, canonicalize (canonicalize summary) = canonicalize summary ∧
      (∀ other, SameUpToOrder summary other → canonicalize other = canonicalize summary) ∧
      isCanonical (canonicalize summary) = true := by
  intro h
  have hsecond := (h manyConditions).2.2
  revert hsecond
  decide

end PublicInterface

end Chtholly
