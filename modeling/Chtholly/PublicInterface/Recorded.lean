import Chtholly.PublicInterface.Canonicalize

/-!
# What a list of postconditions records

Of a list of postconditions only this matters for its canonical form: which outcomes are allowed for
a region under a condition.  The outcomes of several facts about one region and one condition are
joined, and it does not matter in which order or how often they are listed.

## Main definitions

* `PublicInterface.recorded` — the outcomes of a region under a condition.
* `PublicInterface.Plain` — facts without a variant, whose conditions are settled.

## Main results

* `PublicInterface.recorded_perm`, `PublicInterface.recorded_append` — the order does not matter.
* `PublicInterface.canonicalizePostconditions_congr` — the canonical form depends only on what is
  recorded.
* `PublicInterface.exists_mem_canonical` — what is recorded stays recorded.
-/

set_option autoImplicit false

namespace Chtholly

namespace PublicInterface

open NormalForm

/-! ## Joined outcomes -/

def joinOutcomes : Option UInt8 → Option UInt8 → Option UInt8
  | none, others => others
  | some outcomes, none => some outcomes
  | some outcomes, some others => some (outcomes ||| others)

@[simp] lemma joinOutcomes_none_left (a : Option UInt8) : joinOutcomes none a = a := rfl

@[simp] lemma joinOutcomes_none_right (a : Option UInt8) : joinOutcomes a none = a := by
  cases a <;> rfl

lemma joinOutcomes_assoc (a b c : Option UInt8) :
    joinOutcomes (joinOutcomes a b) c = joinOutcomes a (joinOutcomes b c) := by
  cases a <;> cases b <;> cases c <;> simp [joinOutcomes, UInt8.or_assoc]

lemma joinOutcomes_comm (a b : Option UInt8) : joinOutcomes a b = joinOutcomes b a := by
  cases a <;> cases b <;> simp [joinOutcomes, UInt8.or_comm]

lemma joinOutcomes_self (a : Option UInt8) : joinOutcomes a a = a := by
  cases a <;> simp [joinOutcomes]

instance : Std.Associative joinOutcomes := ⟨joinOutcomes_assoc⟩

instance : Std.Commutative joinOutcomes := ⟨joinOutcomes_comm⟩

lemma joinOutcomes_left_comm (a b c : Option UInt8) :
    joinOutcomes a (joinOutcomes b c) = joinOutcomes b (joinOutcomes a c) := by
  rw [← joinOutcomes_assoc, joinOutcomes_comm a b, joinOutcomes_assoc]

/-- The outcomes on the left are among those on the right. -/
def Within (a b : Option UInt8) : Prop :=
  joinOutcomes a b = b

lemma Within.join_left {a b : Option UInt8} (h : Within a b) (c : Option UInt8) :
    Within a (joinOutcomes c b) := by
  rw [Within, joinOutcomes_left_comm, h]

lemma within_join_left (a b : Option UInt8) : Within a (joinOutcomes a b) := by
  rw [Within, ← joinOutcomes_assoc, joinOutcomes_self]

lemma within_join_iff {a b c : Option UInt8} :
    Within (joinOutcomes a b) c ↔ Within a c ∧ Within b c := by
  unfold Within
  constructor
  · intro h
    constructor
    · rw [← h, ← joinOutcomes_assoc, ← joinOutcomes_assoc, joinOutcomes_self]
    · rw [← h, joinOutcomes_comm a b, ← joinOutcomes_assoc, ← joinOutcomes_assoc,
        joinOutcomes_self]
  · rintro ⟨ha, hb⟩
    rw [joinOutcomes_assoc, hb, ha]

/-! ## Recorded outcomes -/

/-- What one fact says of a region under a condition. -/
def outcomesAt (fact : CallableRegionPostcondition) (region : OwnershipRegion)
    (condition : CallableConditionDescriptor) : Option UInt8 :=
  if fact.region = region ∧ fact.condition = condition then some fact.outcomes else none

def recorded (facts : List CallableRegionPostcondition) (region : OwnershipRegion)
    (condition : CallableConditionDescriptor) : Option UInt8 :=
  facts.foldr (fun fact rest => joinOutcomes (outcomesAt fact region condition) rest) none

variable {region : OwnershipRegion} {condition : CallableConditionDescriptor}

@[simp] lemma recorded_nil : recorded [] region condition = none := rfl

@[simp] lemma recorded_cons (fact : CallableRegionPostcondition)
    (facts : List CallableRegionPostcondition) :
    recorded (fact :: facts) region condition =
      joinOutcomes (outcomesAt fact region condition) (recorded facts region condition) := rfl

lemma recorded_append (facts others : List CallableRegionPostcondition) :
    recorded (facts ++ others) region condition =
      joinOutcomes (recorded facts region condition) (recorded others region condition) := by
  induction facts with
  | nil => rfl
  | cons fact facts ih => rw [List.cons_append, recorded_cons, ih, recorded_cons, joinOutcomes_assoc]

variable {facts : List CallableRegionPostcondition}

lemma recorded_perm {others : List CallableRegionPostcondition} (h : facts.Perm others) :
    recorded facts region condition = recorded others region condition := by
  induction h with
  | nil => rfl
  | cons fact _ ih => rw [recorded_cons, ih, recorded_cons]
  | swap fact other facts =>
    simp only [recorded_cons]
    exact joinOutcomes_left_comm _ _ _
  | trans _ _ ih ih' => exact ih.trans ih'

variable {fact : CallableRegionPostcondition}

lemma within_recorded (h : fact ∈ facts) :
    Within (outcomesAt fact region condition) (recorded facts region condition) := by
  induction facts with
  | nil => cases h
  | cons other facts ih =>
    rw [recorded_cons]
    obtain rfl | h := List.mem_cons.1 h
    · exact within_join_left _ _
    · exact (ih h).join_left _

/-- All that is recorded is within a bound, if what every fact says is. -/
lemma recorded_within_iff {bound : Option UInt8} :
    Within (recorded facts region condition) bound ↔
      ∀ fact ∈ facts, Within (outcomesAt fact region condition) bound := by
  induction facts with
  | nil => simp [Within]
  | cons fact facts ih => simp [within_join_iff, ih]

lemma recorded_eq_none (h : ∀ fact ∈ facts, ¬(fact.region = region ∧ fact.condition = condition)) :
    recorded facts region condition = none := by
  induction facts with
  | nil => rfl
  | cons fact facts ih =>
    rw [recorded_cons, outcomesAt, if_neg (h fact List.mem_cons_self),
      ih fun other hother => h other (List.mem_cons_of_mem _ hother)]
    rfl

/-- Of facts about different places only one is about this one. -/
lemma recorded_of_mem
    (hdistinct : facts.Pairwise fun a b => ¬(a.region = b.region ∧ a.condition = b.condition))
    (h : fact ∈ facts) : recorded facts fact.region fact.condition = some fact.outcomes := by
  induction facts with
  | nil => cases h
  | cons other facts ih =>
    obtain ⟨hother, hfacts⟩ := List.pairwise_cons.1 hdistinct
    rw [recorded_cons]
    obtain rfl | h := List.mem_cons.1 h
    · rw [recorded_eq_none fun a ha heq => hother a ha ⟨heq.1.symm, heq.2.symm⟩, outcomesAt,
        if_pos ⟨rfl, rfl⟩]
      rfl
    · rw [ih hfacts h, outcomesAt, if_neg (hother fact h)]
      rfl

/-- What is recorded has a fact behind it. -/
lemma exists_of_recorded {outcomes : UInt8} (h : recorded facts region condition = some outcomes) :
    ∃ fact ∈ facts, fact.region = region ∧ fact.condition = condition := by
  by_contra hnone
  push Not at hnone
  rw [recorded_eq_none fun fact hfact heq => hnone fact hfact heq.1 heq.2] at h
  cases h

/-! ## The canonical form of what is recorded -/

/-- A fact without a variant, under a condition that is canonical and can be met. -/
def Plain (fact : CallableRegionPostcondition) : Prop :=
  Settled fact.condition ∧ fact.resultVariant = invalidIndex

/-- The first two of the three steps: one fact for every place. -/
def mergedPostconditions (facts : List CallableRegionPostcondition) :
    List CallableRegionPostcondition :=
  mergeRuns samePlace addOutcomes (preparedPostconditions facts)

lemma preparedPostconditions_of_plain (h : ∀ fact ∈ facts, Plain fact) :
    preparedPostconditions facts = sortBy postconditionKey facts := by
  have hmap : facts.map widen = facts := by
    conv_rhs => rw [← List.map_id facts]
    exact List.map_congr_left fun fact hfact => widen_eq_self (h fact hfact).1
  have hfilter : (facts.filter fun fact => !fact.condition.isNever) = facts :=
    List.filter_eq_self.2 fun fact hfact => by rw [(h fact hfact).1.2.2]; rfl
  rw [preparedPostconditions, hmap, hfilter]

lemma plain_of_mem_merged (h : ∀ fact ∈ facts, Plain fact) :
    ∀ fact ∈ mergedPostconditions facts, Plain fact := by
  have hadd : ∀ a b : CallableRegionPostcondition, Plain a → Plain b → Plain (addOutcomes a b) :=
    fun _ _ ha _ => ha
  refine forall_mem_mergeRuns hadd fun fact hfact => ?_
  rw [preparedPostconditions_of_plain h, mem_sortBy] at hfact
  exact h fact hfact

lemma outcomesAt_addOutcomes {current : CallableRegionPostcondition}
    (h : samePlace current fact = true) :
    outcomesAt (addOutcomes current fact) region condition =
      joinOutcomes (outcomesAt current region condition) (outcomesAt fact region condition) := by
  simp only [samePlace, Bool.and_eq_true, decide_eq_true_eq] at h
  simp only [outcomesAt, addOutcomes, ← h.1.1, ← h.1.2]
  by_cases hplace : current.region = region ∧ current.condition = condition
  · simp [hplace, joinOutcomes]
  · simp [hplace]

lemma recorded_mergeRuns (facts : List CallableRegionPostcondition) :
    recorded (mergeRuns samePlace addOutcomes facts) region condition =
      recorded facts region condition := by
  have hrun : ∀ (facts : List CallableRegionPostcondition) (current : CallableRegionPostcondition),
      recorded (mergeRun samePlace addOutcomes current facts) region condition =
        recorded (current :: facts) region condition := by
    intro facts
    induction facts with
    | nil => exact fun current => rfl
    | cons fact facts ih =>
      intro current
      rw [mergeRun]
      split
      · rename_i hsame
        rw [ih, recorded_cons, outcomesAt_addOutcomes hsame, joinOutcomes_assoc, recorded_cons,
          recorded_cons]
      · simp only [recorded_cons, ih]
  cases facts with
  | nil => rfl
  | cons fact facts => exact hrun facts fact

lemma recorded_merged (h : ∀ fact ∈ facts, Plain fact) :
    recorded (mergedPostconditions facts) region condition = recorded facts region condition := by
  rw [mergedPostconditions, recorded_mergeRuns, preparedPostconditions_of_plain h,
    recorded_perm (sortBy_perm postconditionKey facts)]

/-- The merged facts are sorted by their places, which are all different. -/
lemma pairwise_merged (facts : List CallableRegionPostcondition) :
    (mergedPostconditions facts).Pairwise fun a b => placeKey a < placeKey b := by
  -- Conditions are told apart by their keys only where they are exact.
  let classOf := fun a : CallableRegionPostcondition => toLex (a.condition.exact, placeKey a)
  have hsame : ∀ a b : CallableRegionPostcondition,
      samePlace a b = true ↔ classOf a = classOf b := by
    intro a b
    simp only [classOf, placeKey, samePlace, Bool.and_eq_true, decide_eq_true_eq,
      EmbeddingLike.apply_eq_iff_eq, Prod.mk.injEq]
    constructor
    · rintro ⟨⟨hregion, hcondition⟩, hvariant⟩
      simp [hregion, hcondition, hvariant]
    · rintro ⟨hexact, hregion, hvariant, hkey⟩
      exact ⟨⟨regionKey_injective hregion,
        CallableConditionDescriptor.ext_key hexact hkey⟩, hvariant⟩
  have hadd : ∀ a b : CallableRegionPostcondition, classOf (addOutcomes a b) = classOf a :=
    fun _ _ => rfl
  have hexact : ∀ a ∈ preparedPostconditions facts, a.condition.exact = true :=
    fun a ha => (settled_of_mem_prepared ha).2.1
  have hsorted : (preparedPostconditions facts).Pairwise fun a b => classOf a ≤ classOf b := by
    refine (pairwise_sortBy postconditionKey _).imp_of_mem fun {a b} ha hb hab => ?_
    rw [postconditionKey, postconditionKey, Prod.Lex.toLex_le_toLex] at hab
    simp only [classOf, hexact a ha, hexact b hb, Prod.Lex.toLex_le_toLex, lt_self_iff_false,
      false_or, true_and]
    exact hab.elim le_of_lt fun hab => hab.1.le
  have hmerged := pairwise_mergeRuns hsame hadd hsorted
  have hkept : ∀ a b : CallableRegionPostcondition, a.condition.exact = true →
      b.condition.exact = true → (addOutcomes a b).condition.exact = true := fun _ _ ha _ => ha
  have hexact' : ∀ a ∈ mergedPostconditions facts, a.condition.exact = true :=
    forall_mem_mergeRuns hkept hexact
  refine hmerged.imp_of_mem fun {a b} ha hb hab => ?_
  simpa [classOf, hexact' a ha, hexact' b hb, Prod.Lex.toLex_lt_toLex] using hab

lemma distinct_merged (hfacts : ∀ fact ∈ facts, Plain fact) :
    (mergedPostconditions facts).Pairwise fun a b =>
      ¬(a.region = b.region ∧ a.condition = b.condition) := by
  refine (pairwise_merged facts).imp_of_mem fun {a b} ha hb hab heq => ?_
  have hplain := plain_of_mem_merged hfacts
  refine ne_of_lt hab ?_
  simp [placeKey, heq.1, heq.2, (hplain a ha).2, (hplain b hb).2]

/-- **What matters.** Two lists of plain facts that record the same have one canonical form. -/
theorem canonicalizePostconditions_congr {others : List CallableRegionPostcondition}
    (hfacts : ∀ fact ∈ facts, Plain fact) (hothers : ∀ fact ∈ others, Plain fact)
    (h : ∀ region condition, recorded facts region condition = recorded others region condition) :
    canonicalizePostconditions facts = canonicalizePostconditions others := by
  have hhalf : ∀ facts others : List CallableRegionPostcondition,
      (∀ fact ∈ facts, Plain fact) → (∀ fact ∈ others, Plain fact) →
      (∀ region condition, recorded facts region condition = recorded others region condition) →
        ∀ fact ∈ mergedPostconditions facts, fact ∈ mergedPostconditions others := by
    intro facts others hfacts hothers h fact hfact
    have hrecorded := recorded_of_mem (distinct_merged hfacts) hfact
    rw [recorded_merged hfacts, h, ← recorded_merged hothers] at hrecorded
    obtain ⟨other, hother, hregion, hcondition⟩ := exists_of_recorded hrecorded
    have hrecorded' := recorded_of_mem (distinct_merged hothers) hother
    rw [hregion, hcondition, hrecorded, Option.some.injEq] at hrecorded'
    have hvariant := (plain_of_mem_merged hothers other hother).2.trans
      (plain_of_mem_merged hfacts fact hfact).2.symm
    obtain ⟨region, outcomes, condition, variant⟩ := fact
    obtain ⟨region', outcomes', condition', variant'⟩ := other
    dsimp only at hregion hcondition hrecorded' hvariant
    rw [← hregion, ← hcondition, hrecorded', ← hvariant]
    exact hother
  have : Std.Irrefl fun a b : CallableRegionPostcondition => placeKey a < placeKey b :=
    ⟨fun a => lt_irrefl (placeKey a)⟩
  have : Std.Antisymm fun a b : CallableRegionPostcondition => placeKey a < placeKey b :=
    ⟨fun a b hab hba => absurd hab (lt_asymm hba)⟩
  have hmerged : mergedPostconditions facts = mergedPostconditions others :=
    List.Pairwise.eq_of_mem_iff (pairwise_merged facts) (pairwise_merged others) fun fact =>
      ⟨hhalf facts others hfacts hothers h fact,
        hhalf others facts hothers hfacts (fun region condition => (h region condition).symm) fact⟩
  rw [canonicalizePostconditions, ← mergedPostconditions, hmerged, mergedPostconditions,
    ← canonicalizePostconditions]

/-- What is recorded for a region is kept, for it or for a region around it. -/
theorem exists_mem_canonical (hfacts : ∀ fact ∈ facts, Plain fact) {outcomes : UInt8}
    (h : recorded facts region condition = some outcomes) :
    ∃ fact ∈ canonicalizePostconditions facts,
      ownershipRegionCovers fact.region region = true ∧ fact.condition = condition ∧
        outcomes ||| fact.outcomes = fact.outcomes := by
  rw [← recorded_merged hfacts] at h
  obtain ⟨fact, hfact, hregion, hcondition⟩ := exists_of_recorded h
  have hrecorded := recorded_of_mem (distinct_merged hfacts) hfact
  rw [hregion, hcondition, h, Option.some.injEq] at hrecorded
  have hkeeps : ∀ existing merged : CallableRegionPostcondition,
      overlapping existing merged = true →
      ((ownershipRegionCovers existing.region region = true ∧ existing.condition = condition ∧
          outcomes ||| existing.outcomes = existing.outcomes) ∨
        (ownershipRegionCovers merged.region region = true ∧ merged.condition = condition ∧
          outcomes ||| merged.outcomes = merged.outcomes)) →
      ownershipRegionCovers (absorbInto existing merged).region region = true ∧
        (absorbInto existing merged).condition = condition ∧
        outcomes ||| (absorbInto existing merged).outcomes =
          (absorbInto existing merged).outcomes := by
    intro existing merged hoverlap h
    simp only [overlapping, Bool.and_eq_true, Bool.or_eq_true, decide_eq_true_eq] at hoverlap
    obtain ⟨⟨hcovers, -⟩, hcondition⟩ := hoverlap
    obtain ⟨hregion, hsame, houtcomes⟩ | ⟨hregion, hsame, houtcomes⟩ := h
    · refine ⟨?_, hcondition ▸ hsame, ?_⟩
      · rw [absorbInto]
        split
        · exact hregion
        · rename_i hnot
          exact ownershipRegionCovers_trans (hcovers.resolve_left hnot) hregion
      · show outcomes ||| (merged.outcomes ||| existing.outcomes) =
          merged.outcomes ||| existing.outcomes
        rw [UInt8.or_comm merged.outcomes, ← UInt8.or_assoc, houtcomes]
    · refine ⟨?_, hsame, ?_⟩
      · rw [absorbInto]
        split
        · rename_i hexisting
          exact ownershipRegionCovers_trans hexisting hregion
        · exact hregion
      · show outcomes ||| (merged.outcomes ||| existing.outcomes) =
          merged.outcomes ||| existing.outcomes
        rw [← UInt8.or_assoc, houtcomes]
  have hsource : ∃ fact ∈ mergedPostconditions facts,
      ownershipRegionCovers fact.region region = true ∧ fact.condition = condition ∧
        outcomes ||| fact.outcomes = fact.outcomes := by
    refine ⟨fact, hfact, ?_, hcondition, ?_⟩
    · rw [hregion]
      exact ownershipRegionCovers_refl region
    · rw [← hrecorded, UInt8.or_self]
  obtain ⟨kept, hkept, htold⟩ := exists_mem_absorbAll hkeeps hsource
  exact ⟨kept, (mem_sortBy placeKey).2 hkept, htold⟩

/-- Where no region is within another one, the canonical form has nothing but what is recorded. -/
theorem recorded_of_mem_canonical (hfacts : ∀ fact ∈ facts, Plain fact)
    (hflat : ∀ a ∈ facts, ∀ b ∈ facts, ownershipRegionCovers a.region b.region = true →
      a.region = b.region) (h : fact ∈ canonicalizePostconditions facts) :
    recorded facts fact.region fact.condition = some fact.outcomes := by
  have hregion : ∀ a ∈ mergedPostconditions facts, ∃ b ∈ facts, b.region = a.region := by
    intro a ha
    have hrecorded := recorded_of_mem (distinct_merged hfacts) ha
    rw [recorded_merged hfacts] at hrecorded
    obtain ⟨b, hb, hregion, -⟩ := exists_of_recorded hrecorded
    exact ⟨b, hb, hregion⟩
  have hapart : (mergedPostconditions facts).Pairwise fun a b => overlapping a b = false := by
    refine (distinct_merged hfacts).imp_of_mem fun {a b} ha hb hab =>
      Bool.eq_false_iff.2 fun hoverlap => hab ?_
    simp only [overlapping, Bool.and_eq_true, Bool.or_eq_true, decide_eq_true_eq] at hoverlap
    obtain ⟨⟨hcovers, -⟩, hcondition⟩ := hoverlap
    obtain ⟨a', ha', hregiona⟩ := hregion a ha
    obtain ⟨b', hb', hregionb⟩ := hregion b hb
    refine ⟨?_, hcondition⟩
    rw [← hregiona, ← hregionb] at hcovers ⊢
    obtain hcovers | hcovers := hcovers
    · exact hflat a' ha' b' hb' hcovers
    · exact (hflat b' hb' a' ha' hcovers).symm
  rw [canonicalizePostconditions, mem_sortBy, ← mergedPostconditions,
    absorbAll_eq_self hapart] at h
  rw [← recorded_merged hfacts]
  exact recorded_of_mem (distinct_merged hfacts) h

end PublicInterface

end Chtholly
