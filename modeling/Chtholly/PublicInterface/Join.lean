import Chtholly.PublicInterface.Recorded

/-!
# Joins of postcondition states

Where several edges of the control flow meet, the states of the predecessors are merged one after the
other.  What a predecessor says of a region holds under the condition of its edge; for the part of
the edge on which it says nothing, a merge adds that the region is preserved.  It does so for the
regions that are known by then, so that a region which only a later predecessor mentions gets no such
fact from the earlier ones.

## Main definitions

* `PublicInterface.mergePostconditions`, `PublicInterface.joinPostconditions` — one merge, and the
  join of all predecessors.
* `PublicInterface.ownFacts`, `PublicInterface.preserveFact` — what a predecessor contributes.
* `PublicInterface.OrderIndependent` — the join does not depend on the order and has every preserve
  fact.
* `PublicInterface.PreserveKept` — every preserve fact that may be missing is there anyway.

## Main results

* `PublicInterface.merged_mergeAll` — what a run of merges records.
* `PublicInterface.join_orderIndependent_iff` — when the join is independent of the order.
-/

set_option autoImplicit false

namespace Chtholly

namespace PublicInterface

/-! ## The merge -/

abbrev PostconditionState := List CallableRegionPostcondition

/-- The entry is joined with the first one for its region and condition, or becomes a new one. -/
def addEntry : PostconditionState → CallableRegionPostcondition → PostconditionState
  | [], entry => [entry]
  | found :: state, entry =>
    if found.region = entry.region ∧ found.condition = entry.condition then
      { found with outcomes := found.outcomes ||| entry.outcomes } :: state
    else found :: addEntry state entry

def setPostcondition (state : PostconditionState) (region : OwnershipRegion) (outcomes : UInt8)
    (condition : CallableConditionDescriptor) : PostconditionState :=
  let entry := widen { region := region, outcomes := outcomes, condition := condition }
  if entry.condition.isNever then state else addEntry state entry

/-- The regions of the entries, each of them once. -/
def mentionedRegions (entries : PostconditionState) : List OwnershipRegion :=
  entries.foldl (fun regions entry =>
    if entry.region ∈ regions then regions else regions ++ [entry.region]) []

/-- The condition under which the source says something of the region. -/
def sourceCondition (source : PostconditionState) (region : OwnershipRegion) :
    CallableConditionDescriptor :=
  source.foldl (fun condition entry =>
    if entry.region = region then conditionOr condition entry.condition else condition) .never

def mergePostconditions (target source : PostconditionState)
    (edgeCondition : CallableConditionDescriptor) : PostconditionState :=
  let regions := mentionedRegions (target ++ source)
  let target := source.foldl (fun target entry =>
    setPostcondition target entry.region entry.outcomes
      (conditionAnd entry.condition edgeCondition)) target
  regions.foldl (fun target region =>
    setPostcondition target region callableOutcomePreserve
      (conditionAnd edgeCondition (conditionNot (sourceCondition source region)))) target

/-- The state behind a predecessor, and the condition of the edge that leads from it. -/
structure Predecessor where
  state : PostconditionState
  condition : CallableConditionDescriptor

def mergeAll (predecessors : List Predecessor) : PostconditionState :=
  predecessors.foldl (fun state predecessor =>
    mergePostconditions state predecessor.state predecessor.condition) []

def joinPostconditions (predecessors : List Predecessor) : PostconditionState :=
  canonicalizePostconditions (mergeAll predecessors)

/-! ## What a merge contributes -/

/-- The entry that is set, if there is one. -/
def factOf (region : OwnershipRegion) (outcomes : UInt8) (condition : CallableConditionDescriptor) :
    List CallableRegionPostcondition :=
  let entry := widen { region := region, outcomes := outcomes, condition := condition }
  if entry.condition.isNever then [] else [entry]

namespace Predecessor

def Mentions (predecessor : Predecessor) (region : OwnershipRegion) : Prop :=
  ∃ entry ∈ predecessor.state, entry.region = region

instance (predecessor : Predecessor) (region : OwnershipRegion) :
    Decidable (predecessor.Mentions region) :=
  inferInstanceAs (Decidable (∃ entry ∈ predecessor.state, entry.region = region))

def sourceFacts (predecessor : Predecessor) : List CallableRegionPostcondition :=
  predecessor.state.flatMap fun entry =>
    factOf entry.region entry.outcomes (conditionAnd entry.condition predecessor.condition)

/-- The region is preserved where the predecessor says nothing of it. -/
def preserveFact (predecessor : Predecessor) (region : OwnershipRegion) :
    List CallableRegionPostcondition :=
  factOf region callableOutcomePreserve (conditionAnd predecessor.condition
    (conditionNot (sourceCondition predecessor.state region)))

/-- What a predecessor contributes whatever has been merged before it. -/
def ownFacts (predecessor : Predecessor) : List CallableRegionPostcondition :=
  predecessor.sourceFacts ++
    (predecessor.state.map CallableRegionPostcondition.region).flatMap predecessor.preserveFact

end Predecessor

lemma widen_region (fact : CallableRegionPostcondition) :
    (widen fact).region = fact.region ∧ (widen fact).resultVariant = fact.resultVariant := by
  unfold widen
  split <;> exact ⟨rfl, rfl⟩

variable {region : OwnershipRegion}

lemma plain_of_mem_factOf {outcomes : UInt8} {condition : CallableConditionDescriptor}
    {fact : CallableRegionPostcondition} (h : fact ∈ factOf region outcomes condition) :
    Plain fact ∧ fact.region = region := by
  unfold factOf at h
  dsimp only at h
  split at h
  · cases h
  · rename_i hnever
    rw [List.mem_singleton.1 h]
    exact ⟨⟨⟨(widen_condition _).1, (widen_condition _).2, Bool.eq_false_iff.2 hnever⟩,
      (widen_region _).2⟩, (widen_region _).1⟩

lemma recorded_addEntry (state : PostconditionState) (entry : CallableRegionPostcondition)
    (region : OwnershipRegion) (condition : CallableConditionDescriptor) :
    recorded (addEntry state entry) region condition =
      joinOutcomes (outcomesAt entry region condition) (recorded state region condition) := by
  induction state with
  | nil => rfl
  | cons found state ih =>
    rw [addEntry]
    split
    · rename_i hsame
      have hfound : outcomesAt { found with outcomes := found.outcomes ||| entry.outcomes }
          region condition =
            joinOutcomes (outcomesAt found region condition) (outcomesAt entry region condition) := by
        simp only [outcomesAt, ← hsame.1, ← hsame.2]
        by_cases hplace : found.region = region ∧ found.condition = condition
        · simp [hplace, joinOutcomes]
        · simp [hplace]
      rw [recorded_cons, hfound, joinOutcomes_comm (outcomesAt found _ _), joinOutcomes_assoc,
        recorded_cons]
    · rw [recorded_cons, ih, joinOutcomes_left_comm, recorded_cons]

lemma recorded_setPostcondition (state : PostconditionState) (region : OwnershipRegion)
    (outcomes : UInt8) (condition : CallableConditionDescriptor) (region' : OwnershipRegion)
    (condition' : CallableConditionDescriptor) :
    recorded (setPostcondition state region outcomes condition) region' condition' =
      joinOutcomes (recorded (factOf region outcomes condition) region' condition')
        (recorded state region' condition') := by
  unfold setPostcondition factOf
  dsimp only
  split
  · rfl
  · rw [recorded_addEntry, recorded_cons, recorded_nil, joinOutcomes_none_right]

variable {state : PostconditionState}

lemma plain_addEntry {entry : CallableRegionPostcondition} (hstate : ∀ fact ∈ state, Plain fact)
    (hentry : Plain entry) :
    ∀ fact ∈ addEntry state entry, Plain fact ∧
      (fact.region = entry.region ∨ ∃ old ∈ state, old.region = fact.region) := by
  induction state with
  | nil =>
    intro fact hfact
    rw [List.mem_singleton.1 hfact]
    exact ⟨hentry, Or.inl rfl⟩
  | cons found state ih =>
    have hfound := hstate found List.mem_cons_self
    have hrest := ih fun fact hfact => hstate fact (List.mem_cons_of_mem _ hfact)
    rw [addEntry]
    split
    · intro fact hfact
      obtain rfl | hfact := List.mem_cons.1 hfact
      · exact ⟨hfound, Or.inr ⟨found, List.mem_cons_self, rfl⟩⟩
      · exact ⟨hstate fact (List.mem_cons_of_mem _ hfact),
          Or.inr ⟨fact, List.mem_cons_of_mem _ hfact, rfl⟩⟩
    · intro fact hfact
      obtain rfl | hfact := List.mem_cons.1 hfact
      · exact ⟨hfound, Or.inr ⟨fact, List.mem_cons_self, rfl⟩⟩
      · obtain ⟨hplain, hregion | ⟨old, hold, hregion⟩⟩ := hrest fact hfact
        · exact ⟨hplain, Or.inl hregion⟩
        · exact ⟨hplain, Or.inr ⟨old, List.mem_cons_of_mem _ hold, hregion⟩⟩

lemma plain_setPostcondition (hstate : ∀ fact ∈ state, Plain fact) (region : OwnershipRegion)
    (outcomes : UInt8) (condition : CallableConditionDescriptor) :
    ∀ fact ∈ setPostcondition state region outcomes condition, Plain fact ∧
      (fact.region = region ∨ ∃ old ∈ state, old.region = fact.region) := by
  unfold setPostcondition
  dsimp only
  split
  · exact fun fact hfact => ⟨hstate fact hfact, Or.inr ⟨fact, hfact, rfl⟩⟩
  · rename_i hnever
    have hentry : Plain (widen { region := region, outcomes := outcomes, condition := condition }) :=
      ⟨⟨(widen_condition _).1, (widen_condition _).2, Bool.eq_false_iff.2 hnever⟩,
        (widen_region _).2⟩
    intro fact hfact
    obtain ⟨hplain, hregion⟩ := plain_addEntry hstate hentry fact hfact
    rw [(widen_region _).1] at hregion
    exact ⟨hplain, hregion⟩

/-- Entries that are set one after the other. -/
lemma foldl_setPostcondition {α : Type} (items : List α) (regionOf : α → OwnershipRegion)
    (outcomesOf : α → UInt8) (conditionOf : α → CallableConditionDescriptor)
    (hstate : ∀ fact ∈ state, Plain fact) :
    (∀ fact ∈ items.foldl (fun state item =>
        setPostcondition state (regionOf item) (outcomesOf item) (conditionOf item)) state,
      Plain fact ∧ ((∃ item ∈ items, regionOf item = fact.region) ∨
        ∃ old ∈ state, old.region = fact.region)) ∧
      ∀ region condition,
        recorded (items.foldl (fun state item =>
            setPostcondition state (regionOf item) (outcomesOf item) (conditionOf item)) state)
          region condition =
        joinOutcomes (recorded (items.flatMap fun item =>
            factOf (regionOf item) (outcomesOf item) (conditionOf item)) region condition)
          (recorded state region condition) := by
  induction items generalizing state with
  | nil => exact ⟨fun fact hfact => ⟨hstate fact hfact, Or.inr ⟨fact, hfact, rfl⟩⟩, fun _ _ => rfl⟩
  | cons item items ih =>
    have hset := plain_setPostcondition hstate (regionOf item) (outcomesOf item) (conditionOf item)
    obtain ⟨hplain, hrecorded⟩ := ih fun fact hfact => (hset fact hfact).1
    constructor
    · intro fact hfact
      obtain ⟨hfact, ⟨other, hother, hregion⟩ | ⟨old, hold, hregion⟩⟩ := hplain fact hfact
      · exact ⟨hfact, Or.inl ⟨other, List.mem_cons_of_mem _ hother, hregion⟩⟩
      · obtain hnew | ⟨older, holder, hregion'⟩ := (hset old hold).2
        · exact ⟨hfact, Or.inl ⟨item, List.mem_cons_self, hnew.symm.trans hregion⟩⟩
        · exact ⟨hfact, Or.inr ⟨older, holder, hregion'.trans hregion⟩⟩
    · intro region condition
      rw [List.foldl_cons, hrecorded, recorded_setPostcondition, List.flatMap_cons, recorded_append,
        joinOutcomes_left_comm, joinOutcomes_assoc]

lemma mem_mentionedRegions {entries : PostconditionState} :
    region ∈ mentionedRegions entries ↔ ∃ entry ∈ entries, entry.region = region := by
  have hfold : ∀ (entries : PostconditionState) (regions : List OwnershipRegion),
      region ∈ entries.foldl (fun regions entry =>
          if entry.region ∈ regions then regions else regions ++ [entry.region]) regions ↔
        region ∈ regions ∨ ∃ entry ∈ entries, entry.region = region := by
    intro entries
    induction entries with
    | nil => simp
    | cons entry entries ih =>
      intro regions
      rw [List.foldl_cons, ih]
      split
      · rename_i hmem
        simp only [List.mem_cons, exists_eq_or_imp]
        constructor
        · exact fun h => h.imp_right Or.inr
        · rintro (h | rfl | h)
          · exact Or.inl h
          · exact Or.inl hmem
          · exact Or.inr h
      · simp only [List.mem_append, List.mem_cons, List.not_mem_nil, or_false, exists_eq_or_imp,
          or_assoc]
        rw [eq_comm (a := region)]
  simpa [mentionedRegions] using hfold entries []

/-- Facts about the regions of a list: which of them the list has is all that matters. -/
lemma recorded_flatMap_regions {factsOf : OwnershipRegion → List CallableRegionPostcondition}
    (hfacts : ∀ region, ∀ fact ∈ factsOf region, fact.region = region)
    (regions : List OwnershipRegion) (region : OwnershipRegion)
    (condition : CallableConditionDescriptor) :
    recorded (regions.flatMap factsOf) region condition =
      if region ∈ regions then recorded (factsOf region) region condition else none := by
  induction regions with
  | nil => rfl
  | cons first regions ih =>
    rw [List.flatMap_cons, recorded_append, ih]
    by_cases hfirst : first = region
    · subst hfirst
      rw [if_pos List.mem_cons_self]
      split
      · exact joinOutcomes_self _
      · exact joinOutcomes_none_right _
    · have hnone : recorded (factsOf first) region condition = none :=
        recorded_eq_none fun fact hfact heq => hfirst ((hfacts first fact hfact).symm.trans heq.1)
      simp only [hnone, joinOutcomes_none_left, List.mem_cons, Ne.symm hfirst, false_or]

lemma region_of_mem_preserveFact (predecessor : Predecessor) (region : OwnershipRegion) :
    ∀ fact ∈ predecessor.preserveFact region, fact.region = region :=
  fun _ hfact => (plain_of_mem_factOf hfact).2

/-! ## A run of merges -/

/-- Some predecessor of the list mentions the region. -/
def Mentioned (predecessors : List Predecessor) (region : OwnershipRegion) : Prop :=
  ∃ predecessor ∈ predecessors, predecessor.Mentions region

/-- The preserve facts that are added beyond what a predecessor contributes anyway: an earlier
predecessor has mentioned the region. -/
def Late (predecessors : List Predecessor) (fact : CallableRegionPostcondition) : Prop :=
  ∃ before predecessor after, predecessors = before ++ predecessor :: after ∧
    ¬predecessor.Mentions fact.region ∧ Mentioned before fact.region ∧
    fact ∈ predecessor.preserveFact fact.region

/-- What holds of the state when some predecessors have been merged. -/
structure Merged (done : List Predecessor) (state : PostconditionState) : Prop where
  plain : ∀ fact ∈ state, Plain fact
  mentioned : ∀ fact ∈ state, Mentioned done fact.region
  records : ∃ late, (∀ fact ∈ late, Late done fact) ∧ ∀ region condition,
    recorded state region condition =
      joinOutcomes (recorded (done.flatMap Predecessor.ownFacts) region condition)
        (recorded late region condition)

lemma Late.append {done : List Predecessor} {fact : CallableRegionPostcondition}
    (h : Late done fact) (more : List Predecessor) : Late (done ++ more) fact := by
  obtain ⟨before, predecessor, after, rfl, h⟩ := h
  exact ⟨before, predecessor, after ++ more, by simp, h⟩

/-- One merge. -/
lemma Merged.step {done : List Predecessor} (h : Merged done state) (predecessor : Predecessor) :
    Merged (done ++ [predecessor])
      (mergePostconditions state predecessor.state predecessor.condition) := by
  obtain ⟨hplain, hmentioned, late, hlate, hrecords⟩ := h
  set source := predecessor.state.foldl (fun target entry =>
    setPostcondition target entry.region entry.outcomes
      (conditionAnd entry.condition predecessor.condition)) state with hsource
  set regions := mentionedRegions (state ++ predecessor.state) with hregions
  have hmem : ∀ region, region ∈ regions ↔
      (∃ entry ∈ state, entry.region = region) ∨ predecessor.Mentions region := by
    intro region
    rw [hregions, mem_mentionedRegions]
    simp only [List.mem_append, or_and_right, exists_or, Predecessor.Mentions]
  obtain ⟨hsourcePlain, hsourceRecorded⟩ := foldl_setPostcondition predecessor.state
    CallableRegionPostcondition.region CallableRegionPostcondition.outcomes
    (fun entry => conditionAnd entry.condition predecessor.condition) hplain
  rw [← hsource] at hsourcePlain hsourceRecorded
  obtain ⟨hresultPlain, hresultRecorded⟩ := foldl_setPostcondition regions id
    (fun _ => callableOutcomePreserve) (fun region => conditionAnd predecessor.condition
      (conditionNot (sourceCondition predecessor.state region)))
    fun fact hfact => (hsourcePlain fact hfact).1
  have hmerge : mergePostconditions state predecessor.state predecessor.condition =
      regions.foldl (fun target region => setPostcondition target (id region)
        callableOutcomePreserve (conditionAnd predecessor.condition
          (conditionNot (sourceCondition predecessor.state region)))) source := rfl
  rw [← hmerge] at hresultPlain hresultRecorded
  have hstateRegion : ∀ region, (∃ entry ∈ state, entry.region = region) →
      Mentioned (done ++ [predecessor]) region := by
    rintro region ⟨entry, hentry, rfl⟩
    obtain ⟨other, hother, hmentions⟩ := hmentioned entry hentry
    exact ⟨other, List.mem_append_left _ hother, hmentions⟩
  have hownRegion : ∀ region, predecessor.Mentions region →
      Mentioned (done ++ [predecessor]) region := fun region hmentions =>
    ⟨predecessor, List.mem_append_right _ (List.mem_singleton_self _), hmentions⟩
  refine ⟨fun fact hfact => (hresultPlain fact hfact).1, fun fact hfact => ?_, ?_⟩
  · obtain ⟨region, hregion, hsame⟩ | ⟨old, hold, hsame⟩ := (hresultPlain fact hfact).2
    · rw [← hsame]
      exact ((hmem region).1 hregion).elim (hstateRegion region) (hownRegion region)
    · rw [← hsame]
      exact (hsourcePlain old hold).2.elim (hownRegion old.region) (hstateRegion old.region)
  · -- Beyond its own facts the predecessor preserves the regions that only the state has.
    set others := (state.map CallableRegionPostcondition.region).filter
      fun region => ¬predecessor.Mentions region with hothers
    have hmemOthers : ∀ region, region ∈ others ↔
        (∃ entry ∈ state, entry.region = region) ∧ ¬predecessor.Mentions region := by
      intro region
      simp [hothers, List.mem_filter]
    refine ⟨late ++ others.flatMap predecessor.preserveFact, fun fact hfact => ?_, ?_⟩
    · obtain hfact | hfact := List.mem_append.1 hfact
      · exact (hlate fact hfact).append _
      · obtain ⟨region, hregion, hfact⟩ := List.mem_flatMap.1 hfact
        obtain ⟨⟨entry, hentry, hsame⟩, hnot⟩ := (hmemOthers region).1 hregion
        have hfactRegion := region_of_mem_preserveFact predecessor region fact hfact
        subst hfactRegion
        exact ⟨done, predecessor, [], rfl, hnot, hsame ▸ hmentioned entry hentry, hfact⟩
    · intro region condition
      have hpreserves := fun regions => recorded_flatMap_regions
        (region_of_mem_preserveFact predecessor) regions region condition
      have hregionsRecorded : recorded (regions.flatMap fun region =>
            factOf (id region) callableOutcomePreserve (conditionAnd predecessor.condition
              (conditionNot (sourceCondition predecessor.state region)))) region condition =
          joinOutcomes (recorded ((predecessor.state.map CallableRegionPostcondition.region).flatMap
              predecessor.preserveFact) region condition)
            (recorded (others.flatMap predecessor.preserveFact) region condition) := by
        have hown : region ∈ predecessor.state.map CallableRegionPostcondition.region ↔
            predecessor.Mentions region := by
          simp [Predecessor.Mentions]
        have hall := hpreserves regions
        rw [hpreserves, hpreserves]
        refine hall.trans ?_
        simp only [hmem, hown, hmemOthers]
        by_cases hmentions : predecessor.Mentions region <;> simp [hmentions]
      rw [hresultRecorded, hregionsRecorded, hsourceRecorded, hrecords, List.flatMap_append,
        recorded_append, recorded_append, List.flatMap_singleton, Predecessor.ownFacts,
        recorded_append, Predecessor.sourceFacts]
      ac_rfl

/-- A run of merges records what the predecessors contribute anyway, and some late facts. -/
lemma merged_mergeAll (predecessors : List Predecessor) :
    Merged predecessors (mergeAll predecessors) := by
  have hrun : ∀ (todo done : List Predecessor) (state : PostconditionState), Merged done state →
      Merged (done ++ todo) (todo.foldl (fun state predecessor =>
        mergePostconditions state predecessor.state predecessor.condition) state) := by
    intro todo
    induction todo with
    | nil =>
      intro done state h
      rwa [List.append_nil]
    | cons predecessor todo ih =>
      intro done state h
      have hrest := ih _ _ (h.step predecessor)
      rwa [List.append_assoc, List.singleton_append] at hrest
  have hempty : Merged [] [] :=
    ⟨fun _ h => absurd h List.not_mem_nil, fun _ h => absurd h List.not_mem_nil,
      [], fun _ h => absurd h List.not_mem_nil, fun _ _ => rfl⟩
  exact hrun predecessors [] [] hempty

/-! ## The order of the predecessors -/

/-- Every order of the predecessors gives the same state, in which each of them has its preserve
fact for every region that is mentioned: for the region or one around it. -/
def OrderIndependent (predecessors : List Predecessor) : Prop :=
  (∀ order, order.Perm predecessors →
      joinPostconditions order = joinPostconditions predecessors) ∧
    ∀ predecessor ∈ predecessors, ∀ region, Mentioned predecessors region →
      ∀ fact ∈ predecessor.preserveFact region, ∃ kept ∈ joinPostconditions predecessors,
        ownershipRegionCovers kept.region region = true ∧ kept.condition = fact.condition ∧
          fact.outcomes ||| kept.outcomes = kept.outcomes

/-- A preserve fact for a region that only other predecessors mention is among what the
predecessors contribute anyway. -/
def PreserveKept (predecessors : List Predecessor) : Prop :=
  ∀ predecessor ∈ predecessors, ∀ region, Mentioned predecessors region →
    ¬predecessor.Mentions region → ∀ fact ∈ predecessor.preserveFact region,
      Within (some fact.outcomes)
        (recorded (predecessors.flatMap Predecessor.ownFacts) region fact.condition)

/-- No mentioned region lies within another one. -/
def Flat (predecessors : List Predecessor) : Prop :=
  ∀ a b, Mentioned predecessors a → Mentioned predecessors b →
    ownershipRegionCovers a b = true → a = b

variable {order predecessors : List Predecessor}

lemma Mentioned.perm (h : Mentioned order region) (hperm : order.Perm predecessors) :
    Mentioned predecessors region := by
  obtain ⟨predecessor, hmem, hmentions⟩ := h
  exact ⟨predecessor, hperm.mem_iff.1 hmem, hmentions⟩

lemma recorded_ownFacts_perm (hperm : order.Perm predecessors) (region : OwnershipRegion)
    (condition : CallableConditionDescriptor) :
    recorded (order.flatMap Predecessor.ownFacts) region condition =
      recorded (predecessors.flatMap Predecessor.ownFacts) region condition :=
  recorded_perm (hperm.flatMap_right _)

/-- Where the preserve facts are kept, the late facts add nothing. -/
lemma PreserveKept.recorded_mergeAll (h : PreserveKept predecessors)
    (hperm : order.Perm predecessors) (region : OwnershipRegion)
    (condition : CallableConditionDescriptor) :
    recorded (mergeAll order) region condition =
      recorded (predecessors.flatMap Predecessor.ownFacts) region condition := by
  obtain ⟨late, hlate, hrecords⟩ := (merged_mergeAll order).records
  have hwithin : Within (recorded late region condition)
      (recorded (predecessors.flatMap Predecessor.ownFacts) region condition) := by
    rw [recorded_within_iff]
    intro fact hfact
    obtain ⟨before, predecessor, after, horder, hnot, hbefore, hpreserve⟩ := hlate fact hfact
    have hmentioned : Mentioned order fact.region := by
      obtain ⟨other, hother, hmentions⟩ := hbefore
      exact ⟨other, horder ▸ List.mem_append_left _ hother, hmentions⟩
    have hmem : predecessor ∈ predecessors :=
      hperm.mem_iff.1 (horder ▸ List.mem_append_right _ List.mem_cons_self)
    have hkept := h predecessor hmem fact.region (hmentioned.perm hperm) hnot fact hpreserve
    unfold outcomesAt
    split
    · rename_i hplace
      rw [← hplace.1, ← hplace.2]
      exact hkept
    · rfl
  rw [hrecords, recorded_ownFacts_perm hperm, joinOutcomes_comm]
  exact hwithin

lemma exists_of_within {outcomes : UInt8} {bound : Option UInt8}
    (h : Within (some outcomes) bound) : ∃ o, bound = some o ∧ outcomes ||| o = o := by
  cases bound with
  | none => exact absurd h (by simp [Within])
  | some o => exact ⟨o, rfl, by simpa [Within, joinOutcomes] using h⟩

lemma PreserveKept.orderIndependent (h : PreserveKept predecessors) :
    OrderIndependent predecessors := by
  have hplain := (merged_mergeAll predecessors).plain
  constructor
  · intro order hperm
    refine canonicalizePostconditions_congr (merged_mergeAll order).plain hplain
      fun region condition => ?_
    rw [h.recorded_mergeAll hperm, h.recorded_mergeAll (List.Perm.refl _)]
  · intro predecessor hmem region hmentioned fact hfact
    have hkept : Within (some fact.outcomes)
        (recorded (predecessors.flatMap Predecessor.ownFacts) region fact.condition) := by
      by_cases hmentions : predecessor.Mentions region
      · -- The predecessor contributes the fact itself.
        have hown : fact ∈ predecessors.flatMap Predecessor.ownFacts := by
          obtain ⟨entry, hentry, hregion⟩ := hmentions
          refine List.mem_flatMap.2 ⟨predecessor, hmem, List.mem_append_right _ ?_⟩
          exact List.mem_flatMap.2 ⟨region, List.mem_map.2 ⟨entry, hentry, hregion⟩, hfact⟩
        have hwithin : Within (outcomesAt fact region fact.condition) (recorded
            (predecessors.flatMap Predecessor.ownFacts) region fact.condition) :=
          within_recorded hown
        rwa [outcomesAt, if_pos ⟨region_of_mem_preserveFact predecessor region fact hfact, rfl⟩]
          at hwithin
      · exact h predecessor hmem region hmentioned hmentions fact hfact
    obtain ⟨outcomes, hrecorded, hamong⟩ := exists_of_within hkept
    rw [← h.recorded_mergeAll (List.Perm.refl _)] at hrecorded
    obtain ⟨kept, hkeptMem, hcovers, hcondition, houtcomes⟩ :=
      exists_mem_canonical hplain hrecorded
    refine ⟨kept, hkeptMem, hcovers, hcondition, ?_⟩
    rw [← houtcomes, ← UInt8.or_assoc, hamong]

/-- When the predecessors that mention a region come last, nothing late is said of it. -/
lemma recorded_mergeAll_of_last
    (h : order.Pairwise fun a b => a.Mentions region → b.Mentions region)
    (condition : CallableConditionDescriptor) :
    recorded (mergeAll order) region condition =
      recorded (order.flatMap Predecessor.ownFacts) region condition := by
  obtain ⟨late, hlate, hrecords⟩ := (merged_mergeAll order).records
  have hnone : recorded late region condition = none := by
    refine recorded_eq_none fun fact hfact hplace => ?_
    obtain ⟨before, predecessor, after, horder, hnot, ⟨other, hother, hmentions⟩, -⟩ :=
      hlate fact hfact
    rw [hplace.1] at hnot hmentions
    rw [horder, List.pairwise_append] at h
    exact hnot (h.2.2 other hother predecessor List.mem_cons_self hmentions)
  rw [hrecords, hnone, joinOutcomes_none_right]

lemma OrderIndependent.preserveKept (h : OrderIndependent predecessors)
    (hflat : Flat predecessors) : PreserveKept predecessors := by
  intro predecessor hmem region hmentioned _ fact hfact
  obtain ⟨kept, hkept, hcovers, hcondition, houtcomes⟩ :=
    h.2 predecessor hmem region hmentioned fact hfact
  -- In this order the region is not mentioned until nothing late can be said of it.
  set order := predecessors.filter (fun other => !decide (other.Mentions region)) ++
    predecessors.filter (fun other => !!decide (other.Mentions region)) with horder
  have hperm : order.Perm predecessors := List.filter_append_perm _ _
  have hlast : order.Pairwise fun a b => a.Mentions region → b.Mentions region := by
    rw [horder, List.pairwise_append]
    have hall : ∀ other ∈ predecessors.filter (fun other => !!decide (other.Mentions region)),
        other.Mentions region := by
      intro other hother
      simpa using (List.mem_filter.1 hother).2
    have hnone : ∀ other ∈ predecessors.filter (fun other => !decide (other.Mentions region)),
        ¬other.Mentions region := by
      intro other hother
      simpa using (List.mem_filter.1 hother).2
    refine ⟨List.pairwise_of_forall_mem_list ?_, List.pairwise_of_forall_mem_list ?_, ?_⟩
    · exact fun a ha _ _ hmentions => absurd hmentions (hnone a ha)
    · exact fun _ _ b hb _ => hall b hb
    · exact fun _ _ b hb _ => hall b hb
  have hmerged := merged_mergeAll order
  have hflatFacts : ∀ a ∈ mergeAll order, ∀ b ∈ mergeAll order,
      ownershipRegionCovers a.region b.region = true → a.region = b.region := fun a ha b hb =>
    hflat _ _ ((hmerged.mentioned a ha).perm hperm) ((hmerged.mentioned b hb).perm hperm)
  rw [← h.1 order hperm] at hkept
  have hrecorded := recorded_of_mem_canonical hmerged.plain hflatFacts hkept
  have hregion : kept.region = region := by
    obtain ⟨source, hsource, hsame, -⟩ := exists_of_recorded hrecorded
    refine hflat _ _ ?_ hmentioned hcovers
    rw [← hsame]
    exact (hmerged.mentioned source hsource).perm hperm
  rw [hregion, hcondition, recorded_mergeAll_of_last hlast, recorded_ownFacts_perm hperm]
    at hrecorded
  rw [hrecorded, Within, joinOutcomes, houtcomes]

/-- **Joins.** If every preserve fact of a predecessor for a region that only others mention is
contributed by the predecessors anyway, the join does not depend on their order and has every
preserve fact.  Where no mentioned region lies within another one, the converse holds too. -/
theorem join_orderIndependent_iff (predecessors : List Predecessor) :
    (PreserveKept predecessors → OrderIndependent predecessors) ∧
      (Flat predecessors → (OrderIndependent predecessors ↔ PreserveKept predecessors)) :=
  ⟨fun h => h.orderIndependent, fun hflat =>
    ⟨fun h => h.preserveKept hflat, PreserveKept.orderIndependent⟩⟩

/-- The edge on which the first parameter has the value. -/
def flagIs (value : Bool) : CallableConditionDescriptor :=
  ⟨[⟨[⟨0, value, invalidIndex⟩]⟩], true⟩

/-- The second parameter is moved out of on one branch, and left alone on the other one. -/
def movedOnOneBranch : List Predecessor :=
  [{ state := [], condition := flagIs true },
    { state := [{ region := { parameterIndex := 1 }, outcomes := callableOutcomeInvalidate }]
      condition := flagIs false }]

/-- The second parameter is moved out of on both branches. -/
def movedOnBothBranches : List Predecessor :=
  [{ state := [{ region := { parameterIndex := 1 }, outcomes := callableOutcomeInvalidate }]
     condition := flagIs true },
    { state := [{ region := { parameterIndex := 1 }, outcomes := callableOutcomeInvalidate }]
      condition := flagIs false }]

lemma mentioned_movedOnBothBranches (h : Mentioned movedOnBothBranches region) :
    region = { parameterIndex := 1 } := by
  simpa [movedOnBothBranches, Mentioned, Predecessor.Mentions, eq_comm] using h

/-- No preserve fact can be missing where every predecessor mentions the region. -/
theorem join_orderIndependent_movedOnBothBranches :
    OrderIndependent movedOnBothBranches ∧
      (OrderIndependent movedOnBothBranches ↔ PreserveKept movedOnBothBranches) := by
  have hflat : Flat movedOnBothBranches := fun a b ha hb _ =>
    (mentioned_movedOnBothBranches ha).trans (mentioned_movedOnBothBranches hb).symm
  refine ⟨(join_orderIndependent_iff _).1 ?_, (join_orderIndependent_iff _).2 hflat⟩
  intro predecessor hmem region hmentioned hnot
  refine absurd ?_ hnot
  rw [mentioned_movedOnBothBranches hmentioned]
  simp only [movedOnBothBranches, List.mem_cons, List.not_mem_nil, or_false] at hmem
  obtain rfl | rfl := hmem
  all_goals exact ⟨_, List.mem_cons_self, rfl⟩

/-- The branch that leaves the parameter alone comes first, and nothing is said of it. -/
theorem movedOnOneBranch_not_orderIndependent :
    ¬∀ predecessors, OrderIndependent predecessors := by
  intro h
  have hswap := (h movedOnOneBranch).1 movedOnOneBranch.reverse (List.reverse_perm _)
  revert hswap
  decide

end PublicInterface

end Chtholly
