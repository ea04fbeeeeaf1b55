import Chtholly.PlaceState.Inversion
import Chtholly.PlaceState.Suspension

set_option autoImplicit false

/-!
# The stacks of the analyzer

An instruction without control flow adds to the stacks at their ends, and the end of a full
expression and a suspension take out of them.  As long as what is taken was not there when the
current block was entered, a block leaves the entries below its marks as they are, up to temporaries
that are extended.

## Main definitions

* `Chtholly.Keeps` — the entries of an earlier state are there.
* `Chtholly.Delimits` — the depths of the loops delimit parts of the stacks.

## Main results

* `Chtholly.keeps_transfer` — the straight-line instructions.
-/

namespace Chtholly

namespace Analysis

/-! ## Operations that leave the stacks alone -/

/-- The active locals, the registrations and the edges to the loops. -/
def scopes (a : Analysis) : List LocalId × List CleanupRegistration × List LoopFlow :=
  (a.activeLocals, a.cleanupRegistrations, a.loopFlows)

section

variable (env : PlaceEnv) (i : InstId) (p : ResolvedPlace) (a : Analysis)

@[simp] lemma scopes_diagnose (kind : PlaceStateDiagnosticKind) :
    (a.diagnose i kind).scopes = a.scopes := rfl

@[simp] lemma scopes_diagnose? (kind : Option PlaceStateDiagnosticKind) :
    (a.diagnose? i kind).scopes = a.scopes := by
  cases kind <;> rfl

@[simp] lemma scopes_modifyRoot (l : LocalId) (f : RootState → RootState) :
    (a.modifyRoot env l f).scopes = a.scopes := rfl

@[simp] lemma scopes_ensureRoot (l : LocalId) : (a.ensureRoot env l).scopes = a.scopes := rfl

@[simp] lemma scopes_bumpRevision (l : LocalId) : (a.bumpRevision l).scopes = a.scopes := rfl

@[simp] lemma scopes_addOutcomeFact (fact : OutcomeFact) :
    (a.addOutcomeFact i fact).scopes = a.scopes := rfl

@[simp] lemma scopes_revise (kind : Observation) (l : LocalId) :
    (a.revise kind l).scopes = a.scopes := by
  unfold revise
  split <;> simp

@[simp] lemma scopes_touch : (a.touch env p).scopes = a.scopes := by
  unfold touch
  split <;> simp

@[simp] lemma scopes_diagnoseUse (state : PlaceStateKind) :
    (a.diagnoseUse env i p state).scopes = a.scopes := by
  cases state with
  | moved =>
    simp only [diagnoseUse]
    split <;> simp
  | _ => rfl

@[simp] lemma scopes_checkAccess : (a.checkAccess env i p).scopes = a.scopes := by
  simp only [checkAccess]
  split <;> simp

@[simp] lemma scopes_observe (kind : Observation) :
    (a.observe env i p kind).scopes = a.scopes := by
  simp only [observe]
  split_ifs <;> simp

@[simp] lemma scopes_observeExternal (kind : Observation) :
    (a.observeExternal env i p kind).scopes = a.scopes := by
  unfold observeExternal
  split <;> simp

@[simp] lemma scopes_observePlace (kind : Observation) :
    (a.observePlace env i p kind).scopes = a.scopes := by
  unfold observePlace
  split <;> simp

@[simp] lemma scopes_observeCallEffect (kind : Observation) :
    (a.observeCallEffect env i p kind).scopes = a.scopes := by
  simp only [observeCallEffect]
  split_ifs <;> simp

@[simp] lemma scopes_observeDirectPlace (v : Value) :
    (a.observeDirectPlace env v).scopes = a.scopes := by
  unfold observeDirectPlace
  split
  · rfl
  · split <;> simp

@[simp] lemma scopes_ensureOwnRoot : (a.ensureOwnRoot env p).scopes = a.scopes := by
  unfold ensureOwnRoot
  split <;> simp

@[simp] lemma scopes_appendLocalCleanup (l : LocalId) :
    (a.appendLocalCleanup env l).2.scopes = a.scopes := by
  unfold appendLocalCleanup
  split <;> simp

@[simp] lemma scopes_cleanupLocals (ls : List LocalId) :
    (a.cleanupLocals env ls).2.scopes = a.scopes := by
  induction ls generalizing a with
  | nil => rfl
  | cons l ls ih => exact (ih _).trans (scopes_appendLocalCleanup env a l)

@[simp] lemma scopes_applyEffect (arguments : List Value) (types : List TypeId)
    (effect : CallableRegionEffect) :
    (a.applyEffect env i arguments types effect).scopes = a.scopes := by
  unfold applyEffect
  split
  · rfl
  split
  · rfl
  split
  · split_ifs <;> simp
  all_goals simp

@[simp] lemma scopes_recordOutcomeFact (post : CallableRegionPostcondition)
    (before : Possibilities) : (a.recordOutcomeFact i p post before).scopes = a.scopes := by
  unfold recordOutcomeFact
  split
  · split <;> simp
  · rfl

@[simp] lemma scopes_applyExternalOutcomes (o : CallableOutcomes) :
    (applyExternalOutcomes p o a).scopes = a.scopes := by
  unfold applyExternalOutcomes
  split <;> rfl

@[simp] lemma scopes_moveInst (v : Value) : (a.moveInst env i v).scopes = a.scopes := by
  unfold moveInst
  split
  · rfl
  · dsimp only
    split_ifs <;> simp

@[simp] lemma scopes_copyInst (v : Value) : (a.copyInst env i v).scopes = a.scopes := by
  unfold copyInst
  split
  · rfl
  · dsimp only
    split_ifs <;> simp

@[simp] lemma scopes_borrowInst (v : Value) : (a.borrowInst env i v).scopes = a.scopes := by
  unfold borrowInst
  split
  · rfl
  · dsimp only
    split_ifs <;> simp

lemma scopes_assignInst (t v : Value) : (a.assignInst env i t v).scopes = a.scopes := by
  unfold assignInst
  split
  · rfl
  · dsimp only
    split_ifs <;> rfl

@[simp] lemma scopes_placementInst (t v : Value) (type : TypeId) :
    (a.placementInst env i t v type).scopes = a.scopes := by
  unfold placementInst
  split
  · rfl
  · dsimp only
    split_ifs <;> rfl

lemma scopes_applyOutcomeFact (variant : Nat) (fact : OutcomeFact) :
    (applyOutcomeFact env variant a fact).scopes = a.scopes := by
  unfold applyOutcomeFact
  split_ifs <;> rfl

lemma scopes_narrow (v : Value) (variant : Int) : (a.narrow env v variant).scopes = a.scopes := by
  unfold narrow
  split <;> rfl

/-- What an arm of a switch says is about the places. -/
lemma scopes_enterArm (v bound : Value) (label : Int) :
    (a.enterArm env v bound label).scopes = a.scopes := by
  have hfacts : ∀ facts : List OutcomeFact,
      (facts.foldl (applyOutcomeFact env label.toNat) a).scopes = a.scopes := by
    intro facts
    induction facts generalizing a with
    | nil => rfl
    | cons fact facts ih => exact (ih _).trans (scopes_applyOutcomeFact env a _ fact)
  unfold enterArm
  split
  · rfl
  · dsimp only
    rw [scopes_narrow]
    split
    · exact hfacts _
    · exact hfacts _

end

end Analysis

/-! ## What is kept -/

section

variable {r s t : CleanupRegistration} {rs ss ts : List CleanupRegistration}

lemma CleanupRegistration.becomes_self (r : CleanupRegistration) : r.becomes r = true := by
  cases r <;> simp [CleanupRegistration.becomes]

lemma CleanupRegistration.becomes_trans (h : r.becomes s = true) (h' : s.becomes t = true) :
    r.becomes t = true := by
  cases r <;> cases s <;> simp only [CleanupRegistration.becomes, decide_eq_true_eq,
    Bool.false_eq_true] at h <;> cases t <;>
    simp_all [CleanupRegistration.becomes]

lemma keptBelow_append (rs ss : List CleanupRegistration) : keptBelow rs (rs ++ ss) = true := by
  induction rs with
  | nil => rfl
  | cons r rs ih => simp [keptBelow, r.becomes_self, ih]

lemma keptBelow_trans (h : keptBelow rs ss = true) (h' : keptBelow ss ts = true) :
    keptBelow rs ts = true := by
  induction rs generalizing ss ts with
  | nil => rfl
  | cons r rs ih =>
    cases ss with
    | nil => cases h
    | cons s ss =>
      cases ts with
      | nil => cases h'
      | cons t ts =>
        simp only [keptBelow, Bool.and_eq_true] at h h' ⊢
        exact ⟨CleanupRegistration.becomes_trans h.1 h'.1, ih h.2 h'.2⟩

lemma length_le_of_keptBelow (h : keptBelow rs ss = true) : rs.length ≤ ss.length := by
  induction rs generalizing ss with
  | nil => exact Nat.zero_le _
  | cons r rs ih =>
    cases ss with
    | nil => cases h
    | cons s ss =>
      simp only [keptBelow, Bool.and_eq_true] at h
      exact Nat.succ_le_succ (ih h.2)

/-- Only the entries below the mark matter. -/
lemma keptBelow_take : keptBelow rs (ss.take rs.length) = keptBelow rs ss := by
  induction rs generalizing ss with
  | nil => rfl
  | cons r rs ih =>
    cases ss with
    | nil => rfl
    | cons s ss => simp only [List.length_cons, List.take_succ_cons, keptBelow, ih]

lemma keptBelow_extendRegistration (l : LocalId) (rs : List CleanupRegistration) :
    keptBelow rs (Analysis.extendRegistration l rs) = true := by
  have hself : ∀ rs : List CleanupRegistration, keptBelow rs rs = true := fun rs => by
    have h := keptBelow_append rs []
    rwa [List.append_nil] at h
  induction rs with
  | nil => rfl
  | cons r rs ih =>
    cases r with
    | temporary m =>
      rw [Analysis.extendRegistration]
      split
      · rename_i heq
        simp [keptBelow, CleanupRegistration.becomes, heq, hself]
      · simp [keptBelow, CleanupRegistration.becomes_self, ih]
    | _ => simp [Analysis.extendRegistration, keptBelow, CleanupRegistration.becomes_self, ih]

end

/-- The entries of an earlier state are there, and the loops unwind as far as before. -/
structure Keeps (a b : Analysis) : Prop where
  active : a.activeLocals <+: b.activeLocals
  cleanups : keptBelow a.cleanupRegistrations b.cleanupRegistrations = true
  flows : b.loopFlows.map LoopFlow.depths = a.loopFlows.map LoopFlow.depths

/-- No edge to a loop unwinds to beyond the end of a stack. -/
def Delimits (a : Analysis) : Prop :=
  ∀ f ∈ a.loopFlows, ∀ breaks, f.localDepth breaks ≤ a.activeLocals.length ∧
    f.cleanupDepth breaks ≤ a.cleanupRegistrations.length

variable {env : PlaceEnv} {a b c entry : Analysis}

lemma keeps_iff : a.keeps b = true ↔ Keeps a b := by
  simp only [Analysis.keeps, Bool.and_eq_true, List.isPrefixOf_iff_prefix, decide_eq_true_eq]
  exact ⟨fun h => ⟨h.1.1, h.1.2, h.2⟩, fun h => ⟨⟨h.active, h.cleanups⟩, h.flows⟩⟩

lemma delimited_iff : a.delimited = true ↔ Delimits a := by
  simp only [Analysis.delimited, List.all_eq_true, decide_eq_true_eq]
  rfl

lemma Keeps.of_scopes (h : b.scopes = a.scopes) : Keeps a b := by
  simp only [Analysis.scopes, Prod.mk.injEq] at h
  obtain ⟨hactive, hcleanups, hflows⟩ := h
  have hself := keptBelow_append a.cleanupRegistrations []
  rw [List.append_nil] at hself
  exact ⟨hactive ▸ List.prefix_refl _, hcleanups ▸ hself, by rw [hflows]⟩

lemma Keeps.refl (a : Analysis) : Keeps a a :=
  .of_scopes rfl

lemma Keeps.trans (h : Keeps a b) (h' : Keeps b c) : Keeps a c :=
  ⟨h.active.trans h'.active, keptBelow_trans h.cleanups h'.cleanups, h'.flows.trans h.flows⟩

/-- The same loops at the same depths delimit longer stacks too. -/
lemma Delimits.of_flows (h : Delimits a)
    (hflows : b.loopFlows.map LoopFlow.depths = a.loopFlows.map LoopFlow.depths)
    (hactive : a.activeLocals.length ≤ b.activeLocals.length)
    (hcleanups : a.cleanupRegistrations.length ≤ b.cleanupRegistrations.length) :
    Delimits b := by
  intro f hf breaks
  have hmem : f.depths ∈ a.loopFlows.map LoopFlow.depths :=
    hflows ▸ List.mem_map_of_mem hf
  obtain ⟨g, hg, hdepths⟩ := List.mem_map.1 hmem
  obtain ⟨hlocal, hcleanup⟩ := h g hg breaks
  simp only [LoopFlow.depths, List.cons.injEq, and_true] at hdepths
  obtain ⟨h₁, h₂, h₃, h₄⟩ := hdepths
  cases breaks <;> simp_all only [LoopFlow.localDepth, LoopFlow.cleanupDepth] <;>
    simp only [if_true, if_false, Bool.false_eq_true] at hlocal hcleanup ⊢ <;> omega

lemma Keeps.delimits (h : Keeps a b) (ha : Delimits a) : Delimits b :=
  ha.of_flows h.flows h.active.length_le (length_le_of_keptBelow h.cleanups)

/-- Entries above the marks may be taken out. -/
lemma Keeps.of_take (h : Keeps entry a)
    (hactive : b.activeLocals.take entry.activeLocals.length =
      a.activeLocals.take entry.activeLocals.length)
    (hcleanups : b.cleanupRegistrations.take entry.cleanupRegistrations.length =
      a.cleanupRegistrations.take entry.cleanupRegistrations.length)
    (hflows : b.loopFlows = a.loopFlows) : Keeps entry b := by
  constructor
  · rw [List.prefix_iff_eq_take, hactive]
    exact List.prefix_iff_eq_take.1 h.active
  · rw [← keptBelow_take, hcleanups, keptBelow_take]
    exact h.cleanups
  · rw [hflows]
    exact h.flows

lemma take_filter {α : Type} {p : α → Bool} {l : List α} {n : ℕ} (h : ∀ x ∈ l.take n, p x = true) :
    (l.filter p).take n = l.take n := by
  induction l generalizing n with
  | nil => rfl
  | cons x l ih =>
    cases n with
    | zero => rfl
    | succ n =>
      simp only [List.take_succ_cons, List.mem_cons, forall_eq_or_imp] at h
      rw [List.filter_cons_of_pos h.1, List.take_succ_cons, List.take_succ_cons, ih h.2]

lemma take_eraseP {α : Type} {p : α → Bool} {l : List α} {n : ℕ}
    (h : ∀ x ∈ l.take n, p x = false) : (l.eraseP p).take n = l.take n := by
  induction l generalizing n with
  | nil => rfl
  | cons x l ih =>
    cases n with
    | zero => rfl
    | succ n =>
      simp only [List.take_succ_cons, List.mem_cons, forall_eq_or_imp] at h
      rw [List.eraseP_cons_of_neg (by simp [h.1]), List.take_succ_cons, List.take_succ_cons, ih h.2]

/-- The check holds where the entry is kept. -/
lemma outerStackKept_of_keeps (h : Keeps entry a) (hentry : Delimits entry) (i : Option Inst) :
    outerStackKept entry i a = true := by
  rw [outerStackKept, keeps_iff.2 h, delimited_iff.2 (h.delimits hentry)]
  rfl

/-! ## Straight-line instructions -/

namespace Analysis

lemma keeps_activate (l : LocalId) (a : Analysis) : Keeps a (a.activate l) := by
  unfold activate
  split
  · exact .refl a
  · exact ⟨List.prefix_append _ _, (Keeps.refl a).cleanups, rfl⟩

lemma keeps_register (r : CleanupRegistration) (a : Analysis) : Keeps a (a.register r) := by
  unfold register
  split
  · exact .refl a
  · exact ⟨List.prefix_refl _, keptBelow_append _ _, rfl⟩

lemma keeps_initializeLocal (l : LocalId) (v : Option Value) (a : Analysis) :
    Keeps a (a.initializeLocal env l v) := by
  have hstates : Keeps a { a.bumpRevision l with states := initializedStates env l v a.states } :=
    .of_scopes rfl
  exact hstates.trans ((keeps_activate l _).trans (keeps_register _ _))

lemma keeps_applyPostcondition (i : InstId) (arguments : List Value) (types : List TypeId)
    (known : List (LocalId × Possibilities)) (a : Analysis) (post : CallableRegionPostcondition) :
    Keeps a (applyPostcondition env i arguments types (known, a) post).2 := by
  unfold applyPostcondition
  split
  · exact .refl a
  split
  · exact .refl a
  · rename_i p _
    dsimp only
    split
    · exact .of_scopes (by simp)
    · have hattempt : ∀ b : Analysis, Keeps b (recordAttempt p post b) := by
        intro b
        unfold recordAttempt
        split
        · have hadd : Keeps b
              { b with initializationAttempts := p.root :: b.initializationAttempts } :=
            .of_scopes rfl
          exact hadd.trans (keeps_register _ _)
        · exact .refl b
      have houtcomes : ∀ b : Analysis, Keeps b (applyOutcomes env p (effectiveOutcomes post) b) := by
        intro b
        unfold applyOutcomes
        split
        · exact keeps_initializeLocal _ _ b
        · exact .of_scopes (by simp)
      refine Keeps.trans (.of_scopes ?_) ((hattempt _).trans (houtcomes _))
      simp

/-- A call registers the outer locals that it initialises above what is there. -/
lemma keeps_applyCallEffects (i : InstId) (callee : FunctionRefId) (arguments : List Value)
    (a : Analysis) : Keeps a (a.applyCallEffects env i callee arguments) := by
  unfold applyCallEffects
  split
  · exact .refl a
  · rename_i summary _
    dsimp only
    have heffects : ∀ (effects : List CallableRegionEffect) (a : Analysis),
        (effects.foldl (applyEffect env i arguments (env.sem.parameterTypes callee)) a).scopes =
          a.scopes := by
      intro effects
      induction effects with
      | nil => exact fun _ => rfl
      | cons effect effects ih => exact fun a => (ih _).trans (scopes_applyEffect ..)
    have hposts : ∀ (posts : List CallableRegionPostcondition)
        (known : List (LocalId × Possibilities)) (a : Analysis), Keeps a (posts.foldl
          (applyPostcondition env i arguments (env.sem.parameterTypes callee)) (known, a)).2 := by
      intro posts
      induction posts with
      | nil => exact fun _ a => .refl a
      | cons post posts ih =>
        intro known a
        exact (keeps_applyPostcondition i arguments _ known a post).trans (ih _ _)
    refine Keeps.trans (.of_scopes ?_) (hposts summary.postconditions [] _)
    exact heffects summary.effects a

lemma keeps_bindInst (i : InstId) (l : LocalId) (v : Value) (a : Analysis) :
    Keeps a (a.bindInst env i l v) := by
  unfold bindInst
  dsimp only
  refine Keeps.trans (.of_scopes ?_) (keeps_initializeLocal l _ _)
  simp only [scopes]
  split
  · split
    · exact scopes_observePlace ..
    · rfl
  · rfl

lemma keeps_valueInst (v : Value) (a : Analysis) : Keeps a (a.valueInst env v) := by
  unfold valueInst
  split
  case h_11 => exact keeps_applyCallEffects ..
  case h_12 => exact keeps_initializeLocal ..
  all_goals exact .of_scopes (by simp)

/-! ## Temporaries -/

lemma sparesTemporary_iff {l : LocalId} : sparesTemporary entry a l = true ↔
    (∀ r ∈ a.cleanupRegistrations.take entry.cleanupRegistrations.length,
        CleanupRegistration.isTemporary l r = false) ∧
      ((∃ r ∈ a.cleanupRegistrations, CleanupRegistration.isTemporary l r = true) →
        l ∉ a.activeLocals.take entry.activeLocals.length) := by
  simp only [sparesTemporary, Bool.and_eq_true, Bool.or_eq_true, Bool.not_eq_true',
    List.any_eq_false, Bool.not_eq_true, List.contains_eq_mem, decide_eq_false_iff_not]
  refine and_congr_right fun _ => ?_
  constructor
  · rintro (hnone | hnot) ⟨r, hr, htrue⟩
    · rw [hnone r hr] at htrue
      cases htrue
    · exact hnot
  · intro h
    by_cases hsome : ∃ r ∈ a.cleanupRegistrations, CleanupRegistration.isTemporary l r = true
    · exact Or.inr (h hsome)
    · refine Or.inl fun r hr => ?_
      rw [Bool.eq_false_iff]
      exact fun htrue => hsome ⟨r, hr, htrue⟩

/-- One temporary that is spared below the marks comes off the stacks. -/
lemma keeps_endTemporaries {ls : List LocalId} (h : Keeps entry a)
    (hspares : ∀ l ∈ ls, sparesTemporary entry a l = true) :
    Keeps entry (endTemporaries ls a).2 := by
  induction ls generalizing a with
  | nil => exact h
  | cons l ls ih =>
    rw [endTemporaries]
    split
    · rename_i hany
      have hregistered : ∃ r ∈ a.cleanupRegistrations,
          CleanupRegistration.isTemporary l r = true := List.any_eq_true.1 hany
      obtain ⟨hbelow, hactive⟩ := sparesTemporary_iff.1 (hspares l List.mem_cons_self)
      have htakeActive : (a.activeLocals.filter fun m => m ≠ l).take entry.activeLocals.length =
          a.activeLocals.take entry.activeLocals.length := by
        apply take_filter
        intro m hm
        exact decide_eq_true fun heq => hactive hregistered (heq ▸ hm)
      have htakeCleanups := take_eraseP hbelow
      refine ih (h.of_take htakeActive htakeCleanups rfl) fun m hm => ?_
      -- What the other temporaries are asked for is about the entries that stay.
      obtain ⟨hbelow', hactive'⟩ := sparesTemporary_iff.1 (hspares m (List.mem_cons_of_mem _ hm))
      rw [sparesTemporary_iff]
      dsimp only
      rw [htakeActive, htakeCleanups]
      refine ⟨hbelow', ?_⟩
      rintro ⟨r, hr, htrue⟩
      exact hactive' ⟨r, List.mem_of_mem_eraseP hr, htrue⟩
    · exact ih h fun m hm => hspares m (List.mem_cons_of_mem _ hm)

lemma isTemporary_iff {l : LocalId} {r : CleanupRegistration} :
    CleanupRegistration.isTemporary l r = true ↔ r.temporary? = some l := by
  cases r <;> simp [CleanupRegistration.isTemporary, CleanupRegistration.temporary?]

/-- The temporaries of a suspension, which all are spared below the marks. -/
lemma keeps_consumeTemporaries (h : Keeps entry a)
    (hspares : ∀ l ∈ a.cleanupRegistrations.filterMap CleanupRegistration.temporary?,
      sparesTemporary entry a l = true) : Keeps entry a.consumeTemporaries.2 := by
  refine h.of_take ?_ ?_ rfl
  · apply take_filter
    intro l hl
    refine decide_eq_true fun hconsumed => ?_
    obtain ⟨r, hr, hsome⟩ := List.mem_filterMap.1 hconsumed
    exact (sparesTemporary_iff.1 (hspares l hconsumed)).2 ⟨r, hr, isTemporary_iff.2 hsome⟩ hl
  · apply take_filter
    intro r hr
    rw [Option.isNone_iff_eq_none, Option.eq_none_iff_forall_not_mem]
    intro l hl
    have hconsumed := List.mem_filterMap.2 ⟨r, List.mem_of_mem_take hr, hl⟩
    have hnot := (sparesTemporary_iff.1 (hspares l hconsumed)).1 r hr
    rw [isTemporary_iff.2 hl] at hnot
    cases hnot

lemma keeps_endFullExpression {i : InstId} {ls : List LocalId} (h : Keeps entry a)
    (hspares : ∀ l ∈ ls, sparesTemporary entry a l = true) :
    Keeps entry (a.endFullExpression env i ls) := by
  refine (keeps_endTemporaries h hspares).trans (.of_scopes ?_)
  exact scopes_cleanupLocals env (endTemporaries ls a).2 (endTemporaries ls a).1.reverse

end Analysis

/-- **A straight-line instruction** that spares the outer temporaries keeps the outer entries. -/
theorem keeps_transfer {steps : CoroutineSteps} {i : Inst} (h : Keeps entry a)
    (hspares : sparesOuter steps entry (some i) a = true) : Keeps entry (transfer env i a) := by
  cases i with
  | endFullExpression id ls =>
    exact Analysis.keeps_endFullExpression h (List.all_eq_true.1 hspares)
  | value v => exact h.trans (Analysis.keeps_valueInst v a)
  | declareUninitialized id l =>
    have hstates : Keeps a
        (a.modifyRoot env l fun r => { r with uninitializedDeclaration := some id }) :=
      .of_scopes rfl
    exact h.trans (hstates.trans (Analysis.keeps_activate l _))
  | parameter id l => exact h.trans (Analysis.keeps_initializeLocal l none a)
  | bindName id l v => exact h.trans (Analysis.keeps_bindInst id l v a)
  | assign id t v => exact h.trans (.of_scopes (Analysis.scopes_assignInst env id a t v))
  | extendTemporary id v =>
    cases v with
    | materializeTemporary j l w =>
      exact h.trans ⟨List.prefix_refl _, keptBelow_extendRegistration l _, rfl⟩
    | _ => exact h
  | _ => exact h

end Chtholly
