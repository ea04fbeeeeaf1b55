import Chtholly.PlaceState.Stacks

set_option autoImplicit false

/-!
# Nested blocks leave the outer part of the stacks alone

An analysis in which no end of a full expression and no suspension takes an entry that was there when
its block was entered goes on in the same way when the outer part of the stacks is checked before
every instruction and at the end of every block, and when nothing is checked.

## Main definitions

* `Chtholly.Simulates` — an analysis of nested blocks goes on in the same way in another one, and
  keeps what was on the stacks.

## Main results

* `Chtholly.simulates_analyzeBlockIn` — the analysis of blocks.
* `Chtholly.analyzeFunctionIn_keepsOuter` — the analysis of a function.
* `Chtholly.suspension_takes_outer` — a suspension in a branch takes a temporary from outside.
-/

namespace Chtholly

/-- When the first analyzer of blocks has a result, the second one has it too, and the entries of the
stacks are kept. -/
def Simulates (rec rec' : BlockAnalyzer) : Prop :=
  ∀ {b : Block} {lexical : Bool} {a a' : Analysis} {r : Bool}, Delimits a →
    rec b lexical a = .ok (r, a') → rec' b lexical a = .ok (r, a') ∧ Keeps a a'

/-- The loops unwind as far as before. -/
def SameDepths (before a : Analysis) : Prop :=
  a.loopFlows.map LoopFlow.depths = before.loopFlows.map LoopFlow.depths

/-- Another path from the stacks of an earlier state keeps that state. -/
lemma SameDepths.restart {before a : Analysis} (h : SameDepths before a) (S : StateMap) :
    Keeps before (a.restart S before.activeLocals before.cleanupRegistrations) :=
  ⟨List.prefix_refl _, (Keeps.refl before).cleanups, h⟩

/-- An edge joins states, and leaves the depths of its loop. -/
lemma depths_modify (breaks : Bool) (S : StateMap) (flows : List LoopFlow) (k : Nat) :
    (flows.modify k (.addEdge breaks S)).map LoopFlow.depths = flows.map LoopFlow.depths := by
  have hdepths : ∀ f : LoopFlow, (f.addEdge breaks S).depths = f.depths := by
    intro f
    cases breaks <;> rfl
  apply List.ext_getElem
  · simp
  · intro n h₁ h₂
    simp only [List.getElem_map, List.getElem_modify]
    split
    · exact hdepths _
    · rfl

/-- A scope is left by cutting the stacks at its marks. -/
lemma Keeps.leave {entry a : Analysis} (h : Keeps entry a) (S : StateMap) :
    Keeps entry (a.restart S (a.activeLocals.take entry.activeLocals.length)
      (a.cleanupRegistrations.take entry.cleanupRegistrations.length)) := by
  refine h.of_take ?_ ?_ rfl
  · exact (List.take_take ..).trans (by rw [Nat.min_self])
  · exact (List.take_take ..).trans (by rw [Nat.min_self])

section

variable {env : PlaceEnv} {rec rec' : BlockAnalyzer} (hrec : Simulates rec rec') {fuel : Nat}
  {before a a' entry : Analysis} {r : Bool}

include hrec

/-! ## Cleanup plans -/

lemma simulates_cleanupPlan {regs : List CleanupRegistration} {plan : PlaceCleanupPlan}
    (ha : Delimits a) (h : cleanupPlan env rec regs a = .ok (plan, a')) :
    cleanupPlan env rec' regs a = .ok (plan, a') ∧ Keeps a a' := by
  induction regs generalizing a plan with
  | nil =>
    obtain ⟨rfl, rfl⟩ := cleanupPlan_nil_ok.1 h
    exact ⟨cleanupPlan_nil_ok.2 ⟨rfl, rfl⟩, .refl _⟩
  | cons e regs ih =>
    cases he : e.local? with
    | none =>
      cases e with
      | defer d =>
        obtain ⟨x, a₁, rest, h₁, h₂, rfl⟩ := cleanupPlan_defer_ok.1 h
        obtain ⟨hsame, hkeeps⟩ := hrec ha h₁
        obtain ⟨hsame', hkeeps'⟩ := ih (hkeeps.delimits ha) h₂
        exact ⟨cleanupPlan_defer_ok.2 ⟨x, a₁, rest, hsame, hsame', rfl⟩, hkeeps.trans hkeeps'⟩
      | loc m | temporary m | extended m => cases he
    | some m =>
      obtain ⟨rest, h₁, rfl⟩ := (cleanupPlan_local_ok he).1 h
      have hkeeps : Keeps a (a.appendLocalCleanup env m).2 :=
        .of_scopes (Analysis.scopes_appendLocalCleanup env a m)
      obtain ⟨hsame, hkeeps'⟩ := ih (hkeeps.delimits ha) h₁
      exact ⟨(cleanupPlan_local_ok he).2 ⟨rest, hsame, rfl⟩, hkeeps.trans hkeeps'⟩

/-! ## Branches -/

lemma simulates_analyzeIfArms (hb : Delimits before) {arms : List Block}
    {merged merged' : Option StateMap} (hdepths : SameDepths before a)
    (h : analyzeIfArms rec before arms merged a = .ok (merged', a')) :
    analyzeIfArms rec' before arms merged a = .ok (merged', a') ∧ SameDepths before a' := by
  induction arms generalizing a merged with
  | nil =>
    obtain ⟨rfl, rfl⟩ := analyzeIfArms_nil_ok.1 h
    exact ⟨analyzeIfArms_nil_ok.2 ⟨rfl, rfl⟩, hdepths⟩
  | cons b arms ih =>
    obtain ⟨falls, a₁, h₁, h₂⟩ := analyzeIfArms_cons_ok.1 h
    have hstart := hdepths.restart before.states
    obtain ⟨hsame, hkeeps⟩ := hrec (hstart.delimits hb) h₁
    obtain ⟨hsame', hdepths'⟩ := ih (hstart.trans hkeeps).flows h₂
    exact ⟨analyzeIfArms_cons_ok.2 ⟨falls, a₁, hsame, hsame'⟩, hdepths'⟩

lemma simulates_analyzeIf (ha : Delimits a) {arms : List Block}
    (h : analyzeIf rec arms a = .ok (r, a')) :
    analyzeIf rec' arms a = .ok (r, a') ∧ Keeps a a' := by
  obtain ⟨merged, a₁, harms, rfl, rfl⟩ := analyzeIf_ok.1 h
  obtain ⟨hsame, hdepths⟩ := simulates_analyzeIfArms hrec ha rfl harms
  exact ⟨analyzeIf_ok.2 ⟨merged, a₁, hsame, rfl, rfl⟩, hdepths.restart _⟩

lemma simulates_analyzeSwitchArms (hb : Delimits before) {v w : Value}
    {arms : List (Int × Block)} {merged merged' : Option StateMap} (hdepths : SameDepths before a)
    (h : analyzeSwitchArms env rec before v w arms merged a = .ok (merged', a')) :
    analyzeSwitchArms env rec' before v w arms merged a = .ok (merged', a') ∧
      SameDepths before a' := by
  induction arms generalizing a merged with
  | nil =>
    obtain ⟨rfl, rfl⟩ := analyzeSwitchArms_nil_ok.1 h
    exact ⟨analyzeSwitchArms_nil_ok.2 ⟨rfl, rfl⟩, hdepths⟩
  | cons arm arms ih =>
    obtain ⟨k, b⟩ := arm
    obtain ⟨falls, a₁, h₁, h₂⟩ := analyzeSwitchArms_cons_ok.1 h
    have hstart := (hdepths.restart before.states).trans
      (.of_scopes (Analysis.scopes_enterArm env _ v w k))
    obtain ⟨hsame, hkeeps⟩ := hrec (hstart.delimits hb) h₁
    obtain ⟨hsame', hdepths'⟩ := ih (hstart.trans hkeeps).flows h₂
    exact ⟨analyzeSwitchArms_cons_ok.2 ⟨falls, a₁, hsame, hsame'⟩, hdepths'⟩

lemma simulates_analyzeSwitch (ha : Delimits a) {v : Value} {arms : List (Int × Block)}
    (h : analyzeSwitch env rec v arms a = .ok (r, a')) :
    analyzeSwitch env rec' v arms a = .ok (r, a') ∧ Keeps a a' := by
  obtain ⟨merged, a₁, harms, rfl, rfl⟩ := analyzeSwitch_ok.1 h
  obtain ⟨hsame, hdepths⟩ := simulates_analyzeSwitchArms hrec ha rfl harms
  exact ⟨analyzeSwitch_ok.2 ⟨merged, a₁, hsame, rfl, rfl⟩, hdepths.restart _⟩

/-! ## Edges -/

lemma simulates_analyzeEdge (ha : Delimits a) {i : InstId} {breaks : Bool} {k : Nat}
    (h : analyzeEdge env rec i breaks k a = .ok (r, a')) :
    analyzeEdge env rec' i breaks k a = .ok (r, a') ∧ Keeps a a' := by
  cases hk : a.loopFlows[k]? with
  | none =>
    obtain ⟨rfl, rfl⟩ := (analyzeEdge_missing hk).1 h
    exact ⟨(analyzeEdge_missing hk).2 ⟨rfl, rfl⟩, .refl _⟩
  | some flow =>
    obtain ⟨plan, a₁, hplan, rfl, rfl⟩ := (analyzeEdge_ok hk).1 h
    obtain ⟨hsame, hkeeps⟩ := simulates_cleanupPlan hrec ha hplan
    refine ⟨(analyzeEdge_ok hk).2 ⟨plan, a₁, hsame, rfl, rfl⟩, hkeeps.active, hkeeps.cleanups, ?_⟩
    exact (depths_modify ..).trans hkeeps.flows

lemma simulates_analyzeReturn (ha : Delimits a) {i : InstId} {kind : ReturnKind}
    (h : analyzeReturn env rec i kind a = .ok (r, a')) :
    analyzeReturn env rec' i kind a = .ok (r, a') ∧ Keeps a a' := by
  obtain ⟨a₀, plan, a₁, h₀, hplan, rfl, rfl⟩ := analyzeReturn_ok.1 h
  have hstart : Keeps a a₀ := by
    rcases h₀ with ⟨-, rfl⟩ | ⟨-, rfl⟩
    · exact .refl _
    · exact .of_scopes rfl
  obtain ⟨hsame, hkeeps⟩ := simulates_cleanupPlan hrec (hstart.delimits ha) hplan
  exact ⟨analyzeReturn_ok.2 ⟨a₀, plan, a₁, h₀, hsame, rfl, rfl⟩,
    hstart.trans (hkeeps.trans (.of_scopes rfl))⟩

/-! ## Loops -/

/-- The pass of one analyzer goes on in the same way in that of the other. -/
def SimulatesPass {β : Type} (before : Analysis)
    (pass pass' : StateMap → Analysis → Except Stop (StateMap × β × Analysis)) : Prop :=
  ∀ {header a next out a'}, SameDepths before a → pass header a = .ok (next, out, a') →
    pass' header a = .ok (next, out, a') ∧ SameDepths before a'

omit hrec in
lemma simulates_passes {β : Type}
    {pass pass' : StateMap → Analysis → Except Stop (StateMap × β × Analysis)}
    (hpass : SimulatesPass before pass pass') {n : Nat} {header : StateMap} {out : β}
    (hdepths : SameDepths before a) (h : passes pass n header a = .ok (out, a')) :
    passes pass' n header a = .ok (out, a') ∧ SameDepths before a' := by
  induction n generalizing header a with
  | zero => exact absurd h throw_ne_ok
  | succ n ih =>
    simp only [passes, bind_eq_ok, Prod.exists] at h ⊢
    obtain ⟨next, out', a₁, h₁, h₂⟩ := h
    obtain ⟨hsame, hdepths'⟩ := hpass hdepths h₁
    by_cases hheader : header.same next = true
    · rw [if_pos hheader, pure_eq_ok, Prod.mk.injEq] at h₂
      obtain ⟨rfl, rfl⟩ := h₂
      refine ⟨⟨next, out', a₁, hsame, ?_⟩, hdepths'⟩
      rw [if_pos hheader]
      rfl
    · rw [if_neg hheader] at h₂
      obtain ⟨hsame', hlast⟩ := ih (show SameDepths before (a.rollback a₁) from hdepths') h₂
      refine ⟨⟨next, out', a₁, hsame, ?_⟩, hlast⟩
      rw [if_neg hheader]
      exact hsame'

variable {b : Block}

lemma simulates_analyzeClause (hb : Delimits before) {start : Option StateMap}
    (hdepths : SameDepths before a) (h : analyzeClause rec b start before a = .ok a') :
    analyzeClause rec' b start before a = .ok a' ∧ SameDepths before a' := by
  cases start with
  | none =>
    rw [analyzeClause_none_ok] at h ⊢
    exact ⟨h, h ▸ hdepths⟩
  | some S =>
    obtain ⟨x, h₁⟩ := analyzeClause_some_ok.1 h
    have hstart := hdepths.restart S
    obtain ⟨hsame, hkeeps⟩ := hrec (hstart.delimits hb) h₁
    exact ⟨analyzeClause_some_ok.2 ⟨x, hsame⟩, (hstart.trans hkeeps).flows⟩

omit hrec in
/-- The loop that is entered unwinds to where the stacks reach already. -/
lemma delimits_pushFlow {m m' k k' : Nat} (ha : Delimits a) (hm : m ≤ a.activeLocals.length)
    (hm' : m' ≤ a.activeLocals.length) (hk : k ≤ a.cleanupRegistrations.length)
    (hk' : k' ≤ a.cleanupRegistrations.length) :
    Delimits (a.pushFlow ⟨m, m', k, k', none, none⟩) := by
  intro f hf breaks
  rcases List.mem_cons.1 hf with rfl | hf
  · cases breaks <;> exact ⟨by assumption, by assumption⟩
  · exact ha f hf breaks

omit hrec in
/-- After the body the loop is left, and those around it are as before. -/
lemma SameDepths.popFlow {flow : LoopFlow} (hdepths : SameDepths before a)
    (h : SameDepths (a.pushFlow flow) a') : SameDepths before a'.popFlow := by
  have htail : a'.loopFlows.tail.map LoopFlow.depths = a.loopFlows.map LoopFlow.depths := by
    rw [List.map_tail, h]
    rfl
  exact htail.trans hdepths

variable {c : Block}

lemma simulates_whilePass (hb : Delimits before) :
    SimulatesPass before (whilePass rec c b before) (whilePass rec' c b before) := by
  intro header a next out a' hdepths h
  obtain ⟨x, a₁, falls, a₂, h₁, h₂, rfl, rfl, rfl⟩ := whilePass_ok.1 h
  have hstart := hdepths.restart header
  obtain ⟨hsame, hkeeps⟩ := hrec (hstart.delimits hb) h₁
  have hfirst := hstart.trans hkeeps
  have hactive := hfirst.active.length_le
  have hcleanups := length_le_of_keptBelow hfirst.cleanups
  obtain ⟨hsame', hkeeps'⟩ := hrec
    (delimits_pushFlow (hfirst.delimits hb) hactive hactive hcleanups hcleanups) h₂
  exact ⟨whilePass_ok.2 ⟨x, a₁, falls, a₂, hsame, hsame', rfl, rfl, rfl⟩,
    SameDepths.popFlow hfirst.flows hkeeps'.flows⟩

lemma simulates_doWhilePass (hb : Delimits before) :
    SimulatesPass before (doWhilePass rec c b before) (doWhilePass rec' c b before) := by
  intro header a next out a' hdepths h
  obtain ⟨falls, a₁, h₁, h₂, rfl, rfl⟩ := doWhilePass_ok.1 h
  have hstart := hdepths.restart header
  obtain ⟨hsame, hkeeps⟩ := hrec
    (delimits_pushFlow (hstart.delimits hb) le_rfl le_rfl le_rfl le_rfl) h₁
  obtain ⟨hsame', hdepths'⟩ := simulates_analyzeClause hrec hb
    (SameDepths.popFlow hstart.flows hkeeps.flows) h₂
  exact ⟨doWhilePass_ok.2 ⟨falls, a₁, hsame, hsame', rfl, rfl⟩, hdepths'⟩

lemma simulates_forPass (hb : Delimits before) {p : Block} {m k : Nat}
    (hm : m ≤ before.activeLocals.length) (hk : k ≤ before.cleanupRegistrations.length) :
    SimulatesPass before (forPass rec c p b m k before) (forPass rec' c p b m k before) := by
  rintro header a next ⟨exit, breaks⟩ a' hdepths h
  obtain ⟨x, a₁, falls, a₂, h₁, h₂, h₃, rfl, rfl, rfl⟩ := forPass_ok.1 h
  have hstart := hdepths.restart header
  obtain ⟨hsame, hkeeps⟩ := hrec (hstart.delimits hb) h₁
  have hfirst := hstart.trans hkeeps
  have hactive := hfirst.active.length_le
  have hcleanups := length_le_of_keptBelow hfirst.cleanups
  obtain ⟨hsame', hkeeps'⟩ := hrec (delimits_pushFlow (hfirst.delimits hb) (hm.trans hactive)
    hactive (hk.trans hcleanups) hcleanups) h₂
  obtain ⟨hsame'', hdepths'⟩ := simulates_analyzeClause hrec hb
    (SameDepths.popFlow hfirst.flows hkeeps'.flows) h₃
  exact ⟨forPass_ok.2 ⟨x, a₁, falls, a₂, hsame, hsame', hsame'', rfl, rfl, rfl⟩, hdepths'⟩

lemma simulates_analyzeFor (ha : Delimits a) {i p : Block}
    (h : analyzeFor env rec fuel i c p b a = .ok a') :
    analyzeFor env rec' fuel i c p b a = .ok a' ∧ Keeps a a' := by
  obtain ⟨x, a₁, exit, breaks, a₂, h₁, h₂, h₃⟩ := analyzeFor_ok.1 h
  obtain ⟨hsame, hkeeps⟩ := hrec ha h₁
  have hloop := hkeeps.delimits ha
  obtain ⟨hsame', hdepths⟩ := simulates_passes (simulates_forPass hrec hloop
    hkeeps.active.length_le (length_le_of_keptBelow hkeeps.cleanups)) rfl h₂
  obtain ⟨plan, a₃, hplan, rfl⟩ := leaveFor_ok.1 h₃
  have hexit := hdepths.restart exit
  obtain ⟨hsame'', hkeeps'⟩ := simulates_cleanupPlan hrec (hexit.delimits hloop) hplan
  have hlast := hkeeps.trans (hexit.trans hkeeps')
  refine ⟨analyzeFor_ok.2 ⟨x, a₁, exit, breaks, a₂, hsame, hsame', leaveFor_ok.2
    ⟨plan, a₃, hsame'', rfl⟩⟩, ?_⟩
  have hplan : Keeps a { a₃ with blockCleanups := (i.id, plan) :: a₃.blockCleanups } :=
    hlast.trans (.of_scopes rfl)
  exact hplan.leave _

/-! ## Instructions -/

variable {steps : CoroutineSteps}

/-- One instruction that spares what was there when its block was entered. -/
lemma simulates_analyzeInst (hentry : Keeps entry a) (ha : Delimits a) {i : Inst}
    (hspares : sparesOuter steps entry (some i) a = true)
    (h : analyzeInst env rec fuel i a = .ok (r, a')) :
    analyzeInst env rec' fuel i a = .ok (r, a') ∧ Keeps entry a' := by
  cases i with
  | value v | declareUninitialized id l | parameter id l | bindName id l v | assign id t v
  | extendTemporary id v | unrecoverableFailure id | other id | endFullExpression id ls =>
    refine ⟨h, ?_⟩
    simp only [analyzeInst, pure_eq_ok, Prod.mk.injEq] at h
    exact h.2 ▸ keeps_transfer hentry hspares
  | defer id d =>
    refine ⟨h, ?_⟩
    simp only [analyzeInst, pure_eq_ok, Prod.mk.injEq] at h
    exact h.2 ▸ hentry.trans ⟨List.prefix_refl _, keptBelow_append _ _, rfl⟩
  | scopedBlock id b | taskScope id b => exact (hrec ha h).imp_right hentry.trans
  | ifInst id c arms => exact (simulates_analyzeIf hrec ha h).imp_right hentry.trans
  | switch id v arms => exact (simulates_analyzeSwitch hrec ha h).imp_right hentry.trans
  | whileLoop id c b =>
    obtain ⟨a₁, h₁, h₂⟩ := bind_eq_ok.1 h
    obtain ⟨exit, a₂, hpasses, rfl⟩ := analyzeWhile_ok.1 h₁
    obtain ⟨hsame, hdepths⟩ := simulates_passes (simulates_whilePass hrec ha) rfl hpasses
    refine ⟨bind_eq_ok.2 ⟨_, analyzeWhile_ok.2 ⟨exit, a₂, hsame, rfl⟩, h₂⟩, ?_⟩
    simp only [pure_eq_ok, Prod.mk.injEq] at h₂
    exact h₂.2 ▸ hentry.trans (hdepths.restart exit)
  | doWhile id c b =>
    obtain ⟨exit, a₂, hpasses, rfl, rfl⟩ := analyzeDoWhile_ok.1 h
    obtain ⟨hsame, hdepths⟩ := simulates_passes (simulates_doWhilePass hrec ha) rfl hpasses
    exact ⟨analyzeDoWhile_ok.2 ⟨exit, a₂, hsame, rfl, rfl⟩, hentry.trans (hdepths.restart _)⟩
  | forLoop id init c p b =>
    obtain ⟨a₁, h₁, h₂⟩ := bind_eq_ok.1 h
    obtain ⟨hsame, hkeeps⟩ := simulates_analyzeFor hrec ha h₁
    refine ⟨bind_eq_ok.2 ⟨a₁, hsame, h₂⟩, ?_⟩
    simp only [pure_eq_ok, Prod.mk.injEq] at h₂
    exact h₂.2 ▸ hentry.trans hkeeps
  | brk id n | cont id n => exact (simulates_analyzeEdge hrec ha h).imp_right hentry.trans
  | ret id kind v => exact (simulates_analyzeReturn hrec ha h).imp_right hentry.trans

/-- The plan of a snapshot is made, and the stacks are as before. -/
lemma simulates_snapshotCleanupPlan (ha : Delimits a)
    (h : snapshotCleanupPlan env rec a = .ok a') :
    snapshotCleanupPlan env rec' a = .ok a' ∧ Keeps a a' := by
  obtain ⟨⟨plan, a₁⟩, h₁, h₂⟩ := bind_eq_ok.1 h
  obtain ⟨hsame, hkeeps⟩ := simulates_cleanupPlan hrec ha h₁
  refine ⟨bind_eq_ok.2 ⟨(plan, a₁), hsame, h₂⟩, ?_⟩
  obtain rfl := pure_eq_ok.1 h₂
  exact ⟨List.prefix_refl _, (Keeps.refl a).cleanups, hkeeps.flows⟩

lemma simulates_analyzeInstIn (hentry : Keeps entry a) (he : Delimits entry) {i : Inst}
    (hspares : sparesOuter steps entry (some i) a = true)
    (h : analyzeInstIn env steps rec fuel i a = .ok (r, a')) :
    analyzeInstIn env steps rec' fuel i a = .ok (r, a') ∧ Keeps entry a' := by
  have ha := hentry.delimits he
  unfold analyzeInstIn at h ⊢
  cases hstep : i.unnamed?.bind steps with
  | none =>
    rw [hstep] at h
    exact simulates_analyzeInst hrec hentry ha hspares h
  | some step =>
    rw [hstep] at h
    cases step with
    | suspension =>
      have hall : ∀ l ∈ a.cleanupRegistrations.filterMap CleanupRegistration.temporary?,
          sparesTemporary entry a l = true := by
        cases i with
        | other id | value v =>
          simp only [sparesOuter, hstep, if_true] at hspares
          exact List.all_eq_true.1 hspares
        | _ => cases hstep
      have hconsumed : Keeps entry { (a.consumeTemporaries.2.cleanupLocals env
          a.consumeTemporaries.1.reverse).2 with states := (a.consumeTemporaries.2.cleanupLocals env
            a.consumeTemporaries.1.reverse).2.states.eraseLocals a.consumeTemporaries.1 } :=
        (Analysis.keeps_consumeTemporaries hentry hall).trans
          (.of_scopes (Analysis.scopes_cleanupLocals env a.consumeTemporaries.2 _))
      obtain ⟨a₁, h₁, h₂⟩ := bind_eq_ok.1 h
      obtain ⟨hsame, hkeeps⟩ := simulates_snapshotCleanupPlan hrec (hconsumed.delimits he) h₁
      refine ⟨bind_eq_ok.2 ⟨a₁, hsame, h₂⟩, ?_⟩
      simp only [pure_eq_ok, Prod.mk.injEq] at h₂
      exact h₂.2 ▸ hconsumed.trans hkeeps
    | cancellationPoint =>
      obtain ⟨a₁, h₁, h₂⟩ := bind_eq_ok.1 h
      obtain ⟨hsame, hkeeps⟩ := simulates_snapshotCleanupPlan hrec ha h₁
      refine ⟨bind_eq_ok.2 ⟨a₁, hsame, h₂⟩, ?_⟩
      simp only [pure_eq_ok, Prod.mk.injEq] at h₂
      exact h₂.2 ▸ hentry.trans hkeeps
    | runtimeFault =>
      refine ⟨h, ?_⟩
      simp only [pure_eq_ok, Prod.mk.injEq] at h
      exact h.2 ▸ hentry

/-! ## Blocks -/

/-- A check that holds wherever the outer part of the stacks is kept. -/
def Follows (check : StackCheck) : Prop :=
  ∀ entry i a, outerStackKept entry i a = true → check entry i a = true

lemma simulates_analyzeInstsIn {check : StackCheck} (hcheck : Follows check) (he : Delimits entry)
    {l : List Inst} (hentry : Keeps entry a)
    (h : analyzeInstsIn env steps rec (sparesOuter steps entry) fuel l a = .ok (r, a')) :
    analyzeInstsIn env steps rec' (check entry) fuel l a = .ok (r, a') ∧ Keeps entry a' := by
  induction l generalizing a with
  | nil =>
    refine ⟨h, ?_⟩
    simp only [analyzeInstsIn, pure_eq_ok, Prod.mk.injEq] at h
    exact h.2 ▸ hentry
  | cons i l ih =>
    rw [analyzeInstsIn] at h ⊢
    by_cases hspares : sparesOuter steps entry (some i) a = true
    · rw [if_pos hspares] at h
      rw [if_pos (hcheck _ _ _ (outerStackKept_of_keeps hentry he _))]
      obtain ⟨⟨falls, a₁⟩, h₁, h₂⟩ := bind_eq_ok.1 h
      have hsnapshot : Keeps entry (a.snapshot i.id) := hentry.trans (.of_scopes rfl)
      obtain ⟨hsame, hkeeps⟩ := simulates_analyzeInstIn hrec hsnapshot he hspares h₁
      cases falls with
      | true =>
        obtain ⟨hsame', hkeeps'⟩ := ih hkeeps h₂
        exact ⟨bind_eq_ok.2 ⟨(true, a₁), hsame, hsame'⟩, hkeeps'⟩
      | false =>
        refine ⟨bind_eq_ok.2 ⟨(false, a₁), hsame, h₂⟩, ?_⟩
        simp only [Bool.false_eq_true, if_false, pure_eq_ok, Prod.mk.injEq] at h₂
        exact h₂.2 ▸ hkeeps
    · rw [if_neg hspares] at h
      exact absurd h throw_ne_ok

lemma simulates_leaveBlock (he : Delimits entry) {lexical falls : Bool} (hentry : Keeps entry a)
    (h : leaveBlock env rec b lexical entry falls a = .ok a') :
    leaveBlock env rec' b lexical entry falls a = .ok a' ∧ Keeps entry a' := by
  cases lexical with
  | false =>
    refine ⟨h, ?_⟩
    obtain rfl := pure_eq_ok.1 h
    exact hentry
  | true =>
    obtain ⟨a₁, h₁, rfl⟩ := leaveScope_ok.1 h
    rcases h₁ with ⟨rfl, plan, a₂, hplan, rfl⟩ | ⟨rfl, rfl⟩
    · obtain ⟨hsame, hkeeps⟩ := simulates_cleanupPlan hrec (hentry.delimits he) hplan
      have hleft : Keeps entry ({ a₂ with
          blockCleanups := (b.id, plan) :: a₂.blockCleanups }.diagnoseUninitializedStorage env
            (a.activeLocals.drop entry.activeLocals.length)) :=
        (hentry.trans hkeeps).trans (.of_scopes rfl)
      exact ⟨leaveScope_ok.2 ⟨_, Or.inl ⟨rfl, plan, a₂, hsame, rfl⟩, rfl⟩, hleft.leave _⟩
    · exact ⟨leaveScope_ok.2 ⟨_, Or.inr ⟨rfl, rfl⟩, rfl⟩, hentry.leave _⟩

lemma simulates_endBlock {check : StackCheck} (hcheck : Follows check) (he : Delimits entry)
    {lexical falls : Bool} (hentry : Keeps entry a)
    (h : endBlock env rec (sparesOuter steps) b lexical entry falls a = .ok a') :
    endBlock env rec' check b lexical entry falls a = .ok a' ∧ Keeps entry a' := by
  have hpass : ∀ c, Keeps entry c → check entry none c = true := fun c hc =>
    hcheck _ _ _ (outerStackKept_of_keeps hc he none)
  have hspares : ∀ c, sparesOuter steps entry none c = true := fun _ => rfl
  simp only [endBlock, hspares, if_true] at h
  rw [endBlock, if_pos (hpass a hentry)]
  obtain ⟨a₁, h₁, h₂⟩ := bind_eq_ok.1 h
  obtain rfl := pure_eq_ok.1 h₂
  obtain ⟨hsame, hkeeps⟩ := simulates_leaveBlock hrec he hentry h₁
  refine ⟨bind_eq_ok.2 ⟨a₁, hsame, ?_⟩, hkeeps⟩
  rw [if_pos (hpass a₁ hkeeps)]
  rfl

end

/-- **Blocks keep what is outside of them.**  An analysis in which nothing takes an entry that was
there when its block was entered goes on in the same way under every check that follows from this,
and a block keeps the stacks as they were when it was entered. -/
theorem simulates_analyzeBlockIn (env : PlaceEnv) (steps : CoroutineSteps) {check : StackCheck}
    (hcheck : Follows check) (n : ℕ) :
    Simulates (analyzeBlockIn env steps (sparesOuter steps) n)
      (analyzeBlockIn env steps check n) := by
  induction n with
  | zero => exact fun _ h => absurd h throw_ne_ok
  | succ n ih =>
    intro b lexical a a' r ha h
    obtain ⟨⟨falls, a₁⟩, h₁, h₂⟩ := bind_eq_ok.1 h
    obtain ⟨a₂, h₃, h₄⟩ := bind_eq_ok.1 h₂
    obtain ⟨hsame, hkeeps⟩ := simulates_analyzeInstsIn ih hcheck ha (.refl a) h₁
    obtain ⟨hsame', hkeeps'⟩ := simulates_endBlock ih hcheck ha hkeeps h₃
    refine ⟨bind_eq_ok.2 ⟨(falls, a₁), hsame, bind_eq_ok.2 ⟨a₂, hsame', h₄⟩⟩, ?_⟩
    simp only [pure_eq_ok, Prod.mk.injEq] at h₄
    exact h₄.2 ▸ hkeeps'

lemma analyzeFunctionIn_of_spares {env : PlaceEnv} {steps : CoroutineSteps} {check : StackCheck}
    (hcheck : Follows check) {fuel : ℕ} {f : SemFunction} {a : Analysis}
    (h : analyzeFunctionIn env steps (sparesOuter steps) fuel f = .ok a) :
    analyzeFunctionIn env steps check fuel f = .ok a := by
  have hstart : Delimits { initializedForwardedParameters := forwardedParameters f } :=
    fun _ hf => absurd hf List.not_mem_nil
  obtain ⟨⟨falls, a₁⟩, h₁, h₂⟩ := bind_eq_ok.1 h
  exact bind_eq_ok.2 ⟨(falls, a₁), (simulates_analyzeBlockIn env steps hcheck fuel hstart h₁).1, h₂⟩

/-- **Nested scopes leave the outer part of the stacks alone.**  When no end of a full expression and
no suspension takes an entry that was there when its block was entered, the run is that of the
analyzer, and in all of it the entries that were there when a block was entered are there before each
of its instructions, at its end and after its scope was left, and the depths of the loops delimit
parts of the stacks. -/
theorem analyzeFunctionIn_keepsOuter (env : PlaceEnv) (steps : CoroutineSteps) (fuel : ℕ)
    (f : SemFunction) (a : Analysis)
    (h : analyzeFunctionIn env steps (sparesOuter steps) fuel f = .ok a) :
    analyzeFunctionIn env steps unchecked fuel f = .ok a ∧
      analyzeFunctionIn env steps outerStackKept fuel f = .ok a :=
  ⟨analyzeFunctionIn_of_spares (fun _ _ _ _ => rfl) h,
    analyzeFunctionIn_of_spares (fun _ _ _ hkept => hkept) h⟩

/-! ## A suspension in a branch -/

/-- A module of owned values; the local 1 is a temporary. -/
def ownedModule : SemIR where
  type _ := .other
  typeRepresentation _ := { ownership := .owned, move := .trivial, destroy := .custom }
  voidType := 0
  loc l := { type := 1, temporary := decide (l = 1) }

/-- A suspension in the branch of an `If`, with the given instructions before the `If` and before the
suspension. -/
def suspendedBranch (outer inner : List Inst) : SemFunction where
  parameters := []
  body := .mk 0 (outer ++ [.ifInst 3 (.boolLiteral 2 true) [.mk 1 (inner ++ [.other 4])]])

/-- The instruction 4 suspends. -/
def suspendsAtFour : CoroutineSteps := fun i => if i = 4 then some .suspension else none

/-- The temporary is materialised. -/
def materialize : List Inst := [.value (.materializeTemporary 1 1 (.integerLiteral 0 7))]

/-- A temporary of the branch itself may be taken. -/
theorem analyzeFunctionIn_keepsOuter_inner : ∃ a,
    analyzeFunctionIn ⟨ownedModule, [], []⟩ suspendsAtFour unchecked 2
      (suspendedBranch [.parameter 5 0] materialize) = .ok a ∧
    analyzeFunctionIn ⟨ownedModule, [], []⟩ suspendsAtFour outerStackKept 2
      (suspendedBranch [.parameter 5 0] materialize) = .ok a := by
  have hspares : (analyzeFunctionIn ⟨ownedModule, [], []⟩ suspendsAtFour
      (sparesOuter suspendsAtFour) 2 (suspendedBranch [.parameter 5 0] materialize)).isOk =
        true := by
    decide
  cases h : analyzeFunctionIn ⟨ownedModule, [], []⟩ suspendsAtFour (sparesOuter suspendsAtFour) 2
      (suspendedBranch [.parameter 5 0] materialize) with
  | error stop =>
    rw [h] at hspares
    cases hspares
  | ok a => exact ⟨a, analyzeFunctionIn_keepsOuter _ _ 2 _ a h⟩

/-- A temporary from outside is taken, and the mark of the branch lies beyond the end of the stack. -/
theorem suspension_takes_outer : ¬ ∀ (env : PlaceEnv) (steps : CoroutineSteps) (fuel : ℕ)
    (f : SemFunction) (a : Analysis), analyzeFunctionIn env steps unchecked fuel f = .ok a →
    analyzeFunctionIn env steps outerStackKept fuel f = .ok a := by
  intro hkept
  have hruns : (analyzeFunctionIn ⟨ownedModule, [], []⟩ suspendsAtFour unchecked 2
      (suspendedBranch materialize [])).isOk = true := by
    decide
  have hfails : (analyzeFunctionIn ⟨ownedModule, [], []⟩ suspendsAtFour outerStackKept 2
      (suspendedBranch materialize [])).isOk = false := by
    decide
  cases h : analyzeFunctionIn ⟨ownedModule, [], []⟩ suspendsAtFour unchecked 2
      (suspendedBranch materialize []) with
  | error stop =>
    rw [h] at hruns
    cases hruns
  | ok a =>
    rw [hkept _ _ _ _ a h] at hfails
    cases hfails

end Chtholly
