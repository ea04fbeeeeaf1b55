import Chtholly.PlaceState.Analyzer

set_option autoImplicit false

/-!
# What a finished analysis did

One lemma for each function of the analyzer: when it has a result, which analyses of nested blocks
it made, from which states, and what the result is. Everything that is proved about the analyzer
goes through them.

## Main results

* `Chtholly.analyzeBlock_ok`, `Chtholly.analyzeInsts_cons_ok` — blocks.
* `Chtholly.passes_induction` — the passes over a loop: what holds of the first header and is kept
  by a pass holds of the header of the last pass.
* `Chtholly.whilePass_ok`, `Chtholly.doWhilePass_ok`, `Chtholly.forPass_ok` — one pass.
-/

namespace Chtholly

/-- A sequence has a result when both parts have. -/
lemma bind_eq_ok {ε α β : Type} {x : Except ε α} {f : α → Except ε β} {r : β} :
    (x >>= f) = .ok r ↔ ∃ v, x = .ok v ∧ f v = .ok r := by
  cases x with
  | error e => simp [bind, Except.bind]
  | ok v => simp [bind, Except.bind]

lemma pure_eq_ok {ε α : Type} {x y : α} : (pure x : Except ε α) = .ok y ↔ x = y := by
  simp [pure, Except.pure]

lemma throw_ne_ok {ε α : Type} {e : ε} {y : α} : (throw e : Except ε α) ≠ .ok y := by
  simp [throw, throwThe, MonadExceptOf.throw]

section

variable {env : PlaceEnv} {admits : Inst → Analysis → Bool} {rec : BlockAnalyzer} {fuel : Nat}
  {a a' : Analysis} {r : Bool}

/-! ## Blocks -/

lemma analyzeInsts_nil_ok :
    analyzeInsts env admits rec fuel [] a = .ok (r, a') ↔ r = true ∧ a' = a := by
  simp only [analyzeInsts, pure_eq_ok, Prod.mk.injEq]
  tauto

/-- A list of instructions: the first one is admitted and analysed, and the others when it is left
at its end. -/
lemma analyzeInsts_cons_ok {i : Inst} {l : List Inst} :
    analyzeInsts env admits rec fuel (i :: l) a = .ok (r, a') ↔
      admits i a = true ∧ ∃ falls a₁,
        analyzeInst env rec fuel i (a.snapshot i.id) = .ok (falls, a₁) ∧
        (falls = true ∧ analyzeInsts env admits rec fuel l a₁ = .ok (r, a') ∨
          falls = false ∧ r = false ∧ a' = a₁) := by
  simp only [analyzeInsts]
  by_cases hadm : admits i a = true
  · rw [if_pos hadm, bind_eq_ok]
    constructor
    · rintro ⟨⟨falls, a₁⟩, h₁, h₂⟩
      refine ⟨hadm, falls, a₁, h₁, ?_⟩
      cases falls with
      | true => exact Or.inl ⟨rfl, h₂⟩
      | false =>
        simp only [Bool.false_eq_true, if_false, pure_eq_ok, Prod.mk.injEq] at h₂
        exact Or.inr ⟨rfl, h₂.1.symm, h₂.2.symm⟩
    · rintro ⟨-, falls, a₁, h₁, h₂⟩
      refine ⟨(falls, a₁), h₁, ?_⟩
      rcases h₂ with ⟨rfl, h₂⟩ | ⟨rfl, rfl, rfl⟩
      · exact h₂
      · simp [pure, Except.pure]
  · rw [if_neg hadm]
    simp [throw_ne_ok, hadm]

variable {b : Block}

/-- The end of a scope: a cleanup plan when control reaches it, then the locals of the scope go. -/
lemma leaveScope_ok {m k : Nat} {falls : Bool} :
    leaveScope env rec b m k falls a = .ok a' ↔
      ∃ a₁, (falls = true ∧ (∃ plan a₂,
          cleanupPlan env rec (a.cleanupRegistrations.drop k).reverse a = .ok (plan, a₂) ∧
          a₁ = { a₂ with
            blockCleanups := (b.id, plan) :: a₂.blockCleanups }.diagnoseUninitializedStorage env
              (a.activeLocals.drop m)) ∨ falls = false ∧ a₁ = a) ∧
        a' = a₁.restart (a₁.states.eraseLocals (a.activeLocals.drop m)) (a₁.activeLocals.take m)
          (a₁.cleanupRegistrations.take k) := by
  simp only [leaveScope, scopeCleanup, bind_eq_ok, pure_eq_ok]
  constructor
  · rintro ⟨a₁, h, rfl⟩
    refine ⟨a₁, ?_, rfl⟩
    cases falls with
    | true =>
      simp only [if_true, bind_eq_ok, pure_eq_ok] at h
      obtain ⟨⟨plan, a₂⟩, hp, rfl⟩ := h
      exact Or.inl ⟨rfl, plan, a₂, hp, rfl⟩
    | false =>
      simp only [Bool.false_eq_true, if_false, pure_eq_ok] at h
      exact Or.inr ⟨rfl, h.symm⟩
  · rintro ⟨a₁, h, rfl⟩
    refine ⟨a₁, ?_, rfl⟩
    rcases h with ⟨rfl, plan, a₂, hp, rfl⟩ | ⟨rfl, rfl⟩
    · simp only [if_true, bind_eq_ok, pure_eq_ok]
      exact ⟨(plan, a₂), hp, rfl⟩
    · simp [pure, Except.pure]

/-- A block: its instructions, and the end of the scope when it is one. -/
lemma analyzeBlockWith_ok {lexical : Bool} :
    analyzeBlockWith env admits rec fuel b lexical a = .ok (r, a') ↔
      ∃ a₁, analyzeInsts env admits rec fuel b.insts a = .ok (r, a₁) ∧
        (lexical = true ∧ leaveScope env rec b a.activeLocals.length
            a.cleanupRegistrations.length r a₁ = .ok a' ∨ lexical = false ∧ a' = a₁) := by
  simp only [analyzeBlockWith, bind_eq_ok]
  constructor
  · rintro ⟨⟨falls, a₁⟩, h₁, h₂⟩
    cases lexical with
    | true =>
      simp only [if_true, bind_eq_ok, pure_eq_ok, Prod.mk.injEq] at h₂
      obtain ⟨a₂, hl, rfl, rfl⟩ := h₂
      exact ⟨a₁, h₁, Or.inl ⟨rfl, hl⟩⟩
    | false =>
      simp only [Bool.false_eq_true, if_false, pure_eq_ok, Prod.mk.injEq] at h₂
      obtain ⟨rfl, rfl⟩ := h₂
      exact ⟨a₁, h₁, Or.inr ⟨rfl, rfl⟩⟩
  · rintro ⟨a₁, h₁, h₂⟩
    refine ⟨(r, a₁), h₁, ?_⟩
    rcases h₂ with ⟨rfl, hl⟩ | ⟨rfl, rfl⟩
    · simp only [if_true, bind_eq_ok, pure_eq_ok, Prod.mk.injEq]
      exact ⟨a', hl, by simp⟩
    · simp [pure, Except.pure]

lemma analyzeBlock_zero_ne_ok {lexical : Bool} {x : Bool × Analysis} :
    analyzeBlock env admits 0 b lexical a ≠ .ok x := throw_ne_ok

/-! ## Cleanup plans -/

variable {plan : PlaceCleanupPlan}

lemma cleanupPlan_nil_ok : cleanupPlan env rec [] a = .ok (plan, a') ↔ plan = [] ∧ a' = a := by
  simp only [cleanupPlan, pure_eq_ok, Prod.mk.injEq]
  tauto

/-- A local is cleaned up, then the registrations before it. -/
lemma cleanupPlan_local_ok {e : CleanupRegistration} {m : LocalId} (he : e.local? = some m)
    {l : List CleanupRegistration} :
    cleanupPlan env rec (e :: l) a = .ok (plan, a') ↔
      ∃ rest, cleanupPlan env rec l (a.appendLocalCleanup env m).2 = .ok (rest, a') ∧
        plan = (a.appendLocalCleanup env m).1 ++ rest := by
  have key : cleanupPlan env rec (e :: l) a =
      cleanupPlan env rec l (a.appendLocalCleanup env m).2 >>= fun r =>
        pure ((a.appendLocalCleanup env m).1 ++ r.1, r.2) := by
    cases e with
    | defer d => simp [CleanupRegistration.local?] at he
    | loc k | temporary k | extended k =>
      simp only [CleanupRegistration.local?, Option.some.injEq] at he
      subst he
      rfl
  rw [key, bind_eq_ok]
  constructor
  · rintro ⟨⟨rest, a₂⟩, h₁, h₂⟩
    simp only [pure_eq_ok, Prod.mk.injEq] at h₂
    obtain ⟨rfl, rfl⟩ := h₂
    exact ⟨rest, h₁, rfl⟩
  · rintro ⟨rest, h₁, rfl⟩
    exact ⟨(rest, a'), h₁, rfl⟩

/-- A deferred block is analysed, then the registrations before it are cleaned up. -/
lemma cleanupPlan_defer_ok {d : Block} {l : List CleanupRegistration} :
    cleanupPlan env rec (.defer d :: l) a = .ok (plan, a') ↔
      ∃ x a₁ rest, rec d true a = .ok (x, a₁) ∧ cleanupPlan env rec l a₁ = .ok (rest, a') ∧
        plan = .runDefer d.id :: rest := by
  simp only [cleanupPlan, bind_eq_ok, pure_eq_ok, Prod.mk.injEq]
  constructor
  · rintro ⟨⟨x, a₁⟩, h₁, ⟨rest, a₂⟩, h₂, rfl, rfl⟩
    exact ⟨x, a₁, rest, h₁, h₂, rfl⟩
  · rintro ⟨x, a₁, rest, h₁, h₂, rfl⟩
    exact ⟨(x, a₁), h₁, (rest, a'), h₂, rfl, rfl⟩

/-! ## Branches -/

variable {before : Analysis} {merged merged' : Option StateMap}

lemma analyzeIfArms_nil_ok :
    analyzeIfArms rec before [] merged a = .ok (merged', a') ↔ merged' = merged ∧ a' = a := by
  simp only [analyzeIfArms, pure_eq_ok, Prod.mk.injEq]
  tauto

/-- The first arm is analysed from the state before the branch, and joined when it falls through. -/
lemma analyzeIfArms_cons_ok {arms : List Block} :
    analyzeIfArms rec before (b :: arms) merged a = .ok (merged', a') ↔
      ∃ falls a₁, rec b true (a.restart before.states before.activeLocals
          before.cleanupRegistrations) = .ok (falls, a₁) ∧
        analyzeIfArms rec before arms
          (if falls then some (.mergeOptional merged a₁.states) else merged) a₁ =
            .ok (merged', a') := by
  simp only [analyzeIfArms, bind_eq_ok, Prod.exists]

lemma analyzeIf_ok {arms : List Block} :
    analyzeIf rec arms a = .ok (r, a') ↔
      ∃ merged a₁, analyzeIfArms rec a arms (if arms.length = 1 then some a.states else none) a =
          .ok (merged, a₁) ∧ r = merged.isSome ∧
        a' = a₁.restart (merged.getD a.states) a.activeLocals a.cleanupRegistrations := by
  simp only [analyzeIf, bind_eq_ok, Prod.exists, pure_eq_ok, Prod.mk.injEq]
  constructor
  · rintro ⟨merged, a₁, h, rfl, rfl⟩
    exact ⟨merged, a₁, h, rfl, rfl⟩
  · rintro ⟨merged, a₁, h, rfl, rfl⟩
    exact ⟨merged, a₁, h, rfl, rfl⟩

lemma analyzeSwitchArms_nil_ok {v w : Value} :
    analyzeSwitchArms env rec before v w [] merged a = .ok (merged', a') ↔
      merged' = merged ∧ a' = a := by
  simp only [analyzeSwitchArms, pure_eq_ok, Prod.mk.injEq]
  tauto

/-- The first arm is analysed from the state before the branch and what its label says. -/
lemma analyzeSwitchArms_cons_ok {v w : Value} {k : Int} {arms : List (Int × Block)} :
    analyzeSwitchArms env rec before v w ((k, b) :: arms) merged a = .ok (merged', a') ↔
      ∃ falls a₁, rec b true ((a.restart before.states before.activeLocals
          before.cleanupRegistrations).enterArm env v w k) = .ok (falls, a₁) ∧
        analyzeSwitchArms env rec before v w arms
          (if falls then some (.mergeOptional merged a₁.states) else merged) a₁ =
            .ok (merged', a') := by
  simp only [analyzeSwitchArms, bind_eq_ok, Prod.exists]

lemma analyzeSwitch_ok {v : Value} {arms : List (Int × Block)} :
    analyzeSwitch env rec v arms a = .ok (r, a') ↔
      ∃ merged a₁, analyzeSwitchArms env rec a v (a.boundValue v) arms none a =
          .ok (merged, a₁) ∧ r = merged.isSome ∧
        a' = a₁.restart (merged.getD a.states) a.activeLocals a.cleanupRegistrations := by
  simp only [analyzeSwitch, bind_eq_ok, Prod.exists, pure_eq_ok, Prod.mk.injEq]
  constructor
  · rintro ⟨merged, a₁, h, rfl, rfl⟩
    exact ⟨merged, a₁, h, rfl, rfl⟩
  · rintro ⟨merged, a₁, h, rfl, rfl⟩
    exact ⟨merged, a₁, h, rfl, rfl⟩

/-! ## Loops -/

/-- **Induction over the passes.** What holds of the header and the analysis at the first pass, and is
kept from a pass that did not converge to the next one, holds at the last pass. -/
theorem passes_induction {β : Type}
    {pass : StateMap → Analysis → Except Stop (StateMap × β × Analysis)}
    {P : StateMap → Analysis → Prop}
    (hstep : ∀ H a next out a', P H a → pass H a = .ok (next, out, a') → P next (a.rollback a'))
    {n : Nat} {H : StateMap} {a : Analysis} {out : β} {a' : Analysis}
    (h : passes pass n H a = .ok (out, a')) (hP : P H a) :
    ∃ H' a₀ next, P H' a₀ ∧ pass H' a₀ = .ok (next, out, a') ∧ H'.same next = true := by
  induction n generalizing H a with
  | zero => exact absurd h throw_ne_ok
  | succ n ih =>
    simp only [passes, bind_eq_ok, Prod.exists] at h
    obtain ⟨next, out', a₁, hpass, h⟩ := h
    by_cases hsame : H.same next = true
    · rw [if_pos hsame, pure_eq_ok, Prod.mk.injEq] at h
      obtain ⟨rfl, rfl⟩ := h
      exact ⟨H, a, next, hP, hpass, hsame⟩
    · rw [if_neg hsame] at h
      exact ih h (hstep H a next out' a₁ hP hpass)

lemma analyzeClause_none_ok : analyzeClause rec b none before a = .ok a' ↔ a' = a := by
  simp only [analyzeClause, pure_eq_ok]
  exact eq_comm

lemma analyzeClause_some_ok {S : StateMap} :
    analyzeClause rec b (some S) before a = .ok a' ↔
      ∃ x, rec b false (a.restart S before.activeLocals before.cleanupRegistrations) =
        .ok (x, a') := by
  simp only [analyzeClause, bind_eq_ok, Prod.exists, pure_eq_ok]
  constructor
  · rintro ⟨x, a₁, h, rfl⟩
    exact ⟨x, h⟩
  · rintro ⟨x, h⟩
    exact ⟨x, a', h, rfl⟩

variable {c : Block} {header next : StateMap}

/-- One pass over a `While`: the condition, then the body. -/
lemma whilePass_ok {out : StateMap} :
    whilePass rec c b before header a = .ok (next, out, a') ↔
      ∃ x a₁ falls a₂,
        rec c false (a.restart header before.activeLocals before.cleanupRegistrations) =
          .ok (x, a₁) ∧
        rec b true (a₁.pushFlow ⟨before.activeLocals.length, before.activeLocals.length,
          before.cleanupRegistrations.length, before.cleanupRegistrations.length, none, none⟩) =
          .ok (falls, a₂) ∧
        next = joinEdge (if falls then before.states.merge a₂.states else before.states)
          a₂.flow.continues ∧
        out = joinEdge a₁.states a₂.flow.breaks ∧ a' = a₂.popFlow := by
  simp only [whilePass, bind_eq_ok, Prod.exists, pure_eq_ok, Prod.mk.injEq]
  constructor
  · rintro ⟨x, a₁, h₁, falls, a₂, h₂, rfl, rfl, rfl⟩
    exact ⟨x, a₁, falls, a₂, h₁, h₂, rfl, rfl, rfl⟩
  · rintro ⟨x, a₁, falls, a₂, h₁, h₂, rfl, rfl, rfl⟩
    exact ⟨x, a₁, h₁, falls, a₂, h₂, rfl, rfl, rfl⟩

lemma analyzeWhile_ok :
    analyzeWhile rec fuel c b a = .ok a' ↔
      ∃ exit a₁, passes (whilePass rec c b a) fuel a.states a = .ok (exit, a₁) ∧
        a' = a₁.restart exit a.activeLocals a.cleanupRegistrations := by
  simp only [analyzeWhile, bind_eq_ok, Prod.exists, pure_eq_ok]
  constructor
  · rintro ⟨exit, a₁, h, rfl⟩
    exact ⟨exit, a₁, h, rfl⟩
  · rintro ⟨exit, a₁, h, rfl⟩
    exact ⟨exit, a₁, h, rfl⟩

/-- One pass over a `DoWhile`: the body, then the condition if an edge leads to it. -/
lemma doWhilePass_ok {out : Option StateMap} :
    doWhilePass rec c b before header a = .ok (next, out, a') ↔
      ∃ falls a₁, rec b true ((a.restart header before.activeLocals
          before.cleanupRegistrations).pushFlow ⟨before.activeLocals.length,
          before.activeLocals.length, before.cleanupRegistrations.length,
          before.cleanupRegistrations.length, none, none⟩) = .ok (falls, a₁) ∧
        analyzeClause rec c (joinOptional (if falls then some a₁.states else none)
          a₁.flow.continues) before a₁.popFlow = .ok a' ∧
        next = joinEdge before.states ((joinOptional (if falls then some a₁.states else none)
          a₁.flow.continues).map fun _ => a'.states) ∧
        out = joinOptional ((joinOptional (if falls then some a₁.states else none)
          a₁.flow.continues).map fun _ => a'.states) a₁.flow.breaks := by
  simp only [doWhilePass, bind_eq_ok, Prod.exists, pure_eq_ok, Prod.mk.injEq]
  constructor
  · rintro ⟨falls, a₁, h₁, a₂, h₂, rfl, rfl, rfl⟩
    exact ⟨falls, a₁, h₁, h₂, rfl, rfl⟩
  · rintro ⟨falls, a₁, h₁, h₂, rfl, rfl⟩
    exact ⟨falls, a₁, h₁, a', h₂, rfl, rfl, rfl⟩

lemma analyzeDoWhile_ok :
    analyzeDoWhile rec fuel c b a = .ok (r, a') ↔
      ∃ exit a₁, passes (doWhilePass rec c b a) fuel a.states a = .ok (exit, a₁) ∧
        r = exit.isSome ∧
        a' = a₁.restart (exit.getD a.states) a.activeLocals a.cleanupRegistrations := by
  simp only [analyzeDoWhile, bind_eq_ok, Prod.exists, pure_eq_ok, Prod.mk.injEq]
  constructor
  · rintro ⟨exit, a₁, h, rfl, rfl⟩
    exact ⟨exit, a₁, h, rfl, rfl⟩
  · rintro ⟨exit, a₁, h, rfl, rfl⟩
    exact ⟨exit, a₁, h, rfl, rfl⟩

/-- One pass over a `For`: the condition, the body, then the step if an edge leads to it. -/
lemma forPass_ok {p : Block} {m k : Nat} {exit : StateMap} {breaks : Option StateMap} :
    forPass rec c p b m k before header a = .ok (next, (exit, breaks), a') ↔
      ∃ x a₁ falls a₂,
        rec c false (a.restart header before.activeLocals before.cleanupRegistrations) =
          .ok (x, a₁) ∧
        rec b true (a₁.pushFlow ⟨m, before.activeLocals.length, k,
          before.cleanupRegistrations.length, none, none⟩) = .ok (falls, a₂) ∧
        analyzeClause rec p (joinOptional (if falls then some a₂.states else none)
          a₂.flow.continues) before a₂.popFlow = .ok a' ∧
        next = joinEdge before.states ((joinOptional (if falls then some a₂.states else none)
          a₂.flow.continues).map fun _ => a'.states) ∧
        exit = a₁.states ∧ breaks = a₂.flow.breaks := by
  simp only [forPass, bind_eq_ok, Prod.exists, pure_eq_ok, Prod.mk.injEq]
  constructor
  · rintro ⟨x, a₁, h₁, falls, a₂, h₂, a₃, h₃, rfl, ⟨rfl, rfl⟩, rfl⟩
    exact ⟨x, a₁, falls, a₂, h₁, h₂, h₃, rfl, rfl, rfl⟩
  · rintro ⟨x, a₁, falls, a₂, h₁, h₂, h₃, rfl, rfl, rfl⟩
    exact ⟨x, a₁, h₁, falls, a₂, h₂, a', h₃, rfl, ⟨rfl, rfl⟩, rfl⟩

lemma leaveFor_ok {i : Block} {loop : Analysis} {exit : StateMap} {breaks : Option StateMap} :
    leaveFor env rec i before loop exit breaks a = .ok a' ↔
      ∃ plan a₁, cleanupPlan env rec
          (loop.cleanupRegistrations.drop before.cleanupRegistrations.length).reverse
          (a.restart exit loop.activeLocals loop.cleanupRegistrations) = .ok (plan, a₁) ∧
        a' = { a₁ with blockCleanups := (i.id, plan) :: a₁.blockCleanups }.restart
          (joinEdge (a₁.states.eraseLocals (loop.activeLocals.drop before.activeLocals.length))
            breaks)
          (a₁.activeLocals.take before.activeLocals.length)
          (a₁.cleanupRegistrations.take before.cleanupRegistrations.length) := by
  simp only [leaveFor, bind_eq_ok, Prod.exists, pure_eq_ok]
  constructor
  · rintro ⟨plan, a₁, h, rfl⟩
    exact ⟨plan, a₁, h, rfl⟩
  · rintro ⟨plan, a₁, h, rfl⟩
    exact ⟨plan, a₁, h, rfl⟩

lemma analyzeFor_ok {i p : Block} :
    analyzeFor env rec fuel i c p b a = .ok a' ↔
      ∃ x a₁ exit breaks a₂, rec i false a = .ok (x, a₁) ∧
        passes (forPass rec c p b a.activeLocals.length a.cleanupRegistrations.length a₁) fuel
          a₁.states a₁ = .ok ((exit, breaks), a₂) ∧
        leaveFor env rec i a a₁ exit breaks a₂ = .ok a' := by
  simp only [analyzeFor, bind_eq_ok, Prod.exists]
  constructor
  · rintro ⟨x, a₁, h₁, exit, breaks, a₂, h₂, h₃⟩
    exact ⟨x, a₁, exit, breaks, a₂, h₁, h₂, h₃⟩
  · rintro ⟨x, a₁, exit, breaks, a₂, h₁, h₂, h₃⟩
    exact ⟨x, a₁, h₁, exit, breaks, a₂, h₂, h₃⟩

/-! ## Edges -/

/-- An edge to a loop that exists: a cleanup plan, then the states join those of the other edges. -/
lemma analyzeEdge_ok {i : InstId} {breaks : Bool} {k : Nat} {flow : LoopFlow}
    (hk : a.loopFlows[k]? = some flow) :
    analyzeEdge env rec i breaks k a = .ok (r, a') ↔
      ∃ plan a₁, cleanupPlan env rec
          (a.cleanupRegistrations.drop (flow.cleanupDepth breaks)).reverse a = .ok (plan, a₁) ∧
        r = false ∧
        a' = { a₁ with
          edgeCleanups := (i, plan) :: a₁.edgeCleanups
          loopFlows := a₁.loopFlows.modify k
            (.addEdge breaks (a₁.statesAtDepth (flow.localDepth breaks))) } := by
  simp only [analyzeEdge, hk, bind_eq_ok, Prod.exists, pure_eq_ok, Prod.mk.injEq]
  constructor
  · rintro ⟨plan, a₁, h, rfl, rfl⟩
    exact ⟨plan, a₁, h, rfl, rfl⟩
  · rintro ⟨plan, a₁, h, rfl, rfl⟩
    exact ⟨plan, a₁, h, rfl, rfl⟩

lemma analyzeEdge_missing {i : InstId} {breaks : Bool} {k : Nat} (hk : a.loopFlows[k]? = none) :
    analyzeEdge env rec i breaks k a = .ok (r, a') ↔ r = false ∧ a' = a := by
  simp only [analyzeEdge, hk, pure_eq_ok, Prod.mk.injEq]
  tauto

lemma analyzeReturn_ok {i : InstId} {kind : ReturnKind} :
    analyzeReturn env rec i kind a = .ok (r, a') ↔
      ∃ a₀ plan a₁, (kind = .coroutineCancelled ∧ a₀ = a ∨ kind ≠ .coroutineCancelled ∧
          a₀ = a.diagnoseUninitializedStorage env a.activeLocals) ∧
        cleanupPlan env rec a₀.cleanupRegistrations.reverse a₀ = .ok (plan, a₁) ∧ r = false ∧
        a' = { a₁ with returnCleanups := (i, plan) :: a₁.returnCleanups } := by
  simp only [analyzeReturn, bind_eq_ok, Prod.exists, pure_eq_ok, Prod.mk.injEq]
  by_cases hk : kind = .coroutineCancelled
  · simp only [if_pos hk]
    constructor
    · rintro ⟨plan, a₁, h, rfl, rfl⟩
      exact ⟨a, plan, a₁, Or.inl ⟨hk, rfl⟩, h, rfl, rfl⟩
    · rintro ⟨a₀, plan, a₁, ⟨-, rfl⟩ | ⟨hne, -⟩, h, rfl, rfl⟩
      · exact ⟨plan, a₁, h, rfl, rfl⟩
      · exact absurd hk hne
  · simp only [if_neg hk]
    constructor
    · rintro ⟨plan, a₁, h, rfl, rfl⟩
      exact ⟨_, plan, a₁, Or.inr ⟨hk, rfl⟩, h, rfl, rfl⟩
    · rintro ⟨a₀, plan, a₁, ⟨hc, -⟩ | ⟨-, rfl⟩, h, rfl, rfl⟩
      · exact absurd hc hk
      · exact ⟨plan, a₁, h, rfl, rfl⟩

end

end Chtholly
