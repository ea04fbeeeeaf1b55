import Chtholly.SemIR.Syntax

set_option autoImplicit false

/-!
# Executions of structured code

What a function body of the semantic IR does, step by step. The meaning of the straight-line
instructions, of branch conditions and of the cleanup that leaving a scope performs is a parameter
(`Machine`), so that each analysis is compared with the executions at the level of detail it is
about. A run records the instructions it reaches, each with the state it was reached in.

A deferred block runs when control leaves the rest of the block that registered it, whatever the
exit, so the block registered last runs first.

## Main definitions

* `Chtholly.Exit` — how a run of a fragment ends. `cut` ends the observation at any point, so the
  runs contain every finite beginning of an execution, also of one that never ends.
* `Chtholly.Machine` — the meaning of straight-line instructions, conditions and scope exits.
* `Chtholly.Frag` — the fragments of code a run can be in: instructions, lists of them, lexical
  blocks, and loops about to test their condition or start their body.
* `Chtholly.Run` — the executions of a fragment.
-/

namespace Chtholly

/-- How control leaves a fragment: at its end, by an edge to an enclosing loop (the distance counts
the loops around the fragment), by a return; `cut` stops observing the run. -/
inductive Exit where
  | normal
  | brk (distance : Nat)
  | cont (distance : Nat)
  | ret
  | cut
  deriving DecidableEq, Repr

/-- The exit of a loop, given the exit of its body: an edge to the loop itself stays inside
(`none`), an edge to a loop further out has one loop less to leave. -/
def Exit.outer : Exit → Option Exit
  | .normal | .brk 0 | .cont 0 => none
  | .brk (n + 1) => some (.brk n)
  | .cont (n + 1) => some (.cont n)
  | .ret => some .ret
  | .cut => some .cut

/-- The meaning of everything but the control flow, over states `σ`. -/
structure Machine (σ : Type) where
  /-- A straight-line instruction takes a state to another. -/
  step : Inst → σ → σ → Prop
  /-- A condition may read as the given truth value in a state. -/
  truth : Value → σ → Bool → Prop
  /-- A switch arm with the given label may be selected for a scrutinee in a state. -/
  selects : Value → σ → Int → Prop
  /-- Falling off the end of a lexical block. -/
  leave : InstBlockId → σ → σ → Prop
  /-- Taking a break, continue or return edge. -/
  edge : InstId → σ → σ → Prop
  /-- A literal condition reads as what it says. -/
  truth_literal : ∀ {i b s c}, truth (.boolLiteral i b) s c → c = b

/-- The condition of a loop reads as `b`: the result of its condition block does. -/
def Machine.test {σ : Type} (M : Machine σ) (c : Block) (s : σ) (b : Bool) : Prop :=
  match c.result? with
  | some (.value v) => M.truth v s b
  | _ => True

/-- The fragments of code a run can be in. -/
inductive Frag where
  | inst (i : Inst)
  | insts (l : List Inst)
  | block (b : Block)
  | whileFrom (condition body : Block)
  | forFrom (init condition step body : Block)
  | doFrom (condition body : Block)

/-- `Run M f s t e s'`: started in state `s`, the fragment `f` reaches the instructions listed in
`t`, each in the state beside it, and is left by the exit `e` in state `s'`. -/
inductive Run {σ : Type} (M : Machine σ) : Frag → σ → List (InstId × σ) → Exit → σ → Prop
  | cut {f s} : Run M f s [] .cut s
  -- lists of instructions
  | nil {s} : Run M (.insts []) s [] .normal s
  | seq {i l s t s₁ t' e s₂} (hd : ∀ id b, i ≠ .defer id b) :
      Run M (.inst i) s t .normal s₁ → Run M (.insts l) s₁ t' e s₂ →
      Run M (.insts (i :: l)) s (t ++ t') e s₂
  | stop {i l s t e s₁} (hd : ∀ id b, i ≠ .defer id b) (he : e ≠ .normal) :
      Run M (.inst i) s t e s₁ → Run M (.insts (i :: l)) s t e s₁
  | deferred {id d l s t e s₁ t' s₂} (he : e ≠ .cut) :
      Run M (.insts l) s t e s₁ → Run M (.block d) s₁ t' .normal s₂ →
      Run M (.insts (.defer id d :: l)) s ((id, s) :: t ++ t') e s₂
  | deferredCut {id d l s t e s₁ t' s₂} (he : e ≠ .cut) :
      Run M (.insts l) s t e s₁ → Run M (.block d) s₁ t' .cut s₂ →
      Run M (.insts (.defer id d :: l)) s ((id, s) :: t ++ t') .cut s₂
  | deferCut {id d l s t s₁} :
      Run M (.insts l) s t .cut s₁ → Run M (.insts (.defer id d :: l)) s ((id, s) :: t) .cut s₁
  -- straight-line instructions and edges
  | step {i s s'} (hi : i.straightLine = true) :
      M.step i s s' → Run M (.inst i) s [(i.id, s)] .normal s'
  | reached {i s} (hi : i.straightLine = true) : Run M (.inst i) s [(i.id, s)] .cut s
  | fail {id s} : Run M (.inst (.unrecoverableFailure id)) s [(id, s)] .cut s
  | ret {id k v s s'} : M.edge id s s' → Run M (.inst (.ret id k v)) s [(id, s)] .ret s'
  | brk {id n s s'} : M.edge id s s' → Run M (.inst (.brk id n)) s [(id, s)] (.brk n) s'
  | cont {id n s s'} : M.edge id s s' → Run M (.inst (.cont id n)) s [(id, s)] (.cont n) s'
  -- blocks
  | block {b s t s₁ s₂} :
      Run M (.insts b.insts) s t .normal s₁ → M.leave b.id s₁ s₂ → Run M (.block b) s t .normal s₂
  | blockOut {b s t e s₁} (he : e ≠ .normal) :
      Run M (.insts b.insts) s t e s₁ → Run M (.block b) s t e s₁
  | scopedBlock {id b s t e s'} :
      Run M (.block b) s t e s' → Run M (.inst (.scopedBlock id b)) s ((id, s) :: t) e s'
  | taskScope {id b s t e s'} :
      Run M (.block b) s t e s' → Run M (.inst (.taskScope id b)) s ((id, s) :: t) e s'
  -- branches: the first arm of an `If` is taken on true, the second, when there is one, on false
  | ifThen {id c a arms s t e s'} (hc : M.truth c s true) :
      Run M (.block a) s t e s' → Run M (.inst (.ifInst id c (a :: arms))) s ((id, s) :: t) e s'
  | ifElse {id c a b arms s t e s'} (hc : M.truth c s false) :
      Run M (.block b) s t e s' →
      Run M (.inst (.ifInst id c (a :: b :: arms))) s ((id, s) :: t) e s'
  | ifSkip {id c a s} (hc : M.truth c s false) :
      Run M (.inst (.ifInst id c [a])) s [(id, s)] .normal s
  | switch {id v arms k b s t e s'} (hk : (k, b) ∈ arms) (hs : M.selects v s k) :
      Run M (.block b) s t e s' → Run M (.inst (.switch id v arms)) s ((id, s) :: t) e s'
  -- loops
  | whileLoop {id c b s t e s'} :
      Run M (.whileFrom c b) s t e s' → Run M (.inst (.whileLoop id c b)) s ((id, s) :: t) e s'
  | whileExit {c b s t s₁} (hc : M.test c s₁ false) :
      Run M (.insts c.insts) s t .normal s₁ → Run M (.whileFrom c b) s t .normal s₁
  | whileCond {c b s t e s₁} (he : e ≠ .normal) :
      Run M (.insts c.insts) s t e s₁ → Run M (.whileFrom c b) s t e s₁
  | whileNext {c b s t s₁ t' e s₂ t'' e' s₃} (hc : M.test c s₁ true)
      (he : e = .normal ∨ e = .cont 0) :
      Run M (.insts c.insts) s t .normal s₁ → Run M (.block b) s₁ t' e s₂ →
      Run M (.whileFrom c b) s₂ t'' e' s₃ → Run M (.whileFrom c b) s (t ++ t' ++ t'') e' s₃
  | whileBreak {c b s t s₁ t' s₂} (hc : M.test c s₁ true) :
      Run M (.insts c.insts) s t .normal s₁ → Run M (.block b) s₁ t' (.brk 0) s₂ →
      Run M (.whileFrom c b) s (t ++ t') .normal s₂
  | whileOut {c b s t s₁ t' e s₂ e'} (hc : M.test c s₁ true) (he : e.outer = some e') :
      Run M (.insts c.insts) s t .normal s₁ → Run M (.block b) s₁ t' e s₂ →
      Run M (.whileFrom c b) s (t ++ t') e' s₂
  | forLoop {id i c p b s t s₁ t' e s₂} :
      Run M (.insts i.insts) s t .normal s₁ → Run M (.forFrom i c p b) s₁ t' e s₂ →
      Run M (.inst (.forLoop id i c p b)) s ((id, s) :: t ++ t') e s₂
  | forInit {id i c p b s t e s₁} (he : e ≠ .normal) :
      Run M (.insts i.insts) s t e s₁ →
      Run M (.inst (.forLoop id i c p b)) s ((id, s) :: t) e s₁
  | forExit {i c p b s t s₁ s₂} (hc : M.test c s₁ false) :
      Run M (.insts c.insts) s t .normal s₁ → M.leave i.id s₁ s₂ →
      Run M (.forFrom i c p b) s t .normal s₂
  | forCond {i c p b s t e s₁} (he : e ≠ .normal) :
      Run M (.insts c.insts) s t e s₁ → Run M (.forFrom i c p b) s t e s₁
  | forNext {i c p b s t s₁ t' e s₂ u s₃ t'' e' s₄} (hc : M.test c s₁ true)
      (he : e = .normal ∨ e = .cont 0) :
      Run M (.insts c.insts) s t .normal s₁ → Run M (.block b) s₁ t' e s₂ →
      Run M (.insts p.insts) s₂ u .normal s₃ → Run M (.forFrom i c p b) s₃ t'' e' s₄ →
      Run M (.forFrom i c p b) s (t ++ t' ++ u ++ t'') e' s₄
  | forStep {i c p b s t s₁ t' e s₂ u e' s₃} (hc : M.test c s₁ true)
      (he : e = .normal ∨ e = .cont 0) (he' : e' ≠ .normal) :
      Run M (.insts c.insts) s t .normal s₁ → Run M (.block b) s₁ t' e s₂ →
      Run M (.insts p.insts) s₂ u e' s₃ → Run M (.forFrom i c p b) s (t ++ t' ++ u) e' s₃
  | forBreak {i c p b s t s₁ t' s₂} (hc : M.test c s₁ true) :
      Run M (.insts c.insts) s t .normal s₁ → Run M (.block b) s₁ t' (.brk 0) s₂ →
      Run M (.forFrom i c p b) s (t ++ t') .normal s₂
  | forOut {i c p b s t s₁ t' e s₂ e'} (hc : M.test c s₁ true) (he : e.outer = some e') :
      Run M (.insts c.insts) s t .normal s₁ → Run M (.block b) s₁ t' e s₂ →
      Run M (.forFrom i c p b) s (t ++ t') e' s₂
  | doWhile {id c b s t e s'} :
      Run M (.doFrom c b) s t e s' → Run M (.inst (.doWhile id c b)) s ((id, s) :: t) e s'
  | doExit {c b s t e s₁ t' s₂} (he : e = .normal ∨ e = .cont 0) (hc : M.test c s₂ false) :
      Run M (.block b) s t e s₁ → Run M (.insts c.insts) s₁ t' .normal s₂ →
      Run M (.doFrom c b) s (t ++ t') .normal s₂
  | doCond {c b s t e s₁ t' e' s₂} (he : e = .normal ∨ e = .cont 0) (he' : e' ≠ .normal) :
      Run M (.block b) s t e s₁ → Run M (.insts c.insts) s₁ t' e' s₂ →
      Run M (.doFrom c b) s (t ++ t') e' s₂
  | doNext {c b s t e s₁ t' s₂ t'' e' s₃} (he : e = .normal ∨ e = .cont 0)
      (hc : M.test c s₂ true) :
      Run M (.block b) s t e s₁ → Run M (.insts c.insts) s₁ t' .normal s₂ →
      Run M (.doFrom c b) s₂ t'' e' s₃ → Run M (.doFrom c b) s (t ++ t' ++ t'') e' s₃
  | doBreak {c b s t s₁} :
      Run M (.block b) s t (.brk 0) s₁ → Run M (.doFrom c b) s t .normal s₁
  | doOut {c b s t e s₁ e'} (he : e.outer = some e') :
      Run M (.block b) s t e s₁ → Run M (.doFrom c b) s t e' s₁

end Chtholly
