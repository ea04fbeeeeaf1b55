import Chtholly.SemIR.Exits

set_option autoImplicit false

/-!
# Loops lowered as divergent

The lowering of `While`, `For` and `DoWhile` (`LowerToLowIRLoops.cpp`) ends the block after a loop
with `LowUnreachable` when the condition is the literal `true` and a walk over the body finds no
`Break` that targets the loop. The walk descends into the arms of `If` and `Switch`, into task
scopes and into the bodies of inner loops, but not into scoped blocks and not into the condition,
initialiser and step blocks of inner loops.

A break that stands in one of the places the walk leaves out is hidden from it. This module shows
that hidden breaks are the whole difference: a loop lowered as divergent is left by a run exactly
when a hidden break can be reached.

## Main definitions

* `Chtholly.semanticConditionIsAlwaysTrue`, `Chtholly.semanticBlockContainsLoopBreak` — the two
  tests of the lowering (`LowerToLowIRControl.cpp`).
* `Chtholly.Inst.diverges` — the loop is lowered as divergent.
* `Chtholly.Block.hiddenBreak` — a break to the given loop can be reached at a place that the walk
  leaves out.

## Main results

* `Chtholly.Block.exits_brk_eq_hiddenBreak` — where the walk finds no break, the breaks that can be
  reached are the hidden ones.
* `Chtholly.neverExits_iff_of_diverges` — a loop lowered as divergent is never left iff no hidden
  break can be reached in it.
-/

namespace Chtholly

/-! ## The tests of the lowering -/

/-- `semanticConditionIsAlwaysTrue`: the result of the condition block is the literal `true`. -/
def semanticConditionIsAlwaysTrue (c : Block) : Bool :=
  match c.result? with
  | some (.value (.boolLiteral _ v)) => v
  | _ => false

mutual

/-- The part of `semanticBlockContainsLoopBreak` that looks at one instruction. -/
def Inst.containsLoopBreak : Inst → Nat → Bool
  | .brk _ distance, nestedLoops => distance == nestedLoops
  | .ifInst _ _ arms, nestedLoops => blocksContainLoopBreak arms nestedLoops
  | .switch _ _ arms, nestedLoops => armsContainLoopBreak arms nestedLoops
  | .taskScope _ b, nestedLoops => semanticBlockContainsLoopBreak b nestedLoops
  | .whileLoop _ _ b, nestedLoops | .forLoop _ _ _ _ b, nestedLoops
  | .doWhile _ _ b, nestedLoops => semanticBlockContainsLoopBreak b (nestedLoops + 1)
  | _, _ => false

/-- `semanticBlockContainsLoopBreak`: the walk finds a break that leaves `nestedLoops` loops. -/
def semanticBlockContainsLoopBreak : Block → Nat → Bool
  | .mk _ l, nestedLoops => instsContainLoopBreak l nestedLoops

/-- The loop of `semanticBlockContainsLoopBreak` over the instructions of a block. -/
def instsContainLoopBreak : List Inst → Nat → Bool
  | [], _ => false
  | i :: l, nestedLoops => i.containsLoopBreak nestedLoops || instsContainLoopBreak l nestedLoops

/-- The `any_of` over the arms of an `If`. -/
def blocksContainLoopBreak : List Block → Nat → Bool
  | [], _ => false
  | b :: l, nestedLoops =>
    semanticBlockContainsLoopBreak b nestedLoops || blocksContainLoopBreak l nestedLoops

/-- The `any_of` over the arms of a `Switch`. -/
def armsContainLoopBreak : List (Int × Block) → Nat → Bool
  | [], _ => false
  | (_, b) :: l, nestedLoops =>
    semanticBlockContainsLoopBreak b nestedLoops || armsContainLoopBreak l nestedLoops

end

/-- `diverges` of `whileLoop`, `forLoop` and `doWhile`: the block after the loop is terminated with
`LowUnreachable`. -/
def Inst.diverges : Inst → Bool
  | .whileLoop _ c b | .forLoop _ _ c _ b | .doWhile _ c b =>
    semanticConditionIsAlwaysTrue c && !semanticBlockContainsLoopBreak b 0
  | _ => false

/-- A condition that is always true cannot be false. -/
lemma mayBe_of_semanticConditionIsAlwaysTrue {c : Block}
    (h : semanticConditionIsAlwaysTrue c = true) : c.mayBe true = true ∧ c.mayBe false = false := by
  unfold semanticConditionIsAlwaysTrue at h
  unfold Block.mayBe
  split at h
  · next i v hv =>
    rw [hv]
    simp [Value.mayBe, h]
  · exact absurd h (by simp)

/-! ## Hidden breaks -/

mutual

/-- Control can reach a break that leaves `n` loops and that the walk over this instruction does
not visit: in a scoped block, or in the condition, initialiser or step block of an inner loop. -/
def Inst.hiddenBreak : Inst → Nat → Bool
  | .scopedBlock _ b, n => b.exits (.brk n)
  | .taskScope _ b, n => b.hiddenBreak n
  | .ifInst _ c [a], n => c.mayBe true && a.hiddenBreak n
  | .ifInst _ c (a :: b :: _), n =>
    c.mayBe true && a.hiddenBreak n || c.mayBe false && b.hiddenBreak n
  | .switch _ _ arms, n => hiddenBreakArms arms n
  | .whileLoop _ c b, n =>
    c.exits (.brk n) || c.exits .normal && c.mayBe true && b.hiddenBreak (n + 1)
  | .forLoop _ i c p b, n =>
    i.exits (.brk n) ||
      i.exits .normal &&
        (c.exits (.brk n) ||
          c.exits .normal && c.mayBe true &&
            (b.hiddenBreak (n + 1) ||
              (b.exits .normal || b.exits (.cont 0)) && p.exits (.brk n)))
  | .doWhile _ c b, n =>
    b.hiddenBreak (n + 1) || (b.exits .normal || b.exits (.cont 0)) && c.exits (.brk n)
  | _, _ => false

/-- Control can reach a hidden break in a block. -/
def Block.hiddenBreak : Block → Nat → Bool
  | .mk _ l, n => hiddenBreakList l n

/-- Control can reach a hidden break in a list of instructions. -/
def hiddenBreakList : List Inst → Nat → Bool
  | [], _ => false
  | .defer _ d :: l, n => hiddenBreakList l n && d.exits .normal
  | i :: l, n => i.hiddenBreak n || i.exits .normal && hiddenBreakList l n

/-- Control can reach a hidden break in an arm of a switch. -/
def hiddenBreakArms : List (Int × Block) → Nat → Bool
  | [], _ => false
  | (_, b) :: l, n => b.hiddenBreak n || hiddenBreakArms l n

end

/-- A hidden break that leaves the given loop can be reached from the start of the loop. -/
def Inst.reachesHiddenBreak : Inst → Bool
  | .whileLoop _ c b => c.exits .normal && b.hiddenBreak 0
  | .forLoop _ i c _ b => i.exits .normal && c.exits .normal && b.hiddenBreak 0
  | .doWhile _ _ b => b.hiddenBreak 0
  | _ => false

/-! ## Where the walk finds no break, the hidden ones remain -/

@[simp] lemma Exit.brk_beq_normal (n : Nat) : (Exit.brk n == .normal) = false := rfl

@[simp] lemma Exit.brk_bne_normal (n : Nat) : (Exit.brk n != .normal) = true := rfl

mutual

/-- The breaks of an instruction in which the walk finds none are the hidden ones. -/
lemma Inst.exits_brk_eq_hiddenBreak : ∀ (i : Inst) (n : Nat), i.containsLoopBreak n = false →
    i.exits (.brk n) = i.hiddenBreak n
  | .value _, _, _ | .declareUninitialized .., _, _ | .parameter .., _, _ | .bindName .., _, _
  | .assign .., _, _ | .extendTemporary .., _, _ | .endFullExpression .., _, _ | .other _, _, _
  | .unrecoverableFailure _, _, _ | .ret .., _, _ | .cont .., _, _ | .defer .., _, _
  | .ifInst _ _ [], _, _ => rfl
  | .brk _ d, n, h => by
    have hd : d ≠ n := by simpa [Inst.containsLoopBreak] using h
    simp [Inst.exits, Inst.hiddenBreak, hd.symm]
  | .ifInst _ c [a], n, h => by
    simp only [Inst.containsLoopBreak, blocksContainLoopBreak, Bool.or_false] at h
    simp [Inst.exits, Inst.hiddenBreak, Block.exits_brk_eq_hiddenBreak a n h]
  | .ifInst _ c (a :: b :: l), n, h => by
    simp only [Inst.containsLoopBreak, blocksContainLoopBreak, Bool.or_eq_false_iff] at h
    simp [Inst.exits, Inst.hiddenBreak, Block.exits_brk_eq_hiddenBreak a n h.1,
      Block.exits_brk_eq_hiddenBreak b n h.2.1]
  | .scopedBlock _ b, n, _ => by simp [Inst.exits, Inst.hiddenBreak]
  | .taskScope _ b, n, h => by
    simp only [Inst.containsLoopBreak] at h
    simp [Inst.exits, Inst.hiddenBreak, Block.exits_brk_eq_hiddenBreak b n h]
  | .whileLoop _ c b, n, h => by
    simp only [Inst.containsLoopBreak] at h
    simp [Inst.exits, Inst.hiddenBreak, Exit.inner, Block.exits_brk_eq_hiddenBreak b (n + 1) h]
  | .forLoop _ i c p b, n, h => by
    simp only [Inst.containsLoopBreak] at h
    simp [Inst.exits, Inst.hiddenBreak, Exit.inner, Block.exits_brk_eq_hiddenBreak b (n + 1) h]
  | .doWhile _ c b, n, h => by
    simp only [Inst.containsLoopBreak] at h
    simp [Inst.exits, Inst.hiddenBreak, Exit.inner, Block.exits_brk_eq_hiddenBreak b (n + 1) h]
  | .switch _ _ arms, n, h => by
    simp only [Inst.containsLoopBreak] at h
    simp [Inst.exits, Inst.hiddenBreak, exitsArms_brk_eq_hiddenBreak arms n h]

/-- **Where the walk finds no break, the breaks that can be reached are the hidden ones.**

**Proof sketch.** Structural induction. A break itself is found by the walk. For every other kind
the exits and the hidden breaks descend into the same blocks, and into a block that the walk does
not visit the hidden breaks take all exits. -/
lemma Block.exits_brk_eq_hiddenBreak : ∀ (b : Block) (n : Nat),
    semanticBlockContainsLoopBreak b n = false → b.exits (.brk n) = b.hiddenBreak n
  | .mk _ l, n, h => by
    simp only [semanticBlockContainsLoopBreak] at h
    simp [Block.exits, Block.hiddenBreak, exitsList_brk_eq_hiddenBreak l n h]

/-- The breaks of a list of instructions in which the walk finds none are the hidden ones. -/
lemma exitsList_brk_eq_hiddenBreak : ∀ (l : List Inst) (n : Nat),
    instsContainLoopBreak l n = false → exitsList l (.brk n) = hiddenBreakList l n
  | [], _, _ => rfl
  | i :: l, n, h => by
    simp only [instsContainLoopBreak, Bool.or_eq_false_iff] at h
    have hi := Inst.exits_brk_eq_hiddenBreak i n h.1
    have hl := exitsList_brk_eq_hiddenBreak l n h.2
    cases i with
    | defer id d => simp [exitsList, hiddenBreakList, hl]
    | _ => simp [exitsList, hiddenBreakList, hl, hi]

/-- The breaks of the arms of a switch in which the walk finds none are the hidden ones. -/
lemma exitsArms_brk_eq_hiddenBreak : ∀ (arms : List (Int × Block)) (n : Nat),
    armsContainLoopBreak arms n = false → exitsArms arms (.brk n) = hiddenBreakArms arms n
  | [], _, _ => rfl
  | (_, b) :: arms, n, h => by
    simp only [armsContainLoopBreak, Bool.or_eq_false_iff] at h
    simp [exitsArms, hiddenBreakArms, Block.exits_brk_eq_hiddenBreak b n h.1,
      exitsArms_brk_eq_hiddenBreak arms n h.2]

end

/-! ## Loops lowered as divergent -/

/-- No execution of the loop, on any machine and from any state, transfers control to the point
after the loop. -/
def Inst.NeverExits (loop : Inst) : Prop :=
  ∀ (σ : Type) (M : Machine σ) (s : σ) (t : List (InstId × σ)) (s' : σ),
    ¬ Run M (.inst loop) s t .normal s'

/-- An instruction is never left at its end iff the end is not one of its exits. -/
lemma Inst.neverExits_iff (i : Inst) : i.NeverExits ↔ i.exits .normal = false := by
  constructor
  · intro h
    by_contra hx
    obtain ⟨t, r⟩ := i.exists_run .normal (by simp) (by simpa using hx)
    exact h _ _ _ _ _ r
  · intro h σ M s t s' r
    have hx : (Frag.inst i).exits .normal = true := r.exits (by simp)
    rw [Frag.exits, h] at hx
    exact absurd hx (by simp)

/-- The end of a loop lowered as divergent is an exit of it iff a hidden break can be reached. -/
lemma Inst.exits_normal_of_diverges {loop : Inst} (h : loop.diverges = true) :
    loop.exits .normal = loop.reachesHiddenBreak := by
  cases loop with
  | whileLoop id c b =>
    simp only [Inst.diverges, Bool.and_eq_true, Bool.not_eq_true'] at h
    obtain ⟨ht, hf⟩ := mayBe_of_semanticConditionIsAlwaysTrue h.1
    simp [Inst.exits, Inst.reachesHiddenBreak, Exit.inner, ht, hf,
      Block.exits_brk_eq_hiddenBreak b 0 h.2]
  | forLoop id i c p b =>
    simp only [Inst.diverges, Bool.and_eq_true, Bool.not_eq_true'] at h
    obtain ⟨ht, hf⟩ := mayBe_of_semanticConditionIsAlwaysTrue h.1
    simp [Inst.exits, Inst.reachesHiddenBreak, Exit.inner, ht, hf,
      Block.exits_brk_eq_hiddenBreak b 0 h.2, Bool.and_assoc]
  | doWhile id c b =>
    simp only [Inst.diverges, Bool.and_eq_true, Bool.not_eq_true'] at h
    obtain ⟨-, hf⟩ := mayBe_of_semanticConditionIsAlwaysTrue h.1
    simp [Inst.exits, Inst.reachesHiddenBreak, Exit.inner, hf,
      Block.exits_brk_eq_hiddenBreak b 0 h.2]
  | _ => simp [Inst.diverges] at h

/-- **Divergent loops.** A loop that is lowered as divergent is never left, on any machine and from
any state, iff no break to it can be reached that stands in a scoped block or in the condition,
initialiser or step block of an inner loop. -/
theorem neverExits_iff_of_diverges (loop : Inst) (h : loop.diverges = true) :
    loop.NeverExits ↔ loop.reachesHiddenBreak = false := by
  rw [Inst.neverExits_iff, Inst.exits_normal_of_diverges h]

/-- `while (true) { continue; }` is lowered as divergent and never left. -/
theorem neverExits_iff_of_diverges_continue :
    (Inst.whileLoop 0 (.mk 0 [.value (.boolLiteral 1 true)]) (.mk 1 [.cont 2 0])).diverges = true ∧
    (Inst.whileLoop 0 (.mk 0 [.value (.boolLiteral 1 true)]) (.mk 1 [.cont 2 0])).NeverExits :=
  ⟨by decide, (neverExits_iff_of_diverges _ (by decide)).2 (by decide)⟩

/-- `while (true) { { break; } }`: the break stands in a scoped block. -/
def scopedBreakLoop : Inst :=
  .whileLoop 0 (.mk 0 [.value (.boolLiteral 1 true)]) (.mk 1 [.scopedBlock 2 (.mk 2 [.brk 3 0])])

/-- The loop whose break stands in a scoped block is lowered as divergent and left by its break. -/
theorem scopedBreakLoop_diverges_and_exits :
    scopedBreakLoop.diverges = true ∧ ¬ scopedBreakLoop.NeverExits := by
  refine ⟨by decide, ?_⟩
  rw [Inst.neverExits_iff]
  decide

end Chtholly
