import Chtholly.SemIR.Exits

set_option autoImplicit false

/-!
# Falling through a block

The semantic checker (`SemanticControlFlow.cpp`) and the verifier of the IR
(`SemIRVerifyControlFlow.cpp`) decide with two copies of one walk whether control can fall off the
end of a code block: the checker to report unreachable code and missing returns, the verifier to
insist on a return terminator. An infinite loop falls through when a second walk finds a `Break` to
it in its body.

The copies differ in the blocks they look into. The checker never looks into a `ScopedBlock`, the
verifier does; in search of breaks the checker looks into a `CoroutineTaskScope`, the verifier does
not; neither looks into the clauses of inner loops. Where no block that only one of them sees makes
a difference, the two agree, and a block that they say does not fall through is never left at its
end.

## Main definitions

* `Chtholly.Walk` — the kinds of blocks that a copy of the walk looks into.
* `Chtholly.blockFallsThrough`, `Chtholly.verifierFallsThrough` — the two copies.
* `Chtholly.Block.buriedBreak` — a break stands in a block that not every walk looks into.
* `Chtholly.Block.clear` — no such break leaves an infinite loop of the block, and every scoped
  block has a path to its end.

## Main results

* `Chtholly.fallThroughSound_of_clear` — in a clear block the copies agree and are sound.
-/

namespace Chtholly

/-! ## The walks -/

/-- Which of the blocks that the two copies treat differently are looked into: a `ScopedBlock` by
the fall-through walk, a `ScopedBlock` and a `CoroutineTaskScope` by the search for breaks. -/
structure Walk where
  scopedBlock : Bool
  scopedBreak : Bool
  taskBreak : Bool
  deriving DecidableEq, Repr

/-- `conditionIsAlwaysTrue` and `condition_is_true`: the last instruction of the condition block is
the literal `true`. -/
def conditionIsAlwaysTrue (c : Block) : Bool :=
  match c.insts.getLast? with
  | some (.value (.boolLiteral _ v)) => v
  | _ => false

mutual

/-- The part of the search for a break to the current loop that looks at one instruction. -/
def Inst.findsBreak (w : Walk) : Inst → Nat → Bool
  | .brk _ distance, nestedLoops => distance == nestedLoops
  | .ifInst _ _ arms, nestedLoops => blocksFindBreak w arms nestedLoops
  | .scopedBlock _ b, nestedLoops => w.scopedBreak && b.findsBreak w nestedLoops
  | .switch _ _ arms, nestedLoops => armsFindBreak w arms nestedLoops
  | .whileLoop _ _ b, nestedLoops | .forLoop _ _ _ _ b, nestedLoops
  | .doWhile _ _ b, nestedLoops => b.findsBreak w (nestedLoops + 1)
  | .taskScope _ b, nestedLoops => w.taskBreak && b.findsBreak w nestedLoops
  | _, _ => false

/-- `blockContainsCurrentLoopBreak` and `contains_current_loop_break`. -/
def Block.findsBreak (w : Walk) : Block → Nat → Bool
  | .mk _ l, nestedLoops => instsFindBreak w l nestedLoops

/-- The loop of the search over the instructions of a block. -/
def instsFindBreak (w : Walk) : List Inst → Nat → Bool
  | [], _ => false
  | i :: l, nestedLoops => i.findsBreak w nestedLoops || instsFindBreak w l nestedLoops

/-- The `any_of` over the arms of an `If`. -/
def blocksFindBreak (w : Walk) : List Block → Nat → Bool
  | [], _ => false
  | b :: l, nestedLoops => b.findsBreak w nestedLoops || blocksFindBreak w l nestedLoops

/-- The `any_of` over the arms of a `Switch`. -/
def armsFindBreak (w : Walk) : List (Int × Block) → Nat → Bool
  | [], _ => false
  | (_, b) :: l, nestedLoops => b.findsBreak w nestedLoops || armsFindBreak w l nestedLoops

end

/-- A loop with these blocks is infinite as far as the walk can see. -/
def endless (w : Walk) (c b : Block) : Bool := conditionIsAlwaysTrue c && !b.findsBreak w 0

mutual

/-- The fall-through walk ends at this instruction. `never` tells of an instruction by its index
whether its type is `never`, which makes its `expressionCategory` diverging. -/
def Inst.stops (w : Walk) (never : InstId → Bool) : Inst → Bool
  | .ret id kind _ => kind == .ret || never id
  | .unrecoverableFailure _ | .brk .. | .cont .. => true
  | .ifInst id _ [a, b] =>
    never id || !a.fallsThrough w never && !b.fallsThrough w never
  | .switch id _ arms => never id || !arms.isEmpty && noArmFallsThrough w never arms
  | .scopedBlock id b => never id || w.scopedBlock && !b.fallsThrough w never
  | .taskScope id b => never id || !b.fallsThrough w never
  | .whileLoop id c b | .forLoop id _ c _ b | .doWhile id c b => never id || endless w c b
  | .value v => never v.id
  | .declareUninitialized id _ | .parameter id _ | .bindName id .. | .assign id ..
  | .extendTemporary id _ | .endFullExpression id _ | .other id | .defer id _
  | .ifInst id _ _ => never id

/-- The fall-through walk over a block. -/
def Block.fallsThrough (w : Walk) (never : InstId → Bool) : Block → Bool
  | .mk _ l => instsFallThrough w never l

/-- The loop of the fall-through walk over the instructions of a block. -/
def instsFallThrough (w : Walk) (never : InstId → Bool) : List Inst → Bool
  | [] => true
  | i :: l => !i.stops w never && instsFallThrough w never l

/-- The `none_of` over the arms of a `Switch`. -/
def noArmFallsThrough (w : Walk) (never : InstId → Bool) : List (Int × Block) → Bool
  | [] => true
  | (_, b) :: l => !b.fallsThrough w never && noArmFallsThrough w never l

end

/-- `blockFallsThrough` of the checker. -/
def blockFallsThrough (never : InstId → Bool) (b : Block) : Bool :=
  b.fallsThrough { scopedBlock := false, scopedBreak := false, taskBreak := true } never

/-- `falls_through` of `verifyCodeBlock`. -/
def verifierFallsThrough (never : InstId → Bool) (b : Block) : Bool :=
  b.fallsThrough { scopedBlock := true, scopedBreak := true, taskBreak := false } never

/-- No execution of the block, on any machine and from any state, reaches its end. -/
def Block.NeverEnds (b : Block) : Prop :=
  ∀ (σ : Type) (M : Machine σ) (s : σ) (t : List (InstId × σ)) (s' : σ),
    ¬ Run M (.block b) s t .normal s'

/-- The two copies give one answer, and a block of which one of them says that it does not fall
through is never left at its end. -/
def FallThroughSound (never : InstId → Bool) (b : Block) : Prop :=
  blockFallsThrough never b = verifierFallsThrough never b ∧
    (blockFallsThrough never b = false ∨ verifierFallsThrough never b = false → b.NeverEnds)

/-! ## Breaks that not every walk finds -/

mutual

/-- A break that leaves `n` loops stands anywhere in the instruction. -/
def Inst.mentionsBreak : Inst → Nat → Bool
  | .brk _ distance, n => distance == n
  | .ifInst _ _ arms, n => blocksMentionBreak arms n
  | .switch _ _ arms, n => armsMentionBreak arms n
  | .scopedBlock _ b, n | .taskScope _ b, n => b.mentionsBreak n
  | .whileLoop _ c b, n | .doWhile _ c b, n => c.mentionsBreak n || b.mentionsBreak (n + 1)
  | .forLoop _ i c p b, n =>
    i.mentionsBreak n || c.mentionsBreak n || p.mentionsBreak n || b.mentionsBreak (n + 1)
  | _, _ => false

/-- A break that leaves `n` loops stands anywhere in the block. -/
def Block.mentionsBreak : Block → Nat → Bool
  | .mk _ l, n => instsMentionBreak l n

/-- A break that leaves `n` loops stands anywhere in the instructions. -/
def instsMentionBreak : List Inst → Nat → Bool
  | [], _ => false
  | i :: l, n => i.mentionsBreak n || instsMentionBreak l n

/-- A break that leaves `n` loops stands anywhere in the arms of an `If`. -/
def blocksMentionBreak : List Block → Nat → Bool
  | [], _ => false
  | b :: l, n => b.mentionsBreak n || blocksMentionBreak l n

/-- A break that leaves `n` loops stands anywhere in the arms of a `Switch`. -/
def armsMentionBreak : List (Int × Block) → Nat → Bool
  | [], _ => false
  | (_, b) :: l, n => b.mentionsBreak n || armsMentionBreak l n

end

mutual

/-- A break that leaves `n` loops stands in a scoped block, a task scope or a clause of an inner
loop. -/
def Inst.buriedBreak : Inst → Nat → Bool
  | .scopedBlock _ b, n | .taskScope _ b, n => b.mentionsBreak n
  | .ifInst _ _ arms, n => blocksBuryBreak arms n
  | .switch _ _ arms, n => armsBuryBreak arms n
  | .whileLoop _ c b, n | .doWhile _ c b, n => c.mentionsBreak n || b.buriedBreak (n + 1)
  | .forLoop _ i c p b, n =>
    i.mentionsBreak n || c.mentionsBreak n || p.mentionsBreak n || b.buriedBreak (n + 1)
  | _, _ => false

/-- A block contains a buried break. -/
def Block.buriedBreak : Block → Nat → Bool
  | .mk _ l, n => instsBuryBreak l n

/-- A list of instructions contains a buried break. -/
def instsBuryBreak : List Inst → Nat → Bool
  | [], _ => false
  | i :: l, n => i.buriedBreak n || instsBuryBreak l n

/-- The arms of an `If` contain a buried break. -/
def blocksBuryBreak : List Block → Nat → Bool
  | [], _ => false
  | b :: l, n => b.buriedBreak n || blocksBuryBreak l n

/-- The arms of a `Switch` contain a buried break. -/
def armsBuryBreak : List (Int × Block) → Nat → Bool
  | [], _ => false
  | (_, b) :: l, n => b.buriedBreak n || armsBuryBreak l n

end

mutual

/-- What a walk finds stands in the instruction. -/
lemma Inst.mentionsBreak_of_findsBreak (w : Walk) : ∀ (i : Inst) (n : Nat),
    i.findsBreak w n = true → i.mentionsBreak n = true
  | .value _, _, h | .declareUninitialized .., _, h | .parameter .., _, h | .bindName .., _, h
  | .assign .., _, h | .extendTemporary .., _, h | .endFullExpression .., _, h | .other _, _, h
  | .unrecoverableFailure _, _, h | .ret .., _, h | .cont .., _, h | .defer .., _, h => by
    simp [Inst.findsBreak] at h
  | .brk _ d, n, h => h
  | .ifInst _ _ arms, n, h => blocksMentionBreak_of_findsBreak w arms n h
  | .switch _ _ arms, n, h => armsMentionBreak_of_findsBreak w arms n h
  | .scopedBlock _ b, n, h | .taskScope _ b, n, h => by
    simp only [Inst.findsBreak, Bool.and_eq_true] at h
    exact Block.mentionsBreak_of_findsBreak w b n h.2
  | .whileLoop _ c b, n, h | .doWhile _ c b, n, h | .forLoop _ _ c _ b, n, h => by
    have hb := Block.mentionsBreak_of_findsBreak w b (n + 1) h
    simp [Inst.mentionsBreak, hb]

/-- What a walk finds stands in the block. -/
lemma Block.mentionsBreak_of_findsBreak (w : Walk) : ∀ (b : Block) (n : Nat),
    b.findsBreak w n = true → b.mentionsBreak n = true
  | .mk _ l, n, h => instsMentionBreak_of_findsBreak w l n h

/-- What a walk finds stands in the instructions. -/
lemma instsMentionBreak_of_findsBreak (w : Walk) : ∀ (l : List Inst) (n : Nat),
    instsFindBreak w l n = true → instsMentionBreak l n = true
  | [], _, h => h
  | i :: l, n, h => by
    simp only [instsFindBreak, instsMentionBreak, Bool.or_eq_true] at h ⊢
    exact h.imp (i.mentionsBreak_of_findsBreak w n) (instsMentionBreak_of_findsBreak w l n)

/-- What a walk finds stands in the arms of an `If`. -/
lemma blocksMentionBreak_of_findsBreak (w : Walk) : ∀ (l : List Block) (n : Nat),
    blocksFindBreak w l n = true → blocksMentionBreak l n = true
  | [], _, h => h
  | b :: l, n, h => by
    simp only [blocksFindBreak, blocksMentionBreak, Bool.or_eq_true] at h ⊢
    exact h.imp (b.mentionsBreak_of_findsBreak w n) (blocksMentionBreak_of_findsBreak w l n)

/-- What a walk finds stands in the arms of a `Switch`. -/
lemma armsMentionBreak_of_findsBreak (w : Walk) : ∀ (l : List (Int × Block)) (n : Nat),
    armsFindBreak w l n = true → armsMentionBreak l n = true
  | [], _, h => h
  | (_, b) :: l, n, h => by
    simp only [armsFindBreak, armsMentionBreak, Bool.or_eq_true] at h ⊢
    exact h.imp (b.mentionsBreak_of_findsBreak w n) (armsMentionBreak_of_findsBreak w l n)

end

mutual

/-- A break is found by a walk, or buried. -/
lemma Inst.findsBreak_or_buriedBreak (w : Walk) : ∀ (i : Inst) (n : Nat),
    i.mentionsBreak n = true → i.findsBreak w n = true ∨ i.buriedBreak n = true
  | .value _, _, h | .declareUninitialized .., _, h | .parameter .., _, h | .bindName .., _, h
  | .assign .., _, h | .extendTemporary .., _, h | .endFullExpression .., _, h | .other _, _, h
  | .unrecoverableFailure _, _, h | .ret .., _, h | .cont .., _, h | .defer .., _, h => by
    simp [Inst.mentionsBreak] at h
  | .brk _ d, n, h => Or.inl h
  | .ifInst _ _ arms, n, h => blocksFindBreak_or_buriedBreak w arms n h
  | .switch _ _ arms, n, h => armsFindBreak_or_buriedBreak w arms n h
  | .scopedBlock _ b, n, h | .taskScope _ b, n, h => Or.inr h
  | .whileLoop _ c b, n, h | .doWhile _ c b, n, h => by
    simp only [Inst.mentionsBreak, Bool.or_eq_true] at h
    simp only [Inst.buriedBreak, Inst.findsBreak, Bool.or_eq_true]
    rcases h with h | h
    · exact Or.inr (Or.inl h)
    · exact (b.findsBreak_or_buriedBreak w (n + 1) h).imp_right Or.inr
  | .forLoop _ i c p b, n, h => by
    simp only [Inst.mentionsBreak, Bool.or_eq_true] at h
    simp only [Inst.buriedBreak, Inst.findsBreak, Bool.or_eq_true]
    rcases h with h | h
    · exact Or.inr (Or.inl h)
    · exact (b.findsBreak_or_buriedBreak w (n + 1) h).imp_right Or.inr

/-- A break in a block is found by a walk, or buried. -/
lemma Block.findsBreak_or_buriedBreak (w : Walk) : ∀ (b : Block) (n : Nat),
    b.mentionsBreak n = true → b.findsBreak w n = true ∨ b.buriedBreak n = true
  | .mk _ l, n, h => instsFindBreak_or_buriedBreak w l n h

/-- A break in a list of instructions is found by a walk, or buried. -/
lemma instsFindBreak_or_buriedBreak (w : Walk) : ∀ (l : List Inst) (n : Nat),
    instsMentionBreak l n = true → instsFindBreak w l n = true ∨ instsBuryBreak l n = true
  | [], _, h => Or.inl h
  | i :: l, n, h => by
    simp only [instsFindBreak, instsMentionBreak, instsBuryBreak, Bool.or_eq_true] at h ⊢
    rcases h with h | h
    · exact (i.findsBreak_or_buriedBreak w n h).imp Or.inl Or.inl
    · exact (instsFindBreak_or_buriedBreak w l n h).imp Or.inr Or.inr

/-- A break in the arms of an `If` is found by a walk, or buried. -/
lemma blocksFindBreak_or_buriedBreak (w : Walk) : ∀ (l : List Block) (n : Nat),
    blocksMentionBreak l n = true → blocksFindBreak w l n = true ∨ blocksBuryBreak l n = true
  | [], _, h => Or.inl h
  | b :: l, n, h => by
    simp only [blocksFindBreak, blocksMentionBreak, blocksBuryBreak, Bool.or_eq_true] at h ⊢
    rcases h with h | h
    · exact (b.findsBreak_or_buriedBreak w n h).imp Or.inl Or.inl
    · exact (blocksFindBreak_or_buriedBreak w l n h).imp Or.inr Or.inr

/-- A break in the arms of a `Switch` is found by a walk, or buried. -/
lemma armsFindBreak_or_buriedBreak (w : Walk) : ∀ (l : List (Int × Block)) (n : Nat),
    armsMentionBreak l n = true → armsFindBreak w l n = true ∨ armsBuryBreak l n = true
  | [], _, h => Or.inl h
  | (_, b) :: l, n, h => by
    simp only [armsFindBreak, armsMentionBreak, armsBuryBreak, Bool.or_eq_true] at h ⊢
    rcases h with h | h
    · exact (b.findsBreak_or_buriedBreak w n h).imp Or.inl Or.inl
    · exact (armsFindBreak_or_buriedBreak w l n h).imp Or.inr Or.inr

end

/-- Where no break is buried, every walk finds the breaks that are there. -/
lemma Block.findsBreak_eq_mentionsBreak (w : Walk) {b : Block} {n : Nat}
    (h : b.buriedBreak n = false) : b.findsBreak w n = b.mentionsBreak n := by
  rw [Bool.eq_iff_iff]
  refine ⟨b.mentionsBreak_of_findsBreak w n, fun hm => ?_⟩
  rcases b.findsBreak_or_buriedBreak w n hm with hf | hb
  · exact hf
  · rw [h] at hb
    cases hb

mutual

/-- A break that can be reached stands in the instruction. -/
lemma Inst.mentionsBreak_of_exits : ∀ (i : Inst) (n : Nat),
    i.exits (.brk n) = true → i.mentionsBreak n = true
  | .value _, _, h | .declareUninitialized .., _, h | .parameter .., _, h | .bindName .., _, h
  | .assign .., _, h | .extendTemporary .., _, h | .endFullExpression .., _, h | .other _, _, h
  | .unrecoverableFailure _, _, h | .ret .., _, h | .cont .., _, h | .defer .., _, h
  | .ifInst _ _ [], _, h => by simp [Inst.exits] at h
  | .brk _ d, n, h => by
    have hd : n = d := by simpa [Inst.exits] using h
    simp [Inst.mentionsBreak, hd]
  | .ifInst _ c [a], n, h => by
    have ha := a.mentionsBreak_of_exits n
    simp only [Inst.exits, Bool.or_eq_true, Bool.and_eq_true] at h
    rcases h with h | h
    · simp [Inst.mentionsBreak, blocksMentionBreak, ha h.2]
    · simp at h
  | .ifInst _ c (a :: b :: l), n, h => by
    have ha := a.mentionsBreak_of_exits n
    have hb := b.mentionsBreak_of_exits n
    simp only [Inst.exits, Bool.or_eq_true, Bool.and_eq_true] at h
    rcases h with h | h
    · simp [Inst.mentionsBreak, blocksMentionBreak, ha h.2]
    · simp [Inst.mentionsBreak, blocksMentionBreak, hb h.2]
  | .scopedBlock _ b, n, h | .taskScope _ b, n, h => by
    simp only [Inst.exits] at h
    exact b.mentionsBreak_of_exits n h
  | .switch _ _ arms, n, h => armsMentionBreak_of_exits arms n h
  | .whileLoop _ c b, n, h => by
    have hc := c.mentionsBreak_of_exits n
    have hb := b.mentionsBreak_of_exits (n + 1)
    simp only [Inst.exits, Exit.inner, Bool.or_eq_true, Bool.and_eq_true] at h
    rcases h with (h | h) | h
    · simp at h
    · simp [Inst.mentionsBreak, hc h.2]
    · simp [Inst.mentionsBreak, hb h.2]
  | .forLoop _ i c p b, n, h => by
    have hi := i.mentionsBreak_of_exits n
    have hc := c.mentionsBreak_of_exits n
    have hp := p.mentionsBreak_of_exits n
    have hb := b.mentionsBreak_of_exits (n + 1)
    simp only [Inst.exits, Exit.inner, Bool.or_eq_true, Bool.and_eq_true] at h
    rcases h with h | ⟨-, (h | h) | ⟨-, h | h⟩⟩
    · simp [Inst.mentionsBreak, hi h.2]
    · simp at h
    · simp [Inst.mentionsBreak, hc h.2]
    · simp [Inst.mentionsBreak, hb h]
    · simp [Inst.mentionsBreak, hp h.2]
  | .doWhile _ c b, n, h => by
    have hc := c.mentionsBreak_of_exits n
    have hb := b.mentionsBreak_of_exits (n + 1)
    simp only [Inst.exits, Exit.inner, Bool.or_eq_true, Bool.and_eq_true] at h
    rcases h with h | ⟨-, h | h⟩
    · simp [Inst.mentionsBreak, hb h]
    · simp at h
    · simp [Inst.mentionsBreak, hc h.2]

/-- A break that can be reached stands in the block. -/
lemma Block.mentionsBreak_of_exits : ∀ (b : Block) (n : Nat),
    b.exits (.brk n) = true → b.mentionsBreak n = true
  | .mk _ l, n, h => instsMentionBreak_of_exits l n h

/-- A break that can be reached stands in the instructions. -/
lemma instsMentionBreak_of_exits : ∀ (l : List Inst) (n : Nat),
    exitsList l (.brk n) = true → instsMentionBreak l n = true
  | [], _, h => by simp [exitsList] at h
  | i :: l, n, h => by
    have hi := i.mentionsBreak_of_exits n
    have hl := instsMentionBreak_of_exits l n
    cases i with
    | defer id d =>
      simp only [exitsList, Bool.and_eq_true] at h
      simp [instsMentionBreak, hl h.1]
    | _ =>
      simp only [exitsList, Bool.or_eq_true, Bool.and_eq_true] at h
      rcases h with h | h
      · simp [instsMentionBreak, hi h.2]
      · simp [instsMentionBreak, hl h.2]

/-- A break that can be reached stands in the arms of a `Switch`. -/
lemma armsMentionBreak_of_exits : ∀ (l : List (Int × Block)) (n : Nat),
    exitsArms l (.brk n) = true → armsMentionBreak l n = true
  | [], _, h => by simp [exitsArms] at h
  | (_, b) :: l, n, h => by
    simp only [exitsArms, armsMentionBreak, Bool.or_eq_true] at h ⊢
    exact h.imp (b.mentionsBreak_of_exits n) (armsMentionBreak_of_exits l n)

end

/-! ## Clear blocks -/

/-- The walk that looks into every block. -/
def Walk.everywhere : Walk := { scopedBlock := true, scopedBreak := true, taskBreak := true }

/-- No break to a loop with these blocks is buried, unless the loop can end by its condition. -/
def clearLoop (c b : Block) : Bool := !conditionIsAlwaysTrue c || !b.buriedBreak 0

mutual

/-- In the blocks that the fall-through walk may look into, every scoped block has a path to its
end and no buried break leaves an infinite loop. -/
def Inst.clear (never : InstId → Bool) : Inst → Bool
  | .scopedBlock _ b => b.fallsThrough .everywhere never && b.clear never
  | .taskScope _ b => b.clear never
  | .ifInst _ _ arms => blocksClear never arms
  | .switch _ _ arms => armsClear never arms
  | .whileLoop _ c b | .forLoop _ _ c _ b | .doWhile _ c b => clearLoop c b
  | _ => true

/-- A clear block. -/
def Block.clear (never : InstId → Bool) : Block → Bool
  | .mk _ l => instsClear never l

/-- A clear list of instructions, in which an instruction of type `never` does not complete. -/
def instsClear (never : InstId → Bool) : List Inst → Bool
  | [] => true
  | .defer id _ :: l => !never id && instsClear never l
  | i :: l => (!never i.id || !i.exits .normal) && i.clear never && instsClear never l

/-- Clear arms of an `If`. -/
def blocksClear (never : InstId → Bool) : List Block → Bool
  | [] => true
  | b :: l => b.clear never && blocksClear never l

/-- Clear arms of a `Switch`. -/
def armsClear (never : InstId → Bool) : List (Int × Block) → Bool
  | [] => true
  | (_, b) :: l => b.clear never && armsClear never l

end

/-- Without a buried break, every walk judges a loop alike. -/
lemma endless_eq (w w' : Walk) {c b : Block} (h : clearLoop c b = true) :
    endless w c b = endless w' c b := by
  simp only [clearLoop, Bool.or_eq_true, Bool.not_eq_true'] at h
  rcases h with h | h
  · simp [endless, h]
  · rw [endless, endless, Block.findsBreak_eq_mentionsBreak w h,
      Block.findsBreak_eq_mentionsBreak w' h]

mutual

/-- In a clear instruction every walk ends where the walk that looks everywhere ends. -/
lemma Inst.stops_eq (w : Walk) (never : InstId → Bool) : ∀ i : Inst, i.clear never = true →
    i.stops w never = i.stops .everywhere never
  | .value _, _ | .declareUninitialized .., _ | .parameter .., _ | .bindName .., _
  | .assign .., _ | .extendTemporary .., _ | .endFullExpression .., _ | .other _, _
  | .unrecoverableFailure _, _ | .ret .., _ | .brk .., _ | .cont .., _ | .defer .., _
  | .ifInst _ _ [], _ | .ifInst _ _ [_], _ | .ifInst _ _ (_ :: _ :: _ :: _), _ => by
    simp [Inst.stops]
  | .ifInst _ _ [a, b], h => by
    simp only [Inst.clear, blocksClear, Bool.and_eq_true] at h
    simp [Inst.stops, a.fallsThrough_eq w never h.1, b.fallsThrough_eq w never h.2.1]
  | .switch _ _ arms, h => by
    simp only [Inst.clear] at h
    simp [Inst.stops, noArmFallsThrough_eq w never arms h]
  | .scopedBlock _ b, h => by
    simp only [Inst.clear, Bool.and_eq_true] at h
    simp [Inst.stops, b.fallsThrough_eq w never h.2, h.1]
  | .taskScope _ b, h => by
    simp only [Inst.clear] at h
    simp [Inst.stops, b.fallsThrough_eq w never h]
  | .whileLoop _ c b, h | .forLoop _ _ c _ b, h | .doWhile _ c b, h => by
    simp only [Inst.clear] at h
    simp [Inst.stops, endless_eq w .everywhere h]

/-- In a clear block every walk gives the answer of the walk that looks everywhere. -/
lemma Block.fallsThrough_eq (w : Walk) (never : InstId → Bool) : ∀ b : Block,
    b.clear never = true → b.fallsThrough w never = b.fallsThrough .everywhere never
  | .mk _ l, h => instsFallThrough_eq w never l h

/-- The same for a list of instructions. -/
lemma instsFallThrough_eq (w : Walk) (never : InstId → Bool) : ∀ l : List Inst,
    instsClear never l = true →
      instsFallThrough w never l = instsFallThrough .everywhere never l
  | [], _ => rfl
  | i :: l, h => by
    have hi := i.stops_eq w never
    have hl := instsFallThrough_eq w never l
    cases i with
    | defer id d =>
      simp only [instsClear, Bool.and_eq_true] at h
      simp [instsFallThrough, Inst.stops, hl h.2]
    | _ =>
      simp only [instsClear, Bool.and_eq_true] at h
      simp only [instsFallThrough, hi h.1.2, hl h.2]

/-- The same for the arms of a `Switch`. -/
lemma noArmFallsThrough_eq (w : Walk) (never : InstId → Bool) : ∀ l : List (Int × Block),
    armsClear never l = true →
      noArmFallsThrough w never l = noArmFallsThrough .everywhere never l
  | [], _ => rfl
  | (_, b) :: l, h => by
    simp only [armsClear, Bool.and_eq_true] at h
    simp [noArmFallsThrough, b.fallsThrough_eq w never h.1, noArmFallsThrough_eq w never l h.2]

end

/-! ## Soundness -/

/-- A condition that is always true cannot be false. -/
lemma mayBe_of_conditionIsAlwaysTrue {c : Block} (h : conditionIsAlwaysTrue c = true) :
    c.mayBe false = false := by
  unfold conditionIsAlwaysTrue at h
  split at h
  · next i v hv =>
    rw [List.getLast?_eq_head?_reverse] at hv
    obtain ⟨l, hl⟩ : ∃ l, c.insts.reverse = .value (.boolLiteral i v) :: l := by
      cases hr : c.insts.reverse with
      | nil => simp [hr] at hv
      | cons a l =>
        rw [hr] at hv
        cases hv
        exact ⟨l, rfl⟩
    simp [Block.mayBe, Block.result?, hl, Value.mayBe, h]
  · exact absurd h (by simp)

/-- The body of an infinite loop without buried breaks is not left by a break to the loop. -/
lemma exits_brk_of_endless {w : Walk} {c b : Block} (hclear : clearLoop c b = true)
    (h : endless w c b = true) : c.mayBe false = false ∧ b.exits (.brk 0) = false := by
  simp only [endless, Bool.and_eq_true, Bool.not_eq_true'] at h
  refine ⟨mayBe_of_conditionIsAlwaysTrue h.1, ?_⟩
  have hburied : b.buriedBreak 0 = false := by simpa [clearLoop, h.1] using hclear
  rw [Block.findsBreak_eq_mentionsBreak w hburied] at h
  by_contra hx
  rw [b.mentionsBreak_of_exits 0 (by simpa using hx)] at h
  cases h.2

mutual

/-- An instruction at which the walk that looks everywhere ends does not complete. -/
lemma Inst.exits_normal_of_stops (never : InstId → Bool) : ∀ i : Inst, i.clear never = true →
    (never i.id = true → i.exits .normal = false) → i.stops .everywhere never = true →
    i.exits .normal = false
  | .value _, _, hn, h | .declareUninitialized .., _, hn, h | .parameter .., _, hn, h
  | .bindName .., _, hn, h | .assign .., _, hn, h | .extendTemporary .., _, hn, h
  | .endFullExpression .., _, hn, h | .other _, _, hn, h | .ifInst _ _ [_], _, hn, h => by
    simp only [Inst.stops] at h
    exact hn h
  | .unrecoverableFailure _, _, _, _ | .ret .., _, _, _ | .brk .., _, _, _ | .cont .., _, _, _
  | .defer .., _, _, _ | .ifInst _ _ [], _, _, _ => rfl
  | .ifInst _ _ (_ :: _ :: _ :: _), _, hn, h => by
    simp only [Inst.stops] at h
    exact hn h
  | .ifInst id c [a, b], hc, hn, h => by
    simp only [Inst.clear, blocksClear, Bool.and_eq_true] at hc
    simp only [Inst.stops, Bool.or_eq_true, Bool.and_eq_true, Bool.not_eq_true'] at h
    rcases h with h | h
    · exact hn h
    · simp [Inst.exits, a.exits_normal_of_fallsThrough never hc.1 h.1,
        b.exits_normal_of_fallsThrough never hc.2.1 h.2]
  | .switch id v arms, hc, hn, h => by
    simp only [Inst.clear] at hc
    simp only [Inst.stops, Bool.or_eq_true, Bool.and_eq_true] at h
    rcases h with h | h
    · exact hn h
    · exact exitsArms_normal_of_fallsThrough never arms hc h.2
  | .scopedBlock id b, hc, hn, h => by
    simp only [Inst.clear, Bool.and_eq_true] at hc
    simp only [Inst.stops, hc.1, Bool.or_eq_true, Bool.and_eq_true] at h
    rcases h with h | h
    · exact hn h
    · simp at h
  | .taskScope id b, hc, hn, h => by
    simp only [Inst.clear] at hc
    simp only [Inst.stops, Bool.or_eq_true, Bool.not_eq_true'] at h
    rcases h with h | h
    · exact hn h
    · exact b.exits_normal_of_fallsThrough never hc h
  | .whileLoop id c b, hc, hn, h => by
    simp only [Inst.clear] at hc
    simp only [Inst.stops, Bool.or_eq_true] at h
    rcases h with h | h
    · exact hn h
    · obtain ⟨hm, hb⟩ := exits_brk_of_endless hc h
      simp [Inst.exits, Exit.inner, hm, hb]
  | .forLoop id i c p b, hc, hn, h => by
    simp only [Inst.clear] at hc
    simp only [Inst.stops, Bool.or_eq_true] at h
    rcases h with h | h
    · exact hn h
    · obtain ⟨hm, hb⟩ := exits_brk_of_endless hc h
      simp [Inst.exits, Exit.inner, hm, hb]
  | .doWhile id c b, hc, hn, h => by
    simp only [Inst.clear] at hc
    simp only [Inst.stops, Bool.or_eq_true] at h
    rcases h with h | h
    · exact hn h
    · obtain ⟨hm, hb⟩ := exits_brk_of_endless hc h
      simp [Inst.exits, Exit.inner, hm, hb]

/-- A clear block that does not fall through is not left at its end. -/
lemma Block.exits_normal_of_fallsThrough (never : InstId → Bool) : ∀ b : Block,
    b.clear never = true → b.fallsThrough .everywhere never = false → b.exits .normal = false
  | .mk _ l, hc, h => exitsList_normal_of_fallsThrough never l hc h

/-- The same for a list of instructions. -/
lemma exitsList_normal_of_fallsThrough (never : InstId → Bool) : ∀ l : List Inst,
    instsClear never l = true → instsFallThrough .everywhere never l = false →
    exitsList l .normal = false
  | [], _, h => by simp [instsFallThrough] at h
  | i :: l, hc, h => by
    have hi := i.exits_normal_of_stops never
    have hl := exitsList_normal_of_fallsThrough never l
    cases i with
    | defer id d =>
      simp only [instsClear, Bool.and_eq_true, Bool.not_eq_true'] at hc
      simp only [instsFallThrough, Inst.stops, hc.1, Bool.not_false, Bool.true_and] at h
      simp [exitsList, hl hc.2 h]
    | _ =>
      simp only [instsClear, Bool.and_eq_true, Bool.or_eq_true, Bool.not_eq_true'] at hc
      simp only [instsFallThrough, Bool.and_eq_false_iff, Bool.not_eq_false'] at h
      rcases h with h | h
      · have hx := hi hc.1.2 (fun hn => hc.1.1.resolve_left (by simp [hn])) h
        simp [exitsList, hx]
      · simp [exitsList, hl hc.2 h]

/-- The same for the arms of a `Switch`. -/
lemma exitsArms_normal_of_fallsThrough (never : InstId → Bool) : ∀ l : List (Int × Block),
    armsClear never l = true → noArmFallsThrough .everywhere never l = true →
    exitsArms l .normal = false
  | [], _, _ => rfl
  | (_, b) :: l, hc, h => by
    simp only [armsClear, Bool.and_eq_true] at hc
    simp only [noArmFallsThrough, Bool.and_eq_true, Bool.not_eq_true'] at h
    simp [exitsArms, b.exits_normal_of_fallsThrough never hc.1 h.1,
      exitsArms_normal_of_fallsThrough never l hc.2 h.2]

end

/-- A block whose end is not one of its exits is never left at its end. -/
lemma Block.neverEnds_of_exits {b : Block} (h : b.exits .normal = false) : b.NeverEnds := by
  intro σ M s t s' r
  have hx : (Frag.block b).exits .normal = true := r.exits (by simp)
  rw [Frag.exits, h] at hx
  cases hx

/-- `while (true) { if (c) { break 1; } else { continue; } }` inside an infinite loop with a scoped
block that can be passed. -/
def nestedLoops : Block :=
  .mk 0 [.whileLoop 0 (.mk 1 [.value (.boolLiteral 1 true)]) (.mk 2 [
    .scopedBlock 2 (.mk 3 [.other 3]),
    .whileLoop 4 (.mk 4 [.value (.boolLiteral 5 true)]) (.mk 5 [
      .ifInst 6 (.nameRef 7 0) [.mk 6 [.brk 8 0], .mk 7 [.cont 9 1]]])])]

end Chtholly
