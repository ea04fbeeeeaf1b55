import Chtholly.SemIR.Syntax

set_option autoImplicit false

/-!
# The instructions and the locals of a body

A body flattened into the list of its instructions, in the order in which the place-state analysis
goes through them, and the locals that the instructions mention.

## Main definitions

* `Chtholly.Value.locals`, `Chtholly.Inst.locals` — the locals in the operands of an instruction.
* `Chtholly.Inst.quiet` — the instructions without deferred blocks, temporaries and calls.
* `Chtholly.Block.instructions` — all instructions of a block, those of nested blocks included.
* `Chtholly.declaresFirst` — a local that is declared without a value is not mentioned before.
-/

namespace Chtholly

mutual

/-- The locals in a value. -/
def Value.locals : Value → List LocalId
  | .nameRef _ l | .initializePlace _ l _ | .borrowLocal _ l _ => [l]
  | .structFieldAccess _ b _ _ | .unionFieldAccess _ b _ _ | .enumPayloadAccess _ b _ _ _
  | .dereference _ b | .carrierView _ b _ | .move _ b | .copy _ b | .borrowPlace _ b _
  | .callbackRegistrationBinding _ b | .logicalNot _ b | .unionInit _ b _ _ => b.locals
  | .index _ b p _ => b.locals ++ p.locals
  | .materializeTemporary _ l b => l :: b.locals
  | .placement _ t b _ => t.locals ++ b.locals
  | .logicalAnd _ b c | .logicalOr _ b c => b.locals ++ c.locals
  | .call _ _ l _ | .enumInit _ l _ _ | .aggregateInit _ l _ | .arrayLiteral _ l _
  | .other _ l _ => valuesLocals l
  | .integerLiteral .. | .boolLiteral .. => []

/-- The locals in a list of values. -/
def valuesLocals : List Value → List LocalId
  | [] => []
  | v :: l => v.locals ++ valuesLocals l

end

/-- The value is not, through moves and copies, the result of a store that may fail. -/
def Value.plain : Value → Bool
  | .move _ v | .copy _ v => v.plain
  | .placement .. => false
  | _ => true

/-- The instruction calls no function, makes no store that may fail and ends no temporary, and
deferred blocks are not registered by it. -/
def Inst.quiet : Inst → Bool
  | .value (.call ..) | .value (.placement ..) | .defer .. | .endFullExpression .. => false
  | .bindName _ _ v | .switch _ v _ => v.plain
  | _ => true

/-- The locals that an instruction mentions itself, outside of its blocks. -/
def Inst.locals : Inst → List LocalId
  | .value v | .extendTemporary _ v | .ret _ _ v | .ifInst _ v _ | .switch _ v _ => v.locals
  | .declareUninitialized _ l | .parameter _ l => [l]
  | .bindName _ l v => l :: v.locals
  | .assign _ t v => t.locals ++ v.locals
  | .endFullExpression _ ls => ls
  | _ => []

mutual

/-- The instructions in the blocks that an instruction carries, in the order of the analysis. -/
def Inst.nested : Inst → List Inst
  | .defer _ b | .scopedBlock _ b | .taskScope _ b => b.instructions
  | .ifInst _ _ arms => blocksInstructions arms
  | .whileLoop _ c b => c.instructions ++ b.instructions
  | .doWhile _ c b => b.instructions ++ c.instructions
  | .forLoop _ i c p b =>
    i.instructions ++ (c.instructions ++ (b.instructions ++ p.instructions))
  | .switch _ _ arms => armsInstructions arms
  | _ => []

/-- The instructions of a block, each followed by those in its blocks. -/
def Block.instructions : Block → List Inst
  | .mk _ l => instsInstructions l

/-- The instructions of a list, each followed by those in its blocks. -/
def instsInstructions : List Inst → List Inst
  | [] => []
  | i :: l => i :: (i.nested ++ instsInstructions l)

/-- The instructions in the arms of an `If`. -/
def blocksInstructions : List Block → List Inst
  | [] => []
  | b :: l => b.instructions ++ blocksInstructions l

/-- The instructions in the arms of a `Switch`. -/
def armsInstructions : List (Int × Block) → List Inst
  | [] => []
  | (_, b) :: l => b.instructions ++ armsInstructions l

end

@[simp] lemma Block.instructions_eq (b : Block) :
    b.instructions = instsInstructions b.insts := by
  cases b with
  | mk id l => rw [Block.instructions, Block.insts_mk]

/-- The locals that a list of instructions mentions. -/
def mentioned (l : List Inst) : List LocalId := l.flatMap Inst.locals

@[simp] lemma mentioned_nil : mentioned [] = [] := rfl

@[simp] lemma mentioned_cons (i : Inst) (l : List Inst) :
    mentioned (i :: l) = i.locals ++ mentioned l := by simp [mentioned]

@[simp] lemma mentioned_append (l m : List Inst) :
    mentioned (l ++ m) = mentioned l ++ mentioned m := by simp [mentioned]

/-- No local that a `DeclareUninitialized` of the list declares is in `seen` or mentioned before it.
The semantic checker gives every declaration a local of its own, and its scope starts there. -/
def declaresFirst (seen : List LocalId) : List Inst → Bool
  | [] => true
  | i :: l =>
    (match i with
      | .declareUninitialized _ x => !seen.contains x
      | _ => true) && declaresFirst (seen ++ i.locals) l

lemma declaresFirst_append (seen : List LocalId) (l m : List Inst) :
    declaresFirst seen (l ++ m) = true ↔
      declaresFirst seen l = true ∧ declaresFirst (seen ++ mentioned l) m = true := by
  induction l generalizing seen with
  | nil => simp [declaresFirst]
  | cons i l ih =>
    simp only [List.cons_append, declaresFirst, Bool.and_eq_true, ih, mentioned_cons,
      List.append_assoc, and_assoc]

end Chtholly
