import Mathlib.Data.List.Basic

set_option autoImplicit false

/-!
# The semantic IR

The structured intermediate representation that the semantic checker hands to the ownership
analyses and to the lowering (`SemIR.h`, `SemIRKind.def`). A function body is a tree: a block is a
list of instructions and the control instructions carry their blocks. The source keeps
instructions and blocks in arenas and refers to them by index; here the tree holds them directly
and every instruction and block still carries its index, since the analyses key their tables by it.

An operand of the source is the index of an instruction that was executed before; here it is the
`Value` that this instruction computes, again with its index.

## Main definitions

* `Chtholly.SemType`, `Chtholly.TypeRepresentation` — one level of a type, and what the ownership
  analyses ask of it.
* `Chtholly.Value` — the instructions that compute a value or denote a place.
* `Chtholly.Inst`, `Chtholly.Block` — instructions and code blocks.
-/

namespace Chtholly

/-- Index of an instruction. -/
abbrev InstId := Nat

/-- Index of a code block. -/
abbrev InstBlockId := Nat

/-- Index of a local variable, parameter or temporary. -/
abbrev LocalId := Nat

/-- Index of a type. -/
abbrev TypeId := Nat

/-- Index of a reference to a callee. -/
abbrev FunctionRefId := Nat

/-! ## Types -/

/-- `OwnershipReprKind`. -/
inductive OwnershipReprKind where
  | none | borrowed | owned | dependent
  deriving DecidableEq, Repr

/-- `CopyReprKind`. -/
inductive CopyReprKind where
  | none | trivial | custom | unavailable | dependent
  deriving DecidableEq, Repr

/-- `MoveReprKind`. -/
inductive MoveReprKind where
  | none | trivial | unavailable | dependent
  deriving DecidableEq, Repr

/-- `DestroyReprKind`. -/
inductive DestroyReprKind where
  | none | trivial | custom | dependent
  deriving DecidableEq, Repr

/-- The facts of `TypeRepresentationFacts` that the ownership analyses read. -/
structure TypeRepresentation where
  ownership : OwnershipReprKind := .none
  copy : CopyReprKind := .none
  move : MoveReprKind := .none
  destroy : DestroyReprKind := .none
  deriving DecidableEq, Repr

/-- `NominalKind`. -/
inductive NominalKind where
  | struct | union | enum | foreignHandle | foreignResource
  deriving DecidableEq, Repr

/-- A field of a nominal type: its type, and whether its projection has a stable address
(`PublicObjectProjectionKind::StableAddress`). -/
structure NominalField where
  type : TypeId
  stableAddress : Bool := true
  deriving DecidableEq, Repr

/-- One level of a type (`SemType`). The kinds without structure that the ownership analyses look
into are `other`. -/
inductive SemType where
  | nominal (kind : NominalKind) (fields : List NominalField) (variants : List (List TypeId))
  | array (element : TypeId) (count : Nat)
  | tuple (elements : List TypeId)
  | slice (element : TypeId)
  | reference (pointee : TypeId) (mutable_ : Bool)
  | rawPointer (pointee : TypeId)
  | other
  deriving DecidableEq, Repr

/-! ## Values -/

/-- The instructions that compute a value or denote a place, with the operands they were built
from. `other` stands for the kinds none of the modelled analyses distinguishes. -/
inductive Value where
  | nameRef (id : InstId) (loc : LocalId)
  | initializePlace (id : InstId) (loc : LocalId) (type : TypeId)
  | structFieldAccess (id : InstId) (base : Value) (field : Int) (type : TypeId)
  | unionFieldAccess (id : InstId) (base : Value) (field : Int) (type : TypeId)
  | enumPayloadAccess (id : InstId) (base : Value) (field variant : Nat) (type : TypeId)
  | index (id : InstId) (base position : Value) (type : TypeId)
  | dereference (id : InstId) (base : Value)
  | carrierView (id : InstId) (base : Value) (type : TypeId)
  | move (id : InstId) (operand : Value)
  | copy (id : InstId) (operand : Value)
  | borrowLocal (id : InstId) (loc : LocalId) (type : TypeId)
  | borrowPlace (id : InstId) (operand : Value) (type : TypeId)
  | materializeTemporary (id : InstId) (loc : LocalId) (operand : Value)
  | placement (id : InstId) (target operand : Value) (type : TypeId)
  | call (id : InstId) (callee : FunctionRefId) (arguments : List Value) (type : TypeId)
  | integerLiteral (id : InstId) (value : Int)
  | boolLiteral (id : InstId) (value : Bool)
  | callbackRegistrationBinding (id : InstId) (callback : Value)
  | logicalNot (id : InstId) (operand : Value)
  | logicalAnd (id : InstId) (lhs rhs : Value)
  | logicalOr (id : InstId) (lhs rhs : Value)
  | enumInit (id : InstId) (fields : List Value) (variant : Int) (type : TypeId)
  | unionInit (id : InstId) (operand : Value) (member : Int) (type : TypeId)
  | aggregateInit (id : InstId) (fields : List Value) (type : TypeId)
  | arrayLiteral (id : InstId) (elements : List Value) (type : TypeId)
  | other (id : InstId) (operands : List Value) (type : TypeId)

/-- The index of the instruction that computes a value. -/
def Value.id : Value → InstId
  | .nameRef i _ | .initializePlace i .. | .structFieldAccess i .. | .unionFieldAccess i ..
  | .enumPayloadAccess i .. | .index i .. | .dereference i _ | .carrierView i ..
  | .move i _ | .copy i _ | .borrowLocal i .. | .borrowPlace i .. | .materializeTemporary i ..
  | .placement i .. | .call i .. | .integerLiteral i _ | .boolLiteral i _
  | .callbackRegistrationBinding i _ | .logicalNot i _ | .logicalAnd i .. | .logicalOr i ..
  | .enumInit i .. | .unionInit i .. | .aggregateInit i .. | .arrayLiteral i .. | .other i .. => i

/-! ## Instructions and blocks -/

/-- The instructions that leave a function: `Return` and the three coroutine returns. -/
inductive ReturnKind where
  | ret | coroutineSuccess | coroutineError | coroutineCancelled
  deriving DecidableEq, Repr

mutual

/-- An instruction. `value` executes the instruction of a value; `other` stands for the
straight-line kinds none of the modelled analyses distinguishes; the distance of `brk` and `cont`
is the number of enclosing loops the edge skips. -/
inductive Inst where
  | value (v : Value)
  | declareUninitialized (id : InstId) (loc : LocalId)
  | parameter (id : InstId) (loc : LocalId)
  | bindName (id : InstId) (loc : LocalId) (v : Value)
  | assign (id : InstId) (target v : Value)
  | extendTemporary (id : InstId) (v : Value)
  | endFullExpression (id : InstId) (temporaries : List LocalId)
  | unrecoverableFailure (id : InstId)
  | other (id : InstId)
  | ret (id : InstId) (kind : ReturnKind) (v : Value)
  | brk (id : InstId) (distance : Nat)
  | cont (id : InstId) (distance : Nat)
  | defer (id : InstId) (body : Block)
  | ifInst (id : InstId) (condition : Value) (arms : List Block)
  | scopedBlock (id : InstId) (body : Block)
  | taskScope (id : InstId) (body : Block)
  | whileLoop (id : InstId) (condition body : Block)
  | forLoop (id : InstId) (init condition step body : Block)
  | doWhile (id : InstId) (condition body : Block)
  | switch (id : InstId) (scrutinee : Value) (arms : List (Int × Block))

/-- A code block. -/
inductive Block where
  | mk (id : InstBlockId) (insts : List Inst)

end

/-- The index of a block. -/
def Block.id : Block → InstBlockId
  | .mk i _ => i

/-- The instructions of a block. -/
def Block.insts : Block → List Inst
  | .mk _ l => l

@[simp] lemma Block.insts_mk (i : InstBlockId) (l : List Inst) : (Block.mk i l).insts = l := rfl

/-- The index of an instruction. -/
def Inst.id : Inst → InstId
  | .value v => v.id
  | .declareUninitialized i _ | .parameter i _ | .bindName i .. | .assign i ..
  | .extendTemporary i _ | .endFullExpression i _ | .unrecoverableFailure i | .other i
  | .ret i .. | .brk i _ | .cont i _ | .defer i _ | .ifInst i .. | .scopedBlock i _
  | .taskScope i _ | .whileLoop i .. | .forLoop i .. | .doWhile i .. | .switch i .. => i

/-- The instructions that carry no block and do not transfer control. -/
def Inst.straightLine : Inst → Bool
  | .value _ | .declareUninitialized .. | .parameter .. | .bindName .. | .assign ..
  | .extendTemporary .. | .endFullExpression .. | .other _ => true
  | _ => false

/-- `semanticBlockResult`: the instruction whose value is the result of a block, the last one, or
the one before a closing `EndFullExpression`. -/
def Block.result? (b : Block) : Option Inst :=
  match b.insts.reverse with
  | .endFullExpression .. :: i :: _ => some i
  | i :: _ => some i
  | [] => none

/-- The blocks that an instruction carries. -/
def Inst.blocks : Inst → List Block
  | .defer _ b | .scopedBlock _ b | .taskScope _ b => [b]
  | .ifInst _ _ arms => arms
  | .whileLoop _ c b | .doWhile _ c b => [c, b]
  | .forLoop _ i c p b => [i, c, p, b]
  | .switch _ _ arms => arms.map (·.2)
  | _ => []

/-- The blocks of an instruction are smaller than the instruction. -/
lemma Inst.sizeOf_blocks {i : Inst} {b : Block} (h : b ∈ i.blocks) : sizeOf b < sizeOf i := by
  cases i with
  | ifInst id c arms =>
    have hlt := List.sizeOf_lt_of_mem h
    simp only [Inst.blocks] at hlt
    simp only [Inst.ifInst.sizeOf_spec]
    omega
  | switch id v arms =>
    simp only [Inst.blocks, List.mem_map] at h
    obtain ⟨a, ha, rfl⟩ := h
    have h₁ := List.sizeOf_lt_of_mem ha
    have h₂ : sizeOf a.2 < sizeOf a := by
      cases a
      simp only [Prod.mk.sizeOf_spec]
      omega
    simp only [Inst.switch.sizeOf_spec]
    omega
  | defer id d | scopedBlock id d | taskScope id d =>
    obtain rfl : b = d := by simpa [Inst.blocks] using h
    simp only [Inst.defer.sizeOf_spec, Inst.scopedBlock.sizeOf_spec, Inst.taskScope.sizeOf_spec]
    omega
  | whileLoop id c d | doWhile id c d =>
    simp only [Inst.blocks, List.mem_cons, List.not_mem_nil, or_false] at h
    rcases h with rfl | rfl
    · simp only [Inst.whileLoop.sizeOf_spec, Inst.doWhile.sizeOf_spec]
      omega
    · simp only [Inst.whileLoop.sizeOf_spec, Inst.doWhile.sizeOf_spec]
      omega
  | forLoop id c d e f =>
    simp only [Inst.blocks, List.mem_cons, List.not_mem_nil, or_false] at h
    simp only [Inst.forLoop.sizeOf_spec]
    rcases h with rfl | rfl | rfl | rfl
    · omega
    · omega
    · omega
    · omega
  | _ => simp [Inst.blocks] at h

/-- **Induction on blocks**: a property holds of every block if it holds of a block whenever it
holds of the blocks that its instructions carry. -/
theorem Block.induction {P : Block → Prop}
    (h : ∀ b : Block, (∀ i ∈ b.insts, ∀ c ∈ i.blocks, P c) → P b) (b : Block) : P b :=
  h b fun i hi c hc => by
    have h₁ := Inst.sizeOf_blocks hc
    have h₂ := List.sizeOf_lt_of_mem hi
    have h₃ : sizeOf b.insts < sizeOf b := by
      cases b with
      | mk id l =>
        simp only [Block.insts_mk, Block.mk.sizeOf_spec]
        omega
    exact Block.induction h c
termination_by sizeOf b

mutual

/-- The indices of the instructions in the blocks that an instruction carries. -/
def Inst.nestedIds : Inst → List InstId
  | .defer _ b | .scopedBlock _ b | .taskScope _ b => b.ids
  | .ifInst _ _ arms => blocksIds arms
  | .whileLoop _ c b | .doWhile _ c b => c.ids ++ b.ids
  | .forLoop _ i c p b => i.ids ++ c.ids ++ p.ids ++ b.ids
  | .switch _ _ arms => armsIds arms
  | _ => []

/-- The indices of the instructions of a block, those in nested blocks included. -/
def Block.ids : Block → List InstId
  | .mk _ l => instsIds l

/-- The indices of the instructions of a list and of their nested blocks. -/
def instsIds : List Inst → List InstId
  | [] => []
  | i :: l => i.id :: i.nestedIds ++ instsIds l

/-- The indices of the instructions in the arms of an `If`. -/
def blocksIds : List Block → List InstId
  | [] => []
  | b :: l => b.ids ++ blocksIds l

/-- The indices of the instructions in the arms of a `Switch`. -/
def armsIds : List (Int × Block) → List InstId
  | [] => []
  | (_, b) :: l => b.ids ++ armsIds l

end

lemma Block.ids_eq (b : Block) : b.ids = instsIds b.insts := by
  cases b with
  | mk id l => simp [Block.ids]

lemma mem_blocksIds {l : List Block} {x : InstId} : x ∈ blocksIds l ↔ ∃ b ∈ l, x ∈ b.ids := by
  induction l with
  | nil => simp [blocksIds]
  | cons b l ih => simp [blocksIds, ih]

lemma mem_armsIds {l : List (Int × Block)} {x : InstId} :
    x ∈ armsIds l ↔ ∃ a ∈ l, x ∈ a.2.ids := by
  induction l with
  | nil => simp [armsIds]
  | cons a l ih =>
    obtain ⟨k, b⟩ := a
    simp [armsIds, ih]

/-- The indices in the blocks of an instruction. -/
lemma Inst.mem_nestedIds {i : Inst} {x : InstId} :
    x ∈ i.nestedIds ↔ ∃ b ∈ i.blocks, x ∈ b.ids := by
  cases i with
  | switch id v arms =>
    simp only [Inst.nestedIds, Inst.blocks, mem_armsIds, List.mem_map]
    constructor
    · rintro ⟨a, ha, hx⟩
      exact ⟨a.2, ⟨a, ha, rfl⟩, hx⟩
    · rintro ⟨_, ⟨a, ha, rfl⟩, hx⟩
      exact ⟨a, ha, hx⟩
  | _ => simp [Inst.nestedIds, Inst.blocks, mem_blocksIds]

/-- An index of a list is that of an instruction of the list or of one that such an instruction
carries. -/
lemma mem_instsIds {l : List Inst} {x : InstId} :
    x ∈ instsIds l ↔ ∃ i ∈ l, x = i.id ∨ x ∈ i.nestedIds := by
  induction l with
  | nil => simp [instsIds]
  | cons i l ih => simp [instsIds, ih, or_assoc]

end Chtholly
