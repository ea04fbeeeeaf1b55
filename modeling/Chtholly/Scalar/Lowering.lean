import Chtholly.Scalar.Integers

/-!
# The code that is emitted for integer operators

What the code of `LowBuiltinUnary` and `LowBuiltinBinary` does when it runs: it ends in
`chtholly_next_runtime_v1_trap_arithmetic` with a reason, or it has a value.  No code is emitted
where the lowering returns a null pointer.

## Main definitions

* `Scalar.Emitted` — what the code does.
* `Scalar.lowerBuiltinUnary`, `Scalar.lowerBuiltinBinary` — the lowering of the operators.
-/

set_option autoImplicit false

namespace Chtholly

namespace Scalar

/-- A value of the code: an integer, an `i1`, or the storage of an `Ordering` with its tag. -/
inductive LLVMValue
  | integer {width : ℕ} (bits : BitVec width)
  | boolean (value : Bool)
  | ordering (tag : ℕ)

/-- The call of the trap with its reason, or the value. -/
abbrev Emitted := Except ℕ LLVMValue

/-- `emitArithmeticTrap`: the code after `done` runs when the condition does not hold. -/
def emitArithmeticTrap (condition : Bool) (reason : ℕ) (done : Emitted) : Emitted :=
  if condition then .error reason else done

def checkedIntegerBinary {w : ℕ} (operation : OverflowOperation) (isSigned : Bool)
    (left right : BitVec w) : Emitted :=
  let pair := withOverflow operation isSigned left right
  emitArithmeticTrap pair.2 7 (.ok (.integer pair.1))

def lowerBuiltinUnary (operation : BuiltinOperatorKind) (operand : Integer) : Option Emitted :=
  match operation with
  | .positive => some (.ok (.integer operand.bits))
  | .negate =>
    some (checkedIntegerBinary .subtract operand.type.isSigned (0 : BitVec operand.type.width) operand.bits)
  | .bitNot => some (.ok (.integer (~~~operand.bits)))
  | _ => none

/-- `variants[expected]` after the loops over the variants and the names. -/
def orderingTag (variants : List SemEnumVariant) (name : String) : ℕ :=
  variants.zipIdx.foldl (fun tag entry => if entry.1.name == name then entry.2 else tag) 0

/-- `lowerOrdering` on integers, where `unordered` is false. -/
def lowerOrdering (type : IntegerType) (ordering : OrderingVariants)
    (left right : BitVec type.width) : Emitted :=
  let unordered := false
  let less := if type.isSigned then left.slt right else left.ult right
  let greater := if type.isSigned then right.slt left else right.ult left
  .ok (.ordering
    (if unordered then orderingTag ordering.variants "Unordered"
      else if less then orderingTag ordering.variants "Less"
      else if greater then orderingTag ordering.variants "Greater"
      else orderingTag ordering.variants "Equal"))

/-- The case of `Divide` and `Remainder`. -/
def lowerDivision (divide : Bool) (type : IntegerType) (left right : BitVec type.width) : Emitted :=
  emitArithmeticTrap (right == 0) (if divide then 1 else 2) <|
    let value := Except.ok (LLVMValue.integer
      (if divide then (if type.isSigned then left.sdiv right else left.udiv right)
        else (if type.isSigned then left.srem right else left.umod right)))
    if type.isSigned then
      emitArithmeticTrap (left == BitVec.intMin type.width && right == BitVec.allOnes type.width) 3
        value
    else value

/-- The case of `ShiftLeft` and `ShiftRight`.  The width of the left operand is a constant of the
type of the count. -/
def lowerShift (toLeft : Bool) (type : IntegerType) (left : BitVec type.width) (right : Integer) :
    Emitted :=
  let invalid := (BitVec.ofNat right.type.width type.width).ule right.bits
  let invalid :=
    if right.type.isSigned then invalid || right.bits.slt (0 : BitVec right.type.width) else invalid
  emitArithmeticTrap invalid 4 <|
    let count := right.bits.setWidth type.width
    if toLeft then
      let result := left <<< count
      let roundTrip := if type.isSigned then result.sshiftRight' count else result >>> count
      emitArithmeticTrap (roundTrip != left) 7 (.ok (.integer result))
    else .ok (.integer (if type.isSigned then left.sshiftRight' count else left >>> count))

def lowerBuiltinBinary (operation : BuiltinOperatorKind) (type : IntegerType)
    (left : BitVec type.width) (right : RightOperand type operation)
    (ordering : OrderingVariants) : Option Emitted :=
  match operation, right with
  | .threeWay, right => some (lowerOrdering type ordering left right)
  | .add, right => some (checkedIntegerBinary .add type.isSigned left right)
  | .subtract, right => some (checkedIntegerBinary .subtract type.isSigned left right)
  | .multiply, right => some (checkedIntegerBinary .multiply type.isSigned left right)
  | .divide, right => some (lowerDivision true type left right)
  | .remainder, right => some (lowerDivision false type left right)
  | .shiftLeft, right => some (lowerShift true type left right)
  | .shiftRight, right => some (lowerShift false type left right)
  | .bitAnd, right => some (.ok (.integer (left &&& right)))
  | .bitXor, right => some (.ok (.integer (left ^^^ right)))
  | .bitOr, right => some (.ok (.integer (left ||| right)))
  | .equal, right => some (.ok (.boolean (left == right)))
  | .notEqual, right => some (.ok (.boolean (left != right)))
  | .less, right =>
    some (.ok (.boolean (if type.isSigned then left.slt right else left.ult right)))
  | .lessEqual, right =>
    some (.ok (.boolean (if type.isSigned then left.sle right else left.ule right)))
  | .greater, right =>
    some (.ok (.boolean (if type.isSigned then right.slt left else right.ult left)))
  | .greaterEqual, right =>
    some (.ok (.boolean (if type.isSigned then right.sle left else right.ule left)))
  | .positive, _ | .negate, _ | .bitNot, _ => none

end Scalar

end Chtholly
