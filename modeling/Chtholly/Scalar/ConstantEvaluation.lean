import Chtholly.Scalar.Integers

/-!
# The constant evaluator on integers

`evaluateUnary` and `evaluateIntegerBinary`, from the point where the operands are known.

## Main definitions

* `Scalar.ConstantEvaluationFailure`, `Scalar.ConstantValue` — what an evaluation ends with.
* `Scalar.evaluateUnary`, `Scalar.evaluateIntegerBinary` — the operators.
-/

set_option autoImplicit false

namespace Chtholly

namespace Scalar

/-- The failures of an operator; those of the walk through an expression are left out. -/
inductive ConstantEvaluationFailure
  | invalidOperation
  | overflow
  | divisionByZero
  | remainderByZero
  | shiftOutOfRange
  deriving DecidableEq, Repr

inductive ConstantValueKind
  | integer
  | bool
  | enum
  deriving DecidableEq, Repr

structure TypeId where
  index : ℕ
  deriving DecidableEq, Repr

/-- An interned constant; the payload of an integer is its bits, without a sign. -/
structure ConstantValue where
  kind : ConstantValueKind
  type : TypeId
  payload : ℕ
  deriving DecidableEq, Repr

/-- A result and its overflow flag. -/
def addChecked {w : ℕ} (resultType : TypeId) (result : BitVec w × Bool) :
    Except ConstantEvaluationFailure ConstantValue :=
  if result.2 then .error .overflow
  else .ok { kind := .integer, type := resultType, payload := result.1.toNat }

def addComparison (resultType : TypeId) (value : Bool) :
    Except ConstantEvaluationFailure ConstantValue :=
  .ok { kind := .bool, type := resultType, payload := if value then 1 else 0 }

/-- The index of the first variant without a payload that has the name of the ordering. -/
def addOrdering (resultType : TypeId) (ordering : OrderingVariants) (name : String) :
    Except ConstantEvaluationFailure ConstantValue :=
  match ordering.variants.findIdx? fun variant => variant.shape == .unit && variant.name == name with
  | some index => .ok { kind := .enum, type := resultType, payload := index }
  | none => .error .invalidOperation

def evaluateUnary (operation : BuiltinOperatorKind) (operand : Integer) (resultType : TypeId) :
    Except ConstantEvaluationFailure ConstantValue :=
  match operation with
  | .negate =>
    addChecked resultType
      (withOverflow .subtract operand.type.isSigned (0 : BitVec operand.type.width) operand.bits)
  | .bitNot => addChecked resultType (~~~operand.bits, false)
  | .positive => addChecked resultType (operand.bits, false)
  | _ => .error .invalidOperation

/-- The case of `Divide` and `Remainder`. -/
def evaluateDivision (divide : Bool) (type : IntegerType) (left right : BitVec type.width)
    (resultType : TypeId) : Except ConstantEvaluationFailure ConstantValue :=
  if right = 0 then
    .error (if divide then .divisionByZero else .remainderByZero)
  else if type.isSigned && (left == BitVec.intMin type.width && right == BitVec.allOnes type.width)
  then .error .overflow
  else
    addChecked resultType
      (if divide then (if type.isSigned then left.sdiv right else left.udiv right)
        else (if type.isSigned then left.srem right else left.umod right), false)

/-- The case of `ShiftLeft` and `ShiftRight`; `Nat.size` is `getActiveBits`. -/
def evaluateShift (toLeft : Bool) (type : IntegerType) (left : BitVec type.width) (right : Integer)
    (resultType : TypeId) : Except ConstantEvaluationFailure ConstantValue :=
  if (type.isSigned && right.bits.msb) || decide (right.bits.toNat.size > 64) ||
      decide (right.bits.toNat ≥ type.width) then .error .shiftOutOfRange
  else if toLeft then addChecked resultType (shlOverflow type.isSigned left right.bits.toNat)
  else
    addChecked resultType
      (if type.isSigned then left.sshiftRight right.bits.toNat else left >>> right.bits.toNat, false)

def evaluateIntegerBinary (operation : BuiltinOperatorKind) (type : IntegerType)
    (left : BitVec type.width) (right : RightOperand type operation) (resultType : TypeId)
    (ordering : OrderingVariants) : Except ConstantEvaluationFailure ConstantValue :=
  match operation, right with
  | .add, right => addChecked resultType (withOverflow .add type.isSigned left right)
  | .subtract, right => addChecked resultType (withOverflow .subtract type.isSigned left right)
  | .multiply, right => addChecked resultType (withOverflow .multiply type.isSigned left right)
  | .divide, right => evaluateDivision true type left right resultType
  | .remainder, right => evaluateDivision false type left right resultType
  | .shiftLeft, right => evaluateShift true type left right resultType
  | .shiftRight, right => evaluateShift false type left right resultType
  | .bitAnd, right => addChecked resultType (left &&& right, false)
  | .bitXor, right => addChecked resultType (left ^^^ right, false)
  | .bitOr, right => addChecked resultType (left ||| right, false)
  | .equal, right => addComparison resultType (left == right)
  | .notEqual, right => addComparison resultType (left != right)
  | .less, right =>
    addComparison resultType (if type.isSigned then left.slt right else left.ult right)
  | .lessEqual, right =>
    addComparison resultType (if type.isSigned then left.sle right else left.ule right)
  | .greater, right =>
    addComparison resultType (if type.isSigned then right.slt left else right.ult left)
  | .greaterEqual, right =>
    addComparison resultType (if type.isSigned then right.sle left else right.ule left)
  | .threeWay, right =>
    addOrdering resultType ordering
      (if left == right then "Equal"
        else if (if type.isSigned then left.slt right else left.ult right) then "Less"
        else "Greater")
  | .positive, _ | .negate, _ | .bitNot, _ => .error .invalidOperation

end Scalar

end Chtholly
