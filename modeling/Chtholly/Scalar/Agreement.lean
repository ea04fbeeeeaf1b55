import Chtholly.Scalar.ConstantEvaluation
import Chtholly.Scalar.Lowering

/-!
# The evaluator and the emitted code agree on integers

The constant evaluator fails exactly when the emitted code traps, for the reason of the trap, and
otherwise both give the same bits.

## Main definitions

* `Scalar.Reports` — the failure that goes with the reason of a trap.
* `Scalar.Agree` — an evaluation and the run of the code for it end alike.

## Main results

* `Scalar.evaluateUnary_agree`, `Scalar.evaluateIntegerBinary_agree` — the operators, and
  `Scalar.evaluate_agree` for both.
-/

set_option autoImplicit false

namespace Chtholly

namespace Scalar

/-- The failures and the reasons of the traps. -/
inductive Reports : ConstantEvaluationFailure → ℕ → Prop
  | divisionByZero : Reports .divisionByZero 1
  | remainderByZero : Reports .remainderByZero 2
  | divisionOverflow : Reports .overflow 3
  | shiftOutOfRange : Reports .shiftOutOfRange 4
  | overflow : Reports .overflow 7

/-- The constant for a value of the code. -/
def LLVMValue.constant (resultType : TypeId) : LLVMValue → ConstantValue
  | .integer bits => { kind := .integer, type := resultType, payload := bits.toNat }
  | .boolean value => { kind := .bool, type := resultType, payload := if value then 1 else 0 }
  | .ordering tag => { kind := .enum, type := resultType, payload := tag }

/-- How the evaluation and the code for it end: where there is no code the operator is not one of
integers, a trap goes with a failure, and a value with its constant. -/
def Agree (resultType : TypeId) (evaluated : Except ConstantEvaluationFailure ConstantValue) :
    Option Emitted → Prop
  | none => evaluated = .error .invalidOperation
  | some (.error reason) => ∃ failure, evaluated = .error failure ∧ Reports failure reason
  | some (.ok value) => evaluated = .ok (value.constant resultType)

lemma agree_ok {w : ℕ} (resultType : TypeId) (bits : BitVec w) :
    Agree resultType (addChecked resultType (bits, false)) (some (.ok (.integer bits))) :=
  rfl

lemma agree_comparison (resultType : TypeId) (value : Bool) :
    Agree resultType (addComparison resultType value) (some (.ok (.boolean value))) :=
  rfl

/-- A trap and a failure on the same condition. -/
lemma agree_trap {resultType : TypeId} {failure : ConstantEvaluationFailure} {reason : ℕ}
    (hreports : Reports failure reason) {evaluated : Except ConstantEvaluationFailure ConstantValue}
    {done : Emitted} {condition : Prop} [Decidable condition] {flag : Bool}
    (hflag : flag = decide condition)
    (h : ¬ condition → Agree resultType evaluated (some done)) :
    Agree resultType (if condition then .error failure else evaluated)
      (some (emitArithmeticTrap flag reason done)) := by
  subst hflag
  by_cases hcondition : condition
  · simpa [emitArithmeticTrap, hcondition, Agree] using hreports
  · simpa [emitArithmeticTrap, hcondition] using h hcondition

/-- The overflow flag is that of the trap. -/
lemma agree_checked {w : ℕ} (resultType : TypeId) (result : BitVec w × Bool) :
    Agree resultType (addChecked resultType result)
      (some (emitArithmeticTrap result.2 7 (.ok (.integer result.1)))) :=
  agree_trap .overflow (by simp) fun _ => rfl

lemma agree_checkedIntegerBinary {w : ℕ} (resultType : TypeId) (operation : OverflowOperation)
    (isSigned : Bool) (left right : BitVec w) :
    Agree resultType (addChecked resultType (withOverflow operation isSigned left right))
      (some (checkedIntegerBinary operation isSigned left right)) :=
  agree_checked resultType _

lemma evaluateUnary_agree (operation : BuiltinOperatorKind) (operand : Integer)
    (resultType : TypeId) :
    Agree resultType (evaluateUnary operation operand resultType)
      (lowerBuiltinUnary operation operand) := by
  cases operation with
  | positive => exact agree_ok resultType operand.bits
  | negate => exact agree_checkedIntegerBinary resultType .subtract _ _ _
  | bitNot => exact agree_ok resultType _
  | _ => rfl

/-! ## Division -/

lemma evaluateDivision_agree (divide : Bool) (type : IntegerType) (left right : BitVec type.width)
    (resultType : TypeId) :
    Agree resultType (evaluateDivision divide type left right resultType)
      (some (lowerDivision divide type left right)) := by
  have hreports : Reports (if divide then .divisionByZero else .remainderByZero)
      (if divide then 1 else 2) := by
    cases divide
    · exact .remainderByZero
    · exact .divisionByZero
  apply agree_trap hreports (beq_eq_decide _ _)
  intro _
  cases hsigned : type.isSigned with
  | true =>
    -- only a signed division has the second trap
    simp only [Bool.true_and, if_true]
    exact agree_trap .divisionOverflow (Bool.decide_eq_true).symm fun _ => rfl
  | false => rfl

/-! ## Shifts -/

/-- A count whose sign bit is set is larger than every width. -/
lemma width_le_of_msb (type : IntegerType) {right : Integer} (h : right.bits.msb = true) :
    type.width ≤ right.bits.toNat := by
  have hcount := right.type.eight_le
  have hpow : 2 ^ 7 ≤ 2 ^ (right.type.width - 1) := Nat.pow_le_pow_right (by omega) (by omega)
  have hmsb := (BitVec.msb_eq_true_iff_two_mul_ge.1 h)
  have hwidth := type.le_sixtyFour
  have hdouble : 2 ^ right.type.width = 2 * 2 ^ (right.type.width - 1) := by
    rw [← pow_succ', Nat.sub_add_cancel (by omega)]
  omega

/-- The width of a type is a value of every type. -/
lemma width_lt_two_pow (type countType : IntegerType) : type.width < 2 ^ countType.width := by
  have hpow : 2 ^ 8 ≤ 2 ^ countType.width := Nat.pow_le_pow_right (by omega) countType.eight_le
  have hwidth := type.le_sixtyFour
  omega

/-- The evaluator rejects the counts from the width on. -/
lemma evaluateShift_rejects_iff (type : IntegerType) (right : Integer) :
    ((type.isSigned && right.bits.msb) || decide (right.bits.toNat.size > 64) ||
      decide (right.bits.toNat ≥ type.width)) = true ↔ type.width ≤ right.bits.toNat := by
  have hsize : 64 < right.bits.toNat.size → type.width ≤ right.bits.toNat := by
    intro h
    have hle := Nat.lt_size.1 h
    have hwidth := type.le_sixtyFour
    omega
  constructor
  · intro h
    rw [Bool.or_eq_true, Bool.or_eq_true, Bool.and_eq_true, decide_eq_true_eq,
      decide_eq_true_eq] at h
    obtain (⟨-, hmsb⟩ | h) | h := h
    · exact width_le_of_msb type hmsb
    · exact hsize h
    · exact h
  · intro h
    simp [h]

/-- The code traps at the counts from the width on. -/
lemma lowerShift_invalid_eq (type : IntegerType) (right : Integer) :
    (if right.type.isSigned then
        (BitVec.ofNat right.type.width type.width).ule right.bits ||
          right.bits.slt (0 : BitVec right.type.width)
      else (BitVec.ofNat right.type.width type.width).ule right.bits) =
      decide (type.width ≤ right.bits.toNat) := by
  have hule : (BitVec.ofNat right.type.width type.width).ule right.bits =
      decide (type.width ≤ right.bits.toNat) := by
    rw [BitVec.ule, BitVec.toNat_ofNat, Nat.mod_eq_of_lt (width_lt_two_pow type right.type)]
  have hslt : right.bits.slt (0 : BitVec right.type.width) = true →
      type.width ≤ right.bits.toNat := by
    intro h
    exact width_le_of_msb type (BitVec.slt_zero_iff_msb_cond.1 h)
  rw [hule]
  split
  · by_cases h : type.width ≤ right.bits.toNat
    · simp [h]
    · have := mt hslt h
      simp_all
  · rfl

/-- The cast to the type of the left operand keeps a count that is not rejected. -/
lemma toNat_count (type : IntegerType) {right : Integer} (h : ¬ type.width ≤ right.bits.toNat) :
    (right.bits.setWidth type.width).toNat = right.bits.toNat := by
  rw [BitVec.toNat_setWidth, Nat.mod_eq_of_lt]
  calc right.bits.toNat < type.width := not_le.1 h
    _ < 2 ^ type.width := width_lt_two_pow type type

lemma evaluateShift_agree (toLeft : Bool) (type : IntegerType) (left : BitVec type.width)
    (right : Integer) (resultType : TypeId) :
    Agree resultType (evaluateShift toLeft type left right resultType)
      (some (lowerShift toLeft type left right)) := by
  apply agree_trap .shiftOutOfRange
  · rw [lowerShift_invalid_eq]
    exact decide_eq_decide.2 (evaluateShift_rejects_iff type right).symm
  intro hvalid
  rw [evaluateShift_rejects_iff] at hvalid
  have hcount := toNat_count type hvalid
  cases toLeft with
  | true =>
    have hflag : ((if type.isSigned then (left <<< right.bits.toNat).sshiftRight right.bits.toNat
        else left <<< right.bits.toNat >>> right.bits.toNat) != left) =
        (shlOverflow type.isSigned left right.bits.toNat).2 := by
      rw [shlOverflow_eq type.isSigned left (not_le.1 hvalid), bne, beq_eq_decide, decide_not]
    simp only [if_true, BitVec.shiftLeft_eq', BitVec.ushiftRight_eq', BitVec.sshiftRight_eq',
      hcount, hflag]
    exact agree_checked resultType (shlOverflow type.isSigned left right.bits.toNat)
  | false =>
    simp only [Bool.false_eq_true, if_false, BitVec.ushiftRight_eq', BitVec.sshiftRight_eq',
      hcount]
    exact agree_ok resultType _

/-! ## Three-way comparisons -/

/-- Variants of other names leave the tag as it is. -/
lemma foldl_tag_eq {name : String} {variants : List SemEnumVariant}
    (h : ∀ variant ∈ variants, variant.name ≠ name) (start tag : ℕ) :
    (variants.zipIdx start).foldl
      (fun tag entry => if entry.1.name == name then entry.2 else tag) tag = tag := by
  induction variants generalizing start with
  | nil => rfl
  | cons variant variants ih =>
    rw [List.forall_mem_cons] at h
    rw [List.zipIdx_cons, List.foldl_cons, beq_false_of_ne h.1, if_neg (by simp)]
    exact ih h.2 (start + 1)

/-- The first variant that has the name is the last one too. -/
lemma findIdx?_eq_orderingTag (ordering : OrderingVariants) {name : String}
    (hname : name ∈ orderingNames) :
    (ordering.variants.findIdx? fun variant => variant.shape == .unit && variant.name == name) =
      some (orderingTag ordering.variants name) := by
  obtain ⟨before, variant, after, heq, hvariant, hunit, hbefore, hafter⟩ :=
    ordering.exists_eq hname
  have htag : orderingTag ordering.variants name = before.length := by
    rw [orderingTag, heq, List.zipIdx_append, List.foldl_append, foldl_tag_eq hbefore,
      List.zipIdx_cons, List.foldl_cons, hvariant, beq_self_eq_true, if_pos rfl,
      foldl_tag_eq hafter, Nat.zero_add]
  have hnone : (before.findIdx? fun variant => variant.shape == .unit && variant.name == name) =
      none := by
    rw [List.findIdx?_eq_none_iff]
    intro other hother
    simp [hbefore other hother]
  rw [htag, heq, List.findIdx?_append, hnone, List.findIdx?_cons, hvariant, hunit]
  simp

lemma addOrdering_agree (resultType : TypeId) (ordering : OrderingVariants) {name : String}
    (hname : name ∈ orderingNames) :
    Agree resultType (addOrdering resultType ordering name)
      (some (.ok (.ordering (orderingTag ordering.variants name)))) := by
  rw [addOrdering, findIdx?_eq_orderingTag ordering hname]
  rfl

/-- Of two different values one is the smaller. -/
lemma greater_eq {type : IntegerType} {left right : BitVec type.width} (hne : left ≠ right)
    (hless : ¬ (if type.isSigned then left.slt right else left.ult right) = true) :
    (if type.isSigned then right.slt left else right.ult left) = true := by
  cases hsigned : type.isSigned with
  | true =>
    simp only [hsigned, if_true, BitVec.slt_iff_toInt_lt] at hless ⊢
    exact lt_of_le_of_ne (not_lt.1 hless) fun h => hne (BitVec.toInt_inj.1 h.symm)
  | false =>
    simp only [hsigned, Bool.false_eq_true, if_false, BitVec.ult_iff_lt, BitVec.lt_def] at hless ⊢
    exact lt_of_le_of_ne (not_lt.1 hless) fun h => hne (BitVec.toNat_inj.1 h.symm)

/-- A value is not smaller than itself. -/
lemma not_less_self {type : IntegerType} (left : BitVec type.width) :
    (if type.isSigned then left.slt left else left.ult left) = false := by
  split <;> simp [BitVec.slt, BitVec.ult]

lemma lowerOrdering_agree (type : IntegerType) (ordering : OrderingVariants)
    (left right : BitVec type.width) (resultType : TypeId) :
    Agree resultType
      (addOrdering resultType ordering
        (if left == right then "Equal"
          else if (if type.isSigned then left.slt right else left.ult right) then "Less"
          else "Greater"))
      (some (lowerOrdering type ordering left right)) := by
  by_cases heq : left = right
  · subst heq
    simp only [lowerOrdering, not_less_self, beq_self_eq_true, if_true, Bool.false_eq_true, if_false]
    exact addOrdering_agree resultType ordering (by decide)
  · rw [if_neg (by simpa using heq)]
    by_cases hless : (if type.isSigned then left.slt right else left.ult right) = true
    · simp only [lowerOrdering, hless, if_true, Bool.false_eq_true, if_false]
      exact addOrdering_agree resultType ordering (by decide)
    · simp only [lowerOrdering, hless, greater_eq heq hless, if_true, Bool.false_eq_true, if_false]
      exact addOrdering_agree resultType ordering (by decide)

/-! ## The binary operators -/

lemma evaluateIntegerBinary_agree (operation : BuiltinOperatorKind) (type : IntegerType)
    (left : BitVec type.width) (right : RightOperand type operation) (resultType : TypeId)
    (ordering : OrderingVariants) :
    Agree resultType (evaluateIntegerBinary operation type left right resultType ordering)
      (lowerBuiltinBinary operation type left right ordering) := by
  cases operation with
  | positive | negate | bitNot => rfl
  | add | subtract | multiply => exact agree_checkedIntegerBinary resultType _ _ _ _
  | divide => exact evaluateDivision_agree true type left right resultType
  | remainder => exact evaluateDivision_agree false type left right resultType
  | shiftLeft => exact evaluateShift_agree true type left right resultType
  | shiftRight => exact evaluateShift_agree false type left right resultType
  | bitAnd | bitXor | bitOr => exact agree_ok resultType _
  | equal | notEqual | less | lessEqual | greater | greaterEqual =>
    exact agree_comparison resultType _
  | threeWay => exact lowerOrdering_agree type ordering left right resultType

/-- The evaluator fails exactly when the code for the operation traps, and otherwise the two have
the same bits. -/
theorem evaluate_agree :
    (∀ (operation : BuiltinOperatorKind) (operand : Integer) (resultType : TypeId),
      Agree resultType (evaluateUnary operation operand resultType)
        (lowerBuiltinUnary operation operand)) ∧
    ∀ (operation : BuiltinOperatorKind) (type : IntegerType) (left : BitVec type.width)
      (right : RightOperand type operation) (resultType : TypeId) (ordering : OrderingVariants),
      Agree resultType (evaluateIntegerBinary operation type left right resultType ordering)
        (lowerBuiltinBinary operation type left right ordering) :=
  ⟨evaluateUnary_agree, evaluateIntegerBinary_agree⟩

end Scalar

end Chtholly
