import Mathlib.Algebra.Order.Ring.Int
import Mathlib.Data.List.Perm.Subperm
import Mathlib.Data.Nat.Size
import Mathlib.Tactic.Positivity
import Mathlib.Tactic.Ring

/-!
# Integer operations of the compiler

An integer type has eight, sixteen, thirty-two or sixty-four bits and a sign.  The constant
evaluator works on `APInt`s, and the code that is emitted on LLVM values; both are bit vectors here.
An operation with an overflow flag gives the bits of the exact result and says whether it fits.

## Main definitions

* `Scalar.IntegerType` — an integer type.
* `Scalar.BuiltinOperatorKind`, `Scalar.RightOperand` — the operators and their operands.
* `Scalar.withOverflow` — operations with an overflow flag.
* `Scalar.OrderingVariants` — the variants of the type of three-way comparisons.

## Main results

* `Scalar.shlOverflow_eq` — shifting back shows whether a shift to the left overflows.
* `Scalar.OrderingVariants.exists_eq` — each ordering has one variant.
-/

set_option autoImplicit false

namespace Chtholly

namespace Scalar

/-- A `SemType` of kind `Integer` that the verifier accepts. -/
structure IntegerType where
  width : ℕ
  isSigned : Bool
  valid : width = 8 ∨ width = 16 ∨ width = 32 ∨ width = 64

lemma IntegerType.eight_le (type : IntegerType) : 8 ≤ type.width := by
  have := type.valid
  omega

lemma IntegerType.le_sixtyFour (type : IntegerType) : type.width ≤ 64 := by
  have := type.valid
  omega

/-- A value with its type. -/
structure Integer where
  type : IntegerType
  bits : BitVec type.width

inductive BuiltinOperatorKind
  | positive
  | negate
  | bitNot
  | add
  | subtract
  | multiply
  | divide
  | remainder
  | shiftLeft
  | shiftRight
  | bitAnd
  | bitXor
  | bitOr
  | equal
  | notEqual
  | less
  | lessEqual
  | greater
  | greaterEqual
  | threeWay
  deriving DecidableEq

def isBuiltinUnaryOperator (kind : BuiltinOperatorKind) : Bool :=
  kind == .positive || kind == .negate || kind == .bitNot

/-- The right operand of a binary operator: the count of a shift is of any integer type, and for
the other operators the verifier asks for the type of the left operand. -/
abbrev RightOperand (type : IntegerType) : BuiltinOperatorKind → Type
  | .shiftLeft => Integer
  | .shiftRight => Integer
  | _ => BitVec type.width

/-! ## Operations with an overflow flag -/

inductive OverflowOperation
  | add
  | subtract
  | multiply

/-- `sadd_ov`, `uadd_ov` and the like of `APInt`, and the intrinsics `sadd.with.overflow`,
`uadd.with.overflow` and the like of LLVM. -/
def withOverflow {w : ℕ} (operation : OverflowOperation) (isSigned : Bool) (left right : BitVec w) :
    BitVec w × Bool :=
  match operation, isSigned with
  | .add, true => (left + right, left.saddOverflow right)
  | .add, false => (left + right, left.uaddOverflow right)
  | .subtract, true => (left - right, left.ssubOverflow right)
  | .subtract, false => (left - right, left.usubOverflow right)
  | .multiply, true => (left * right, left.smulOverflow right)
  | .multiply, false => (left * right, left.umulOverflow right)

/-- The value of some bits. -/
def valueOf {w : ℕ} (isSigned : Bool) (bits : BitVec w) : ℤ :=
  if isSigned then bits.toInt else bits.toNat

/-- The values of a type. -/
def Fits (width : ℕ) (isSigned : Bool) (value : ℤ) : Prop :=
  if isSigned then -2 ^ (width - 1) ≤ value ∧ value < 2 ^ (width - 1)
  else 0 ≤ value ∧ value < 2 ^ width

instance (width : ℕ) (isSigned : Bool) (value : ℤ) : Decidable (Fits width isSigned value) :=
  inferInstanceAs (Decidable (if isSigned then _ else _))

/-- `sshl_ov` and `ushl_ov` of `APInt`. -/
def shlOverflow {w : ℕ} (isSigned : Bool) (left : BitVec w) (amount : ℕ) : BitVec w × Bool :=
  (left <<< amount,
    decide (w ≤ amount) || !decide (Fits w isSigned (valueOf isSigned left * 2 ^ amount)))

/-- A logical shift to the right of `left <<< n` gives `left` back when no bit was shifted out. -/
lemma ushiftRight_shiftLeft_eq_iff {w : ℕ} (left : BitVec w) {n : ℕ} (hn : n < w) :
    (left <<< n) >>> n = left ↔ left.toNat * 2 ^ n < 2 ^ w := by
  have hpow : 0 < 2 ^ n := by positivity
  have hdvd : 2 ^ n ∣ 2 ^ w := pow_dvd_pow 2 hn.le
  rw [← BitVec.toNat_inj, BitVec.toNat_ushiftRight, BitVec.toNat_shiftLeft, Nat.shiftLeft_eq,
    Nat.shiftRight_eq_div_pow]
  constructor
  · intro h
    have hmod : 2 ^ n ∣ left.toNat * 2 ^ n % 2 ^ w :=
      (Nat.dvd_mod_iff hdvd).2 (Nat.dvd_mul_left _ _)
    calc left.toNat * 2 ^ n = left.toNat * 2 ^ n % 2 ^ w / 2 ^ n * 2 ^ n := by rw [h]
      _ = left.toNat * 2 ^ n % 2 ^ w := Nat.div_mul_cancel hmod
      _ < 2 ^ w := Nat.mod_lt _ (by positivity)
  · intro h
    rw [Nat.mod_eq_of_lt h, Nat.mul_div_cancel _ hpow]

/-- An arithmetic shift to the right of `left <<< n` gives `left` back when the exact value of the
shift is in the range of the type. -/
lemma sshiftRight_shiftLeft_eq_iff {w : ℕ} (left : BitVec w) {n : ℕ} (hn : n < w) :
    (left <<< n).sshiftRight n = left ↔
      -2 ^ (w - 1) ≤ left.toInt * 2 ^ n ∧ left.toInt * 2 ^ n < 2 ^ (w - 1) := by
  have hbits : (left <<< n).toInt = (left.toInt * 2 ^ n).bmod (2 ^ w) := by
    rw [BitVec.toInt_shiftLeft, BitVec.toInt_eq_toNat_bmod, Int.bmod_mul_bmod, Nat.shiftLeft_eq]
    push_cast
    rfl
  have hhalf : 2 ^ w = 2 * 2 ^ (w - 1) := by
    rw [← pow_succ', Nat.sub_add_cancel (by omega)]
  rw [← BitVec.toInt_inj, BitVec.toInt_sshiftRight, Int.shiftRight_eq_div_pow]
  constructor
  · intro h
    have hdvd : (2 : ℤ) ^ n ∣ (left <<< n).toInt := by
      have hsub : ((2 ^ w : ℕ) : ℤ) ∣ (left <<< n).toInt - left.toInt * 2 ^ n :=
        hbits ▸ Int.dvd_bmod_sub_self
      have hpow : (2 : ℤ) ^ n ∣ ((2 ^ w : ℕ) : ℤ) := by
        push_cast
        exact pow_dvd_pow 2 hn.le
      exact (dvd_sub_left (Dvd.intro_left _ rfl)).1 (hpow.trans hsub)
    have hexact : (left <<< n).toInt = left.toInt * 2 ^ n := by
      rw [← h]
      exact (Int.ediv_mul_cancel (by exact_mod_cast hdvd)).symm
    rw [← hexact]
    exact ⟨BitVec.le_toInt _, BitVec.toInt_lt⟩
  · rintro ⟨hle, hlt⟩
    have hexact : (left <<< n).toInt = left.toInt * 2 ^ n := by
      have htwo : (2 : ℤ) ^ w = 2 * 2 ^ (w - 1) := by exact_mod_cast hhalf
      rw [hbits]
      apply Int.bmod_eq_of_le_mul_two <;> (push_cast; omega)
    rw [hexact]
    push_cast
    exact Int.mul_ediv_cancel _ (by positivity)

/-- Shifting back shows whether a shift to the left overflows. -/
lemma shlOverflow_eq {w : ℕ} (isSigned : Bool) (left : BitVec w) {n : ℕ} (hn : n < w) :
    (shlOverflow isSigned left n).2 =
      decide ((if isSigned then (left <<< n).sshiftRight n else (left <<< n) >>> n) ≠ left) := by
  have hfits : (if isSigned then (left <<< n).sshiftRight n else (left <<< n) >>> n) = left ↔
      Fits w isSigned (valueOf isSigned left * 2 ^ n) := by
    cases isSigned with
    | true => exact sshiftRight_shiftLeft_eq_iff left hn
    | false =>
      have hpos : (0 : ℤ) ≤ left.toNat * 2 ^ n := by positivity
      have hlt : (left.toNat : ℤ) * 2 ^ n < 2 ^ w ↔ left.toNat * 2 ^ n < 2 ^ w := by norm_cast
      rw [show Fits w false (valueOf false left * 2 ^ n) ↔ left.toNat * 2 ^ n < 2 ^ w by
        simp [Fits, valueOf, hpos, hlt]]
      exact ushiftRight_shiftLeft_eq_iff left hn
  rw [shlOverflow, decide_eq_false (by omega), Bool.false_or, decide_not, decide_eq_decide.2 hfits]

/-! ## Three-way comparisons -/

inductive SemEnumPayloadShape
  | unit
  | tuple
  | struct
  deriving DecidableEq

structure SemEnumVariant where
  name : String
  shape : SemEnumPayloadShape

def orderingNames : List String := ["Less", "Equal", "Greater", "Unordered"]

/-- The variants of `Ordering`, as `inspectOrderingShape` checks them. -/
structure OrderingVariants where
  variants : List SemEnumVariant
  length_eq : variants.length = orderingNames.length
  named : ∀ name ∈ orderingNames, ∃ variant ∈ variants, variant.name = name ∧ variant.shape = .unit

/-- There are as many variants as names, so each name is that of one variant. -/
lemma OrderingVariants.nodup (ordering : OrderingVariants) :
    (ordering.variants.map SemEnumVariant.name).Nodup := by
  have hsub : orderingNames ⊆ ordering.variants.map SemEnumVariant.name := by
    intro name hname
    obtain ⟨variant, hvariant, rfl, -⟩ := ordering.named name hname
    exact List.mem_map_of_mem hvariant
  have hnames : orderingNames.Nodup := by decide
  have hperm := (List.subperm_of_subset hnames hsub).perm_of_length_le
    (by rw [List.length_map, ordering.length_eq])
  exact hperm.nodup_iff.1 hnames

/-- The variant of an ordering stands between variants of other names. -/
lemma OrderingVariants.exists_eq (ordering : OrderingVariants) {name : String}
    (hname : name ∈ orderingNames) :
    ∃ before variant after, ordering.variants = before ++ variant :: after ∧
      variant.name = name ∧ variant.shape = .unit ∧
      (∀ other ∈ before, other.name ≠ name) ∧ ∀ other ∈ after, other.name ≠ name := by
  obtain ⟨variant, hvariant, hname', hunit⟩ := ordering.named name hname
  obtain ⟨before, after, heq⟩ := List.append_of_mem hvariant
  have hnodup := ordering.nodup
  rw [heq, List.map_append, List.map_cons, List.nodup_middle, List.nodup_cons, hname',
    List.mem_append, not_or] at hnodup
  obtain ⟨⟨hbefore, hafter⟩, -⟩ := hnodup
  exact ⟨before, variant, after, heq, hname', hunit,
    fun other hother h => hbefore (h ▸ List.mem_map_of_mem hother),
    fun other hother h => hafter (h ▸ List.mem_map_of_mem hother)⟩

end Scalar

end Chtholly
