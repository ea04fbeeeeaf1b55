import Mathlib.Data.Nat.Size
import Mathlib.Data.Rat.Cast.Order
import Mathlib.Algebra.Order.Field.Power
import Mathlib.Tactic.Positivity
import Mathlib.Tactic.FieldSimp
import Mathlib.Tactic.Linarith
import Mathlib.Tactic.Ring

/-!
# Exact conversions between number formats

Integers of a width and a sign are bit vectors with a value.  Binary floating point numbers are taken
as the numbers with so many significant bits.  A conversion is exact on the numbers that the target
format has.

## Main definitions

* `NumberFormat.integerValue`, `NumberFormat.extend` — the value of a bit vector, and the change of
  its width.
* `NumberFormat.HasPrecision` — numbers with so many significant bits.
* `NumberFormat.roundInteger` — the nearest such number, to even in the middle.

## Main results

* `NumberFormat.integerValue_extend`, `NumberFormat.integerValue_extend_unsigned` — widening keeps
  the value.
* `NumberFormat.roundInteger_eq_self` — rounding keeps the numbers that have the precision.
-/

set_option autoImplicit false

namespace Chtholly

namespace NumberFormat

/-! ## Integers -/

/-- The value of the bits, in two's complement if they are signed. -/
def integerValue {w : ℕ} (signed : Bool) (bits : BitVec w) : ℤ :=
  if signed then bits.toInt else bits.toNat

/-- The bits at another width: the sign is repeated if they are signed. -/
def extend {w : ℕ} (signed : Bool) (bits : BitVec w) (target : ℕ) : BitVec target :=
  if signed then bits.signExtend target else bits.setWidth target

variable {w : ℕ}

theorem integerValue_extend {v : ℕ} (signed : Bool) (bits : BitVec w) (h : w ≤ v) :
    integerValue signed (extend signed bits v) = integerValue signed bits := by
  cases signed
  · simp [integerValue, extend, BitVec.toNat_setWidth_of_le h]
  · simp [integerValue, extend, BitVec.toInt_signExtend_of_le h]

/-- One more bit is enough for the value of unsigned bits in two's complement. -/
theorem integerValue_extend_unsigned {v : ℕ} (bits : BitVec w) (h : w < v) :
    integerValue true (extend false bits v) = integerValue false bits := by
  have hbits : 2 * bits.toNat < 2 ^ v := by
    have hpow : 2 ^ (w + 1) ≤ 2 ^ v := Nat.pow_le_pow_right (by omega) h
    have hlt := bits.isLt
    rw [Nat.pow_succ] at hpow
    omega
  have hwidth : (bits.setWidth v).toNat = bits.toNat := BitVec.toNat_setWidth_of_le h.le
  simp only [integerValue, extend, if_true, Bool.false_eq_true, if_false]
  rw [BitVec.toInt_eq_toNat_of_lt (by rwa [hwidth]), hwidth]

variable {x : ℤ}

lemma integerValue_ofInt_signed (hw : 0 < w) (hlow : -2 ^ (w - 1) ≤ x) (hhigh : x < 2 ^ (w - 1)) :
    integerValue true (BitVec.ofInt w x) = x := by
  obtain ⟨v, rfl⟩ : ∃ v, w = v + 1 := ⟨w - 1, by omega⟩
  rw [Nat.add_sub_cancel] at hlow hhigh
  simp only [integerValue, if_true]
  rw [BitVec.toInt_ofInt, Int.bmod_eq_of_le]
  · rw [Nat.pow_succ]
    push_cast
    omega
  · rw [Nat.pow_succ]
    push_cast
    omega

lemma integerValue_ofInt_unsigned (hlow : 0 ≤ x) (hhigh : x < 2 ^ w) :
    integerValue false (BitVec.ofInt w x) = x := by
  simp only [integerValue, Bool.false_eq_true, if_false, BitVec.toNat_ofInt]
  push_cast
  rw [Int.emod_eq_of_lt hlow hhigh, Int.toNat_of_nonneg hlow]

lemma natAbs_integerValue_le (signed : Bool) (bits : BitVec w) (p : ℕ)
    (h : if signed then w ≤ p + 1 else w ≤ p) : (integerValue signed bits).natAbs ≤ 2 ^ p := by
  cases signed
  · have hlt : bits.toNat < 2 ^ w := bits.isLt
    have hpow : 2 ^ w ≤ 2 ^ p := Nat.pow_le_pow_right (by omega) (by simpa using h)
    simp only [integerValue, Bool.false_eq_true, if_false, Int.natAbs_natCast]
    omega
  · simp only [if_true] at h
    have hpow : 2 ^ (w - 1) ≤ 2 ^ p := Nat.pow_le_pow_right (by omega) (by omega)
    have hlow := BitVec.le_toInt bits
    have hhigh := BitVec.toInt_lt (x := bits)
    simp only [integerValue, if_true]
    zify at hpow ⊢
    rw [abs_le]
    constructor <;> omega

/-! ## Significant bits -/

/-- The number has at most so many significant bits. -/
def HasPrecision (p : ℕ) (q : ℚ) : Prop :=
  ∃ m e : ℤ, m.natAbs < 2 ^ p ∧ q = m * 2 ^ e

variable {p : ℕ}

lemma HasPrecision.mono {r : ℕ} {q : ℚ} (h : HasPrecision p q) (hle : p ≤ r) :
    HasPrecision r q := by
  obtain ⟨m, e, hm, hq⟩ := h
  exact ⟨m, e, hm.trans_le (Nat.pow_le_pow_right (by omega) hle), hq⟩

lemma HasPrecision.neg {q : ℚ} (h : HasPrecision p q) : HasPrecision p (-q) := by
  obtain ⟨m, e, hm, hq⟩ := h
  exact ⟨-m, e, by rwa [Int.natAbs_neg], by rw [hq]; push_cast; ring⟩

/-- The bits below the precision are zero. -/
lemma hasPrecision_of_dvd {m : ℕ} (h : 2 ^ (m.size - p) ∣ m) : HasPrecision p m := by
  obtain ⟨n, hn⟩ := h
  refine ⟨n, (m.size - p : ℕ), ?_, ?_⟩
  · rw [Int.natAbs_natCast]
    by_contra hle
    push Not at hle
    have hsize : m < 2 ^ m.size := Nat.lt_size_self m
    rcases Nat.le_total m.size p with hshort | hlong
    · have hpow : 2 ^ m.size ≤ 2 ^ p := Nat.pow_le_pow_right (by omega) hshort
      rw [Nat.sub_eq_zero_of_le hshort, pow_zero, one_mul] at hn
      omega
    · have hmul : 2 ^ (m.size - p) * 2 ^ p ≤ 2 ^ (m.size - p) * n := Nat.mul_le_mul_left _ hle
      rw [← pow_add, Nat.sub_add_cancel hlong, ← hn] at hmul
      omega
  · conv_lhs => rw [hn]
    push_cast
    rw [zpow_natCast, mul_comm]

lemma hasPrecision_of_natAbs_le (hp : 0 < p) (h : x.natAbs ≤ 2 ^ p) : HasPrecision p x := by
  rcases Nat.lt_or_eq_of_le h with hlt | heq
  · exact ⟨x, 0, hlt, by simp⟩
  · -- A power of two has one significant bit.
    have hsign : x.sign.natAbs < 2 ^ p := by
      have hle : x.sign.natAbs ≤ 1 := by
        rw [Int.natAbs_sign]
        split <;> omega
      have hone : 2 ^ 1 ≤ 2 ^ p := Nat.pow_le_pow_right (by omega) hp
      omega
    refine ⟨x.sign, p, hsign, ?_⟩
    have hx : x = x.sign * 2 ^ p := by
      conv_lhs => rw [← Int.sign_mul_natAbs x, heq]
      push_cast
      rfl
    conv_lhs => rw [hx]
    push_cast
    rfl

/-! ## Rounding -/

/-- The nearest number with the precision; of two that are equally near, the even one. -/
def roundMagnitude (p m : ℕ) : ℕ :=
  let unit := 2 ^ (m.size - p)
  if 2 * (m % unit) < unit ∨ 2 * (m % unit) = unit ∧ m / unit % 2 = 0 then m / unit * unit
  else (m / unit + 1) * unit

def roundInteger (p : ℕ) (x : ℤ) : ℤ :=
  x.sign * roundMagnitude p x.natAbs

lemma roundMagnitude_eq_self {m : ℕ} (h : 2 ^ (m.size - p) ∣ m) : roundMagnitude p m = m := by
  have hpos : 0 < 2 ^ (m.size - p) := Nat.two_pow_pos _
  rw [roundMagnitude]
  rw [Nat.mod_eq_zero_of_dvd h, if_pos (Or.inl (by omega)), Nat.div_mul_cancel h]

lemma dvd_of_hasPrecision (h : HasPrecision p x) : 2 ^ (x.natAbs.size - p) ∣ x.natAbs := by
  obtain ⟨m, e, hm, hx⟩ := h
  rcases Int.le_total 0 e with he | he
  · -- The number is a multiple of its unit.
    obtain ⟨n, rfl⟩ := Int.eq_ofNat_of_zero_le he
    have hmul : x.natAbs = m.natAbs * 2 ^ n := by
      have hint : x = m * 2 ^ n := by
        rw [zpow_natCast] at hx
        exact_mod_cast hx
      rw [hint, Int.natAbs_mul, Int.natAbs_pow]
      rfl
    have hsize : x.natAbs.size ≤ p + n := by
      rw [Nat.size_le, hmul, pow_add]
      exact Nat.mul_lt_mul_of_pos_right hm (Nat.two_pow_pos n)
    have hdvd : 2 ^ n ∣ x.natAbs := ⟨m.natAbs, by rw [hmul, mul_comm]⟩
    exact (Nat.pow_dvd_pow 2 (by omega)).trans hdvd
  · -- The number is less than its significand.
    obtain ⟨n, hn⟩ := Int.eq_ofNat_of_zero_le (Int.neg_nonneg_of_nonpos he)
    have hmul : x.natAbs * 2 ^ n = m.natAbs := by
      have hint : x * 2 ^ n = m := by
        have he : e = -(n : ℤ) := by omega
        rw [he, zpow_neg, zpow_natCast] at hx
        field_simp at hx
        exact_mod_cast hx
      rw [← hint, Int.natAbs_mul, Int.natAbs_pow]
      rfl
    have hle : x.natAbs ≤ m.natAbs := hmul ▸ Nat.le_mul_of_pos_right _ (Nat.two_pow_pos n)
    have hsize : x.natAbs.size ≤ p := Nat.size_le.2 (hle.trans_lt hm)
    rw [Nat.sub_eq_zero_of_le hsize, pow_zero]
    exact one_dvd _

/-- Rounding keeps the integers that have the precision. -/
theorem roundInteger_eq_self (h : HasPrecision p x) : roundInteger p x = x := by
  rw [roundInteger, roundMagnitude_eq_self (dvd_of_hasPrecision h), Int.sign_mul_natAbs]

end NumberFormat

end Chtholly
