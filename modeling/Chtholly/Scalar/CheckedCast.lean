import Chtholly.Scalar.Integers
import Mathlib.Data.Int.ModEq

/-!
# Checked casts between integers

The code for `LowCheckedNumericCast` between integers and characters casts the value to the target,
casts the result back, and asks for the value it began with; two tests of a sign and one of the
range of `char` go with it.  The value is in the result exactly when the target has it.

A cast keeps the value modulo the power of two of the new width, so a round trip keeps it modulo
that of the wider of the two types.  Where both values lie in the same range of that size they are
equal.

## Main definitions

* `Scalar.CastType` — the types of the casts, with their values `CastType.Represents`.
* `Scalar.intCast` — `CreateIntCast`.
* `Scalar.lowerCheckedNumericCast` — the cast.

## Main results

* `Scalar.valueOf_intCast_modEq` — what a cast keeps.
* `Scalar.isExact_iff` — the tests of the code ask whether the target has the value.
* `Scalar.lowerCheckedNumericCast_exact` — checked casts are exact.
-/

set_option autoImplicit false

namespace Chtholly

namespace Scalar

/-- A type of kind `Integer` or `Char`. -/
inductive CastType
  | integer (type : IntegerType)
  | char

def CastType.width : CastType → ℕ
  | .integer type => type.width
  | .char => 32

def CastType.isSigned : CastType → Bool
  | .integer type => type.isSigned
  | .char => false

def CastType.isChar : CastType → Bool
  | .integer _ => false
  | .char => true

/-- The value that bits have in a type. -/
def CastType.value (type : CastType) (bits : BitVec type.width) : ℤ :=
  valueOf type.isSigned bits

/-- The values of a type; those of `char` end at the last code point. -/
def CastType.Represents (type : CastType) (value : ℤ) : Prop :=
  Fits type.width type.isSigned value ∧ (type.isChar = true → value ≤ 0x10ffff)

/-- `CreateIntCast`. -/
def intCast {w : ℕ} (isSigned : Bool) (bits : BitVec w) (width : ℕ) : BitVec width :=
  if w < width then (if isSigned then bits.signExtend width else bits.setWidth width)
  else bits.setWidth width

/-- The variants of the error type, which the code looks up by their names. -/
inductive NumericCastError
  | inexact
  | outOfRange
  | nonFinite
  deriving DecidableEq, Repr

/-- The tests `exact` on integers. -/
def isExact (source target : CastType) (sourceValue : BitVec source.width)
    (converted : BitVec target.width) : Bool :=
  let roundTrip := intCast target.isSigned converted source.width
  let exact := sourceValue == roundTrip
  let exact := if source.isSigned && !target.isSigned then
    exact && (0 : BitVec source.width).sle sourceValue else exact
  let exact := if !source.isSigned && target.isSigned then
    exact && (0 : BitVec target.width).sle converted else exact
  if target.isChar then exact && converted.ule (BitVec.ofNat target.width 0x10ffff) else exact

/-- The case of integers in the lowering of `LowCheckedNumericCast`: the block `cast.ok` stores the
value, and `cast.err` the variant of the error. -/
def lowerCheckedNumericCast (source target : CastType) (sourceValue : BitVec source.width) :
    Except NumericCastError (BitVec target.width) :=
  let nonFinite := false
  let converted := intCast source.isSigned sourceValue target.width
  let exact := isExact source target sourceValue converted
  let outOfRange := !exact
  let valid := !nonFinite && (!outOfRange && exact)
  if valid then .ok converted
  else .error (if nonFinite then .nonFinite else if outOfRange then .outOfRange else .inexact)

/-! ## Values modulo a power of two -/

lemma valueOf_modEq_toNat {w : ℕ} (isSigned : Bool) (bits : BitVec w) :
    valueOf isSigned bits ≡ bits.toNat [ZMOD 2 ^ w] := by
  cases isSigned with
  | true =>
    have hdvd := @Int.dvd_bmod_sub_self bits.toNat (2 ^ w)
    rw [← BitVec.toInt_eq_toNat_bmod] at hdvd
    exact (Int.modEq_iff_dvd.2 (by exact_mod_cast hdvd)).symm
  | false => rfl

/-- The value of bits is in the range of their type. -/
lemma fits_valueOf {w : ℕ} (isSigned : Bool) (bits : BitVec w) :
    Fits w isSigned (valueOf isSigned bits) := by
  cases isSigned with
  | true => exact ⟨BitVec.le_toInt bits, BitVec.toInt_lt⟩
  | false =>
    have hlt : (bits.toNat : ℤ) < 2 ^ w := by exact_mod_cast bits.isLt
    exact ⟨Int.natCast_nonneg _, hlt⟩

/-- Bits with values that agree modulo the power of the width are the same. -/
lemma eq_of_valueOf_modEq {w : ℕ} {isSigned other : Bool} {left right : BitVec w}
    (h : valueOf isSigned left ≡ valueOf other right [ZMOD 2 ^ w]) : left = right := by
  have hnat : (left.toNat : ℤ) ≡ right.toNat [ZMOD 2 ^ w] :=
    (valueOf_modEq_toNat isSigned left).symm.trans (h.trans (valueOf_modEq_toNat other right))
  apply BitVec.eq_of_toNat_eq
  have hmod : left.toNat ≡ right.toNat [MOD 2 ^ w] :=
    Int.natCast_modEq_iff.1 (by exact_mod_cast hnat)
  rwa [Nat.ModEq, Nat.mod_eq_of_lt left.isLt, Nat.mod_eq_of_lt right.isLt] at hmod

/-- A cast keeps the value modulo the power of the new width. -/
lemma valueOf_intCast_modEq {w : ℕ} (isSigned other : Bool) (bits : BitVec w) (width : ℕ) :
    valueOf other (intCast isSigned bits width) ≡ valueOf isSigned bits [ZMOD 2 ^ width] := by
  refine (valueOf_modEq_toNat other _).trans ?_
  rw [intCast]
  split
  case isTrue hlt =>
    cases isSigned with
    | true =>
      have hvalue : (bits.signExtend width).toInt = bits.toInt :=
        BitVec.toInt_signExtend_of_le hlt.le
      rw [if_pos rfl, show valueOf true bits = valueOf true (bits.signExtend width) from hvalue.symm]
      exact (valueOf_modEq_toNat true _).symm
    | false =>
      rw [if_neg Bool.false_ne_true, BitVec.toNat_setWidth_of_le hlt.le]
      rfl
  case isFalse hle =>
    rw [BitVec.toNat_setWidth]
    have hdvd : (2 : ℤ) ^ width ∣ 2 ^ w := pow_dvd_pow 2 (not_lt.1 hle)
    have hvalue := ((valueOf_modEq_toNat isSigned bits).of_dvd hdvd).symm
    refine Int.ModEq.trans ?_ hvalue
    push_cast
    exact Int.mod_modEq _ _

/-- Two values in one range of the size of the modulus. -/
lemma eq_of_modEq_of_fits {width : ℕ} {isSigned : Bool} {left right : ℤ} (hwidth : 0 < width)
    (h : left ≡ right [ZMOD 2 ^ width]) (hleft : Fits width isSigned left)
    (hright : Fits width isSigned right) : left = right := by
  have hhalf : (2 : ℤ) ^ width = 2 * 2 ^ (width - 1) := by
    rw [← pow_succ', Nat.sub_add_cancel (by omega)]
  have habs : |right - left| < 2 ^ width := by
    rw [abs_lt]
    cases isSigned with
    | true =>
      obtain ⟨hl, hl'⟩ := hleft
      obtain ⟨hr, hr'⟩ := hright
      omega
    | false =>
      obtain ⟨hl, hl'⟩ := hleft
      obtain ⟨hr, hr'⟩ := hright
      omega
  exact (sub_eq_zero.1 (Int.eq_zero_of_abs_lt_dvd h.dvd habs)).symm

/-- A range lies in that of a larger width. -/
lemma Fits.mono {width other : ℕ} {isSigned : Bool} {value : ℤ} (h : Fits width isSigned value)
    (hle : width ≤ other) : Fits other isSigned value := by
  cases isSigned with
  | true =>
    have hpow : (2 : ℤ) ^ (width - 1) ≤ 2 ^ (other - 1) :=
      pow_le_pow_right₀ (by norm_num) (by omega)
    obtain ⟨hl, hr⟩ := h
    exact ⟨by omega, by omega⟩
  | false =>
    have hpow : (2 : ℤ) ^ width ≤ 2 ^ other := pow_le_pow_right₀ (by norm_num) hle
    obtain ⟨hl, hr⟩ := h
    exact ⟨hl, by omega⟩

/-- A value of a signed type that is not negative is a value of the unsigned type. -/
lemma Fits.unsigned {width : ℕ} {isSigned : Bool} {value : ℤ} (h : Fits width isSigned value)
    (hvalue : 0 ≤ value) : Fits width false value := by
  cases isSigned with
  | true =>
    have hpow : (2 : ℤ) ^ (width - 1) ≤ 2 ^ width := pow_le_pow_right₀ (by norm_num) (by omega)
    obtain ⟨-, hr⟩ := h
    exact ⟨hvalue, by omega⟩
  | false => exact h

/-! ## The tests of the code -/

lemma CastType.width_pos (type : CastType) : 0 < type.width := by
  cases type with
  | integer type => exact (by omega : 0 < 8).trans_le type.eight_le
  | char => exact (by omega : 0 < 32)

/-- What the tests ask, in terms of the values. -/
lemma isExact_iff_tests (source target : CastType) (sourceValue : BitVec source.width)
    (converted : BitVec target.width) :
    isExact source target sourceValue converted = true ↔
      sourceValue = intCast target.isSigned converted source.width ∧
      (source.isSigned = true → target.isSigned = false → 0 ≤ source.value sourceValue) ∧
      (source.isSigned = false → target.isSigned = true → 0 ≤ target.value converted) ∧
      (target.isChar = true → target.value converted ≤ 0x10ffff) := by
  have hchar : target.isChar = true →
      (converted.ule (BitVec.ofNat target.width 0x10ffff) = true ↔
        target.value converted ≤ 0x10ffff) := by
    intro h
    cases target with
    | integer type => cases h
    | char =>
      have hvalue : CastType.char.value converted = (converted.toNat : ℤ) := rfl
      rw [BitVec.ule_iff_toNat_le, hvalue]
      simp only [CastType.width, BitVec.toNat_ofNat]
      omega
  have hsource : source.isSigned = true →
      ((0 : BitVec source.width).sle sourceValue = true ↔ 0 ≤ source.value sourceValue) := by
    intro h
    simp [CastType.value, valueOf, h, BitVec.sle_iff_toInt_le]
  have htarget : target.isSigned = true →
      ((0 : BitVec target.width).sle converted = true ↔ 0 ≤ target.value converted) := by
    intro h
    simp [CastType.value, valueOf, h, BitVec.sle_iff_toInt_le]
  cases hs : source.isSigned <;> cases ht : target.isSigned <;> cases hc : target.isChar <;>
    simp_all [isExact, and_assoc]

/-- The round trip asks whether the value of the result is the value of the source modulo the power
of the width of the source. -/
lemma roundTrip_iff (source target : CastType) (sourceValue : BitVec source.width)
    (converted : BitVec target.width) :
    sourceValue = intCast target.isSigned converted source.width ↔
      target.value converted ≡ source.value sourceValue [ZMOD 2 ^ source.width] := by
  have hback := valueOf_intCast_modEq target.isSigned source.isSigned converted source.width
  constructor
  · intro h
    rw [← h] at hback
    exact hback.symm
  · intro h
    exact eq_of_valueOf_modEq (h.symm.trans hback.symm)

/-- A result that passes the tests has the value of the source. -/
lemma value_eq_of_isExact {source target : CastType} {sourceValue : BitVec source.width}
    {converted : BitVec target.width}
    (hcast : target.value converted ≡ source.value sourceValue [ZMOD 2 ^ target.width])
    (hexact : isExact source target sourceValue converted = true) :
    target.value converted = source.value sourceValue := by
  obtain ⟨hround, hsource, htarget, -⟩ := (isExact_iff_tests ..).1 hexact
  rw [roundTrip_iff] at hround
  have hx : Fits source.width source.isSigned (source.value sourceValue) := fits_valueOf _ _
  have hy : Fits target.width target.isSigned (target.value converted) := fits_valueOf _ _
  -- the values agree modulo the power of the wider type
  have hmod : target.value converted ≡ source.value sourceValue
      [ZMOD 2 ^ max source.width target.width] := by
    rcases le_total source.width target.width with hle | hle
    · rwa [max_eq_right hle]
    · rwa [max_eq_left hle]
  have hwidth : 0 < max source.width target.width := lt_max_of_lt_left source.width_pos
  replace hx := hx.mono (le_max_left source.width target.width)
  replace hy := hy.mono (le_max_right source.width target.width)
  cases hs : source.isSigned <;> cases ht : target.isSigned <;> rw [hs] at hx hsource htarget <;>
    rw [ht] at hy hsource htarget
  case false.false => exact eq_of_modEq_of_fits hwidth hmod hy hx
  case true.true => exact eq_of_modEq_of_fits hwidth hmod hy hx
  case true.false => exact eq_of_modEq_of_fits hwidth hmod hy (hx.unsigned (hsource rfl rfl))
  case false.true => exact eq_of_modEq_of_fits hwidth hmod (hy.unsigned (htarget rfl rfl)) hx

lemma value_converted_modEq (source target : CastType) (sourceValue : BitVec source.width) :
    target.value (intCast source.isSigned sourceValue target.width) ≡ source.value sourceValue
      [ZMOD 2 ^ target.width] :=
  valueOf_intCast_modEq _ _ _ _

/-- The cast of a value that the target has. -/
lemma value_converted_eq {source target : CastType} {sourceValue : BitVec source.width}
    (h : target.Represents (source.value sourceValue)) :
    target.value (intCast source.isSigned sourceValue target.width) =
      source.value sourceValue :=
  eq_of_modEq_of_fits target.width_pos (value_converted_modEq source target sourceValue)
    (fits_valueOf _ _) h.1

/-- The tests ask whether the target has the value. -/
lemma isExact_iff (source target : CastType) (sourceValue : BitVec source.width) :
    isExact source target sourceValue (intCast source.isSigned sourceValue target.width) = true ↔
      target.Represents (source.value sourceValue) := by
  constructor
  · intro h
    have hvalue := value_eq_of_isExact (value_converted_modEq source target sourceValue) h
    obtain ⟨-, -, -, hchar⟩ := (isExact_iff_tests ..).1 h
    rw [← hvalue]
    exact ⟨fits_valueOf _ _, hchar⟩
  · intro h
    have hvalue := value_converted_eq h
    rw [isExact_iff_tests, roundTrip_iff, hvalue]
    refine ⟨rfl, ?_, ?_, h.2⟩
    · intro _ ht
      obtain ⟨hfits, -⟩ := h
      rw [ht] at hfits
      exact hfits.1
    · intro hs _
      simp [CastType.value, valueOf, hs]

/-- A checked cast has the value of the source as its result exactly when the target has it, and
ends in the error otherwise. -/
theorem lowerCheckedNumericCast_exact (source target : CastType)
    (sourceValue : BitVec source.width) :
    ((∃ converted, lowerCheckedNumericCast source target sourceValue = .ok converted ∧
        target.value converted = source.value sourceValue) ↔
      target.Represents (source.value sourceValue)) ∧
    (¬ target.Represents (source.value sourceValue) ↔
      lowerCheckedNumericCast source target sourceValue = .error .outOfRange) := by
  by_cases h : target.Represents (source.value sourceValue)
  · have hok : lowerCheckedNumericCast source target sourceValue =
        .ok (intCast source.isSigned sourceValue target.width) := by
      simp [lowerCheckedNumericCast, (isExact_iff source target sourceValue).2 h]
    rw [hok]
    exact ⟨⟨fun _ => h, fun _ => ⟨_, rfl, value_converted_eq h⟩⟩, by simp [h]⟩
  · have herror : lowerCheckedNumericCast source target sourceValue = .error .outOfRange := by
      simp [lowerCheckedNumericCast, mt (isExact_iff source target sourceValue).1 h]
    rw [herror]
    exact ⟨by simp [h], by simp [h]⟩

end Scalar

end Chtholly
