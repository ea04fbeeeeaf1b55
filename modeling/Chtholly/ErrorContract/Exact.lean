import Chtholly.ErrorContract.Normalize
import Mathlib.Data.Nat.Bitwise
import Mathlib.Data.List.Sort
import Mathlib.Tactic.Ring

/-!
# Error predicates are exact

A word stands for a number, which is its value without a sign or in two's complement.  The key of a
word is this number, moved so that the least one is zero; so the intervals of a predicate hold the
words whose numbers satisfy it.

## Main definitions

* `ErrorContract.value` — the number of a word.
* `ErrorContract.Satisfies` — the predicate as it is written.
* `ErrorContract.Flags` — the words that the intervals hold.

## Main results

* `ErrorContract.orderKey_eq` — the key of a word.
* `ErrorContract.valueBits_eq_some` — the word of a value stands for it.
* `ErrorContract.normalize_exact` — the intervals of a predicate.
-/

set_option autoImplicit false

namespace Chtholly

namespace ErrorContract

/-- The number that a word stands for. -/
def value (signed : Bool) {width : ℕ} (bits : BitVec width) : ℤ :=
  if signed then bits.toInt else bits.toNat

/-- How far the numbers of a type reach below zero. -/
def bias (width : ℕ) (signed : Bool) : ℕ := if signed then 2 ^ (width - 1) else 0

/-! ## Keys -/

lemma xor_two_pow {n k : ℕ} (h : n < 2 ^ k) : n ^^^ 2 ^ k = n + 2 ^ k := by
  have hor : 2 ^ k + n = 2 ^ k ||| n := by
    simpa using Nat.two_pow_add_eq_or_of_lt h 1
  rw [Nat.add_comm n, hor]
  apply Nat.eq_of_testBit_eq
  intro i
  rw [Nat.testBit_xor, Nat.testBit_or, Nat.testBit_two_pow]
  by_cases hi : k = i
  · subst hi
    simp [Nat.testBit_lt_two_pow h]
  · simp [hi]

lemma toNat_one_shiftLeft {k : ℕ} (h : k < 64) : ((1 : BitVec 64) <<< k).toNat = 2 ^ k := by
  have hlt : 2 ^ k < 2 ^ 64 := Nat.pow_lt_pow_right (by decide) h
  have hone : (1 : BitVec 64).toNat = 1 := rfl
  rw [BitVec.toNat_shiftLeft, hone, Nat.shiftLeft_eq, Nat.one_mul, Nat.mod_eq_of_lt hlt]

lemma toNat_mask {width : ℕ} (h : width ≤ 64) : (mask width).toNat = 2 ^ width - 1 := by
  unfold mask
  split
  · rename_i heq
    subst heq
    rfl
  · have hlt : 2 ^ width < 2 ^ 64 := Nat.pow_lt_pow_right (by decide) (by omega)
    have hpos : 0 < 2 ^ width := Nat.two_pow_pos width
    have hone : (1 : BitVec 64).toNat = 1 := rfl
    rw [BitVec.toNat_sub, toNat_one_shiftLeft (by omega), hone]
    omega

lemma toNat_signBit {width : ℕ} (hpos : 0 < width) (h : width ≤ 64) {signed : Bool} :
    (signBit width signed).toNat = bias width signed := by
  unfold signBit bias
  cases signed with
  | false => rfl
  | true => exact toNat_one_shiftLeft (by omega)

lemma bias_lt {width : ℕ} (hpos : 0 < width) {signed : Bool} : bias width signed < 2 ^ width := by
  unfold bias
  split
  · exact Nat.pow_lt_pow_right (by decide) (by omega)
  · exact Nat.two_pow_pos width

/-- The key of a word is its number, counted from the least one. -/
theorem orderKey_eq {width : ℕ} (hpos : 0 < width) (h : width ≤ 64) {signed : Bool}
    (bits : BitVec 64) :
    ((orderKey width signed bits).toNat : ℤ) =
      value signed (bits.setWidth width) + bias width signed := by
  have hmod : (bits &&& mask width).toNat = bits.toNat % 2 ^ width := by
    rw [BitVec.toNat_and, toNat_mask h, Nat.and_two_pow_sub_one_eq_mod]
  have hlt : bits.toNat % 2 ^ width < 2 ^ width := Nat.mod_lt _ (Nat.two_pow_pos width)
  unfold orderKey value
  rw [BitVec.toNat_xor, hmod, toNat_signBit hpos h]
  cases signed with
  | false => simp [bias]
  | true =>
    obtain ⟨k, rfl⟩ : ∃ k, width = k + 1 := ⟨width - 1, by omega⟩
    have hdouble : 2 ^ (k + 1) = 2 * 2 ^ k := by ring
    simp only [bias, if_true, Nat.add_sub_cancel, BitVec.toInt_eq_toNat_cond, BitVec.toNat_setWidth]
    by_cases hlow : bits.toNat % 2 ^ (k + 1) < 2 ^ k
    · rw [xor_two_pow hlow, if_pos (by omega)]
      push_cast
      ring
    · obtain ⟨low, hlow'⟩ : ∃ low, bits.toNat % 2 ^ (k + 1) = low + 2 ^ k :=
        ⟨bits.toNat % 2 ^ (k + 1) - 2 ^ k, by omega⟩
      have hsmall : low < 2 ^ k := by omega
      rw [if_neg (by omega), hlow', ← xor_two_pow hsmall, Nat.xor_assoc, Nat.xor_self,
        Nat.xor_zero, xor_two_pow hsmall, hdouble]
      push_cast
      ring

lemma orderKey_le_mask {width : ℕ} (hpos : 0 < width) (h : width ≤ 64) {signed : Bool}
    (bits : BitVec 64) : (orderKey width signed bits).toNat ≤ 2 ^ width - 1 := by
  have hmask := toNat_mask h
  have hsign : (signBit width signed).toNat < 2 ^ width := by
    rw [toNat_signBit hpos h]
    exact bias_lt hpos
  have hword : (bits &&& mask width).toNat < 2 ^ width := by
    rw [BitVec.toNat_and, hmask, Nat.and_two_pow_sub_one_eq_mod]
    exact Nat.mod_lt _ (Nat.two_pow_pos width)
  have hxor : (orderKey width signed bits).toNat < 2 ^ width := by
    rw [orderKey, BitVec.toNat_xor]
    exact Nat.xor_lt_two_pow hword hsign
  omega

/-! ## Values -/

/-- The number of a value as it is written. -/
def writtenValue (constants : String → Option PredicateConstant) (written : ErrorValueSyntax) :
    Option ℤ :=
  (resolveValue constants written).map fun constant =>
    if constant.negative then -(constant.magnitude.toNat : ℤ) else constant.magnitude.toNat

def minimum (width : ℕ) (signed : Bool) : ℤ := -bias width signed

def maximum (width : ℕ) (signed : Bool) : ℤ := 2 ^ width - 1 - bias width signed

section

variable {width : ℕ} {signed : Bool} {constants : String → Option PredicateConstant}

/-- The word of a negative magnitude. -/
lemma value_negative (hpos : 0 < width) (h : width ≤ 64) {magnitude : BitVec 64}
    (hlimit : magnitude.toNat ≤ 2 ^ (width - 1)) :
    value true (((0 - magnitude) &&& mask width).setWidth width) = -(magnitude.toNat : ℤ) := by
  obtain ⟨k, rfl⟩ : ∃ k, width = k + 1 := ⟨width - 1, by omega⟩
  rw [Nat.add_sub_cancel] at hlimit
  have hdouble : 2 ^ (k + 1) = 2 * 2 ^ k := by ring
  have hkpos : 0 < 2 ^ k := Nat.two_pow_pos k
  obtain ⟨q, hq⟩ : 2 ^ (k + 1) ∣ 2 ^ 64 := Nat.pow_dvd_pow 2 h
  have hqpos : 0 < q := by
    by_contra hzero
    obtain rfl : q = 0 := by omega
    simp at hq
  have hmod : (((0 - magnitude) &&& mask (k + 1)).setWidth (k + 1)).toNat =
      (2 ^ 64 - magnitude.toNat) % 2 ^ (k + 1) := by
    rw [BitVec.toNat_setWidth, BitVec.toNat_and, toNat_mask h, Nat.and_two_pow_sub_one_eq_mod,
      Nat.mod_mod, BitVec.toNat_sub]
    have hzero : (0 : BitVec 64).toNat = 0 := rfl
    rw [hzero, Nat.add_zero, hq, Nat.mod_mul_right_mod]
  unfold value
  rw [if_pos rfl, BitVec.toInt_eq_toNat_cond, hmod]
  by_cases hm : magnitude.toNat = 0
  · rw [hm, Nat.sub_zero, hq, Nat.mul_mod_right]
    simp
  · have hword : (2 ^ 64 - magnitude.toNat) % 2 ^ (k + 1) = 2 ^ (k + 1) - magnitude.toNat := by
      obtain ⟨r, rfl⟩ : ∃ r, q = r + 1 := ⟨q - 1, by omega⟩
      have hsplit : 2 ^ 64 - magnitude.toNat =
          (2 ^ (k + 1) - magnitude.toNat) + 2 ^ (k + 1) * r := by
        rw [hq, Nat.mul_add, Nat.mul_one]
        omega
      rw [hsplit, Nat.add_mul_mod_self_left, Nat.mod_eq_of_lt (by omega)]
    rw [hword, if_neg (by omega), Nat.cast_sub (by omega)]
    push_cast
    ring

/-- The word of a magnitude. -/
lemma value_nonnegative (hpos : 0 < width) (h : width ≤ 64) {magnitude : BitVec 64}
    (hlimit : magnitude.toNat ≤ 2 ^ width - 1 - bias width signed) :
    value signed ((magnitude &&& mask width).setWidth width) = magnitude.toNat := by
  have hwpos : 0 < 2 ^ width := Nat.two_pow_pos width
  have hmod : ((magnitude &&& mask width).setWidth width).toNat = magnitude.toNat := by
    rw [BitVec.toNat_setWidth, BitVec.toNat_and, toNat_mask h, Nat.and_two_pow_sub_one_eq_mod,
      Nat.mod_mod, Nat.mod_eq_of_lt (by omega)]
  unfold value
  cases signed with
  | false => rw [if_neg (by decide), hmod]
  | true =>
    obtain ⟨k, rfl⟩ : ∃ k, width = k + 1 := ⟨width - 1, by omega⟩
    have hdouble : 2 ^ (k + 1) = 2 * 2 ^ k := by ring
    simp only [bias, if_true, Nat.add_sub_cancel] at hlimit
    rw [if_pos rfl, BitVec.toInt_eq_toNat_cond, hmod, if_pos (by omega)]

variable {written : ErrorValueSyntax}

lemma valueBits_of_negative (hpos : 0 < width) (h : width ≤ 64) {constant : PredicateConstant}
    (hresolve : resolveValue constants written = some constant)
    (hnegative : constant.negative = true) :
    valueBits width signed constants written =
      if signed = true ∧ constant.magnitude.toNat ≤ 2 ^ (width - 1) then
        some ((0 - constant.magnitude) &&& mask width)
      else none := by
  unfold valueBits
  rw [hresolve]
  simp only [hnegative, if_true, BitVec.lt_def, toNat_one_shiftLeft (by omega : width - 1 < 64)]
  cases signed with
  | false => simp
  | true =>
    by_cases hlimit : constant.magnitude.toNat ≤ 2 ^ (width - 1)
    · simp [hlimit]
    · simp [hlimit, Nat.lt_of_not_le hlimit]

lemma valueBits_of_nonnegative (hpos : 0 < width) (h : width ≤ 64) {constant : PredicateConstant}
    (hresolve : resolveValue constants written = some constant)
    (hnegative : constant.negative = false) :
    valueBits width signed constants written =
      if constant.magnitude.toNat ≤ 2 ^ width - 1 - bias width signed then
        some (constant.magnitude &&& mask width)
      else none := by
  have hlimit : (if signed then signBit width signed - 1 else mask width).toNat =
      2 ^ width - 1 - bias width signed := by
    cases signed with
    | false => simp [toNat_mask h, bias]
    | true =>
      have hsign := @toNat_signBit width hpos h true
      have hone : (1 : BitVec 64).toNat = 1 := rfl
      have hlt := (signBit width true).isLt
      obtain ⟨k, rfl⟩ : ∃ k, width = k + 1 := ⟨width - 1, by omega⟩
      have hdouble : 2 ^ (k + 1) = 2 * 2 ^ k := by ring
      have hkpos : 0 < 2 ^ k := Nat.two_pow_pos k
      simp only [bias, if_true, Nat.add_sub_cancel] at hsign ⊢
      rw [BitVec.toNat_sub, hsign, hone]
      omega
  unfold valueBits
  rw [hresolve]
  simp only [hnegative, Bool.false_eq_true, if_false, BitVec.lt_def]
  rw [hlimit]
  by_cases hle : constant.magnitude.toNat ≤ 2 ^ width - 1 - bias width signed
  · rw [if_neg (by omega), if_pos hle]
  · rw [if_pos (by omega), if_neg hle]

variable {bits : BitVec 64}

/-- The word of a value stands for it. -/
theorem valueBits_eq_some (hpos : 0 < width) (h : width ≤ 64)
    (hbits : valueBits width signed constants written = some bits) :
    writtenValue constants written = some (value signed (bits.setWidth width)) := by
  cases hresolve : resolveValue constants written with
  | none => simp [valueBits, hresolve] at hbits
  | some constant =>
    cases hnegative : constant.negative with
    | true =>
      rw [valueBits_of_negative hpos h hresolve hnegative] at hbits
      split at hbits
      · rename_i hlimit
        obtain ⟨rfl, hlimit⟩ := hlimit
        obtain rfl := Option.some.inj hbits
        rw [value_negative hpos h hlimit]
        simp [writtenValue, hresolve, hnegative]
      · simp at hbits
    | false =>
      rw [valueBits_of_nonnegative hpos h hresolve hnegative] at hbits
      split at hbits
      · rename_i hlimit
        obtain rfl := Option.some.inj hbits
        rw [value_nonnegative hpos h hlimit]
        simp [writtenValue, hresolve, hnegative]
      · simp at hbits

/-- A number of the type has a word, unless it is written with a sign that the type does not have. -/
theorem exists_valueBits (hpos : 0 < width) (h : width ≤ 64) {z : ℤ}
    (hwritten : writtenValue constants written = some z) (hmin : minimum width signed ≤ z)
    (hmax : z ≤ maximum width signed)
    (hsign : signed = false → ∀ constant, resolveValue constants written = some constant →
      constant.negative = false) :
    ∃ bits, valueBits width signed constants written = some bits := by
  cases hresolve : resolveValue constants written with
  | none => simp [writtenValue, hresolve] at hwritten
  | some constant =>
    obtain rfl : (if constant.negative then -(constant.magnitude.toNat : ℤ)
        else constant.magnitude.toNat) = z := by
      simpa [writtenValue, hresolve] using hwritten
    unfold minimum bias at hmin
    unfold maximum at hmax
    cases hnegative : constant.negative with
    | true =>
      cases signed with
      | false => simp [hsign rfl constant hresolve] at hnegative
      | true =>
        rw [valueBits_of_negative hpos h hresolve hnegative, if_pos]
        · exact ⟨_, rfl⟩
        · simp only [hnegative, if_true] at hmin
          refine ⟨rfl, ?_⟩
          push_cast at hmin
          exact_mod_cast neg_le_neg_iff.mp hmin
    | false =>
      rw [valueBits_of_nonnegative hpos h hresolve hnegative, if_pos]
      · exact ⟨_, rfl⟩
      · simp only [hnegative, Bool.false_eq_true, if_false] at hmax
        have hcast : ((2 ^ width : ℕ) : ℤ) = 2 ^ width := by push_cast; rfl
        omega

/-! ## Ranges -/

/-- The number of a word, of which the width is used. -/
def number (width : ℕ) (signed : Bool) (bits : BitVec 64) : ℤ := value signed (bits.setWidth width)

/-- The key of a word, as a natural number. -/
def key (width : ℕ) (signed : Bool) (bits : BitVec 64) : ℕ := (orderKey width signed bits).toNat

lemma key_eq (hpos : 0 < width) (h : width ≤ 64) (bits : BitVec 64) :
    (key width signed bits : ℤ) = number width signed bits + bias width signed :=
  orderKey_eq hpos h bits

lemma key_le_key (hpos : 0 < width) (h : width ≤ 64) {bits' : BitVec 64} :
    key width signed bits ≤ key width signed bits' ↔
      number width signed bits ≤ number width signed bits' := by
  have hkey := @key_eq width signed hpos h bits
  have hkey' := @key_eq width signed hpos h bits'
  omega

/-- The value that a range ends with. -/
def ErrorRangeSyntax.last (range : ErrorRangeSyntax) : ErrorValueSyntax :=
  range.upper.getD range.lower

/-- A number lies in a range as it is written. -/
def Contains (constants : String → Option PredicateConstant) (range : ErrorRangeSyntax) (x : ℤ) :
    Prop :=
  ∃ lower upper, writtenValue constants range.lower = some lower ∧
    writtenValue constants range.last = some upper ∧ lower ≤ x ∧ x ≤ upper

variable {range : ErrorRangeSyntax}

lemma rangeBits_eq :
    rangeBits width signed constants range =
      match valueBits width signed constants range.lower,
        valueBits width signed constants range.last with
      | some lower, some upper =>
        if key width signed upper < key width signed lower then none
        else some { lower := lower, upper := upper }
      | _, _ => none := by
  unfold rangeBits ErrorRangeSyntax.last
  cases range.upper <;> rfl

variable {interval : Intervals.Interval (BitVec 64)}

/-- The words of a range stand for its ends, in order. -/
lemma rangeBits_eq_some (hpos : 0 < width) (h : width ≤ 64)
    (hrange : rangeBits width signed constants range = some interval) :
    writtenValue constants range.lower = some (number width signed interval.lower) ∧
      writtenValue constants range.last = some (number width signed interval.upper) ∧
      key width signed interval.lower ≤ key width signed interval.upper := by
  rw [rangeBits_eq] at hrange
  split at hrange
  · rename_i lower upper hlower hupper
    split at hrange
    · simp at hrange
    · rename_i hordered
      obtain rfl := Option.some.inj hrange
      exact ⟨valueBits_eq_some hpos h hlower, valueBits_eq_some hpos h hupper,
        Nat.le_of_not_lt hordered⟩
  · simp at hrange

lemma contains_iff (hpos : 0 < width) (h : width ≤ 64)
    (hrange : rangeBits width signed constants range = some interval) {x : ℤ} :
    Contains constants range x ↔
      number width signed interval.lower ≤ x ∧ x ≤ number width signed interval.upper := by
  obtain ⟨hlower, hupper, -⟩ := rangeBits_eq_some hpos h hrange
  simp [Contains, hlower, hupper]

/-! ## Merging -/

/-- The guard of the loop, which keeps the key from wrapping around. -/
lemma touches_iff (hpos : 0 < width) (h : width ≤ 64) {current next : BitVec 64} :
    (orderKey width signed next ≤ orderKey width signed current ∨
      (orderKey width signed current ≠ mask width ∧
        orderKey width signed next = orderKey width signed current + 1)) ↔
      key width signed next ≤ key width signed current + 1 := by
  have hnext := @orderKey_le_mask width hpos h signed next
  have hcurrent := @orderKey_le_mask width hpos h signed current
  have hmask := toNat_mask h
  have hlt := (mask width).isLt
  have hone : (1 : BitVec 64).toNat = 1 := rfl
  rw [BitVec.le_def, Ne, ← BitVec.toNat_inj, ← BitVec.toNat_inj, BitVec.toNat_add, hmask, hone]
  unfold key
  omega

lemma mergeStep_eq (hpos : 0 < width) (h : width ≤ 64) :
    mergeStep width signed = Intervals.mergeInto (key width signed) := by
  funext merged range
  unfold mergeStep Intervals.mergeInto
  cases merged.getLast? with
  | none => rfl
  | some last => exact if_congr (touches_iff hpos h) (if_congr BitVec.lt_def rfl rfl) rfl

variable {intervals : List (Intervals.Interval (BitVec 64))}

lemma mergeSort_pairwise :
    (intervals.mergeSort (precedes width signed)).Pairwise fun earlier later =>
      key width signed earlier.lower ≤ key width signed later.lower := by
  have htrans : ∀ a b c : Intervals.Interval (BitVec 64), precedes width signed a b = true →
      precedes width signed b c = true → precedes width signed a c = true := by
    intro a b c hab hbc
    simp only [precedes, decide_eq_true_eq, BitVec.lt_def, BitVec.le_def, ← BitVec.toNat_inj]
      at hab hbc ⊢
    omega
  have htotal : ∀ a b : Intervals.Interval (BitVec 64),
      (precedes width signed a b || precedes width signed b a) = true := by
    intro a b
    simp only [precedes, Bool.or_eq_true, decide_eq_true_eq, BitVec.lt_def, BitVec.le_def,
      ← BitVec.toNat_inj]
    omega
  refine (List.pairwise_mergeSort htrans htotal intervals).imp fun {a b} hab => ?_
  simp only [precedes, decide_eq_true_eq, BitVec.lt_def, ← BitVec.toNat_inj] at hab
  unfold key
  omega

/-- Merging keeps what is covered, and leaves intervals that neither meet nor touch. -/
lemma mergeIntervals_spec (hpos : 0 < width) (h : width ≤ 64)
    (hintervals : ∀ interval ∈ intervals,
      key width signed interval.lower ≤ key width signed interval.upper) :
    Intervals.Apart (key width signed) (mergeIntervals width signed intervals) ∧
      ∀ x, Intervals.Covers (key width signed) (mergeIntervals width signed intervals) x ↔
        Intervals.Covers (key width signed) intervals x := by
  have hperm := List.mergeSort_perm intervals (precedes width signed)
  obtain ⟨hapart, hcovers⟩ := @Intervals.foldl_mergeInto _ (key width signed) []
    (intervals.mergeSort (precedes width signed)) ⟨by simp, .nil⟩
    (fun range hmem => hintervals range (hperm.mem_iff.mp hmem)) mergeSort_pairwise (by simp)
  rw [mergeIntervals, mergeStep_eq hpos h]
  refine ⟨hapart, fun x => (hcovers x).trans ?_⟩
  simp [Intervals.Covers, hperm.mem_iff]

/-- A word of the width lies in the intervals when its number does. -/
lemma covers_iff (hpos : 0 < width) (h : width ≤ 64) :
    Intervals.Covers (key width signed) intervals (key width signed bits) ↔
      ∃ interval ∈ intervals, number width signed interval.lower ≤ number width signed bits ∧
        number width signed bits ≤ number width signed interval.upper := by
  simp only [Intervals.Covers, key_le_key hpos h]

/-! ## Below a word -/

lemma number_signBit (hpos : 0 < width) (h : width ≤ 64) :
    number width signed (signBit width signed) = minimum width signed := by
  have hkey : key width signed (signBit width signed) = 0 := by
    have hsign := @toNat_signBit width hpos h signed
    rw [key, orderKey, BitVec.toNat_xor, BitVec.toNat_and, toNat_mask h, hsign,
      Nat.and_two_pow_sub_one_eq_mod, Nat.mod_eq_of_lt (bias_lt hpos), Nat.xor_self]
  have heq := @key_eq width signed hpos h (signBit width signed)
  unfold minimum
  omega

/-- The least number is below all the others. -/
lemma minimum_le_number (hpos : 0 < width) (h : width ≤ 64) (bits : BitVec 64) :
    minimum width signed ≤ number width signed bits := by
  have heq := @key_eq width signed hpos h bits
  unfold minimum
  omega

lemma toNat_pred {bits : BitVec 64} (h : bits.toNat ≠ 0) : (bits - 1).toNat = bits.toNat - 1 := by
  have hlt := bits.isLt
  have hone : (1 : BitVec 64).toNat = 1 := rfl
  rw [BitVec.toNat_sub, hone]
  omega

/-- The word of a key. -/
lemma key_flip (hpos : 0 < width) (h : width ≤ 64) {bits : BitVec 64}
    (hbits : bits.toNat ≤ 2 ^ width - 1) :
    key width signed ((bits ^^^ signBit width signed) &&& mask width) = bits.toNat := by
  have hwpos : 0 < 2 ^ width := Nat.two_pow_pos width
  have hsign : (signBit width signed).toNat < 2 ^ width := by
    rw [toNat_signBit hpos h]
    exact bias_lt hpos
  have hxor : (bits ^^^ signBit width signed).toNat < 2 ^ width := by
    rw [BitVec.toNat_xor]
    exact Nat.xor_lt_two_pow (by omega) hsign
  rw [key, orderKey, BitVec.toNat_xor, BitVec.toNat_and, BitVec.toNat_and, toNat_mask h,
    Nat.and_two_pow_sub_one_eq_mod, Nat.and_two_pow_sub_one_eq_mod, Nat.mod_mod,
    Nat.mod_eq_of_lt hxor, BitVec.toNat_xor, Nat.xor_assoc, Nat.xor_self, Nat.xor_zero]

/-- The interval below a word ends with the number before that of the word. -/
lemma intervalBelow_eq (hpos : 0 < width) (h : width ≤ 64) {boundary : BitVec 64} :
    (number width signed boundary = minimum width signed ∧
        intervalBelow width signed boundary = none) ∨
      (minimum width signed < number width signed boundary ∧
        ∃ interval, intervalBelow width signed boundary = some interval ∧
          number width signed interval.lower = minimum width signed ∧
          number width signed interval.upper = number width signed boundary - 1) := by
  have heq := @key_eq width signed hpos h boundary
  by_cases hzero : orderKey width signed boundary = 0
  · left
    have hkey : key width signed boundary = 0 := by rw [key, hzero]; rfl
    refine ⟨by unfold minimum; omega, ?_⟩
    rw [intervalBelow]
    exact if_pos hzero
  · right
    have hkey : key width signed boundary ≠ 0 := by
      intro hkey
      exact hzero (BitVec.toNat_inj.mp hkey)
    refine ⟨by unfold minimum; omega, _, if_neg hzero, number_signBit hpos h, ?_⟩
    have hupper := @key_eq width signed hpos h
      (((orderKey width signed boundary - 1) ^^^ signBit width signed) &&& mask width)
    have hbefore := @key_flip width signed hpos h (orderKey width signed boundary - 1) (by
      rw [toNat_pred (by simpa [key] using hkey)]
      have hle := @orderKey_le_mask width hpos h signed boundary
      omega)
    rw [hbefore, toNat_pred (by simpa [key] using hkey)] at hupper
    have hpred : key width signed boundary = (orderKey width signed boundary).toNat := rfl
    show number width signed
      (((orderKey width signed boundary - 1) ^^^ signBit width signed) &&& mask width) = _
    omega

/-! ## The predicate as a whole -/

/-- A comparison with one value, or a set. -/
structure WellFormed (contract : ErrorContractSyntax) : Prop where
  predicate : contract.predicate ∈
    [ErrorPredicateKind.equal, .notEqual, .less, .inSet, .notInSet]
  single : contract.predicate ∈ [ErrorPredicateKind.equal, .notEqual, .less] →
    ∃ written, contract.ranges = [{ lower := written }]

/-- A number satisfies the predicate as it is written. -/
def Satisfies (constants : String → Option PredicateConstant) (contract : ErrorContractSyntax)
    (x : ℤ) : Prop :=
  match contract.predicate with
  | .equal => ∃ range ∈ contract.ranges, writtenValue constants range.lower = some x
  | .notEqual => ¬ ∃ range ∈ contract.ranges, writtenValue constants range.lower = some x
  | .less => ∃ range ∈ contract.ranges, ∃ bound,
      writtenValue constants range.lower = some bound ∧ x < bound
  | .inSet => ∃ range ∈ contract.ranges, Contains constants range x
  | .notInSet => ¬ ∃ range ∈ contract.ranges, Contains constants range x
  | _ => False

/-- The number of a word lies in one of the intervals. -/
def Within (normalized : NormalizedError) (x : ℤ) : Prop :=
  ∃ interval ∈ normalized.intervals,
    number normalized.width normalized.signed interval.lower ≤ x ∧
      x ≤ number normalized.width normalized.signed interval.upper

/-- A word is an error. -/
def Flags (normalized : NormalizedError) (bits : BitVec normalized.width) : Prop :=
  if normalized.inverted then ¬ Within normalized (value normalized.signed bits)
  else Within normalized (value normalized.signed bits)

/-- The values of a contract are numbers of the type, its ranges are in order, and the bound of a
comparison is not the least number; a sign is written only where the type has one. -/
structure Acceptable (width : ℕ) (signed : Bool) (constants : String → Option PredicateConstant)
    (contract : ErrorContractSyntax) : Prop where
  nonempty : contract.ranges ≠ []
  ranges : ∀ range ∈ contract.ranges, ∃ lower upper,
    writtenValue constants range.lower = some lower ∧
      writtenValue constants range.last = some upper ∧ minimum width signed ≤ lower ∧
      lower ≤ upper ∧ upper ≤ maximum width signed
  signs : signed = false → ∀ range ∈ contract.ranges, ∀ written ∈ [range.lower, range.last],
    ∀ constant, resolveValue constants written = some constant → constant.negative = false
  above : contract.predicate = .less → ∀ range ∈ contract.ranges,
    writtenValue constants range.lower ≠ some (minimum width signed)

lemma mem_of_mapM {α β : Type} {f : α → Option β} {as : List α} {bs : List β}
    (h : as.mapM f = some bs) :
    (∀ b ∈ bs, ∃ a ∈ as, f a = some b) ∧ ∀ a ∈ as, ∃ b ∈ bs, f a = some b := by
  induction as generalizing bs with
  | nil =>
    obtain rfl : [] = bs := by simpa using h
    simp
  | cons a as ih =>
    rw [List.mapM_cons] at h
    obtain ⟨b, hb, h⟩ := Option.bind_eq_some_iff.mp h
    obtain ⟨bs', hbs, h⟩ := Option.bind_eq_some_iff.mp h
    obtain rfl : b :: bs' = bs := by simpa using h
    obtain ⟨hleft, hright⟩ := ih hbs
    refine ⟨fun c hc => ?_, fun c hc => ?_⟩
    · obtain rfl | hc := List.mem_cons.mp hc
      · exact ⟨a, by simp, hb⟩
      · obtain ⟨a', ha', hc⟩ := hleft c hc
        exact ⟨a', List.mem_cons_of_mem _ ha', hc⟩
    · obtain rfl | hc := List.mem_cons.mp hc
      · exact ⟨b, by simp, hb⟩
      · obtain ⟨b', hb', hc⟩ := hright c hc
        exact ⟨b', List.mem_cons_of_mem _ hb', hc⟩

lemma exists_mapM {α β : Type} {f : α → Option β} {as : List α}
    (h : ∀ a ∈ as, ∃ b, f a = some b) : ∃ bs, as.mapM f = some bs := by
  induction as with
  | nil => exact ⟨[], by simp⟩
  | cons a as ih =>
    obtain ⟨b, hb⟩ := h a (by simp)
    obtain ⟨bs, hbs⟩ := ih fun a' ha' => h a' (List.mem_cons_of_mem _ ha')
    exact ⟨b :: bs, by simp [List.mapM_cons, hb, hbs]⟩

/-- What the predicate lists, whether it is for an error or for what is none. -/
def Listed (constants : String → Option PredicateConstant) (contract : ErrorContractSyntax) (x : ℤ) :
    Prop :=
  if contract.predicate = .less then
    ∃ range ∈ contract.ranges, ∃ bound, writtenValue constants range.lower = some bound ∧ x < bound
  else ∃ range ∈ contract.ranges, Contains constants range x

/-- A range of one value. -/
lemma contains_single {x : ℤ} :
    Contains constants { lower := written } x ↔ writtenValue constants written = some x := by
  constructor
  · rintro ⟨lower, upper, hlower, hupper, hle, hge⟩
    obtain rfl := Option.some.inj (hlower.symm.trans hupper)
    rw [hlower, le_antisymm hle hge]
  · intro h
    exact ⟨x, x, h, h, le_rfl, le_rfl⟩

variable {context : Context} {contract : ErrorContractSyntax}

/-- The intervals before they are merged. -/
lemma integerSet_spec (hresult : context.result = .integer width signed) (hpos : 0 < width)
    (h : width ≤ 64) (hform : WellFormed contract)
    (hset : integerSet context contract = some intervals) :
    (∀ interval ∈ intervals,
      key width signed interval.lower ≤ key width signed interval.upper) ∧
    ∀ x, minimum width signed ≤ x →
      ((∃ interval ∈ intervals,
        number width signed interval.lower ≤ x ∧ x ≤ number width signed interval.upper) ↔
      Listed context.predicateConstants contract x) := by
  have hwidth : context.width = width := by simp [Context.width, hresult]
  have hsigned : context.signed = signed := by simp [Context.signed, hresult]
  unfold integerSet at hset
  rw [hwidth, hsigned] at hset
  split at hset
  · simp at hset
  split at hset
  · simp at hset
  rename_i words hwords
  obtain ⟨hleft, hright⟩ := mem_of_mapM hwords
  split at hset
  · rename_i hless
    obtain ⟨written, hranges⟩ := hform.single (by simp [hless])
    rw [hranges] at hwords
    obtain ⟨first, hrange, rfl⟩ : ∃ first,
        rangeBits width signed context.predicateConstants { lower := written } = some first ∧
          words = [first] := by
      rw [List.mapM_cons] at hwords
      obtain ⟨first, hfirst, hwords⟩ := Option.bind_eq_some_iff.mp hwords
      exact ⟨first, hfirst, by simpa [eq_comm] using hwords⟩
    have hwritten := (rangeBits_eq_some hpos h hrange).1
    obtain ⟨-, hnone⟩ | ⟨habove, interval, hinterval, hlower, hupper⟩ :=
      @intervalBelow_eq width signed hpos h first.lower
    · simp [hnone] at hset
    obtain rfl : [interval] = intervals := by simpa [hinterval] using hset
    refine ⟨fun other hmem => ?_, fun x hx => ?_⟩
    · obtain rfl := List.mem_singleton.mp hmem
      rw [key_le_key hpos h, hlower, hupper]
      omega
    · rw [Listed, if_pos hless, hranges]
      constructor
      · rintro ⟨other, hmem, -, hle⟩
        obtain rfl := List.mem_singleton.mp hmem
        exact ⟨_, List.mem_singleton_self _, _, hwritten, by omega⟩
      · rintro ⟨range, hmem, bound, hbound, hlt⟩
        obtain rfl := List.mem_singleton.mp hmem
        obtain rfl := Option.some.inj (hwritten.symm.trans hbound)
        exact ⟨interval, List.mem_singleton_self _, by omega, by omega⟩
  · rename_i hless
    obtain rfl := Option.some.inj hset
    refine ⟨fun interval hmem => ?_, fun x hx => ?_⟩
    · obtain ⟨range, -, hrange⟩ := hleft interval hmem
      exact (rangeBits_eq_some hpos h hrange).2.2
    · rw [Listed, if_neg hless]
      constructor
      · rintro ⟨interval, hmem, hle⟩
        obtain ⟨range, hrange, hbits⟩ := hleft interval hmem
        exact ⟨range, hrange, (contains_iff hpos h hbits).mpr hle⟩
      · rintro ⟨range, hrange, hcontains⟩
        obtain ⟨interval, hmem, hbits⟩ := hright range hrange
        exact ⟨interval, hmem, (contains_iff hpos h hbits).mp hcontains⟩

lemma normalize_integer (hform : WellFormed contract) :
    normalizeErrorPredicate context contract =
      (integerSet context contract).map fun intervals => {
        predicate := .integerSet
        intervals := mergeIntervals context.width context.signed intervals
        width := context.width
        signed := context.signed
        inverted := decide (contract.predicate = .notEqual ∨ contract.predicate = .notInSet) } := by
  have hpredicate := hform.predicate
  unfold normalizeErrorPredicate
  cases hkind : contract.predicate <;> simp [hkind] at hpredicate ⊢ <;> rfl

lemma satisfies_iff (hform : WellFormed contract) {x : ℤ} :
    Satisfies constants contract x ↔
      if contract.predicate = .notEqual ∨ contract.predicate = .notInSet then
        ¬ Listed constants contract x
      else Listed constants contract x := by
  have hsingle : contract.predicate ∈ [ErrorPredicateKind.equal, .notEqual, .less] →
      ((∃ range ∈ contract.ranges, writtenValue constants range.lower = some x) ↔
        ∃ range ∈ contract.ranges, Contains constants range x) := by
    intro hmem
    obtain ⟨written, hranges⟩ := hform.single hmem
    simp [hranges, contains_single]
  have hpredicate := hform.predicate
  unfold Satisfies Listed
  cases hkind : contract.predicate <;> simp only [hkind] at hpredicate hsingle ⊢
  · simp at hpredicate
  · simpa using hsingle (by simp)
  · simpa using not_congr (hsingle (by simp))
  all_goals simp at hpredicate ⊢

/-- A range of numbers of the type has words. -/
lemma exists_rangeBits (hpos : 0 < width) (h : width ≤ 64)
    (hacceptable : Acceptable width signed constants contract) (hmem : range ∈ contract.ranges) :
    ∃ interval, rangeBits width signed constants range = some interval := by
  obtain ⟨lower, upper, hlower, hupper, hmin, hle, hmax⟩ := hacceptable.ranges range hmem
  have hsigns := fun hsigned => hacceptable.signs hsigned range hmem
  obtain ⟨first, hfirst⟩ := exists_valueBits hpos h hlower hmin (by omega)
    fun hsigned => hsigns hsigned _ (by simp)
  obtain ⟨last, hlast⟩ := exists_valueBits hpos h hupper (by omega) hmax
    fun hsigned => hsigns hsigned _ (by simp)
  have hordered : ¬ key width signed last < key width signed first := by
    have hfirst' := valueBits_eq_some hpos h hfirst
    have hlast' := valueBits_eq_some hpos h hlast
    obtain rfl := Option.some.inj (hlower.symm.trans hfirst')
    obtain rfl := Option.some.inj (hupper.symm.trans hlast')
    exact Nat.not_lt.mpr ((key_le_key hpos h).mpr hle)
  rw [rangeBits_eq, hfirst, hlast]
  exact ⟨_, if_neg hordered⟩

lemma exists_integerSet (hresult : context.result = .integer width signed) (hpos : 0 < width)
    (h : width ≤ 64) (hacceptable : Acceptable width signed context.predicateConstants contract) :
    ∃ intervals, integerSet context contract = some intervals := by
  have hwidth : context.width = width := by simp [Context.width, hresult]
  have hsigned : context.signed = signed := by simp [Context.signed, hresult]
  have hinteger : context.integerResult = true := by simp [Context.integerResult, hresult]
  obtain ⟨words, hwords⟩ := exists_mapM fun range hmem =>
    exists_rangeBits hpos h hacceptable hmem
  unfold integerSet
  rw [if_neg (by simp [hinteger, hacceptable.nonempty]), hwidth, hsigned, hwords]
  simp only
  split
  · rename_i hless
    cases words with
    | nil => exact ⟨_, rfl⟩
    | cons first rest =>
      obtain ⟨range, hmem, hrange⟩ := (mem_of_mapM hwords).1 first (by simp)
      have hwritten := (rangeBits_eq_some hpos h hrange).1
      have habove := hacceptable.above hless range hmem
      obtain ⟨hmin, -⟩ | ⟨-, interval, hinterval, -⟩ :=
        @intervalBelow_eq width signed hpos h first.lower
      · exact absurd (hmin ▸ hwritten) habove
      · exact ⟨interval :: rest, by simp [hinterval]⟩
  · exact ⟨_, rfl⟩

lemma setWidth_setWidth (h : width ≤ 64) (bits : BitVec width) :
    (bits.setWidth 64).setWidth width = bits := by
  have hlt := bits.isLt
  have hle : 2 ^ width ≤ 2 ^ 64 := Nat.pow_le_pow_right (by decide) h
  have hword : bits.toNat % 2 ^ 64 = bits.toNat := Nat.mod_eq_of_lt (by omega)
  apply BitVec.eq_of_toNat_eq
  rw [BitVec.toNat_setWidth, BitVec.toNat_setWidth, hword, Nat.mod_eq_of_lt hlt]

/-- The intervals of a predicate on integers hold the words whose numbers satisfy it, and they are
apart from one another, in the order of the numbers; and a contract with values of the type, ranges
in order and a bound above the least number is not refused for its predicate. -/
theorem normalize_exact {width : ℕ} {signed : Bool} (hpos : 0 < width) (h : width ≤ 64)
    (context : Context) (hresult : context.result = .integer width signed)
    (contract : ErrorContractSyntax) (hform : WellFormed contract) :
    (∀ normalized, normalizeErrorPredicate context contract = some normalized →
      normalized.width = width ∧ normalized.signed = signed ∧
      (∀ bits : BitVec normalized.width, Flags normalized bits ↔
        Satisfies context.predicateConstants contract (value normalized.signed bits)) ∧
      (∀ interval ∈ normalized.intervals,
        number width signed interval.lower ≤ number width signed interval.upper) ∧
      normalized.intervals.Pairwise fun earlier later =>
        number width signed earlier.upper + 1 < number width signed later.lower) ∧
    (Acceptable width signed context.predicateConstants contract →
      ∃ normalized, normalizeErrorPredicate context contract = some normalized) := by
  rw [normalize_integer hform]
  refine ⟨fun normalized hnormalized => ?_, fun hacceptable => ?_⟩
  · obtain ⟨intervals, hset, rfl⟩ := Option.map_eq_some_iff.mp hnormalized
    obtain ⟨hordered, hlisted⟩ := integerSet_spec hresult hpos h hform hset
    obtain rfl : context.width = width := by simp [Context.width, hresult]
    obtain rfl : context.signed = signed := by simp [Context.signed, hresult]
    obtain ⟨hapart, hcovers⟩ := mergeIntervals_spec hpos h hordered
    refine ⟨rfl, rfl, fun bits => ?_, fun interval hmem => ?_, hapart.pairwise.imp ?_⟩
    · have hnumber : number context.width context.signed (bits.setWidth 64) =
          value context.signed bits := by
        rw [number, setWidth_setWidth h bits]
      have hwithin := (covers_iff hpos h).symm.trans
        ((hcovers (key context.width context.signed (bits.setWidth 64))).trans
          ((covers_iff hpos h).trans (hlisted _ (minimum_le_number hpos h (bits.setWidth 64)))))
      rw [hnumber] at hwithin
      rw [satisfies_iff hform, ← hwithin]
      simp only [Flags, Within, decide_eq_true_eq]
    · exact (key_le_key hpos h).mp (hapart.nonempty interval hmem)
    · intro earlier later hlt
      have hupper := @key_eq context.width context.signed hpos h earlier.upper
      have hlower := @key_eq context.width context.signed hpos h later.lower
      omega
  · obtain ⟨intervals, hset⟩ := exists_integerSet hresult hpos h hacceptable
    exact ⟨_, by rw [hset]; rfl⟩

/-- A result of one byte. -/
def byteResult (signed : Bool) : Context where
  result := .integer 8 signed
  pointerWidth := 64
  targetIsWindows := false
  nominal := none
  predicateConstants _ := none

/-- `result < 0`. -/
def belowZero : ErrorContractSyntax where
  domain := .errno
  predicate := .less
  ranges := [{ lower := { magnitude := 0 } }]

/-- The negative numbers are told apart. -/
theorem belowZero_normalized :
    ∃ normalized, normalizeErrorPredicate (byteResult true) belowZero = some normalized ∧
      ∀ bits : BitVec normalized.width, Flags normalized bits ↔
        Satisfies (fun _ => none) belowZero (value normalized.signed bits) := by
  have hform : WellFormed belowZero := ⟨by decide, fun _ => ⟨_, rfl⟩⟩
  obtain ⟨hexact, hexists⟩ := normalize_exact (by decide) (by decide) (byteResult true) rfl
    belowZero hform
  obtain ⟨normalized, hnormalized⟩ := hexists {
    nonempty := by simp [belowZero]
    ranges := by
      intro range hmem
      obtain rfl := List.mem_singleton.mp hmem
      exact ⟨0, 0, by decide, by decide, by decide, by decide, by decide⟩
    signs := by simp
    above := by
      intro _ range hmem
      obtain rfl := List.mem_singleton.mp hmem
      decide }
  exact ⟨normalized, hnormalized, (hexact normalized hnormalized).2.2.1⟩

/-- `result == -0`. -/
def equalsNegativeZero : ErrorContractSyntax where
  domain := .errno
  predicate := .equal
  ranges := [{ lower := { magnitude := 0, negative := true } }]

/-- The value is a number of the unsigned type, and the contract is refused for its predicate. -/
theorem equalsNegativeZero_refused :
    WellFormed equalsNegativeZero ∧
      (∀ range ∈ equalsNegativeZero.ranges, ∃ lower upper,
        writtenValue (byteResult false).predicateConstants range.lower = some lower ∧
        writtenValue (byteResult false).predicateConstants range.last = some upper ∧
        minimum 8 false ≤ lower ∧ lower ≤ upper ∧ upper ≤ maximum 8 false) ∧
      normalizeErrorPredicate (byteResult false) equalsNegativeZero = none := by
  refine ⟨⟨by decide, fun _ => ⟨_, rfl⟩⟩, fun range hmem => ?_, ?_⟩
  · obtain rfl := List.mem_singleton.mp hmem
    exact ⟨0, 0, by decide, by decide, by decide, by decide, by decide⟩
  · rfl

end

end ErrorContract

end Chtholly
