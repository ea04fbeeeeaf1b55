import Mathlib.Algebra.Group.Nat.Defs
import Mathlib.Data.Prod.Lex
import Mathlib.Tactic.SplitIfs
import Mathlib.Order.Lattice

/-!
# Instants

An instant is a number of seconds and of nanoseconds, in a `uint64_t` and a `uint32_t`.

## Main definitions

* `Deadlines.NextTaskInstant`, `Deadlines.instantCompare`, `Deadlines.instantAdd` — instants.
* `Deadlines.NextTaskInstant.total` — the nanoseconds in an instant.

## Main results

* `Deadlines.instantAdd_eq` — a sum of instants is exact up to the largest instant.
-/

set_option autoImplicit false

namespace Chtholly

namespace Deadlines

structure NextTaskInstant where
  seconds : ℕ
  nanoseconds : ℕ
  deriving DecidableEq, Repr

/-- `CHTHOLLY_NEXT_TASK_NANOSECONDS_PER_SECOND`. -/
def nanosecondsPerSecond : ℕ := 1000000000

/-- `UINT64_MAX`. -/
def uint64Max : ℕ := 2 ^ 64 - 1

def instantCompare (left right : NextTaskInstant) : ℤ :=
  if left.seconds ≠ right.seconds then (if left.seconds < right.seconds then -1 else 1)
  else if left.nanoseconds ≠ right.nanoseconds then
    (if left.nanoseconds < right.nanoseconds then -1 else 1)
  else 0

def instantAdd (instant : NextTaskInstant) (nanoseconds : ℕ) : NextTaskInstant :=
  let seconds := nanoseconds / nanosecondsPerSecond
  let remainder := nanoseconds % nanosecondsPerSecond % 2 ^ 32
  if seconds > uint64Max - instant.seconds then
    { seconds := uint64Max, nanoseconds := nanosecondsPerSecond - 1 }
  else
    let sum := (instant.seconds + seconds) % 2 ^ 64
    if remainder ≥ nanosecondsPerSecond - instant.nanoseconds then
      if sum = uint64Max then { seconds := sum, nanoseconds := nanosecondsPerSecond - 1 }
      else
        { seconds := (sum + 1) % 2 ^ 64,
          nanoseconds := remainder - (nanosecondsPerSecond - instant.nanoseconds) }
    else { seconds := sum, nanoseconds := (instant.nanoseconds + remainder) % 2 ^ 32 }

/-- An instant as a clock gives it. -/
structure NextTaskInstant.Valid (instant : NextTaskInstant) : Prop where
  seconds_lt : instant.seconds < 2 ^ 64
  nanoseconds_lt : instant.nanoseconds < nanosecondsPerSecond

/-- The nanoseconds up to an instant. -/
def NextTaskInstant.total (instant : NextTaskInstant) : ℕ :=
  instant.seconds * nanosecondsPerSecond + instant.nanoseconds

def largestInstant : NextTaskInstant where
  seconds := uint64Max
  nanoseconds := nanosecondsPerSecond - 1

/-- The sum is exact up to the largest instant, and its nanoseconds stay below a second. -/
lemma instantAdd_eq {instant : NextTaskInstant} (h : instant.Valid) (nanoseconds : ℕ) :
    (instantAdd instant nanoseconds).Valid ∧
      (instantAdd instant nanoseconds).total =
        min (instant.total + nanoseconds) largestInstant.total := by
  obtain ⟨hseconds, hnano⟩ := h
  have hdiv := Nat.div_add_mod nanoseconds nanosecondsPerSecond
  have hmod := Nat.mod_lt nanoseconds (by decide : 0 < nanosecondsPerSecond)
  have hfits : nanoseconds % nanosecondsPerSecond % 2 ^ 32 = nanoseconds % nanosecondsPerSecond :=
    Nat.mod_eq_of_lt (hmod.trans (by decide))
  have hmax : 2 ^ 64 = uint64Max + 1 := by decide
  have hsmall : nanosecondsPerSecond ≤ 2 ^ 32 := by decide
  have hlargest : largestInstant.total =
      uint64Max * nanosecondsPerSecond + (nanosecondsPerSecond - 1) := rfl
  have hvalid : ∀ seconds nano, seconds ≤ uint64Max → nano < nanosecondsPerSecond →
      NextTaskInstant.Valid ⟨seconds, nano⟩ :=
    fun seconds nano hle hlt => ⟨by rw [hmax]; exact Nat.lt_succ_of_le hle, hlt⟩
  have htotal : ∀ seconds nano,
      NextTaskInstant.total ⟨seconds, nano⟩ = seconds * nanosecondsPerSecond + nano :=
    fun _ _ => rfl
  obtain ⟨seconds, nano⟩ := instant
  dsimp only at hseconds hnano
  unfold instantAdd
  simp only [hfits, hlargest, hmax]
  rw [hmax] at hseconds
  generalize nanoseconds / nanosecondsPerSecond = quotient at hdiv ⊢
  generalize nanoseconds % nanosecondsPerSecond = remainder at hdiv hmod ⊢
  generalize nanosecondsPerSecond = second at hdiv hmod hnano hsmall hvalid htotal ⊢
  generalize uint64Max = largest at hseconds hvalid ⊢
  generalize 2 ^ 32 = bound at hsmall ⊢
  have hproduct : (seconds + quotient) * second = seconds * second + second * quotient := by
    rw [Nat.add_mul, Nat.mul_comm quotient]
  by_cases hover : quotient > largest - seconds
  · have hle : (largest + 1) * second ≤ (seconds + quotient) * second :=
      Nat.mul_le_mul_right _ (by omega)
    rw [Nat.add_mul, Nat.one_mul] at hle
    rw [if_pos hover, htotal, htotal]
    exact ⟨hvalid _ _ le_rfl (by omega), by omega⟩
  have hsum : (seconds + quotient) % (largest + 1) = seconds + quotient :=
    Nat.mod_eq_of_lt (by omega)
  have hle : (seconds + quotient) * second ≤ largest * second :=
    Nat.mul_le_mul_right _ (by omega)
  rw [if_neg hover, hsum]
  by_cases hcarry : remainder ≥ second - nano
  · rw [if_pos hcarry]
    by_cases hlast : seconds + quotient = largest
    · rw [if_pos hlast, htotal, htotal]
      rw [hlast] at hproduct
      exact ⟨hvalid _ _ (by omega) (by omega), by rw [hlast]; omega⟩
    · have hnext : (seconds + quotient + 1) * second ≤ largest * second :=
        Nat.mul_le_mul_right _ (by omega)
      rw [Nat.add_mul, Nat.one_mul] at hnext
      rw [if_neg hlast, Nat.mod_eq_of_lt (show seconds + quotient + 1 < largest + 1 by omega),
        htotal, htotal, Nat.add_mul, Nat.one_mul]
      exact ⟨hvalid _ _ (by omega) (by omega), by omega⟩
  · rw [if_neg hcarry, Nat.mod_eq_of_lt (show nano + remainder < bound by omega), htotal, htotal]
    exact ⟨hvalid _ _ (by omega) (by omega), by omega⟩

/-- The order of instants. -/
lemma instantCompare_neg_iff (left right : NextTaskInstant) :
    instantCompare left right < 0 ↔
      left.seconds < right.seconds ∨
        left.seconds = right.seconds ∧ left.nanoseconds < right.nanoseconds := by
  unfold instantCompare
  split_ifs <;> omega

lemma instantCompare_eq_zero_iff (left right : NextTaskInstant) :
    instantCompare left right = 0 ↔ left = right := by
  obtain ⟨seconds, nanoseconds⟩ := left
  obtain ⟨seconds', nanoseconds'⟩ := right
  rw [NextTaskInstant.mk.injEq]
  unfold instantCompare
  dsimp only
  split_ifs <;> simp <;> omega

end Deadlines

end Chtholly
