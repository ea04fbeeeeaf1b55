import Mathlib.Data.List.Pairwise
import Mathlib.Order.Basic

/-!
# Merging intervals

Intervals are put together from the left to the right: one that meets or touches the last of those
there are extends it, another one is added.  When the intervals come in the order of their lower
ends, the result covers what they cover, and no two intervals of the result meet or touch.

The ends are compared by a key in the natural numbers.

## Main definitions

* `Intervals.Interval`, `Intervals.Covers` — intervals, and what they cover.
* `Intervals.mergeInto` — one more interval.
* `Intervals.Apart` — intervals that neither meet nor touch, in order.

## Main results

* `Intervals.apart_mergeInto`, `Intervals.covers_mergeInto` — one step.
* `Intervals.foldl_mergeInto` — all steps.
-/

set_option autoImplicit false

namespace Chtholly

namespace Intervals

structure Interval (α : Type*) where
  lower : α
  upper : α
  deriving DecidableEq

variable {α : Type*} (key : α → ℕ)

/-- A point lies in one of the intervals. -/
def Covers (intervals : List (Interval α)) (x : ℕ) : Prop :=
  ∃ interval ∈ intervals, key interval.lower ≤ x ∧ x ≤ key interval.upper

/-- One more interval, whose lower end is not below those there are. -/
def mergeInto (merged : List (Interval α)) (range : Interval α) : List (Interval α) :=
  match merged.getLast? with
  | none => merged ++ [range]
  | some last =>
    if key range.lower ≤ key last.upper + 1 then
      if key last.upper < key range.upper then
        merged.dropLast ++ [{ last with upper := range.upper }]
      else merged
    else merged ++ [range]

/-- None of the intervals is empty, and each of them ends before the point below the next one. -/
structure Apart (intervals : List (Interval α)) : Prop where
  nonempty : ∀ interval ∈ intervals, key interval.lower ≤ key interval.upper
  pairwise : intervals.Pairwise fun earlier later => key earlier.upper + 1 < key later.lower

variable {key}

/-- What the step does, by the last interval there is. -/
lemma mergeInto_cases (merged : List (Interval α)) (range : Interval α) :
    (merged = [] ∧ mergeInto key merged range = [range]) ∨
      ∃ before last, merged = before ++ [last] ∧
        ((key range.lower ≤ key last.upper + 1 ∧ key last.upper < key range.upper ∧
            mergeInto key merged range = before ++ [{ last with upper := range.upper }]) ∨
          (key range.upper ≤ key last.upper ∧ mergeInto key merged range = merged) ∨
          (key last.upper + 1 < key range.lower ∧
            mergeInto key merged range = merged ++ [range])) := by
  obtain rfl | ⟨before, last, rfl⟩ := List.eq_nil_or_concat merged
  · exact Or.inl ⟨rfl, rfl⟩
  refine Or.inr ⟨before, last, List.concat_eq_append, ?_⟩
  rw [List.concat_eq_append, mergeInto, List.getLast?_concat, List.dropLast_concat]
  simp only
  split_ifs with htouch hlonger
  · exact Or.inl ⟨htouch, hlonger, rfl⟩
  · exact Or.inr (Or.inl ⟨by omega, rfl⟩)
  · exact Or.inr (Or.inr ⟨by omega, rfl⟩)

variable {merged : List (Interval α)} {range : Interval α}

/-- The lower ends of the result are lower ends of what has been put together. -/
lemma exists_lower_of_mem_mergeInto {interval : Interval α}
    (h : interval ∈ mergeInto key merged range) :
    interval.lower = range.lower ∨ ∃ other ∈ merged, interval.lower = other.lower := by
  obtain ⟨rfl, heq⟩ | ⟨before, last, rfl, ⟨-, -, heq⟩ | ⟨-, heq⟩ | ⟨-, heq⟩⟩ :=
    @mergeInto_cases _ key merged range
  all_goals rw [heq] at h
  · exact Or.inl (by rw [List.mem_singleton.mp h])
  · obtain hmem | hmem := List.mem_append.mp h
    · exact Or.inr ⟨interval, List.mem_append_left _ hmem, rfl⟩
    · exact Or.inr ⟨last, by simp, by rw [List.mem_singleton.mp hmem]⟩
  · exact Or.inr ⟨interval, h, rfl⟩
  · obtain hmem | hmem := List.mem_append.mp h
    · exact Or.inr ⟨interval, hmem, rfl⟩
    · exact Or.inl (by rw [List.mem_singleton.mp hmem])

lemma covers_append {intervals : List (Interval α)} {interval : Interval α} {x : ℕ} :
    Covers key (intervals ++ [interval]) x ↔
      Covers key intervals x ∨ (key interval.lower ≤ x ∧ x ≤ key interval.upper) := by
  constructor
  · rintro ⟨other, hmem, hx⟩
    obtain hmem | hmem := List.mem_append.mp hmem
    · exact Or.inl ⟨other, hmem, hx⟩
    · exact Or.inr (List.mem_singleton.mp hmem ▸ hx)
  · rintro (⟨other, hmem, hx⟩ | hx)
    · exact ⟨other, List.mem_append_left _ hmem, hx⟩
    · exact ⟨interval, by simp, hx⟩

/-- A step covers what was covered, and the new interval. -/
theorem covers_mergeInto (hlower : ∀ interval ∈ merged, key interval.lower ≤ key range.lower)
    {x : ℕ} :
    Covers key (mergeInto key merged range) x ↔
      Covers key merged x ∨ (key range.lower ≤ x ∧ x ≤ key range.upper) := by
  obtain ⟨rfl, heq⟩ | ⟨before, last, rfl, ⟨htouch, hlonger, heq⟩ | ⟨hwithin, heq⟩ | ⟨-, heq⟩⟩ :=
    @mergeInto_cases _ key merged range
  · rw [heq]
    exact @covers_append _ key [] range x
  · have hlast : key last.lower ≤ key range.lower := hlower last (by simp)
    rw [heq, covers_append, covers_append, or_assoc]
    refine or_congr_right ?_
    simp only
    omega
  · have hlast : key last.lower ≤ key range.lower := hlower last (by simp)
    rw [heq, covers_append, or_assoc]
    refine or_congr_right ?_
    omega
  · rw [heq, covers_append]

/-- A step keeps the intervals apart. -/
theorem apart_mergeInto (h : Apart key merged) (hrange : key range.lower ≤ key range.upper)
    (hlower : ∀ interval ∈ merged, key interval.lower ≤ key range.lower) :
    Apart key (mergeInto key merged range) := by
  obtain ⟨rfl, heq⟩ | ⟨before, last, rfl, ⟨htouch, hlonger, heq⟩ | ⟨hwithin, heq⟩ | ⟨hpast, heq⟩⟩ :=
    @mergeInto_cases _ key merged range
  · rw [heq]
    exact ⟨by simpa using hrange, List.pairwise_singleton _ _⟩
  · obtain ⟨hbefore, -, hlast⟩ := List.pairwise_append.mp h.pairwise
    have hstart : key last.lower ≤ key range.lower := hlower last (by simp)
    rw [heq]
    refine ⟨fun interval hmem => ?_, List.pairwise_append.mpr
      ⟨hbefore, List.pairwise_singleton _ _, fun earlier hmem later hlater => ?_⟩⟩
    · obtain hmem | hmem := List.mem_append.mp hmem
      · exact h.nonempty interval (List.mem_append_left _ hmem)
      · rw [List.mem_singleton.mp hmem]
        show key last.lower ≤ key range.upper
        omega
    · rw [List.mem_singleton.mp hlater]
      exact hlast earlier hmem last (by simp)
  · rw [heq]
    exact h
  · obtain ⟨-, -, hlast⟩ := List.pairwise_append.mp h.pairwise
    rw [heq]
    refine ⟨fun interval hmem => ?_, List.pairwise_append.mpr
      ⟨h.pairwise, List.pairwise_singleton _ _, fun earlier hmem later hlater => ?_⟩⟩
    · obtain hmem | hmem := List.mem_append.mp hmem
      · exact h.nonempty interval hmem
      · rw [List.mem_singleton.mp hmem]
        exact hrange
    · rw [List.mem_singleton.mp hlater]
      obtain hmem | hmem := List.mem_append.mp hmem
      · have hgap := hlast earlier hmem last (by simp)
        have hnonempty := h.nonempty last (by simp)
        omega
      · rw [List.mem_singleton.mp hmem]
        exact hpast

/-- All the steps, over intervals in the order of their lower ends. -/
theorem foldl_mergeInto {ranges : List (Interval α)} (h : Apart key merged)
    (hranges : ∀ range ∈ ranges, key range.lower ≤ key range.upper)
    (hsorted : ranges.Pairwise fun earlier later => key earlier.lower ≤ key later.lower)
    (hlower : ∀ interval ∈ merged, ∀ range ∈ ranges, key interval.lower ≤ key range.lower) :
    Apart key (ranges.foldl (mergeInto key) merged) ∧
      ∀ x, Covers key (ranges.foldl (mergeInto key) merged) x ↔
        Covers key merged x ∨ Covers key ranges x := by
  induction ranges generalizing merged with
  | nil => exact ⟨h, fun x => by simp [Covers]⟩
  | cons range ranges ih =>
    obtain ⟨hfirst, hsorted⟩ := List.pairwise_cons.mp hsorted
    have hmerged : ∀ interval ∈ merged, key interval.lower ≤ key range.lower :=
      fun interval hmem => hlower interval hmem range (by simp)
    have hnext : ∀ interval ∈ mergeInto key merged range, ∀ later ∈ ranges,
        key interval.lower ≤ key later.lower := by
      intro interval hmem later hlater
      obtain heq | ⟨other, hother, heq⟩ := exists_lower_of_mem_mergeInto hmem
      · rw [heq]
        exact hfirst later hlater
      · rw [heq]
        exact hlower other hother later (List.mem_cons_of_mem _ hlater)
    obtain ⟨hapart, hcovers⟩ := ih (apart_mergeInto h (hranges range (by simp)) hmerged)
      (fun later hlater => hranges later (List.mem_cons_of_mem _ hlater)) hsorted hnext
    refine ⟨hapart, fun x => ?_⟩
    rw [List.foldl_cons, hcovers, covers_mergeInto hmerged, or_assoc]
    simp [Covers]

end Intervals

end Chtholly
