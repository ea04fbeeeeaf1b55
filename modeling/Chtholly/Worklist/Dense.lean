import Mathlib.Data.List.Nodup
import Mathlib.Logic.Function.Basic

/-!
# The dense worklist

A worklist of ids below a bound (`DenseWorklist.h`).  An id that is pending is not put in again.  A
list that is used first in, first out keeps the ids that were taken and moves a head over them; one
that is used last in, first out shrinks.

## Main definitions

* `DenseWorklist` — the worklist; `DenseWorklist.pending` — what is still to be taken.
* `DenseWorklist.push`, `DenseWorklist.pop` — its operations.
* `DenseWorklist.Valid` — the marks of the ids are those of the pending ones.

## Main results

* `DenseWorklist.Valid.mem_pending_push` — after a push the id is pending, with all others.
* `DenseWorklist.Valid.pop_eq_some`, `DenseWorklist.Valid.pop_eq_none` — a pop takes one pending id,
  and it fails on empty lists only.
-/

set_option autoImplicit false

namespace Chtholly

inductive DenseWorklistOrder
  | fifo | lifo
  deriving DecidableEq

structure DenseWorklist where
  items : List ℕ
  idCount : ℕ
  queued : ℕ → Bool
  head : ℕ
  processedCount : ℕ
  peakPendingCount : ℕ
  order : DenseWorklistOrder

namespace DenseWorklist

def create (idCount : ℕ) (order : DenseWorklistOrder) : DenseWorklist where
  items := []
  idCount := idCount
  queued _ := false
  head := 0
  processedCount := 0
  peakPendingCount := 0
  order := order

def pendingCount (w : DenseWorklist) : ℕ :=
  w.items.length - w.head

/-- An id without a value has the largest index, which no worklist has room for. -/
def push (w : DenseWorklist) (id : ℕ) : DenseWorklist :=
  if w.idCount ≤ id ∨ w.queued id = true then w
  else
    { w with
      queued := Function.update w.queued id true
      items := w.items ++ [id]
      peakPendingCount := max w.peakPendingCount ((w.items ++ [id]).length - w.head) }

def pop (w : DenseWorklist) : Option (ℕ × DenseWorklist) :=
  if w.head = w.items.length then none
  else
    match w.order with
    | .fifo =>
      w.items[w.head]?.map fun id =>
        (id, { w with
          head := w.head + 1
          queued := Function.update w.queued id false
          processedCount := w.processedCount + 1 })
    | .lifo =>
      w.items.getLast?.map fun id =>
        (id, { w with
          items := w.items.dropLast
          queued := Function.update w.queued id false
          processedCount := w.processedCount + 1 })

def pushAll (w : DenseWorklist) (ids : List ℕ) : DenseWorklist :=
  ids.foldl push w

/-! ## The pending ids -/

def pending (w : DenseWorklist) : List ℕ :=
  w.items.drop w.head

lemma length_pending (w : DenseWorklist) : w.pending.length = w.pendingCount :=
  List.length_drop

/-- The marks are those of the pending ids, each of them is pending once, and the head moves only in
a list that is used first in, first out. -/
structure Valid (w : DenseWorklist) : Prop where
  queued : ∀ id, w.queued id = true ↔ id ∈ w.pending
  nodup : w.pending.Nodup
  bound : ∀ id ∈ w.pending, id < w.idCount
  head_le : w.head ≤ w.items.length
  head_lifo : w.order = .lifo → w.head = 0

lemma Valid.create (idCount : ℕ) (order : DenseWorklistOrder) : Valid (create idCount order) where
  queued _ := by simp [DenseWorklist.create, pending]
  nodup := by simp [DenseWorklist.create, pending]
  bound _ h := by simp [DenseWorklist.create, pending] at h
  head_le := Nat.zero_le _
  head_lifo _ := rfl

variable {w : DenseWorklist} {id : ℕ}

lemma Valid.pending_push (h : w.Valid) (id : ℕ) :
    (w.push id).pending =
      if id < w.idCount ∧ id ∉ w.pending then w.pending ++ [id] else w.pending := by
  rw [push]
  by_cases hcond : w.idCount ≤ id ∨ w.queued id = true
  · rw [if_pos hcond, if_neg]
    rintro ⟨hlt, hmem⟩
    rcases hcond with hle | hqueued
    · omega
    · exact hmem ((h.queued id).1 hqueued)
  · rw [not_or, Nat.not_le] at hcond
    rw [if_neg (by simpa using hcond), if_pos ⟨hcond.1, fun hmem => hcond.2 ((h.queued id).2 hmem)⟩]
    exact List.drop_append_of_le_length h.head_le

/-- After a push the id is pending, and so are all that were. -/
lemma Valid.mem_pending_push (h : w.Valid) {other : ℕ} :
    other ∈ (w.push id).pending ↔ other ∈ w.pending ∨ other = id ∧ id < w.idCount := by
  rw [h.pending_push]
  by_cases hcond : id < w.idCount ∧ id ∉ w.pending
  · rw [if_pos hcond, List.mem_append, List.mem_singleton]
    exact or_congr_right ⟨fun heq => ⟨heq, hcond.1⟩, fun hother => hother.1⟩
  · rw [if_neg hcond]
    refine ⟨Or.inl, fun hother => hother.elim (fun hmem => hmem) ?_⟩
    rintro ⟨rfl, hlt⟩
    by_contra hmem
    exact hcond ⟨hlt, hmem⟩

@[simp] lemma idCount_push (w : DenseWorklist) (id : ℕ) : (w.push id).idCount = w.idCount := by
  rw [push]
  split <;> rfl

@[simp] lemma processedCount_push (w : DenseWorklist) (id : ℕ) :
    (w.push id).processedCount = w.processedCount := by
  rw [push]
  split <;> rfl

lemma Valid.push (h : w.Valid) (id : ℕ) : (w.push id).Valid := by
  have hpending := h.pending_push id
  by_cases hcond : w.idCount ≤ id ∨ w.queued id = true
  · rwa [DenseWorklist.push, if_pos hcond]
  · have hfresh : id < w.idCount ∧ id ∉ w.pending := by
      rw [not_or, Nat.not_le, h.queued] at hcond
      exact hcond
    rw [if_pos hfresh] at hpending
    refine ⟨fun other => ?_, ?_, fun other hother => ?_, ?_, ?_⟩
    · rw [hpending, List.mem_append, List.mem_singleton, DenseWorklist.push, if_neg hcond]
      by_cases heq : other = id
      · simp [heq]
      · simp [h.queued, heq]
    · rw [hpending]
      exact h.nodup.append (List.nodup_singleton id) (List.disjoint_singleton.2 hfresh.2)
    · rw [hpending, List.mem_append, List.mem_singleton] at hother
      rw [idCount_push]
      rcases hother with hother | rfl
      · exact h.bound other hother
      · exact hfresh.1
    · rw [DenseWorklist.push, if_neg hcond, List.length_append]
      exact Nat.le_add_right_of_le h.head_le
    · rw [DenseWorklist.push, if_neg hcond]
      exact h.head_lifo

lemma Valid.pop_eq_none (h : w.Valid) : w.pop = none ↔ w.pending = [] := by
  have hle := h.head_le
  have hempty : w.pending = [] ↔ w.head = w.items.length := by
    rw [pending, List.drop_eq_nil_iff]
    omega
  rw [hempty, DenseWorklist.pop]
  by_cases hhead : w.head = w.items.length
  · rw [if_pos hhead]
    exact iff_of_true rfl hhead
  · rw [if_neg hhead]
    refine iff_of_false ?_ hhead
    cases w.order with
    | fifo =>
      have hlt : w.head < w.items.length := by omega
      simp [List.getElem?_eq_getElem hlt]
    | lifo =>
      have hne : w.items ≠ [] := by
        rintro heq
        rw [heq, List.length_nil] at hhead hle
        omega
      simp [List.getLast?_eq_getLast_of_ne_nil hne]

/-- What a pop leaves. -/
structure Taken (w : DenseWorklist) (id : ℕ) (w' : DenseWorklist) : Prop where
  valid : w'.Valid
  pending : w.pending.Perm (id :: w'.pending)
  idCount : w'.idCount = w.idCount
  processedCount : w'.processedCount = w.processedCount + 1

/-- The marks after a pending id is taken. -/
lemma Valid.queued_taken (h : w.Valid) {rest : List ℕ} (hperm : w.pending.Perm (id :: rest))
    (other : ℕ) : Function.update w.queued id false other = true ↔ other ∈ rest := by
  have hnodup := hperm.nodup_iff.1 h.nodup
  by_cases heq : other = id
  · rw [heq, Function.update_self]
    exact iff_of_false Bool.false_ne_true (List.nodup_cons.1 hnodup).1
  · rw [Function.update_of_ne heq, h.queued, hperm.mem_iff, List.mem_cons]
    exact or_iff_right heq

lemma Valid.pop_eq_some (h : w.Valid) {w' : DenseWorklist} (hpop : w.pop = some (id, w')) :
    Taken w id w' := by
  have hle := h.head_le
  rw [DenseWorklist.pop] at hpop
  by_cases hhead : w.head = w.items.length
  · rw [if_pos hhead] at hpop
    cases hpop
  rw [if_neg hhead] at hpop
  -- In both orders the rest is a sublist, so that the other parts of the invariant stay.
  cases horder : w.order with
  | fifo =>
    have hlt : w.head < w.items.length := by omega
    rw [horder] at hpop
    simp only [List.getElem?_eq_getElem hlt, Option.map_some, Option.some.injEq,
      Prod.mk.injEq] at hpop
    obtain ⟨rfl, rfl⟩ := hpop
    have hperm : w.pending.Perm (w.items[w.head] :: w.items.drop (w.head + 1)) := by
      rw [DenseWorklist.pending, List.drop_eq_getElem_cons hlt]
    refine ⟨⟨h.queued_taken hperm, ?_, fun other hother => ?_, hlt, fun hlifo => ?_⟩, hperm, rfl,
      rfl⟩
    · exact (List.nodup_cons.1 (hperm.nodup_iff.1 h.nodup)).2
    · exact h.bound other (hperm.mem_iff.2 (List.mem_cons_of_mem _ hother))
    · cases hlifo
  | lifo =>
    have hzero := h.head_lifo horder
    have hne : w.items ≠ [] := by
      intro heq
      rw [heq, List.length_nil] at hhead hle
      omega
    rw [horder] at hpop
    simp only [List.getLast?_eq_getLast_of_ne_nil hne, Option.map_some, Option.some.injEq,
      Prod.mk.injEq] at hpop
    obtain ⟨rfl, rfl⟩ := hpop
    have hperm : w.pending.Perm (w.items.getLast hne :: w.items.dropLast.drop w.head) := by
      rw [DenseWorklist.pending, hzero, List.drop_zero, List.drop_zero]
      conv_lhs => rw [← List.dropLast_append_getLast hne]
      exact List.perm_append_singleton _ _
    refine ⟨⟨h.queued_taken hperm, ?_, fun other hother => ?_, ?_, fun _ => hzero⟩, hperm, rfl,
      rfl⟩
    · exact (List.nodup_cons.1 (hperm.nodup_iff.1 h.nodup)).2
    · exact h.bound other (hperm.mem_iff.2 (List.mem_cons_of_mem _ hother))
    · rw [hzero]
      exact Nat.zero_le _

/-! ## Pushing several ids -/

lemma Valid.pushAll (h : w.Valid) (ids : List ℕ) : (w.pushAll ids).Valid := by
  induction ids generalizing w with
  | nil => exact h
  | cons id ids ih => exact ih (h.push id)

lemma Valid.mem_pending_pushAll (h : w.Valid) {ids : List ℕ} {other : ℕ} :
    other ∈ (w.pushAll ids).pending ↔ other ∈ w.pending ∨ other ∈ ids ∧ other < w.idCount := by
  induction ids generalizing w with
  | nil => simp [DenseWorklist.pushAll]
  | cons id ids ih =>
    have hrest := ih (h.push id)
    rw [h.mem_pending_push, idCount_push] at hrest
    refine hrest.trans ?_
    rw [List.mem_cons, or_assoc]
    refine or_congr_right ?_
    constructor
    · rintro (⟨rfl, hlt⟩ | ⟨hmem, hlt⟩)
      · exact ⟨Or.inl rfl, hlt⟩
      · exact ⟨Or.inr hmem, hlt⟩
    · rintro ⟨rfl | hmem, hlt⟩
      · exact Or.inl ⟨rfl, hlt⟩
      · exact Or.inr ⟨hmem, hlt⟩

@[simp] lemma idCount_pushAll (w : DenseWorklist) (ids : List ℕ) :
    (w.pushAll ids).idCount = w.idCount := by
  induction ids generalizing w with
  | nil => rfl
  | cons id ids ih => exact (ih (w.push id)).trans (idCount_push w id)

@[simp] lemma processedCount_pushAll (w : DenseWorklist) (ids : List ℕ) :
    (w.pushAll ids).processedCount = w.processedCount := by
  induction ids generalizing w with
  | nil => rfl
  | cons id ids ih => exact (ih (w.push id)).trans (processedCount_push w id)

end DenseWorklist

end Chtholly
