import Chtholly.Deadlines.Instant
import Chtholly.Heap.Binary

/-!
# The deadline heap of an executor

An executor has its armed deadlines in a binary heap by the instant and, among equal instants, by a
sequence number.  Each deadline knows its place in the heap, so that it can be removed from there.

The deadlines are numbered as they are made, and the heap is an array of their numbers.  The
functions work on what is protected by the mutex of the executor.

## Main definitions

* `Deadlines.Deadline`, `Deadlines.Executor`, `Deadlines.Locked` — the data.
* `Deadlines.heapSiftUp`, `Deadlines.heapSiftDown` — the sifts.
* `Deadlines.heapInsertLocked`, `Deadlines.heapRemoveLocked` — the operations.
-/

set_option autoImplicit false

namespace Chtholly

namespace Deadlines

inductive State
  | armed
  | selected
  | released
  deriving DecidableEq, Repr

/-- `chtholly_next_task_v1_deadline`; the memory is freed when the references are gone. -/
structure Deadline where
  references : ℕ
  state : State
  executor : ℕ
  task : Option ℕ
  taskReferenceReleased : Bool
  instant : NextTaskInstant
  sequence : ℕ
  heapIndex : ℕ
  inHeap : Bool
  deriving DecidableEq, Repr

/-- What an executor has for its deadlines. -/
structure Executor where
  deadlineHeap : ℕ → ℕ
  deadlineCount : ℕ
  deadlineCapacity : ℕ
  nextDeadlineSequence : ℕ
  shutdown : Bool

/-- The deadlines and the executor whose mutex is locked. -/
structure Locked where
  deadlines : ℕ → Deadline
  executor : Executor

def deadlineLess (left right : Deadline) : Bool :=
  let instantOrder := instantCompare left.instant right.instant
  decide (instantOrder < 0) || (decide (instantOrder = 0) && decide (left.sequence < right.sequence))

def setHeapIndex (deadlines : ℕ → Deadline) (deadline index : ℕ) : ℕ → Deadline :=
  Function.update deadlines deadline { deadlines deadline with heapIndex := index }

/-- The deadline at a place of the heap. -/
def Locked.at (state : Locked) (index : ℕ) : Deadline :=
  state.deadlines (state.executor.deadlineHeap index)

def heapSwap (state : Locked) (left right : ℕ) : Locked :=
  let heap := Heap.swap state.executor.deadlineHeap left right
  { deadlines := setHeapIndex (setHeapIndex state.deadlines (heap left) left) (heap right) right,
    executor := { state.executor with deadlineHeap := heap } }

def heapSiftUp (state : Locked) (index : ℕ) : Locked :=
  if _h : index ≠ 0 then
    let parent := (index - 1) / 2
    if !deadlineLess (state.at index) (state.at parent) then state
    else heapSiftUp (heapSwap state index parent) parent
  else state
termination_by index
decreasing_by omega

/-- The child that a sift down goes on with, if there is one. -/
def heapChild (state : Locked) (index : ℕ) : Option ℕ :=
  let child := index * 2 + 1
  if child ≥ state.executor.deadlineCount then none
  else if child + 1 < state.executor.deadlineCount &&
      deadlineLess (state.at (child + 1)) (state.at child) then some (child + 1)
  else some child

lemma heapChild_lt {state : Locked} {index child : ℕ} (h : heapChild state index = some child) :
    index < child ∧ child < state.executor.deadlineCount := by
  unfold heapChild at h
  dsimp only at h
  split at h
  · cases h
  split at h
  case isTrue hright =>
    cases h
    rw [Bool.and_eq_true, decide_eq_true_eq] at hright
    omega
  case isFalse =>
    cases h
    omega

def heapSiftDown (state : Locked) (index : ℕ) : Locked :=
  match _h : heapChild state index with
  | none => state
  | some child =>
    if !deadlineLess (state.at child) (state.at index) then state
    else heapSiftDown (heapSwap state index child) child
termination_by state.executor.deadlineCount - index
decreasing_by
  have hchild := heapChild_lt _h
  show state.executor.deadlineCount - child < state.executor.deadlineCount - index
  omega

/-- `SIZE_MAX / sizeof(*heap)`. -/
def maxCapacity : ℕ := (2 ^ 64 - 1) / 8

/-- `realloc` gives memory or not. -/
def heapInsertLocked (state : Locked) (deadline : ℕ) (memory : Bool) : Option Locked :=
  let executor := state.executor
  let capacity :=
    if executor.deadlineCapacity = 0 then 8 else executor.deadlineCapacity * 2 % 2 ^ 64
  let grown :=
    if executor.deadlineCount = executor.deadlineCapacity then
      if capacity < executor.deadlineCapacity ∨ capacity > maxCapacity then none
      else if memory then some capacity else none
    else some executor.deadlineCapacity
  grown.map fun capacity =>
    let stored : Deadline := { state.deadlines deadline with
      sequence := executor.nextDeadlineSequence
      heapIndex := executor.deadlineCount
      inHeap := true }
    heapSiftUp
      { deadlines := Function.update state.deadlines deadline stored,
        executor := { executor with
          deadlineHeap := Function.update executor.deadlineHeap executor.deadlineCount deadline
          deadlineCount := executor.deadlineCount + 1
          deadlineCapacity := capacity
          nextDeadlineSequence := (executor.nextDeadlineSequence + 1) % 2 ^ 64 } }
      executor.deadlineCount

/-- `heapRemoveLocked` up to the sifts, where the deadline is not the last one. -/
def heapFill (state : Locked) (deadline : ℕ) : Locked :=
  let index := (state.deadlines deadline).heapIndex
  let last := state.executor.deadlineCount - 1
  { deadlines := setHeapIndex
      (Function.update state.deadlines deadline { state.deadlines deadline with inHeap := false })
      (state.executor.deadlineHeap last) index,
    executor := { state.executor with
      deadlineHeap := Heap.fill state.executor.deadlineHeap last index
      deadlineCount := last } }

def heapRemoveLocked (state : Locked) (deadline : ℕ) : Locked :=
  let index := (state.deadlines deadline).heapIndex
  let last := state.executor.deadlineCount - 1
  if index = last then
    { deadlines :=
        Function.update state.deadlines deadline { state.deadlines deadline with inHeap := false },
      executor := { state.executor with deadlineCount := last } }
  else
    let filled := heapFill state deadline
    if decide (index ≠ 0) && deadlineLess (filled.at index) (filled.at ((index - 1) / 2)) then
      heapSiftUp filled index
    else heapSiftDown filled index

end Deadlines

end Chtholly
