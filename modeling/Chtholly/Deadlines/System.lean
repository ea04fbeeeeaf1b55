import Chtholly.Deadlines.Operations
import Chtholly.Interleaving.Runs
import Mathlib.Order.Interval.Finset.Nat
import Mathlib.Data.Nat.Count

/-!
# The deadlines of all executors

A task arms a deadline on the executor that it has at that time.  A deadline leaves the heap when
the caller releases it, when a worker finds that it has expired, or when its task is terminal.

The deadlines are numbered as they are armed.  An action is what one call does while it has the
mutex of an executor, with what it then does to the references of the deadlines that it took out
of the heap; a call that arms a deadline reads the executor of the task in an action of its own.

## Main definitions

* `Deadlines.System`, `Deadlines.Action`, `Deadlines.step` — the system.
* `Deadlines.System.retire` — a deadline leaves the heap.
* `Deadlines.sweep`, `Deadlines.publishTerminal` — the end of a task.
-/

set_option autoImplicit false

namespace Chtholly

namespace Deadlines

/-! ## The system -/

structure System where
  deadlines : ℕ → Deadline
  /-- The deadlines that were armed so far. -/
  armed : ℕ
  executors : ℕ → Executor
  /-- The executors of the tasks; a terminal task has none. -/
  taskExecutor : ℕ → Option ℕ
  tasks : ℕ
  /-- The calls of `task_deadline_after` that have read the executor of their task. -/
  calls : List (ℕ × ℕ)
  /-- The references to tasks that armed deadlines have dropped. -/
  taskReleases : List (ℕ × ℕ)

/-- What the mutex of an executor protects. -/
def System.locked (system : System) (executor : ℕ) : Locked where
  deadlines := system.deadlines
  executor := system.executors executor

def System.unlock (system : System) (executor : ℕ) (state : Locked) : System :=
  { system with
    deadlines := state.deadlines
    executors := Function.update system.executors executor state.executor }

/-- A deadline is taken out of the heap of an executor and gets a state. -/
def System.retire (system : System) (executor deadline : ℕ) (state : State) : System :=
  let removed := heapRemoveLocked (system.locked executor) deadline
  system.unlock executor { removed with
    deadlines :=
      Function.update removed.deadlines deadline { removed.deadlines deadline with state := state } }

def dropReference (system : System) (deadline : ℕ) : System :=
  { system with
    deadlines := Function.update system.deadlines deadline
      { system.deadlines deadline with references := (system.deadlines deadline).references - 1 } }

def releaseTaskReference (system : System) (deadline : ℕ) : System :=
  let stored := system.deadlines deadline
  if stored.taskReferenceReleased then system
  else
    { system with
      deadlines := Function.update system.deadlines deadline
        { stored with task := none, taskReferenceReleased := true }
      taskReleases := system.taskReleases ++ (stored.task.map fun task => (deadline, task)).toList }

/-! ## The calls -/

inductive DeadlineAfterResult
  | ok
  | shutdown
  | clockFailure
  | outOfMemory
  deriving DecidableEq, Repr

/-- `task_deadline_after` from where it has read the executor of the task; there may be no clock. -/
def taskDeadlineAfter (system : System) (task executor : ℕ) (now : Option NextTaskInstant)
    (timeoutNanoseconds : ℕ) (memory : Bool) : System × DeadlineAfterResult :=
  if (system.executors executor).shutdown then (system, .shutdown)
  else
    match now with
    | none => (system, .clockFailure)
    | some now =>
      let deadline := system.armed
      let stored : Deadline := {
        references := 1, state := .armed, executor := executor, task := some task,
        taskReferenceReleased := false, instant := instantAdd now timeoutNanoseconds,
        sequence := 0, heapIndex := 0, inHeap := false }
      let allocated : System := { system with
        deadlines := Function.update system.deadlines deadline stored }
      match heapInsertLocked (allocated.locked executor) deadline memory with
      | none => (system, .outOfMemory)
      | some state =>
        ({ system with
            deadlines := Function.update state.deadlines deadline
              { state.deadlines deadline with
                references := (state.deadlines deadline).references + 1 }
            armed := system.armed + 1
            executors := Function.update system.executors executor state.executor }, .ok)

def deadlineRelease (system : System) (deadline : ℕ) : System :=
  let stored := system.deadlines deadline
  if stored.state = .armed then
    let removed := system.retire stored.executor deadline .released
    dropReference (dropReference (releaseTaskReference removed deadline) deadline) deadline
  else dropReference system deadline

/-- The deadline that a worker of an executor takes, where the clock says `now`. -/
def expiredDeadline (system : System) (executor : ℕ) (now : NextTaskInstant) : Option ℕ :=
  let state := system.locked executor
  if state.executor.deadlineCount ≠ 0 then
    if instantCompare (state.at 0).instant now ≤ 0 then some (state.executor.deadlineHeap 0)
    else none
  else none

/-- `next_task_worker` where it takes a deadline. -/
def expire (system : System) (executor : ℕ) (now : NextTaskInstant) : Option System :=
  (expiredDeadline system executor now).map fun expired =>
    dropReference (releaseTaskReference (system.retire executor expired .selected) expired) expired

lemma heapSiftUp_count (state : Locked) (index : ℕ) :
    (heapSiftUp state index).executor.deadlineCount = state.executor.deadlineCount := by
  fun_induction heapSiftUp state index with
  | case1 => rfl
  | case2 state index hzero parent hless ih => exact ih
  | case3 => rfl

lemma heapSiftDown_count (state : Locked) (index : ℕ) :
    (heapSiftDown state index).executor.deadlineCount = state.executor.deadlineCount := by
  fun_induction heapSiftDown state index with
  | case1 => rfl
  | case2 => rfl
  | case3 state index child hchild hless ih => exact ih

lemma heapRemoveLocked_count (state : Locked) (deadline : ℕ) :
    (heapRemoveLocked state deadline).executor.deadlineCount = state.executor.deadlineCount - 1 := by
  unfold heapRemoveLocked
  dsimp only
  split_ifs
  · rfl
  · rw [heapSiftUp_count]
    rfl
  · rw [heapSiftDown_count]
    rfl

lemma retire_count (system : System) (executor deadline : ℕ) (state : State) :
    ((system.retire executor deadline state).executors executor).deadlineCount =
      (system.executors executor).deadlineCount - 1 := by
  show (Function.update system.executors executor
    (heapRemoveLocked (system.locked executor) deadline).executor executor).deadlineCount = _
  rw [Function.update_self, heapRemoveLocked_count]
  rfl

/-- The loop of `next_task_publish_terminal` over the heap from a place on; it also gives the
deadlines it took out, the last one first. -/
def sweep (system : System) (executor task index : ℕ) (retired : List ℕ) : System × List ℕ :=
  if _h : index < (system.executors executor).deadlineCount then
    let deadline := (system.executors executor).deadlineHeap index
    if (system.deadlines deadline).task ≠ some task then
      sweep system executor task (index + 1) retired
    else
      sweep (system.retire executor deadline .released) executor task index (deadline :: retired)
  else (system, retired)
termination_by (system.executors executor).deadlineCount - index
decreasing_by
  · omega
  · rw [retire_count]
    omega

/-- The loop over the deadlines that were taken out. -/
def dropRetired (system : System) : List ℕ → System
  | [] => system
  | deadline :: retired =>
    dropRetired (dropReference (releaseTaskReference system deadline) deadline) retired

/-- `next_task_publish_terminal` for a task with an executor. -/
def publishTerminal (system : System) (task : ℕ) : Option System :=
  (system.taskExecutor task).map fun executor =>
    let swept := sweep
      { system with taskExecutor := Function.update system.taskExecutor task none }
      executor task 0 []
    dropRetired swept.1 swept.2

/-- `task_rebind_executor` for a task with an executor. -/
def taskRebindExecutor (system : System) (task executor : ℕ) : Option System :=
  if (system.taskExecutor task).isSome then
    if (system.executors executor).shutdown then some system
    else some { system with
      taskExecutor := Function.update system.taskExecutor task (some executor) }
  else none

/-! ## Actions -/

inductive Action
  | createTask (executor : ℕ)
  | readExecutor (task : ℕ)
  | deadlineAfter (call : ℕ) (now : Option NextTaskInstant) (timeoutNanoseconds : ℕ) (memory : Bool)
  | deadlineRelease (deadline : ℕ)
  | expire (executor : ℕ) (now : NextTaskInstant)
  | rebindExecutor (task executor : ℕ)
  | publishTerminal (task : ℕ)
  | shutdown (executor : ℕ)

/-- Somebody still has the handle of a deadline. -/
def Deadline.held (deadline : Deadline) : Bool :=
  decide ((if deadline.state = .armed then 1 else 0) < deadline.references)

def step (system : System) : Action → Option System
  | .createTask executor => some { system with
      taskExecutor := Function.update system.taskExecutor system.tasks (some executor)
      tasks := system.tasks + 1 }
  | .readExecutor task => (system.taskExecutor task).map fun executor =>
      { system with calls := system.calls ++ [(task, executor)] }
  | .deadlineAfter call now timeoutNanoseconds memory =>
      system.calls[call]?.map fun arguments =>
        (taskDeadlineAfter { system with calls := system.calls.eraseIdx call } arguments.1
          arguments.2 now timeoutNanoseconds memory).1
  | .deadlineRelease deadline =>
      if deadline < system.armed ∧ (system.deadlines deadline).held then
        some (deadlineRelease system deadline)
      else none
  | .expire executor now => expire system executor now
  | .rebindExecutor task executor => taskRebindExecutor system task executor
  | .publishTerminal task => publishTerminal system task
  | .shutdown executor => some { system with
      executors := Function.update system.executors executor
        { system.executors executor with shutdown := true } }

/-- Memory that no deadline has yet. -/
def Deadline.unused : Deadline where
  references := 0
  state := .released
  executor := 0
  task := none
  taskReferenceReleased := true
  instant := { seconds := 0, nanoseconds := 0 }
  sequence := 0
  heapIndex := 0
  inHeap := false

/-- An executor as it is created. -/
def Executor.initial : Executor where
  deadlineHeap := fun _ => 0
  deadlineCount := 0
  deadlineCapacity := 0
  nextDeadlineSequence := 0
  shutdown := false

def System.initial : System where
  deadlines := fun _ => .unused
  armed := 0
  executors := fun _ => .initial
  taskExecutor := fun _ => none
  tasks := 0
  calls := []
  taskReleases := []

end Deadlines

end Chtholly
