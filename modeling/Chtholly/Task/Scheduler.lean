import Mathlib.Logic.Function.Basic
import Mathlib.Logic.Relation
import Chtholly.Interleaving.Runs

/-!
# Tasks, executors and cancellation

The scheduler of `next_task_v1.c` as a system of threads.  A task has a state word, a flag that
asks for another resume, and a cancellation mark; an executor has a queue of tasks; a scope has
the list of its tasks.  The threads are the workers of the executors and the threads of the host,
and an action is one critical section of one of them.  Where a function enters several, its thread
has a program counter that tells which comes next; a mutex that stays locked from one critical
section to the next is held by that thread in between.

There are as many tasks, scopes, executors and threads as a run needs: they are numbered, and the
tables are functions.  A function that a `resume` calls runs as a call of another thread.  The
heap of deadlines is left out; a deadline may expire at any moment.  So may an executor be shut
down.

## Main definitions

* `Task.World` — the tasks, scopes, executors and threads.
* `Task.Action`, `Task.step` — the critical sections.
-/

set_option autoImplicit false

namespace Chtholly

namespace Task

/-- The value of `scheduler_state`. -/
inductive State where
  | idle
  | queued
  | running
  | cancelled
  | completed
  | failed
  deriving DecidableEq, Repr

def State.terminal : State → Bool
  | .cancelled => true
  | .completed => true
  | .failed => true
  | _ => false

/-- What a `resume` answers. -/
inductive Step where
  | suspended
  | reschedule
  | cancelled
  | completed
  | failed
  deriving DecidableEq, Repr

/-- The codes of the answers; a code that is none of them counts as CANCELLED. -/
def Step.ofCode : ℕ → Step
  | 0 => .suspended
  | 1 => .reschedule
  | 2 => .cancelled
  | 3 => .completed
  | 4 => .failed
  | _ => .cancelled

/-- The state that a step ends in, when it is terminal. -/
def Step.state? : Step → Option State
  | .suspended => none
  | .reschedule => none
  | .cancelled => some .cancelled
  | .completed => some .completed
  | .failed => some .failed

/-- `NextTaskCancellationCause`, where `none` is no cause. -/
inductive Cause where
  | ownerRequest
  | deadlineExpired
  deriving DecidableEq, Repr

/-- `chtholly_next_task_v1_task`.  `attached` tells that the pointer to the scope is not null;
`parent` is the task whose cancellation node is the parent of this one's; `locked` that a thread
keeps the mutex between two critical sections.  The last two fields record what happened since
the last `resume` began: a wake, and a cancellation mark. -/
structure Record where
  scope : ℕ
  attached : Bool
  parent : Option ℕ
  executor : Option ℕ
  state : State
  rerunRequested : Bool
  cancellationRequested : Bool
  cancellationCause : Option Cause
  publishedTerminal : Bool
  terminalStep : Option Step
  locked : Bool
  woken : Bool
  marked : Bool
  deriving DecidableEq, Repr

/-- `chtholly_next_task_v1_scope`, with the thread that holds its mutex. -/
structure Scope where
  tasks : List ℕ
  cancellationRequested : Bool
  holder : Option ℕ
  deriving DecidableEq, Repr

structure Executor where
  queue : List ℕ
  shutdown : Bool
  deriving DecidableEq, Repr

/-- Which tasks a cancellation is for: those below a task, or all tasks of a scope. -/
inductive Target where
  | tree (root : ℕ)
  | all
  deriving DecidableEq, Repr

/-- The arguments of a cancellation.  `publisher` is set when a worker cancels the tasks below one
that it is about to publish. -/
structure Cancellation where
  target : Target
  cause : Cause
  publisher : Bool
  deriving DecidableEq, Repr

/-- The next critical section of a thread. -/
inductive Pc where
  /-- No call is in progress; a worker looks at the queue of its executor. -/
  | idle
  /-- `create_on` holds the mutex of the scope and has checked the parent. -/
  | creating (scope executor : ℕ) (parent : Option ℕ)
  /-- `task_rebind_executor` has read the scope; `retained` when it has retained the executor. -/
  | rebinding (task executor scope : ℕ) (retained : Bool)
  | markRoot (root : ℕ) (cause : Cause)
  | wakeRoot (root : ℕ) (cause : Cause)
  | readScope (root : ℕ) (cause : Cause) (publisher : Bool)
  | lockScope (call : Cancellation) (scope : ℕ)
  /-- The mutex of the scope is held, and the tasks `rest` of its list are still to come. -/
  | visit (call : Cancellation) (scope : ℕ) (rest : List ℕ)
  /-- The wake at the end of `mark_cancelled`. -/
  | wakeVisited (call : Cancellation) (scope task : ℕ) (rest : List ℕ)
  | resuming (task : ℕ)
  /-- `next_task_run` holds the mutex of the task and is about to lock the next executor. -/
  | requeue (task : ℕ) (step : Step) (nextExecutor : ℕ)
  | publishing (task : ℕ) (step : Step)
  | removing (task : ℕ)
  deriving DecidableEq, Repr

/-- The state of the system.  `created` is the number of tasks; `closed` records the tasks below
which a cancellation has visited every task, and `returned` the tasks that a cancellation has
marked as its root and returned. -/
structure World where
  tasks : ℕ → Record
  created : ℕ
  scopes : ℕ → Scope
  executors : ℕ → Executor
  threads : ℕ → Pc
  closed : List ℕ
  returned : List ℕ

/-- A task as `create_on` has it before it is entered anywhere. -/
def Record.fresh : Record :=
  { scope := 0, attached := false, parent := none, executor := none, state := .idle,
    rerunRequested := false, cancellationRequested := false, cancellationCause := none,
    publishedTerminal := false, terminalStep := none, locked := false, woken := false,
    marked := false }

def World.init : World :=
  { tasks := fun _ => Record.fresh, created := 0,
    scopes := fun _ => { tasks := [], cancellationRequested := false, holder := none },
    executors := fun _ => { queue := [], shutdown := false },
    threads := fun _ => .idle, closed := [], returned := [] }

/-- `next_task_cancellation_node_descends_from`: the walk up the parents, for at most `fuel`
nodes. -/
def descendsFrom (tasks : ℕ → Record) (ancestor : ℕ) : ℕ → ℕ → Bool
  | 0, _ => false
  | fuel + 1, task =>
    match (tasks task).parent with
    | none => false
    | some parent => parent == ancestor || descendsFrom tasks ancestor fuel parent

namespace World

def setTask (w : World) (t : ℕ) (task : Record) : World :=
  { w with tasks := Function.update w.tasks t task }

def setPc (w : World) (j : ℕ) (pc : Pc) : World :=
  { w with threads := Function.update w.threads j pc }

def setScope (w : World) (s : ℕ) (scope : Scope) : World :=
  { w with scopes := Function.update w.scopes s scope }

def setExecutor (w : World) (e : ℕ) (executor : Executor) : World :=
  { w with executors := Function.update w.executors e executor }

/-- `next_task_enqueue_locked`. -/
def enqueue (w : World) (e t : ℕ) : World :=
  (w.setExecutor e { w.executors e with queue := (w.executors e).queue ++ [t] }).setTask t
    { w.tasks t with state := .queued }

/-- The critical section of `task_wake`. -/
def wake (w : World) (t : ℕ) : World :=
  let task := w.tasks t
  if task.publishedTerminal then w
  else match task.executor, task.state with
    | none, _ => w
    | some e, .idle => (w.setTask t { task with woken := true }).enqueue e t
    | some _, .running => w.setTask t { task with rerunRequested := true, woken := true }
    | some _, _ => w.setTask t { task with woken := true }

/-- Whether `mark_cancelled` can still mark a task. -/
def markable (w : World) (t : ℕ) : Bool :=
  !(w.tasks t).publishedTerminal && !(w.tasks t).state.terminal

/-- The critical section of `mark_cancelled` where it marks: the first cause stays. -/
def mark (w : World) (t : ℕ) (cause : Cause) : World :=
  w.setTask t { w.tasks t with
    cancellationCause := (w.tasks t).cancellationCause.orElse fun _ => some cause
    cancellationRequested := true
    marked := true }

/-- The end of `create_on`, with the mutexes of the scope and the executor. -/
def insertTask (w : World) (s e : ℕ) (parent : Option ℕ) : World :=
  let inherits := (w.scopes s).cancellationRequested ||
    parent.any fun p => (w.tasks p).cancellationRequested
  let cause :=
    if (w.scopes s).cancellationRequested then Cause.ownerRequest
    else (parent.bind fun p => (w.tasks p).cancellationCause).getD .ownerRequest
  let t := w.created
  let w := w.setTask t { Record.fresh with
    scope := s, attached := true, parent, executor := some e
    cancellationRequested := inherits
    cancellationCause := if inherits then some cause else none }
  let w := w.setScope s { w.scopes s with tasks := t :: (w.scopes s).tasks }
  { w.enqueue e t with created := t + 1 }

/-- A parent must be running in the scope. -/
def parentRunning (w : World) (s : ℕ) : Option ℕ → Bool
  | none => true
  | some p => p < w.created && !(w.tasks p).locked && (w.tasks p).state = .running &&
      !(w.tasks p).publishedTerminal && (w.tasks p).attached && (w.tasks p).scope = s

/-- Which tasks of the scope a cancellation marks. -/
def visits (w : World) (call : Cancellation) (t : ℕ) : Bool :=
  match call.target with
  | .tree root => t != root && descendsFrom w.tasks root t t
  | .all => true

/-- The scope is left, and the call returns or goes on to publish its root. -/
def finishVisit (w : World) (j : ℕ) (call : Cancellation) (s : ℕ) : World :=
  let w := w.setScope s { w.scopes s with holder := none }
  match call.target with
  | .all => w.setPc j .idle
  | .tree root =>
    if call.publisher then { w.setPc j (.publishing root .cancelled) with closed := root :: w.closed }
    else { w.setPc j .idle with closed := root :: w.closed, returned := root :: w.returned }

/-- The first critical sections of `next_task_run` after the `resume`, those of the task and of
the executor that ran it. -/
def classify (w : World) (j t : ℕ) (code : ℕ) : Option World :=
  let task := w.tasks t
  let step := Step.ofCode code
  let step := if (step = .completed ∨ step = .failed) ∧ task.cancellationRequested then .cancelled
    else step
  match step.state?, task.executor with
  | some state, _ =>
    let w := w.setTask t { task with state, rerunRequested := false }
    if step = .cancelled then
      some (w.setPc j (.readScope t (task.cancellationCause.getD .ownerRequest) true))
    else some (w.setPc j (.publishing t step))
  | none, some nextExecutor =>
    some ((w.setTask t { task with locked := true }).setPc j (.requeue t step nextExecutor))
  | none, none => none

/-- The critical section of the next executor, and the end of the one of the task. -/
def requeue (w : World) (j t : ℕ) (step : Step) (nextExecutor : ℕ) : World :=
  let task := w.tasks t
  if step = .reschedule ∨ task.rerunRequested ∨ task.cancellationRequested then
    ((w.setTask t { task with rerunRequested := false, locked := false }).enqueue nextExecutor
      t).setPc j .idle
  else (w.setTask t { task with state := .idle, locked := false }).setPc j .idle

/-- The critical section of `publish_terminal`. -/
def publish (w : World) (j t : ℕ) (step : Step) : World :=
  (w.setTask t { w.tasks t with
    terminalStep := some step, publishedTerminal := true, executor := none }).setPc j (.removing t)

/-- `remove_from_scope`. -/
def removeFromScope (w : World) (j t : ℕ) : World :=
  let s := (w.tasks t).scope
  ((w.setScope s { w.scopes s with tasks := (w.scopes s).tasks.erase t }).setTask t
    { w.tasks t with attached := false }).setPc j .idle

/-- The thread `j` takes its next critical section. -/
def advance (w : World) (j : ℕ) : Option World :=
  match w.threads j with
  | .idle => none
  | .resuming _ => none
  | .creating s e parent =>
    let w := w.setScope s { w.scopes s with holder := none }
    if (w.executors e).shutdown then some (w.setPc j .idle)
    else some ((w.insertTask s e parent).setPc j .idle)
  | .rebinding t e s false =>
    if (w.executors e).shutdown then some (w.setPc j .idle)
    else some (w.setPc j (.rebinding t e s true))
  | .rebinding t e s true =>
    if (w.tasks t).locked then none
    else if (w.tasks t).state = .running ∧ (w.tasks t).attached ∧ (w.tasks t).scope = s then
      some ((w.setTask t { w.tasks t with executor := some e }).setPc j .idle)
    else some (w.setPc j .idle)
  | .markRoot root cause =>
    if (w.tasks root).locked then none
    else if w.markable root then some ((w.mark root cause).setPc j (.wakeRoot root cause))
    else some (w.setPc j .idle)
  | .wakeRoot root cause =>
    if (w.tasks root).locked then none
    else some ((w.wake root).setPc j (.readScope root cause false))
  | .readScope root cause publisher =>
    if (w.tasks root).locked then none
    else if !(w.tasks root).publishedTerminal && (w.tasks root).attached then
      some (w.setPc j (.lockScope ⟨.tree root, cause, publisher⟩ (w.tasks root).scope))
    else if publisher then some (w.setPc j (.publishing root .cancelled))
    else some { w.setPc j .idle with returned := root :: w.returned }
  | .lockScope call s =>
    if (w.scopes s).holder.isSome then none
    else some ((w.setScope s { w.scopes s with
      holder := some j
      cancellationRequested := (w.scopes s).cancellationRequested || call.target = .all }).setPc j
        (.visit call s (w.scopes s).tasks))
  | .visit call s [] => some (w.finishVisit j call s)
  | .visit call s (t :: rest) =>
    if w.visits call t then
      if (w.tasks t).locked then none
      else if w.markable t then
        some ((w.mark t call.cause).setPc j (.wakeVisited call s t rest))
      else some (w.setPc j (.visit call s rest))
    else some (w.setPc j (.visit call s rest))
  | .wakeVisited call s t rest =>
    if (w.tasks t).locked then none else some ((w.wake t).setPc j (.visit call s rest))
  | .requeue t step nextExecutor => some (w.requeue j t step nextExecutor)
  | .publishing t step => if (w.tasks t).locked then none else some (w.publish j t step)
  | .removing t =>
    if (w.scopes (w.tasks t).scope).holder.isSome || (w.tasks t).locked then none
    else some (w.removeFromScope j t)

end World

/-! ## The system -/

/-- The actions: the calls of the interface at their first critical section, the two steps of a
worker that are not determined by the state, and `advance` for every section after the first. -/
inductive Action where
  | wake (t : ℕ)
  | beginCreate (j scope executor : ℕ) (parent : Option ℕ)
  | beginRebind (j t executor : ℕ)
  /-- `task_request_cancel`, also for the member of a group, or a deadline that has expired. -/
  | beginCancel (j t : ℕ) (cause : Cause)
  | beginScopeCancel (j scope : ℕ)
  | shutdown (executor : ℕ)
  | dequeue (j executor : ℕ)
  | resumeReturns (j code : ℕ)
  | advance (j : ℕ)
  deriving DecidableEq, Repr

/-- What an action does; `none` where it cannot be taken. -/
def step (w : World) : Action → Option World
  | .wake t => if t < w.created ∧ (w.tasks t).locked = false then some (w.wake t) else none
  | .beginCreate j s e parent =>
    if w.threads j = .idle ∧ (w.scopes s).holder = none ∧ w.parentRunning s parent then
      some ((w.setScope s { w.scopes s with holder := some j }).setPc j (.creating s e parent))
    else none
  | .beginRebind j t e =>
    if w.threads j = .idle ∧ t < w.created ∧ (w.tasks t).locked = false ∧
        (w.tasks t).state = .running ∧ (w.tasks t).attached then
      some (w.setPc j (.rebinding t e (w.tasks t).scope false))
    else none
  | .beginCancel j t cause =>
    if w.threads j = .idle ∧ t < w.created then some (w.setPc j (.markRoot t cause)) else none
  | .beginScopeCancel j s =>
    if w.threads j = .idle then
      some (w.setPc j (.lockScope ⟨.all, .ownerRequest, false⟩ s))
    else none
  | .shutdown e => some (w.setExecutor e { w.executors e with shutdown := true })
  | .dequeue j e =>
    match w.threads j, (w.executors e).queue with
    | .idle, t :: rest =>
      some (((w.setExecutor e { w.executors e with queue := rest }).setTask t
        { w.tasks t with state := .running, woken := false, marked := false }).setPc j
          (.resuming t))
    | _, _ => none
  | .resumeReturns j code =>
    match w.threads j with
    | .resuming t => if (w.tasks t).locked then none else w.classify j t code
    | _ => none
  | .advance j => w.advance j

end Task

end Chtholly
