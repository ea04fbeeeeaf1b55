import Chtholly.Task.Moves

/-!
# Scheduling

A task is in one queue, once, exactly when it is queued; one worker resumes it at a time; and no
wake is lost.

A cancellation marks a task and wakes it in two critical sections, so a task can be idle and
marked in between.  The thread that has marked it is then about to wake it.

## Main definitions

* `Task.World.Sched` — the invariant of scheduling.
* `Task.World.Scheduled` — what it says about tasks, queues and workers.

## Main results

* `Task.reachable_scheduled` — it holds in every run.
* `Task.marked_while_idle` — a task can be marked while it is idle.
-/

set_option autoImplicit false

namespace Chtholly

namespace Task

/-- The task that a worker has taken from a queue and has not yet given back. -/
def Pc.owned : Pc → Option ℕ
  | .resuming t => some t
  | .requeue t _ _ => some t
  | .readScope t _ true => some t
  | .lockScope ⟨.tree t, _, true⟩ _ => some t
  | .visit ⟨.tree t, _, true⟩ _ _ => some t
  | .wakeVisited ⟨.tree t, _, true⟩ _ _ _ => some t
  | .publishing t _ => some t
  | .removing t => some t
  | _ => none

/-- The task that is being resumed. -/
def Pc.resumes : Pc → Option ℕ
  | .resuming t => some t
  | .requeue t _ _ => some t
  | _ => none

/-- The task that the thread has marked and is about to wake. -/
def Pc.wakes : Pc → Option ℕ
  | .wakeRoot t _ => some t
  | .wakeVisited _ _ t _ => some t
  | _ => none

lemma Pc.owned_of_resumes {pc : Pc} {t : ℕ} (h : pc.resumes = some t) : pc.owned = some t := by
  cases pc with
  | resuming k => exact h
  | requeue k step e => exact h
  | _ => exact nomatch h

lemma Pc.resumes_of_owned {pc : Pc} {t : ℕ} (h : pc.owned = some t) :
    pc.resumes = none ∨ pc.resumes = some t := by
  cases pc with
  | resuming k => exact .inr h
  | requeue k step e => exact .inr h
  | _ => exact .inl rfl

lemma Step.terminal_of_state? {step : Step} {state : State} (h : step.state? = some state) :
    state.terminal = true := by
  cases step with
  | suspended => exact nomatch h
  | reschedule => exact nomatch h
  | cancelled => exact Option.some.inj h ▸ rfl
  | completed => exact Option.some.inj h ▸ rfl
  | failed => exact Option.some.inj h ▸ rfl

/-- The tasks that a thread has in hand beside the one it has taken. -/
def Pc.mentions : Pc → ℕ → Prop
  | .creating _ _ parent, k => parent = some k
  | .rebinding t _ _ _, k => k = t
  | .markRoot t _, k => k = t
  | .wakeRoot t _, k => k = t
  | .readScope t _ _, k => k = t
  | .visit _ _ rest, k => k ∈ rest
  | .wakeVisited _ _ t rest, k => k = t ∨ k ∈ rest
  | _, _ => False

/-- What holds of one task, whatever the threads do. -/
structure Record.Sound (task : Record) : Prop where
  idle : task.state = .idle → task.woken = false
  running : task.state = .running → task.woken = true → task.rerunRequested = true
  marked : task.marked = true → task.cancellationRequested = true
  published : task.publishedTerminal = true → task.state.terminal = true

structure World.Sched (w : World) : Prop where
  fresh : ∀ t, w.created ≤ t → w.tasks t = Record.fresh
  sound : ∀ t, (w.tasks t).Sound
  executor : ∀ t < w.created, (w.tasks t).publishedTerminal = false → (w.tasks t).executor ≠ none
  queue : ∀ e t, (w.executors e).queue.count t =
    if (w.tasks t).state = .queued ∧ (w.tasks t).executor = some e then 1 else 0
  unique : ∀ i j t, (w.threads i).owned = some t → (w.threads j).owned = some t → i = j
  resumes : ∀ j t, (w.threads j).resumes = some t → (w.tasks t).state = .running
  owned : ∀ j t, (w.threads j).owned = some t → (w.threads j).resumes = none →
    (w.tasks t).state.terminal = true
  requeue : ∀ j t step e, w.threads j = .requeue t step e →
    (w.tasks t).executor = some e ∧ (w.tasks t).locked = true
  pending : ∀ t, (w.tasks t).state = .idle → (w.tasks t).marked = true →
    ∃ j, (w.threads j).wakes = some t

/-- The threads and the scopes know only tasks that were created. -/
structure World.Bounded (w : World) : Prop where
  mentioned : ∀ j t, (w.threads j).mentions t → t < w.created
  listed : ∀ s t, t ∈ (w.scopes s).tasks → t < w.created

namespace World

section Fields

variable (w : World) (t j s e k : ℕ) (task : Record) (pc : Pc) (scope : Scope) (executor : Executor)

@[simp, grind =] lemma setTask_created : (w.setTask t task).created = w.created := rfl

@[simp, grind =] lemma setTask_closed : (w.setTask t task).closed = w.closed := rfl

@[simp, grind =] lemma setTask_returned : (w.setTask t task).returned = w.returned := rfl

@[simp, grind =] lemma setTask_tasks :
    (w.setTask t task).tasks k = if k = t then task else w.tasks k :=
  Function.update_apply ..

@[simp, grind =] lemma setTask_scopes : (w.setTask t task).scopes k = w.scopes k := rfl

@[simp, grind =] lemma setTask_executors : (w.setTask t task).executors k = w.executors k := rfl

@[simp, grind =] lemma setTask_threads : (w.setTask t task).threads k = w.threads k := rfl

@[simp, grind =] lemma setPc_created : (w.setPc j pc).created = w.created := rfl

@[simp, grind =] lemma setPc_closed : (w.setPc j pc).closed = w.closed := rfl

@[simp, grind =] lemma setPc_returned : (w.setPc j pc).returned = w.returned := rfl

@[simp, grind =] lemma setPc_tasks : (w.setPc j pc).tasks k = w.tasks k := rfl

@[simp, grind =] lemma setPc_scopes : (w.setPc j pc).scopes k = w.scopes k := rfl

@[simp, grind =] lemma setPc_executors : (w.setPc j pc).executors k = w.executors k := rfl

@[simp, grind =] lemma setPc_threads :
    (w.setPc j pc).threads k = if k = j then pc else w.threads k :=
  Function.update_apply ..

@[simp, grind =] lemma setScope_created : (w.setScope s scope).created = w.created := rfl

@[simp, grind =] lemma setScope_closed : (w.setScope s scope).closed = w.closed := rfl

@[simp, grind =] lemma setScope_returned : (w.setScope s scope).returned = w.returned := rfl

@[simp, grind =] lemma setScope_tasks : (w.setScope s scope).tasks k = w.tasks k := rfl

@[simp, grind =] lemma setScope_scopes :
    (w.setScope s scope).scopes k = if k = s then scope else w.scopes k :=
  Function.update_apply ..

@[simp, grind =] lemma setScope_executors : (w.setScope s scope).executors k = w.executors k := rfl

@[simp, grind =] lemma setScope_threads : (w.setScope s scope).threads k = w.threads k := rfl

@[simp, grind =] lemma setExecutor_created : (w.setExecutor e executor).created = w.created := rfl

@[simp, grind =] lemma setExecutor_closed : (w.setExecutor e executor).closed = w.closed := rfl

@[simp, grind =] lemma setExecutor_returned : (w.setExecutor e executor).returned = w.returned := rfl

@[simp, grind =] lemma setExecutor_tasks : (w.setExecutor e executor).tasks k = w.tasks k := rfl

@[simp, grind =] lemma setExecutor_scopes : (w.setExecutor e executor).scopes k = w.scopes k := rfl

@[simp, grind =] lemma setExecutor_executors :
    (w.setExecutor e executor).executors k = if k = e then executor else w.executors k :=
  Function.update_apply ..

@[simp, grind =] lemma setExecutor_threads : (w.setExecutor e executor).threads k = w.threads k := rfl

end Fields

variable {w : World} {t j e s : ℕ} {pc : Pc} {cause : Cause} {step : Step}

/-! ## Scheduling -/

lemma Sched.lt_created (h : w.Sched) (hstate : (w.tasks t).state ≠ .idle) : t < w.created := by
  by_contra hge
  rw [h.fresh t (Nat.le_of_not_lt hge)] at hstate
  exact hstate rfl

/-- A task that a thread has taken is running or terminal. -/
lemma Sched.owned_state (h : w.Sched) (hj : (w.threads j).owned = some t) :
    (w.tasks t).state = .running ∨ (w.tasks t).state.terminal = true := by
  rcases Pc.resumes_of_owned hj with hnone | hsome
  · exact .inr (h.owned j t hj hnone)
  · exact .inl (h.resumes j t hsome)

/-- The scopes and the records of past cancellations do not matter for scheduling. -/
lemma Sched.congr {w' : World} (h : w.Sched) (hcreated : w'.created = w.created)
    (htasks : ∀ k, w'.tasks k = w.tasks k) (hexecutors : ∀ k, w'.executors k = w.executors k)
    (hthreads : ∀ k, w'.threads k = w.threads k) : w'.Sched where
  fresh := fun k hk => by
    rw [htasks]
    exact h.fresh k (hcreated ▸ hk)
  sound := fun k => by
    rw [htasks]
    exact h.sound k
  executor := fun k hk => by
    rw [htasks]
    exact h.executor k (hcreated ▸ hk)
  queue := fun e k => by
    rw [htasks, hexecutors]
    exact h.queue e k
  unique := fun i j k => by
    rw [hthreads, hthreads]
    exact h.unique i j k
  resumes := fun i k => by
    rw [htasks, hthreads]
    exact h.resumes i k
  owned := fun i k => by
    rw [htasks, hthreads]
    exact h.owned i k
  requeue := fun i k step e => by
    rw [htasks, hthreads]
    exact h.requeue i k step e
  pending := fun k => by
    rw [htasks]
    simp only [hthreads]
    exact h.pending k

lemma Sched.setScope (h : w.Sched) (s : ℕ) (scope : Scope) : (w.setScope s scope).Sched :=
  h.congr rfl (fun _ => rfl) (fun _ => rfl) (fun _ => rfl)

/-- A thread goes on without touching a task.  It may have a terminal task that no other thread
has, and it may not drop a wake that is still needed. -/
lemma Sched.setPc (h : w.Sched) (hresumes : pc.resumes = none)
    (howned : ∀ k, pc.owned = some k →
      (w.tasks k).state.terminal = true ∧ ∀ i, (w.threads i).owned = some k → i = j)
    (hwakes : ∀ k, (w.threads j).wakes = some k → (w.tasks k).state ≠ .idle) :
    (w.setPc j pc).Sched := by
  have hrequeue : ∀ k step e, pc ≠ .requeue k step e := by
    rintro k step e rfl
    exact nomatch hresumes
  constructor
  · exact h.fresh
  · exact h.sound
  · exact h.executor
  · exact h.queue
  · intro i i' k
    have := h.unique i i' k
    have := howned k
    grind
  · intro i k
    have := h.resumes i k
    grind
  · intro i k
    have := h.owned i k
    have := howned k
    grind
  · intro i k step e
    have := h.requeue i k step e
    grind
  · intro k hidle hmarked
    obtain ⟨i, hi⟩ := h.pending k hidle hmarked
    refine ⟨i, ?_⟩
    grind

/-- One task changes, and no thread moves.  If the task comes to another state, no thread has it;
if its executor or its mutex change, no thread counts on them. -/
lemma Sched.setTask (h : w.Sched) {task : Record} (hlt : t < w.created) (hsound : task.Sound)
    (hexecutor : task.publishedTerminal = false → task.executor ≠ none)
    (hqueue : ∀ e, (task.state = .queued ∧ task.executor = some e) ↔
      ((w.tasks t).state = .queued ∧ (w.tasks t).executor = some e))
    (hstate : task.state = (w.tasks t).state ∨ ∀ i, (w.threads i).owned ≠ some t)
    (hlocked : (task.executor = (w.tasks t).executor ∧ task.locked = (w.tasks t).locked) ∨
      ∀ i step e, w.threads i ≠ .requeue t step e)
    (hpending : task.state = .idle → task.marked = true → ∃ i, (w.threads i).wakes = some t) :
    (w.setTask t task).Sched := by
  constructor
  · intro k hk
    have := h.fresh k
    grind
  · intro k
    have := h.sound k
    grind
  · intro k hk
    have := h.executor k
    grind
  · intro e k
    have := h.queue e k
    have := hqueue e
    grind
  · exact h.unique
  · intro i k hi
    have := h.resumes i k hi
    have := Pc.owned_of_resumes hi
    grind
  · intro i k
    have := h.owned i k
    grind
  · intro i k step e
    have := h.requeue i k step e
    grind
  · intro k hidle hmarked
    by_cases hk : k = t
    · subst hk
      exact hpending (by grind) (by grind)
    · obtain ⟨i, hi⟩ := h.pending k (by grind) (by grind)
      exact ⟨i, hi⟩

/-- A task that no thread has, and that is in no queue, enters the queue of its executor. -/
lemma Sched.push (h : w.Sched) {task : Record} (hlt : t < w.created)
    (hfree : ∀ i, (w.threads i).owned ≠ some t) (hsound : task.Sound)
    (hqueued : task.state = .queued) (hstate : (w.tasks t).state ≠ .queued)
    (hexecutor : task.executor = some e) :
    ((w.setExecutor e { w.executors e with queue := (w.executors e).queue ++ [t] }).setTask t
      task).Sched := by
  constructor
  · intro k hk
    have := h.fresh k
    grind
  · intro k
    have := h.sound k
    grind
  · intro k hk
    have := h.executor k
    grind
  · intro e' k
    have := h.queue e' k
    grind
  · exact h.unique
  · intro i k hi
    have := h.resumes i k hi
    have := Pc.owned_of_resumes hi
    grind
  · intro i k
    have := h.owned i k
    grind
  · intro i k step e' hi
    have := h.requeue i k step e' hi
    have howned : (w.threads i).owned = some k := by
      rw [show w.threads i = .requeue k step e' from hi]
      rfl
    have := hfree i
    grind
  · intro k hidle hmarked
    obtain ⟨i, hi⟩ := h.pending k (by grind) (by grind)
    exact ⟨i, hi⟩

/-- A worker takes the first task of the queue. -/
lemma Sched.dequeue (h : w.Sched) (hpc : w.threads j = .idle) {rest : List ℕ}
    (hq : (w.executors e).queue = t :: rest) :
    (((w.setExecutor e { w.executors e with queue := rest }).setTask t
        { w.tasks t with state := .running, woken := false, marked := false }).setPc j
          (.resuming t)).Sched := by
  have hcount := h.queue e t
  rw [hq, List.count_cons_self] at hcount
  have hqueued : (w.tasks t).state = .queued ∧ (w.tasks t).executor = some e := by
    by_contra hne
    rw [if_neg hne] at hcount
    omega
  have hlt := h.lt_created (t := t) (by rw [hqueued.1]; simp)
  -- No thread has the task yet: it would be running or terminal.
  have hfree : ∀ i, (w.threads i).owned ≠ some t := by
    intro i hi
    have := h.owned_state hi
    grind [State.terminal]
  constructor
  · intro k hk
    have := h.fresh k
    grind
  · intro k
    have := h.sound k
    constructor <;> grind [Record.Sound, State.terminal]
  · intro k hk
    have := h.executor k
    grind
  · intro e' k
    have := h.queue e' k
    grind
  · intro i i' k
    have := h.unique i i' k
    grind [Pc.owned]
  · intro i k
    have := h.resumes i k
    grind [Pc.resumes]
  · intro i k
    have := h.owned i k
    grind [Pc.resumes]
  · intro i k step e'
    have := h.requeue i k step e'
    grind
  · intro k hidle hmarked
    have hk : k ≠ t := by grind
    obtain ⟨i, hi⟩ := h.pending k (by grind) (by grind)
    exact ⟨i, by grind [Pc.wakes]⟩

/-- A worker keeps the mutex of its task until it has decided where the task goes. -/
lemma Sched.hold (h : w.Sched) (hj : w.threads j = .resuming t)
    (hexecutor : (w.tasks t).executor = some e) (hlocked : (w.tasks t).locked = true) :
    (w.setPc j (.requeue t step e)).Sched := by
  have hresumes : (w.threads j).resumes = some t := by rw [hj]; rfl
  have howned : (w.threads j).owned = some t := by rw [hj]; rfl
  have hwakes : (w.threads j).wakes = none := by rw [hj]; rfl
  have hresumes' : (Pc.requeue t step e).resumes = some t := rfl
  have howned' : (Pc.requeue t step e).owned = some t := rfl
  constructor
  · exact h.fresh
  · exact h.sound
  · exact h.executor
  · exact h.queue
  · intro i i' k
    have := h.unique i i' k
    have := h.unique i j k
    have := h.unique i' j k
    grind
  · intro i k
    have := h.resumes i k
    have := h.resumes j k
    grind
  · intro i k
    have := h.owned i k
    grind
  · intro i k step' e'
    have := h.requeue i k step' e'
    grind
  · intro k hidle hmarked
    obtain ⟨i, hi⟩ := h.pending k hidle hmarked
    exact ⟨i, by grind⟩

/-! ### The critical sections -/

lemma enqueue_setTask (w : World) (t e : ℕ) (task : Record) :
    (w.setTask t task).enqueue e t =
      (w.setExecutor e { w.executors e with queue := (w.executors e).queue ++ [t] }).setTask t
        { task with state := .queued } := by
  rw [World.enqueue, World.setTask, World.setTask, World.setTask]
  simp only [Function.update_self, Function.update_idem, World.setExecutor]

/-- A task that a thread is about to wake is marked. -/
lemma Sched.mark (h : w.Sched) (hlt : t < w.created) (hwakes : (w.threads j).wakes = some t) :
    (w.mark t cause).Sched := by
  have hsound := h.sound t
  refine h.setTask hlt ?_ (h.executor t hlt) (fun _ => Iff.rfl) (.inl rfl) (.inl ⟨rfl, rfl⟩)
    fun _ _ => ⟨j, hwakes⟩
  exact ⟨hsound.idle, hsound.running, fun _ => rfl, hsound.published⟩

lemma Sched.wake (h : w.Sched) (hlt : t < w.created) : (w.wake t).Sched := by
  have hsound := h.sound t
  unfold World.wake
  dsimp only
  split
  next => exact h
  next hpublished =>
  split
  next => exact h
  next e he hidle =>
    have hfree : ∀ i, (w.threads i).owned ≠ some t := by
      intro i hi
      have := h.owned_state hi
      grind [State.terminal]
    rw [enqueue_setTask]
    refine h.push hlt hfree ?_ rfl (by grind) he
    exact ⟨nofun, nofun, hsound.marked, fun hp => absurd hp hpublished⟩
  next e he hrunning =>
    refine h.setTask hlt ?_ (h.executor t hlt) (fun _ => Iff.rfl) (.inl rfl) (.inl ⟨rfl, rfl⟩) ?_
    · exact ⟨by grind, fun _ _ => rfl, hsound.marked, hsound.published⟩
    · grind
  next e he hidle hrunning =>
    refine h.setTask hlt ?_ (h.executor t hlt) (fun _ => Iff.rfl) (.inl rfl) (.inl ⟨rfl, rfl⟩) ?_
    · exact ⟨fun hs => absurd hs hidle, fun hs => absurd hs hrunning, hsound.marked,
        hsound.published⟩
    · exact fun hs => absurd hs hidle

/-- After a wake the task is not idle. -/
lemma Sched.wake_state (h : w.Sched) (hlt : t < w.created) :
    ((w.wake t).tasks t).state ≠ .idle := by
  have hexecutor := h.executor t hlt
  have hpublished := (h.sound t).published
  unfold World.wake
  grind [World.enqueue, State.terminal]

/-- The mutex of a task that is not locked is not held between two critical sections. -/
lemma Sched.not_requeue (h : w.Sched) (hlocked : (w.tasks t).locked = false) (i : ℕ) (step : Step)
    (e : ℕ) : w.threads i ≠ .requeue t step e := by
  intro hi
  have := (h.requeue i t step e hi).2
  rw [hlocked] at this
  exact nomatch this

/-- The worker of a task lets go of it. -/
lemma Sched.leave (h : w.Sched) (hj : (w.threads j).owned = some t)
    (hwakes : (w.threads j).wakes = none) :
    (w.setPc j .idle).Sched ∧ ∀ i, ((w.setPc j .idle).threads i).owned ≠ some t := by
  constructor
  · refine h.setPc rfl nofun ?_
    rw [hwakes]
    exact nofun
  · intro i hi
    have := h.unique i j t
    grind [Pc.owned]

lemma setPc_setTask_setPc (w : World) (j t : ℕ) (task : Record) (pc pc' : Pc) :
    ((w.setPc j pc).setTask t task).setPc j pc' = (w.setTask t task).setPc j pc' := by
  rw [World.setPc, World.setTask, World.setPc]
  simp only [Function.update_idem]
  rfl

/-- A worker has brought its task to a terminal state and goes on to publish it. -/
lemma Sched.finish (h : w.Sched) (hj : w.threads j = .resuming t) {state : State}
    (hstate : state.terminal = true) (hresumes : pc.resumes = none) (howned : pc.owned = some t) :
    ((w.setTask t { w.tasks t with state, rerunRequested := false }).setPc j pc).Sched := by
  have hsound := h.sound t
  have hrunning := h.resumes j t (by rw [hj]; rfl)
  have hlt := h.lt_created (t := t) (by rw [hrunning]; simp)
  obtain ⟨hleave, hfree⟩ := h.leave (j := j) (t := t) (by rw [hj]; rfl) (by rw [hj]; rfl)
  have hrequeue : ∀ i step e, (w.setPc j .idle).threads i ≠ .requeue t step e := by
    intro i step e hi
    apply hfree i
    rw [hi]
    rfl
  have hset : ((w.setPc j .idle).setTask t
      { w.tasks t with state, rerunRequested := false }).Sched := by
    refine hleave.setTask hlt ?_ (h.executor t hlt) ?_ (.inr hfree) (.inr hrequeue) ?_
    · exact ⟨by grind [State.terminal], by grind [State.terminal], hsound.marked, fun _ => hstate⟩
    · intro e
      grind [State.terminal]
    · grind [State.terminal]
  rw [← setPc_setTask_setPc w j t _ .idle pc]
  refine hset.setPc hresumes ?_ ?_
  · intro k hk
    rw [howned, Option.some.injEq] at hk
    subst hk
    exact ⟨by grind, fun i hi => absurd hi (hfree i)⟩
  · grind [Pc.wakes]

lemma Sched.requeueAgain (h : w.Sched) (hj : w.threads j = .requeue t step e) :
    (((w.setTask t { w.tasks t with rerunRequested := false, locked := false }).enqueue e
      t).setPc j .idle).Sched := by
  have hsound := h.sound t
  have hrunning := h.resumes j t (by rw [hj]; rfl)
  have hlt := h.lt_created (t := t) (by rw [hrunning]; simp)
  obtain ⟨hleave, hfree⟩ := h.leave (j := j) (t := t) (by rw [hj]; rfl) (by rw [hj]; rfl)
  rw [enqueue_setTask]
  refine hleave.push hlt hfree ?_ rfl (by grind) (h.requeue j t step e hj).1
  exact ⟨nofun, nofun, hsound.marked, fun hp => by grind [State.terminal, hsound.published hp]⟩

/-- A task goes idle only when it was not woken and not marked since it began to run. -/
lemma Sched.suspend (h : w.Sched) (hj : w.threads j = .requeue t step e)
    (hrerun : (w.tasks t).rerunRequested = false)
    (hrequested : (w.tasks t).cancellationRequested = false) :
    ((w.setTask t { w.tasks t with state := .idle, locked := false }).setPc j .idle).Sched := by
  have hsound := h.sound t
  have hrunning := h.resumes j t (by rw [hj]; rfl)
  have hlt := h.lt_created (t := t) (by rw [hrunning]; simp)
  obtain ⟨hleave, hfree⟩ := h.leave (j := j) (t := t) (by rw [hj]; rfl) (by rw [hj]; rfl)
  have hrequeue : ∀ i step e, (w.setPc j .idle).threads i ≠ .requeue t step e := by
    intro i step e hi
    apply hfree i
    rw [hi]
    rfl
  have hmarked := hsound.marked
  refine hleave.setTask hlt ?_ (h.executor t hlt) ?_ (.inr hfree) (.inr hrequeue) ?_
  · exact ⟨fun _ => by grind [hsound.running hrunning], nofun, hmarked,
      fun hp => by grind [State.terminal, hsound.published hp]⟩
  · intro e'
    grind
  · grind

lemma Sched.publish (h : w.Sched) (hj : w.threads j = .publishing t step)
    (hlocked : (w.tasks t).locked = false) : (w.publish j t step).Sched := by
  have hsound := h.sound t
  have hterminal := h.owned j t (by rw [hj]; rfl) (by rw [hj]; rfl)
  have hlt := h.lt_created (t := t) (by grind [State.terminal])
  have hset : (w.setTask t { w.tasks t with
      terminalStep := some step, publishedTerminal := true, executor := none }).Sched := by
    refine h.setTask hlt ?_ nofun ?_ (.inl rfl) (.inr (h.not_requeue hlocked)) ?_
    · exact ⟨hsound.idle, hsound.running, hsound.marked, fun _ => hterminal⟩
    · intro e'
      grind [State.terminal]
    · grind [State.terminal]
  refine hset.setPc rfl ?_ ?_
  · intro k hk
    have hkt : k = t := (Option.some.inj hk).symm
    subst hkt
    exact ⟨by grind, fun i hi => h.unique i j k hi (by rw [hj]; rfl)⟩
  · intro k hk
    rw [show (w.setTask t _).threads j = w.threads j from rfl, hj] at hk
    exact nomatch hk

lemma Sched.remove (h : w.Sched) (hj : w.threads j = .removing t) :
    (w.removeFromScope j t).Sched := by
  have hsound := h.sound t
  have hterminal := h.owned j t (by rw [hj]; rfl) (by rw [hj]; rfl)
  have hlt := h.lt_created (t := t) (by grind [State.terminal])
  have hset : (w.setTask t { w.tasks t with attached := false }).Sched := by
    refine h.setTask hlt ?_ (h.executor t hlt) (fun _ => Iff.rfl) (.inl rfl) (.inl ⟨rfl, rfl⟩) ?_
    · exact ⟨hsound.idle, hsound.running, hsound.marked, hsound.published⟩
    · grind [State.terminal]
  have hpc : ((w.setTask t { w.tasks t with attached := false }).setPc j .idle).Sched := by
    refine hset.setPc rfl nofun ?_
    intro k hk
    rw [show (w.setTask t _).threads j = w.threads j from rfl, hj] at hk
    exact nomatch hk
  exact hpc.congr rfl (fun _ => rfl) (fun _ => rfl) (fun _ => rfl)

lemma Sched.rebind (h : w.Sched) {retained : Bool} (hj : w.threads j = .rebinding t e s retained)
    (hlocked : (w.tasks t).locked = false) (hrunning : (w.tasks t).state = .running) :
    ((w.setTask t { w.tasks t with executor := some e }).setPc j .idle).Sched := by
  have hsound := h.sound t
  have hlt := h.lt_created (t := t) (by rw [hrunning]; simp)
  have hset : (w.setTask t { w.tasks t with executor := some e }).Sched := by
    refine h.setTask hlt ?_ nofun ?_ (.inl rfl) (.inr (h.not_requeue hlocked)) ?_
    · exact ⟨hsound.idle, hsound.running, hsound.marked, hsound.published⟩
    · intro e'
      grind
    · grind
  refine hset.setPc rfl nofun ?_
  intro k hk
  rw [show (w.setTask t _).threads j = w.threads j from rfl, hj] at hk
  exact nomatch hk

lemma Sched.holdTask (h : w.Sched) (hj : w.threads j = .resuming t)
    (hlocked : (w.tasks t).locked = false) (hexecutor : (w.tasks t).executor = some e) :
    ((w.setTask t { w.tasks t with locked := true }).setPc j (.requeue t step e)).Sched := by
  have hsound := h.sound t
  have hrunning := h.resumes j t (by rw [hj]; rfl)
  have hlt := h.lt_created (t := t) (by rw [hrunning]; simp)
  have hset : (w.setTask t { w.tasks t with locked := true }).Sched := by
    refine h.setTask hlt ?_ (h.executor t hlt) (fun _ => Iff.rfl) (.inl rfl)
      (.inr (h.not_requeue hlocked)) ?_
    · exact ⟨hsound.idle, hsound.running, hsound.marked, hsound.published⟩
    · grind
  exact hset.hold hj (by grind) (by grind)

/-- The task that `create_on` enters. -/
def newTask (w : World) (s e : ℕ) (parent : Option ℕ) : Record :=
  let inherits := (w.scopes s).cancellationRequested ||
    parent.any fun p => (w.tasks p).cancellationRequested
  { Record.fresh with
    scope := s, attached := true, parent, executor := some e, state := .queued
    cancellationRequested := inherits
    cancellationCause :=
      if inherits then
        some (if (w.scopes s).cancellationRequested then .ownerRequest
          else (parent.bind fun p => (w.tasks p).cancellationCause).getD .ownerRequest)
      else none }

lemma insertTask_eq (w : World) (s e : ℕ) (parent : Option ℕ) :
    w.insertTask s e parent =
      { ((w.setScope s { w.scopes s with tasks := w.created :: (w.scopes s).tasks }).setExecutor e
          { w.executors e with queue := (w.executors e).queue ++ [w.created] }).setTask w.created
            (w.newTask s e parent) with created := w.created + 1 } := by
  unfold World.insertTask World.newTask World.enqueue
  simp only [World.setTask, World.setScope, World.setExecutor, Function.update_self,
    Function.update_idem]

lemma Sched.insert (h : w.Sched) (parent : Option ℕ) : (w.insertTask s e parent).Sched := by
  have hfresh := h.fresh w.created (Nat.le_refl _)
  have hstate : (w.tasks w.created).state = .idle := by rw [hfresh]; rfl
  have hnew : (w.newTask s e parent).state = .queued := rfl
  have hexecutor : (w.newTask s e parent).executor = some e := rfl
  have hsound : (w.newTask s e parent).Sound := ⟨nofun, nofun, nofun, nofun⟩
  have hfree : ∀ i, (w.threads i).owned ≠ some w.created := by
    intro i hi
    have := h.owned_state hi
    grind [State.terminal]
  rw [insertTask_eq]
  constructor
  · intro k hk
    have := h.fresh k
    grind
  · intro k
    have := h.sound k
    grind
  · intro k hk
    have := h.executor k
    grind
  · intro e' k
    have := h.queue e' k
    grind
  · exact h.unique
  · intro i k hi
    have := h.resumes i k hi
    have := Pc.owned_of_resumes hi
    grind
  · intro i k
    have := h.owned i k
    grind
  · intro i k step' e' hi
    have := h.requeue i k step' e' hi
    have howned : (w.threads i).owned = some k := by
      rw [show w.threads i = .requeue k step' e' from hi]
      rfl
    have := hfree i
    grind
  · intro k hidle hmarked
    obtain ⟨i, hi⟩ := h.pending k (by grind) (by grind)
    exact ⟨i, hi⟩

/-- A thread that has no task and no wake to make moves on. -/
lemma Sched.move (h : w.Sched) (hresumes : pc.resumes = none) (howned : pc.owned = none)
    (hwakes : (w.threads j).wakes = none) : (w.setPc j pc).Sched := by
  refine h.setPc hresumes ?_ ?_
  · rw [howned]
    exact nofun
  · rw [hwakes]
    exact nofun

/-- A worker goes on with the terminal task it has. -/
lemma Sched.keep (h : w.Sched) (hresumes : pc.resumes = none) (hj : (w.threads j).owned = pc.owned)
    (hj' : (w.threads j).resumes = none) (hwakes : (w.threads j).wakes = none) :
    (w.setPc j pc).Sched := by
  refine h.setPc hresumes ?_ ?_
  · intro k hk
    rw [← hj] at hk
    exact ⟨h.owned j k hk hj', fun i hi => h.unique i j k hi hk⟩
  · rw [hwakes]
    exact nofun

/-- A thread makes the wake that was due, and goes on. -/
lemma Sched.wakeThen (h : w.Sched) (hlt : t < w.created) (hresumes : pc.resumes = none)
    (hj : (w.threads j).owned = pc.owned) (hj' : (w.threads j).resumes = none)
    (hwakes : (w.threads j).wakes = some t) : ((w.wake t).setPc j pc).Sched := by
  have hthreads : ∀ i, (w.wake t).threads i = w.threads i := by
    intro i
    unfold World.wake
    grind [World.enqueue]
  have hwake := h.wake hlt
  refine hwake.setPc hresumes ?_ ?_
  · intro k hk
    rw [← hj] at hk
    refine ⟨hwake.owned j k (by rw [hthreads]; exact hk) (by rw [hthreads]; exact hj'), ?_⟩
    intro i hi
    rw [hthreads] at hi
    exact h.unique i j k hi hk
  · intro k hk
    rw [hthreads, hwakes, Option.some.injEq] at hk
    subst hk
    exact h.wake_state hlt

/-- A thread marks a task and goes on to wake it. -/
lemma Sched.markThen (h : w.Sched) (hlt : t < w.created) (hresumes : pc.resumes = none)
    (hj : (w.threads j).owned = pc.owned) (hj' : (w.threads j).resumes = none)
    (hwakes : (w.threads j).wakes = none) (hpc : pc.wakes = some t) :
    ((w.mark t cause).setPc j pc).Sched := by
  have hmove := h.keep hresumes hj hj' hwakes
  exact (hmove.mark (j := j) hlt (by grind)).congr rfl (fun _ => rfl) (fun _ => rfl) (fun _ => rfl)

end World

/-! ## Every move -/

/-- **Every move keeps the invariant of scheduling.** -/
theorem World.Sched.move_keeps {w w' : World} (h : w.Sched) (hb : w.Bounded) (hmove : Move w w') :
    w'.Sched := by
  cases hmove with
  | wake hlt => exact h.wake hlt
  | shutdown =>
    refine { h with queue := ?_ }
    intro e' k
    have := h.queue e' k
    grind
  | beginCreate hj => exact (h.setScope _ _).move rfl rfl (by rw [World.setScope_threads, hj]; rfl)
  | refuseCreate hj => exact (h.setScope _ _).move rfl rfl (by rw [World.setScope_threads, hj]; rfl)
  | @create j s e parent hj =>
    have hscope := h.setScope s { w.scopes s with holder := none }
    refine (hscope.insert parent).move rfl rfl ?_
    rw [World.insertTask_eq]
    show (w.threads j).wakes = none
    rw [hj]
    rfl
  | beginRebind hj => exact h.move rfl rfl (by rw [hj]; rfl)
  | retainExecutor hj => exact h.move rfl rfl (by rw [hj]; rfl)
  | refuseRebind hj => exact h.move rfl rfl (by rw [hj]; rfl)
  | rebind hj hlocked hrunning => exact h.rebind hj hlocked hrunning
  | beginCancel hj => exact h.move rfl rfl (by rw [hj]; rfl)
  | @markRoot j root cause hj =>
    have hlt := hb.mentioned j root (by rw [hj]; exact rfl)
    exact h.markThen hlt rfl (by rw [hj]; rfl) (by rw [hj]; rfl) (by rw [hj]; rfl) rfl
  | refuseRoot hj => exact h.move rfl rfl (by rw [hj]; rfl)
  | @wakeRoot j root cause hj =>
    have hlt := hb.mentioned j root (by rw [hj]; exact rfl)
    exact h.wakeThen hlt rfl (by rw [hj]; rfl) (by rw [hj]; rfl) (by rw [hj]; rfl)
  | @readScope j root cause publisher hj =>
    refine h.keep rfl ?_ (by rw [hj]; rfl) (by rw [hj]; rfl)
    rw [hj]
    cases publisher <;> rfl
  | leaveDetached hj =>
    exact (h.move rfl rfl (by rw [hj]; rfl)).congr rfl (fun _ => rfl) (fun _ => rfl) fun _ => rfl
  | publishDetached hj =>
    exact h.keep rfl (by rw [hj]; rfl) (by rw [hj]; rfl) (by rw [hj]; rfl)
  | beginScopeCancel hj => exact h.move rfl rfl (by rw [hj]; rfl)
  | @lockScope j s call cancelled hj =>
    refine (h.setScope _ _).keep rfl ?_ ?_ ?_
    all_goals rw [World.setScope_threads, hj]
    · obtain ⟨target, cause, publisher⟩ := call
      cases target <;> cases publisher <;> rfl
    · rfl
    · rfl
  | @visitMark j s t call rest hj =>
    have hlt := hb.mentioned j t (by rw [hj]; exact List.mem_cons_self)
    refine h.markThen hlt rfl ?_ (by rw [hj]; rfl) (by rw [hj]; rfl) rfl
    rw [hj]
    obtain ⟨target, cause, publisher⟩ := call
    cases target <;> cases publisher <;> rfl
  | @visitSkip j s t call rest hj =>
    refine h.keep rfl ?_ (by rw [hj]; rfl) (by rw [hj]; rfl)
    rw [hj]
    obtain ⟨target, cause, publisher⟩ := call
    cases target <;> cases publisher <;> rfl
  | @wakeVisited j s t call rest hj =>
    have hlt := hb.mentioned j t (by rw [hj]; exact .inl rfl)
    refine h.wakeThen hlt rfl ?_ (by rw [hj]; rfl) (by rw [hj]; rfl)
    rw [hj]
    obtain ⟨target, cause, publisher⟩ := call
    cases target <;> cases publisher <;> rfl
  | @finishVisit j s call hj =>
    have hscope := h.setScope s { w.scopes s with holder := none }
    have hidle : ((w.setScope s { w.scopes s with holder := none }).setPc j .idle).Sched :=
      hscope.move rfl rfl (by rw [World.setScope_threads, hj]; rfl)
    obtain ⟨target, cause, publisher⟩ := call
    cases target with
    | all => exact hidle
    | tree root =>
      cases publisher with
      | false => exact hidle.congr rfl (fun _ => rfl) (fun _ => rfl) fun _ => rfl
      | true =>
        have hkeep : ((w.setScope s { w.scopes s with holder := none }).setPc j
            (.publishing root .cancelled)).Sched :=
          hscope.keep rfl (by rw [World.setScope_threads, hj]; rfl)
            (by rw [World.setScope_threads, hj]; rfl) (by rw [World.setScope_threads, hj]; rfl)
        exact hkeep.congr rfl (fun _ => rfl) (fun _ => rfl) fun _ => rfl
  | dequeue hj hqueue => exact h.dequeue hj hqueue
  | cancelled hj => exact h.finish hj rfl rfl rfl
  | finished hj hlocked hstep => exact h.finish hj (Step.terminal_of_state? hstep) rfl rfl
  | hold hj hlocked hexecutor => exact h.holdTask hj hlocked hexecutor
  | requeue hj => exact h.requeueAgain hj
  | suspend hj hrerun hrequested => exact h.suspend hj hrerun hrequested
  | publish hj hlocked => exact h.publish hj hlocked
  | remove hj => exact h.remove hj

/-! ## Tasks that exist -/

namespace World

variable {w w' : World} {t j : ℕ} {pc : Pc}

section Fields

variable (w : World) (t k s e : ℕ) (cause : Cause) (parent : Option ℕ)

@[simp, grind =] lemma wake_threads : (w.wake t).threads k = w.threads k := by
  unfold World.wake
  grind [World.enqueue]

@[simp, grind =] lemma wake_scopes : (w.wake t).scopes k = w.scopes k := by
  unfold World.wake
  grind [World.enqueue]

@[simp, grind =] lemma wake_created : (w.wake t).created = w.created := by
  unfold World.wake
  grind [World.enqueue]

@[simp, grind =] lemma mark_threads : (w.mark t cause).threads k = w.threads k := rfl

@[simp, grind =] lemma mark_scopes : (w.mark t cause).scopes k = w.scopes k := rfl

@[simp, grind =] lemma mark_created : (w.mark t cause).created = w.created := rfl

@[simp, grind =] lemma enqueue_threads : (w.enqueue e t).threads k = w.threads k := rfl

@[simp, grind =] lemma enqueue_scopes : (w.enqueue e t).scopes k = w.scopes k := rfl

@[simp, grind =] lemma enqueue_created : (w.enqueue e t).created = w.created := rfl

end Fields

/-- Tasks are never forgotten, and the thread `j` and the scopes come to know only tasks that
exist. -/
lemma Bounded.move (h : w.Bounded) (j : ℕ) (hcreated : w.created ≤ w'.created)
    (hthreads : ∀ i, i ≠ j → w'.threads i = w.threads i)
    (hj : ∀ k, (w'.threads j).mentions k → (w.threads j).mentions k ∨ k < w.created)
    (hscopes : ∀ s k, k ∈ (w'.scopes s).tasks → k ∈ (w.scopes s).tasks ∨ k < w'.created) :
    w'.Bounded where
  mentioned := fun i k hk => by
    refine Nat.lt_of_lt_of_le ?_ hcreated
    by_cases hij : i = j
    · subst hij
      exact (hj k hk).elim (h.mentioned i k) id
    · rw [hthreads i hij] at hk
      exact h.mentioned i k hk
  listed := fun s k hk => by
    rcases hscopes s k hk with hs | hlt
    · exact Nat.lt_of_lt_of_le (h.listed s k hs) hcreated
    · exact hlt

/-- The same, where no task is created or listed. -/
lemma Bounded.goto (h : w.Bounded) (j : ℕ) (hcreated : w'.created = w.created)
    (hthreads : ∀ i, i ≠ j → w'.threads i = w.threads i)
    (hj : ∀ k, (w'.threads j).mentions k → (w.threads j).mentions k ∨ k < w.created)
    (hscopes : ∀ s, (w'.scopes s).tasks = (w.scopes s).tasks) : w'.Bounded :=
  h.move j (Nat.le_of_eq hcreated.symm) hthreads hj fun s _ hk => .inl (hscopes s ▸ hk)

theorem Bounded.move_keeps (h : w.Bounded) (hs : w.Sched) (hmove : Move w w') : w'.Bounded := by
  cases hmove with
  | @wake t => exact h.goto 0 (by grind) (by grind) (by grind) (by grind)
  | shutdown => exact h.goto 0 (by grind) (by grind) (by grind) (by grind)
  | @beginCreate j s e parent hj hholder hparent =>
    refine h.goto j (by grind) (by grind) ?_ (by grind)
    intro k hk
    have hparent' : parent = some k := by simpa [Pc.mentions] using hk
    subst hparent'
    rw [parentRunning] at hparent
    grind
  | @refuseCreate j =>
    exact h.goto j (by grind) (by grind) (by simp [Pc.mentions]) (by grind)
  | @create j s e parent hj =>
    rw [insertTask_eq]
    refine h.move j (Nat.le_succ _) (by grind) (by simp [Pc.mentions]) ?_
    intro k x hx
    have : w.created < w.created + 1 := Nat.lt_succ_self _
    grind
  | @beginRebind j t e hj hlt =>
    exact h.goto j (by grind) (by grind) (by simp [Pc.mentions, hlt]) (by grind)
  | @retainExecutor j t e s hj =>
    exact h.goto j (by grind) (by grind) (by simp [Pc.mentions, hj]) (by grind)
  | @refuseRebind j =>
    exact h.goto j (by grind) (by grind) (by simp [Pc.mentions]) (by grind)
  | @rebind j => exact h.goto j (by grind) (by grind) (by simp [Pc.mentions]) (by grind)
  | @beginCancel j t cause hj hlt =>
    exact h.goto j (by grind) (by grind) (by simp [Pc.mentions, hlt]) (by grind)
  | @markRoot j root cause hj =>
    exact h.goto j (by grind) (by grind) (by simp [Pc.mentions, hj]) (by grind)
  | @refuseRoot j => exact h.goto j (by grind) (by grind) (by simp [Pc.mentions]) (by grind)
  | @wakeRoot j root cause hj =>
    exact h.goto j (by grind) (by grind) (by simp [Pc.mentions, hj]) (by grind)
  | @readScope j => exact h.goto j (by grind) (by grind) (by simp [Pc.mentions]) (by grind)
  | @leaveDetached j => exact h.goto j (by grind) (by grind) (by simp [Pc.mentions]) (by grind)
  | @publishDetached j => exact h.goto j (by grind) (by grind) (by simp [Pc.mentions]) (by grind)
  | @beginScopeCancel j => exact h.goto j (by grind) (by grind) (by simp [Pc.mentions]) (by grind)
  | @lockScope j s call cancelled hj =>
    refine h.goto j (by grind) (by grind) ?_ (by grind)
    intro k hk
    exact .inr (h.listed s k (by simpa [Pc.mentions] using hk))
  | @visitMark j s t call rest hj =>
    exact h.goto j (by grind) (by grind) (by simp +contextual [Pc.mentions, hj]) (by grind)
  | @visitSkip j s t call rest hj =>
    exact h.goto j (by grind) (by grind) (by simp +contextual [Pc.mentions, hj]) (by grind)
  | @wakeVisited j s t call rest hj =>
    exact h.goto j (by grind) (by grind) (by simp +contextual [Pc.mentions, hj]) (by grind)
  | @finishVisit j s call hj =>
    obtain ⟨target, cause, publisher⟩ := call
    cases target with
    | all =>
      rw [World.finishVisit]
      exact h.goto j (by grind) (by grind) (by simp [Pc.mentions]) (by grind)
    | tree root =>
      cases publisher with
      | false =>
        rw [World.finishVisit]
        exact h.goto j (by grind) (by grind) (by simp [Pc.mentions]) (by grind)
      | true =>
        rw [World.finishVisit]
        exact h.goto j (by grind) (by grind) (by simp [Pc.mentions]) (by grind)
  | @dequeue j => exact h.goto j (by grind) (by grind) (by simp [Pc.mentions]) (by grind)
  | @cancelled j t cause hj =>
    have hrunning := hs.resumes j t (by rw [hj]; rfl)
    have hlt := hs.lt_created (t := t) (by rw [hrunning]; simp)
    exact h.goto j (by grind) (by grind) (by simp [Pc.mentions, hlt]) (by grind)
  | @finished j => exact h.goto j (by grind) (by grind) (by simp [Pc.mentions]) (by grind)
  | @hold j => exact h.goto j (by grind) (by grind) (by simp [Pc.mentions]) (by grind)
  | @requeue j => exact h.goto j (by grind) (by grind) (by simp [Pc.mentions]) (by grind)
  | @suspend j => exact h.goto j (by grind) (by grind) (by simp [Pc.mentions]) (by grind)
  | @publish j =>
    rw [World.publish]
    exact h.goto j (by grind) (by grind) (by simp [Pc.mentions]) (by grind)
  | @remove j t hj =>
    rw [World.removeFromScope]
    refine h.move j (Nat.le_refl _) (by grind) (by simp [Pc.mentions]) ?_
    intro s k hk
    have := List.mem_of_mem_erase (a := k) (b := t) (l := (w.scopes (w.tasks t).scope).tasks)
    grind

end World

/-! ## In every run -/

/-- What scheduling promises in each state. -/
structure World.Scheduled (w : World) : Prop where
  /-- A task is in the queue of its executor, once, when it is queued, and in no queue else. -/
  queue : ∀ e t, (w.executors e).queue.count t =
    if (w.tasks t).state = .queued ∧ (w.tasks t).executor = some e then 1 else 0
  queued : ∀ t < w.created, (w.tasks t).state = .queued → (w.tasks t).executor ≠ none
  /-- One worker at a time resumes it. -/
  resumed : ∀ i j t, w.threads i = .resuming t → w.threads j = .resuming t → i = j
  /-- An idle task was not woken since its last `resume` began; if it was marked, the thread that
  marked it is about to wake it. -/
  idle : ∀ t, (w.tasks t).state = .idle → (w.tasks t).woken = false ∧
    ((w.tasks t).marked = true → ∃ j, (w.threads j).wakes = some t)

/-- No task is idle after a wake or a mark. -/
def World.NoneLost (w : World) : Prop :=
  ∀ t, (w.tasks t).state = .idle → (w.tasks t).woken = false ∧ (w.tasks t).marked = false

lemma World.Sched.init : World.init.Sched where
  fresh := fun _ _ => rfl
  sound := fun _ => ⟨fun _ => rfl, nofun, nofun, nofun⟩
  executor := fun _ h => absurd h (Nat.not_lt_zero _)
  queue := fun _ _ => rfl
  unique := fun _ _ _ h => nomatch h
  resumes := fun _ _ h => nomatch h
  owned := fun _ _ h => nomatch h
  requeue := fun _ _ _ _ h => nomatch h
  pending := fun _ _ h => nomatch h

lemma World.Bounded.init : World.init.Bounded where
  mentioned := fun _ _ h => h.elim
  listed := fun _ _ h => nomatch h

lemma sched_of_reachable {w : World} (h : Interleaving.Reachable step World.init w) :
    w.Sched ∧ w.Bounded :=
  h.induction (motive := fun w => w.Sched ∧ w.Bounded) ⟨World.Sched.init, World.Bounded.init⟩ fun _ _ _ hw hstep =>
    ⟨hw.1.move_keeps hw.2 (move_of_step hstep), hw.2.move_keeps hw.1 (move_of_step hstep)⟩

/-- **Scheduling.**  In every state that any interleaving of the threads reaches, a task is in one
queue exactly when it is queued, one worker resumes it at a time, and no wake is lost. -/
theorem reachable_scheduled (w : World) (h : Interleaving.Reachable step World.init w) :
    w.Scheduled := by
  obtain ⟨hsched, -⟩ := sched_of_reachable h
  refine ⟨hsched.queue, ?_, ?_, ?_⟩
  · intro t ht hqueued
    refine hsched.executor t ht ?_
    by_contra hpublished
    rw [Bool.not_eq_false] at hpublished
    have := (hsched.sound t).published hpublished
    rw [hqueued] at this
    exact nomatch this
  · intro i j t hi hj
    exact hsched.unique i j t (by rw [hi]; rfl) (by rw [hj]; rfl)
  · intro t hidle
    exact ⟨(hsched.sound t).idle hidle, hsched.pending t hidle⟩

/-- A task is created, runs, and suspends; then a cancellation marks it. -/
def markedIdle : List Action :=
  [.beginCreate 0 0 0 none, .advance 0, .dequeue 1 0, .resumeReturns 1 0, .advance 1,
    .beginCancel 0 0 .ownerRequest, .advance 0]

theorem markedIdle_scheduled : ∃ w, Interleaving.run step World.init markedIdle = some w ∧
    (w.tasks 0).state = .idle ∧ w.Scheduled := by
  have hrun : (Interleaving.run step World.init markedIdle).map (fun w => (w.tasks 0).state) =
      some .idle := by decide
  obtain ⟨w, hw, hstate⟩ := Option.map_eq_some_iff.1 hrun
  exact ⟨w, hw, hstate, reachable_scheduled w ⟨_, hw⟩⟩

/-- Between the mark and the wake of a cancellation, its task can be idle. -/
theorem marked_while_idle :
    ¬∀ w, Interleaving.Reachable step World.init w → w.NoneLost := by
  intro hclaim
  have hrun : (Interleaving.run step World.init markedIdle).map
      (fun w => ((w.tasks 0).state, (w.tasks 0).marked)) = some (.idle, true) := by decide
  obtain ⟨w, hw, hstate⟩ := Option.map_eq_some_iff.1 hrun
  rw [Prod.mk.injEq] at hstate
  have := (hclaim w ⟨_, hw⟩ 0 hstate.1).2
  rw [hstate.2] at this
  exact nomatch this

end Task

end Chtholly
