import Chtholly.Deadlines.System

/-!
# The invariant of the deadlines

Each executor has a heap of exactly the deadlines that are armed on it, and the sequence number of a
deadline is the number of those armed there before it, in a `uint64_t`.

## Main definitions

* `Deadlines.System.Invariant` — the invariant.
* `Deadlines.Retired`, `Deadlines.Arms` — what it is for a deadline to leave and to enter a heap.

## Main results

* `Deadlines.retire_spec`, `Deadlines.taskDeadlineAfter_spec` — the calls do just this.
* `Deadlines.System.Invariant.retired`, `Deadlines.System.Invariant.arms` — it keeps the invariant.
-/

set_option autoImplicit false

namespace Chtholly

namespace Deadlines

/-- A deadline is armed on an executor. -/
def System.ArmedOn (system : System) (executor deadline : ℕ) : Prop :=
  deadline < system.armed ∧ (system.deadlines deadline).state = .armed ∧
    (system.deadlines deadline).executor = executor

/-- How many deadlines before `deadline` were armed on an executor. -/
def System.armedBefore (system : System) (executor deadline : ℕ) : ℕ :=
  Nat.count (fun other => (system.deadlines other).executor = executor) deadline

structure System.Invariant (system : System) : Prop where
  isHeap : ∀ executor, (system.locked executor).IsHeap
  mem_iff : ∀ executor deadline,
    deadline ∈ (system.locked executor).elements ↔ system.ArmedOn executor deadline
  unreleased : ∀ executor deadline, system.ArmedOn executor deadline →
    (system.deadlines deadline).taskReferenceReleased = false ∧
      (system.deadlines deadline).task.isSome ∧ ∀ task, (deadline, task) ∉ system.taskReleases
  release_lt : ∀ release ∈ system.taskReleases, release.1 < system.armed
  sequence_eq : ∀ deadline, deadline < system.armed → (system.deadlines deadline).sequence =
    system.armedBefore (system.deadlines deadline).executor deadline % 2 ^ 64
  next_eq : ∀ executor, (system.executors executor).nextDeadlineSequence =
    system.armedBefore executor system.armed % 2 ^ 64

lemma initial_invariant : System.initial.Invariant where
  isHeap := by
    intro executor
    exact ⟨fun index _ hindex => absurd hindex (Nat.not_lt_zero _),
      fun index hindex => absurd hindex (Nat.not_lt_zero _)⟩
  mem_iff := by
    intro executor deadline
    constructor
    · intro hmem
      obtain ⟨index, hindex, -⟩ := Heap.mem_elements.1 hmem
      exact absurd hindex (Nat.not_lt_zero _)
    · rintro ⟨hlt, -⟩
      exact absurd hlt (Nat.not_lt_zero _)
  unreleased := by
    rintro executor deadline ⟨hlt, -⟩
    exact absurd hlt (Nat.not_lt_zero _)
  release_lt := fun _ hrelease => absurd hrelease List.not_mem_nil
  sequence_eq := fun deadline hlt => absurd hlt (Nat.not_lt_zero _)
  next_eq := fun executor => rfl

/-! ## Steps that leave the heaps alone -/

/-- A heap stays one where its deadlines keep their keys and places. -/
lemma Locked.IsHeap.congr {state state' : Locked} (h : state.IsHeap)
    (hheap : state'.executor.deadlineHeap = state.executor.deadlineHeap)
    (hcount : state'.executor.deadlineCount = state.executor.deadlineCount)
    (hsame : ∀ deadline ∈ state.elements,
      (state'.deadlines deadline).instant = (state.deadlines deadline).instant ∧
      (state'.deadlines deadline).sequence = (state.deadlines deadline).sequence ∧
      (state'.deadlines deadline).heapIndex = (state.deadlines deadline).heapIndex) :
    state'.IsHeap := by
  have hat : ∀ index, index < state.executor.deadlineCount →
      state.executor.deadlineHeap index ∈ state.elements :=
    fun index hindex => Heap.mem_elements.2 ⟨index, hindex, rfl⟩
  have horder : ∀ index, index < state.executor.deadlineCount →
      order state'.deadlines (state.executor.deadlineHeap index) =
        order state.deadlines (state.executor.deadlineHeap index) := by
    intro index hindex
    obtain ⟨hinstant, hsequence, -⟩ := hsame _ (hat index hindex)
    rw [order, order, key, key, hinstant, hsequence]
  constructor
  · intro index hzero hindex
    rw [hcount] at hindex
    rw [hheap, horder index hindex, horder _ ((Heap.parent_lt hzero).trans hindex)]
    exact h.ordered index hzero hindex
  · intro index hindex
    rw [hcount] at hindex
    rw [Locked.at, hheap, (hsame _ (hat index hindex)).2.2]
    exact h.placed index hindex

/-- The fields that a heap and the sequence numbers depend on. -/
def SameKey (deadline deadline' : Deadline) : Prop :=
  deadline'.state = deadline.state ∧ deadline'.executor = deadline.executor ∧
    deadline'.instant = deadline.instant ∧ deadline'.sequence = deadline.sequence ∧
    deadline'.heapIndex = deadline.heapIndex

/-- Armed deadlines do not lose their tasks. -/
def KeepsTasks (system system' : System) : Prop :=
  ∀ executor deadline, system.ArmedOn executor deadline →
    (system'.deadlines deadline).taskReferenceReleased =
        (system.deadlines deadline).taskReferenceReleased ∧
      (system'.deadlines deadline).task = (system.deadlines deadline).task ∧
      ∀ task, (deadline, task) ∈ system'.taskReleases → (deadline, task) ∈ system.taskReleases

lemma System.Invariant.congr {system system' : System} (h : system.Invariant)
    (harmed : system'.armed = system.armed)
    (hheap : ∀ executor, (system'.executors executor).deadlineHeap =
      (system.executors executor).deadlineHeap)
    (hcount : ∀ executor, (system'.executors executor).deadlineCount =
      (system.executors executor).deadlineCount)
    (hnext : ∀ executor, (system'.executors executor).nextDeadlineSequence =
      (system.executors executor).nextDeadlineSequence)
    (hsame : ∀ deadline, SameKey (system.deadlines deadline) (system'.deadlines deadline))
    (htasks : KeepsTasks system system')
    (hreleases : ∀ release ∈ system'.taskReleases, release ∈ system.taskReleases ∨
      release.1 < system.armed) : system'.Invariant := by
  have hbefore : ∀ executor deadline,
      system'.armedBefore executor deadline = system.armedBefore executor deadline := by
    intro executor deadline
    unfold System.armedBefore
    congr 1
    funext other
    rw [(hsame other).2.1]
  have hon : ∀ executor deadline,
      system'.ArmedOn executor deadline ↔ system.ArmedOn executor deadline := by
    intro executor deadline
    obtain ⟨hstate, hexecutor, -⟩ := hsame deadline
    rw [System.ArmedOn, System.ArmedOn, harmed, hstate, hexecutor]
  have helements : ∀ executor,
      (system'.locked executor).elements = (system.locked executor).elements := by
    intro executor
    show Heap.elements (system'.executors executor).deadlineHeap
      (system'.executors executor).deadlineCount = _
    rw [hheap, hcount]
    rfl
  constructor
  · intro executor
    apply (h.isHeap executor).congr (hheap executor) (hcount executor)
    intro deadline _
    obtain ⟨-, -, hinstant, hsequence, hindex⟩ := hsame deadline
    exact ⟨hinstant, hsequence, hindex⟩
  · intro executor deadline
    rw [helements, hon]
    exact h.mem_iff executor deadline
  · intro executor deadline harmedOn
    rw [hon] at harmedOn
    obtain ⟨hreleased, htask, hlog⟩ := htasks executor deadline harmedOn
    obtain ⟨hreleased', htask', hlog'⟩ := h.unreleased executor deadline harmedOn
    rw [hreleased, htask]
    exact ⟨hreleased', htask', fun task hmem => hlog' task (hlog task hmem)⟩
  · intro release hrelease
    rw [harmed]
    exact (hreleases release hrelease).elim (h.release_lt release) id
  · intro deadline hlt
    obtain ⟨-, hexecutor, -, hsequence, -⟩ := hsame deadline
    rw [hsequence, hexecutor, hbefore]
    exact h.sequence_eq deadline (harmed ▸ hlt)
  · intro executor
    rw [hnext, harmed, hbefore]
    exact h.next_eq executor

lemma System.Invariant.dropReference {system : System} (h : system.Invariant) (deadline : ℕ) :
    (dropReference system deadline).Invariant := by
  refine h.congr rfl (fun _ => rfl) (fun _ => rfl) (fun _ => rfl) ?_ ?_
    (fun release hrelease => .inl hrelease)
  · intro other
    by_cases hother : other = deadline <;> simp [SameKey, Deadlines.dropReference, hother]
  · intro executor other _
    by_cases hother : other = deadline <;> simp [Deadlines.dropReference, hother]

/-- Only a deadline that is not armed drops its task. -/
lemma System.Invariant.releaseTaskReference {system : System} (h : system.Invariant) {deadline : ℕ}
    (hlt : deadline < system.armed) (hstate : (system.deadlines deadline).state ≠ .armed) :
    (releaseTaskReference system deadline).Invariant := by
  by_cases hreleased : (system.deadlines deadline).taskReferenceReleased
  · rwa [Deadlines.releaseTaskReference, if_pos hreleased]
  rw [Deadlines.releaseTaskReference, if_neg hreleased]
  refine h.congr rfl (fun _ => rfl) (fun _ => rfl) (fun _ => rfl) ?_ ?_ ?_
  · intro other
    by_cases hother : other = deadline <;> simp [SameKey, hother]
  · rintro executor other ⟨-, harmed, -⟩
    have hother : other ≠ deadline := by
      rintro rfl
      exact hstate harmed
    cases htask : (system.deadlines deadline).task <;> simp [hother]
  · intro release hrelease
    rw [List.mem_append, Option.mem_toList, Option.map_eq_some_iff] at hrelease
    obtain hrelease | ⟨task, -, rfl⟩ := hrelease
    · exact .inl hrelease
    · exact .inr hlt

/-! ## A deadline leaves the heap -/

/-- What it is for a deadline to leave the heap of an executor. -/
structure Retired (system : System) (executor deadline : ℕ) (state : State) (system' : System) :
    Prop where
  others : ∀ other, other ≠ deadline → system'.deadlines other =
    { system.deadlines other with heapIndex := (system'.deadlines other).heapIndex }
  outside : ∀ other, other ∉ (system.locked executor).elements →
    system'.deadlines other = system.deadlines other
  retired : system'.deadlines deadline =
    { system.deadlines deadline with inHeap := false, state := state }
  elements_eq : deadline ::ₘ (system'.locked executor).elements = (system.locked executor).elements
  elsewhere : ∀ other, other ≠ executor → system'.executors other = system.executors other
  next_eq : (system'.executors executor).nextDeadlineSequence =
    (system.executors executor).nextDeadlineSequence
  shutdown_eq : (system'.executors executor).shutdown = (system.executors executor).shutdown
  isHeap : (system'.locked executor).IsHeap
  rest : system' = { system with
    deadlines := system'.deadlines
    executors := system'.executors }

lemma retire_spec {system : System} {executor deadline : ℕ} (state : State)
    (h : (system.locked executor).IsHeap) (hmem : deadline ∈ (system.locked executor).elements) :
    Retired system executor deadline state (system.retire executor deadline state) := by
  have hremoved := heapRemoveLocked_spec h hmem
  have hexecutor : (system.retire executor deadline state).executors executor =
      (heapRemoveLocked (system.locked executor) deadline).executor :=
    Function.update_self _ _ _
  have hdeadlines : (system.retire executor deadline state).deadlines =
      Function.update (heapRemoveLocked (system.locked executor) deadline).deadlines deadline
        { (heapRemoveLocked (system.locked executor) deadline).deadlines deadline with
          state := state } := rfl
  constructor
  · intro other hother
    rw [hdeadlines, Function.update_of_ne hother, hremoved.others other hother]
    rfl
  · intro other hother
    have hne : other ≠ deadline := fun heq => hother (heq ▸ hmem)
    rw [hdeadlines, Function.update_of_ne hne, hremoved.outside other hother]
    rfl
  · rw [hdeadlines, Function.update_self, hremoved.removed]
    rfl
  · show deadline ::ₘ Heap.elements
      ((system.retire executor deadline state).executors executor).deadlineHeap
      ((system.retire executor deadline state).executors executor).deadlineCount = _
    rw [hexecutor]
    exact hremoved.elements_eq
  · intro other hother
    exact Function.update_of_ne hother _ _
  · rw [hexecutor, hremoved.executor_eq]
    rfl
  · rw [hexecutor, hremoved.executor_eq]
    rfl
  · refine hremoved.isHeap.congr ?_ ?_ ?_
    · show ((system.retire executor deadline state).executors executor).deadlineHeap = _
      rw [hexecutor]
    · show ((system.retire executor deadline state).executors executor).deadlineCount = _
      rw [hexecutor]
    · intro other _
      show ((system.retire executor deadline state).deadlines other).instant = _ ∧
        ((system.retire executor deadline state).deadlines other).sequence = _ ∧
        ((system.retire executor deadline state).deadlines other).heapIndex = _
      rw [hdeadlines]
      by_cases hother : other = deadline <;> simp [hother]
  · rfl

section

variable {system system' : System} {executor deadline : ℕ} {state : State}

/-- Only the deadline itself changes but for places. -/
lemma Retired.fields (h : Retired system executor deadline state system') (other : ℕ) :
    (system'.deadlines other).executor = (system.deadlines other).executor ∧
      (system'.deadlines other).task = (system.deadlines other).task ∧
      (system'.deadlines other).taskReferenceReleased =
        (system.deadlines other).taskReferenceReleased ∧
      (system'.deadlines other).sequence = (system.deadlines other).sequence ∧
      (system'.deadlines other).references = (system.deadlines other).references := by
  by_cases hother : other = deadline
  · rw [hother, h.retired]
    exact ⟨rfl, rfl, rfl, rfl, rfl⟩
  · rw [h.others other hother]
    exact ⟨rfl, rfl, rfl, rfl, rfl⟩

lemma Retired.armedOn_iff (h : Retired system executor deadline state system')
    (hstate : state ≠ .armed) (other place : ℕ) :
    system'.ArmedOn place other ↔ system.ArmedOn place other ∧ other ≠ deadline := by
  have harmed : system'.armed = system.armed := by
    rw [h.rest]
  rw [System.ArmedOn, System.ArmedOn, harmed]
  by_cases hother : other = deadline
  · rw [hother, h.retired]
    simp [hstate]
  · rw [h.others other hother]
    simp [hother]

lemma Retired.armedBefore_eq (h : Retired system executor deadline state system') (place other : ℕ) :
    system'.armedBefore place other = system.armedBefore place other := by
  unfold System.armedBefore
  congr 1
  funext earlier
  rw [(h.fields earlier).1]

lemma System.Invariant.retired (h : system.Invariant)
    (hretired : Retired system executor deadline state system') (hstate : state ≠ .armed)
    (harmedOn : system.ArmedOn executor deadline) : system'.Invariant := by
  have harmed : system'.armed = system.armed := by
    rw [hretired.rest]
  have hreleases : system'.taskReleases = system.taskReleases := by
    rw [hretired.rest]
  -- the deadlines on other executors are not in this heap
  have hdisjoint : ∀ other place, place ≠ executor → other ∈ (system.locked place).elements →
      other ∉ (system.locked executor).elements := by
    intro other place hplace hother hmem
    rw [h.mem_iff] at hother hmem
    exact hplace (hother.2.2.symm.trans hmem.2.2)
  constructor
  · intro place
    by_cases hplace : place = executor
    · rw [hplace]
      exact hretired.isHeap
    · refine (h.isHeap place).congr ?_ ?_ ?_
      · show (system'.executors place).deadlineHeap = _
        rw [hretired.elsewhere place hplace]
        rfl
      · show (system'.executors place).deadlineCount = _
        rw [hretired.elsewhere place hplace]
        rfl
      · intro other hother
        show (system'.deadlines other).instant = _ ∧ (system'.deadlines other).sequence = _ ∧
          (system'.deadlines other).heapIndex = _
        rw [hretired.outside other (hdisjoint other place hplace hother)]
        exact ⟨rfl, rfl, rfl⟩
  · intro place other
    rw [hretired.armedOn_iff hstate]
    by_cases hplace : place = executor
    · subst hplace
      have hnodup := (h.isHeap place).placed.nodup
      rw [← hretired.elements_eq, Multiset.nodup_cons] at hnodup
      rw [← h.mem_iff, ← hretired.elements_eq, Multiset.mem_cons]
      constructor
      · intro hmem
        exact ⟨.inr hmem, fun heq => hnodup.1 (heq ▸ hmem)⟩
      · rintro ⟨heq | hmem, hne⟩
        · exact absurd heq hne
        · exact hmem
    · have hsame : (system'.locked place).elements = (system.locked place).elements := by
        show Heap.elements (system'.executors place).deadlineHeap
          (system'.executors place).deadlineCount = _
        rw [hretired.elsewhere place hplace]
        rfl
      rw [hsame, h.mem_iff]
      constructor
      · intro hother
        refine ⟨hother, ?_⟩
        rintro rfl
        exact hplace (hother.2.2.symm.trans harmedOn.2.2)
      · rintro ⟨hother, -⟩
        exact hother
  · intro place other hother
    rw [hretired.armedOn_iff hstate] at hother
    obtain ⟨-, htask, hreleased, -⟩ := hretired.fields other
    rw [htask, hreleased, hreleases]
    exact h.unreleased place other hother.1
  · rw [hreleases, harmed]
    exact h.release_lt
  · intro other hother
    obtain ⟨hplace, -, -, hsequence, -⟩ := hretired.fields other
    rw [hplace, hsequence, hretired.armedBefore_eq]
    exact h.sequence_eq other (harmed ▸ hother)
  · intro place
    rw [harmed, hretired.armedBefore_eq, ← h.next_eq]
    by_cases hplace : place = executor
    · rw [hplace, hretired.next_eq]
    · rw [hretired.elsewhere place hplace]

/-- An armed deadline is taken out of its heap. -/
lemma System.Invariant.retire (h : system.Invariant) (hstate : state ≠ .armed)
    (harmedOn : system.ArmedOn executor deadline) :
    (system.retire executor deadline state).Invariant :=
  h.retired (retire_spec state (h.isHeap executor) ((h.mem_iff executor deadline).2 harmedOn))
    hstate harmedOn

end

/-! ## A deadline is armed -/

/-- What it is for the next deadline to be armed. -/
structure Arms (system : System) (task executor : ℕ) (instant : NextTaskInstant) (system' : System) :
    Prop where
  others : ∀ other, other ≠ system.armed → system'.deadlines other =
    { system.deadlines other with heapIndex := (system'.deadlines other).heapIndex }
  outside : ∀ other, other ≠ system.armed → other ∉ (system.locked executor).elements →
    system'.deadlines other = system.deadlines other
  new : system'.deadlines system.armed = {
    references := 2, state := .armed, executor := executor, task := some task,
    taskReferenceReleased := false, instant := instant,
    sequence := (system.executors executor).nextDeadlineSequence,
    heapIndex := (system'.deadlines system.armed).heapIndex, inHeap := true }
  elements_eq : (system'.locked executor).elements =
    system.armed ::ₘ (system.locked executor).elements
  elsewhere : ∀ other, other ≠ executor → system'.executors other = system.executors other
  next_eq : (system'.executors executor).nextDeadlineSequence =
    ((system.executors executor).nextDeadlineSequence + 1) % 2 ^ 64
  shutdown_eq : (system'.executors executor).shutdown = (system.executors executor).shutdown
  isHeap : (system'.locked executor).IsHeap
  rest : system' = { system with
    deadlines := system'.deadlines
    armed := system.armed + 1
    executors := system'.executors }

/-- The deadline that is inserted is new to the heap. -/
lemma System.Invariant.armed_notMem {system : System} (h : system.Invariant) (executor : ℕ) :
    system.armed ∉ (system.locked executor).elements := by
  intro hmem
  exact Nat.lt_irrefl _ ((h.mem_iff executor system.armed).1 hmem).1

/-- The deadline in its memory is inserted, and its handle is a second reference. -/
lemma Inserted.arms {system system' : System} {task executor : ℕ} {instant : NextTaskInstant}
    {allocated state : Locked} (h : Inserted allocated system.armed state)
    (hothers : ∀ other, other ≠ system.armed →
      allocated.deadlines other = system.deadlines other)
    (hself : allocated.deadlines system.armed = {
      references := 1, state := .armed, executor := executor, task := some task,
      taskReferenceReleased := false, instant := instant, sequence := 0, heapIndex := 0,
      inHeap := false })
    (hexecutor : allocated.executor = system.executors executor)
    (hsystem : system' = { system with
      deadlines := Function.update state.deadlines system.armed
        { state.deadlines system.armed with
          references := (state.deadlines system.armed).references + 1 }
      armed := system.armed + 1
      executors := Function.update system.executors executor state.executor }) :
    Arms system task executor instant system' := by
  have hdeadlines : system'.deadlines = Function.update state.deadlines system.armed
      { state.deadlines system.armed with
        references := (state.deadlines system.armed).references + 1 } := by
    rw [hsystem]
  have hstate : system'.executors executor = state.executor := by
    rw [hsystem]
    exact Function.update_self _ _ _
  have helements : allocated.elements = (system.locked executor).elements := by
    rw [Locked.elements, hexecutor]
    rfl
  constructor
  · intro other hother
    rw [hdeadlines, Function.update_of_ne hother, h.others other hother, hothers other hother]
  · intro other hother hmem
    rw [← helements] at hmem
    rw [hdeadlines, Function.update_of_ne hother, h.outside other hother hmem, hothers other hother]
  · rw [hdeadlines, Function.update_self, h.inserted, hself, hexecutor]
  · rw [← helements, ← h.elements_eq, Locked.elements, System.locked, hstate]
    rfl
  · intro other hother
    rw [hsystem]
    exact Function.update_of_ne hother _ _
  · rw [hstate, h.sequence_eq, hexecutor]
  · rw [hstate, h.shutdown_eq, hexecutor]
  · refine h.isHeap.congr ?_ ?_ ?_
    · rw [System.locked, hstate]
    · rw [System.locked, hstate]
    · intro other _
      rw [System.locked, hdeadlines]
      by_cases hother : other = system.armed <;> simp [hother]
  · rw [hsystem]

/-- `task_deadline_after` arms a deadline or fails and does nothing. -/
lemma taskDeadlineAfter_spec {system : System} (h : system.Invariant) (task executor : ℕ)
    (now : Option NextTaskInstant) (timeoutNanoseconds : ℕ) (memory : Bool) :
    ((taskDeadlineAfter system task executor now timeoutNanoseconds memory).2 ≠ .ok ∧
      (taskDeadlineAfter system task executor now timeoutNanoseconds memory).1 = system) ∨
      ∃ instant, now = some instant ∧
        Arms system task executor (instantAdd instant timeoutNanoseconds)
          (taskDeadlineAfter system task executor now timeoutNanoseconds memory).1 := by
  unfold taskDeadlineAfter
  by_cases hshutdown : (system.executors executor).shutdown
  · rw [if_pos hshutdown]
    exact .inl ⟨DeadlineAfterResult.noConfusion, rfl⟩
  rw [if_neg hshutdown]
  cases now with
  | none => exact .inl ⟨DeadlineAfterResult.noConfusion, rfl⟩
  | some now =>
    dsimp only
    -- the executor with the memory of the new deadline
    set allocated : Locked := System.locked { system with
      deadlines := Function.update system.deadlines system.armed {
        references := 1, state := .armed, executor := executor, task := some task,
        taskReferenceReleased := false, instant := instantAdd now timeoutNanoseconds,
        sequence := 0, heapIndex := 0, inHeap := false } } executor with hallocated
    have hothers : ∀ other, other ≠ system.armed →
        allocated.deadlines other = system.deadlines other :=
      fun other hother => Function.update_of_ne hother _ _
    cases hinsert : heapInsertLocked allocated system.armed memory with
    | none => exact .inl ⟨DeadlineAfterResult.noConfusion, rfl⟩
    | some state =>
      have hnew := h.armed_notMem executor
      have hheap : allocated.IsHeap := by
        refine (h.isHeap executor).congr rfl rfl ?_
        intro other hother
        rw [hothers other fun heq => hnew (heq ▸ hother)]
        exact ⟨rfl, rfl, rfl⟩
      have hinserted := heapInsertLocked_spec hheap hnew hinsert
      exact .inr ⟨now, rfl, hinserted.arms hothers (Function.update_self _ _ _) rfl rfl⟩

section

variable {system system' : System} {task executor : ℕ} {instant : NextTaskInstant}

lemma Arms.executor_eq (h : Arms system task executor instant system') {other : ℕ}
    (hother : other ≠ system.armed) :
    (system'.deadlines other).executor = (system.deadlines other).executor := by
  rw [h.others other hother]

lemma Arms.armedBefore_eq (h : Arms system task executor instant system') (place other : ℕ)
    (hother : other ≤ system.armed) :
    system'.armedBefore place other = system.armedBefore place other := by
  rw [System.armedBefore, System.armedBefore, Nat.count_eq_card_filter_range,
    Nat.count_eq_card_filter_range]
  congr 1
  apply Finset.filter_congr
  intro earlier hearlier
  rw [h.executor_eq (Nat.ne_of_lt ((Finset.mem_range.1 hearlier).trans_le hother))]

lemma Arms.armed_eq (h : Arms system task executor instant system') :
    system'.armed = system.armed + 1 := by
  rw [h.rest]

lemma Arms.armedOn_iff (h : Arms system task executor instant system') (place other : ℕ) :
    system'.ArmedOn place other ↔
      system.ArmedOn place other ∨ other = system.armed ∧ place = executor := by
  rw [System.ArmedOn, System.ArmedOn, h.armed_eq]
  by_cases hother : other = system.armed
  · rw [hother, h.new]
    simp [eq_comm]
  · rw [h.others other hother]
    simp only [hother, false_and, or_false]
    have hlt : other < system.armed + 1 ↔ other < system.armed := by omega
    rw [hlt]

lemma System.Invariant.arms (h : system.Invariant)
    (harms : Arms system task executor instant system') : system'.Invariant := by
  have hreleases : system'.taskReleases = system.taskReleases := by
    rw [harms.rest]
  have hnew : ∀ place, ¬system.ArmedOn place system.armed :=
    fun place harmedOn => Nat.lt_irrefl _ harmedOn.1
  constructor
  · intro place
    by_cases hplace : place = executor
    · rw [hplace]
      exact harms.isHeap
    · refine (h.isHeap place).congr ?_ ?_ ?_
      · show (system'.executors place).deadlineHeap = _
        rw [harms.elsewhere place hplace]
        rfl
      · show (system'.executors place).deadlineCount = _
        rw [harms.elsewhere place hplace]
        rfl
      · intro other hother
        rw [h.mem_iff] at hother
        have hne : other ≠ system.armed := by
          rintro rfl
          exact hnew place hother
        show (system'.deadlines other).instant = _ ∧ (system'.deadlines other).sequence = _ ∧
          (system'.deadlines other).heapIndex = _
        rw [harms.outside other hne]
        · exact ⟨rfl, rfl, rfl⟩
        · intro hmem
          rw [h.mem_iff] at hmem
          exact hplace (hother.2.2.symm.trans hmem.2.2)
  · intro place other
    rw [harms.armedOn_iff]
    by_cases hplace : place = executor
    · rw [hplace, harms.elements_eq, Multiset.mem_cons, h.mem_iff]
      simp [or_comm]
    · have hsame : (system'.locked place).elements = (system.locked place).elements := by
        show Heap.elements (system'.executors place).deadlineHeap
          (system'.executors place).deadlineCount = _
        rw [harms.elsewhere place hplace]
        rfl
      rw [hsame, h.mem_iff]
      simp [hplace]
  · intro place other hother
    rw [harms.armedOn_iff] at hother
    rw [hreleases]
    by_cases hne : other = system.armed
    · rw [hne, harms.new]
      exact ⟨rfl, rfl, fun task hmem => Nat.lt_irrefl _ (h.release_lt _ hmem)⟩
    · rw [harms.others other hne]
      exact h.unreleased place other (hother.resolve_right fun hself => hne hself.1)
  · rw [hreleases, harms.armed_eq]
    exact fun release hrelease => Nat.lt_succ_of_lt (h.release_lt release hrelease)
  · intro other hother
    rw [harms.armed_eq] at hother
    by_cases hne : other = system.armed
    · rw [hne, harms.new, harms.armedBefore_eq _ _ le_rfl]
      exact h.next_eq executor
    · have hlt : other < system.armed := by omega
      rw [harms.armedBefore_eq _ _ hlt.le, harms.others other hne]
      exact h.sequence_eq other hlt
  · intro place
    have hcount : system'.armedBefore place system'.armed =
        system.armedBefore place system.armed + if place = executor then 1 else 0 := by
      rw [harms.armed_eq, System.armedBefore, Nat.count_succ, ← System.armedBefore,
        harms.armedBefore_eq _ _ le_rfl, harms.new]
      simp [eq_comm]
    rw [hcount]
    by_cases hplace : place = executor
    · rw [if_pos hplace, hplace, harms.next_eq, h.next_eq, Nat.mod_add_mod]
    · rw [if_neg hplace, harms.elsewhere place hplace]
      exact h.next_eq place

end

end Deadlines

end Chtholly
