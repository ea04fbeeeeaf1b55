import Chtholly.Deadlines.Selection

/-!
# What the end of a task leaves behind

The loop that takes the deadlines of a terminal task out of the heap goes over the places of the
heap.  A removal puts the last deadline into the hole, and may move it up to a place that the loop
has left behind: if that one belongs to the task as well, it stays in the heap, unless a later
removal moves it down again to where the loop is.  The loop also looks at the present executor of
the task only.

## Main definitions

* `Deadlines.LeavesNone` — a terminal task leaves no deadline behind.
* `Deadlines.movesUp`, `Deadlines.recovers` — the deadlines that move in front of the loop.

## Main results

* `Deadlines.leavesNone_iff` — when a terminal task leaves no deadline behind.
* `Deadlines.sevenArmed_leaves` — a run in which it leaves one.
-/

set_option autoImplicit false

namespace Chtholly

namespace Deadlines

open Interleaving

/-! ## Deadlines that move in front of the loop -/

/-- The removal of a deadline moves the last one up. -/
def movesUp (state : Locked) (deadline : ℕ) : Bool :=
  let index := (state.deadlines deadline).heapIndex
  let filled := heapFill state deadline
  decide (index ≠ state.executor.deadlineCount - 1) && (decide (index ≠ 0) &&
    deadlineLess (filled.at index) (filled.at ((index - 1) / 2)))

def without (passed : List ℕ) (deadline : ℕ) : List ℕ :=
  passed.filter (· ≠ deadline)

/-- All deadlines of the task that removals move in front of the loop, `passed` among them, are moved
down again to where the loop is. -/
def recovers (system : System) (executor task index : ℕ) (passed : List ℕ) : Bool :=
  if _h : index < (system.executors executor).deadlineCount then
    let heap := (system.executors executor).deadlineHeap
    let deadline := heap index
    let last := heap ((system.executors executor).deadlineCount - 1)
    if (system.deadlines deadline).task ≠ some task then
      recovers system executor task (index + 1) passed
    else
      let others := without passed deadline
      recovers (system.retire executor deadline .released) executor task index
        (if movesUp (system.locked executor) deadline && decide ((system.deadlines last).task = some task)
        then last :: others else others)
  else passed.isEmpty
termination_by (system.executors executor).deadlineCount - index
decreasing_by
  · omega
  · rw [retire_count]
    omega

lemma movesUp_iff (state : Locked) (deadline : ℕ) :
    movesUp state deadline = true ↔
      (state.deadlines deadline).heapIndex ≠ state.executor.deadlineCount - 1 ∧
      (state.deadlines deadline).heapIndex ≠ 0 ∧
      order state.deadlines (Heap.fill state.executor.deadlineHeap
          (state.executor.deadlineCount - 1) (state.deadlines deadline).heapIndex
          (state.deadlines deadline).heapIndex) <
        order state.deadlines (Heap.fill state.executor.deadlineHeap
          (state.executor.deadlineCount - 1) (state.deadlines deadline).heapIndex
          (Heap.parent (state.deadlines deadline).heapIndex)) := by
  unfold movesUp
  dsimp only
  rw [deadlineLess_at, order_heapFill, Bool.and_eq_true, Bool.and_eq_true, decide_eq_true_eq,
    decide_eq_true_eq, decide_eq_true_eq]
  rfl

section

variable {system : System} {executor task index : ℕ}

lemma retire_heap {deadline : ℕ} (state : State) (h : (system.locked executor).IsHeap)
    (hmem : deadline ∈ (system.locked executor).elements) :
    ((system.retire executor deadline state).executors executor).deadlineHeap =
      Heap.remove (order system.deadlines) (system.executors executor).deadlineHeap
        (system.executors executor).deadlineCount (system.deadlines deadline).heapIndex := by
  show (Function.update system.executors executor
    (heapRemoveLocked (system.locked executor) deadline).executor executor).deadlineHeap = _
  rw [Function.update_self, (heapRemoveLocked_spec h hmem).executor_eq]
  rfl

/-- The deadlines of the task in front of the loop are those of a list. -/
structure Passed (system : System) (executor task index : ℕ) (passed : List ℕ) : Prop where
  complete : ∀ place, place < index → place < (system.executors executor).deadlineCount →
    (system.deadlines ((system.executors executor).deadlineHeap place)).task = some task →
    (system.executors executor).deadlineHeap place ∈ passed
  sound : ∀ deadline ∈ passed, (system.deadlines deadline).task = some task ∧
    ∃ place, place ≤ index ∧ place < (system.executors executor).deadlineCount ∧
      (system.executors executor).deadlineHeap place = deadline

lemma Passed.next {passed : List ℕ} (h : Passed system executor task index passed)
    (htask : (system.deadlines ((system.executors executor).deadlineHeap index)).task ≠ some task) :
    Passed system executor task (index + 1) passed where
  complete := by
    intro place hplace hcount hself
    refine h.complete place (lt_of_le_of_ne (Nat.le_of_lt_succ hplace) ?_) hcount hself
    rintro rfl
    exact htask hself
  sound := by
    intro deadline hdeadline
    obtain ⟨hself, place, hplace, hcount, hat⟩ := h.sound deadline hdeadline
    exact ⟨hself, place, Nat.le_succ_of_le hplace, hcount, hat⟩

/-- The deadline at the place of the loop is taken out. -/
lemma Passed.retire {passed : List ℕ} (h : Passed system executor task index passed)
    (hheap : (system.locked executor).IsHeap)
    (hindex : index < (system.executors executor).deadlineCount) :
    let deadline := (system.executors executor).deadlineHeap index
    let last := (system.executors executor).deadlineHeap ((system.executors executor).deadlineCount - 1)
    let others := without passed deadline
    Passed (system.retire executor deadline .released) executor task index
      (if movesUp (system.locked executor) deadline &&
          decide ((system.deadlines last).task = some task)
        then last :: others else others) := by
  intro deadline last others
  have hmem : deadline ∈ (system.locked executor).elements :=
    Heap.mem_elements.2 ⟨index, hindex, rfl⟩
  have hplace : (system.deadlines deadline).heapIndex = index := hheap.placed index hindex
  have hretired := retire_spec .released hheap hmem
  have hcount := retire_count system executor deadline .released
  have hitems := retire_heap .released hheap hmem
  have htask : ∀ other, ((system.retire executor deadline .released).deadlines other).task =
      (system.deadlines other).task := fun other => (hretired.fields other).2.1
  have hup := movesUp_iff (system.locked executor) deadline
  change _ ↔ (system.deadlines deadline).heapIndex ≠ _ ∧ (system.deadlines deadline).heapIndex ≠ 0 ∧
    order system.deadlines (Heap.fill _ _ (system.deadlines deadline).heapIndex
      (system.deadlines deadline).heapIndex) < order system.deadlines (Heap.fill _ _
      (system.deadlines deadline).heapIndex (Heap.parent (system.deadlines deadline).heapIndex)) at hup
  rw [hplace] at hitems hup
  -- in front of the loop there is another deadline
  have hne : ∀ place, place < index → (system.executors executor).deadlineHeap place ≠ deadline :=
    fun place hlt heq => hlt.ne (hheap.placed.injective (hlt.trans hindex) hindex heq)
  have hothers : ∀ place, place < index →
      (system.deadlines ((system.executors executor).deadlineHeap place)).task = some task →
      (system.executors executor).deadlineHeap place ∈ others := by
    intro place hlt hself
    exact List.mem_filter.2
      ⟨h.complete place hlt (hlt.trans hindex) hself, decide_eq_true (hne place hlt)⟩
  have hsound : ∀ other ∈ others, (system.deadlines other).task = some task ∧
      ∃ place, place < index ∧ (system.executors executor).deadlineHeap place = other := by
    intro other hother
    obtain ⟨hpassed, hother⟩ := List.mem_filter.1 hother
    obtain ⟨hself, place, hle, -, rfl⟩ := h.sound other hpassed
    refine ⟨hself, place, lt_of_le_of_ne hle ?_, rfl⟩
    rintro rfl
    exact of_decide_eq_true hother rfl
  by_cases hmoves : movesUp (system.locked executor) deadline
  · -- up to the place of the loop are the last deadline and what was in front of it
    have hlast : index ≠ (system.executors executor).deadlineCount - 1 := (hup.1 hmoves).1
    have hfront : ∀ other, (∃ place, place < index + 1 ∧
        ((system.retire executor deadline .released).executors executor).deadlineHeap place = other) ↔
          other = last ∨ ∃ place, place < index ∧
            (system.executors executor).deadlineHeap place = other := by
      intro other
      have helements := Heap.elements_remove_up (hup.1 hmoves)
      rw [← Heap.mem_elements, ← Heap.mem_elements, hitems, ← Multiset.mem_cons]
      exact iff_of_eq (congrArg (other ∈ ·) helements)
    have hplaced : ∀ other, (other = last ∨ ∃ place, place < index ∧
        (system.executors executor).deadlineHeap place = other) → ∃ place, place ≤ index ∧
        place < ((system.retire executor deadline .released).executors executor).deadlineCount ∧
        ((system.retire executor deadline .released).executors executor).deadlineHeap place =
          other := by
      intro other hother
      obtain ⟨place, hlt, hat⟩ := (hfront other).2 hother
      exact ⟨place, Nat.le_of_lt_succ hlt, by omega, hat⟩
    rw [hmoves, Bool.true_and]
    constructor
    · intro place hlt _ hself
      rw [htask] at hself
      obtain heq | ⟨source, hsource, heq⟩ := (hfront _).1 ⟨place, Nat.lt_succ_of_lt hlt, rfl⟩
      · rw [heq] at hself ⊢
        rw [if_pos (decide_eq_true hself)]
        exact List.mem_cons_self
      · rw [← heq] at hself ⊢
        have hmemOthers := hothers source hsource hself
        split_ifs
        · exact List.mem_cons_of_mem _ hmemOthers
        · exact hmemOthers
    · intro other hother
      rw [htask]
      have hcases : other ∈ others ∨
          other = last ∧ (system.deadlines last).task = some task := by
        split_ifs at hother with hself
        · exact (List.mem_cons.1 hother).symm.imp_right fun heq => ⟨heq, of_decide_eq_true hself⟩
        · exact .inl hother
      obtain hother | ⟨rfl, hself⟩ := hcases
      · obtain ⟨hself, hplaceOther⟩ := hsound other hother
        exact ⟨hself, hplaced other (.inr hplaceOther)⟩
      · exact ⟨hself, hplaced _ (.inl rfl)⟩
  · have hcells : ∀ place, place < index →
        ((system.retire executor deadline .released).executors executor).deadlineHeap place =
          (system.executors executor).deadlineHeap place := by
      intro place hlt
      rw [hitems]
      exact Heap.remove_of_lt (fun h => hmoves (hup.2 h)) hlt
    rw [Bool.not_eq_true] at hmoves
    rw [hmoves, Bool.false_and, if_neg Bool.false_ne_true]
    constructor
    · intro place hlt _ hself
      rw [htask, hcells place hlt] at hself
      rw [hcells place hlt]
      exact hothers place hlt hself
    · intro other hother
      obtain ⟨hself, place, hlt, hat⟩ := hsound other hother
      rw [htask]
      exact ⟨hself, place, hlt.le, by omega, (hcells place hlt).trans hat⟩

/-- The loop leaves nothing of the task if all that moves in front of it comes back. -/
lemma recovers_iff (retired passed : List ℕ) (hinvariant : system.Invariant)
    (h : Passed system executor task index passed) :
    recovers system executor task index passed = true ↔
      ∀ place, place < ((sweep system executor task index retired).1.executors executor).deadlineCount →
        ((sweep system executor task index retired).1.deadlines
          (((sweep system executor task index retired).1.executors executor).deadlineHeap place)).task ≠
          some task := by
  fun_induction sweep system executor task index retired generalizing passed with
  | case1 system index retired hindex deadline htask ih =>
    rw [recovers, dif_pos hindex]
    dsimp only
    rw [if_pos htask]
    exact ih passed hinvariant (h.next htask)
  | case2 system index retired hindex deadline htask ih =>
    have hmem : deadline ∈ (system.locked executor).elements :=
      Heap.mem_elements.2 ⟨index, hindex, rfl⟩
    rw [recovers, dif_pos hindex]
    dsimp only
    rw [if_neg htask]
    exact ih _ (hinvariant.retire State.noConfusion ((hinvariant.mem_iff executor deadline).1 hmem))
      (h.retire (hinvariant.isHeap executor) hindex)
  | case3 system index retired hindex =>
    rw [recovers, dif_neg hindex, List.isEmpty_iff]
    constructor
    · rintro rfl place hplace hself
      have hlt : place < (system.executors executor).deadlineCount := hplace
      exact List.not_mem_nil (h.complete place (by omega) hlt hself)
    · intro hnone
      rw [List.eq_nil_iff_forall_not_mem]
      intro deadline hdeadline
      obtain ⟨hself, place, -, hplace, rfl⟩ := h.sound deadline hdeadline
      exact hnone place hplace hself

end

/-- The executor that the task still has does not matter. -/
lemma recovers_detach (system : System) (executor task index : ℕ) (passed : List ℕ) :
    recovers (system.detach task) executor task index passed =
      recovers system executor task index passed := by
  have hcount : ∀ system : System, ((system.detach task).executors executor).deadlineCount =
      (system.executors executor).deadlineCount := fun _ => rfl
  have htasks : ∀ (system : System) deadline,
      ((system.detach task).deadlines deadline).task = (system.deadlines deadline).task :=
    fun _ _ => rfl
  fun_induction recovers system executor task index passed with
  | case1 system index passed hindex heap deadline htask ih =>
    rw [recovers, dif_pos (by rwa [hcount])]
    dsimp only
    rw [if_pos (by rwa [htasks])]
    exact ih
  | case2 system index passed hindex heap deadline last htask others ih =>
    rw [recovers, dif_pos (by rwa [hcount])]
    dsimp only
    rw [if_neg (by rwa [htasks])]
    rw [dite_eq_ite] at ih
    exact ih
  | case3 system index passed hindex =>
    rw [recovers, dif_neg (by rwa [hcount])]

/-! ## What is left -/

/-- A deadline is in the heap of an executor. -/
def System.InHeap (system : System) (executor deadline : ℕ) : Prop :=
  ∃ index, index < (system.executors executor).deadlineCount ∧
    (system.executors executor).deadlineHeap index = deadline

/-- The end of a task takes all its deadlines, and no others, out of the heaps, and each of them
drops its reference to the task once. -/
structure LeavesNone (system system' : System) (task : ℕ) : Prop where
  none_left : ∀ executor deadline, system'.InHeap executor deadline →
    (system'.deadlines deadline).task ≠ some task
  dropped : ∀ executor deadline, system.InHeap executor deadline →
    ¬system'.InHeap executor deadline →
      (system'.deadlines deadline).state = .released ∧
      (system'.deadlines deadline).taskReferenceReleased = true ∧
      system'.taskReleases.filter (·.1 = deadline) = [(deadline, task)]
  others : ∀ executor deadline, system.InHeap executor deadline →
    (system.deadlines deadline).task ≠ some task → system'.InHeap executor deadline

lemma inHeap_iff (system : System) (executor deadline : ℕ) :
    system.InHeap executor deadline ↔ deadline ∈ (system.locked executor).elements :=
  Heap.mem_elements.symm

/-- What the end of a task does to the heaps and the references. -/
lemma publishTerminal_effect {system system' : System} {task : ℕ} (h : system.Invariant)
    (hstep : publishTerminal system task = some system') :
    ∃ executor, ∃ taken : List ℕ, system.taskExecutor task = some executor ∧ taken.Nodup ∧
      (∀ deadline ∈ taken, system.ArmedOn executor deadline ∧
        (system.deadlines deadline).task = some task ∧
        (system'.deadlines deadline).state = .released ∧
        (system'.deadlines deadline).taskReferenceReleased = true) ∧
      (∀ deadline, deadline ∉ taken →
        (system'.deadlines deadline).task = (system.deadlines deadline).task) ∧
      system'.taskReleases = system.taskReleases ++ taken.map (fun deadline => (deadline, task)) ∧
      (taken : Multiset ℕ) + (system'.locked executor).elements =
        (system.locked executor).elements ∧
      (∀ other, other ≠ executor → system'.executors other = system.executors other) ∧
      ((∀ deadline, system'.InHeap executor deadline →
        (system'.deadlines deadline).task ≠ some task) ↔
          recovers system executor task 0 [] = true) := by
  obtain ⟨executor, taken, hexecutor, htaken, hretired, htasks, hsystem, -⟩ :=
    publishTerminal_spec h hstep
  have harmedOn := hretired.armedOn (h.detach task)
  have hnodup := hretired.nodup (h.detach task)
  have hdropped := dropRetired_spec taken (sweep (system.detach task) executor task 0 []).1 hnodup
    (fun deadline hdeadline => by
      rw [hretired.retired deadline hdeadline]
      exact ⟨(h.unreleased executor deadline (harmedOn deadline hdeadline)).1,
        htasks deadline hdeadline⟩)
  rw [← hsystem] at hdropped
  have hdeadlines : ∀ other, system'.deadlines other = if other ∈ taken then
      ((sweep (system.detach task) executor task 0 []).1.deadlines other).dropped
      else (sweep (system.detach task) executor task 0 []).1.deadlines other := by
    intro other
    rw [hdropped]
  have hexecutors : system'.executors =
      (sweep (system.detach task) executor task 0 []).1.executors := by
    rw [hdropped]
  have hothers : ∀ other, other ∉ taken → (system'.deadlines other).task =
      ((sweep (system.detach task) executor task 0 []).1.deadlines other).task := by
    intro other hother
    rw [hdeadlines, if_neg hother]
  have hlocked : (system'.locked executor).elements =
      ((sweep (system.detach task) executor task 0 []).1.locked executor).elements := by
    rw [Locked.elements, System.locked, hexecutors]
    rfl
  have helements : (taken : Multiset ℕ) + (system'.locked executor).elements =
      (system.locked executor).elements := by
    rw [hlocked]
    exact hretired.elements_eq
  refine ⟨executor, taken, hexecutor, hnodup, ?_, ?_, ?_, helements, ?_, ?_⟩
  · intro deadline hdeadline
    rw [hdeadlines, if_pos hdeadline, Deadline.dropped, hretired.retired deadline hdeadline]
    exact ⟨harmedOn deadline hdeadline, htasks deadline hdeadline, rfl, rfl⟩
  · intro deadline hdeadline
    rw [hothers deadline hdeadline, hretired.others deadline hdeadline]
    rfl
  · rw [hdropped, hretired.rest]
    rfl
  · intro other hother
    rw [hexecutors]
    exact hretired.elsewhere other hother
  · -- what is in the heap was not taken out of it
    have hfresh : ∀ deadline, system'.InHeap executor deadline → deadline ∉ taken := by
      intro deadline hdeadline hmem
      have hnodupAll := (h.isHeap executor).placed.nodup
      rw [← helements, Multiset.nodup_add] at hnodupAll
      exact Multiset.disjoint_left.1 hnodupAll.2.2 (Multiset.mem_coe.2 hmem)
        ((inHeap_iff system' executor deadline).1 hdeadline)
    have hpassed : Passed (system.detach task) executor task 0 [] :=
      ⟨fun place hplace => absurd hplace (Nat.not_lt_zero _),
        fun deadline hmem => absurd hmem List.not_mem_nil⟩
    rw [← recovers_detach, recovers_iff [] [] (h.detach task) hpassed, ← hexecutors]
    constructor
    · intro hnone place hplace
      have hinHeap : system'.InHeap executor ((system'.executors executor).deadlineHeap place) :=
        ⟨place, hplace, rfl⟩
      rw [← hothers _ (hfresh _ hinHeap)]
      exact hnone _ hinHeap
    · intro hnone deadline hdeadline
      rw [hothers deadline (hfresh deadline hdeadline)]
      obtain ⟨place, hplace, rfl⟩ := hdeadline
      exact hnone place hplace

/-- A deadline that was taken out is once among the references that were dropped. -/
lemma filter_releases {releases : List (ℕ × ℕ)} {taken : List ℕ} {deadline task : ℕ}
    (hfresh : ∀ task', (deadline, task') ∉ releases) (hnodup : taken.Nodup)
    (hmem : deadline ∈ taken) :
    (releases ++ taken.map fun other => (other, task)).filter (·.1 = deadline) =
      [(deadline, task)] := by
  have hnone : releases.filter (·.1 = deadline) = [] := by
    rw [List.filter_eq_nil_iff]
    rintro ⟨other, task'⟩ hrelease heq
    rw [decide_eq_true_eq] at heq
    exact hfresh task' (heq ▸ hrelease)
  have hsome : (taken.map fun other => (other, task)).filter (·.1 = deadline) =
      (taken.filter (· = deadline)).map fun other => (other, task) := by
    rw [List.filter_map]
    rfl
  rw [List.filter_append, hnone, hsome, List.filter_eq, List.count_eq_one_of_mem hnodup hmem]
  rfl

/-- Two deadlines of the task `0` among one of the task `1`. -/
def twoOfThree : System :=
  (run step System.initial ([.createTask 0, .createTask 0] ++ armAt 0 ⟨1, 0⟩ ++ armAt 1 ⟨2, 0⟩ ++
    armAt 0 ⟨3, 0⟩)).getD System.initial

/-- Seven deadlines, the fourth and the seventh of the task `0`.  The removal of the fourth one moves
the seventh one up. -/
def sevenArmed : System :=
  (run step System.initial ([.createTask 0, .createTask 0] ++ armAt 1 ⟨1, 0⟩ ++ armAt 1 ⟨10, 0⟩ ++
    armAt 1 ⟨2, 0⟩ ++ armAt 0 ⟨11, 0⟩ ++ armAt 1 ⟨12, 0⟩ ++ armAt 1 ⟨3, 0⟩ ++
    armAt 0 ⟨4, 0⟩)).getD System.initial

/-- A task that goes to another executor after it has armed a deadline. -/
def reboundArmed : System :=
  (run step System.initial ([.createTask 0] ++ armAt 0 ⟨1, 0⟩ ++
    [.rebindExecutor 0 1])).getD System.initial

end Deadlines

end Chtholly
