import Chtholly.Deadlines.Invariant

/-!
# The end of a task

When a task is terminal, a loop over the heap of its executor takes deadlines of the task out.  All
that it takes out belong to the task, and each of them then drops its reference to the task.

## Main definitions

* `Deadlines.RetiredAll` — what it is for some deadlines to leave the heap.

## Main results

* `Deadlines.sweep_spec`, `Deadlines.dropRetired_spec` — the two loops.
* `Deadlines.publishTerminal_spec` — the end of a task.
-/

set_option autoImplicit false

namespace Chtholly

namespace Deadlines

/-- What it is for some deadlines to leave the heap of an executor. -/
structure RetiredAll (system : System) (executor : ℕ) (taken : List ℕ) (system' : System) :
    Prop where
  others : ∀ other, other ∉ taken → system'.deadlines other =
    { system.deadlines other with heapIndex := (system'.deadlines other).heapIndex }
  retired : ∀ deadline ∈ taken, system'.deadlines deadline =
    { system.deadlines deadline with
      inHeap := false, state := .released, heapIndex := (system'.deadlines deadline).heapIndex }
  elements_eq :
    (taken : Multiset ℕ) + (system'.locked executor).elements = (system.locked executor).elements
  elsewhere : ∀ other, other ≠ executor → system'.executors other = system.executors other
  rest : system' = { system with
    deadlines := system'.deadlines
    executors := system'.executors }

lemma RetiredAll.refl (system : System) (executor : ℕ) : RetiredAll system executor [] system where
  others := fun _ _ => rfl
  retired := fun _ hmem => absurd hmem List.not_mem_nil
  elements_eq := Multiset.zero_add _
  elsewhere := fun _ _ => rfl
  rest := rfl

variable {executor : ℕ} {taken : List ℕ}

/-- A deadline leaves the heap and then some others. -/
lemma Retired.trans {first second third : System} {deadline : ℕ}
    (h : Retired first executor deadline .released second)
    (h' : RetiredAll second executor taken third) (hnew : deadline ∉ taken) :
    RetiredAll first executor (taken ++ [deadline]) third where
  others := by
    intro other hother
    rw [List.mem_append, List.mem_singleton, not_or] at hother
    rw [h'.others other hother.1, h.others other hother.2]
  retired := by
    intro other hother
    rw [List.mem_append, List.mem_singleton] at hother
    obtain hother | rfl := hother
    · have hne : other ≠ deadline := fun heq => hnew (heq ▸ hother)
      rw [h'.retired other hother, h.others other hne]
    · rw [h'.others other hnew, h.retired]
  elements_eq := by
    rw [← h.elements_eq, ← h'.elements_eq, ← Multiset.coe_add, Multiset.coe_singleton,
      add_assoc, Multiset.singleton_add, Multiset.add_cons]
  elsewhere := by
    intro other hother
    rw [h'.elsewhere other hother, h.elsewhere other hother]
  rest := by
    rw [h'.rest, h.rest]

/-- The loop over the heap takes out deadlines of the task only. -/
lemma sweep_spec (system : System) (executor task index : ℕ) (retired : List ℕ)
    (h : system.Invariant) :
    (sweep system executor task index retired).1.Invariant ∧
      ∃ taken, (sweep system executor task index retired).2 = taken ++ retired ∧
        RetiredAll system executor taken (sweep system executor task index retired).1 ∧
        ∀ deadline ∈ taken, (system.deadlines deadline).task = some task := by
  fun_induction sweep system executor task index retired with
  | case1 system index retired hindex deadline htask ih =>
    exact ih h
  | case2 system index retired hindex deadline htask ih =>
    rw [ne_eq, not_not] at htask
    have hmem : deadline ∈ (system.locked executor).elements :=
      Heap.mem_elements.2 ⟨index, hindex, rfl⟩
    have harmedOn := (h.mem_iff executor deadline).1 hmem
    have hretired := retire_spec .released (h.isHeap executor) hmem
    obtain ⟨hinvariant, taken, heq, htaken, htasks⟩ := ih (h.retired hretired (by decide) harmedOn)
    have hnodup := (h.isHeap executor).placed.nodup
    have hnew : deadline ∉ taken := by
      intro hdeadline
      rw [← hretired.elements_eq, Multiset.nodup_cons] at hnodup
      apply hnodup.1
      rw [← htaken.elements_eq]
      exact Multiset.mem_add.2 (.inl (Multiset.mem_coe.2 hdeadline))
    refine ⟨hinvariant, taken ++ [deadline], ?_, hretired.trans htaken hnew, ?_⟩
    · rw [heq, List.append_assoc]
      rfl
    · intro other hother
      rw [List.mem_append, List.mem_singleton] at hother
      obtain hother | rfl := hother
      · rw [← htasks other hother, (hretired.fields other).2.1]
      · exact htask
  | case3 system index retired hindex =>
    exact ⟨h, [], rfl, RetiredAll.refl system executor, fun _ hmem => absurd hmem List.not_mem_nil⟩

/-! ## The references -/

/-- The deadline `deadline` drops its reference to its task and the reference of the heap to it. -/
def Deadline.dropped (deadline : Deadline) : Deadline :=
  { deadline with
    references := deadline.references - 1, task := none, taskReferenceReleased := true }

variable {system : System}

lemma drop_eq {deadline task : ℕ}
    (hreleased : (system.deadlines deadline).taskReferenceReleased = false)
    (htask : (system.deadlines deadline).task = some task) :
    dropReference (releaseTaskReference system deadline) deadline = { system with
      deadlines := Function.update system.deadlines deadline (system.deadlines deadline).dropped
      taskReleases := system.taskReleases ++ [(deadline, task)] } := by
  rw [releaseTaskReference, if_neg (by rw [hreleased]; decide), dropReference, htask]
  simp [Deadline.dropped]

/-- Each deadline of the list drops its references once. -/
lemma dropRetired_spec {task : ℕ} (taken : List ℕ) (system : System) (hnodup : taken.Nodup)
    (hall : ∀ deadline ∈ taken, (system.deadlines deadline).taskReferenceReleased = false ∧
      (system.deadlines deadline).task = some task) :
    dropRetired system taken = { system with
      deadlines := fun other =>
        if other ∈ taken then (system.deadlines other).dropped else system.deadlines other
      taskReleases := system.taskReleases ++ taken.map fun deadline => (deadline, task) } := by
  induction taken generalizing system with
  | nil => simp [dropRetired]
  | cons deadline taken ih =>
    obtain ⟨hnew, hnodup⟩ := List.nodup_cons.1 hnodup
    obtain ⟨hreleased, htask⟩ := hall deadline List.mem_cons_self
    rw [dropRetired, drop_eq hreleased htask, ih _ hnodup]
    · congr 1
      · funext other
        by_cases hother : other = deadline
        · subst hother
          simp [hnew]
        · simp [hother]
      · simp
    · intro other hother
      have hne : other ≠ deadline := fun heq => hnew (heq ▸ hother)
      simpa [hne] using hall other (List.mem_cons_of_mem _ hother)

lemma System.Invariant.dropRetired (taken : List ℕ) (h : system.Invariant)
    (hall : ∀ deadline ∈ taken, deadline < system.armed ∧
      (system.deadlines deadline).state ≠ .armed) : (dropRetired system taken).Invariant := by
  induction taken generalizing system with
  | nil => exact h
  | cons deadline taken ih =>
    obtain ⟨hlt, hstate⟩ := hall deadline List.mem_cons_self
    apply ih ((h.releaseTaskReference hlt hstate).dropReference deadline)
    intro other hother
    obtain ⟨hlt', hstate'⟩ := hall other (List.mem_cons_of_mem _ hother)
    unfold Deadlines.dropReference Deadlines.releaseTaskReference
    dsimp only
    split <;> by_cases hne : other = deadline <;> simp_all

/-- The system as the loop over the heap finds it. -/
def System.detach (system : System) (task : ℕ) : System :=
  { system with taskExecutor := Function.update system.taskExecutor task none }

lemma System.Invariant.detach (h : system.Invariant) (task : ℕ) : (system.detach task).Invariant :=
  h.congr rfl (fun _ => rfl) (fun _ => rfl) (fun _ => rfl) (fun _ => ⟨rfl, rfl, rfl, rfl, rfl⟩)
    (fun _ _ _ => ⟨rfl, rfl, fun _ hmem => hmem⟩) (fun _ hrelease => .inl hrelease)

variable {system' : System}

/-- The deadlines that are taken out were armed. -/
lemma RetiredAll.armedOn (h : RetiredAll system executor taken system')
    (hinvariant : system.Invariant) : ∀ deadline ∈ taken, system.ArmedOn executor deadline := by
  intro deadline hdeadline
  rw [← hinvariant.mem_iff, ← h.elements_eq]
  exact Multiset.mem_add.2 (.inl (Multiset.mem_coe.2 hdeadline))

lemma RetiredAll.nodup (h : RetiredAll system executor taken system')
    (hinvariant : system.Invariant) : taken.Nodup := by
  have hnodup := (hinvariant.isHeap executor).placed.nodup
  rw [← h.elements_eq] at hnodup
  exact Multiset.coe_nodup.1 (Multiset.nodup_of_le (Multiset.le_add_right _ _) hnodup)

/-- The end of a task: some of its deadlines are taken out and drop their references. -/
lemma publishTerminal_spec {task : ℕ} (h : system.Invariant)
    (hstep : publishTerminal system task = some system') :
    ∃ executor taken, system.taskExecutor task = some executor ∧
      (sweep (system.detach task) executor task 0 []).2 = taken ∧
      RetiredAll (system.detach task) executor taken
        (sweep (system.detach task) executor task 0 []).1 ∧
      (∀ deadline ∈ taken, (system.deadlines deadline).task = some task) ∧
      system' = dropRetired (sweep (system.detach task) executor task 0 []).1 taken ∧
      system'.Invariant := by
  obtain ⟨executor, hexecutor, rfl⟩ := Option.map_eq_some_iff.1 hstep
  obtain ⟨hinvariant, taken, heq, htaken, htasks⟩ :=
    sweep_spec (system.detach task) executor task 0 [] (h.detach task)
  rw [List.append_nil] at heq
  refine ⟨executor, taken, hexecutor, heq, htaken, htasks, ?_, ?_⟩
  · rw [← heq]
    rfl
  · show (dropRetired (sweep (system.detach task) executor task 0 []).1
      (sweep (system.detach task) executor task 0 []).2).Invariant
    rw [heq]
    apply hinvariant.dropRetired
    intro deadline hdeadline
    have hlt := (htaken.armedOn (h.detach task) deadline hdeadline).1
    rw [htaken.rest, htaken.retired deadline hdeadline]
    exact ⟨hlt, State.noConfusion⟩

end Deadlines

end Chtholly
