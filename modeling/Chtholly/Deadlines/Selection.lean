import Chtholly.Deadlines.Sweep

/-!
# The deadline that a worker selects

A worker selects the earliest deadline that is armed on its executor.  Of equal instants it selects
the one that was armed first, as long as the sequence numbers have not started again.

## Main results

* `Deadlines.reachable_invariant` — the invariant holds in every run.
* `Deadlines.deadline_heap` — the heap and the selected deadline in every run.
* `Deadlines.selected_out_of_order` — a run in which the sequence numbers have started again.
-/

set_option autoImplicit false

namespace Chtholly

namespace Deadlines

open Interleaving

/-! ## Runs -/

/-- A deadline that leaves the heap drops its references. -/
lemma System.Invariant.retire_drop {system : System} (h : system.Invariant) {executor deadline : ℕ}
    {state : State} (hstate : state ≠ .armed) (harmedOn : system.ArmedOn executor deadline) :
    (Deadlines.dropReference (Deadlines.releaseTaskReference
      (system.retire executor deadline state) deadline) deadline).Invariant := by
  have hretired := retire_spec state (h.isHeap executor)
    ((h.mem_iff executor deadline).2 harmedOn)
  refine ((h.retired hretired hstate harmedOn).releaseTaskReference ?_ ?_).dropReference deadline
  · rw [hretired.rest]
    exact harmedOn.1
  · rw [hretired.retired]
    exact hstate

lemma step_invariant {system system' : System} {action : Action} (h : system.Invariant)
    (hstep : step system action = some system') : system'.Invariant := by
  -- what does not concern the heaps
  have hcongr : ∀ other : System, other.deadlines = system.deadlines → other.armed = system.armed →
      (∀ executor, (other.executors executor).deadlineHeap =
        (system.executors executor).deadlineHeap ∧
        (other.executors executor).deadlineCount = (system.executors executor).deadlineCount ∧
        (other.executors executor).nextDeadlineSequence =
          (system.executors executor).nextDeadlineSequence) →
      other.taskReleases = system.taskReleases → other.Invariant := by
    intro other hdeadlines harmed hexecutors hreleases
    refine h.congr harmed (fun executor => (hexecutors executor).1)
      (fun executor => (hexecutors executor).2.1) (fun executor => (hexecutors executor).2.2) ?_ ?_ ?_
    · intro deadline
      rw [hdeadlines]
      exact ⟨rfl, rfl, rfl, rfl, rfl⟩
    · intro executor deadline _
      rw [hdeadlines, hreleases]
      exact ⟨rfl, rfl, fun _ hmem => hmem⟩
    · rw [hreleases]
      exact fun release hrelease => .inl hrelease
  cases action with
  | createTask executor =>
    cases hstep
    exact hcongr _ rfl rfl (fun _ => ⟨rfl, rfl, rfl⟩) rfl
  | readExecutor task =>
    obtain ⟨executor, -, rfl⟩ := Option.map_eq_some_iff.1 hstep
    exact hcongr _ rfl rfl (fun _ => ⟨rfl, rfl, rfl⟩) rfl
  | deadlineAfter call now timeoutNanoseconds memory =>
    obtain ⟨⟨task, executor⟩, -, rfl⟩ := Option.map_eq_some_iff.1 hstep
    have hcalls := hcongr { system with calls := system.calls.eraseIdx call } rfl rfl
      (fun _ => ⟨rfl, rfl, rfl⟩) rfl
    obtain ⟨-, hsame⟩ | ⟨instant, -, harms⟩ :=
      taskDeadlineAfter_spec hcalls task executor now timeoutNanoseconds memory
    · rw [hsame]
      exact hcalls
    · exact hcalls.arms harms
  | deadlineRelease deadline =>
    obtain ⟨⟨hlt, -⟩, hstep⟩ := Option.ite_none_right_eq_some.1 hstep
    cases hstep
    unfold deadlineRelease
    dsimp only
    split
    case isTrue harmed =>
      exact (h.retire_drop (by decide) ⟨hlt, harmed, rfl⟩).dropReference deadline
    case isFalse => exact h.dropReference deadline
  | expire executor now =>
    obtain ⟨expired, hexpired, rfl⟩ := Option.map_eq_some_iff.1 hstep
    obtain ⟨hcount, hexpired⟩ := Option.ite_none_right_eq_some.1 hexpired
    obtain ⟨-, hexpired⟩ := Option.ite_none_right_eq_some.1 hexpired
    cases hexpired
    apply h.retire_drop (by decide)
    rw [← h.mem_iff]
    exact Heap.mem_elements.2 ⟨0, Nat.pos_of_ne_zero hcount, rfl⟩
  | rebindExecutor task executor =>
    obtain ⟨-, hstep⟩ := Option.ite_none_right_eq_some.1 hstep
    split at hstep
    · cases hstep
      exact h
    · cases hstep
      exact hcongr _ rfl rfl (fun _ => ⟨rfl, rfl, rfl⟩) rfl
  | publishTerminal task =>
    obtain ⟨-, -, -, -, -, -, -, hinvariant⟩ := publishTerminal_spec h hstep
    exact hinvariant
  | shutdown executor =>
    cases hstep
    refine hcongr _ rfl rfl ?_ rfl
    intro other
    by_cases hother : other = executor
    · subst hother
      simp
    · simp [hother]

lemma reachable_invariant {system : System} (h : Reachable step System.initial system) :
    system.Invariant :=
  h.induction initial_invariant fun _ _ _ hinvariant hstep => step_invariant hinvariant hstep

/-! ## The order of the selection -/

lemma instantCompare_nonpos_iff (left right : NextTaskInstant) :
    instantCompare left right ≤ 0 ↔ ¬instantCompare right left < 0 := by
  unfold instantCompare
  split_ifs <;> omega

section

variable {system : System} {executor : ℕ}

/-- The root of the heap comes first. -/
lemma System.Invariant.root_le (h : system.Invariant) {other : ℕ}
    (hother : system.ArmedOn executor other) :
    instantCompare (system.deadlines ((system.executors executor).deadlineHeap 0)).instant
        (system.deadlines other).instant ≤ 0 ∧
      ((system.deadlines ((system.executors executor).deadlineHeap 0)).instant =
          (system.deadlines other).instant →
        (system.deadlines ((system.executors executor).deadlineHeap 0)).sequence ≤
          (system.deadlines other).sequence) := by
  rw [← h.mem_iff] at hother
  obtain ⟨index, hindex, rfl⟩ := Heap.mem_elements.1 hother
  have hle := (h.isHeap executor).ordered.root_le index hindex
  rw [← not_lt, order, order, key_lt_iff, not_or, not_and] at hle
  rw [instantCompare_nonpos_iff]
  exact ⟨hle.1, fun heq => not_lt.1 (hle.2 heq.symm)⟩

/-- The sequence numbers follow the order of arming up to where they start again. -/
lemma System.Invariant.sequence_lt (h : system.Invariant)
    (hbound : system.armedBefore executor system.armed ≤ 2 ^ 64) {earlier later : ℕ}
    (hearlier : system.ArmedOn executor earlier) (hlater : system.ArmedOn executor later)
    (hlt : earlier < later) :
    (system.deadlines earlier).sequence < (system.deadlines later).sequence := by
  obtain ⟨hearlierLt, -, hearlierOn⟩ := hearlier
  obtain ⟨hlaterLt, -, hlaterOn⟩ := hlater
  have hnext : system.armedBefore executor earlier < system.armedBefore executor later :=
    Nat.count_strict_mono hearlierOn hlt
  have hlast : system.armedBefore executor later < system.armedBefore executor system.armed :=
    Nat.count_strict_mono hlaterOn hlaterLt
  rw [h.sequence_eq earlier hearlierLt, h.sequence_eq later hlaterLt, hearlierOn, hlaterOn,
    Nat.mod_eq_of_lt (hnext.trans (hlast.trans_le hbound)), Nat.mod_eq_of_lt (hlast.trans_le hbound)]
  exact hnext

lemma expiredDeadline_eq_some_iff {now : NextTaskInstant} {deadline : ℕ} :
    expiredDeadline system executor now = some deadline ↔
      (system.executors executor).deadlineCount ≠ 0 ∧
      (system.executors executor).deadlineHeap 0 = deadline ∧
      instantCompare (system.deadlines deadline).instant now ≤ 0 := by
  show (if (system.executors executor).deadlineCount ≠ 0 then
    if instantCompare (system.deadlines ((system.executors executor).deadlineHeap 0)).instant now ≤ 0
      then some ((system.executors executor).deadlineHeap 0) else none else none) = _ ↔ _
  rw [Option.ite_none_right_eq_some, Option.ite_none_right_eq_some, Option.some.injEq]
  constructor
  · rintro ⟨hcount, hdue, rfl⟩
    exact ⟨hcount, rfl, hdue⟩
  · rintro ⟨hcount, rfl, hdue⟩
    exact ⟨hcount, hdue, rfl⟩

end

/-! ## The deadline heap in every run -/

/-- What a worker selects is due and is the first of the armed deadlines. -/
structure System.Selects (system : System) (executor : ℕ) (now : NextTaskInstant) (deadline : ℕ) :
    Prop where
  armedOn : system.ArmedOn executor deadline
  due : instantCompare (system.deadlines deadline).instant now ≤ 0
  earliest : ∀ other, system.ArmedOn executor other →
    instantCompare (system.deadlines deadline).instant (system.deadlines other).instant ≤ 0
  first : system.armedBefore executor system.armed ≤ 2 ^ 64 →
    ∀ other, system.ArmedOn executor other →
      (system.deadlines deadline).instant = (system.deadlines other).instant → deadline ≤ other

lemma System.Invariant.selects {system : System} (h : system.Invariant) {executor deadline : ℕ}
    {now : NextTaskInstant} (hexpired : expiredDeadline system executor now = some deadline) :
    system.Selects executor now deadline := by
  obtain ⟨hcount, rfl, hdue⟩ := expiredDeadline_eq_some_iff.1 hexpired
  have harmedOn := (h.mem_iff executor _).1
    (Heap.mem_elements.2 ⟨0, Nat.pos_of_ne_zero hcount, rfl⟩)
  constructor
  · exact harmedOn
  · exact hdue
  · intro other hother
    exact (h.root_le hother).1
  · intro hbound other hother heq
    by_contra hlt
    have hsequence := h.sequence_lt hbound hother harmedOn (not_le.1 hlt)
    exact absurd ((h.root_le hother).2 heq) (not_le.2 hsequence)

/-- **The deadline heap in every run**, and the sums of instants. -/
theorem deadline_heap {system : System} (h : Reachable step System.initial system)
    (executor : ℕ) :
    (∀ index, index ≠ 0 → index < (system.executors executor).deadlineCount →
      deadlineLess ((system.locked executor).at index)
        ((system.locked executor).at ((index - 1) / 2)) = false) ∧
    (∀ index, index < (system.executors executor).deadlineCount →
      ((system.locked executor).at index).heapIndex = index) ∧
    (∀ deadline, system.ArmedOn executor deadline →
      ∃! index, index < (system.executors executor).deadlineCount ∧
        (system.executors executor).deadlineHeap index = deadline) ∧
    (∀ index, index < (system.executors executor).deadlineCount →
      system.ArmedOn executor ((system.executors executor).deadlineHeap index)) ∧
    (∀ deadline, system.ArmedOn executor deadline →
      (heapRemoveLocked (system.locked executor) deadline).IsHeap ∧
      deadline ::ₘ (heapRemoveLocked (system.locked executor) deadline).elements =
        (system.locked executor).elements) ∧
    (∀ now deadline, expiredDeadline system executor now = some deadline →
      system.Selects executor now deadline) ∧
    ∀ instant : NextTaskInstant, instant.Valid → ∀ timeout,
      (instantAdd instant timeout).Valid ∧
      (instantAdd instant timeout).total = min (instant.total + timeout) largestInstant.total := by
  have hinvariant := reachable_invariant h
  have hheap := hinvariant.isHeap executor
  refine ⟨?_, hheap.placed, ?_, ?_, ?_, fun now deadline => hinvariant.selects,
    fun instant hvalid timeout => instantAdd_eq hvalid timeout⟩
  · intro index hzero hindex
    rw [deadlineLess_at, decide_eq_false_iff_not, not_lt]
    exact hheap.ordered index hzero hindex
  · intro deadline hdeadline
    obtain ⟨hindex, hat⟩ :=
      hheap.placed.heapIndex_of_mem ((hinvariant.mem_iff executor deadline).2 hdeadline)
    refine ⟨_, ⟨hindex, hat⟩, ?_⟩
    rintro other ⟨hother, hotherAt⟩
    exact hheap.placed.injective hother hindex (hotherAt.trans hat.symm)
  · intro index hindex
    rw [← hinvariant.mem_iff]
    exact Heap.mem_elements.2 ⟨index, hindex, rfl⟩
  · intro deadline hdeadline
    have hremoved := heapRemoveLocked_spec hheap ((hinvariant.mem_iff executor deadline).2 hdeadline)
    exact ⟨hremoved.isHeap, hremoved.elements_eq⟩

/-- The actions by which a task with an executor arms a deadline. -/
def armAt (task : ℕ) (instant : NextTaskInstant) : List Action :=
  [.readExecutor task, .deadlineAfter 0 (some instant) 0 true]

/-- Three deadlines, of which the second one is the earliest. -/
def threeArmed : System :=
  (run step System.initial (.createTask 0 :: armAt 0 ⟨3, 0⟩ ++ armAt 0 ⟨1, 0⟩ ++
    armAt 0 ⟨2, 0⟩)).getD System.initial

/-- A run that can be taken reaches its state. -/
lemma reachable_getD {actions : List Action} (h : (run step System.initial actions).isSome) :
    Reachable step System.initial ((run step System.initial actions).getD System.initial) := by
  refine ⟨actions, ?_⟩
  rw [← Option.get_eq_getD]
  exact (Option.some_get h).symm

theorem deadline_heap_threeArmed :
    (∀ deadline, threeArmed.ArmedOn 0 deadline →
      ∃! index, index < 3 ∧ (threeArmed.executors 0).deadlineHeap index = deadline) ∧
    threeArmed.Selects 0 ⟨1, 0⟩ 1 := by
  have hreachable : Reachable step System.initial threeArmed := reachable_getD (by decide +kernel)
  obtain ⟨-, -, honce, -, -, hselects, -⟩ := deadline_heap hreachable 0
  have hcount : (threeArmed.executors 0).deadlineCount = 3 := by decide +kernel
  rw [hcount] at honce
  exact ⟨honce, hselects _ _ (by decide +kernel)⟩

/-! ## The sequence numbers start again -/

/-- There is memory for a heap that is not huge. -/
lemma heapInsertLocked_isSome {state : Locked} (deadline : ℕ)
    (hcount : state.executor.deadlineCount < 2 ^ 32) :
    (heapInsertLocked state deadline true).isSome := by
  unfold heapInsertLocked
  dsimp only
  rw [Option.isSome_map]
  by_cases hfull : state.executor.deadlineCount = state.executor.deadlineCapacity
  · have hlarge : 2 ^ 33 ≤ maxCapacity := by decide
    rw [if_pos hfull, if_neg]
    · rfl
    · rw [hfull] at hcount
      split_ifs <;> omega
  · rw [if_neg hfull]
    rfl

/-- A deadline is armed on a running executor with a small heap. -/
lemma taskDeadlineAfter_arms {system : System} (h : system.Invariant) (task : ℕ) {executor : ℕ}
    (now : NextTaskInstant) (hshutdown : (system.executors executor).shutdown = false)
    (hcount : (system.executors executor).deadlineCount < 2 ^ 32) :
    Arms system task executor (instantAdd now 0)
      (taskDeadlineAfter system task executor (some now) 0 true).1 := by
  obtain ⟨hfailed, -⟩ | ⟨instant, heq, harms⟩ :=
    taskDeadlineAfter_spec h task executor (some now) 0 true
  · refine absurd ?_ hfailed
    rw [taskDeadlineAfter.eq_def, if_neg (by rw [hshutdown]; decide)]
    dsimp only
    split
    case h_1 hinsert =>
      have hsome := @heapInsertLocked_isSome (System.locked { system with
        deadlines := Function.update system.deadlines system.armed {
          references := 1, state := .armed, executor := executor, task := some task,
          taskReferenceReleased := false, instant := instantAdd now 0,
          sequence := 0, heapIndex := 0, inHeap := false } } executor) system.armed hcount
      rw [hinsert] at hsome
      cases hsome
    case h_2 => rfl
  · cases heq
    exact harms

/-- A system whose only task is running, with nothing armed. -/
structure System.Idle (system : System) (armed : ℕ) : Prop where
  reachable : Reachable step System.initial system
  taskExecutor_eq : system.taskExecutor 0 = some 0
  calls_eq : system.calls = []
  count_eq : (system.executors 0).deadlineCount = 0
  shutdown_eq : (system.executors 0).shutdown = false
  armed_eq : system.armed = armed
  next_eq : (system.executors 0).nextDeadlineSequence = armed % 2 ^ 64

/-- The task arms a deadline. -/
lemma exists_arms {system : System} (h : Reachable step System.initial system)
    (htask : system.taskExecutor 0 = some 0) (hcalls : system.calls = [])
    (hshutdown : (system.executors 0).shutdown = false)
    (hcount : (system.executors 0).deadlineCount < 2 ^ 32) (now : NextTaskInstant) :
    ∃ system', Reachable step System.initial system' ∧
      Arms system 0 0 (instantAdd now 0) system' := by
  have hread : step system (.readExecutor 0) = some { system with calls := [(0, 0)] } := by
    simp [step, htask, hcalls]
  have hsame : { system with calls := [] } = system := by
    rw [← hcalls]
  have harm : step { system with calls := [(0, 0)] } (.deadlineAfter 0 (some now) 0 true) =
      some (taskDeadlineAfter system 0 0 (some now) 0 true).1 := by
    show some (taskDeadlineAfter { system with calls := [] } 0 0 (some now) 0 true).1 = _
    rw [hsame]
  exact ⟨_, (h.tail hread).tail harm,
    taskDeadlineAfter_arms (reachable_invariant h) 0 now hshutdown hcount⟩

lemma Locked.card_elements (state : Locked) :
    Multiset.card state.elements = state.executor.deadlineCount := by
  rw [Locked.elements, Heap.elements, Multiset.card_map, Multiset.card_range]

lemma Arms.count_eq {system system' : System} {task executor : ℕ} {instant : NextTaskInstant}
    (h : Arms system task executor instant system') :
    (system'.executors executor).deadlineCount = (system.executors executor).deadlineCount + 1 := by
  have hcard := congrArg Multiset.card h.elements_eq
  rwa [Multiset.card_cons, Locked.card_elements, Locked.card_elements] at hcard

lemma drop_rest (system : System) (deadline : ℕ) :
    dropReference (releaseTaskReference system deadline) deadline = { system with
      deadlines := (dropReference (releaseTaskReference system deadline) deadline).deadlines
      taskReleases :=
        (dropReference (releaseTaskReference system deadline) deadline).taskReleases } := by
  rw [releaseTaskReference]
  split <;> rfl

/-- A deadline is armed and released. -/
lemma System.Idle.next {system : System} {armed : ℕ} (h : system.Idle armed) :
    ∃ system', System.Idle system' (armed + 1) := by
  obtain ⟨armedSystem, hreachable, harms⟩ := exists_arms h.reachable h.taskExecutor_eq h.calls_eq
    h.shutdown_eq (by rw [h.count_eq]; decide) { seconds := 0, nanoseconds := 0 }
  have hinvariant := reachable_invariant hreachable
  have hrest := harms.rest
  have hnew := harms.new
  have harmedOn : armedSystem.ArmedOn 0 system.armed := by
    rw [harms.armedOn_iff]
    exact .inr ⟨rfl, rfl⟩
  have hretired := retire_spec .released (hinvariant.isHeap 0)
    ((hinvariant.mem_iff 0 _).2 harmedOn)
  have hstep : step armedSystem (.deadlineRelease system.armed) =
      some (deadlineRelease armedSystem system.armed) := by
    apply if_pos
    rw [harms.armed_eq, hnew]
    exact ⟨Nat.lt_succ_self _, rfl⟩
  have hexecutor : (armedSystem.deadlines system.armed).executor = 0 := by
    rw [hnew]
  have hsystem : deadlineRelease armedSystem system.armed =
      dropReference (dropReference (releaseTaskReference
        (armedSystem.retire 0 system.armed .released) system.armed) system.armed)
        system.armed := by
    unfold deadlineRelease
    dsimp only
    rw [if_pos harmedOn.2.1, hexecutor]
  refine ⟨deadlineRelease armedSystem system.armed, hreachable.tail hstep, ?_, ?_, ?_, ?_, ?_, ?_⟩
  all_goals rw [hsystem, dropReference, drop_rest]
  · show (armedSystem.retire 0 system.armed .released).taskExecutor 0 = some 0
    rw [hretired.rest, hrest]
    exact h.taskExecutor_eq
  · show (armedSystem.retire 0 system.armed .released).calls = []
    rw [hretired.rest, hrest]
    exact h.calls_eq
  · show ((armedSystem.retire 0 system.armed .released).executors 0).deadlineCount = 0
    rw [retire_count, harms.count_eq, h.count_eq]
  · show ((armedSystem.retire 0 system.armed .released).executors 0).shutdown = false
    rw [hretired.shutdown_eq, harms.shutdown_eq, h.shutdown_eq]
  · show (armedSystem.retire 0 system.armed .released).armed = armed + 1
    rw [hretired.rest]
    show armedSystem.armed = armed + 1
    rw [harms.armed_eq, h.armed_eq]
  · show ((armedSystem.retire 0 system.armed .released).executors 0).nextDeadlineSequence = _
    rw [hretired.next_eq, harms.next_eq, h.next_eq, Nat.mod_add_mod]

lemma exists_idle (armed : ℕ) : ∃ system, System.Idle system armed := by
  induction armed with
  | zero =>
    have hstep : step System.initial (.createTask 0) = some { System.initial with
        taskExecutor := Function.update System.initial.taskExecutor 0 (some 0)
        tasks := 1 } := rfl
    exact ⟨_, Reachable.refl.tail hstep, rfl, rfl, rfl, rfl, rfl, rfl⟩
  | succ armed ih =>
    obtain ⟨system, hsystem⟩ := ih
    exact hsystem.next

/-- Of two deadlines with the same instant the later one is selected where the sequence numbers have
started again between them. -/
theorem selected_out_of_order :
    ∃ system, Reachable step System.initial system ∧
      ∃ now earlier later, earlier < later ∧
        system.ArmedOn 0 earlier ∧ system.ArmedOn 0 later ∧
        (system.deadlines earlier).instant = (system.deadlines later).instant ∧
        expiredDeadline system 0 now = some later := by
  obtain ⟨idle, hidle⟩ := exists_idle (2 ^ 64 - 1)
  obtain ⟨first, hfirst, harms⟩ := exists_arms hidle.reachable hidle.taskExecutor_eq hidle.calls_eq
    hidle.shutdown_eq (by rw [hidle.count_eq]; decide) { seconds := 0, nanoseconds := 0 }
  have hfirstRest := harms.rest
  have hfirstCount : (first.executors 0).deadlineCount = 1 := by
    rw [harms.count_eq, hidle.count_eq]
  obtain ⟨second, hsecond, harms'⟩ := exists_arms hfirst
    (by rw [hfirstRest]; exact hidle.taskExecutor_eq) (by rw [hfirstRest]; exact hidle.calls_eq)
    (by rw [harms.shutdown_eq, hidle.shutdown_eq]) (by rw [hfirstCount]; decide)
    { seconds := 0, nanoseconds := 0 }
  have hinvariant := reachable_invariant hsecond
  have hne : idle.armed ≠ first.armed := by
    rw [harms.armed_eq]
    omega
  have hearlier : second.ArmedOn 0 idle.armed := by
    rw [harms'.armedOn_iff, harms.armedOn_iff]
    exact .inl (.inr ⟨rfl, rfl⟩)
  have hlater : second.ArmedOn 0 first.armed := by
    rw [harms'.armedOn_iff]
    exact .inr ⟨rfl, rfl⟩
  have hnewEarlier := harms'.others idle.armed hne
  rw [harms.new] at hnewEarlier
  have hnewLater := harms'.new
  have hinstant : (second.deadlines idle.armed).instant = (second.deadlines first.armed).instant := by
    rw [hnewEarlier, hnewLater]
  refine ⟨second, hsecond, instantAdd { seconds := 0, nanoseconds := 0 } 0, idle.armed, first.armed,
    ?_, hearlier, hlater, hinstant, ?_⟩
  · rw [harms.armed_eq]
    exact Nat.lt_succ_self _
  -- the root is one of the two, and it is not the earlier one
  have hcount : (second.executors 0).deadlineCount = 2 := by
    rw [harms'.count_eq, hfirstCount]
  have hroot : (second.executors 0).deadlineHeap 0 = first.armed := by
    have hmem : (second.executors 0).deadlineHeap 0 ∈ (second.locked 0).elements :=
      Heap.mem_elements.2 ⟨0, by show 0 < (second.executors 0).deadlineCount; omega, rfl⟩
    have hidleEmpty : (idle.locked 0).elements = 0 := by
      rw [← Multiset.card_eq_zero, Locked.card_elements]
      exact hidle.count_eq
    rw [harms'.elements_eq, harms.elements_eq, hidleEmpty, Multiset.mem_cons, Multiset.cons_zero,
      Multiset.mem_singleton] at hmem
    refine hmem.resolve_right fun heq => ?_
    have hle := (hinvariant.root_le hlater).2
    rw [heq] at hle
    have hsequence := hle hinstant
    rw [hnewEarlier, hnewLater, harms.next_eq, hidle.next_eq] at hsequence
    exact absurd hsequence (show ¬(2 ^ 64 - 1) % 2 ^ 64 ≤ ((2 ^ 64 - 1) % 2 ^ 64 + 1) % 2 ^ 64 by
      decide)
  rw [expiredDeadline_eq_some_iff, hnewLater, (instantCompare_eq_zero_iff _ _).2 rfl]
  exact ⟨by omega, hroot, le_rfl⟩

end Deadlines

end Chtholly
