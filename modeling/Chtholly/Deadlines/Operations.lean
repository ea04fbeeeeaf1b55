import Chtholly.Deadlines.Heap
import Mathlib.Tactic.Tauto

/-!
# The deadline heap is a binary heap

The sifts of the deadline heap move the same elements as those of a binary heap with the key of a
deadline, and beside that only write the places of the deadlines they move.  Each operation has one
lemma that says all it does.

## Main definitions

* `Deadlines.key` — the order of deadlines.
* `Deadlines.Locked.IsHeap` — the invariant of the heap.
* `Deadlines.Inserted`, `Deadlines.Removed` — what the operations do.

## Main results

* `Deadlines.heapInsertLocked_spec`, `Deadlines.heapRemoveLocked_spec` — the operations.
-/

set_option autoImplicit false

namespace Chtholly

namespace Deadlines

/-! ## The order of deadlines -/

/-- By the instant and then by the sequence number. -/
def key (deadline : Deadline) : ℕ ×ₗ ℕ ×ₗ ℕ :=
  toLex (deadline.instant.seconds, toLex (deadline.instant.nanoseconds, deadline.sequence))

lemma key_lt_iff (left right : Deadline) :
    key left < key right ↔
      instantCompare left.instant right.instant < 0 ∨
        left.instant = right.instant ∧ left.sequence < right.sequence := by
  obtain ⟨-, -, -, -, -, ⟨seconds, nanoseconds⟩, sequence, -, -⟩ := left
  obtain ⟨-, -, -, -, -, ⟨seconds', nanoseconds'⟩, sequence', -, -⟩ := right
  rw [instantCompare_neg_iff, key, key, Prod.Lex.toLex_lt_toLex, Prod.Lex.toLex_lt_toLex]
  simp only [NextTaskInstant.mk.injEq]
  tauto

lemma deadlineLess_eq (left right : Deadline) :
    deadlineLess left right = decide (key left < key right) := by
  rw [deadlineLess, Bool.eq_iff_iff]
  simp [key_lt_iff, instantCompare_eq_zero_iff]

/-- The key of the deadline with a number. -/
def order (deadlines : ℕ → Deadline) (deadline : ℕ) : ℕ ×ₗ ℕ ×ₗ ℕ :=
  key (deadlines deadline)

/-! ## Swaps -/

/-- The deadlines but for their places in a heap. -/
def Reindexed (deadlines deadlines' : ℕ → Deadline) : Prop :=
  ∀ deadline, deadlines' deadline =
    { deadlines deadline with heapIndex := (deadlines' deadline).heapIndex }

/-- The elements of the heap. -/
def Locked.elements (state : Locked) : Multiset ℕ :=
  Heap.elements state.executor.deadlineHeap state.executor.deadlineCount

/-- Each deadline of the heap knows its place. -/
def Locked.Placed (state : Locked) : Prop :=
  ∀ index, index < state.executor.deadlineCount → (state.at index).heapIndex = index

lemma Reindexed.refl (deadlines : ℕ → Deadline) : Reindexed deadlines deadlines :=
  fun _ => rfl

lemma Reindexed.trans {first second third : ℕ → Deadline} (h : Reindexed first second)
    (h' : Reindexed second third) : Reindexed first third := by
  intro deadline
  rw [h' deadline, h deadline]

lemma Reindexed.order_eq {deadlines deadlines' : ℕ → Deadline} (h : Reindexed deadlines deadlines') :
    order deadlines' = order deadlines := by
  funext deadline
  rw [order, h deadline]
  rfl

lemma setHeapIndex_reindexed (deadlines : ℕ → Deadline) (deadline index : ℕ) :
    Reindexed deadlines (setHeapIndex deadlines deadline index) := by
  intro other
  by_cases h : other = deadline
  · subst h
    simp [setHeapIndex]
  · simp [setHeapIndex, h]

/-- What some swaps in a heap do. -/
structure Swapped (state state' : Locked) : Prop where
  executor_eq : state'.executor =
    { state.executor with deadlineHeap := state'.executor.deadlineHeap }
  reindexed : Reindexed state.deadlines state'.deadlines
  outside : ∀ deadline, deadline ∉ state.elements → state'.deadlines deadline = state.deadlines deadline
  elements_eq : state'.elements = state.elements
  placed : state.Placed → state'.Placed

lemma Swapped.refl (state : Locked) : Swapped state state :=
  ⟨rfl, Reindexed.refl _, fun _ _ => rfl, rfl, id⟩

lemma Swapped.trans {first second third : Locked} (h : Swapped first second)
    (h' : Swapped second third) : Swapped first third where
  executor_eq := by rw [h'.executor_eq, h.executor_eq]
  reindexed := h.reindexed.trans h'.reindexed
  outside := by
    intro deadline hdeadline
    rw [h'.outside deadline (by rwa [h.elements_eq]), h.outside deadline hdeadline]
  elements_eq := h'.elements_eq.trans h.elements_eq
  placed := h'.placed ∘ h.placed

lemma Swapped.count_eq {state state' : Locked} (h : Swapped state state') :
    state'.executor.deadlineCount = state.executor.deadlineCount := by
  rw [h.executor_eq]

lemma heapSwap_swapped (state : Locked) {left right : ℕ}
    (hleft : left < state.executor.deadlineCount) (hright : right < state.executor.deadlineCount) :
    Swapped state (heapSwap state left right) where
  executor_eq := rfl
  reindexed := (setHeapIndex_reindexed _ _ _).trans (setHeapIndex_reindexed _ _ _)
  outside := by
    intro deadline hdeadline
    have hne : ∀ index, index < state.executor.deadlineCount →
        deadline ≠ state.executor.deadlineHeap index :=
      fun index hindex heq => hdeadline (Heap.mem_elements.2 ⟨index, hindex, heq.symm⟩)
    simp [heapSwap, setHeapIndex, Heap.swap_left, Heap.swap_right, hne left hleft, hne right hright]
  elements_eq := Heap.elements_swap _ hleft hright
  placed := by
    intro hplaced index hindex
    -- different places have different deadlines
    have hinj : ∀ i j, i < state.executor.deadlineCount → j < state.executor.deadlineCount →
        state.executor.deadlineHeap i = state.executor.deadlineHeap j → i = j := by
      intro i j hi hj heq
      rw [← hplaced i hi, ← hplaced j hj, Locked.at, Locked.at, heq]
    by_cases hr : index = right
    · subst hr
      simp [Locked.at, heapSwap, setHeapIndex]
    by_cases hl : index = left
    · subst hl
      have hne : state.executor.deadlineHeap right ≠ state.executor.deadlineHeap index :=
        fun heq => hr (hinj _ _ hright hleft heq).symm
      simp [Locked.at, heapSwap, setHeapIndex, Heap.swap_left, Heap.swap_right, hne]
    · have hne : state.executor.deadlineHeap index ≠ state.executor.deadlineHeap left :=
        fun heq => hl (hinj _ _ hindex hleft heq)
      have hne' : state.executor.deadlineHeap index ≠ state.executor.deadlineHeap right :=
        fun heq => hr (hinj _ _ hindex hright heq)
      have := hplaced index hindex
      simp [Locked.at] at this
      simp [Locked.at, heapSwap, setHeapIndex, Heap.swap_left, Heap.swap_right,
        Heap.swap_of_ne _ hl hr, hne, hne', this]

/-! ## The sifts are those of a binary heap -/

lemma deadlineLess_at (state : Locked) (left right : ℕ) :
    deadlineLess (state.at left) (state.at right) =
      decide (order state.deadlines (state.executor.deadlineHeap left) <
        order state.deadlines (state.executor.deadlineHeap right)) :=
  deadlineLess_eq _ _

lemma heapSiftUp_spec (state : Locked) (index : ℕ) (h : index < state.executor.deadlineCount) :
    Swapped state (heapSiftUp state index) ∧
      (heapSiftUp state index).executor.deadlineHeap =
        Heap.siftUp (order state.deadlines) state.executor.deadlineHeap index := by
  fun_induction heapSiftUp state index with
  | case1 state index hzero parent hless =>
    rw [Bool.not_eq_true', deadlineLess_at, decide_eq_false_iff_not] at hless
    rw [Heap.siftUp, dif_neg hzero, Heap.parent, if_neg hless]
    exact ⟨Swapped.refl state, rfl⟩
  | case2 state index hzero parent hless ih =>
    have hparent : parent < index := Heap.parent_lt hzero
    have hswap := heapSwap_swapped state h (hparent.trans h)
    rw [Bool.not_eq_true', Bool.not_eq_false, deadlineLess_at, decide_eq_true_eq] at hless
    obtain ⟨hswapped, hheap⟩ := ih (by rw [hswap.count_eq]; exact hparent.trans h)
    rw [Heap.siftUp, dif_neg hzero, Heap.parent, if_pos hless, hheap, hswap.reindexed.order_eq]
    exact ⟨hswap.trans hswapped, rfl⟩
  | case3 state index hzero =>
    rw [Heap.siftUp, dif_pos (not_not.1 hzero)]
    exact ⟨Swapped.refl state, rfl⟩

lemma heapChild_eq (state : Locked) (index : ℕ) :
    heapChild state index =
      if index * 2 + 1 < state.executor.deadlineCount then
        some (Heap.smallerChild (order state.deadlines) state.executor.deadlineHeap
          state.executor.deadlineCount index)
      else none := by
  unfold heapChild Heap.smallerChild
  simp only [deadlineLess_at, Bool.and_eq_true, decide_eq_true_eq]
  by_cases hleft : index * 2 + 1 < state.executor.deadlineCount
  · rw [if_neg (by omega), if_pos hleft]
    split_ifs <;> rfl
  · rw [if_pos (by omega), if_neg hleft]

lemma heapSiftDown_spec (state : Locked) (index : ℕ) (h : index < state.executor.deadlineCount) :
    Swapped state (heapSiftDown state index) ∧
      (heapSiftDown state index).executor.deadlineHeap =
        Heap.siftDown (order state.deadlines) state.executor.deadlineHeap
          state.executor.deadlineCount index := by
  fun_induction heapSiftDown state index with
  | case1 state index hchild =>
    rw [heapChild_eq] at hchild
    split at hchild
    · cases hchild
    case isFalse hleft =>
      rw [Heap.siftDown, dif_neg hleft]
      exact ⟨Swapped.refl state, rfl⟩
  | case2 state index child hchild hless =>
    rw [heapChild_eq, Option.ite_none_right_eq_some, Option.some.injEq] at hchild
    obtain ⟨hleft, rfl⟩ := hchild
    rw [Bool.not_eq_true', deadlineLess_at, decide_eq_false_iff_not] at hless
    rw [Heap.siftDown, dif_pos hleft, if_neg hless]
    exact ⟨Swapped.refl state, rfl⟩
  | case3 state index child hchild hless ih =>
    have hlt := (heapChild_lt hchild).2
    have hswap := heapSwap_swapped state h hlt
    obtain ⟨hswapped, hheap⟩ := ih (by rw [hswap.count_eq]; exact hlt)
    rw [heapChild_eq, Option.ite_none_right_eq_some, Option.some.injEq] at hchild
    obtain ⟨hleft, rfl⟩ := hchild
    rw [Bool.not_eq_true', Bool.not_eq_false, deadlineLess_at, decide_eq_true_eq] at hless
    rw [Heap.siftDown, dif_pos hleft, if_pos hless, hheap, hswap.reindexed.order_eq,
      hswap.count_eq]
    exact ⟨hswap.trans hswapped, rfl⟩

/-! ## The operations -/

/-- A heap of deadlines: its order is that of a binary heap, and the deadlines know their places. -/
structure Locked.IsHeap (state : Locked) : Prop where
  ordered : Heap.Ordered (order state.deadlines) state.executor.deadlineHeap
    state.executor.deadlineCount
  placed : state.Placed

/-- Different places have different deadlines. -/
lemma Locked.Placed.injective {state : Locked} (h : state.Placed) {left right : ℕ}
    (hleft : left < state.executor.deadlineCount) (hright : right < state.executor.deadlineCount)
    (heq : state.executor.deadlineHeap left = state.executor.deadlineHeap right) : left = right := by
  rw [← h left hleft, ← h right hright, Locked.at, Locked.at, heq]

lemma Locked.Placed.nodup {state : Locked} (h : state.Placed) : state.elements.Nodup := by
  apply Multiset.Nodup.map_on _ (Multiset.nodup_range _)
  intro left hleft right hright heq
  exact h.injective (Multiset.mem_range.1 hleft) (Multiset.mem_range.1 hright) heq

/-- A deadline of the heap is at its place. -/
lemma Locked.Placed.heapIndex_of_mem {state : Locked} (h : state.Placed) {deadline : ℕ}
    (hmem : deadline ∈ state.elements) :
    (state.deadlines deadline).heapIndex < state.executor.deadlineCount ∧
      state.executor.deadlineHeap (state.deadlines deadline).heapIndex = deadline := by
  obtain ⟨index, hindex, rfl⟩ := Heap.mem_elements.1 hmem
  have hplace := h index hindex
  rw [Locked.at] at hplace
  rw [hplace]
  exact ⟨hindex, rfl⟩

/-- What an insertion does. -/
structure Inserted (state : Locked) (deadline : ℕ) (state' : Locked) : Prop where
  isHeap : state'.IsHeap
  elements_eq : state'.elements = deadline ::ₘ state.elements
  others : ∀ other, other ≠ deadline → state'.deadlines other =
    { state.deadlines other with heapIndex := (state'.deadlines other).heapIndex }
  outside : ∀ other, other ≠ deadline → other ∉ state.elements →
    state'.deadlines other = state.deadlines other
  inserted : state'.deadlines deadline = { state.deadlines deadline with
    sequence := state.executor.nextDeadlineSequence
    heapIndex := (state'.deadlines deadline).heapIndex
    inHeap := true }
  sequence_eq : state'.executor.nextDeadlineSequence =
    (state.executor.nextDeadlineSequence + 1) % 2 ^ 64
  shutdown_eq : state'.executor.shutdown = state.executor.shutdown

lemma heapInsertLocked_spec {state state' : Locked} {deadline : ℕ} {memory : Bool}
    (h : state.IsHeap) (hnew : deadline ∉ state.elements)
    (hinsert : heapInsertLocked state deadline memory = some state') :
    Inserted state deadline state' := by
  rw [heapInsertLocked] at hinsert
  obtain ⟨capacity, -, rfl⟩ := Option.map_eq_some_iff.1 hinsert
  set stored : Deadline := { state.deadlines deadline with
    sequence := state.executor.nextDeadlineSequence
    heapIndex := state.executor.deadlineCount
    inHeap := true } with hstored
  -- the heap with the deadline behind its end
  set before : Locked := {
    deadlines := Function.update state.deadlines deadline stored,
    executor := { state.executor with
      deadlineHeap := Function.update state.executor.deadlineHeap state.executor.deadlineCount deadline
      deadlineCount := state.executor.deadlineCount + 1
      deadlineCapacity := capacity
      nextDeadlineSequence := (state.executor.nextDeadlineSequence + 1) % 2 ^ 64 } } with hbefore
  obtain ⟨hswapped, hheap⟩ := heapSiftUp_spec before state.executor.deadlineCount
    (Nat.lt_succ_self state.executor.deadlineCount)
  have hne : ∀ index, index < state.executor.deadlineCount →
      state.executor.deadlineHeap index ≠ deadline :=
    fun index hindex heq => hnew (Heap.mem_elements.2 ⟨index, hindex, heq⟩)
  have horder : Heap.Ordered (order before.deadlines) state.executor.deadlineHeap
      state.executor.deadlineCount := by
    intro index hindex hlt
    have hparent := Heap.parent_lt hindex
    simpa [order, hbefore, hne index hlt, hne _ (hparent.trans hlt)] using
      h.ordered index hindex hlt
  have hplaced : before.Placed := by
    intro index hindex
    by_cases hlast : index = state.executor.deadlineCount
    · simp [Locked.at, hbefore, hlast, hstored]
    · have hlt : index < state.executor.deadlineCount :=
        lt_of_le_of_ne (Nat.le_of_lt_succ hindex) hlast
      simpa [Locked.at, hbefore, hlast, hne index hlt] using h.placed index hlt
  have helements : before.elements = deadline ::ₘ state.elements := by
    show Heap.elements (Function.update state.executor.deadlineHeap state.executor.deadlineCount
      deadline) (state.executor.deadlineCount + 1) = _
    rw [Heap.elements_succ, Function.update_self]
    congr 1
    apply Heap.elements_congr
    intro index hindex
    rw [Function.update_of_ne hindex.ne]
  constructor
  · refine ⟨?_, hswapped.placed hplaced⟩
    rw [hheap, hswapped.count_eq, hswapped.reindexed.order_eq]
    exact Heap.insert_ordered deadline horder
  · rw [hswapped.elements_eq, helements]
  · intro other hother
    rw [hswapped.reindexed other, hbefore]
    simp [hother]
  · intro other hother hmem
    rw [hswapped.outside other (by rw [helements]; simp [hother, hmem])]
    simp [hbefore, hother]
  · rw [hswapped.reindexed deadline]
    simp [hbefore, hstored]
  · rw [hswapped.executor_eq]
  · rw [hswapped.executor_eq]

/-- What a removal does. -/
structure Removed (state : Locked) (deadline : ℕ) (state' : Locked) : Prop where
  isHeap : state'.IsHeap
  elements_eq : deadline ::ₘ state'.elements = state.elements
  others : ∀ other, other ≠ deadline → state'.deadlines other =
    { state.deadlines other with heapIndex := (state'.deadlines other).heapIndex }
  outside : ∀ other, other ∉ state.elements → state'.deadlines other = state.deadlines other
  removed : state'.deadlines deadline = { state.deadlines deadline with inHeap := false }
  executor_eq : state'.executor = { state.executor with
    deadlineHeap := Heap.remove (order state.deadlines) state.executor.deadlineHeap
      state.executor.deadlineCount (state.deadlines deadline).heapIndex
    deadlineCount := state.executor.deadlineCount - 1 }

/-- The keys of deadlines are their instants and sequence numbers. -/
lemma order_congr {deadlines deadlines' : ℕ → Deadline}
    (h : ∀ deadline, (deadlines' deadline).instant = (deadlines deadline).instant ∧
      (deadlines' deadline).sequence = (deadlines deadline).sequence) :
    order deadlines' = order deadlines := by
  funext deadline
  rw [order, order, key, key, (h deadline).1, (h deadline).2]

section

variable {state : Locked} {deadline : ℕ}

/-- Elsewhere in the heap are other deadlines. -/
lemma Locked.Placed.ne_of_ne (h : state.Placed) {index : ℕ}
    (hindex : index < state.executor.deadlineCount)
    (hne : index ≠ (state.deadlines deadline).heapIndex) :
    state.executor.deadlineHeap index ≠ deadline := by
  intro heq
  rw [← heq] at hne
  exact hne (h index hindex).symm

lemma order_unmark (deadlines : ℕ → Deadline) (deadline : ℕ) :
    order (Function.update deadlines deadline { deadlines deadline with inHeap := false }) =
      order deadlines := by
  apply order_congr
  intro other
  by_cases hother : other = deadline <;> simp [hother]

lemma order_heapFill : order (heapFill state deadline).deadlines = order state.deadlines :=
  (setHeapIndex_reindexed _ _ _).order_eq.trans (order_unmark _ _)

lemma heapFill_placed (h : state.Placed) : (heapFill state deadline).Placed := by
  intro other hother
  have hlt : other < state.executor.deadlineCount - 1 := hother
  by_cases hself : other = (state.deadlines deadline).heapIndex
  · simp [Locked.at, heapFill, Heap.fill, setHeapIndex, hself]
  · have hmoved : state.executor.deadlineHeap other ≠
        state.executor.deadlineHeap (state.executor.deadlineCount - 1) := by
      intro heq
      have := h.injective (by omega) (by omega) heq
      omega
    have hplace := h other (by omega)
    rw [Locked.at] at hplace
    simp [Locked.at, heapFill, Heap.fill, setHeapIndex, hself, hmoved,
      h.ne_of_ne (show other < state.executor.deadlineCount by omega) hself, hplace]

/-- The last deadline is sifted up or down from the hole. -/
lemma heapRemoveLocked_swapped
    (hindex : (state.deadlines deadline).heapIndex < state.executor.deadlineCount)
    (hlast : (state.deadlines deadline).heapIndex ≠ state.executor.deadlineCount - 1) :
    Swapped (heapFill state deadline) (heapRemoveLocked state deadline) ∧
      (heapRemoveLocked state deadline).executor.deadlineHeap =
        Heap.remove (order state.deadlines) state.executor.deadlineHeap
          state.executor.deadlineCount (state.deadlines deadline).heapIndex := by
  have hcount : (state.deadlines deadline).heapIndex <
      (heapFill state deadline).executor.deadlineCount := by
    show (state.deadlines deadline).heapIndex < state.executor.deadlineCount - 1
    omega
  have hcondition : (decide ((state.deadlines deadline).heapIndex ≠ 0) &&
      deadlineLess ((heapFill state deadline).at (state.deadlines deadline).heapIndex)
        ((heapFill state deadline).at (((state.deadlines deadline).heapIndex - 1) / 2))) =
      decide ((state.deadlines deadline).heapIndex ≠ 0 ∧
        order state.deadlines ((heapFill state deadline).executor.deadlineHeap
          (state.deadlines deadline).heapIndex) <
        order state.deadlines ((heapFill state deadline).executor.deadlineHeap
          (Heap.parent (state.deadlines deadline).heapIndex))) := by
    rw [deadlineLess_at, order_heapFill, Bool.decide_and, Heap.parent]
  have hfill : Heap.fill state.executor.deadlineHeap (state.executor.deadlineCount - 1)
      (state.deadlines deadline).heapIndex = (heapFill state deadline).executor.deadlineHeap := rfl
  unfold heapRemoveLocked
  dsimp only
  rw [if_neg hlast, hcondition, Heap.remove, if_neg hlast]
  simp only [decide_eq_true_eq, hfill]
  by_cases hup : (state.deadlines deadline).heapIndex ≠ 0 ∧
      order state.deadlines ((heapFill state deadline).executor.deadlineHeap
        (state.deadlines deadline).heapIndex) <
      order state.deadlines ((heapFill state deadline).executor.deadlineHeap
        (Heap.parent (state.deadlines deadline).heapIndex))
  · rw [if_pos hup, if_pos hup, ← order_heapFill]
    exact heapSiftUp_spec (heapFill state deadline) _ hcount
  · rw [if_neg hup, if_neg hup, ← order_heapFill]
    exact heapSiftDown_spec (heapFill state deadline) _ hcount

lemma heapRemoveLocked_spec (h : state.IsHeap) (hmem : deadline ∈ state.elements) :
    Removed state deadline (heapRemoveLocked state deadline) := by
  obtain ⟨hindex, hat⟩ := h.placed.heapIndex_of_mem hmem
  have hremove := @Heap.elements_remove _ _ _ state.executor.deadlineHeap _ _
    (order state.deadlines) hindex
  have hordered := Heap.remove_ordered h.ordered hindex
  rw [hat] at hremove
  by_cases hlast : (state.deadlines deadline).heapIndex = state.executor.deadlineCount - 1
  · have hsame : Heap.remove (order state.deadlines) state.executor.deadlineHeap
        state.executor.deadlineCount (state.deadlines deadline).heapIndex =
          state.executor.deadlineHeap := by
      rw [Heap.remove, if_pos hlast]
    rw [hsame] at hremove hordered
    rw [heapRemoveLocked, if_pos hlast]
    constructor
    · refine ⟨by rwa [order_unmark], ?_⟩
      intro other hother
      have hlt : other < state.executor.deadlineCount - 1 := hother
      have hplace := h.placed other (by omega)
      have hne : state.executor.deadlineHeap other ≠ deadline :=
        h.placed.ne_of_ne (by omega) (by omega)
      simpa [Locked.at, hne] using hplace
    · exact hremove
    · intro other hother
      simp [hother]
    · intro other hother
      have hother' : other ≠ deadline := fun heq => hother (heq ▸ hmem)
      simp [hother']
    · simp
    · rw [hsame]
  · obtain ⟨hswapped, hheap⟩ := heapRemoveLocked_swapped hindex hlast
    have hcount : (heapRemoveLocked state deadline).executor.deadlineCount =
        state.executor.deadlineCount - 1 := hswapped.count_eq
    have helements : deadline ::ₘ (heapRemoveLocked state deadline).elements = state.elements := by
      rw [Locked.elements, hheap, hcount, hremove, Locked.elements]
    have hfresh : deadline ∉ (heapRemoveLocked state deadline).elements := by
      have hnodup := h.placed.nodup
      rw [← helements, Multiset.nodup_cons] at hnodup
      exact hnodup.1
    have hmoved : state.executor.deadlineHeap (state.executor.deadlineCount - 1) ≠ deadline :=
      h.placed.ne_of_ne (by omega) (Ne.symm hlast)
    have hmovedMem : state.executor.deadlineHeap (state.executor.deadlineCount - 1) ∈
        state.elements := Heap.mem_elements.2 ⟨_, by omega, rfl⟩
    have hfilled : (heapFill state deadline).elements =
        (heapRemoveLocked state deadline).elements := hswapped.elements_eq.symm
    constructor
    · refine ⟨?_, hswapped.placed (heapFill_placed h.placed)⟩
      rw [hheap, hcount, hswapped.reindexed.order_eq, order_heapFill]
      exact hordered
    · exact helements
    · intro other hother
      have hfilledOther : (heapFill state deadline).deadlines other = { state.deadlines other with
          heapIndex := ((heapFill state deadline).deadlines other).heapIndex } := by
        show setHeapIndex _ _ _ other = _
        rw [setHeapIndex_reindexed _ _ _ other, Function.update_of_ne hother]
        rfl
      rw [hswapped.reindexed other, hfilledOther]
    · intro other hother
      have hother' : other ≠ deadline := fun heq => hother (heq ▸ hmem)
      have hother'' : other ≠ state.executor.deadlineHeap (state.executor.deadlineCount - 1) :=
        fun heq => hother (heq ▸ hmovedMem)
      rw [hswapped.outside other]
      · simp [heapFill, setHeapIndex, hother', hother'']
      · rw [hfilled]
        intro hmem'
        rw [← helements] at hother
        exact hother (Multiset.mem_cons_of_mem hmem')
    · rw [hswapped.outside deadline (hfilled ▸ hfresh)]
      simp [heapFill, setHeapIndex, hmoved.symm]
    · rw [hswapped.executor_eq, hheap]
      rfl

end

end Deadlines

end Chtholly
