import Chtholly.PackageQuery.Verify

/-!
# What the calls keep

From `initialize` on, a node waits for exactly the dependencies that have not succeeded, the set of
ready nodes has the nodes in that state, and the counter has the nodes that ended.  All calls keep
this, whatever their order.

## Main definitions

* `PackageQuery.CompilerPackageQueryGraph.Scheduled` — the invariant.

## Main results

* `PackageQuery.CompilerPackageQueryGraph.scheduled_initializeGraph` — it holds at first.
* `PackageQuery.CompilerPackageQueryGraph.Scheduled.perform` — every call keeps it.
-/

set_option autoImplicit false

namespace Chtholly

namespace PackageQuery

open Countdown

/-- A state in which the query ended. -/
def PackageQueryState.Ended (state : PackageQueryState) : Prop :=
  state = .succeeded ∨ state = .failed

instance (state : PackageQueryState) : Decidable (state.Ended) :=
  inferInstanceAs (Decidable (_ ∨ _))

namespace CompilerPackageQueryGraph

variable {graph next : CompilerPackageQueryGraph}

def state (graph : CompilerPackageQueryGraph) (id : PackageQueryId) : PackageQueryState :=
  (graph.node id).state

/-- The nodes that succeeded. -/
def succeeded (graph : CompilerPackageQueryGraph) : Finset ℕ :=
  (Finset.range graph.nodes.length).filter fun i => graph.state i = .succeeded

/-- The nodes whose queries ended. -/
def ended (graph : CompilerPackageQueryGraph) : Finset ℕ :=
  (Finset.range graph.nodes.length).filter fun i => (graph.state i).Ended

@[simp]
lemma length_setNode {id : PackageQueryId} {node : PackageQueryNode} :
    (graph.setNode id node).nodes.length = graph.nodes.length := by
  simp [setNode]

lemma node_setNode {id : PackageQueryId} {node : PackageQueryNode}
    (h : id < graph.nodes.length) (i : PackageQueryId) :
    (graph.setNode id node).node i = if i = id then node else graph.node i := by
  by_cases hi : i = id
  · subst hi
    rw [if_pos rfl, node_of_lt (by rwa [length_setNode])]
    exact List.getElem_set_self _
  · rw [if_neg hi]
    simp only [CompilerPackageQueryGraph.node, setNode]
    rw [List.getD_eq_getElem?_getD, List.getElem?_set_ne (Ne.symm hi),
      ← List.getD_eq_getElem?_getD]

/-- A call changes neither the packages nor the edges. -/
structure Keeps (graph next : CompilerPackageQueryGraph) : Prop where
  length_eq : next.nodes.length = graph.nodes.length
  initialized_eq : next.initialized = graph.initialized
  name_eq : ∀ i, (next.node i).packageName = (graph.node i).packageName
  dependencies_eq : ∀ i, (next.node i).dependencies = (graph.node i).dependencies
  dependents_eq : ∀ i, (next.node i).dependents = (graph.node i).dependents

lemma Keeps.refl (graph : CompilerPackageQueryGraph) : Keeps graph graph :=
  ⟨rfl, rfl, fun _ => rfl, fun _ => rfl, fun _ => rfl⟩

lemma Keeps.trans {last : CompilerPackageQueryGraph} (h : Keeps graph next)
    (h' : Keeps next last) : Keeps graph last :=
  ⟨h'.length_eq.trans h.length_eq, h'.initialized_eq.trans h.initialized_eq,
    fun i => (h'.name_eq i).trans (h.name_eq i),
    fun i => (h'.dependencies_eq i).trans (h.dependencies_eq i),
    fun i => (h'.dependents_eq i).trans (h.dependents_eq i)⟩

lemma Keeps.dependencies (h : Keeps graph next) : next.dependencies = graph.dependencies :=
  funext h.dependencies_eq

lemma Keeps.entry (h : Keeps graph next) (i : PackageQueryId) : next.entry i = graph.entry i := by
  rw [CompilerPackageQueryGraph.entry, h.name_eq, CompilerPackageQueryGraph.entry]

/-- A node whose counter and state change. -/
def update (graph : CompilerPackageQueryGraph) (id remaining : ℕ) (state : PackageQueryState)
    (ready : List ReadyEntry) (completed : ℕ) : CompilerPackageQueryGraph :=
  { graph.setNode id
      { graph.node id with remainingDependencies := remaining, state := state } with
    ready := ready
    completedCount := completed }

section Update

variable {id remaining completed : ℕ} {state : PackageQueryState} {ready : List ReadyEntry}

lemma node_update (h : id < graph.nodes.length) (i : ℕ) :
    (graph.update id remaining state ready completed).node i =
      if i = id then { graph.node id with remainingDependencies := remaining, state := state }
      else graph.node i :=
  node_setNode h i

lemma keeps_update (h : id < graph.nodes.length) :
    Keeps graph (graph.update id remaining state ready completed) := by
  refine ⟨length_setNode, rfl, fun i => ?_, fun i => ?_, fun i => ?_⟩
  all_goals
    rw [node_update h]
    by_cases hi : i = id
    · rw [if_pos hi, hi]
    · rw [if_neg hi]

lemma state_update (h : id < graph.nodes.length) (i : ℕ) :
    (graph.update id remaining state ready completed).state i =
      if i = id then state else graph.state i := by
  rw [CompilerPackageQueryGraph.state, node_update h]
  split <;> rfl

lemma remaining_update (h : id < graph.nodes.length) (i : ℕ) :
    ((graph.update id remaining state ready completed).node i).remainingDependencies =
      if i = id then remaining else (graph.node i).remainingDependencies := by
  rw [node_update h]
  split <;> rfl

end Update

/-- What holds between the calls. -/
structure Scheduled (graph : CompilerPackageQueryGraph) : Prop where
  size_le : graph.nodes.length ≤ 2 ^ 32 - 1
  linked : graph.Linked
  acyclic : Acyclic graph.dependencies
  initialized_eq : graph.initialized = true
  dependents_nodup : ∀ j < graph.nodes.length, (graph.node j).dependents.Nodup
  mem_dependents : ∀ j < graph.nodes.length, ∀ i, i ∈ (graph.node j).dependents ↔
    i < graph.nodes.length ∧ j ∈ graph.dependencies i
  ready_nodup : graph.ready.Nodup
  mem_ready : ∀ e, e ∈ graph.ready ↔
    ∃ i < graph.nodes.length, graph.state i = .ready ∧ e = graph.entry i
  completedCount_eq : graph.completedCount = graph.ended.card
  pending : ∀ i < graph.nodes.length, graph.state i = .pending →
    (graph.node i).remainingDependencies = missing graph.dependencies graph.succeeded i ∧
      0 < (graph.node i).remainingDependencies
  enabled : ∀ i < graph.nodes.length, graph.state i ≠ .pending → graph.state i ≠ .blocked →
    ∀ b ∈ graph.dependencies i, graph.state b = .succeeded
  blocked : (∀ i < graph.nodes.length, graph.state i ≠ .blocked) ∨
    ∀ i < graph.nodes.length, graph.state i ≠ .pending ∧ graph.state i ≠ .ready

/-- The parts of the invariant that a call has to care for. -/
lemma Scheduled.of_keeps (h : graph.Scheduled) (hkeeps : Keeps graph next)
    (hready_nodup : next.ready.Nodup)
    (hmem_ready : ∀ e, e ∈ next.ready ↔
      ∃ i < graph.nodes.length, next.state i = .ready ∧ e = graph.entry i)
    (hcompleted : next.completedCount = next.ended.card)
    (hpending : ∀ i < graph.nodes.length, next.state i = .pending →
      (next.node i).remainingDependencies = missing graph.dependencies next.succeeded i ∧
        0 < (next.node i).remainingDependencies)
    (henabled : ∀ i < graph.nodes.length, next.state i ≠ .pending → next.state i ≠ .blocked →
      ∀ b ∈ graph.dependencies i, next.state b = .succeeded)
    (hblocked : (∀ i < graph.nodes.length, next.state i ≠ .blocked) ∨
      ∀ i < graph.nodes.length, next.state i ≠ .pending ∧ next.state i ≠ .ready) :
    next.Scheduled := by
  have hlength := hkeeps.length_eq
  have hdependencies := hkeeps.dependencies
  constructor
  · rw [hlength]
    exact h.size_le
  · constructor
    · rw [hlength, hdependencies]
      exact h.linked.valid
    · rw [hlength, hdependencies]
      exact h.linked.nodup
  · rw [hdependencies]
    exact h.acyclic
  · rw [hkeeps.initialized_eq]
    exact h.initialized_eq
  · intro j hj
    rw [hkeeps.dependents_eq]
    exact h.dependents_nodup j (hlength ▸ hj)
  · intro j hj i
    rw [hkeeps.dependents_eq, hlength, hdependencies]
    exact h.mem_dependents j (hlength ▸ hj) i
  · exact hready_nodup
  · intro e
    rw [hlength, hmem_ready]
    simp only [hkeeps.entry]
  · exact hcompleted
  · rw [hlength, hdependencies]
    exact hpending
  · rw [hlength, hdependencies]
    exact henabled
  · rw [hlength]
    exact hblocked

lemma succeeded_congr (hlength : next.nodes.length = graph.nodes.length)
    (h : ∀ i, next.state i = .succeeded ↔ graph.state i = .succeeded) :
    next.succeeded = graph.succeeded := by
  rw [succeeded, succeeded, hlength]
  exact Finset.filter_congr fun i _ => h i

lemma ended_congr (hlength : next.nodes.length = graph.nodes.length)
    (h : ∀ i, (next.state i).Ended ↔ (graph.state i).Ended) : next.ended = graph.ended := by
  rw [ended, ended, hlength]
  exact Finset.filter_congr fun i _ => h i

lemma mem_succeeded {i : ℕ} :
    i ∈ graph.succeeded ↔ i < graph.nodes.length ∧ graph.state i = .succeeded := by
  rw [succeeded, Finset.mem_filter, Finset.mem_range]

lemma mem_ended {i : ℕ} :
    i ∈ graph.ended ↔ i < graph.nodes.length ∧ (graph.state i).Ended := by
  rw [ended, Finset.mem_filter, Finset.mem_range]

/-! ## Taking a node -/

lemma takeReadyQuery_eq (h : graph.Scheduled) :
    (graph.ready = [] ∧ graph.takeReadyQuery = (graph, none)) ∨
      ∃ id ready, graph.ready = graph.entry id :: ready ∧ id < graph.nodes.length ∧
        graph.state id = .ready ∧
        graph.takeReadyQuery = (graph.update id (graph.node id).remainingDependencies .running
          ready graph.completedCount, some id) := by
  cases hready : graph.ready with
  | nil =>
    left
    refine ⟨rfl, ?_⟩
    rw [takeReadyQuery, h.initialized_eq, hready]
  | cons first ready =>
    right
    obtain ⟨id, hid, hstate, rfl⟩ := (h.mem_ready first).1 (hready ▸ List.mem_cons_self)
    refine ⟨id, ready, rfl, hid, hstate, ?_⟩
    rw [takeReadyQuery, h.initialized_eq, hready]
    rfl

/-- A node that is taken, or whose query ends while nothing is pending on it. -/
lemma Scheduled.update (h : graph.Scheduled) {id : ℕ} {state : PackageQueryState}
    {ready : List ReadyEntry} {completed : ℕ} (hid : id < graph.nodes.length)
    (hfrom : graph.state id = .ready ∨ graph.state id = .running)
    (hto : state = .running ∨ state.Ended)
    (hfree : state = .succeeded → ∀ i < graph.nodes.length, graph.state i ≠ .pending)
    (hnodup : ready.Nodup)
    (hmem : ∀ e, e ∈ ready ↔
      ∃ i < graph.nodes.length, i ≠ id ∧ graph.state i = .ready ∧ e = graph.entry i)
    (hcompleted : completed = graph.completedCount + if state.Ended then 1 else 0) :
    (graph.update id (graph.node id).remainingDependencies state ready completed).Scheduled := by
  have hkeeps := @keeps_update graph id (graph.node id).remainingDependencies completed state ready
    hid
  have hstate := @state_update graph id (graph.node id).remainingDependencies completed state ready
    hid
  have hremaining := @remaining_update graph id (graph.node id).remainingDependencies completed
    state ready hid
  generalize hnext : graph.update id (graph.node id).remainingDependencies state ready completed =
    next at hkeeps hstate hremaining ⊢
  have hnot : state ≠ .pending ∧ state ≠ .ready ∧ state ≠ .blocked := by
    obtain rfl | rfl | rfl := hto <;> simp
  have hnotEnded : ¬(graph.state id).Ended := by
    rintro (hended | hended) <;> obtain hfrom | hfrom := hfrom <;> rw [hfrom] at hended <;>
      cases hended
  have hold : graph.state id ≠ .succeeded := fun hsucceeded => hnotEnded (.inl hsucceeded)
  have hready : next.ready = ready := hnext ▸ rfl
  have hcount : next.completedCount = completed := hnext ▸ rfl
  apply h.of_keeps hkeeps
  · rwa [hready]
  · intro e
    rw [hready, hmem]
    constructor
    · rintro ⟨i, hi, hne, hi', rfl⟩
      exact ⟨i, hi, by rw [hstate, if_neg hne, hi'], rfl⟩
    · rintro ⟨i, hi, hi', rfl⟩
      rw [hstate] at hi'
      split at hi'
      case isTrue => exact absurd hi' hnot.2.1
      case isFalse hne => exact ⟨i, hi, hne, hi', rfl⟩
  · rw [hcount, hcompleted, h.completedCount_eq]
    by_cases hended : state.Ended
    · have hinsert : next.ended = insert id graph.ended := by
        ext i
        rw [Finset.mem_insert, mem_ended, mem_ended, hkeeps.length_eq, hstate]
        by_cases hi : i = id
        · subst hi
          simp [hended, hid]
        · simp [hi]
      rw [if_pos hended, hinsert, Finset.card_insert_of_notMem]
      exact fun hmem => hnotEnded (mem_ended.1 hmem).2
    · rw [if_neg hended, Nat.add_zero, ended_congr hkeeps.length_eq]
      intro i
      rw [hstate]
      split
      case isTrue hi =>
        subst hi
        exact ⟨fun h => absurd h hended, fun h => absurd h hnotEnded⟩
      case isFalse => rfl
  · intro i hi hi'
    rw [hstate] at hi'
    split at hi'
    case isTrue => exact absurd hi' hnot.1
    case isFalse hne =>
      have hstill : next.succeeded = graph.succeeded := by
        apply succeeded_congr hkeeps.length_eq
        intro k
        rw [hstate]
        split
        case isTrue hk =>
          subst hk
          exact ⟨fun hsucceeded => absurd hi' (hfree hsucceeded i hi),
            fun hsucceeded => absurd hsucceeded hold⟩
        case isFalse => rfl
      rw [hremaining, if_neg hne, hstill]
      exact h.pending i hi hi'
  · intro i hi hpending hblocked b hb
    have hb' : graph.state b = .succeeded := by
      rw [hstate] at hpending hblocked
      split at hpending
      case isTrue hi' =>
        subst hi'
        apply h.enabled i hi _ _ b hb
        · obtain hfrom | hfrom := hfrom <;> rw [hfrom] <;> simp
        · obtain hfrom | hfrom := hfrom <;> rw [hfrom] <;> simp
      case isFalse hne =>
        rw [if_neg hne] at hblocked
        exact h.enabled i hi hpending hblocked b hb
    rw [hstate, if_neg]
    · exact hb'
    · rintro rfl
      exact hold hb'
  · refine h.blocked.imp (fun hall i hi => ?_) (fun hall i hi => ?_)
    · rw [hstate]
      split
      · exact hnot.2.2
      · exact hall i hi
    · rw [hstate]
      split
      · exact ⟨hnot.1, hnot.2.1⟩
      · exact hall i hi

/-- A node that is taken was ready. -/
lemma Scheduled.takeReadyQuery (h : graph.Scheduled) : graph.takeReadyQuery.1.Scheduled := by
  obtain ⟨-, heq⟩ | ⟨id, ready, hready, hid, hstate, heq⟩ := takeReadyQuery_eq h
  · rw [heq]
    exact h
  rw [heq]
  have hnodup : (graph.entry id :: ready).Nodup := hready ▸ h.ready_nodup
  obtain ⟨hnot, hnodup⟩ := List.nodup_cons.1 hnodup
  have hmem := h.mem_ready
  rw [hready] at hmem
  apply h.update hid (.inl hstate) (.inl rfl) (fun hne => nomatch hne) hnodup
  · intro e
    constructor
    · intro he
      obtain ⟨i, hi, hi', rfl⟩ := (hmem e).1 (List.mem_cons_of_mem _ he)
      exact ⟨i, hi, fun hsame => hnot (hsame ▸ he), hi', rfl⟩
    · rintro ⟨i, hi, hne, hi', rfl⟩
      obtain hsame | he := List.mem_cons.1 ((hmem _).2 ⟨i, hi, hi', rfl⟩)
      · exact absurd (Prod.mk.inj hsame).2 hne
      · exact he
  · rfl

/-! ## Reports -/

lemma valid_running_iff (h : graph.Scheduled) {id : ℕ} :
    ¬(graph.initialized = false ∨ graph.validId id = false ∨ (graph.node id).state ≠ .running) ↔
      id < graph.nodes.length ∧ graph.state id = .running := by
  simp only [h.initialized_eq, not_or, Bool.not_eq_false, validId_iff h.size_le, not_not, true_and,
    ne_eq, CompilerPackageQueryGraph.state]

/-- The entries of the ready nodes, of which a running one is none. -/
lemma Scheduled.mem_ready_of_running (h : graph.Scheduled) {id : ℕ}
    (hid : graph.state id = .running) (e : ReadyEntry) :
    e ∈ graph.ready ↔
      ∃ i < graph.nodes.length, i ≠ id ∧ graph.state i = .ready ∧ e = graph.entry i := by
  rw [h.mem_ready]
  constructor
  · rintro ⟨i, hi, hi', rfl⟩
    refine ⟨i, hi, ?_, hi', rfl⟩
    rintro rfl
    rw [hid] at hi'
    cases hi'
  · rintro ⟨i, hi, -, hi', rfl⟩
    exact ⟨i, hi, hi', rfl⟩

lemma markFailed_eq (h : graph.Scheduled) (id : ℕ) :
    (id < graph.nodes.length ∧ graph.state id = .running ∧
        graph.markFailed id = (graph.complete id .failed, .ok ())) ∨
      ¬(id < graph.nodes.length ∧ graph.state id = .running) ∧ ∃ message,
        graph.markFailed id = (graph, .error message) := by
  rw [← valid_running_iff h]
  unfold markFailed
  split
  case isTrue hrefused => exact .inr ⟨not_not.2 hrefused, _, rfl⟩
  case isFalse haccepted =>
    obtain ⟨hid, hrunning⟩ := (valid_running_iff h).1 haccepted
    exact .inl ⟨hid, hrunning, rfl⟩

lemma Scheduled.markFailed (h : graph.Scheduled) (id : ℕ) : (graph.markFailed id).1.Scheduled := by
  obtain ⟨hid, hrunning, heq⟩ | ⟨-, message, heq⟩ := markFailed_eq h id
  · rw [heq]
    exact h.update hid (.inr hrunning) (.inr (.inr rfl)) (fun hne => nomatch hne) h.ready_nodup
      (h.mem_ready_of_running hrunning) rfl
  · rw [heq]
    exact h

/-- The walk over dependents that are all pending. -/
lemma release_eq {all : List PackageQueryId} (hnodup : all.Nodup)
    (hall : ∀ i ∈ all, i < graph.nodes.length ∧ graph.state i = .pending ∧
      0 < (graph.node i).remainingDependencies) :
    ∃ last, graph.release all = (last, .ok ()) ∧ Keeps graph last ∧
      last.completedCount = graph.completedCount ∧
      (∀ i, last.state i = if i ∈ all ∧ (graph.node i).remainingDependencies = 1 then .ready
        else graph.state i) ∧
      (∀ i, (last.node i).remainingDependencies =
        (graph.node i).remainingDependencies - if i ∈ all then 1 else 0) ∧
      (∀ e, e ∈ last.ready ↔ e ∈ graph.ready ∨
        ∃ i ∈ all, (graph.node i).remainingDependencies = 1 ∧ e = graph.entry i) ∧
      (graph.ready.Nodup → last.ready.Nodup) := by
  induction all generalizing graph with
  | nil => exact ⟨graph, rfl, Keeps.refl graph, rfl, by simp, by simp, by simp, id⟩
  | cons id all ih =>
    obtain ⟨hid, hpending, hpos⟩ := hall id List.mem_cons_self
    obtain ⟨hnot, hnodup⟩ := List.nodup_cons.1 hnodup
    have hne : ∀ i ∈ all, i ≠ id := fun i hi hsame => hnot (hsame ▸ hi)
    have hguard : ¬((graph.node id).state ≠ .pending ∨
        (graph.node id).remainingDependencies = 0) := by
      rw [not_or, not_not]
      exact ⟨hpending, Nat.ne_of_gt hpos⟩
    -- the node after its counter went down
    obtain ⟨next, hnext, hkeeps, hcompleted, hstate, hremaining, hready, hreadyNodup⟩ :
        ∃ next, graph.release (id :: all) = next.release all ∧ Keeps graph next ∧
          next.completedCount = graph.completedCount ∧
          (∀ i, next.state i = if i = id ∧ (graph.node id).remainingDependencies = 1 then .ready
            else graph.state i) ∧
          (∀ i, (next.node i).remainingDependencies =
            if i = id then (graph.node id).remainingDependencies - 1
            else (graph.node i).remainingDependencies) ∧
          (∀ e, e ∈ next.ready ↔ e ∈ graph.ready ∨
            (graph.node id).remainingDependencies = 1 ∧ e = graph.entry id) ∧
          (graph.ready.Nodup → next.ready.Nodup) := by
      rw [release, if_neg hguard]
      by_cases hlast : (graph.node id).remainingDependencies - 1 = 0
      · have hone : (graph.node id).remainingDependencies = 1 := by omega
        refine ⟨graph.update id ((graph.node id).remainingDependencies - 1) .ready
          (emplace (graph.entry id) graph.ready) graph.completedCount, if_pos hlast,
          keeps_update hid, rfl, fun i => ?_, fun i => remaining_update hid i, fun e => ?_,
          nodup_emplace⟩
        · rw [state_update hid]
          simp [hone]
        · refine mem_emplace.trans ?_
          simp [hone, or_comm]
      · have hone : (graph.node id).remainingDependencies ≠ 1 := by omega
        refine ⟨graph.update id ((graph.node id).remainingDependencies - 1) .pending graph.ready
          graph.completedCount, ?_, keeps_update hid, rfl, fun i => ?_,
          fun i => remaining_update hid i, fun e => ?_, fun h => h⟩
        · rw [if_neg hlast, update, ← show (graph.node id).state = .pending from hpending]
          rfl
        · rw [state_update hid]
          split
          case isTrue hi => rw [hi, if_neg fun h => hone h.2, hpending]
          case isFalse hi => rw [if_neg fun h => hi h.1]
        · simp [hone, update]
    have hall' : ∀ i ∈ all, i < next.nodes.length ∧ next.state i = .pending ∧
        0 < (next.node i).remainingDependencies := by
      intro i hi
      obtain ⟨hi', hipending, hipos⟩ := hall i (.tail _ hi)
      rw [hkeeps.length_eq, hstate, if_neg fun h => hne i hi h.1, hremaining, if_neg (hne i hi)]
      exact ⟨hi', hipending, hipos⟩
    obtain ⟨last, hrelease, hkeeps', hcompleted', hstate', hremaining', hready', hreadyNodup'⟩ :=
      ih hnodup hall'
    refine ⟨last, hnext.trans hrelease, hkeeps.trans hkeeps', hcompleted'.trans hcompleted,
      fun i => ?_, fun i => ?_, fun e => ?_, fun h => hreadyNodup' (hreadyNodup h)⟩
    · rw [hstate', hstate, hremaining]
      by_cases hi : i = id
      · subst hi
        simp [hnot]
      · simp [hi]
    · rw [hremaining', hremaining]
      by_cases hi : i = id
      · subst hi
        simp [hnot]
      · simp [hi]
    · rw [hready', hready]
      constructor
      · rintro ((he | ⟨hone, rfl⟩) | ⟨i, hi, hone, rfl⟩)
        · exact .inl he
        · exact .inr ⟨id, List.mem_cons_self, hone, rfl⟩
        · rw [hremaining, if_neg (hne i hi)] at hone
          exact .inr ⟨i, .tail _ hi, hone, hkeeps.entry i⟩
      · rintro (he | ⟨i, hi, hone, rfl⟩)
        · exact .inl (.inl he)
        · obtain rfl | hi := List.mem_cons.1 hi
          · exact .inl (.inr ⟨hone, rfl⟩)
          · refine .inr ⟨i, hi, ?_, (hkeeps.entry i).symm⟩
            rwa [hremaining, if_neg (hne i hi)]

/-- The nodes that wait for a running one are pending or blocked. -/
lemma Scheduled.waiting (h : graph.Scheduled) {id i : ℕ} (hid : id < graph.nodes.length)
    (hrunning : graph.state id = .running) (hi : i ∈ (graph.node id).dependents) :
    i < graph.nodes.length ∧ id ∈ graph.dependencies i ∧
      (graph.state i = .pending ∨ graph.state i = .blocked) := by
  obtain ⟨hlt, hdepends⟩ := (h.mem_dependents id hid i).1 hi
  refine ⟨hlt, hdepends, ?_⟩
  by_contra hneither
  rw [not_or] at hneither
  have hsucceeded := h.enabled i hlt hneither.1 hneither.2 id hdepends
  rw [hrunning] at hsucceeded
  cases hsucceeded

/-- A success that is reported while nothing is blocked. -/
lemma Scheduled.release (h : graph.Scheduled) {id : ℕ} (hid : id < graph.nodes.length)
    (hrunning : graph.state id = .running)
    (hfree : ∀ i < graph.nodes.length, graph.state i ≠ .blocked) :
    ∃ last, (graph.complete id .succeeded).release (graph.node id).dependents = (last, .ok ()) ∧
      last.Scheduled ∧ Keeps graph last ∧
      ∀ i, last.state i = if i = id then .succeeded
        else if i ∈ (graph.node id).dependents ∧ (graph.node i).remainingDependencies = 1 then .ready
        else graph.state i := by
  have hkeeps := @keeps_update graph id (graph.node id).remainingDependencies
    (graph.completedCount + 1) .succeeded graph.ready hid
  have hstate := @state_update graph id (graph.node id).remainingDependencies
    (graph.completedCount + 1) .succeeded graph.ready hid
  have hremaining := @remaining_update graph id (graph.node id).remainingDependencies
    (graph.completedCount + 1) .succeeded graph.ready hid
  change Keeps graph (graph.complete id .succeeded) at hkeeps
  change ∀ i, (graph.complete id .succeeded).state i = _ at hstate
  change ∀ i, ((graph.complete id .succeeded).node i).remainingDependencies = _ at hremaining
  have hsame : ∀ i, ((graph.complete id .succeeded).node i).remainingDependencies =
      (graph.node i).remainingDependencies := by
    intro i
    rw [hremaining]
    split
    case isTrue hi => rw [hi]
    case isFalse => rfl
  have hwaiting : ∀ i ∈ (graph.node id).dependents, i < graph.nodes.length ∧
      id ∈ graph.dependencies i ∧ i ≠ id ∧ graph.state i = .pending := by
    intro i hi
    obtain ⟨hlt, hdepends, hpending⟩ := h.waiting hid hrunning hi
    have hpending := hpending.resolve_right (hfree i hlt)
    refine ⟨hlt, hdepends, ?_, hpending⟩
    rintro rfl
    rw [hrunning] at hpending
    cases hpending
  obtain ⟨last, hrelease, hkeeps', hcompleted', hstate', hremaining', hready', hreadyNodup'⟩ :=
    @release_eq (graph.complete id .succeeded) (graph.node id).dependents
      (h.dependents_nodup id hid) (by
        intro i hi
        obtain ⟨hlt, -, hne, hpending⟩ := hwaiting i hi
        rw [hkeeps.length_eq, hstate, if_neg hne, hsame]
        exact ⟨hlt, hpending, (h.pending i hlt hpending).2⟩)
  have hlast : ∀ i, last.state i = if i = id then .succeeded
      else if i ∈ (graph.node id).dependents ∧ (graph.node i).remainingDependencies = 1 then .ready
      else graph.state i := by
    intro i
    rw [hstate', hstate, hsame]
    by_cases hi : i = id
    · rw [if_pos hi, if_pos hi, if_neg]
      exact fun hmem => (hwaiting i hmem.1).2.2.1 hi
    · rw [if_neg hi, if_neg hi]
  have hall := hkeeps.trans hkeeps'
  have hnotSucceeded : id ∉ graph.succeeded := by
    rw [mem_succeeded, hrunning]
    simp
  have hsucceeded : last.succeeded = insert id graph.succeeded := by
    ext i
    rw [Finset.mem_insert, mem_succeeded, mem_succeeded, hall.length_eq, hlast]
    by_cases hi : i = id
    · subst hi
      simp [hid]
    · rw [if_neg hi]
      split
      case isTrue hmem => simp [hi, (hwaiting i hmem.1).2.2.2]
      case isFalse => simp [hi]
  have hcount : ∀ i < graph.nodes.length, missing graph.dependencies graph.succeeded i =
      missing graph.dependencies last.succeeded i +
        if i ∈ (graph.node id).dependents then 1 else 0 := by
    intro i hi
    rw [hsucceeded, missing_insert (h.linked.nodup i hi) hnotSucceeded]
    simp only [h.mem_dependents id hid i, hi, true_and]
  have hstill : ∀ b, graph.state b = .succeeded → last.state b = .succeeded := by
    intro b hb
    rw [hlast]
    split
    · rfl
    · rw [if_neg, hb]
      intro hmem
      rw [(hwaiting b hmem.1).2.2.2] at hb
      cases hb
  refine ⟨last, hrelease, ?_, hall, hlast⟩
  apply h.of_keeps hall
  · exact hreadyNodup' h.ready_nodup
  · intro e
    rw [hready']
    constructor
    · rintro (he | ⟨i, hi, hone, rfl⟩)
      · obtain ⟨i, hi, hne, hi', rfl⟩ := (h.mem_ready_of_running hrunning e).1 he
        refine ⟨i, hi, ?_, rfl⟩
        rw [hlast, if_neg hne]
        split
        · rfl
        · exact hi'
      · obtain ⟨hlt, -, hne, -⟩ := hwaiting i hi
        rw [hsame] at hone
        exact ⟨i, hlt, by rw [hlast, if_neg hne, if_pos ⟨hi, hone⟩], hkeeps.entry i⟩
    · rintro ⟨i, hi, hi', rfl⟩
      rw [hlast] at hi'
      split at hi'
      case isTrue => cases hi'
      case isFalse hne =>
        split at hi'
        case isTrue hmem =>
          refine .inr ⟨i, hmem.1, ?_, (hkeeps.entry i).symm⟩
          rw [hsame]
          exact hmem.2
        case isFalse => exact .inl ((h.mem_ready _).2 ⟨i, hi, hi', rfl⟩)
  · have hended : last.ended = insert id graph.ended := by
      ext i
      rw [Finset.mem_insert, mem_ended, mem_ended, hall.length_eq, hlast]
      by_cases hi : i = id
      · subst hi
        simp [hid, PackageQueryState.Ended]
      · rw [if_neg hi]
        split
        case isTrue hmem =>
          simp [hi, (hwaiting i hmem.1).2.2.2, PackageQueryState.Ended]
        case isFalse => simp [hi]
    rw [hcompleted', hended, Finset.card_insert_of_notMem, ← h.completedCount_eq]
    · rfl
    · rw [mem_ended, hrunning]
      simp [PackageQueryState.Ended]
  · intro i hi hi'
    rw [hlast] at hi'
    split at hi'
    case isTrue => cases hi'
    case isFalse hne =>
      split at hi'
      case isTrue => cases hi'
      case isFalse hmem =>
        obtain ⟨hmissing, hpos⟩ := h.pending i hi hi'
        have hcounti := hcount i hi
        rw [hremaining', hsame]
        by_cases hdepends : i ∈ (graph.node id).dependents
        · have hone : (graph.node i).remainingDependencies ≠ 1 := fun hone =>
            hmem ⟨hdepends, hone⟩
          rw [if_pos hdepends] at hcounti ⊢
          omega
        · rw [if_neg hdepends] at hcounti ⊢
          omega
  · intro i hi hpending hblocked b hb
    rw [hlast] at hpending hblocked
    by_cases hne : i = id
    · subst hne
      exact hstill b (h.enabled i hi (by rw [hrunning]; simp) (by rw [hrunning]; simp) b hb)
    · rw [if_neg hne] at hpending hblocked
      by_cases hmem : i ∈ (graph.node id).dependents ∧
          (graph.node i).remainingDependencies = 1
      · have hcounti := hcount i hi
        have hzero : missing graph.dependencies last.succeeded i = 0 := by
          obtain ⟨hmissing, -⟩ := h.pending i hi (hwaiting i hmem.1).2.2.2
          rw [if_pos hmem.1] at hcounti
          omega
        exact (mem_succeeded.1 (missing_eq_zero_iff.1 hzero b hb)).2
      · rw [if_neg hmem] at hpending hblocked
        exact hstill b (h.enabled i hi hpending hblocked b hb)
  · left
    intro i hi
    rw [hlast]
    split
    · simp
    · split
      · simp
      · exact hfree i hi

/-- What a success does: it is refused, or it is recorded; and it is refused after it was recorded
when a node that waits for it is blocked. -/
lemma markSucceeded_eq (h : graph.Scheduled) (id : ℕ) :
    (¬(id < graph.nodes.length ∧ graph.state id = .running) ∧ ∃ message,
        graph.markSucceeded id = (graph, .error message)) ∨
      (id < graph.nodes.length ∧ graph.state id = .running ∧
        (∀ i ∈ (graph.node id).dependents, graph.state i ≠ .blocked) ∧
        ∃ last, graph.markSucceeded id = (last, .ok ()) ∧ last.Scheduled ∧ Keeps graph last ∧
          ∀ i, last.state i = if i = id then .succeeded
            else if i ∈ (graph.node id).dependents ∧
              (graph.node i).remainingDependencies = 1 then .ready
            else graph.state i) ∨
      (id < graph.nodes.length ∧ graph.state id = .running ∧
        (∃ i ∈ (graph.node id).dependents, graph.state i = .blocked) ∧
        (graph.complete id .succeeded).Scheduled ∧ ∃ message,
          graph.markSucceeded id = (graph.complete id .succeeded, .error message)) := by
  by_cases haccepted : id < graph.nodes.length ∧ graph.state id = .running
  · obtain ⟨hid, hrunning⟩ := haccepted
    have heq : graph.markSucceeded id =
        (graph.complete id .succeeded).release (graph.node id).dependents :=
      if_neg ((valid_running_iff h).2 ⟨hid, hrunning⟩)
    right
    obtain hfree | hblocked := h.blocked
    · left
      obtain ⟨last, hrelease, hlast, hkeeps, hstate⟩ := h.release hid hrunning hfree
      exact ⟨hid, hrunning, fun i hi => hfree i (h.waiting hid hrunning hi).1, last,
        heq.trans hrelease, hlast, hkeeps, hstate⟩
    · -- nothing is pending any more, so the walk stops at the first dependent
      have hscheduled : (graph.complete id .succeeded).Scheduled :=
        h.update hid (.inr hrunning) (.inr (.inl rfl)) (fun _ i hi => (hblocked i hi).1)
          h.ready_nodup (h.mem_ready_of_running hrunning) rfl
      have hcomplete : ∀ i, (graph.complete id .succeeded).state i =
          if i = id then .succeeded else graph.state i := fun i => state_update hid i
      cases hdependents : (graph.node id).dependents with
      | nil =>
        left
        have hrelease : graph.markSucceeded id = (graph.complete id .succeeded, .ok ()) := by
          rw [heq, hdependents]
          rfl
        refine ⟨hid, hrunning, fun i hi => absurd hi List.not_mem_nil, _, hrelease, hscheduled,
          keeps_update hid, fun i => ?_⟩
        rw [hcomplete]
        simp
      | cons first rest =>
        right
        have hmem : first ∈ (graph.node id).dependents := hdependents ▸ List.mem_cons_self
        obtain ⟨hlt, -, hwaiting⟩ := h.waiting hid hrunning hmem
        have hfirst := hwaiting.resolve_left (hblocked first hlt).1
        have hne : first ≠ id := by
          rintro rfl
          rw [hrunning] at hfirst
          cases hfirst
        refine ⟨hid, hrunning, ⟨first, List.mem_cons_self, hfirst⟩, hscheduled,
          "compiler package query graph has an invalid dependency state", ?_⟩
        rw [heq, hdependents, CompilerPackageQueryGraph.release, if_pos]
        left
        change (graph.complete id .succeeded).state first ≠ .pending
        rw [hcomplete, if_neg hne, hfirst]
        simp
  · left
    refine ⟨haccepted, "compiler package query graph rejected an invalid success transition", ?_⟩
    rw [← valid_running_iff h, not_not] at haccepted
    exact if_pos haccepted

lemma Scheduled.markSucceeded (h : graph.Scheduled) (id : ℕ) :
    (graph.markSucceeded id).1.Scheduled := by
  obtain ⟨-, message, heq⟩ | ⟨-, -, -, last, heq, hlast, -⟩ | ⟨-, -, -, hlast, message, heq⟩ :=
    markSucceeded_eq h id
  · rw [heq]
    exact h
  · rw [heq]
    exact hlast
  · rw [heq]
    exact hlast

/-! ## Blocking -/

lemma node_blockUnfinished {i : ℕ} (hi : i < graph.nodes.length) :
    graph.blockUnfinished.node i = block (graph.node i) := by
  rw [node_of_lt (by simpa [blockUnfinished] using hi), node_of_lt hi]
  exact List.getElem_map _

lemma node_blockUnfinished_of_not_lt {i : ℕ} (hi : ¬i < graph.nodes.length) :
    graph.blockUnfinished.node i = graph.node i := by
  have hlength : graph.blockUnfinished.nodes.length = graph.nodes.length := List.length_map _
  rw [node, node, List.getD_eq_default _ _ (Nat.not_lt.1 hi),
    List.getD_eq_default _ _ (hlength ▸ Nat.not_lt.1 hi)]

lemma block_keeps (node : PackageQueryNode) :
    (block node).packageName = node.packageName ∧
      (block node).dependencies = node.dependencies ∧
      (block node).dependents = node.dependents := by
  unfold block
  split <;> exact ⟨rfl, rfl, rfl⟩

lemma keeps_blockUnfinished (graph : CompilerPackageQueryGraph) :
    Keeps graph graph.blockUnfinished := by
  refine ⟨List.length_map _, rfl, fun i => ?_, fun i => ?_, fun i => ?_⟩
  all_goals
    by_cases hi : i < graph.nodes.length
    · rw [node_blockUnfinished hi]
      obtain ⟨hname, hdependencies, hdependents⟩ := block_keeps (graph.node i)
      assumption
    · rw [node_blockUnfinished_of_not_lt hi]

lemma state_blockUnfinished {i : ℕ} (hi : i < graph.nodes.length) :
    graph.blockUnfinished.state i =
      if graph.state i = .pending ∨ graph.state i = .ready then .blocked else graph.state i := by
  rw [state, node_blockUnfinished hi, block]
  split
  case isTrue h => exact (if_pos h).symm
  case isFalse h => exact (if_neg h).symm

lemma Scheduled.blockUnfinished (h : graph.Scheduled) : graph.blockUnfinished.Scheduled := by
  have hkeeps := keeps_blockUnfinished graph
  have hsucceeded : ∀ i < graph.nodes.length,
      graph.state i = .succeeded → graph.blockUnfinished.state i = .succeeded := by
    intro i hi hstate
    rw [state_blockUnfinished hi, hstate]
    rfl
  apply h.of_keeps hkeeps
  · exact List.nodup_nil
  · intro e
    constructor
    · exact fun he => absurd he List.not_mem_nil
    · rintro ⟨i, hi, hstate, rfl⟩
      rw [state_blockUnfinished hi] at hstate
      split at hstate
      case isTrue => cases hstate
      case isFalse hnot => exact absurd (.inr hstate) hnot
  · have hended : graph.blockUnfinished.ended = graph.ended := by
      ext i
      rw [mem_ended, mem_ended, hkeeps.length_eq]
      refine and_congr_right fun hi => ?_
      rw [state_blockUnfinished hi]
      split
      case isTrue hunfinished =>
        obtain hstate | hstate := hunfinished <;> simp [hstate, PackageQueryState.Ended]
      case isFalse => rfl
    rw [hended]
    exact h.completedCount_eq
  · intro i hi hstate
    rw [state_blockUnfinished hi] at hstate
    split at hstate
    case isTrue => cases hstate
    case isFalse hnot => exact absurd (.inl hstate) hnot
  · intro i hi hpending hblocked b hb
    rw [state_blockUnfinished hi] at hpending hblocked
    split at hblocked
    case isTrue => exact absurd rfl hblocked
    case isFalse hnot =>
      rw [if_neg hnot] at hpending
      exact hsucceeded b (h.linked.valid i hi b hb).1 (h.enabled i hi hpending hblocked b hb)
  · right
    intro i hi
    rw [state_blockUnfinished hi]
    split
    · simp
    case isFalse hnot =>
      rw [not_or] at hnot
      exact hnot

/-- Every call keeps the invariant. -/
theorem Scheduled.perform (h : graph.Scheduled) (call : Call) :
    (graph.perform call).1.Scheduled := by
  cases call with
  | takeReadyQuery => exact h.takeReadyQuery
  | markSucceeded id => exact h.markSucceeded id
  | markFailed id => exact h.markFailed id
  | blockUnfinished => exact h.blockUnfinished

/-! ## The first state -/

/-- The nodes that nothing is missing for become ready. -/
lemma makeReady_eq {all : List PackageQueryId} (hnodup : all.Nodup)
    (hall : ∀ i ∈ all, i < graph.nodes.length) :
    Keeps graph (graph.makeReady all) ∧
      (graph.makeReady all).completedCount = graph.completedCount ∧
      (∀ i, (graph.makeReady all).state i =
        if i ∈ all ∧ (graph.node i).remainingDependencies = 0 then .ready else graph.state i) ∧
      (∀ i, ((graph.makeReady all).node i).remainingDependencies =
        (graph.node i).remainingDependencies) ∧
      (∀ e, e ∈ (graph.makeReady all).ready ↔ e ∈ graph.ready ∨
        ∃ i ∈ all, (graph.node i).remainingDependencies = 0 ∧ e = graph.entry i) ∧
      (graph.ready.Nodup → (graph.makeReady all).ready.Nodup) := by
  induction all generalizing graph with
  | nil => exact ⟨Keeps.refl graph, rfl, by simp [makeReady], fun _ => rfl, by simp [makeReady], id⟩
  | cons id all ih =>
    obtain ⟨hnot, hnodup⟩ := List.nodup_cons.1 hnodup
    have hid := hall id List.mem_cons_self
    have hrest : ∀ i ∈ all, i < graph.nodes.length := fun i hi => hall i (.tail _ hi)
    by_cases hzero : (graph.node id).remainingDependencies = 0
    · have hstep : graph.makeReady (id :: all) =
          (graph.update id (graph.node id).remainingDependencies .ready
            (emplace (graph.entry id) graph.ready) graph.completedCount).makeReady all :=
        if_pos hzero
      have hkeeps := @keeps_update graph id (graph.node id).remainingDependencies
        graph.completedCount .ready (emplace (graph.entry id) graph.ready) hid
      have hstate := @state_update graph id (graph.node id).remainingDependencies
        graph.completedCount .ready (emplace (graph.entry id) graph.ready) hid
      have hremaining := @remaining_update graph id (graph.node id).remainingDependencies
        graph.completedCount .ready (emplace (graph.entry id) graph.ready) hid
      have hsame : ∀ i, ((graph.update id (graph.node id).remainingDependencies .ready
          (emplace (graph.entry id) graph.ready) graph.completedCount).node
            i).remainingDependencies = (graph.node i).remainingDependencies := by
        intro i
        rw [hremaining]
        split
        case isTrue hi => rw [hi]
        case isFalse => rfl
      obtain ⟨hkeeps', hcompleted', hstate', hremaining', hready', hnodup'⟩ :=
        @ih (graph.update id (graph.node id).remainingDependencies .ready
          (emplace (graph.entry id) graph.ready) graph.completedCount) hnodup
          (fun i hi => by rw [hkeeps.length_eq]; exact hrest i hi)
      rw [hstep]
      refine ⟨hkeeps.trans hkeeps', hcompleted', fun i => ?_, fun i => (hremaining' i).trans (hsame i),
        fun e => ?_, fun h => hnodup' (nodup_emplace h)⟩
      · rw [hstate', hstate, hsame]
        by_cases hi : i = id
        · subst hi
          simp [hzero]
        · simp [hi]
      · rw [hready']
        constructor
        · rintro (he | ⟨i, hi, hi', rfl⟩)
          · obtain rfl | he := mem_emplace.1 he
            · exact .inr ⟨id, List.mem_cons_self, hzero, rfl⟩
            · exact .inl he
          · rw [hsame] at hi'
            exact .inr ⟨i, .tail _ hi, hi', hkeeps.entry i⟩
        · rintro (he | ⟨i, hi, hi', rfl⟩)
          · exact .inl (mem_emplace.2 (.inr he))
          · obtain rfl | hi := List.mem_cons.1 hi
            · exact .inl (mem_emplace.2 (.inl rfl))
            · exact .inr ⟨i, hi, (hsame i).trans hi', (hkeeps.entry i).symm⟩
    · have hstep : graph.makeReady (id :: all) = graph.makeReady all := if_neg hzero
      obtain ⟨hkeeps', hcompleted', hstate', hremaining', hready', hnodup'⟩ := ih hnodup hrest
      rw [hstep]
      refine ⟨hkeeps', hcompleted', fun i => ?_, hremaining', fun e => ?_, hnodup'⟩
      · rw [hstate']
        by_cases hi : i = id
        · subst hi
          simp [hzero]
        · simp [hi]
      · rw [hready']
        constructor
        · rintro (he | ⟨i, hi, hi', rfl⟩)
          · exact .inl he
          · exact .inr ⟨i, .tail _ hi, hi', rfl⟩
        · rintro (he | ⟨i, hi, hi', rfl⟩)
          · exact .inl he
          · obtain rfl | hi := List.mem_cons.1 hi
            · exact absurd hi' hzero
            · exact .inr ⟨i, hi, hi', rfl⟩

/-- The nodes with their reverse edges, before any is ready. -/
def connected (graph : CompilerPackageQueryGraph) : CompilerPackageQueryGraph :=
  { nodes := connect (graph.nodes.map reset) }

lemma length_connected (graph : CompilerPackageQueryGraph) :
    graph.connected.nodes.length = graph.nodes.length := by
  simp [connected, connect]

lemma node_connected {i : ℕ} (hi : i < graph.nodes.length) :
    graph.connected.node i =
      { packageName := (graph.node i).packageName
        dependencies := graph.dependencies i
        dependents := (dependentsOf (graph.nodes.map reset) 0
          (List.replicate graph.nodes.length [])).getD i []
        remainingDependencies := (graph.dependencies i).length
        state := .pending } := by
  rw [node_of_lt (by rwa [length_connected])]
  simp only [connected, connect, List.getElem_zipWith, List.getElem_map, List.length_map, reset,
    dependencies, node_of_lt hi]
  rw [List.getD_eq_getElem _ _ (by simpa using hi)]

lemma dependencies_connected (graph : CompilerPackageQueryGraph) :
    graph.connected.dependencies = graph.dependencies := by
  funext i
  by_cases hi : i < graph.nodes.length
  · rw [dependencies, node_connected hi]
  · rw [dependencies_of_not_lt hi, dependencies_of_not_lt (by rwa [length_connected])]

lemma initializeGraph_eq_ok {start : CompilerPackageQueryGraph}
    (h : graph.initializeGraph = (start, .ok ())) :
    graph.verify = .ok () ∧
      start = { graph.connected.makeReady (List.range graph.nodes.length) with
        initialized := true } := by
  unfold initializeGraph at h
  split at h
  case isTrue => cases h
  case isFalse =>
    split at h
    case h_1 => cases h
    case h_2 hverify =>
      cases h
      exact ⟨hverify, rfl⟩

/-- The state after `initialize`: nothing was taken yet. -/
theorem scheduled_initializeGraph {start : CompilerPackageQueryGraph}
    (h : graph.initializeGraph = (start, .ok ())) :
    start.Scheduled ∧ start.nodes.length = graph.nodes.length ∧
      start.dependencies = graph.dependencies ∧
      ∀ i < graph.nodes.length, start.state i = .pending ∨ start.state i = .ready := by
  obtain ⟨hverify, rfl⟩ := initializeGraph_eq_ok h
  obtain ⟨hsize, hformed⟩ := verify_eq_ok_iff.1 hverify
  obtain ⟨hkeeps, hcompleted, hstate, hremaining, hready, hnodup⟩ :=
    @makeReady_eq graph.connected (List.range graph.nodes.length) List.nodup_range
      (fun i hi => by rw [length_connected]; exact List.mem_range.1 hi)
  generalize hlast : graph.connected.makeReady (List.range graph.nodes.length) = last at *
  have hlength := hkeeps.length_eq.trans (length_connected graph)
  have hdependencies := hkeeps.dependencies.trans (dependencies_connected graph)
  have hlinked : graph.Linked := ⟨hformed.valid, hformed.nodup⟩
  -- the states, as the graph tells them
  have hstates : ∀ i < graph.nodes.length, last.state i =
      if (graph.dependencies i).length = 0 then .ready else .pending := by
    intro i hi
    rw [hstate, state, node_connected hi]
    simp [List.mem_range.2 hi]
  have hpendingReady : ∀ i < graph.nodes.length,
      last.state i = .pending ∨ last.state i = .ready := by
    intro i hi
    rw [hstates i hi]
    split
    · exact .inr rfl
    · exact .inl rfl
  have hnone : ∀ i < graph.nodes.length, last.state i ≠ .succeeded ∧
      ¬(last.state i).Ended ∧ last.state i ≠ .blocked := by
    intro i hi
    obtain hi' | hi' := hpendingReady i hi <;> simp [hi', PackageQueryState.Ended]
  have hsucceeded : last.succeeded = ∅ := by
    rw [Finset.eq_empty_iff_forall_notMem]
    intro i hi
    obtain ⟨hlt, hi'⟩ := mem_succeeded.1 hi
    exact (hnone i (hlength ▸ hlt)).1 hi'
  have hended : last.ended = ∅ := by
    rw [Finset.eq_empty_iff_forall_notMem]
    intro i hi
    obtain ⟨hlt, hi'⟩ := mem_ended.1 hi
    exact (hnone i (hlength ▸ hlt)).2.1 hi'
  -- the reverse edges come from the nodes after their reset
  let cleared : CompilerPackageQueryGraph := { nodes := graph.nodes.map reset }
  have hcleared : cleared.dependencies = graph.dependencies := by
    funext i
    by_cases hi : i < graph.nodes.length
    · rw [dependencies, dependencies, node_of_lt hi, node_of_lt (by simpa [cleared] using hi)]
      simp [cleared, reset]
    · rw [dependencies_of_not_lt hi, dependencies_of_not_lt (by simpa [cleared] using hi)]
  have hclearedLength : cleared.nodes.length = graph.nodes.length := List.length_map _
  have hclearedNodup : ∀ id < cleared.nodes.length, (cleared.dependencies id).Nodup := by
    rw [hclearedLength, hcleared]
    exact hlinked.nodup
  have hdependents : ∀ j < graph.nodes.length, (last.node j).dependents =
      (dependentsOf cleared.nodes 0 (List.replicate cleared.nodes.length [])).getD j [] := by
    intro j hj
    rw [hkeeps.dependents_eq, node_connected hj, hclearedLength]
  refine ⟨?_, hlength, hdependencies, hpendingReady⟩
  constructor
  · exact hlength ▸ hsize
  · constructor
    · intro id hid dependency hmem
      have hid : id < graph.nodes.length := hlength ▸ hid
      have hmem : dependency ∈ graph.dependencies id := hdependencies ▸ hmem
      exact ⟨hlength.symm ▸ (hlinked.valid id hid dependency hmem).1,
        (hlinked.valid id hid dependency hmem).2⟩
    · intro id hid
      have hid : id < graph.nodes.length := hlength ▸ hid
      exact hdependencies.symm ▸ hlinked.nodup id hid
  · exact hdependencies.symm ▸ hformed.acyclic
  · rfl
  · intro j hj
    have hj : j < graph.nodes.length := hlength ▸ hj
    exact (hdependents j hj).symm ▸ nodup_dependents hclearedNodup (hclearedLength ▸ hj)
  · intro j hj i
    have hj : j < graph.nodes.length := hlength ▸ hj
    have hmem := @mem_dependents cleared i j hclearedNodup (hclearedLength ▸ hj)
    rw [← hdependents j hj, hclearedLength, hcleared, ← hlength, ← hdependencies] at hmem
    exact hmem
  · exact hnodup List.nodup_nil
  · intro e
    refine (hready e).trans ?_
    constructor
    · rintro (he | ⟨i, hi, hzero, rfl⟩)
      · exact absurd he List.not_mem_nil
      · have hi := List.mem_range.1 hi
        rw [node_connected hi] at hzero
        refine ⟨i, hlength.symm ▸ hi, ?_, (hkeeps.entry i).symm⟩
        exact (hstates i hi).trans (if_pos hzero)
    · rintro ⟨i, hi, hi', rfl⟩
      have hi : i < graph.nodes.length := hlength ▸ hi
      refine .inr ⟨i, List.mem_range.2 hi, ?_, hkeeps.entry i⟩
      rw [node_connected hi]
      by_contra hzero
      have hpending := (hstates i hi).trans (if_neg hzero)
      have hi' : last.state i = .ready := hi'
      rw [hpending] at hi'
      cases hi'
  · have hcount : last.completedCount = last.ended.card := by
      rw [hcompleted, hended]
      rfl
    exact hcount
  · intro i hi hpending
    have hi : i < graph.nodes.length := hlength ▸ hi
    have hpending : last.state i = .pending := hpending
    have hcount : (last.node i).remainingDependencies = (graph.dependencies i).length := by
      rw [hremaining, node_connected hi]
    have hmissing : missing last.dependencies last.succeeded i =
        (graph.dependencies i).length := by
      rw [hsucceeded, missing_empty, hdependencies]
    have hpos : (graph.dependencies i).length ≠ 0 := by
      intro hzero
      rw [hstates i hi, if_pos hzero] at hpending
      cases hpending
    exact ⟨hcount.trans hmissing.symm, hcount.symm ▸ Nat.pos_of_ne_zero hpos⟩
  · intro i hi hpending hblocked b hb
    have hi : i < graph.nodes.length := hlength ▸ hi
    have hb : b ∈ graph.dependencies i := hdependencies ▸ hb
    have hzero : (graph.dependencies i).length = 0 := by
      by_contra hzero
      exact hpending ((hstates i hi).trans (if_neg hzero))
    rw [List.length_eq_zero_iff.1 hzero] at hb
    exact absurd hb List.not_mem_nil
  · exact .inl fun i hi => (hnone i (hlength ▸ hi)).2.2

end CompilerPackageQueryGraph

end PackageQuery

end Chtholly
