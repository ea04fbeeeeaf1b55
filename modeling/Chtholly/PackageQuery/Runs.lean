import Chtholly.PackageQuery.Schedule

/-!
# Runs of package queries

Workers take nodes and report results in any order, and all that is left may be blocked at any time.
A node is taken once, after its dependencies succeeded; and when every query succeeds, every node is
taken.  A success that is reported after a dependent was blocked is recorded and refused.

## Main definitions

* `run`, `taken` of `PackageQuery.CompilerPackageQueryGraph` — the graph after some calls, and the
  nodes that they took.
* `PackageQuery.CompilerPackageQueryGraph.LateSuccess` — a success after the blocking.
* `PackageQuery.CompilerPackageQueryGraph.Fair` — workers that go on until all is done.

## Main results

* `PackageQuery.CompilerPackageQueryGraph.scheduling` — which graphs are accepted, and what holds in
  every run of an accepted graph.
-/

set_option autoImplicit false

namespace Chtholly

namespace PackageQuery

open Countdown

namespace CompilerPackageQueryGraph

variable {graph start : CompilerPackageQueryGraph}

def run (graph : CompilerPackageQueryGraph) (calls : List Call) : CompilerPackageQueryGraph :=
  calls.foldl (fun graph call => (graph.perform call).1) graph

/-- The node that a call takes. -/
def Reply.taken? : Reply → List PackageQueryId
  | .taken (some id) => [id]
  | _ => []

/-- The nodes that calls take, in their order. -/
def taken (graph : CompilerPackageQueryGraph) : List Call → List PackageQueryId
  | [] => []
  | call :: rest => (graph.perform call).2.taken? ++ (graph.perform call).1.taken rest

def Reply.IsRefused (reply : Reply) : Prop := ∃ message, reply = .refused message

/-- A success of a running node, where a node that waits for it is blocked. -/
def LateSuccess (graph : CompilerPackageQueryGraph) (call : Call) : Prop :=
  ∃ id, call = .markSucceeded id ∧ id < graph.nodes.length ∧
    (graph.node id).state = .running ∧
    ∃ dependent ∈ (graph.node id).dependents, (graph.node dependent).state = .blocked

/-- The set of ready nodes and the counter agree with the states. -/
structure Consistent (graph : CompilerPackageQueryGraph) : Prop where
  ready_nodup : graph.ready.Nodup
  mem_ready : ∀ e, e ∈ graph.ready ↔ ∃ i < graph.nodes.length,
    (graph.node i).state = .ready ∧ e = ((graph.node i).packageName, i)
  completedCount_eq : graph.completedCount = graph.nodes.countP fun node =>
    decide (node.state = .succeeded ∨ node.state = .failed)

lemma run_cons (call : Call) (rest : List Call) :
    graph.run (call :: rest) = (graph.perform call).1.run rest :=
  rfl

lemma run_concat (calls : List Call) (call : Call) :
    graph.run (calls ++ [call]) = ((graph.run calls).perform call).1 := by
  rw [run, List.foldl_append]
  rfl

/-- Runs keep the invariant. -/
theorem Scheduled.run (h : graph.Scheduled) (calls : List Call) : (graph.run calls).Scheduled := by
  induction calls generalizing graph with
  | nil => exact h
  | cons call rest ih => exact ih (h.perform call)

lemma countP_nodes (graph : CompilerPackageQueryGraph) :
    (graph.nodes.countP fun node => decide (node.state = .succeeded ∨ node.state = .failed)) =
      graph.ended.card := by
  have hcard : ∀ n ≤ graph.nodes.length, ((graph.nodes.take n).countP fun node =>
      decide (node.state = .succeeded ∨ node.state = .failed)) =
        ((Finset.range n).filter fun i => (graph.state i).Ended).card := by
    intro n hn
    induction n with
    | zero => rfl
    | succ n ih =>
      have hlt : n < graph.nodes.length := hn
      have hstate : graph.state n = graph.nodes[n].state := by
        rw [state, node_of_lt hlt]
      rw [List.take_add_one, List.getElem?_eq_getElem hlt, List.countP_append,
        ih (Nat.le_of_lt hlt), Finset.range_add_one, Finset.filter_insert, hstate]
      by_cases hended : graph.nodes[n].state.Ended
      · rw [if_pos hended, Finset.card_insert_of_notMem (by simp)]
        unfold PackageQueryState.Ended at hended
        simp [hended]
      · rw [if_neg hended]
        unfold PackageQueryState.Ended at hended
        simp [hended]
  have := hcard graph.nodes.length le_rfl
  rwa [List.take_length] at this

lemma Scheduled.consistent (h : graph.Scheduled) : graph.Consistent :=
  ⟨h.ready_nodup, h.mem_ready, by rw [countP_nodes, h.completedCount_eq]⟩

/-! ## Nodes that were taken -/

/-- A node whose query was started. -/
def Begun (graph : CompilerPackageQueryGraph) (i : ℕ) : Prop :=
  graph.state i = .running ∨ (graph.state i).Ended

instance (i : ℕ) : Decidable (graph.Begun i) :=
  inferInstanceAs (Decidable (_ ∨ _))

lemma not_begun_iff {i : ℕ} : ¬graph.Begun i ↔
    graph.state i = .pending ∨ graph.state i = .ready ∨ graph.state i = .blocked := by
  unfold Begun PackageQueryState.Ended
  cases graph.state i <;> simp

/-- The nodes change as calls say: a node is started exactly when it is taken. -/
lemma Scheduled.begun_perform (h : graph.Scheduled) (call : Call) {i : ℕ}
    (hi : i < graph.nodes.length) :
    (graph.perform call).1.Begun i ↔ graph.Begun i ∨ i ∈ (graph.perform call).2.taken? := by
  cases call with
  | takeReadyQuery =>
    change graph.takeReadyQuery.1.Begun i ↔ _ ∨ i ∈ (Reply.taken graph.takeReadyQuery.2).taken?
    obtain ⟨-, heq⟩ | ⟨id, ready, -, hid, -, heq⟩ := takeReadyQuery_eq h
    · rw [heq]
      simp [Reply.taken?]
    · rw [heq, Begun, state_update hid]
      by_cases hsame : i = id
      · simp [hsame, Reply.taken?]
      · simp [hsame, Reply.taken?, Begun]
  | markSucceeded id =>
    change (graph.markSucceeded id).1.Begun i ↔
      _ ∨ i ∈ (Reply.ofResult (graph.markSucceeded id).2).taken?
    obtain ⟨-, message, heq⟩ | ⟨hid, hrunning, hfree, last, heq, -, -, hstate⟩ |
      ⟨hid, hrunning, -, -, message, heq⟩ := markSucceeded_eq h id
    · rw [heq]
      simp [Reply.taken?, Reply.ofResult]
    · rw [heq]
      simp only [Reply.taken?, Reply.ofResult, List.not_mem_nil, or_false]
      rw [Begun, hstate]
      by_cases hsame : i = id
      · subst hsame
        simp [Begun, hrunning, PackageQueryState.Ended]
      · rw [if_neg hsame]
        split
        case isTrue hmem =>
          obtain ⟨-, -, hwaiting⟩ := h.waiting hid hrunning hmem.1
          have hpending := hwaiting.resolve_right (hfree i hmem.1)
          simp [Begun, hpending, PackageQueryState.Ended]
        case isFalse => rfl
    · rw [heq]
      simp only [Reply.taken?, Reply.ofResult, List.not_mem_nil, or_false]
      have hstate : (graph.complete id .succeeded).state i =
          if i = id then .succeeded else graph.state i := state_update hid i
      rw [Begun, hstate]
      by_cases hsame : i = id
      · subst hsame
        simp [Begun, hrunning, PackageQueryState.Ended]
      · rw [if_neg hsame, Begun]
  | markFailed id =>
    change (graph.markFailed id).1.Begun i ↔
      _ ∨ i ∈ (Reply.ofResult (graph.markFailed id).2).taken?
    obtain ⟨hid, hrunning, heq⟩ | ⟨-, message, heq⟩ := markFailed_eq h id
    · rw [heq]
      simp only [Reply.taken?, Reply.ofResult, List.not_mem_nil, or_false]
      have hstate : (graph.complete id .failed).state i =
          if i = id then .failed else graph.state i := state_update hid i
      rw [Begun, hstate]
      by_cases hsame : i = id
      · subst hsame
        simp [Begun, hrunning, PackageQueryState.Ended]
      · rw [if_neg hsame, Begun]
    · rw [heq]
      simp [Reply.taken?, Reply.ofResult]
  | blockUnfinished =>
    change graph.blockUnfinished.Begun i ↔ _ ∨ i ∈ Reply.done.taken?
    simp only [Reply.taken?, List.not_mem_nil, or_false]
    rw [Begun, state_blockUnfinished hi]
    split
    case isTrue hunfinished =>
      obtain hstate | hstate := hunfinished <;>
        simp [Begun, hstate, PackageQueryState.Ended]
    case isFalse => rfl

/-- Calls do not change the number of nodes. -/
lemma Scheduled.length_perform (h : graph.Scheduled) (call : Call) :
    (graph.perform call).1.nodes.length = graph.nodes.length ∧
      (graph.perform call).1.dependencies = graph.dependencies := by
  have hkeeps : Keeps graph (graph.perform call).1 := by
    cases call with
    | takeReadyQuery =>
      change Keeps graph graph.takeReadyQuery.1
      obtain ⟨-, heq⟩ | ⟨id, ready, -, hid, -, heq⟩ := takeReadyQuery_eq h
      · rw [heq]
        exact Keeps.refl graph
      · rw [heq]
        exact keeps_update hid
    | markSucceeded id =>
      change Keeps graph (graph.markSucceeded id).1
      obtain ⟨-, message, heq⟩ | ⟨-, -, -, last, heq, -, hkeeps, -⟩ |
        ⟨hid, -, -, -, message, heq⟩ := markSucceeded_eq h id
      · rw [heq]
        exact Keeps.refl graph
      · rw [heq]
        exact hkeeps
      · rw [heq]
        exact keeps_update hid
    | markFailed id =>
      change Keeps graph (graph.markFailed id).1
      obtain ⟨hid, -, heq⟩ | ⟨-, message, heq⟩ := markFailed_eq h id
      · rw [heq]
        exact keeps_update hid
      · rw [heq]
        exact Keeps.refl graph
    | blockUnfinished => exact keeps_blockUnfinished graph
  exact ⟨hkeeps.length_eq, hkeeps.dependencies⟩

lemma Scheduled.length_run (h : graph.Scheduled) (calls : List Call) :
    (graph.run calls).nodes.length = graph.nodes.length ∧
      (graph.run calls).dependencies = graph.dependencies := by
  induction calls generalizing graph with
  | nil => exact ⟨rfl, rfl⟩
  | cons call rest ih =>
    obtain ⟨hlength, hdependencies⟩ := h.length_perform call
    obtain ⟨hlength', hdependencies'⟩ := ih (h.perform call)
    exact ⟨hlength'.trans hlength, hdependencies'.trans hdependencies⟩

/-- A node that is taken was ready. -/
lemma Scheduled.mem_taken? (h : graph.Scheduled) {call : Call} {i : ℕ}
    (hi : i ∈ (graph.perform call).2.taken?) :
    i < graph.nodes.length ∧ graph.state i = .ready := by
  cases call with
  | takeReadyQuery =>
    change i ∈ (Reply.taken graph.takeReadyQuery.2).taken? at hi
    obtain ⟨-, heq⟩ | ⟨id, ready, -, hid, hstate, heq⟩ := takeReadyQuery_eq h
    · rw [heq] at hi
      exact absurd hi List.not_mem_nil
    · rw [heq] at hi
      obtain rfl := List.mem_singleton.1 hi
      exact ⟨hid, hstate⟩
  | markSucceeded id =>
    change i ∈ (Reply.ofResult (graph.markSucceeded id).2).taken? at hi
    cases hresult : (graph.markSucceeded id).2 <;> rw [hresult] at hi <;>
      exact absurd hi List.not_mem_nil
  | markFailed id =>
    change i ∈ (Reply.ofResult (graph.markFailed id).2).taken? at hi
    cases hresult : (graph.markFailed id).2 <;> rw [hresult] at hi <;>
      exact absurd hi List.not_mem_nil
  | blockUnfinished => exact absurd hi List.not_mem_nil

/-- The nodes that were started are those that were taken. -/
lemma Scheduled.begun_run (h : graph.Scheduled) (calls : List Call) {i : ℕ}
    (hi : i < graph.nodes.length) :
    (graph.run calls).Begun i ↔ graph.Begun i ∨ i ∈ graph.taken calls := by
  induction calls generalizing graph with
  | nil =>
    change graph.Begun i ↔ _
    simp [taken]
  | cons call rest ih =>
    rw [run_cons, ih (h.perform call) ((h.length_perform call).1.symm ▸ hi),
      h.begun_perform call hi, taken, List.mem_append, or_assoc]

/-- No node is taken twice, and none that was started before. -/
lemma Scheduled.taken_nodup (h : graph.Scheduled) (calls : List Call) :
    (graph.taken calls).Nodup ∧
      ∀ i ∈ graph.taken calls, i < graph.nodes.length ∧ ¬graph.Begun i := by
  induction calls generalizing graph with
  | nil => exact ⟨List.nodup_nil, fun i hi => absurd hi List.not_mem_nil⟩
  | cons call rest ih =>
    obtain ⟨hnodup, hfresh⟩ := ih (h.perform call)
    rw [(h.length_perform call).1] at hfresh
    have hfirst : (graph.perform call).2.taken?.Nodup := by
      rcases (graph.perform call).2 with (_ | id) | _ | message <;> simp [Reply.taken?]
    refine ⟨?_, ?_⟩
    · rw [taken, List.nodup_append]
      refine ⟨hfirst, hnodup, fun i hi j hj hsame => ?_⟩
      subst hsame
      obtain ⟨hlt, hnot⟩ := hfresh i hj
      exact hnot ((h.begun_perform call hlt).2 (.inr hi))
    · intro i hi
      obtain hi | hi := List.mem_append.1 hi
      · obtain ⟨hlt, hready⟩ := h.mem_taken? hi
        exact ⟨hlt, not_begun_iff.2 (.inr (.inl hready))⟩
      · obtain ⟨hlt, hnot⟩ := hfresh i hi
        exact ⟨hlt, fun hbegun => hnot ((h.begun_perform call hlt).2 (.inl hbegun))⟩

/-- All that a node depends on succeeded before it is taken. -/
lemma Scheduled.dependencies_of_taken (h : graph.Scheduled) {id : ℕ}
    (hid : graph.takeReadyQuery.2 = some id) :
    ∀ dependency ∈ graph.dependencies id, graph.state dependency = .succeeded := by
  obtain ⟨-, heq⟩ | ⟨id', ready, -, hlt, hstate, heq⟩ := takeReadyQuery_eq h
  · rw [heq] at hid
    cases hid
  · rw [heq] at hid
    cases hid
    exact h.enabled id hlt (by rw [hstate]; simp) (by rw [hstate]; simp)

/-- A call that is refused changes nothing, a late success apart. -/
lemma Scheduled.refused_iff (h : graph.Scheduled) (call : Call) :
    ((graph.perform call).2.IsRefused → (graph.perform call).1 = graph) ↔
      ¬graph.LateSuccess call := by
  cases call with
  | takeReadyQuery =>
    constructor
    · rintro - ⟨id, hcall, -⟩
      cases hcall
    · rintro - ⟨message, hreply⟩
      cases hreply
  | markSucceeded id =>
    change ((Reply.ofResult (graph.markSucceeded id).2).IsRefused →
      (graph.markSucceeded id).1 = graph) ↔ _
    obtain ⟨hnot, message, heq⟩ | ⟨hid, hrunning, hfree, last, heq, -⟩ |
      ⟨hid, hrunning, ⟨dependent, hmem, hblocked⟩, -, message, heq⟩ := markSucceeded_eq h id
    · rw [heq]
      constructor
      · rintro - ⟨id', hcall, hid, hrunning, -⟩
        cases hcall
        exact hnot ⟨hid, hrunning⟩
      · intros
        rfl
    · rw [heq]
      constructor
      · rintro - ⟨id', hcall, -, -, dependent, hmem, hblocked⟩
        cases hcall
        exact hfree dependent hmem hblocked
      · rintro - ⟨message, hreply⟩
        cases hreply
    · rw [heq]
      constructor
      · intro hsame
        have hstate : (graph.complete id .succeeded).state id =
            if id = id then .succeeded else graph.state id := state_update hid id
        have hsame : graph.complete id .succeeded = graph := hsame ⟨message, rfl⟩
        rw [hsame, if_pos rfl, hrunning] at hstate
        cases hstate
      · intro hnot
        exact absurd ⟨id, rfl, hid, hrunning, dependent, hmem, hblocked⟩ hnot
  | markFailed id =>
    change ((Reply.ofResult (graph.markFailed id).2).IsRefused →
      (graph.markFailed id).1 = graph) ↔ _
    constructor
    · rintro - ⟨id', hcall, -⟩
      cases hcall
    · rintro -
      obtain ⟨-, -, heq⟩ | ⟨-, message, heq⟩ := markFailed_eq h id
      · rw [heq]
        rintro ⟨message, hreply⟩
        cases hreply
      · rw [heq]
        intro
        rfl
  | blockUnfinished =>
    constructor
    · rintro - ⟨id, hcall, -⟩
      cases hcall
    · rintro - ⟨message, hreply⟩
      cases hreply

/-! ## Progress -/

/-- Nothing was blocked, and no query failed. -/
def Healthy (graph : CompilerPackageQueryGraph) : Prop :=
  ∀ i < graph.nodes.length, graph.state i ≠ .blocked ∧ graph.state i ≠ .failed

/-- The steps that were made: nodes that were taken and nodes that ended. -/
def steps (graph : CompilerPackageQueryGraph) : ℕ :=
  ((Finset.range graph.nodes.length).filter fun i => graph.Begun i).card + graph.ended.card

lemma steps_le (graph : CompilerPackageQueryGraph) : graph.steps ≤ 2 * graph.nodes.length := by
  have hbegun := Finset.card_filter_le (Finset.range graph.nodes.length) fun i => graph.Begun i
  have hended := Finset.card_filter_le (Finset.range graph.nodes.length) fun i =>
    (graph.state i).Ended
  rw [Finset.card_range] at hbegun hended
  have : graph.ended.card ≤ graph.nodes.length := hended
  rw [steps]
  omega

/-- A call of workers that go on. -/
def Call.Working (call : Call) : Prop :=
  call = .takeReadyQuery ∨ ∃ id, call = .markSucceeded id

/-- A call that takes a node or accepts a success makes one step, and others change nothing. -/
lemma Scheduled.steps_perform (h : graph.Scheduled) (hhealthy : graph.Healthy) {call : Call}
    (hworking : call.Working) :
    (graph.perform call).1.Healthy ∧ ((graph.perform call).1 = graph ∨
      (graph.perform call).1.steps = graph.steps + 1) := by
  have hlength := (h.length_perform call).1
  have hcount : (graph.perform call).1.completedCount = (graph.perform call).1.ended.card :=
    (h.perform call).completedCount_eq
  obtain rfl | ⟨id, rfl⟩ := hworking
  · have hbegun := fun i hi => @Scheduled.begun_perform graph h .takeReadyQuery i hi
    change graph.takeReadyQuery.1.Healthy ∧ (graph.takeReadyQuery.1 = graph ∨ _)
    obtain ⟨-, heq⟩ | ⟨id, ready, -, hid, hready, heq⟩ := takeReadyQuery_eq h
    · rw [heq]
      exact ⟨hhealthy, .inl rfl⟩
    · have hstate := @state_update graph id (graph.node id).remainingDependencies
        graph.completedCount .running ready hid
      have hperform : (graph.perform .takeReadyQuery).1 = graph.update id
          (graph.node id).remainingDependencies .running ready graph.completedCount :=
        congrArg Prod.fst heq
      have htaken : (graph.perform .takeReadyQuery).2.taken? = [id] :=
        congrArg (fun result : CompilerPackageQueryGraph × Option PackageQueryId =>
          (Reply.taken result.2).taken?) heq
      rw [hperform] at hlength hcount hbegun
      rw [htaken] at hbegun
      have hended : (graph.update id (graph.node id).remainingDependencies .running ready
          graph.completedCount).ended.card = graph.ended.card := by
        rw [← hcount, ← h.completedCount_eq]
        rfl
      refine ⟨?_, .inr ?_⟩
      · rw [heq]
        intro i hi
        rw [hstate]
        split
        · simp
        · exact hhealthy i (hlength ▸ hi)
      · rw [hperform, steps, steps, hended, hlength]
        have hinsert : ((Finset.range graph.nodes.length).filter fun i =>
            (graph.update id (graph.node id).remainingDependencies .running ready
              graph.completedCount).Begun i) =
            insert id ((Finset.range graph.nodes.length).filter fun i => graph.Begun i) := by
          ext i
          rw [Finset.mem_insert, Finset.mem_filter, Finset.mem_filter, Finset.mem_range]
          constructor
          · rintro ⟨hi, hi'⟩
            obtain hi' | hi' := (hbegun i hi).1 hi'
            · exact .inr ⟨hi, hi'⟩
            · exact .inl (List.mem_singleton.1 hi')
          · rintro (rfl | ⟨hi, hi'⟩)
            · exact ⟨hid, (hbegun i hid).2 (.inr (List.mem_singleton.2 rfl))⟩
            · exact ⟨hi, (hbegun i hi).2 (.inl hi')⟩
        rw [hinsert, Finset.card_insert_of_notMem]
        · omega
        · rw [Finset.mem_filter]
          rintro ⟨-, hi⟩
          exact not_begun_iff.2 (.inr (.inl hready)) hi
  · have hbegun := fun i hi => @Scheduled.begun_perform graph h (.markSucceeded id) i hi
    change (graph.markSucceeded id).1.Healthy ∧ ((graph.markSucceeded id).1 = graph ∨ _)
    obtain ⟨-, message, heq⟩ | ⟨hid, hrunning, -, last, heq, hlast, hkeeps, hstate⟩ |
      ⟨hid, hrunning, ⟨dependent, hmem, hblocked⟩, -⟩ := markSucceeded_eq h id
    · rw [heq]
      exact ⟨hhealthy, .inl rfl⟩
    · have hperform : (graph.perform (.markSucceeded id)).1 = last := congrArg Prod.fst heq
      have hreply : (graph.perform (.markSucceeded id)).2.taken? = [] :=
        congrArg (fun result : CompilerPackageQueryGraph × Except String Unit =>
          (Reply.ofResult result.2).taken?) heq
      rw [hperform, hreply] at hbegun
      refine ⟨?_, .inr ?_⟩
      · rw [heq]
        intro i hi
        rw [hstate]
        split
        · simp
        · split
          · simp
          · exact hhealthy i (hkeeps.length_eq ▸ hi)
      · have hsame : ((Finset.range graph.nodes.length).filter fun i => last.Begun i) =
            (Finset.range graph.nodes.length).filter fun i => graph.Begun i := by
          apply Finset.filter_congr
          intro i hi
          rw [hbegun i (Finset.mem_range.1 hi)]
          simp
        have hended : last.ended = insert id graph.ended := by
          ext i
          rw [Finset.mem_insert, mem_ended, mem_ended, hkeeps.length_eq, hstate]
          by_cases hi : i = id
          · subst hi
            simp [hid, PackageQueryState.Ended]
          · rw [if_neg hi]
            split
            case isTrue hmem =>
              obtain ⟨hlt, -, hwaiting⟩ := h.waiting hid hrunning hmem.1
              obtain hpending := hwaiting.resolve_right (hhealthy i hlt).1
              simp [hi, hpending, PackageQueryState.Ended]
            case isFalse => simp [hi]
        rw [hperform, steps, steps, hkeeps.length_eq, hsame, hended,
          Finset.card_insert_of_notMem]
        · omega
        · rw [mem_ended, hrunning]
          simp [PackageQueryState.Ended]
    · exact absurd hblocked (hhealthy dependent (h.waiting hid hrunning hmem).1).1

/-- As long as not all nodes were taken, some node is ready or some query runs. -/
lemma Scheduled.exists_next (h : graph.Scheduled) (hhealthy : graph.Healthy) {i : ℕ}
    (hi : i < graph.nodes.length) (hnot : ¬graph.Begun i) :
    graph.ready ≠ [] ∨ ∃ id < graph.nodes.length, graph.state id = .running := by
  have hne : (Finset.range graph.nodes.length \ graph.succeeded).Nonempty := by
    refine ⟨i, ?_⟩
    rw [Finset.mem_sdiff, Finset.mem_range, mem_succeeded]
    exact ⟨hi, fun hsucceeded => hnot (.inr (.inl hsucceeded.2))⟩
  obtain ⟨a, ha, hfree⟩ := h.acyclic.exists_free hne
  rw [Finset.mem_sdiff, Finset.mem_range] at ha
  obtain ⟨hlt, hnotSucceeded⟩ := ha
  have hzero : missing graph.dependencies graph.succeeded a = 0 := by
    rw [missing_eq_zero_iff]
    intro b hb
    by_contra hnotb
    apply hfree b hb
    rw [Finset.mem_sdiff, Finset.mem_range]
    exact ⟨(h.linked.valid a hlt b hb).1, hnotb⟩
  cases hstate : graph.state a with
  | pending =>
    obtain ⟨hmissing, hpos⟩ := h.pending a hlt hstate
    omega
  | ready =>
    left
    intro hempty
    have := (h.mem_ready (graph.entry a)).2 ⟨a, hlt, hstate, rfl⟩
    rw [hempty] at this
    exact List.not_mem_nil this
  | running => exact .inr ⟨a, hlt, hstate⟩
  | succeeded => exact absurd (mem_succeeded.2 ⟨hlt, hstate⟩) hnotSucceeded
  | failed => exact absurd hstate (hhealthy a hlt).2
  | blocked => exact absurd hstate (hhealthy a hlt).1

/-- The first calls of a sequence. -/
def firstCalls (calls : ℕ → Call) (n : ℕ) : List Call := (List.range n).map calls

lemma run_firstCalls_succ (calls : ℕ → Call) (n : ℕ) :
    graph.run (firstCalls calls (n + 1)) =
      ((graph.run (firstCalls calls n)).perform (calls n)).1 := by
  rw [firstCalls, List.range_succ, List.map_append]
  exact run_concat _ _

/-- Workers that ask for nodes again and again and report a success for each that they took. -/
structure Fair (start : CompilerPackageQueryGraph) (calls : ℕ → Call) : Prop where
  working : ∀ n, (calls n).Working
  takes : ∀ n, ∃ m ≥ n, calls m = .takeReadyQuery
  reports : ∀ n id, ((start.run (firstCalls calls n)).node id).state = .running →
    ∃ m ≥ n, calls m = .markSucceeded id

section Fair

variable {calls : ℕ → Call}

variable (h : start.Scheduled) (hhealthy : start.Healthy) (hfair : start.Fair calls)

include h hhealthy hfair

lemma Fair.healthy (n : ℕ) : (start.run (firstCalls calls n)).Healthy := by
  induction n with
  | zero => exact hhealthy
  | succ n ih =>
    rw [run_firstCalls_succ]
    exact ((h.run _).steps_perform ih (hfair.working n)).1

/-- Between two times, nothing changed or some step was made. -/
lemma Fair.steps_lt {n m : ℕ} (hle : n ≤ m) :
    start.run (firstCalls calls m) = start.run (firstCalls calls n) ∨
      (start.run (firstCalls calls n)).steps < (start.run (firstCalls calls m)).steps := by
  induction m, hle using Nat.le_induction with
  | base => exact .inl rfl
  | succ m hle ih =>
    rw [run_firstCalls_succ]
    obtain ⟨-, hstep⟩ := (h.run (firstCalls calls m)).steps_perform
      (hfair.healthy h hhealthy m) (hfair.working m)
    obtain hstep | hstep := hstep
    · rwa [hstep]
    · right
      obtain ih | ih := ih
      · rw [hstep, ih]
        exact Nat.lt_succ_self _
      · omega

/-- As long as not all nodes were taken, some step is made later. -/
lemma Fair.exists_step {n i : ℕ} (hi : i < start.nodes.length)
    (hnot : ¬(start.run (firstCalls calls n)).Begun i) :
    ∃ m ≥ n, (start.run (firstCalls calls n)).steps < (start.run (firstCalls calls m)).steps := by
  have hscheduled := h.run (firstCalls calls n)
  have hhealthy' := hfair.healthy h hhealthy n
  -- the next call that would make a step in this state
  obtain ⟨m, hm, hchange⟩ : ∃ m ≥ n,
      ((start.run (firstCalls calls n)).perform (calls m)).1 ≠ start.run (firstCalls calls n) := by
    obtain hready | ⟨id, hid, hrunning⟩ :=
      hscheduled.exists_next hhealthy' ((h.length_run _).1.symm ▸ hi) hnot
    · obtain ⟨m, hm, hcall⟩ := hfair.takes n
      refine ⟨m, hm, fun hsame => ?_⟩
      rw [hcall] at hsame
      obtain ⟨hempty, -⟩ | ⟨id, ready, -, hid, hstate, heq⟩ := takeReadyQuery_eq hscheduled
      · exact hready hempty
      · have hbegun := (hscheduled.begun_perform .takeReadyQuery hid).2 (.inr (by
          change id ∈ (Reply.taken (takeReadyQuery _).2).taken?
          rw [heq]
          exact List.mem_singleton.2 rfl))
        rw [hsame] at hbegun
        exact not_begun_iff.2 (.inr (.inl hstate)) hbegun
    · obtain ⟨m, hm, hcall⟩ := hfair.reports n id hrunning
      refine ⟨m, hm, fun hsame => ?_⟩
      rw [hcall] at hsame
      change (markSucceeded _ id).1 = _ at hsame
      obtain ⟨hrefused, -⟩ | ⟨-, -, -, last, heq, -, -, hstate⟩ |
        ⟨-, -, ⟨dependent, hmem, hblocked⟩, -⟩ := markSucceeded_eq hscheduled id
      · exact hrefused ⟨hid, hrunning⟩
      · rw [heq] at hsame
        have hlast := hstate id
        rw [show last = _ from hsame, if_pos rfl, hrunning] at hlast
        cases hlast
      · exact (hhealthy' dependent (hscheduled.waiting hid hrunning hmem).1).1 hblocked
  obtain hsame | hlt := hfair.steps_lt h hhealthy hm
  · refine ⟨m + 1, Nat.le_succ_of_le hm, ?_⟩
    rw [run_firstCalls_succ, hsame]
    obtain ⟨-, hstep⟩ := hscheduled.steps_perform hhealthy' (hfair.working m)
    rw [hstep.resolve_left hchange]
    exact Nat.lt_succ_self _
  · exact ⟨m, hm, hlt⟩

/-- All nodes are taken in the end. -/
theorem Fair.all_taken :
    ∃ n, ∀ i < start.nodes.length, (start.run (firstCalls calls n)).Begun i := by
  -- by the number of steps that are left
  have hall : ∀ left n, 2 * start.nodes.length ≤
      (start.run (firstCalls calls n)).steps + left →
      ∃ m, ∀ i < start.nodes.length, (start.run (firstCalls calls m)).Begun i := by
    intro left
    induction left with
    | zero =>
      intro n hn
      by_contra hnone
      have hsome := not_exists.1 hnone n
      rw [not_forall] at hsome
      obtain ⟨i, hi⟩ := hsome
      rw [Classical.not_imp] at hi
      obtain ⟨m, -, hlt⟩ := hfair.exists_step h hhealthy hi.1 hi.2
      have hle := steps_le (start.run (firstCalls calls m))
      rw [(h.length_run _).1] at hle
      omega
    | succ left ih =>
      intro n hn
      by_cases hdone : ∀ i < start.nodes.length, (start.run (firstCalls calls n)).Begun i
      · exact ⟨n, hdone⟩
      · rw [not_forall] at hdone
        obtain ⟨i, hi⟩ := hdone
        rw [Classical.not_imp] at hi
        obtain ⟨m, -, hlt⟩ := hfair.exists_step h hhealthy hi.1 hi.2
        exact ih m (by omega)
  exact hall (2 * start.nodes.length) 0 (Nat.le_add_left _ _)

end Fair

/-! ## Scheduling -/

/-- Which graphs are accepted, and what holds in every run of an accepted graph: no node is taken
twice, or before what it depends on; the ready nodes and the counter are exact; a call that is refused
changes nothing unless it reports a success too late; and all nodes are taken by workers that go on. -/
theorem scheduling (graph : CompilerPackageQueryGraph) :
    (graph.verify = .ok () ↔ graph.nodes.length ≤ 2 ^ 32 - 1 ∧ graph.WellFormed) ∧
      ∀ start, graph.initializeGraph = (start, .ok ()) →
        (∀ calls : List Call, (start.taken calls).Nodup ∧ (start.run calls).Consistent ∧
          (∀ id, (start.run calls).takeReadyQuery.2 = some id →
            ∀ dependency ∈ (graph.node id).dependencies,
              ((start.run calls).node dependency).state = .succeeded) ∧
          ∀ call, (((start.run calls).perform call).2.IsRefused →
              ((start.run calls).perform call).1 = start.run calls) ↔
            ¬(start.run calls).LateSuccess call) ∧
        ∀ calls : ℕ → Call, start.Fair calls →
          ∃ n, ∀ i < graph.nodes.length, i ∈ start.taken (firstCalls calls n) := by
  refine ⟨verify_eq_ok_iff, fun start hstart => ?_⟩
  obtain ⟨hscheduled, hlength, hdependencies, hpristine⟩ := scheduled_initializeGraph hstart
  refine ⟨fun calls => ?_, fun calls hfair => ?_⟩
  · have hrun := hscheduled.run calls
    refine ⟨(hscheduled.taken_nodup calls).1, hrun.consistent, fun id hid => ?_,
      hrun.refused_iff⟩
    have htaken := hrun.dependencies_of_taken hid
    rw [(hscheduled.length_run calls).2, hdependencies] at htaken
    exact htaken
  · have hhealthy : start.Healthy := by
      intro i hi
      obtain hstate | hstate := hpristine i (hlength ▸ hi) <;> simp [hstate]
    obtain ⟨n, hn⟩ := hfair.all_taken hscheduled hhealthy
    refine ⟨n, fun i hi => ?_⟩
    rw [← hlength] at hi
    have hfresh : ¬start.Begun i := by
      rw [not_begun_iff]
      obtain hstate | hstate := hpristine i (hlength ▸ hi)
      · exact .inl hstate
      · exact .inr (.inl hstate)
    exact ((hscheduled.begun_run _ hi).1 (hn i hi)).resolve_left hfresh

/-- Two packages, of which the second needs the first. -/
def twoPackages : CompilerPackageQueryGraph :=
  { nodes := [{ packageName := ['a'] }, { packageName := ['b'], dependencies := [0] }] }

/-- The two packages are taken once each. -/
theorem scheduling_twoPackages :
    (twoPackages.initializeGraph.1.taken
      [.takeReadyQuery, .markSucceeded 0, .takeReadyQuery, .takeReadyQuery]).Nodup :=
  (((scheduling twoPackages).2 twoPackages.initializeGraph.1 (by decide)).1 _).1

/-- The success of the first package is refused after the second was blocked, but it is counted. -/
theorem late_success_counted :
    ∃ start, twoPackages.initializeGraph = (start, .ok ()) ∧
      ((start.run [.takeReadyQuery, .blockUnfinished]).perform (.markSucceeded 0)).2.IsRefused ∧
      ((start.run [.takeReadyQuery, .blockUnfinished]).perform (.markSucceeded 0)).1 ≠
        start.run [.takeReadyQuery, .blockUnfinished] :=
  ⟨twoPackages.initializeGraph.1, by decide,
    ⟨"compiler package query graph has an invalid dependency state", by decide⟩,
    by decide⟩

end CompilerPackageQueryGraph

end PackageQuery

end Chtholly
