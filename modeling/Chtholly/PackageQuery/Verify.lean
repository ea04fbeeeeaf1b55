import Chtholly.Countdown.Missing
import Chtholly.PackageQuery.Graph
import Mathlib.Data.List.GetD

/-!
# Which graphs of package queries are accepted

The walk of `verify` visits a node when all its dependencies were visited.  It visits all nodes
exactly when no package depends on itself through others.

## Main definitions

* `PackageQuery.CompilerPackageQueryGraph.WellFormed` — the graphs that can be scheduled.
* `PackageQuery.CompilerPackageQueryGraph.Walked` — what holds at each turn of the walk.

## Main results

* `PackageQuery.CompilerPackageQueryGraph.mem_dependentsOf` — the reverse edges.
* `PackageQuery.CompilerPackageQueryGraph.verify_eq_ok_iff` — the graphs that are accepted.
-/

set_option autoImplicit false

namespace Chtholly

namespace PackageQuery

open Countdown

/-! ## The set of ready nodes -/

@[simp]
lemma mem_emplace {entry other : ReadyEntry} {ready : List ReadyEntry} :
    other ∈ emplace entry ready ↔ other = entry ∨ other ∈ ready := by
  unfold emplace
  split
  case isTrue h =>
    constructor
    · exact .inr
    · rintro (rfl | hother)
      · exact h
      · exact hother
  case isFalse => exact List.mem_orderedInsert _

lemma nodup_emplace {entry : ReadyEntry} {ready : List ReadyEntry} (h : ready.Nodup) :
    (emplace entry ready).Nodup := by
  unfold emplace
  split
  case isTrue => exact h
  case isFalse hnot =>
    rw [(List.perm_orderedInsert _ entry ready).nodup_iff, List.nodup_cons]
    exact ⟨hnot, h⟩

namespace CompilerPackageQueryGraph

variable {graph : CompilerPackageQueryGraph}

def dependencies (graph : CompilerPackageQueryGraph) (id : PackageQueryId) :
    List PackageQueryId :=
  (graph.node id).dependencies

/-- The entry of a node in the set of ready nodes. -/
def entry (graph : CompilerPackageQueryGraph) (id : PackageQueryId) : ReadyEntry :=
  ((graph.node id).packageName, id)

variable {id : PackageQueryId}

lemma node_of_lt (h : id < graph.nodes.length) : graph.node id = graph.nodes[id] := by
  rw [node, List.getD_eq_getElem _ _ h]

lemma dependencies_of_not_lt (h : ¬id < graph.nodes.length) : graph.dependencies id = [] := by
  rw [dependencies, node, List.getD_eq_default _ _ (Nat.not_lt.1 h)]

/-- The graphs that can be scheduled: names that are valid and differ, dependencies that are other
nodes, each named once, and no package that depends on itself through others. -/
structure WellFormed (graph : CompilerPackageQueryGraph) : Prop where
  name_ne : ∀ node ∈ graph.nodes, node.packageName ≠ []
  name_plain : ∀ node ∈ graph.nodes, ∀ ch ∈ node.packageName, ch ≠ '\t' ∧ ch ≠ '\r' ∧ ch ≠ '\n'
  names_nodup : (graph.nodes.map PackageQueryNode.packageName).Nodup
  valid : ∀ id < graph.nodes.length, ∀ dependency ∈ graph.dependencies id,
    dependency < graph.nodes.length ∧ dependency ≠ id
  nodup : ∀ id < graph.nodes.length, (graph.dependencies id).Nodup
  acyclic : Acyclic graph.dependencies

/-! ## The checks of single nodes -/

variable {all : List PackageQueryId}

lemma checkDependencies_eq_true_iff {unique : List PackageQueryId} :
    graph.checkDependencies id unique all = true ↔
      (∀ dependency ∈ all, graph.validId dependency = true ∧ dependency ≠ id ∧
        dependency ∉ unique) ∧ all.Nodup := by
  induction all generalizing unique with
  | nil => simp [checkDependencies]
  | cons dependency all ih =>
    rw [checkDependencies]
    split
    case isTrue h =>
      constructor
      · intro hfalse
        cases hfalse
      · rintro ⟨hall, -⟩
        obtain ⟨hvalid, hne, hnot⟩ := hall dependency List.mem_cons_self
        obtain h | h | h := h
        · rw [hvalid] at h
          cases h
        · exact absurd h hne
        · exact absurd h hnot
    case isFalse h =>
      rw [not_or, not_or, Bool.not_eq_false] at h
      rw [ih, List.nodup_cons]
      constructor
      · rintro ⟨hall, hnodup⟩
        refine ⟨?_, fun hmem => (hall dependency hmem).2.2 List.mem_cons_self, hnodup⟩
        intro other hother
        obtain rfl | hother := List.mem_cons.1 hother
        · exact h
        · obtain ⟨hvalid, hne, hnot⟩ := hall other hother
          exact ⟨hvalid, hne, fun hmem => hnot (List.mem_cons_of_mem _ hmem)⟩
      · rintro ⟨hall, hnot, hnodup⟩
        refine ⟨fun other hother => ?_, hnodup⟩
        obtain ⟨hvalid, hne, hunique⟩ := hall other (List.mem_cons_of_mem _ hother)
        refine ⟨hvalid, hne, fun hmem => ?_⟩
        obtain rfl | hmem := List.mem_cons.1 hmem
        · exact hnot hother
        · exact hunique hmem

/-- A name that a node may have. -/
def PlainName (name : Name) : Prop :=
  name ≠ [] ∧ ∀ ch ∈ name, ch ≠ '\t' ∧ ch ≠ '\r' ∧ ch ≠ '\n'

lemma not_any_iff {name : Name} :
    ¬(name.any fun ch => ch == '\t' || ch == '\r' || ch == '\n') = true ↔
      ∀ ch ∈ name, ch ≠ '\t' ∧ ch ≠ '\r' ∧ ch ≠ '\n' := by
  simp [not_or, and_assoc]

variable {nodes : List PackageQueryNode}

lemma checkNodes_eq_ok_iff {names : List Name} {index : PackageQueryId} :
    graph.checkNodes names index nodes = .ok () ↔
      (∀ node ∈ nodes, PlainName node.packageName ∧ node.packageName ∉ names) ∧
        (nodes.map PackageQueryNode.packageName).Nodup ∧
        ∀ (i : ℕ) (h : i < nodes.length),
          graph.checkDependencies (index + i) [] nodes[i].dependencies = true := by
  induction nodes generalizing names index with
  | nil => simp [checkNodes]
  | cons node nodes ih =>
    rw [checkNodes]
    have hindex : (∀ (i : ℕ) (h : i < (node :: nodes).length),
        graph.checkDependencies (index + i) [] (node :: nodes)[i].dependencies = true) ↔
        graph.checkDependencies index [] node.dependencies = true ∧
          ∀ (i : ℕ) (h : i < nodes.length),
            graph.checkDependencies (index + 1 + i) [] nodes[i].dependencies = true := by
      constructor
      · intro h
        refine ⟨h 0 (Nat.succ_pos _), fun i hi => ?_⟩
        have := h (i + 1) (Nat.succ_lt_succ hi)
        rwa [← Nat.succ_add_eq_add_succ index i] at this
      · rintro ⟨hfirst, hrest⟩ i hi
        cases i with
        | zero => exact hfirst
        | succ i =>
          rw [← Nat.succ_add_eq_add_succ index i]
          exact hrest i (Nat.lt_of_succ_lt_succ hi)
    rw [hindex, List.map_cons, List.nodup_cons]
    split
    case isTrue h =>
      constructor
      · intro hfalse
        cases hfalse
      · rintro ⟨hall, -⟩
        obtain ⟨⟨hne, hplain⟩, hnot⟩ := hall node List.mem_cons_self
        obtain h | h | h := h
        · exact absurd h hne
        · exact absurd h (not_any_iff.2 hplain)
        · exact absurd h hnot
    case isFalse h =>
      rw [not_or, not_or, not_any_iff] at h
      obtain ⟨hne, hplain, hnot⟩ := h
      split
      case isTrue hdependencies =>
        constructor
        · intro hfalse
          cases hfalse
        · rintro ⟨-, -, htrue, -⟩
          rw [hdependencies] at htrue
          cases htrue
      case isFalse hdependencies =>
        rw [Bool.not_eq_false] at hdependencies
        rw [ih]
        constructor
        · rintro ⟨hall, hnodup, hrest⟩
          refine ⟨?_, ⟨?_, hnodup⟩, hdependencies, hrest⟩
          · intro other hother
            obtain rfl | hother := List.mem_cons.1 hother
            · exact ⟨⟨hne, hplain⟩, hnot⟩
            · obtain ⟨hname, hfresh⟩ := hall other hother
              exact ⟨hname, fun hmem => hfresh (List.mem_cons_of_mem _ hmem)⟩
          · intro hmem
            obtain ⟨other, hother, hsame⟩ := List.mem_map.1 hmem
            exact (hall other hother).2 (hsame ▸ List.mem_cons_self)
        · rintro ⟨hall, ⟨hfresh, hnodup⟩, -, hrest⟩
          refine ⟨fun other hother => ?_, hnodup, hrest⟩
          obtain ⟨hname, hother'⟩ := hall other (List.mem_cons_of_mem _ hother)
          refine ⟨hname, fun hmem => ?_⟩
          obtain hsame | hmem := List.mem_cons.1 hmem
          · exact hfresh (hsame ▸ List.mem_map_of_mem hother)
          · exact hother' hmem

/-! ## The reverse edges -/

variable {dependents : List (List PackageQueryId)}

@[simp]
lemma length_pushDependents : (pushDependents id dependents all).length = dependents.length := by
  induction all generalizing dependents with
  | nil => rfl
  | cons dependency all ih =>
    have hstep := @ih (dependents.modify dependency (· ++ [id]))
    rw [List.length_modify] at hstep
    exact hstep

lemma getD_modify {i j : ℕ} {change : List PackageQueryId → List PackageQueryId}
    (hj : j < dependents.length) :
    (dependents.modify i change).getD j [] =
      if i = j then change (dependents.getD j []) else dependents.getD j [] := by
  rw [List.getD_eq_getElem _ _ (by rwa [List.length_modify]), List.getD_eq_getElem _ _ hj,
    List.getElem_modify]

lemma getD_pushDependents {id j : ℕ} {dependents : List (List PackageQueryId)}
    {all : List PackageQueryId} (hnodup : all.Nodup) (hj : j < dependents.length) :
    (pushDependents id dependents all).getD j [] =
      dependents.getD j [] ++ if j ∈ all then [id] else [] := by
  induction all generalizing dependents with
  | nil => simp [pushDependents]
  | cons dependency all ih =>
    obtain ⟨hnot, hnodup⟩ := List.nodup_cons.1 hnodup
    have hstep := @ih (dependents.modify dependency (· ++ [id])) hnodup
      (by rwa [List.length_modify])
    rw [getD_modify hj] at hstep
    refine hstep.trans ?_
    by_cases hdependency : dependency = j
    · subst hdependency
      simp [hnot]
    · simp [hdependency, Ne.symm hdependency]

/-- The reverse edges lead from a dependency to the nodes that name it, in their order. -/
theorem mem_dependentsOf {index : ℕ} {i j : ℕ} (hnodup : ∀ node ∈ nodes, node.dependencies.Nodup)
    (hj : j < dependents.length) :
    i ∈ (dependentsOf nodes index dependents).getD j [] ↔
      i ∈ dependents.getD j [] ∨
        ∃ (k : ℕ) (h : k < nodes.length), i = index + k ∧ j ∈ nodes[k].dependencies := by
  induction nodes generalizing index dependents with
  | nil => simp [dependentsOf]
  | cons node nodes ih =>
    rw [dependentsOf, ih (fun other hother => hnodup other (.tail _ hother)) (by simpa using hj),
      getD_pushDependents (hnodup node List.mem_cons_self) hj, List.mem_append]
    constructor
    · rintro ((h | h) | ⟨k, hk, rfl, hmem⟩)
      · exact .inl h
      · split at h
        case isTrue hmem =>
          exact .inr ⟨0, Nat.succ_pos _, List.mem_singleton.1 h, hmem⟩
        case isFalse => exact absurd h List.not_mem_nil
      · exact .inr ⟨k + 1, Nat.succ_lt_succ hk, Nat.succ_add_eq_add_succ index k, hmem⟩
    · rintro (h | ⟨k, hk, rfl, hmem⟩)
      · exact .inl (.inl h)
      · cases k with
        | zero =>
          have hmem : j ∈ node.dependencies := hmem
          exact .inl (.inr (by simp [hmem]))
        | succ k =>
          exact .inr ⟨k, Nat.lt_of_succ_lt_succ hk, (Nat.succ_add_eq_add_succ index k).symm, hmem⟩

lemma nodup_dependentsOf {nodes : List PackageQueryNode} {index j : ℕ}
    {dependents : List (List PackageQueryId)}
    (hnodup : ∀ node ∈ nodes, node.dependencies.Nodup) (hj : j < dependents.length)
    (hold : (dependents.getD j []).Nodup) (hbefore : ∀ i ∈ dependents.getD j [], i < index) :
    ((dependentsOf nodes index dependents).getD j []).Nodup := by
  induction nodes generalizing index dependents with
  | nil => exact hold
  | cons node nodes ih =>
    have hpush := @getD_pushDependents index _ _ _ (hnodup node List.mem_cons_self) hj
    refine ih (fun other hother => hnodup other (.tail _ hother)) (by simpa using hj) ?_ ?_
    · rw [hpush, List.nodup_append]
      refine ⟨hold, by split <;> simp, ?_⟩
      intro i hi k hk
      split at hk
      case isTrue =>
        rw [List.mem_singleton.1 hk]
        exact Nat.ne_of_lt (hbefore i hi)
      case isFalse => exact absurd hk List.not_mem_nil
    · rw [hpush]
      intro i hi
      obtain hi | hi := List.mem_append.1 hi
      · exact Nat.lt_succ_of_lt (hbefore i hi)
      · split at hi
        case isTrue =>
          rw [List.mem_singleton.1 hi]
          exact Nat.lt_succ_self _
        case isFalse => exact absurd hi List.not_mem_nil

@[simp]
lemma length_dependentsOf {index : ℕ} :
    (dependentsOf nodes index dependents).length = dependents.length := by
  induction nodes generalizing index dependents with
  | nil => rfl
  | cons node nodes ih => rw [dependentsOf, ih, length_pushDependents]

/-- The reverse edges of a graph whose nodes name each dependency once. -/
lemma mem_dependents {i j : ℕ} (hnodup : ∀ id < graph.nodes.length, (graph.dependencies id).Nodup)
    (hj : j < graph.nodes.length) :
    i ∈ (dependentsOf graph.nodes 0 (List.replicate graph.nodes.length [])).getD j [] ↔
      i < graph.nodes.length ∧ j ∈ graph.dependencies i := by
  have hall : ∀ node ∈ graph.nodes, node.dependencies.Nodup := by
    intro node hnode
    obtain ⟨k, hk, rfl⟩ := List.mem_iff_getElem.1 hnode
    have := hnodup k hk
    rwa [dependencies, node_of_lt hk] at this
  rw [mem_dependentsOf hall (by simpa using hj), List.getD_replicate _ hj]
  constructor
  · rintro (h | ⟨k, hk, rfl, hmem⟩)
    · exact absurd h List.not_mem_nil
    · rw [Nat.zero_add, dependencies, node_of_lt hk]
      exact ⟨hk, hmem⟩
  · rintro ⟨hi, hmem⟩
    rw [dependencies, node_of_lt hi] at hmem
    exact .inr ⟨i, hi, (Nat.zero_add i).symm, hmem⟩

lemma nodup_dependents {j : ℕ} (hnodup : ∀ id < graph.nodes.length, (graph.dependencies id).Nodup)
    (hj : j < graph.nodes.length) :
    ((dependentsOf graph.nodes 0 (List.replicate graph.nodes.length [])).getD j []).Nodup := by
  apply nodup_dependentsOf
  · intro node hnode
    obtain ⟨k, hk, rfl⟩ := List.mem_iff_getElem.1 hnode
    have := hnodup k hk
    rwa [dependencies, node_of_lt hk] at this
  · simpa using hj
  · rw [List.getD_replicate _ hj]
    exact List.nodup_nil
  · rw [List.getD_replicate _ hj]
    exact fun i hi => absurd hi List.not_mem_nil

/-! ## The walk -/

variable {remaining : List ℕ} {ready : List ReadyEntry}

/-- The dependents of a node count down once each, and are ready at zero. -/
lemma countDown_spec (hnodup : all.Nodup) (hall : ∀ i ∈ all, i < remaining.length) :
    (graph.countDown all remaining ready).1.length = remaining.length ∧
      (∀ i, (graph.countDown all remaining ready).1.getD i 0 =
        if i ∈ all then remaining.getD i 0 - 1 else remaining.getD i 0) ∧
      ∀ e, e ∈ (graph.countDown all remaining ready).2 ↔
        e ∈ ready ∨ ∃ i ∈ all, remaining.getD i 0 - 1 = 0 ∧ e = graph.entry i := by
  induction all generalizing remaining ready with
  | nil => simp [countDown]
  | cons id all ih =>
    obtain ⟨hid, hnodup⟩ := List.nodup_cons.1 hnodup
    have hset : ∀ i, (remaining.set id (remaining.getD id 0 - 1)).getD i 0 =
        if i = id then remaining.getD i 0 - 1 else remaining.getD i 0 := by
      intro i
      have hlt := hall id List.mem_cons_self
      by_cases hi : i = id
      · subst hi
        rw [if_pos rfl, List.getD_eq_getElem _ _ (by rwa [List.length_set]), List.getElem_set_self]
      · rw [if_neg hi, List.getD_eq_getElem?_getD, List.getElem?_set_ne (Ne.symm hi),
          ← List.getD_eq_getElem?_getD]
    obtain ⟨hlength, hvalues, hready⟩ := @ih (remaining.set id (remaining.getD id 0 - 1))
      (if remaining.getD id 0 - 1 = 0 then emplace (graph.entry id) ready else ready) hnodup
      (fun i hi => by rw [List.length_set]; exact hall i (.tail _ hi))
    rw [List.length_set] at hlength
    have hrest : ∀ i ∈ all, i ≠ id := fun i hi hsame => hid (hsame ▸ hi)
    refine ⟨hlength, fun i => ?_, fun e => ?_⟩
    · refine (hvalues i).trans ?_
      rw [hset]
      by_cases hi : i = id
      · subst hi
        simp [hid]
      · simp [hi]
    · refine (hready e).trans ?_
      constructor
      · rintro (h | ⟨i, hi, hzero, rfl⟩)
        · split at h
          case isTrue hzero =>
            obtain rfl | h := mem_emplace.1 h
            · exact .inr ⟨id, List.mem_cons_self, hzero, rfl⟩
            · exact .inl h
          case isFalse => exact .inl h
        · rw [hset, if_neg (hrest i hi)] at hzero
          exact .inr ⟨i, .tail _ hi, hzero, rfl⟩
      · rintro (h | ⟨i, hi, hzero, rfl⟩)
        · left
          split
          · exact mem_emplace.2 (.inr h)
          · exact h
        · obtain rfl | hi := List.mem_cons.1 hi
          · left
            rw [if_pos hzero]
            exact mem_emplace.2 (.inl rfl)
          · right
            refine ⟨i, hi, ?_, rfl⟩
            rwa [hset, if_neg (hrest i hi)]

lemma nodup_countDown (h : ready.Nodup) : (graph.countDown all remaining ready).2.Nodup := by
  induction all generalizing remaining ready with
  | nil => exact h
  | cons id all ih =>
    rw [countDown]
    apply ih
    split
    · exact nodup_emplace h
    · exact h

lemma readyAtFirst_spec {remaining : PackageQueryId → ℕ} {all : List PackageQueryId}
    {ready : List ReadyEntry} (h : ready.Nodup) :
    (graph.readyAtFirst remaining all ready).Nodup ∧
      ∀ e, e ∈ graph.readyAtFirst remaining all ready ↔
        e ∈ ready ∨ ∃ i ∈ all, remaining i = 0 ∧ e = graph.entry i := by
  induction all generalizing ready with
  | nil => simp [readyAtFirst, h]
  | cons id all ih =>
    rw [readyAtFirst]
    split
    case isTrue hzero =>
      obtain ⟨hnodup, hmem⟩ := ih (@nodup_emplace (graph.entry id) _ h)
      refine ⟨hnodup, fun e => (hmem e).trans ?_⟩
      rw [mem_emplace]
      constructor
      · rintro ((rfl | he) | ⟨i, hi, hi'⟩)
        · exact .inr ⟨id, List.mem_cons_self, hzero, rfl⟩
        · exact .inl he
        · exact .inr ⟨i, .tail _ hi, hi'⟩
      · rintro (he | ⟨i, hi, hi', rfl⟩)
        · exact .inl (.inr he)
        · obtain rfl | hi := List.mem_cons.1 hi
          · exact .inl (.inl rfl)
          · exact .inr ⟨i, hi, hi', rfl⟩
    case isFalse hzero =>
      obtain ⟨hnodup, hmem⟩ := ih h
      refine ⟨hnodup, fun e => (hmem e).trans ?_⟩
      constructor
      · rintro (he | ⟨i, hi, hi'⟩)
        · exact .inl he
        · exact .inr ⟨i, .tail _ hi, hi'⟩
      · rintro (he | ⟨i, hi, hi', rfl⟩)
        · exact .inl he
        · obtain rfl | hi := List.mem_cons.1 hi
          · exact absurd hi' hzero
          · exact .inr ⟨i, hi, hi', rfl⟩

/-- The edges of a graph are as they should be, cycles apart. -/
structure Linked (graph : CompilerPackageQueryGraph) : Prop where
  valid : ∀ id < graph.nodes.length, ∀ dependency ∈ graph.dependencies id,
    dependency < graph.nodes.length ∧ dependency ≠ id
  nodup : ∀ id < graph.nodes.length, (graph.dependencies id).Nodup

/-- What holds at each turn of the walk, when the nodes of `done` were visited. -/
structure Walked (graph : CompilerPackageQueryGraph) (done : Finset ℕ) (remaining : List ℕ)
    (ready : List ReadyEntry) : Prop where
  done_lt : ∀ i ∈ done, i < graph.nodes.length
  length_eq : remaining.length = graph.nodes.length
  remaining_eq : ∀ i < graph.nodes.length,
    remaining.getD i 0 = missing graph.dependencies done i
  mem_ready : ∀ e, e ∈ ready ↔ ∃ i < graph.nodes.length, i ∉ done ∧
    missing graph.dependencies done i = 0 ∧ e = graph.entry i
  ready_nodup : ready.Nodup
  closed : ∀ i ∈ done, ∀ dependency ∈ graph.dependencies i, dependency ∈ done
  not_cycle : ∀ i ∈ done, ¬Relation.TransGen (Countdown.DependsOn graph.dependencies) i i

/-- One turn of the walk. -/
lemma Walked.step (hlinked : graph.Linked) {done : Finset ℕ} {name : Name} {id : ℕ}
    (h : graph.Walked done remaining ((name, id) :: ready)) (hnodup : all.Nodup)
    (hall : ∀ i, i ∈ all ↔ i < graph.nodes.length ∧ id ∈ graph.dependencies i) :
    id ∉ done ∧ graph.Walked (insert id done) (graph.countDown all remaining ready).1
      (graph.countDown all remaining ready).2 := by
  obtain ⟨_, hid, hnot, hzero, heq⟩ := (h.mem_ready _).1 List.mem_cons_self
  obtain ⟨-, rfl⟩ := Prod.mk.inj heq
  obtain ⟨hhead, htail⟩ := List.nodup_cons.1 h.ready_nodup
  obtain ⟨hlength, hvalues, hmem⟩ := @countDown_spec graph all remaining ready hnodup
    fun i hi => by rw [h.length_eq]; exact ((hall i).1 hi).1
  have hcount : ∀ i < graph.nodes.length, missing graph.dependencies done i =
      missing graph.dependencies (insert id done) i +
        if id ∈ graph.dependencies i then 1 else 0 :=
    fun i hi => missing_insert (hlinked.nodup i hi) hnot
  have hself : id ∉ graph.dependencies id := fun hmem => (hlinked.valid id hid id hmem).2 rfl
  refine ⟨hnot, ?_, hlength.trans h.length_eq, ?_, ?_, nodup_countDown htail, ?_, ?_⟩
  · intro i hi
    obtain rfl | hi := Finset.mem_insert.1 hi
    · exact hid
    · exact h.done_lt i hi
  · intro i hi
    rw [hvalues, h.remaining_eq i hi, hcount i hi]
    by_cases hdepends : id ∈ graph.dependencies i
    · rw [if_pos ((hall i).2 ⟨hi, hdepends⟩), if_pos hdepends, Nat.add_sub_cancel]
    · rw [if_neg fun hmem => hdepends ((hall i).1 hmem).2, if_neg hdepends, Nat.add_zero]
  · -- the entries that were ready before, and those that this node was the last one for
    intro e
    rw [hmem]
    constructor
    · rintro (he | ⟨i, hi, hlast, rfl⟩)
      · obtain ⟨i, hi, hfresh, hfree, rfl⟩ := (h.mem_ready e).1 (List.mem_cons_of_mem _ he)
        have hne : i ≠ id := by
          rintro rfl
          exact hhead (heq ▸ he)
        have hcounti := hcount i hi
        rw [hfree] at hcounti
        exact ⟨i, hi, by simp [hne, hfresh], by omega, rfl⟩
      · obtain ⟨hilt, hdepends⟩ := (hall i).1 hi
        have hne : i ≠ id := by
          rintro rfl
          exact hself hdepends
        have hfresh : i ∉ done := fun hdone => hnot (h.closed i hdone id hdepends)
        have hcounti := hcount i hilt
        rw [if_pos hdepends] at hcounti
        rw [h.remaining_eq i hilt] at hlast
        exact ⟨i, hilt, by simp [hne, hfresh], by omega, rfl⟩
    · rintro ⟨i, hi, hfresh, hfree, rfl⟩
      rw [Finset.mem_insert, not_or] at hfresh
      have hcounti := hcount i hi
      rw [hfree] at hcounti
      by_cases hdepends : id ∈ graph.dependencies i
      · refine .inr ⟨i, (hall i).2 ⟨hi, hdepends⟩, ?_, rfl⟩
        rw [h.remaining_eq i hi, hcounti, if_pos hdepends]
      · rw [if_neg hdepends] at hcounti
        have hready := (h.mem_ready (graph.entry i)).2 ⟨i, hi, hfresh.2, hcounti, rfl⟩
        obtain hsame | hready := List.mem_cons.1 hready
        · exact absurd (Prod.mk.inj hsame).2 hfresh.1
        · exact .inl hready
  · intro i hi b hb
    obtain rfl | hi := Finset.mem_insert.1 hi
    · exact Finset.mem_insert_of_mem (missing_eq_zero_iff.1 hzero b hb)
    · exact Finset.mem_insert_of_mem (h.closed i hi b hb)
  · intro i hi
    obtain rfl | hi := Finset.mem_insert.1 hi
    · exact not_transGen_of_deps fun b hb =>
        h.not_cycle b (missing_eq_zero_iff.1 hzero b hb)
    · exact h.not_cycle i hi

/-- The walk ends with an empty set of ready nodes, and counts the nodes that were visited. -/
lemma Walked.walk (hlinked : graph.Linked)
    (hdependents : ∀ j < graph.nodes.length, (dependents.getD j []).Nodup ∧
      ∀ i, i ∈ dependents.getD j [] ↔ i < graph.nodes.length ∧ j ∈ graph.dependencies i)
    {turns : ℕ} {done : Finset ℕ} (h : graph.Walked done remaining ready)
    (hturns : graph.nodes.length ≤ done.card + turns) :
    ∃ (last : Finset ℕ) (left : List ℕ), graph.Walked last left [] ∧
      graph.walk dependents turns remaining ready done.card = some last.card := by
  induction turns generalizing done remaining ready with
  | zero =>
    cases ready with
    | nil => exact ⟨done, remaining, h, rfl⟩
    | cons first ready =>
      -- all nodes were visited, so none can be ready
      obtain ⟨i, hi, hfresh, -⟩ := (h.mem_ready _).1 List.mem_cons_self
      have hsubset : done ⊆ (Finset.range graph.nodes.length).erase i := by
        intro j hj
        rw [Finset.mem_erase, Finset.mem_range]
        exact ⟨fun hsame => hfresh (hsame ▸ hj), h.done_lt j hj⟩
      have hcard := Finset.card_le_card hsubset
      rw [Finset.card_erase_of_mem (Finset.mem_range.2 hi), Finset.card_range] at hcard
      omega
  | succ turns ih =>
    cases ready with
    | nil => exact ⟨done, remaining, h, rfl⟩
    | cons first ready =>
      obtain ⟨name, id⟩ := first
      obtain ⟨_, hid, -, -, heq⟩ := (h.mem_ready _).1 List.mem_cons_self
      obtain ⟨-, rfl⟩ := Prod.mk.inj heq
      obtain ⟨hnodup, hall⟩ := hdependents id hid
      obtain ⟨hnot, hnext⟩ := h.step hlinked hnodup hall
      have hcard := Finset.card_insert_of_notMem hnot
      obtain ⟨last, left, hlast, hwalk⟩ := ih hnext (by omega)
      rw [hcard] at hwalk
      exact ⟨last, left, hlast, hwalk⟩

/-- The walk visits all nodes exactly when there is no cycle. -/
lemma Walked.card_eq_iff (hlinked : graph.Linked) {last : Finset ℕ} {left : List ℕ}
    (h : graph.Walked last left []) :
    last.card = graph.nodes.length ↔ Acyclic graph.dependencies := by
  have hsubset : last ⊆ Finset.range graph.nodes.length := fun i hi =>
    Finset.mem_range.2 (h.done_lt i hi)
  constructor
  · intro hcard i hcycle
    by_cases hi : i < graph.nodes.length
    · have hall : last = Finset.range graph.nodes.length :=
        Finset.eq_of_subset_of_card_le hsubset (by rw [Finset.card_range, hcard])
      exact h.not_cycle i (hall ▸ Finset.mem_range.2 hi) hcycle
    · obtain ⟨b, hb, -⟩ := Relation.TransGen.head'_iff.1 hcycle
      rw [Countdown.DependsOn, dependencies_of_not_lt hi] at hb
      exact absurd hb List.not_mem_nil
  · intro hacyclic
    by_contra hcard
    have hne : (Finset.range graph.nodes.length \ last).Nonempty := by
      rw [Finset.sdiff_nonempty]
      intro hback
      exact hcard (by rw [Finset.Subset.antisymm hsubset hback, Finset.card_range])
    obtain ⟨i, hi, hfree⟩ := hacyclic.exists_free hne
    rw [Finset.mem_sdiff, Finset.mem_range] at hi
    have hzero : missing graph.dependencies last i = 0 := by
      rw [missing_eq_zero_iff]
      intro b hb
      by_contra hnot
      apply hfree b hb
      rw [Finset.mem_sdiff, Finset.mem_range]
      exact ⟨(hlinked.valid i hi.1 b hb).1, hnot⟩
    exact List.not_mem_nil ((h.mem_ready _).2 ⟨i, hi.1, hi.2, hzero, rfl⟩)

/-- The start of the walk. -/
lemma walked_start {remaining : List ℕ} (hlength : remaining.length = graph.nodes.length)
    (hremaining : ∀ i < graph.nodes.length,
      remaining.getD i 0 = (graph.dependencies i).length) :
    graph.Walked ∅ remaining
      (graph.readyAtFirst (fun id => remaining.getD id 0) (List.range graph.nodes.length) []) := by
  obtain ⟨hnodup, hmem⟩ := @readyAtFirst_spec graph (fun id => remaining.getD id 0)
    (List.range graph.nodes.length) [] List.nodup_nil
  have hmissing : ∀ i, missing graph.dependencies ∅ i = (graph.dependencies i).length :=
    fun i => missing_empty i
  refine ⟨fun i hi => absurd hi (Finset.notMem_empty i), hlength, ?_, ?_, hnodup,
    fun i hi => absurd hi (Finset.notMem_empty i), fun i hi => absurd hi (Finset.notMem_empty i)⟩
  · intro i hi
    rw [hremaining i hi, hmissing]
  · intro e
    rw [hmem]
    constructor
    · rintro (he | ⟨i, hi, hzero, rfl⟩)
      · exact absurd he List.not_mem_nil
      · rw [List.mem_range] at hi
        refine ⟨i, hi, Finset.notMem_empty i, ?_, rfl⟩
        rw [hmissing, ← hremaining i hi]
        exact hzero
    · rintro ⟨i, hi, -, hzero, rfl⟩
      refine .inr ⟨i, List.mem_range.2 hi, ?_, rfl⟩
      rw [hmissing, ← hremaining i hi] at hzero
      exact hzero

/-! ## The graphs that are accepted -/

lemma validId_iff {id : ℕ} (hsize : graph.nodes.length ≤ 2 ^ 32 - 1) :
    graph.validId id = true ↔ id < graph.nodes.length := by
  rw [validId, Bool.and_eq_true, decide_eq_true_eq, decide_eq_true_eq]
  constructor
  · exact And.right
  · intro h
    refine ⟨?_, h⟩
    intro hsame
    rw [hsame, invalidIndex] at h
    exact absurd h (Nat.not_lt.2 hsize)

lemma checkNodes_eq_ok_iff_wellFormed (hsize : graph.nodes.length ≤ 2 ^ 32 - 1) :
    graph.checkNodes [] 0 graph.nodes = .ok () ∧ Acyclic graph.dependencies ↔
      graph.WellFormed := by
  rw [checkNodes_eq_ok_iff]
  constructor
  · rintro ⟨⟨hnames, hnodup, hdependencies⟩, hacyclic⟩
    have hids : ∀ id < graph.nodes.length,
        (∀ dependency ∈ graph.dependencies id, graph.validId dependency = true ∧
          dependency ≠ id ∧ dependency ∉ []) ∧ (graph.dependencies id).Nodup := by
      intro id hid
      have := hdependencies id hid
      rw [Nat.zero_add, checkDependencies_eq_true_iff] at this
      rwa [dependencies, node_of_lt hid]
    exact ⟨fun node hnode => (hnames node hnode).1.1, fun node hnode => (hnames node hnode).1.2,
      hnodup, fun id hid dependency hmem =>
        ⟨(validId_iff hsize).1 ((hids id hid).1 dependency hmem).1,
          ((hids id hid).1 dependency hmem).2.1⟩,
      fun id hid => (hids id hid).2, hacyclic⟩
  · intro h
    refine ⟨⟨fun node hnode => ⟨⟨h.name_ne node hnode, h.name_plain node hnode⟩,
      List.not_mem_nil⟩, h.names_nodup, fun id hid => ?_⟩, h.acyclic⟩
    rw [Nat.zero_add, checkDependencies_eq_true_iff]
    have hvalid := h.valid id hid
    have hnodup := h.nodup id hid
    rw [dependencies, node_of_lt hid] at hvalid hnodup
    exact ⟨fun dependency hmem => ⟨(validId_iff hsize).2 (hvalid dependency hmem).1,
      (hvalid dependency hmem).2, List.not_mem_nil⟩, hnodup⟩

/-- The graphs that are accepted. -/
theorem verify_eq_ok_iff :
    graph.verify = .ok () ↔ graph.nodes.length ≤ 2 ^ 32 - 1 ∧ graph.WellFormed := by
  unfold verify
  by_cases hlarge : 2 ^ 32 - 1 < graph.nodes.length
  · rw [if_pos hlarge]
    constructor
    · intro h
      cases h
    · rintro ⟨hsize, -⟩
      exact absurd hlarge (Nat.not_lt.2 hsize)
  rw [if_neg hlarge]
  have hsize : graph.nodes.length ≤ 2 ^ 32 - 1 := Nat.not_lt.1 hlarge
  rw [← checkNodes_eq_ok_iff_wellFormed hsize]
  cases hcheck : graph.checkNodes [] 0 graph.nodes with
  | error message =>
    constructor
    · intro h
      cases h
    · rintro ⟨-, h, -⟩
      cases h
  | ok _ =>
    obtain ⟨-, -, hdependencies⟩ := checkNodes_eq_ok_iff.1 hcheck
    have hids : ∀ id < graph.nodes.length,
        (∀ dependency ∈ graph.dependencies id, graph.validId dependency = true ∧
          dependency ≠ id ∧ dependency ∉ []) ∧ (graph.dependencies id).Nodup := by
      intro id hid
      have := hdependencies id hid
      rw [Nat.zero_add, checkDependencies_eq_true_iff] at this
      rwa [dependencies, node_of_lt hid]
    have hlinked : graph.Linked :=
      ⟨fun id hid dependency hmem => ⟨(validId_iff hsize).1 ((hids id hid).1 dependency hmem).1,
        ((hids id hid).1 dependency hmem).2.1⟩, fun id hid => (hids id hid).2⟩
    have hstart : graph.Walked ∅ (graph.nodes.map fun node => node.dependencies.length)
        (graph.readyAtFirst (fun id => (graph.nodes.map fun node =>
          node.dependencies.length).getD id 0) (List.range graph.nodes.length) []) := by
      apply walked_start (by rw [List.length_map])
      intro i hi
      rw [List.getD_eq_getElem _ _ (by rwa [List.length_map]), List.getElem_map, dependencies,
        node_of_lt hi]
    obtain ⟨last, left, hlast, hwalk⟩ := hstart.walk hlinked
      (fun j hj => ⟨nodup_dependents hlinked.nodup hj, fun i => mem_dependents hlinked.nodup hj⟩)
      (show graph.nodes.length ≤ Finset.card ∅ + graph.nodes.length by simp)
    rw [Finset.card_empty] at hwalk
    dsimp only
    rw [hwalk]
    have hsome : some last.card = some graph.nodes.length ↔ Acyclic graph.dependencies := by
      rw [Option.some.injEq]
      exact hlast.card_eq_iff hlinked
    by_cases hall : some last.card = some graph.nodes.length
    · rw [if_pos hall]
      exact ⟨fun _ => ⟨hsize, rfl, hsome.1 hall⟩, fun _ => rfl⟩
    · rw [if_neg hall]
      constructor
      · intro h
        cases h
      · rintro ⟨-, -, hacyclic⟩
        exact absurd (hsome.2 hacyclic) hall

end CompilerPackageQueryGraph

end PackageQuery

end Chtholly
