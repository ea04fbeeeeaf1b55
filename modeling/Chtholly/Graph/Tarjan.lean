import Mathlib.Data.List.Sort
import Mathlib.Data.List.Nodup
import Mathlib.Logic.Function.Basic
import Mathlib.Logic.Relation

/-!
# Strongly connected components

Tarjan's algorithm over a graph whose nodes are the numbers below a bound.  Each node gets an index
when it is entered, and a low link, the least index of a node on the stack that is known to be
reachable from it.  When all edges of a node are done and its low link is its own index, the stack
from its top down to the node is a component.

## Main definitions

* `Graph.Search`, `Graph.visit`, `Graph.components` — the algorithm.
* `Graph.Settled` — components in an order in which edges go to the same or an earlier one.
* `Graph.Inv` — what holds of the search while the nodes of a path are being visited.

## Main results

* `Graph.Settled.mem_iff` — the components are the classes of mutual reachability.
* `Graph.visit_spec` — what a visit leaves.
* `Graph.components_spec` — the components are a partition in a reverse topological order.
-/

set_option autoImplicit false

namespace Chtholly

namespace Graph

/-- There is a path of edges. -/
abbrev Reaches (edges : ℕ → List ℕ) : ℕ → ℕ → Prop :=
  Relation.ReflTransGen fun a b => b ∈ edges a

/-! ## The algorithm -/

/-- The state of the search; the top of the stack comes first. -/
structure Search where
  index : ℕ → Option ℕ
  low : ℕ → ℕ
  onStack : ℕ → Bool
  stack : List ℕ
  components : List (List ℕ)
  next : ℕ

namespace Search

def empty : Search where
  index _ := none
  low _ := 0
  onStack _ := false
  stack := []
  components := []
  next := 0

/-- The index of a node that has one. -/
def num (s : Search) (node : ℕ) : ℕ :=
  (s.index node).getD 0

def enter (s : Search) (node : ℕ) : Search where
  index := Function.update s.index node (some s.next)
  low := Function.update s.low node s.next
  onStack := Function.update s.onStack node true
  stack := node :: s.stack
  components := s.components
  next := s.next + 1

def lower (s : Search) (node value : ℕ) : Search :=
  { s with low := Function.update s.low node (min (s.low node) value) }

end Search

/-- The nodes from the top of the stack down to the root of a component, and the rest. -/
def popComponent (root : ℕ) : List ℕ → List ℕ × List ℕ
  | [] => ([], [])
  | member :: stack =>
    if member = root then ([member], stack)
    else
      let (component, rest) := popComponent root stack
      (member :: component, rest)

def Search.finish (s : Search) (node : ℕ) : Search :=
  if s.low node ≠ s.num node then s
  else
    let (component, rest) := popComponent node s.stack
    { s with
      onStack := fun member => s.onStack member && member ∉ component
      stack := rest
      components := s.components ++ [component.insertionSort (· ≤ ·)] }

/-- The visit of a node, with a bound for the depth of the recursion. -/
def visit (edges : ℕ → List ℕ) : ℕ → ℕ → Search → Search
  | 0, _, s => s
  | depth + 1, node, s =>
    ((edges node).foldl (fun s successor =>
        if s.index successor = none then
          let visited := visit edges depth successor s
          visited.lower node (visited.low successor)
        else if s.onStack successor then s.lower node (s.num successor)
        else s)
      (s.enter node)).finish node

/-- All components of the graph with so many nodes. -/
def components (edges : ℕ → List ℕ) (count : ℕ) : List (List ℕ) :=
  ((List.range count).foldl (fun s node =>
    if s.index node = none then visit edges count node s else s) Search.empty).components

/-! ## Components in order -/

variable {edges : ℕ → List ℕ}

/-- The components are not empty and strongly connected, and their edges go to the same component or
to earlier ones. -/
def Settled (edges : ℕ → List ℕ) (components : List (List ℕ)) : Prop :=
  ∀ before component after, components = before ++ component :: after →
    component ≠ [] ∧ (∀ v ∈ component, ∀ w ∈ component, Reaches edges v w) ∧
      ∀ v ∈ component, ∀ w ∈ edges v, w ∈ before.flatten ∨ w ∈ component

lemma Settled.append {components : List (List ℕ)} {component : List ℕ}
    (h : Settled edges components) (hne : component ≠ [])
    (hconnected : ∀ v ∈ component, ∀ w ∈ component, Reaches edges v w)
    (hedges : ∀ v ∈ component, ∀ w ∈ edges v, w ∈ components.flatten ∨ w ∈ component) :
    Settled edges (components ++ [component]) := by
  intro before other after heq
  rcases List.eq_nil_or_concat' after with rfl | ⟨rest, last, rfl⟩
  · obtain ⟨hbefore, hlast⟩ := List.append_inj' heq rfl
    obtain rfl := hbefore
    obtain rfl : component = other := by simpa using hlast
    exact ⟨hne, hconnected, hedges⟩
  · have hinit : components ++ [component] = (before ++ other :: rest) ++ [last] := by
      rw [heq, List.append_assoc, List.cons_append]
    exact h before other rest (List.append_inj' hinit rfl).1

/-- The edges of the nodes in a list of settled components stay in it. -/
lemma Settled.closed {components : List (List ℕ)} (h : Settled edges components) {v w : ℕ}
    (hv : v ∈ components.flatten) (hw : w ∈ edges v) : w ∈ components.flatten := by
  obtain ⟨component, hcomponent, hvComponent⟩ := List.mem_flatten.1 hv
  obtain ⟨before, after, rfl⟩ := List.append_of_mem hcomponent
  rcases (h before component after rfl).2.2 v hvComponent w hw with hbefore | hsame
  · rw [List.flatten_append]
    exact List.mem_append_left _ hbefore
  · exact List.mem_flatten.2 ⟨component, hcomponent, hsame⟩

lemma Settled.left {components more : List (List ℕ)} (h : Settled edges (components ++ more)) :
    Settled edges components := by
  intro before component after heq
  refine h before component (after ++ more) ?_
  rw [heq, List.append_assoc, List.cons_append]

lemma mem_of_reaches {S : ℕ → Prop} (hedges : ∀ v, S v → ∀ w ∈ edges v, S w) {v w : ℕ} (hv : S v)
    (h : Reaches edges v w) : S w := by
  induction h with
  | refl => exact hv
  | tail _ hstep ih => exact hedges _ ih _ hstep

/-- Nodes that reach each other are in the same component. -/
theorem Settled.mem_of_reaches {components : List (List ℕ)} (h : Settled edges components)
    (hnodup : components.flatten.Nodup) {component : List ℕ} (hcomponent : component ∈ components)
    {v w : ℕ} (hv : v ∈ component) (hw : w ∈ components.flatten) (hvw : Reaches edges v w)
    (hwv : Reaches edges w v) : w ∈ component := by
  obtain ⟨before, after, rfl⟩ := List.append_of_mem hcomponent
  have hedges := (h before component after rfl).2.2
  have hbefore : Settled edges before := h.left
  -- From the component only it and the earlier ones are reached.
  have hreached : w ∈ before.flatten ∨ w ∈ component := by
    refine Graph.mem_of_reaches (S := fun u => u ∈ before.flatten ∨ u ∈ component) ?_
      (Or.inr hv) hvw
    rintro u (hu | hu) x hx
    · exact Or.inl (hbefore.closed hu hx)
    · exact hedges u hu x hx
  refine hreached.resolve_left fun hearlier => ?_
  -- From an earlier component the way back would not leave the earlier ones.
  have hback : v ∈ before.flatten :=
    Graph.mem_of_reaches (fun u hu x hx => hbefore.closed hu hx) hearlier hwv
  rw [List.flatten_append, List.flatten_cons, List.nodup_append] at hnodup
  exact hnodup.2.2 v hback v (List.mem_append_left _ hv) rfl

/-- A component is the class of each of its nodes. -/
theorem Settled.mem_iff {components : List (List ℕ)} (h : Settled edges components)
    (hnodup : components.flatten.Nodup) {component : List ℕ} (hcomponent : component ∈ components)
    {v w : ℕ} (hv : v ∈ component) :
    w ∈ component ↔ w ∈ components.flatten ∧ Reaches edges v w ∧ Reaches edges w v := by
  constructor
  · intro hw
    obtain ⟨before, after, rfl⟩ := List.append_of_mem hcomponent
    have hconnected := (h before component after rfl).2.1
    exact ⟨List.mem_flatten.2 ⟨component, hcomponent, hw⟩, hconnected v hv w hw,
      hconnected w hw v hv⟩
  · rintro ⟨hw, hvw, hwv⟩
    exact h.mem_of_reaches hnodup hcomponent hv hw hvw hwv

/-! ## The invariant -/

/-- What holds while the nodes of the path are being visited. -/
structure Inv (edges : ℕ → List ℕ) (count : ℕ) (path : List ℕ) (s : Search) : Prop where
  bound : ∀ v i, s.index v = some i → v < count ∧ i < s.next
  visited : ∀ v, s.index v ≠ none ↔ v ∈ s.stack ∨ v ∈ s.components.flatten
  nodup : (s.stack ++ s.components.flatten).Nodup
  onStack : ∀ v, s.onStack v = true ↔ v ∈ s.stack
  sorted : s.stack.Pairwise fun u v => s.num v < s.num u
  onPath : ∀ p ∈ path, p ∈ s.stack
  ascending : ∀ u ∈ s.stack, ∀ v ∈ s.stack, s.num u ≤ s.num v → Reaches edges u v
  back : ∀ v ∈ s.stack, ∃ p ∈ path, s.num p ≤ s.num v ∧ Reaches edges v p
  closed : ∀ v, s.index v ≠ none → v ∉ path → ∀ w ∈ edges v, s.index w ≠ none
  settled : Settled edges s.components

variable {count : ℕ} {path : List ℕ} {s s' last : Search} {node : ℕ}

lemma Inv.empty (edges : ℕ → List ℕ) (count : ℕ) : Inv edges count [] Search.empty where
  bound _ _ h := nomatch h
  visited v := by simp [Search.empty]
  nodup := by simp [Search.empty]
  onStack v := by simp [Search.empty]
  sorted := List.Pairwise.nil
  onPath _ h := absurd h List.not_mem_nil
  ascending _ h := absurd h List.not_mem_nil
  back _ h := absurd h List.not_mem_nil
  closed _ h := absurd rfl h
  settled before component after h := by
    have hlength := congrArg List.length h
    simp [Search.empty] at hlength

/-- The low links are not part of the invariant. -/
lemma Inv.lower (h : Inv edges count path s) (value : ℕ) :
    Inv edges count path (s.lower node value) :=
  ⟨h.bound, h.visited, h.nodup, h.onStack, h.sorted, h.onPath, h.ascending, h.back, h.closed,
    h.settled⟩

lemma Inv.index_of_mem_stack (h : Inv edges count path s) {v : ℕ} (hv : v ∈ s.stack) :
    s.index v = some (s.num v) := by
  obtain ⟨i, hi⟩ := Option.ne_none_iff_exists'.1 ((h.visited v).2 (Or.inl hv))
  rw [Search.num, hi]
  rfl

lemma Inv.enter (h : Inv edges count path s) (hnode : s.index node = none) (hlt : node < count)
    (hpath : ∀ p ∈ path, Reaches edges p node) : Inv edges count (node :: path) (s.enter node) := by
  have hfresh : node ∉ s.stack ∧ node ∉ s.components.flatten := by
    rw [← not_or, ← h.visited]
    exact fun hne => hne hnode
  have hne : ∀ v ∈ s.stack, v ≠ node := fun v hv heq => hfresh.1 (heq ▸ hv)
  have hnum : ∀ v ∈ s.stack, (s.enter node).num v = s.num v := by
    intro v hv
    simp [Search.num, Search.enter, Function.update_of_ne (hne v hv)]
  have hnode' : (s.enter node).num node = s.next := by simp [Search.num, Search.enter]
  have hless : ∀ v ∈ s.stack, s.num v < s.next := fun v hv =>
    (h.bound v _ (h.index_of_mem_stack hv)).2
  have hold : ∀ v, s.index v ≠ none → (s.enter node).index v ≠ none := by
    intro v hv
    by_cases heq : v = node
    · simp [Search.enter, heq]
    · simpa [Search.enter, Function.update_of_ne heq] using hv
  constructor
  · intro v i hv
    by_cases heq : v = node
    · subst heq
      simp only [Search.enter, Function.update_self, Option.some.injEq] at hv
      subst hv
      exact ⟨hlt, Nat.lt_succ_self _⟩
    · simp only [Search.enter, Function.update_of_ne heq] at hv
      obtain ⟨hv, hi⟩ := h.bound v i hv
      exact ⟨hv, Nat.lt_succ_of_lt hi⟩
  · intro v
    by_cases heq : v = node
    · simp [Search.enter, heq]
    · simp only [Search.enter, Function.update_of_ne heq, h.visited, List.mem_cons, heq, false_or]
  · show (node :: (s.stack ++ s.components.flatten)).Nodup
    refine List.nodup_cons.2 ⟨?_, h.nodup⟩
    rw [List.mem_append, not_or]
    exact hfresh
  · intro v
    by_cases heq : v = node
    · simp [Search.enter, heq]
    · simp only [Search.enter, Function.update_of_ne heq, h.onStack, List.mem_cons, heq, false_or]
  · show (node :: s.stack).Pairwise _
    refine List.pairwise_cons.2 ⟨fun v hv => ?_, h.sorted.imp_of_mem fun {u v} hu hv huv => ?_⟩
    · rw [hnum v hv, hnode']
      exact hless v hv
    · rw [hnum u hu, hnum v hv]
      exact huv
  · intro p hp
    rcases List.mem_cons.1 hp with rfl | hp
    · exact List.mem_cons_self
    · exact List.mem_cons_of_mem _ (h.onPath p hp)
  · intro u hu v hv huv
    rcases List.mem_cons.1 hu with hu' | hu'
    · rcases List.mem_cons.1 hv with hv' | hv'
      · rw [hu', hv']
      · rw [hu', hnode', hnum v hv'] at huv
        exact absurd (hless v hv') (not_lt.2 huv)
    · rcases List.mem_cons.1 hv with hv' | hv'
      · -- Whatever is on the stack reaches the path, and the path reaches the new node.
        obtain ⟨p, hp, -, hreach⟩ := h.back u hu'
        rw [hv']
        exact hreach.trans (hpath p hp)
      · rw [hnum u hu', hnum v hv'] at huv
        exact h.ascending u hu' v hv' huv
  · intro v hv
    rcases List.mem_cons.1 hv with rfl | hv
    · exact ⟨v, List.mem_cons_self, le_refl _, Relation.ReflTransGen.refl⟩
    · obtain ⟨p, hp, hle, hreach⟩ := h.back v hv
      refine ⟨p, List.mem_cons_of_mem _ hp, ?_, hreach⟩
      rwa [hnum v hv, hnum p (h.onPath p hp)]
  · intro v hv hpath w hw
    rw [List.mem_cons, not_or] at hpath
    have hindex : s.index v ≠ none := by
      simpa [Search.enter, Function.update_of_ne hpath.1] using hv
    exact hold w (h.closed v hindex hpath.2 w hw)
  · exact h.settled

/-! ## Growth -/

/-- What a part of the search leaves as it is: the indices and low links that are there.  New
indices are above all old ones. -/
structure Grown (s s' : Search) : Prop where
  index : ∀ v i, s.index v = some i → s'.index v = some i
  low : ∀ v, s.index v ≠ none → s'.low v = s.low v
  fresh : ∀ v i, s'.index v = some i → s.index v = none → s.next ≤ i
  next : s.next ≤ s'.next

lemma Grown.visited (h : Grown s s') {v : ℕ} (hv : s.index v ≠ none) : s'.index v ≠ none := by
  obtain ⟨i, hi⟩ := Option.ne_none_iff_exists'.1 hv
  rw [h.index v i hi]
  exact Option.some_ne_none i

lemma Grown.num (h : Grown s s') {v : ℕ} (hv : s.index v ≠ none) : s'.num v = s.num v := by
  obtain ⟨i, hi⟩ := Option.ne_none_iff_exists'.1 hv
  rw [Search.num, Search.num, h.index v i hi, hi]

lemma Grown.trans (h : Grown s s') (h' : Grown s' last) : Grown s last where
  index v i hi := h'.index v i (h.index v i hi)
  low v hv := (h'.low v (h.visited hv)).trans (h.low v hv)
  fresh v i hi hv := by
    cases hv' : s'.index v with
    | none => exact h.next.trans (h'.fresh v i hi hv')
    | some j =>
      have heq := h'.index v j hv'
      rw [hi, Option.some.injEq] at heq
      rw [heq]
      exact h.fresh v j hv' hv
  next := h.next.trans h'.next

lemma Grown.enter (hnode : s.index node = none) : Grown s (s.enter node) where
  index v i hi := by
    have hne : v ≠ node := fun heq => by
      rw [heq, hnode] at hi
      cases hi
    simpa [Search.enter, Function.update_of_ne hne] using hi
  low v hv := by
    have hne : v ≠ node := fun heq => hv (heq ▸ hnode)
    simp [Search.enter, Function.update_of_ne hne]
  fresh v i hi hv := by
    by_cases heq : v = node
    · simp only [Search.enter, heq, Function.update_self, Option.some.injEq] at hi
      rw [hi]
    · simp only [Search.enter, Function.update_of_ne heq, hv] at hi
      cases hi
  next := Nat.le_succ _

/-- The low link of a node that is not yet visited may be lowered. -/
lemma Grown.lower (h : Grown s s') (hnode : s.index node = none) (value : ℕ) :
    Grown s (s'.lower node value) where
  index := h.index
  low v hv := by
    have hne : v ≠ node := fun heq => hv (heq ▸ hnode)
    rw [← h.low v hv]
    simp [Search.lower, Function.update_of_ne hne]
  fresh := h.fresh
  next := h.next

/-- The nodes that are still to be visited. -/
def unvisited (count : ℕ) (s : Search) : ℕ :=
  (List.range count).countP fun v => s.index v = none

lemma Grown.unvisited_lt (h : Grown s s') (hnode : s.index node = none)
    (hvisited : s'.index node ≠ none) (hlt : node < count) :
    unvisited count s' < unvisited count s := by
  have hmem : node ∈ List.range count := List.mem_range.2 hlt
  obtain ⟨before, after, hrange⟩ := List.append_of_mem hmem
  have hle : ∀ nodes : List ℕ, nodes.countP (fun v => s'.index v = none) ≤
      nodes.countP fun v => s.index v = none := by
    intro nodes
    refine List.countP_mono_left fun v _ hv => ?_
    rw [decide_eq_true_eq] at hv ⊢
    by_contra hne
    exact h.visited hne hv
  have hbefore := hle before
  have hafter := hle after
  simp only [unvisited, hrange, List.countP_append, List.countP_cons, hnode, hvisited, decide_true,
    decide_false, if_true, Bool.false_eq_true, if_false]
  omega

/-! ## The visit of one node -/

/-- What holds while the edges of a node are followed; some of its successors are done. -/
structure Visiting (edges : ℕ → List ℕ) (count : ℕ) (path : List ℕ) (node : ℕ) (start : Search)
    (done : List ℕ) (s : Search) : Prop where
  inv : Inv edges count (node :: path) s
  grown : Grown start s
  entered : start.index node = none
  index : s.index node = some start.next
  stack : ∃ above, s.stack = above ++ node :: start.stack ∧
    ∀ v ∈ above, ∀ w ∈ edges v, w ∈ start.stack → s.low node ≤ s.num w
  le : s.low node ≤ start.next
  link : ∃ w ∈ s.stack, s.num w = s.low node ∧ Reaches edges node w
  successors : ∀ w ∈ done, s.index w ≠ none ∧ (w ∈ start.stack → s.low node ≤ s.num w)

/-- What holds when the visit of a node has ended. -/
structure Visited (edges : ℕ → List ℕ) (count : ℕ) (path : List ℕ) (node : ℕ) (start s : Search) :
    Prop where
  inv : Inv edges count path s
  grown : Grown start s
  index : s.index node = some start.next
  stack : ∃ above, s.stack = above ++ start.stack ∧
    ∀ v ∈ above, ∀ w ∈ edges v, w ∈ start.stack → s.low node ≤ s.num w
  link : s.low node = start.next ∨ ∃ w ∈ s.stack, s.num w = s.low node ∧ Reaches edges node w

variable {start : Search} {done : List ℕ} {successor : ℕ}

lemma Visiting.enter (h : Inv edges count path s) (hnode : s.index node = none) (hlt : node < count)
    (hpath : ∀ p ∈ path, Reaches edges p node) :
    Visiting edges count path node s [] (s.enter node) where
  inv := h.enter hnode hlt hpath
  grown := Grown.enter hnode
  entered := hnode
  index := by simp [Search.enter]
  stack := ⟨[], rfl, fun _ hv => absurd hv List.not_mem_nil⟩
  le := by simp [Search.enter]
  link := ⟨node, List.mem_cons_self, by simp [Search.num, Search.enter], Relation.ReflTransGen.refl⟩
  successors _ hw := absurd hw List.not_mem_nil

lemma Visiting.mem_stack (h : Visiting edges count path node start done s) {w : ℕ}
    (hw : w ∈ start.stack) : w ∈ s.stack := by
  obtain ⟨above, hstack, -⟩ := h.stack
  rw [hstack]
  exact List.mem_append_right _ (List.mem_cons_of_mem _ hw)

@[simp] lemma low_lower (s : Search) (node value : ℕ) :
    (s.lower node value).low node = min (s.low node) value := by
  simp [Search.lower]

@[simp] lemma num_lower (s : Search) (node value v : ℕ) :
    (s.lower node value).num v = s.num v :=
  rfl

/-- A successor that has not been visited before. -/
lemma Visiting.visit (h : Visiting edges count path node start done s)
    (hsuccessor : successor ∈ edges node) (hfresh : s.index successor = none)
    (hvisited : Visited edges count (node :: path) successor s s') :
    Visiting edges count path node start (done ++ [successor])
      (s'.lower node (s'.low successor)) := by
  obtain ⟨hinv, hgrown, hindex, ⟨above', hstack', hlow'⟩, hlink'⟩ := hvisited
  have hgrownAll := h.grown.trans hgrown
  have hnode : s.index node ≠ none := by
    rw [h.index]
    exact Option.some_ne_none _
  have hlowNode : s'.low node = s.low node := hgrown.low node hnode
  have hnum : ∀ w ∈ s.stack, s'.num w = s.num w := fun w hw =>
    hgrown.num ((h.inv.visited w).2 (Or.inl hw))
  obtain ⟨above, hstack, hlow⟩ := h.stack
  refine ⟨hinv.lower _, hgrownAll.lower h.entered _, h.entered, hgrown.index _ _ h.index, ?_, ?_,
    ?_, ?_⟩
  · refine ⟨above' ++ above, ?_, fun v hv w hw hwStart => ?_⟩
    · rw [List.append_assoc, ← hstack, ← hstack']
      rfl
    · have hwStack := h.mem_stack hwStart
      rw [low_lower, num_lower]
      rcases List.mem_append.1 hv with hv | hv
      · exact (min_le_right _ _).trans (hlow' v hv w hw hwStack)
      · rw [hlowNode, hnum w hwStack]
        exact (min_le_left _ _).trans (hlow v hv w hw hwStart)
  · rw [low_lower, hlowNode]
    exact (min_le_left _ _).trans h.le
  · obtain ⟨w, hw, hwLow, hreach⟩ := h.link
    have hwStack : w ∈ s'.stack := by
      rw [hstack']
      exact List.mem_append_right _ hw
    rw [low_lower, hlowNode]
    rcases Nat.le_total (s.low node) (s'.low successor) with hle | hle
    · rw [min_eq_left hle]
      exact ⟨w, hwStack, by rw [num_lower, hnum w hw, hwLow], hreach⟩
    · rw [min_eq_right hle]
      rcases hlink' with hpopped | ⟨x, hx, hxLow, hreach'⟩
      · -- A component of its own has a larger index than the node.
        have hnext := (h.inv.bound node _ h.index).2
        have hsmall := h.le
        rw [hpopped] at hle
        omega
      · exact ⟨x, hx, hxLow, Relation.ReflTransGen.head hsuccessor hreach'⟩
  · intro w hw
    rcases List.mem_append.1 hw with hw | hw
    · obtain ⟨hwVisited, hwLow⟩ := h.successors w hw
      refine ⟨hgrown.visited hwVisited, fun hwStart => ?_⟩
      rw [low_lower, num_lower, hlowNode, hnum w (h.mem_stack hwStart)]
      exact (min_le_left _ _).trans (hwLow hwStart)
    · rw [List.mem_singleton.1 hw]
      refine ⟨?_, fun hwStart => ?_⟩
      · show s'.index successor ≠ none
        rw [hindex]
        exact Option.some_ne_none _
      · exact absurd hfresh ((h.inv.visited successor).2 (Or.inl (h.mem_stack hwStart)))

/-- A successor on the stack. -/
lemma Visiting.onStack (h : Visiting edges count path node start done s)
    (hsuccessor : successor ∈ edges node) (hstack : s.onStack successor = true) :
    Visiting edges count path node start (done ++ [successor])
      (s.lower node (s.num successor)) := by
  have hmem := (h.inv.onStack successor).1 hstack
  obtain ⟨above, habove, hlow⟩ := h.stack
  refine ⟨h.inv.lower _, h.grown.lower h.entered _, h.entered, h.index, ?_, ?_, ?_, ?_⟩
  · refine ⟨above, habove, fun v hv w hw hwStart => ?_⟩
    rw [low_lower, num_lower]
    exact (min_le_left _ _).trans (hlow v hv w hw hwStart)
  · rw [low_lower]
    exact (min_le_left _ _).trans h.le
  · rw [low_lower]
    rcases Nat.le_total (s.low node) (s.num successor) with hle | hle
    · rw [min_eq_left hle]
      exact h.link
    · rw [min_eq_right hle]
      exact ⟨successor, hmem, rfl, Relation.ReflTransGen.single hsuccessor⟩
  · intro w hw
    rw [low_lower, num_lower]
    rcases List.mem_append.1 hw with hw | hw
    · obtain ⟨hwVisited, hwLow⟩ := h.successors w hw
      exact ⟨hwVisited, fun hwStart => (min_le_left _ _).trans (hwLow hwStart)⟩
    · rw [List.mem_singleton.1 hw]
      exact ⟨(h.inv.visited successor).2 (Or.inl hmem), fun _ => min_le_right _ _⟩

/-- A successor in a component. -/
lemma Visiting.skip (h : Visiting edges count path node start done s)
    (hvisited : s.index successor ≠ none) (hstack : s.onStack successor ≠ true) :
    Visiting edges count path node start (done ++ [successor]) s := by
  refine ⟨h.inv, h.grown, h.entered, h.index, h.stack, h.le, h.link, fun w hw => ?_⟩
  rcases List.mem_append.1 hw with hw | hw
  · exact h.successors w hw
  · rw [List.mem_singleton.1 hw]
    refine ⟨hvisited, fun hwStart => ?_⟩
    exact absurd ((h.inv.onStack successor).2 (h.mem_stack hwStart)) hstack

/-! ## The end of a visit -/

lemma Visiting.num_node (h : Visiting edges count path node start done s) :
    s.num node = start.next := by
  rw [Search.num, h.index]
  rfl

/-- The stack at the start is below the node. -/
lemma Visiting.num_lt (h : Visiting edges count path node start done s) {w : ℕ}
    (hw : w ∈ start.stack) : s.num w < start.next := by
  obtain ⟨above, hstack, -⟩ := h.stack
  have hsorted := h.inv.sorted
  rw [hstack, List.pairwise_append, List.pairwise_cons] at hsorted
  rw [← h.num_node]
  exact hsorted.2.1.1 w hw

lemma Visiting.closed (h : Visiting edges count path node start (edges node) s) {v w : ℕ}
    (hv : s.index v ≠ none) (hpath : v ∉ path) (hw : w ∈ edges v) : s.index w ≠ none := by
  by_cases heq : v = node
  · rw [heq] at hw
    exact (h.successors w hw).1
  · refine h.inv.closed v hv ?_ w hw
    rw [List.mem_cons, not_or]
    exact ⟨heq, hpath⟩

/-- The node is not the root of a component: it stays on the stack. -/
lemma Visiting.leave (h : Visiting edges count path node start (edges node) s)
    (hlow : s.low node ≠ s.num node) : Visited edges count path node start s := by
  obtain ⟨root, hroot, hrootLow, hrootReach⟩ := h.link
  have hless : s.num root < s.num node := by
    have hle := h.le
    rw [h.num_node] at hlow ⊢
    omega
  refine ⟨⟨h.inv.bound, h.inv.visited, h.inv.nodup, h.inv.onStack, h.inv.sorted, ?_,
    h.inv.ascending, ?_, fun v hv hpath w hw => h.closed hv hpath hw, h.inv.settled⟩, h.grown,
    h.index, ?_, Or.inr ⟨root, hroot, hrootLow, hrootReach⟩⟩
  · exact fun p hp => h.inv.onPath p (List.mem_cons_of_mem _ hp)
  · intro v hv
    obtain ⟨p, hp, hle, hreach⟩ := h.inv.back v hv
    rcases List.mem_cons.1 hp with rfl | hp
    · -- The node reaches one with a smaller index, which reaches the path above the node.
      obtain ⟨q, hq, hqle, hqreach⟩ := h.inv.back root hroot
      rcases List.mem_cons.1 hq with rfl | hq
      · omega
      · exact ⟨q, hq, by omega, (hreach.trans hrootReach).trans hqreach⟩
    · exact ⟨p, hp, hle, hreach⟩
  · obtain ⟨above, hstack, habove⟩ := h.stack
    refine ⟨above ++ [node], by rw [hstack, List.append_assoc]; rfl, fun v hv w hw hwStart => ?_⟩
    rcases List.mem_append.1 hv with hv | hv
    · exact habove v hv w hw hwStart
    · rw [List.mem_singleton.1 hv] at hw
      exact (h.successors w hw).2 hwStart

lemma popComponent_append {root : ℕ} {above : List ℕ} (h : root ∉ above) (rest : List ℕ) :
    popComponent root (above ++ root :: rest) = (above ++ [root], rest) := by
  induction above with
  | nil => simp [popComponent]
  | cons member above ih =>
    rw [List.mem_cons, not_or] at h
    simp [popComponent, Ne.symm h.1, ih h.2]

/-- The part of the stack above the stack at the start is a component. -/
structure Popped (edges : ℕ → List ℕ) (start s : Search) (component : List ℕ) : Prop where
  stack : s.stack = component ++ start.stack
  connected : ∀ v ∈ component, ∀ w ∈ component, Reaches edges v w
  edges : ∀ v ∈ component, ∀ w ∈ edges v, w ∈ s.components.flatten ∨ w ∈ component

section

variable (h : Visiting edges count path node start (edges node) s)
  (hpath : ∀ p ∈ path, p ∈ start.stack)

include h hpath

/-- When the low link of a node is its own index, the stack down to it is its component. -/
lemma Visiting.popped (hlow : s.low node = s.num node) {above : List ℕ}
    (hstack : s.stack = above ++ node :: start.stack)
    (habove : ∀ v ∈ above, ∀ w ∈ edges v, w ∈ start.stack → s.low node ≤ s.num w) :
    Popped edges start s (above ++ [node]) := by
  have hstack' : s.stack = (above ++ [node]) ++ start.stack := by
    rw [hstack, List.append_assoc]
    rfl
  have hnodup := h.inv.nodup
  rw [hstack', List.append_assoc, List.nodup_append] at hnodup
  obtain ⟨-, hrest, hapart⟩ := hnodup
  rw [List.nodup_append] at hrest
  have hnotStart : ∀ v ∈ above ++ [node], v ∉ start.stack := fun v hv hstart =>
    hapart v hv v (List.mem_append_left _ hstart) rfl
  have hmem : ∀ v ∈ above ++ [node], v ∈ s.stack := fun v hv => by
    rw [hstack']
    exact List.mem_append_left _ hv
  have hnoPath : ∀ v ∈ above ++ [node], v ∉ path := fun v hv hp => hnotStart v hv (hpath v hp)
  -- An edge to the rest of the stack would have lowered the low link.
  have hleaves : ∀ v ∈ above ++ [node], ∀ w ∈ edges v, w ∉ start.stack := by
    intro v hv w hw hwStart
    have hsmall := h.num_lt hwStart
    have hle : s.low node ≤ s.num w := by
      rcases List.mem_append.1 hv with hv | hv
      · exact habove v hv w hw hwStart
      · rw [List.mem_singleton.1 hv] at hw
        exact (h.successors w hw).2 hwStart
    rw [hlow, h.num_node] at hle
    omega
  have hedges : ∀ v ∈ above ++ [node], ∀ w ∈ edges v,
      w ∈ s.components.flatten ∨ w ∈ above ++ [node] := by
    intro v hv w hw
    have hindex := (h.inv.visited v).2 (Or.inl (hmem v hv))
    rcases (h.inv.visited w).1 (h.closed hindex (hnoPath v hv) hw) with hwStack | hwComponents
    · rw [hstack', List.mem_append] at hwStack
      exact Or.inr (hwStack.resolve_right (hleaves v hv w hw))
    · exact Or.inl hwComponents
  have hback : ∀ v ∈ above ++ [node], Reaches edges v node := by
    intro v hv
    obtain ⟨p, hp, -, hreach⟩ := h.inv.back v (hmem v hv)
    rcases List.mem_cons.1 hp with rfl | hp
    · exact hreach
    · -- The path is not reached from the component.
      have hreached : p ∈ s.components.flatten ∨ p ∈ above ++ [node] := by
        refine Graph.mem_of_reaches (S := fun u => u ∈ s.components.flatten ∨ u ∈ above ++ [node])
          ?_ (Or.inr hv) hreach
        rintro u (hu | hu) w hw
        · exact Or.inl (h.inv.settled.closed hu hw)
        · exact hedges u hu w hw
      rcases hreached with hcomponents | hcomponent
      · exact absurd rfl (hrest.2.2 p (hpath p hp) p hcomponents)
      · exact absurd hp (hnoPath p hcomponent)
  refine ⟨hstack', fun v hv w hw => (hback v hv).trans ?_, hedges⟩
  refine h.inv.ascending node (hmem node (by simp)) w (hmem w hw) ?_
  rcases List.mem_append.1 hw with hw | hw
  · have hsorted := h.inv.sorted
    rw [hstack, List.pairwise_append] at hsorted
    exact (hsorted.2.2 w hw node List.mem_cons_self).le
  · rw [List.mem_singleton.1 hw]

/-- The node is the root of a component: the component leaves the stack. -/
lemma Visiting.pop (hlow : s.low node = s.num node) :
    Visited edges count path node start (s.finish node) := by
  obtain ⟨above, hstack, habove⟩ := h.stack
  obtain ⟨hpopped, hconnected, hedges⟩ := h.popped hpath hlow hstack habove
  have hnodup := h.inv.nodup
  have hfresh : node ∉ above := by
    rw [hstack, List.append_assoc, List.nodup_append] at hnodup
    exact fun hmem => hnodup.2.2 node hmem node List.mem_cons_self rfl
  have hfinish : s.finish node =
      { s with
        onStack := fun member => s.onStack member && member ∉ above ++ [node]
        stack := start.stack
        components := s.components ++ [(above ++ [node]).insertionSort (· ≤ ·)] } := by
    rw [Search.finish, if_neg (not_not.2 hlow), hstack, popComponent_append hfresh]
  rw [hpopped, List.append_assoc] at hnodup
  have hnotStart : ∀ v ∈ start.stack, v ∉ above ++ [node] := fun v hv hmem =>
    (List.nodup_append.1 hnodup).2.2 v hmem v (List.mem_append_left _ hv) rfl
  have hsub : ∀ v ∈ start.stack, v ∈ s.stack := fun v hv => h.mem_stack hv
  have hperm := List.perm_insertionSort (· ≤ ·) (above ++ [node])
  have hsorted : ∀ v, v ∈ (above ++ [node]).insertionSort (· ≤ ·) ↔ v ∈ above ++ [node] :=
    fun v => hperm.mem_iff
  rw [hfinish]
  refine ⟨⟨h.inv.bound, ?_, ?_, ?_, ?_, hpath, ?_, ?_, ?_, ?_⟩, ?_, h.index, ⟨[], rfl, ?_⟩, ?_⟩
  · intro v
    have hcomponents : v ∈ (s.components ++ [(above ++ [node]).insertionSort (· ≤ ·)]).flatten ↔
        v ∈ s.components.flatten ∨ v ∈ above ++ [node] := by
      rw [List.flatten_append, List.flatten_singleton, List.mem_append, hsorted]
    rw [h.inv.visited, hpopped, List.mem_append, hcomponents]
    constructor
    · rintro ((hv | hv) | hv)
      · exact Or.inr (Or.inr hv)
      · exact Or.inl hv
      · exact Or.inr (Or.inl hv)
    · rintro (hv | hv | hv)
      · exact Or.inl (Or.inr hv)
      · exact Or.inr hv
      · exact Or.inl (Or.inl hv)
  · rw [List.flatten_append, List.flatten_singleton, ← List.append_assoc]
    exact ((hperm.append_left _).trans List.perm_append_comm).nodup_iff.2 hnodup
  · intro v
    rw [Bool.and_eq_true, h.inv.onStack, hpopped, List.mem_append (t := start.stack),
      decide_eq_true_eq]
    exact ⟨fun hv => hv.1.resolve_left hv.2, fun hv => ⟨Or.inr hv, hnotStart v hv⟩⟩
  · have hpairs := h.inv.sorted
    rw [hpopped, List.pairwise_append] at hpairs
    exact hpairs.2.1
  · exact fun u hu v hv huv => h.inv.ascending u (hsub u hu) v (hsub v hv) huv
  · intro v hv
    obtain ⟨p, hp, hle, hreach⟩ := h.inv.back v (hsub v hv)
    rcases List.mem_cons.1 hp with rfl | hp
    · have hsmall := h.num_lt hv
      rw [h.num_node] at hle
      omega
    · exact ⟨p, hp, hle, hreach⟩
  · exact fun v hv hnotPath w hw => h.closed hv hnotPath hw
  · refine h.inv.settled.append (fun hempty => ?_) (fun v hv w hw => ?_) fun v hv w hw => ?_
    · have hmem := (hsorted node).2 (List.mem_append_right _ List.mem_cons_self)
      exact List.not_mem_nil (hempty ▸ hmem)
    · exact hconnected v ((hsorted v).1 hv) w ((hsorted w).1 hw)
    · rw [hsorted]
      exact hedges v ((hsorted v).1 hv) w hw
  · exact ⟨h.grown.index, h.grown.low, h.grown.fresh, h.grown.next⟩
  · exact fun v hv => absurd hv List.not_mem_nil
  · exact Or.inl (hlow.trans h.num_node)

lemma Visiting.finish : Visited edges count path node start (s.finish node) := by
  by_cases hlow : s.low node = s.num node
  · exact h.pop hpath hlow
  · have hfinish : s.finish node = s := by rw [Search.finish, if_pos hlow]
    rw [hfinish]
    exact h.leave hlow

end

/-! ## Runs -/

/-- Following one edge of a node. -/
def follow (edges : ℕ → List ℕ) (depth node : ℕ) (s : Search) (successor : ℕ) : Search :=
  if s.index successor = none then
    let visited := visit edges depth successor s
    visited.lower node (visited.low successor)
  else if s.onStack successor then s.lower node (s.num successor)
  else s

lemma visit_succ (edges : ℕ → List ℕ) (depth node : ℕ) (s : Search) :
    visit edges (depth + 1) node s =
      ((edges node).foldl (follow edges depth node) (s.enter node)).finish node :=
  rfl

lemma Visiting.unvisited_lt (h : Visiting edges count path node start done s) (hlt : node < count) :
    unvisited count s < unvisited count start := by
  refine h.grown.unvisited_lt h.entered ?_ hlt
  rw [h.index]
  exact Option.some_ne_none _

/-- A visit that can go deep enough leaves the components of what it has reached. -/
theorem visit_spec (hedges : ∀ v < count, ∀ w ∈ edges v, w < count) (depth : ℕ) :
    ∀ {path : List ℕ} {node : ℕ} {s : Search}, Inv edges count path s → s.index node = none →
      node < count → (∀ p ∈ path, Reaches edges p node) → unvisited count s ≤ depth →
      Visited edges count path node s (visit edges depth node s) := by
  induction depth with
  | zero =>
    intro path node s hinv hnode hlt hpath hdepth
    have hless := (Visiting.enter hinv hnode hlt hpath).unvisited_lt hlt
    omega
  | succ depth ih =>
    intro path node s hinv hnode hlt hpath hdepth
    -- The successors one after the other; those that are done are the first of the edges.
    have hfold : ∀ rest done s', done ++ rest = edges node →
        Visiting edges count path node s done s' →
        Visiting edges count path node s (edges node)
          (rest.foldl (follow edges depth node) s') := by
      intro rest
      induction rest with
      | nil =>
        intro done s' hdone hvisiting
        rw [List.append_nil] at hdone
        rwa [← hdone]
      | cons successor rest ihRest =>
        intro done s' hdone hvisiting
        have hsuccessor : successor ∈ edges node := by
          rw [← hdone]
          exact List.mem_append_right _ List.mem_cons_self
        have hdone' : (done ++ [successor]) ++ rest = edges node := by
          rw [← hdone, List.append_assoc]
          rfl
        rw [List.foldl_cons, follow]
        by_cases hfresh : s'.index successor = none
        · have hreach : ∀ p ∈ node :: path, Reaches edges p successor := by
            intro p hp
            rcases List.mem_cons.1 hp with rfl | hp
            · exact Relation.ReflTransGen.single hsuccessor
            · exact (hpath p hp).tail hsuccessor
          have hremaining : unvisited count s' ≤ depth := by
            have hless := hvisiting.unvisited_lt hlt
            omega
          have hvisited :=
            ih hvisiting.inv hfresh (hedges node hlt _ hsuccessor) hreach hremaining
          rw [if_pos hfresh]
          exact ihRest _ _ hdone' (hvisiting.visit hsuccessor hfresh hvisited)
        · rw [if_neg hfresh]
          by_cases hstack : s'.onStack successor = true
          · rw [if_pos hstack]
            exact ihRest _ _ hdone' (hvisiting.onStack hsuccessor hstack)
          · rw [if_neg hstack]
            exact ihRest _ _ hdone' (hvisiting.skip hfresh hstack)
    rw [visit_succ]
    exact (hfold _ [] _ rfl (Visiting.enter hinv hnode hlt hpath)).finish hinv.onPath

/-- **The components** hold every node once, are the classes of nodes that reach each other, and are
in an order in which an edge goes to the same component or to an earlier one. -/
theorem components_spec (hedges : ∀ v < count, ∀ w ∈ edges v, w < count) :
    (components edges count).flatten.Nodup ∧
      (∀ v, v ∈ (components edges count).flatten ↔ v < count) ∧
      Settled edges (components edges count) := by
  have hfold : ∀ nodes : List ℕ, (∀ v ∈ nodes, v < count) → ∀ s, Inv edges count [] s →
      ∃ s', nodes.foldl (fun s node =>
          if s.index node = none then visit edges count node s else s) s = s' ∧
        Inv edges count [] s' ∧ (∀ v, s.index v ≠ none → s'.index v ≠ none) ∧
        ∀ v ∈ nodes, s'.index v ≠ none := by
    intro nodes
    induction nodes with
    | nil => exact fun _ s hs => ⟨s, rfl, hs, fun _ h => h, fun _ hv => absurd hv List.not_mem_nil⟩
    | cons node nodes ih =>
      intro hnodes s hs
      have hlt := hnodes node List.mem_cons_self
      have hrest : ∀ v ∈ nodes, v < count := fun v hv => hnodes v (List.mem_cons_of_mem _ hv)
      rw [List.foldl_cons]
      by_cases hfresh : s.index node = none
      · have hdepth : unvisited count s ≤ count := by
          simpa [unvisited] using (List.countP_le_length (l := List.range count))
        have hvisited := visit_spec hedges count hs hfresh hlt
          (fun _ hp => absurd hp List.not_mem_nil) hdepth
        rw [if_pos hfresh]
        obtain ⟨s', hrun, hinv, hgrown, hall⟩ := ih hrest _ hvisited.inv
        refine ⟨s', hrun, hinv, fun v hv => hgrown v (hvisited.grown.visited hv), fun v hv => ?_⟩
        rcases List.mem_cons.1 hv with rfl | hv
        · refine hgrown v ?_
          rw [hvisited.index]
          exact Option.some_ne_none _
        · exact hall v hv
      · rw [if_neg hfresh]
        obtain ⟨s', hrun, hinv, hgrown, hall⟩ := ih hrest s hs
        refine ⟨s', hrun, hinv, hgrown, fun v hv => ?_⟩
        rcases List.mem_cons.1 hv with rfl | hv
        · exact hgrown v hfresh
        · exact hall v hv
  obtain ⟨s, hrun, hinv, -, hall⟩ :=
    hfold (List.range count) (fun v hv => List.mem_range.1 hv) Search.empty (Inv.empty edges count)
  -- Without a path the stack is empty.
  have hstack : s.stack = [] := List.eq_nil_iff_forall_not_mem.2 fun v hv => by
    obtain ⟨p, hp, -⟩ := hinv.back v hv
    exact List.not_mem_nil hp
  rw [components, hrun]
  refine ⟨?_, fun v => ⟨fun hv => ?_, fun hv => ?_⟩, hinv.settled⟩
  · have hnodup := hinv.nodup
    rwa [hstack, List.nil_append] at hnodup
  · obtain ⟨i, hi⟩ := Option.ne_none_iff_exists'.1 ((hinv.visited v).2 (Or.inr hv))
    exact (hinv.bound v i hi).1
  · have hvisited := (hinv.visited v).1 (hall v (List.mem_range.2 hv))
    rw [hstack] at hvisited
    exact hvisited.resolve_left List.not_mem_nil

end Graph

end Chtholly
