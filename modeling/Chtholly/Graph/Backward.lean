import Mathlib.Data.Set.Basic
import Mathlib.Logic.Relation

/-!
# Liveness over a graph

An item is live at a node when some path leads from the node to a use of the item and no node that
the path leaves defines the item anew.  The sets of a backward dataflow analysis are compared with
this: a store that solves the equations of the analysis holds every live item, and a store that was
built from empty sets holds no other.

## Main definitions

* `Backward.Keeps` — paths on which an item keeps its value.
* `Backward.Live` — live items.
* `Backward.Solves` — the equation of a node.

## Main results

* `Backward.live_iff` — an item is live where a path that keeps it leads to a use.
* `Backward.mem_of_live` — a solution holds the live items.
-/

set_option autoImplicit false

namespace Chtholly

namespace Backward

variable {ν ι : Type} {next : ν → ν → Prop} {uses defines : ν → ι → Prop} {n m : ν} {x : ι}

/-- The paths on which no node that is left defines the item. -/
def Keeps (next : ν → ν → Prop) (defines : ν → ι → Prop) (x : ι) : ν → ν → Prop :=
  Relation.ReflTransGen fun n m => ¬ defines n x ∧ next n m

/-- A live item: the node uses it, or the node leaves it as it is and it is live at a successor. -/
inductive Live (next : ν → ν → Prop) (uses defines : ν → ι → Prop) (x : ι) : ν → Prop
  | here {n : ν} : uses n x → Live next uses defines x n
  | later {n m : ν} : ¬ defines n x → next n m → Live next uses defines x m →
      Live next uses defines x n

/-- What is live at the end of a path is live at its start. -/
lemma Live.of_keeps (hpath : Keeps next defines x n m) (h : Live next uses defines x m) :
    Live next uses defines x n := by
  induction hpath using Relation.ReflTransGen.head_induction_on with
  | refl => exact h
  | head hstep _ ih => exact .later hstep.1 hstep.2 ih

/-- An item is live where a path that keeps it leads to a use. -/
theorem live_iff : Live next uses defines x n ↔ ∃ m, Keeps next defines x n m ∧ uses m x := by
  constructor
  · intro h
    induction h with
    | here huse => exact ⟨_, .refl, huse⟩
    | later hkeep hnext _ ih =>
      obtain ⟨m, hpath, huse⟩ := ih
      exact ⟨m, .head ⟨hkeep, hnext⟩ hpath, huse⟩
  · rintro ⟨m, hpath, huse⟩
    exact Live.of_keeps hpath (.here huse)

/-! ## The equations -/

/-- The equation of a node: it holds what it uses, and what its successors hold and it does not
define. -/
def Solves (next : ν → ν → Prop) (uses defines : ν → ι → Prop) (held : ν → Set ι) (n : ν) : Prop :=
  ∀ x, x ∈ held n ↔ uses n x ∨ ¬ defines n x ∧ ∃ m, next n m ∧ x ∈ held m

/-- A store that solves the equations of a closed set of nodes holds the live items there. -/
theorem mem_of_live (held : ν → Set ι) (nodes : Set ν)
    (hclosed : ∀ n ∈ nodes, ∀ m, next n m → m ∈ nodes)
    (hsolves : ∀ n ∈ nodes, Solves next uses defines held n)
    (h : Live next uses defines x n) (hn : n ∈ nodes) : x ∈ held n := by
  induction h with
  | here huse => exact (hsolves _ hn x).2 (Or.inl huse)
  | later hkeep hnext _ ih =>
    exact (hsolves _ hn x).2 (Or.inr ⟨hkeep, _, hnext, ih (hclosed _ hn _ hnext)⟩)

/-- When a store holds live items only, so does what the equation of a node gives. -/
lemma live_of_equation (held : ν → Set ι) (hheld : ∀ m, x ∈ held m → Live next uses defines x m)
    (h : uses n x ∨ ¬ defines n x ∧ ∃ m, next n m ∧ x ∈ held m) :
    Live next uses defines x n := by
  rcases h with huse | ⟨hkeep, m, hnext, hmem⟩
  · exact .here huse
  · exact .later hkeep hnext (hheld m hmem)

end Backward

end Chtholly
