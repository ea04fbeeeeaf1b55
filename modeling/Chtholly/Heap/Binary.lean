import Mathlib.Data.Multiset.Range
import Mathlib.Data.Multiset.MapFold
import Mathlib.Logic.Equiv.Basic
import Mathlib.Order.Defs.LinearOrder

/-!
# Binary heaps in an array

The first `count` cells of an array hold a binary heap by a key: the cell `index` has its parent at
`(index - 1) / 2`.  An element that is out of order with its parent only is sifted up, one that is
out of order with its children only is sifted down.  Where an element is removed from the middle, the
last element is put into the hole, and the key of the parent says which way it has to go.

## Main definitions

* `Heap.Ordered`, `Heap.elements` — the order of a heap, and its elements.
* `Heap.siftUp`, `Heap.siftDown` — the sifts.
* `Heap.insert`, `Heap.remove` — the operations.

## Main results

* `Heap.insert_ordered`, `Heap.remove_ordered` — the operations keep the order.
* `Heap.elements_remove` — what a removal does to the elements.
* `Heap.Ordered.root_le` — the root has the smallest key.
-/

set_option autoImplicit false

namespace Chtholly

namespace Heap

variable {α κ : Type} [LinearOrder κ]

def parent (index : ℕ) : ℕ := (index - 1) / 2

lemma parent_lt {index : ℕ} (h : index ≠ 0) : parent index < index := by
  unfold parent
  omega

/-- The children of a cell are the two behind its double. -/
lemma parent_eq_iff {child index : ℕ} (h : child ≠ 0) :
    parent child = index ↔ child = index * 2 + 1 ∨ child = index * 2 + 2 := by
  unfold parent
  omega

/-- No cell has a smaller key than its parent. -/
def Ordered (key : α → κ) (items : ℕ → α) (count : ℕ) : Prop :=
  ∀ index, index ≠ 0 → index < count → key (items (parent index)) ≤ key (items index)

variable {key : α → κ} {items : ℕ → α} {count : ℕ}

/-- The root has the smallest key. -/
lemma Ordered.root_le (h : Ordered key items count) :
    ∀ index, index < count → key (items 0) ≤ key (items index) := by
  intro index
  induction index using Nat.strong_induction_on with
  | _ index ih =>
    intro hindex
    by_cases hzero : index = 0
    · rw [hzero]
    · have hparent := parent_lt hzero
      exact (ih (parent index) hparent (hparent.trans hindex)).trans (h index hzero hindex)

/-! ## Cells -/

def swap (items : ℕ → α) (left right : ℕ) : ℕ → α :=
  Function.update (Function.update items left (items right)) right (items left)

lemma swap_left (items : ℕ → α) (left right : ℕ) : swap items left right left = items right := by
  by_cases h : left = right
  · simp [swap, h]
  · simp [swap, h]

lemma swap_right (items : ℕ → α) (left right : ℕ) : swap items left right right = items left := by
  simp [swap]

lemma swap_of_ne (items : ℕ → α) {left right index : ℕ} (hleft : index ≠ left)
    (hright : index ≠ right) : swap items left right index = items index := by
  simp [swap, hleft, hright]

/-- The elements of the heap. -/
def elements (items : ℕ → α) (count : ℕ) : Multiset α :=
  (Multiset.range count).map items

lemma mem_elements {item : α} :
    item ∈ elements items count ↔ ∃ index, index < count ∧ items index = item := by
  simp [elements]

lemma elements_congr {other : ℕ → α} (h : ∀ index, index < count → items index = other index) :
    elements items count = elements other count :=
  Multiset.map_congr rfl fun index hindex => h index (Multiset.mem_range.1 hindex)

lemma elements_succ (items : ℕ → α) (count : ℕ) :
    elements items (count + 1) = items count ::ₘ elements items count := by
  rw [elements, Multiset.range_succ, Multiset.map_cons, elements]

lemma elements_swap (items : ℕ → α) {left right : ℕ} (hleft : left < count)
    (hright : right < count) : elements (swap items left right) count = elements items count := by
  have hcomp : swap items left right = items ∘ Equiv.swap left right := by
    funext index
    rw [Function.comp_apply]
    by_cases hl : index = left
    · rw [hl, swap_left, Equiv.swap_apply_left]
    · by_cases hr : index = right
      · rw [hr, swap_right, Equiv.swap_apply_right]
      · rw [swap_of_ne items hl hr, Equiv.swap_apply_of_ne_of_ne hl hr]
  have hrange : (Multiset.range count).map (Equiv.swap left right) = Multiset.range count := by
    apply (Multiset.Nodup.ext ((Multiset.nodup_range count).map (Equiv.injective _))
      (Multiset.nodup_range count)).2
    intro index
    rw [Multiset.mem_map, Multiset.mem_range]
    constructor
    · rintro ⟨other, hother, rfl⟩
      rw [Multiset.mem_range] at hother
      rw [Equiv.swap_apply_def]
      split_ifs <;> assumption
    · intro hindex
      refine ⟨Equiv.swap left right index, ?_, Equiv.swap_apply_self _ _ _⟩
      rw [Multiset.mem_range, Equiv.swap_apply_def]
      split_ifs <;> assumption
  rw [elements, hcomp, ← Multiset.map_map, hrange, elements]

/-! ## Sifting up -/

/-- A heap but for one cell, which may have a smaller key than its parent. -/
structure UpOrdered (key : α → κ) (items : ℕ → α) (count hole : ℕ) : Prop where
  others : ∀ index, index ≠ 0 → index < count → index ≠ hole →
    key (items (parent index)) ≤ key (items index)
  children : ∀ index, index ≠ 0 → index < count → parent index = hole → hole ≠ 0 →
    key (items (parent hole)) ≤ key (items index)

def siftUp (key : α → κ) (items : ℕ → α) (index : ℕ) : ℕ → α :=
  if _h : index = 0 then items
  else if key (items index) < key (items (parent index)) then
    siftUp key (swap items index (parent index)) (parent index)
  else items
termination_by index
decreasing_by exact parent_lt _h

/-- A swap with the parent moves the cell that is out of order up. -/
lemma UpOrdered.swap_parent {hole : ℕ} (h : UpOrdered key items count hole) (hzero : hole ≠ 0)
    (hcount : hole < count) (hless : key (items hole) < key (items (parent hole))) :
    UpOrdered key (swap items hole (parent hole)) count (parent hole) := by
  have hparent := parent_lt hzero
  constructor
  · intro index hindex hlt hne
    by_cases hhole : index = hole
    · rw [hhole, swap_left, swap_right]
      exact hless.le
    rw [swap_of_ne items hhole hne]
    by_cases hchild : parent index = hole
    · rw [hchild, swap_left]
      exact h.children index hindex hlt hchild hzero
    by_cases hsibling : parent index = parent hole
    · rw [hsibling, swap_right]
      have hle := h.others index hindex hlt hhole
      rw [hsibling] at hle
      exact hless.le.trans hle
    rw [swap_of_ne items hchild hsibling]
    exact h.others index hindex hlt hhole
  · intro index hindex hlt hchild htop
    have hgrand := parent_lt htop
    rw [swap_of_ne items (by omega) (by omega)]
    have hup := h.others (parent hole) htop (by omega) (by omega)
    by_cases hhole : index = hole
    · rw [hhole, swap_left]
      exact hup
    · have hne : index ≠ parent hole := by
        have := parent_lt hindex
        omega
      rw [swap_of_ne items hhole hne]
      have hle := h.others index hindex hlt hhole
      rw [hchild] at hle
      exact hup.trans hle

lemma siftUp_ordered (hole : ℕ) :
    ∀ {items : ℕ → α}, UpOrdered key items count hole → hole < count →
      Ordered key (siftUp key items hole) count := by
  induction hole using Nat.strong_induction_on with
  | _ hole ih =>
    intro items h hcount
    rw [siftUp]
    split
    case isTrue hzero =>
      intro index hindex hlt
      exact h.others index hindex hlt (hzero ▸ hindex)
    case isFalse hzero =>
      have hparent := parent_lt hzero
      split
      case isTrue hless =>
        exact ih (parent hole) hparent (h.swap_parent hzero hcount hless) (hparent.trans hcount)
      case isFalse hless =>
        intro index hindex hlt
        by_cases hhole : index = hole
        · rw [hhole]
          exact not_lt.1 hless
        · exact h.others index hindex hlt hhole

lemma elements_siftUp (hole : ℕ) :
    ∀ {items : ℕ → α}, hole < count →
      elements (siftUp key items hole) count = elements items count := by
  induction hole using Nat.strong_induction_on with
  | _ hole ih =>
    intro items hcount
    rw [siftUp]
    split
    · rfl
    case isFalse hzero =>
      have hparent := parent_lt hzero
      split
      · rw [ih (parent hole) hparent (hparent.trans hcount),
          elements_swap items hcount (hparent.trans hcount)]
      · rfl

/-! ## Sifting down -/

/-- A heap but for one cell, which may have a larger key than its children. -/
structure DownOrdered (key : α → κ) (items : ℕ → α) (count hole : ℕ) : Prop where
  others : ∀ index, index ≠ 0 → index < count → parent index ≠ hole →
    key (items (parent index)) ≤ key (items index)
  children : ∀ index, index ≠ 0 → index < count → parent index = hole → hole ≠ 0 →
    key (items (parent hole)) ≤ key (items index)

/-- The child with the smaller key, where the first child is in the heap. -/
def smallerChild (key : α → κ) (items : ℕ → α) (count index : ℕ) : ℕ :=
  if index * 2 + 2 < count ∧ key (items (index * 2 + 2)) < key (items (index * 2 + 1)) then
    index * 2 + 2
  else index * 2 + 1

lemma smallerChild_eq (key : α → κ) (items : ℕ → α) (count index : ℕ) :
    smallerChild key items count index = index * 2 + 1 ∨
      smallerChild key items count index = index * 2 + 2 := by
  unfold smallerChild
  split
  · exact Or.inr rfl
  · exact Or.inl rfl

lemma smallerChild_lt {key : α → κ} {items : ℕ → α} {count index : ℕ}
    (h : index * 2 + 1 < count) : smallerChild key items count index < count := by
  unfold smallerChild
  split
  case isTrue hright => exact hright.1
  case isFalse => exact h

lemma smallerChild_le {key : α → κ} {items : ℕ → α} {count index child : ℕ} (hzero : child ≠ 0)
    (hchild : child < count) (hparent : parent child = index) :
    key (items (smallerChild key items count index)) ≤ key (items child) := by
  unfold smallerChild
  rcases (parent_eq_iff hzero).1 hparent with rfl | rfl
  · split
    case isTrue hright => exact hright.2.le
    case isFalse => exact le_rfl
  · split
    case isTrue => exact le_rfl
    case isFalse hright => exact not_lt.1 fun hless => hright ⟨hchild, hless⟩

def siftDown (key : α → κ) (items : ℕ → α) (count index : ℕ) : ℕ → α :=
  if _h : index * 2 + 1 < count then
    if key (items (smallerChild key items count index)) < key (items index) then
      siftDown key (swap items index (smallerChild key items count index)) count
        (smallerChild key items count index)
    else items
  else items
termination_by count - index
decreasing_by
  have := smallerChild_eq key items count index
  omega

/-- A swap with the smaller child moves the cell that is out of order down. -/
lemma DownOrdered.swap_child {key : α → κ} {items : ℕ → α} {count hole : ℕ}
    (h : DownOrdered key items count hole) (hcount : hole * 2 + 1 < count)
    (hless : key (items (smallerChild key items count hole)) < key (items hole)) :
    DownOrdered key (swap items hole (smallerChild key items count hole)) count
      (smallerChild key items count hole) := by
  have hmin : ∀ index, index ≠ 0 → index < count → parent index = hole →
      key (items (smallerChild key items count hole)) ≤ key (items index) :=
    fun index hindex hlt hparent => smallerChild_le hindex hlt hparent
  have hchild := smallerChild_eq key items count hole
  have hlt := @smallerChild_lt _ _ _ key items count hole hcount
  generalize smallerChild key items count hole = child at hless hmin hchild hlt ⊢
  have hparent : parent child = hole := (parent_eq_iff (by omega)).2 hchild
  constructor
  · intro index hindex hindex' hne
    by_cases hself : index = child
    · rw [hself, hparent, swap_left, swap_right]
      exact hless.le
    by_cases hsibling : parent index = hole
    · have hhole : index ≠ hole := by
        have := parent_lt hindex
        omega
      rw [hsibling, swap_left, swap_of_ne items hhole hself]
      exact hmin index hindex hindex' hsibling
    rw [swap_of_ne items hsibling hne]
    by_cases hhole : index = hole
    · rw [hhole, swap_left]
      exact h.children child (by omega) hlt hparent (hhole ▸ hindex)
    · rw [swap_of_ne items hhole hself]
      exact h.others index hindex hindex' hsibling
  · intro index hindex hindex' hgrandchild _
    have hlt' := parent_lt hindex
    rw [hparent, swap_left, swap_of_ne items (by omega) (by omega)]
    have hle := h.others index hindex hindex' (by omega)
    rwa [hgrandchild] at hle

/-- A cell that is in order with its children ends the sift. -/
lemma DownOrdered.ordered {hole : ℕ} (h : DownOrdered key items count hole)
    (hchildren : ∀ index, index ≠ 0 → index < count → parent index = hole →
      key (items hole) ≤ key (items index)) : Ordered key items count := by
  intro index hindex hlt
  by_cases hparent : parent index = hole
  · rw [hparent]
    exact hchildren index hindex hlt hparent
  · exact h.others index hindex hlt hparent

lemma siftDown_ordered (items : ℕ → α) (count hole : ℕ) (h : DownOrdered key items count hole) :
    Ordered key (siftDown key items count hole) count := by
  fun_induction siftDown key items count hole with
  | case1 items hole hcount hless ih => exact ih (h.swap_child hcount hless)
  | case2 items hole hcount hless =>
    apply h.ordered
    intro index hindex hlt hparent
    exact (not_lt.1 hless).trans (smallerChild_le hindex hlt hparent)
  | case3 items hole hcount =>
    apply h.ordered
    intro index hindex hlt hparent
    have := (parent_eq_iff hindex).1 hparent
    omega

lemma elements_siftDown (items : ℕ → α) (count hole : ℕ) :
    elements (siftDown key items count hole) count = elements items count := by
  fun_induction siftDown key items count hole with
  | case1 items hole hcount hless ih =>
    rw [ih, elements_swap items (by omega) (smallerChild_lt hcount)]
  | case2 => rfl
  | case3 => rfl

variable {index : ℕ}

/-- The cells in front of the one that is sifted down stay. -/
lemma siftDown_of_lt (items : ℕ → α) (count hole : ℕ) (h : index < hole) :
    siftDown key items count hole index = items index := by
  fun_induction siftDown key items count hole with
  | case1 items hole hcount hless ih =>
    have hchild := smallerChild_eq key items count hole
    rw [ih (by omega), swap_of_ne items (by omega) (by omega)]
  | case2 => rfl
  | case3 => rfl

/-! ## Operations -/

def insert (key : α → κ) (items : ℕ → α) (count : ℕ) (item : α) : ℕ → α :=
  siftUp key (Function.update items count item) count

lemma insert_ordered (item : α) (h : Ordered key items count) :
    Ordered key (insert key items count item) (count + 1) := by
  apply siftUp_ordered
  · constructor
    · intro index hindex hlt hne
      have hparent := parent_lt hindex
      rw [Function.update_of_ne (by omega), Function.update_of_ne (by omega)]
      exact h index hindex (by omega)
    · intro index hindex hlt hparent _
      have := parent_lt hindex
      omega
  · exact Nat.lt_succ_self count

/-- The last element goes into the hole. -/
def fill (items : ℕ → α) (last index : ℕ) : ℕ → α :=
  Function.update items index (items last)

def remove (key : α → κ) (items : ℕ → α) (count index : ℕ) : ℕ → α :=
  if index = count - 1 then items
  else if index ≠ 0 ∧ key (fill items (count - 1) index index) <
      key (fill items (count - 1) index (parent index)) then
    siftUp key (fill items (count - 1) index) index
  else siftDown key (fill items (count - 1) index) (count - 1) index

/-- The elements around the hole are in order. -/
lemma Ordered.fill_children {hole : ℕ} (h : Ordered key items count) (hhole : hole < count - 1) :
    ∀ index, index ≠ 0 → index < count - 1 → parent index = hole → hole ≠ 0 →
      key (fill items (count - 1) hole (parent hole)) ≤
        key (fill items (count - 1) hole index) := by
  intro index hindex hlt hparent hzero
  have hlt' := parent_lt hindex
  have hlt'' := parent_lt hzero
  rw [fill, Function.update_of_ne (by omega), Function.update_of_ne (by omega)]
  have hle := h index hindex (by omega)
  rw [hparent] at hle
  exact (h hole hzero (by omega)).trans hle

lemma remove_ordered (h : Ordered key items count) (hindex : index < count) :
    Ordered key (remove key items count index) (count - 1) := by
  rw [remove]
  split
  · intro other hother hlt
    exact h other hother (by omega)
  case isFalse hlast =>
    have hchildren := h.fill_children (show index < count - 1 by omega)
    split
    case isTrue hup =>
      apply siftUp_ordered
      · refine ⟨?_, hchildren⟩
        intro other hother hlt hne
        by_cases hparent : parent other = index
        · -- the new element is smaller than the parent of the hole
          have hle := hchildren other hother hlt hparent hup.1
          rw [hparent]
          exact hup.2.le.trans hle
        · rw [fill, Function.update_of_ne hparent, Function.update_of_ne hne]
          exact h other hother (by omega)
      · omega
    case isFalse hdown =>
      apply siftDown_ordered
      refine ⟨?_, hchildren⟩
      intro other hother hlt hparent
      by_cases hself : other = index
      · rw [hself] at hother ⊢
        exact not_lt.1 fun hless => hdown ⟨hother, hless⟩
      · rw [fill, Function.update_of_ne hparent, Function.update_of_ne hself]
        exact h other hother (by omega)

/-- Every element but the one at the index stays. -/
lemma elements_remove (key : α → κ) (hindex : index < count) :
    items index ::ₘ elements (remove key items count index) (count - 1) =
      elements items count := by
  obtain ⟨last, rfl⟩ : ∃ last, count = last + 1 := ⟨count - 1, by omega⟩
  rw [Nat.add_sub_cancel, remove, Nat.add_sub_cancel]
  split
  case isTrue hlast => rw [hlast, elements_succ]
  case isFalse hlast =>
    have hfill : items index ::ₘ elements (fill items last index) last =
        elements items (last + 1) := by
      rw [← elements_swap items hindex (Nat.lt_succ_self last), elements_succ, swap_right]
      congr 1
      apply elements_congr
      intro other hother
      by_cases hself : other = index
      · rw [hself, swap_left, fill, Function.update_self]
      · rw [swap_of_ne items hself hother.ne, fill, Function.update_of_ne hself]
    split
    · rw [elements_siftUp index (by omega), hfill]
    · rw [elements_siftDown, hfill]

/-- The cells in front of the hole stay if the last element does not go up. -/
lemma remove_of_lt {cell : ℕ}
    (hup : ¬(index ≠ count - 1 ∧ index ≠ 0 ∧ key (fill items (count - 1) index index) <
      key (fill items (count - 1) index (parent index)))) (hcell : cell < index) :
    remove key items count index cell = items cell := by
  unfold remove
  split
  · rfl
  case isFalse hlast =>
    rw [if_neg fun h => hup ⟨hlast, h⟩, siftDown_of_lt _ _ _ hcell, fill,
      Function.update_of_ne hcell.ne]

/-- If it goes up, it is in front of the hole with the elements from there. -/
lemma elements_remove_up
    (hup : index ≠ count - 1 ∧ index ≠ 0 ∧ key (fill items (count - 1) index index) <
      key (fill items (count - 1) index (parent index))) :
    elements (remove key items count index) (index + 1) =
      items (count - 1) ::ₘ elements items index := by
  rw [remove, if_neg hup.1, if_pos hup.2, elements_siftUp index (Nat.lt_succ_self index),
    elements_succ, fill, Function.update_self]
  congr 1
  apply elements_congr
  intro cell hcell
  rw [Function.update_of_ne hcell.ne]

end Heap

end Chtholly
