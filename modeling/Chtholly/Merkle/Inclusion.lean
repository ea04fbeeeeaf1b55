import Chtholly.Merkle.Extension

/-!
# Inclusion in a hash tree

The siblings on the way from a leaf up to the root let a verifier rebuild the root from the leaf.
The way is a recursion on the tree, and the siblings are taken from the front of a list on the way
back, the deepest first.

## Main definitions

* `Merkle.path` — the siblings of a leaf, deepest first.
* `Merkle.Ascent`, `Merkle.ascend` — the root rebuilt from a leaf and the front of a list.

## Main results

* `Merkle.ascend_path` — the siblings of a leaf rebuild the root.
* `Merkle.ascend_inj` — without collisions, only the leaf and its siblings do.
-/

set_option autoImplicit false

namespace Chtholly

namespace Merkle

variable {D : Type*} (node : D → D → D)

/-- The siblings of leaf `i` of the `count` leaves from `begin` on, deepest first. -/
def path (empty : D) (leaf : ℕ → D) (begin count i : ℕ) : List D :=
  if count ≤ 1 then []
  else if i < split count then
    path empty leaf begin (split count) i ++
      [root node empty leaf (begin + split count) (count - split count)]
  else
    path empty leaf (begin + split count) (count - split count) (i - split count) ++
      [root node empty leaf begin (split count)]
termination_by count
decreasing_by
  · exact split_lt (by omega)
  · have := split_pos count
    omega

/-- The root rebuilt so far, the siblings that are left, and the pairs that were hashed. -/
structure Ascent (D : Type*) where
  root : D
  rest : List D
  hashed : List (D × D)

/-- The next sibling lies to the right. -/
def Ascent.joinRight (a : Ascent D) : Option (Ascent D) :=
  match a.rest with
  | [] => none
  | c :: rest => some ⟨node a.root c, rest, (a.root, c) :: a.hashed⟩

/-- The next sibling lies to the left. -/
def Ascent.joinLeft (a : Ascent D) : Option (Ascent D) :=
  match a.rest with
  | [] => none
  | c :: rest => some ⟨node c a.root, rest, (c, a.root) :: a.hashed⟩

/-- Rebuild the root over `count` leaves from leaf `i` and the front of a list of siblings. -/
def ascend (i count : ℕ) (h : D) (siblings : List D) : Option (Ascent D) :=
  if count ≤ 1 then some ⟨h, siblings, []⟩
  else if i < split count then (ascend i (split count) h siblings).bind (·.joinRight node)
  else (ascend (i - split count) (count - split count) h siblings).bind (·.joinLeft node)
termination_by count
decreasing_by
  · exact split_lt (by omega)
  · have := split_pos count
    omega

section Laws

variable {node} {empty : D} {leaf : ℕ → D} {begin count i : ℕ} {h : D} {siblings rest : List D}
  {a b : Ascent D}

lemma joinRight_eq_some : a.joinRight node = some b ↔
    ∃ c rest, a.rest = c :: rest ∧ b = ⟨node a.root c, rest, (a.root, c) :: a.hashed⟩ := by
  unfold Ascent.joinRight
  split
  · simp_all
  · rename_i c rest hrest
    simp [hrest, eq_comm]

lemma joinLeft_eq_some : a.joinLeft node = some b ↔
    ∃ c rest, a.rest = c :: rest ∧ b = ⟨node c a.root, rest, (c, a.root) :: a.hashed⟩ := by
  unfold Ascent.joinLeft
  split
  · simp_all
  · rename_i c rest hrest
    simp [hrest, eq_comm]

lemma ascend_of_le_one (hc : count ≤ 1) : ascend node i count h siblings = some ⟨h, siblings, []⟩ := by
  rw [ascend, if_pos hc]

lemma ascend_left (hc : ¬count ≤ 1) (hi : i < split count) :
    ascend node i count h siblings =
      (ascend node i (split count) h siblings).bind (·.joinRight node) := by
  rw [ascend, if_neg hc, if_pos hi]

lemma ascend_right (hc : ¬count ≤ 1) (hi : ¬i < split count) :
    ascend node i count h siblings =
      (ascend node (i - split count) (count - split count) h siblings).bind (·.joinLeft node) := by
  rw [ascend, if_neg hc, if_neg hi]

/-- The siblings of a leaf rebuild the root, and what follows them is left. -/
theorem ascend_path (hi : i < count) :
    ∃ hashed, ascend node i count (leaf (begin + i)) (path node empty leaf begin count i ++ rest) =
      some ⟨root node empty leaf begin count, rest, hashed⟩ := by
  induction count using Nat.strongRecOn generalizing begin i rest with
  | ind count ih =>
    rw [path]
    by_cases hc : count ≤ 1
    · obtain rfl : count = 1 := by omega
      obtain rfl : i = 0 := by omega
      rw [ascend_of_le_one le_rfl, if_pos le_rfl, root_one]
      exact ⟨[], rfl⟩
    · have hlt := split_lt (show 2 ≤ count by omega)
      have hpos := split_pos count
      have hroot : root node empty leaf begin count = _ := root_of_two_le (by omega)
      rw [if_neg hc, hroot]
      by_cases hleft : i < split count
      · obtain ⟨hashed, hsub⟩ := @ih (split count) hlt begin i
          (root node empty leaf (begin + split count) (count - split count) :: rest) hleft
        rw [ascend_left hc hleft, if_pos hleft, List.append_assoc, List.singleton_append, hsub]
        exact ⟨_, rfl⟩
      · obtain ⟨hashed, hsub⟩ := @ih (count - split count) (by omega) (begin + split count)
          (i - split count) (root node empty leaf begin (split count) :: rest) (by omega)
        rw [show begin + split count + (i - split count) = begin + i by omega] at hsub
        rw [ascend_right hc hleft, if_neg hleft, List.append_assoc, List.singleton_append, hsub]
        exact ⟨_, rfl⟩

/-- Where no two hashed pairs collide, what rebuilds the root is the leaf with its siblings. -/
theorem ascend_inj {S : Set (D × D)} (hS : S.InjOn fun p => node p.1 p.2) (hi : i < count)
    (hpairs : ∀ p ∈ pairs node empty leaf begin count, p ∈ S)
    (ha : ascend node i count h siblings = some a) (hhashed : ∀ p ∈ a.hashed, p ∈ S)
    (hroot : a.root = root node empty leaf begin count) :
    h = leaf (begin + i) ∧ siblings = path node empty leaf begin count i ++ a.rest := by
  induction count using Nat.strongRecOn generalizing begin i a with
  | ind count ih =>
    rw [path]
    by_cases hc : count ≤ 1
    · obtain rfl : count = 1 := by omega
      obtain rfl : i = 0 := by omega
      rw [ascend_of_le_one le_rfl] at ha
      obtain rfl := Option.some.inj ha
      rw [root_one] at hroot
      exact ⟨hroot, by simp⟩
    · have hlt := split_lt (show 2 ≤ count by omega)
      have hpos := split_pos count
      rw [root_of_two_le (by omega)] at hroot
      rw [pairs, if_neg hc] at hpairs
      have hhere := hpairs _ (.head _)
      rw [if_neg hc]
      by_cases hleft : i < split count
      · rw [ascend_left hc hleft] at ha
        obtain ⟨b, hb, hjoin⟩ := Option.bind_eq_some_iff.mp ha
        obtain ⟨c, rest, hrest, rfl⟩ := joinRight_eq_some.mp hjoin
        obtain ⟨hbroot, rfl⟩ := Extends.node_inj hS (hhashed _ (.head _)) hhere hroot
        obtain ⟨rfl, hsiblings⟩ := ih _ hlt hleft
          (fun p hp => hpairs p (.tail _ (List.mem_append_left _ hp))) hb
          (fun p hp => hhashed p (.tail _ hp)) hbroot
        refine ⟨rfl, ?_⟩
        rw [if_pos hleft, List.append_assoc, List.singleton_append, hsiblings, hrest]
      · rw [ascend_right hc hleft] at ha
        obtain ⟨b, hb, hjoin⟩ := Option.bind_eq_some_iff.mp ha
        obtain ⟨c, rest, hrest, rfl⟩ := joinLeft_eq_some.mp hjoin
        obtain ⟨rfl, hbroot⟩ := Extends.node_inj hS (hhashed _ (.head _)) hhere hroot
        obtain ⟨rfl, hsiblings⟩ := ih (count - split count) (by omega) (by omega)
          (fun p hp => hpairs p (.tail _ (List.mem_append_right _ hp))) hb
          (fun p hp => hhashed p (.tail _ hp)) hbroot
        refine ⟨by rw [show begin + split count + (i - split count) = begin + i by omega], ?_⟩
        rw [if_neg hleft, List.append_assoc, List.singleton_append, hsiblings, hrest]

end Laws

end Merkle

end Chtholly
