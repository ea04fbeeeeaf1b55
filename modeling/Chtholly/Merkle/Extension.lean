import Mathlib.Algebra.Group.Nat.Defs
import Mathlib.Data.Nat.Log
import Mathlib.Data.Set.Function

/-!
# Append-only hash trees

The tree over `n` leaves puts the largest power of two below `n` of them on the left.  A tree over
the first `m` of the leaves therefore shares its left subtrees with the tree over all of them, and
a list of sibling digests lets a verifier rebuild both roots from one shared subtree.

The digests are of any type and `node` is any function.  That no two pairs collide is asked of a
set of pairs only: a hash function collides somewhere, but a run of a program hashes few pairs.

## Main definitions

* `Merkle.split` — how many leaves go to the left.
* `Merkle.root`, `Merkle.pairs` — the root over a list of leaves, and the pairs hashed for it.
* `Merkle.Rebuilt`, `Merkle.climb` — the two roots rebuilt from a seed and the siblings, topmost
  sibling first.
* `Merkle.Extends` — one root extends another, as a proof that was accepted shows it.

## Main results

* `Merkle.Extends.unique`, `Merkle.Extends.trans`, `Merkle.Extends.between` — the roots that a root
  extends form a chain with one root for each size.
* `Merkle.Extends.eq_root` — under the root over a list of leaves they are the roots over its
  first leaves.
* `Merkle.extends_of_climb` — what is rebuilt is an extension.
-/

set_option autoImplicit false

namespace Chtholly

namespace Merkle

/-! ## Where a tree splits -/

/-- The largest power of two below `n`, for `n` at least two. -/
def split (n : ℕ) : ℕ := 2 ^ Nat.log 2 (n - 1)

lemma split_pos (n : ℕ) : 0 < split n :=
  Nat.two_pow_pos _

lemma split_lt {n : ℕ} (h : 2 ≤ n) : split n < n := by
  have := Nat.pow_log_le_self 2 (show n - 1 ≠ 0 by omega)
  unfold split
  omega

lemma le_two_mul_split (n : ℕ) : n ≤ 2 * split n := by
  have := Nat.lt_pow_succ_log_self (show 1 < 2 by omega) (n - 1)
  rw [Nat.pow_succ] at this
  unfold split
  omega

/-- The split is the only power of two in its range. -/
lemma split_eq {n j : ℕ} (hlo : 2 ^ j < n) (hhi : n ≤ 2 * 2 ^ j) : split n = 2 ^ j := by
  unfold split
  rw [Nat.log_eq_of_pow_le_of_lt_pow (m := j) (by omega) (by rw [Nat.pow_succ]; omega)]

/-- A prefix that reaches beyond the left subtree splits where the whole tree does. -/
lemma split_of_split_lt {m n : ℕ} (hlo : split n < m) (hhi : m ≤ n) : split m = split n :=
  split_eq hlo (hhi.trans (le_two_mul_split n))

/-! ## Roots -/

variable {D : Type*} (node : D → D → D)

/-- The root over the `count` leaves from `begin` on; over no leaves it is `empty`. -/
def root (empty : D) (leaf : ℕ → D) (begin count : ℕ) : D :=
  if count = 0 then empty
  else if count = 1 then leaf begin
  else
    node (root empty leaf begin (split count))
      (root empty leaf (begin + split count) (count - split count))
termination_by count
decreasing_by
  · exact split_lt (by omega)
  · have := split_pos count
    omega

/-- The pairs that are hashed for the root. -/
def pairs (empty : D) (leaf : ℕ → D) (begin count : ℕ) : List (D × D) :=
  if count ≤ 1 then []
  else
    (root node empty leaf begin (split count),
        root node empty leaf (begin + split count) (count - split count)) ::
      (pairs empty leaf begin (split count) ++
        pairs empty leaf (begin + split count) (count - split count))
termination_by count
decreasing_by
  · exact split_lt (by omega)
  · have := split_pos count
    omega

section Roots

variable {node} {empty : D} {leaf leaf' : ℕ → D} {begin count : ℕ}

lemma root_zero : root node empty leaf begin 0 = empty := by
  rw [root]
  simp

lemma root_one : root node empty leaf begin 1 = leaf begin := by
  rw [root]
  simp

lemma root_of_two_le (h : 2 ≤ count) :
    root node empty leaf begin count =
      node (root node empty leaf begin (split count))
        (root node empty leaf (begin + split count) (count - split count)) := by
  rw [root, if_neg (by omega), if_neg (by omega)]

/-- The root depends on its own leaves only. -/
lemma root_congr (h : ∀ i, begin ≤ i → i < begin + count → leaf i = leaf' i) :
    root node empty leaf begin count = root node empty leaf' begin count := by
  induction count using Nat.strongRecOn generalizing begin with
  | ind count ih =>
    rcases Nat.lt_or_ge count 2 with hc | hc
    · rcases Nat.lt_or_ge count 1 with hz | hz
      · obtain rfl : count = 0 := by omega
        rw [root_zero, root_zero]
      · obtain rfl : count = 1 := by omega
        rw [root_one, root_one]
        exact h begin (by omega) (by omega)
    · have hlt := split_lt hc
      have hpos := split_pos count
      rw [root_of_two_le hc, root_of_two_le hc]
      rw [ih _ hlt fun i hi hi' => h i hi (by omega)]
      rw [ih _ (by omega) fun i hi hi' => h i (by omega) (by omega)]

/-- A prefix that reaches beyond the left subtree has it as its own left subtree. -/
lemma root_of_split_lt {m : ℕ} (hlo : split count < m) (hhi : m ≤ count) :
    root node empty leaf begin m =
      node (root node empty leaf begin (split count))
        (root node empty leaf (begin + split count) (m - split count)) := by
  have := split_pos count
  rw [root_of_two_le (by omega), split_of_split_lt hlo hhi]

end Roots

/-! ## Two roots from one seed -/

/-- The two roots rebuilt so far, and the pairs that were hashed for them. -/
structure Rebuilt (D : Type*) where
  first : D
  second : D
  hashed : List (D × D)

/-- The sibling lies to the right: only the newer tree has it. -/
def Rebuilt.joinRight (w : Rebuilt D) (c : D) : Rebuilt D where
  first := w.first
  second := node w.second c
  hashed := (w.second, c) :: w.hashed

/-- The sibling lies to the left: both trees have it. -/
def Rebuilt.joinLeft (w : Rebuilt D) (c : D) : Rebuilt D where
  first := node c w.first
  second := node c w.second
  hashed := (c, w.second) :: (c, w.first) :: w.hashed

/-- Rebuild the roots over `m` and over `n` leaves from a seed, the root of the largest subtree that
ends with leaf `m` in both trees, and the siblings, topmost first. -/
def climb (m n : ℕ) (seed : D) : List D → Option (Rebuilt D)
  | [] => if m = n then some ⟨seed, seed, []⟩ else none
  | c :: siblings =>
    if m = n then none
    else if m ≤ split n then (climb m (split n) seed siblings).map (·.joinRight node c)
    else (climb (m - split n) (n - split n) seed siblings).map (·.joinLeft node c)

/-! ## Extensions -/

/-- The root `s` over `n` leaves extends the root `r` over `m` leaves, by way of pairs of `S`. -/
inductive Extends (S : Set (D × D)) : ℕ → ℕ → D → D → Prop
  | refl (n : ℕ) (r : D) : Extends S n n r r
  | right {m n : ℕ} {r s c : D} (hlt : m < n) (hm : m ≤ split n) (h : Extends S m (split n) r s)
      (hs : (s, c) ∈ S) : Extends S m n r (node s c)
  | left {m n : ℕ} {r s c : D} (hlt : m < n) (hm : split n < m)
      (h : Extends S (m - split n) (n - split n) r s) (hr : (c, r) ∈ S) (hs : (c, s) ∈ S) :
      Extends S m n (node c r) (node c s)

variable {node} {S : Set (D × D)} {m n : ℕ} {r s : D}

/-- Rebuilt roots extend each other, where all the hashed pairs are in `S`. -/
theorem extends_of_climb {seed : D} {siblings : List D} {w : Rebuilt D} (hmn : m ≤ n)
    (h : climb node m n seed siblings = some w) (hw : ∀ p ∈ w.hashed, p ∈ S) :
    Extends node S m n w.first w.second := by
  induction siblings generalizing m n w with
  | nil =>
    by_cases he : m = n
    · subst he
      obtain rfl : (⟨seed, seed, []⟩ : Rebuilt D) = w := by simpa [climb] using h
      exact .refl _ _
    · simp [climb, he] at h
  | cons c siblings ih =>
    by_cases he : m = n
    · simp [climb, he] at h
    · by_cases hm : m ≤ split n
      · rw [climb, if_neg he, if_pos hm] at h
        obtain ⟨v, hv, rfl⟩ := Option.map_eq_some_iff.mp h
        have hsub := ih hm hv fun p hp => hw p (.tail _ hp)
        exact .right (by omega) hm hsub (hw _ (.head _))
      · rw [climb, if_neg he, if_neg hm] at h
        obtain ⟨v, hv, rfl⟩ := Option.map_eq_some_iff.mp h
        have hsub := ih (by omega) hv fun p hp => hw p (.tail _ (.tail _ hp))
        exact .left (by omega) (by omega) hsub (hw _ (.tail _ (.head _))) (hw _ (.head _))

namespace Extends

lemma le (h : Extends node S m n r s) : m ≤ n := by
  induction h with
  | refl => exact le_rfl
  | right hlt => omega
  | left hlt => omega

/-- A root extends no other root over as many leaves. -/
lemma eq_of_size (h : Extends node S n n r s) : r = s := by
  generalize hm : n = m at h
  cases h with
  | refl => rfl
  | right hlt => omega
  | left hlt => omega

lemma inv_right (h : Extends node S m n r s) (hlt : m < n) (hm : m ≤ split n) :
    ∃ s' c, s = node s' c ∧ Extends node S m (split n) r s' ∧ (s', c) ∈ S := by
  cases h with
  | refl => omega
  | right _ _ h hs => exact ⟨_, _, rfl, h, hs⟩
  | left _ hm' => omega

lemma inv_left (h : Extends node S m n r s) (hlt : m < n) (hm : split n < m) :
    ∃ r' s' c, r = node c r' ∧ s = node c s' ∧
      Extends node S (m - split n) (n - split n) r' s' ∧ (c, r') ∈ S ∧ (c, s') ∈ S := by
  cases h with
  | refl => omega
  | right _ hm' => omega
  | left _ _ h hr hs => exact ⟨_, _, _, rfl, rfl, h, hr, hs⟩

section CollisionFree

variable (hS : S.InjOn fun p => node p.1 p.2) {k : ℕ} {t : D}

include hS

omit m n r s k t in
lemma node_inj {a b c d : D} (hab : (a, b) ∈ S) (hcd : (c, d) ∈ S) (h : node a b = node c d) :
    a = c ∧ b = d :=
  Prod.ext_iff.mp (hS hab hcd h)

/-- A root extends one root of each size. -/
theorem unique {r' : D} (h : Extends node S m n r s) (h' : Extends node S m n r' s) : r = r' := by
  induction h generalizing r' with
  | refl => exact h'.eq_of_size.symm
  | right hlt hm _ hs ih =>
    obtain ⟨s', c', he, hsub, hs'⟩ := h'.inv_right hlt hm
    obtain ⟨rfl, -⟩ := node_inj hS hs hs' he
    exact ih hsub
  | left hlt hm _ _ hs ih =>
    obtain ⟨r'', s', c', rfl, he, hsub, -, hs'⟩ := h'.inv_left hlt hm
    obtain ⟨rfl, rfl⟩ := node_inj hS hs hs' he
    rw [ih hsub]

theorem trans (h : Extends node S k m r s) (h' : Extends node S m n s t) :
    Extends node S k n r t := by
  induction h' generalizing k r with
  | refl => exact h
  | right hlt hm _ hs ih =>
    have := h.le
    exact .right (by omega) (by omega) (ih h) hs
  | @left m n s' t' c hlt hm hmn hr hs ih =>
    -- the two older trees split where the newest does
    have hsplit := split_of_split_lt hm hlt.le
    rcases h.le.eq_or_lt with rfl | hkm
    · rw [h.eq_of_size]
      exact .left hlt hm hmn hr hs
    · rcases Nat.lt_or_ge (split m) k with hk | hk
      · obtain ⟨r', s'', c', rfl, he, hsub, hr', hs'⟩ := h.inv_left hkm hk
        obtain ⟨rfl, rfl⟩ := node_inj hS hr hs' he
        rw [hsplit] at hsub hk
        exact .left (by omega) hk (ih hsub) hr' hs
      · obtain ⟨s'', c', he, hsub, hs'⟩ := h.inv_right hkm hk
        obtain ⟨rfl, rfl⟩ := node_inj hS hr hs' he
        rw [hsplit] at hsub hk
        exact .right (by omega) hk hsub hs

/-- Of two roots that one root extends, the larger extends the smaller. -/
theorem between (h : Extends node S k n r t) (h' : Extends node S m n s t) (hkm : k ≤ m) :
    Extends node S k m r s := by
  induction h' generalizing k r with
  | refl => exact h
  | right hlt hm _ hs ih =>
    obtain ⟨s'', c', he, hsub, hs'⟩ := h.inv_right (by omega) (by omega)
    obtain ⟨rfl, rfl⟩ := node_inj hS hs hs' he
    exact ih hsub hkm
  | @left m n s' t' c hlt hm hmn hr hs ih =>
    have hsplit := split_of_split_lt hm hlt.le
    rcases Nat.lt_or_ge (split n) k with hk | hk
    · obtain ⟨r', s'', c', rfl, he, hsub, hr', hs'⟩ := h.inv_left (by omega) hk
      obtain ⟨rfl, rfl⟩ := node_inj hS hs hs' he
      have hrest := ih hsub (by omega)
      rcases hkm.eq_or_lt with rfl | hkm
      · rw [hrest.eq_of_size]
        exact .refl _ _
      · rw [← hsplit] at hk hrest
        exact .left hkm hk hrest hr' hr
    · obtain ⟨s'', c', he, hsub, hs'⟩ := h.inv_right (by omega) hk
      obtain ⟨rfl, rfl⟩ := node_inj hS hs hs' he
      rw [← hsplit] at hk hsub
      exact .right (by omega) hk hsub hr

/-- The roots that the root over a range of leaves extends are the roots over its first leaves. -/
theorem eq_root {empty : D} {leaf : ℕ → D} {begin : ℕ} (hm : 0 < m)
    (h : Extends node S m n r (root node empty leaf begin n))
    (hpairs : ∀ p ∈ pairs node empty leaf begin n, p ∈ S) :
    r = root node empty leaf begin m := by
  generalize hs : root node empty leaf begin n = s at h
  induction h generalizing begin with
  | refl => exact hs.symm
  | right hlt hle _ hc ih =>
    rw [pairs, if_neg (by omega)] at hpairs
    rw [root_of_two_le (by omega)] at hs
    obtain ⟨rfl, -⟩ := node_inj hS (hpairs _ (.head _)) hc hs
    exact ih hm (fun p hp => hpairs p (.tail _ (List.mem_append_left _ hp))) rfl
  | left hlt hlo _ _ hc ih =>
    rw [pairs, if_neg (by omega)] at hpairs
    rw [root_of_two_le (by omega)] at hs
    obtain ⟨rfl, rfl⟩ := node_inj hS (hpairs _ (.head _)) hc hs
    rw [root_of_split_lt hlo hlt.le]
    rw [ih (by omega) (fun p hp => hpairs p (.tail _ (List.mem_append_right _ hp))) rfl]

end CollisionFree

end Extends

/-! ## Proofs for the tree over given leaves -/

/-- The shared subtree with which the roots over `m` and over `n` leaves are rebuilt. -/
def seed (node : D → D → D) (empty : D) (leaf : ℕ → D) (begin m n : ℕ) : D :=
  if m = n ∨ n < 2 then root node empty leaf begin m
  else if m ≤ split n then seed node empty leaf begin m (split n)
  else seed node empty leaf (begin + split n) (m - split n) (n - split n)
termination_by n
decreasing_by
  · exact split_lt (by omega)
  · have := split_pos n
    omega

/-- The siblings with which they are rebuilt, topmost first. -/
def siblings (node : D → D → D) (empty : D) (leaf : ℕ → D) (begin m n : ℕ) : List D :=
  if m = n ∨ n < 2 then []
  else if m ≤ split n then
    root node empty leaf (begin + split n) (n - split n) ::
      siblings node empty leaf begin m (split n)
  else
    root node empty leaf begin (split n) ::
      siblings node empty leaf (begin + split n) (m - split n) (n - split n)
termination_by n
decreasing_by
  · exact split_lt (by omega)
  · have := split_pos n
    omega

/-- The seed and the siblings are roots over ranges of the leaves. -/
lemma seed_induction (P : D → Prop) {empty : D} {leaf : ℕ → D} {begin : ℕ} (hm : 0 < m)
    (hmn : m ≤ n)
    (hP : ∀ b c, 0 < c → b + c ≤ begin + n → P (root node empty leaf b c)) :
    P (seed node empty leaf begin m n) ∧ ∀ x ∈ siblings node empty leaf begin m n, P x := by
  induction n using Nat.strongRecOn generalizing begin m with
  | ind n ih =>
    rw [seed, siblings]
    rcases hmn.eq_or_lt with rfl | hlt
    · exact ⟨by simpa using hP begin m hm le_rfl, by simp⟩
    · have hpos := split_pos n
      have hsplit := split_lt (show 2 ≤ n by omega)
      have hgo : ¬(m = n ∨ n < 2) := by omega
      rw [if_neg hgo, if_neg hgo]
      by_cases hle : m ≤ split n
      · obtain ⟨hseed, hrest⟩ :=
          @ih (split n) hsplit m begin hm hle fun b c hc hbc => hP b c hc (by omega)
        rw [if_pos hle, if_pos hle]
        exact ⟨hseed, List.forall_mem_cons.mpr ⟨hP _ _ (by omega) (by omega), hrest⟩⟩
      · obtain ⟨hseed, hrest⟩ :=
          @ih (n - split n) (by omega) (m - split n) (begin + split n) (by omega) (by omega)
            fun b c hc hbc => hP b c hc (by omega)
        rw [if_neg hle, if_neg hle]
        exact ⟨hseed, List.forall_mem_cons.mpr ⟨hP _ _ hpos (by omega), hrest⟩⟩

/-- The seed and the siblings rebuild the two roots. -/
theorem climb_siblings {empty : D} {leaf : ℕ → D} {begin : ℕ} (hm : 0 < m) (hmn : m ≤ n) :
    ∃ w, climb node m n (seed node empty leaf begin m n)
        (siblings node empty leaf begin m n) = some w ∧
      w.first = root node empty leaf begin m ∧ w.second = root node empty leaf begin n := by
  induction n using Nat.strongRecOn generalizing begin m with
  | ind n ih =>
    rw [seed, siblings]
    rcases hmn.eq_or_lt with rfl | hlt
    · exact ⟨⟨root node empty leaf begin m, root node empty leaf begin m, []⟩, by simp [climb]⟩
    · have hpos := split_pos n
      have hsplit := split_lt (show 2 ≤ n by omega)
      have hgo : ¬(m = n ∨ n < 2) := by omega
      have hroot : root node empty leaf begin n = _ := root_of_two_le (by omega)
      rw [if_neg hgo, if_neg hgo]
      by_cases hle : m ≤ split n
      · obtain ⟨w, hw, hfirst, hsecond⟩ := @ih (split n) hsplit m begin hm hle
        rw [if_pos hle, if_pos hle, climb, if_neg (by omega), if_pos hle, hw]
        refine ⟨_, rfl, hfirst, ?_⟩
        rw [hroot, ← hsecond]
        rfl
      · obtain ⟨w, hw, hfirst, hsecond⟩ :=
          @ih (n - split n) (by omega) (m - split n) (begin + split n) (by omega) (by omega)
        rw [if_neg hle, if_neg hle, climb, if_neg (by omega), if_neg hle, hw]
        refine ⟨_, rfl, ?_, ?_⟩
        · rw [root_of_split_lt (by omega) hmn, ← hfirst]
          rfl
        · rw [hroot, ← hsecond]
          rfl

end Merkle

end Chtholly
