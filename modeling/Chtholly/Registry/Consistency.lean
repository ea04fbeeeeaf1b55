import Mathlib.Data.Nat.Bitwise
import Chtholly.Registry.Transparency

/-!
# Consistency proofs are complete and binding

The check of a consistency proof walks the bits of the two sizes from the leaves up; the tree is
defined from the root down.  The two meet in `walkFrom_eq_climb`: the walk for the sizes `m` and
`n` goes, up to its last step, through the walk for the subtree that holds leaf `m`.  The subtree is
the left one, whose size has only ones in its bits, or the right one, whose sizes lack the top bit.

## Main definitions

* `Registry.InLeft`, `Registry.InRight` — how the bits of a tree and of its subtree correspond.
* `Registry.Tracks` — what such a correspondence must give.

## Main results

* `Registry.walkFrom_eq_climb` — the walk rebuilds what the recursion on the tree rebuilds.
* `Registry.extends_of_verify` — an accepted proof shows that the new root extends the old one.
* `Registry.verifyRegistryMerkleConsistency_binding` — completeness, binding and termination.
-/

set_option autoImplicit false

namespace Chtholly

namespace Registry

open Loop Merkle

/-! ## The source's roots are those of the tree -/

lemma doubleWhile_two_pow (bound i : ℕ) :
    ∃ j, doubleWhile bound (2 ^ i) = 2 ^ j ∧ bound < 2 ^ j := by
  generalize hr : 2 ^ i = result
  fun_induction doubleWhile bound result generalizing i with
  | case1 result hc ih => exact ih (i + 1) (by rw [Nat.pow_succ, hr])
  | case2 result hc =>
    have := Nat.two_pow_pos i
    exact ⟨i, hr.symm, by omega⟩

lemma largestPowerOfTwoLessThan_eq {value : ℕ} (h : 2 ≤ value) (hlt : value < 2 ^ 64) :
    largestPowerOfTwoLessThan value = split value := by
  obtain ⟨j, hj, hbound⟩ := doubleWhile_two_pow ((value + (2 ^ 64 - 1)) % 2 ^ 64 / 2) 0
  have hval : largestPowerOfTwoLessThan value = 2 ^ j := hj
  have := largestPowerOfTwoLessThan_lt h
  rw [hval, split_eq (j := j) (by omega) (by omega)]

/-- The leaves of a list. -/
def leafAt (leaves : List Text) (i : ℕ) : Text := leaves.getD i []

/-- The root of the source, as a root over the leaves of the list. -/
abbrev rangeRoot (leaves : List Text) : ℕ → ℕ → Text :=
  root nodeHash (sha256Hex []) (leafAt leaves)

lemma merkleRange_eq (leaves : List Text) {begin count : ℕ} (h : count < 2 ^ 64) :
    merkleRange leaves begin count = rangeRoot leaves begin count := by
  induction count using Nat.strongRecOn generalizing begin with
  | ind count ih =>
    rw [merkleRange, rangeRoot, root]
    by_cases hzero : count = 0
    · rw [if_pos hzero, if_pos hzero]
    by_cases hone : count = 1
    · rw [if_neg hzero, if_neg hzero, if_pos hone, if_pos hone, leafAt]
    have hlt := split_lt (show 2 ≤ count by omega)
    have hpos := split_pos count
    rw [if_neg hzero, if_neg hzero, if_neg hone, if_neg hone]
    rw [largestPowerOfTwoLessThan_eq (by omega) h]
    dsimp only
    rw [ih _ hlt (by omega), ih _ (by omega) (by omega)]

/-- The root over the first leaves of a list is a root over the list. -/
lemma rangeRoot_take (leaves : List Text) (m : ℕ) :
    rangeRoot (leaves.take m) 0 m = rangeRoot leaves 0 m := by
  refine root_congr fun i _ hi => ?_
  rw [leafAt, leafAt, List.getD_eq_getElem?_getD, List.getD_eq_getElem?_getD,
    List.getElem?_take_of_lt (by omega)]

/-! ## Halving the sizes -/

lemma shift_eq (p : ℕ × ℕ) : shift p = (p.1 / 2, p.2 / 2) := by
  rw [shift, Nat.shiftRight_one, Nat.shiftRight_one]

lemma odd_iff (n : ℕ) : (n &&& 1 != 0) = decide (n % 2 = 1) := by
  rw [Nat.and_one_is_mod]
  rcases Nat.mod_two_eq_zero_or_one n with h | h <;> simp [h]

lemma even_iff (n : ℕ) : (n != 0 && n &&& 1 == 0) = decide (n ≠ 0 ∧ n % 2 = 0) := by
  rw [Nat.and_one_is_mod, Bool.eq_iff_iff]
  simp

/-- The older size is halved as long as it is odd. -/
lemma exists_strip {p : ℕ × ℕ} (h : p.1 < 2 ^ 64) : ∃ q, strip p = some q := by
  refine whileDo_isSome (fun n p => p.1 < 2 ^ n) ?_ ?_ h
  · intro p hp
    rw [odd_iff]
    simp only [pow_zero] at hp
    simp [show p.1 = 0 by omega]
  · intro n p hp _
    rw [shift_eq]
    rw [Nat.pow_succ] at hp
    dsimp only
    omega

lemma exists_skip {p : ℕ × ℕ} (h : p.1 < 2 ^ 64) : ∃ q, skip p = some q := by
  refine whileDo_isSome (fun n p => p.1 < 2 ^ n) ?_ ?_ h
  · intro p hp
    simp only [pow_zero] at hp
    simp [show p.1 = 0 by omega]
  · intro n p hp _
    rw [shift_eq]
    rw [Nat.pow_succ] at hp
    dsimp only
    omega

/-! ## The walk of a subtree inside the walk of a tree -/

/-- The bits of the left subtree and of the tree: the sizes below the split are the same, the size
of the left subtree has only ones, and the size of the tree has one bit more. -/
def InLeft (p q : ℕ × ℕ) : Prop :=
  ∃ u, q.1 = p.1 ∧ p.1 ≤ p.2 ∧ p.2 + 1 = 2 ^ u ∧ 2 ^ u ≤ q.2 ∧ q.2 < 2 * 2 ^ u

/-- The bits of the right subtree and of the tree: both sizes of the tree have the top bit. -/
def InRight (p q : ℕ × ℕ) : Prop :=
  ∃ u < 64, q.1 = p.1 + 2 ^ u ∧ q.2 = p.2 + 2 ^ u ∧ p.1 ≤ p.2 ∧ p.2 < 2 ^ u

/-- The walk for a tree follows the walk for a subtree until that is at its top, and then joins the
last digest to what the subtree gives. -/
structure Tracks (R : ℕ × ℕ → ℕ × ℕ → Prop) (join : Rebuilt Text → Text → Rebuilt Text) :
    Prop where
  half : ∀ p q, R p q → p.2 ≠ 0 → R (shift p) (shift q)
  parity : ∀ p q, R p q → p.2 ≠ 0 → q.1 % 2 = p.1 % 2
  equal : ∀ p q, R p q → p.2 ≠ 0 → (q.1 % 2 = 1 ∨ q.1 = q.2 ↔ p.1 % 2 = 1 ∨ p.1 = p.2)
  nonzero : ∀ p q, R p q → p.1 ≠ 0 → q.1 ≠ 0
  below : ∀ p q, R p q → p.1 ≤ p.2 ∧ q.2 ≠ 0
  top : ∀ p q roots hash, R p q → p.2 = 0 →
    ∃ bits, walkStep ⟨q, roots⟩ hash = some ⟨bits, join roots hash⟩ ∧ bits.2 = 0

lemma walkStep_eq (w : Walk) (hash : Text) :
    walkStep w hash =
      if w.bits.1 % 2 = 1 ∨ w.bits.1 = w.bits.2 then
        (skip w.bits).map fun bits => ⟨shift bits, w.roots.joinLeft nodeHash hash⟩
      else some ⟨shift w.bits, w.roots.joinRight nodeHash hash⟩ := by
  rw [walkStep, odd_iff]
  simp

lemma inLeft_tracks : Tracks InLeft fun roots hash => roots.joinRight nodeHash hash where
  half := by
    intro p q hR hp
    obtain ⟨u, h1, h2, h3, h4, h5⟩ := hR
    obtain ⟨v, rfl⟩ : ∃ v, u = v + 1 := ⟨u - 1, by rcases u with - | u <;> simp_all⟩
    rw [Nat.pow_succ] at h3 h4 h5
    rw [shift_eq, shift_eq]
    refine ⟨v, ?_, ?_, ?_, ?_, ?_⟩ <;> dsimp only <;> omega
  parity := by
    intro p q hR _
    obtain ⟨u, h1, -⟩ := hR
    rw [h1]
  equal := by
    intro p q hR hp
    obtain ⟨u, h1, h2, h3, h4, h5⟩ := hR
    obtain ⟨v, rfl⟩ : ∃ v, u = v + 1 := ⟨u - 1, by rcases u with - | u <;> simp_all⟩
    rw [Nat.pow_succ] at h3 h4 h5
    omega
  nonzero := by
    intro p q hR hp
    obtain ⟨u, h1, -⟩ := hR
    omega
  below := by
    intro p q hR
    obtain ⟨u, h1, h2, h3, h4, -⟩ := hR
    have := Nat.two_pow_pos u
    omega
  top := by
    intro p q roots hash hR hp
    obtain ⟨u, h1, h2, h3, h4, h5⟩ := hR
    refine ⟨shift q, ?_, ?_⟩
    · rw [walkStep_eq, if_neg]
      dsimp only
      omega
    · rw [shift_eq]
      dsimp only
      omega

/-- A power of two is halved down to one. -/
lemma exists_skip_two_pow {u : ℕ} (hu : u < 64) : skip (2 ^ u, 2 ^ u) = some (1, 1) := by
  obtain ⟨q, hq⟩ := exists_skip (p := (2 ^ u, 2 ^ u)) (Nat.pow_lt_pow_right (by omega) hu)
  have hbody : ∀ p : ℕ × ℕ, (∃ v, p = (2 ^ v, 2 ^ v)) →
      (p.1 != 0 && p.1 &&& 1 == 0) = true → ∃ v, shift p = (2 ^ v, 2 ^ v) := by
    intro p hp hc
    obtain ⟨v, rfl⟩ := hp
    rw [even_iff, decide_eq_true_eq] at hc
    cases v with
    | zero => simp at hc
    | succ v =>
      refine ⟨v, ?_⟩
      rw [shift_eq, Nat.pow_succ, Nat.mul_div_cancel _ (by omega)]
  obtain ⟨⟨v, rfl⟩, hc⟩ :=
    whileDo_invariant (fun p : ℕ × ℕ => ∃ v, p = (2 ^ v, 2 ^ v)) hbody ⟨u, rfl⟩ hq
  rw [even_iff, decide_eq_false_iff_not] at hc
  cases v with
  | zero => simpa using hq
  | succ v =>
    have := Nat.two_pow_pos v
    rw [Nat.pow_succ] at hc
    omega

lemma inRight_tracks : Tracks InRight fun roots hash => roots.joinLeft nodeHash hash where
  half := by
    intro p q hR hp
    obtain ⟨u, hu, h1, h2, h3, h4⟩ := hR
    obtain ⟨v, rfl⟩ : ∃ v, u = v + 1 := ⟨u - 1, by rcases u with - | u <;> simp_all⟩
    rw [Nat.pow_succ] at h1 h2 h4
    rw [shift_eq, shift_eq]
    refine ⟨v, by omega, ?_, ?_, ?_, ?_⟩ <;> dsimp only <;> omega
  parity := by
    intro p q hR hp
    obtain ⟨u, hu, h1, h2, h3, h4⟩ := hR
    obtain ⟨v, rfl⟩ : ∃ v, u = v + 1 := ⟨u - 1, by rcases u with - | u <;> simp_all⟩
    rw [Nat.pow_succ] at h1
    omega
  equal := by
    intro p q hR hp
    obtain ⟨u, hu, h1, h2, h3, h4⟩ := hR
    obtain ⟨v, rfl⟩ : ∃ v, u = v + 1 := ⟨u - 1, by rcases u with - | u <;> simp_all⟩
    rw [Nat.pow_succ] at h1 h2
    omega
  nonzero := by
    intro p q hR hp
    obtain ⟨u, hu, h1, h2, h3, h4⟩ := hR
    omega
  below := by
    intro p q hR
    obtain ⟨u, hu, h1, h2, h3, h4⟩ := hR
    omega
  top := by
    intro p q roots hash hR hp
    obtain ⟨u, hu, h1, h2, h3, h4⟩ := hR
    obtain rfl : q = (2 ^ u, 2 ^ u) := Prod.ext (by omega) (by omega)
    refine ⟨shift (1, 1), ?_, rfl⟩
    rw [walkStep_eq, if_pos (Or.inr rfl), exists_skip_two_pow hu]
    rfl

lemma walk_nil (w : Walk) : walk w [] = some (some w) := rfl

variable {w : Walk}

lemma walk_cons (h : w.bits.2 ≠ 0) (hash : Text) (proof : List Text) :
    walk w (hash :: proof) = (walkStep w hash).bind fun w => walk w proof := by
  rw [walk, if_neg h]

lemma walk_top (h : w.bits.2 = 0) (hash : Text) (proof : List Text) :
    walk w (hash :: proof) = some none := by
  rw [walk, if_pos h]

/-- The roots of a walk that ends at the top of the tree. -/
def accepted : Option (Option Walk) → Option (Rebuilt Text)
  | some (some w) => if w.bits.2 = 0 then some w.roots else none
  | _ => none

namespace Tracks

variable {R : ℕ × ℕ → ℕ × ℕ → Prop} {join : Rebuilt Text → Text → Rebuilt Text}
  {p q : ℕ × ℕ} {roots : Rebuilt Text} {hash : Text}

lemma skip (hR : Tracks R join) (h : R p q) (hp : p.1 ≠ 0) :
    Option.Rel (fun p q => R p q ∧ p.1 ≠ 0) (skip p) (skip q) := by
  refine whileDo_rel (fun p q => R p q ∧ p.1 ≠ 0) ?_ ?_ ⟨h, hp⟩ 64
  · intro p q ⟨h, hp⟩
    have hbelow := hR.below p q h
    have hparity := hR.parity p q h (by omega)
    have hnonzero := hR.nonzero p q h hp
    rw [even_iff, even_iff, decide_eq_decide]
    omega
  · intro p q ⟨h, hp⟩ hc
    have hbelow := hR.below p q h
    rw [even_iff, decide_eq_true_eq] at hc
    refine ⟨hR.half p q h (by omega), ?_⟩
    rw [shift_eq]
    dsimp only
    omega

lemma walkStep (hR : Tracks R join) (roots : Rebuilt Text) (hash : Text) (h : R p q)
    (hp : p.2 ≠ 0) :
    Option.Rel (fun a b => R a.bits b.bits ∧ a.roots = b.roots) (walkStep ⟨p, roots⟩ hash)
      (walkStep ⟨q, roots⟩ hash) := by
  have hequal := hR.equal p q h hp
  rw [walkStep_eq, walkStep_eq]
  dsimp only
  by_cases hc : p.1 % 2 = 1 ∨ p.1 = p.2
  · rw [if_pos hc, if_pos (hequal.2 hc)]
    have hskip := hR.skip h (by omega)
    generalize Registry.skip p = a at hskip
    generalize Registry.skip q = b at hskip
    cases hskip with
    | none => exact .none
    | @some p' q' hR' =>
      have := hR.below p' q' hR'.1
      exact .some ⟨hR.half p' q' hR'.1 (by omega), rfl⟩
  · rw [if_neg hc, if_neg fun hc' => hc (hequal.1 hc')]
    exact .some ⟨hR.half p q h hp, rfl⟩

/-- The walk for a tree, from the walk for a subtree and one digest more. -/
lemma accepted_walk (hR : Tracks R join) (h : R p q) (proof : List Text) :
    accepted (walk ⟨q, roots⟩ (proof ++ [hash])) =
      (accepted (walk ⟨p, roots⟩ proof)).map fun w => join w hash := by
  induction proof generalizing p q roots with
  | nil =>
    have hq := (hR.below p q h).2
    rw [List.nil_append, walk_cons hq, walk_nil]
    by_cases hp : p.2 = 0
    · obtain ⟨bits, hstep, hbits⟩ := hR.top p q roots hash h hp
      rw [hstep]
      simp [walk, accepted, hp, hbits]
    · have hstep := hR.walkStep roots hash h hp
      generalize Registry.walkStep ⟨p, roots⟩ hash = a at hstep
      generalize Registry.walkStep ⟨q, roots⟩ hash = b at hstep
      cases hstep with
      | none => simp [accepted, hp]
      | @some a b hab => simp [accepted, walk, hp, (hR.below _ _ hab.1).2]
  | cons y proof ih =>
    have hq := (hR.below p q h).2
    rw [List.cons_append, walk_cons hq]
    by_cases hp : p.2 = 0
    · -- the subtree is at its top with digests left, and so is the tree one step later
      obtain ⟨bits, hstep, hbits⟩ := hR.top p q roots y h hp
      rw [walk_top hp, hstep, Option.bind_some]
      cases proof <;> simp [walk, accepted, hbits]
    · rw [walk_cons hp]
      have hstep := hR.walkStep roots y h hp
      generalize Registry.walkStep ⟨p, roots⟩ y = a at hstep
      generalize Registry.walkStep ⟨q, roots⟩ y = b at hstep
      cases hstep with
      | none => rfl
      | @some a b hab =>
        obtain ⟨bits, rebuilt⟩ := a
        obtain ⟨bits', rebuilt'⟩ := b
        obtain ⟨hbits, rfl⟩ := hab
        exact ih hbits

end Tracks

/-! ## The walk is the recursion -/

lemma strip_inLeft {p q : ℕ × ℕ} (h : InLeft p q) :
    Option.Rel InLeft (strip p) (strip q) := by
  refine whileDo_rel InLeft ?_ ?_ h 64
  · intro p q h
    obtain ⟨u, h1, -⟩ := h
    rw [odd_iff, odd_iff, h1]
  · intro p q h hc
    have hbelow := (inLeft_tracks.below p q h).1
    rw [odd_iff, decide_eq_true_eq] at hc
    exact inLeft_tracks.half p q h (by omega)

lemma strip_inRight {p q : ℕ × ℕ} (h : InRight p q) (hlt : p.1 < p.2) :
    Option.Rel InRight (strip p) (strip q) := by
  have hrel : Option.Rel (fun p q => InRight p q ∧ p.1 < p.2) (strip p) (strip q) := by
    refine whileDo_rel (fun p q => InRight p q ∧ p.1 < p.2) ?_ ?_ ⟨h, hlt⟩ 64
    · intro p q ⟨h, hlt⟩
      rw [odd_iff, odd_iff, inRight_tracks.parity p q h (by omega)]
    · intro p q ⟨h, hlt⟩ hc
      rw [odd_iff, decide_eq_true_eq] at hc
      refine ⟨inRight_tracks.half p q h (by omega), ?_⟩
      rw [shift_eq]
      dsimp only
      omega
  generalize strip p = a at hrel
  generalize strip q = b at hrel
  cases hrel with
  | none => exact .none
  | some hab => exact .some hab.1

/-- The older size stays below the newer one. -/
lemma strip_lt {p q : ℕ × ℕ} (hlt : p.1 < p.2) (h : strip p = some q) : q.1 < q.2 := by
  refine (whileDo_invariant (fun p : ℕ × ℕ => p.1 < p.2) ?_ hlt h).1
  intro p hlt hc
  rw [odd_iff, decide_eq_true_eq] at hc
  rw [shift_eq]
  dsimp only
  omega

/-- Nothing is left of a size that has only ones. -/
lemma strip_ones {p q : ℕ × ℕ} {i : ℕ} (hp : p.1 + 1 = 2 ^ i) (h : strip p = some q) :
    q.1 = 0 := by
  have hbody : ∀ p : ℕ × ℕ, (∃ i, p.1 + 1 = 2 ^ i) → (p.1 &&& 1 != 0) = true →
      ∃ i, (shift p).1 + 1 = 2 ^ i := by
    intro p hp hc
    obtain ⟨i, hi⟩ := hp
    rw [odd_iff, decide_eq_true_eq] at hc
    cases i with
    | zero => simp at hi; omega
    | succ i =>
      refine ⟨i, ?_⟩
      rw [Nat.pow_succ] at hi
      rw [shift_eq]
      dsimp only
      omega
  obtain ⟨⟨j, hj⟩, hc⟩ :=
    whileDo_invariant (fun p : ℕ × ℕ => ∃ i, p.1 + 1 = 2 ^ i) hbody ⟨i, hp⟩ h
  rw [odd_iff, decide_eq_false_iff_not] at hc
  cases j with
  | zero => simpa using hj
  | succ j =>
    rw [Nat.pow_succ] at hj
    omega

/-- Something is left of any other size. -/
lemma ones_of_strip {p q : ℕ × ℕ} (h : strip p = some q) (hq : q.1 = 0) :
    ∃ i, p.1 + 1 = 2 ^ i := by
  have hbody : ∀ r : ℕ × ℕ, ((∃ i, r.1 + 1 = 2 ^ i) → ∃ i, p.1 + 1 = 2 ^ i) →
      (r.1 &&& 1 != 0) = true → (∃ i, (shift r).1 + 1 = 2 ^ i) → ∃ i, p.1 + 1 = 2 ^ i := by
    intro r hr hc hs
    obtain ⟨i, hi⟩ := hs
    rw [odd_iff, decide_eq_true_eq] at hc
    rw [shift_eq] at hi
    refine hr ⟨i + 1, ?_⟩
    rw [Nat.pow_succ]
    dsimp only at hi
    omega
  exact (whileDo_invariant (fun r : ℕ × ℕ => (∃ i, r.1 + 1 = 2 ^ i) → ∃ i, p.1 + 1 = 2 ^ i)
    hbody id h).1 ⟨0, by rw [hq]; rfl⟩

lemma strip_equal {p q : ℕ × ℕ} (hp : p.1 = p.2) (h : strip p = some q) : q.1 = q.2 := by
  refine (whileDo_invariant (fun p : ℕ × ℕ => p.1 = p.2) ?_ hp h).1
  intro p hp _
  rw [shift_eq, hp]

variable {m n : ℕ}

/-- The walk from a seed over the siblings, lowest first, rebuilds what the recursion on the tree
rebuilds from the siblings, topmost first. -/
theorem walkFrom_eq_climb {seed : Text} (siblings : List Text) (hm : 0 < m) (hn : n < 2 ^ 64)
    (hmn : m < n ∨ m = n ∧ ∃ i, m = 2 ^ i) :
    accepted ((strip (m - 1, n - 1)).bind fun bits => walkFrom bits seed siblings.reverse) =
      climb nodeHash m n seed siblings := by
  induction siblings generalizing m n with
  | nil =>
    obtain ⟨q, hq⟩ := exists_strip (p := (m - 1, n - 1)) (by dsimp only; omega)
    rw [hq, Option.bind_some, walkFrom, List.reverse_nil, walk_nil, climb]
    rcases hmn with hlt | ⟨rfl, i, hi⟩
    · have := strip_lt (by dsimp only; omega) hq
      rw [accepted, if_neg (by dsimp only; omega), if_neg (by omega)]
    · have h0 := strip_ones (i := i) (by dsimp only; omega) hq
      have := strip_equal rfl hq
      rw [accepted, if_pos (by dsimp only; omega), if_pos rfl]
  | cons c siblings ih =>
    rw [List.reverse_cons, climb]
    rcases hmn with hlt | ⟨rfl, i, hi⟩
    · have hpos := split_pos n
      have hsplit := split_lt (show 2 ≤ n by omega)
      have hle := le_two_mul_split n
      rw [if_neg (by omega)]
      by_cases hmk : m ≤ split n
      · have hsub : m < split n ∨ m = split n ∧ ∃ i, m = 2 ^ i := by
          rcases hmk.lt_or_eq with h | h
          · exact .inl h
          · exact .inr ⟨h, _, h⟩
        have hin : InLeft (m - 1, split n - 1) (m - 1, n - 1) :=
          ⟨Nat.log 2 (n - 1), rfl, Nat.sub_le_sub_right hmk 1, Nat.sub_add_cancel hpos,
            Nat.le_sub_one_of_lt hsplit, show n - 1 < 2 * split n by omega⟩
        have hrel := strip_inLeft hin
        rw [if_pos hmk, ← ih hm (by omega) hsub]
        generalize strip (m - 1, split n - 1) = a at hrel
        generalize strip (m - 1, n - 1) = b at hrel
        cases hrel with
        | none => rfl
        | some h => exact inLeft_tracks.accepted_walk h _
      · have hin : InRight (m - split n - 1, n - split n - 1) (m - 1, n - 1) := by
          refine ⟨Nat.log 2 (n - 1), ?_, ?_, ?_, ?_, ?_⟩
          · refine (Nat.pow_lt_pow_iff_right (show 1 < 2 by omega)).mp ?_
            exact hsplit.trans hn
          · show m - 1 = m - split n - 1 + split n
            omega
          · show n - 1 = n - split n - 1 + split n
            omega
          · dsimp only
            omega
          · show n - split n - 1 < split n
            omega
        have hrel := strip_inRight hin (by dsimp only; omega)
        rw [if_neg hmk, ← ih (by omega) (by omega) (.inl (by omega))]
        generalize strip (m - split n - 1, n - split n - 1) = a at hrel
        generalize strip (m - 1, n - 1) = b at hrel
        cases hrel with
        | none => rfl
        | some h => exact inRight_tracks.accepted_walk h _
    · obtain ⟨q, hq⟩ := exists_strip (p := (m - 1, m - 1)) (by dsimp only; omega)
      have h0 := strip_ones (i := i) (by dsimp only; omega) hq
      have := strip_equal rfl hq
      rw [hq, Option.bind_some, walkFrom, if_pos rfl]
      generalize siblings.reverse = l
      cases l with
      | nil => rw [List.nil_append, walk_top (by dsimp only; omega)]; rfl
      | cons y l => rw [List.cons_append, walk_top (by dsimp only; omega)]; rfl

lemma accepted_eq_some {x : Option (Option Walk)} {roots : Rebuilt Text} :
    accepted x = some roots ↔ ∃ bits : ℕ × ℕ, x = some (some ⟨bits, roots⟩) ∧ bits.2 = 0 := by
  rcases x with - | - | w
  · simp [accepted]
  · simp [accepted]
  · obtain ⟨bits, roots'⟩ := w
    by_cases h : bits.2 = 0
    · simp only [accepted, if_pos h, Option.some.injEq, Walk.mk.injEq]
      exact ⟨fun hr => ⟨bits, ⟨rfl, hr⟩, h⟩, fun ⟨_, hr, _⟩ => hr.2⟩
    · simp only [accepted, if_neg h, Option.some.injEq, Walk.mk.injEq, reduceCtorEq, false_iff]
      exact fun ⟨_, hr, hb⟩ => h (hr.1 ▸ hb)

/-! ## Accepted proofs -/

variable {proof : List Text}

/-- A walk of the check that ends at the top of the tree is a recursion from some seed. -/
lemma climb_of_consistencyWalk {r : Text} (hm : 0 < m) (hmn : m < n) (hn : n < 2 ^ 64)
    (h : consistencyWalk m n r proof = some (some w)) (htop : w.bits.2 = 0) :
    ∃ x l, climb nodeHash m n x l = some w.roots := by
  obtain ⟨bits, hstrip, h⟩ := Option.bind_eq_some_iff.mp h
  have key : ∀ x l, walkFrom bits x l = some (some w) →
      ∃ x l, climb nodeHash m n x l = some w.roots := by
    intro x l hwalk
    refine ⟨x, l.reverse, ?_⟩
    rw [← walkFrom_eq_climb l.reverse hm hn (.inl hmn), List.reverse_reverse, hstrip,
      Option.bind_some, accepted_eq_some]
    exact ⟨w.bits, hwalk, htop⟩
  split at h
  · exact key _ _ h
  · cases proof with
    | nil => simp at h
    | cons front proof => exact key _ _ h

/-- An accepted proof shows that the new root extends the old one. -/
theorem extends_of_verify {S : Set (Text × Text)} {r s : Text} (hn : n < 2 ^ 64)
    (h : verifyRegistryMerkleConsistency m n r s proof = some true)
    (hS : ∀ p ∈ consistencyHashes m n r proof, p ∈ S) : 0 < m ∧ Extends nodeHash S m n r s := by
  rw [verifyRegistryMerkleConsistency] at h
  split at h
  · simp at h
  · rename_i hguard
    refine ⟨by omega, ?_⟩
    split at h
    · rename_i he
      obtain ⟨-, rfl⟩ : proof = [] ∧ r = s := by simpa using h
      subst he
      exact .refl _ _
    · rename_i hne
      obtain ⟨v, hwalk, hv⟩ := Option.map_eq_some_iff.mp h
      cases v with
      | none => simp at hv
      | some w =>
        simp only [Bool.and_eq_true, beq_iff_eq] at hv
        obtain ⟨⟨htop, rfl⟩, rfl⟩ := hv
        obtain ⟨x, l, hclimb⟩ := climb_of_consistencyWalk (by omega) (by omega) hn hwalk htop
        rw [consistencyHashes, hwalk] at hS
        exact extends_of_climb (by omega) hclimb hS

/-! ## Served proofs -/

lemma isHexDigest_nodeHash {left right : Text} (hl : isHexDigest left = true)
    (hr : isHexDigest right = true) : isHexDigest (nodeHash left right) = true := by
  simp only [nodeHash, digestBytes, hl, hr, if_true]
  exact isHexDigest_sha256Hex _

lemma isHexDigest_rangeRoot {leaves : List Text} (hleaves : leaves.all isHexDigest = true)
    {begin count : ℕ} (h : begin + count ≤ leaves.length) :
    isHexDigest (rangeRoot leaves begin count) = true := by
  induction count using Nat.strongRecOn generalizing begin with
  | ind count ih =>
    rcases Nat.lt_or_ge count 2 with hc | hc
    · rcases Nat.lt_or_ge count 1 with hz | hz
      · obtain rfl : count = 0 := by omega
        rw [rangeRoot, root_zero]
        exact isHexDigest_sha256Hex []
      · obtain rfl : count = 1 := by omega
        rw [rangeRoot, root_one, leafAt, List.getD_eq_getElem _ _ (by omega)]
        exact List.all_eq_true.mp hleaves _ (List.getElem_mem _)
    · have hlt := split_lt hc
      have hpos := split_pos count
      rw [rangeRoot, root_of_two_le hc]
      exact isHexDigest_nodeHash (ih _ hlt (by omega)) (ih _ (by omega) (by omega))

section Range

variable (leaves : List Text)

/-- The seed of the source's tree. -/
abbrev rangeSeed : ℕ → ℕ → ℕ → Text :=
  seed nodeHash (sha256Hex []) (leafAt leaves)

/-- The siblings of the source's tree. -/
abbrev rangeSiblings : ℕ → ℕ → ℕ → List Text :=
  siblings nodeHash (sha256Hex []) (leafAt leaves)

/-- Below a right turn the shared subtree is a digest of the proof. -/
lemma consistencyRange_false {begin m n : ℕ} (proof : List Text) (hm : 0 < m) (hmn : m ≤ n)
    (hn : n < 2 ^ 64) :
    consistencyRange leaves begin m n false proof =
      proof ++ rangeSeed leaves begin m n :: (rangeSiblings leaves begin m n).reverse := by
  induction n using Nat.strongRecOn generalizing begin m with
  | ind n ih =>
    rw [consistencyRange, rangeSeed, rangeSiblings, seed, siblings]
    rcases hmn.eq_or_lt with rfl | hlt
    · simp [merkleRange_eq leaves hn]
    · have hpos := split_pos n
      have hsplit := split_lt (show 2 ≤ n by omega)
      have hgo : ¬(m = n ∨ n < 2) := by omega
      rw [if_neg (show ¬m = n by omega), if_neg (show ¬n < 2 by omega), if_neg hgo, if_neg hgo,
        largestPowerOfTwoLessThan_eq (by omega) hn]
      dsimp only
      by_cases hle : m ≤ split n
      · rw [if_pos hle, if_pos hle, if_pos hle, ih _ hsplit hm hle (by omega),
          merkleRange_eq leaves (by omega)]
        simp
      · rw [if_neg hle, if_neg hle, if_neg hle,
          ih _ (by omega) (by omega) (by omega) (by omega), merkleRange_eq leaves (by omega)]
        simp

/-- A complete subtree is the older tree itself, which the check knows. -/
lemma consistencyRange_two_pow {begin i n : ℕ} (proof : List Text) (hmn : 2 ^ i ≤ n)
    (hn : n < 2 ^ 64) :
    consistencyRange leaves begin (2 ^ i) n true proof =
        proof ++ (rangeSiblings leaves begin (2 ^ i) n).reverse ∧
      rangeSeed leaves begin (2 ^ i) n = rangeRoot leaves begin (2 ^ i) := by
  induction n using Nat.strongRecOn generalizing begin with
  | ind n ih =>
    rw [consistencyRange, rangeSeed, rangeSiblings, seed, siblings]
    rcases hmn.eq_or_lt with he | hlt
    · simp [he]
    · have hi := Nat.two_pow_pos i
      have hsplit := split_lt (show 2 ≤ n by omega)
      have hgo : ¬(2 ^ i = n ∨ n < 2) := by omega
      have hle : 2 ^ i ≤ split n := by
        refine Nat.pow_le_pow_right (by omega) (Nat.le_log_of_pow_le (by omega) (by omega))
      obtain ⟨hrange, hseed⟩ := @ih (split n) hsplit begin hle (by omega)
      rw [if_neg (show ¬2 ^ i = n by omega), if_neg (show ¬n < 2 by omega), if_neg hgo, if_neg hgo,
        largestPowerOfTwoLessThan_eq (by omega) hn]
      dsimp only
      rw [if_pos hle, if_pos hle, if_pos hle, hrange, merkleRange_eq leaves (by omega)]
      exact ⟨by simp, hseed⟩

/-- An older tree that is not complete has a right turn above it. -/
lemma consistencyRange_of_not_two_pow {begin m n : ℕ} (proof : List Text) (hm : 0 < m)
    (hpow : ∀ i, m ≠ 2 ^ i) (hmn : m < n) (hn : n < 2 ^ 64) :
    consistencyRange leaves begin m n true proof =
      proof ++ rangeSeed leaves begin m n :: (rangeSiblings leaves begin m n).reverse := by
  induction n using Nat.strongRecOn generalizing begin m with
  | ind n ih =>
    have hpos := split_pos n
    have hsplit := split_lt (show 2 ≤ n by omega)
    have hgo : ¬(m = n ∨ n < 2) := by omega
    rw [consistencyRange, rangeSeed, rangeSiblings, seed, siblings]
    rw [if_neg (show ¬m = n by omega), if_neg (show ¬n < 2 by omega), if_neg hgo, if_neg hgo,
      largestPowerOfTwoLessThan_eq (by omega) hn]
    dsimp only
    by_cases hle : m ≤ split n
    · have hlt : m < split n := lt_of_le_of_ne hle (hpow _)
      rw [if_pos hle, if_pos hle, if_pos hle, ih _ hsplit hm hpow hlt (by omega),
        merkleRange_eq leaves (by omega)]
      simp
    · rw [if_neg hle, if_neg hle, if_neg hle,
        consistencyRange_false leaves _ (by omega) (by omega) (by omega),
        merkleRange_eq leaves (by omega)]
      simp

end Range

/-- What the registry serves: the shared subtree, unless the check knows it, and the siblings. -/
lemma consistencyWalk_served {leaves : List Text} (hm : 0 < m) (hmn : m < leaves.length)
    (hn : leaves.length < 2 ^ 64) :
    consistencyWalk m leaves.length (rangeRoot leaves 0 m)
        (consistencyRange leaves 0 m leaves.length true []) =
      (strip (m - 1, leaves.length - 1)).bind fun bits =>
        walkFrom bits (rangeSeed leaves 0 m leaves.length)
          (rangeSiblings leaves 0 m leaves.length).reverse := by
  obtain ⟨q, hq⟩ := exists_strip (p := (m - 1, leaves.length - 1)) (by dsimp only; omega)
  rw [consistencyWalk, hq, Option.bind_some, Option.bind_some]
  by_cases hzero : q.1 = 0
  · obtain ⟨i, hi⟩ := ones_of_strip hq hzero
    obtain rfl : m = 2 ^ i := by dsimp only at hi; omega
    obtain ⟨hrange, hseed⟩ := @consistencyRange_two_pow leaves 0 i _ [] hmn.le hn
    rw [if_pos hzero, hrange, hseed, List.nil_append]
  · have hpow : ∀ i, m ≠ 2 ^ i := by
      intro i hi
      exact hzero (strip_ones (i := i) (by dsimp only; omega) hq)
    rw [if_neg hzero, consistencyRange_of_not_two_pow leaves [] hm hpow hmn hn, List.nil_append]

lemma all_isHexDigest_served {leaves : List Text} (hleaves : leaves.all isHexDigest = true)
    (hm : 0 < m) (hmn : m < leaves.length) (hn : leaves.length < 2 ^ 64) :
    (consistencyRange leaves 0 m leaves.length true []).all isHexDigest = true := by
  have hroots : isHexDigest (rangeSeed leaves 0 m leaves.length) = true ∧
      ∀ x ∈ rangeSiblings leaves 0 m leaves.length, isHexDigest x = true :=
    seed_induction (fun x => isHexDigest x = true) hm hmn.le fun b c _ hbc =>
      isHexDigest_rangeRoot hleaves (by omega)
  rw [List.all_eq_true]
  intro x hx
  by_cases hpow : ∃ i, m = 2 ^ i
  · obtain ⟨i, rfl⟩ := hpow
    rw [(@consistencyRange_two_pow leaves 0 i _ [] hmn.le hn).1, List.nil_append,
      List.mem_reverse] at hx
    exact hroots.2 x hx
  · rw [consistencyRange_of_not_two_pow leaves [] hm (not_exists.mp hpow) hmn hn, List.nil_append,
      List.mem_cons, List.mem_reverse] at hx
    rcases hx with rfl | hx
    · exact hroots.1
    · exact hroots.2 x hx

lemma all_take {leaves : List Text} (hleaves : leaves.all isHexDigest = true) (m : ℕ) :
    (leaves.take m).all isHexDigest = true := by
  rw [List.all_eq_true] at hleaves ⊢
  exact fun x hx => hleaves x (List.mem_of_mem_take hx)

lemma registryMerkleRoot_take {leaves : List Text} (hleaves : leaves.all isHexDigest = true)
    (hm : m ≤ leaves.length) (hn : leaves.length < 2 ^ 64) :
    registryMerkleRoot (leaves.take m) = rangeRoot leaves 0 m := by
  rw [registryMerkleRoot, if_pos (all_take hleaves m), List.length_take, min_eq_left hm,
    merkleRange_eq _ (by omega), rangeRoot_take]

lemma registryMerkleRoot_eq {leaves : List Text} (hleaves : leaves.all isHexDigest = true)
    (hn : leaves.length < 2 ^ 64) :
    registryMerkleRoot leaves = rangeRoot leaves 0 leaves.length := by
  rw [registryMerkleRoot, if_pos hleaves, merkleRange_eq _ hn]

/-- The check of sizes and digests that are well formed. -/
lemma verify_eq {r s : Text} (hm : 0 < m) (hmn : m ≤ n) (hr : isHexDigest r = true)
    (hs : isHexDigest s = true) (hproof : proof.all isHexDigest = true) :
    verifyRegistryMerkleConsistency m n r s proof =
      if m = n then some (proof.isEmpty && r == s)
      else
        (consistencyWalk m n r proof).map fun
          | none => false
          | some w => w.bits.2 == 0 && w.roots.first == r && w.roots.second == s := by
  have hguard : ¬(m = 0 ∨ n < m ∨ isHexDigest r = false ∨ isHexDigest s = false ∨
      proof.all isHexDigest = false) := by
    rw [hr, hs, hproof]
    simp only [Bool.true_eq_false, or_false]
    omega
  unfold verifyRegistryMerkleConsistency
  exact if_neg hguard

/-- The check accepts what the registry serves. -/
lemma verify_served {leaves : List Text} (hleaves : leaves.all isHexDigest = true) (hm : 0 < m)
    (hmn : m ≤ leaves.length) (hn : leaves.length < 2 ^ 64) :
    verifyRegistryMerkleConsistency m leaves.length (registryMerkleRoot (leaves.take m))
      (registryMerkleRoot leaves) (registryMerkleConsistencyProof leaves m) = some true := by
  have hold : isHexDigest (rangeRoot leaves 0 m) = true :=
    isHexDigest_rangeRoot hleaves (by omega)
  have hnew : isHexDigest (rangeRoot leaves 0 leaves.length) = true :=
    isHexDigest_rangeRoot hleaves (by omega)
  rw [registryMerkleRoot_take hleaves hmn hn, registryMerkleRoot_eq hleaves hn,
    registryMerkleConsistencyProof, if_neg (by simp [hleaves]; omega)]
  rcases hmn.eq_or_lt with rfl | hlt
  · rw [if_neg (by simp), verify_eq hm le_rfl hold hold rfl]
    simp
  · have hproof := all_isHexDigest_served hleaves hm hlt hn
    have hclimb : ∃ w, climb nodeHash m leaves.length (rangeSeed leaves 0 m leaves.length)
        (rangeSiblings leaves 0 m leaves.length) = some w ∧
        w.first = rangeRoot leaves 0 m ∧ w.second = rangeRoot leaves 0 leaves.length :=
      climb_siblings hm hmn
    obtain ⟨w, hw, hfirst, hsecond⟩ := hclimb
    rw [← walkFrom_eq_climb _ hm hn (.inl hlt), accepted_eq_some] at hw
    obtain ⟨bits, hwalk, htop⟩ := hw
    rw [if_pos (by omega), verify_eq hm hmn hold hnew hproof, if_neg (by omega),
      consistencyWalk_served hm hlt hn, hwalk, Option.map_some]
    simp [htop, hfirst, hsecond]

/-! ## The loops end -/

lemma strip_le {p q : ℕ × ℕ} (h : strip p = some q) : q.1 ≤ p.1 := by
  refine (whileDo_invariant (fun r : ℕ × ℕ => r.1 ≤ p.1) ?_ le_rfl h).1
  intro r hr _
  rw [shift_eq]
  dsimp only
  omega

lemma skip_le {p q : ℕ × ℕ} (h : skip p = some q) : q.1 ≤ p.1 := by
  refine (whileDo_invariant (fun r : ℕ × ℕ => r.1 ≤ p.1) ?_ le_rfl h).1
  intro r hr _
  rw [shift_eq]
  dsimp only
  omega

lemma exists_walkStep (h : w.bits.1 < 2 ^ 64) (hash : Text) :
    ∃ v, walkStep w hash = some v ∧ v.bits.1 < 2 ^ 64 := by
  rw [walkStep]
  split
  · obtain ⟨q, hq⟩ := exists_skip h
    have := skip_le hq
    refine ⟨_, by rw [hq]; rfl, ?_⟩
    show (shift q).1 < 2 ^ 64
    rw [shift_eq]
    dsimp only
    omega
  · refine ⟨_, rfl, ?_⟩
    rw [shift_eq]
    dsimp only
    omega

lemma exists_walk (h : w.bits.1 < 2 ^ 64) (proof : List Text) : ∃ v, walk w proof = some v := by
  induction proof generalizing w with
  | nil => exact ⟨_, rfl⟩
  | cons hash proof ih =>
    by_cases htop : w.bits.2 = 0
    · exact ⟨_, walk_top htop hash proof⟩
    · obtain ⟨v, hv, hlt⟩ := exists_walkStep h hash
      rw [walk_cons htop, hv]
      exact ih hlt

lemma exists_consistencyWalk (hm : m < 2 ^ 64) (r : Text) (proof : List Text) :
    ∃ v, consistencyWalk m n r proof = some v := by
  obtain ⟨q, hq⟩ := exists_strip (p := (m - 1, n - 1)) (by dsimp only; omega)
  have hlt : q.1 < 2 ^ 64 := (strip_le hq).trans_lt (by dsimp only; omega)
  rw [consistencyWalk, hq, Option.bind_some]
  split
  · exact exists_walk (w := ⟨q, _⟩) hlt _
  · cases proof with
    | nil => exact ⟨_, rfl⟩
    | cons front proof => exact exists_walk (w := ⟨q, _⟩) hlt _

lemma exists_verify (hm : m < 2 ^ 64) (r s : Text) (proof : List Text) :
    ∃ b, verifyRegistryMerkleConsistency m n r s proof = some b := by
  rw [verifyRegistryMerkleConsistency]
  obtain ⟨v, hv⟩ := exists_consistencyWalk (n := n) hm r proof
  split_ifs
  · exact ⟨_, rfl⟩
  · exact ⟨_, rfl⟩
  · exact ⟨_, by rw [hv]; rfl⟩

/-! ## Completeness and binding -/

/-- The pairs hashed for the root over a list of leaves. -/
def registryMerklePairs (leafHashes : List Text) : List (Text × Text) :=
  pairs nodeHash (sha256Hex []) (leafAt leafHashes) 0 leafHashes.length

/-- The check accepts what a registry serves for its own leaves; whatever proof it accepts against
the root over some leaves, the old root is the root over the first of them, as long as no two of
the hashed pairs collide; and its loops end for all 64-bit sizes. -/
theorem verifyRegistryMerkleConsistency_binding :
    (∀ (leaves : List Text) (m : ℕ), leaves.length < 2 ^ 64 → leaves.all isHexDigest = true →
      0 < m → m ≤ leaves.length →
      verifyRegistryMerkleConsistency m leaves.length (registryMerkleRoot (leaves.take m))
        (registryMerkleRoot leaves) (registryMerkleConsistencyProof leaves m) = some true) ∧
    (∀ (S : Set (Text × Text)), S.InjOn (fun p => nodeHash p.1 p.2) →
      ∀ (leaves : List Text) (m : ℕ) (r : Text) (proof : List Text), leaves.length < 2 ^ 64 →
      (∀ p ∈ registryMerklePairs leaves, p ∈ S) →
      (∀ p ∈ consistencyHashes m leaves.length r proof, p ∈ S) →
      verifyRegistryMerkleConsistency m leaves.length r (registryMerkleRoot leaves) proof =
        some true →
      r = registryMerkleRoot (leaves.take m)) ∧
    (∀ (m n : ℕ) (r s : Text) (proof : List Text), m < 2 ^ 64 → n < 2 ^ 64 →
      ∃ b, verifyRegistryMerkleConsistency m n r s proof = some b) := by
  refine ⟨?_, ?_, ?_⟩
  · intro leaves m hn hleaves hm hmn
    exact verify_served hleaves hm hmn hn
  · intro S hS leaves m r proof hn hpairs hhashed hverify
    obtain ⟨hm, hext⟩ := extends_of_verify hn hverify hhashed
    have hleaves : leaves.all isHexDigest = true := by
      -- the root over anything else is the empty text, which the check refuses
      by_contra hleaves
      rw [registryMerkleRoot, if_neg hleaves, verifyRegistryMerkleConsistency,
        if_pos (by simp [isHexDigest])] at hverify
      simp at hverify
    rw [registryMerkleRoot_eq hleaves hn] at hext
    rw [registryMerkleRoot_take hleaves hext.le hn]
    exact hext.eq_root hS hm hpairs
  · intro m n r s proof hm _
    exact exists_verify hm r s proof

section TwoLeaves

variable (a b : Text)

lemma root_pair : root nodeHash (sha256Hex []) (leafAt [a, b]) 0 2 = nodeHash a b := by
  rw [root_of_two_le le_rfl, split_eq (j := 0) (by decide) (by decide), pow_zero, root_one]
  exact congrArg (nodeHash a) root_one

lemma registryMerklePairs_pair : registryMerklePairs [a, b] = [(a, b)] := by
  show pairs nodeHash (sha256Hex []) (leafAt [a, b]) 0 2 = _
  rw [pairs, if_neg (by decide), split_eq (j := 0) (by decide) (by decide), pow_zero]
  simp only [Nat.reduceAdd, Nat.reduceSub]
  rw [root_one, root_one, pairs, if_pos le_rfl, pairs, if_pos le_rfl]
  rfl

lemma consistencyWalk_pair :
    consistencyWalk 1 2 a [b] = some (some ⟨(0, 0), ⟨a, nodeHash a b, [(a, b)]⟩⟩) := by
  simp [consistencyWalk, strip, whileDo, shift, walkFrom, walk, walkStep, Rebuilt.joinRight]

lemma verify_pair {a b : Text} (ha : isHexDigest a = true) (hb : isHexDigest b = true) :
    verifyRegistryMerkleConsistency 1 2 a (nodeHash a b) [b] = some true := by
  rw [verify_eq (by decide) (by decide) ha (isHexDigest_nodeHash ha hb) (by simp [hb])]
  rw [consistencyWalk_pair]
  simp

end TwoLeaves

theorem twoLeaves_binding :
    verifyRegistryMerkleConsistency 1 2
        (registryMerkleRoot ([sha256Hex [0], sha256Hex [1]].take 1))
        (registryMerkleRoot [sha256Hex [0], sha256Hex [1]])
        (registryMerkleConsistencyProof [sha256Hex [0], sha256Hex [1]] 1) = some true ∧
    sha256Hex [0] = registryMerkleRoot ([sha256Hex [0], sha256Hex [1]].take 1) ∧
    ∃ b, verifyRegistryMerkleConsistency 1 2 [] [] [] = some b := by
  have ha := isHexDigest_sha256Hex [0]
  have hb := isHexDigest_sha256Hex [1]
  generalize sha256Hex [0] = a at *
  generalize sha256Hex [1] = b at *
  have hleaves : [a, b].all isHexDigest = true := by simp [ha, hb]
  have hS : Set.InjOn (fun p : Text × Text => nodeHash p.1 p.2) {(a, b)} :=
    Set.injOn_singleton _ _
  have hpairs : ∀ p ∈ registryMerklePairs [a, b], p ∈ ({(a, b)} : Set (Text × Text)) := by
    rw [registryMerklePairs_pair]
    simp
  have hhashed : ∀ p ∈ consistencyHashes 1 2 a [b], p ∈ ({(a, b)} : Set (Text × Text)) := by
    rw [consistencyHashes, consistencyWalk_pair]
    simp
  have hroot : registryMerkleRoot [a, b] = nodeHash a b :=
    (registryMerkleRoot_eq hleaves (by simp)).trans (root_pair a b)
  obtain ⟨hcomplete, hbinding, hends⟩ := verifyRegistryMerkleConsistency_binding
  refine ⟨hcomplete [a, b] 1 (by simp) hleaves (by simp) (by simp), ?_,
    hends 1 2 [] [] [] (by simp) (by simp)⟩
  refine hbinding _ hS [a, b] 1 a [b] (by simp) hpairs hhashed ?_
  rw [hroot]
  exact verify_pair ha hb

end Registry

end Chtholly
