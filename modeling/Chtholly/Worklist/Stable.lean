import Mathlib.Logic.Function.Basic

/-!
# Fixed points by a worklist

A store holds a value for every key, and an evaluation computes the value of a key from the values
of the keys it reads.  A key is stable when it holds what its evaluation gives.  A worklist keeps
the keys covered: a key is pending or stable.  When the value of a key changes, the keys that read
it are put in again.

## Main definitions

* `Worklist.Reads` — an evaluation depends on what it reads only.
* `Worklist.Stable`, `Worklist.Covered` — stable keys, and keys that are pending or stable.

## Main results

* `Worklist.Covered.keep`, `Worklist.Covered.update` — the two ways to handle a key.
-/

set_option autoImplicit false

namespace Chtholly

namespace Worklist

variable {ι β : Type}

/-- The evaluation of a key depends on the values of the keys it reads only. -/
def Reads (eval : ι → (ι → β) → β) (reads : ι → ι → Prop) : Prop :=
  ∀ x store store', (∀ y, reads x y → store y = store' y) → eval x store = eval x store'

def Stable (eval : ι → (ι → β) → β) (store : ι → β) (x : ι) : Prop :=
  store x = eval x store

/-- Every key of the list is pending or stable. -/
def Covered (eval : ι → (ι → β) → β) (store : ι → β) (members pending : List ι) : Prop :=
  ∀ x ∈ members, x ∈ pending ∨ Stable eval store x

variable {eval : ι → (ι → β) → β} {reads : ι → ι → Prop} {store store' : ι → β}
  {members pending rest : List ι} {x : ι}

lemma Stable.congr (h : Stable eval store x) (hreads : Reads eval reads) (hx : store x = store' x)
    (hsame : ∀ y, reads x y → store y = store' y) : Stable eval store' x := by
  have heval := hreads x store store' hsame
  rw [Stable] at h ⊢
  rw [← hx, ← heval, h]

/-- What is pending may come in any order and be more. -/
lemma Covered.mono (h : Covered eval store members pending)
    (hsub : ∀ y ∈ pending, y ∈ rest) : Covered eval store members rest :=
  fun y hy => (h y hy).imp_left (hsub y)

/-- Without pending keys all are stable. -/
lemma Covered.stable (h : Covered eval store members []) (hx : x ∈ members) : Stable eval store x :=
  (h x hx).resolve_left List.not_mem_nil

/-- A key that is stable is taken out. -/
lemma Covered.keep (h : Covered eval store members (x :: rest))
    (hstable : x ∈ members → Stable eval store x) : Covered eval store members rest := by
  intro y hy
  rcases h y hy with hpending | hy'
  · rcases List.mem_cons.1 hpending with rfl | hrest
    · exact Or.inr (hstable hy)
    · exact Or.inl hrest
  · exact Or.inr hy'

/-- A key is taken out and gets its value; the keys that read it are put in. -/
lemma Covered.update [DecidableEq ι] (h : Covered eval store members (x :: rest))
    (hreads : Reads eval reads) (hrest : ∀ y ∈ rest, y ∈ pending)
    (hreaders : ∀ y ∈ members, reads y x → y ∈ pending) :
    Covered eval (Function.update store x (eval x store)) members pending := by
  intro y hy
  by_cases hreader : reads y x
  · exact Or.inl (hreaders y hy hreader)
  -- The change does not reach the evaluation of `y`.
  have hsame : ∀ z, reads y z → store z = Function.update store x (eval x store) z := by
    intro z hz
    have hne : z ≠ x := fun heq => hreader (heq ▸ hz)
    rw [Function.update_of_ne hne]
  by_cases heq : y = x
  · subst heq
    refine Or.inr ?_
    rw [Stable, Function.update_self]
    exact hreads y store _ hsame
  · rcases h y hy with hpending | hstable
    · exact Or.inl (hrest y ((List.mem_cons.1 hpending).resolve_left heq))
    · refine Or.inr (hstable.congr hreads ?_ hsame)
      rw [Function.update_of_ne heq]

end Worklist

end Chtholly
