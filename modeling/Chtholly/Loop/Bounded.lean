import Mathlib.Data.Option.Basic
import Mathlib.Data.Nat.Bits

/-!
# Loops with a bound on their rounds

A `while` loop of a program is the function `whileDo` with a number of rounds; it has no result
when the rounds do not suffice.  Three rules are enough for the loops met later: an invariant holds
of the result, a rank that falls with every round makes a result exist, and two loops that test and
change related states alike end in related states.

## Main definitions

* `Loop.whileDo` — `while (condition) body`, for at most so many rounds.

## Main results

* `Loop.whileDo_invariant` — what a loop keeps, and that its condition fails at the end.
* `Loop.whileDo_isSome` — a loop whose rank fits the rounds ends.
* `Loop.whileDo_rel` — two loops in lock step.
-/

set_option autoImplicit false

namespace Chtholly

namespace Loop

variable {σ τ : Type*} {condition : σ → Bool} {body : σ → σ}

/-- `while (condition s) s = body s`, with at most `fuel` rounds of the body. -/
def whileDo (condition : σ → Bool) (body : σ → σ) : ℕ → σ → Option σ
  | 0, s => if condition s then none else some s
  | fuel + 1, s => if condition s then whileDo condition body fuel (body s) else some s

lemma whileDo_of_not {fuel : ℕ} {s : σ} (h : condition s = false) :
    whileDo condition body fuel s = some s := by
  cases fuel <;> simp [whileDo, h]

lemma whileDo_succ {fuel : ℕ} {s : σ} (h : condition s = true) :
    whileDo condition body (fuel + 1) s = whileDo condition body fuel (body s) := by
  simp [whileDo, h]

/-- What every round keeps holds of the result, where the condition fails. -/
theorem whileDo_invariant (P : σ → Prop)
    (hbody : ∀ s, P s → condition s = true → P (body s)) {fuel : ℕ} {s t : σ} (hs : P s)
    (h : whileDo condition body fuel s = some t) : P t ∧ condition t = false := by
  induction fuel generalizing s with
  | zero =>
    cases hc : condition s with
    | true => simp [whileDo, hc] at h
    | false =>
      rw [whileDo_of_not hc] at h
      obtain rfl := Option.some.inj h
      exact ⟨hs, hc⟩
  | succ fuel ih =>
    cases hc : condition s with
    | true => exact ih (hbody s hs hc) (by rwa [whileDo_succ hc] at h)
    | false =>
      rw [whileDo_of_not hc] at h
      obtain rfl := Option.some.inj h
      exact ⟨hs, hc⟩

/-- A loop ends when a rank falls with every round and the condition fails at rank zero. -/
theorem whileDo_isSome (rank : ℕ → σ → Prop) (hzero : ∀ s, rank 0 s → condition s = false)
    (hbody : ∀ n s, rank (n + 1) s → condition s = true → rank n (body s)) {fuel : ℕ} {s : σ}
    (hs : rank fuel s) : ∃ t, whileDo condition body fuel s = some t := by
  induction fuel generalizing s with
  | zero => exact ⟨s, whileDo_of_not (hzero s hs)⟩
  | succ fuel ih =>
    cases hc : condition s with
    | true =>
      rw [whileDo_succ hc]
      exact ih (hbody fuel s hs hc)
    | false => exact ⟨s, whileDo_of_not hc⟩

/-- Two loops whose states stay related and whose conditions agree on related states. -/
theorem whileDo_rel (R : σ → τ → Prop) {condition' : τ → Bool} {body' : τ → τ}
    (hcond : ∀ s t, R s t → condition s = condition' t)
    (hbody : ∀ s t, R s t → condition s = true → R (body s) (body' t)) {s : σ} {t : τ}
    (h : R s t) (fuel : ℕ) :
    Option.Rel R (whileDo condition body fuel s) (whileDo condition' body' fuel t) := by
  induction fuel generalizing s t with
  | zero =>
    cases hc : condition s with
    | true => simp [whileDo, hc, ← hcond s t h]
    | false =>
      rw [whileDo_of_not hc, whileDo_of_not (by rw [← hcond s t h, hc])]
      exact .some h
  | succ fuel ih =>
    cases hc : condition s with
    | true =>
      rw [whileDo_succ hc, whileDo_succ (by rw [← hcond s t h, hc])]
      exact ih (hbody s t h hc)
    | false =>
      rw [whileDo_of_not hc, whileDo_of_not (by rw [← hcond s t h, hc])]
      exact .some h

end Loop

end Chtholly
