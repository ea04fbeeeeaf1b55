import Mathlib.Data.List.TakeDrop
import Mathlib.Data.List.GetD
import Mathlib.Data.Nat.Basic

/-!
# A cursor over a text

A scanner holds a position in a text and looks at the symbols from there on; past the end it sees a
blank.  A loop that steps over symbols comes in two forms.  One steps while the symbol ahead has a
property, and ends because the blank does not have it.  The other one tests for the end itself and
stops at the first position of some kind.

## Main definitions

* `Scanning.peek`, `Scanning.advance` — the symbol ahead, and the position after it.
* `Scanning.skipWhile`, `Scanning.skipUntil` — the two loops.
* `Scanning.slice` — the symbols between two positions.

## Main results

* `Scanning.skipWhile_spec`, `Scanning.skipUntil_spec` — what lies behind and what lies ahead when a
  loop has ended.
* `Scanning.slice_append_slice` — adjacent pieces make one piece.
-/

set_option autoImplicit false

namespace Chtholly

namespace Scanning

variable {α : Type*} (text : List α) (blank : α)

/-- The symbol at a position, and a blank past the end. -/
def peek (offset : ℕ) : α := text.getD offset blank

/-- The next position; the end is not passed. -/
def advance (offset : ℕ) : ℕ := if offset < text.length then offset + 1 else offset

variable {text blank}

variable {offset : ℕ}

lemma lt_of_peek_ne (h : peek text blank offset ≠ blank) : offset < text.length := by
  by_contra hend
  exact h (List.getD_eq_default _ _ (by omega))

lemma lt_of_peek {p : α → Bool} (hblank : p blank = false) (h : p (peek text blank offset) = true) :
    offset < text.length := by
  apply lt_of_peek_ne
  intro heq
  rw [heq, hblank] at h
  simp at h

lemma advance_of_lt (h : offset < text.length) : advance text offset = offset + 1 :=
  if_pos h

lemma le_advance : offset ≤ advance text offset := by
  unfold advance
  split <;> omega

lemma advance_le (h : offset ≤ text.length) : advance text offset ≤ text.length := by
  unfold advance
  split <;> omega

variable (text blank)

set_option linter.unusedVariables false in
/-- `while (p(peek())) advance();`, which ends because a blank does not have the property. -/
def skipWhile (p : α → Bool) (hblank : p blank = false) (offset : ℕ) : ℕ :=
  if hp : p (peek text blank offset) = true then
    skipWhile p hblank (advance text offset)
  else offset
termination_by text.length - offset
decreasing_by
  have hlt := lt_of_peek hblank hp
  rw [advance_of_lt hlt]
  omega

set_option linter.unusedVariables false in
/-- `while (!atEnd() && !stops()) advance();`. -/
def skipUntil (stops : ℕ → Bool) (offset : ℕ) : ℕ :=
  if hgo : offset < text.length ∧ stops offset = false then
    skipUntil stops (advance text offset)
  else offset
termination_by text.length - offset
decreasing_by
  rw [advance_of_lt hgo.1]
  omega

/-- The symbols from one position up to another one. -/
def slice (start stop : ℕ) : List α := (text.drop start).take (stop - start)

variable {text blank}

lemma le_skipWhile {p : α → Bool} (hblank : p blank = false) :
    offset ≤ skipWhile text blank p hblank offset := by
  fun_induction skipWhile text blank p hblank offset with
  | case1 offset hp ih => exact Nat.le_trans le_advance ih
  | case2 offset hp => exact le_rfl

lemma le_skipUntil {stops : ℕ → Bool} : offset ≤ skipUntil text stops offset := by
  fun_induction skipUntil text stops offset with
  | case1 offset hgo ih => exact Nat.le_trans le_advance ih
  | case2 offset hstay => exact le_rfl

/-- A loop that does not stop at once makes a step. -/
lemma lt_skipUntil {stops : ℕ → Bool} (h : offset < text.length) (hgo : stops offset = false) :
    offset < skipUntil text stops offset := by
  rw [skipUntil, dif_pos ⟨h, hgo⟩, advance_of_lt h]
  exact le_skipUntil

/-- Behind the cursor lie symbols with the property, ahead of it one without. -/
theorem skipWhile_spec {p : α → Bool} (hblank : p blank = false) (h : offset ≤ text.length) :
    offset ≤ skipWhile text blank p hblank offset ∧
      skipWhile text blank p hblank offset ≤ text.length ∧
      (∀ i, offset ≤ i → i < skipWhile text blank p hblank offset →
        p (peek text blank i) = true) ∧
      p (peek text blank (skipWhile text blank p hblank offset)) = false := by
  fun_induction skipWhile text blank p hblank offset with
  | case1 offset hp ih =>
    have hlt := lt_of_peek hblank hp
    obtain ⟨hle, hend, hall, hstop⟩ := ih (advance_le h)
    have hnext : offset ≤ advance text offset := le_advance
    refine ⟨by omega, hend, ?_, hstop⟩
    intro i hi hlast
    obtain rfl | hne := eq_or_ne i offset
    · exact hp
    · exact hall i (by rw [advance_of_lt hlt]; omega) hlast
  | case2 offset hp =>
    refine ⟨le_rfl, h, ?_, by simpa using hp⟩
    intro i hi hlast
    omega

/-- Behind the cursor lie positions of the other kind; it stands at the end or at a stop. -/
theorem skipUntil_spec {stops : ℕ → Bool} {offset : ℕ} (h : offset ≤ text.length) :
    offset ≤ skipUntil text stops offset ∧ skipUntil text stops offset ≤ text.length ∧
      (∀ i, offset ≤ i → i < skipUntil text stops offset → stops i = false) ∧
      (skipUntil text stops offset = text.length ∨
        stops (skipUntil text stops offset) = true) := by
  fun_induction skipUntil text stops offset with
  | case1 offset hgo ih =>
    have hlt := hgo.1
    obtain ⟨hle, hend, hall, hstop⟩ := ih (advance_le h)
    have hnext : offset ≤ advance text offset := le_advance
    refine ⟨by omega, hend, ?_, hstop⟩
    intro i hi hlast
    obtain rfl | hne := eq_or_ne i offset
    · exact hgo.2
    · exact hall i (by rw [advance_of_lt hlt]; omega) hlast
  | case2 offset hstay =>
    refine ⟨le_rfl, h, ?_, ?_⟩
    · intro i hi hlast
      omega
    · by_cases hlt : offset < text.length
      · right
        simpa [hlt] using hstay
      · left
        omega

/-- A loop reaches what it can go on up to. -/
lemma le_skipUntil_of_forall {stops : ℕ → Bool} {offset stop : ℕ} (h : offset ≤ text.length)
    (hstop : stop ≤ text.length) (hgo : ∀ i, offset ≤ i → i < stop → stops i = false) :
    stop ≤ skipUntil text stops offset := by
  obtain ⟨hle, -, -, hend⟩ := @skipUntil_spec _ text stops offset h
  by_contra hlt
  have hstays := hgo _ hle (by omega)
  obtain hend | hend := hend
  · omega
  · rw [hstays] at hend
    simp at hend

lemma length_slice {start stop : ℕ} (hstop : stop ≤ text.length) :
    (slice text start stop).length = stop - start := by
  rw [slice, List.length_take, List.length_drop]
  omega

lemma slice_append_slice {start middle stop : ℕ} (h : start ≤ middle) (h' : middle ≤ stop) :
    slice text start middle ++ slice text middle stop = slice text start stop := by
  have hstop : stop - start = (middle - start) + (stop - middle) := by omega
  have hdrop : text.drop middle = (text.drop start).drop (middle - start) := by
    rw [List.drop_drop]
    congr 1
    omega
  rw [slice, slice, slice, hstop, List.take_add, hdrop]

@[simp]
lemma slice_self {start : ℕ} : slice text start start = [] := by
  simp [slice]

lemma slice_all : slice text 0 text.length = text := by
  simp [slice]

end Scanning

end Chtholly
