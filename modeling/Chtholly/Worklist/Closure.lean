import Mathlib.Data.Fintype.Card
import Mathlib.Data.Fintype.EquivFin
import Mathlib.Logic.Relation

/-!
# Closures by a growing list

A list grows at its end while a cursor walks over it: the successors of the member under the cursor
are appended unless they are there already.  Over finitely many values the cursor reaches the end,
and the list holds all that can be reached from its first member.

## Main definitions

* `Worklist.pushNew` — values appended that are not yet there.
* `Worklist.explore` — the walk of the cursor.

## Main results

* `Worklist.mem_explore_iff` — the list holds what can be reached.
-/

set_option autoImplicit false

namespace Chtholly

namespace Worklist

variable {α : Type} [DecidableEq α]

/-- The values of a list appended one after the other, unless they are there already. -/
def pushNew (seen : List α) : List α → List α
  | [] => seen
  | a :: rest => if a ∈ seen then pushNew seen rest else pushNew (seen ++ [a]) rest

/-- The walk over a list that grows, for at most `fuel` steps. -/
def explore (next : α → List α) : ℕ → ℕ → List α → List α
  | 0, _, seen => seen
  | fuel + 1, cursor, seen =>
    match seen[cursor]? with
    | none => seen
    | some a => explore next fuel (cursor + 1) (pushNew seen (next a))

lemma exists_pushNew (seen all : List α) :
    ∃ fresh, pushNew seen all = seen ++ fresh ∧ ∀ a ∈ fresh, a ∈ all := by
  induction all generalizing seen with
  | nil => exact ⟨[], (List.append_nil seen).symm, fun a ha => absurd ha List.not_mem_nil⟩
  | cons b all ih =>
    rw [pushNew]
    split
    case isTrue =>
      obtain ⟨fresh, heq, hfresh⟩ := ih seen
      exact ⟨fresh, heq, fun a ha => .tail _ (hfresh a ha)⟩
    case isFalse =>
      obtain ⟨fresh, heq, hfresh⟩ := ih (seen ++ [b])
      refine ⟨b :: fresh, by rw [heq, List.append_assoc, List.singleton_append], ?_⟩
      intro a ha
      obtain rfl | ha := List.mem_cons.1 ha
      · exact List.mem_cons_self
      · exact .tail _ (hfresh a ha)

lemma mem_pushNew {seen all : List α} {a : α} : a ∈ pushNew seen all ↔ a ∈ seen ∨ a ∈ all := by
  induction all generalizing seen with
  | nil => simp [pushNew]
  | cons b all ih =>
    rw [pushNew]
    split
    case isTrue hb =>
      rw [ih, List.mem_cons]
      constructor
      · rintro (h | h)
        · exact .inl h
        · exact .inr (.inr h)
      · rintro (h | rfl | h)
        · exact .inl h
        · exact .inl hb
        · exact .inr h
    case isFalse =>
      rw [ih, List.mem_append, List.mem_singleton, List.mem_cons, or_assoc]

lemma nodup_pushNew {seen : List α} (all : List α) (h : seen.Nodup) : (pushNew seen all).Nodup := by
  induction all generalizing seen with
  | nil => exact h
  | cons b all ih =>
    rw [pushNew]
    split
    case isTrue => exact ih h
    case isFalse hb =>
      apply ih
      rw [List.nodup_append]
      refine ⟨h, List.nodup_singleton b, fun a ha c hc => ?_⟩
      rw [List.mem_singleton.1 hc]
      exact fun hsame => hb (hsame ▸ ha)

/-- What holds while the cursor walks: all members can be reached, and the successors of those before
the cursor are members. -/
structure Explored (next : α → List α) (start : α) (cursor : ℕ) (seen : List α) : Prop where
  start_mem : start ∈ seen
  nodup : seen.Nodup
  reached : ∀ a ∈ seen, Relation.ReflTransGen (fun a b => b ∈ next a) start a
  closed : ∀ a ∈ seen.take cursor, ∀ b ∈ next a, b ∈ seen

lemma Explored.step {next : α → List α} {start a : α} {cursor : ℕ} {seen : List α}
    (h : Explored next start cursor seen) (ha : seen[cursor]? = some a) :
    Explored next start (cursor + 1) (pushNew seen (next a)) := by
  obtain ⟨hlt, hget⟩ := List.getElem?_eq_some_iff.1 ha
  have hmem : a ∈ seen := List.mem_of_getElem? ha
  constructor
  · exact mem_pushNew.2 (.inl h.start_mem)
  · exact nodup_pushNew _ h.nodup
  · intro b hb
    obtain hb | hb := mem_pushNew.1 hb
    · exact h.reached b hb
    · exact (h.reached a hmem).tail hb
  · intro b hb c hc
    obtain ⟨fresh, heq, -⟩ := exists_pushNew seen (next a)
    rw [heq, List.take_append_of_le_length hlt, List.take_succ_eq_append_getElem hlt, hget,
      List.mem_append, List.mem_singleton] at hb
    rw [mem_pushNew]
    obtain hb | rfl := hb
    · exact .inl (h.closed b hb c hc)
    · exact .inr hc

/-- The walk ends with a closed list, when it may take as many steps as there are values. -/
lemma Explored.explore [Fintype α] {next : α → List α} {start : α} {fuel cursor : ℕ}
    {seen : List α} (h : Explored next start cursor seen)
    (hfuel : Fintype.card α ≤ cursor + fuel) :
    ∃ cursor', (explore next fuel cursor seen).length ≤ cursor' ∧
      Explored next start cursor' (Worklist.explore next fuel cursor seen) := by
  induction fuel generalizing cursor seen with
  | zero => exact ⟨cursor, (h.nodup.length_le_card).trans hfuel, h⟩
  | succ fuel ih =>
    rw [Worklist.explore]
    cases hget : seen[cursor]? with
    | none => exact ⟨cursor, List.getElem?_eq_none_iff.1 hget, h⟩
    | some a => exact ih (h.step hget) (by omega)

/-- The list holds what can be reached. -/
theorem mem_explore_iff [Fintype α] {next : α → List α} {start a : α} {fuel : ℕ}
    (hfuel : Fintype.card α ≤ fuel) :
    a ∈ explore next fuel 0 [start] ↔
      Relation.ReflTransGen (fun a b => b ∈ next a) start a := by
  have hstart : Explored next start 0 [start] := by
    refine ⟨List.mem_singleton_self start, List.nodup_singleton start, ?_, ?_⟩
    · intro b hb
      rw [List.mem_singleton.1 hb]
    · intro b hb
      exact absurd hb List.not_mem_nil
  obtain ⟨cursor, hlength, hlast⟩ := hstart.explore
    (show Fintype.card α ≤ 0 + fuel by omega)
  constructor
  · exact hlast.reached a
  · intro h
    induction h with
    | refl => exact hlast.start_mem
    | tail _ hnext ih =>
      apply hlast.closed _ _ _ hnext
      rwa [List.take_of_length_le hlength]

end Worklist

end Chtholly
