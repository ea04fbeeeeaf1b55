import Chtholly.Worklist.Dense
import Mathlib.Data.List.Range
import Mathlib.Data.List.Perm.Subperm
import Mathlib.Logic.Relation
import Mathlib.Tactic.Ring

/-!
# Reachability by a dense worklist

The ids that successors lead to are collected by a worklist: an id that is taken and was not seen
before is noted, and its successors are put in.

## Main definitions

* `DenseWorklist.reach` — the loop, with a bound for the number of ids it takes.
* `DenseWorklist.reachBound` — a bound that suffices.

## Main results

* `DenseWorklist.mem_reach_iff` — the loop notes what the first ids lead to.
-/

set_option autoImplicit false

namespace Chtholly

namespace DenseWorklist

variable {successors : ℕ → List ℕ} {w : DenseWorklist} {seen starts : List ℕ} {idCount : ℕ}

/-- The loop over the worklist, which takes at most `rounds` ids. -/
def reach (successors : ℕ → List ℕ) : ℕ → DenseWorklist → List ℕ → List ℕ
  | 0, _, seen => seen
  | rounds + 1, w, seen =>
    match w.pop with
    | none => seen
    | some (id, w) =>
      if id ∈ seen then reach successors rounds w seen
      else reach successors rounds (w.pushAll (successors id)) (seen ++ [id])

/-- How many ids are taken at most: every id is noted once, and at most `idCount` are pending. -/
def reachBound (idCount : ℕ) : ℕ :=
  (idCount + 1) * (idCount + 1)

/-- The ids that some of the given ones lead to. -/
def Reached (successors : ℕ → List ℕ) (starts : List ℕ) (id : ℕ) : Prop :=
  ∃ start ∈ starts, Relation.ReflTransGen (fun a b => b ∈ successors a) start id

lemma Reached.step {a b : ℕ} (h : Reached successors starts a) (hb : b ∈ successors a) :
    Reached successors starts b := by
  obtain ⟨start, hstart, hpath⟩ := h
  exact ⟨start, hstart, hpath.tail hb⟩

/-- A list of distinct ids below a bound is no longer than the bound. -/
lemma length_le_of_nodup {ids : List ℕ} (hnodup : ids.Nodup) (hbound : ∀ id ∈ ids, id < idCount) :
    ids.length ≤ idCount := by
  have hsub : ids ⊆ List.range idCount := fun id hid => List.mem_range.2 (hbound id hid)
  have hle := (hnodup.subperm hsub).length_le
  rwa [List.length_range] at hle

/-- What holds before every round: what is noted or pending is reached, and a successor of what is
noted is noted or pending. -/
structure Reaching (successors : ℕ → List ℕ) (starts : List ℕ) (idCount : ℕ) (w : DenseWorklist)
    (seen : List ℕ) : Prop where
  valid : w.Valid
  idCount_eq : w.idCount = idCount
  nodup : seen.Nodup
  bound : ∀ id ∈ seen, id < idCount
  reached : ∀ id, id ∈ seen ∨ id ∈ w.pending → Reached successors starts id
  starts_mem : ∀ id ∈ starts, id ∈ seen ∨ id ∈ w.pending
  closed : ∀ a ∈ seen, ∀ b ∈ successors a, b ∈ seen ∨ b ∈ w.pending

lemma Reaching.length_seen_le (h : Reaching successors starts idCount w seen) :
    seen.length ≤ idCount :=
  length_le_of_nodup h.nodup h.bound

lemma Reaching.length_pending_le (h : Reaching successors starts idCount w seen) :
    w.pending.length ≤ idCount := by
  apply length_le_of_nodup h.valid.nodup
  intro id hid
  have hlt := h.valid.bound id hid
  rwa [h.idCount_eq] at hlt

/-- The rounds that are left: ids that are not noted count more than all that can be pending. -/
def remaining (idCount : ℕ) (w : DenseWorklist) (seen : List ℕ) : ℕ :=
  (idCount - seen.length) * (idCount + 1) + w.pending.length

lemma Reaching.create (hstarts : ∀ id ∈ starts, id < idCount) (order : DenseWorklistOrder) :
    Reaching successors starts idCount ((create idCount order).pushAll starts) [] := by
  have hvalid := Valid.create idCount order
  have hpending : ∀ id, id ∈ ((DenseWorklist.create idCount order).pushAll starts).pending ↔
      id ∈ starts := by
    intro id
    rw [hvalid.mem_pending_pushAll]
    constructor
    · rintro (hmem | ⟨hmem, -⟩)
      · simp [DenseWorklist.create, DenseWorklist.pending] at hmem
      · exact hmem
    · exact fun hmem => Or.inr ⟨hmem, hstarts id hmem⟩
  refine ⟨hvalid.pushAll starts, ?_, List.nodup_nil, ?_, ?_, ?_, ?_⟩
  · exact idCount_pushAll _ _
  · exact fun id hid => absurd hid List.not_mem_nil
  · rintro id (hid | hid)
    · exact absurd hid List.not_mem_nil
    · exact ⟨id, (hpending id).1 hid, .refl⟩
  · exact fun id hid => Or.inr ((hpending id).2 hid)
  · exact fun a ha => absurd ha List.not_mem_nil

variable {id : ℕ} {rest : DenseWorklist}

/-- An id that was noted before is taken out. -/
lemma Reaching.skip (h : Reaching successors starts idCount w seen) (htaken : Taken w id rest)
    (hseen : id ∈ seen) : Reaching successors starts idCount rest seen := by
  have hmem : ∀ other, other ∈ w.pending ↔ other = id ∨ other ∈ rest.pending := fun other =>
    htaken.pending.mem_iff.trans List.mem_cons
  have hcover : ∀ other, other ∈ seen ∨ other ∈ w.pending → other ∈ seen ∨ other ∈ rest.pending := by
    rintro other (hother | hother)
    · exact Or.inl hother
    · rcases (hmem other).1 hother with rfl | hrest
      · exact Or.inl hseen
      · exact Or.inr hrest
  refine ⟨htaken.valid, htaken.idCount.trans h.idCount_eq, h.nodup, h.bound, ?_, ?_, ?_⟩
  · exact fun other hother => h.reached other (hother.imp_right fun hrest =>
      (hmem other).2 (Or.inr hrest))
  · exact fun other hother => hcover other (h.starts_mem other hother)
  · exact fun a ha b hb => hcover b (h.closed a ha b hb)

/-- An id that was not noted before is noted, and its successors are put in. -/
lemma Reaching.note (h : Reaching successors starts idCount w seen) (htaken : Taken w id rest)
    (hfresh : id ∉ seen) (hbound : ∀ b ∈ successors id, b < idCount) :
    Reaching successors starts idCount (rest.pushAll (successors id)) (seen ++ [id]) := by
  have hmem : ∀ other, other ∈ w.pending ↔ other = id ∨ other ∈ rest.pending := fun other =>
    htaken.pending.mem_iff.trans List.mem_cons
  have hcount : rest.idCount = idCount := htaken.idCount.trans h.idCount_eq
  have hpending : ∀ other, other ∈ (rest.pushAll (successors id)).pending ↔
      other ∈ rest.pending ∨ other ∈ successors id := by
    intro other
    rw [htaken.valid.mem_pending_pushAll, hcount]
    exact or_congr_right ⟨And.left, fun hother => ⟨hother, hbound other hother⟩⟩
  have hid := (hmem id).2 (Or.inl rfl)
  have hcover : ∀ other, other ∈ seen ∨ other ∈ w.pending →
      other ∈ seen ++ [id] ∨ other ∈ (rest.pushAll (successors id)).pending := by
    intro other hother
    rw [List.mem_append, List.mem_singleton, hpending]
    rcases hother with hother | hother
    · exact Or.inl (Or.inl hother)
    · rcases (hmem other).1 hother with rfl | hrest
      · exact Or.inl (Or.inr rfl)
      · exact Or.inr (Or.inl hrest)
  have hreached : Reached successors starts id := h.reached id (Or.inr hid)
  constructor
  · exact htaken.valid.pushAll _
  · rw [idCount_pushAll, hcount]
  · exact h.nodup.append (List.nodup_singleton id) (List.disjoint_singleton.2 hfresh)
  · intro other hother
    rcases List.mem_append.1 hother with hother | hother
    · exact h.bound other hother
    · have hlt := h.valid.bound id hid
      rwa [h.idCount_eq, ← List.mem_singleton.1 hother] at hlt
  · intro other hother
    rw [List.mem_append, List.mem_singleton, hpending] at hother
    rcases hother with (hother | rfl) | hother | hother
    · exact h.reached other (Or.inl hother)
    · exact hreached
    · exact h.reached other (Or.inr ((hmem other).2 (Or.inr hother)))
    · exact hreached.step hother
  · exact fun other hother => hcover other (h.starts_mem other hother)
  · intro a ha b hb
    rcases List.mem_append.1 ha with ha | ha
    · exact hcover b (h.closed a ha b hb)
    · rw [List.mem_singleton.1 ha] at hb
      exact Or.inr ((hpending b).2 (Or.inr hb))

/-- With enough rounds nothing is pending at the end. -/
lemma Reaching.reach (h : Reaching successors starts idCount w seen)
    (hbound : ∀ a, ∀ b ∈ successors a, b < idCount) {rounds : ℕ}
    (hrounds : remaining idCount w seen < rounds) :
    ∃ last, last.pending = [] ∧
      Reaching successors starts idCount last (DenseWorklist.reach successors rounds w seen) := by
  induction rounds generalizing w seen with
  | zero => exact absurd hrounds (Nat.not_lt_zero _)
  | succ rounds ih =>
    rw [DenseWorklist.reach]
    cases hpop : w.pop with
    | none => exact ⟨w, h.valid.pop_eq_none.1 hpop, h⟩
    | some taken =>
      obtain ⟨id, rest⟩ := taken
      have htaken := h.valid.pop_eq_some hpop
      have hlength : w.pending.length = rest.pending.length + 1 :=
        htaken.pending.length_eq.trans (List.length_cons ..)
      dsimp only
      by_cases hseen : id ∈ seen
      · rw [if_pos hseen]
        apply ih (h.skip htaken hseen)
        unfold remaining at hrounds ⊢
        omega
      · rw [if_neg hseen]
        have hnext := h.note htaken hseen (hbound id)
        apply ih hnext
        -- The id that is noted pays for all that can be pending then.
        have hpending := hnext.length_pending_le
        have hnoted := hnext.length_seen_le
        rw [List.length_append, List.length_singleton] at hnoted
        have hless : idCount - seen.length = (idCount - (seen.length + 1)) + 1 := by omega
        unfold remaining at hrounds ⊢
        rw [List.length_append, List.length_singleton]
        rw [hless, Nat.add_mul, Nat.one_mul] at hrounds
        omega

/-- **The loop notes what the first ids lead to.** -/
theorem mem_reach_iff (hstarts : ∀ a ∈ starts, a < idCount)
    (hbound : ∀ a, ∀ b ∈ successors a, b < idCount) (order : DenseWorklistOrder) :
    id ∈ reach successors (reachBound idCount) ((create idCount order).pushAll starts) [] ↔
      Reached successors starts id := by
  have hfirst : Reaching successors starts idCount ((create idCount order).pushAll starts) [] :=
    Reaching.create hstarts order
  have hpending := hfirst.length_pending_le
  have hrounds : remaining idCount ((create idCount order).pushAll starts) [] <
      reachBound idCount := by
    rw [remaining, reachBound, List.length_nil, Nat.sub_zero, Nat.add_mul, Nat.one_mul]
    omega
  obtain ⟨last, hempty, hlast⟩ := hfirst.reach hbound hrounds
  have hnoted : ∀ {a : ℕ}, a ∈ reach successors (reachBound idCount)
      ((create idCount order).pushAll starts) [] ∨ a ∈ last.pending → a ∈ reach successors
      (reachBound idCount) ((create idCount order).pushAll starts) [] := by
    intro a ha
    rw [hempty] at ha
    exact ha.resolve_right List.not_mem_nil
  constructor
  · exact fun hid => hlast.reached id (Or.inl hid)
  · rintro ⟨start, hstart, hpath⟩
    induction hpath with
    | refl => exact hnoted (hlast.starts_mem start hstart)
    | tail _ hstep ih => exact hnoted (hlast.closed _ ih _ hstep)

end DenseWorklist

end Chtholly
