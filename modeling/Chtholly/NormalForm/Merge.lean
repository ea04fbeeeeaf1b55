import Mathlib.Data.List.Sort

/-!
# Merging facts

Runs of facts of one class become one fact, and facts that are related are absorbed into one another.
Both leave a list alone in which there is nothing to merge.

## Main definitions

* `NormalForm.mergeRuns` — neighbours of one class become one fact.
* `NormalForm.absorb`, `NormalForm.absorbAll` — a fact takes in the facts it is related to.

## Main results

* `NormalForm.mem_mergeRuns`, `NormalForm.exists_mem_mergeRuns`, `NormalForm.pairwise_mergeRuns` —
  the facts of the merged list.
* `NormalForm.pairwise_absorbAll`, `NormalForm.forall_mem_absorbAll`,
  `NormalForm.exists_mem_absorbAll` — the facts that are left after absorption.
* `NormalForm.mergeRuns_eq_self`, `NormalForm.absorbAll_eq_self` — what is left alone.
-/

set_option autoImplicit false

namespace Chtholly

namespace NormalForm

variable {α : Type}

/-! ## Runs -/

section Runs

variable (same : α → α → Bool) (combine : α → α → α)

/-- The fact in hand takes in its neighbours, as long as they are of its class. -/
def mergeRun : α → List α → List α
  | current, [] => [current]
  | current, fact :: facts =>
    if same current fact then mergeRun (combine current fact) facts
    else current :: mergeRun fact facts

def mergeRuns : List α → List α
  | [] => []
  | fact :: facts => mergeRun same combine fact facts

variable {same combine} {β : Type} [LinearOrder β] {classOf : α → β}

variable {facts : List α}

lemma mergeRun_eq_self {current : α} (h : (current :: facts).Pairwise fun a b => same a b = false) :
    mergeRun same combine current facts = current :: facts := by
  induction facts generalizing current with
  | nil => rfl
  | cons fact facts ih =>
    have hdiffer : same current fact = false :=
      (List.pairwise_cons.1 h).1 fact List.mem_cons_self
    rw [mergeRun, hdiffer, if_neg Bool.false_ne_true, ih (List.pairwise_cons.1 h).2]

/-- Where no two facts are of one class nothing is merged. -/
theorem mergeRuns_eq_self (h : facts.Pairwise fun a b => same a b = false) :
    mergeRuns same combine facts = facts := by
  cases facts with
  | nil => rfl
  | cons fact facts => exact mergeRun_eq_self h

/-- What every fact has, and what merging keeps, the facts of the merged list have. -/
theorem forall_mem_mergeRuns {P : α → Prop} (hcombine : ∀ a b, P a → P b → P (combine a b))
    (h : ∀ a ∈ facts, P a) : ∀ a ∈ mergeRuns same combine facts, P a := by
  have hrun : ∀ (facts : List α) (current : α), P current → (∀ a ∈ facts, P a) →
      ∀ a ∈ mergeRun same combine current facts, P a := by
    intro facts
    induction facts with
    | nil =>
      intro current hcurrent _ a ha
      exact List.mem_singleton.1 ha ▸ hcurrent
    | cons fact facts ih =>
      intro current hcurrent hfacts
      have hfact := hfacts fact List.mem_cons_self
      have hrest : ∀ a ∈ facts, P a := fun a ha => hfacts a (List.mem_cons_of_mem _ ha)
      rw [mergeRun]
      split
      · exact ih _ (hcombine _ _ hcurrent hfact) hrest
      · intro a ha
        obtain rfl | ha := List.mem_cons.1 ha
        · exact hcurrent
        · exact ih fact hfact hrest a ha
  cases facts with
  | nil => exact fun a ha => absurd ha List.not_mem_nil
  | cons fact facts =>
    exact hrun facts fact (h fact List.mem_cons_self) fun a ha => h a (List.mem_cons_of_mem _ ha)

section Classes

variable (hsame : ∀ a b, same a b = true ↔ classOf a = classOf b)
  (hcombine : ∀ a b, classOf (combine a b) = classOf a)

omit [LinearOrder β] in
include hcombine in
lemma classOf_foldl (facts : List α) (fact : α) :
    classOf (facts.foldl combine fact) = classOf fact := by
  induction facts generalizing fact with
  | nil => rfl
  | cons next facts ih => rw [List.foldl_cons, ih, hcombine]

include hsame hcombine

variable {facts : List α}

/-- The facts of a sorted list that come out of a run: the first is the one in hand with all the facts
of its class, and the others are of later classes. -/
lemma mem_mergeRun {current : α}
    (hsorted : (current :: facts).Pairwise fun a b => classOf a ≤ classOf b) {a : α}
    (h : a ∈ mergeRun same combine current facts) :
    (a = (facts.filter fun b => classOf b = classOf current).foldl combine current) ∨
      classOf current < classOf a ∧ ∃ first rest,
        (facts.filter fun b => classOf b = classOf a) = first :: rest ∧
          a = rest.foldl combine first := by
  induction facts generalizing current with
  | nil => exact Or.inl (List.mem_singleton.1 h)
  | cons fact facts ih =>
    have hle : classOf current ≤ classOf fact :=
      (List.pairwise_cons.1 hsorted).1 fact List.mem_cons_self
    have htail := (List.pairwise_cons.1 hsorted).2
    rw [mergeRun] at h
    by_cases hmerge : same current fact = true
    · have hclass := (hsame _ _).1 hmerge
      rw [if_pos hmerge] at h
      have hrest : (combine current fact :: facts).Pairwise fun a b => classOf a ≤ classOf b :=
        List.pairwise_cons.2 ⟨fun b hb => by
          rw [hcombine, hclass]
          exact (List.pairwise_cons.1 htail).1 b hb, (List.pairwise_cons.1 htail).2⟩
      obtain h | ⟨hlt, first, rest, hfilter, h⟩ := ih hrest h
      · rw [hcombine] at h
        rw [List.filter_cons_of_pos (by simp [hclass]), List.foldl_cons]
        exact Or.inl h
      · rw [hcombine] at hlt
        refine Or.inr ⟨hlt, first, rest, ?_, h⟩
        rw [List.filter_cons_of_neg (by simpa [← hclass] using hlt.ne), hfilter]
    · have hlt : classOf current < classOf fact :=
        lt_of_le_of_ne hle fun heq => hmerge ((hsame _ _).2 heq)
      rw [if_neg hmerge, List.mem_cons] at h
      obtain rfl | h := h
      · have hnone : (fact :: facts).filter (fun b => classOf b = classOf a) = [] := by
          refine List.filter_eq_nil_iff.2 fun b hb => ?_
          obtain rfl | hb := List.mem_cons.1 hb
          · simpa using hlt.ne'
          · simpa using (hlt.trans_le ((List.pairwise_cons.1 htail).1 b hb)).ne'
        rw [hnone]
        exact Or.inl rfl
      · obtain h | ⟨hlt', first, rest, hfilter, h⟩ := ih htail h
        · have hclass : classOf a = classOf fact := by rw [h, classOf_foldl hcombine]
          refine Or.inr ⟨hclass ▸ hlt, fact, _, ?_, h⟩
          rw [hclass, List.filter_cons_of_pos (by simp)]
        · refine Or.inr ⟨hlt.trans hlt', first, rest, ?_, h⟩
          rw [List.filter_cons_of_neg (by simpa using hlt'.ne), hfilter]

/-- A fact of the merged list is made of all the facts of its class, in their order. -/
theorem mem_mergeRuns (hsorted : facts.Pairwise fun a b => classOf a ≤ classOf b) {a : α}
    (h : a ∈ mergeRuns same combine facts) :
    ∃ first rest, (facts.filter fun b => classOf b = classOf a) = first :: rest ∧
      a = rest.foldl combine first := by
  cases facts with
  | nil => exact absurd h List.not_mem_nil
  | cons fact facts =>
    obtain h | ⟨hlt, first, rest, hfilter, h⟩ := mem_mergeRun hsame hcombine hsorted h
    · have hclass : classOf a = classOf fact := by rw [h, classOf_foldl hcombine]
      refine ⟨fact, _, ?_, h⟩
      rw [hclass, List.filter_cons_of_pos (by simp)]
    · refine ⟨first, rest, ?_, h⟩
      rw [List.filter_cons_of_neg (by simpa using hlt.ne), hfilter]

omit [LinearOrder β] in
lemma exists_mem_mergeRun (current : α) (facts : List α) {a : α} (h : a ∈ current :: facts) :
    ∃ b ∈ mergeRun same combine current facts, classOf b = classOf a := by
  induction facts generalizing current a with
  | nil => exact ⟨current, List.mem_singleton_self _, by rw [List.mem_singleton.1 h]⟩
  | cons fact facts ih =>
    rw [mergeRun]
    split
    · rename_i hmerge
      have hclass := (hsame _ _).1 hmerge
      have hin : (∃ b ∈ combine current fact :: facts, classOf b = classOf a) := by
        obtain rfl | h := List.mem_cons.1 h
        · exact ⟨_, List.mem_cons_self, hcombine _ _⟩
        · obtain rfl | h := List.mem_cons.1 h
          · exact ⟨_, List.mem_cons_self, by rw [hcombine, hclass]⟩
          · exact ⟨a, List.mem_cons_of_mem _ h, rfl⟩
      obtain ⟨b, hb, hclass'⟩ := hin
      obtain ⟨c, hc, hcb⟩ := ih _ hb
      exact ⟨c, hc, hcb.trans hclass'⟩
    · obtain rfl | h := List.mem_cons.1 h
      · exact ⟨a, List.mem_cons_self, rfl⟩
      · obtain ⟨b, hb, hclass⟩ := ih fact h
        exact ⟨b, List.mem_cons_of_mem _ hb, hclass⟩

omit [LinearOrder β] in
/-- No class is lost. -/
theorem exists_mem_mergeRuns {a : α} (h : a ∈ facts) :
    ∃ b ∈ mergeRuns same combine facts, classOf b = classOf a := by
  cases facts with
  | nil => exact absurd h List.not_mem_nil
  | cons fact facts => exact exists_mem_mergeRun hsame hcombine fact facts h

/-- The merged list has every class once, in order. -/
theorem pairwise_mergeRuns (hsorted : facts.Pairwise fun a b => classOf a ≤ classOf b) :
    (mergeRuns same combine facts).Pairwise fun a b => classOf a < classOf b := by
  have hrun : ∀ (facts : List α) (current : α),
      ((current :: facts).Pairwise fun a b => classOf a ≤ classOf b) →
        (mergeRun same combine current facts).Pairwise fun a b => classOf a < classOf b := by
    intro facts
    induction facts with
    | nil => exact fun current _ => List.pairwise_singleton _ _
    | cons fact facts ih =>
      intro current hsorted
      have htail := (List.pairwise_cons.1 hsorted).2
      rw [mergeRun]
      split
      · rename_i hmerge
        refine ih _ (List.pairwise_cons.2 ⟨fun b hb => ?_, (List.pairwise_cons.1 htail).2⟩)
        rw [hcombine, (hsame _ _).1 hmerge]
        exact (List.pairwise_cons.1 htail).1 b hb
      · rename_i hmerge
        have hlt : classOf current < classOf fact :=
          lt_of_le_of_ne ((List.pairwise_cons.1 hsorted).1 fact List.mem_cons_self)
            fun heq => hmerge ((hsame _ _).2 heq)
        refine List.pairwise_cons.2 ⟨fun a ha => ?_, ih fact htail⟩
        obtain h | ⟨hlt', -⟩ := mem_mergeRun hsame hcombine htail ha
        · rw [h, classOf_foldl hcombine]
          exact hlt
        · exact hlt.trans hlt'
  cases facts with
  | nil => exact List.Pairwise.nil
  | cons fact facts => exact hrun facts fact hsorted

end Classes

end Runs

/-! ## Absorption -/

section Absorb

variable (related : α → α → Bool) (combine : α → α → α)

/-- The fact takes in the first fact that it is related to, as long as there is one. -/
def absorbLoop : ℕ → List α → α → List α
  | 0, minimal, fact => minimal ++ [fact]
  | bound + 1, minimal, fact =>
    match minimal.find? fun candidate => related candidate fact with
    | none => minimal ++ [fact]
    | some existing =>
      absorbLoop bound (minimal.eraseP fun candidate => related candidate fact)
        (combine existing fact)

/-- The loop ends, since every turn takes a fact out of the list. -/
def absorb (minimal : List α) (fact : α) : List α :=
  absorbLoop related combine minimal.length minimal fact

def absorbAll (facts : List α) : List α :=
  facts.foldl (absorb related combine) []

variable {related combine}

variable {minimal : List α}

lemma absorbLoop_of_unrelated {bound : ℕ} {fact : α} (h : ∀ a ∈ minimal, related a fact = false) :
    absorbLoop related combine bound minimal fact = minimal ++ [fact] := by
  have hnone : (minimal.find? fun candidate => related candidate fact) = none :=
    List.find?_eq_none.2 fun a ha => by rw [h a ha]; exact Bool.false_ne_true
  cases bound with
  | zero => rfl
  | succ bound => rw [absorbLoop, hnone]

variable {facts : List α}

/-- A list without related facts is left as it is. -/
theorem absorbAll_eq_self (h : facts.Pairwise fun a b => related a b = false) :
    absorbAll related combine facts = facts := by
  have hfold : ∀ (facts minimal : List α),
      ((minimal ++ facts).Pairwise fun a b => related a b = false) →
        facts.foldl (absorb related combine) minimal = minimal ++ facts := by
    intro facts
    induction facts with
    | nil => exact fun minimal _ => (List.append_nil minimal).symm
    | cons fact facts ih =>
      intro minimal h
      rw [List.append_cons] at h
      have hfact : ∀ a ∈ minimal, related a fact = false := fun a ha =>
        (List.pairwise_append.1 (List.pairwise_append.1 h).1).2.2 a ha fact List.mem_cons_self
      rw [List.foldl_cons, absorb, absorbLoop_of_unrelated hfact, ih _ h, ← List.append_cons]
  exact hfold facts [] h

lemma length_eraseP_of_find? {fact existing : α} {bound : ℕ} (hbound : minimal.length ≤ bound + 1)
    (h : (minimal.find? fun candidate => related candidate fact) = some existing) :
    (minimal.eraseP fun candidate => related candidate fact).length ≤ bound := by
  have hmem := List.mem_of_find?_eq_some h
  have hrelated : related existing fact = true := by simpa using List.find?_some h
  have hlength := List.length_eraseP_add_one (p := fun candidate => related candidate fact) hmem
    hrelated
  omega

lemma pairwise_absorb (fact : α) (h : minimal.Pairwise fun a b => related a b = false) :
    (absorb related combine minimal fact).Pairwise fun a b => related a b = false := by
  have hloop : ∀ (bound : ℕ) (minimal : List α) (fact : α), minimal.length ≤ bound →
      (minimal.Pairwise fun a b => related a b = false) →
        (absorbLoop related combine bound minimal fact).Pairwise fun a b => related a b = false := by
    intro bound
    induction bound with
    | zero =>
      intro minimal fact hbound _
      rw [List.length_eq_zero_iff.1 (Nat.le_zero.1 hbound)]
      exact List.pairwise_singleton _ _
    | succ bound ih =>
      intro minimal fact hbound h
      rw [absorbLoop]
      split
      · rename_i hnone
        refine List.pairwise_append.2 ⟨h, List.pairwise_singleton _ _, fun a ha b hb => ?_⟩
        rw [List.mem_singleton.1 hb]
        exact Bool.eq_false_iff.2 (by simpa using List.find?_eq_none.1 hnone a ha)
      · rename_i existing hsome
        exact ih _ _ (length_eraseP_of_find? hbound hsome) (h.sublist List.eraseP_sublist)
  exact hloop minimal.length minimal fact le_rfl h

/-- No two facts of the result are related. -/
theorem pairwise_absorbAll (facts : List α) :
    (absorbAll related combine facts).Pairwise fun a b => related a b = false := by
  have hfold : ∀ (facts minimal : List α), (minimal.Pairwise fun a b => related a b = false) →
      (facts.foldl (absorb related combine) minimal).Pairwise fun a b => related a b = false := by
    intro facts
    induction facts with
    | nil => exact fun _ h => h
    | cons fact facts ih => exact fun minimal h => ih _ (pairwise_absorb fact h)
  exact hfold facts [] List.Pairwise.nil

/-- What every fact has, and what merging keeps, the facts of the result have. -/
theorem forall_mem_absorbAll {P : α → Prop} (hcombine : ∀ a b, P a → P b → P (combine a b))
    (h : ∀ a ∈ facts, P a) : ∀ a ∈ absorbAll related combine facts, P a := by
  have hloop : ∀ (bound : ℕ) (minimal : List α) (fact : α), (∀ a ∈ minimal, P a) → P fact →
      ∀ a ∈ absorbLoop related combine bound minimal fact, P a := by
    intro bound
    induction bound with
    | zero =>
      intro minimal fact hminimal hfact a ha
      obtain ha | ha := List.mem_append.1 ha
      · exact hminimal a ha
      · exact List.mem_singleton.1 ha ▸ hfact
    | succ bound ih =>
      intro minimal fact hminimal hfact
      rw [absorbLoop]
      split
      · intro a ha
        obtain ha | ha := List.mem_append.1 ha
        · exact hminimal a ha
        · exact List.mem_singleton.1 ha ▸ hfact
      · rename_i existing hsome
        exact ih _ _ (fun a ha => hminimal a (List.mem_of_mem_eraseP ha))
          (hcombine _ _ (hminimal existing (List.mem_of_find?_eq_some hsome)) hfact)
  have hfold : ∀ (facts minimal : List α), (∀ a ∈ minimal, P a) → (∀ a ∈ facts, P a) →
      ∀ a ∈ facts.foldl (absorb related combine) minimal, P a := by
    intro facts
    induction facts with
    | nil => exact fun _ h _ => h
    | cons fact facts ih =>
      intro minimal hminimal hfacts
      exact ih _ (hloop _ _ _ hminimal (hfacts fact List.mem_cons_self))
        fun a ha => hfacts a (List.mem_cons_of_mem _ ha)
  exact hfold facts [] (fun _ h => absurd h List.not_mem_nil) h

/-- What a fact tells is told by the result, if merging keeps what either of the two tells. -/
theorem exists_mem_absorbAll {tells : α → Prop}
    (hcombine : ∀ a b, related a b = true → tells a ∨ tells b → tells (combine a b))
    (h : ∃ a ∈ facts, tells a) : ∃ a ∈ absorbAll related combine facts, tells a := by
  have hloop : ∀ (bound : ℕ) (minimal : List α) (fact : α),
      ((∃ a ∈ minimal, tells a) ∨ tells fact) →
        ∃ a ∈ absorbLoop related combine bound minimal fact, tells a := by
    intro bound
    induction bound with
    | zero =>
      rintro minimal fact (⟨a, ha, htold⟩ | htold)
      · exact ⟨a, List.mem_append_left _ ha, htold⟩
      · exact ⟨fact, List.mem_append_right _ (List.mem_singleton_self _), htold⟩
    | succ bound ih =>
      intro minimal fact h
      rw [absorbLoop]
      split
      · obtain ⟨a, ha, htold⟩ | htold := h
        · exact ⟨a, List.mem_append_left _ ha, htold⟩
        · exact ⟨fact, List.mem_append_right _ (List.mem_singleton_self _), htold⟩
      · rename_i existing hsome
        have hrelated : related existing fact = true := by simpa using List.find?_some hsome
        refine ih _ _ ?_
        obtain ⟨a, ha, htold⟩ | htold := h
        · by_cases hfirst : a = existing
          · exact Or.inr (hcombine _ _ hrelated (Or.inl (hfirst ▸ htold)))
          · refine Or.inl ⟨a, ?_, htold⟩
            obtain ⟨-, before, after, rfl, hbefore⟩ := List.find?_eq_some_iff_append.1 hsome
            rw [List.eraseP_append_right _ (by simpa using hbefore),
              List.eraseP_cons_of_pos (by simpa using hrelated)]
            simpa [hfirst] using ha
        · exact Or.inr (hcombine _ _ hrelated (Or.inr htold))
  have hfold : ∀ (facts minimal : List α),
      ((∃ a ∈ minimal, tells a) ∨ ∃ a ∈ facts, tells a) →
        ∃ a ∈ facts.foldl (absorb related combine) minimal, tells a := by
    intro facts
    induction facts with
    | nil =>
      rintro minimal (h | ⟨a, ha, -⟩)
      · exact h
      · exact absurd ha List.not_mem_nil
    | cons fact facts ih =>
      rintro minimal (h | ⟨a, ha, htold⟩)
      · exact ih _ (Or.inl (hloop _ _ _ (Or.inl h)))
      · obtain rfl | ha := List.mem_cons.1 ha
        · exact ih _ (Or.inl (hloop _ _ _ (Or.inr htold)))
        · exact ih _ (Or.inr ⟨a, ha, htold⟩)
  exact hfold facts [] (Or.inr h)

end Absorb

end NormalForm

end Chtholly
