import Mathlib.Data.List.Sort
import Mathlib.Data.List.Lex
import Mathlib.Data.List.Pairwise

/-!
# Sorting and minimisation

A list of facts is brought into a form that does not depend on how it was written: it is sorted by a
key, and what another fact covers is dropped.  Both leave a list alone that already has the form they
produce.

## Main definitions

* `NormalForm.sortBy` — sorting by a key.
* `NormalForm.minimize` — the facts that no other fact covers.

## Main results

* `NormalForm.sortBy_congr` — sorting forgets the order.
* `NormalForm.pairwise_minimize`, `NormalForm.exists_covers_minimize` — what minimisation keeps.
* `NormalForm.minimize_eq_self` — what it leaves alone.
-/

set_option autoImplicit false

namespace Chtholly

namespace NormalForm

variable {α κ : Type} [LinearOrder κ]

/-! ## The lexicographic order -/

lemma nil_le (facts : List κ) : [] ≤ facts := by
  rw [le_iff_eq_or_lt]
  cases facts with
  | nil => exact Or.inl rfl
  | cons a facts => exact Or.inr (List.nil_lt_cons a facts)

lemma not_cons_le_nil (a : κ) (facts : List κ) : ¬a :: facts ≤ [] := by
  rw [le_iff_eq_or_lt]
  simp

lemma cons_le_cons_iff {a b : κ} {facts others : List κ} :
    a :: facts ≤ b :: others ↔ a < b ∨ a = b ∧ facts ≤ others := by
  rw [le_iff_eq_or_lt, le_iff_eq_or_lt, List.cons_lt_cons_iff, List.cons.injEq]
  tauto

/-! ## Sorting by a key -/

section Sorting

variable (key : α → κ)

def sortBy (facts : List α) : List α :=
  facts.insertionSort fun a b => key a ≤ key b

variable {facts : List α}

@[simp] lemma mem_sortBy {a : α} : a ∈ sortBy key facts ↔ a ∈ facts :=
  List.mem_insertionSort _

lemma sortBy_perm (facts : List α) : (sortBy key facts).Perm facts :=
  List.perm_insertionSort _ facts

lemma pairwise_sortBy (facts : List α) :
    (sortBy key facts).Pairwise fun a b => key a ≤ key b := by
  have : Std.Total fun a b : α => key a ≤ key b := ⟨fun a b => le_total (key a) (key b)⟩
  have : IsTrans α fun a b : α => key a ≤ key b := ⟨fun _ _ _ => le_trans⟩
  exact List.pairwise_insertionSort _ facts

variable {key}

lemma sortBy_eq_self (h : facts.Pairwise fun a b => key a ≤ key b) : sortBy key facts = facts :=
  h.insertionSort_eq

/-- Sorting forgets the order when the key tells the facts apart. -/
lemma sortBy_congr {others : List α} (hperm : facts.Perm others)
    (hinj : ∀ a ∈ facts, ∀ b ∈ facts, key a = key b → a = b) :
    sortBy key facts = sortBy key others := by
  have hantisymm : ∀ a b, a ∈ sortBy key facts → b ∈ sortBy key others →
      key a ≤ key b → key b ≤ key a → a = b := by
    intro a b ha hb hab hba
    rw [mem_sortBy] at ha hb
    exact hinj a ha b (hperm.mem_iff.2 hb) (le_antisymm hab hba)
  exact List.Perm.eq_of_pairwise hantisymm (pairwise_sortBy key facts)
    (pairwise_sortBy key others)
    ((sortBy_perm key facts).trans (hperm.trans (sortBy_perm key others).symm))

end Sorting

/-! ## Minimisation -/

section Minimize

variable (covers : α → α → Bool) (key : α → κ)

/-- A fact that is covered is left out; one that is not replaces what it covers. -/
def keepMinimal (minimal : List α) (fact : α) : List α :=
  if minimal.any fun candidate => covers candidate fact then minimal
  else sortBy key (minimal.filter (fun candidate => !covers fact candidate) ++ [fact])

def minimize (facts : List α) : List α :=
  facts.foldl (keepMinimal covers key) []

/-- Neither of the two facts covers the other. -/
def Apart (a b : α) : Prop :=
  covers a b = false ∧ covers b a = false

instance : Std.Symm (Apart covers) := ⟨fun _ _ h => ⟨h.2, h.1⟩⟩

variable {covers key}

variable {minimal : List α}

lemma mem_keepMinimal {fact a : α} (h : a ∈ keepMinimal covers key minimal fact) :
    a ∈ minimal ∨ a = fact := by
  unfold keepMinimal at h
  split at h
  · exact Or.inl h
  · rw [mem_sortBy, List.mem_append, List.mem_filter, List.mem_singleton] at h
    exact h.imp_left And.left

variable {facts : List α}

lemma mem_foldl_keepMinimal {a : α} (h : a ∈ facts.foldl (keepMinimal covers key) minimal) :
    a ∈ minimal ∨ a ∈ facts := by
  induction facts generalizing minimal with
  | nil => exact Or.inl h
  | cons fact facts ih =>
    obtain h | h := ih h
    · obtain h | rfl := mem_keepMinimal h
      · exact Or.inl h
      · exact Or.inr List.mem_cons_self
    · exact Or.inr (List.mem_cons_of_mem _ h)

lemma mem_of_mem_minimize {a : α} (h : a ∈ minimize covers key facts) : a ∈ facts :=
  (mem_foldl_keepMinimal h).resolve_left List.not_mem_nil

lemma pairwise_keepMinimal (fact : α) (h : minimal.Pairwise (Apart covers)) :
    (keepMinimal covers key minimal fact).Pairwise (Apart covers) := by
  unfold keepMinimal
  split
  · exact h
  · rename_i hnone
    simp only [List.any_eq_true, not_exists, not_and, Bool.not_eq_true] at hnone
    refine List.Pairwise.perm ?_ (sortBy_perm key _).symm fun hab => ⟨hab.2, hab.1⟩
    refine List.pairwise_append.2 ⟨h.filter _, List.pairwise_singleton _ _, ?_⟩
    intro a ha b hb
    rw [List.mem_singleton.1 hb]
    rw [List.mem_filter, Bool.not_eq_true'] at ha
    exact ⟨hnone a ha.1, ha.2⟩

/-- Of two facts that are kept neither covers the other. -/
theorem pairwise_minimize (facts : List α) :
    (minimize covers key facts).Pairwise (Apart covers) := by
  have hfold : ∀ (facts minimal : List α), minimal.Pairwise (Apart covers) →
      (facts.foldl (keepMinimal covers key) minimal).Pairwise (Apart covers) := by
    intro facts
    induction facts with
    | nil => exact fun _ h => h
    | cons fact facts ih => exact fun minimal h => ih _ (pairwise_keepMinimal fact h)
  exact hfold facts [] List.Pairwise.nil

theorem sorted_minimize (facts : List α) :
    (minimize covers key facts).Pairwise fun a b => key a ≤ key b := by
  have hfold : ∀ (facts minimal : List α), (minimal.Pairwise fun a b => key a ≤ key b) →
      (facts.foldl (keepMinimal covers key) minimal).Pairwise fun a b => key a ≤ key b := by
    intro facts
    induction facts with
    | nil => exact fun _ h => h
    | cons fact facts ih =>
      intro minimal h
      refine ih _ ?_
      unfold keepMinimal
      split
      · exact h
      · exact pairwise_sortBy key _
  exact hfold facts [] List.Pairwise.nil

section Covering

variable (hrefl : ∀ a, covers a a = true)
  (htrans : ∀ a b c, covers a b = true → covers b c = true → covers a c = true)

include hrefl htrans

lemma exists_covers_keepMinimal {minimal : List α} {fact a : α}
    (h : (∃ b ∈ minimal, covers b a = true) ∨ a = fact) :
    ∃ b ∈ keepMinimal covers key minimal fact, covers b a = true := by
  unfold keepMinimal
  split
  · rename_i hany
    obtain h | rfl := h
    · exact h
    · simpa using hany
  · have hfact : fact ∈ sortBy key (minimal.filter (fun candidate => !covers fact candidate) ++
        [fact]) := by simp
    obtain ⟨b, hb, hba⟩ | rfl := h
    · by_cases hdropped : covers fact b = true
      · exact ⟨fact, hfact, htrans _ _ _ hdropped hba⟩
      · refine ⟨b, ?_, hba⟩
        rw [mem_sortBy, List.mem_append, List.mem_filter]
        exact Or.inl ⟨hb, by simpa using hdropped⟩
    · exact ⟨a, hfact, hrefl a⟩

/-- Every fact is covered by one that is kept. -/
theorem exists_covers_minimize {facts : List α} {a : α} (h : a ∈ facts) :
    ∃ b ∈ minimize covers key facts, covers b a = true := by
  have hfold : ∀ (facts minimal : List α),
      ((∃ b ∈ minimal, covers b a = true) ∨ a ∈ facts) →
        ∃ b ∈ facts.foldl (keepMinimal covers key) minimal, covers b a = true := by
    intro facts
    induction facts with
    | nil => exact fun _ h => h.resolve_right List.not_mem_nil
    | cons fact facts ih =>
      intro minimal h
      refine ih _ ?_
      obtain h | h := h
      · exact Or.inl (exists_covers_keepMinimal hrefl htrans (Or.inl h))
      · obtain rfl | h := List.mem_cons.1 h
        · exact Or.inl (exists_covers_keepMinimal hrefl htrans (Or.inr rfl))
        · exact Or.inr h
  exact hfold facts [] (Or.inr h)

end Covering

lemma keepMinimal_eq_append {fact : α}
    (hsorted : (minimal ++ [fact]).Pairwise fun a b => key a ≤ key b)
    (hapart : (minimal ++ [fact]).Pairwise (Apart covers)) :
    keepMinimal covers key minimal fact = minimal ++ [fact] := by
  have hwith : ∀ a ∈ minimal, Apart covers a fact := fun a ha =>
    (List.pairwise_append.1 hapart).2.2 a ha fact List.mem_cons_self
  have hnone : ¬(minimal.any fun candidate => covers candidate fact) = true := by
    simp only [List.any_eq_true, not_exists, not_and, Bool.not_eq_true]
    exact fun a ha => (hwith a ha).1
  have hfilter : minimal.filter (fun candidate => !covers fact candidate) = minimal :=
    List.filter_eq_self.2 fun a ha => by rw [(hwith a ha).2]; rfl
  rw [keepMinimal, if_neg hnone, hfilter, sortBy_eq_self hsorted]

/-- A sorted list without covered facts is left as it is. -/
theorem minimize_eq_self (hsorted : facts.Pairwise fun a b => key a ≤ key b)
    (hapart : facts.Pairwise (Apart covers)) : minimize covers key facts = facts := by
  have hfold : ∀ (facts minimal : List α),
      ((minimal ++ facts).Pairwise fun a b => key a ≤ key b) →
      (minimal ++ facts).Pairwise (Apart covers) →
        facts.foldl (keepMinimal covers key) minimal = minimal ++ facts := by
    intro facts
    induction facts with
    | nil => exact fun minimal _ _ => (List.append_nil minimal).symm
    | cons fact facts ih =>
      intro minimal hsorted hapart
      rw [List.append_cons] at hsorted hapart
      rw [List.foldl_cons, keepMinimal_eq_append (List.pairwise_append.1 hsorted).1
        (List.pairwise_append.1 hapart).1, ih _ hsorted hapart, ← List.append_cons]
  exact hfold facts [] hsorted hapart

end Minimize

end NormalForm

end Chtholly
