import Mathlib.Order.Lattice
import Mathlib.Data.List.Perm.Basic
import Mathlib.Order.Basic

/-!
# The only least element of a list

A scan keeps the position of the first least element that it has seen, and whether another element
was as small.  What it finds does not depend on the order of the list.

## Main definitions

* `Selection.scan` — the scan from the left.
* `Selection.IsUniqueMinimum` — an element that is smaller than all others.

## Main results

* `Selection.scan_spec` — the scan finds a least element, and knows whether it is the only one.
* `Selection.Scanned.isUniqueMinimum_iff` — a scan without a tie has found the only least element.
-/

set_option autoImplicit false

namespace Chtholly

namespace Selection

variable {α β : Type} [LinearOrder β] {key : α → β}

/-- The position of the best element and whether it is tied, given the position of the next element
and the best element so far. -/
def scan (key : α → β) : List α → ℕ → ℕ → α → Bool → ℕ × Bool
  | [], _, best, _, tied => (best, tied)
  | item :: items, index, best, bestItem, tied =>
    if key item < key bestItem then scan key items (index + 1) index item false
    else if key item = key bestItem then scan key items (index + 1) best bestItem true
    else scan key items (index + 1) best bestItem tied

lemma scan_map {γ : Type} (f : γ → α) (items : List γ) (index best : ℕ) (bestItem : γ)
    (tied : Bool) : scan key (items.map f) index best (f bestItem) tied =
      scan (fun item => key (f item)) items index best bestItem tied := by
  induction items generalizing index best bestItem tied with
  | nil => rfl
  | cons item items ih =>
    rw [List.map_cons, scan, scan]
    split
    · exact ih _ _ _ _
    · split
      · exact ih _ _ _ _
      · exact ih _ _ _ _

/-- The element is in the list, and all others are greater. -/
def IsUniqueMinimum (key : α → β) (items : List α) (item : α) : Prop :=
  ∃ others, items.Perm (item :: others) ∧ ∀ other ∈ others, key item < key other

lemma IsUniqueMinimum.perm {items items' : List α} {item : α}
    (h : IsUniqueMinimum key items item) (hperm : items.Perm items') :
    IsUniqueMinimum key items' item := by
  obtain ⟨others, hothers, hless⟩ := h
  exact ⟨others, hperm.symm.trans hothers, hless⟩

lemma IsUniqueMinimum.eq {items : List α} {item item' : α} (h : IsUniqueMinimum key items item)
    (h' : IsUniqueMinimum key items item') : item = item' := by
  obtain ⟨others, hothers, hless⟩ := h
  obtain ⟨others', hothers', hless'⟩ := h'
  have hmem : item' ∈ item :: others := hothers.mem_iff.1 (hothers'.mem_iff.2 List.mem_cons_self)
  have hmem' : item ∈ item' :: others' := hothers'.mem_iff.1 (hothers.mem_iff.2 List.mem_cons_self)
  rcases List.mem_cons.1 hmem with heq | hin
  · exact heq.symm
  · rcases List.mem_cons.1 hmem' with heq | hin'
    · exact heq
    · exact absurd (hless _ hin) (lt_asymm (hless' _ hin'))

/-- What a scan knows of the elements that it has passed. -/
structure Scanned (key : α → β) (done : List α) (best : ℕ) (bestItem : α) (tied : Bool) : Prop where
  found : done[best]? = some bestItem
  least : ∀ item ∈ done, key bestItem ≤ key item
  tie : tied = true ↔ ∃ position item, position ≠ best ∧ done[position]? = some item ∧
    key item = key bestItem

lemma Scanned.step {done : List α} {best : ℕ} {bestItem : α} {tied : Bool}
    (h : Scanned key done best bestItem tied) (item : α) :
    (key item < key bestItem → Scanned key (done ++ [item]) done.length item false) ∧
      (key item = key bestItem → Scanned key (done ++ [item]) best bestItem true) ∧
      (key bestItem < key item → Scanned key (done ++ [item]) best bestItem tied) := by
  obtain ⟨hfound, hleast, htie⟩ := h
  have hbest : best < done.length := (List.getElem?_eq_some_iff.1 hfound).1
  have hold : ∀ position, position < done.length → (done ++ [item])[position]? = done[position]? :=
    fun position hposition => List.getElem?_append_left hposition
  have hnew : (done ++ [item])[done.length]? = some item := List.getElem?_concat_length
  refine ⟨fun hlt => ⟨hnew, ?_, ?_⟩, fun heq => ⟨?_, ?_, ?_⟩, fun hlt => ⟨?_, ?_, ?_⟩⟩
  · intro other hother
    rcases List.mem_append.1 hother with hother | hother
    · exact hlt.le.trans (hleast other hother)
    · rw [List.mem_singleton.1 hother]
  · -- The new element is smaller than all before it.
    refine ⟨fun h => absurd h Bool.false_ne_true, ?_⟩
    rintro ⟨position, other, hne, hother, hkey⟩
    have hposition : position < done.length := by
      have hlt := (List.getElem?_eq_some_iff.1 hother).1
      rw [List.length_append, List.length_singleton] at hlt
      omega
    rw [hold position hposition] at hother
    have hle := hleast other (List.mem_of_getElem? hother)
    rw [hkey] at hle
    exact absurd hlt (not_lt.2 hle)
  · rw [hold best hbest, hfound]
  · intro other hother
    rcases List.mem_append.1 hother with hother | hother
    · exact hleast other hother
    · rw [List.mem_singleton.1 hother, heq]
  · exact ⟨fun _ => ⟨done.length, item, by omega, hnew, heq⟩, fun _ => rfl⟩
  · rw [hold best hbest, hfound]
  · intro other hother
    rcases List.mem_append.1 hother with hother | hother
    · exact hleast other hother
    · rw [List.mem_singleton.1 hother]
      exact hlt.le
  · rw [htie]
    constructor
    · rintro ⟨position, other, hne, hother, hkey⟩
      refine ⟨position, other, hne, ?_, hkey⟩
      rw [hold position (List.getElem?_eq_some_iff.1 hother).1, hother]
    · rintro ⟨position, other, hne, hother, hkey⟩
      have hposition : position ≠ done.length := by
        rintro rfl
        rw [hnew, Option.some.injEq] at hother
        rw [← hother] at hkey
        exact absurd hkey hlt.ne'
      have hlt' := (List.getElem?_eq_some_iff.1 hother).1
      rw [List.length_append, List.length_singleton] at hlt'
      rw [hold position (by omega)] at hother
      exact ⟨position, other, hne, hother, hkey⟩

lemma scanned_scan (items : List α) : ∀ {done : List α} {best : ℕ} {bestItem : α} {tied : Bool},
    Scanned key done best bestItem tied → ∃ item,
      Scanned key (done ++ items) (scan key items done.length best bestItem tied).1 item
        (scan key items done.length best bestItem tied).2 := by
  induction items with
  | nil =>
    intro done best bestItem tied h
    rw [List.append_nil]
    exact ⟨bestItem, h⟩
  | cons item items ih =>
    intro done best bestItem tied h
    obtain ⟨hless, hequal, hgreater⟩ := h.step item
    rw [scan]
    have hlength : done.length + 1 = (done ++ [item]).length := by simp
    have happend : done ++ item :: items = done ++ [item] ++ items := by simp
    rw [hlength, happend]
    split
    · rename_i hlt
      exact ih (hless hlt)
    · rename_i hnotLess
      split
      · rename_i heq
        exact ih (hequal heq)
      · rename_i hne
        exact ih (hgreater (lt_of_le_of_ne (not_lt.1 hnotLess) (Ne.symm hne)))

/-- **The scan.** It finds a least element, and knows whether another one is as small. -/
theorem scan_spec (key : α → β) (first : α) (items : List α) :
    ∃ item, Scanned key (first :: items) (scan key items 1 0 first false).1 item
      (scan key items 1 0 first false).2 := by
  have hfirst : Scanned key [first] 0 first false := by
    refine ⟨rfl, fun item hitem => ?_, ?_⟩
    · rw [List.mem_singleton.1 hitem]
    · refine ⟨fun h => absurd h Bool.false_ne_true, ?_⟩
      rintro ⟨position, item, hne, hitem, -⟩
      have hlt := (List.getElem?_eq_some_iff.1 hitem).1
      rw [List.length_singleton] at hlt
      omega
  exact scanned_scan items hfirst

/-- Without a tie the element that is found is the only least one, and conversely. -/
theorem Scanned.isUniqueMinimum_iff {items : List α} {best : ℕ} {bestItem : α} {tied : Bool}
    (h : Scanned key items best bestItem tied) :
    (tied = false → IsUniqueMinimum key items bestItem) ∧
      ∀ item, IsUniqueMinimum key items item → tied = false ∧ item = bestItem := by
  obtain ⟨hfound, hleast, htie⟩ := h
  obtain ⟨hbest, hitem⟩ := List.getElem?_eq_some_iff.1 hfound
  have hperm : items.Perm (bestItem :: items.eraseIdx best) := by
    rw [← hitem]
    exact (List.getElem_cons_eraseIdx_perm hbest).symm
  constructor
  · intro htied
    refine ⟨_, hperm, fun other hother => ?_⟩
    obtain ⟨position, hne, hposition⟩ := List.mem_eraseIdx_iff_getElem?.1 hother
    refine lt_of_le_of_ne (hleast other (List.mem_of_getElem? hposition)) fun hkey => ?_
    have htrue := htie.2 ⟨position, other, hne, hposition, hkey.symm⟩
    rw [htied] at htrue
    cases htrue
  · rintro item ⟨others, hothers, hless⟩
    have hsame : item = bestItem := by
      rcases List.mem_cons.1 (hothers.mem_iff.1 (List.mem_of_getElem? hfound)) with heq | hin
      · exact heq.symm
      · have hle := hleast item (hothers.mem_iff.2 List.mem_cons_self)
        exact absurd (hless _ hin) (not_lt.2 hle)
    subst hsame
    refine ⟨Bool.eq_false_iff.2 fun htied => ?_, rfl⟩
    obtain ⟨position, other, hne, hposition, hkey⟩ := htie.1 htied
    have hrest : (items.eraseIdx best).Perm others := (hperm.symm.trans hothers).cons_inv
    have hmem := hrest.mem_iff.1 (List.mem_eraseIdx_iff_getElem?.2 ⟨position, hne, hposition⟩)
    exact absurd (hless other hmem) (by rw [hkey]; exact lt_irrefl _)

end Selection

end Chtholly
