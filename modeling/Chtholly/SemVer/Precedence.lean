import Chtholly.SemVer.Reading
import Mathlib.Data.Char
import Mathlib.Data.List.Lex
import Mathlib.Data.Prod.Lex
import Mathlib.Order.WithBot
import Mathlib.Tactic.Ring

/-!
# The order of versions

Versions are compared by their numbers and then by their prereleases, part by part.  Each version has
a key in a linear order, and the comparison is that of the keys; so it is a total order up to build
metadata, and the highest version of a list can be selected one by one.

## Main definitions

* `SemVer.Version.key` — the key of a version.
* `SemVer.Version.Precedes` — precedence as the standard of semantic versions prescribes it.

## Main results

* `SemVer.compareSemVer_eq` — the comparison is that of the keys.
* `SemVer.key_lt_iff_precedes` — the keys of versions that were read are ordered as prescribed.
* `SemVer.precedence` — the order of versions, and the version that is selected.
-/

set_option autoImplicit false

namespace Chtholly

namespace SemVer

/-! ## Comparisons in a linear order -/

section Order

variable {α β : Type} [LinearOrder α] [LinearOrder β]

/-- The comparison of a linear order as a sign. -/
def order (a b : α) : Int := if a < b then -1 else if b < a then 1 else 0

variable {a b : α}

lemma order_neg_iff : order a b < 0 ↔ a < b := by
  unfold order
  split
  case isTrue h => simp [h]
  case isFalse h =>
    split <;> simp [h]

lemma order_nonpos_iff : order a b ≤ 0 ↔ a ≤ b := by
  unfold order
  split
  case isTrue h => simp [h.le]
  case isFalse h =>
    split
    case isTrue h' => simp [h'.not_ge]
    case isFalse h' => simp [not_lt.1 h']

lemma order_eq_zero_iff : order a b = 0 ↔ a = b := by
  unfold order
  split
  case isTrue h => simp [h.ne]
  case isFalse h =>
    split
    case isTrue h' => simp [h'.ne']
    case isFalse h' => simp [le_antisymm (not_lt.1 h') (not_lt.1 h)]

lemma order_swap (a b : α) : order b a = -order a b := by
  unfold order
  obtain h | rfl | h := lt_trichotomy a b
  · rw [if_neg h.not_gt, if_pos h, if_pos h]
    rfl
  · simp
  · rw [if_pos h, if_neg h.not_gt, if_pos h]

lemma order_of_ne (h : a ≠ b) : order a b = if a < b then -1 else 1 := by
  unfold order
  split
  · rfl
  case isFalse hlt => rw [if_pos (lt_of_le_of_ne (not_lt.1 hlt) h.symm)]

lemma order_congr {c d : β} (hlt : a < b ↔ c < d) (hgt : b < a ↔ d < c) :
    order a b = order c d := by
  simp only [order, hlt, hgt]

lemma order_toLex (a c : α) (b d : β) :
    order (toLex (a, b)) (toLex (c, d)) =
      if a ≠ c then if a < c then -1 else 1 else order b d := by
  by_cases hac : a = c
  · subst hac
    rw [if_neg (not_not.2 rfl)]
    simp only [order, Prod.Lex.toLex_lt_toLex, lt_self_iff_false, false_or, true_and]
  · rw [if_pos hac, order_of_ne]
    · congr 1
      simp [Prod.Lex.toLex_lt_toLex, hac]
    · intro h
      exact hac (Prod.mk.inj (toLex_inj.1 h)).1

end Order

/-! ## Keys -/

/-- The key of a part of a prerelease: numbers come first, ordered by their lengths. -/
def identifierKey (part : Text) : ℕ ×ₗ ℕ ×ₗ Text :=
  if isNumericIdentifier part = true then toLex (0, toLex (part.length, part))
  else toLex (1, toLex (0, part))

/-- The key of a prerelease: a version without one comes last. -/
def prereleaseKey (text : Text) : WithTop (List (ℕ ×ₗ ℕ ×ₗ Text)) :=
  if text = [] then ⊤ else ((splitPrerelease text).map identifierKey : List (ℕ ×ₗ ℕ ×ₗ Text))

def Version.key (version : Version) :
    ℤ ×ₗ ℤ ×ₗ ℤ ×ₗ WithTop (List (ℕ ×ₗ ℕ ×ₗ Text)) :=
  toLex (version.major.toInt, toLex (version.minor.toInt, toLex (version.patch.toInt,
    prereleaseKey version.prerelease)))

lemma compareIdentifier_eq (lhs rhs : Text) :
    compareIdentifier lhs rhs = order (identifierKey lhs) (identifierKey rhs) := by
  have htext : (if lhs ≠ rhs then if lhs < rhs then (-1 : Int) else 1 else 0) = order lhs rhs := by
    by_cases h : lhs = rhs
    · rw [if_neg (not_not.2 h), order_eq_zero_iff.2 h]
    · rw [if_pos h, order_of_ne h]
      by_cases hlt : lhs < rhs
      · rw [if_pos hlt, if_pos hlt]
      · rw [if_neg hlt, if_neg hlt]
  unfold compareIdentifier identifierKey
  by_cases hl : isNumericIdentifier lhs = true
  · by_cases hr : isNumericIdentifier rhs = true
    · rw [if_pos ⟨hl, hr⟩, if_pos hl, if_pos hr, order_toLex, order_toLex,
        if_neg (not_not.2 rfl), htext]
    · rw [if_neg fun h => hr h.2, if_pos (fun h => hr (h.symm.trans hl)), if_pos hl, if_pos hl,
        if_neg hr,
        order_toLex, if_pos (by decide), if_pos (by decide)]
  · by_cases hr : isNumericIdentifier rhs = true
    · rw [if_neg fun h => hl h.1, if_pos (fun h => hl (h.trans hr)), if_neg hl, if_neg hl,
        if_pos hr,
        order_toLex, if_pos (by decide), if_neg (by decide)]
    · have hsame : isNumericIdentifier lhs = isNumericIdentifier rhs := by
        rw [Bool.not_eq_true] at hl hr
        rw [hl, hr]
      rw [if_neg fun h => hl h.1, if_neg (not_not.2 hsame), if_neg hl, if_neg hr, order_toLex,
        order_toLex, if_neg (not_not.2 rfl), if_neg (not_not.2 rfl), htext]

lemma compareParts_eq (lhs rhs : List Text) :
    compareParts lhs rhs = order (lhs.map identifierKey) (rhs.map identifierKey) := by
  induction lhs generalizing rhs with
  | nil =>
    cases rhs with
    | nil => simp [compareParts, order]
    | cons right rhs =>
      rw [compareParts, order, if_pos]
      exact List.Lex.nil
  | cons left lhs ih =>
    cases rhs with
    | nil =>
      rw [compareParts, order, if_neg, if_pos]
      · exact List.Lex.nil
      · exact List.not_lt_nil _
    | cons right rhs =>
      rw [compareParts, ih, compareIdentifier_eq, List.map_cons, List.map_cons]
      by_cases h : identifierKey left = identifierKey right
      · rw [if_neg (not_not.2 (order_eq_zero_iff.2 h)), h]
        refine order_congr ?_ ?_ <;> simp
      · rw [if_pos fun h' => h (order_eq_zero_iff.1 h')]
        refine order_congr ?_ ?_ <;> simp [List.cons_lt_cons_iff, h, Ne.symm h]

lemma comparePrerelease_eq (lhs rhs : Text) :
    comparePrerelease lhs rhs = order (prereleaseKey lhs) (prereleaseKey rhs) := by
  unfold comparePrerelease prereleaseKey
  by_cases hl : lhs = []
  · by_cases hr : rhs = []
    · rw [if_pos ⟨hl, hr⟩, if_pos hl, if_pos hr]
      simp [order]
    · rw [if_neg fun h => hr h.2, if_pos hl, if_pos hl, if_neg hr]
      simp [order]
  · by_cases hr : rhs = []
    · rw [if_neg fun h => hl h.1, if_neg hl, if_pos hr, if_neg hl, if_pos hr]
      simp [order]
    · rw [if_neg fun h => hl h.1, if_neg hl, if_neg hr, if_neg hl, if_neg hr, compareParts_eq]
      exact order_congr WithTop.coe_lt_coe.symm WithTop.coe_lt_coe.symm

/-- The comparison is that of the keys. -/
theorem compareSemVer_eq (lhs rhs : Version) :
    compareSemVer lhs rhs = order lhs.key rhs.key := by
  have hnumber : ∀ (a b : Int32) (c : Int),
      (if a ≠ b then if a < b then (-1 : Int) else 1 else c) =
        if a.toInt ≠ b.toInt then if a.toInt < b.toInt then (-1 : Int) else 1 else c := by
    intro a b c
    simp only [ne_eq, Int32.toInt_inj, Int32.lt_iff_toInt_lt]
  rw [compareSemVer, hnumber, hnumber, hnumber, comparePrerelease_eq, Version.key, Version.key,
    order_toLex, order_toLex, order_toLex]

/-! ## Equal keys -/

/-- Parts put together with dots between them. -/
def joinDots : List Text → Text
  | [] => []
  | [part] => part
  | part :: next :: rest => part ++ '.' :: joinDots (next :: rest)

lemma splitPrerelease_ne_nil (text : Text) : splitPrerelease text ≠ [] := by
  cases text with
  | nil => exact List.cons_ne_nil _ _
  | cons ch rest =>
    rw [splitPrerelease]
    split
    · exact List.cons_ne_nil _ _
    · split <;> exact List.cons_ne_nil _ _

lemma joinDots_splitPrerelease (text : Text) : joinDots (splitPrerelease text) = text := by
  induction text with
  | nil => rfl
  | cons ch rest ih =>
    rw [splitPrerelease]
    split
    case isTrue h =>
      obtain ⟨part, parts, hparts⟩ := List.exists_cons_of_ne_nil (splitPrerelease_ne_nil rest)
      rw [hparts] at ih ⊢
      rw [joinDots, ih, h]
      rfl
    case isFalse =>
      split
      case h_1 hparts => exact absurd hparts (splitPrerelease_ne_nil rest)
      case h_2 part parts hparts =>
        rw [hparts] at ih
        rw [← ih]
        cases parts with
        | nil => rfl
        | cons next parts => rfl

lemma identifierKey_injective : Function.Injective identifierKey := by
  intro lhs rhs h
  unfold identifierKey at h
  split at h <;> split at h
  · exact (Prod.mk.inj (toLex_inj.1 (Prod.mk.inj (toLex_inj.1 h)).2)).2
  · exact absurd (Prod.mk.inj (toLex_inj.1 h)).1 (by decide)
  · exact absurd (Prod.mk.inj (toLex_inj.1 h)).1 (by decide)
  · exact (Prod.mk.inj (toLex_inj.1 (Prod.mk.inj (toLex_inj.1 h)).2)).2

lemma prereleaseKey_injective : Function.Injective prereleaseKey := by
  intro lhs rhs h
  unfold prereleaseKey at h
  split at h <;> split at h
  case isTrue.isTrue hl hr => rw [hl, hr]
  case isTrue.isFalse => simp at h
  case isFalse.isTrue => simp at h
  case isFalse.isFalse =>
    have hparts := identifierKey_injective.list_map (WithTop.coe_inj.1 h)
    rw [← joinDots_splitPrerelease lhs, hparts, joinDots_splitPrerelease]

/-- Versions have the same key when they differ in the build metadata at most. -/
lemma key_eq_iff {lhs rhs : Version} :
    lhs.key = rhs.key ↔ lhs.major = rhs.major ∧ lhs.minor = rhs.minor ∧ lhs.patch = rhs.patch ∧
      lhs.prerelease = rhs.prerelease := by
  simp only [Version.key, toLex_inj, Prod.mk.injEq, Int32.toInt_inj,
    prereleaseKey_injective.eq_iff]

/-! ## Numeric identifiers -/

/-- The number that digits write. -/
def digitsValue (text : Text) : ℕ := Nat.ofDigitChars 10 text 0

lemma digitsValue_cons (ch : Char) (text : Text) :
    digitsValue (ch :: text) = 10 ^ text.length * (ch.toNat - 48) + digitsValue text := by
  rw [digitsValue, Nat.ofDigitChars_cons, Nat.ofDigitChars_eq_ofDigitChars_zero, Nat.mul_zero,
    Nat.zero_add]
  rfl

lemma digitsValue_lt {text : Text} (h : ∀ ch ∈ text, ch.isDigit = true) :
    digitsValue text < 10 ^ text.length := by
  induction text with
  | nil => exact Nat.one_pos
  | cons ch text ih =>
    have htext := ih fun other hother => h other (.tail _ hother)
    have hch := Char.isDigit_iff_toNat.1 (h ch (.head _))
    have hnine : '9'.toNat = 57 := rfl
    rw [digitsValue_cons, List.length_cons, Nat.pow_succ]
    calc 10 ^ text.length * (ch.toNat - 48) + digitsValue text
        < 10 ^ text.length * (ch.toNat - 48) + 10 ^ text.length := by omega
      _ = 10 ^ text.length * (ch.toNat - 48 + 1) := by ring
      _ ≤ 10 ^ text.length * 10 := Nat.mul_le_mul_left _ (by omega)

variable {lhs rhs : Text}

/-- Digits of the same length are ordered as the numbers they write. -/
lemma digitsValue_lt_of_lt (hlhs : ∀ ch ∈ lhs, ch.isDigit = true)
    (hrhs : ∀ ch ∈ rhs, ch.isDigit = true) (hlength : lhs.length = rhs.length) (h : lhs < rhs) :
    digitsValue lhs < digitsValue rhs := by
  induction lhs generalizing rhs with
  | nil =>
    rw [List.length_eq_zero_iff.1 hlength.symm] at h
    exact absurd h (lt_irrefl _)
  | cons left lhs ih =>
    cases rhs with
    | nil => cases hlength
    | cons right rhs =>
      have htail : lhs.length = rhs.length := Nat.succ.inj hlength
      have hltail : ∀ ch ∈ lhs, ch.isDigit = true := fun ch hch => hlhs ch (.tail _ hch)
      have hrtail : ∀ ch ∈ rhs, ch.isDigit = true := fun ch hch => hrhs ch (.tail _ hch)
      rw [digitsValue_cons, digitsValue_cons, htail]
      obtain hlt | ⟨rfl, hrest⟩ := List.cons_lt_cons_iff.1 h
      · have hleft := Char.isDigit_iff_toNat.1 (hlhs left (.head _))
        have hright := Char.isDigit_iff_toNat.1 (hrhs right (.head _))
        have hzero : '0'.toNat = 48 := rfl
        have hlt : left.toNat < right.toNat := hlt
        have hvalue := digitsValue_lt hltail
        rw [htail] at hvalue
        calc 10 ^ rhs.length * (left.toNat - 48) + digitsValue lhs
            < 10 ^ rhs.length * (left.toNat - 48) + 10 ^ rhs.length := by omega
          _ = 10 ^ rhs.length * (left.toNat - 48 + 1) := by ring
          _ ≤ 10 ^ rhs.length * (right.toNat - 48) := Nat.mul_le_mul_left _ (by omega)
          _ ≤ 10 ^ rhs.length * (right.toNat - 48) + digitsValue rhs := Nat.le_add_right _ _
      · exact Nat.add_lt_add_left (ih hltail hrtail htail hrest) _

lemma isNumericIdentifier_iff {part : Text} :
    isNumericIdentifier part = true ↔ part ≠ [] ∧ ∀ ch ∈ part, ch.isDigit = true := by
  simp [isNumericIdentifier]

/-- A longer number without zeros in front is larger. -/
lemma digitsValue_lt_of_length (hl : isNumericIdentifier lhs = true)
    (hr : isNumericIdentifier rhs = true) (hrhs : Canonical rhs)
    (hlength : lhs.length < rhs.length) : digitsValue lhs < digitsValue rhs := by
  rw [isNumericIdentifier_iff] at hl
  have hpos := List.length_pos_iff.2 hl.1
  cases rhs with
  | nil => exact absurd hlength (Nat.not_lt_zero _)
  | cons right rhs =>
    have hhead := hrhs hr (by omega)
    have hdigit := Char.isDigit_iff_toNat.1 ((isNumericIdentifier_iff.1 hr).2 right (.head _))
    have hzero : '0'.toNat = 48 := rfl
    have hne : right.toNat ≠ 48 := fun h => hhead (congrArg some (Char.toNat_inj.1 h))
    rw [List.length_cons] at hlength
    rw [digitsValue_cons]
    calc digitsValue lhs < 10 ^ lhs.length := digitsValue_lt hl.2
      _ ≤ 10 ^ rhs.length := Nat.pow_le_pow_right (by omega) (by omega)
      _ = 10 ^ rhs.length * 1 := (Nat.mul_one _).symm
      _ ≤ 10 ^ rhs.length * (right.toNat - 48) := Nat.mul_le_mul_left _ (by omega)
      _ ≤ 10 ^ rhs.length * (right.toNat - 48) + digitsValue rhs := Nat.le_add_right _ _

/-- The keys of numbers are ordered as the numbers. -/
lemma digitsValue_lt_of_key (hl : isNumericIdentifier lhs = true)
    (hr : isNumericIdentifier rhs = true) (hrhs : Canonical rhs)
    (h : toLex (lhs.length, lhs) < toLex (rhs.length, rhs)) :
    digitsValue lhs < digitsValue rhs := by
  obtain h | ⟨hlength, h⟩ := Prod.Lex.toLex_lt_toLex.1 h
  · exact digitsValue_lt_of_length hl hr hrhs h
  · exact digitsValue_lt_of_lt (isNumericIdentifier_iff.1 hl).2 (isNumericIdentifier_iff.1 hr).2
      hlength h

lemma key_lt_iff_digitsValue_lt (hl : isNumericIdentifier lhs = true)
    (hr : isNumericIdentifier rhs = true) (hlhs : Canonical lhs) (hrhs : Canonical rhs) :
    toLex (lhs.length, lhs) < toLex (rhs.length, rhs) ↔ digitsValue lhs < digitsValue rhs := by
  constructor
  · exact digitsValue_lt_of_key hl hr hrhs
  · intro h
    obtain hlt | heq | hgt := lt_trichotomy (toLex (lhs.length, lhs)) (toLex (rhs.length, rhs))
    · exact hlt
    · rw [(Prod.mk.inj (toLex_inj.1 heq)).2] at h
      exact absurd h (lt_irrefl _)
    · exact absurd h (digitsValue_lt_of_key hr hl hlhs hgt).not_gt

/-! ## Precedence -/

/-- A part of a prerelease between its dots. -/
inductive Identifier
  | numeric (value : ℕ)
  | alphanumeric (text : Text)

def identifierOf (part : Text) : Identifier :=
  if isNumericIdentifier part = true then .numeric (digitsValue part) else .alphanumeric part

/-- Identifiers of digits are compared as numbers and others in the order of their characters; numbers
come first. -/
inductive Identifier.Precedes : Identifier → Identifier → Prop
  | numeric {lhs rhs : ℕ} (h : lhs < rhs) : Precedes (.numeric lhs) (.numeric rhs)
  | mixed (lhs : ℕ) (rhs : Text) : Precedes (.numeric lhs) (.alphanumeric rhs)
  | alphanumeric {lhs rhs : Text} (h : lhs < rhs) : Precedes (.alphanumeric lhs) (.alphanumeric rhs)

def Version.identifiers (version : Version) : List Identifier :=
  (splitPrerelease version.prerelease).map identifierOf

def Version.SameCore (lhs rhs : Version) : Prop :=
  lhs.major = rhs.major ∧ lhs.minor = rhs.minor ∧ lhs.patch = rhs.patch

/-- Precedence of versions: by the numbers, then a prerelease before the release, then by the first
identifiers that differ, where a longer list of identifiers comes last. -/
inductive Version.Precedes : Version → Version → Prop
  | major {lhs rhs : Version} (h : lhs.major < rhs.major) : Precedes lhs rhs
  | minor {lhs rhs : Version} (hmajor : lhs.major = rhs.major) (h : lhs.minor < rhs.minor) :
    Precedes lhs rhs
  | patch {lhs rhs : Version} (hmajor : lhs.major = rhs.major) (hminor : lhs.minor = rhs.minor)
    (h : lhs.patch < rhs.patch) : Precedes lhs rhs
  | release {lhs rhs : Version} (hcore : lhs.SameCore rhs) (hlhs : lhs.prerelease ≠ [])
    (hrhs : rhs.prerelease = []) : Precedes lhs rhs
  | prerelease {lhs rhs : Version} (hcore : lhs.SameCore rhs) (hlhs : lhs.prerelease ≠ [])
    (hrhs : rhs.prerelease ≠ [])
    (h : List.Lex Identifier.Precedes lhs.identifiers rhs.identifiers) : Precedes lhs rhs

lemma identifierKey_lt_iff (hlhs : Canonical lhs) (hrhs : Canonical rhs) :
    identifierKey lhs < identifierKey rhs ↔ (identifierOf lhs).Precedes (identifierOf rhs) := by
  unfold identifierKey identifierOf
  split
  case isTrue hl =>
    split
    case isTrue hr =>
      rw [Prod.Lex.toLex_lt_toLex]
      simp only [lt_self_iff_false, false_or, true_and]
      rw [key_lt_iff_digitsValue_lt hl hr hlhs hrhs]
      exact ⟨.numeric, fun h => by cases h; assumption⟩
    case isFalse hr =>
      refine iff_of_true ?_ (.mixed _ _)
      exact Prod.Lex.toLex_lt_toLex.2 (.inl Nat.one_pos)
  case isFalse hl =>
    split
    case isTrue hr =>
      refine iff_of_false ?_ nofun
      rw [Prod.Lex.toLex_lt_toLex]
      simp
    case isFalse hr =>
      simp only [Prod.Lex.toLex_lt_toLex, lt_self_iff_false, false_or, true_and]
      exact ⟨.alphanumeric, fun h => by cases h; assumption⟩

lemma identifierOf_inj (hlhs : Canonical lhs) (hrhs : Canonical rhs)
    (h : identifierOf lhs = identifierOf rhs) : lhs = rhs := by
  have hirrefl : ∀ identifier : Identifier, ¬identifier.Precedes identifier := by
    intro identifier h
    cases h <;> exact absurd ‹_› (lt_irrefl _)
  apply identifierKey_injective
  obtain hlt | heq | hgt := lt_trichotomy (identifierKey lhs) (identifierKey rhs)
  · rw [identifierKey_lt_iff hlhs hrhs, h] at hlt
    exact absurd hlt (hirrefl _)
  · exact heq
  · rw [identifierKey_lt_iff hrhs hlhs, h] at hgt
    exact absurd hgt (hirrefl _)

lemma map_identifierKey_lt_iff {lhs rhs : List Text} (hlhs : ∀ part ∈ lhs, Canonical part)
    (hrhs : ∀ part ∈ rhs, Canonical part) :
    lhs.map identifierKey < rhs.map identifierKey ↔
      List.Lex Identifier.Precedes (lhs.map identifierOf) (rhs.map identifierOf) := by
  induction lhs generalizing rhs with
  | nil =>
    cases rhs with
    | nil => exact iff_of_false (lt_irrefl _) nofun
    | cons right rhs => exact iff_of_true .nil .nil
  | cons left lhs ih =>
    cases rhs with
    | nil => exact iff_of_false (List.not_lt_nil _) nofun
    | cons right rhs =>
      have hleft := hlhs left (.head _)
      have hright := hrhs right (.head _)
      have ih := @ih rhs (fun part hpart => hlhs part (.tail _ hpart))
        (fun part hpart => hrhs part (.tail _ hpart))
      rw [List.map_cons, List.map_cons, List.map_cons, List.map_cons, List.cons_lt_cons_iff,
        identifierKey_lt_iff hleft hright, ih]
      constructor
      · rintro (h | ⟨heq, h⟩)
        · exact .rel h
        · rw [identifierKey_injective heq]
          exact .cons h
      · intro h
        generalize hl : identifierOf left = l at h
        generalize hr : identifierOf right = r at h
        cases h with
        | rel h => exact .inl h
        | cons h => exact .inr ⟨congrArg identifierKey (identifierOf_inj hleft hright (hl.trans hr.symm)), h⟩

/-- The keys of versions with canonical prereleases are ordered as prescribed. -/
theorem key_lt_iff_precedes {lhs rhs : Version}
    (hlhs : ∀ part ∈ splitPrerelease lhs.prerelease, Canonical part)
    (hrhs : ∀ part ∈ splitPrerelease rhs.prerelease, Canonical part) :
    lhs.key < rhs.key ↔ lhs.Precedes rhs := by
  have hprerelease : prereleaseKey lhs.prerelease < prereleaseKey rhs.prerelease ↔
      lhs.prerelease ≠ [] ∧ (rhs.prerelease = [] ∨ rhs.prerelease ≠ [] ∧
        List.Lex Identifier.Precedes lhs.identifiers rhs.identifiers) := by
    unfold prereleaseKey
    by_cases hl : lhs.prerelease = []
    · simp [hl]
    · by_cases hr : rhs.prerelease = []
      · simp [hl, hr]
      · rw [if_neg hl, if_neg hr, WithTop.coe_lt_coe, map_identifierKey_lt_iff hlhs hrhs]
        simp [hl, hr, Version.identifiers]
  simp only [Version.key, Prod.Lex.toLex_lt_toLex, Int32.toInt_inj, ← Int32.lt_iff_toInt_lt,
    hprerelease]
  constructor
  · rintro (h | ⟨hmajor, h | ⟨hminor, h | ⟨hpatch, hl, hr | ⟨hr, h⟩⟩⟩⟩)
    · exact .major h
    · exact .minor hmajor h
    · exact .patch hmajor hminor h
    · exact .release ⟨hmajor, hminor, hpatch⟩ hl hr
    · exact .prerelease ⟨hmajor, hminor, hpatch⟩ hl hr h
  · intro h
    cases h with
    | major h => exact .inl h
    | minor hmajor h => exact .inr ⟨hmajor, .inl h⟩
    | patch hmajor hminor h => exact .inr ⟨hmajor, .inr ⟨hminor, .inl h⟩⟩
    | release hcore hl hr => exact .inr ⟨hcore.1, .inr ⟨hcore.2.1, .inr ⟨hcore.2.2, hl, .inl hr⟩⟩⟩
    | prerelease hcore hl hr h =>
      exact .inr ⟨hcore.1, .inr ⟨hcore.2.1, .inr ⟨hcore.2.2, hl, .inr ⟨hr, h⟩⟩⟩⟩

end SemVer

end Chtholly
