import Chtholly.Registry.Fields
import Mathlib.Data.List.Induction
import Mathlib.Tactic.IntervalCases

/-!
# Reading lines back

What a text says about its lines, and a line about the parts that it is cut into.

## Main results

* `Registry.lines_flatMap` — the lines of a text that was written line by line.
* `Registry.cut_eq_some_iff` — the parts of a line.
* `Registry.parseUnsigned_map_eq_some_iff` — the texts that are read as a number.
-/

set_option autoImplicit false

namespace Chtholly

namespace Registry

/-- A line with its line break. -/
def ended (line : Text) : Text := line ++ ['\n']

lemma notMem_of_mem_lines {text line : Text} (h : line ∈ lines text) : '\n' ∉ line := by
  induction text generalizing line with
  | nil => exact absurd h List.not_mem_nil
  | cons ch text ih =>
    rw [lines] at h
    by_cases hch : ch = '\n'
    · rw [if_pos hch, List.mem_cons] at h
      obtain rfl | h := h
      · exact List.not_mem_nil
      · exact ih h
    · rw [if_neg hch] at h
      cases hlines : lines text with
      | nil =>
        rw [hlines, List.mem_singleton] at h
        rw [h, List.mem_singleton]
        exact Ne.symm hch
      | cons first rest =>
        rw [hlines, List.mem_cons] at h
        obtain rfl | h := h
        · rw [List.mem_cons, not_or]
          exact ⟨Ne.symm hch, ih (hlines ▸ List.mem_cons_self)⟩
        · exact ih (hlines ▸ List.mem_cons_of_mem _ h)

/-- The lines of a text that was written line by line. -/
lemma lines_flatMap {all : List Text} (h : ∀ line ∈ all, '\n' ∉ line) :
    lines (all.flatMap ended) = all := by
  induction all with
  | nil => rfl
  | cons line all ih =>
    rw [List.flatMap_cons, ended, List.append_assoc, List.singleton_append,
      lines_append (h line List.mem_cons_self), ih fun other hother => h other (.tail _ hother)]

/-- A text is its lines, where the last one need not have a line break. -/
lemma flatMap_lines (text : Text) :
    (lines text).flatMap ended = text ∨ (lines text).flatMap ended = text ++ ['\n'] := by
  induction text with
  | nil => exact .inl rfl
  | cons ch text ih =>
    rw [lines]
    by_cases hch : ch = '\n'
    · rw [if_pos hch, List.flatMap_cons, hch]
      exact ih.imp (congrArg ('\n' :: ·)) (congrArg ('\n' :: ·))
    · rw [if_neg hch]
      cases hlines : lines text with
      | nil =>
        right
        rw [hlines] at ih
        obtain h | h := ih
        · rw [← h]
          rfl
        · exact absurd h (by simp)
      | cons first rest =>
        rw [hlines] at ih
        exact ih.imp (congrArg (ch :: ·)) (congrArg (ch :: ·))

lemma cut_eq_some_iff {sep : Char} {text first rest : Text} :
    cut sep text = some (first, rest) ↔ text = first ++ sep :: rest ∧ sep ∉ first := by
  constructor
  · intro h
    induction text generalizing first with
    | nil => cases h
    | cons ch text ih =>
      rw [cut] at h
      by_cases hch : ch = sep
      · rw [if_pos hch] at h
        cases h
        exact ⟨by rw [hch]; rfl, List.not_mem_nil⟩
      · rw [if_neg hch, Option.map_eq_some_iff] at h
        obtain ⟨⟨before, after⟩, hcut, heq⟩ := h
        cases heq
        obtain ⟨rfl, hnot⟩ := ih hcut
        refine ⟨rfl, ?_⟩
        rw [List.mem_cons, not_or]
        exact ⟨Ne.symm hch, hnot⟩
  · rintro ⟨rfl, hnot⟩
    exact cut_append hnot rest

/-! ## Numbers -/

/-- A 64-bit number as it may be written: with zeros in front. -/
def Spells (text : Text) (n : ℕ) : Prop :=
  n < 2 ^ 64 ∧ ∃ zeros, text = List.replicate zeros '0' ++ decimal n

lemma Spells.isDigit {text : Text} {n : ℕ} (h : Spells text n) :
    ∀ ch ∈ text, ch.isDigit = true := by
  obtain ⟨-, zeros, rfl⟩ := h
  intro ch hch
  obtain hch | hch := List.mem_append.1 hch
  · rw [List.eq_of_mem_replicate hch]
    rfl
  · exact isDigit_of_mem_decimal hch

lemma exists_digitChar {ch : Char} (h : ch.isDigit = true) :
    ∃ d < 10, ch = Nat.digitChar d ∧ ch.toNat - '0'.toNat = d := by
  rw [Char.isDigit_iff_toNat] at h
  have hzero : '0'.toNat = 48 := rfl
  have hnine : '9'.toNat = 57 := rfl
  refine ⟨ch.toNat - 48, by omega, ?_, rfl⟩
  apply Char.toNat_inj.1
  obtain ⟨d, hd, hch⟩ : ∃ d < 10, ch.toNat = 48 + d := ⟨ch.toNat - 48, by omega, by omega⟩
  rw [hch, Nat.add_sub_cancel_left]
  interval_cases d <;> rfl

/-- Digits are zeros and then the number as it is written. -/
lemma exists_zeros {text : Text} (hne : text ≠ []) (h : ∀ ch ∈ text, ch.isDigit = true) :
    ∃ zeros, text = List.replicate zeros '0' ++ decimal (Nat.ofDigitChars 10 text 0) := by
  induction text using List.reverseRecOn with
  | nil => exact absurd rfl hne
  | append_singleton text ch ih =>
    obtain ⟨d, hd, rfl, hvalue⟩ := exists_digitChar (h ch (by simp))
    have hof : Nat.ofDigitChars 10 (text ++ [Nat.digitChar d]) 0 =
        10 * Nat.ofDigitChars 10 text 0 + d := by
      rw [Nat.ofDigitChars_append, Nat.ofDigitChars_cons, Nat.ofDigitChars_nil, hvalue]
    rw [hof]
    by_cases htext : text = []
    · subst htext
      refine ⟨0, ?_⟩
      rw [Nat.ofDigitChars_nil, Nat.mul_zero, Nat.zero_add, decimal, Nat.toDigits_of_lt_base hd]
      rfl
    · obtain ⟨zeros, hzeros⟩ := ih htext fun c hc => h c (List.mem_append_left _ hc)
      by_cases hpos : 0 < Nat.ofDigitChars 10 text 0
      · refine ⟨zeros, ?_⟩
        rw [decimal, ← Nat.toDigits_append_toDigits (by omega) hpos hd, ← List.append_assoc,
          Nat.toDigits_of_lt_base hd]
        exact congrArg (· ++ [Nat.digitChar d]) hzeros
      · have hzero : Nat.ofDigitChars 10 text 0 = 0 := by omega
        refine ⟨zeros + 1, ?_⟩
        rw [hzero] at hzeros ⊢
        rw [Nat.mul_zero, Nat.zero_add, decimal, Nat.toDigits_of_lt_base hd, hzeros,
          List.replicate_succ']
        rfl

/-- A number has no zero in front, unless it is zero. -/
lemma head_decimal (n : ℕ) : ∃ ch rest, decimal n = ch :: rest ∧ ch.isDigit = true ∧
    (ch = '0' → rest = []) := by
  obtain ⟨ch, rest, h⟩ := List.exists_cons_of_ne_nil (@Nat.toDigits_ne_nil n 10)
  have hmem : ch ∈ decimal n := by
    rw [decimal, h]
    exact .head _
  refine ⟨ch, rest, h, isDigit_of_mem_decimal hmem, ?_⟩
  rintro rfl
  -- a longer text would write a number with fewer digits
  by_contra hrest
  have hof : Nat.ofDigitChars 10 rest 0 = n := by
    have := @Nat.ofDigitChars_ten_toDigits n
    rwa [h, Nat.ofDigitChars_cons] at this
  have hdigits : ∀ other ∈ rest, other.isDigit = true := by
    intro other hother
    apply isDigit_of_mem_decimal (n := n)
    rw [decimal, h]
    exact .tail _ hother
  obtain ⟨zeros, hzeros⟩ := exists_zeros hrest hdigits
  have hlength := congrArg List.length hzeros
  rw [hof, decimal, h, List.length_append, List.length_cons] at hlength
  omega

/-- The texts that are read as a number. -/
lemma parseUnsigned_map_eq_some_iff {text : Text} {n : ℕ} :
    (parseUnsigned text).map UInt64.toNat = some n ↔ Spells text n := by
  constructor
  · intro h
    obtain ⟨m, hm, rfl⟩ := Option.map_eq_some_iff.1 h
    unfold parseUnsigned at hm
    split at hm
    case isTrue hall =>
      obtain ⟨hne, hdigits, hlt⟩ := hall
      cases hm
      rw [UInt64.toNat_ofNat_of_lt' hlt]
      exact ⟨hlt, exists_zeros hne (List.all_eq_true.1 hdigits)⟩
    case isFalse => cases hm
  · rintro ⟨hlt, zeros, rfl⟩
    have hvalue : Nat.ofDigitChars 10 (List.replicate zeros '0' ++ decimal n) 0 = n := by
      rw [Nat.ofDigitChars_append, Nat.ofDigitChars_replicate_zero, Nat.mul_zero, decimal,
        Nat.ofDigitChars_ten_toDigits]
    have hne : List.replicate zeros '0' ++ decimal n ≠ [] :=
      List.append_ne_nil_of_right_ne_nil _ Nat.toDigits_ne_nil
    have hdigits : (List.replicate zeros '0' ++ decimal n).all Char.isDigit = true :=
      List.all_eq_true.2 (Spells.isDigit ⟨hlt, zeros, rfl⟩)
    rw [parseUnsigned, if_pos ⟨hne, hdigits, by rw [hvalue]; exact hlt⟩, hvalue, Option.map_some,
      UInt64.toNat_ofNat_of_lt' hlt]

lemma spells_iff {text : Text} {n : UInt64} :
    Spells text n.toNat ↔ parseUnsigned text = some n := by
  rw [← parseUnsigned_map_eq_some_iff, Option.map_eq_some_iff]
  constructor
  · rintro ⟨m, hm, heq⟩
    rw [hm, UInt64.toNat_inj.1 heq]
  · intro h
    exact ⟨n, h, rfl⟩

/-- A number is spelled as it is written when it has no superfluous zero in front. -/
lemma Spells.eq_decimal_iff {text : Text} {n : ℕ} (h : Spells text n) :
    text = decimal n ↔ (text.head? = some '0' → text = ['0']) := by
  obtain ⟨-, zeros, rfl⟩ := h
  obtain ⟨ch, rest, hdecimal, -, hzero⟩ := head_decimal n
  rw [hdecimal]
  cases zeros with
  | zero =>
    refine iff_of_true rfl ?_
    intro hhead
    cases hhead
    rw [hzero rfl]
    rfl
  | succ zeros =>
    rw [List.replicate_succ]
    constructor
    · intro heq
      have hlength := congrArg List.length heq
      rw [List.length_append, List.length_cons, List.length_cons] at hlength
      omega
    · intro hone
      have hlength := congrArg List.length (hone rfl)
      rw [List.length_append, List.length_cons, List.length_cons, List.length_singleton] at hlength
      omega

lemma newline_notMem_decimal (n : ℕ) : '\n' ∉ decimal n := by
  intro h
  have := isDigit_of_mem_decimal h
  revert this
  decide

/-! ## Lines of fields -/

/-- The line of a field, with its length as it may be written. -/
def sizedLine (field : Text × Text × Text) : Text :=
  field.1 ++ '\t' :: field.2.1 ++ ':' :: field.2.2

/-- A field with its length as it is written. -/
def sized (field : Text × Text) : Text × Text × Text :=
  (field.1, decimal field.2.length, field.2)

end Registry

end Chtholly
