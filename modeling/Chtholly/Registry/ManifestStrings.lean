import Chtholly.Registry.TrustMetadata
import Mathlib.Data.List.TakeWhile

/-!
# Strings in a manifest

A string stands between two quotes, and a backslash in it makes the next character stand for itself
or for a control character.  The scanners of arrays and tables have to know which characters of a
text are outside of its strings.

## Main definitions

* `Registry.ManifestToml.Escaped` — how the value of a string may be written.
* `Registry.ManifestToml.Mode`, `Registry.ManifestToml.marks` — the characters outside of strings.

## Main results

* `Registry.ManifestToml.parseString_eq_some_iff` — the texts that are read as a string.
* `Registry.ManifestToml.parseString_quote` — a quoted text is read back.
* `Registry.ManifestToml.untilQuote_of_escaped` — the scanner finds the end of a string.
-/

set_option autoImplicit false

namespace Chtholly

namespace Registry

namespace ManifestToml

/-! ## Blanks -/

def Blank (text : Text) : Prop := ∀ ch ∈ text, isSpace ch = true

/-- Nothing to trim. -/
structure Trimmed (text : Text) : Prop where
  head : ∀ ch ∈ text.head?, isSpace ch = false
  last : ∀ ch ∈ text.getLast?, isSpace ch = false

lemma blank_nil : Blank [] := fun _ h => absurd h List.not_mem_nil

lemma blank_append {text other : Text} : Blank (text ++ other) ↔ Blank text ∧ Blank other :=
  List.forall_mem_append

lemma Blank.reverse {text : Text} (h : Blank text) : Blank text.reverse :=
  fun ch hch => h ch (List.mem_reverse.1 hch)

lemma exists_blank (text : Text) : ∃ blank, Blank blank ∧ text = blank ++ text.dropWhile isSpace :=
  ⟨text.takeWhile isSpace, fun _ hch => List.mem_takeWhile_imp hch,
    List.takeWhile_append_dropWhile.symm⟩

lemma dropWhile_blank {blank : Text} (h : Blank blank) (rest : Text) :
    (blank ++ rest).dropWhile isSpace = rest.dropWhile isSpace :=
  List.dropWhile_append_of_pos h

lemma dropWhile_cons {ch : Char} (h : isSpace ch = false) (rest : Text) :
    (ch :: rest).dropWhile isSpace = ch :: rest := by
  rw [List.dropWhile_cons, h, if_neg Bool.false_ne_true]

lemma dropWhile_of_head {text : Text} (h : ∀ ch ∈ text.head?, isSpace ch = false) :
    text.dropWhile isSpace = text := by
  cases text with
  | nil => rfl
  | cons ch text => exact dropWhile_cons (h ch rfl) text

lemma head_dropWhile (text : Text) : ∀ ch ∈ (text.dropWhile isSpace).head?, isSpace ch = false := by
  intro ch hch
  have hnot := List.head?_dropWhile_not isSpace text
  rw [hch] at hnot
  simpa using hnot

/-- A text is its trimmed part between blanks. -/
lemma exists_trim (text : Text) :
    ∃ before after, Blank before ∧ Blank after ∧ text = before ++ trim text ++ after := by
  obtain ⟨before, hbefore, htext⟩ := exists_blank text
  obtain ⟨after, hafter, hrest⟩ := exists_blank (text.dropWhile isSpace).reverse
  refine ⟨before, after.reverse, hbefore, hafter.reverse, ?_⟩
  have hreverse := congrArg List.reverse hrest
  rw [List.reverse_reverse, List.reverse_append] at hreverse
  rw [List.append_assoc, trim, ← hreverse, ← htext]

lemma trimmed_trim (text : Text) : Trimmed (trim text) := by
  constructor
  · obtain ⟨after, hafter, hrest⟩ := exists_blank (text.dropWhile isSpace).reverse
    have hreverse := congrArg List.reverse hrest
    rw [List.reverse_reverse, List.reverse_append] at hreverse
    intro ch hch
    apply head_dropWhile text
    rw [hreverse, List.head?_append]
    have hch : ch ∈ (trim text).head? := hch
    rw [trim] at hch
    rw [hch]
    rfl
  · intro ch hch
    rw [trim, List.getLast?_reverse] at hch
    exact head_dropWhile _ ch hch

lemma trim_append {before text after : Text} (hbefore : Blank before) (htext : Trimmed text)
    (hafter : Blank after) : trim (before ++ text ++ after) = text := by
  cases text with
  | nil =>
    rw [List.append_nil, trim]
    have hall : (before ++ after).dropWhile isSpace = [] :=
      List.dropWhile_eq_nil_iff.2 (blank_append.2 ⟨hbefore, hafter⟩)
    rw [hall]
    rfl
  | cons ch text =>
    have hfront : (before ++ (ch :: text) ++ after).dropWhile isSpace = ch :: text ++ after := by
      rw [List.append_assoc, dropWhile_blank hbefore]
      exact dropWhile_cons (htext.head ch rfl) _
    have hback : (ch :: text).reverse.dropWhile isSpace = (ch :: text).reverse := by
      apply dropWhile_of_head
      rw [List.head?_reverse]
      exact htext.last
    rw [trim, hfront, List.reverse_append, dropWhile_blank hafter.reverse, hback,
      List.reverse_reverse]

lemma between_eq_some_iff {first last : Char} {value middle : Text} :
    between first last value = some middle ↔ value = first :: middle ++ [last] := by
  unfold between
  constructor
  · intro h
    split at h
    case isTrue hends =>
      obtain ⟨hlength, hhead, hlast⟩ := hends
      cases h
      cases value with
      | nil => cases hhead
      | cons ch value =>
        cases hhead
        have hne : value ≠ [] := by
          rintro rfl
          rw [List.length_singleton] at hlength
          omega
        rw [List.getLast?_cons_of_ne_nil hne, List.getLast?_eq_some_iff] at hlast
        obtain ⟨middle, rfl⟩ := hlast
        rw [List.tail_cons, List.dropLast_concat]
        rfl
    case isFalse => cases h
  · rintro rfl
    rw [if_pos ⟨by simp, rfl, List.getLast?_concat⟩, List.cons_append, List.tail_cons,
      List.dropLast_concat]

/-! ## Strings -/

/-- What the letter after a backslash stands for. -/
def letterValue : Char → Option Char
  | '"' => some '"'
  | '\\' => some '\\'
  | 'n' => some '\n'
  | 'r' => some '\r'
  | 't' => some '\t'
  | _ => none

/-- How a value may be written between quotes. -/
inductive Escaped : Text → Text → Prop
  | nil : Escaped [] []
  | plain {ch : Char} {value inner : Text} : ch ≠ '"' → ch ≠ '\\' → Escaped value inner →
      Escaped (ch :: value) (ch :: inner)
  | letter {ch letter : Char} {value inner : Text} : letterValue letter = some ch →
      Escaped value inner → Escaped (ch :: value) ('\\' :: letter :: inner)

lemma unescape_plain (ch : Char) (rest : Text) :
    unescape false (ch :: rest) =
      if ch = '\\' then unescape true rest
      else if ch = '"' then none
      else (unescape false rest).map (ch :: ·) :=
  unescape.eq_def false (ch :: rest)

lemma unescape_letter (letter : Char) (rest : Text) :
    unescape true (letter :: rest) =
      (letterValue letter).bind fun ch => (unescape false rest).map (ch :: ·) := by
  rw [unescape.eq_def]
  dsimp only
  rw [if_pos rfl]
  split
  case h_6 h₁ h₂ h₃ h₄ h₅ =>
    have hnone : letterValue letter = none := by
      unfold letterValue
      split <;> simp_all
    rw [hnone]
    rfl
  all_goals rfl

/-- The inner text of a string and its value. -/
lemma unescape_eq_some_iff {inner value : Text} :
    unescape false inner = some value ↔ Escaped value inner := by
  constructor
  · intro h
    -- an escape takes two characters at once
    induction hlength : inner.length using Nat.strong_induction_on generalizing inner value with
    | _ n ih =>
      subst hlength
      cases inner with
      | nil =>
        cases h
        exact .nil
      | cons ch inner =>
        rw [unescape_plain] at h
        by_cases hslash : ch = '\\'
        · rw [if_pos hslash] at h
          cases inner with
          | nil => cases h
          | cons letter inner =>
            rw [unescape_letter] at h
            obtain ⟨stands, hstands, h⟩ := Option.bind_eq_some_iff.1 h
            obtain ⟨value, hvalue, rfl⟩ := Option.map_eq_some_iff.1 h
            rw [hslash]
            refine .letter hstands (ih inner.length ?_ hvalue rfl)
            rw [List.length_cons, List.length_cons]
            omega
        · rw [if_neg hslash] at h
          by_cases hquote : ch = '"'
          · rw [if_pos hquote] at h
            cases h
          · rw [if_neg hquote] at h
            obtain ⟨value, hvalue, rfl⟩ := Option.map_eq_some_iff.1 h
            exact .plain hquote hslash (ih inner.length (by rw [List.length_cons]; omega) hvalue rfl)
  · intro h
    induction h with
    | nil => rfl
    | plain hquote hslash _ ih =>
      rw [unescape_plain, if_neg hslash, if_neg hquote, ih]
      rfl
    | letter hletter _ ih =>
      rw [unescape_plain, if_pos rfl, unescape_letter, hletter,
        Option.bind_some, ih]
      rfl

lemma trimmed_quoted (inner : Text) : Trimmed ('"' :: inner ++ ['"']) := by
  constructor
  · intro ch hch
    cases hch
    rfl
  · intro ch hch
    rw [List.getLast?_concat] at hch
    cases hch
    rfl

/-- The texts that are read as a string. -/
theorem parseString_eq_some_iff {text value : Text} :
    parseString text = some value ↔ ∃ before inner after, Blank before ∧ Blank after ∧
      Escaped value inner ∧ text = before ++ ('"' :: inner ++ ['"']) ++ after := by
  rw [parseString, Option.bind_eq_some_iff]
  constructor
  · rintro ⟨inner, hinner, hvalue⟩
    obtain ⟨before, after, hbefore, hafter, htext⟩ := exists_trim text
    rw [between_eq_some_iff.1 hinner] at htext
    exact ⟨before, inner, after, hbefore, hafter, unescape_eq_some_iff.1 hvalue, htext⟩
  · rintro ⟨before, inner, after, hbefore, hafter, hvalue, rfl⟩
    refine ⟨inner, ?_, unescape_eq_some_iff.2 hvalue⟩
    rw [trim_append hbefore (trimmed_quoted inner) hafter]
    exact between_eq_some_iff.2 rfl

lemma parseString_of_escaped {value inner : Text} (h : Escaped value inner) :
    parseString ('"' :: inner ++ ['"']) = some value :=
  parseString_eq_some_iff.2 ⟨[], inner, [], blank_nil, blank_nil, h, by simp⟩

lemma escaped_of_parseString {value inner : Text}
    (h : parseString ('"' :: inner ++ ['"']) = some value) : Escaped value inner := by
  have htrim := trim_append blank_nil (trimmed_quoted inner) blank_nil
  rw [List.nil_append, List.append_nil] at htrim
  rw [parseString, htrim, between_eq_some_iff.2 rfl] at h
  exact unescape_eq_some_iff.1 h

lemma escaped_flatMap (value : Text) : Escaped value (value.flatMap escape) := by
  induction value with
  | nil => exact .nil
  | cons ch value ih =>
    rw [List.flatMap_cons]
    unfold escape
    split
    case h_6 hslash hquote _ _ _ => exact .plain hquote hslash ih
    all_goals exact .letter rfl ih

/-- A quoted text is read back. -/
theorem parseString_quote (value : Text) : parseString (quote value) = some value :=
  parseString_of_escaped (escaped_flatMap value)

/-! ## The end of a string -/

/-- The scanner finds the end of a string. -/
lemma untilQuote_of_escaped {value inner : Text} (h : Escaped value inner) (rest : Text) :
    untilQuote false (inner ++ '"' :: rest) = some (inner, rest) := by
  induction h with
  | nil => rfl
  | @plain ch value inner hquote hslash _ ih =>
    have hstop : (!false && ch == '"') = false := by simpa using hquote
    have hnext : (!false && ch == '\\') = false := by simpa using hslash
    rw [List.cons_append, untilQuote, hstop, if_neg Bool.false_ne_true, hnext, ih]
    rfl
  | @letter ch letter value inner hletter _ ih =>
    rw [List.cons_append, List.cons_append, untilQuote, if_neg (by decide)]
    have hnext : (!false && '\\' == '\\') = true := rfl
    rw [hnext, untilQuote, if_neg (by simp)]
    have hafter : (!true && letter == '\\') = false := rfl
    rw [hafter, ih]
    rfl

lemma eq_of_untilQuote {escaped : Bool} {text inner rest : Text}
    (h : untilQuote escaped text = some (inner, rest)) : text = inner ++ '"' :: rest := by
  induction text generalizing escaped inner with
  | nil => cases h
  | cons ch text ih =>
    rw [untilQuote] at h
    split at h
    case isTrue hstop =>
      cases h
      rw [Bool.and_eq_true, beq_iff_eq] at hstop
      rw [hstop.2]
      rfl
    case isFalse =>
      obtain ⟨⟨inner, rest⟩, hrest, heq⟩ := Option.map_eq_some_iff.1 h
      cases heq
      rw [ih hrest]
      rfl

/-! ## Outside of the strings -/

/-- Where a scanner is: the source has two flags, and sets the second one in a string only. -/
inductive Mode
  | outside
  | inside
  | escaped
  deriving DecidableEq

def Mode.next (mode : Mode) (ch : Char) : Mode :=
  match mode with
  | .escaped => .inside
  | .inside => if ch = '\\' then .escaped else if ch = '"' then .outside else .inside
  | .outside => if ch = '"' then .inside else .outside

/-- Where the scanner is behind a text. -/
def Mode.after (mode : Mode) (text : Text) : Mode := text.foldl Mode.next mode

/-- The characters outside of the strings, without the quotes. -/
def marks : Mode → Text → Text
  | _, [] => []
  | mode, ch :: text =>
    if mode = .outside ∧ ch ≠ '"' then ch :: marks .outside text else marks (mode.next ch) text

lemma after_append (mode : Mode) (text other : Text) :
    mode.after (text ++ other) = (mode.after text).after other := List.foldl_append

lemma marks_append (mode : Mode) (text other : Text) :
    marks mode (text ++ other) = marks mode text ++ marks (mode.after text) other := by
  induction text generalizing mode with
  | nil => rfl
  | cons ch text ih =>
    rw [List.cons_append, marks, marks, Mode.after, List.foldl_cons]
    by_cases hout : mode = .outside ∧ ch ≠ '"'
    · have hnext : mode.next ch = .outside := by
        rw [hout.1, Mode.next]
        exact if_neg hout.2
      rw [if_pos hout, if_pos hout, hnext, ih]
      rfl
    · rw [if_neg hout, if_neg hout]
      exact ih _

lemma marks_blank {blank : Text} (h : Blank blank) :
    marks .outside blank = blank ∧ Mode.after .outside blank = .outside := by
  induction blank with
  | nil => exact ⟨rfl, rfl⟩
  | cons ch blank ih =>
    obtain ⟨hmarks, hafter⟩ := ih fun other hother => h other (.tail _ hother)
    have hquote : ch ≠ '"' := by
      rintro rfl
      exact absurd (h _ (.head _)) (by decide)
    rw [marks, if_pos ⟨rfl, hquote⟩, hmarks, Mode.after, List.foldl_cons, Mode.next, if_neg hquote]
    exact ⟨rfl, hafter⟩

lemma marks_escaped {value inner : Text} (h : Escaped value inner) :
    marks .inside inner = [] ∧ Mode.after .inside inner = .inside := by
  induction h with
  | nil => exact ⟨rfl, rfl⟩
  | plain hquote hslash _ ih =>
    rw [marks, if_neg (by simp), Mode.after, List.foldl_cons, Mode.next, if_neg hslash,
      if_neg hquote]
    exact ih
  | letter _ _ ih =>
    rw [marks, if_neg (by simp), Mode.next, if_pos rfl, marks, if_neg (by simp), Mode.after,
      List.foldl_cons, List.foldl_cons]
    exact ih

lemma marks_quoted {value inner : Text} (h : Escaped value inner) :
    marks .outside ('"' :: inner ++ ['"']) = [] ∧
      Mode.after .outside ('"' :: inner ++ ['"']) = .outside := by
  obtain ⟨hmarks, hafter⟩ := marks_escaped h
  constructor
  · rw [List.cons_append, marks, if_neg (by simp), Mode.next, if_pos rfl, marks_append, hmarks, hafter]
    rfl
  · rw [List.cons_append, Mode.after, List.foldl_cons, Mode.next, if_pos rfl]
    exact (after_append .inside inner ['"']).trans (congrArg (Mode.after · ['"']) hafter)

end ManifestToml

end Registry

end Chtholly
