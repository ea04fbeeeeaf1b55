import Chtholly.Lexer.Spans
import Mathlib.Data.Nat.Digits.Defs

/-!
# Integer literals

The lexer reads a number forwards: a mark of its base, the digits of that base with separators
between them, and what is left of the word is the suffix.  The value of a literal is read later from
the spelling alone, and there the suffix is what the spelling ends with.  The two take the spelling
apart at the same place, but for a hexadecimal number whose last digits are `f32` or `f64`.

## Main definitions

* `Lexer.numericSuffix`, `Lexer.parseIntegerLiteral` — how a spelling is read.
* `Lexer.IntegerSpelling`, `Lexer.digitsValue` — the parts of a spelling, and the number it stands
  for.
* `Lexer.EndsAsFloat` — a hexadecimal number that ends with the suffix of a float.

## Main results

* `Lexer.parseDigits_eq` — the loop over the digits computes their value, or stops when it is too
  large.
* `Lexer.parseIntegerLiteral_iff` — when a spelling is read as what it stands for.
* `Lexer.integer_token_read_iff` — when a token of the lexer is.
-/

set_option autoImplicit false

namespace Chtholly

namespace Lexer

open Scanning (advance slice)

/-! ## Reading a spelling -/

inductive NumericSuffix
  | none | i8 | i16 | i32 | i64 | iSize | u8 | u16 | u32 | u64 | uSize | f32 | f64
  deriving DecidableEq

def suffixes : List (String × NumericSuffix) :=
  [("isize", .iSize), ("usize", .uSize), ("i16", .i16), ("i32", .i32), ("i64", .i64),
    ("u16", .u16), ("u32", .u32), ("u64", .u64), ("f32", .f32), ("f64", .f64), ("i8", .i8),
    ("u8", .u8)]

/-- The suffix that a text ends with, and its size. -/
def numericSuffix (text : List Char) : NumericSuffix × ℕ :=
  match suffixes.find? fun entry => entry.1.toList.isSuffixOf text with
  | some entry => (entry.2, entry.1.toList.length)
  | none => (.none, 0)

structure ParsedIntegerLiteral where
  value : ℕ
  suffix : NumericSuffix
  deriving DecidableEq

def digitOf (value : Char) : Option ℕ :=
  if '0' ≤ value ∧ value ≤ '9' then some (value.toNat - '0'.toNat)
  else if 'a' ≤ value ∧ value ≤ 'f' then some (value.toNat - 'a'.toNat + 10)
  else if 'A' ≤ value ∧ value ≤ 'F' then some (value.toNat - 'A'.toNat + 10)
  else none

/-- The base that the first two characters tell, and the digits after them. -/
def literalBase (digits : List Char) : ℕ × List Char :=
  match digits with
  | '0' :: mark :: rest =>
    if mark = 'b' ∨ mark = 'B' then (2, rest)
    else if mark = 'o' ∨ mark = 'O' then (8, rest)
    else if mark = 'x' ∨ mark = 'X' then (16, rest)
    else (10, digits)
  | _ => (10, digits)

/-- The loop over the digits, with a `std::uint64_t` for the result. -/
def parseDigits (base : ℕ) : List Char → (result : ℕ) → (sawDigit : Bool) → Option (ℕ × Bool)
  | [], result, sawDigit => some (result, sawDigit)
  | value :: rest, result, sawDigit =>
    if value = '_' then parseDigits base rest result sawDigit
    else
      match digitOf value with
      | none => none
      | some digit =>
        if base ≤ digit ∨ (2 ^ 64 - 1 - digit) / base < result then none
        else parseDigits base rest (result * base + digit) true

def parseIntegerLiteral (source : List Char) : Option ParsedIntegerLiteral :=
  let (suffix, size) := numericSuffix source
  let (base, digits) := literalBase (source.take (source.length - size))
  match parseDigits base digits 0 false with
  | none => none
  | some (result, sawDigit) =>
    if sawDigit = false ∨ suffix = .f32 ∨ suffix = .f64 then none
    else some { value := result, suffix := suffix }

/-! ## What a spelling stands for -/

/-- The marks of a base. -/
def baseMarks : ℕ → List (List Char)
  | 2 => [['0', 'b'], ['0', 'B']]
  | 8 => [['0', 'o'], ['0', 'O']]
  | 16 => [['0', 'x'], ['0', 'X']]
  | 10 => [[]]
  | _ => []

/-- The text of a suffix, for those that an integer may have. -/
def suffixTexts : NumericSuffix → List (List Char)
  | .none => [[]]
  | suffix =>
    (suffixes.filter fun entry => entry.2 = suffix ∧ entry.1 ∈ integerSuffixes).map
      fun entry => entry.1.toList

/-- A text is a mark of the base, digits of the base with separators, and a suffix. -/
structure IntegerSpelling (text : List Char) (base : ℕ) (digits : List Char)
    (suffix : NumericSuffix) : Prop where
  parts : ∃ mark ∈ baseMarks base, ∃ ending ∈ suffixTexts suffix, text = mark ++ digits ++ ending
  allDigits : ∀ value ∈ digits, digitForBase value base = true ∨ value = '_'
  someDigit : ∃ value ∈ digits, value ≠ '_'

variable {digits : List Char}

/-- The test that fixed digits pass. -/
lemma allDigits_of_all {base : ℕ}
    (h : (digits.all fun value => digitForBase value base || value == '_') = true) :
    ∀ value ∈ digits, digitForBase value base = true ∨ value = '_' :=
  fun value hvalue => by simpa using List.all_eq_true.1 h value hvalue

/-- The digits without the separators, as numbers. -/
def digitValues (digits : List Char) : List ℕ :=
  (digits.filter fun value => value ≠ '_').filterMap digitOf

/-- The number that the digits stand for, the last one of them being the lowest. -/
def digitsValue (base : ℕ) (digits : List Char) : ℕ := Nat.ofDigits base (digitValues digits).reverse

/-- A number without a suffix, small enough, that ends with the suffix of a float. -/
def EndsAsFloat (base : ℕ) (digits : List Char) (suffix : NumericSuffix) : Prop :=
  base = 16 ∧ suffix = .none ∧ digitsValue base digits < 2 ^ 64 ∧
    ("f32".toList <:+ digits ∨ "f64".toList <:+ digits)

/-- The value with its suffix, when it fits. -/
def literalOf (base : ℕ) (digits : List Char) (suffix : NumericSuffix) :
    Option ParsedIntegerLiteral :=
  if digitsValue base digits < 2 ^ 64 then
    some { value := digitsValue base digits, suffix := suffix }
  else none

/-! ## Digits -/

lemma toNat_le_of_le {a b : Char} (h : a ≤ b) : a.toNat ≤ b.toNat := UInt32.le_iff_toNat_le.mp h

/-- A digit of one of the bases has a value below it. -/
lemma digitOf_of_digitForBase {value : Char} {base : ℕ} (h : digitForBase value base = true) :
    ∃ digit, digitOf value = some digit ∧ digit < base := by
  unfold digitForBase isAsciiDigit at h
  unfold digitOf
  simp only [Bool.and_eq_true, decide_eq_true_eq] at h
  split_ifs at h ⊢ with hdecimal hlower hupper
  · exact ⟨_, rfl, by simpa using h⟩
  · have hle := toNat_le_of_le hlower.2
    have hsixteen : base = 16 := by simpa using h
    simp only [Char.reduceToNat] at hle ⊢
    exact ⟨_, rfl, by omega⟩
  · have hle := toNat_le_of_le hupper.2
    have hsixteen : base = 16 := by simpa using h
    simp only [Char.reduceToNat] at hle ⊢
    exact ⟨_, rfl, by omega⟩

lemma digitValues_separator {rest : List Char} : digitValues ('_' :: rest) = digitValues rest := by
  simp [digitValues]

lemma digitValues_digit {value : Char} {rest : List Char} {digit : ℕ} (hvalue : value ≠ '_')
    (h : digitOf value = some digit) : digitValues (value :: rest) = digit :: digitValues rest := by
  simp [digitValues, hvalue, h]

/-- The loop ends with the value of all the digits, unless it does not fit. -/
theorem parseDigits_eq {base : ℕ} (hbase : 0 < base) (hsmall : base ≤ 16) {digits : List Char}
    {result : ℕ} {sawDigit : Bool} (hresult : result < 2 ^ 64)
    (hdigits : ∀ value ∈ digits, value = '_' ∨ ∃ digit, digitOf value = some digit ∧ digit < base) :
    parseDigits base digits result sawDigit =
      if Nat.ofDigits base (digitValues digits).reverse +
          base ^ (digitValues digits).length * result < 2 ^ 64 then
        some (Nat.ofDigits base (digitValues digits).reverse +
          base ^ (digitValues digits).length * result,
          sawDigit || digits.any fun value => value ≠ '_')
      else none := by
  induction digits generalizing result sawDigit with
  | nil =>
    rw [if_pos (by simpa [digitValues] using hresult)]
    simp [parseDigits, digitValues]
  | cons value rest ih =>
    have hrest : ∀ value ∈ rest, value = '_' ∨ ∃ digit, digitOf value = some digit ∧ digit < base :=
      fun value hmem => hdigits value (List.mem_cons_of_mem _ hmem)
    by_cases hvalue : value = '_'
    · subst hvalue
      rw [parseDigits, if_pos rfl, ih hresult hrest, digitValues_separator]
      simp
    obtain ⟨digit, hdigit, hlt⟩ := (hdigits value (by simp)).resolve_left hvalue
    rw [digitValues_digit hvalue hdigit, List.reverse_cons, Nat.ofDigits_append,
      Nat.ofDigits_singleton, List.length_reverse, List.length_cons]
    have htotal : Nat.ofDigits base (digitValues rest).reverse +
          base ^ (digitValues rest).length * digit +
          base ^ ((digitValues rest).length + 1) * result =
        Nat.ofDigits base (digitValues rest).reverse +
          base ^ (digitValues rest).length * (result * base + digit) := by
      rw [pow_succ]
      ring
    rw [htotal, parseDigits, if_neg hvalue]
    simp only [hdigit]
    by_cases hfits : result * base + digit < 2 ^ 64
    · have hguard : ¬(base ≤ digit ∨ (2 ^ 64 - 1 - digit) / base < result) := by
        rw [not_or, not_lt, Nat.le_div_iff_mul_le hbase]
        omega
      rw [if_neg hguard, ih hfits hrest]
      simp [hvalue]
    · -- what does not fit here does not fit at the end
      have hguard : base ≤ digit ∨ (2 ^ 64 - 1 - digit) / base < result := by
        rw [Nat.div_lt_iff_lt_mul hbase]
        omega
      have hpos : 0 < base ^ (digitValues rest).length := Nat.pow_pos hbase
      have hle : result * base + digit ≤
          base ^ (digitValues rest).length * (result * base + digit) := Nat.le_mul_of_pos_left _ hpos
      rw [if_pos hguard, if_neg (by omega)]

/-! ## Suffixes -/

/-- No suffix ends with another one. -/
lemma suffixes_apart : ∀ entry ∈ suffixes, ∀ other ∈ suffixes,
    entry.1.toList <:+ other.1.toList → entry = other := by
  decide

variable {text : List Char}

/-- What a text ends with is its suffix. -/
lemma numericSuffix_of_suffix {entry : String × NumericSuffix} (hmem : entry ∈ suffixes)
    (h : entry.1.toList <:+ text) : numericSuffix text = (entry.2, entry.1.toList.length) := by
  unfold numericSuffix
  split
  · rename_i other hfind
    have hother : other.1.toList <:+ text := by
      simpa using List.find?_some hfind
    have hmem' := List.mem_of_find?_eq_some hfind
    have hsame : entry = other := by
      obtain hends | hends := List.suffix_or_suffix_of_suffix h hother
      · exact suffixes_apart entry hmem other hmem' hends
      · exact (suffixes_apart other hmem' entry hmem hends).symm
    rw [hsame]
  · rename_i hfind
    have hnone := List.find?_eq_none.mp hfind entry hmem
    simp only [List.isSuffixOf_iff_suffix] at hnone
    exact absurd h hnone

lemma numericSuffix_none (h : ∀ entry ∈ suffixes, ¬ entry.1.toList <:+ text) :
    numericSuffix text = (.none, 0) := by
  unfold numericSuffix
  split
  · rename_i entry hfind
    have hends : entry.1.toList <:+ text := by
      simpa using List.find?_some hfind
    exact absurd hends (h entry (List.mem_of_find?_eq_some hfind))
  · rfl

/-- The suffix of an integer is none, or one of the table, and not that of a float. -/
lemma mem_suffixTexts {suffix : NumericSuffix} {ending : List Char}
    (h : ending ∈ suffixTexts suffix) :
    (suffix = .none ∧ ending = []) ∨
      ((∃ entry ∈ suffixes, entry.2 = suffix ∧ entry.1.toList = ending) ∧ suffix ≠ .none ∧
        suffix ≠ .f32 ∧ suffix ≠ .f64) := by
  have hentries : ∀ entry ∈ suffixes, entry.1 ∈ integerSuffixes →
      entry.2 ≠ .f32 ∧ entry.2 ≠ .f64 := by decide
  unfold suffixTexts at h
  split at h
  · exact Or.inl ⟨rfl, by simpa using h⟩
  · rename_i suffix hnone
    right
    simp only [List.mem_map, List.mem_filter, decide_eq_true_eq] at h
    obtain ⟨entry, ⟨hmem, rfl, hinteger⟩, hending⟩ := h
    exact ⟨⟨entry, hmem, rfl, hending⟩, hnone, hentries entry hmem hinteger⟩

/-! ## Spellings -/

/-- The bases and their marks. -/
lemma baseMarks_cases {base : ℕ} {mark : List Char} (h : mark ∈ baseMarks base) :
    (base = 10 ∧ mark = []) ∨ (base = 2 ∧ (mark = ['0', 'b'] ∨ mark = ['0', 'B'])) ∨
      (base = 8 ∧ (mark = ['0', 'o'] ∨ mark = ['0', 'O'])) ∨
      (base = 16 ∧ (mark = ['0', 'x'] ∨ mark = ['0', 'X'])) := by
  unfold baseMarks at h
  split at h
  all_goals simp_all

/-- A mark tells its base, and without a mark the base is ten. -/
lemma literalBase_mark {base : ℕ} {mark digits : List Char} (hmark : mark ∈ baseMarks base)
    (hdigits : ∀ value ∈ digits, digitForBase value base = true ∨ value = '_') :
    literalBase (mark ++ digits) = (base, digits) := by
  obtain ⟨rfl, rfl⟩ | ⟨rfl, rfl | rfl⟩ | ⟨rfl, rfl | rfl⟩ | ⟨rfl, rfl | rfl⟩ :=
    baseMarks_cases hmark
  · have hletters : ∀ letter ∈ ['b', 'B', 'o', 'O', 'x', 'X'],
        ¬(digitForBase letter 10 = true ∨ letter = '_') := by
      have htest : (['b', 'B', 'o', 'O', 'x', 'X'].all fun letter =>
          !(digitForBase letter 10 || letter == '_')) = true := by decide
      exact fun letter hletter => by simpa using List.all_eq_true.1 htest letter hletter
    rw [List.nil_append]
    unfold literalBase
    split
    · rename_i value rest
      have hnot : value ∉ ['b', 'B', 'o', 'O', 'x', 'X'] := fun hmem =>
        hletters value hmem (hdigits value (by simp))
      simp only [List.mem_cons, List.not_mem_nil, or_false, not_or] at hnot
      simp [hnot]
    · rfl
  all_goals rfl

/-- A spelling that the suffix has been found of is read as what it stands for. -/
lemma parseIntegerLiteral_of_suffix {mark digits ending : List Char} {base : ℕ}
    {suffix : NumericSuffix} (hmark : mark ∈ baseMarks base)
    (hdigits : ∀ value ∈ digits, digitForBase value base = true ∨ value = '_')
    (hsome : ∃ value ∈ digits, value ≠ '_') (hfloat : suffix ≠ .f32 ∧ suffix ≠ .f64)
    (hsuffix : numericSuffix (mark ++ digits ++ ending) = (suffix, ending.length)) :
    parseIntegerLiteral (mark ++ digits ++ ending) = literalOf base digits suffix := by
  have hbase : 0 < base ∧ base ≤ 16 := by
    have hcases := baseMarks_cases hmark
    omega
  have htake : (mark ++ digits ++ ending).take
      ((mark ++ digits ++ ending).length - ending.length) = mark ++ digits := by
    rw [List.length_append, Nat.add_sub_cancel, List.take_left]
  have hvalues : ∀ value ∈ digits,
      value = '_' ∨ ∃ digit, digitOf value = some digit ∧ digit < base := by
    intro value hmem
    obtain hdigit | hseparator := hdigits value hmem
    · exact Or.inr (digitOf_of_digitForBase hdigit)
    · exact Or.inl hseparator
  have hany : (digits.any fun value => value ≠ '_') = true := by
    simpa using hsome
  have hparse := @parseDigits_eq base hbase.1 hbase.2 digits 0 false (Nat.two_pow_pos 64) hvalues
  rw [Nat.mul_zero, Nat.add_zero, hany] at hparse
  unfold parseIntegerLiteral literalOf digitsValue
  rw [hsuffix]
  simp only [htake, literalBase_mark hmark hdigits, hparse]
  split_ifs with hfits
  · simp [hfloat]
  · rfl

/-- Without a suffix, only a hexadecimal number ends with one. -/
lemma endsAsFloat_of_suffix {mark : List Char} {base : ℕ} (hmark : mark ∈ baseMarks base)
    (hdigits : ∀ value ∈ digits, digitForBase value base = true ∨ value = '_')
    {entry : String × NumericSuffix} (hmem : entry ∈ suffixes)
    (h : entry.1.toList <:+ mark ++ digits) :
    base = 16 ∧ (entry.2 = .f32 ∨ entry.2 = .f64) ∧
      ("f32".toList <:+ digits ∨ "f64".toList <:+ digits) := by
  have hkinds : ∀ entry ∈ suffixes, 'i' ∈ entry.1.toList ∨ 'u' ∈ entry.1.toList ∨
      (entry.2 = .f32 ∧ entry.1 = "f32") ∨ (entry.2 = .f64 ∧ entry.1 = "f64") := by decide
  have hletters : 'i' ∉ mark ∧ 'u' ∉ mark ∧ 'f' ∉ mark := by
    obtain ⟨-, rfl⟩ | ⟨-, rfl | rfl⟩ | ⟨-, rfl | rfl⟩ | ⟨-, rfl | rfl⟩ := baseMarks_cases hmark
    all_goals decide
  have hforeign : ∀ letter ∈ entry.1.toList, letter ∉ mark → letter ≠ '_' →
      digitForBase letter base = true := by
    intro letter hletter hnot hseparator
    obtain hin | hin := List.mem_append.mp (h.subset hletter)
    · exact absurd hin hnot
    · exact (hdigits letter hin).resolve_right hseparator
  obtain hinteger | hinteger | hfloat := hkinds entry hmem
  · have hdigit := hforeign 'i' hinteger hletters.1 (by decide)
    simp [digitForBase, isAsciiDigit] at hdigit
  · have hdigit := hforeign 'u' hinteger hletters.2.1 (by decide)
    simp [digitForBase, isAsciiDigit] at hdigit
  obtain ⟨rest, hrest⟩ : ∃ rest, entry.1.toList = 'f' :: rest := by
    obtain ⟨-, hname⟩ | ⟨-, hname⟩ := hfloat <;> exact ⟨_, by rw [hname]; rfl⟩
  have hbase : base = 16 := by
    have hdigit := hforeign 'f' (by simp [hrest]) hletters.2.2 (by decide)
    simpa [digitForBase, isAsciiDigit] using hdigit
  -- the ending cannot reach into the mark, since there is no `f` in it
  have hlast : entry.1.toList <:+ digits := by
    obtain ⟨before, happend⟩ := h
    obtain ⟨inside, hinside, hdigits'⟩ | ⟨inside, -, hdigits'⟩ :=
      List.append_eq_append_iff.mp happend
    · cases inside with
      | nil => exact hdigits' ▸ List.suffix_refl _
      | cons first inside =>
        rw [hrest] at hdigits'
        obtain ⟨rfl, -⟩ := List.cons.inj hdigits'
        exact absurd (by simp [hinside]) hletters.2.2
    · exact hdigits' ▸ List.suffix_append _ _
  refine ⟨hbase, hfloat.imp And.left And.left, ?_⟩
  obtain ⟨-, hname⟩ | ⟨-, hname⟩ := hfloat
  · exact Or.inl (hname ▸ hlast)
  · exact Or.inr (hname ▸ hlast)

/-- A spelling is read as what it stands for, unless its digits end like a float. -/
theorem parseIntegerLiteral_iff {base : ℕ} {suffix : NumericSuffix}
    (h : IntegerSpelling text base digits suffix) :
    parseIntegerLiteral text = literalOf base digits suffix ↔ ¬ EndsAsFloat base digits suffix := by
  obtain ⟨⟨mark, hmark, ending, hending, rfl⟩, hdigits, hsome⟩ := h
  obtain ⟨rfl, rfl⟩ | ⟨⟨entry, hmem, rfl, rfl⟩, hnone, hfloat⟩ := mem_suffixTexts hending
  · by_cases hends : ∃ entry ∈ suffixes, entry.1.toList <:+ mark ++ digits
    · obtain ⟨entry, hmem, hentry⟩ := hends
      obtain ⟨rfl, hfloat, hlast⟩ := endsAsFloat_of_suffix hmark hdigits hmem hentry
      have hread : parseIntegerLiteral (mark ++ digits ++ []) = none := by
        unfold parseIntegerLiteral
        rw [List.append_nil, numericSuffix_of_suffix hmem hentry]
        simp only
        split
        · rfl
        · rw [if_pos (Or.inr hfloat)]
      rw [hread]
      constructor
      · rintro hnone ⟨-, -, hfits, -⟩
        rw [literalOf, if_pos hfits] at hnone
        simp at hnone
      · intro hnot
        rw [literalOf, if_neg fun hfits => hnot ⟨rfl, rfl, hfits, hlast⟩]
    · have hends : ∀ entry ∈ suffixes, ¬ entry.1.toList <:+ mark ++ digits :=
        fun entry hmem hentry => hends ⟨entry, hmem, hentry⟩
      have hsuffix := numericSuffix_none hends
      rw [← List.append_nil (mark ++ digits)] at hsuffix
      have hread := parseIntegerLiteral_of_suffix hmark hdigits hsome (by decide) hsuffix
      simp only [hread, true_iff]
      rintro ⟨rfl, -, -, hlast | hlast⟩
      · exact hends ("f32", .f32) (by decide) (hlast.trans (List.suffix_append _ _))
      · exact hends ("f64", .f64) (by decide) (hlast.trans (List.suffix_append _ _))
  · have hsuffix := numericSuffix_of_suffix hmem
      (List.suffix_append (mark ++ digits) entry.1.toList)
    have hread := parseIntegerLiteral_of_suffix hmark hdigits hsome hfloat hsuffix
    simp only [hread, true_iff]
    rintro ⟨-, hsuffix, -⟩
    exact hnone hsuffix

/-! ## Where a token comes from -/

section

variable {source : Source}

lemma exists_add (state : State) {kind : TokenKind} {start length : ℕ} {intern hasError : Bool} :
    ∃ token, (state.add source kind start length intern hasError).tokens =
        state.tokens ++ [token] ∧ token.kind = kind ∧ token.offset = start % 2 ^ 32 ∧
      (token.hasError = false →
        hasError = false ∧ token.length = length ∧
          (intern = false → token.value = none)) := by
  unfold State.add
  split
  · exact ⟨_, rfl, rfl, rfl, by simp⟩
  · exact ⟨_, rfl, rfl, rfl, fun herror => ⟨herror, rfl, fun hintern => by simp [hintern]⟩⟩

/-- The kind of the token that is added. -/
lemma kind_of_add {state : State} {kind : TokenKind} {start length : ℕ} {intern hasError : Bool}
    {tokens : List Token} {token : Token}
    (h : (state.add source kind start length intern hasError).tokens = tokens ++ [token]) :
    token.kind = kind := by
  obtain ⟨added, hadd, hkind, -⟩ := @exists_add source state kind start length intern hasError
  rw [hadd] at h
  obtain ⟨-, hsame⟩ := List.append_inj' h rfl
  obtain rfl := List.singleton_inj.mp hsame
  exact hkind

variable {start : ℕ}

lemma kind_of_lexDelimited {state : State} {delimiter : Char} {kind : TokenKind}
    {tokens : List Token} {token : Token}
    (h : (lexDelimited source state start delimiter kind).tokens = tokens ++ [token]) :
    token.kind = .invalid ∨ token.kind = kind := by
  unfold lexDelimited addUnterminated at h
  split at h
  · exact Or.inl (kind_of_add h)
  · split at h
    · exact Or.inl (kind_of_add h)
    · simp only at h
      split at h
      · exact Or.inr (kind_of_add h)
      · exact Or.inr (kind_of_add h)

lemma keywordKind_ne_integerLiteral (text : Source) : keywordKind text ≠ .integerLiteral := by
  unfold keywordKind
  split
  · rename_i entry hfind
    have hall : ∀ entry ∈ keywords, entry.1 ≠ .integerLiteral := by decide
    exact hall entry (List.mem_of_find?_eq_some hfind)
  · simp

variable {offset : ℕ}

lemma lexOperator_ne_integerLiteral {value : Char} :
    (lexOperator source value offset).1 ≠ .integerLiteral := by
  unfold lexOperator matchOr
  split
  all_goals repeat' split
  all_goals simp

/-- An integer comes from a digit. -/
lemma lexToken_integerLiteral {state : State} {tokens : List Token} {token : Token}
    (h : (lexToken source state).tokens = tokens ++ [token]) (hkind : token.kind = .integerLiteral) :
    isAsciiDigit (peek source state.offset) = true ∧
      lexToken source state = lexNumber source
        { state with offset := advance source state.offset } state.offset
        (peek source state.offset) := by
  unfold lexToken at h ⊢
  simp only at h ⊢
  have hdelimited : ∀ {next : State} {start : ℕ} {delimiter : Char} {kind : TokenKind},
      kind ≠ .integerLiteral →
      (lexDelimited source next start delimiter kind).tokens = tokens ++ [token] → False := by
    intro next start delimiter kind hne hadd
    obtain hkind' | hkind' := kind_of_lexDelimited hadd
    · simp [hkind] at hkind'
    · exact hne (hkind' ▸ hkind)
  split_ifs at h ⊢ with hc hword hdigit
  · exact (hdelimited (by decide) h).elim
  · exact absurd ((kind_of_add h).symm.trans hkind) (keywordKind_ne_integerLiteral _)
  · exact ⟨hdigit, rfl⟩
  · exact (hdelimited (by decide) h).elim
  · exact (hdelimited (by decide) h).elim
  · exact absurd ((kind_of_add h).symm.trans hkind) (by decide)
  · exact absurd ((kind_of_add h).symm.trans hkind) (by decide)
  · exact absurd ((kind_of_add h).symm.trans hkind) lexOperator_ne_integerLiteral
  · exact absurd ((kind_of_add h).symm.trans hkind) lexOperator_ne_integerLiteral

/-! ## The spelling of a number -/

lemma mem_asText_slice {stop : ℕ} (hstop : stop ≤ source.length) {value : Char} :
    value ∈ asText (slice source start stop) ↔
      ∃ i, start ≤ i ∧ i < stop ∧ peek source i = value := by
  have hpeek : ∀ (i : ℕ) (hi : i < source.length), peek source i = Char.ofUInt8 source[i] := by
    intro i hi
    show Char.ofUInt8 (source.getD i 0) = _
    rw [List.getD_eq_getElem _ _ hi]
  rw [asText, List.mem_map]
  constructor
  · rintro ⟨byte, hmem, rfl⟩
    obtain ⟨j, hj, rfl⟩ := List.mem_iff_getElem.mp hmem
    have hj' := hj
    rw [Scanning.length_slice hstop] at hj'
    refine ⟨start + j, by omega, by omega, ?_⟩
    rw [hpeek _ (by omega)]
    simp [slice]
  · rintro ⟨i, hstart, hlt, rfl⟩
    refine ⟨source[i], ?_, (hpeek i (by omega)).symm⟩
    have hj : i - start < (slice source start stop).length := by
      rw [Scanning.length_slice hstop]
      omega
    have hget : (slice source start stop)[i - start] = source[i] := by
      simp [slice, Nat.add_sub_cancel' hstart]
    exact hget ▸ List.getElem_mem hj

/-- What is a digit of a base, or a separator. -/
def IsDigit (source : Source) (base i : ℕ) : Prop :=
  digitForBase (peek source i) base = true ∨ peek source i = '_'

variable {base : ℕ}

/-- A position with a digit, and those from the next one on. -/
lemma isDigit_of_next {stop : ℕ}
    (hdigit : (digitForBase (peek source offset) base || peek source offset == '_') = true)
    (hrest : ∀ i, offset + 1 ≤ i → i < stop → IsDigit source base i) :
    ∀ i, offset ≤ i → i < stop → IsDigit source base i := by
  intro i hle hlt
  obtain rfl | hne := eq_or_ne i offset
  · simpa [IsDigit] using hdigit
  · exact hrest i (by omega) hlt

lemma lt_of_digit
    (hdigit : (digitForBase (peek source offset) base || peek source offset == '_') = true) :
    offset < source.length :=
  @lt_of_peek source (fun value => digitForBase value base || value == '_') rfl offset hdigit

/-- Digits that are well formed are digits of the base, and not separators only. -/
lemma lexDigitSequence_digits {sawDigit previousSeparator : Bool}
    (hvalid : (lexDigitSequence source base offset sawDigit previousSeparator).1 = true) :
    (∀ i, offset ≤ i → i < (lexDigitSequence source base offset sawDigit previousSeparator).2 →
      IsDigit source base i) ∧
    (sawDigit = true ∨ ∃ i, offset ≤ i ∧
      i < (lexDigitSequence source base offset sawDigit previousSeparator).2 ∧
      peek source i ≠ '_') := by
  fun_induction lexDigitSequence source base offset sawDigit previousSeparator with
  | case1 offset sawDigit previousSeparator hdigit hmark hbad => simp at hvalid
  | case2 offset sawDigit previousSeparator hdigit hmark hgood ih =>
    rw [Scanning.advance_of_lt (lt_of_digit hdigit)] at ih hvalid ⊢
    obtain ⟨hall, hsome⟩ := ih hvalid
    refine ⟨isDigit_of_next hdigit hall, hsome.imp_right ?_⟩
    rintro ⟨i, hle, hlt, hne⟩
    exact ⟨i, by omega, hlt, hne⟩
  | case3 offset sawDigit previousSeparator hdigit hmark ih =>
    rw [Scanning.advance_of_lt (lt_of_digit hdigit)] at ih hvalid ⊢
    obtain ⟨hall, -⟩ := ih hvalid
    have hle : offset + 1 ≤ (lexDigitSequence source base (offset + 1) true false).2 :=
      (lexDigitSequence_within (lt_of_digit hdigit)).1
    exact ⟨isDigit_of_next hdigit hall, Or.inr ⟨offset, le_rfl, hle, hmark⟩⟩
  | case4 offset sawDigit previousSeparator hdigit =>
    simp only [Bool.and_eq_true] at hvalid
    refine ⟨fun i hle hlt => ?_, Or.inl hvalid.1⟩
    simp only at hlt
    omega

lemma digitForBase_ten {value : Char} (h : isAsciiDigit value = true) :
    digitForBase value 10 = true := by
  unfold digitForBase
  rw [if_pos h]
  simp only [isAsciiDigit, Bool.and_eq_true, decide_eq_true_eq] at h
  have hle := toNat_le_of_le h.2
  simp only [Char.reduceToNat] at hle
  simpa using by omega

lemma lexDecimalDigits_digits {valid previousSeparator : Bool} :
    ∀ i, offset ≤ i → i < (lexDecimalDigits source offset valid previousSeparator).2 →
      IsDigit source 10 i := by
  fun_induction lexDecimalDigits source offset valid previousSeparator with
  | case1 offset valid previousSeparator hdigit hmark ih =>
    have hdigit' : (digitForBase (peek source offset) 10 || peek source offset == '_') = true := by
      simp [hmark]
    rw [Scanning.advance_of_lt (lt_of_digit hdigit')] at ih ⊢
    exact isDigit_of_next hdigit' ih
  | case2 offset valid previousSeparator hdigit hmark ih =>
    have hdigit' : (digitForBase (peek source offset) 10 || peek source offset == '_') = true := by
      have hvalue : isAsciiDigit (peek source offset) = true := by simpa [hmark] using hdigit
      simp [digitForBase_ten hvalue]
    rw [Scanning.advance_of_lt (lt_of_digit hdigit')] at ih ⊢
    exact isDigit_of_next hdigit' ih
  | case3 offset valid previousSeparator hdigit =>
    intro i hle hlt
    simp only at hlt
    omega

lemma scanFraction_eq {scan : NumberScan}
    (h : (scanFraction source scan).kind = .integerLiteral) : scanFraction source scan = scan := by
  unfold scanFraction at h ⊢
  split_ifs at h ⊢
  rfl

lemma scanExponent_eq {scan : NumberScan}
    (h : (scanExponent source scan).kind = .integerLiteral) : scanExponent source scan = scan := by
  unfold scanExponent at h ⊢
  split_ifs at h ⊢
  rfl

lemma checkSuffix_integer {scan : NumberScan} {suffix : List Char}
    (hkind : (checkSuffix scan suffix).kind = .integerLiteral)
    (hvalid : (checkSuffix scan suffix).valid = true) :
    scan.kind = .integerLiteral ∧ scan.valid = true ∧ ∃ s, suffix ∈ suffixTexts s := by
  have htexts : ∀ text ∈ integerSuffixes, ∃ entry ∈ suffixes, entry.1 = text ∧
      text.toList ∈ suffixTexts entry.2 := by decide
  unfold checkSuffix at hkind hvalid
  split_ifs at hkind hvalid with hnone
  · exact ⟨hkind, hvalid, .none, by simp [suffixTexts, hnone]⟩
  by_cases hfloat : suffix ∈ floatSuffixes.map String.toList
  · simp only [decide_eq_true hfloat, if_true] at hkind
    simp at hkind
  simp only [decide_eq_false hfloat, Bool.false_eq_true, if_false] at hkind hvalid
  simp only [hkind, beq_self_eq_true, Bool.true_and, Bool.and_false, Bool.or_false,
    Bool.and_eq_true, decide_eq_true_eq] at hvalid
  obtain ⟨hvalid, hinteger⟩ := hvalid
  obtain ⟨text, htext, rfl⟩ := List.mem_map.mp hinteger
  obtain ⟨entry, -, -, hmem⟩ := htexts text htext
  exact ⟨hkind, hvalid, entry.2, hmem⟩

lemma asText_slice_two (h : start + 1 < source.length) :
    asText (slice source start (start + 2)) = [peek source start, peek source (start + 1)] := by
  have hpeek : ∀ (i : ℕ) (hi : i < source.length), peek source i = Char.ofUInt8 source[i] := by
    intro i hi
    show Char.ofUInt8 (source.getD i 0) = _
    rw [List.getD_eq_getElem _ _ hi]
  rw [slice, List.drop_eq_getElem_cons (by omega), List.drop_eq_getElem_cons h,
    Nat.add_sub_cancel_left, hpeek _ (by omega), hpeek _ h]
  rfl

/-- The parts of a number that is an integer: the mark of its base, and its digits. -/
def NumberParts (source : Source) (start base stop : ℕ) : Prop :=
  ∃ middle, start ≤ middle ∧ middle ≤ stop ∧
    asText (slice source start middle) ∈ baseMarks base ∧
    (∀ i, middle ≤ i → i < stop → IsDigit source base i) ∧
    ∃ i, middle ≤ i ∧ i < stop ∧ peek source i ≠ '_'

/-- Digits after a mark. -/
lemma numberParts_mark (hfirst : peek source start = '0') (hsecond : start + 1 < source.length)
    (hmark : ['0', peek source (start + 1)] ∈ baseMarks base)
    (hvalid : (lexDigitSequence source base (advance source (start + 1))).1 = true) :
  NumberParts source start base (lexDigitSequence source base (advance source (start + 1))).2 := by
  rw [Scanning.advance_of_lt hsecond] at hvalid ⊢
  obtain ⟨hall, hsome⟩ := lexDigitSequence_digits hvalid
  refine ⟨start + 2, by omega, (lexDigitSequence_within hsecond).1, ?_, hall, ?_⟩
  · rw [asText_slice_two hsecond, hfirst]
    exact hmark
  · exact hsome.resolve_left (by simp)

/-- Digits without a mark. -/
lemma numberParts_decimal (h : start < source.length)
    (hfirst : isAsciiDigit (peek source start) = true) {valid : Bool} :
    NumberParts source start 10 (lexDecimalDigits source (start + 1) valid).2 := by
  have hlt : start < (lexDecimalDigits source (start + 1) valid).2 :=
    (@lexDecimalDigits_within source (start + 1) valid false h).1
  have hdigit : digitForBase (peek source start) 10 = true := digitForBase_ten hfirst
  refine ⟨start, le_rfl, hlt.le, ?_, ?_, start, le_rfl, hlt, ?_⟩
  · simp [asText, baseMarks]
  · exact isDigit_of_next (by simp [hdigit]) lexDecimalDigits_digits
  · rintro heq
    rw [heq] at hfirst
    simp [isAsciiDigit] at hfirst

lemma scanNumber_integer {start : ℕ} (h : start < source.length)
    (hfirst : isAsciiDigit (peek source start) = true) {postfixMemberIndex : Bool} {scan : NumberScan}
    (hscan : scanNumber source (start + 1) (peek source start) postfixMemberIndex = scan)
    (hkind : scan.kind = .integerLiteral) (hvalid : scan.valid = true) :
    NumberParts source start scan.base scan.offset := by
  subst hscan
  unfold scanNumber at hkind hvalid ⊢
  set mark := peek source (start + 1)
  by_cases hmark : peek source start = '0' ∧ mark ∈ ['b', 'B', 'o', 'O', 'x', 'X']
  · rw [if_pos hmark] at hkind hvalid ⊢
    obtain ⟨hzero, hmark⟩ := hmark
    have hsecond : start + 1 < source.length := by
      have hnull : '\x00' ∉ ['b', 'B', 'o', 'O', 'x', 'X'] := by decide
      exact @lt_of_peek_eq source mark (fun heq => hnull (heq ▸ hmark)) _ rfl
    refine numberParts_mark hzero hsecond ?_ hvalid
    show ['0', mark] ∈ baseMarks
      (if mark = 'b' ∨ mark = 'B' then 2 else if mark = 'o' ∨ mark = 'O' then 8 else 16)
    simp only [List.mem_cons, List.not_mem_nil, or_false] at hmark
    obtain heq | heq | heq | heq | heq | heq := hmark <;> rw [heq] <;> decide
  · rw [if_neg hmark] at hkind hvalid ⊢
    have hparts := @numberParts_decimal source start h hfirst true
    cases postfixMemberIndex with
    | true => exact hparts
    | false =>
      simp only [Bool.false_eq_true, if_false] at hkind ⊢
      have hexponent := scanExponent_eq hkind
      rw [hexponent] at hkind ⊢
      rw [scanFraction_eq hkind]
      exact hparts

/-- The mark, the digits and a suffix make the spelling of an integer. -/
lemma integerSpelling_of_parts {start base middle stop : ℕ} (hparts : NumberParts source start base middle)
    (hle : middle ≤ stop) (hstop : stop ≤ source.length) {suffix : NumericSuffix}
    (hsuffix : asText (slice source middle stop) ∈ suffixTexts suffix) :
    ∃ digits, IntegerSpelling (asText (slice source start stop)) base digits suffix := by
  obtain ⟨first, hstart, hfirst, hmark, hall, i, hi, hlt, hne⟩ := hparts
  refine ⟨asText (slice source first middle), ⟨_, hmark, _, hsuffix, ?_⟩, ?_, ?_⟩
  · simp only [asText]
    rw [← List.map_append, ← List.map_append, Scanning.slice_append_slice hstart hfirst,
      Scanning.slice_append_slice (hstart.trans hfirst) hle]
  · intro value hmem
    obtain ⟨i, hi, hlt, rfl⟩ := (mem_asText_slice (hle.trans hstop)).mp hmem
    exact hall i hi hlt
  · exact ⟨_, (mem_asText_slice (hle.trans hstop)).mpr ⟨i, hi, hlt, rfl⟩, hne⟩

/-- A token of an integer without an error is spelled as one. -/
lemma lexNumber_spelling (hsize : source.length < 2 ^ 32) {state : State}
    (h : state.offset < source.length)
    (hfirst : isAsciiDigit (peek source state.offset) = true) {tokens : List Token} {token : Token}
    (hadd : (lexNumber source { state with offset := advance source state.offset } state.offset
      (peek source state.offset)).tokens = tokens ++ [token])
    (hkind : token.kind = .integerLiteral) (herror : token.hasError = false) :
    ∃ base digits suffix, IntegerSpelling (asText (token.text source)) base digits suffix := by
  rw [Scanning.advance_of_lt h] at hadd
  unfold lexNumber at hadd
  extract_lets postfixMemberIndex scan suffixEnd scan' valid last last' at hadd
  obtain ⟨added, hadded, hkind', hoffset, hclean⟩ := @exists_add source last' scan'.kind
    state.offset (last'.offset - state.offset) false (!valid)
  obtain ⟨-, hsame⟩ := List.append_inj' (hadded.symm.trans hadd) rfl
  obtain rfl := List.singleton_inj.mp hsame
  obtain ⟨hvalid, hlength, hvalue⟩ := hclean herror
  have hlast : last'.offset = suffixEnd := by
    simp only [last']
    split <;> rfl
  have hscan' : scan'.kind = .integerLiteral ∧ scan'.valid = true := by
    simp only [valid, Bool.not_eq_false', Bool.and_eq_true] at hvalid
    exact ⟨hkind'.symm.trans hkind, hvalid.1⟩
  obtain ⟨hscan, hscanValid, suffix, hsuffix⟩ := checkSuffix_integer hscan'.1 hscan'.2
  have hnumber : Numbers source (state.offset + 1) scan := numbers_scanNumber h
  have hend : scan.offset ≤ suffixEnd ∧ suffixEnd ≤ source.length :=
    skipChars_within rfl hnumber.within
  have hparts := scanNumber_integer h hfirst rfl hscan hscanValid
  obtain ⟨digits, hspelling⟩ := integerSpelling_of_parts hparts hend.1 hend.2 hsuffix
  refine ⟨scan.base, digits, suffix, ?_⟩
  have htext : added.text source = slice source state.offset suffixEnd := by
    have hle := hnumber.le
    have hstart : added.offset = state.offset := by
      rw [hoffset]
      exact Nat.mod_eq_of_lt (by omega)
    rw [Token.text, hvalue rfl]
    simp only [Token.finish, hstart, hlength, hlast]
    congr 1
    omega
  rw [htext]
  exact hspelling

/-- A token of the loop was there before, or it has been read at some position. -/
lemma lexTokens_token {state : State} (h : state.offset ≤ source.length) {token : Token}
    (hmem : token ∈ (lexTokens source state).tokens) :
    token ∈ state.tokens ∨ ∃ state : State, state.offset < source.length ∧
      (lexToken source state).tokens = state.tokens ++ [token] := by
  fun_induction lexTokens source state with
  | case1 state hgo next hlt ih =>
    have hlexes := lexToken_lexes hlt
    obtain hmem | hread := ih hlexes.within hmem
    · obtain ⟨added, hadd, -⟩ := hlexes.token
      rw [hadd, List.mem_append, List.mem_singleton] at hmem
      obtain hmem | rfl := hmem
      · exact Or.inl ((skipTrivia_moves h).tokens ▸ hmem)
      · exact Or.inr ⟨next, hlt, hadd⟩
    · exact Or.inr hread
  | case2 state hgo next hend => exact Or.inl ((skipTrivia_moves h).tokens ▸ hmem)
  | case3 state hend => exact Or.inl hmem

/-- A token of a run is the end of the file, or it has been read at some position. -/
lemma lex_token {token : Token} (hmem : token ∈ (lex source).tokens)
    (hkind : token.kind ≠ .endOfFile) :
    source.length < 2 ^ 32 ∧ ∃ state : State, state.offset < source.length ∧
      (lexToken source state).tokens = state.tokens ++ [token] := by
  unfold lex at hmem
  split at hmem
  · rename_i hlarge
    obtain ⟨added, hadd, hend, -⟩ := @exists_add source (({} : State).emit .sourceTooLarge 0)
      .endOfFile 0 0 false false
    rw [hadd] at hmem
    obtain rfl : token = added := by simpa [State.emit] using hmem
    exact absurd hend hkind
  · rename_i hsize
    simp only at hmem
    obtain ⟨added, hadd, hend, -⟩ := @exists_add source
      (lexTokens source (validateUtf8 source {} 0)) .endOfFile
      (lexTokens source (validateUtf8 source {} 0)).offset 0 false false
    rw [hadd, List.mem_append, List.mem_singleton] at hmem
    obtain ⟨hmoves, -⟩ := @validateUtf8_moves source {} 0 (Nat.zero_le _)
    obtain hmem | rfl := hmem
    · refine ⟨by omega, (lexTokens_token hmoves.within hmem).resolve_left ?_⟩
      rw [hmoves.tokens]
      simp
    · exact absurd hend hkind

/-- A token that the lexer has taken for an integer, without an error, is spelled as one, and it is
read as the number and the suffix that it stands for, unless it is a hexadecimal number that ends
like a float. -/
theorem integer_token_read_iff (source : Source) (token : Token) (hmem : token ∈ (lex source).tokens)
    (hkind : token.kind = .integerLiteral) (herror : token.hasError = false) :
    (∃ base digits suffix, IntegerSpelling (asText (token.text source)) base digits suffix) ∧
      ∀ base digits suffix, IntegerSpelling (asText (token.text source)) base digits suffix →
        (parseIntegerLiteral (asText (token.text source)) = literalOf base digits suffix ↔
          ¬ EndsAsFloat base digits suffix) := by
  refine ⟨?_, fun base digits suffix h => parseIntegerLiteral_iff h⟩
  obtain ⟨hsize, state, hlt, hread⟩ := lex_token hmem (by simp [hkind])
  obtain ⟨hdigit, hnumber⟩ := lexToken_integerLiteral hread hkind
  rw [hnumber] at hread
  exact lexNumber_spelling hsize hlt hdigit hread hkind herror

/-- `0xf_2u8`, a number with a separator and a suffix. -/
def maskedByte : Source := [0x30, 0x78, 0x66, 0x5f, 0x32, 0x75, 0x38]

theorem maskedByte_read :
    parseIntegerLiteral (asText maskedByte) = some { value := 242, suffix := .u8 } := by
  have hiff := (integer_token_read_iff maskedByte
    { offset := 0, length := 7, kind := .integerLiteral } (by decide +kernel) rfl rfl).2 16
    ['f', '_', '2'] .u8
    ⟨⟨['0', 'x'], by decide, ['u', '8'], by decide, by decide⟩, allDigits_of_all (by decide), 'f',
      by decide, by decide⟩
  have hread := hiff.mpr fun hends => absurd hends.2.1 (by decide)
  exact hread.trans (by decide)

/-- `0xf32`, a number that ends like a float. -/
def hexadecimalF32 : Source := [0x30, 0x78, 0x66, 0x33, 0x32]

/-- The lexer takes it for the integer 3890, without an error, and it is not read. -/
theorem hexadecimalF32_unread :
    ∃ token ∈ (lex hexadecimalF32).tokens, token.kind = .integerLiteral ∧
      token.hasError = false ∧
      IntegerSpelling (asText (token.text hexadecimalF32)) 16 ['f', '3', '2'] .none ∧
      digitsValue 16 ['f', '3', '2'] = 3890 ∧
      parseIntegerLiteral (asText (token.text hexadecimalF32)) = none := by
  refine ⟨{ offset := 0, length := 5, kind := .integerLiteral }, by decide +kernel, rfl, rfl,
    ⟨⟨['0', 'x'], by decide, [], by decide, by decide⟩, allDigits_of_all (by decide), 'f',
      by decide, by decide⟩,
    by decide, by decide⟩

end

end Lexer

end Chtholly
