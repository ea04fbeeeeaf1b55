import Chtholly.Registry.ManifestArray
import Chtholly.Registry.TextLines

/-!
# Inline tables in a manifest

An inline table is scanned like an array.  A round takes a key, up to the next equals sign, and its
value as it is written: strings and brackets in the value are only followed to find its end.

## Main definitions

* `Registry.ManifestToml.parseInlineTable` — the reader.
* `Registry.ManifestToml.TableBody`, `Registry.ManifestToml.SpellsTable` — the spellings of a table.

## Main results

* `Registry.ManifestToml.scanValue_eq_some_iff` — where a value ends.
* `Registry.ManifestToml.spellsTable_iff` — what is read is all of the text when no closing brace
  stands before the last one.
* `Registry.ManifestToml.values_complete_iff` — arrays, tables and strings together.
-/

set_option autoImplicit false

namespace Chtholly

namespace Registry

namespace ManifestToml

/-! ## The reader -/

/-- The text of a value and what stands behind it.  The numbers are the brackets and the braces that
are open. -/
def scanValue : Mode → ℕ → ℕ → Text → Option (Text × Text)
  | mode, arrays, tables, [] =>
    if mode = .outside ∧ arrays = 0 ∧ tables = 0 then some ([], []) else none
  | mode, arrays, tables, ch :: rest =>
    if mode ≠ .outside ∨ ch = '"' then
      (scanValue (mode.next ch) arrays tables rest).map fun p => (ch :: p.1, p.2)
    else if ch = '[' then
      (scanValue mode (arrays + 1) tables rest).map fun p => (ch :: p.1, p.2)
    else if ch = ']' then
      if arrays = 0 then none
      else (scanValue mode (arrays - 1) tables rest).map fun p => (ch :: p.1, p.2)
    else if ch = '{' then
      (scanValue mode arrays (tables + 1) rest).map fun p => (ch :: p.1, p.2)
    else if ch = '}' then
      if tables = 0 then if arrays = 0 then some ([], ch :: rest) else none
      else (scanValue mode arrays (tables - 1) rest).map fun p => (ch :: p.1, p.2)
    else if ch = ',' ∧ arrays = 0 ∧ tables = 0 then some ([], ch :: rest)
    else (scanValue mode arrays tables rest).map fun p => (ch :: p.1, p.2)

/-- A round of the loop over a table, on the text that is not read. -/
def tableRound (text : Text) : Round (Text × Text) :=
  match text.dropWhile isSpace with
  | [] => .finished
  | ch :: text =>
    if ch = '}' then .finished
    else
      match cut '=' (ch :: text) with
      | none => .failed
      | some (key, rest) =>
        match scanValue .outside 0 0 rest with
        | none => .failed
        | some (value, rest) =>
          if trim key = [] ∨ trim value = [] then .failed
          else if rest.head? = some ',' then .next (trim key, trim value) rest.tail
          else .next (trim key, trim value) rest

/-! ## Spellings -/

/-- What brackets and braces are open is closed, nothing else is, and no comma separates. -/
def Level : ℕ → ℕ → Text → Prop
  | arrays, tables, [] => arrays = 0 ∧ tables = 0
  | arrays, tables, ch :: text =>
    if ch = '[' then Level (arrays + 1) tables text
    else if ch = ']' then 0 < arrays ∧ Level (arrays - 1) tables text
    else if ch = '{' then Level arrays (tables + 1) text
    else if ch = '}' then 0 < tables ∧ Level arrays (tables - 1) text
    else ¬ (ch = ',' ∧ arrays = 0 ∧ tables = 0) ∧ Level arrays tables text

/-- The text of a value: its strings are closed, and its brackets outside of them. -/
structure ValueText (text : Text) : Prop where
  closed : Mode.after .outside text = .outside
  level : Level 0 0 (marks .outside text)

/-- A key and a value with blanks around both. -/
inductive PairText : Text × Text → Text → Prop
  | mk {before key between after behind value : Text} : Blank before → Blank between →
      Blank after → Blank behind → Trimmed key → key ≠ [] → key.head? ≠ some '}' → '=' ∉ key →
      Trimmed value → value ≠ [] → ValueText value →
      PairText (key, value) (before ++ key ++ between ++ '=' :: (after ++ value ++ behind))

/-- The text between the braces of a table. -/
inductive TableBody : List (Text × Text) → Text → Prop
  | empty {blank : Text} : Blank blank → TableBody [] blank
  | last {pair : Text × Text} {text : Text} : PairText pair text → TableBody [pair] text
  | cons {pair : Text × Text} {text rest : Text} {pairs : List (Text × Text)} :
      PairText pair text → TableBody pairs rest → TableBody (pair :: pairs) (text ++ ',' :: rest)

/-- A text that spells a table, with blanks around it. -/
def SpellsTable (text : Text) (pairs : List (Text × Text)) : Prop :=
  ∃ before body after, Blank before ∧ Blank after ∧ TableBody pairs body ∧
    text = before ++ ('{' :: body ++ ['}']) ++ after

/-! ## Values -/

/-- The scanner of a value stops at the end, at a comma and at a closing brace. -/
def Stops (rest : Text) : Prop := rest = [] ∨ rest.head? = some ',' ∨ rest.head? = some '}'

lemma level_nil {arrays tables : ℕ} : Level arrays tables [] ↔ arrays = 0 ∧ tables = 0 := Iff.rfl

lemma marks_outside {ch : Char} (hquote : ch ≠ '"') (text : Text) :
    marks .outside (ch :: text) = ch :: marks .outside text ∧ Mode.next .outside ch = .outside :=
  ⟨if_pos ⟨rfl, hquote⟩, if_neg hquote⟩

/-- A character that belongs to the value: the scan goes on behind it. -/
lemma scan_on {mode mode' : Mode} {arrays tables arrays' tables' : ℕ} {ch : Char}
    {text value rest : Text} (hnext : mode.next ch = mode')
    (hlevel : ∀ value, Level arrays tables (marks mode (ch :: value)) ↔
      Level arrays' tables' (marks mode' value))
    (hinner : mode = .outside → arrays = 0 → tables = 0 → ch ≠ ',' ∧ ch ≠ '}')
    (ih : ∀ {value rest : Text}, scanValue mode' arrays' tables' text = some (value, rest) ↔
      text = value ++ rest ∧ mode'.after value = .outside ∧
        Level arrays' tables' (marks mode' value) ∧ Stops rest) :
    ((scanValue mode' arrays' tables' text).map fun p => (ch :: p.1, p.2)) = some (value, rest) ↔
      ch :: text = value ++ rest ∧ mode.after value = .outside ∧
        Level arrays tables (marks mode value) ∧ Stops rest := by
  constructor
  · intro h
    obtain ⟨⟨inner, behind⟩, hinner, heq⟩ := Option.map_eq_some_iff.1 h
    cases heq
    obtain ⟨rfl, hafter, hmarks, hstops⟩ := ih.1 hinner
    refine ⟨rfl, ?_, (hlevel inner).2 hmarks, hstops⟩
    rw [Mode.after, List.foldl_cons, hnext]
    exact hafter
  · rintro ⟨htext, hafter, hmarks, hstops⟩
    cases value with
    | nil =>
      -- the scan would have to stop here
      obtain ⟨rfl, rfl⟩ := level_nil.1 hmarks
      obtain ⟨hcomma, hbrace⟩ := hinner hafter rfl rfl
      rw [List.nil_append] at htext
      subst htext
      obtain hnil | hhead | hhead := hstops
      · cases hnil
      · exact absurd (Option.some.inj hhead) hcomma
      · exact absurd (Option.some.inj hhead) hbrace
    | cons first inner =>
      obtain ⟨rfl, rfl⟩ := List.cons.inj htext
      rw [Mode.after, List.foldl_cons, hnext] at hafter
      rw [ih.2 ⟨rfl, hafter, (hlevel inner).1 hmarks, hstops⟩]
      rfl

/-- A character that no value goes on with. -/
lemma scan_stop {arrays tables : ℕ} {ch : Char} {text value rest : Text} (hquote : ch ≠ '"')
    (hlevel : ∀ marks, ¬ Level arrays tables (ch :: marks)) :
    (ch :: text = value ++ rest ∧ Mode.after .outside value = .outside ∧
        Level arrays tables (marks .outside value) ∧ Stops rest) ↔
      (arrays = 0 ∧ tables = 0 ∧ Stops (ch :: text)) ∧ ([], ch :: text) = (value, rest) := by
  constructor
  · rintro ⟨htext, -, hmarks, hstops⟩
    cases value with
    | nil =>
      rw [List.nil_append] at htext
      rw [htext]
      exact ⟨⟨hmarks.1, hmarks.2, hstops⟩, rfl⟩
    | cons first inner =>
      obtain ⟨rfl, -⟩ := List.cons.inj htext
      rw [(marks_outside hquote inner).1] at hmarks
      exact absurd hmarks (hlevel _)
  · rintro ⟨⟨ha, ht, hstops⟩, heq⟩
    cases heq
    exact ⟨rfl, rfl, ⟨ha, ht⟩, hstops⟩

/-- Where a value ends. -/
theorem scanValue_eq_some_iff {mode : Mode} {arrays tables : ℕ} {text value rest : Text} :
    scanValue mode arrays tables text = some (value, rest) ↔
      text = value ++ rest ∧ mode.after value = .outside ∧
        Level arrays tables (marks mode value) ∧ Stops rest := by
  induction text generalizing mode arrays tables value rest with
  | nil =>
    rw [scanValue, List.nil_eq, List.append_eq_nil_iff]
    constructor
    · intro h
      split at h
      case isTrue hend =>
        cases h
        exact ⟨⟨rfl, rfl⟩, hend.1, level_nil.2 hend.2, .inl rfl⟩
      case isFalse => cases h
    · rintro ⟨⟨rfl, rfl⟩, hmode, hlevel, -⟩
      exact if_pos ⟨hmode, level_nil.1 hlevel⟩
  | cons ch text ih =>
    rw [scanValue]
    by_cases hinside : mode ≠ .outside ∨ ch = '"'
    · rw [if_pos hinside]
      refine scan_on rfl (fun value => ?_) (fun hmode _ _ => ?_) ih
      · rw [marks, if_neg (by tauto)]
      · obtain hmode' | rfl := hinside
        · exact absurd hmode hmode'
        · exact ⟨by decide, by decide⟩
    rw [if_neg hinside]
    rw [not_or, not_not] at hinside
    obtain ⟨rfl, hquote⟩ := hinside
    have hmarks := fun value => (marks_outside hquote value).1
    have hnext := (marks_outside hquote []).2
    by_cases hopen : ch = '['
    · subst hopen
      rw [if_pos rfl]
      exact scan_on hnext (fun value => by rw [hmarks, Level, if_pos rfl])
        (fun _ _ _ => ⟨by decide, by decide⟩) ih
    rw [if_neg hopen]
    by_cases hclose : ch = ']'
    · subst hclose
      rw [if_pos rfl]
      by_cases hzero : arrays = 0
      · have hlevel : ∀ marks, ¬ Level arrays tables (']' :: marks) := by
          intro marks hmarks
          rw [Level, if_neg hopen, if_pos rfl] at hmarks
          exact absurd hmarks.1 (by omega)
        have hstops : ¬ Stops (']' :: text) := by simp [Stops]
        rw [if_pos hzero, scan_stop hquote hlevel]
        exact iff_of_false (Option.some_ne_none _).symm fun h => hstops h.1.2.2
      · rw [if_neg hzero]
        refine scan_on hnext (fun value => ?_) (fun _ ha _ => absurd ha hzero) ih
        rw [hmarks, Level, if_neg hopen, if_pos rfl, and_iff_right (Nat.pos_of_ne_zero hzero)]
    rw [if_neg hclose]
    by_cases hbrace : ch = '{'
    · subst hbrace
      rw [if_pos rfl]
      exact scan_on hnext (fun value => by rw [hmarks, Level, if_neg hopen, if_neg hclose, if_pos rfl])
        (fun _ _ _ => ⟨by decide, by decide⟩) ih
    rw [if_neg hbrace]
    by_cases hend : ch = '}'
    · subst hend
      rw [if_pos rfl]
      by_cases hzero : tables = 0
      · have hlevel : ∀ marks, ¬ Level arrays tables ('}' :: marks) := by
          intro marks hmarks
          rw [Level, if_neg hopen, if_neg hclose, if_neg hbrace, if_pos rfl] at hmarks
          exact absurd hmarks.1 (by omega)
        rw [if_pos hzero, scan_stop hquote hlevel]
        by_cases harrays : arrays = 0
        · rw [if_pos harrays, Option.some_inj, and_iff_right ⟨harrays, hzero, .inr (.inr rfl)⟩]
        · rw [if_neg harrays]
          exact iff_of_false (Option.some_ne_none _).symm fun h => harrays h.1.1
      · rw [if_neg hzero]
        refine scan_on hnext (fun value => ?_) (fun _ _ ht => absurd ht hzero) ih
        rw [hmarks, Level, if_neg hopen, if_neg hclose, if_neg hbrace, if_pos rfl,
          and_iff_right (Nat.pos_of_ne_zero hzero)]
    rw [if_neg hend]
    by_cases hcomma : ch = ',' ∧ arrays = 0 ∧ tables = 0
    · have hlevel : ∀ marks, ¬ Level arrays tables (ch :: marks) := by
        intro marks hmarks
        rw [Level, if_neg hopen, if_neg hclose, if_neg hbrace, if_neg hend] at hmarks
        exact hmarks.1 hcomma
      have hstops : Stops (ch :: text) := by
        rw [hcomma.1]
        exact .inr (.inl rfl)
      rw [if_pos hcomma, scan_stop hquote hlevel, Option.some_inj,
        and_iff_right ⟨hcomma.2.1, hcomma.2.2, hstops⟩]
    · rw [if_neg hcomma]
      refine scan_on hnext (fun value => ?_) (fun _ ha ht => ⟨fun he => hcomma ⟨he, ha, ht⟩, hend⟩) ih
      rw [hmarks, Level, if_neg hopen, if_neg hclose, if_neg hbrace, if_neg hend, and_iff_right hcomma]

/-! ## Blanks around values -/

lemma after_blank_iff {blank : Text} (h : Blank blank) (mode : Mode) :
    mode.after blank = .outside ↔ mode = .outside := by
  induction blank generalizing mode with
  | nil => exact Iff.rfl
  | cons ch blank ih =>
    have hch := h ch (.head _)
    have hquote : ch ≠ '"' := by
      rintro rfl
      exact absurd hch (by decide)
    have hslash : ch ≠ '\\' := by
      rintro rfl
      exact absurd hch (by decide)
    rw [Mode.after, List.foldl_cons]
    refine (ih (fun other hother => h other (.tail _ hother)) _).trans ?_
    cases mode <;> simp [Mode.next, hquote, hslash]

/-- Blanks are neither brackets nor commas. -/
lemma level_blank {ch : Char} (h : isSpace ch = true) (arrays tables : ℕ) (text : Text) :
    Level arrays tables (ch :: text) ↔ Level arrays tables text := by
  have hne : ∀ other : Char, isSpace other = false → ch ≠ other := by
    rintro other hother rfl
    rw [h] at hother
    cases hother
  rw [Level, if_neg (hne _ rfl), if_neg (hne _ rfl), if_neg (hne _ rfl), if_neg (hne _ rfl)]
  exact and_iff_right fun hcomma => hne ',' rfl hcomma.1

lemma level_blank_append {blank : Text} (h : Blank blank) (arrays tables : ℕ) (text : Text) :
    Level arrays tables (blank ++ text) ↔ Level arrays tables text := by
  induction blank with
  | nil => exact Iff.rfl
  | cons ch blank ih =>
    rw [List.cons_append, level_blank (h ch (.head _))]
    exact ih fun other hother => h other (.tail _ hother)

lemma level_append_blank {blank : Text} (h : Blank blank) (arrays tables : ℕ) (text : Text) :
    Level arrays tables (text ++ blank) ↔ Level arrays tables text := by
  induction text generalizing arrays tables with
  | nil =>
    have hall := level_blank_append h arrays tables []
    rwa [List.append_nil] at hall
  | cons ch text ih =>
    rw [List.cons_append, Level, Level]
    repeat' split
    all_goals simp only [ih]

lemma valueText_blank {before value after : Text} (hbefore : Blank before) (hafter : Blank after) :
    ValueText (before ++ value ++ after) ↔ ValueText value := by
  have hclosed : Mode.after .outside (before ++ value ++ after) = .outside ↔
      Mode.after .outside value = .outside := by
    rw [after_append, after_blank_iff hafter, after_append, (marks_blank hbefore).2]
  have hlevel (h : Mode.after .outside value = .outside) :
      Level 0 0 (marks .outside (before ++ value ++ after)) ↔ Level 0 0 (marks .outside value) := by
    rw [marks_append, marks_append, after_append, (marks_blank hbefore).2, h,
      (marks_blank hbefore).1, (marks_blank hafter).1, List.append_assoc,
      level_blank_append hbefore, level_append_blank hafter]
  constructor
  · rintro ⟨hclose, hmarks⟩
    exact ⟨hclosed.1 hclose, (hlevel (hclosed.1 hclose)).1 hmarks⟩
  · rintro ⟨hclose, hmarks⟩
    exact ⟨hclosed.2 hclose, (hlevel hclose).2 hmarks⟩

/-! ## Rounds -/

/-- The text of a key: up to an equals sign, and not a closing brace. -/
structure KeyText (text : Text) : Prop where
  equals : '=' ∉ text
  brace : ∀ blank more, Blank blank → text ≠ blank ++ '}' :: more

/-- The first character of a key, or the equals sign, is not a closing brace. -/
lemma KeyText.exists_head {key : Text} (h : KeyText key) (rest : Text) :
    ∃ ch more, (key ++ '=' :: rest).dropWhile isSpace = ch :: more ∧
      ch :: more = key.dropWhile isSpace ++ '=' :: rest ∧ ch ≠ '}' := by
  obtain ⟨before, hbefore, heq⟩ := exists_blank key
  cases hkey : key.dropWhile isSpace with
  | nil =>
    refine ⟨'=', rest, ?_, rfl, by decide⟩
    rw [heq, hkey, List.append_nil, dropWhile_blank hbefore]
    exact dropWhile_cons rfl rest
  | cons ch more =>
    refine ⟨ch, more ++ '=' :: rest, ?_, rfl, ?_⟩
    · rw [heq, hkey, List.append_assoc, dropWhile_blank hbefore]
      exact dropWhile_cons (head_dropWhile key ch (by rw [hkey]; rfl)) _
    · rintro rfl
      rw [hkey] at heq
      exact h.brace before more hbefore heq

lemma KeyText.ne_brace {key blank : Text} (h : KeyText key) (hblank : Blank blank)
    (rest more : Text) : key ++ '=' :: rest ≠ blank ++ '}' :: more := by
  intro heq
  obtain ⟨ch, tail, hdrop, -, hbrace⟩ := h.exists_head rest
  rw [heq, dropWhile_blank hblank, dropWhile_cons rfl] at hdrop
  exact hbrace (List.cons.inj hdrop).1.symm

/-- Where the text of a pair ends there is only one pair. -/
lemma pair_unique {key value rest key' value' rest' : Text} (hkey : '=' ∉ key) (hkey' : '=' ∉ key')
    (hvalue : ValueText value) (hvalue' : ValueText value') (hrest : Stops rest)
    (hrest' : Stops rest') (h : key ++ '=' :: (value ++ rest) = key' ++ '=' :: (value' ++ rest')) :
    key = key' ∧ value = value' ∧ rest = rest' := by
  have hcut := cut_append hkey (value ++ rest)
  rw [h, cut_append hkey'] at hcut
  obtain ⟨hkeys, hvalues⟩ := Prod.mk.inj (Option.some.inj hcut)
  have hscan := scanValue_eq_some_iff.2 ⟨rfl, hvalue.closed, hvalue.level, hrest⟩
  have hscan' := scanValue_eq_some_iff.2 ⟨rfl, hvalue'.closed, hvalue'.level, hrest'⟩
  rw [hvalues] at hscan'
  obtain ⟨heq, heq'⟩ := Prod.mk.inj (Option.some.inj (hscan.symm.trans hscan'))
  exact ⟨hkeys.symm, heq, heq'⟩

/-- A key and a value, each with the blanks around it. -/
lemma PairText.parts {pair : Text × Text} {text : Text} (h : PairText pair text) :
    ∃ key value, text = key ++ '=' :: value ∧ KeyText key ∧ ValueText value ∧ trim key = pair.1 ∧
      trim value = pair.2 ∧ pair.1 ≠ [] ∧ pair.2 ≠ [] := by
  cases h with
  | @mk before key between after behind value hbefore hbetween hafter hbehind hkey hkeyne hhead
      hequals hvalue hvaluene htext =>
    refine ⟨before ++ key ++ between, after ++ value ++ behind, rfl, ⟨?_, ?_⟩,
      (valueText_blank hafter hbehind).2 htext, trim_append hbefore hkey hbetween,
      trim_append hafter hvalue hbehind, hkeyne, hvaluene⟩
    · have hblank : ∀ blank : Text, Blank blank → '=' ∉ blank := fun blank h hmem =>
        absurd (h _ hmem) (by decide)
      simp only [List.mem_append, not_or]
      exact ⟨⟨hblank _ hbefore, hequals⟩, hblank _ hbetween⟩
    · intro blank more hblank heq
      have hdrop := congrArg (List.dropWhile isSpace) heq
      rw [List.append_assoc, dropWhile_blank hbefore, dropWhile_blank hblank,
        dropWhile_cons rfl] at hdrop
      cases key with
      | nil => exact hkeyne rfl
      | cons ch key =>
        rw [List.cons_append, dropWhile_cons (hkey.head ch rfl)] at hdrop
        exact hhead (congrArg some (List.cons.inj hdrop).1)

lemma pairText_of_parts {key value : Text} (hkey : KeyText key) (hvalue : ValueText value)
    (hkeyne : trim key ≠ []) (hvaluene : trim value ≠ []) :
    PairText (trim key, trim value) (key ++ '=' :: value) := by
  obtain ⟨before, between, hbefore, hbetween, hkeyeq⟩ := exists_trim key
  obtain ⟨after, behind, hafter, hbehind, hvalueeq⟩ := exists_trim value
  have hhead : (trim key).head? ≠ some '}' := by
    intro hbrace
    obtain ⟨more, hmore⟩ := List.head?_eq_some_iff.1 hbrace
    refine hkey.brace before (more ++ between) hbefore ?_
    rw [hkeyeq, hmore, List.append_assoc]
    rfl
  have hequals : '=' ∉ trim key := by
    intro hmem
    apply hkey.equals
    rw [hkeyeq]
    exact List.mem_append_left _ (List.mem_append_right _ hmem)
  have htext : ValueText (trim value) := by
    rw [hvalueeq] at hvalue
    exact (valueText_blank hafter hbehind).1 hvalue
  have hpair := PairText.mk hbefore hbetween hafter hbehind (trimmed_trim key) hkeyne hhead hequals
    (trimmed_trim value) hvaluene htext
  rwa [← hkeyeq, ← hvalueeq] at hpair

/-- What a round consumes, and where it stops. -/
inductive TableStep (pair : Text × Text) : Text → Text → Prop
  | comma {text rest : Text} : PairText pair text → TableStep pair (text ++ ',' :: rest) rest
  | close {text rest : Text} : PairText pair text → rest = [] ∨ rest.head? = some '}' →
      TableStep pair (text ++ rest) rest

lemma trim_blank_append {blank : Text} (h : Blank blank) (text : Text) :
    trim (blank ++ text) = trim text := by
  rw [trim, dropWhile_blank h]
  rfl

/-- The round on the text of a pair. -/
lemma tableRound_pair {key value rest : Text} (hkey : KeyText key) (hvalue : ValueText value)
    (hrest : Stops rest) :
    tableRound (key ++ '=' :: (value ++ rest)) =
      if trim key = [] ∨ trim value = [] then .failed
      else if rest.head? = some ',' then .next (trim key, trim value) rest.tail
      else .next (trim key, trim value) rest := by
  obtain ⟨before, hbefore, heq⟩ := exists_blank key
  have htrim : trim (key.dropWhile isSpace) = trim key := by
    conv_rhs => rw [heq, trim_blank_append hbefore]
  have hequals : '=' ∉ key.dropWhile isSpace := by
    intro hmem
    apply hkey.equals
    rw [heq]
    exact List.mem_append_right _ hmem
  obtain ⟨ch, more, hdrop, hcons, hbrace⟩ := hkey.exists_head (value ++ rest)
  unfold tableRound
  rw [hdrop]
  dsimp only
  rw [if_neg hbrace, hcons, cut_append hequals]
  dsimp only
  rw [scanValue_eq_some_iff.2 ⟨rfl, hvalue.closed, hvalue.level, hrest⟩, htrim]

lemma round_of_tableStep {pair : Text × Text} {text rest : Text} (h : TableStep pair text rest) :
    tableRound text = .next pair rest := by
  cases h with
  | comma hpair =>
    obtain ⟨key, value, rfl, hkey, hvalue, hfirst, hsecond, hkeyne, hvaluene⟩ := hpair.parts
    rw [List.append_assoc, List.cons_append, tableRound_pair hkey hvalue (.inr (.inl rfl)), hfirst,
      hsecond, if_neg (not_or.2 ⟨hkeyne, hvaluene⟩), List.head?_cons, if_pos rfl]
    rfl
  | close hpair hend =>
    obtain ⟨key, value, rfl, hkey, hvalue, hfirst, hsecond, hkeyne, hvaluene⟩ := hpair.parts
    have hcomma : rest.head? ≠ some ',' := by
      obtain rfl | hhead := hend
      · exact nofun
      · rw [hhead]
        decide
    rw [List.append_assoc, List.cons_append,
      tableRound_pair hkey hvalue (hend.imp_right Or.inr), hfirst, hsecond,
      if_neg (not_or.2 ⟨hkeyne, hvaluene⟩), if_neg hcomma]

/-- The text before an equals sign is a key when its first character is not a brace. -/
lemma keyText_of_drop {before key tail more : Text} {ch : Char} (hbefore : Blank before)
    (hequals : '=' ∉ key) (htext : ch :: more = key ++ '=' :: tail) (hch : isSpace ch = false)
    (hbrace : ch ≠ '}') : KeyText (before ++ key) := by
  constructor
  · rw [List.mem_append, not_or]
    exact ⟨fun hmem => absurd (hbefore _ hmem) (by decide), hequals⟩
  · intro blank rest hblank heq
    have hdrop := congrArg (List.dropWhile isSpace) heq
    rw [dropWhile_blank hbefore, dropWhile_blank hblank, dropWhile_cons rfl] at hdrop
    cases key with
    | nil => cases hdrop
    | cons first key =>
      obtain ⟨rfl, -⟩ := List.cons.inj htext
      rw [dropWhile_cons hch] at hdrop
      exact hbrace (List.cons.inj hdrop).1

lemma tableStep_of_round {pair : Text × Text} {text rest : Text}
    (h : tableRound text = .next pair rest) : TableStep pair text rest := by
  obtain ⟨before, hbefore, htext⟩ := exists_blank text
  unfold tableRound at h
  cases hdrop : text.dropWhile isSpace with
  | nil =>
    rw [hdrop] at h
    cases h
  | cons ch more =>
    rw [hdrop] at h
    dsimp only at h
    by_cases hbrace : ch = '}'
    · rw [if_pos hbrace] at h
      cases h
    rw [if_neg hbrace] at h
    cases hcut : cut '=' (ch :: more) with
    | none =>
      rw [hcut] at h
      cases h
    | some found =>
      obtain ⟨key, tail⟩ := found
      rw [hcut] at h
      dsimp only at h
      obtain ⟨hmore, hequals⟩ := cut_eq_some_iff.1 hcut
      cases hscan : scanValue .outside 0 0 tail with
      | none =>
        rw [hscan] at h
        cases h
      | some found =>
        obtain ⟨value, behind⟩ := found
        rw [hscan] at h
        dsimp only at h
        obtain ⟨rfl, hclosed, hlevel, hstops⟩ := scanValue_eq_some_iff.1 hscan
        split at h
        case isTrue => cases h
        case isFalse hne =>
          rw [not_or] at hne
          have hch : isSpace ch = false := head_dropWhile text ch (by rw [hdrop]; rfl)
          have hkey : KeyText (before ++ key) := keyText_of_drop hbefore hequals hmore hch hbrace
          have hpair := pairText_of_parts hkey ⟨hclosed, hlevel⟩
            (by rw [trim_blank_append hbefore]; exact hne.1) hne.2
          have hshape : text = before ++ key ++ '=' :: value ++ behind := by
            rw [htext, hdrop, hmore]
            simp only [List.append_assoc, List.cons_append]
          rw [trim_blank_append hbefore] at hpair
          split at h
          case isTrue hcomma =>
            cases h
            obtain ⟨rest, rfl⟩ := List.head?_eq_some_iff.1 hcomma
            exact hshape ▸ .comma hpair
          case isFalse hcomma =>
            cases h
            exact hshape ▸ .close hpair (hstops.imp_right fun hhead => hhead.resolve_left hcomma)

/-- Every round consumes an equals sign. -/
lemma TableStep.lt {pair : Text × Text} {text rest : Text} (h : TableStep pair text rest) :
    rest.length < text.length := by
  cases h with
  | comma => simp only [List.length_append, List.length_cons]; omega
  | close hpair =>
    obtain ⟨key, value, rfl, -⟩ := hpair.parts
    simp only [List.length_append, List.length_cons]
    omega

/-- The last round finds a closing brace or nothing at all. -/
lemma blank_of_finished {text : Text} (h : tableRound text = .finished) :
    Blank text ∨ ∃ blank more, Blank blank ∧ text = blank ++ '}' :: more := by
  obtain ⟨blank, hblank, htext⟩ := exists_blank text
  unfold tableRound at h
  cases hdrop : text.dropWhile isSpace with
  | nil => exact .inl (List.dropWhile_eq_nil_iff.1 hdrop)
  | cons ch more =>
    rw [hdrop] at h htext
    dsimp only at h
    by_cases hbrace : ch = '}'
    · rw [hbrace] at htext
      exact .inr ⟨blank, more, hblank, htext⟩
    · rw [if_neg hbrace] at h
      repeat' split at h
      all_goals cases h

lemma tableRound_of_end {blank rest : Text} (hblank : Blank blank)
    (hend : rest = [] ∨ rest.head? = some '}') : tableRound (blank ++ rest) = .finished := by
  unfold tableRound
  rw [dropWhile_blank hblank]
  obtain rfl | hhead := hend
  · rfl
  · obtain ⟨more, rfl⟩ := List.head?_eq_some_iff.1 hhead
    rw [dropWhile_cons rfl]
    exact if_pos rfl

/-! ## Tables -/

/-- The loop over a table. -/
def tableEntries (text : Text) : Option (List (Text × Text)) :=
  match _h : tableRound text with
  | .failed => none
  | .finished => some []
  | .next pair rest => (tableEntries rest).map (pair :: ·)
termination_by text.length
decreasing_by exact (tableStep_of_round _h).lt

def parseInlineTable (value : Text) : Option (List (Text × Text)) :=
  (between '{' '}' (trim value)).bind tableEntries

lemma tableEntries_eq (text : Text) :
    tableEntries text =
      match tableRound text with
      | .failed => none
      | .finished => some []
      | .next pair rest => (tableEntries rest).map (pair :: ·) := by
  rw [tableEntries]
  split
  case h_1 h => rw [h]
  case h_2 h => rw [h]
  case h_3 h => rw [h]

/-- The texts that are read as a table: behind a closing brace anything may stand. -/
theorem tableEntries_eq_some_iff {text : Text} {pairs : List (Text × Text)} :
    tableEntries text = some pairs ↔ ∃ body rest, text = body ++ rest ∧ TableBody pairs body ∧
      (rest = [] ∨ rest.head? = some '}') := by
  constructor
  · intro h
    induction hlength : text.length using Nat.strong_induction_on generalizing text pairs with
    | _ n ih =>
      subst hlength
      rw [tableEntries_eq] at h
      split at h
      case h_1 => cases h
      case h_2 hround =>
        cases h
        obtain hblank | ⟨blank, more, hblank, rfl⟩ := blank_of_finished hround
        · exact ⟨text, [], (List.append_nil _).symm, .empty hblank, .inl rfl⟩
        · exact ⟨blank, '}' :: more, rfl, .empty hblank, .inr rfl⟩
      case h_3 pair next hround =>
        obtain ⟨others, hothers, rfl⟩ := Option.map_eq_some_iff.1 h
        have hstep := tableStep_of_round hround
        have hlt := hstep.lt
        cases hstep with
        | comma hpair =>
          obtain ⟨body, rest, rfl, hbody, hend⟩ := ih _ hlt hothers rfl
          exact ⟨_, rest, by rw [← List.cons_append, ← List.append_assoc], .cons hpair hbody, hend⟩
        | close hpair hclose =>
          -- the round that follows is the last one
          rw [tableEntries_eq, ← List.nil_append next, tableRound_of_end blank_nil hclose] at hothers
          cases hothers
          exact ⟨_, next, rfl, .last hpair, hclose⟩
  · rintro ⟨body, rest, rfl, hbody, hend⟩
    induction hbody with
    | empty hblank => rw [tableEntries_eq, tableRound_of_end hblank hend]
    | last hpair =>
      rw [tableEntries_eq, round_of_tableStep (.close hpair hend)]
      dsimp only
      rw [tableEntries_eq, ← List.nil_append rest, tableRound_of_end blank_nil hend]
      rfl
    | @cons pair front tail pairs hpair _ ih =>
      rw [List.append_assoc front, List.cons_append, tableEntries_eq,
        round_of_tableStep (.comma hpair)]
      dsimp only
      rw [ih]
      rfl

lemma spellsTable_iff_between {text : Text} {pairs : List (Text × Text)} :
    SpellsTable text pairs ↔
      ∃ middle, between '{' '}' (trim text) = some middle ∧ TableBody pairs middle := by
  constructor
  · rintro ⟨before, body, after, hbefore, hafter, hbody, htext⟩
    exact ⟨body, (between_trim_iff rfl rfl).2 ⟨before, after, hbefore, hafter, htext⟩, hbody⟩
  · rintro ⟨body, hbetween, hbody⟩
    obtain ⟨before, after, hbefore, hafter, htext⟩ := (between_trim_iff rfl rfl).1 hbetween
    exact ⟨before, body, after, hbefore, hafter, hbody, htext⟩

/-! ## What is read -/

/-- A closing brace ends the table: it stands where a key would, or behind a value and outside of
the strings and brackets of that. -/
inductive EndsEarly : Text → Prop
  | start {blank more : Text} : Blank blank → EndsEarly (blank ++ '}' :: more)
  | value {key value more : Text} : KeyText key → ValueText value →
      EndsEarly (key ++ '=' :: (value ++ '}' :: more))
  | next {key value rest : Text} : KeyText key → ValueText value → EndsEarly rest →
      EndsEarly (key ++ '=' :: (value ++ ',' :: rest))

/-- No closing brace ends the table before the last character. -/
def TableEndsLast (text : Text) : Prop :=
  ∀ middle, between '{' '}' (trim text) = some middle → ¬ EndsEarly middle

lemma endsEarly_append {pairs : List (Text × Text)} {body : Text} (h : TableBody pairs body)
    (more : Text) : EndsEarly (body ++ '}' :: more) := by
  induction h with
  | empty hblank => exact .start hblank
  | last hpair =>
    obtain ⟨key, value, rfl, hkey, hvalue, -⟩ := hpair.parts
    rw [List.append_assoc, List.cons_append]
    exact .value hkey hvalue
  | cons hpair _ ih =>
    obtain ⟨key, value, rfl, hkey, hvalue, -⟩ := hpair.parts
    simp only [List.append_assoc, List.cons_append]
    exact .next hkey hvalue ih

lemma not_endsEarly {pairs : List (Text × Text)} {body : Text} (h : TableBody pairs body) :
    ¬ EndsEarly body := by
  intro hearly
  induction h with
  | empty hblank =>
    have hnot : ∀ ch, isSpace ch = false → ch ∉ _ := fun ch hch hmem =>
      Bool.noConfusion ((hblank ch hmem).symm.trans hch)
    cases hearly with
    | start => exact hnot '}' rfl (by simp)
    | value => exact hnot '=' rfl (by simp)
    | next => exact hnot '=' rfl (by simp)
  | last hpair =>
    obtain ⟨key, value, rfl, hkey, hvalue, -⟩ := hpair.parts
    generalize htext : key ++ '=' :: value = text at hearly
    rw [← List.append_nil value] at htext
    cases hearly with
    | start hblank => exact hkey.ne_brace hblank _ _ htext
    | value hkey' hvalue' =>
      cases (pair_unique hkey.equals hkey'.equals hvalue hvalue' (.inl rfl) (.inr (.inr rfl))
        htext).2.2
    | next hkey' hvalue' =>
      cases (pair_unique hkey.equals hkey'.equals hvalue hvalue' (.inl rfl) (.inr (.inl rfl))
        htext).2.2
  | @cons pair front tail pairs hpair _ ih =>
    obtain ⟨key, value, rfl, hkey, hvalue, -⟩ := hpair.parts
    generalize htext : key ++ '=' :: value ++ ',' :: tail = text at hearly
    rw [List.append_assoc, List.cons_append] at htext
    cases hearly with
    | start hblank => exact hkey.ne_brace hblank _ _ htext
    | value hkey' hvalue' =>
      cases (pair_unique hkey.equals hkey'.equals hvalue hvalue' (.inr (.inl rfl))
        (.inr (.inr rfl)) htext).2.2
    | next hkey' hvalue' hrest =>
      obtain ⟨-, -, heq⟩ := pair_unique hkey.equals hkey'.equals hvalue hvalue' (.inr (.inl rfl))
        (.inr (.inl rfl)) htext
      rw [← (List.cons.inj heq).2] at hrest
      exact ih hrest

/-- What is read is all of the text when no closing brace stands before the last one. -/
theorem spellsTable_iff {text : Text} {pairs : List (Text × Text)}
    (h : parseInlineTable text = some pairs) : SpellsTable text pairs ↔ TableEndsLast text := by
  rw [spellsTable_iff_between, TableEndsLast]
  constructor
  · rintro ⟨body, hbetween, hbody⟩ middle hmiddle
    cases hbetween.symm.trans hmiddle
    exact not_endsEarly hbody
  · intro hends
    rw [parseInlineTable, Option.bind_eq_some_iff] at h
    obtain ⟨middle, hmiddle, hpairs⟩ := h
    obtain ⟨body, rest, rfl, hbody, hend⟩ := tableEntries_eq_some_iff.1 hpairs
    refine ⟨_, hmiddle, ?_⟩
    obtain rfl | hhead := hend
    · rwa [List.append_nil]
    · obtain ⟨more, rfl⟩ := List.head?_eq_some_iff.1 hhead
      exact absurd (endsEarly_append hbody more) (hends _ hmiddle)

/-! ## Values -/

/-- No loop goes on for ever: what a round leaves is shorter. -/
lemma wellFounded_rounds :
    (WellFounded fun rest text => ∃ value, arrayRound text = .next value rest) ∧
      WellFounded fun rest text => ∃ pair, tableRound text = .next pair rest := by
  have hlength : WellFounded fun rest text : Text => rest.length < text.length :=
    (measure List.length).wf
  constructor
  · apply Subrelation.wf _ hlength
    rintro rest text ⟨value, h⟩
    exact (arrayStep_of_round h).lt
  · apply Subrelation.wf _ hlength
    rintro rest text ⟨pair, h⟩
    exact (tableStep_of_round h).lt

/-- The values of a manifest are read completely, unless a bracket or a brace closes them before the
last character; the loops end, and a quoted text is read back. -/
theorem values_complete_iff (text : List Char) :
    (∀ values, parseStringArray text = some values →
      (SpellsArray text values ↔ ArrayEndsLast text)) ∧
    (∀ pairs, parseInlineTable text = some pairs →
      (SpellsTable text pairs ↔ TableEndsLast text)) ∧
    (WellFounded fun rest text => ∃ value, arrayRound text = .next value rest) ∧
    (WellFounded fun rest text => ∃ pair, tableRound text = .next pair rest) ∧
    ∀ value, parseString (quote value) = some value :=
  ⟨fun _ => spellsArray_iff, fun _ => spellsTable_iff, wellFounded_rounds.1,
    wellFounded_rounds.2, parseString_quote⟩

theorem arrays_of_two_complete :
    (SpellsArray "[\"a\", \"b\"]".toList ["a".toList, "b".toList] ↔
      ArrayEndsLast "[\"a\", \"b\"]".toList) ∧
    (SpellsTable "\x7ba = 1\x7d".toList [("a".toList, "1".toList)] ↔
      TableEndsLast "\x7ba = 1\x7d".toList) :=
  ⟨(values_complete_iff _).1 _ (by decide +kernel),
    (values_complete_iff _).2.1 _ (by decide +kernel)⟩

/-- The second array and the second table on a line are not read. -/
theorem second_value_lost :
    (parseStringArray "[\"a\"] [\"b\"]".toList = some ["a".toList] ∧
      ¬ SpellsArray "[\"a\"] [\"b\"]".toList ["a".toList]) ∧
    parseInlineTable "\x7ba = 1\x7d \x7bb = 2\x7d".toList = some [("a".toList, "1".toList)] ∧
      ¬ SpellsTable "\x7ba = 1\x7d \x7bb = 2\x7d".toList [("a".toList, "1".toList)] := by
  have harray : parseStringArray "[\"a\"] [\"b\"]".toList = some ["a".toList] := by decide
  have htable : parseInlineTable "\x7ba = 1\x7d \x7bb = 2\x7d".toList =
      some [("a".toList, "1".toList)] := by decide +kernel
  refine ⟨⟨harray, ?_⟩, htable, ?_⟩
  · rw [spellsArray_iff harray, ArrayEndsLast]
    intro hends
    exact absurd (hends "\"a\"] [\"b\"".toList (by decide)) (by decide)
  · rw [spellsTable_iff htable, TableEndsLast]
    intro hends
    have hkey : KeyText "a ".toList := by
      refine ⟨by decide, fun blank more _ heq => ?_⟩
      have hmem : '}' ∈ "a ".toList := by
        rw [heq]
        exact List.mem_append_right _ List.mem_cons_self
      exact absurd hmem (by decide)
    have hvalue : ValueText " 1".toList := ⟨by decide, by simp [marks, Level]⟩
    have hearly : EndsEarly ("a ".toList ++ '=' :: (" 1".toList ++ '}' :: " \x7bb = 2".toList)) :=
      .value hkey hvalue
    exact hends _ (by decide) hearly

end ManifestToml

end Registry

end Chtholly
