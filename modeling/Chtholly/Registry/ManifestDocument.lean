import Chtholly.Registry.ManifestArray
import Chtholly.Registry.TextLines

/-!
# Manifests that were written

The writers of manifests put one assignment on a line, a table in brackets on a line of its own, and
empty lines between.  What they write is read back, assignment for assignment.

## Main definitions

* `Registry.ManifestToml.DocumentLine` — a line of such a text.
* `Registry.ManifestToml.assignmentsOf` — the assignments of its lines.

## Main results

* `Registry.ManifestToml.parseAssignments_document` — the assignments are read back.
* `Registry.ManifestToml.parseStringArray_renderArray` — an array is read back, sorted.
-/

set_option autoImplicit false

namespace Chtholly

namespace Registry

namespace ManifestToml

/-! ## Comments -/

/-- No comment starts in the text, and it ends outside of its strings. -/
def Clean (text : Text) : Prop :=
  ∀ rest, stripComment false false (text ++ rest) = text ++ stripComment false false rest

lemma clean_nil : Clean [] := fun _ => rfl

lemma Clean.append {text other : Text} (htext : Clean text) (hother : Clean other) :
    Clean (text ++ other) := by
  intro rest
  rw [List.append_assoc, htext, hother, List.append_assoc]

lemma clean_cons {ch : Char} {text : Text} (hquote : ch ≠ '"') (hhash : ch ≠ '#')
    (htext : Clean text) : Clean (ch :: text) := by
  intro rest
  rw [List.cons_append, stripComment, if_neg Bool.false_ne_true, if_neg (by simp),
    if_neg (by simpa using hquote), if_neg (by simpa using hhash), htext]
  rfl

lemma clean_of_forall {text : Text} (h : ∀ ch ∈ text, ch ≠ '"' ∧ ch ≠ '#') : Clean text := by
  induction text with
  | nil => exact clean_nil
  | cons ch text ih =>
    obtain ⟨hquote, hhash⟩ := h ch (.head _)
    exact clean_cons hquote hhash (ih fun other hother => h other (.tail _ hother))

/-- The test that a fixed text passes. -/
lemma clean_of_all {text : Text} (h : (text.all fun ch => ch != '"' && ch != '#') = true) :
    Clean text :=
  clean_of_forall fun ch hch => by simpa using List.all_eq_true.1 h ch hch

lemma stripComment_escaped {value inner : Text} (h : Escaped value inner) (rest : Text) :
    stripComment true false (inner ++ rest) = inner ++ stripComment true false rest := by
  induction h with
  | nil => rfl
  | @plain ch value inner hquote hslash _ ih =>
    rw [List.cons_append, stripComment, if_neg Bool.false_ne_true, if_neg (by simpa using hslash),
      if_neg (by simpa using hquote), if_neg (by simp), ih]
    rfl
  | @letter ch letter value inner _ _ ih =>
    rw [List.cons_append, List.cons_append, stripComment, if_neg Bool.false_ne_true,
      if_pos (by simp), stripComment, if_pos rfl, ih]
    rfl

/-- A string may have any character in it. -/
lemma clean_quoted {value inner : Text} (h : Escaped value inner) :
    Clean ('"' :: inner ++ ['"']) := by
  intro rest
  have hopen : stripComment false false ('"' :: inner ++ ['"'] ++ rest) =
      '"' :: stripComment true false (inner ++ '"' :: rest) := by
    rw [List.append_assoc, List.cons_append, stripComment, if_neg Bool.false_ne_true,
      if_neg (by simp), if_pos (by simp)]
    rfl
  have hclose : stripComment true false ('"' :: rest) = '"' :: stripComment false false rest := by
    rw [stripComment, if_neg Bool.false_ne_true, if_neg (by simp), if_pos (by simp)]
    rfl
  rw [hopen, stripComment_escaped h, hclose]
  simp

lemma clean_quote (value : Text) : Clean (quote value) := clean_quoted (escaped_flatMap value)

lemma clean_decimal (n : ℕ) : Clean (decimal n) := by
  apply clean_of_forall
  intro ch hch
  have hdigit := isDigit_of_mem_decimal hch
  constructor
  all_goals
    rintro rfl
    exact absurd hdigit (by decide)

/-! ## Lines -/

/-- What may stand before the equals sign. -/
structure PlainKey (key : Text) : Prop where
  ne_nil : key ≠ []
  chars : ∀ ch ∈ key, isSpace ch = false ∧ ch ≠ '"' ∧ ch ≠ '#' ∧ ch ≠ '=' ∧ ch ≠ '['

/-- The test that a fixed key passes. -/
lemma plainKey_of_all {key : Text} (hne : key ≠ [])
    (h : (key.all fun ch => !isSpace ch && ch != '"' && ch != '#' && ch != '=' && ch != '[') = true) :
    PlainKey key :=
  ⟨hne, fun ch hch => by simpa [and_assoc] using List.all_eq_true.1 h ch hch⟩

/-- What may stand behind it. -/
structure WrittenValue (value : Text) : Prop where
  ne_nil : value ≠ []
  trimmed : Trimmed value
  clean : Clean value
  line : '\n' ∉ value

/-- A line of a manifest. -/
inductive DocumentLine
  | field (key value : Text)
  | table (name : Text)
  | blank

def DocumentLine.text : DocumentLine → Text
  | .field key value => key ++ " = ".toList ++ value
  | .table name => '[' :: name ++ [']']
  | .blank => []

/-- A line that is read as what it is. -/
def DocumentLine.Proper (tables : List Text) : DocumentLine → Prop
  | .field key value => PlainKey key ∧ WrittenValue value
  | .table name => PlainKey name ∧ name ∈ tables
  | .blank => True

/-- The assignments of lines, in a table and behind a number of lines. -/
def assignmentsOf : Text → ℕ → List DocumentLine → List Assignment
  | _, _, [] => []
  | table, number, .field key value :: rest =>
    ⟨table, key, value, number + 1⟩ :: assignmentsOf table (number + 1) rest
  | _, number, .table name :: rest => assignmentsOf name (number + 1) rest
  | table, number, .blank :: rest => assignmentsOf table (number + 1) rest

lemma trim_of_trimmed {text : Text} (h : Trimmed text) : trim text = text := by
  have := trim_append blank_nil h blank_nil
  rwa [List.nil_append, List.append_nil] at this

lemma Clean.strip {text : Text} (h : Clean text) : stripComment false false text = text := by
  have := h []
  rwa [List.append_nil, stripComment, List.append_nil] at this

lemma PlainKey.trimmed {key : Text} (h : PlainKey key) : Trimmed key where
  head ch hch := (h.chars ch (List.mem_of_mem_head? hch)).1
  last ch hch := (h.chars ch (List.mem_of_mem_getLast? hch)).1

lemma PlainKey.clean {key : Text} (h : PlainKey key) : Clean key :=
  clean_of_forall fun ch hch => ⟨(h.chars ch hch).2.1, (h.chars ch hch).2.2.1⟩

lemma blank_space : Blank [' '] := by
  intro ch hch
  rw [List.mem_singleton.1 hch]
  rfl

lemma line_field {tables : List Text} {kind : String} {key value : Text} (hkey : PlainKey key)
    (hvalue : WrittenValue value) (reader : AssignmentReader) :
    reader.line tables kind (key ++ " = ".toList ++ value) =
      .ok ⟨reader.table, reader.assignments ++ [⟨reader.table, key, value, reader.lineNumber + 1⟩],
        reader.lineNumber + 1⟩ := by
  have hequals : " = ".toList = [' ', '=', ' '] := rfl
  obtain ⟨ch, key', rfl⟩ := List.exists_cons_of_ne_nil hkey.ne_nil
  have hch := hkey.chars ch (.head _)
  have hclean : Clean (ch :: key' ++ " = ".toList ++ value) :=
    (hkey.clean.append (clean_of_all (by decide))).append hvalue.clean
  have htrimmed : Trimmed (ch :: key' ++ " = ".toList ++ value) := by
    constructor
    · intro other hother
      cases hother
      exact hch.1
    · intro other hother
      rw [List.getLast?_append_of_ne_nil _ hvalue.ne_nil] at hother
      exact hvalue.trimmed.last other hother
  have hcut : cut '=' (ch :: key' ++ " = ".toList ++ value) =
      some (ch :: key' ++ [' '], ' ' :: value) := by
    rw [cut_eq_some_iff, hequals]
    refine ⟨by simp, ?_⟩
    rw [List.mem_append, not_or]
    exact ⟨fun hmem => (hkey.chars _ hmem).2.2.2.1 rfl, by decide⟩
  have hfirst : trim (ch :: key' ++ [' ']) = ch :: key' := by
    have := trim_append blank_nil hkey.trimmed blank_space
    rwa [List.nil_append] at this
  have hsecond : trim (' ' :: value) = value := by
    have := trim_append blank_space hvalue.trimmed blank_nil
    rwa [List.append_nil] at this
  unfold AssignmentReader.line
  dsimp only
  rw [hclean.strip, trim_of_trimmed htrimmed]
  split
  case h_1 heq => cases heq
  case h_2 heq => exact absurd (List.cons.inj heq).1 hch.2.2.2.2
  case h_3 =>
    rw [hcut]
    dsimp only
    rw [hfirst, hsecond]

lemma line_table {tables : List Text} {kind : String} {name : Text} (hname : PlainKey name)
    (hmem : name ∈ tables) (reader : AssignmentReader) :
    reader.line tables kind ('[' :: name ++ [']']) =
      .ok ⟨name, reader.assignments, reader.lineNumber + 1⟩ := by
  have hclean : Clean ('[' :: name ++ [']']) :=
    (clean_cons (by decide) (by decide) hname.clean).append (clean_of_all (by decide))
  have htrimmed : Trimmed ('[' :: name ++ [']']) := trimmed_bracketed rfl rfl name
  have hlength : ¬ (('[' :: name ++ [']']).length < 3 ∨
      ('[' :: name ++ [']']).getLast? ≠ some ']') := by
    rw [not_or, List.getLast?_concat, not_not]
    have hpos := List.length_pos_of_ne_nil hname.ne_nil
    refine ⟨?_, rfl⟩
    rw [List.length_append, List.length_cons, List.length_singleton]
    omega
  unfold AssignmentReader.line
  dsimp only
  rw [hclean.strip, trim_of_trimmed htrimmed]
  change (if ('[' :: name ++ [']']).length < 3 ∨ ('[' :: name ++ [']']).getLast? ≠ some ']' then _
    else _) = _
  rw [if_neg hlength, List.cons_append, List.tail_cons, List.dropLast_concat,
    trim_of_trimmed hname.trimmed, if_pos hmem]

lemma line_blank {tables : List Text} {kind : String} (reader : AssignmentReader) :
    reader.line tables kind [] =
      .ok ⟨reader.table, reader.assignments, reader.lineNumber + 1⟩ := rfl

/-! ## Documents -/

lemma newline_notMem_plain {key : Text} (h : PlainKey key) : '\n' ∉ key := fun hmem =>
  absurd (h.chars _ hmem).1 (by decide)

lemma DocumentLine.Proper.newline_notMem {tables : List Text} {line : DocumentLine}
    (h : line.Proper tables) : '\n' ∉ line.text := by
  cases line with
  | field key value =>
    simp only [DocumentLine.text, List.mem_append, not_or]
    exact ⟨⟨newline_notMem_plain h.1, by decide⟩, h.2.line⟩
  | table name =>
    simp only [DocumentLine.text, List.cons_append, List.mem_cons, List.mem_append, not_or]
    exact ⟨by decide, newline_notMem_plain h.1, by decide, List.not_mem_nil⟩
  | blank => exact List.not_mem_nil

/-- A text that was written line by line has one more line, which is empty. -/
lemma splitOn_flatMap_ended {all : List Text} (h : ∀ line ∈ all, '\n' ∉ line) :
    (all.flatMap ended).splitOn '\n' = all ++ [[]] := by
  induction all with
  | nil => rfl
  | cons line all ih =>
    rw [List.flatMap_cons, ended, List.append_assoc, List.singleton_append,
      List.splitOn_append_cons_self_of_not_mem (h line List.mem_cons_self),
      ih fun other hother => h other (.tail _ hother)]
    rfl

lemma run_document {tables : List Text} {kind : String} {document : List DocumentLine}
    (h : ∀ line ∈ document, line.Proper tables) (reader : AssignmentReader) :
    ∃ out, reader.run tables kind (document.map DocumentLine.text ++ [[]]) = .ok out ∧
      out.assignments = reader.assignments ++
        assignmentsOf reader.table reader.lineNumber document := by
  induction document generalizing reader with
  | nil => exact ⟨_, rfl, (List.append_nil _).symm⟩
  | cons line document ih =>
    obtain ⟨hline, hrest⟩ := List.forall_mem_cons.1 h
    cases line with
    | field key value =>
      obtain ⟨out, hrun, hout⟩ := ih hrest ⟨reader.table, reader.assignments ++
        [⟨reader.table, key, value, reader.lineNumber + 1⟩], reader.lineNumber + 1⟩
      refine ⟨out, ?_, ?_⟩
      · rw [List.map_cons, List.cons_append, AssignmentReader.run, DocumentLine.text,
          line_field hline.1 hline.2]
        exact hrun
      · rw [hout, List.append_assoc]
        rfl
    | table name =>
      obtain ⟨out, hrun, hout⟩ := ih hrest ⟨name, reader.assignments, reader.lineNumber + 1⟩
      refine ⟨out, ?_, hout⟩
      rw [List.map_cons, List.cons_append, AssignmentReader.run, DocumentLine.text,
        line_table hline.1 hline.2]
      exact hrun
    | blank =>
      obtain ⟨out, hrun, hout⟩ := ih hrest ⟨reader.table, reader.assignments, reader.lineNumber + 1⟩
      refine ⟨out, ?_, hout⟩
      rw [List.map_cons, List.cons_append, AssignmentReader.run, DocumentLine.text, line_blank]
      exact hrun

/-- The assignments of a document are read back. -/
theorem parseAssignments_document {tables : List Text} {kind : String}
    {document : List DocumentLine} (h : ∀ line ∈ document, line.Proper tables) :
    parseAssignments (document.flatMap fun line => ended line.text) tables kind =
      .ok (assignmentsOf [] 0 document) := by
  obtain ⟨out, hrun, hout⟩ := @run_document tables kind document h {}
  have hlines : ∀ line ∈ document.map DocumentLine.text, '\n' ∉ line := by
    rw [List.forall_mem_map]
    exact fun line hline => (h line hline).newline_notMem
  rw [parseAssignments, ← List.flatMap_map, splitOn_flatMap_ended hlines, hrun]
  exact congrArg Except.ok hout

/-! ## Written values -/

lemma newline_notMem_quote (value : Text) : '\n' ∉ quote value := by
  have hinner : '\n' ∉ value.flatMap escape := by
    rw [List.mem_flatMap]
    rintro ⟨ch, -, hch⟩
    unfold escape at hch
    split at hch
    case h_6 _ _ hnewline _ _ => exact hnewline (List.mem_singleton.1 hch).symm
    all_goals exact absurd hch (by decide)
  rw [quote, List.cons_append, List.mem_cons, List.mem_append, not_or, not_or]
  exact ⟨by decide, hinner, by decide⟩

lemma writtenValue_quote (value : Text) : WrittenValue (quote value) where
  ne_nil := List.cons_ne_nil _ _
  trimmed := trimmed_quoted _
  clean := clean_quote value
  line := newline_notMem_quote value

lemma writtenValue_decimal (n : ℕ) : WrittenValue (decimal n) where
  ne_nil := Nat.toDigits_ne_nil
  trimmed := by
    constructor
    · exact fun ch hch => isSpace_of_isDigit (isDigit_of_mem_decimal (List.mem_of_mem_head? hch))
    · exact fun ch hch =>
        isSpace_of_isDigit (isDigit_of_mem_decimal (List.mem_of_mem_getLast? hch))
  clean := clean_decimal n
  line := newline_notMem_decimal n

/-- The elements of an array, with a comma and a blank between them. -/
lemma arrayBody_intercalate (values : List Text) {blank : Text} (hblank : Blank blank) :
    ArrayBody values (blank ++ [',', ' '].intercalate (values.map quote)) := by
  induction values generalizing blank with
  | nil =>
    rw [List.map_nil, List.intercalate_nil, List.append_nil]
    exact .empty hblank
  | cons value values ih =>
    have hescaped := escaped_flatMap value
    cases values with
    | nil =>
      rw [List.map_singleton, List.intercalate_singleton, ← List.append_nil (blank ++ quote value)]
      exact .last hblank hescaped blank_nil
    | cons other values =>
      have hbody := ArrayBody.cons hblank hescaped blank_nil (ih blank_space)
      have htext : blank ++ [',', ' '].intercalate ((value :: other :: values).map quote) =
          blank ++ quote value ++ [] ++
            ',' :: ([' '] ++ [',', ' '].intercalate ((other :: values).map quote)) := by
        rw [List.map_cons, List.map_cons, List.intercalate_cons_cons]
        simp
      rw [htext]
      exact hbody

lemma clean_intercalate (values : List Text) :
    Clean ([',', ' '].intercalate (values.map quote)) ∧
      '\n' ∉ [',', ' '].intercalate (values.map quote) := by
  induction values with
  | nil => exact ⟨clean_nil, List.not_mem_nil⟩
  | cons value values ih =>
    cases values with
    | nil =>
      rw [List.map_singleton, List.intercalate_singleton]
      exact ⟨clean_quote value, newline_notMem_quote value⟩
    | cons other values =>
      rw [List.map_cons, List.map_cons, List.intercalate_cons_cons, ← List.map_cons,
        List.mem_append, List.mem_append, not_or, not_or]
      exact ⟨((clean_quote value).append (clean_of_all (by decide))).append ih.1,
        ⟨newline_notMem_quote value, by decide⟩, ih.2⟩

lemma writtenValue_renderArray (values : List Text) : WrittenValue (renderArray values) where
  ne_nil := List.cons_ne_nil _ _
  trimmed := trimmed_bracketed rfl rfl _
  clean := (clean_cons (by decide) (by decide) (clean_intercalate _).1).append
    (clean_of_all (by decide))
  line := by
    rw [renderArray, List.cons_append, List.mem_cons, List.mem_append, not_or, not_or]
    exact ⟨by decide, (clean_intercalate _).2, by decide⟩

/-- An array is read back, sorted. -/
theorem parseStringArray_renderArray (values : List Text) :
    parseStringArray (renderArray values) = some (sortTexts values) := by
  apply parseStringArray_of_spells
  exact ⟨[], _, [], blank_nil, blank_nil, arrayBody_intercalate (sortTexts values) blank_nil,
    by rw [renderArray]; simp⟩

end ManifestToml

end Registry

end Chtholly
