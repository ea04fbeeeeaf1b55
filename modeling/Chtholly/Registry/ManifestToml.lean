import Chtholly.Scanning.Text
import Chtholly.Registry.Fields

/-!
# Assignments in a manifest

The metadata of a registry is written in a small part of TOML: one assignment on a line, in tables
whose names the caller allows.  A value is a quoted string, a number or an array of quoted strings,
and is taken apart only when a field is read.

## Main definitions

* `Registry.ManifestToml.Assignment` — a key with its value, and the table it stands in.
* `Registry.ManifestToml.parseAssignments` — the assignments of a text.
* `Registry.ManifestToml.parseString`, `Registry.ManifestToml.parseUnsigned`,
  `Registry.ManifestToml.parseStringArray` — the three kinds of values.

## Main results

* `Registry.ManifestToml.parseUnsigned_decimal` — a number that was written can be read.
-/

set_option autoImplicit false

namespace Chtholly

namespace Registry

namespace ManifestToml

structure Assignment where
  table : Text
  key : Text
  value : Text
  line : ℕ

def Assignment.fullKey (assignment : Assignment) : Text :=
  if assignment.table = [] then assignment.key
  else assignment.table ++ '.' :: assignment.key

/-- `std::isspace`. -/
def isSpace (ch : Char) : Bool :=
  ch == ' ' || (9 ≤ ch.toNat && ch.toNat ≤ 13)

def trim (value : Text) : Text :=
  ((value.dropWhile isSpace).reverse.dropWhile isSpace).reverse

/-- The line up to the first `#` outside of a string. -/
def stripComment (inString escaped : Bool) : Text → Text
  | [] => []
  | ch :: rest =>
    if escaped then ch :: stripComment inString false rest
    else if inString && ch == '\\' then ch :: stripComment inString true rest
    else if ch == '"' then ch :: stripComment (!inString) false rest
    else if !inString && ch == '#' then []
    else ch :: stripComment inString false rest

/-- The value between two delimiters, if it has them. -/
def between (first last : Char) (value : Text) : Option Text :=
  if 2 ≤ value.length ∧ value.head? = some first ∧ value.getLast? = some last then
    some value.tail.dropLast
  else none

/-- The text that an escaped text stands for. -/
def unescape (escaped : Bool) : Text → Option Text
  | [] => if escaped then none else some []
  | ch :: rest =>
    if escaped then
      match ch with
      | '"' => (unescape false rest).map ('"' :: ·)
      | '\\' => (unescape false rest).map ('\\' :: ·)
      | 'n' => (unescape false rest).map ('\n' :: ·)
      | 'r' => (unescape false rest).map ('\r' :: ·)
      | 't' => (unescape false rest).map ('\t' :: ·)
      | _ => none
    else if ch = '\\' then unescape true rest
    else if ch = '"' then none
    else (unescape false rest).map (ch :: ·)

def parseString (value : Text) : Option Text :=
  (between '"' '"' (trim value)).bind (unescape false)

def parseUnsigned (value : Text) : Option UInt64 :=
  Registry.parseUnsigned (trim value)

/-- The text up to the closing quote, and the text after it. -/
def untilQuote (escaped : Bool) : Text → Option (Text × Text)
  | [] => none
  | ch :: rest =>
    if !escaped && ch == '"' then some ([], rest)
    else (untilQuote (!escaped && ch == '\\') rest).map fun p => (ch :: p.1, p.2)

/-- The elements of an array, from the text between its brackets.  Each round but the last consumes
a quoted string, so the length of the text bounds the number of rounds.  What follows a bracket
inside of the array is not looked at. -/
def elements : ℕ → Text → Option (List Text)
  | 0, _ => none
  | fuel + 1, text =>
    match text.dropWhile isSpace with
    | [] => some []
    | ']' :: _ => some []
    | '"' :: rest =>
      (untilQuote false rest).bind fun p =>
        (parseString ('"' :: p.1 ++ ['"'])).bind fun element =>
          match p.2.dropWhile isSpace with
          | [] => some [element]
          | ',' :: rest => (elements fuel rest).map (element :: ·)
          | ']' :: _ => some [element]
          | _ => none
    | _ => none

def parseStringArray (value : Text) : Option (List Text) :=
  (between '[' ']' (trim value)).bind fun text => elements (text.length + 1) text

/-- The reader of assignments: the current table, the assignments read, the number of the line. -/
structure AssignmentReader where
  table : Text := []
  assignments : List Assignment := []
  lineNumber : ℕ := 0

namespace AssignmentReader

def line (allowedTables : List Text) (manifestKind : String) (reader : AssignmentReader)
    (rawLine : Text) : Except String AssignmentReader :=
  let lineNumber := reader.lineNumber + 1
  let line := trim (stripComment false false rawLine)
  match line with
  | [] => .ok { reader with lineNumber := lineNumber }
  | '[' :: _ =>
    if line.length < 3 ∨ line.getLast? ≠ some ']' then
      .error ("invalid " ++ manifestKind ++ " table at line " ++ toString lineNumber)
    else
      let table := trim line.tail.dropLast
      if table ∈ allowedTables then .ok { reader with table := table, lineNumber := lineNumber }
      else
        .error ("unknown " ++ manifestKind ++ " table '" ++ String.ofList table ++ "' at line " ++
          toString lineNumber)
  | _ =>
    match cut '=' line with
    | none => .error ("expected key/value assignment at line " ++ toString lineNumber)
    | some (key, value) =>
      .ok
        { reader with
          assignments := reader.assignments ++ [⟨reader.table, trim key, trim value, lineNumber⟩]
          lineNumber := lineNumber }

def run (allowedTables : List Text) (manifestKind : String) (reader : AssignmentReader) :
    List Text → Except String AssignmentReader
  | [] => .ok reader
  | rawLine :: rest =>
    match reader.line allowedTables manifestKind rawLine with
    | .error message => .error message
    | .ok reader => reader.run allowedTables manifestKind rest

end AssignmentReader

def parseAssignments (text : Text) (allowedTables : List Text) (manifestKind : String) :
    Except String (List Assignment) :=
  (AssignmentReader.run allowedTables manifestKind {} (text.splitOn '\n')).map
    AssignmentReader.assignments

/-! ## Numbers -/

lemma trim_of_all {value : Text} (h : ∀ ch ∈ value, isSpace ch = false) : trim value = value := by
  have hdrop : ∀ l : Text, (∀ ch ∈ l, isSpace ch = false) → l.dropWhile isSpace = l := by
    intro l hl
    cases l with
    | nil => rfl
    | cons ch l => rw [List.dropWhile_cons, hl ch (.head _), if_neg (by simp)]
  rw [trim, hdrop value h, hdrop value.reverse fun ch hch => h ch (List.mem_reverse.mp hch),
    List.reverse_reverse]

lemma isSpace_of_isDigit {ch : Char} (h : ch.isDigit = true) : isSpace ch = false := by
  have hrange : 48 ≤ ch.toNat := by
    simp only [Char.isDigit, Bool.and_eq_true, decide_eq_true_eq] at h
    exact h.1
  have hne : ch ≠ ' ' := by
    rintro rfl
    revert hrange
    decide
  simp only [isSpace, Bool.or_eq_false_iff, Bool.and_eq_false_iff, beq_eq_false_iff_ne,
    decide_eq_false_iff_not]
  exact ⟨hne, .inr (by omega)⟩

theorem parseUnsigned_decimal {n : ℕ} (h : n < 2 ^ 64) :
    parseUnsigned (decimal n) = some (UInt64.ofNat n) := by
  rw [parseUnsigned, trim_of_all fun ch hch => isSpace_of_isDigit (isDigit_of_mem_decimal hch)]
  exact Registry.parseUnsigned_decimal h

end ManifestToml

end Registry

end Chtholly
