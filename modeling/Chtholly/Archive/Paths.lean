import Chtholly.FileTree.Write
import Chtholly.Lexer.Utf8
import Chtholly.Registry.Fields

/-!
# The paths in an archive

An archive names its files by relative paths.  A path is safe when it is valid UTF-8 and its
components, which a slash separates, are names: none is empty, and none is the directory itself or
the one above it.

## Main definitions

* `Archive.safeArchivePath` — the check.
* `Archive.resolve` — where a path leads from a directory.

## Main results

* `Archive.resolve_of_safe` — a safe path leads down, by its components.
* `Archive.above_components_iff` — a path is on the way to another one exactly when the other one
  continues it with a slash.
-/

set_option autoImplicit false

namespace Chtholly

namespace Archive

open Registry (Text Bytes)

/-- The bytes are encoded characters, one after the other. -/
def isValidUtf8 : Bytes → Bool
  | [] => true
  | first :: rest =>
    if first < 0x80 then isValidUtf8 rest
    else
      match Lexer.readFirst first with
      | none => false
      | some (count, minimum, bits) =>
        if rest.length + 1 < count then false
        else
          match Lexer.readContinuations bits (rest.take (count - 1)) with
          | none => false
          | some codepoint =>
            if Lexer.validScalar minimum codepoint then isValidUtf8 (rest.drop (count - 1))
            else false
termination_by bytes => bytes.length
decreasing_by
  · simp
  · simp only [List.length_drop, List.length_cons]
    omega

/-- The parts of a path between its slashes. -/
def components (path : Text) : List Text := path.splitOn '/'

def safeArchivePath (path : Text) : Bool :=
  if path = [] ∨ isValidUtf8 path.bytes = false ∨ path.head? = some '/' ∨ '\\' ∈ path ∨
      ':' ∈ path ∨ path.getLast? = some '/' then
    false
  else
    (components path).all fun component =>
      !(component = [] || component = ".".toList || component = "..".toList)

/-- One part of a path, taken from a directory. -/
def enter (directory : List Text) (component : Text) : List Text :=
  if component = [] ∨ component = ".".toList then directory
  else if component = "..".toList then directory.dropLast
  else directory ++ [component]

/-- Where a path leads from a directory.  One that starts with a slash leads there from the top. -/
def resolve (directory : List Text) (path : Text) : List Text :=
  (components path).foldl enter (if path.head? = some '/' then [] else directory)

example : resolve ["a".toList] "b/../../c".toList = ["c".toList] := by decide

/-! ## Components -/

lemma notMem_of_mem_splitOn {sep : Char} {text field : Text} (h : field ∈ text.splitOn sep) :
    sep ∉ field := by
  induction text generalizing field with
  | nil =>
    rw [List.splitOn_nil, List.mem_singleton] at h
    rw [h]
    exact List.not_mem_nil
  | cons ch text ih =>
    rw [List.splitOn_cons_eq_if_modifyHead] at h
    split at h
    case isTrue =>
      obtain rfl | h := List.mem_cons.1 h
      · exact List.not_mem_nil
      · exact ih h
    case isFalse hch =>
      cases hsplit : text.splitOn sep with
      | nil => exact absurd hsplit (List.splitOn_ne_nil sep text)
      | cons first rest =>
        rw [hsplit, List.modifyHead_cons] at h
        obtain rfl | h := List.mem_cons.1 h
        · rw [List.mem_cons, not_or]
          exact ⟨fun heq => hch (beq_iff_eq.2 heq.symm), ih (hsplit ▸ List.mem_cons_self)⟩
        · exact ih (hsplit ▸ List.mem_cons_of_mem _ h)

lemma components_ne_nil (path : Text) : components path ≠ [] := List.splitOn_ne_nil '/' path

lemma components_injective : Function.Injective components := by
  intro path other h
  have hjoin := congrArg (['/'].intercalate ·) h
  simpa only [components, List.intercalate_splitOn] using hjoin

lemma components_append (path rest : Text) :
    components (path ++ '/' :: rest) = components path ++ components rest :=
  List.splitOn_append_cons_self path rest

/-- A path is on the way to another one exactly when the other one continues it with a slash. -/
lemma above_components_iff {path other : Text} :
    FileTree.Above (components path) (components other) ↔ path ++ ['/'] <+: other := by
  constructor
  · rintro ⟨⟨more, hmore⟩, hne⟩
    have hnil : more ≠ [] := by
      rintro rfl
      exact hne (by rw [← hmore, List.append_nil])
    have hslash : ∀ component ∈ more, '/' ∉ component := fun component hcomponent =>
      notMem_of_mem_splitOn (hmore ▸ List.mem_append_right _ hcomponent :
        component ∈ components other)
    refine ⟨['/'].intercalate more, components_injective ?_⟩
    rw [List.append_assoc, List.singleton_append, components_append, ← hmore]
    exact congrArg _ (List.splitOn_intercalate '/' hslash hnil)
  · rintro ⟨rest, rfl⟩
    rw [List.append_assoc, List.singleton_append, components_append]
    refine ⟨List.prefix_append _ _, fun heq => components_ne_nil rest ?_⟩
    exact List.self_eq_append_right.1 heq

/-! ## Safe paths -/

/-- What is known of a safe path. -/
structure Safe (path : Text) : Prop where
  relative : path.head? ≠ some '/'
  names : ∀ component ∈ components path,
    component ≠ [] ∧ component ≠ ".".toList ∧ component ≠ "..".toList

lemma safe_of_safeArchivePath {path : Text} (h : safeArchivePath path = true) : Safe path := by
  unfold safeArchivePath at h
  split at h
  case isTrue => cases h
  case isFalse hnot =>
    simp only [not_or] at hnot
    refine ⟨hnot.2.2.1, fun component hcomponent => ?_⟩
    have hname := List.all_eq_true.1 h component hcomponent
    simpa [not_or, and_assoc] using hname

lemma Safe.nil_lt {path : Text} (h : Safe path) : [] < path := by
  cases path with
  | nil => exact absurd rfl (h.names [] List.mem_cons_self).1
  | cons ch path => exact List.nil_lt_cons ch path

lemma foldl_enter {names : List Text} (h : ∀ component ∈ names,
    component ≠ [] ∧ component ≠ ".".toList ∧ component ≠ "..".toList) (directory : List Text) :
    names.foldl enter directory = directory ++ names := by
  induction names generalizing directory with
  | nil => exact (List.append_nil directory).symm
  | cons name names ih =>
    obtain ⟨hempty, hself, hup⟩ := h name List.mem_cons_self
    rw [List.foldl_cons, enter, if_neg (not_or.2 ⟨hempty, hself⟩), if_neg hup,
      ih fun other hother => h other (List.mem_cons_of_mem _ hother), List.append_assoc]
    rfl

/-- A safe path leads down, by its components. -/
theorem resolve_of_safe {path : Text} (h : Safe path) (directory : List Text) :
    resolve directory path = directory ++ components path := by
  rw [resolve, if_neg h.relative, foldl_enter h.names]

end Archive

end Chtholly
