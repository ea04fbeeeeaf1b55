import Mathlib.Data.List.Basic

/-!
# Versions and requirements

Packages have versions of three numbers with an optional prerelease and build metadata, and ask for
versions by requirements such as `^1.2.3` or `>=1.0.0 <2.0.0`.

The characters of the model are the bytes of the source's strings, classified as in the C locale.  The
numbers are of the type `int`; the model lets a sum that does not fit wrap around.

## Main definitions

* `SemVer.parseSemVer`, `SemVer.compareSemVer` — reading and comparing versions.
* `SemVer.parseVersionRequirement`, `SemVer.versionSatisfiesRequirement` — requirements.
* `SemVer.selectHighestVersion` — the highest version of a list that satisfies a requirement.
-/

set_option autoImplicit false

namespace Chtholly

namespace SemVer

abbrev Text := List Char

/-- `SemVer`. -/
structure Version where
  major : Int32 := 0
  minor : Int32 := 0
  patch : Int32 := 0
  prerelease : Text := []
  build : Text := []
  deriving DecidableEq

structure VersionRequirement where
  text : Text
  deriving DecidableEq

inductive ComparatorOp
  | equal
  | greaterEqual
  | lessEqual
  | greater
  | less
  deriving DecidableEq

structure Comparator where
  op : ComparatorOp := .equal
  version : Version
  deriving DecidableEq

/-! ## Numbers and identifiers -/

def isIdentifierChar (ch : Char) : Bool := ch.isAlphanum || ch == '-'

/-- The digits at the front of a text, after digits of the value `value`. -/
def readDigits (value : Int32) : Text → Int32 × Text
  | [] => (value, [])
  | ch :: rest =>
    if ch.isDigit then readDigits (value * 10 + Int32.ofNat (ch.toNat - '0'.toNat)) rest
    else (value, ch :: rest)

/-- `parseNumber`, with the text from the cursor on. -/
def parseNumber (text : Text) : Option (Int32 × Text) :=
  match text with
  | [] => none
  | ch :: rest =>
    if ch.isDigit = false then none
    else if ch = '0' ∧ rest.head?.any Char.isDigit = true then none
    else some (readDigits 0 text)

/-- The loop of `parseIdentifiers`: the text that was read and the rest. -/
def readIdentifiers (sawChar segmentHasChar : Bool) (out : Text) : Text → Option (Text × Text)
  | [] => if sawChar = false ∨ segmentHasChar = false then none else some (out, [])
  | ch :: rest =>
    if ch = '.' then
      if segmentHasChar = false then none else readIdentifiers sawChar false (out ++ [ch]) rest
    else if isIdentifierChar ch = false then
      if sawChar = false ∨ segmentHasChar = false then none else some (out, ch :: rest)
    else readIdentifiers true true (out ++ [ch]) rest

def parseIdentifiers (text : Text) : Option (Text × Text) := readIdentifiers false false [] text

def isNumericIdentifier (text : Text) : Bool := !text.isEmpty && text.all Char.isDigit

/-- The parts of a text between its dots. -/
def splitPrerelease : Text → List Text
  | [] => [[]]
  | ch :: rest =>
    if ch = '.' then [] :: splitPrerelease rest
    else
      match splitPrerelease rest with
      | [] => [[ch]]
      | part :: parts => (ch :: part) :: parts

def prereleaseIdentifiersAreValid (text : Text) : Bool :=
  (splitPrerelease text).all fun part =>
    !(isNumericIdentifier part && decide (1 < part.length) && part.head? == some '0')

/-! ## Versions -/

/-- The prerelease after a hyphen, and the rest of the text. -/
def parsePrerelease (text : Text) (version : Version) : Text → Except String (Version × Text)
  | '-' :: rest =>
    match parseIdentifiers rest with
    | some (prerelease, rest) =>
      if prereleaseIdentifiersAreValid prerelease then
        .ok ({ version with prerelease := prerelease }, rest)
      else .error ("invalid semantic version prerelease '" ++ String.ofList text ++ "'")
    | none => .error ("invalid semantic version prerelease '" ++ String.ofList text ++ "'")
  | rest => .ok (version, rest)

/-- The build metadata after a plus sign, and the rest of the text. -/
def parseBuild (text : Text) (version : Version) : Text → Except String (Version × Text)
  | '+' :: rest =>
    match parseIdentifiers rest with
    | some (build, rest) => .ok ({ version with build := build }, rest)
    | none => .error ("invalid semantic version build metadata '" ++ String.ofList text ++ "'")
  | rest => .ok (version, rest)

/-- The version with what stands after its numbers. -/
def parseSuffixes (text : Text) (version : Version) (rest : Text) : Except String Version := do
  let (version, rest) ← parsePrerelease text version rest
  let (version, rest) ← parseBuild text version rest
  if rest ≠ [] then .error ("invalid semantic version '" ++ String.ofList text ++ "'")
  else .ok version

/-- The three numbers and the text after them. -/
def parseCore (text : Text) : Option (Version × Text) :=
  match parseNumber text with
  | some (major, '.' :: rest) =>
    match parseNumber rest with
    | some (minor, '.' :: rest) =>
      match parseNumber rest with
      | some (patch, rest) =>
        some ({ major := major, minor := minor, patch := patch }, rest)
      | none => none
    | _ => none
  | _ => none

def parseSemVer (text : Text) : Except String Version :=
  match parseCore text with
  | some (version, rest) => parseSuffixes text version rest
  | none => .error ("invalid semantic version '" ++ String.ofList text ++ "'")

/-- One turn of the loop of `comparePrerelease`. -/
def compareIdentifier (lhs rhs : Text) : Int :=
  if isNumericIdentifier lhs = true ∧ isNumericIdentifier rhs = true then
    if lhs.length ≠ rhs.length then if lhs.length < rhs.length then -1 else 1
    else if lhs ≠ rhs then if lhs < rhs then -1 else 1
    else 0
  else if isNumericIdentifier lhs ≠ isNumericIdentifier rhs then
    if isNumericIdentifier lhs = true then -1 else 1
  else if lhs ≠ rhs then if lhs < rhs then -1 else 1
  else 0

/-- The loop over the parts, and the comparison of their numbers at its end. -/
def compareParts : List Text → List Text → Int
  | [], [] => 0
  | [], _ :: _ => -1
  | _ :: _, [] => 1
  | lhs :: lhsParts, rhs :: rhsParts =>
    if compareIdentifier lhs rhs ≠ 0 then compareIdentifier lhs rhs
    else compareParts lhsParts rhsParts

def comparePrerelease (lhs rhs : Text) : Int :=
  if lhs = [] ∧ rhs = [] then 0
  else if lhs = [] then 1
  else if rhs = [] then -1
  else compareParts (splitPrerelease lhs) (splitPrerelease rhs)

def compareSemVer (lhs rhs : Version) : Int :=
  if lhs.major ≠ rhs.major then if lhs.major < rhs.major then -1 else 1
  else if lhs.minor ≠ rhs.minor then if lhs.minor < rhs.minor then -1 else 1
  else if lhs.patch ≠ rhs.patch then if lhs.patch < rhs.patch then -1 else 1
  else comparePrerelease lhs.prerelease rhs.prerelease

/-! ## Requirements -/

/-- `std::isspace`. -/
def isSpace (ch : Char) : Bool :=
  ch == ' ' || ch == '\t' || ch == '\n' || ch == '\x0b' || ch == '\x0c' || ch == '\r'

/-- The words that `>>` reads from a text, where `word` was read of the first. -/
def readTokens (word : Text) : Text → List Text
  | [] => if word = [] then [] else [word]
  | ch :: rest =>
    if isSpace ch then if word = [] then readTokens [] rest else word :: readTokens [] rest
    else readTokens (word ++ [ch]) rest

def tokens (text : Text) : List Text := readTokens [] text

/-- The operator of a token, and its version. -/
def splitOperator : Text → ComparatorOp × Text
  | '>' :: '=' :: rest => (.greaterEqual, rest)
  | '<' :: '=' :: rest => (.lessEqual, rest)
  | '>' :: rest => (.greater, rest)
  | '<' :: rest => (.less, rest)
  | rest => (.equal, rest)

def parseComparator (token : Text) : Except String Comparator := do
  let version ← parseSemVer (splitOperator token).2
  return { op := (splitOperator token).1, version := version }

/-- The version below which `^base` stays. -/
def caretUpper (base : Version) : Version :=
  if 0 < base.major then { major := base.major + 1, minor := 0, patch := 0 }
  else if 0 < base.minor then { base with minor := base.minor + 1, patch := 0, prerelease := [], build := [] }
  else { base with patch := base.patch + 1, prerelease := [], build := [] }

/-- The version below which `~base` stays. -/
def tildeUpper (base : Version) : Version :=
  { base with minor := base.minor + 1, patch := 0, prerelease := [], build := [] }

/-- The comparators of one token. -/
def expandToken : Text → Except String (List Comparator)
  | '^' :: rest => do
    let base ← parseSemVer rest
    return [{ op := .greaterEqual, version := base }, { op := .less, version := caretUpper base }]
  | '~' :: rest => do
    let base ← parseSemVer rest
    return [{ op := .greaterEqual, version := base }, { op := .less, version := tildeUpper base }]
  | token => do
    let comparator ← parseComparator token
    return [comparator]

/-- The loop of `expandRequirement`. -/
def expandTokens : List Text → Except String (List Comparator)
  | [] => .ok []
  | token :: rest => do
    let first ← expandToken token
    let others ← expandTokens rest
    return first ++ others

def expandRequirement (requirement : VersionRequirement) : Except String (List Comparator) := do
  let comparators ← expandTokens (tokens requirement.text)
  if comparators = [] then .error "version requirement cannot be empty" else .ok comparators

def comparatorMatches (version : Version) (comparator : Comparator) : Bool :=
  let cmp := compareSemVer version comparator.version
  match comparator.op with
  | .equal => decide (cmp = 0)
  | .greaterEqual => decide (0 ≤ cmp)
  | .lessEqual => decide (cmp ≤ 0)
  | .greater => decide (0 < cmp)
  | .less => decide (cmp < 0)

def parseVersionRequirement (text : Text) : Except String VersionRequirement := do
  let _ ← expandRequirement ⟨text⟩
  return ⟨text⟩

/-- Whether a version with a prerelease starts a text, as far as the scan looks. -/
def prereleaseAt (text : Text) : Bool :=
  match parseCore text with
  | some (_, '-' :: _) => true
  | _ => false

/-- The scan of a text from each of its digits on. -/
def containsPrereleaseVersion : Text → Bool
  | [] => false
  | ch :: rest => (ch.isDigit && prereleaseAt (ch :: rest)) || containsPrereleaseVersion rest

def versionRequirementAllowsPrerelease (requirement : VersionRequirement) : Bool :=
  containsPrereleaseVersion requirement.text

def versionSatisfiesRequirement (version : Version) (requirement : VersionRequirement) : Bool :=
  if version.prerelease ≠ [] ∧ versionRequirementAllowsPrerelease requirement = false then false
  else
    match expandRequirement requirement with
    | .error _ => false
    | .ok comparators => comparators.all (comparatorMatches version)

/-- The loop of `selectHighestVersion`, with the best version so far. -/
def selectFrom (requirement : VersionRequirement) :
    Option (Version × Text) → List Text → Except String (Option (Version × Text))
  | best, [] => .ok best
  | best, text :: rest =>
    match parseSemVer text with
    | .error message => .error message
    | .ok version =>
      if versionSatisfiesRequirement version requirement = false then
        selectFrom requirement best rest
      else
        match best with
        | none => selectFrom requirement (some (version, text)) rest
        | some (highest, _) =>
          if 0 < compareSemVer version highest then
            selectFrom requirement (some (version, text)) rest
          else selectFrom requirement best rest

def selectHighestVersion (versions : List Text) (requirement : VersionRequirement) :
    Except String Text :=
  match selectFrom requirement none versions with
  | .error message => .error message
  | .ok none =>
    .error ("no version satisfies requirement '" ++ String.ofList requirement.text ++ "'")
  | .ok (some (_, text)) => .ok text

end SemVer

end Chtholly
