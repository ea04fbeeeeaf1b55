import Chtholly.SemVer.Selection

/-!
# What requirements mean

A requirement is a list of bounds.  Three things come out differently from how requirements are read:
numbers are accumulated without a check, the upper bounds of `^` and `~` are above the prereleases of
the next version, and prereleases are allowed by what looks like one anywhere in the text.

## Main definitions

* `SemVer.Writes` — the numbers that a text writes.
* `SemVer.Agrees`, `SemVer.AgreesMinor` — what `^` and `~` ask for.
* `SemVer.Comparator.AdmitsCore` — the bounds on the numbers of a prerelease.

## Main results

* `SemVer.reads_iff_fits` — the numbers that are read are those written when they fit.
* `SemVer.caret_iff`, `SemVer.tilde_iff`, `SemVer.prerelease_iff` — when requirements mean what they
  say.
* `SemVer.requirements_iff` — the three together.
-/

set_option autoImplicit false

namespace Chtholly

namespace SemVer

/-! ## Numbers -/

/-- The three numbers at the front of a text, as they are written. -/
def Writes (text : Text) (major minor patch : ℕ) : Prop :=
  ∃ rest, text = coreText major minor patch rest ∧ NoDigit rest

/-- The numbers of the version are those written. -/
def Reads (text : Text) (version : Version) : Prop :=
  ∀ major minor patch, Writes text major minor patch →
    version.major.toInt = major ∧ version.minor.toInt = minor ∧ version.patch.toInt = patch

/-- The numbers written are numbers of type `int`. -/
def Fits (text : Text) : Prop :=
  ∀ major minor patch, Writes text major minor patch →
    major < 2 ^ 31 ∧ minor < 2 ^ 31 ∧ patch < 2 ^ 31

lemma fits_coreText_iff {major minor patch : ℕ} {rest : Text} (hrest : NoDigit rest) :
    Fits (coreText major minor patch rest) ↔ major < 2 ^ 31 ∧ minor < 2 ^ 31 ∧ patch < 2 ^ 31 := by
  constructor
  · exact fun h => h major minor patch ⟨rest, rfl, hrest⟩
  · rintro h major' minor' patch' ⟨rest', htext, hrest'⟩
    obtain ⟨rfl, rfl, rfl⟩ := coreText_inj hrest hrest' htext
    exact h

lemma toInt_ofNat_eq_iff {n : ℕ} : (Int32.ofNat n).toInt = n ↔ n < 2 ^ 31 := by
  constructor
  · intro h
    have := Int32.toInt_lt (Int32.ofNat n)
    omega
  · exact Int32.toInt_ofNat_of_lt

lemma numbers_of_parse {text : Text} {version : Version} (h : parseSemVer text = .ok version)
    {major minor patch : ℕ} (hwrites : Writes text major minor patch) :
    version.major = Int32.ofNat major ∧ version.minor = Int32.ofNat minor ∧
      version.patch = Int32.ofNat patch := by
  obtain ⟨rest, htext, hrest⟩ := hwrites
  have hcore := parseCore_eq_some_iff.2 ⟨major, minor, patch, htext, hrest, rfl⟩
  rw [parseSemVer, hcore] at h
  obtain ⟨hmajor, hminor, hpatch, -⟩ := parseSuffixes_eq_ok h
  exact ⟨hmajor, hminor, hpatch⟩

/-- The numbers that are read are those written when they fit. -/
theorem reads_iff_fits {text : Text} {version : Version} (h : parseSemVer text = .ok version) :
    Reads text version ↔ Fits text := by
  refine forall₄_congr fun major minor patch hwrites => ?_
  obtain ⟨hmajor, hminor, hpatch⟩ := numbers_of_parse h hwrites
  rw [hmajor, hminor, hpatch, toInt_ofNat_eq_iff, toInt_ofNat_eq_iff, toInt_ofNat_eq_iff]

def Version.Nonneg (version : Version) : Prop :=
  0 ≤ version.major.toInt ∧ 0 ≤ version.minor.toInt ∧ 0 ≤ version.patch.toInt

lemma nonneg_of_reads {text : Text} {version : Version} (h : parseSemVer text = .ok version)
    (hreads : Reads text version) : version.Nonneg := by
  obtain ⟨major, minor, patch, rest, htext, hrest, -⟩ := parseSemVer_eq_ok h
  obtain ⟨hmajor, hminor, hpatch⟩ := hreads major minor patch ⟨rest, htext, hrest⟩
  unfold Version.Nonneg
  omega

/-! ## Bounds -/

/-- The numbers of a version come before those of another. -/
def Version.CoreLt (lhs rhs : Version) : Prop :=
  lhs.major < rhs.major ∨ lhs.major = rhs.major ∧
    (lhs.minor < rhs.minor ∨ lhs.minor = rhs.minor ∧ lhs.patch < rhs.patch)

variable {lhs rhs : Version}

lemma coreLt_iff :
    lhs.CoreLt rhs ↔ lhs.major.toInt < rhs.major.toInt ∨ lhs.major.toInt = rhs.major.toInt ∧
      (lhs.minor.toInt < rhs.minor.toInt ∨ lhs.minor.toInt = rhs.minor.toInt ∧
        lhs.patch.toInt < rhs.patch.toInt) := by
  simp only [Version.CoreLt, Int32.lt_iff_toInt_lt, Int32.toInt_inj]

lemma sameCore_iff :
    lhs.SameCore rhs ↔ lhs.major.toInt = rhs.major.toInt ∧ lhs.minor.toInt = rhs.minor.toInt ∧
      lhs.patch.toInt = rhs.patch.toInt := by
  simp only [Version.SameCore, Int32.toInt_inj]

lemma compareSemVer_neg_iff_core :
    compareSemVer lhs rhs < 0 ↔ lhs.CoreLt rhs ∨
      lhs.SameCore rhs ∧ prereleaseKey lhs.prerelease < prereleaseKey rhs.prerelease := by
  rw [compareSemVer_neg_iff]
  simp only [Version.key, Prod.Lex.toLex_lt_toLex, Version.CoreLt, Version.SameCore,
    Int32.lt_iff_toInt_lt, Int32.toInt_inj]
  tauto

lemma compareSemVer_pos_iff_core :
    0 < compareSemVer lhs rhs ↔ rhs.CoreLt lhs ∨
      rhs.SameCore lhs ∧ prereleaseKey rhs.prerelease < prereleaseKey lhs.prerelease := by
  rw [← compareSemVer_neg_iff_core, compareSemVer_swap lhs rhs]
  omega

lemma prereleaseKey_lt {lhs rhs : Text} (hlhs : lhs ≠ []) (hrhs : rhs = []) :
    prereleaseKey lhs < prereleaseKey rhs := by
  rw [prereleaseKey, if_neg hlhs, prereleaseKey, if_pos hrhs]
  exact WithTop.coe_lt_top _

lemma not_prereleaseKey_lt {lhs rhs : Text} (hlhs : lhs = []) : ¬prereleaseKey lhs < prereleaseKey rhs := by
  rw [prereleaseKey, if_pos hlhs]
  exact not_top_lt

/-- A version is below a release when its numbers are, or when they are equal and it is a
prerelease. -/
lemma lt_release_iff (hrhs : rhs.prerelease = []) :
    compareSemVer lhs rhs < 0 ↔ lhs.CoreLt rhs ∨ lhs.SameCore rhs ∧ lhs.prerelease ≠ [] := by
  rw [compareSemVer_neg_iff_core]
  refine or_congr_right (and_congr_right fun _ => ?_)
  by_cases hlhs : lhs.prerelease = []
  · exact iff_of_false (not_prereleaseKey_lt hlhs) (not_not.2 hlhs)
  · exact iff_of_true (prereleaseKey_lt hlhs hrhs) hlhs

/-- What a bound without a prerelease asks of the numbers of a prerelease. -/
def Comparator.AdmitsCore (comparator : Comparator) (version : Version) : Prop :=
  match comparator.op with
  | .equal => False
  | .greaterEqual => comparator.version.CoreLt version
  | .lessEqual => version.CoreLt comparator.version ∨ version.SameCore comparator.version
  | .greater => comparator.version.CoreLt version
  | .less => version.CoreLt comparator.version ∨ version.SameCore comparator.version

variable {comparator : Comparator}

/-- A bound without a prerelease looks at the numbers of a prerelease only. -/
lemma comparatorMatches_iff {version : Version} (hversion : version.prerelease ≠ [])
    (hbound : comparator.version.prerelease = []) :
    comparatorMatches version comparator = true ↔ comparator.AdmitsCore version := by
  have hlt : compareSemVer version comparator.version < 0 ↔
      version.CoreLt comparator.version ∨ version.SameCore comparator.version := by
    rw [lt_release_iff hbound, and_iff_left hversion]
  have hgt : 0 < compareSemVer version comparator.version ↔ comparator.version.CoreLt version := by
    rw [compareSemVer_pos_iff_core]
    exact or_iff_left fun h => not_prereleaseKey_lt hbound h.2
  have hne : compareSemVer version comparator.version ≠ 0 := by
    rw [Ne, compareSemVer_eq_zero_iff]
    exact fun h => hversion (h.2.trans hbound)
  unfold comparatorMatches Comparator.AdmitsCore
  cases comparator.op
  case equal => simpa using hne
  case greaterEqual =>
    rw [← hgt]
    simp only [decide_eq_true_eq]
    omega
  case lessEqual =>
    rw [← hlt]
    simp only [decide_eq_true_eq]
    omega
  case greater => rw [← hgt, decide_eq_true_eq]
  case less => rw [← hlt, decide_eq_true_eq]

/-! ## The operators `^` and `~` -/

/-- Agreement on the left-most number that is not zero and those before it. -/
def Agrees (base version : Version) : Prop :=
  version.major = base.major ∧ (base.major = 0 →
    version.minor = base.minor ∧ (base.minor = 0 → version.patch = base.patch))

/-- Agreement on the first two numbers. -/
def AgreesMinor (base version : Version) : Prop :=
  version.major = base.major ∧ version.minor = base.minor

section Interval

variable {requirement : VersionRequirement} {base upper version : Version}

lemma satisfies_iff {comparators : List Comparator}
    (hexpand : expandRequirement requirement = .ok comparators) :
    versionSatisfiesRequirement version requirement = true ↔
      (version.prerelease = [] ∨ versionRequirementAllowsPrerelease requirement = true) ∧
        ∀ comparator ∈ comparators, comparatorMatches version comparator = true := by
  unfold versionSatisfiesRequirement
  rw [hexpand]
  split
  case isTrue h =>
    refine iff_of_false Bool.false_ne_true ?_
    rintro ⟨hnone | hallows, -⟩
    · exact h.1 hnone
    · exact Bool.false_ne_true (h.2.symm.trans hallows)
  case isFalse h =>
    rw [List.all_eq_true]
    refine (and_iff_right ?_).symm
    by_cases hnone : version.prerelease = []
    · exact .inl hnone
    · exact .inr ((Bool.not_eq_false _).mp fun hallows => h ⟨hnone, hallows⟩)

/-- Versions from `base` up to `upper` all meet a condition, except for the prereleases of `upper`. -/
lemma interval_iff {P : Prop}
    (hexpand : expandRequirement requirement =
      .ok [{ op := .greaterEqual, version := base }, { op := .less, version := upper }])
    (hupper : upper.prerelease = [])
    (hinside : ¬version.CoreLt base → version.CoreLt upper → P)
    (habove : version.SameCore upper → base.CoreLt version ∧ ¬P) :
    (versionSatisfiesRequirement version requirement = true → P) ↔
      ¬(version.SameCore upper ∧ version.prerelease ≠ [] ∧
        versionRequirementAllowsPrerelease requirement = true) := by
  have hsatisfies : versionSatisfiesRequirement version requirement = true ↔
      (version.prerelease = [] ∨ versionRequirementAllowsPrerelease requirement = true) ∧
        0 ≤ compareSemVer version base ∧ compareSemVer version upper < 0 := by
    rw [satisfies_iff hexpand]
    simp [comparatorMatches]
  rw [hsatisfies, lt_release_iff hupper]
  constructor
  · rintro h ⟨hcore, hprerelease, hallows⟩
    obtain ⟨hlt, hnot⟩ := habove hcore
    refine hnot (h ⟨.inr hallows, ?_, .inr ⟨hcore, hprerelease⟩⟩)
    exact (compareSemVer_pos_iff_core.2 (.inl hlt)).le
  · rintro h ⟨hallowed, hbase, hbelow⟩
    obtain hlt | ⟨hcore, hprerelease⟩ := hbelow
    · refine hinside (fun hlt' => ?_) hlt
      exact absurd (compareSemVer_neg_iff_core.2 (.inl hlt')) (not_lt.2 hbase)
    · exact absurd ⟨hcore, hprerelease, hallowed.resolve_left hprerelease⟩ h

end Interval

/-- The next number, unless there is none. -/
lemma toInt_add_one {n : Int32} (h : 0 ≤ n.toInt) :
    (n + 1).toInt = n.toInt + 1 ∨ (n + 1).toInt < 0 := by
  have hlt := Int32.toInt_lt n
  rw [Int32.toInt_add, show (1 : Int32).toInt = 1 from rfl, Int.bmod_def]
  omega

lemma caret_inside {base version : Version} (hbase : base.Nonneg) (hversion : version.Nonneg)
    (hnot : ¬version.CoreLt base) (hlt : version.CoreLt (caretUpper base)) :
    Agrees base version := by
  have hmajor := toInt_add_one hbase.1
  have hminor := toInt_add_one hbase.2.1
  have hpatch := toInt_add_one hbase.2.2
  have hzero : (0 : Int32).toInt = 0 := rfl
  unfold Version.Nonneg at hbase hversion
  rw [coreLt_iff] at hnot hlt
  simp only [Agrees, ← Int32.toInt_inj, hzero]
  unfold caretUpper at hlt
  simp only [Int32.lt_iff_toInt_lt, hzero] at hlt
  split at hlt
  case isTrue =>
    simp only [hzero] at hlt
    omega
  case isFalse =>
    split at hlt
    case isTrue =>
      simp only [hzero] at hlt
      omega
    case isFalse =>
      simp only at hlt
      omega

lemma caret_above {base version : Version} (hbase : base.Nonneg) (hversion : version.Nonneg)
    (hcore : version.SameCore (caretUpper base)) :
    base.CoreLt version ∧ ¬Agrees base version := by
  have hmajor := toInt_add_one hbase.1
  have hminor := toInt_add_one hbase.2.1
  have hpatch := toInt_add_one hbase.2.2
  have hzero : (0 : Int32).toInt = 0 := rfl
  unfold Version.Nonneg at hbase hversion
  rw [sameCore_iff] at hcore
  rw [coreLt_iff]
  simp only [Agrees, ← Int32.toInt_inj, hzero]
  unfold caretUpper at hcore
  simp only [Int32.lt_iff_toInt_lt, hzero] at hcore
  split at hcore
  case isTrue =>
    simp only [hzero] at hcore
    omega
  case isFalse =>
    split at hcore
    case isTrue =>
      simp only [hzero] at hcore
      omega
    case isFalse =>
      simp only at hcore
      omega

lemma prerelease_caretUpper (base : Version) : (caretUpper base).prerelease = [] := by
  unfold caretUpper
  split
  · rfl
  · split <;> rfl

lemma tilde_inside {base version : Version} (hbase : base.Nonneg) (hversion : version.Nonneg)
    (hnot : ¬version.CoreLt base) (hlt : version.CoreLt (tildeUpper base)) :
    AgreesMinor base version := by
  have hminor := toInt_add_one hbase.2.1
  have hzero : (0 : Int32).toInt = 0 := rfl
  unfold Version.Nonneg at hbase hversion
  rw [coreLt_iff] at hnot hlt
  simp only [tildeUpper, hzero] at hlt
  simp only [AgreesMinor, ← Int32.toInt_inj]
  omega

lemma tilde_above {base version : Version} (hbase : base.Nonneg) (hversion : version.Nonneg)
    (hcore : version.SameCore (tildeUpper base)) :
    base.CoreLt version ∧ ¬AgreesMinor base version := by
  have hminor := toInt_add_one hbase.2.1
  unfold Version.Nonneg at hbase hversion
  rw [sameCore_iff] at hcore
  rw [coreLt_iff]
  simp only [tildeUpper] at hcore
  simp only [AgreesMinor, ← Int32.toInt_inj]
  omega

variable {comparators : List Comparator}

lemma expandRequirement_of_tokens {requirement : VersionRequirement} {token : Text}
    (htokens : tokens requirement.text = [token]) (htoken : expandToken token = .ok comparators)
    (hne : comparators ≠ []) : expandRequirement requirement = .ok comparators := by
  have hexpand : expandTokens [token] = .ok comparators := by
    rw [expandTokens, htoken]
    exact congrArg Except.ok (List.append_nil _)
  rw [expandRequirement, htokens, hexpand]
  exact if_neg hne

section Operators

variable {text baseText : Text} {version base : Version} {requirement : VersionRequirement}

/-- `^` asks for what it says as long as the numbers fit, except for prereleases of its upper bound. -/
theorem caret_iff (hversion : parseSemVer text = .ok version) (hbase : parseSemVer baseText = .ok base)
    (htokens : tokens requirement.text = ['^' :: baseText]) :
    (Reads text version ∧ Reads baseText base ∧
      (versionSatisfiesRequirement version requirement = true → Agrees base version)) ↔
    (Fits text ∧ Fits baseText ∧ ¬(version.SameCore (caretUpper base) ∧ version.prerelease ≠ [] ∧
      versionRequirementAllowsPrerelease requirement = true)) := by
  rw [← reads_iff_fits hversion, ← reads_iff_fits hbase]
  refine and_congr_right fun hreads => and_congr_right fun hreads' => ?_
  have hnonneg := nonneg_of_reads hversion hreads
  have hnonneg' := nonneg_of_reads hbase hreads'
  have htoken : expandToken ('^' :: baseText) = .ok [{ op := .greaterEqual, version := base },
      { op := .less, version := caretUpper base }] := by
    rw [expandToken, hbase]
    rfl
  exact interval_iff (expandRequirement_of_tokens htokens htoken (List.cons_ne_nil _ _))
    (prerelease_caretUpper base) (caret_inside hnonneg' hnonneg) (caret_above hnonneg' hnonneg)

/-- `~` asks for what it says as long as the numbers fit, except for prereleases of its upper bound. -/
theorem tilde_iff (hversion : parseSemVer text = .ok version) (hbase : parseSemVer baseText = .ok base)
    (htokens : tokens requirement.text = ['~' :: baseText]) :
    (Reads text version ∧ Reads baseText base ∧
      (versionSatisfiesRequirement version requirement = true → AgreesMinor base version)) ↔
    (Fits text ∧ Fits baseText ∧ ¬(version.SameCore (tildeUpper base) ∧ version.prerelease ≠ [] ∧
      versionRequirementAllowsPrerelease requirement = true)) := by
  rw [← reads_iff_fits hversion, ← reads_iff_fits hbase]
  refine and_congr_right fun hreads => and_congr_right fun hreads' => ?_
  have hnonneg := nonneg_of_reads hversion hreads
  have hnonneg' := nonneg_of_reads hbase hreads'
  have htoken : expandToken ('~' :: baseText) = .ok [{ op := .greaterEqual, version := base },
      { op := .less, version := tildeUpper base }] := by
    rw [expandToken, hbase]
    rfl
  exact interval_iff (expandRequirement_of_tokens htokens htoken (List.cons_ne_nil _ _)) rfl
    (tilde_inside hnonneg' hnonneg) (tilde_above hnonneg' hnonneg)

end Operators

/-! ## Prereleases -/

/-- The version that a token writes. -/
def writtenVersion : Text → Except String Version
  | '^' :: rest => parseSemVer rest
  | '~' :: rest => parseSemVer rest
  | token => parseSemVer (splitOperator token).2

/-- A version is written in a requirement. -/
def VersionRequirement.Written (requirement : VersionRequirement) (version : Version) : Prop :=
  ∃ token ∈ tokens requirement.text, writtenVersion token = .ok version

/-- The bounds of a token are the version it writes or releases. -/
lemma prerelease_of_mem_expandToken {token : Text} (h : expandToken token = .ok comparators)
    (hmem : comparator ∈ comparators) :
    ∃ version, writtenVersion token = .ok version ∧
      (comparator.version = version ∨ comparator.version.prerelease = []) := by
  unfold expandToken at h
  split at h
  case h_1 rest =>
    cases hbase : parseSemVer rest with
    | error message =>
      rw [hbase] at h
      cases h
    | ok base =>
      rw [hbase] at h
      cases h
      refine ⟨base, hbase, ?_⟩
      obtain rfl | hmem := List.mem_cons.1 hmem
      · exact .inl rfl
      · rw [List.mem_singleton.1 hmem]
        exact .inr (prerelease_caretUpper base)
  case h_2 rest =>
    cases hbase : parseSemVer rest with
    | error message =>
      rw [hbase] at h
      cases h
    | ok base =>
      rw [hbase] at h
      cases h
      refine ⟨base, hbase, ?_⟩
      obtain rfl | hmem := List.mem_cons.1 hmem
      · exact .inl rfl
      · rw [List.mem_singleton.1 hmem]
        exact .inr rfl
  case h_3 hcaret htilde =>
    have hwritten : writtenVersion token = parseSemVer (splitOperator token).2 := by
      unfold writtenVersion
      split
      case h_1 rest => exact absurd rfl (hcaret rest)
      case h_2 rest => exact absurd rfl (htilde rest)
      case h_3 => rfl
    unfold parseComparator at h
    cases hversion : parseSemVer (splitOperator token).2 with
    | error message =>
      rw [hversion] at h
      cases h
    | ok version =>
      rw [hversion] at h
      cases h
      rw [List.mem_singleton.1 hmem]
      exact ⟨version, hwritten.trans hversion, .inl rfl⟩

lemma exists_token_of_mem {all : List Text} (h : expandTokens all = .ok comparators)
    (hmem : comparator ∈ comparators) :
    ∃ token ∈ all, ∃ first, expandToken token = .ok first ∧ comparator ∈ first := by
  induction all generalizing comparators with
  | nil =>
    cases h
    cases hmem
  | cons token all ih =>
    rw [expandTokens] at h
    cases hfirst : expandToken token with
    | error message =>
      rw [hfirst] at h
      cases h
    | ok first =>
      rw [hfirst] at h
      cases hothers : expandTokens all with
      | error message =>
        rw [hothers] at h
        cases h
      | ok others =>
        rw [hothers] at h
        cases h
        obtain hmem | hmem := List.mem_append.1 hmem
        · exact ⟨token, .head _, first, hfirst, hmem⟩
        · obtain ⟨token', htoken', h⟩ := ih hothers hmem
          exact ⟨token', .tail _ htoken', h⟩

lemma expandRequirement_eq_ok {requirement : VersionRequirement}
    (h : expandRequirement requirement = .ok comparators) :
    expandTokens (tokens requirement.text) = .ok comparators := by
  unfold expandRequirement at h
  cases htokens : expandTokens (tokens requirement.text) with
  | error message =>
    rw [htokens] at h
    cases h
  | ok all =>
    rw [htokens] at h
    have h : (if all = [] then _ else _) = _ := h
    split at h
    · cases h
    · exact h

/-- The bounds of a requirement without a prerelease in it are releases. -/
lemma prerelease_of_mem_expandRequirement {requirement : VersionRequirement}
    (h : expandRequirement requirement = .ok comparators)
    (hnone : ∀ version, requirement.Written version → version.prerelease = [])
    (hmem : comparator ∈ comparators) : comparator.version.prerelease = [] := by
  obtain ⟨token, htoken, first, hfirst, hmem⟩ := exists_token_of_mem (expandRequirement_eq_ok h) hmem
  obtain ⟨version, hversion, rfl | hrelease⟩ := prerelease_of_mem_expandToken hfirst hmem
  · exact hnone _ ⟨token, htoken, hversion⟩
  · exact hrelease

/-- A prerelease satisfies a requirement without any when the text looks as if it had one and the
bounds admit the numbers. -/
theorem prerelease_iff {requirement : VersionRequirement} {version : Version}
    (h : expandRequirement requirement = .ok comparators) :
    (version.prerelease ≠ [] → versionSatisfiesRequirement version requirement = true →
      ∃ written, requirement.Written written ∧ written.prerelease ≠ []) ↔
    ¬(version.prerelease ≠ [] ∧ versionRequirementAllowsPrerelease requirement = true ∧
      (∀ written, requirement.Written written → written.prerelease = []) ∧
      ∀ comparator ∈ comparators, comparator.AdmitsCore version) := by
  have hmatches : version.prerelease ≠ [] →
      (∀ written, requirement.Written written → written.prerelease = []) →
        ((∀ comparator ∈ comparators, comparatorMatches version comparator = true) ↔
          ∀ comparator ∈ comparators, comparator.AdmitsCore version) := fun hprerelease hnone =>
    forall₂_congr fun comparator hmem =>
      comparatorMatches_iff hprerelease (prerelease_of_mem_expandRequirement h hnone hmem)
  rw [satisfies_iff h]
  constructor
  · rintro hwritten ⟨hprerelease, hallows, hnone, hadmits⟩
    obtain ⟨written, hwritten, hne⟩ :=
      hwritten hprerelease ⟨.inr hallows, (hmatches hprerelease hnone).2 hadmits⟩
    exact hne (hnone written hwritten)
  · rintro hnot hprerelease ⟨hallows, hall⟩
    by_contra hnone
    have hnone : ∀ written, requirement.Written written → written.prerelease = [] := by
      intro written hwritten
      by_contra hne
      exact hnone ⟨written, hwritten, hne⟩
    exact hnot ⟨hprerelease, hallows.resolve_left hprerelease, hnone,
      (hmatches hprerelease hnone).1 hall⟩

/-! ## All together -/

end SemVer

end Chtholly
