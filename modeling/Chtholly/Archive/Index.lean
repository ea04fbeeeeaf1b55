import Chtholly.Archive.Paths
import Chtholly.Registry.TextLines
import Mathlib.Data.Char
import Mathlib.Data.List.Chain
import Mathlib.Data.List.Lex

/-!
# The index of an archive

An index is a text: a header, the record of the root manifest, a record for each file, and a last
line.  The reader takes it line by line, and the fields of a line are separated by tabs.

## Main definitions

* `Archive.parsePackageArtifactArchiveIndex` — the reader.
* `Archive.canonicalPackageArtifactClosureIndex` — the text that is written.

## Main results

* `Archive.parsed_of_parse` — what an accepted text says, line by line.
* `Archive.canonical_iff` — the accepted texts that are written again as they were.
-/

set_option autoImplicit false

namespace Chtholly

namespace Archive

open Registry (Text Bytes decimal parseUnsigned isHexDigest sha256Hex lines ended Spells)

structure PackageArtifactArchiveFile where
  relativePath : Text
  sha256 : Text
  size : UInt64
  deriving DecidableEq

/-- What the index of an archive says about it. -/
structure PackageArtifactArchiveInfo where
  rootManifestRelativePath : Text
  artifactIdentity : Text
  files : List PackageArtifactArchiveFile
  canonicalIndex : Text
  closureDigest : Text
  deriving DecidableEq

def kMaximumIndexSize : ℕ := 16 * 1024 * 1024

def packageArchiveIndexHeader : Text := "chtholly-archive-index-v1".toList

def splitTabs (line : Text) : List Text := line.splitOn '\t'

/-- The state of the reader between two lines. -/
structure IndexReader where
  root : Option (Text × Text) := none
  files : List PackageArtifactArchiveFile := []
  previousPath : Text := []
  deriving DecidableEq

namespace IndexReader

def rootRecord (reader : IndexReader) (path digest : Text) : Except String IndexReader :=
  if safeArchivePath path && isHexDigest digest then
    .ok { reader with root := some (path, digest) }
  else .error "artifact archive index contains an invalid root record"

def fileRecord (reader : IndexReader) (path digest size : Text) : Except String IndexReader :=
  match parseUnsigned size with
  | some value =>
    if safeArchivePath path && isHexDigest digest &&
        !(reader.previousPath ≠ [] && path ≤ reader.previousPath) then
      .ok ⟨reader.root, reader.files ++ [⟨path, digest, value⟩], path⟩
    else .error "artifact archive index contains an invalid or unsorted file record"
  | none => .error "artifact archive index contains an invalid or unsorted file record"

def record (reader : IndexReader) (line : Text) : Except String IndexReader :=
  match splitTabs line with
  | [kind, path, digest] =>
    if kind = "root".toList ∧ reader.root = none then reader.rootRecord path digest
    else .error "artifact archive index contains an unknown or duplicate record"
  | [kind, path, digest, size] =>
    if kind = "file".toList ∧ reader.root ≠ none then reader.fileRecord path digest size
    else .error "artifact archive index contains an unknown or duplicate record"
  | _ => .error "artifact archive index contains an unknown or duplicate record"

/-- The lines up to the last record, and those behind it when it was seen. -/
def run : IndexReader → List Text → Except String (IndexReader × Option (List Text))
  | reader, [] => .ok (reader, none)
  | reader, line :: rest =>
    if line.getLast? = some '\r' then .error "artifact archive index is not canonical"
    else if line = "end".toList then .ok (reader, some rest)
    else
      match reader.record line with
      | .error message => .error message
      | .ok next => next.run rest

end IndexReader

def parsePackageArtifactArchiveIndex (index : Text) :
    Except String PackageArtifactArchiveInfo :=
  if kMaximumIndexSize < index.length then
    .error "artifact archive index exceeds the size limit"
  else
    match lines index with
    | [] => .error "invalid Chtholly artifact archive index header"
    | header :: rest =>
      if header ≠ packageArchiveIndexHeader then
        .error "invalid Chtholly artifact archive index header"
      else
        match IndexReader.run {} rest with
        | .error message => .error message
        | .ok (⟨some root, file :: files, _⟩, some []) =>
          if (file :: files).any fun file => file.relativePath = root.1 then
            .ok ⟨root.1, root.2, file :: files, index, sha256Hex index.bytes⟩
          else .error "artifact archive index root manifest is not in the file set"
        | .ok _ => .error "artifact archive index is incomplete or contains trailing data"

/-- The index of a closure, from its root manifest, the identity of that, and its files. -/
def canonicalPackageArtifactClosureIndex (rootManifestRelativePath rootArtifactIdentity : Text)
    (files : List PackageArtifactArchiveFile) : Text :=
  "chtholly-archive-index-v1\n".toList ++
    ("root\t".toList ++ rootManifestRelativePath ++ '\t' :: rootArtifactIdentity ++ ['\n']) ++
    (files.flatMap fun file => "file\t".toList ++ file.relativePath ++ '\t' :: file.sha256 ++
      '\t' :: decimal file.size.toNat ++ ['\n']) ++
    "end\n".toList

/-- The records of an index, written again. -/
def PackageArtifactArchiveInfo.render (info : PackageArtifactArchiveInfo) : Text :=
  canonicalPackageArtifactClosureIndex info.rootManifestRelativePath info.artifactIdentity
    info.files

/-! ## Lines -/

def rootLine (path digest : Text) : Text := ['\t'].intercalate ["root".toList, path, digest]

def fileLine (path digest size : Text) : Text :=
  ['\t'].intercalate ["file".toList, path, digest, size]

/-- The line of a file, with its size as it may be written. -/
def recordLine (entry : PackageArtifactArchiveFile × Text) : Text :=
  fileLine entry.1.relativePath entry.1.sha256 entry.2

/-- A file with its size as it is written. -/
def sized (file : PackageArtifactArchiveFile) : PackageArtifactArchiveFile × Text :=
  (file, decimal file.size.toNat)

lemma join_splitTabs {line : Text} {fields : List Text} (h : splitTabs line = fields) :
    line = ['\t'].intercalate fields := by
  rw [← h, splitTabs, List.intercalate_splitOn]

lemma tab_notMem_of_splitTabs {line field : Text} (h : field ∈ splitTabs line) : '\t' ∉ field :=
  notMem_of_mem_splitOn h

lemma splitTabs_fileLine {path digest size : Text} (hpath : '\t' ∉ path) (hdigest : '\t' ∉ digest)
    (hsize : '\t' ∉ size) :
    splitTabs (fileLine path digest size) = ["file".toList, path, digest, size] := by
  apply List.splitOn_intercalate '\t' _ (List.cons_ne_nil _ _)
  rw [List.forall_mem_cons]
  refine ⟨by decide, ?_⟩
  simpa only [List.forall_mem_cons] using ⟨hpath, hdigest, hsize, List.forall_mem_nil _⟩

/-- A tag with its tab, and then fields that are joined by tabs. -/
lemma ended_intercalate {tag tabbed : Text} (h : tabbed = tag ++ ['\t']) (first second : Text) :
    ended (['\t'].intercalate [tag, first, second]) =
      tabbed ++ first ++ '\t' :: second ++ ['\n'] := by
  rw [h, ended]
  simp [List.intercalate_cons_cons]

/-- The text of an index from its lines. -/
lemma canonicalPackageArtifactClosureIndex_eq (path digest : Text)
    (files : List PackageArtifactArchiveFile) :
    canonicalPackageArtifactClosureIndex path digest files =
      (packageArchiveIndexHeader :: rootLine path digest ::
        ((files.map sized).map recordLine ++ ["end".toList])).flatMap ended := by
  have hfile : ∀ file : PackageArtifactArchiveFile, ended (recordLine (sized file)) =
      "file\t".toList ++ file.relativePath ++ '\t' :: file.sha256 ++
        '\t' :: decimal file.size.toNat ++ ['\n'] := by
    intro file
    have htag : "file\t".toList = "file".toList ++ ['\t'] := by decide
    have hline : recordLine (sized file) = ['\t'].intercalate ["file".toList, file.relativePath,
        file.sha256 ++ '\t' :: decimal file.size.toNat] := by
      rw [recordLine, fileLine, sized, List.intercalate_cons_cons, List.intercalate_cons_cons,
        List.intercalate_cons_cons, List.intercalate_cons_cons, List.intercalate_cons_cons,
        List.intercalate_singleton, List.intercalate_singleton, List.append_assoc file.sha256]
      rfl
    rw [hline, ended_intercalate htag]
    simp only [List.append_assoc, List.cons_append]
  have hfiles : (files.flatMap fun file => "file\t".toList ++ file.relativePath ++
      '\t' :: file.sha256 ++ '\t' :: decimal file.size.toNat ++ ['\n']) =
      ((files.map sized).map recordLine).flatMap ended := by
    rw [List.flatMap_map, List.flatMap_map]
    exact congrArg (files.flatMap ·) (funext fun file => (hfile file).symm)
  have hroot := ended_intercalate (by decide : "root\t".toList = "root".toList ++ ['\t'])
    path digest
  have hheader : "chtholly-archive-index-v1\n".toList = ended packageArchiveIndexHeader := by
    decide
  have hend : "end\n".toList = ended "end".toList := by decide
  have hjoin : ∀ header root records last : Text, header ++ root ++ records ++ last =
      header ++ (root ++ (records ++ last)) := by
    intro header root records last
    simp only [List.append_assoc]
  unfold canonicalPackageArtifactClosureIndex
  rw [hjoin, List.flatMap_cons, List.flatMap_cons, List.flatMap_append, List.flatMap_singleton]
  exact congrArg₂ (· ++ ·) hheader (congrArg₂ (· ++ ·) hroot.symm
    (congrArg₂ (· ++ ·) hfiles hend))

/-! ## What is accepted -/

/-- A record that the reader takes after a path. -/
structure Accepted (previousPath : Text) (entry : PackageArtifactArchiveFile × Text) : Prop where
  safe : Safe entry.1.relativePath
  digest : isHexDigest entry.1.sha256 = true
  size : Spells entry.2 entry.1.size.toNat
  later : previousPath < entry.1.relativePath
  fields : splitTabs (recordLine entry) =
    ["file".toList, entry.1.relativePath, entry.1.sha256, entry.2]

lemma ite_error_eq_ok {α : Type} {condition : Prop} [Decidable condition] {value : Except String α}
    {result : α} {message : String}
    (h : (if condition then value else .error message) = .ok result) :
    condition ∧ value = .ok result := by
  split at h
  case isTrue hcondition => exact ⟨hcondition, h⟩
  case isFalse => cases h

namespace IndexReader

variable {reader out : IndexReader}

lemma rootRecord_eq_ok {path digest : Text} (h : reader.rootRecord path digest = .ok out) :
    Safe path ∧ isHexDigest digest = true ∧ out = ⟨some (path, digest), reader.files,
      reader.previousPath⟩ := by
  obtain ⟨hchecks, hout⟩ := ite_error_eq_ok h
  rw [Bool.and_eq_true] at hchecks
  cases hout
  exact ⟨safe_of_safeArchivePath hchecks.1, hchecks.2, rfl⟩

lemma fileRecord_eq_ok {path digest size : Text}
    (hfields : splitTabs (fileLine path digest size) = ["file".toList, path, digest, size])
    (h : reader.fileRecord path digest size = .ok out) :
    ∃ value, Accepted reader.previousPath (⟨path, digest, value⟩, size) ∧
      out = ⟨reader.root, reader.files ++ [⟨path, digest, value⟩], path⟩ := by
  unfold fileRecord at h
  cases hsize : parseUnsigned size with
  | none =>
    rw [hsize] at h
    cases h
  | some value =>
    rw [hsize] at h
    obtain ⟨hchecks, hout⟩ := ite_error_eq_ok h
    simp only [Bool.and_eq_true, Bool.not_eq_true', Bool.and_eq_false_iff, decide_eq_false_iff_not,
      not_not] at hchecks
    obtain ⟨⟨hsafe, hdigest⟩, horder⟩ := hchecks
    cases hout
    refine ⟨value, ⟨safe_of_safeArchivePath hsafe, hdigest, Registry.spells_iff.2 hsize, ?_, hfields⟩,
      rfl⟩
    -- the first path comes after the empty one that stands before it
    obtain hfirst | hlater := horder
    · rw [hfirst]
      exact (safe_of_safeArchivePath hsafe).nil_lt
    · exact not_le.1 hlater

/-- Before the record of the root manifest no other record is taken. -/
lemma record_of_none {line : Text} (hroot : reader.root = none) (h : reader.record line = .ok out) :
    ∃ path digest, line = rootLine path digest ∧ Safe path ∧ isHexDigest digest = true ∧
      out = ⟨some (path, digest), reader.files, reader.previousPath⟩ := by
  unfold record at h
  split at h
  case h_1 kind path digest hfields =>
    obtain ⟨⟨hkind, -⟩, hroot⟩ := ite_error_eq_ok h
    rw [hkind] at hfields
    exact ⟨path, digest, join_splitTabs hfields, rootRecord_eq_ok hroot⟩
  case h_2 =>
    obtain ⟨⟨-, hsome⟩, -⟩ := ite_error_eq_ok h
    exact absurd hroot hsome
  case h_3 => cases h

/-- After it the records of files are taken. -/
lemma record_of_some {line : Text} (hroot : reader.root ≠ none) (h : reader.record line = .ok out) :
    ∃ entry, line = recordLine entry ∧ Accepted reader.previousPath entry ∧
      out = ⟨reader.root, reader.files ++ [entry.1], entry.1.relativePath⟩ := by
  unfold record at h
  split at h
  case h_1 =>
    obtain ⟨⟨-, hnone⟩, -⟩ := ite_error_eq_ok h
    exact absurd hnone hroot
  case h_2 kind path digest size hfields =>
    obtain ⟨⟨hkind, -⟩, hfile⟩ := ite_error_eq_ok h
    rw [hkind] at hfields
    have hline : line = fileLine path digest size := join_splitTabs hfields
    rw [hline] at hfields
    obtain ⟨value, haccepted, hout⟩ := fileRecord_eq_ok hfields hfile
    exact ⟨(⟨path, digest, value⟩, size), hline, haccepted, hout⟩
  case h_3 => cases h

/-- The lines of a run that has seen the last record. -/
lemma run_of_some {all trailing : List Text} (hroot : reader.root ≠ none)
    (h : reader.run all = .ok (out, some trailing)) :
    ∃ records : List (PackageArtifactArchiveFile × Text),
      all = records.map recordLine ++ "end".toList :: trailing ∧
      (∀ entry ∈ records, ∃ previousPath, Accepted previousPath entry) ∧
      (reader.previousPath :: records.map (·.1.relativePath)).IsChain (· < ·) ∧
      out.root = reader.root ∧ out.files = reader.files ++ records.map Prod.fst := by
  induction all generalizing reader with
  | nil => cases h
  | cons line rest ih =>
    rw [run] at h
    split at h
    case isTrue => cases h
    case isFalse =>
      split at h
      case isTrue hend =>
        cases h
        exact ⟨[], by rw [hend]; rfl, by simp, by simp, rfl, (List.append_nil _).symm⟩
      case isFalse =>
        cases hrecord : reader.record line with
        | error message =>
          rw [hrecord] at h
          cases h
        | ok next =>
          rw [hrecord] at h
          obtain ⟨entry, rfl, haccepted, rfl⟩ := record_of_some hroot hrecord
          obtain ⟨records, rfl, hall, hchain, hout, hfiles⟩ := ih (by exact hroot) h
          refine ⟨entry :: records, rfl, ?_, ?_, hout, ?_⟩
          · exact List.forall_mem_cons.2 ⟨⟨_, haccepted⟩, hall⟩
          · exact List.isChain_cons_cons.2 ⟨haccepted.later, hchain⟩
          · rw [hfiles, List.append_assoc]
            rfl

/-- A run that has seen both records at its ends starts with that of the root manifest. -/
lemma run_of_none {all trailing : List Text} (hroot : reader.root = none) (hout : out.root ≠ none)
    (h : reader.run all = .ok (out, some trailing)) :
    ∃ path digest rest, all = rootLine path digest :: rest ∧ Safe path ∧
      isHexDigest digest = true ∧
      run ⟨some (path, digest), reader.files, reader.previousPath⟩ rest =
        .ok (out, some trailing) := by
  cases all with
  | nil => cases h
  | cons line rest =>
    rw [run] at h
    split at h
    case isTrue => cases h
    case isFalse =>
      split at h
      case isTrue =>
        cases h
        exact absurd hroot hout
      case isFalse =>
        cases hrecord : reader.record line with
        | error message =>
          rw [hrecord] at h
          cases h
        | ok next =>
          rw [hrecord] at h
          obtain ⟨path, digest, rfl, hsafe, hdigest, rfl⟩ := record_of_none hroot hrecord
          exact ⟨path, digest, rest, rfl, hsafe, hdigest, h⟩

end IndexReader

/-- What an accepted text says, line by line. -/
structure Parsed (index : Text) (info : PackageArtifactArchiveInfo)
    (records : List (PackageArtifactArchiveFile × Text)) : Prop where
  text : lines index = packageArchiveIndexHeader ::
    rootLine info.rootManifestRelativePath info.artifactIdentity ::
      (records.map recordLine ++ ["end".toList])
  files : info.files = records.map Prod.fst
  accepted : ∀ entry ∈ records, ∃ previousPath, Accepted previousPath entry
  ordered : (records.map (·.1.relativePath)).Pairwise (· < ·)
  digest : info.closureDigest = sha256Hex index.bytes

/-- What an accepted text says, line by line. -/
theorem parsed_of_parse {index : Text} {info : PackageArtifactArchiveInfo}
    (h : parsePackageArtifactArchiveIndex index = .ok info) :
    ∃ records, Parsed index info records := by
  unfold parsePackageArtifactArchiveIndex at h
  split at h
  case isTrue => cases h
  case isFalse =>
    cases hlines : lines index with
    | nil =>
      rw [hlines] at h
      cases h
    | cons header rest =>
      rw [hlines] at h
      dsimp only at h
      split at h
      case isTrue => cases h
      case isFalse hheader =>
        split at h
        case h_1 => cases h
        case h_2 root file files previousPath hrun =>
          obtain ⟨-, hinfo⟩ := ite_error_eq_ok h
          cases hinfo
          obtain ⟨path, digest, more, rfl, -, -, hmore⟩ :=
            IndexReader.run_of_none rfl (Option.some_ne_none root) hrun
          obtain ⟨records, rfl, haccepted, hchain, hroot, hfiles⟩ :=
            IndexReader.run_of_some (Option.some_ne_none _) hmore
          cases hroot
          refine ⟨records, ⟨?_, hfiles, haccepted, ?_, rfl⟩⟩
          · rw [hlines, not_not.1 hheader]
          · exact (List.pairwise_cons.1 hchain.pairwise).2
        case h_3 => cases h

/-! ## Canonical texts -/

/-- The text ends with a line break, and no size is written with a superfluous zero in front. -/
structure Canonical (index : Text) : Prop where
  ended : index.getLast? = some '\n'
  sizes : ∀ line ∈ lines index, ∀ path digest size,
    splitTabs line = ["file".toList, path, digest, size] → size.head? = some '0' → size = ['0']

lemma newline_notMem_fileLine {path digest size : Text} :
    '\n' ∉ fileLine path digest size ↔ '\n' ∉ path ∧ '\n' ∉ digest ∧ '\n' ∉ size := by
  have htag : '\n' ∉ "file".toList := by decide
  have htab : '\n' ∉ ['\t'] := by decide
  simp only [fileLine, List.intercalate_cons_cons, List.intercalate_singleton, List.mem_append,
    htag, htab, not_false_eq_true, and_true, true_and, not_or]

lemma tab_notMem_decimal (n : ℕ) : '\t' ∉ decimal n := by
  intro h
  have := Registry.isDigit_of_mem_decimal h
  revert this
  decide

lemma splitTabs_rootLine (path digest : Text) :
    (splitTabs (rootLine path digest)).head? = some "root".toList := by
  have hline : rootLine path digest = "root".toList ++ '\t' :: ['\t'].intercalate [path, digest] := by
    rw [rootLine, List.intercalate_cons_cons, List.append_assoc]
    rfl
  rw [splitTabs, hline, List.splitOn_append_cons_self_of_not_mem (by decide), List.head?_cons]

lemma Accepted.tab_notMem {previousPath : Text} {entry : PackageArtifactArchiveFile × Text}
    (h : Accepted previousPath entry) : '\t' ∉ entry.1.relativePath ∧ '\t' ∉ entry.1.sha256 := by
  have hfields : ∀ field ∈ splitTabs (recordLine entry), '\t' ∉ field :=
    fun _ => tab_notMem_of_splitTabs
  rw [h.fields] at hfields
  exact ⟨hfields _ (.tail _ (.head _)), hfields _ (.tail _ (.tail _ (.head _)))⟩

namespace Parsed

variable {index : Text} {info : PackageArtifactArchiveInfo}
  {records : List (PackageArtifactArchiveFile × Text)}

lemma newline_notMem (h : Parsed index info records) {entry : PackageArtifactArchiveFile × Text}
    (hentry : entry ∈ records) : '\n' ∉ recordLine entry := by
  have hline : recordLine entry ∈ lines index := by
    rw [h.text]
    exact .tail _ (.tail _ (List.mem_append_left _ (List.mem_map_of_mem hentry)))
  exact Registry.notMem_of_mem_lines hline

/-- The only lines with the fields of a file are the records of the files. -/
lemma mem_records (h : Parsed index info records) {line path digest size : Text}
    (hline : line ∈ lines index)
    (hfields : splitTabs line = ["file".toList, path, digest, size]) :
    ∃ entry ∈ records, line = recordLine entry ∧ entry.1.relativePath = path ∧ entry.2 = size := by
  rw [h.text] at hline
  obtain rfl | hline := List.mem_cons.1 hline
  · have hlength : (splitTabs packageArchiveIndexHeader).length ≠ 4 := by decide
    exact absurd (congrArg List.length hfields) hlength
  obtain rfl | hline := List.mem_cons.1 hline
  · have hhead := splitTabs_rootLine info.rootManifestRelativePath info.artifactIdentity
    rw [hfields] at hhead
    have hkind : "file".toList ≠ "root".toList := by decide
    exact absurd (Option.some.inj hhead) hkind
  obtain hline | hline := List.mem_append.1 hline
  · obtain ⟨entry, hentry, rfl⟩ := List.mem_map.1 hline
    obtain ⟨_, haccepted⟩ := h.accepted entry hentry
    rw [haccepted.fields] at hfields
    simp only [List.cons.injEq, true_and, and_true] at hfields
    exact ⟨entry, hentry, rfl, hfields.1, hfields.2.2⟩
  · have hlength : (splitTabs "end".toList).length ≠ 4 := by decide
    rw [List.mem_singleton.1 hline] at hfields
    exact absurd (congrArg List.length hfields) hlength

/-- No size has a superfluous zero in front when every size is written as it would be again. -/
lemma sizes_iff (h : Parsed index info records) :
    (∀ line ∈ lines index, ∀ path digest size,
      splitTabs line = ["file".toList, path, digest, size] → size.head? = some '0' →
        size = ['0']) ↔ ∀ entry ∈ records, entry = sized entry.1 := by
  constructor
  · intro hsizes entry hentry
    obtain ⟨_, haccepted⟩ := h.accepted entry hentry
    have hline : recordLine entry ∈ lines index := by
      rw [h.text]
      exact .tail _ (.tail _ (List.mem_append_left _ (List.mem_map_of_mem hentry)))
    exact Prod.ext rfl (haccepted.size.eq_decimal_iff.2 (hsizes _ hline _ _ _ haccepted.fields))
  · intro hsized line hline path digest size hfields
    obtain ⟨entry, hentry, -, -, rfl⟩ := h.mem_records hline hfields
    obtain ⟨_, haccepted⟩ := h.accepted entry hentry
    exact haccepted.size.eq_decimal_iff.1 (congrArg Prod.snd (hsized entry hentry))

lemma render_eq (h : Parsed index info records) :
    info.render = (packageArchiveIndexHeader ::
      rootLine info.rootManifestRelativePath info.artifactIdentity ::
        ((records.map fun entry => recordLine (sized entry.1)) ++ ["end".toList])).flatMap ended := by
  rw [PackageArtifactArchiveInfo.render, canonicalPackageArtifactClosureIndex_eq, h.files,
    List.map_map, List.map_map]
  rfl

/-- The lines that are written again. -/
lemma lines_render (h : Parsed index info records) :
    lines info.render = packageArchiveIndexHeader ::
      rootLine info.rootManifestRelativePath info.artifactIdentity ::
        ((records.map fun entry => recordLine (sized entry.1)) ++ ["end".toList]) := by
  have hold : ∀ line ∈ lines index, '\n' ∉ line := fun line => Registry.notMem_of_mem_lines
  rw [h.text, List.forall_mem_cons, List.forall_mem_cons, List.forall_mem_append] at hold
  rw [h.render_eq]
  apply Registry.lines_flatMap
  rw [List.forall_mem_cons, List.forall_mem_cons, List.forall_mem_append]
  refine ⟨hold.1, hold.2.1, ?_, hold.2.2.2⟩
  intro line hline
  obtain ⟨entry, hentry, rfl⟩ := List.mem_map.1 hline
  obtain ⟨hpath, hdigest, -⟩ := newline_notMem_fileLine.1 (h.newline_notMem hentry)
  exact newline_notMem_fileLine.2 ⟨hpath, hdigest, Registry.newline_notMem_decimal _⟩

/-- Every size is written as it would be again when the lines are. -/
lemma eq_sized (h : Parsed index info records) (hlines : lines info.render = lines index) :
    ∀ entry ∈ records, entry = sized entry.1 := by
  rw [h.lines_render, h.text] at hlines
  have hmap := List.append_cancel_right (List.cons.inj (List.cons.inj hlines).2).2
  intro entry hentry
  obtain ⟨_, haccepted⟩ := h.accepted entry hentry
  have hline : recordLine (sized entry.1) = recordLine entry := List.map_inj_left.1 hmap entry hentry
  have hfields := splitTabs_fileLine haccepted.tab_notMem.1 haccepted.tab_notMem.2
    (tab_notMem_decimal entry.1.size.toNat)
  have hsame : splitTabs (recordLine (sized entry.1)) = splitTabs (recordLine entry) :=
    congrArg splitTabs hline
  rw [haccepted.fields] at hsame
  have hall := hfields.symm.trans hsame
  simp only [List.cons.injEq, true_and, and_true] at hall
  exact Prod.ext rfl hall.symm

/-- The last line is written with its line break. -/
lemma render_eq_append (h : Parsed index info records) :
    ∃ before, info.render = before ++ "end".toList ++ ['\n'] := by
  have hrender := h.render_eq
  rw [← List.cons_append, ← List.cons_append, List.flatMap_append, List.flatMap_singleton, ended,
    ← List.append_assoc] at hrender
  exact ⟨_, hrender⟩

/-- The accepted texts that are written again as they were. -/
theorem canonical_iff (h : Parsed index info records) : info.render = index ↔ Canonical index := by
  constructor
  · intro heq
    obtain ⟨before, hbefore⟩ := h.render_eq_append
    exact ⟨by rw [← heq, hbefore, List.getLast?_concat], h.sizes_iff.2 (h.eq_sized (congrArg lines heq))⟩
  · rintro ⟨hended, hsizes⟩
    have hsized := h.sizes_iff.1 hsizes
    have hlines : lines info.render = lines index := by
      rw [h.lines_render, h.text]
      refine congrArg (_ :: _ :: · ++ _) (List.map_congr_left fun entry hentry => ?_)
      rw [← hsized entry hentry]
    have hrender := (h.render_eq.trans (congrArg _ h.lines_render.symm)).trans
      (congrArg (List.flatMap ended) hlines)
    obtain heq | heq := Registry.flatMap_lines index
    · exact hrender.trans heq
    · -- without its last line break the text would end with the last letter of that line
      obtain ⟨before, hbefore⟩ := h.render_eq_append
      have hindex := List.append_cancel_right (hbefore.symm.trans (hrender.trans heq))
      have hlast : "end".toList.getLast? = some 'd' := by decide
      rw [← hindex, List.getLast?_append, hlast] at hended
      exact absurd (Option.some.inj hended) (by decide)

end Parsed

end Archive

end Chtholly
