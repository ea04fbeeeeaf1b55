import Chtholly.Archive.Index

/-!
# Extracting an archive

The files of an archive are written below the directory `tree` of the destination, in the order of
the index, and each one with the directories above it.

## Main definitions

* `Archive.extractPackageArtifactArchive` — the files that are written.
* `Archive.WellFormed` — the texts that say what the reader takes them for.

## Main results

* `Archive.extract_isOk_iff` — the indexes whose files can be extracted.
* `Archive.canonical_extractable_iff` — what an accepted index promises, and when it keeps it.
-/

set_option autoImplicit false

namespace Chtholly

namespace Archive

open Registry (Text Bytes sha256Hex lines)
open FileTree (Disk Failure Above writeFiles)

/-- The directory of the files. -/
def tree (destination : List Text) : List Text := destination ++ ["tree".toList]

/-- The index and then the files, each with its bytes in the archive. -/
def extractPackageArtifactArchive (disk : Disk Text Bytes) (destination : List Text)
    (info : PackageArtifactArchiveInfo) (payload : PackageArtifactArchiveFile → Bytes) :
    Except (Failure Text) (Disk Text Bytes) :=
  writeFiles disk ((destination ++ ["closure.index".toList], info.canonicalIndex.bytes) ::
    info.files.map fun file => (resolve (tree destination) file.relativePath, payload file))

/-- No file stands where another one needs a directory. -/
def PrefixFree (files : List PackageArtifactArchiveFile) : Prop :=
  ∀ file ∈ files, ∀ other ∈ files,
    ¬ Above (components file.relativePath) (components other.relativePath)

/-! ## Extraction -/

lemma above_append_iff {root names more : List Text} :
    Above (root ++ names) (root ++ more) ↔ Above names more := by
  rw [Above, Above, List.prefix_append_right_inj, Ne, List.append_right_inj]

lemma above_cons_iff {name : Text} {names more : List Text} :
    Above (name :: names) (name :: more) ↔ Above names more :=
  @above_append_iff [name] names more

/-- The index does not stand in the way of the files. -/
lemma apart_index (destination names : List Text) :
    FileTree.Apart (destination ++ ["closure.index".toList]) (tree destination ++ names) := by
  have hne : "closure.index".toList ≠ "tree".toList := by decide
  rw [tree, List.append_assoc, List.singleton_append]
  constructor
  · rw [above_append_iff]
    rintro ⟨hon, -⟩
    exact hne (List.cons_prefix_cons.1 hon).1
  · rw [above_append_iff]
    rintro ⟨hon, -⟩
    exact hne (List.cons_prefix_cons.1 hon).1.symm

/-- The indexes whose files can be extracted into a fresh directory. -/
theorem extract_isOk_iff {info : PackageArtifactArchiveInfo}
    (hsafe : ∀ file ∈ info.files, Safe file.relativePath)
    {disk : Disk Text Bytes} {destination : List Text} (hfresh : disk.Fresh destination)
    (payload : PackageArtifactArchiveFile → Bytes) :
    (∃ out, extractPackageArtifactArchive disk destination info payload = .ok out) ↔
      PrefixFree info.files := by
  have hplace : ∀ file ∈ info.files, resolve (tree destination) file.relativePath =
      destination ++ "tree".toList :: components file.relativePath := by
    intro file hfile
    rw [resolve_of_safe (hsafe file hfile), tree, List.append_assoc]
    rfl
  unfold extractPackageArtifactArchive
  rw [FileTree.writeFiles_isOk_iff, List.forall_mem_cons, List.forall_mem_map, List.pairwise_cons,
    List.forall_mem_map, List.pairwise_map]
  · constructor
    · rintro ⟨-, -, hpairs⟩ file hfile other hother habove
      have hnot := FileTree.not_above_of_pairwise hpairs hfile hother
      rw [hplace file hfile, hplace other hother] at hnot
      exact hnot (above_append_iff.2 (above_cons_iff.2 habove))
    · intro hfree
      refine ⟨⟨hfresh.fits (List.cons_ne_nil _ _), fun file hfile => ?_⟩, fun file hfile => ?_,
        List.pairwise_of_forall_mem_list fun file hfile other hother => ?_⟩
      · rw [hplace file hfile]
        exact hfresh.fits (List.cons_ne_nil _ _)
      · rw [resolve_of_safe (hsafe file hfile)]
        exact apart_index destination _
      · rw [hplace file hfile, hplace other hother]
        exact ⟨fun habove => hfree file hfile other hother
            (above_cons_iff.1 (above_append_iff.1 habove)),
          fun habove => hfree other hother file hfile
            (above_cons_iff.1 (above_append_iff.1 habove))⟩
  · rw [List.forall_mem_cons, List.forall_mem_map]
    refine ⟨by simp, fun file hfile => ?_⟩
    rw [hplace file hfile]
    simp

/-! ## What an index promises -/

/-- A text that is canonical and in which no path is continued by a later one. -/
structure WellFormed (index : Text) : Prop extends Canonical index where
  paths : (lines index).Pairwise fun line later => ∀ path digest size longer digest' size',
    splitTabs line = ["file".toList, path, digest, size] →
      splitTabs later = ["file".toList, longer, digest', size'] → ¬ path ++ ['/'] <+: longer

namespace Parsed

variable {index : Text} {info : PackageArtifactArchiveInfo}
  {records : List (PackageArtifactArchiveFile × Text)}

lemma safe (h : Parsed index info records) : ∀ file ∈ info.files, Safe file.relativePath := by
  rw [h.files, List.forall_mem_map]
  intro entry hentry
  obtain ⟨_, haccepted⟩ := h.accepted entry hentry
  exact haccepted.safe

lemma ordered_files (h : Parsed index info records) :
    (info.files.map (·.relativePath)).Pairwise (· < ·) := by
  rw [h.files, List.map_map]
  exact h.ordered

lemma nodup (h : Parsed index info records) : (info.files.map (·.relativePath)).Nodup := by
  apply h.ordered_files.imp
  intro path other hlt heq
  rw [heq] at hlt
  exact List.lt_irrefl other hlt

/-- A path that another one continues comes before it, so that the later lines are enough. -/
lemma paths_iff (h : Parsed index info records) :
    ((lines index).Pairwise fun line later => ∀ path digest size longer digest' size',
      splitTabs line = ["file".toList, path, digest, size] →
        splitTabs later = ["file".toList, longer, digest', size'] → ¬ path ++ ['/'] <+: longer) ↔
      PrefixFree info.files := by
  constructor
  · intro hlines
    rw [h.text, List.pairwise_cons, List.pairwise_cons, List.pairwise_append, List.pairwise_map]
      at hlines
    have hordered := List.pairwise_map.1 h.ordered_files
    have hlater : info.files.Pairwise fun file other =>
        ¬ file.relativePath ++ ['/'] <+: other.relativePath := by
      rw [h.files, List.pairwise_map]
      refine hlines.2.2.1.imp_of_mem fun {entry other} hentry hother hpath => ?_
      obtain ⟨_, haccepted⟩ := h.accepted entry hentry
      obtain ⟨_, haccepted'⟩ := h.accepted other hother
      exact hpath _ _ _ _ _ _ haccepted.fields haccepted'.fields
    have hboth : info.files.Pairwise fun file other =>
        FileTree.Apart (components file.relativePath) (components other.relativePath) := by
      refine (hlater.and hordered).imp fun {file other} hpair => ⟨?_, ?_⟩
      · rw [above_components_iff]
        exact hpair.1
      · rw [above_components_iff]
        rintro ⟨rest, heq⟩
        rw [List.append_assoc] at heq
        have hnot : ¬other.relativePath ++ (['/'] ++ rest) < other.relativePath :=
          List.not_lt.2 List.le_append_left
        rw [heq] at hnot
        exact hnot hpair.2
    intro file hfile other hother
    exact FileTree.not_above_of_pairwise hboth hfile hother
  · intro hfree
    refine List.pairwise_of_forall_mem_list fun line hline later hlater => ?_
    intro path digest size longer digest' size' hfields hfields' hprefixed
    obtain ⟨entry, hentry, -, rfl, -⟩ := h.mem_records hline hfields
    obtain ⟨other, hother, -, rfl, -⟩ := h.mem_records hlater hfields'
    rw [PrefixFree, h.files] at hfree
    exact hfree _ (List.mem_map_of_mem hentry) _ (List.mem_map_of_mem hother)
      (above_components_iff.2 hprefixed)

end Parsed

/-- Every extracted file has its bytes, and the index stands beside them. -/
theorem content_of_extract {index : Text} {info : PackageArtifactArchiveInfo}
    (h : parsePackageArtifactArchiveIndex index = .ok info) {disk out : Disk Text Bytes}
    {destination : List Text} {payload : PackageArtifactArchiveFile → Bytes}
    (hextract : extractPackageArtifactArchive disk destination info payload = .ok out) :
    out (destination ++ ["closure.index".toList]) = some (.file info.canonicalIndex.bytes) ∧
      ∀ file ∈ info.files, out (tree destination ++ components file.relativePath) =
        some (.file (payload file)) := by
  obtain ⟨records, hparsed⟩ := parsed_of_parse h
  have hplace : ∀ file ∈ info.files, resolve (tree destination) file.relativePath =
      tree destination ++ components file.relativePath :=
    fun file hfile => resolve_of_safe (hparsed.safe file hfile) _
  have hall := FileTree.content_of_writeFiles ?_ ?_ hextract
  · rw [List.forall_mem_cons, List.forall_mem_map] at hall
    refine ⟨hall.1, fun file hfile => ?_⟩
    rw [← hplace file hfile]
    exact hall.2 file hfile
  · rw [List.forall_mem_cons, List.forall_mem_map]
    refine ⟨by simp, fun file hfile => ?_⟩
    rw [hplace file hfile]
    simp [tree]
  · rw [List.map_cons, List.map_map, List.nodup_cons]
    constructor
    · rw [List.mem_map]
      rintro ⟨file, hfile, heq⟩
      have hends := (hplace file hfile).symm.trans heq
      rw [tree, List.append_assoc, List.append_right_inj] at hends
      exact absurd (List.cons.inj hends).1 (by decide)
    · -- different paths have different components, so they lead to different places
      apply List.pairwise_map.2
      refine (List.pairwise_map.1 hparsed.nodup).imp_of_mem fun {file other} hfile hother hne heq => ?_
      apply hne
      have hends := (hplace file hfile).symm.trans (heq.trans (hplace other hother))
      exact components_injective (List.append_cancel_left hends)

/-- What an index promises of the records that are read from it. -/
structure Promise (index : Text) (info : PackageArtifactArchiveInfo) : Prop where
  canonical : info.render = index
  digest : info.closureDigest = sha256Hex info.render.bytes
  below : ∀ destination, ∀ file ∈ info.files, ∃ names, names ≠ [] ∧
    resolve (tree destination) file.relativePath = tree destination ++ names
  distinct : (info.files.map (·.relativePath)).Nodup
  prefixFree : PrefixFree info.files
  extracted : ∀ (disk : Disk Text Bytes) (destination : List Text)
    (payload : PackageArtifactArchiveFile → Bytes), disk.Fresh destination →
      ∃ out, extractPackageArtifactArchive disk destination info payload = .ok out

/-- What an accepted index promises, and when it keeps it. -/
theorem canonical_extractable_iff {index : Text} {info : PackageArtifactArchiveInfo}
    (h : parsePackageArtifactArchiveIndex index = .ok info) :
    Promise index info ↔ WellFormed index := by
  obtain ⟨records, hparsed⟩ := parsed_of_parse h
  constructor
  · intro hpromise
    exact ⟨hparsed.canonical_iff.1 hpromise.canonical, hparsed.paths_iff.2 hpromise.prefixFree⟩
  · rintro ⟨hcanonical, hpaths⟩
    have hrender := hparsed.canonical_iff.2 hcanonical
    have hfree := hparsed.paths_iff.1 hpaths
    refine ⟨hrender, ?_, ?_, hparsed.nodup, hfree, ?_⟩
    · rw [hrender]
      exact hparsed.digest
    · intro destination file hfile
      exact ⟨_, components_ne_nil _, resolve_of_safe (hparsed.safe file hfile) _⟩
    · intro disk destination payload hfresh
      exact (extract_isOk_iff hparsed.safe hfresh payload).2 hfree

/-- Sixty-four zeros. -/
def zeroDigest : Text := List.replicate 64 '0'

/-- An index with the given paths, whose files have the size in the last field. -/
def indexOf (paths : List Text) (size : Text) : Text :=
  (packageArchiveIndexHeader :: rootLine "a".toList zeroDigest ::
    (paths.map fun path => fileLine path zeroDigest size) ++ ["end".toList]).flatMap Registry.ended

lemma exists_ok {α β : Type} {result : Except String α} {f : α → β} {value : β}
    (h : result.toOption.map f = some value) : ∃ info, result = .ok info ∧ f info = value := by
  cases result with
  | error message => cases h
  | ok info => exact ⟨info, rfl, Option.some.inj h⟩

/-- The index of one file is accepted. -/
theorem oneFile_promise_iff : ∃ info,
    parsePackageArtifactArchiveIndex (indexOf ["a".toList] "7".toList) = .ok info ∧
      (Promise (indexOf ["a".toList] "7".toList) info ↔
        WellFormed (indexOf ["a".toList] "7".toList)) := by
  have hroot : (parsePackageArtifactArchiveIndex
      (indexOf ["a".toList] "7".toList)).toOption.map
      PackageArtifactArchiveInfo.rootManifestRelativePath = some "a".toList := by decide +kernel
  obtain ⟨info, h, -⟩ := exists_ok hroot
  exact ⟨info, h, canonical_extractable_iff h⟩

/-- A file and a directory of one name, a size with a zero in front, and a last line without a line
break are accepted. -/
theorem accepted_without_promise :
    (∃ info, parsePackageArtifactArchiveIndex (indexOf ["a".toList, "a/b".toList] "7".toList) =
      .ok info ∧ ¬ Promise (indexOf ["a".toList, "a/b".toList] "7".toList) info) ∧
    (∃ info, parsePackageArtifactArchiveIndex (indexOf ["a".toList] "07".toList) = .ok info ∧
      ¬ Promise (indexOf ["a".toList] "07".toList) info) ∧
    ∃ info, parsePackageArtifactArchiveIndex (indexOf ["a".toList] "7".toList).dropLast = .ok info ∧
      ¬ Promise (indexOf ["a".toList] "7".toList).dropLast info := by
  refine ⟨?_, ?_, ?_⟩
  · have hfiles : (parsePackageArtifactArchiveIndex
        (indexOf ["a".toList, "a/b".toList] "7".toList)).toOption.map
        PackageArtifactArchiveInfo.files = some [⟨"a".toList, zeroDigest, 7⟩,
          ⟨"a/b".toList, zeroDigest, 7⟩] := by decide +kernel
    obtain ⟨info, h, hinfo⟩ := exists_ok hfiles
    refine ⟨info, h, fun hpromise => ?_⟩
    have hfree := hpromise.prefixFree
    rw [PrefixFree, hinfo] at hfree
    exact hfree _ (.head _) _ (.tail _ (.head _)) (above_components_iff.2 ⟨"b".toList, by decide⟩)
  · have hrender : (parsePackageArtifactArchiveIndex (indexOf ["a".toList] "07".toList)).toOption.map
        PackageArtifactArchiveInfo.render = some (indexOf ["a".toList] "7".toList) := by
      decide +kernel
    obtain ⟨info, h, hinfo⟩ := exists_ok hrender
    refine ⟨info, h, fun hpromise => ?_⟩
    have hne : indexOf ["a".toList] "7".toList ≠ indexOf ["a".toList] "07".toList := by
      decide +kernel
    exact hne (hinfo.symm.trans hpromise.canonical)
  · have hrender : (parsePackageArtifactArchiveIndex
        (indexOf ["a".toList] "7".toList).dropLast).toOption.map
        PackageArtifactArchiveInfo.render = some (indexOf ["a".toList] "7".toList) := by
      decide +kernel
    obtain ⟨info, h, hinfo⟩ := exists_ok hrender
    refine ⟨info, h, fun hpromise => ?_⟩
    have hne : indexOf ["a".toList] "7".toList ≠
        (indexOf ["a".toList] "7".toList).dropLast := by decide +kernel
    exact hne (hinfo.symm.trans hpromise.canonical)

end Archive

end Chtholly
