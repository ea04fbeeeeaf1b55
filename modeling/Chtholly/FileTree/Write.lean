import Mathlib.Data.List.Infix
import Mathlib.Data.List.Pairwise
import Mathlib.Logic.Function.Basic

/-!
# Writing files into a tree of directories

A disk says what stands at each location, and a location is the list of names on the way down to it.
A file is written by making the directories above it first.  That fails where one of them is a file,
and it fails where a directory stands at the location itself.

## Main definitions

* `FileTree.Disk` — what stands at each location.
* `FileTree.makeDirectories`, `FileTree.writeFile`, `FileTree.writeFiles` — the operations.
* `FileTree.Above` — a location is on the way down to another one.

## Main results

* `FileTree.writeFiles_isOk_iff` — the files that can be written one after the other.
* `FileTree.content_of_writeFiles` — every file has its content afterwards.
-/

set_option autoImplicit false

namespace Chtholly

namespace FileTree

inductive Node (β : Type)
  | directory
  | file (content : β)

/-- What stands at each location. -/
abbrev Disk (ν β : Type) := List ν → Option (Node β)

/-- Why a file is not written: a file where a directory is needed, or a directory at its place. -/
inductive Failure (ν : Type)
  | notADirectory (location : List ν)
  | isADirectory (location : List ν)
  deriving DecidableEq

variable {ν β : Type}

/-- The first location is on the way down to the second one. -/
def Above (location other : List ν) : Prop := location <+: other ∧ location ≠ other

def Disk.IsFile (disk : Disk ν β) (location : List ν) : Prop :=
  ∃ content, disk location = some (.file content)

/-- A file can be written there. -/
structure Disk.Fits (disk : Disk ν β) (location : List ν) : Prop where
  directories : ∀ above, Above above location → ¬ disk.IsFile above
  place : disk location ≠ some .directory

variable {location other : List ν}

lemma above_iff (h : other ≠ []) : Above location other ↔ location <+: other.dropLast := by
  obtain ⟨before, last, rfl⟩ := (List.eq_nil_or_concat' other).resolve_left h
  rw [Above, List.prefix_concat_iff, List.dropLast_concat]
  constructor
  · rintro ⟨rfl | hbefore, hne⟩
    · exact absurd rfl hne
    · exact hbefore
  · intro hbefore
    refine ⟨.inr hbefore, ?_⟩
    rintro rfl
    have hlength := hbefore.length_le
    rw [List.length_append, List.length_singleton] at hlength
    omega

lemma not_above_self (location : List ν) : ¬ Above location location := fun h => h.2 rfl

/-- Two files that can stand on the same disk. -/
def Apart (location other : List ν) : Prop := ¬ Above location other ∧ ¬ Above other location

lemma Apart.symm (h : Apart location other) : Apart other location :=
  ⟨h.2, h.1⟩

/-- Among places that are apart in one order none is above another. -/
lemma not_above_of_pairwise {ι : Type} {place : ι → List ν} {items : List ι}
    (h : items.Pairwise fun item other => Apart (place item) (place other)) {item other : ι}
    (hitem : item ∈ items) (hother : other ∈ items) : ¬ Above (place item) (place other) := by
  have hsymm : Std.Symm fun item other : ι => Apart (place item) (place other) :=
    ⟨fun _ _ => Apart.symm⟩
  have hself : ∀ item ∈ items, Apart (place item) (place item) :=
    fun item _ => ⟨not_above_self _, not_above_self _⟩
  exact (List.Pairwise.forall_of_forall hself h hitem hother).1

variable [DecidableEq ν]

def Disk.put (disk : Disk ν β) (location : List ν) (node : Node β) : Disk ν β :=
  Function.update disk location (some node)

def makeDirectory (disk : Disk ν β) (location : List ν) : Except (Failure ν) (Disk ν β) :=
  match disk location with
  | none => .ok (disk.put location .directory)
  | some .directory => .ok disk
  | some (.file _) => .error (.notADirectory location)

/-- A directory and those above it. -/
def makeDirectories (disk : Disk ν β) (location : List ν) : Except (Failure ν) (Disk ν β) :=
  location.inits.foldlM makeDirectory disk

def writeFile (disk : Disk ν β) (location : List ν) (content : β) :
    Except (Failure ν) (Disk ν β) :=
  match makeDirectories disk location.dropLast with
  | .error failure => .error failure
  | .ok disk =>
    match disk location with
    | some .directory => .error (.isADirectory location)
    | _ => .ok (disk.put location (.file content))

def writeFiles (disk : Disk ν β) (files : List (List ν × β)) : Except (Failure ν) (Disk ν β) :=
  files.foldlM (fun disk file => writeFile disk file.1 file.2) disk

/-! ## Directories -/

variable {disk out : Disk ν β}

lemma makeDirectory_eq_ok_iff :
    makeDirectory disk location = .ok out ↔
      ¬ disk.IsFile location ∧ out = disk.put location .directory := by
  unfold makeDirectory Disk.IsFile
  cases hdisk : disk location with
  | none => simp [eq_comm]
  | some node =>
    cases node with
    | file content => simp
    | directory =>
      have hput : disk.put location .directory = disk := by
        rw [Disk.put, ← hdisk, Function.update_eq_self]
      simp [hput, eq_comm]

/-- Directories are made at all of the locations, unless one of them is a file. -/
lemma foldlM_makeDirectory_eq_ok_iff {locations : List (List ν)} :
    locations.foldlM makeDirectory disk = .ok out ↔
      (∀ location ∈ locations, ¬ disk.IsFile location) ∧
        out = fun location => if location ∈ locations then some .directory else disk location := by
  induction locations generalizing disk with
  | nil => simp [pure, Except.pure, eq_comm]
  | cons first locations ih =>
    rw [List.foldlM_cons]
    cases hfirst : makeDirectory disk first with
    | error failure =>
      have hfile : disk.IsFile first := by
        by_contra hnot
        rw [makeDirectory_eq_ok_iff.2 ⟨hnot, rfl⟩] at hfirst
        cases hfirst
      simp [bind, Except.bind, hfile]
    | ok next =>
      obtain ⟨hnot, rfl⟩ := makeDirectory_eq_ok_iff.1 hfirst
      have hfiles : (∀ location ∈ locations, ¬ (disk.put first .directory).IsFile location) ↔
          ∀ location ∈ locations, ¬ disk.IsFile location := by
        refine forall₂_congr fun location _ => not_congr ?_
        by_cases hlocation : location = first
        · subst hlocation
          exact iff_of_false (by simp [Disk.IsFile, Disk.put]) hnot
        · simp [Disk.IsFile, Disk.put, Function.update_of_ne hlocation]
      have hout : (fun location => if location ∈ locations then some .directory
            else disk.put first .directory location) =
          fun location => if location ∈ first :: locations then some Node.directory
            else disk location := by
        funext location
        by_cases hlocation : location = first
        · simp [hlocation, Disk.put]
        · simp [hlocation, Disk.put]
      simp only [bind, Except.bind]
      rw [ih, hfiles, hout, List.forall_mem_cons]
      simp [hnot]

lemma makeDirectories_eq_ok_iff :
    makeDirectories disk location = .ok out ↔
      (∀ above, above <+: location → ¬ disk.IsFile above) ∧
        out = fun other => if other <+: location then some .directory else disk other := by
  rw [makeDirectories, foldlM_makeDirectory_eq_ok_iff]
  simp only [List.mem_inits]

/-! ## Files -/

variable {content : β}

/-- What a written file leaves behind. -/
lemma writeFile_eq_ok_iff (hlocation : location ≠ []) :
    writeFile disk location content = .ok out ↔
      disk.Fits location ∧
        out = fun other => if other = location then some (.file content)
          else if other <+: location.dropLast then some .directory else disk other := by
  have hself : ¬ location <+: location.dropLast := by
    rw [← above_iff hlocation]
    exact not_above_self location
  unfold writeFile
  constructor
  · intro h
    cases hmake : makeDirectories disk location.dropLast with
    | error failure =>
      rw [hmake] at h
      cases h
    | ok next =>
      rw [hmake] at h
      obtain ⟨hfiles, rfl⟩ := makeDirectories_eq_ok_iff.1 hmake
      dsimp only at h
      rw [if_neg hself] at h
      split at h
      case h_1 => cases h
      case h_2 hplace =>
        cases h
        refine ⟨⟨fun above habove => hfiles above ((above_iff hlocation).1 habove), hplace⟩, ?_⟩
        funext other
        by_cases hother : other = location
        · rw [if_pos hother, hother, Disk.put, Function.update_self]
        · rw [if_neg hother, Disk.put, Function.update_of_ne hother]
  · rintro ⟨⟨hfiles, hplace⟩, rfl⟩
    rw [makeDirectories_eq_ok_iff.2
      ⟨fun above habove => hfiles above ((above_iff hlocation).2 habove), rfl⟩]
    dsimp only
    rw [if_neg hself]
    split
    case h_1 hdirectory => exact absurd hdirectory hplace
    case h_2 =>
      congr 1
      funext other
      by_cases hother : other = location
      · rw [if_pos hother, hother, Disk.put, Function.update_self]
      · rw [if_neg hother, Disk.put, Function.update_of_ne hother]

/-- What can be written after a file was: all that could be written before, unless one of the two
would have to be a directory. -/
lemma fits_writeFile_iff (hlocation : location ≠ [])
    (h : writeFile disk location content = .ok out) :
    out.Fits other ↔ disk.Fits other ∧ ¬ Above location other ∧ ¬ Above other location := by
  obtain ⟨⟨hfiles, hplace⟩, rfl⟩ := (writeFile_eq_ok_iff hlocation).1 h
  have hfile : ∀ above, Disk.IsFile (fun other => if other = location then some (.file content)
      else if other <+: location.dropLast then some .directory else disk other) above ↔
      above = location ∨ (¬ Above above location ∧ disk.IsFile above) := by
    intro above
    rw [above_iff hlocation, Disk.IsFile]
    by_cases heq : above = location
    · simp [heq]
    · by_cases habove : above <+: location.dropLast
      · simp [heq, habove]
      · simp [heq, habove, Disk.IsFile]
  constructor
  · rintro ⟨hdirectories, hother⟩
    have hbelow : ¬ Above location other := fun habove =>
      hdirectories location habove ((hfile location).2 (.inl rfl))
    have habove : ¬ Above other location := by
      intro habove
      apply hother
      rw [if_neg habove.2, if_pos ((above_iff hlocation).1 habove)]
    refine ⟨⟨?_, ?_⟩, hbelow, habove⟩
    · intro above hon hwas
      apply hdirectories above hon
      rw [hfile]
      by_cases hwritten : Above above location
      · exact absurd hwas (hfiles above hwritten)
      · exact .inr ⟨hwritten, hwas⟩
    · by_cases heq : other = location
      · rw [heq]
        exact hplace
      · rwa [if_neg heq, if_neg (fun hon => habove ((above_iff hlocation).2 hon))] at hother
  · rintro ⟨⟨hdirectories, hother⟩, hbelow, habove⟩
    constructor
    · intro above hon
      rw [hfile, not_or]
      refine ⟨?_, fun hwas => hdirectories above hon hwas.2⟩
      rintro rfl
      exact hbelow hon
    · by_cases heq : other = location
      · rw [if_pos heq]
        simp
      · rwa [if_neg heq, if_neg (fun hon => habove ((above_iff hlocation).2 hon))]

variable {files : List (List ν × β)}

/-- The files that can be written one after the other. -/
theorem writeFiles_isOk_iff (h : ∀ file ∈ files, file.1 ≠ []) :
    (∃ out, writeFiles disk files = .ok out) ↔
      (∀ file ∈ files, disk.Fits file.1) ∧ files.Pairwise fun file other =>
        Apart file.1 other.1 := by
  induction files generalizing disk with
  | nil => simp [writeFiles, pure, Except.pure]
  | cons file files ih =>
    have hfile := h file List.mem_cons_self
    have hothers : ∀ other ∈ files, other.1 ≠ [] :=
      fun other hother => h other (List.mem_cons_of_mem file hother)
    rw [List.pairwise_cons, List.forall_mem_cons]
    cases hwrite : writeFile disk file.1 file.2 with
    | error failure =>
      have hnot : ¬ disk.Fits file.1 := by
        intro hfits
        rw [(writeFile_eq_ok_iff hfile).2 ⟨hfits, rfl⟩] at hwrite
        cases hwrite
      simp [writeFiles, hwrite, bind, Except.bind, hnot]
    | ok next =>
      have hfits := ((writeFile_eq_ok_iff hfile).1 hwrite).1
      have hstep : (∃ out, writeFiles disk (file :: files) = .ok out) ↔
          ∃ out, writeFiles next files = .ok out := by
        simp [writeFiles, hwrite, bind, Except.bind]
      have hnext : (∀ other ∈ files, next.Fits other.1) ↔
          (∀ other ∈ files, disk.Fits other.1) ∧ ∀ other ∈ files, Apart file.1 other.1 := by
        rw [← forall₂_and]
        exact forall₂_congr fun other _ => fits_writeFile_iff hfile hwrite
      rw [hstep, ih hothers, hnext]
      tauto

/-- A file stays as it is while others are written. -/
lemma writeFile_keeps (hother : other ≠ []) {written : β}
    (h : writeFile disk other written = .ok out) (hfile : disk location = some (.file content))
    (hne : location ≠ other) : out location = some (.file content) := by
  obtain ⟨⟨hfiles, -⟩, rfl⟩ := (writeFile_eq_ok_iff hother).1 h
  have hnot : ¬ location <+: other.dropLast := fun hon =>
    hfiles location ((above_iff hother).2 hon) ⟨content, hfile⟩
  dsimp only
  rw [if_neg hne, if_neg hnot, hfile]

lemma writeFiles_keeps (hne : ∀ file ∈ files, file.1 ≠ []) (hnot : location ∉ files.map Prod.fst)
    (hfile : disk location = some (.file content)) (h : writeFiles disk files = .ok out) :
    out location = some (.file content) := by
  induction files generalizing disk with
  | nil =>
    cases h
    exact hfile
  | cons other files ih =>
    rw [writeFiles, List.foldlM_cons] at h
    cases hother : writeFile disk other.1 other.2 with
    | error failure =>
      rw [hother] at h
      cases h
    | ok next =>
      rw [hother] at h
      rw [List.map_cons, List.mem_cons, not_or] at hnot
      exact ih (fun file hmem => hne file (.tail _ hmem)) hnot.2
        (writeFile_keeps (hne other List.mem_cons_self) hother hfile hnot.1) h

/-- Every file has its content afterwards. -/
theorem content_of_writeFiles (hne : ∀ file ∈ files, file.1 ≠ [])
    (hdistinct : (files.map Prod.fst).Nodup) (h : writeFiles disk files = .ok out) :
    ∀ file ∈ files, out file.1 = some (.file file.2) := by
  induction files generalizing disk with
  | nil => exact fun file hmem => absurd hmem List.not_mem_nil
  | cons file files ih =>
    rw [writeFiles, List.foldlM_cons] at h
    cases hfile : writeFile disk file.1 file.2 with
    | error failure =>
      rw [hfile] at h
      cases h
    | ok next =>
      rw [hfile] at h
      rw [List.map_cons, List.nodup_cons] at hdistinct
      rw [List.forall_mem_cons]
      have hothers : ∀ other ∈ files, other.1 ≠ [] := fun other hmem => hne other (.tail _ hmem)
      refine ⟨writeFiles_keeps hothers hdistinct.1 ?_ h, ih hothers hdistinct.2 h⟩
      obtain ⟨-, rfl⟩ := (writeFile_eq_ok_iff (hne file List.mem_cons_self)).1 hfile
      exact if_pos rfl

/-! ## A fresh directory -/

/-- Nothing stands below a location, and it can be a directory. -/
structure Disk.Fresh (disk : Disk ν β) (root : List ν) : Prop where
  way : ∀ above, above <+: root → ¬ disk.IsFile above
  below : ∀ names, names ≠ [] → disk (root ++ names) = none

omit [DecidableEq ν] in
lemma Disk.Fresh.fits {root : List ν} (h : disk.Fresh root) {names : List ν} (hne : names ≠ []) :
    disk.Fits (root ++ names) where
  directories := by
    rintro above ⟨hon, -⟩ ⟨content, hfile⟩
    obtain hroot | ⟨more, rfl⟩ := List.prefix_or_prefix_of_prefix hon (List.prefix_append root names)
    · exact h.way above hroot ⟨content, hfile⟩
    · cases more with
      | nil =>
        rw [List.append_nil] at hfile
        exact h.way root (List.prefix_refl root) ⟨content, hfile⟩
      | cons name more =>
        rw [h.below _ (List.cons_ne_nil name more)] at hfile
        cases hfile
  place := by
    rw [h.below names hne]
    exact nofun

end FileTree

end Chtholly
