import Chtholly.Registry.ManifestDocument
import Chtholly.Registry.MetadataReadable

/-!
# The lines of metadata

The writers of metadata put one field on a line.  Each line is read back as the field that it was
written for, so that the readers see the value piece by piece.

## Main definitions

* `Registry.snapshotLines`, `Registry.timestampLines`, `Registry.rootLines` — the lines of the texts.

## Main results

* `Registry.renderSnapshotMetadata_eq`, `Registry.renderTimestampMetadata_eq`,
  `Registry.renderRootMetadata_eq` — the texts are those lines.
* `Registry.parseCommon_signatures`, `Registry.parseRoles_role` — what the readers take from them.
-/

set_option autoImplicit false

namespace Chtholly

namespace Registry

open ManifestToml

/-! ## Lines -/

def signatureLines (signatures : List MetadataSignature) : List DocumentLine :=
  .blank :: .table "signatures".toList :: (sortSignatures signatures).map fun signature =>
    .field (signature.keyId.drop 7) (quote signature.signature)

def roleLines (name : RoleName) (role : TrustRole) : List DocumentLine :=
  [.field (name.tag ++ "keys".toList) (renderArray role.keys),
    .field (name.tag ++ "threshold".toList) (decimal role.threshold)]

/-- The lines of a root before its roles. -/
def rootFront (root : RootMetadata) : List DocumentLine :=
  [.field "format".toList (quote root.format), .field "registry".toList (quote root.registryName),
    .field "version".toList (decimal root.version.toNat),
    .field "expires".toList (quote root.expires), .blank, .table "roles".toList]

def rootLines (root : RootMetadata) : List DocumentLine :=
  rootFront root ++ (roleLines .root root.root ++ (roleLines .targets root.targets ++
    (roleLines .snapshot root.snapshot ++ (roleLines .timestamp root.timestamp ++
      ((if root.format = rootFormatV2 then roleLines .audit root.audit else []) ++
        .field "revoked_key_ids".toList (renderArray root.revokedKeyIds) ::
          signatureLines root.signatures)))))

/-- The lines that a snapshot of either format has. -/
def snapshotFront (metadata : SnapshotMetadata) : List DocumentLine :=
  [.field "format".toList (quote metadata.format),
    .field "registry".toList (quote metadata.registryName),
    .field "version".toList (decimal metadata.version.toNat),
    .field "root_version".toList (decimal metadata.rootVersion.toNat),
    .field "expires".toList (quote metadata.expires),
    .field "packages_sha256".toList (quote metadata.packagesSha256)]

def snapshotLines (metadata : SnapshotMetadata) : List DocumentLine :=
  snapshotFront metadata ++ ((if metadata.format = snapshotFormatV2 then
      [.field "audit_checkpoint_sha256".toList (quote metadata.auditCheckpointSha256)]
    else []) ++ signatureLines metadata.signatures)

def timestampLines (metadata : TimestampMetadata) : List DocumentLine :=
  [.field "format".toList (quote timestampFormat),
    .field "registry".toList (quote metadata.registryName),
    .field "version".toList (decimal metadata.version.toNat),
    .field "root_version".toList (decimal metadata.rootVersion.toNat),
    .field "expires".toList (quote metadata.expires),
    .field "snapshot_version".toList (decimal metadata.snapshotVersion.toNat),
    .field "snapshot_sha256".toList (quote metadata.snapshotSha256)] ++
  signatureLines metadata.signatures

/-- The text of lines. -/
def documentText (document : List DocumentLine) : Text :=
  document.flatMap fun line => ended line.text

lemma documentText_nil : documentText [] = [] := rfl

lemma documentText_append (document other : List DocumentLine) :
    documentText (document ++ other) = documentText document ++ documentText other :=
  List.flatMap_append

lemma documentText_cons (line : DocumentLine) (document : List DocumentLine) :
    documentText (line :: document) = ended line.text ++ documentText document :=
  List.flatMap_cons

lemma documentText_field (name : String) (value : Text) (document : List DocumentLine) :
    documentText (.field name.toList value :: document) =
      assign name value ++ documentText document := by
  rw [documentText_cons, ended, DocumentLine.text, assign]

lemma renderSignatures_eq (signatures : List MetadataSignature) :
    renderSignatures signatures = documentText (signatureLines signatures) := by
  have hlines : documentText ((sortSignatures signatures).map fun signature =>
      .field (signature.keyId.drop 7) (quote signature.signature)) =
      (sortSignatures signatures).flatMap fun signature =>
        signature.keyId.drop 7 ++ " = ".toList ++ quote signature.signature ++ ['\n'] := by
    rw [documentText, List.flatMap_map]
    rfl
  unfold renderSignatures signatureLines
  rw [documentText_cons, documentText_cons, hlines]
  generalize (List.flatMap _ _) = body
  rw [← List.append_assoc]
  apply congrArg (· ++ body)
  rfl

lemma documentText_role (name : RoleName) {stem : String}
    (hstem : (stem ++ "_").toList = name.tag) (role : TrustRole) :
    documentText (roleLines name role) = renderRole stem role := by
  have hkeys : (stem ++ "_keys").toList = name.tag ++ "keys".toList := by
    rw [← hstem, String.toList_append, String.toList_append, List.append_assoc]
    rfl
  have hthreshold : (stem ++ "_threshold").toList = name.tag ++ "threshold".toList := by
    rw [← hstem, String.toList_append, String.toList_append, List.append_assoc]
    rfl
  rw [renderRole, assign, assign, hkeys, hthreshold]
  exact congrArg (_ ++ ·) (List.append_nil _)

lemma documentText_ite {p : Prop} [Decidable p] (document : List DocumentLine) :
    documentText (if p then document else []) = if p then documentText document else [] := by
  split
  case isTrue => rfl
  case isFalse => rfl

lemma renderRootMetadata_eq (root : RootMetadata) :
    renderRootMetadata root = documentText (rootLines root) := by
  have htables : "\n[roles]\n".toList = documentText [.blank, .table "roles".toList] := rfl
  rw [renderRootMetadata, rootLines, rootFront, List.cons_append, List.cons_append, List.cons_append,
    List.cons_append, documentText_field, documentText_field, documentText_field,
    documentText_field, documentText_append, documentText_append, documentText_append,
    documentText_append, documentText_append, documentText_append, documentText_field,
    documentText_ite, @documentText_role .root "root" rfl, @documentText_role .targets "targets" rfl,
    @documentText_role .snapshot "snapshot" rfl, @documentText_role .timestamp "timestamp" rfl,
    @documentText_role .audit "audit" rfl, htables, renderSignatures_eq]
  simp only [List.append_assoc]

lemma renderSnapshotMetadata_eq (metadata : SnapshotMetadata) :
    renderSnapshotMetadata metadata = documentText (snapshotLines metadata) := by
  simp only [renderSnapshotMetadata, snapshotLines, snapshotFront, List.cons_append, List.nil_append,
    documentText_field, documentText_append, documentText_ite, documentText_nil,
    renderSignatures_eq, List.append_assoc, List.append_nil]

lemma renderTimestampMetadata_eq (metadata : TimestampMetadata) :
    renderTimestampMetadata metadata = documentText (timestampLines metadata) := by
  simp only [renderTimestampMetadata, timestampLines, List.cons_append, List.nil_append,
    documentText_field, renderSignatures_eq, List.append_assoc]

/-! ## Proper lines -/

lemma plainKey_of_isHexDigest {digest : Text} (h : isHexDigest digest = true) :
    PlainKey digest := by
  rw [isHexDigest, Bool.and_eq_true, beq_iff_eq, List.all_eq_true] at h
  obtain ⟨hlength, hdigits⟩ := h
  constructor
  · rintro rfl
    cases hlength
  · intro ch hch
    have hdigit := hdigits ch hch
    refine ⟨?_, ?_, ?_, ?_, ?_⟩
    · rw [Bool.eq_false_iff]
      intro hspace
      simp only [isSpace, isHexDigit, Bool.or_eq_true, Bool.and_eq_true, decide_eq_true_iff,
        beq_iff_eq, Char.le_def, UInt32.le_iff_toNat_le] at hspace hdigit
      have hzero : '0'.val.toNat = 48 := rfl
      have ha : 'a'.val.toNat = 97 := rfl
      obtain rfl | hspace := hspace
      · exact absurd hdigit (by decide)
      · have : ch.toNat = ch.val.toNat := rfl
        omega
    all_goals
      rintro rfl
      exact absurd hdigit (by decide)

lemma plainKey_role (name : RoleName) :
    PlainKey (name.tag ++ "keys".toList) ∧ PlainKey (name.tag ++ "threshold".toList) := by
  cases name
  all_goals exact ⟨plainKey_of_all (by decide) (by decide), plainKey_of_all (by decide) (by decide)⟩

lemma proper_roleLines (tables : List Text) (name : RoleName) (role : TrustRole) :
    ∀ line ∈ roleLines name role, line.Proper tables := by
  rw [roleLines, List.forall_mem_cons, List.forall_mem_singleton]
  exact ⟨⟨(plainKey_role name).1, writtenValue_renderArray _⟩, (plainKey_role name).2,
    writtenValue_decimal _⟩

lemma MetadataSignature.Readable.digest {signature : MetadataSignature} (h : signature.Readable) :
    isHexDigest (signature.keyId.drop 7) = true ∧
      "sha256:".toList ++ signature.keyId.drop 7 = signature.keyId := by
  obtain ⟨digest, hdigest, hkey⟩ := h.keyId
  have hdrop : signature.keyId.drop 7 = digest := by
    rw [hkey]
    exact List.drop_left' rfl
  rw [hdrop]
  exact ⟨hdigest, hkey.symm⟩

lemma proper_signatureLines {tables : List Text} (htables : "signatures".toList ∈ tables)
    {signatures : List MetadataSignature} (h : ∀ signature ∈ signatures, signature.Readable) :
    ∀ line ∈ signatureLines signatures, line.Proper tables := by
  rw [signatureLines, List.forall_mem_cons, List.forall_mem_cons, List.forall_mem_map]
  refine ⟨trivial, ⟨plainKey_of_all (by decide) (by decide), htables⟩, fun signature hsignature => ?_⟩
  have hreadable := h signature ((List.perm_insertionSort _ _).subset hsignature)
  exact ⟨plainKey_of_isHexDigest hreadable.digest.1, writtenValue_quote _⟩

/-! ## Fields outside of the tables -/

section Common

variable {expectedFormat : Text} {metadata metadata' : CommonMetadata} {seen : List Text}

lemma parseCommon_field {assignment : ManifestToml.Assignment} (key : String)
    (htable : assignment.table = [])
    (hkey : assignment.key = key.toList) (hseen : key.toList ∉ seen)
    (hfield : parseCommonField expectedFormat metadata assignment = .ok metadata')
    (rest : List ManifestToml.Assignment) :
    parseCommon expectedFormat metadata seen (assignment :: rest) =
      parseCommon expectedFormat metadata' (key.toList :: seen) rest := by
  rw [parseCommon, htable, if_neg (by decide), if_neg (not_not.2 rfl), hkey, if_neg hseen, hfield]

lemma parseUnsigned_version (version : UInt64) :
    ManifestToml.parseUnsigned (decimal version.toNat) = some version := by
  rw [ManifestToml.parseUnsigned_decimal version.toNat_lt, UInt64.ofNat_toNat]

section Fields

variable {assignment : ManifestToml.Assignment}

lemma key_ne {key other : Text} (hkey : assignment.key = key) (h : key ≠ other) :
    assignment.key ≠ other := by
  rw [hkey]
  exact h

lemma parseCommonField_format (hkey : assignment.key = "format".toList)
    (hvalue : assignment.value = quote expectedFormat) :
    parseCommonField expectedFormat metadata assignment = .ok metadata := by
  unfold parseCommonField
  rw [if_pos hkey, hvalue, parseString_quote, if_pos rfl]

lemma parseCommonField_registry {name : Text} (hkey : assignment.key = "registry".toList)
    (hvalue : assignment.value = quote name) (hname : name ≠ []) :
    parseCommonField expectedFormat metadata assignment =
      .ok { metadata with registryName := name } := by
  obtain ⟨ch, rest, rfl⟩ := List.exists_cons_of_ne_nil hname
  unfold parseCommonField
  rw [if_neg (key_ne hkey (by decide)), if_pos hkey, hvalue, parseString_quote]

lemma parseCommonField_versionField {version : UInt64} (hkey : assignment.key = "version".toList)
    (hvalue : assignment.value = decimal version.toNat) (hversion : version ≠ 0) :
    parseCommonField expectedFormat metadata assignment =
      .ok { metadata with version := version } := by
  unfold parseCommonField
  rw [if_neg (key_ne hkey (by decide)), if_neg (key_ne hkey (by decide)), if_pos hkey, hvalue,
    parseUnsigned_version]
  dsimp only
  rw [if_neg hversion]

lemma parseCommonField_expires {expires : Text} (hkey : assignment.key = "expires".toList)
    (hvalue : assignment.value = quote expires)
    (hexpires : (parseRfc3339 expires).isSome = true) :
    parseCommonField expectedFormat metadata assignment =
      .ok { metadata with expires := expires } := by
  unfold parseCommonField
  rw [if_neg (key_ne hkey (by decide)), if_neg (key_ne hkey (by decide)),
    if_neg (key_ne hkey (by decide)), if_pos hkey, hvalue, parseString_quote]
  dsimp only
  rw [if_pos hexpires]

lemma parseCommonField_other (h : assignment.key ∉ commonFields) :
    parseCommonField expectedFormat metadata assignment = .ok metadata := by
  simp only [commonFields, List.mem_cons, List.not_mem_nil, or_false, not_or] at h
  obtain ⟨hformat, hregistry, hversion, hexpires⟩ := h
  rw [parseCommonField, if_neg hformat, if_neg hregistry, if_neg hversion, if_neg hexpires]

end Fields

lemma parseCommon_roles {assignment : ManifestToml.Assignment}
    (htable : assignment.table = "roles".toList)
    (rest : List ManifestToml.Assignment) :
    parseCommon expectedFormat metadata seen (assignment :: rest) =
      parseCommon expectedFormat metadata seen rest := by
  rw [parseCommon, htable, if_neg (by decide), if_pos (by decide)]

lemma parseSignatureAssignment_of {assignment : ManifestToml.Assignment}
    {signature : MetadataSignature}
    (hsignature : signature.Readable) (htable : assignment.table = "signatures".toList)
    (hkey : assignment.key = signature.keyId.drop 7)
    (hvalue : assignment.value = quote signature.signature) :
    parseSignatureAssignment assignment = some signature := by
  obtain ⟨hdigest, hkeyId⟩ := hsignature.digest
  unfold parseSignatureAssignment
  rw [hkey, if_pos ⟨htable, hdigest⟩, hvalue, parseString_quote, Option.bind_some,
    if_pos hsignature.tag, hkeyId]

/-- The signatures are read back. -/
lemma parseCommon_signatures {table : Text} (htable : table = "signatures".toList)
    {signatures : List MetadataSignature} (h : ∀ signature ∈ signatures, signature.Readable)
    (number : ℕ) :
    parseCommon expectedFormat metadata seen
      (assignmentsOf table number (signatures.map fun signature =>
        .field (signature.keyId.drop 7) (quote signature.signature))) =
      .ok ({ metadata with signatures := metadata.signatures ++ signatures }, seen) := by
  induction signatures generalizing metadata number with
  | nil =>
    rw [List.append_nil]
    rfl
  | cons signature signatures ih =>
    obtain ⟨hsignature, hrest⟩ := List.forall_mem_cons.1 h
    rw [List.map_cons, assignmentsOf, parseCommon, if_pos htable,
      parseSignatureAssignment_of hsignature htable rfl rfl]
    dsimp only
    rw [ih hrest, List.append_assoc, List.singleton_append]

end Common

/-! ## Fields of snapshots and timestamps -/

lemma table_of_mem_signatures {table : Text} {signatures : List MetadataSignature} {number : ℕ} :
    ∀ assignment ∈ assignmentsOf table number (signatures.map fun signature =>
      .field (signature.keyId.drop 7) (quote signature.signature)), assignment.table = table := by
  induction signatures generalizing number with
  | nil => exact fun _ h => absurd h List.not_mem_nil
  | cons signature signatures ih =>
    rw [List.map_cons, assignmentsOf, List.forall_mem_cons]
    exact ⟨rfl, ih⟩

lemma parseFields_field {α : Type} {field : α → ManifestToml.Assignment → Except String α}
    {m m' : α}
    {assignment : ManifestToml.Assignment} (htable : assignment.table = [])
    (hfield : field m assignment = .ok m') (rest : List ManifestToml.Assignment) :
    parseFields field m (assignment :: rest) = parseFields field m' rest := by
  rw [parseFields, if_neg (not_not.2 htable), hfield]

variable {assignments : List ManifestToml.Assignment}

lemma parseFields_tables {α : Type} {field : α → ManifestToml.Assignment → Except String α}
    {m : α} (h : ∀ assignment ∈ assignments, assignment.table ≠ []) :
    parseFields field m assignments = .ok m := by
  induction assignments with
  | nil => rfl
  | cons assignment rest ih =>
    obtain ⟨htable, hrest⟩ := List.forall_mem_cons.1 h
    rw [parseFields, if_pos htable, ih hrest]

lemma parseVersion_decimal {version : UInt64} (h : version ≠ 0) :
    parseVersion (decimal version.toNat) = some version := by
  rw [parseVersion, parseUnsigned_version, Option.filter_some, if_pos (decide_eq_true h)]

lemma parseDigest_quote {digest : Text} (h : isHexDigest digest = true) :
    parseDigest (quote digest) = some digest := by
  rw [parseDigest, parseString_quote, Option.filter_some, if_pos h]

section Fields

variable {assignment : ManifestToml.Assignment}

variable {version : UInt64}

lemma parseSnapshotField_rootVersion {m : SnapshotMetadata}
    (hkey : assignment.key = "root_version".toList)
    (hvalue : assignment.value = decimal version.toNat) (hversion : version ≠ 0) :
    parseSnapshotField m assignment = .ok { m with rootVersion := version } := by
  rw [parseSnapshotField, if_pos hkey, hvalue, parseVersion_decimal hversion]

variable {digest : Text}

lemma parseSnapshotField_packages {m : SnapshotMetadata}
    (hkey : assignment.key = "packages_sha256".toList) (hvalue : assignment.value = quote digest)
    (hdigest : isHexDigest digest = true) :
    parseSnapshotField m assignment = .ok { m with packagesSha256 := digest } := by
  rw [parseSnapshotField, if_neg (key_ne hkey (by decide)), if_pos hkey, hvalue,
    parseDigest_quote hdigest]

lemma parseSnapshotField_checkpoint {m : SnapshotMetadata}
    (hkey : assignment.key = "audit_checkpoint_sha256".toList)
    (hvalue : assignment.value = quote digest) (hdigest : isHexDigest digest = true)
    (hformat : m.format = snapshotFormatV2) :
    parseSnapshotField m assignment = .ok { m with auditCheckpointSha256 := digest } := by
  rw [parseSnapshotField, if_neg (key_ne hkey (by decide)), if_neg (key_ne hkey (by decide)),
    if_pos hkey, hvalue, parseDigest_quote hdigest]
  exact if_pos hformat

lemma parseSnapshotField_other {m : SnapshotMetadata} (h : assignment.key ∈ commonFields) :
    parseSnapshotField m assignment = .ok m := by
  have hne : ∀ {key : Text}, key ∉ commonFields → assignment.key ≠ key := by
    rintro key hkey rfl
    exact hkey h
  rw [parseSnapshotField, if_neg (hne (by decide)), if_neg (hne (by decide)),
    if_neg (hne (by decide)), if_pos h]

variable {m : TimestampMetadata}

lemma parseTimestampField_rootVersion (hkey : assignment.key = "root_version".toList)
    (hvalue : assignment.value = decimal version.toNat) (hversion : version ≠ 0) :
    parseTimestampField m assignment = .ok { m with rootVersion := version } := by
  rw [parseTimestampField, if_pos hkey, hvalue, parseVersion_decimal hversion]

lemma parseTimestampField_snapshotVersion (hkey : assignment.key = "snapshot_version".toList)
    (hvalue : assignment.value = decimal version.toNat) (hversion : version ≠ 0) :
    parseTimestampField m assignment = .ok { m with snapshotVersion := version } := by
  rw [parseTimestampField, if_neg (key_ne hkey (by decide)), if_pos hkey, hvalue,
    parseVersion_decimal hversion]

lemma parseTimestampField_snapshot (hkey : assignment.key = "snapshot_sha256".toList)
    (hvalue : assignment.value = quote digest) (hdigest : isHexDigest digest = true) :
    parseTimestampField m assignment = .ok { m with snapshotSha256 := digest } := by
  rw [parseTimestampField, if_neg (key_ne hkey (by decide)), if_neg (key_ne hkey (by decide)),
    if_pos hkey, hvalue, parseDigest_quote hdigest]

lemma parseTimestampField_other (h : assignment.key ∈ commonFields) :
    parseTimestampField m assignment = .ok m := by
  have hne : ∀ {key : Text}, key ∉ commonFields → assignment.key ≠ key := by
    rintro key hkey rfl
    exact hkey h
  rw [parseTimestampField, if_neg (hne (by decide)), if_neg (hne (by decide)),
    if_neg (hne (by decide)), if_pos h]

end Fields

/-! ## Roles -/

variable {root : RootMetadata}

lemma parseRoles_skip {seen : List Text} {assignment : ManifestToml.Assignment}
    (htable : assignment.table = []) (rest : List ManifestToml.Assignment) :
    parseRoles root seen (assignment :: rest) = parseRoles root seen rest := by
  rw [parseRoles, if_pos (.inl htable)]

lemma parseRoles_signatures {seen : List Text}
    (h : ∀ assignment ∈ assignments, assignment.table = "signatures".toList) :
    parseRoles root seen assignments = .ok (root, seen) := by
  induction assignments with
  | nil => rfl
  | cons assignment rest ih =>
    obtain ⟨htable, hrest⟩ := List.forall_mem_cons.1 h
    rw [parseRoles, if_pos (.inr htable), ih hrest]

lemma parseRoles_field {root' : RootMetadata} {seen : List Text}
    {assignment : ManifestToml.Assignment} (htable : assignment.table = "roles".toList)
    (hseen : "roles.".toList ++ assignment.key ∉ seen)
    (hfield : parseRoleField root assignment = .ok root') (rest : List ManifestToml.Assignment) :
    parseRoles root seen (assignment :: rest) =
      parseRoles root' (("roles.".toList ++ assignment.key) :: seen) rest := by
  have hfull : assignment.fullKey = "roles.".toList ++ assignment.key := by
    rw [ManifestToml.Assignment.fullKey, htable, if_neg (by decide)]
    rfl
  have hskip : ¬ (assignment.table = [] ∨ assignment.table = "signatures".toList) := by
    rw [htable]
    decide
  rw [parseRoles, if_neg hskip, hfull, if_neg (not_or.2 ⟨not_not.2 htable, hseen⟩), hfield]

lemma roleOfKey_tag (name : RoleName) :
    roleOfKey (name.tag ++ "keys".toList) = some name ∧
      roleOfKey (name.tag ++ "threshold".toList) = some name := by
  cases name
  all_goals exact ⟨by decide, by decide⟩

/-- The names of the fields of a role, the later one first. -/
def roleKeys (name : RoleName) : List Text :=
  ["roles.".toList ++ (name.tag ++ "threshold".toList), "roles.".toList ++ (name.tag ++ "keys".toList)]

lemma parseRoleField_keys {assignment : ManifestToml.Assignment} {name : RoleName}
    {keys : List Text} (hkey : assignment.key = name.tag ++ "keys".toList)
    (hvalue : assignment.value = renderArray keys) (hsorted : sortTexts keys = keys) :
    parseRoleField root assignment =
      .ok (root.onRole name fun role => { role with keys := keys }) := by
  unfold parseRoleField
  rw [hkey, (roleOfKey_tag name).1]
  dsimp only
  rw [List.drop_left, if_pos rfl, hvalue, parseStringArray_renderArray, hsorted]

lemma parseRoleField_threshold {assignment : ManifestToml.Assignment} {name : RoleName}
    {threshold : ℕ} (hkey : assignment.key = name.tag ++ "threshold".toList)
    (hvalue : assignment.value = decimal threshold) (hthreshold : threshold < 2 ^ 32) :
    parseRoleField root assignment =
      .ok (root.onRole name fun role => { role with threshold := threshold }) := by
  have hnat : (UInt64.ofNat threshold).toNat = threshold :=
    UInt64.toNat_ofNat_of_lt' (hthreshold.trans (by decide))
  unfold parseRoleField
  rw [hkey, (roleOfKey_tag name).2]
  dsimp only
  rw [List.drop_left, if_neg (by decide), if_pos rfl, hvalue,
    ManifestToml.parseUnsigned_decimal (by omega)]
  dsimp only
  rw [hnat, if_neg (Nat.not_le.2 hthreshold)]

/-- A role is read back. -/
lemma parseRoles_role {table : Text} (htable : table = "roles".toList) (root : RootMetadata)
    {seen : List Text} {name : RoleName} (hseen : ∀ key ∈ roleKeys name, key ∉ seen)
    {role : TrustRole} (hsorted : sortTexts role.keys = role.keys)
    (hthreshold : role.threshold < 2 ^ 32) (number : ℕ) (rest : List DocumentLine) :
    parseRoles root seen (assignmentsOf table number (roleLines name role ++ rest)) =
      parseRoles (root.onRole name fun _ => role) (roleKeys name ++ seen)
        (assignmentsOf table (number + 2) rest) := by
  obtain ⟨hlater, hseen⟩ := List.forall_mem_cons.1 hseen
  rw [List.forall_mem_singleton] at hseen
  have hfirst := @parseRoleField_keys root
    ⟨table, name.tag ++ "keys".toList, renderArray role.keys, number + 1⟩ name _ rfl rfl hsorted
  have hsecond := @parseRoleField_threshold (root.onRole name fun r => { r with keys := role.keys })
    ⟨table, name.tag ++ "threshold".toList, decimal role.threshold, number + 2⟩ name _ rfl rfl
    hthreshold
  have hlater : "roles.".toList ++ (name.tag ++ "threshold".toList) ∉
      ("roles.".toList ++ (name.tag ++ "keys".toList)) :: seen := by
    rw [List.mem_cons, not_or]
    refine ⟨?_, hlater⟩
    rw [List.append_cancel_left_eq, List.append_cancel_left_eq]
    decide
  have hroot : ((root.onRole name fun r => { r with keys := role.keys }).onRole name
      fun r => { r with threshold := role.threshold }) = root.onRole name fun _ => role := by
    cases name
    all_goals rfl
  rw [roleLines, List.cons_append, List.cons_append, List.nil_append, assignmentsOf, assignmentsOf,
    parseRoles_field htable hseen hfirst, parseRoles_field htable hlater hsecond, hroot]
  rfl

end Registry

end Chtholly
