import Chtholly.Registry.MetadataLines

/-!
# Metadata written and read again

A value that was read is read again from the text that is written of it.  A root of the first format
may have a role of auditors, which is not written.

## Main definitions

* `Registry.RootMetadata.rendered` — what is written of a root.

## Main results

* `Registry.parse_renderSnapshotMetadata`, `Registry.parse_renderTimestampMetadata`,
  `Registry.parse_renderRootMetadata` — what is written is read back.
-/

set_option autoImplicit false

namespace Chtholly

namespace Registry

open ManifestToml

lemma sortSignatures_of_valid {signatures : List MetadataSignature}
    (h : validSignatures signatures = some signatures) : sortSignatures signatures = signatures :=
  (validSignatures_of_some h).2.symm

variable {crypto : Crypto}

lemma sortTexts_of_validRole {role : TrustRole} (h : validRole crypto role = some role) :
    sortTexts role.keys = role.keys := by
  unfold validRole at h
  split at h
  case isTrue => exact congrArg TrustRole.keys (Option.some.inj h)
  case isFalse => cases h

lemma document_read {document : List DocumentLine} {tables : List Text} {kind : String} {text : Text}
    (htext : text = documentText document) (h : ∀ line ∈ document, line.Proper tables) :
    parseAssignments text tables kind = .ok (assignmentsOf [] 0 document) := by
  rw [htext]
  exact parseAssignments_document h

/-! ## Timestamps -/

lemma proper_timestampLines {metadata : TimestampMetadata} (h : metadata.Readable) :
    ∀ line ∈ timestampLines metadata, line.Proper ["signatures".toList] := by
  simp only [timestampLines, List.forall_mem_append, List.forall_mem_cons]
  refine ⟨⟨?_, ?_, ?_, ?_, ?_, ?_, ?_, fun _ hnil => absurd hnil List.not_mem_nil⟩,
    proper_signatureLines (List.mem_singleton.2 rfl) h.common.signatures⟩
  · exact ⟨plainKey_of_all (by decide) (by decide), writtenValue_quote _⟩
  · exact ⟨plainKey_of_all (by decide) (by decide), writtenValue_quote _⟩
  · exact ⟨plainKey_of_all (by decide) (by decide), writtenValue_decimal _⟩
  · exact ⟨plainKey_of_all (by decide) (by decide), writtenValue_decimal _⟩
  · exact ⟨plainKey_of_all (by decide) (by decide), writtenValue_quote _⟩
  · exact ⟨plainKey_of_all (by decide) (by decide), writtenValue_decimal _⟩
  · exact ⟨plainKey_of_all (by decide) (by decide), writtenValue_quote _⟩

/-- A timestamp is read back. -/
theorem parse_renderTimestampMetadata {metadata : TimestampMetadata} (h : metadata.Readable)
    (path : Text) : parseTimestampMetadata (renderTimestampMetadata metadata) path = .ok metadata := by
  have hsorted := sortSignatures_of_valid h.common.sorted
  have hread := @document_read _ _ "registry timestamp metadata" _
    (renderTimestampMetadata_eq metadata) (proper_timestampLines h)
  have hcommon : parseCommon timestampFormat {} [] (assignmentsOf [] 0 (timestampLines metadata)) =
      .ok (metadata.toCommonMetadata, ["snapshot_sha256".toList, "snapshot_version".toList,
        "expires".toList, "root_version".toList, "version".toList, "registry".toList,
        "format".toList]) := by
    refine (parseCommon_field "format" rfl rfl List.not_mem_nil (parseCommonField_format rfl rfl) _).trans ?_
    refine (parseCommon_field "registry" rfl rfl (by decide)
      (parseCommonField_registry rfl rfl h.common.registryName) _).trans ?_
    refine (parseCommon_field "version" rfl rfl (by decide)
      (parseCommonField_versionField rfl rfl h.common.version) _).trans ?_
    refine (parseCommon_field "root_version" rfl rfl (by decide)
      (parseCommonField_other (show "root_version".toList ∉ _ by decide)) _).trans ?_
    refine (parseCommon_field "expires" rfl rfl (by decide)
      (parseCommonField_expires rfl rfl h.common.expires) _).trans ?_
    refine (parseCommon_field "snapshot_version" rfl rfl (by decide)
      (parseCommonField_other (show "snapshot_version".toList ∉ _ by decide)) _).trans ?_
    refine (parseCommon_field "snapshot_sha256" rfl rfl (by decide)
      (parseCommonField_other (show "snapshot_sha256".toList ∉ _ by decide)) _).trans ?_
    refine (parseCommon_signatures rfl ?_ 9).trans ?_
    · intro signature hmem
      exact h.common.signatures signature ((List.perm_insertionSort _ _).subset hmem)
    · rw [hsorted]
      rfl
  have hfields : parseFields parseTimestampField { metadata.toCommonMetadata with }
      (assignmentsOf [] 0 (timestampLines metadata)) = .ok metadata := by
    refine (parseFields_field rfl (parseTimestampField_other
      (show "format".toList ∈ _ by decide)) _).trans ?_
    refine (parseFields_field rfl (parseTimestampField_other
      (show "registry".toList ∈ _ by decide)) _).trans ?_
    refine (parseFields_field rfl (parseTimestampField_other
      (show "version".toList ∈ _ by decide)) _).trans ?_
    refine (parseFields_field rfl (parseTimestampField_rootVersion rfl rfl h.rootVersion) _).trans ?_
    refine (parseFields_field rfl (parseTimestampField_other
      (show "expires".toList ∈ _ by decide)) _).trans ?_
    refine (parseFields_field rfl
      (parseTimestampField_snapshotVersion rfl rfl h.snapshotVersion) _).trans ?_
    refine (parseFields_field rfl
      (parseTimestampField_snapshot rfl rfl h.snapshotSha256) _).trans ?_
    refine (parseFields_tables fun assignment hmem => ?_).trans rfl
    rw [table_of_mem_signatures assignment hmem]
    decide
  refine except_bind_eq_ok.2 ⟨_, hread, except_bind_eq_ok.2 ⟨_, hcommon,
    except_bind_eq_ok.2 ⟨_, hfields, ?_⟩⟩⟩
  dsimp only
  rw [if_pos (by decide), h.common.sorted]

/-! ## Snapshots -/

variable {metadata : SnapshotMetadata}

lemma proper_snapshotLines (h : metadata.Readable) :
    ∀ line ∈ snapshotLines metadata, line.Proper ["signatures".toList] := by
  have hfront : ∀ line ∈ snapshotFront metadata, line.Proper ["signatures".toList] := by
    simp only [snapshotFront, List.forall_mem_cons]
    refine ⟨?_, ?_, ?_, ?_, ?_, ?_, fun _ hnil => absurd hnil List.not_mem_nil⟩
    · exact ⟨plainKey_of_all (by decide) (by decide), writtenValue_quote _⟩
    · exact ⟨plainKey_of_all (by decide) (by decide), writtenValue_quote _⟩
    · exact ⟨plainKey_of_all (by decide) (by decide), writtenValue_decimal _⟩
    · exact ⟨plainKey_of_all (by decide) (by decide), writtenValue_decimal _⟩
    · exact ⟨plainKey_of_all (by decide) (by decide), writtenValue_quote _⟩
    · exact ⟨plainKey_of_all (by decide) (by decide), writtenValue_quote _⟩
  rw [snapshotLines, List.forall_mem_append, List.forall_mem_append]
  refine ⟨hfront, ?_, proper_signatureLines (List.mem_singleton.2 rfl) h.common.signatures⟩
  split
  case isTrue =>
    rw [List.forall_mem_singleton]
    exact ⟨plainKey_of_all (by decide) (by decide), writtenValue_quote _⟩
  case isFalse => exact fun _ hnil => absurd hnil List.not_mem_nil

/-- The fields that were seen before the digest of the checkpoint. -/
def snapshotSeen : List Text :=
  ["packages_sha256".toList, "expires".toList, "root_version".toList, "version".toList,
    "registry".toList, "format".toList]

lemma parseCommon_snapshotFront (h : metadata.Readable) (rest : List DocumentLine) :
    parseCommon metadata.format {} [] (assignmentsOf [] 0 (snapshotFront metadata ++ rest)) =
      parseCommon metadata.format { metadata.toCommonMetadata with signatures := [] } snapshotSeen
        (assignmentsOf [] 6 rest) := by
  refine (parseCommon_field "format" rfl rfl List.not_mem_nil
    (parseCommonField_format rfl rfl) _).trans ?_
  refine (parseCommon_field "registry" rfl rfl (by decide)
    (parseCommonField_registry rfl rfl h.common.registryName) _).trans ?_
  refine (parseCommon_field "version" rfl rfl (by decide)
    (parseCommonField_versionField rfl rfl h.common.version) _).trans ?_
  refine (parseCommon_field "root_version" rfl rfl (by decide)
    (parseCommonField_other (show "root_version".toList ∉ _ by decide)) _).trans ?_
  refine (parseCommon_field "expires" rfl rfl (by decide)
    (parseCommonField_expires rfl rfl h.common.expires) _).trans ?_
  exact parseCommon_field "packages_sha256" rfl rfl (by decide)
    (parseCommonField_other (show "packages_sha256".toList ∉ _ by decide)) _

lemma parseFields_snapshotFront (h : metadata.Readable) (rest : List DocumentLine) :
    parseFields parseSnapshotField
        { metadata.toCommonMetadata with format := metadata.format }
        (assignmentsOf [] 0 (snapshotFront metadata ++ rest)) =
      parseFields parseSnapshotField { metadata with auditCheckpointSha256 := [] }
        (assignmentsOf [] 6 rest) := by
  refine (parseFields_field rfl (parseSnapshotField_other
    (show "format".toList ∈ _ by decide)) _).trans ?_
  refine (parseFields_field rfl (parseSnapshotField_other
    (show "registry".toList ∈ _ by decide)) _).trans ?_
  refine (parseFields_field rfl (parseSnapshotField_other
    (show "version".toList ∈ _ by decide)) _).trans ?_
  refine (parseFields_field rfl (parseSnapshotField_rootVersion rfl rfl h.rootVersion) _).trans ?_
  refine (parseFields_field rfl (parseSnapshotField_other
    (show "expires".toList ∈ _ by decide)) _).trans ?_
  exact parseFields_field rfl (parseSnapshotField_packages rfl rfl h.packagesSha256) _

lemma parseSnapshotFormat_lines (h : metadata.Readable) :
    parseSnapshotFormat (assignmentsOf [] 0 (snapshotLines metadata)) = .ok metadata.format := by
  have hfind : (assignmentsOf [] 0 (snapshotLines metadata)).find? (fun assignment =>
      assignment.table == [] && assignment.key == "format".toList) =
      some ⟨[], "format".toList, quote metadata.format, 1⟩ :=
    List.find?_cons_of_pos rfl
  unfold parseSnapshotFormat
  rw [hfind]
  dsimp only [Option.bind_some]
  rw [parseString_quote]
  exact if_pos h.format

/-- A snapshot is read back. -/
theorem parse_renderSnapshotMetadata (h : metadata.Readable) (path : Text) :
    parseSnapshotMetadata (renderSnapshotMetadata metadata) path = .ok metadata := by
  have hsorted := sortSignatures_of_valid h.common.sorted
  have hsignatures : ∀ signature ∈ sortSignatures metadata.signatures, signature.Readable :=
    fun signature hmem =>
      h.common.signatures signature ((List.perm_insertionSort _ _).subset hmem)
  have hread := @document_read _ _ "registry snapshot metadata" _
    (renderSnapshotMetadata_eq metadata) (proper_snapshotLines h)
  obtain ⟨seen, hcommon, hseen⟩ : ∃ seen, parseCommon metadata.format {} []
      (assignmentsOf [] 0 (snapshotLines metadata)) = .ok (metadata.toCommonMetadata, seen) ∧
      (∀ field ∈ snapshotSeen, field ∈ seen) ∧ (metadata.format = snapshotFormatV2 →
        "audit_checkpoint_sha256".toList ∈ seen) := by
    by_cases hformat : metadata.format = snapshotFormatV2
    · refine ⟨"audit_checkpoint_sha256".toList :: snapshotSeen, ?_,
        fun field hfield => .tail _ hfield, fun _ => .head _⟩
      rw [snapshotLines, if_pos hformat, parseCommon_snapshotFront h]
      refine (parseCommon_field "audit_checkpoint_sha256" rfl rfl (by decide)
        (parseCommonField_other (show "audit_checkpoint_sha256".toList ∉ _ by decide)) _).trans ?_
      refine (parseCommon_signatures rfl hsignatures 9).trans ?_
      rw [hsorted]
      rfl
    · refine ⟨snapshotSeen, ?_, fun _ hfield => hfield, fun hv2 => absurd hv2 hformat⟩
      rw [snapshotLines, if_neg hformat, parseCommon_snapshotFront h]
      refine (parseCommon_signatures rfl hsignatures 8).trans ?_
      rw [hsorted]
      rfl
  have hfields : parseFields parseSnapshotField
      { metadata.toCommonMetadata with format := metadata.format }
      (assignmentsOf [] 0 (snapshotLines metadata)) = .ok metadata := by
    have htables : ∀ number, ∀ assignment ∈ assignmentsOf "signatures".toList number
        ((sortSignatures metadata.signatures).map fun signature =>
          .field (signature.keyId.drop 7) (quote signature.signature)), assignment.table ≠ [] := by
      intro number assignment hmem
      rw [table_of_mem_signatures assignment hmem]
      decide
    rw [snapshotLines, parseFields_snapshotFront h]
    by_cases hformat : metadata.format = snapshotFormatV2
    · have hcheckpoint := @parseSnapshotField_checkpoint ⟨[], "audit_checkpoint_sha256".toList,
        quote metadata.auditCheckpointSha256, 7⟩ _ { metadata with auditCheckpointSha256 := [] } rfl
        rfl (h.checkpoint hformat) hformat
      rw [if_pos hformat]
      exact (parseFields_field rfl hcheckpoint _).trans (parseFields_tables (htables 9))
    · rw [if_neg hformat]
      refine (parseFields_tables (htables 8)).trans ?_
      rw [← h.noCheckpoint hformat]
  refine except_bind_eq_ok.2 ⟨_, hread, except_bind_eq_ok.2 ⟨_, parseSnapshotFormat_lines h,
    except_bind_eq_ok.2 ⟨_, hcommon, except_bind_eq_ok.2 ⟨_, hfields, ?_⟩⟩⟩⟩
  dsimp only
  rw [if_pos, h.common.sorted]
  exact ⟨fun field hfield => hseen.1 field ((by decide : ∀ field ∈ commonFields ++
    ["root_version".toList, "packages_sha256".toList], field ∈ snapshotSeen) field hfield), hseen.2⟩

/-! ## Roots -/

/-- What is written of a root: the role of auditors belongs to the second format. -/
def RootMetadata.rendered (root : RootMetadata) : RootMetadata :=
  if root.format = rootFormatV2 then root else { root with audit := ⟨[], 0⟩ }

/-- The tables of a root. -/
def rootTables : List Text := ["roles".toList, "signatures".toList]

/-- The lines of a root behind its roles. -/
def rootRest (root : RootMetadata) : List DocumentLine :=
  .field "revoked_key_ids".toList (renderArray root.revokedKeyIds) ::
    signatureLines root.signatures

/-- The lines of the roles of a root. -/
def rootRoles (root : RootMetadata) : List DocumentLine :=
  roleLines .root root.root ++ (roleLines .targets root.targets ++
    (roleLines .snapshot root.snapshot ++ (roleLines .timestamp root.timestamp ++
      if root.format = rootFormatV2 then roleLines .audit root.audit else [])))

lemma rootLines_eq (root : RootMetadata) :
    rootLines root = rootFront root ++ (rootRoles root ++ rootRest root) := by
  simp only [rootLines, rootRoles, rootRest, List.append_assoc]

variable {root : RootMetadata}

lemma forall_mem_rootRoles {p : DocumentLine → Prop}
    (h : ∀ name role, ∀ line ∈ roleLines name role, p line) : ∀ line ∈ rootRoles root, p line := by
  have haudit : ∀ line ∈ (if root.format = rootFormatV2 then roleLines .audit root.audit else []),
      p line := by
    split
    case isTrue => exact h _ _
    case isFalse => exact fun _ hnil => absurd hnil List.not_mem_nil
  simp only [rootRoles, List.forall_mem_append]
  exact ⟨h _ _, h _ _, h _ _, h _ _, haudit⟩

lemma proper_rootRest (h : ∀ signature ∈ root.signatures, signature.Readable) :
    ∀ line ∈ rootRest root, line.Proper rootTables := by
  rw [rootRest, List.forall_mem_cons]
  exact ⟨⟨plainKey_of_all (by decide) (by decide), writtenValue_renderArray _⟩,
    proper_signatureLines (by decide) h⟩

lemma proper_rootLines (h : ∀ signature ∈ root.signatures, signature.Readable) :
    ∀ line ∈ rootLines root, line.Proper rootTables := by
  have hfront : ∀ line ∈ rootFront root, line.Proper rootTables := by
    simp only [rootFront, List.forall_mem_cons]
    refine ⟨?_, ?_, ?_, ?_, trivial, ?_, fun _ hnil => absurd hnil List.not_mem_nil⟩
    · exact ⟨plainKey_of_all (by decide) (by decide), writtenValue_quote _⟩
    · exact ⟨plainKey_of_all (by decide) (by decide), writtenValue_quote _⟩
    · exact ⟨plainKey_of_all (by decide) (by decide), writtenValue_decimal _⟩
    · exact ⟨plainKey_of_all (by decide) (by decide), writtenValue_quote _⟩
    · exact ⟨plainKey_of_all (by decide) (by decide), by decide⟩
  rw [rootLines_eq, List.forall_mem_append, List.forall_mem_append]
  exact ⟨hfront, forall_mem_rootRoles (proper_roleLines rootTables), proper_rootRest h⟩

/-- No line is outside of the tables once there was a table. -/
lemma table_ne_nil {tables : List Text} {document : List DocumentLine}
    (h : ∀ line ∈ document, line.Proper tables) {table : Text} (htable : table ≠ []) (number : ℕ) :
    ∀ assignment ∈ assignmentsOf table number document, assignment.table ≠ [] := by
  induction document generalizing table number with
  | nil => exact fun _ hnil => absurd hnil List.not_mem_nil
  | cons line document ih =>
    obtain ⟨hline, hrest⟩ := List.forall_mem_cons.1 h
    cases line with
    | field key value =>
      rw [assignmentsOf, List.forall_mem_cons]
      exact ⟨htable, ih hrest htable _⟩
    | table name => exact ih hrest hline.1.ne_nil _
    | blank => exact ih hrest htable _

lemma parseRootFormat_other {format : Text} (hformat : format ≠ [])
    {assignments : List ManifestToml.Assignment}
    (h : ∀ assignment ∈ assignments, ¬ (assignment.table = [] ∧ assignment.key = "format".toList)) :
    parseRootFormat format assignments = .ok format := by
  induction assignments with
  | nil =>
    unfold parseRootFormat
    exact if_neg hformat
  | cons assignment rest ih =>
    obtain ⟨hassignment, hrest⟩ := List.forall_mem_cons.1 h
    rw [parseRootFormat.eq_def]
    dsimp only
    rw [if_neg hassignment, ih hrest]

lemma parseRootFormat_lines (hformat : root.format = rootFormat ∨ root.format = rootFormatV2)
    (h : ∀ signature ∈ root.signatures, signature.Readable) :
    parseRootFormat [] (assignmentsOf [] 0 (rootLines root)) = .ok root.format := by
  have hne : root.format ≠ [] := by
    obtain hformat | hformat := hformat
    all_goals
      rw [hformat]
      decide
  have hroles : ∀ line ∈ rootRoles root ++ rootRest root, line.Proper rootTables :=
    List.forall_mem_append.2 ⟨forall_mem_rootRoles (proper_roleLines rootTables), proper_rootRest h⟩
  have hrest := @parseRootFormat_other root.format hne
    (⟨[], "registry".toList, quote root.registryName, 2⟩ ::
      ⟨[], "version".toList, decimal root.version.toNat, 3⟩ ::
      ⟨[], "expires".toList, quote root.expires, 4⟩ ::
      assignmentsOf "roles".toList 6 (rootRoles root ++ rootRest root)) (by
    simp only [List.forall_mem_cons]
    refine ⟨?_, ?_, ?_, fun assignment hmem hname => ?_⟩
    · exact fun hname => absurd hname.2 (by decide)
    · exact fun hname => absurd hname.2 (by decide)
    · exact fun hname => absurd hname.2 (by decide)
    · exact table_ne_nil hroles (by decide) 6 assignment hmem hname.1)
  have hfirst : assignmentsOf [] 0 (rootLines root) =
      ⟨[], "format".toList, quote root.format, 1⟩ ::
      ⟨[], "registry".toList, quote root.registryName, 2⟩ ::
      ⟨[], "version".toList, decimal root.version.toNat, 3⟩ ::
      ⟨[], "expires".toList, quote root.expires, 4⟩ ::
      assignmentsOf "roles".toList 6 (rootRoles root ++ rootRest root) := by
    rw [rootLines_eq]
    rfl
  rw [hfirst, parseRootFormat.eq_def]
  dsimp only
  rw [if_pos ⟨rfl, rfl⟩, parseString_quote]
  dsimp only
  rw [if_pos hformat, hrest]

/-- The fields of a root that were seen before its roles. -/
def rootSeen : List Text :=
  ["expires".toList, "version".toList, "registry".toList, "format".toList]

/-- The reader of the common fields passes over the roles. -/
lemma parseCommon_fields {expectedFormat : Text} {metadata : CommonMetadata} {seen : List Text}
    {table : Text} (htable : table = "roles".toList) {fields : List DocumentLine}
    (h : ∀ line ∈ fields, ∃ key value, line = .field key value) (number : ℕ)
    (rest : List DocumentLine) :
    parseCommon expectedFormat metadata seen (assignmentsOf table number (fields ++ rest)) =
      parseCommon expectedFormat metadata seen
        (assignmentsOf table (number + fields.length) rest) := by
  induction fields generalizing number with
  | nil => rfl
  | cons line fields ih =>
    obtain ⟨⟨key, value, rfl⟩, hfields⟩ := List.forall_mem_cons.1 h
    rw [List.cons_append, assignmentsOf, parseCommon_roles htable, ih hfields, List.length_cons,
      Nat.add_assoc, Nat.add_comm 1]

lemma parseCommon_rootLines (h : root.toCommonMetadata.Readable) :
    parseCommon root.format {} [] (assignmentsOf [] 0 (rootLines root)) =
      .ok (root.toCommonMetadata, rootSeen) := by
  have hsorted := sortSignatures_of_valid h.sorted
  have hsignatures : ∀ signature ∈ sortSignatures root.signatures, signature.Readable :=
    fun signature hmem => h.signatures signature ((List.perm_insertionSort _ _).subset hmem)
  have hroles : ∀ line ∈ rootRoles root ++
      [DocumentLine.field "revoked_key_ids".toList (renderArray root.revokedKeyIds)],
      ∃ key value, line = .field key value := by
    refine List.forall_mem_append.2 ⟨forall_mem_rootRoles fun name role line hline => ?_, ?_⟩
    · rw [roleLines, List.mem_cons, List.mem_singleton] at hline
      obtain rfl | rfl := hline
      all_goals exact ⟨_, _, rfl⟩
    · rw [List.forall_mem_singleton]
      exact ⟨_, _, rfl⟩
  rw [rootLines_eq]
  refine (parseCommon_field "format" rfl rfl List.not_mem_nil
    (parseCommonField_format rfl rfl) _).trans ?_
  refine (parseCommon_field "registry" rfl rfl (by decide)
    (parseCommonField_registry rfl rfl h.registryName) _).trans ?_
  refine (parseCommon_field "version" rfl rfl (by decide)
    (parseCommonField_versionField rfl rfl h.version) _).trans ?_
  refine (parseCommon_field "expires" rfl rfl (by decide)
    (parseCommonField_expires rfl rfl h.expires) _).trans ?_
  have hskip := @parseCommon_fields root.format
    { root.toCommonMetadata with signatures := [] } rootSeen _ rfl _ hroles 6
    (signatureLines root.signatures)
  rw [List.append_assoc, List.singleton_append] at hskip
  refine hskip.trans ?_
  refine (parseCommon_signatures rfl hsignatures _).trans ?_
  rw [hsorted]
  rfl

/-- The fields of a root that are seen in the end. -/
def rootSeenRoles (audit : List Text) : List Text :=
  "roles.revoked_key_ids".toList :: (audit ++ (roleKeys .timestamp ++ (roleKeys .snapshot ++
    (roleKeys .targets ++ (roleKeys .root ++ rootSeen)))))

lemma parseRoles_revoked {revoked seen : List Text} {assignment : ManifestToml.Assignment}
    (htable : assignment.table = "roles".toList)
    (hkey : assignment.key = "revoked_key_ids".toList)
    (hvalue : assignment.value = renderArray revoked) (hsorted : sortTexts revoked = revoked)
    (hseen : "roles.revoked_key_ids".toList ∉ seen) (rest : List ManifestToml.Assignment) :
    parseRoles root seen (assignment :: rest) =
      parseRoles { root with revokedKeyIds := revoked } ("roles.revoked_key_ids".toList :: seen)
        rest := by
  have hfield : parseRoleField root assignment = .ok { root with revokedKeyIds := revoked } := by
    have hnone : roleOfKey "revoked_key_ids".toList = none := by decide
    unfold parseRoleField
    rw [hkey, hnone, hvalue]
    dsimp only
    rw [if_pos rfl, parseStringArray_renderArray, hsorted]
  have hname : "roles.".toList ++ assignment.key = "roles.revoked_key_ids".toList := by
    rw [hkey]
    decide
  rw [← hname] at hseen ⊢
  exact parseRoles_field htable hseen hfield rest

lemma parseRoles_rootLines (h : root.Readable crypto)
    (hrevoked : sortTexts root.revokedKeyIds = root.revokedKeyIds) :
    parseRoles { root.toCommonMetadata with format := root.format } rootSeen
      (assignmentsOf [] 0 (rootLines root)) = .ok (root.rendered,
        rootSeenRoles (if root.format = rootFormatV2 then roleKeys .audit else [])) := by
  have hsignatures : ∀ number, ∀ assignment ∈ assignmentsOf "signatures".toList number
      ((sortSignatures root.signatures).map fun signature =>
        .field (signature.keyId.drop 7) (quote signature.signature)),
      assignment.table = "signatures".toList := fun _ => table_of_mem_signatures
  rw [rootLines_eq, rootRoles]
  simp only [List.append_assoc]
  refine (parseRoles_skip rfl _).trans <| (parseRoles_skip rfl _).trans <|
    (parseRoles_skip rfl _).trans <| (parseRoles_skip rfl _).trans ?_
  refine (parseRoles_role rfl _ (by decide) (sortTexts_of_validRole h.rootRole.valid)
    h.rootRole.threshold 6 _).trans ?_
  refine (parseRoles_role rfl _ (by decide) (sortTexts_of_validRole h.targets.valid)
    h.targets.threshold 8 _).trans ?_
  refine (parseRoles_role rfl _ (by decide) (sortTexts_of_validRole h.snapshot.valid)
    h.snapshot.threshold 10 _).trans ?_
  refine (parseRoles_role rfl _ (by decide) (sortTexts_of_validRole h.timestamp.valid)
    h.timestamp.threshold 12 _).trans ?_
  by_cases hformat : root.format = rootFormatV2
  · have haudit := h.audit hformat
    rw [if_pos hformat, if_pos hformat, RootMetadata.rendered, if_pos hformat]
    refine (parseRoles_role rfl _ (by decide) (sortTexts_of_validRole haudit.valid)
      haudit.threshold 14 _).trans ?_
    refine (parseRoles_revoked rfl rfl rfl hrevoked (by decide) _).trans ?_
    exact parseRoles_signatures (hsignatures _)
  · rw [if_neg hformat, if_neg hformat, RootMetadata.rendered, if_neg hformat, List.nil_append]
    refine (parseRoles_revoked rfl rfl rfl hrevoked (by decide) _).trans ?_
    exact parseRoles_signatures (hsignatures _)

lemma revoked_of_checkRevoked (h : checkRevoked crypto root = .ok root) :
    sortTexts root.revokedKeyIds = root.revokedKeyIds := by
  obtain ⟨-, hroot⟩ := checkRevoked_of_ok h
  exact (congrArg RootMetadata.revokedKeyIds hroot).symm

/-- The role of auditors of a root of the first format is not checked. -/
lemma checkRevoked_rendered (h : checkRevoked crypto root = .ok root) :
    checkRevoked crypto root.rendered = .ok root.rendered := by
  by_cases hformat : root.format = rootFormatV2
  · rw [RootMetadata.rendered, if_pos hformat, h]
  · have hgate : (root.format == rootFormatV2) = false := beq_eq_false_iff_ne.2 hformat
    have hsorted := revoked_of_checkRevoked h
    rw [RootMetadata.rendered, if_neg hformat]
    unfold checkRevoked at h ⊢
    dsimp only at h ⊢
    rw [hgate, Bool.false_and, Bool.or_false] at h ⊢
    split at h
    case isTrue => cases h
    case isFalse hids =>
      split at h
      case isTrue => cases h
      case isFalse hactive => rw [if_neg hids, if_neg hactive, hsorted]

lemma completeRoot_rendered (h : root.Readable crypto) :
    completeRoot crypto root.rendered
      (rootSeenRoles (if root.format = rootFormatV2 then roleKeys .audit else [])) =
      some root.rendered := by
  by_cases hformat : root.format = rootFormatV2
  · have hne : ¬ root.format = rootFormat := by
      rw [hformat]
      decide
    have haudit : auditComplete crypto root (rootSeenRoles (roleKeys .audit)) = some root.audit := by
      rw [auditComplete, if_neg hne, if_pos ⟨by decide, by decide⟩,
        (h.audit hformat).valid]
    have hrequired : ∀ field ∈ requiredRootFields, field ∈ rootSeenRoles (roleKeys .audit) := by
      decide
    rw [if_pos hformat, RootMetadata.rendered, if_pos hformat]
    unfold completeRoot
    rw [haudit, h.rootRole.valid, h.targets.valid, h.snapshot.valid, h.timestamp.valid,
      h.common.sorted, guard, if_pos hrequired]
    rfl
  · have hrequired : ∀ field ∈ requiredRootFields, field ∈ rootSeenRoles [] := by
      decide
    rw [if_neg hformat, RootMetadata.rendered, if_neg hformat]
    unfold completeRoot
    dsimp only
    rw [auditComplete, if_pos (h.format.resolve_right hformat), h.rootRole.valid, h.targets.valid,
      h.snapshot.valid, h.timestamp.valid, h.common.sorted, guard, if_pos hrequired]
    rfl

/-- A root is read back, but for the role of auditors of a root of the first format. -/
theorem parse_renderRootMetadata (h : root.Readable crypto) (path : Text) :
    parseRootMetadata crypto (renderRootMetadata root) path = .ok root.rendered := by
  have hread := @document_read _ _ "registry root metadata" _
    (renderRootMetadata_eq root) (proper_rootLines h.common.signatures)
  have hroles := parseRoles_rootLines h (revoked_of_checkRevoked h.revoked)
  refine except_bind_eq_ok.2 ⟨_, hread, except_bind_eq_ok.2
    ⟨_, parseRootFormat_lines h.format h.common.signatures, except_bind_eq_ok.2
      ⟨_, parseCommon_rootLines h.common, except_bind_eq_ok.2 ⟨_, hroles, ?_⟩⟩⟩⟩
  dsimp only
  rw [completeRoot_rendered h]
  exact checkRevoked_rendered h.revoked

end Registry

end Chtholly
