import Chtholly.Registry.TrustMetadata

/-!
# What the readers of metadata accept

Every field that a reader requires has passed its check, and what is sorted on the way is sorted in
the value that is returned.

## Main definitions

* `Registry.CommonMetadata.Readable`, `Registry.SnapshotMetadata.Readable`,
  `Registry.TimestampMetadata.Readable`, `Registry.RootMetadata.Readable` — the values that can be
  read.

## Main results

* `Registry.readable_of_parseSnapshotMetadata`, `Registry.readable_of_parseTimestampMetadata`,
  `Registry.readable_of_parseRootMetadata` — what is read can be read.
-/

set_option autoImplicit false

namespace Chtholly

namespace Registry

open ManifestToml (parseString)

/-! ## Values -/

/-- A signature with a digest as its key. -/
structure MetadataSignature.Readable (signature : MetadataSignature) : Prop where
  keyId : ∃ digest, isHexDigest digest = true ∧ signature.keyId = "sha256:".toList ++ digest
  tag : "ed25519:".toList.isPrefixOf signature.signature = true

structure CommonMetadata.Readable (metadata : CommonMetadata) : Prop where
  registryName : metadata.registryName ≠ []
  version : metadata.version ≠ 0
  expires : (parseRfc3339 metadata.expires).isSome = true
  signatures : ∀ signature ∈ metadata.signatures, signature.Readable
  sorted : validSignatures metadata.signatures = some metadata.signatures

structure SnapshotMetadata.Readable (metadata : SnapshotMetadata) : Prop where
  common : metadata.toCommonMetadata.Readable
  format : metadata.format = snapshotFormat ∨ metadata.format = snapshotFormatV2
  rootVersion : metadata.rootVersion ≠ 0
  packagesSha256 : isHexDigest metadata.packagesSha256 = true
  checkpoint : metadata.format = snapshotFormatV2 →
    isHexDigest metadata.auditCheckpointSha256 = true
  noCheckpoint : metadata.format ≠ snapshotFormatV2 → metadata.auditCheckpointSha256 = []

structure TimestampMetadata.Readable (metadata : TimestampMetadata) : Prop where
  common : metadata.toCommonMetadata.Readable
  rootVersion : metadata.rootVersion ≠ 0
  snapshotVersion : metadata.snapshotVersion ≠ 0
  snapshotSha256 : isHexDigest metadata.snapshotSha256 = true

/-- A role that passes the check as it is. -/
structure TrustRole.Readable (crypto : Crypto) (role : TrustRole) : Prop where
  valid : validRole crypto role = some role
  threshold : role.threshold < 2 ^ 32

structure RootMetadata.Readable (crypto : Crypto) (root : RootMetadata) : Prop where
  common : root.toCommonMetadata.Readable
  format : root.format = rootFormat ∨ root.format = rootFormatV2
  rootRole : root.root.Readable crypto
  targets : root.targets.Readable crypto
  snapshot : root.snapshot.Readable crypto
  timestamp : root.timestamp.Readable crypto
  audit : root.format = rootFormatV2 → root.audit.Readable crypto
  revoked : checkRevoked crypto root = .ok root

/-! ## Sorting twice -/

lemma sortTexts_sortTexts (values : List Text) : sortTexts (sortTexts values) = sortTexts values :=
  List.Pairwise.insertionSort_eq (List.pairwise_insertionSort _ _)

lemma sortSignatures_sortSignatures (values : List MetadataSignature) :
    sortSignatures (sortSignatures values) = sortSignatures values := by
  have htotal : Std.Total fun a b : MetadataSignature => a.keyId ≤ b.keyId :=
    ⟨fun a b => le_total a.keyId b.keyId⟩
  have htrans : IsTrans MetadataSignature fun a b => a.keyId ≤ b.keyId :=
    ⟨fun _ _ _ hab hbc => le_trans hab hbc⟩
  exact List.Pairwise.insertionSort_eq (List.pairwise_insertionSort _ _)

lemma validSignatures_of_some {signatures sorted : List MetadataSignature}
    (h : validSignatures signatures = some sorted) :
    validSignatures sorted = some sorted ∧ sorted = sortSignatures signatures := by
  unfold validSignatures at h
  split at h
  case isTrue => cases h
  case isFalse hadjacent =>
    cases h
    rw [validSignatures, sortSignatures_sortSignatures, if_neg hadjacent]
    exact ⟨rfl, rfl⟩

lemma length_sortTexts (values : List Text) : (sortTexts values).length = values.length :=
  List.length_insertionSort _ _

variable {crypto : Crypto}

lemma validRole_of_some {role sorted : TrustRole} (h : validRole crypto role = some sorted) :
    validRole crypto sorted = some sorted ∧ sorted.threshold = role.threshold := by
  unfold validRole at h
  split at h
  case isTrue hvalid =>
    cases h
    refine ⟨?_, rfl⟩
    unfold validRole
    rw [sortTexts_sortTexts, length_sortTexts, if_pos]
    refine ⟨?_, hvalid.2⟩
    have hsorted := hvalid.1
    simp only [sortedUniqueNonempty, sortTexts_sortTexts, Bool.and_eq_true] at hsorted ⊢
    refine ⟨⟨?_, hsorted.1.2⟩, hsorted.2⟩
    rw [Bool.not_eq_true', List.isEmpty_eq_false_iff] at hsorted ⊢
    rw [← List.length_pos_iff, length_sortTexts, List.length_pos_iff]
    exact hsorted.1.1
  case isFalse => cases h

/-! ## The fields that every kind has -/

/-- The fields that were seen have passed their checks. -/
structure CommonMetadata.Checked (metadata : CommonMetadata) (seen : List Text) : Prop where
  registryName : "registry".toList ∈ seen → metadata.registryName ≠ []
  version : "version".toList ∈ seen → metadata.version ≠ 0
  expires : "expires".toList ∈ seen → (parseRfc3339 metadata.expires).isSome = true
  signatures : ∀ signature ∈ metadata.signatures, signature.Readable

variable {assignment : ManifestToml.Assignment}

lemma readable_of_parseSignatureAssignment {signature : MetadataSignature}
    (h : parseSignatureAssignment assignment = some signature) : signature.Readable := by
  unfold parseSignatureAssignment at h
  split at h
  case isTrue hkey =>
    obtain ⟨text, -, h⟩ := Option.bind_eq_some_iff.1 h
    split at h
    case isTrue htag =>
      cases h
      exact ⟨⟨_, hkey.2, rfl⟩, htag⟩
    case isFalse => cases h
  case isFalse => cases h

variable {metadata : CommonMetadata} {seen : List Text}

lemma CommonMetadata.Checked.field {expectedFormat : Text} {metadata' : CommonMetadata}
    (hchecked : metadata.Checked seen)
    (h : parseCommonField expectedFormat metadata assignment = .ok metadata') :
    metadata'.Checked (assignment.key :: seen) := by
  have hother : ∀ {name other : Text}, assignment.key = name → other ≠ name →
      other ∈ assignment.key :: seen → other ∈ seen := by
    intro name other hkey hne hmem
    rw [hkey] at hmem
    exact (List.mem_cons.1 hmem).resolve_left hne
  unfold parseCommonField at h
  split at h
  case isTrue hkey =>
    split at h
    case isTrue =>
      cases h
      exact ⟨fun hmem => hchecked.registryName (hother hkey (by decide) hmem),
        fun hmem => hchecked.version (hother hkey (by decide) hmem),
        fun hmem => hchecked.expires (hother hkey (by decide) hmem), hchecked.signatures⟩
    case isFalse => cases h
  case isFalse =>
    split at h
    case isTrue hkey =>
      split at h
      case h_1 ch name _ =>
        cases h
        exact ⟨fun _ => List.cons_ne_nil ch name,
          fun hmem => hchecked.version (hother hkey (by decide) hmem),
          fun hmem => hchecked.expires (hother hkey (by decide) hmem), hchecked.signatures⟩
      case h_2 => cases h
    case isFalse hregistry =>
      split at h
      case isTrue hkey =>
        split at h
        case h_1 version _ =>
          split at h
          case isTrue => cases h
          case isFalse hzero =>
            cases h
            exact ⟨fun hmem => hchecked.registryName (hother hkey (by decide) hmem), fun _ => hzero,
              fun hmem => hchecked.expires (hother hkey (by decide) hmem), hchecked.signatures⟩
        case h_2 => cases h
      case isFalse hversion =>
        split at h
        case isTrue hkey =>
          split at h
          case h_1 expires _ =>
            split at h
            case isTrue hexpires =>
              cases h
              exact ⟨fun hmem => hchecked.registryName (hother hkey (by decide) hmem),
                fun hmem => hchecked.version (hother hkey (by decide) hmem), fun _ => hexpires,
                hchecked.signatures⟩
            case isFalse => cases h
          case h_2 => cases h
        case isFalse hexpires =>
          cases h
          have hself : ∀ {name : Text}, assignment.key ≠ name →
              name ∈ assignment.key :: seen → name ∈ seen := fun hne hmem =>
            (List.mem_cons.1 hmem).resolve_left (Ne.symm hne)
          exact ⟨fun hmem => hchecked.registryName (hself hregistry hmem),
            fun hmem => hchecked.version (hself hversion hmem),
            fun hmem => hchecked.expires (hself hexpires hmem), hchecked.signatures⟩

variable {seen' : List Text} {assignments : List ManifestToml.Assignment}

/-- What `parseCommon` leaves: checked fields, and the names of those outside of the tables. -/
lemma CommonMetadata.Checked.common {expectedFormat : Text} {metadata' : CommonMetadata}
    (hchecked : metadata.Checked seen)
    (h : parseCommon expectedFormat metadata seen assignments = .ok (metadata', seen')) :
    metadata'.Checked seen' ∧ ∀ key ∈ seen', key ∈ seen ∨
      ∃ assignment ∈ assignments, assignment.table = [] ∧ assignment.key = key := by
  induction assignments generalizing metadata seen with
  | nil =>
    cases h
    exact ⟨hchecked, fun key hkey => .inl hkey⟩
  | cons assignment rest ih =>
    have hlater : ∀ {key : Text}, (∃ a ∈ rest, a.table = [] ∧ a.key = key) →
        ∃ a ∈ assignment :: rest, a.table = [] ∧ a.key = key := by
      rintro key ⟨a, ha, hkey⟩
      exact ⟨a, .tail _ ha, hkey⟩
    unfold parseCommon at h
    split at h
    case isTrue =>
      cases hsignature : parseSignatureAssignment assignment with
      | none =>
        rw [hsignature] at h
        cases h
      | some signature =>
        rw [hsignature] at h
        have hnext : CommonMetadata.Checked
            { metadata with signatures := metadata.signatures ++ [signature] } seen := by
          refine ⟨hchecked.registryName, hchecked.version, hchecked.expires, ?_⟩
          rw [List.forall_mem_append, List.forall_mem_singleton]
          exact ⟨hchecked.signatures, readable_of_parseSignatureAssignment hsignature⟩
        obtain ⟨hout, hkeys⟩ := ih hnext h
        exact ⟨hout, fun key hkey => (hkeys key hkey).imp_right hlater⟩
    case isFalse =>
      split at h
      case isTrue =>
        obtain ⟨hout, hkeys⟩ := ih hchecked h
        exact ⟨hout, fun key hkey => (hkeys key hkey).imp_right hlater⟩
      case isFalse htable =>
        split at h
        case isTrue => cases h
        case isFalse =>
          cases hfield : parseCommonField expectedFormat metadata assignment with
          | error message =>
            rw [hfield] at h
            cases h
          | ok next =>
            rw [hfield] at h
            obtain ⟨hout, hkeys⟩ := ih (hchecked.field hfield) h
            refine ⟨hout, fun key hkey => ?_⟩
            obtain hseen | hrest := hkeys key hkey
            · obtain rfl | hseen := List.mem_cons.1 hseen
              · exact .inr ⟨assignment, .head _, not_not.1 htable, rfl⟩
              · exact .inl hseen
            · exact .inr (hlater hrest)

lemma checked_nil : CommonMetadata.Checked {} [] :=
  ⟨fun h => absurd h List.not_mem_nil, fun h => absurd h List.not_mem_nil,
    fun h => absurd h List.not_mem_nil, fun _ h => absurd h List.not_mem_nil⟩

/-- Checked fields that were all seen, with the signatures sorted. -/
lemma CommonMetadata.Checked.readable (h : metadata.Checked seen)
    (hseen : ∀ field ∈ commonFields, field ∈ seen) {signatures : List MetadataSignature}
    (hsignatures : validSignatures metadata.signatures = some signatures) :
    CommonMetadata.Readable { metadata with signatures := signatures } := by
  obtain ⟨hsorted, rfl⟩ := validSignatures_of_some hsignatures
  refine ⟨h.registryName (hseen _ (by decide)), h.version (hseen _ (by decide)),
    h.expires (hseen _ (by decide)), fun signature hmem => ?_, hsorted⟩
  exact h.signatures signature ((List.perm_insertionSort _ _).subset hmem)

/-! ## Snapshots and timestamps -/

/-- What a field establishes holds at the end, when no other field undoes it. -/
lemma parseFields_establishes {α : Type} {field : α → ManifestToml.Assignment → Except String α}
    {holds : Text → α → Prop}
    (hfield : ∀ m a m', field m a = .ok m' → holds a.key m' ∧ ∀ key, holds key m → holds key m')
    {m m' : α} (h : parseFields field m assignments = .ok m') :
    (∀ a ∈ assignments, a.table = [] → holds a.key m') ∧ ∀ key, holds key m → holds key m' := by
  induction assignments generalizing m with
  | nil =>
    cases h
    exact ⟨fun a ha => absurd ha List.not_mem_nil, fun _ hkey => hkey⟩
  | cons assignment rest ih =>
    unfold parseFields at h
    split at h
    case isTrue htable =>
      obtain ⟨hrest, hkeep⟩ := ih h
      exact ⟨List.forall_mem_cons.2 ⟨fun hnil => absurd hnil htable, hrest⟩, hkeep⟩
    case isFalse =>
      cases hnext : field m assignment with
      | error message =>
        rw [hnext] at h
        cases h
      | ok next =>
        rw [hnext] at h
        obtain ⟨hestablished, hstep⟩ := hfield _ _ _ hnext
        obtain ⟨hrest, hkeep⟩ := ih h
        exact ⟨List.forall_mem_cons.2 ⟨fun _ => hkeep _ hestablished, hrest⟩,
          fun key hkey => hkeep _ (hstep key hkey)⟩

lemma parseVersion_ne_zero {value : Text} {version : UInt64}
    (h : parseVersion value = some version) : version ≠ 0 := by
  obtain ⟨-, hne⟩ := Option.filter_eq_some_iff.1 h
  exact of_decide_eq_true hne

lemma isHexDigest_of_parseDigest {value digest : Text} (h : parseDigest value = some digest) :
    isHexDigest digest = true :=
  (Option.filter_eq_some_iff.1 h).2

/-- What the fields of a snapshot establish. -/
def SnapshotMetadata.Holds (key : Text) (metadata : SnapshotMetadata) : Prop :=
  (key = "root_version".toList → metadata.rootVersion ≠ 0) ∧
    (key = "packages_sha256".toList → isHexDigest metadata.packagesSha256 = true) ∧
    (key = "audit_checkpoint_sha256".toList →
      isHexDigest metadata.auditCheckpointSha256 = true)

lemma parseSnapshotField_holds {m m' : SnapshotMetadata} {a : ManifestToml.Assignment}
    (h : parseSnapshotField m a = .ok m') :
    (m'.Holds a.key ∧ ∀ key, m.Holds key → m'.Holds key) ∧
      m'.format = m.format ∧ (m.format ≠ snapshotFormatV2 →
        m'.auditCheckpointSha256 = m.auditCheckpointSha256) := by
  have hne : ∀ {name other : Text}, a.key = name → other ≠ name → a.key ≠ other := by
    rintro name other hkey hne rfl
    exact hne hkey
  unfold parseSnapshotField at h
  split at h
  case isTrue hkey =>
    split at h
    case h_1 version hversion =>
      cases h
      have hzero := parseVersion_ne_zero hversion
      exact ⟨⟨⟨fun _ => hzero, fun hp => absurd hp (hne hkey (by decide)),
        fun hc => absurd hc (hne hkey (by decide))⟩,
        fun key hm => ⟨fun _ => hzero, hm.2⟩⟩, rfl, fun _ => rfl⟩
    case h_2 => cases h
  case isFalse hroot =>
    split at h
    case isTrue hkey =>
      split at h
      case h_1 digest hdigest =>
        cases h
        have hhex := isHexDigest_of_parseDigest hdigest
        exact ⟨⟨⟨fun hr => absurd hr hroot, fun _ => hhex,
          fun hc => absurd hc (hne hkey (by decide))⟩,
          fun key hm => ⟨hm.1, fun _ => hhex, hm.2.2⟩⟩, rfl, fun _ => rfl⟩
      case h_2 => cases h
    case isFalse hpackages =>
      split at h
      case isTrue hkey =>
        split at h
        case h_1 digest hdigest =>
          split at h
          case isTrue hformat =>
            cases h
            have hhex := isHexDigest_of_parseDigest hdigest
            exact ⟨⟨⟨fun hr => absurd hr hroot, fun hp => absurd hp hpackages, fun _ => hhex⟩,
              fun key hm => ⟨hm.1, hm.2.1, fun _ => hhex⟩⟩, rfl, fun hv1 => absurd hformat hv1⟩
          case isFalse => cases h
        case h_2 => cases h
      case isFalse hcheckpoint =>
        split at h
        case isTrue =>
          cases h
          exact ⟨⟨⟨fun hr => absurd hr hroot, fun hp => absurd hp hpackages,
            fun hc => absurd hc hcheckpoint⟩, fun key hm => hm⟩, rfl, fun _ => rfl⟩
        case isFalse => cases h

lemma parseSnapshotFields_format {m m' : SnapshotMetadata}
    (h : parseFields parseSnapshotField m assignments = .ok m') :
    m'.format = m.format ∧ (m.format ≠ snapshotFormatV2 →
      m'.auditCheckpointSha256 = m.auditCheckpointSha256) := by
  induction assignments generalizing m with
  | nil =>
    cases h
    exact ⟨rfl, fun _ => rfl⟩
  | cons assignment rest ih =>
    unfold parseFields at h
    split at h
    case isTrue => exact ih h
    case isFalse =>
      cases hnext : parseSnapshotField m assignment with
      | error message =>
        rw [hnext] at h
        cases h
      | ok next =>
        rw [hnext] at h
        obtain ⟨-, hformat, hcheckpoint⟩ := parseSnapshotField_holds hnext
        obtain ⟨hrest, hkeep⟩ := ih h
        rw [hformat] at hrest hkeep
        exact ⟨hrest, fun hv1 => (hkeep hv1).trans (hcheckpoint hv1)⟩

lemma parseSnapshotFormat_eq_ok {format : Text} (h : parseSnapshotFormat assignments = .ok format) :
    format = snapshotFormat ∨ format = snapshotFormatV2 := by
  unfold parseSnapshotFormat at h
  dsimp only at h
  split at h
  case h_1 =>
    split at h
    case isTrue hformat =>
      cases h
      exact hformat
    case isFalse => cases h
  case h_2 => cases h

/-- A snapshot that was read can be read. -/
theorem readable_of_parseSnapshotMetadata {text path : Text} {snapshot : SnapshotMetadata}
    (h : parseSnapshotMetadata text path = .ok snapshot) : snapshot.Readable := by
  obtain ⟨assignments, -, h⟩ := except_bind_eq_ok.mp h
  obtain ⟨format, hformat, h⟩ := except_bind_eq_ok.mp h
  obtain ⟨common, hcommon, h⟩ := except_bind_eq_ok.mp h
  obtain ⟨metadata, hfields, h⟩ := except_bind_eq_ok.mp h
  dsimp only at h
  split at h
  case isTrue hrequired =>
    cases hsignatures : validSignatures metadata.signatures with
    | none =>
      rw [hsignatures] at h
      cases h
    | some signatures =>
      rw [hsignatures] at h
      cases h
      obtain ⟨hchecked, hkeys⟩ := checked_nil.common hcommon
      have hkeep := parseFields_keeps SnapshotMetadata.toCommonMetadata
        (fun _ _ _ => parseSnapshotField_common) hfields
      obtain ⟨hheld, -⟩ := parseFields_establishes (fun _ _ _ hf => (parseSnapshotField_holds hf).1)
        hfields
      obtain ⟨hkept, hcheckpoint⟩ := parseSnapshotFields_format hfields
      have hholds : ∀ key ∈ common.2, metadata.Holds key := by
        intro key hkey
        obtain hseen | ⟨a, ha, htable, rfl⟩ := hkeys key hkey
        · exact absurd hseen List.not_mem_nil
        · exact hheld a ha htable
      have hcommonMetadata : metadata.toCommonMetadata = common.1 := hkeep
      refine ⟨?_, ?_, (hholds _ (hrequired.1 _ (by decide))).1 rfl,
        (hholds _ (hrequired.1 _ (by decide))).2.1 rfl, fun hv2 => ?_, fun hv1 => ?_⟩
      · rw [← hcommonMetadata] at hchecked
        exact hchecked.readable (fun field hfield => hrequired.1 _ (List.mem_append_left _ hfield))
          hsignatures
      · rw [show metadata.format = format from hkept]
        exact parseSnapshotFormat_eq_ok hformat
      · have hv2 : format = snapshotFormatV2 := hkept.symm.trans hv2
        exact (hholds _ (hrequired.2 hv2)).2.2 rfl
      · exact hcheckpoint fun hv2 => hv1 (hkept.trans hv2)
  case isFalse => cases h

/-- What the fields of a timestamp establish. -/
def TimestampMetadata.Holds (key : Text) (metadata : TimestampMetadata) : Prop :=
  (key = "root_version".toList → metadata.rootVersion ≠ 0) ∧
    (key = "snapshot_version".toList → metadata.snapshotVersion ≠ 0) ∧
    (key = "snapshot_sha256".toList → isHexDigest metadata.snapshotSha256 = true)

lemma parseTimestampField_holds {m m' : TimestampMetadata} {a : ManifestToml.Assignment}
    (h : parseTimestampField m a = .ok m') :
    m'.Holds a.key ∧ ∀ key, m.Holds key → m'.Holds key := by
  have hne : ∀ {name other : Text}, a.key = name → other ≠ name → a.key ≠ other := by
    rintro name other hkey hne rfl
    exact hne hkey
  unfold parseTimestampField at h
  split at h
  case isTrue hkey =>
    split at h
    case h_1 version hversion =>
      cases h
      have hzero := parseVersion_ne_zero hversion
      exact ⟨⟨fun _ => hzero, fun hs => absurd hs (hne hkey (by decide)),
        fun hd => absurd hd (hne hkey (by decide))⟩, fun key hm => ⟨fun _ => hzero, hm.2⟩⟩
    case h_2 => cases h
  case isFalse hroot =>
    split at h
    case isTrue hkey =>
      split at h
      case h_1 version hversion =>
        cases h
        have hzero := parseVersion_ne_zero hversion
        exact ⟨⟨fun hr => absurd hr hroot, fun _ => hzero,
          fun hd => absurd hd (hne hkey (by decide))⟩,
          fun key hm => ⟨hm.1, fun _ => hzero, hm.2.2⟩⟩
      case h_2 => cases h
    case isFalse hsnapshot =>
      split at h
      case isTrue hkey =>
        split at h
        case h_1 digest hdigest =>
          cases h
          have hhex := isHexDigest_of_parseDigest hdigest
          exact ⟨⟨fun hr => absurd hr hroot, fun hs => absurd hs hsnapshot, fun _ => hhex⟩,
            fun key hm => ⟨hm.1, hm.2.1, fun _ => hhex⟩⟩
        case h_2 => cases h
      case isFalse hdigest =>
        split at h
        case isTrue =>
          cases h
          exact ⟨⟨fun hr => absurd hr hroot, fun hs => absurd hs hsnapshot,
            fun hd => absurd hd hdigest⟩, fun key hm => hm⟩
        case isFalse => cases h

/-- A timestamp that was read can be read. -/
theorem readable_of_parseTimestampMetadata {text path : Text} {timestamp : TimestampMetadata}
    (h : parseTimestampMetadata text path = .ok timestamp) : timestamp.Readable := by
  obtain ⟨assignments, -, h⟩ := except_bind_eq_ok.mp h
  obtain ⟨common, hcommon, h⟩ := except_bind_eq_ok.mp h
  obtain ⟨metadata, hfields, h⟩ := except_bind_eq_ok.mp h
  dsimp only at h
  split at h
  case isTrue hrequired =>
    cases hsignatures : validSignatures metadata.signatures with
    | none =>
      rw [hsignatures] at h
      cases h
    | some signatures =>
      rw [hsignatures] at h
      cases h
      obtain ⟨hchecked, hkeys⟩ := checked_nil.common hcommon
      have hkeep := parseFields_keeps TimestampMetadata.toCommonMetadata
        (fun _ _ _ => parseTimestampField_common) hfields
      obtain ⟨hheld, -⟩ := parseFields_establishes (fun _ _ _ => parseTimestampField_holds) hfields
      have hholds : ∀ key ∈ common.2, metadata.Holds key := by
        intro key hkey
        obtain hseen | ⟨a, ha, htable, rfl⟩ := hkeys key hkey
        · exact absurd hseen List.not_mem_nil
        · exact hheld a ha htable
      have hcommonMetadata : metadata.toCommonMetadata = common.1 := hkeep
      rw [← hcommonMetadata] at hchecked
      exact ⟨hchecked.readable (fun field hfield => hrequired _ (List.mem_append_left _ hfield))
        hsignatures, (hholds _ (hrequired _ (by decide))).1 rfl,
        (hholds _ (hrequired _ (by decide))).2.1 rfl, (hholds _ (hrequired _ (by decide))).2.2 rfl⟩
  case isFalse => cases h

/-! ## Roots -/

lemma parseRootFormat_eq_ok {format result : Text}
    (h : parseRootFormat format assignments = .ok result)
    (hformat : format = [] ∨ format = rootFormat ∨ format = rootFormatV2) :
    result = rootFormat ∨ result = rootFormatV2 := by
  induction assignments generalizing format with
  | nil =>
    unfold parseRootFormat at h
    split at h
    case isTrue => cases h
    case isFalse hne =>
      cases h
      exact hformat.resolve_left hne
  | cons assignment rest ih =>
    unfold parseRootFormat at h
    split at h
    case isTrue =>
      split at h
      case h_1 =>
        split at h
        case isTrue hfound => exact ih h (.inr hfound)
        case isFalse => cases h
      case h_2 => cases h
    case isFalse => exact ih h hformat

/-- The role of a name. -/
def RootMetadata.role (root : RootMetadata) : RoleName → TrustRole
  | .root => root.root
  | .targets => root.targets
  | .snapshot => root.snapshot
  | .timestamp => root.timestamp
  | .audit => root.audit

/-- Every threshold is a 32-bit number. -/
def RootMetadata.Bounded (root : RootMetadata) : Prop := ∀ name, (root.role name).threshold < 2 ^ 32

variable {root : RootMetadata}

lemma RootMetadata.Bounded.onRole (h : root.Bounded) (name : RoleName)
    {change : TrustRole → TrustRole} (hchange : (change (root.role name)).threshold < 2 ^ 32) :
    (root.onRole name change).Bounded := by
  intro other
  have hother := h other
  cases name <;> cases other <;> first | exact hchange | exact hother

lemma onRole_format (root : RootMetadata) (name : RoleName) (change : TrustRole → TrustRole) :
    (root.onRole name change).format = root.format := by
  cases name <;> rfl

variable {root' : RootMetadata}

lemma parseRoleField_bounded (h : parseRoleField root assignment = .ok root')
    (hroot : root.Bounded) : root'.Bounded ∧ root'.format = root.format := by
  unfold parseRoleField at h
  dsimp only at h
  split at h
  case h_1 name _ =>
    split at h
    case isTrue =>
      split at h
      case h_1 keys _ =>
        cases h
        exact ⟨hroot.onRole name (hroot name), onRole_format _ _ _⟩
      case h_2 => cases h
    case isFalse =>
      split at h
      case isTrue =>
        split at h
        case h_1 threshold _ =>
          split at h
          case isTrue => cases h
          case isFalse hlt =>
            cases h
            exact ⟨hroot.onRole name (Nat.lt_of_not_le hlt), onRole_format _ _ _⟩
        case h_2 => cases h
      case isFalse => cases h
  case h_2 =>
    split at h
    case isTrue =>
      split at h
      case h_1 revoked _ =>
        cases h
        refine ⟨fun name => ?_, rfl⟩
        have hname := hroot name
        cases name <;> exact hname
      case h_2 => cases h
    case isFalse => cases h

lemma parseRoles_bounded (h : parseRoles root seen assignments = .ok (root', seen'))
    (hroot : root.Bounded) : root'.Bounded ∧ root'.format = root.format := by
  induction assignments generalizing root seen with
  | nil =>
    cases h
    exact ⟨hroot, rfl⟩
  | cons assignment rest ih =>
    unfold parseRoles at h
    split at h
    case isTrue => exact ih h hroot
    case isFalse =>
      split at h
      case isTrue => cases h
      case isFalse =>
        cases hfield : parseRoleField root assignment with
        | error message =>
          rw [hfield] at h
          cases h
        | ok next =>
          rw [hfield] at h
          obtain ⟨hbounded, hformat⟩ := parseRoleField_bounded hfield hroot
          obtain ⟨hout, hkeep⟩ := ih h hbounded
          exact ⟨hout, hkeep.trans hformat⟩

/-- The table of roles has names of its own. -/
lemma parseRoles_seen (h : parseRoles root seen assignments = .ok (root', seen')) {key : Text}
    (hkey : key ∈ seen') : key ∈ seen ∨ "roles.".toList.isPrefixOf key = true := by
  induction assignments generalizing root seen with
  | nil =>
    cases h
    exact .inl hkey
  | cons assignment rest ih =>
    unfold parseRoles at h
    split at h
    case isTrue => exact ih h
    case isFalse htable =>
      split at h
      case isTrue => cases h
      case isFalse hroles =>
        cases hfield : parseRoleField root assignment with
        | error message =>
          rw [hfield] at h
          cases h
        | ok next =>
          rw [hfield] at h
          obtain hmem | htagged := ih h
          · obtain rfl | hmem := List.mem_cons.1 hmem
            · obtain ⟨hname, -⟩ := not_or.1 hroles
              right
              rw [ManifestToml.Assignment.fullKey, not_not.1 hname, if_neg (by decide),
                List.isPrefixOf_iff_prefix]
              exact ⟨assignment.key, rfl⟩
            · exact .inl hmem
          · exact .inr htagged

/-- A list of revoked keys that passed its checks passes them again. -/
lemma checkRevoked_of_ok (h : checkRevoked crypto root = .ok root') :
    checkRevoked crypto root' = .ok root' ∧
      root' = { root with revokedKeyIds := sortTexts root.revokedKeyIds } := by
  unfold checkRevoked at h
  dsimp only at h
  split at h
  case isTrue => cases h
  case isFalse hids =>
    split at h
    case isTrue => cases h
    case isFalse hactive =>
      cases h
      refine ⟨?_, rfl⟩
      unfold checkRevoked
      dsimp only
      rw [sortTexts_sortTexts, if_neg hids, if_neg hactive]

lemma readable_of_validRole {role sorted : TrustRole} (h : validRole crypto role = some sorted)
    (hthreshold : role.threshold < 2 ^ 32) : sorted.Readable crypto := by
  obtain ⟨hvalid, heq⟩ := validRole_of_some h
  exact ⟨hvalid, heq ▸ hthreshold⟩

/-- A root that was read can be read. -/
theorem readable_of_parseRootMetadata {text path : Text}
    (h : parseRootMetadata crypto text path = .ok root) : root.Readable crypto := by
  obtain ⟨assignments, -, h⟩ := except_bind_eq_ok.mp h
  obtain ⟨format, hformat, h⟩ := except_bind_eq_ok.mp h
  obtain ⟨common, hcommon, h⟩ := except_bind_eq_ok.mp h
  obtain ⟨roles, hroles, h⟩ := except_bind_eq_ok.mp h
  have hformats := parseRootFormat_eq_ok hformat (.inl rfl)
  have hplain : ∀ field ∈ commonFields, ¬ "roles.".toList.isPrefixOf field = true := by decide
  obtain ⟨hchecked, -⟩ := checked_nil.common hcommon
  have hstart : RootMetadata.Bounded { common.1 with format := format } := by
    intro name
    cases name <;> exact Nat.two_pow_pos 32
  obtain ⟨hbounded, hkept⟩ := parseRoles_bounded hroles hstart
  obtain ⟨hcommonKept, -⟩ := parseRoles_spec hroles
  split at h
  case h_1 => cases h
  case h_2 complete hcomplete =>
    obtain ⟨hrevoked, hroot⟩ := checkRevoked_of_ok h
    simp only [completeRoot, Option.bind_eq_bind, Option.bind_eq_some_iff, Option.guard_eq_some',
      Option.pure_def, Option.some.injEq] at hcomplete
    obtain ⟨audit, haudit, -, hrequired, rootRole, hrootRole, targets, htargets, snapshot, hsnapshot,
      timestamp, htimestamp, signatures, hsignatures, rfl⟩ := hcomplete
    have hformatEq : roles.1.format = format := hkept
    have hfields : ∀ field ∈ commonFields, field ∈ common.2 := by
      intro field hfield
      have hseen := hrequired field (List.mem_append_left _ hfield)
      exact (parseRoles_seen hroles hseen).resolve_right (hplain field hfield)
    rw [hroot] at hrevoked ⊢
    refine ⟨?_, ?_, readable_of_validRole hrootRole (hbounded .root),
      readable_of_validRole htargets (hbounded .targets),
      readable_of_validRole hsnapshot (hbounded .snapshot),
      readable_of_validRole htimestamp (hbounded .timestamp), fun hv2 => ?_, hrevoked⟩
    · have hcommonEq : roles.1.toCommonMetadata = common.1 := hcommonKept
      rw [← hcommonEq] at hchecked
      exact hchecked.readable hfields hsignatures
    · exact hformatEq ▸ hformats
    · have hv2 : roles.1.format = rootFormatV2 := hv2
      have hne : ¬ roles.1.format = rootFormat := by
        rw [hv2]
        decide
      rw [auditComplete, if_neg hne] at haudit
      split at haudit
      case isTrue => exact readable_of_validRole haudit (hbounded .audit)
      case isFalse => cases haudit

end Registry

end Chtholly
