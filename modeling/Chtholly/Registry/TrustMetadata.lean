import Chtholly.Scanning.Text
import Mathlib.Data.Char
import Mathlib.Data.List.Lex
import Chtholly.Registry.ManifestToml
import Chtholly.Registry.Signatures

/-!
# The trust metadata of a registry

A root names the keys of every role of a registry and the keys that are revoked.  A snapshot pins
the packages of a registry and a timestamp pins a snapshot.  All three have a version, an expiry
and signatures, and are read from texts.

## Main definitions

* `Registry.RootMetadata`, `Registry.SnapshotMetadata`, `Registry.TimestampMetadata` — the records.
* `Registry.parseRootMetadata`, `Registry.parseSnapshotMetadata`, `Registry.parseTimestampMetadata`
  — the readers.
* `Registry.renderRootMetadata`, `Registry.renderSnapshotMetadata`,
  `Registry.renderTimestampMetadata` — the texts that digests are taken of.
* `Registry.rootPayload`, `Registry.snapshotSignatureInput`, `Registry.timestampSignatureInput` —
  the texts that are signed.

## Main results

* `Registry.parseRootMetadata_spec`, `Registry.parseSnapshotMetadata_version`,
  `Registry.parseTimestampMetadata_version` — what is read has a version.
-/

set_option autoImplicit false

namespace Chtholly

namespace Registry

open ManifestToml (parseAssignments parseString parseStringArray)

/-! ## Records -/

/-- The fields that every kind of metadata has. -/
structure CommonMetadata where
  registryName : Text := []
  version : UInt64 := 0
  expires : Text := []
  signatures : List MetadataSignature := []

def rootFormat : Text := "chtholly-registry-root-v1".toList

def rootFormatV2 : Text := "chtholly-registry-root-v2".toList

def snapshotFormat : Text := "chtholly-registry-snapshot-v1".toList

def snapshotFormatV2 : Text := "chtholly-registry-snapshot-v2".toList

def timestampFormat : Text := "chtholly-registry-timestamp-v1".toList

/-- The roles that a root names. -/
inductive RoleName
  | root
  | targets
  | snapshot
  | timestamp
  | audit
  deriving DecidableEq

/-- `RegistryRootMetadata`. -/
structure RootMetadata extends CommonMetadata where
  format : Text := rootFormat
  root : TrustRole := ⟨[], 0⟩
  targets : TrustRole := ⟨[], 0⟩
  snapshot : TrustRole := ⟨[], 0⟩
  timestamp : TrustRole := ⟨[], 0⟩
  audit : TrustRole := ⟨[], 0⟩
  revokedKeyIds : List Text := []

/-- `RegistrySnapshotMetadata`. -/
structure SnapshotMetadata extends CommonMetadata where
  format : Text := snapshotFormat
  rootVersion : UInt64 := 0
  packagesSha256 : Text := []
  auditCheckpointSha256 : Text := []

/-- `RegistryTimestampMetadata`. -/
structure TimestampMetadata extends CommonMetadata where
  rootVersion : UInt64 := 0
  snapshotVersion : UInt64 := 0
  snapshotSha256 : Text := []

/-! ## Texts -/

/-- A character inside of a quoted string. -/
def escape (ch : Char) : Text :=
  match ch with
  | '\\' => ['\\', '\\']
  | '"' => ['\\', '"']
  | '\n' => ['\\', 'n']
  | '\r' => ['\\', 'r']
  | '\t' => ['\\', 't']
  | ch => [ch]

def quote (value : Text) : Text :=
  '"' :: value.flatMap escape ++ ['"']

def sortTexts (values : List Text) : List Text :=
  values.insertionSort (· ≤ ·)

def sortSignatures (values : List MetadataSignature) : List MetadataSignature :=
  values.insertionSort fun a b => a.keyId ≤ b.keyId

def renderArray (values : List Text) : Text :=
  '[' :: List.intercalate [',', ' '] ((sortTexts values).map quote) ++ [']']

def renderSignatures (values : List MetadataSignature) : Text :=
  "\n[signatures]\n".toList ++ (sortSignatures values).flatMap fun signature =>
    signature.keyId.drop 7 ++ " = ".toList ++ quote signature.signature ++ ['\n']

/-- `name = value`, as a line. -/
def assign (name : String) (value : Text) : Text :=
  name.toList ++ " = ".toList ++ value ++ ['\n']

/-- The two lines of a role. -/
def renderRole (name : String) (role : TrustRole) : Text :=
  assign (name ++ "_keys") (renderArray role.keys) ++
    assign (name ++ "_threshold") (decimal role.threshold)

def renderRootMetadata (root : RootMetadata) : Text :=
  assign "format" (quote root.format) ++
    assign "registry" (quote root.registryName) ++
    assign "version" (decimal root.version.toNat) ++
    assign "expires" (quote root.expires) ++
    "\n[roles]\n".toList ++
    renderRole "root" root.root ++
    renderRole "targets" root.targets ++
    renderRole "snapshot" root.snapshot ++
    renderRole "timestamp" root.timestamp ++
    (if root.format = rootFormatV2 then renderRole "audit" root.audit else []) ++
    assign "revoked_key_ids" (renderArray root.revokedKeyIds) ++
    renderSignatures root.signatures

def renderSnapshotMetadata (metadata : SnapshotMetadata) : Text :=
  assign "format" (quote metadata.format) ++
    assign "registry" (quote metadata.registryName) ++
    assign "version" (decimal metadata.version.toNat) ++
    assign "root_version" (decimal metadata.rootVersion.toNat) ++
    assign "expires" (quote metadata.expires) ++
    assign "packages_sha256" (quote metadata.packagesSha256) ++
    (if metadata.format = snapshotFormatV2 then
      assign "audit_checkpoint_sha256" (quote metadata.auditCheckpointSha256)
    else []) ++
    renderSignatures metadata.signatures

def renderTimestampMetadata (metadata : TimestampMetadata) : Text :=
  assign "format" (quote timestampFormat) ++
    assign "registry" (quote metadata.registryName) ++
    assign "version" (decimal metadata.version.toNat) ++
    assign "root_version" (decimal metadata.rootVersion.toNat) ++
    assign "expires" (quote metadata.expires) ++
    assign "snapshot_version" (decimal metadata.snapshotVersion.toNat) ++
    assign "snapshot_sha256" (quote metadata.snapshotSha256) ++
    renderSignatures metadata.signatures

/-! ## Signed texts -/

/-- `append_role` of `rootPayload`. -/
def appendRole (name : String) (role : TrustRole) : Text :=
  appendField (name ++ "-threshold").toList (decimal role.threshold) ++
    (name ++ "-key-count\t").toList ++ decimal role.keys.length ++ '\n' ::
    (sortTexts role.keys).flatMap (appendField name.toList)

def rootPayload (root : RootMetadata) : Text :=
  (if root.format = rootFormatV2 then "chtholly-registry-root-signature-v2\n".toList
    else "chtholly-registry-root-signature-v1\n".toList) ++
    appendField "registry".toList root.registryName ++
    appendField "version".toList (decimal root.version.toNat) ++
    appendField "expires".toList root.expires ++
    appendRole "root" root.root ++
    appendRole "targets" root.targets ++
    appendRole "snapshot" root.snapshot ++
    appendRole "timestamp" root.timestamp ++
    (if root.format = rootFormatV2 then appendRole "audit" root.audit else []) ++
    "revoked-count\t".toList ++ decimal root.revokedKeyIds.length ++ '\n' ::
    (sortTexts root.revokedKeyIds).flatMap (appendField "revoked".toList)

def snapshotSignatureInput (snapshot : SnapshotMetadata) : Text :=
  (if snapshot.format = snapshotFormatV2 then "chtholly-registry-snapshot-signature-v2\n".toList
    else "chtholly-registry-snapshot-signature-v1\n".toList) ++
    appendField "registry".toList snapshot.registryName ++
    appendField "version".toList (decimal snapshot.version.toNat) ++
    appendField "root-version".toList (decimal snapshot.rootVersion.toNat) ++
    appendField "expires".toList snapshot.expires ++
    appendField "packages-sha256".toList snapshot.packagesSha256 ++
    (if snapshot.format = snapshotFormatV2 then
      appendField "audit-checkpoint-sha256".toList snapshot.auditCheckpointSha256
    else [])

def timestampSignatureInput (timestamp : TimestampMetadata) : Text :=
  "chtholly-registry-timestamp-signature-v1\n".toList ++
    appendField "registry".toList timestamp.registryName ++
    appendField "version".toList (decimal timestamp.version.toNat) ++
    appendField "root-version".toList (decimal timestamp.rootVersion.toNat) ++
    appendField "expires".toList timestamp.expires ++
    appendField "snapshot-version".toList (decimal timestamp.snapshotVersion.toNat) ++
    appendField "snapshot-sha256".toList timestamp.snapshotSha256

/-! ## Roles and signatures -/

/-- Whether `std::adjacent_find` finds two neighbours. -/
def hasAdjacent {α : Type} (same : α → α → Bool) : List α → Bool
  | a :: b :: rest => same a b || hasAdjacent same (b :: rest)
  | _ => false

def sortedUniqueNonempty (values : List Text) : Bool :=
  !values.isEmpty && !hasAdjacent (· == ·) (sortTexts values) &&
    (sortTexts values).all fun value => !value.isEmpty

/-- The role with its keys sorted, as `validRole` leaves it, if the role is valid. -/
def validRole (crypto : Crypto) (role : TrustRole) : Option TrustRole :=
  if sortedUniqueNonempty role.keys = true ∧ role.threshold ≠ 0 ∧
      role.threshold ≤ role.keys.length ∧
      (sortTexts role.keys).all (fun key => (crypto.parsePublicKey key).isSome) = true then
    some ⟨sortTexts role.keys, role.threshold⟩
  else none

/-- The signatures, sorted, if no key has two. -/
def validSignatures (signatures : List MetadataSignature) : Option (List MetadataSignature) :=
  if hasAdjacent (fun a b => a.keyId == b.keyId) (sortSignatures signatures) then none
  else some (sortSignatures signatures)

/-! ## Readers -/

def parseSignatureAssignment (assignment : ManifestToml.Assignment) : Option MetadataSignature :=
  if assignment.table = "signatures".toList ∧ isHexDigest assignment.key = true then
    (parseString assignment.value).bind fun signature =>
      if "ed25519:".toList.isPrefixOf signature then
        some ⟨"sha256:".toList ++ assignment.key, signature⟩
      else none
  else none

/-- One field outside of the tables, which `parseCommon` has not seen before. -/
def parseCommonField (expectedFormat : Text) (metadata : CommonMetadata)
    (assignment : ManifestToml.Assignment) :
    Except String CommonMetadata :=
  if assignment.key = "format".toList then
    if parseString assignment.value = some expectedFormat then .ok metadata
    else .error "invalid registry metadata format"
  else if assignment.key = "registry".toList then
    match parseString assignment.value with
    | some (ch :: name) => .ok { metadata with registryName := ch :: name }
    | _ => .error "invalid registry metadata registry identity"
  else if assignment.key = "version".toList then
    match ManifestToml.parseUnsigned assignment.value with
    | some version =>
      if version = 0 then .error "invalid registry metadata version"
      else .ok { metadata with version := version }
    | none => .error "invalid registry metadata version"
  else if assignment.key = "expires".toList then
    match parseString assignment.value with
    | some expires =>
      if (parseRfc3339 expires).isSome then .ok { metadata with expires := expires }
      else .error "invalid registry metadata expiry"
    | none => .error "invalid registry metadata expiry"
  else .ok metadata

/-- The fields that every kind of metadata has, with the names of the fields seen. -/
def parseCommon (expectedFormat : Text) (metadata : CommonMetadata) (seen : List Text) :
    List ManifestToml.Assignment → Except String (CommonMetadata × List Text)
  | [] => .ok (metadata, seen)
  | assignment :: rest =>
    if assignment.table = "signatures".toList then
      match parseSignatureAssignment assignment with
      | none => .error "invalid registry metadata signature"
      | some signature =>
        parseCommon expectedFormat
          { metadata with signatures := metadata.signatures ++ [signature] } seen rest
    else if assignment.table ≠ [] then parseCommon expectedFormat metadata seen rest
    else if assignment.key ∈ seen then
      .error ("duplicate registry metadata field '" ++ String.ofList assignment.key ++ "'")
    else
      match parseCommonField expectedFormat metadata assignment with
      | .error message => .error message
      | .ok metadata => parseCommon expectedFormat metadata (assignment.key :: seen) rest

/-- The format of a root: it is given once and is one of two. -/
def parseRootFormat (format : Text) : List ManifestToml.Assignment → Except String Text
  | [] => if format = [] then .error "registry root metadata is missing its format" else .ok format
  | assignment :: rest =>
    if assignment.table = [] ∧ assignment.key = "format".toList then
      match format, parseString assignment.value with
      | [], some found =>
        if found = rootFormat ∨ found = rootFormatV2 then parseRootFormat found rest
        else .error "invalid registry metadata format"
      | _, _ => .error "invalid registry metadata format"
    else parseRootFormat format rest

def RoleName.tag : RoleName → Text
  | .root => "root_".toList
  | .targets => "targets_".toList
  | .snapshot => "snapshot_".toList
  | .timestamp => "timestamp_".toList
  | .audit => "audit_".toList

/-- The role that a key of the table of roles is about. -/
def roleOfKey (key : Text) : Option RoleName :=
  [RoleName.root, .targets, .snapshot, .timestamp, .audit].find? fun name => name.tag.isPrefixOf key

/-- The role of a name, changed. -/
def RootMetadata.onRole (root : RootMetadata) (name : RoleName) (change : TrustRole → TrustRole) :
    RootMetadata :=
  match name with
  | .root => { root with root := change root.root }
  | .targets => { root with targets := change root.targets }
  | .snapshot => { root with snapshot := change root.snapshot }
  | .timestamp => { root with timestamp := change root.timestamp }
  | .audit => { root with audit := change root.audit }

/-- One field of the table of roles. -/
def parseRoleField (root : RootMetadata) (assignment : ManifestToml.Assignment) :
    Except String RootMetadata :=
  let unknown := .error
    ("unknown registry root role field '" ++ String.ofList assignment.key ++ "'")
  match roleOfKey assignment.key with
  | some name =>
    let suffix := assignment.key.drop name.tag.length
    if suffix = "keys".toList then
      match parseStringArray assignment.value with
      | some keys => .ok (root.onRole name fun role => { role with keys := keys })
      | none => .error "invalid registry root role key list"
    else if suffix = "threshold".toList then
      match ManifestToml.parseUnsigned assignment.value with
      | some threshold =>
        if 2 ^ 32 ≤ threshold.toNat then .error "invalid registry root role threshold"
        else .ok (root.onRole name fun role => { role with threshold := threshold.toNat })
      | none => .error "invalid registry root role threshold"
    else unknown
  | none =>
    if assignment.key = "revoked_key_ids".toList then
      match parseStringArray assignment.value with
      | some revoked => .ok { root with revokedKeyIds := revoked }
      | none => .error "invalid registry root revoked key list"
    else unknown

/-- The fields of the table of roles. -/
def parseRoles (root : RootMetadata) (seen : List Text) :
    List ManifestToml.Assignment → Except String (RootMetadata × List Text)
  | [] => .ok (root, seen)
  | assignment :: rest =>
    if assignment.table = [] ∨ assignment.table = "signatures".toList then
      parseRoles root seen rest
    else if assignment.table ≠ "roles".toList ∨ assignment.fullKey ∈ seen then
      .error "invalid or duplicate registry root role field"
    else
      match parseRoleField root assignment with
      | .error message => .error message
      | .ok root => parseRoles root (assignment.fullKey :: seen) rest

def requiredRootFields : List Text :=
  ["format".toList, "registry".toList, "version".toList, "expires".toList,
    "roles.root_keys".toList, "roles.root_threshold".toList, "roles.targets_keys".toList,
    "roles.targets_threshold".toList, "roles.snapshot_keys".toList,
    "roles.snapshot_threshold".toList, "roles.timestamp_keys".toList,
    "roles.timestamp_threshold".toList, "roles.revoked_key_ids".toList]

/-- The role of auditors, which a root of the first format need not have. -/
def auditComplete (crypto : Crypto) (root : RootMetadata) (seen : List Text) : Option TrustRole :=
  if root.format = rootFormat then some root.audit
  else if "roles.audit_keys".toList ∈ seen ∧ "roles.audit_threshold".toList ∈ seen then
    validRole crypto root.audit
  else none

/-- The root with every role checked and sorted. -/
def completeRoot (crypto : Crypto) (root : RootMetadata) (seen : List Text) :
    Option RootMetadata := do
  let audit ← auditComplete crypto root seen
  guard (∀ field ∈ requiredRootFields, field ∈ seen)
  let rootRole ← validRole crypto root.root
  let targets ← validRole crypto root.targets
  let snapshot ← validRole crypto root.snapshot
  let timestamp ← validRole crypto root.timestamp
  let signatures ← validSignatures root.signatures
  return { root with
    audit := audit, root := rootRole, targets := targets, snapshot := snapshot,
    timestamp := timestamp, signatures := signatures }

/-- `active_not_revoked`. -/
def activeNotRevoked (crypto : Crypto) (revoked : List Text) (role : TrustRole) : Bool :=
  role.keys.all fun key =>
    match crypto.parsePublicKey key with
    | some parsed => !revoked.contains (publicKeyId parsed)
    | none => false

/-- The checks of the list of revoked keys. -/
def checkRevoked (crypto : Crypto) (root : RootMetadata) : Except String RootMetadata :=
  let revoked := sortTexts root.revokedKeyIds
  if hasAdjacent (· == ·) revoked = true ∨ ¬revoked.all (fun id =>
      "sha256:".toList.isPrefixOf id && isHexDigest (id.drop 7)) = true then
    .error "registry root metadata has invalid revoked key IDs"
  else if !activeNotRevoked crypto revoked root.root ||
      !activeNotRevoked crypto revoked root.targets ||
      !activeNotRevoked crypto revoked root.snapshot ||
      !activeNotRevoked crypto revoked root.timestamp ||
      (root.format == rootFormatV2 && !activeNotRevoked crypto revoked root.audit) then
    .error "registry root metadata authorizes a revoked key"
  else .ok { root with revokedKeyIds := revoked }

def parseRootMetadata (crypto : Crypto) (text path : Text) : Except String RootMetadata := do
  let assignments ←
    parseAssignments text ["roles".toList, "signatures".toList] "registry root metadata"
  let format ← parseRootFormat [] assignments
  let common ← parseCommon format {} [] assignments
  let root ← parseRoles { common.1 with format := format } common.2 assignments
  match completeRoot crypto root.1 root.2 with
  | none =>
    .error ("registry root metadata is incomplete or invalid: " ++ String.ofList path)
  | some root => checkRevoked crypto root

/-- The four names that `parseCommon` knows. -/
def commonFields : List Text :=
  ["format".toList, "registry".toList, "version".toList, "expires".toList]

/-- A digest, as the value of a field. -/
def parseDigest (value : Text) : Option Text :=
  (parseString value).filter isHexDigest

/-- A version, as the value of a field. -/
def parseVersion (value : Text) : Option UInt64 :=
  (ManifestToml.parseUnsigned value).filter (· ≠ 0)

/-- One field of a snapshot. -/
def parseSnapshotField (metadata : SnapshotMetadata) (assignment : ManifestToml.Assignment) :
    Except String SnapshotMetadata :=
  if assignment.key = "root_version".toList then
    match parseVersion assignment.value with
    | some version => .ok { metadata with rootVersion := version }
    | none => .error "invalid registry snapshot root version"
  else if assignment.key = "packages_sha256".toList then
    match parseDigest assignment.value with
    | some digest => .ok { metadata with packagesSha256 := digest }
    | none => .error "invalid registry snapshot packages digest"
  else if assignment.key = "audit_checkpoint_sha256".toList then
    match parseDigest assignment.value with
    | some digest =>
      if metadata.format = snapshotFormatV2 then
        .ok { metadata with auditCheckpointSha256 := digest }
      else .error "invalid registry snapshot audit checkpoint digest"
    | none => .error "invalid registry snapshot audit checkpoint digest"
  else if assignment.key ∈ commonFields then .ok metadata
  else
    .error ("unknown registry snapshot metadata field '" ++ String.ofList assignment.key ++ "'")

/-- One field of a timestamp. -/
def parseTimestampField (metadata : TimestampMetadata) (assignment : ManifestToml.Assignment) :
    Except String TimestampMetadata :=
  if assignment.key = "root_version".toList then
    match parseVersion assignment.value with
    | some version => .ok { metadata with rootVersion := version }
    | none => .error "invalid registry timestamp root version"
  else if assignment.key = "snapshot_version".toList then
    match parseVersion assignment.value with
    | some version => .ok { metadata with snapshotVersion := version }
    | none => .error "invalid registry timestamp snapshot version"
  else if assignment.key = "snapshot_sha256".toList then
    match parseDigest assignment.value with
    | some digest => .ok { metadata with snapshotSha256 := digest }
    | none => .error "invalid registry timestamp snapshot digest"
  else if assignment.key ∈ commonFields then .ok metadata
  else
    .error ("unknown registry timestamp metadata field '" ++ String.ofList assignment.key ++ "'")

/-- The fields outside of the tables, one after the other. -/
def parseFields {α : Type} (field : α → ManifestToml.Assignment → Except String α) (metadata : α) :
    List ManifestToml.Assignment → Except String α
  | [] => .ok metadata
  | assignment :: rest =>
    if assignment.table ≠ [] then parseFields field metadata rest
    else
      match field metadata assignment with
      | .error message => .error message
      | .ok metadata => parseFields field metadata rest

/-- The format of a snapshot: the first one given. -/
def parseSnapshotFormat (assignments : List ManifestToml.Assignment) : Except String Text :=
  let found := assignments.find? fun assignment =>
    assignment.table == [] && assignment.key == "format".toList
  match found.bind fun assignment => parseString assignment.value with
  | some format =>
    if format = snapshotFormat ∨ format = snapshotFormatV2 then .ok format
    else .error "invalid registry metadata format"
  | none => .error "invalid registry metadata format"

def parseSnapshotMetadata (text path : Text) : Except String SnapshotMetadata := do
  let assignments ← parseAssignments text ["signatures".toList] "registry snapshot metadata"
  let format ← parseSnapshotFormat assignments
  let common ← parseCommon format {} [] assignments
  let metadata ← parseFields parseSnapshotField { common.1 with format := format } assignments
  let incomplete := .error
    ("registry snapshot metadata is incomplete or invalid: " ++ String.ofList path)
  if (∀ field ∈ commonFields ++ ["root_version".toList, "packages_sha256".toList],
      field ∈ common.2) ∧
      (format = snapshotFormatV2 → "audit_checkpoint_sha256".toList ∈ common.2) then
    match validSignatures metadata.signatures with
    | some signatures => .ok { metadata with signatures := signatures }
    | none => incomplete
  else incomplete

def parseTimestampMetadata (text path : Text) : Except String TimestampMetadata := do
  let assignments ← parseAssignments text ["signatures".toList] "registry timestamp metadata"
  let common ← parseCommon timestampFormat {} [] assignments
  let metadata ← parseFields parseTimestampField { common.1 with } assignments
  let incomplete := .error
    ("registry timestamp metadata is incomplete or invalid: " ++ String.ofList path)
  if ∀ field ∈ commonFields ++
      ["root_version".toList, "snapshot_version".toList, "snapshot_sha256".toList],
      field ∈ common.2 then
    match validSignatures metadata.signatures with
    | some signatures => .ok { metadata with signatures := signatures }
    | none => incomplete
  else incomplete

/-! ## What a reader accepts -/

lemma except_bind_eq_ok {α β : Type} {x : Except String α} {f : α → Except String β} {b : β} :
    (x >>= f) = .ok b ↔ ∃ a, x = .ok a ∧ f a = .ok b := by
  cases x with
  | error message => simp [bind, Except.bind]
  | ok a => simp [bind, Except.bind]

section Common

variable {expectedFormat : Text} {metadata metadata' : CommonMetadata} {seen seen' : List Text}

lemma parseCommonField_version {assignment : ManifestToml.Assignment}
    (h : parseCommonField expectedFormat metadata assignment = .ok metadata') :
    metadata'.version ≠ 0 ∨
      assignment.key ≠ "version".toList ∧ metadata'.version = metadata.version := by
  have hregistry : "registry".toList ≠ "version".toList := by decide
  have hformat : "format".toList ≠ "version".toList := by decide
  unfold parseCommonField at h
  split at h
  · rename_i hkey
    split at h
    · obtain rfl := Except.ok.inj h
      exact .inr ⟨by rw [hkey]; exact hformat, rfl⟩
    · simp at h
  · split at h
    · rename_i hkey
      split at h
      · obtain rfl := Except.ok.inj h
        exact .inr ⟨by rw [hkey]; exact hregistry, rfl⟩
      · simp at h
    · split at h
      · split at h
        · split at h
          · simp at h
          · rename_i hzero
            obtain rfl := Except.ok.inj h
            exact .inl hzero
        · simp at h
      · rename_i hkey
        split at h
        · split at h
          · split at h
            · obtain rfl := Except.ok.inj h
              exact .inr ⟨hkey, rfl⟩
            · simp at h
          · simp at h
        · obtain rfl := Except.ok.inj h
          exact .inr ⟨hkey, rfl⟩

/-- A version that was seen is not zero. -/
lemma parseCommon_version {assignments : List ManifestToml.Assignment}
    (h : parseCommon expectedFormat metadata seen assignments = .ok (metadata', seen'))
    (hseen : "version".toList ∈ seen → metadata.version ≠ 0) :
    "version".toList ∈ seen' → metadata'.version ≠ 0 := by
  induction assignments generalizing metadata seen with
  | nil =>
    obtain ⟨rfl, rfl⟩ := Prod.mk.inj (Except.ok.inj h)
    exact hseen
  | cons assignment rest ih =>
    unfold parseCommon at h
    split at h
    · split at h
      · simp at h
      · exact ih h hseen
    · split at h
      · exact ih h hseen
      · split at h
        · simp at h
        · split at h
          · simp at h
          · rename_i next hfield
            refine ih h fun hmem => ?_
            rcases parseCommonField_version hfield with hne | ⟨hkey, hkeep⟩
            · exact hne
            · rw [hkeep]
              rcases List.mem_cons.mp hmem with heq | hmem
              · exact absurd heq.symm hkey
              · exact hseen hmem

end Common

lemma RootMetadata.onRole_common (root : RootMetadata) (name : RoleName)
    (change : TrustRole → TrustRole) :
    (root.onRole name change).toCommonMetadata = root.toCommonMetadata := by
  cases name <;> rfl

variable {root root' : RootMetadata}

lemma parseRoleField_common {assignment : ManifestToml.Assignment}
    (h : parseRoleField root assignment = .ok root') :
    root'.toCommonMetadata = root.toCommonMetadata := by
  unfold parseRoleField at h
  dsimp only at h
  split at h
  · split at h
    · split at h
      · obtain rfl := Except.ok.inj h
        exact root.onRole_common _ _
      · simp at h
    · split at h
      · split at h
        · split at h
          · simp at h
          · obtain rfl := Except.ok.inj h
            exact root.onRole_common _ _
        · simp at h
      · simp at h
  · split at h
    · split at h
      · obtain rfl := Except.ok.inj h
        rfl
      · simp at h
    · simp at h

variable {assignments : List ManifestToml.Assignment}

/-- The table of roles leaves the other fields alone, and has no version. -/
lemma parseRoles_spec {seen seen' : List Text}
    (h : parseRoles root seen assignments = .ok (root', seen')) :
    root'.toCommonMetadata = root.toCommonMetadata ∧
      ("version".toList ∈ seen' → "version".toList ∈ seen) := by
  induction assignments generalizing root seen with
  | nil =>
    obtain ⟨rfl, rfl⟩ := Prod.mk.inj (Except.ok.inj h)
    exact ⟨rfl, id⟩
  | cons assignment rest ih =>
    unfold parseRoles at h
    split at h
    · exact ih h
    · rename_i htable
      split at h
      · simp at h
      · rename_i hroles
        split at h
        · simp at h
        · rename_i next hfield
          obtain ⟨hcommon, hversion⟩ := ih h
          refine ⟨hcommon.trans (parseRoleField_common hfield), fun hmem => ?_⟩
          rcases List.mem_cons.mp (hversion hmem) with heq | hmem
          · have hname : assignment.table = "roles".toList := by
              by_contra hne
              exact hroles (.inl hne)
            rw [ManifestToml.Assignment.fullKey, hname, if_neg (by decide)] at heq
            have hhead := congrArg List.head? heq
            revert hhead
            simp
          · exact hmem

/-- A role as a reader leaves it. -/
structure TrustRole.Valid (role : TrustRole) : Prop where
  nodup : role.keys.Nodup
  positive : 0 < role.threshold

lemma nodup_of_sorted {values : List Text} (hsorted : values.Pairwise (· ≤ ·))
    (h : hasAdjacent (· == ·) values = false) : values.Nodup := by
  induction values with
  | nil => exact List.nodup_nil
  | cons a rest ih =>
    cases rest with
    | nil => exact List.nodup_singleton a
    | cons b rest =>
      simp only [hasAdjacent, Bool.or_eq_false_iff, beq_eq_false_iff_ne] at h
      obtain ⟨hle, htail⟩ := List.pairwise_cons.mp hsorted
      refine List.nodup_cons.mpr ⟨fun hmem => ?_, ih htail h.2⟩
      -- a later copy of `a` lies between `a` and its neighbour
      have hab := hle b (.head _)
      rcases List.mem_cons.mp hmem with heq | hmem
      · exact h.1 heq
      · exact h.1 (le_antisymm hab ((List.pairwise_cons.mp htail).1 a hmem))

variable {crypto : Crypto}

/-- A role that passes is valid, and keeps its keys and its threshold. -/
lemma validRole_spec {role role' : TrustRole} (h : validRole crypto role = some role') :
    role'.Valid ∧ role'.keys ⊆ role.keys ∧ role'.threshold = role.threshold := by
  unfold validRole at h
  split at h
  · rename_i hvalid
    obtain ⟨hsorted, hpos, -, -⟩ := hvalid
    obtain rfl := Option.some.inj h
    simp only [sortedUniqueNonempty, Bool.and_eq_true, Bool.not_eq_true'] at hsorted
    refine ⟨⟨nodup_of_sorted (List.pairwise_insertionSort _ _) hsorted.1.2,
      Nat.pos_of_ne_zero hpos⟩, ?_, rfl⟩
    exact (List.perm_insertionSort _ _).subset
  · simp at h

lemma completeRoot_spec {seen : List Text} (h : completeRoot crypto root seen = some root') :
    root'.version = root.version ∧ root'.root.Valid ∧ "version".toList ∈ seen := by
  simp only [completeRoot, Option.bind_eq_bind, Option.bind_eq_some_iff, Option.guard_eq_some',
    Option.pure_def, Option.some.injEq] at h
  obtain ⟨audit, -, -, hrequired, role, hrole, targets, -, snapshot, -, timestamp, -, signatures,
    -, rfl⟩ := h
  exact ⟨rfl, (validRole_spec hrole).1, hrequired _ (by decide)⟩

lemma checkRevoked_spec (h : checkRevoked crypto root = .ok root') :
    root'.version = root.version ∧ root'.root = root.root := by
  unfold checkRevoked at h
  dsimp only at h
  split at h
  · simp at h
  · split at h
    · simp at h
    · obtain rfl := Except.ok.inj h
      exact ⟨rfl, rfl⟩

/-- A root that is read has a version, and its own role can be met by distinct keys only. -/
theorem parseRootMetadata_spec {text path : Text}
    (h : parseRootMetadata crypto text path = .ok root) : root.version ≠ 0 ∧ root.root.Valid := by
  obtain ⟨assignments, -, h⟩ := except_bind_eq_ok.mp h
  obtain ⟨format, -, h⟩ := except_bind_eq_ok.mp h
  obtain ⟨common, hcommon, h⟩ := except_bind_eq_ok.mp h
  obtain ⟨roles, hroles, h⟩ := except_bind_eq_ok.mp h
  split at h
  · simp at h
  · rename_i complete hcomplete
    obtain ⟨hversion, hrole⟩ := checkRevoked_spec h
    obtain ⟨hversion', hvalid, hseen⟩ := completeRoot_spec hcomplete
    obtain ⟨hkeep, hback⟩ := parseRoles_spec hroles
    have hne := parseCommon_version hcommon (by simp) (hback hseen)
    refine ⟨?_, hrole ▸ hvalid⟩
    rw [hversion, hversion', show roles.1.version = common.1.version by rw [hkeep]]
    exact hne

lemma parseFields_keeps {α : Type} {field : α → ManifestToml.Assignment → Except String α}
    (view : α → CommonMetadata) (hfield : ∀ m a m', field m a = .ok m' → view m' = view m)
    {m m' : α} (h : parseFields field m assignments = .ok m') : view m' = view m := by
  induction assignments generalizing m with
  | nil =>
    obtain rfl := Except.ok.inj h
    rfl
  | cons assignment rest ih =>
    unfold parseFields at h
    split at h
    · exact ih h
    · split at h
      · simp at h
      · rename_i next hnext
        exact (ih h).trans (hfield _ _ _ hnext)

lemma parseSnapshotField_common {m m' : SnapshotMetadata} {a : ManifestToml.Assignment}
    (h : parseSnapshotField m a = .ok m') : m'.toCommonMetadata = m.toCommonMetadata := by
  unfold parseSnapshotField at h
  repeat' split at h
  all_goals first
    | (obtain rfl := Except.ok.inj h; rfl)
    | simp at h

lemma parseTimestampField_common {m m' : TimestampMetadata} {a : ManifestToml.Assignment}
    (h : parseTimestampField m a = .ok m') : m'.toCommonMetadata = m.toCommonMetadata := by
  unfold parseTimestampField at h
  repeat' split at h
  all_goals first
    | (obtain rfl := Except.ok.inj h; rfl)
    | simp at h

theorem parseSnapshotMetadata_version {text path : Text} {snapshot : SnapshotMetadata}
    (h : parseSnapshotMetadata text path = .ok snapshot) : snapshot.version ≠ 0 := by
  obtain ⟨assignments, -, h⟩ := except_bind_eq_ok.mp h
  obtain ⟨format, -, h⟩ := except_bind_eq_ok.mp h
  obtain ⟨common, hcommon, h⟩ := except_bind_eq_ok.mp h
  obtain ⟨metadata, hfields, h⟩ := except_bind_eq_ok.mp h
  dsimp only at h
  split at h
  · rename_i hrequired
    split at h
    · obtain rfl := Except.ok.inj h
      have hkeep := parseFields_keeps SnapshotMetadata.toCommonMetadata
        (fun _ _ _ => parseSnapshotField_common) hfields
      show metadata.version ≠ 0
      rw [show metadata.version = common.1.version by rw [hkeep]]
      exact parseCommon_version hcommon (by simp) (hrequired.1 _ (by decide))
    · simp at h
  · simp at h

theorem parseTimestampMetadata_version {text path : Text} {timestamp : TimestampMetadata}
    (h : parseTimestampMetadata text path = .ok timestamp) : timestamp.version ≠ 0 := by
  obtain ⟨assignments, -, h⟩ := except_bind_eq_ok.mp h
  obtain ⟨common, hcommon, h⟩ := except_bind_eq_ok.mp h
  obtain ⟨metadata, hfields, h⟩ := except_bind_eq_ok.mp h
  dsimp only at h
  split at h
  · rename_i hrequired
    split at h
    · obtain rfl := Except.ok.inj h
      have hkeep := parseFields_keeps TimestampMetadata.toCommonMetadata
        (fun _ _ _ => parseTimestampField_common) hfields
      show metadata.version ≠ 0
      rw [show metadata.version = common.1.version by rw [hkeep]]
      exact parseCommon_version hcommon (by simp) (hrequired _ (by decide))
    · simp at h
  · simp at h

end Registry

end Chtholly
