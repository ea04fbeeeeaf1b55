import Chtholly.Registry.TrustMetadata
import Chtholly.Registry.TrustState

/-!
# Accepting the trust metadata of a registry

A checkout of a registry carries a chain of roots, a snapshot and a timestamp.  They are accepted
when every root is signed by the root before it and by itself, when the three belong together and
are signed and fresh, and when nothing is older than what was accepted before.  The accepted
versions are kept at once or by a later commit.

## Main definitions

* `Registry.parseAuditCheckpoint`, `Registry.verifyRegistryAuditCheckpoint` — the checkpoint of the
  log that a snapshot may name.
* `Registry.verifyRegistryRootChain` — the chain of roots.
* `Registry.verifyRegistryTrust`, `Registry.commitVerifiedRegistryTrust` — the two calls.
* `Registry.TrustStore.run` — calls of any number of processes, one after the other.
-/

set_option autoImplicit false

namespace Chtholly

namespace Registry

/-! ## The checkpoint of a snapshot -/

/-- The state of the reader of a checkpoint: the names still expected, the fields, the
signatures. -/
structure CheckpointReader where
  names : List Text :=
    ["registry".toList, "tree-size".toList, "root-hash".toList, "root-version".toList,
      "root-sha256".toList, "issued-at".toList]
  fields : List (Text × Text) := []
  signatures : List MetadataSignature := []

namespace CheckpointReader

/-- The line of a signature, after its tag. -/
def signature (reader : CheckpointReader) (line : Text) : Except String CheckpointReader :=
  let malformed := .error "registry audit checkpoint signature is malformed"
  match reader.names, cut '\t' line with
  | [], some (ch :: keyId, ch' :: signature) =>
    let ordered := match reader.signatures.getLast? with
      | none => true
      | some previous => decide (previous.keyId < ch :: keyId)
    if ordered && decide (reader.signatures.length < 64) then
      .ok { reader with
        signatures := reader.signatures ++ [⟨ch :: keyId, ch' :: signature⟩] }
    else .error "registry audit checkpoint signatures are not unique and ordered"
  | _, _ => malformed

def line (reader : CheckpointReader) (line : Text) : Except String CheckpointReader :=
  if line = [] then .error "registry audit checkpoint contains an empty field"
  else if signatureTag.isPrefixOf line then reader.signature (line.drop 10)
  else
    let malformed := .error "registry audit checkpoint field is malformed"
    match reader.names with
    | [] => .error "registry audit checkpoint contains an unknown field"
    | name :: names =>
      match cut '\t' line with
      | none => malformed
      | some (first, rest) =>
        match cut ':' rest with
        | none => malformed
        | some (size, value) =>
          if first ≠ name then malformed
          else
            match parseUnsigned size with
            | none => malformed
            | some size =>
              if size.toNat = value.length then
                .ok { reader with names := names, fields := reader.fields ++ [(name, value)] }
              else .error "registry audit checkpoint field length is invalid"

def run (reader : CheckpointReader) : List Text → Except String CheckpointReader
  | [] => .ok reader
  | line :: rest =>
    match reader.line line with
    | .error message => .error message
    | .ok reader => reader.run rest

/-- `fields[name]`, which is empty for an absent field. -/
def field (reader : CheckpointReader) (name : String) : Text :=
  (reader.fields.lookup name.toList).getD []

/-- The checks after the last line. -/
def finish (reader : CheckpointReader) : Except String AuditCheckpoint :=
  let invalid := .error "registry audit checkpoint values are invalid"
  match parseUnsigned (reader.field "tree-size"), parseUnsigned (reader.field "root-version") with
  | some treeSize, some rootVersion =>
    if reader.names = [] ∧ reader.signatures ≠ [] ∧ reader.field "registry" ≠ [] ∧
        treeSize ≠ 0 ∧ rootVersion ≠ 0 ∧ isHexDigest (reader.field "root-hash") = true ∧
        isHexDigest (reader.field "root-sha256") = true ∧
        (parseRfc3339 (reader.field "issued-at")).isSome = true then
      .ok
        { registryName := reader.field "registry"
          treeSize := treeSize
          rootHash := reader.field "root-hash"
          rootVersion := rootVersion
          rootSha256 := reader.field "root-sha256"
          issuedAt := reader.field "issued-at"
          signatures := reader.signatures }
    else invalid
  | _, _ => invalid

end CheckpointReader

def parseAuditCheckpoint (text : Text) : Except String AuditCheckpoint :=
  if 128 * 1024 < text.length then
    .error "registry audit checkpoint exceeds its size limit"
  else
    match lines text with
    | [] => .error "registry audit checkpoint has an invalid format"
    | first :: rest =>
      if first ≠ "chtholly-registry-audit-checkpoint-v1".toList then
        .error "registry audit checkpoint has an invalid format"
      else
        match CheckpointReader.run {} rest with
        | .error message => .error message
        | .ok reader => reader.finish

/-- The signatures of a checkpoint: the identities of the keys are counted once each. -/
def verifyCheckpointSignatures (crypto : Crypto) (checkpoint : AuditCheckpoint)
    (root : RootMetadata) : Except String Unit :=
  if root.format ≠ rootFormatV2 ∨ root.audit.threshold = 0 then
    .error "registry root does not authorize an audit role"
  else
    let accepted := (root.audit.keys.filterMap (acceptedKey crypto
      (canonicalCheckpoint checkpoint) checkpoint.signatures root.revokedKeyIds)).map publicKeyId
    if accepted.dedup.length < root.audit.threshold then
      .error ("registry audit checkpoint signature threshold was not satisfied (" ++
        toString accepted.dedup.length ++ "/" ++ toString root.audit.threshold ++ ")")
    else .ok ()

def verifyRegistryAuditCheckpoint (crypto : Crypto) (checkpoint : AuditCheckpoint)
    (root : RootMetadata) : Except String Unit :=
  if checkpoint.registryName ≠ root.registryName ∨ checkpoint.rootVersion ≠ root.version ∨
      checkpoint.rootSha256 ≠ sha256Hex (Text.bytes (renderRootMetadata root)) then
    .error "registry audit checkpoint does not match the verified root"
  else verifyCheckpointSignatures crypto checkpoint root

/-! ## Requests and checkouts -/

/-- `RegistryTrustVerificationRequest`. -/
structure TrustRequest where
  registryName : Text
  registryIndex : Text
  checkoutRoot : Text
  identityStoreRoot : Text
  bootstrapRootKeys : List Text
  bootstrapRootThreshold : ℕ
  nowUnixSeconds : Int64 := -1
  persistState : Bool := true

/-- `path / name`, for a relative name. -/
def joinPath (path name : Text) : Text :=
  if path = [] ∨ path.getLast? = some '/' then path ++ name else path ++ '/' :: name

def registryTrustStatePath (identityStoreRoot registryName registryIndex : Text) : Text :=
  let identity := appendField "registry".toList registryName ++
    appendField "index".toList registryIndex
  ["trust".toList, "registries".toList, sha256Hex (Text.bytes identity),
    "state.toml".toList].foldl joinPath identityStoreRoot

def TrustRequest.statePath (request : TrustRequest) : Text :=
  registryTrustStatePath request.identityStoreRoot request.registryName request.registryIndex

/-- A regular file under the directory of packages, with its path in it. -/
structure PackageFile where
  path : Text
  bytes : Bytes

/-- What a call reads of a checkout.  The root files are `1.toml`, `2.toml` and so on, up to the
first that is missing; a file that is there may still not be readable. -/
structure Checkout where
  rootFiles : List (Except String Text)
  snapshot : Except String Text
  timestamp : Except String Text
  auditCheckpoint : Except String Text
  packages : Except String (List PackageFile)

/-- What the machine does in a call: whether the lock is taken, whether the file of the state can
be read and replaced, and what the clock says. -/
structure Access where
  lock : Except String Unit := .ok ()
  read : Except String Unit := .ok ()
  write : Except String Unit := .ok ()
  clock : Int64

def TrustRequest.now (request : TrustRequest) (clock : Int64) : Int64 :=
  if 0 ≤ request.nowUnixSeconds then request.nowUnixSeconds else clock

def computeRegistryPackagesDigest (packages : Except String (List PackageFile)) :
    Except String Text := do
  let files ← packages
  let sorted := files.insertionSort fun a b => a.path ≤ b.path
  return sha256Hex (Text.bytes ("chtholly-registry-packages-tree-v1\n".toList ++
    sorted.flatMap fun file =>
      appendField "path".toList file.path ++
        appendField "size".toList (decimal file.bytes.length) ++
        appendField "sha256".toList (sha256Hex file.bytes)))

/-- Whether a time in the text of metadata is over. -/
def expired (now : Int64) (expires : Text) : Bool :=
  match parseRfc3339 expires with
  | some expiry => decide ((expiry : ℤ) ≤ now.toInt)
  | none => true

/-! ## The chain of roots -/

/-- `std::includes`. -/
def includes : List Text → List Text → Bool
  | _, [] => true
  | [], _ :: _ => false
  | a :: as, b :: bs =>
    if b < a then false
    else if a < b then includes as (b :: bs)
    else includes as bs

/-- `VerifiedRegistryRoot`. -/
structure VerifiedRoot where
  root : RootMetadata
  rootSha256 : Text

/-- One root of the chain, after a role and a list of revoked keys. -/
def verifyRoot (crypto : Crypto) (request : TrustRequest) (version : UInt64) (role : TrustRole)
    (revoked : List Text) (file : Except String Text) : Except String RootMetadata := do
  let path := ["trust".toList, "root".toList, decimal version.toNat ++ ".toml".toList].foldl joinPath
    request.checkoutRoot
  let text ← file
  let root ← parseRootMetadata crypto text path
  if root.registryName ≠ request.registryName ∨ root.version ≠ version ∨
      includes root.revokedKeyIds revoked = false then
    .error "registry root rotation is non-contiguous or revocation regressed"
  else
    let signed := do
      verifyThreshold crypto (rootPayload root) root.signatures role revoked
      verifyThreshold crypto (rootPayload root) root.signatures root.root root.revokedKeyIds
    match signed with
    | .error message => .error ("registry root " ++ toString version.toNat ++ ": " ++ message)
    | .ok _ => .ok root

/-- The loop over the root files. -/
def rootLoop (crypto : Crypto) (request : TrustRequest) (version : UInt64) (role : TrustRole)
    (revoked : List Text) (current : RootMetadata) :
    List (Except String Text) → Except String RootMetadata
  | [] => .ok current
  | file :: rest =>
    match verifyRoot crypto request version role revoked file with
    | .error message => .error message
    | .ok root =>
      rootLoop crypto request (version + 1) root.root root.revokedKeyIds root rest

def verifyRegistryRootChain (crypto : Crypto) (request : TrustRequest) (clock : Int64)
    (rootFiles : List (Except String Text)) : Except String VerifiedRoot :=
  if request.registryName = [] ∨ request.checkoutRoot = [] ∨
      request.bootstrapRootThreshold = 0 ∨
      request.bootstrapRootKeys.length < request.bootstrapRootThreshold then
    .error "registry root chain verification request is incomplete"
  else
    match validRole crypto ⟨request.bootstrapRootKeys, request.bootstrapRootThreshold⟩ with
    | none => .error "registry bootstrap root role is invalid"
    | some bootstrap => do
      let current ← rootLoop crypto request 1 bootstrap [] {} rootFiles
      if current.version = 0 then .error "registry trust root metadata is missing"
      else if expired (request.now clock) current.expires then
        .error "registry root metadata is expired"
      else .ok ⟨current, sha256Hex (Text.bytes (renderRootMetadata current))⟩

/-! ## Verification and commit -/

/-- `VerifiedRegistryTrust`. -/
structure VerifiedTrust where
  root : RootMetadata
  snapshot : SnapshotMetadata
  timestamp : TimestampMetadata
  rootSha256 : Text
  snapshotSha256 : Text
  timestampSha256 : Text
  packagesSha256 : Text
  auditCheckpoint : Option AuditCheckpoint

/-- The snapshot and the timestamp of a checkout.  Both are read before a failure of the first is
looked at, so the message of the second is the one that stays. -/
def readFreshness (request : TrustRequest) (checkout : Checkout) :
    Except String (SnapshotMetadata × TimestampMetadata) := do
  let timestampText ← checkout.timestamp
  let snapshotText ← checkout.snapshot
  let timestamp ← parseTimestampMetadata timestampText
    (["trust".toList, "timestamp.toml".toList].foldl joinPath request.checkoutRoot)
  let snapshot ← parseSnapshotMetadata snapshotText
    (["trust".toList, "snapshot.toml".toList].foldl joinPath request.checkoutRoot)
  return (snapshot, timestamp)

/-- The checkpoint that a snapshot of the second format names. -/
def readCheckpoint (crypto : Crypto) (checkout : Checkout) (root : RootMetadata)
    (snapshot : SnapshotMetadata) : Except String (Option AuditCheckpoint) :=
  if snapshot.format = snapshotFormatV2 then do
    let text ← checkout.auditCheckpoint
    let checkpoint ← parseAuditCheckpoint text
    if sha256Hex (Text.bytes text) ≠ snapshot.auditCheckpointSha256 then
      .error "registry snapshot audit checkpoint is invalid"
    else
      verifyRegistryAuditCheckpoint crypto checkpoint root
      return some checkpoint
  else .ok none

/-- The three comparisons with the state that was kept. -/
def checkRollbacks (next state : TrustState) : Except String Unit := do
  checkRollback "root" next.rootVersion next.rootSha256 state.rootVersion state.rootSha256
  checkRollback "snapshot" next.snapshotVersion next.snapshotSha256 state.snapshotVersion
    state.snapshotSha256
  checkRollback "timestamp" next.timestampVersion next.timestampSha256 state.timestampVersion
    state.timestampSha256

/-- The state that is kept of accepted metadata. -/
def VerifiedTrust.state (trust : VerifiedTrust) (time : Int64) : TrustState :=
  ⟨trust.root.version, trust.rootSha256, trust.snapshot.version, trust.snapshotSha256,
    trust.timestamp.version, trust.timestampSha256, time⟩

/-- The checks of `verifyRegistryTrust` after the state was loaded. -/
def acceptTrust (crypto : Crypto) (request : TrustRequest) (chainClock clock : Int64)
    (checkout : Checkout) (state : TrustState) : Except String (VerifiedTrust × TrustState) := do
  let verified ← verifyRegistryRootChain crypto request chainClock checkout.rootFiles
  let (snapshot, timestamp) ← readFreshness request checkout
  let snapshotDigest := sha256Hex (Text.bytes (renderSnapshotMetadata snapshot))
  let timestampDigest := sha256Hex (Text.bytes (renderTimestampMetadata timestamp))
  let current := verified.root
  if snapshot.registryName ≠ request.registryName ∨
      timestamp.registryName ≠ request.registryName ∨
      snapshot.rootVersion ≠ current.version ∨ timestamp.rootVersion ≠ current.version ∨
      timestamp.snapshotVersion ≠ snapshot.version ∨
      timestamp.snapshotSha256 ≠ snapshotDigest then
    .error "registry freshness metadata does not form one trusted chain"
  else
    verifyThreshold crypto (snapshotSignatureInput snapshot) snapshot.signatures current.snapshot
      current.revokedKeyIds
    verifyThreshold crypto (timestampSignatureInput timestamp) timestamp.signatures
      current.timestamp current.revokedKeyIds
    let auditCheckpoint ← readCheckpoint crypto checkout current snapshot
    let effectiveNow := max (request.now clock) state.lastVerifiedTime
    if expired effectiveNow current.expires || expired effectiveNow snapshot.expires ||
        expired effectiveNow timestamp.expires then
      .error "registry trust metadata is expired"
    else
      let trust := fun packagesDigest => VerifiedTrust.mk current snapshot timestamp
        verified.rootSha256 snapshotDigest timestampDigest packagesDigest auditCheckpoint
      checkRollbacks ((trust []).state effectiveNow) state
      let packagesDigest ← computeRegistryPackagesDigest checkout.packages
      if packagesDigest ≠ snapshot.packagesSha256 then
        .error "registry packages tree does not match snapshot"
      else .ok (trust packagesDigest, (trust packagesDigest).state effectiveNow)

/-- The state of the file, under the lock. -/
def openState (access : Access) (path : Text) (file : Option Text) : Except String TrustState := do
  access.lock
  if file.isSome then access.read
  loadState path file

/-- A call of `verifyRegistryTrust`, and the file of the state after it. -/
def verifyRegistryTrust (crypto : Crypto) (request : TrustRequest) (access : Access)
    (chainClock : Int64) (checkout : Checkout) (file : Option Text) :
    Except String VerifiedTrust × Option Text :=
  if request.registryName = [] ∨ request.checkoutRoot = [] ∨ request.identityStoreRoot = [] ∨
      request.bootstrapRootThreshold = 0 then
    (.error "registry trust verification request is incomplete", file)
  else
    match openState access request.statePath file with
    | .error message => (.error message, file)
    | .ok state =>
      match acceptTrust crypto request chainClock access.clock checkout state with
      | .error message => (.error message, file)
      | .ok (trust, next) =>
        if request.persistState then
          match access.write with
          | .error message => (.error message, file)
          | .ok _ => (.ok trust, some (stateText next))
        else (.ok trust, file)

/-- A call of `commitVerifiedRegistryTrust`, and the file of the state after it. -/
def commitVerifiedRegistryTrust (request : TrustRequest) (trust : VerifiedTrust) (access : Access)
    (file : Option Text) : Except String Unit × Option Text :=
  if request.registryName = [] ∨ request.registryIndex = [] ∨ request.identityStoreRoot = [] ∨
      trust.root.registryName ≠ request.registryName ∨
      trust.snapshot.registryName ≠ request.registryName ∨
      trust.timestamp.registryName ≠ request.registryName then
    (.error "registry verified trust commit request is incomplete", file)
  else
    match openState access request.statePath file with
    | .error message => (.error message, file)
    | .ok state =>
      let next := trust.state (max (request.now access.clock) state.lastVerifiedTime)
      match checkRollbacks next state with
      | .error message => (.error message, file)
      | .ok _ =>
        match access.write with
        | .error message => (.error message, file)
        | .ok _ => (.ok (), some (stateText next))

/-! ## Runs -/

/-- The files of states, and the values that calls have returned, with their requests. -/
structure TrustStore (ι : Type) where
  files : ι → Option Text
  returned : List (TrustRequest × VerifiedTrust) := []

/-- A call of some process.  A commit names the returned value that it commits. -/
inductive TrustCall
  | verify (request : TrustRequest) (access : Access) (chainClock : Int64) (checkout : Checkout)
  | commit (request : TrustRequest) (access : Access) (index : ℕ)

namespace TrustStore

variable {ι : Type} [DecidableEq ι]

/-- One call.  `resolve` gives the file that a path stands for. -/
def call (crypto : Crypto) (resolve : Text → ι) (store : TrustStore ι) : TrustCall → TrustStore ι
  | .verify request access chainClock checkout =>
    let place := resolve request.statePath
    let outcome := verifyRegistryTrust crypto request access chainClock checkout (store.files place)
    { files := Function.update store.files place outcome.2
      returned := store.returned ++
        match outcome.1 with
        | .ok trust => [(request, trust)]
        | .error _ => [] }
  | .commit request access index =>
    match store.returned[index]? with
    | none => store
    | some (_, trust) =>
      let place := resolve request.statePath
      { store with
        files := Function.update store.files place
          (commitVerifiedRegistryTrust request trust access (store.files place)).2 }

def run (crypto : Crypto) (resolve : Text → ι) (store : TrustStore ι) (calls : List TrustCall) :
    TrustStore ι :=
  calls.foldl (call crypto resolve) store

end TrustStore

end Registry

end Chtholly
