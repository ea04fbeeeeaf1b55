import Chtholly.Registry.Statement
import Chtholly.Registry.Transparency

/-!
# The store of a witness

A witness keeps the head of the log as it knows it, every statement it has signed, the roots of
trust it has seen and the incidents it has noticed, in a database.  `observe` checks an observation
against the head, signs a statement and commits it.

What a call meets outside the store is part of the call: the outcome of the checks on the roots of
trust and on the checkpoint's signatures, which touch neither the log nor the database; the proofs
that the registry serves; the signer; and the failures of the database.  A commit that fails either
rolls back or, as when the database is busy, leaves the transaction open: its writes are then seen
by later reads, and no later transaction begins.

## Main definitions

* `Registry.WitnessDatabase`, `Registry.WitnessStore` — the tables, and the store.
* `Registry.WitnessCall` — an observation and what the call meets.
* `Registry.WitnessStore.observe`, `Registry.WitnessStore.observeAll` — a call, and many.
* `Registry.WitnessStore.hashes`, `Registry.WitnessStore.Within` — the pairs that calls hash.
-/

set_option autoImplicit false

namespace Chtholly

namespace Registry

/-- `RegistryWitnessObservation`. -/
structure WitnessObservation where
  registryOrigin : Text
  checkpoint : AuditCheckpoint
  rootChain : List Text

/-- The part of the configuration that `observe` reads itself. -/
structure WitnessConfig where
  witnessName : Text
  registryName : Text
  registryOrigin : Text

/-- A row of `roots`. -/
structure RootRow where
  version : ℕ
  sha256 : Text
  canonical : Text

/-- The row of `head`. -/
structure HeadRow where
  treeSize : UInt64
  rootHash : Text
  statement : Text

/-- A row of `statements`. -/
structure StatementRow where
  checkpointSha256 : Text
  treeSize : UInt64
  rootHash : Text
  statement : Text

inductive IncidentKind
  | rootEquivocation
  | equalSizeFork
  | inconsistentGrowth
  deriving DecidableEq

/-- A row of `incidents`. -/
structure IncidentRow where
  kind : IncidentKind
  knownTreeSize : ℕ
  knownRootHash : Text
  observedTreeSize : ℕ
  observedRootHash : Text
  detectedAt : Text

structure WitnessDatabase where
  roots : List RootRow := []
  head : Option HeadRow := none
  statements : List StatementRow := []
  incidents : List IncidentRow := []

/-- The store: its configuration, the identity of its key, the tables as its connection reads them,
and whether a transaction that did not commit is still open. -/
structure WitnessStore where
  config : WitnessConfig
  keyId : Text
  database : WitnessDatabase := {}
  pending : Bool := false

/-- The outcomes of `COMMIT`. -/
inductive CommitOutcome
  | committed
  | rolledBack
  | pending
  deriving DecidableEq

/-- A call: the observation, its time as text, and what the call meets. -/
structure WitnessCall where
  observation : WitnessObservation
  observedAt : Text
  validation : Except String Unit
  fetchProof : Option (UInt64 → UInt64 → Except String (List Text))
  sign : Text → Except String (List MetadataSignature)
  incidentFails : Bool
  beginFails : Bool
  rootFails : ℕ → Bool
  statementFails : Bool
  headFails : Bool
  commit : CommitOutcome

/-- Numbers from here on cannot be bound to a statement of the database. -/
def integerLimit : ℕ := 2 ^ 63

namespace WitnessDatabase

/-- The digest stored for a version of the root. -/
def rootSha256 (db : WitnessDatabase) (version : ℕ) : Option Text :=
  (db.roots.find? fun row => row.version == version).map RootRow.sha256

/-- The text stored for a checkpoint. -/
def statementFor (db : WitnessDatabase) (checkpointSha256 : Text) : Option Text :=
  (db.statements.find? fun row => row.checkpointSha256 == checkpointSha256).map
    StatementRow.statement

/-- The statement of `incident`: the message, if it sets one, and the tables. -/
def incident (db : WitnessDatabase) (fails : Bool) (row : IncidentRow) :
    Option String × WitnessDatabase :=
  if integerLimit ≤ row.knownTreeSize ∨ integerLimit ≤ row.observedTreeSize then
    (some "witness database integer is out of range", db)
  else if fails then (none, db)
  else (none, { db with incidents := db.incidents ++ [row] })

/-- One round of the loop over the root chain in the transaction: the version is inserted unless it
is known, and then read back.  Digests are unique in the table. -/
def insertRoot (db : WitnessDatabase) (fails : Bool) (version : ℕ) (canonical : Text) :
    Option WitnessDatabase :=
  let digest := sha256Hex canonical.bytes
  let inserted :=
    if (db.rootSha256 version).isSome then some db
    else if fails ∨ db.roots.any (fun row => row.sha256 == digest) ∨ integerLimit ≤ version then none
    else some { db with roots := db.roots ++ [⟨version, digest, canonical⟩] }
  inserted.bind fun db => if db.rootSha256 version = some digest then some db else none

/-- The loop over the root chain, from the index `index` on. -/
def insertRoots (db : WitnessDatabase) (fails : ℕ → Bool) (index : ℕ) :
    List Text → Option WitnessDatabase
  | [] => some db
  | canonical :: chain =>
    (db.insertRoot (fails index) (index + 1) canonical).bind fun db =>
      db.insertRoots fails (index + 1) chain

/-- The insertion into `statements`. -/
def insertStatement (db : WitnessDatabase) (fails : Bool) (row : StatementRow) :
    Option WitnessDatabase :=
  if fails ∨ integerLimit ≤ row.treeSize.toNat ∨
      db.statements.any (fun other => other.checkpointSha256 == row.checkpointSha256) then none
  else some { db with statements := db.statements ++ [row] }

/-- The upsert of `head`. -/
def setHead (db : WitnessDatabase) (fails : Bool) (row : HeadRow) : Option WitnessDatabase :=
  if fails ∨ integerLimit ≤ row.treeSize.toNat then none else some { db with head := some row }

end WitnessDatabase

namespace WitnessStore

/-- The digest of the checkpoint of a call. -/
def checkpointSha256 (call : WitnessCall) : Text :=
  sha256Hex (renderAuditCheckpoint call.observation.checkpoint).bytes

/-- The first root of the chain that is stored with another digest. -/
def equivocation (db : WitnessDatabase) (index : ℕ) : List Text → Option IncidentRow
  | [] => none
  | root :: chain =>
    match db.rootSha256 (index + 1) with
    | none => equivocation db (index + 1) chain
    | some known =>
      let observed := sha256Hex root.bytes
      if known = observed then equivocation db (index + 1) chain
      else some ⟨.rootEquivocation, index + 1, known, index + 1, observed, []⟩

/-- What the check against the head decides: the head to be named, and whether it moves. -/
structure HeadDecision where
  treeSize : UInt64
  rootHash : Text
  advance : Bool

/-- The sizes and roots that a call compares, older first. -/
def ordered (head : HeadRow) (checkpoint : AuditCheckpoint) :
    (UInt64 × Text) × (UInt64 × Text) :=
  if head.treeSize < checkpoint.treeSize then
    ((head.treeSize, head.rootHash), (checkpoint.treeSize, checkpoint.rootHash))
  else ((checkpoint.treeSize, checkpoint.rootHash), (head.treeSize, head.rootHash))

/-- The proof for a call: absent without a fetcher, or when the fetcher fails. -/
def proofFor (head : HeadRow) (call : WitnessCall) : Except String (List Text) :=
  let pair := ordered head call.observation.checkpoint
  match call.fetchProof with
  | none => .error ""
  | some fetch => fetch pair.1.1 pair.2.1

/-- The check of the observation against the head; an incident when it fails. -/
def checkHead (db : WitnessDatabase) (call : WitnessCall) :
    Except (IncidentKind × HeadRow × String) HeadDecision :=
  let checkpoint := call.observation.checkpoint
  match db.head with
  | none => .ok ⟨checkpoint.treeSize, checkpoint.rootHash, true⟩
  | some head =>
    if head.treeSize = checkpoint.treeSize then
      if head.rootHash ≠ checkpoint.rootHash then
        .error (.equalSizeFork, head, "registry witness detected an equal-size checkpoint fork")
      else .ok ⟨head.treeSize, head.rootHash, false⟩
    else
      let pair := ordered head checkpoint
      let default := "registry witness detected inconsistent checkpoint growth"
      match proofFor head call with
      | .error message => .error (.inconsistentGrowth, head, if message = "" then default else message)
      | .ok proof =>
        if verifyRegistryMerkleConsistency pair.1.1.toNat pair.2.1.toNat pair.1.2 pair.2.2 proof ≠
            some true then .error (.inconsistentGrowth, head, default)
        else if head.treeSize < checkpoint.treeSize then
          .ok ⟨checkpoint.treeSize, checkpoint.rootHash, true⟩
        else .ok ⟨head.treeSize, head.rootHash, false⟩

/-- The statement that is to be signed. -/
def draft (store : WitnessStore) (call : WitnessCall) (decision : HeadDecision) :
    WitnessStatement where
  witnessName := store.config.witnessName
  registryName := store.config.registryName
  registryOrigin := store.config.registryOrigin
  checkpointSha256 := checkpointSha256 call
  treeSize := call.observation.checkpoint.treeSize
  rootHash := call.observation.checkpoint.rootHash
  rootVersion := call.observation.checkpoint.rootVersion
  rootSha256 := call.observation.checkpoint.rootSha256
  observedAt := call.observedAt
  headTreeSize := decision.treeSize
  headRootHash := decision.rootHash
  signature := ⟨[], []⟩

/-- The statement with the signature that the signer returns, which must be one by this witness. -/
def signed (store : WitnessStore) (call : WitnessCall) (decision : HeadDecision) :
    Except String WitnessStatement :=
  let result := store.draft call decision
  match call.sign (witnessStatementSignatureInput result) with
  | .error message => .error message
  | .ok [signature] =>
    if signature.keyId = store.keyId then .ok { result with signature := signature }
    else .error ""
  | .ok _ => .error ""

/-- The writes of the transaction. -/
def writes (db : WitnessDatabase) (call : WitnessCall) (decision : HeadDecision)
    (result : WitnessStatement) : Option WitnessDatabase :=
  let rendered := renderWitnessStatement result
  (db.insertRoots call.rootFails 0 call.observation.rootChain).bind fun db =>
    (db.insertStatement call.statementFails
      ⟨checkpointSha256 call, result.treeSize, result.rootHash, rendered⟩).bind fun db =>
        if decision.advance then
          db.setHead call.headFails ⟨decision.treeSize, decision.rootHash, rendered⟩
        else some db

/-- The transaction.  The messages of the database itself are not modelled. -/
def commit (store : WitnessStore) (call : WitnessCall) (decision : HeadDecision)
    (result : WitnessStatement) : Except String WitnessStatement × WitnessStore :=
  if store.pending ∨ call.beginFails then (.error "BEGIN IMMEDIATE", store)
  else
    match writes store.database call decision result with
    | none => (.error "ROLLBACK", store)
    | some db =>
      match call.commit with
      | .committed => (.ok result, { store with database := db })
      | .rolledBack => (.error "COMMIT", store)
      | .pending => (.error "COMMIT", { store with database := db, pending := true })

/-- An incident is recorded, and its own message or `message` is returned. -/
def refuse (store : WitnessStore) (call : WitnessCall) (row : IncidentRow) (message : String) :
    Except String WitnessStatement × WitnessStore :=
  let outcome := store.database.incident call.incidentFails { row with detectedAt := call.observedAt }
  (.error (outcome.1.getD message), { store with database := outcome.2 })

/-- `RegistryWitnessStore::observe`. -/
def observe (store : WitnessStore) (call : WitnessCall) :
    Except String WitnessStatement × WitnessStore :=
  let checkpoint := call.observation.checkpoint
  if call.observation.registryOrigin ≠ store.config.registryOrigin ∨
      checkpoint.registryName ≠ store.config.registryName ∨
      call.observation.rootChain.length ≠ checkpoint.rootVersion.toNat then
    (.error "registry witness observation does not match this witness", store)
  else if call.observedAt = [] then
    (.error "registry witness observation time is invalid", store)
  else
    match call.validation with
    | .error message => (.error message, store)
    | .ok () =>
      match equivocation store.database 0 call.observation.rootChain with
      | some row =>
        store.refuse call row "registry witness detected root metadata equivocation"
      | none =>
        match store.database.statementFor (checkpointSha256 call) with
        | some text => (parseWitnessStatement text, store)
        | none =>
          match checkHead store.database call with
          | .error (kind, head, message) =>
            store.refuse call ⟨kind, head.treeSize.toNat, head.rootHash,
              checkpoint.treeSize.toNat, checkpoint.rootHash, []⟩ message
          | .ok decision =>
            match store.signed call decision with
            | .error message => (.error message, store)
            | .ok result => store.commit call decision result

/-- `RegistryWitnessStore::latest`, which a witness serves on request. -/
def latest (store : WitnessStore) : Except String WitnessStatement :=
  match store.database.head with
  | none => .error "registry witness has not observed a checkpoint"
  | some head => parseWitnessStatement head.statement

/-- Call after call: the statements that are returned, and the store in the end. -/
def observeAll (store : WitnessStore) : List WitnessCall → List WitnessStatement × WitnessStore
  | [] => ([], store)
  | call :: calls =>
    let outcome := store.observe call
    let rest := outcome.2.observeAll calls
    match outcome.1 with
    | .ok statement => (statement :: rest.1, rest.2)
    | .error _ => rest

/-- The pairs that a call hashes to check a proof. -/
def hashes (store : WitnessStore) (call : WitnessCall) : List (Text × Text) :=
  match store.database.head with
  | none => []
  | some head =>
    let pair := ordered head call.observation.checkpoint
    match proofFor head call with
    | .error _ => []
    | .ok proof => consistencyHashes pair.1.1.toNat pair.2.1.toNat pair.1.2 proof

/-- All the pairs hashed by the calls are in `S`. -/
def Within (S : Set (Text × Text)) (store : WitnessStore) : List WitnessCall → Prop
  | [] => True
  | call :: calls =>
    (∀ p ∈ store.hashes call, p ∈ S) ∧ (store.observe call).2.Within S calls

end WitnessStore

end Registry

end Chtholly
