import Mathlib.Data.List.Sort
import Chtholly.Registry.Signatures
import Chtholly.Registry.Witness

/-!
# The view of a client

A client takes the checkpoint of a verified snapshot, asks the witnesses for statements and the
registry for its live checkpoint, and accepts the snapshot when a quorum of witnesses names heads
that are at least as large and a chain of consistency proofs runs through all of them.

What the network and the disk answer is part of a run: the outcome of the verification of trust and
of the request for the live checkpoint, the replies of the witnesses, the proofs, and whether the
accepted state could be stored.  The offline mode, which reads a stored quorum, is left out.

## Main definitions

* `Registry.CheckpointPin`, `Registry.TransparencyPolicy`, `Registry.ClientRun` — the data.
* `Registry.ClientRun.quorum`, `Registry.ClientRun.chain`, `Registry.checkChain` — the parts.
* `Registry.verifyRegistryClientView` — the whole.
-/

set_option autoImplicit false

namespace Chtholly

namespace Registry

/-- `RegistryCheckpointPin`. -/
structure CheckpointPin where
  treeSize : UInt64 := 0
  rootHash : Text := []
  rootVersion : UInt64 := 0
  rootSha256 : Text := []
  deriving DecidableEq

def pin (checkpoint : AuditCheckpoint) : CheckpointPin :=
  ⟨checkpoint.treeSize, checkpoint.rootHash, checkpoint.rootVersion, checkpoint.rootSha256⟩

def sameRoot (a b : CheckpointPin) : Bool :=
  a.rootVersion == b.rootVersion && a.rootSha256 == b.rootSha256

/-- `RegistryTransparencyPolicy`, without the paths of certificates. -/
structure TransparencyPolicy where
  registryOrigin : Text
  witnessUrls : List Text
  witnessKeys : List Text
  witnessThreshold : ℕ

/-- The bodies of the replies of a witness: to the request for its checkpoint, and to the
observation that is sent to it otherwise. -/
structure WitnessReply where
  checkpoint : Except String Text
  observation : Except String Text

/-- A run: the request, and what it meets. -/
structure ClientRun where
  registryName : Text
  policy : TransparencyPolicy
  minimumCheckpoint : Option CheckpointPin
  /-- The checkpoint of the snapshot, when the trust in the registry is verified. -/
  trust : Except String (Option AuditCheckpoint)
  liveCheckpoint : Except String AuditCheckpoint
  rootChain : Except String Unit
  reply : ℕ → WitnessReply
  fetchProof : UInt64 → UInt64 → Except String (List Text)
  persist : Except String Unit

/-- `VerifiedRegistryClientView`, without the trust. -/
structure ClientView where
  checkpoint : CheckpointPin
  witnessKeyIds : List Text

/-- `verifyRegistryWitnessStatementSignature`: one signature by one of the keys. -/
def verifyWitnessStatementSignature (crypto : Crypto) (statement : WitnessStatement)
    (authorizedKeys : List Text) : Except String Unit :=
  if statement.headTreeSize < statement.treeSize then
    .error "registry witness statement head precedes its observation"
  else
    verifyThreshold crypto (witnessStatementSignatureInput statement) [statement.signature]
      ⟨authorizedKeys, 1⟩ []

namespace ClientRun

/-- The statement in a reply: the witness is sent the observation when it has no statement, or one
with a head that is smaller than the snapshot. -/
def parsedReply (snapshot : CheckpointPin) (reply : WitnessReply) : Except String WitnessStatement :=
  let parse : Except String Text → Except String WitnessStatement := fun
    | .error message => .error message
    | .ok body => parseWitnessStatement body
  match parse reply.checkpoint with
  | .ok statement =>
    if statement.headTreeSize < snapshot.treeSize then parse reply.observation else .ok statement
  | .error _ => parse reply.observation

/-- The statement in a reply, if it counts. -/
def countedReply (crypto : Crypto) (run : ClientRun) (snapshot : CheckpointPin)
    (reply : WitnessReply) : Except String WitnessStatement :=
  match parsedReply snapshot reply with
  | .error message => .error message
  | .ok statement =>
    if statement.registryName = run.registryName ∧
        statement.registryOrigin = run.policy.registryOrigin ∧
        statement.rootVersion = snapshot.rootVersion ∧
        statement.rootSha256 = snapshot.rootSha256 ∧
        snapshot.treeSize ≤ statement.headTreeSize then
      (verifyWitnessStatementSignature crypto statement run.policy.witnessKeys).map
        fun _ => statement
    else .error ""

/-- The statements collected so far, by key, and the message of the first failure. -/
structure Collected where
  statements : List (Text × WitnessStatement) := []
  firstFailure : String := ""

/-- One reply: a statement is kept unless its key has one already. -/
def collect (crypto : Crypto) (run : ClientRun) (snapshot : CheckpointPin)
    (collected : Collected) (reply : WitnessReply) : Collected :=
  match run.countedReply crypto snapshot reply with
  | .ok statement =>
    let key := statement.signature.keyId
    if (collected.statements.lookup key).isSome then collected
    else { collected with statements := collected.statements ++ [(key, statement)] }
  | .error message =>
    if collected.firstFailure = "" then
      { collected with
        firstFailure := if message = "" then "witness checkpoint is unavailable" else message }
    else collected

/-- The replies of all the witnesses, in the order of their addresses. -/
def quorum (crypto : Crypto) (run : ClientRun) (snapshot : CheckpointPin) : Collected :=
  ((List.range run.policy.witnessUrls.length).map run.reply).foldl
    (run.collect crypto snapshot) {}

/-- `std::unique`: an entry equal to the last one kept is dropped. -/
def dropRepeats : List CheckpointPin → List CheckpointPin
  | [] => []
  | [a] => [a]
  | a :: b :: l => if a = b then dropRepeats (b :: l) else a :: dropRepeats (b :: l)

def headPin (statement : WitnessStatement) : CheckpointPin :=
  ⟨statement.headTreeSize, statement.headRootHash, statement.rootVersion, statement.rootSha256⟩

/-- All the views, by size. -/
def chain (minimum snapshot live : CheckpointPin) (statements : List (Text × WitnessStatement)) :
    List CheckpointPin :=
  dropRepeats
    (([minimum, snapshot, live] ++ statements.map fun p => headPin p.2).insertionSort
      fun a b => a.treeSize ≤ b.treeSize)

/-- The check of an entry of the chain against the one before it. -/
def checkLink (run : ClientRun) (previous current : CheckpointPin) : Except String Unit :=
  if previous.treeSize = current.treeSize then
    .error "registry transparency detected an equal-size view fork"
  else
    match run.fetchProof previous.treeSize current.treeSize with
    | .error message =>
      .error (if message = "" then
        "registry transparency detected inconsistent checkpoint growth" else message)
    | .ok proof =>
      if verifyRegistryMerkleConsistency previous.treeSize.toNat current.treeSize.toNat
          previous.rootHash current.rootHash proof = some true then .ok ()
      else .error "registry transparency detected inconsistent checkpoint growth"

/-- The loop over the chain after its first entry `front`. -/
def checkChain (run : ClientRun) (front previous : CheckpointPin) :
    List CheckpointPin → Except String Unit
  | [] => .ok ()
  | current :: rest =>
    if sameRoot front current = false then
      .error "registry transparency views use different trust roots"
    else
      match run.checkLink previous current with
      | .error message => .error message
      | .ok () => run.checkChain front current rest

/-- The checks that come before the network: the policy and the floor of the lockfile. -/
def checkPolicy (run : ClientRun) (audit : Option AuditCheckpoint) :
    Except String (CheckpointPin × CheckpointPin) :=
  match audit with
  | none => .error "registry transparency policy or snapshot v2 checkpoint is missing"
  | some checkpoint =>
    if run.policy.registryOrigin = [] ∨ run.policy.witnessUrls = [] ∨
        run.policy.witnessKeys = [] ∨
        run.policy.witnessUrls.length < run.policy.witnessThreshold ∨
        run.policy.witnessKeys.length < run.policy.witnessThreshold ∨
        run.policy.witnessThreshold ≤ run.policy.witnessKeys.length / 2 then
      .error "registry transparency policy or snapshot v2 checkpoint is missing"
    else
      let snapshot := pin checkpoint
      let minimum := run.minimumCheckpoint.getD snapshot
      if sameRoot minimum snapshot = false ∨ snapshot.treeSize < minimum.treeSize ∨
          minimum.treeSize = snapshot.treeSize ∧ minimum.rootHash ≠ snapshot.rootHash then
        .error "registry snapshot does not contain the lockfile checkpoint floor"
      else .ok (minimum, snapshot)

/-- What a quorum gives: the snapshot, the statements, and the chain that is to be checked. -/
structure Prepared where
  snapshot : CheckpointPin
  statements : List (Text × WitnessStatement)
  chain : List CheckpointPin

/-- Everything up to the chain. -/
def prepare (crypto : Crypto) (run : ClientRun) (audit : Option AuditCheckpoint) :
    Except String Prepared :=
  match run.checkPolicy audit with
  | .error message => .error message
  | .ok (minimum, snapshot) =>
    match run.liveCheckpoint with
    | .error message => .error message
    | .ok live =>
      if live.treeSize < snapshot.treeSize then
        .error "registry live checkpoint is unavailable or precedes snapshot"
      else
        match run.rootChain with
        | .error message => .error message
        | .ok () =>
          let collected := run.quorum crypto snapshot
          if collected.statements.length < run.policy.witnessThreshold then
            .error ("registry transparency witness quorum reached " ++
              toString collected.statements.length ++ " of " ++
              toString run.policy.witnessThreshold ++
              if collected.firstFailure = "" then "" else ": " ++ collected.firstFailure)
          else
            .ok ⟨snapshot, collected.statements,
              chain minimum snapshot (pin live) collected.statements⟩

/-- The loop over a whole chain. -/
def checkPrepared (run : ClientRun) (prepared : Prepared) : Except String Unit :=
  match prepared.chain with
  | [] => .ok ()
  | front :: rest => run.checkChain front front rest

/-- The pairs hashed for the links of a chain. -/
def chainHashes (run : ClientRun) : List CheckpointPin → List (Text × Text)
  | previous :: current :: rest =>
    (match run.fetchProof previous.treeSize current.treeSize with
      | .error _ => []
      | .ok proof =>
        consistencyHashes previous.treeSize.toNat current.treeSize.toNat previous.rootHash proof) ++
      run.chainHashes (current :: rest)
  | _ => []

/-- The pairs that a run hashes to check proofs. -/
def hashes (crypto : Crypto) (run : ClientRun) : List (Text × Text) :=
  match run.trust with
  | .error _ => []
  | .ok audit =>
    match run.prepare crypto audit with
    | .error _ => []
    | .ok prepared => run.chainHashes prepared.chain

end ClientRun

/-- The online mode of `verifyRegistryClientView`. -/
def verifyRegistryClientView (crypto : Crypto) (run : ClientRun) : Except String ClientView :=
  match run.trust with
  | .error message => .error message
  | .ok audit =>
    if run.policy.witnessThreshold = 0 then
      run.persist.map fun _ => ⟨(audit.map pin).getD {}, []⟩
    else
      match run.prepare crypto audit with
      | .error message => .error message
      | .ok prepared =>
        match run.checkPrepared prepared with
        | .error message => .error message
        | .ok () =>
          run.persist.map fun _ => ⟨prepared.snapshot,
            (prepared.statements.map Prod.fst).insertionSort fun a b => a ≤ b⟩

end Registry

end Chtholly
