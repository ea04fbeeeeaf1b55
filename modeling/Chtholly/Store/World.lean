import Mathlib.Data.List.Perm.Basic
import Chtholly.Store.Collect

/-!
# Sessions on one store

Sessions acquire leases, publish, collect and release, each under the lock of the store; only the
validation of a publication runs before it.  A publication that has been validated waits for the
lock, and any steps of other sessions may come in between.

A lease file is active while the process that acquired it holds the lock of the file.  A session
without a reference gets a lease without a file.

## Main definitions

* `Store.LeaseHandle` — a lease in the hands of a session.
* `Store.World` — the store with its sessions.
* `Store.Action`, `Store.step`, `Store.run` — the steps, and runs of them.
-/

set_option autoImplicit false

namespace Chtholly

namespace Store

open Registry (Text Bytes)
open Incremental

/-- `CompilerArtifactLease::Impl`. -/
structure LeaseHandle where
  sessionKey : Text
  expectedTarget : Text
  expectedRoot : Text
  observedReference : Option SessionReference
  /-- The lease file, whose lock is held. -/
  leasePath : Option StableFingerprint
  active : Bool := true
  deriving DecidableEq

/-- `CompilerArtifactLease::valid`. -/
def LeaseHandle.valid (handle : LeaseHandle) : Bool :=
  handle.active && (handle.observedReference.isNone || handle.leasePath.isSome)

structure World where
  files : Files := {}
  /-- The session references, by key. -/
  references : List (Text × SessionReference) := []
  /-- The lease files. -/
  leases : List (StableFingerprint × Lease) := []
  handles : List LeaseHandle := []
  /-- The publications that have been validated and wait for the lock, each with its handle. -/
  pending : List (ℕ × Prepared) := []

namespace World

/-- `loadCurrentReference`. -/
def reference (world : World) (sessionKey : Text) : Option SessionReference :=
  (world.references.find? fun entry => entry.1 == sessionKey).map Prod.snd

/-- The file of the reference is replaced. -/
def setReference (world : World) (sessionKey : Text) (reference : SessionReference) : World :=
  { world with
    references :=
      (sessionKey, reference) :: world.references.filter fun entry => entry.1 != sessionKey }

/-- `probeLease`: some handle has the lock of the file. -/
def isLocked (world : World) (lease : StableFingerprint) : Bool :=
  world.handles.any fun handle => handle.active && handle.leasePath == some lease

/-- `retireUnderStoreLock`: the lock is closed, and the file is removed, which may fail. -/
def retire (world : World) (index : ℕ) (removed : Bool) : World :=
  match world.handles[index]? with
  | none => world
  | some handle =>
    if handle.active then
      { world with
        handles := world.handles.set index { handle with leasePath := none, active := false }
        leases :=
          if removed then
            world.leases.filter fun entry => handle.leasePath != some entry.1
          else world.leases }
    else world

end World

/-! ## Steps -/

/-- How the allocation of a lease file ends. -/
inductive Allocation
  | granted
  | writeFails
  /-- The file could not be locked; what was written may stay. -/
  | lockFails (removed : Bool)
  deriving DecidableEq

/-- How far a collection comes that fails after marking. -/
structure Interruption where
  lease : StableFingerprint → Bool
  file : ArtifactName → Text → Bool

inductive Action
  | acquire (sessionKey expectedTarget expectedRoot : Text) (lease : StableFingerprint)
      (allocation : Allocation) (depth : ℕ)
  /-- The part of `publish` before the lock. -/
  | validate (handle : ℕ) (publication : Publication)
  /-- The part of `publish` under the lock, for a publication that waits.  The files are written
  as far as `budget` goes; `replaced` says whether the reference could be written. -/
  | commit (index : ℕ) (depth budget : ℕ) (replaced removed : Bool)
  /-- A collection that sees the references and leases in the given order. -/
  | collect (references : List (Text × SessionReference))
      (leases : List (StableFingerprint × Lease)) (interruption : Option Interruption) (depth : ℕ)
  | release (handle : ℕ) (removed : Bool)
  /-- The process of a handle ends. -/
  | crash (handle : ℕ)

/-- What a step leaves, and how it ends. -/
abbrev Outcome := World × Except String Unit

def validHexKey (value : Text) : Bool :=
  value.length == 64 && value.all fun ch => ('0' ≤ ch && ch ≤ '9') || ('a' ≤ ch && ch ≤ 'f')

/-- `acquireLease` with the preparation of the lease file. -/
def World.acquire (codec : ArtifactCodec) (world : World)
    (sessionKey expectedTarget expectedRoot : Text) (lease : StableFingerprint)
    (allocation : Allocation) (depth : ℕ) : Outcome :=
  if !validHexKey sessionKey || expectedTarget.isEmpty || expectedRoot.isEmpty ||
      hasInvalidFieldCharacter expectedTarget || hasInvalidFieldCharacter expectedRoot then
    (world, .error "cannot acquire an invalid compiler artifact lease")
  else
    let handle (path : Option StableFingerprint) : LeaseHandle :=
      { sessionKey := sessionKey
        expectedTarget := expectedTarget
        expectedRoot := expectedRoot
        observedReference := world.reference sessionKey
        leasePath := path }
    match world.reference sessionKey with
    | none => ({ world with handles := world.handles ++ [handle none] }, .ok ())
    | some reference =>
      if reference.targetTriple ≠ expectedTarget ∨ reference.rootPackage ≠ expectedRoot then
        (world, .error "compiler session reference has an invalid build identity")
      else
        match verifyReferenceClosure codec false depth world.files {} reference with
        | .error message => (world, .error message)
        | .ok _ =>
          if world.leases.any fun entry => entry.1 == lease then
            (world, .error "failed to allocate a unique compiler artifact lease")
          else
            let leases :=
              (lease, ⟨sessionKey, expectedTarget, expectedRoot, reference.rootManifest⟩) ::
                world.leases
            match allocation with
            | .writeFails => (world, .error "failed to publish compiler artifact")
            | .lockFails true => (world, .error "failed to lock compiler artifact lease")
            | .lockFails false =>
              ({ world with leases }, .error "failed to lock compiler artifact lease")
            | .granted =>
              ({ world with leases, handles := world.handles ++ [handle (some lease)] }, .ok ())

/-- `publish` up to the lock. -/
def World.validate (codec : ArtifactCodec) (world : World) (index : ℕ)
    (publication : Publication) : Outcome :=
  match world.handles[index]? with
  | none => (world, .error "cannot publish through an invalid compiler artifact lease")
  | some handle =>
    if !handle.valid || publication.rootManifest.packageName != handle.expectedRoot ||
        publication.rootManifest.targetTriple != handle.expectedTarget then
      (world, .error "cannot publish through an invalid compiler artifact lease")
    else
      match publication.rootManifest.verify codec.toCodec with
      | .error message => (world, .error message)
      | .ok _ =>
        match publication.validate codec world.files handle.expectedTarget with
        | .error message => (world, .error message)
        | .ok prepared => ({ world with pending := world.pending ++ [(index, prepared)] }, .ok ())

/-- `publish` under the lock, for the publication of a handle. -/
def World.publish (codec : ArtifactCodec) (world : World) (index : ℕ) (handle : LeaseHandle)
    (prepared : Prepared) (depth budget : ℕ) (replaced removed : Bool) : Outcome :=
  if world.reference handle.sessionKey ≠ handle.observedReference then
    (world, .error ("compiler artifact publication conflict: the session root changed " ++
      "during compilation; retry the build"))
  else
    match verifyComponents codec depth world.files prepared with
    | .error message => (world, .error message)
    | .ok _ =>
      match world.files.performAll codec budget prepared.writes with
      | (.error message, files) => ({ world with files }, .error message)
      | (.ok _, files) =>
        if replaced then
          (({ world with files }.setReference handle.sessionKey prepared.reference).retire index
            removed, .ok ())
        else ({ world with files }, .error "failed to publish compiler artifact")

def World.commit (codec : ArtifactCodec) (world : World) (waiting depth budget : ℕ)
    (replaced removed : Bool) : Outcome :=
  match world.pending[waiting]? with
  | none => (world, .error "no publication waits for the store lock")
  | some (index, prepared) =>
    match world.handles[index]? with
    | none => (world, .error "no publication waits for the store lock")
    | some handle =>
      { world with pending := world.pending.eraseIdx waiting }.publish codec index handle prepared
        depth budget replaced removed

/-- `collectGarbage`. -/
def World.collect (codec : ArtifactCodec) (world : World)
    (references : List (Text × SessionReference)) (leases : List (StableFingerprint × Lease))
    (interruption : Option Interruption) (depth : ℕ) : Outcome :=
  if references.Perm world.references ∧ leases.Perm world.leases then
    match markAll codec depth world.files references
        (leases.filter fun entry => world.isLocked entry.1) with
    | .error message => (world, .error message)
    | .ok reachable =>
      match interruption with
      | none =>
        ({ world with
            files := world.files.sweep reachable fun _ _ => false
            leases := world.leases.filter fun entry => world.isLocked entry.1 }, .ok ())
      | some interruption =>
        ({ world with
            files := world.files.sweep reachable interruption.file
            leases := world.leases.filter fun entry =>
              world.isLocked entry.1 || interruption.lease entry.1 },
          .error "failed to quarantine unreachable compiler artifact")
  else (world, .error "the store has other references and leases")

/-- The destructor of a lease that no publication uses. -/
def World.release (world : World) (index : ℕ) (removed : Bool) : Outcome :=
  if world.pending.any fun entry => entry.1 == index then
    (world, .error "a publication uses the lease")
  else (world.retire index removed, .ok ())

/-- The process of a lease ends: its publications are gone, and its lock is. -/
def World.crash (world : World) (index : ℕ) : Outcome :=
  ({ world with pending := world.pending.filter fun entry => entry.1 != index }.retire index false,
    .ok ())

def step (codec : ArtifactCodec) (world : World) : Action → Outcome
  | .acquire sessionKey expectedTarget expectedRoot lease allocation depth =>
    world.acquire codec sessionKey expectedTarget expectedRoot lease allocation depth
  | .validate handle publication => world.validate codec handle publication
  | .commit index depth budget replaced removed =>
    world.commit codec index depth budget replaced removed
  | .collect references leases interruption depth =>
    world.collect codec references leases interruption depth
  | .release handle removed => world.release handle removed
  | .crash handle => world.crash handle

/-- The world after the steps of a run. -/
def run (codec : ArtifactCodec) (world : World) : List Action → World
  | [] => world
  | action :: actions => run codec (step codec world action).1 actions

/-! ## What is to hold -/

/-- The root manifests of the references and of the active leases. -/
def World.Root (world : World) (name : ArtifactName) : Prop :=
  (∃ entry ∈ world.references, name = .manifest entry.2.rootManifest) ∨
    ∃ entry ∈ world.leases, world.isLocked entry.1 = true ∧
      name = .manifest entry.2.rootManifest

/-- All that is reachable from a reference or an active lease is there, with the content that its
fingerprint names. -/
def World.Closed (codec : ArtifactCodec) (world : World) : Prop :=
  Tracing.ClosedFrom world.files.edges (world.files.Holds codec) world.Root

end Store

end Chtholly
