import Chtholly.Lease.Tokens

/-!
# Operations and payload transports over a lease

The operations and the payload transports of `next_resource_lease_v2.c`, as a system whose
actions are the parts of its functions that run without interruption.  Most functions are one
action: they hold the mutex of their operation or transport from end to end, and enter the
mutex of the lease once.  Those that call into user code with no mutex held, or that enter the
mutex of the lease twice, are cut there: `send_commit` around the move of the payload,
`receive_take` and `receive_cancel` before they release the lease, `close` between its calls and
around each payload it drops.

The calls follow the rules of the interface: a handle is not used after its destroy, and a
payload token is in the hands of one caller, so that no second call on it starts before the
first has returned.  An allocation can fail whenever one is made, and a callback can refuse.

## Main definitions

* `Lease.World` — a lease, the operations on it, the transports that share it and their payload
  tokens.
* `Lease.Action`, `Lease.step` — the actions and what each does.
-/

set_option autoImplicit false

namespace Chtholly

namespace Lease

/-- The places in memory that hold a resource token: a variable of the host, an operation, or a
payload token. -/
inductive Holder where
  | raw (i : ℕ)
  | operation (i : ℕ)
  | payload (k : ℕ)
  deriving DecidableEq, Repr

inductive OperationState where
  | armed
  | committed
  | failed
  | cancelled
  deriving DecidableEq, Repr

/-- The codes that `complete` accepts, from COMMITTED to CANCELLED. -/
def OperationState.ofTerminal : ℕ → Option OperationState
  | 2 => some .committed
  | 3 => some .failed
  | 4 => some .cancelled
  | _ => none

structure ResourceOperation where
  state : OperationState
  cancelRequested : Bool
  providerActive : Bool
  freed : Bool
  deriving DecidableEq, Repr

/-- The operation still needs its token. -/
def ResourceOperation.busy (op : ResourceOperation) : Bool :=
  op.state = .armed || op.providerActive

variable {P : Type}

/-- How far the calls on a payload token have come. -/
inductive Phase (P : Type) where
  /-- `SEND_PREPARED` -/
  | prepared (source : P)
  /-- `send_commit` moves the payload, with no mutex held. -/
  | moving (source : P)
  /-- `send_commit` has found the transport closed and goes on with `send_cancel`. -/
  | refused
  /-- `RECEIVE_ACQUIRED` -/
  | acquired (node : P)
  /-- `receive_cancel` has dropped the payload and still holds the lease. -/
  | cancelled
  /-- `receive_take` has moved the payload out and still holds the lease. -/
  | taken
  | freed
  deriving DecidableEq

structure PayloadToken (P : Type) where
  transport : ℕ
  phase : Phase P
  deriving DecidableEq

/-- `chtholly_next_payload_transport_v2`.  `queue` is the list from `head` to `tail`, `detached`
the list that a `close` is dropping, and `locked` is set while a `close` keeps the mutex from
one of its calls to the next.  The last five fields record the payloads that went through. -/
structure PayloadTransport (P : Type) where
  capacity : ℕ
  payloadSize : ℕ
  typed : Bool
  size : ℕ := 0
  reservations : ℕ := 0
  closed : Bool := false
  quiesced : Bool := false
  callbacks : ℕ := 0
  queue : List P := []
  detached : List P := []
  locked : Bool := false
  freed : Bool := false
  committed : List P := []
  taken : List P := []
  received : List P := []
  cancelled : List P := []
  discarded : List P := []

/-- The payloads that `payload_drop_node` was called with. -/
def PayloadTransport.dropped (t : PayloadTransport P) : List P := t.cancelled ++ t.discarded

structure World (P : Type) where
  memory : Memory Holder
  leaseFreed : Bool
  raws : ℕ
  operations : List ResourceOperation
  transports : List (PayloadTransport P)
  payloadTokens : List (PayloadToken P)

def World.create (P : Type) (policy : Policy) (descriptorDigest : Digest) : World P :=
  { memory := Memory.create Holder policy descriptorDigest, leaseFreed := false, raws := 0,
    operations := [], transports := [], payloadTokens := [] }

namespace World

def setOperation (w : World P) (i : ℕ) (op : ResourceOperation) : World P :=
  { w with operations := w.operations.set i op }

def setTransport (w : World P) (i : ℕ) (t : PayloadTransport P) : World P :=
  { w with transports := w.transports.set i t }

def setPhase (w : World P) (k i : ℕ) (phase : Phase P) : World P :=
  { w with payloadTokens := w.payloadTokens.set k ⟨i, phase⟩ }

/-- The operation behind a handle that was not destroyed. -/
def operation? (w : World P) (i : ℕ) : Option ResourceOperation :=
  w.operations[i]?.filter fun op => !op.freed

/-- The transport behind a handle that was not destroyed. -/
def transport? (w : World P) (i : ℕ) : Option (PayloadTransport P) :=
  w.transports[i]?.filter fun t => !t.freed

/-- The same, when its mutex can be taken. -/
def lock? (w : World P) (i : ℕ) : Option (PayloadTransport P) :=
  (w.transport? i).filter fun t => !t.locked

/-! ## The lease -/

def acquire (w : World P) (digest : Digest) (memory : Bool) : Status × World P :=
  match w.memory.acquire digest (.raw w.raws) memory with
  | (.ok, m) => (.ok, { w with memory := m, raws := w.raws + 1 })
  | (status, m) => (status, { w with memory := m })

def release (w : World P) (holder : Holder) : Status × World P :=
  ((w.memory.release holder).1, { w with memory := (w.memory.release holder).2 })

def beginClose (w : World P) : Status × World P :=
  (w.memory.beginClose.1, { w with memory := w.memory.beginClose.2 })

def quiesce (w : World P) : Status × World P :=
  (w.memory.quiesce.1, { w with memory := w.memory.quiesce.2 })

def leaseDestroy (w : World P) : Status × World P :=
  if w.memory.lease.state ≠ .closed ∨ w.memory.lease.active ≠ 0 ∨ w.memory.lease.transports ≠ 0
  then (.busy, w)
  else (.ok, { w with leaseFreed := true })

/-! ## Operations -/

/-- `memory` and `recordMemory` tell whether the operation and the record of its token can be
allocated. -/
def operationBegin (w : World P) (digest : Digest) (memory recordMemory : Bool) :
    Status × World P :=
  if !memory then (.outOfMemory, w)
  else match w.memory.acquire digest (.operation w.operations.length) recordMemory with
    | (.ok, m) => (.ok, { w with memory := m, operations := w.operations ++ [⟨.armed, false, false, false⟩] })
    | (status, m) => (status, { w with memory := m })

def operationComplete (w : World P) (i : ℕ) (op : ResourceOperation) (terminalState : ℕ) :
    Status × World P :=
  match op.state, OperationState.ofTerminal terminalState with
  | .armed, some state =>
    let w := w.setOperation i { op with state }
    if op.providerActive then (.ok, w) else w.release (.operation i)
  | _, _ => (.invalidState, w)

def providerEnter (w : World P) (i : ℕ) (op : ResourceOperation) : Status × World P :=
  if op.state = .armed ∧ op.providerActive = false then
    (.ok, w.setOperation i { op with providerActive := true })
  else (.invalidState, w)

def providerLeave (w : World P) (i : ℕ) (op : ResourceOperation) : Status × World P :=
  if op.providerActive then
    let w := w.setOperation i { op with providerActive := false }
    if op.state = .armed then (.ok, w) else w.release (.operation i)
  else (.invalidState, w)

def requestCancel (w : World P) (i : ℕ) (op : ResourceOperation) : Status × World P :=
  (.ok, w.setOperation i { op with cancelRequested := true })

def operationDestroy (w : World P) (i : ℕ) (op : ResourceOperation) : Status × World P :=
  if op.state = .armed ∨ op.providerActive = true then (.busy, w)
  else (.ok, w.setOperation i { op with freed := true })

/-! ## Transports -/

/-- `create` and `create_typed`; `retained` is what `retain_owner` answers for a typed one. -/
def transportCreate (w : World P) (digest : Digest) (capacity payloadSize : ℕ) (typed : Bool)
    (memory retained : Bool) : Status × World P :=
  if typed ∧ !retained then (.callback, w)
  else if !validDigest digest ∨ capacity = 0 ∨ payloadSize = 0 then (.invalidArgument, w)
  else if !memory then (.outOfMemory, w)
  else if w.memory.lease.descriptorDigest ≠ digest then (.stale, w)
  else if w.memory.lease.isClosing then (.closed, w)
  else (.ok, { w with
    memory := w.memory.setTransports (w.memory.lease.transports + 1)
    transports := w.transports ++ [{ capacity, payloadSize, typed }] })

/-- A transport has the digest of its lease, so that is the digest it acquires tokens with. -/
def sendPrepare (w : World P) (i : ℕ) (t : PayloadTransport P) (source : P) (sourceSize : ℕ)
    (memory recordMemory : Bool) : Status × World P :=
  if sourceSize ≠ t.payloadSize then (.invalidArgument, w)
  else if t.closed then (.closed, w)
  else if t.capacity ≤ t.size + t.reservations then (.busy, w)
  else if !memory then (.outOfMemory, w)
  else match w.memory.acquire w.memory.lease.descriptorDigest (.payload w.payloadTokens.length)
      recordMemory with
    | (.ok, m) => (.ok, { w with
        memory := m
        payloadTokens := w.payloadTokens ++ [⟨i, .prepared source⟩]
        transports := w.transports.set i { t with reservations := t.reservations + 1 } })
    | (status, m) => (status, { w with memory := m })

/-- `send_cancel` and `send_fail`. -/
def sendCancel (w : World P) (k i : ℕ) (t : PayloadTransport P) : Status × World P :=
  let w := w.setTransport i { t with reservations := t.reservations - 1 }
  (.ok, ((w.release (.payload k)).2).setPhase k i .freed)

/-- `send_commit` up to the move: from here on the commit is selected.  Without memory the token
stays as it is. -/
def sendCommitSelect (w : World P) (k i : ℕ) (t : PayloadTransport P) (source : P)
    (memory : Bool) : Status × World P :=
  if t.closed then (.closed, w.setPhase k i .refused)
  else if !memory then (.outOfMemory, w)
  else (.ok, w.setPhase k i (.moving source))

/-- `send_commit` after the move. -/
def sendCommitAppend (w : World P) (k i : ℕ) (t : PayloadTransport P) (source : P) :
    Status × World P :=
  let w := w.setTransport i { t with
    queue := t.queue ++ [source]
    size := t.size + 1
    reservations := t.reservations - 1
    committed := t.committed ++ [source] }
  (.ok, ((w.release (.payload k)).2).setPhase k i .freed)

/-- The head is unlinked first; where the token or its lease cannot be had, it is put back. -/
def receiveAcquire (w : World P) (i : ℕ) (t : PayloadTransport P) (memory recordMemory : Bool) :
    Status × World P :=
  match t.queue with
  | [] => (if t.closed then .closed else .notReady, w)
  | node :: rest =>
    let unlinked := { t with queue := rest, size := t.size - 1 }
    let relinked := { unlinked with queue := node :: unlinked.queue, size := unlinked.size + 1 }
    if !memory then (.outOfMemory, w.setTransport i relinked)
    else match w.memory.acquire w.memory.lease.descriptorDigest (.payload w.payloadTokens.length)
        recordMemory with
      | (.ok, m) => (.ok, { w with
          memory := m
          payloadTokens := w.payloadTokens ++ [⟨i, .acquired node⟩]
          transports := w.transports.set i { unlinked with taken := t.taken ++ [node] } })
      | (status, m) => (status, { w.setTransport i relinked with memory := m })

def receiveCommit (w : World P) (k i : ℕ) (t : PayloadTransport P) (node : P)
    (destinationSize : ℕ) : Status × World P :=
  if destinationSize ≠ t.payloadSize then (.invalidArgument, w)
  else if t.typed then (.invalidArgument, w)
  else
    let w := w.setTransport i { t with received := t.received ++ [node] }
    (.ok, ((w.release (.payload k)).2).setPhase k i .freed)

/-- `receive_cancel` and `receive_fail`: the payload is dropped before any mutex is taken. -/
def receiveCancelDrop (w : World P) (k i : ℕ) (t : PayloadTransport P) (node : P) :
    Status × World P :=
  (.ok, (w.setTransport i { t with cancelled := t.cancelled ++ [node] }).setPhase k i .cancelled)

/-- `receive_take`, which moves the payload out before any mutex is taken. -/
def receiveTakeMove (w : World P) (k i : ℕ) (t : PayloadTransport P) (node : P)
    (memory retained : Bool) : Status × World P :=
  if !t.typed then (.invalidState, w)
  else if !memory then (.outOfMemory, w)
  else if !retained then (.callback, w)
  else (.ok, (w.setTransport i { t with received := t.received ++ [node] }).setPhase k i .taken)

/-- The end of `receive_cancel` and of `receive_take`. -/
def receiveRelease (w : World P) (k i : ℕ) : Status × World P :=
  ((w.release (.payload k)).1, ((w.release (.payload k)).2).setPhase k i .freed)

/-! ## Close -/

/-- `close` up to its first call into the lease; it keeps the mutex. -/
def closeBegin (w : World P) (i : ℕ) (t : PayloadTransport P) : Status × World P :=
  if t.quiesced then (.alreadyClosed, w)
  else if t.closed then (.ok, w.setTransport i { t with locked := true })
  else (.ok, (w.setTransport i { t with closed := true, locked := true }).beginClose.2)

/-- `close` reads the count of active tokens and detaches the queue. -/
def closeDetach (w : World P) (i : ℕ) (t : PayloadTransport P) : Status × World P :=
  if t.callbacks ≠ 0 ∨ w.memory.lease.active ≠ 0 then
    (.notReady, w.setTransport i { t with locked := false })
  else (.ok, w.setTransport i { t with
    detached := t.queue, queue := [], size := 0, callbacks := t.callbacks + 1, locked := false })

/-- One turn of the loop of `close`, with no mutex held. -/
def closeDropNode (w : World P) (i : ℕ) (t : PayloadTransport P) (node : P) (rest : List P) :
    Status × World P :=
  (.ok, w.setTransport i { t with detached := rest, discarded := t.discarded ++ [node] })

/-- The end of `close`, when its list is empty. -/
def closeFinish (w : World P) (i : ℕ) (t : PayloadTransport P) : Status × World P :=
  let status := w.memory.quiesce.1
  (status, (w.setTransport i { t with
    callbacks := t.callbacks - 1
    quiesced := if status = .ok then true else t.quiesced }).quiesce.2)

def transportDestroy (w : World P) (i : ℕ) (t : PayloadTransport P) : Status × World P :=
  if t.quiesced = false ∨ w.memory.lease.active ≠ 0 ∨ t.size ≠ 0 then (.busy, w)
  else (.ok, { w.setTransport i { t with freed := true } with
    memory := w.memory.setTransports (w.memory.lease.transports + (2 ^ 32 - 1)) })

end World

/-! ## The system -/

/-- The actions.  The numbers are handles: of a token in a variable of the host, an operation, a
transport, or a payload token. -/
inductive Action (P : Type) where
  | acquire (digest : Digest) (memory : Bool)
  | release (i : ℕ)
  | beginClose
  | quiesce
  | leaseDestroy
  | operationBegin (digest : Digest) (memory recordMemory : Bool)
  | operationComplete (i terminalState : ℕ)
  | providerEnter (i : ℕ)
  | providerLeave (i : ℕ)
  | requestCancel (i : ℕ)
  | operationDestroy (i : ℕ)
  | transportCreate (digest : Digest) (capacity payloadSize : ℕ) (typed memory retained : Bool)
  | sendPrepare (i : ℕ) (source : P) (sourceSize : ℕ) (memory recordMemory : Bool)
  | sendCommitSelect (k : ℕ) (memory : Bool)
  | sendCommitAppend (k : ℕ)
  | sendCancel (k : ℕ)
  | receiveAcquire (i : ℕ) (memory recordMemory : Bool)
  | receiveCommit (k destinationSize : ℕ)
  | receiveCancelDrop (k : ℕ)
  | receiveTakeMove (k : ℕ) (memory retained : Bool)
  | receiveRelease (k : ℕ)
  | closeBegin (i : ℕ)
  | closeDetach (i : ℕ)
  | closeDropNode (i : ℕ)
  | closeFinish (i : ℕ)
  | transportDestroy (i : ℕ)

/-- What an action answers and does; `none` where it cannot be taken, because its call is not at
that point or the mutex it needs is held. -/
def answer (w : World P) : Action P → Option (Status × World P)
  | .acquire digest memory => some (w.acquire digest memory)
  | .release i => if i < w.raws then some (w.release (.raw i)) else none
  | .beginClose => some w.beginClose
  | .quiesce => some w.quiesce
  | .leaseDestroy => some w.leaseDestroy
  | .operationBegin digest memory recordMemory => some (w.operationBegin digest memory recordMemory)
  | .operationComplete i terminalState =>
    (w.operation? i).map fun op => w.operationComplete i op terminalState
  | .providerEnter i => (w.operation? i).map fun op => w.providerEnter i op
  | .providerLeave i => (w.operation? i).map fun op => w.providerLeave i op
  | .requestCancel i => (w.operation? i).map fun op => w.requestCancel i op
  | .operationDestroy i => (w.operation? i).map fun op => w.operationDestroy i op
  | .transportCreate digest capacity payloadSize typed memory retained =>
    some (w.transportCreate digest capacity payloadSize typed memory retained)
  | .sendPrepare i source sourceSize memory recordMemory =>
    (w.lock? i).map fun t => w.sendPrepare i t source sourceSize memory recordMemory
  | .sendCommitSelect k memory =>
    match w.payloadTokens[k]? with
    | some ⟨i, .prepared source⟩ =>
      (w.lock? i).map fun t => w.sendCommitSelect k i t source memory
    | _ => none
  | .sendCommitAppend k =>
    match w.payloadTokens[k]? with
    | some ⟨i, .moving source⟩ => (w.lock? i).map fun t => w.sendCommitAppend k i t source
    | _ => none
  | .sendCancel k =>
    match w.payloadTokens[k]? with
    | some ⟨i, .prepared _⟩ => (w.lock? i).map fun t => w.sendCancel k i t
    | some ⟨i, .refused⟩ => (w.lock? i).map fun t => w.sendCancel k i t
    | _ => none
  | .receiveAcquire i memory recordMemory =>
    (w.lock? i).map fun t => w.receiveAcquire i t memory recordMemory
  | .receiveCommit k destinationSize =>
    match w.payloadTokens[k]? with
    | some ⟨i, .acquired node⟩ => (w.lock? i).map fun t => w.receiveCommit k i t node destinationSize
    | _ => none
  | .receiveCancelDrop k =>
    match w.payloadTokens[k]? with
    | some ⟨i, .acquired node⟩ => (w.transport? i).map fun t => w.receiveCancelDrop k i t node
    | _ => none
  | .receiveTakeMove k memory retained =>
    match w.payloadTokens[k]? with
    | some ⟨i, .acquired node⟩ =>
      (w.transport? i).map fun t => w.receiveTakeMove k i t node memory retained
    | _ => none
  | .receiveRelease k =>
    match w.payloadTokens[k]? with
    | some ⟨i, .cancelled⟩ => (w.lock? i).map fun _ => w.receiveRelease k i
    | some ⟨i, .taken⟩ => (w.lock? i).map fun _ => w.receiveRelease k i
    | _ => none
  | .closeBegin i => (w.lock? i).map fun t => w.closeBegin i t
  | .closeDetach i => ((w.transport? i).filter (·.locked)).map fun t => w.closeDetach i t
  | .closeDropNode i =>
    (w.transport? i).bind fun t =>
      match t.detached with
      | [] => none
      | node :: rest => some (w.closeDropNode i t node rest)
  | .closeFinish i =>
    ((w.lock? i).filter fun t => t.callbacks ≠ 0 && t.detached.isEmpty).map fun t =>
      w.closeFinish i t
  | .transportDestroy i => (w.transport? i).map fun t => w.transportDestroy i t

/-- The calls on an operation look at the lease only where they release it. -/
def Action.onOperation : Action P → Bool
  | .operationComplete .. => true
  | .providerEnter _ => true
  | .providerLeave _ => true
  | .requestCancel _ => true
  | .operationDestroy _ => true
  | _ => false

/-- What an action does.  After the lease is destroyed, only its operations are left. -/
def step (w : World P) (action : Action P) : Option (World P) :=
  if w.leaseFreed && !action.onOperation then none else (answer w action).map Prod.snd

end Lease

end Chtholly
