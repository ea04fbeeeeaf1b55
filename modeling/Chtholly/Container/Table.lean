import Mathlib.Algebra.Group.Nat.Defs
import Mathlib.Data.List.Basic
import Mathlib.Data.Int.Notation
import Mathlib.Data.Nat.Notation

/-!
# The runtime hash table

The open-addressing table behind the language's maps and sets
(`runtime/src/Core/next_container_v1.c`).  A slot is empty, occupied or a tombstone; a lookup
follows the triangular probe sequence of the key's hash until it meets the key or an empty
slot.  The table never owns memory or objects by itself: hashing, comparing, moving and dropping
keys and values are callbacks of a vtable, and storage comes from `calloc` and `malloc`.

The callbacks that move and drop objects are modelled by what they do to the slots and by a
trace of `Call`s, so that the ownership of every key and value can be followed.  Whether an
allocation or `rehash_begin` fails is an input (`Outcome`) of the operation that asks.

## Main definitions

* `Container.Vtable` — a valid descriptor, with the contract of its `hash` and `equal`.
* `Container.Table`, `Container.Slot` — the table as `init` and the operations leave it.
* `Container.reserve`, `find`, `insert`, `erase`, `clear`, `destroy` — the operations.
* `Container.Op`, `Container.State.step`, `Container.run` — sequences of operations.

## Implementation notes

The metadata byte of a slot and the objects in it are one value of type `Slot`: the code reads
the key and value arrays only where the metadata says `OCCUPIED`.  A slot number that the code
initialises to `UINT64_MAX` is an `Option`.  A pointer argument that may be `NULL` is an
`Option`, or a `Bool` where only its presence matters.  The notifications `borrow_invalidate`,
`rehash_commit` and `rehash_abort` return nothing and are left out.
-/

set_option autoImplicit false

namespace Chtholly

namespace Container

/-- `UINT64_MAX`. -/
def uint64Max : ℕ := 2 ^ 64 - 1

/-- The status codes; `other` is a code of its own that a `rehash_begin` callback returns. -/
inductive Status
  | ok
  | notFound
  | outOfMemory
  | capacityOverflow
  | invalidDescriptor
  | invalidArgument
  | generationOverflow
  | other (code : ℤ)
  deriving Repr, DecidableEq

/-- What the table reads of a descriptor that `valid` accepts, for a host with pointers of
`pointerBits` bits.  The laws are the contract of the two callbacks: `equal` is an equivalence
and equal keys have the same hash. -/
structure Vtable (K : Type) where
  pointerBits : ℕ
  keySize : ℕ
  valueSize : ℕ
  hash : K → UInt64 → UInt64
  equal : K → K → Bool
  pointerBits_eq : pointerBits = 32 ∨ pointerBits = 64
  keySize_pos : 0 < keySize
  valueSize_pos : 0 < valueSize
  equal_refl : ∀ k, equal k k = true
  equal_symm : ∀ {k l}, equal k l = true → equal l k = true
  equal_trans : ∀ {k l m}, equal k l = true → equal l m = true → equal k m = true
  hash_eq : ∀ {k l} (seed : UInt64), equal k l = true → hash k seed = hash l seed

/-- The metadata byte of a slot. -/
inductive Meta
  | empty
  | occupied
  | deleted
  deriving Repr, DecidableEq

/-- A slot: its metadata and, where that is `OCCUPIED`, its objects. -/
inductive Slot (K V : Type)
  | empty
  | occupied (key : K) (value : V)
  | deleted
  deriving Repr, DecidableEq

/-- The table, `chtholly_next_container_v1_table`. -/
structure Table (K V : Type) where
  slots : List (Slot K V)
  size : ℕ
  capacity : ℕ
  deleted : ℕ
  generation : ℕ
  seed : UInt64
  deriving Repr, DecidableEq

/-- One call of a callback that moves or drops an object.  `In` moves from the caller's object
into a slot, `Out` from a slot into the caller's buffer, `relocate` from an old slot to a new
one; `dropKey` and `dropValue` are about objects of slots. -/
inductive Call (K V : Type)
  | moveKeyIn (key : K)
  | moveValueIn (value : V)
  | moveValueOut (value : V)
  | relocateKey (key : K)
  | relocateValue (value : V)
  | dropKey (key : K)
  | dropValue (value : V)
  | dropCallerKey (key : K)
  deriving Repr, DecidableEq

/-- What the environment answers during one operation: whether the three `calloc`s and the
`malloc` return memory, and the status of `rehash_begin` (`ok` where the vtable has none). -/
structure Outcome where
  arrays : Bool
  rehashBegin : Status
  relocation : Bool
  deriving Repr, DecidableEq

/-- What an operation returns and leaves: `flag` is what it writes to `*replaced` or
`*removed`. -/
structure Reply (K V : Type) where
  status : Status
  table : Table K V
  calls : List (Call K V)
  flag : Option Bool
  deriving Repr, DecidableEq

variable {K V : Type}

/-- `SIZE_MAX`. -/
def Vtable.sizeMax (vt : Vtable K) : ℕ := 2 ^ vt.pointerBits - 1

def Slot.metadata : Slot K V → Meta
  | .empty => .empty
  | .occupied _ _ => .occupied
  | .deleted => .deleted

/-- The pair in a slot. -/
def Slot.entry : Slot K V → Option (K × V)
  | .occupied k v => some (k, v)
  | _ => none

def Table.slotAt (t : Table K V) (i : ℕ) : Slot K V := t.slots.getD i .empty

/-- The hash of a key, as the number that is probed with. -/
def Table.hashOf (vt : Vtable K) (t : Table K V) (key : K) : ℕ := (vt.hash key t.seed).toNat

/-- The slot of a step, in 64-bit arithmetic. -/
def probe (hash step capacity : ℕ) : ℕ :=
  let offset := (step + step * step) % 2 ^ 64
  ((hash + offset / 2) % 2 ^ 64) &&& (capacity - 1)

def bumpGeneration (t : Table K V) : Status × Table K V :=
  if t.generation = uint64Max then (.generationOverflow, t)
  else (.ok, { t with generation := t.generation + 1 })

/-- `init` of a valid descriptor. -/
def init (seed : UInt64) : Table K V :=
  { slots := [], size := 0, capacity := 0, deleted := 0, generation := 0, seed }

def dropSlots (t : Table K V) : List (Call K V) :=
  t.slots.flatMap fun
    | .occupied k v => [.dropKey k, .dropValue v]
    | _ => []

def destroy (t : Table K V) : List (Call K V) × Table K V := (dropSlots t, init 0)

/-! ## Growing -/

/-- The loop of `reserve` that doubles the capacity; from 8 on it ends within 61 rounds. -/
def growCapacity (requested : ℕ) : ℕ → ℕ → Option ℕ
  | 0, _ => none
  | n + 1, capacity =>
    if capacity < requested then
      if capacity > uint64Max / 2 then none else growCapacity requested n (capacity * 2)
    else some capacity

/-- `allocate_arrays`.  Three arrays that are alive at once need that many addresses, so the
`calloc`s cannot all succeed beyond that. -/
def allocateArrays (vt : Vtable K) (o : Outcome) (capacity : ℕ) : Bool :=
  capacity ≤ vt.sizeMax / vt.keySize && capacity ≤ vt.sizeMax / vt.valueSize && o.arrays &&
    capacity + capacity * vt.keySize + capacity * vt.valueSize ≤ 2 ^ vt.pointerBits

/-- The inner loop of the relocation: the first empty slot on the way. -/
def emptySlot (metadata : List Meta) (hash capacity : ℕ) : ℕ → ℕ → Option ℕ
  | 0, _ => none
  | n + 1, step =>
    if metadata.getD (probe hash step capacity) .empty = .empty then
      some (probe hash step capacity)
    else emptySlot metadata hash capacity n (step + 1)

/-- The loop that chooses the new slot of every object, on the metadata alone. -/
def relocation (vt : Vtable K) (t : Table K V) (capacity : ℕ) :
    List (Slot K V) → List Meta → Option (List ℕ)
  | [], _ => some []
  | .occupied k _ :: rest, metadata =>
    match emptySlot metadata (t.hashOf vt k) capacity capacity 0 with
    | none => none
    | some slot =>
      (relocation vt t capacity rest (metadata.set slot .occupied)).map (slot :: ·)
  | _ :: rest, metadata => relocation vt t capacity rest metadata

/-- The loop that moves the objects to the slots chosen for them. -/
def moveObjects : List (Slot K V) → List ℕ → List (Slot K V) → List (Slot K V)
  | .occupied k v :: rest, slot :: more, slots => moveObjects rest more (slots.set slot (.occupied k v))
  | .occupied _ _ :: _, [], slots => slots
  | _ :: rest, chosen, slots => moveObjects rest chosen slots
  | [], _, slots => slots

def relocateCalls (t : Table K V) : List (Call K V) :=
  t.slots.flatMap fun
    | .occupied k v => [.relocateKey k, .relocateValue v]
    | _ => []

/-- A reply that changed nothing. -/
def Reply.unchanged (status : Status) (t : Table K V) : Reply K V :=
  { status, table := t, calls := [], flag := none }

/-- The end of `reserve`, when every fallible step is complete. -/
def commitRehash (t : Table K V) (capacity : ℕ) (chosen : List ℕ) : Reply K V :=
  let candidate := { t with
    slots := moveObjects t.slots chosen (List.replicate capacity .empty)
    capacity := capacity, size := chosen.length, deleted := 0 }
  { status := (bumpGeneration candidate).1, table := (bumpGeneration candidate).2
    calls := relocateCalls t, flag := none }

/-- `reserve` once the new capacity is known. -/
def rehash (vt : Vtable K) (o : Outcome) (t : Table K V) (capacity : ℕ) : Reply K V :=
  if vt.sizeMax < capacity then .unchanged .capacityOverflow t
  else if allocateArrays vt o capacity = false then .unchanged .outOfMemory t
  else if o.rehashBegin ≠ .ok then .unchanged o.rehashBegin t
  else if t.size ≠ 0 ∧ vt.sizeMax / 8 < t.size then .unchanged .capacityOverflow t
  else if t.size ≠ 0 ∧ o.relocation = false then .unchanged .outOfMemory t
  else
    match relocation vt t capacity t.slots (List.replicate capacity .empty) with
    | none => .unchanged .capacityOverflow t
    | some chosen => commitRehash t capacity chosen

def reserve (vt : Vtable K) (o : Outcome) (t : Table K V) (requested : ℕ) : Reply K V :=
  if requested ≤ t.capacity then .unchanged .ok t
  else if t.generation = uint64Max then .unchanged .generationOverflow t
  else
    match growCapacity requested 64 (if t.capacity = 0 then 8 else t.capacity) with
    | none => .unchanged .capacityOverflow t
    | some capacity => rehash vt o t capacity

/-! ## Looking up -/

/-- The loop of `find_slot`. -/
def findSlotFrom (vt : Vtable K) (t : Table K V) (key : K) : ℕ → ℕ → Option ℕ
  | 0, _ => none
  | n + 1, step =>
    let slot := probe (t.hashOf vt key) step t.capacity
    match t.slotAt slot with
    | .empty => none
    | .occupied k _ =>
      if t.hashOf vt k = t.hashOf vt key ∧ vt.equal k key = true then some slot
      else findSlotFrom vt t key n (step + 1)
    | .deleted => findSlotFrom vt t key n (step + 1)

def findSlot (vt : Vtable K) (t : Table K V) (key : K) : Option ℕ :=
  if t.capacity = 0 then none else findSlotFrom vt t key t.capacity 0

/-- The value that `find` points to, for a key that is not `NULL`. -/
def find (vt : Vtable K) (t : Table K V) (key : K) : Option V :=
  (findSlot vt t key).bind fun slot => (t.slotAt slot).entry.map Prod.snd

/-! ## Inserting -/

/-- Where the loop of `insert` ends: at an empty slot, at the slot of an equal key, or after as
many steps as there are slots; with the first tombstone on the way. -/
inductive Landing
  | empty (slot : ℕ) (tombstone : Option ℕ)
  | same (slot : ℕ)
  | exhausted (tombstone : Option ℕ)
  deriving Repr, DecidableEq

/-- The loop of `insert`. -/
def landing (vt : Vtable K) (t : Table K V) (key : K) : ℕ → ℕ → Option ℕ → Landing
  | 0, _, tombstone => .exhausted tombstone
  | n + 1, step, tombstone =>
    let slot := probe (t.hashOf vt key) step t.capacity
    match t.slotAt slot with
    | .empty => .empty slot tombstone
    | .deleted => landing vt t key n (step + 1) (tombstone.or (some slot))
    | .occupied k _ =>
      if t.hashOf vt k = t.hashOf vt key ∧ vt.equal k key = true then .same slot
      else landing vt t key n (step + 1) tombstone

/-- Move the caller's key and value into a slot that holds no objects. -/
def store (t : Table K V) (slot : ℕ) (tombstone : Bool) (key : K) (value : V) : Reply K V :=
  let stored := { t with
    slots := t.slots.set slot (.occupied key value)
    deleted := if tombstone then t.deleted - 1 else t.deleted
    size := t.size + 1 }
  { status := (bumpGeneration stored).1, table := (bumpGeneration stored).2
    calls := [.moveKeyIn key, .moveValueIn value], flag := some false }

/-- Replace the value of a slot that holds an equal key; the caller's key is dropped. -/
def replace (t : Table K V) (slot : ℕ) (replacedValue : Bool) (key : K) (value : V) :
    Reply K V :=
  match t.slotAt slot with
  | .occupied k old =>
    let stored := { t with slots := t.slots.set slot (.occupied k value) }
    { status := (bumpGeneration stored).1, table := (bumpGeneration stored).2
      calls := [if replacedValue then .moveValueOut old else .dropValue old,
        .moveValueIn value, .dropCallerKey key]
      flag := some true }
  | _ => .unchanged .ok t

/-- The part of `insert` after the table had its chance to grow. -/
def insertGrown (vt : Vtable K) (t : Table K V) (key : K) (value : V) (replacedValue : Bool) :
    Reply K V :=
  match landing vt t key t.capacity 0 none with
  | .empty slot tombstone =>
    if t.generation = uint64Max then
      { status := .generationOverflow, table := t, calls := [], flag := some false }
    else store t (tombstone.getD slot) tombstone.isSome key value
  | .same slot => replace t slot replacedValue key value
  | .exhausted (some tombstone) => store t tombstone true key value
  | .exhausted none => { status := .capacityOverflow, table := t, calls := [], flag := some false }

/-- The condition under which `insert` asks for a larger table first. -/
def needsGrowth (t : Table K V) : Bool :=
  t.capacity = 0 || uint64Max - t.deleted < t.size ||
    (t.capacity ≤ uint64Max / 3 && t.capacity * 3 / 4 ≤ t.size + t.deleted) ||
    uint64Max / 3 < t.capacity

/-- `insert` of a key and a value that are not `NULL`. -/
def insertPair (vt : Vtable K) (o : Outcome) (t : Table K V) (key : K) (value : V)
    (replacedValue : Bool) : Reply K V :=
  if t.generation = uint64Max then .unchanged .generationOverflow t
  else if needsGrowth t then
    if uint64Max / 2 < t.capacity then
      { status := .capacityOverflow, table := t, calls := [], flag := some false }
    else
      let grown := reserve vt o t (if t.capacity = 0 then 8 else t.capacity * 2)
      if grown.status ≠ .ok then { grown with flag := some false }
      else
        let reply := insertGrown vt grown.table key value replacedValue
        { reply with calls := grown.calls ++ reply.calls }
  else insertGrown vt t key value replacedValue

def insert (vt : Vtable K) (o : Outcome) (t : Table K V) (key : Option K) (value : Option V)
    (replacedValue replaced : Bool) : Reply K V :=
  match key, value, replaced with
  | some k, some v, true => insertPair vt o t k v replacedValue
  | _, _, _ => .unchanged .invalidArgument t

/-! ## Erasing and clearing -/

/-- Empty a slot that holds objects, leaving a tombstone. -/
def bury (t : Table K V) (slot : ℕ) (removedValue : Bool) : Reply K V :=
  match t.slotAt slot with
  | .occupied k old =>
    let buried := { t with
      slots := t.slots.set slot .deleted, size := t.size - 1, deleted := t.deleted + 1 }
    { status := (bumpGeneration buried).1, table := (bumpGeneration buried).2
      calls := [if removedValue then .moveValueOut old else .dropValue old, .dropKey k]
      flag := some true }
  | _ => .unchanged .ok t

def erase (vt : Vtable K) (t : Table K V) (key : Option K) (removedValue removed : Bool) :
    Reply K V :=
  match key, removed with
  | some k, true =>
    if t.generation = uint64Max then .unchanged .generationOverflow t
    else
      match findSlot vt t k with
      | none => { status := .notFound, table := t, calls := [], flag := some false }
      | some slot => bury t slot removedValue
  | _, _ => .unchanged .invalidArgument t

def clear (t : Table K V) : Reply K V :=
  if t.generation = uint64Max then .unchanged .generationOverflow t
  else
    let cleared := { t with slots := t.slots.map fun _ => .empty, size := 0, deleted := 0 }
    { status := (bumpGeneration cleared).1, table := (bumpGeneration cleared).2
      calls := dropSlots t, flag := none }

/-! ## Sequences of operations -/

/-- The operations on a table that `init` has set up. -/
inductive Op (K V : Type)
  | reserve (requested : ℕ)
  | insert (key : Option K) (value : Option V) (replacedValue replaced : Bool)
  | find (key : Option K) (value : Bool)
  | erase (key : Option K) (removedValue removed : Bool)
  | clear
  deriving Repr, DecidableEq

/-- The status of `find`; the value is that of `Container.find`. -/
def findStatus (vt : Vtable K) (t : Table K V) (key : Option K) (value : Bool) : Status :=
  match key, value with
  | some k, true => if (findSlot vt t k).isSome then .ok else .notFound
  | _, _ => .invalidArgument

def perform (vt : Vtable K) (o : Outcome) (t : Table K V) : Op K V → Reply K V
  | .reserve requested => reserve vt o t requested
  | .insert key value replacedValue replaced => insert vt o t key value replacedValue replaced
  | .find key value => .unchanged (findStatus vt t key value) t
  | .erase key removedValue removed => erase vt t key removedValue removed
  | .clear => clear t

/-- A table with every callback call so far and the operations with their statuses, the latest
first. -/
structure State (K V : Type) where
  table : Table K V
  calls : List (Call K V)
  history : List (Op K V × Status)

/-- One operation on the state. -/
def State.step (vt : Vtable K) (s : State K V) (x : Op K V × Outcome) : State K V :=
  let reply := perform vt x.2 s.table x.1
  { table := reply.table, calls := s.calls ++ reply.calls
    history := (x.1, reply.status) :: s.history }

/-- The state after `init` and a sequence of operations. -/
def run (vt : Vtable K) (seed : UInt64) (xs : List (Op K V × Outcome)) : State K V :=
  xs.foldl (State.step vt) { table := init seed, calls := [], history := [] }

end Container

end Chtholly
