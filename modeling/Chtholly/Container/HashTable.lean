import Chtholly.Container.Table

/-!
# The hash table of the compiler

`support::OpenAddressingHashTable`, the second implementation of the table
(`include/chtholly/Support/OpenAddressingHashTable.h`), for a `std::size_t` of 64 bits.  A bucket
keeps the hash of its key, and its key and value are engaged only while it is occupied; a deleted
bucket keeps the stale hash.

The vector of a new capacity either comes into being or its constructor throws: `memory` tells
which, for the operation that asks.  The loop of `rehash` that looks for a bucket has no bound of
its own; it is given as many rounds as there are buckets, and `none` stands for a loop that has
not ended by then.

## Main definitions

* `Container.HashTable` — the table, with the `Hash` and `Equal` of its type.
* `Container.HashTable.reserve`, `find`, `insert`, `erase`, `clear` — the operations.
-/

set_option autoImplicit false

namespace Chtholly

namespace Container

/-- `OpenAddressingHashTable::Bucket`. -/
structure Bucket (K V : Type) where
  state : Meta
  hash : ℕ
  key : Option K
  value : Option V
  deriving Repr, DecidableEq

/-- The bucket of a new vector. -/
def Bucket.fresh {K V : Type} : Bucket K V := { state := .empty, hash := 0, key := none, value := none }

/-- `OpenAddressingHashTable`. -/
structure HashTable (K V : Type) where
  buckets : List (Bucket K V)
  size : ℕ
  deleted : ℕ
  seed : UInt64
  deriving Repr, DecidableEq

/-- The functions `Hash` and `Equal` of the table's type. -/
structure Hasher (K : Type) where
  hash : K → UInt64
  equal : K → K → Bool

namespace HashTable

/-- `OpenAddressingHashTable::Status`. -/
inductive Status
  | ok
  | outOfMemory
  | capacityOverflow
  deriving Repr, DecidableEq

variable {K V : Type}

/-- `std::numeric_limits<std::size_t>::max()`. -/
def sizeMax : ℕ := 2 ^ 64 - 1

def create (seed : UInt64) : HashTable K V := { buckets := [], size := 0, deleted := 0, seed }

def capacity (h : HashTable K V) : ℕ := h.buckets.length

def bucketAt (h : HashTable K V) (i : ℕ) : Bucket K V := h.buckets.getD i .fresh

def hashKey (f : Hasher K) (h : HashTable K V) (key : K) : ℕ := (f.hash key ^^^ h.seed).toNat

def probe (hash step capacity : ℕ) : ℕ :=
  let offset := (step + step * step) % 2 ^ 64
  ((hash + offset / 2) % 2 ^ 64) &&& (capacity - 1)

/-- Whether a bucket is occupied by an equal key. -/
def holds (f : Hasher K) (b : Bucket K V) (hash : ℕ) (key : K) : Bool :=
  b.hash = hash && b.key.any fun k => f.equal k key

/-- The loop of `locate`. -/
def locateFrom (f : Hasher K) (h : HashTable K V) (key : K) : ℕ → ℕ → Option ℕ
  | 0, _ => none
  | n + 1, step =>
    let slot := probe (h.hashKey f key) step h.capacity
    let bucket := h.bucketAt slot
    if bucket.state = .empty then none
    else if bucket.state = .occupied && holds f bucket (h.hashKey f key) key then some slot
    else locateFrom f h key n (step + 1)

def locate (f : Hasher K) (h : HashTable K V) (key : K) : Option ℕ :=
  if h.capacity = 0 then none else locateFrom f h key h.capacity 0

def find (f : Hasher K) (h : HashTable K V) (key : K) : Option V :=
  (locate f h key).bind fun slot => (h.bucketAt slot).value

/-! ## Growing -/

/-- The loop of `rehash` that looks for a bucket, from some step on. -/
def freeSlot (candidate : List (Bucket K V)) (hash capacity : ℕ) : ℕ → ℕ → Option ℕ
  | 0, _ => none
  | n + 1, step =>
    let slot := probe hash step capacity
    if (candidate.getD slot .fresh).state = .occupied then
      freeSlot candidate hash capacity n (step + 1)
    else some slot

/-- The loop of `rehash` over the old buckets. -/
def moveBuckets (capacity : ℕ) : List (Bucket K V) → List (Bucket K V) → Option (List (Bucket K V))
  | [], candidate => some candidate
  | bucket :: rest, candidate =>
    if bucket.state = .occupied then
      (freeSlot candidate bucket.hash capacity capacity 0).bind fun slot =>
        moveBuckets capacity rest (candidate.set slot
          { state := .occupied, hash := bucket.hash, key := bucket.key, value := bucket.value })
    else moveBuckets capacity rest candidate

def rehash (memory : Bool) (h : HashTable K V) (capacity : ℕ) :
    Option (Status × HashTable K V) :=
  if memory then
    (moveBuckets capacity h.buckets (List.replicate capacity .fresh)).map fun candidate =>
      (.ok, { h with buckets := candidate, deleted := 0 })
  else some (.outOfMemory, h)

/-- The loop of `reserve`; from 8 on it ends within 61 rounds. -/
def doubleCapacity (requested : ℕ) : ℕ → ℕ → Option ℕ
  | 0, _ => none
  | n + 1, capacity =>
    if capacity < requested then
      if capacity > sizeMax / 2 then none else doubleCapacity requested n (capacity * 2)
    else some capacity

def reserve (memory : Bool) (h : HashTable K V) (requested : ℕ) :
    Option (Status × HashTable K V) :=
  if requested ≤ h.capacity then some (.ok, h)
  else
    match doubleCapacity requested 64 (if h.capacity = 0 then 8 else h.capacity) with
    | none => some (.capacityOverflow, h)
    | some capacity => rehash memory h capacity

/-! ## Inserting -/

/-- What `insert` returns and leaves; `replaced` is the value it moves out. -/
structure Inserted (K V : Type) where
  status : Status
  table : HashTable K V
  replaced : Option V
  deriving Repr, DecidableEq

def occupy (h : HashTable K V) (slot hash : ℕ) (key : K) (value : V) : HashTable K V :=
  { h with
    buckets := h.buckets.set slot
      { state := .occupied, hash, key := some key, value := some value }
    deleted := if (h.bucketAt slot).state = .deleted then h.deleted - 1 else h.deleted
    size := h.size + 1 }

/-- The loop of `insert`, with the first deleted bucket on the way. -/
def insertFrom (f : Hasher K) (h : HashTable K V) (key : K) (value : V) :
    ℕ → ℕ → Option ℕ → Inserted K V
  | 0, _, some tombstone => ⟨.ok, h.occupy tombstone (h.hashKey f key) key value, none⟩
  | 0, _, none => ⟨.capacityOverflow, h, none⟩
  | n + 1, step, tombstone =>
    let slot := probe (h.hashKey f key) step h.capacity
    let bucket := h.bucketAt slot
    if bucket.state = .empty then
      ⟨.ok, h.occupy (tombstone.getD slot) (h.hashKey f key) key value, none⟩
    else if bucket.state = .deleted then
      insertFrom f h key value n (step + 1) (tombstone.or (some slot))
    else if holds f bucket (h.hashKey f key) key then
      ⟨.ok, { h with buckets := h.buckets.set slot { bucket with value := some value } },
        bucket.value⟩
    else insertFrom f h key value n (step + 1) tombstone

/-- The condition under which `insert` grows the table first. -/
def needsGrowth (h : HashTable K V) : Bool :=
  let overflow : Bool := sizeMax - h.size < h.deleted
  let saturated : Bool := overflow || sizeMax / 4 < (h.size + h.deleted) % 2 ^ 64
  h.capacity = 0 || saturated ||
    h.capacity * 3 % 2 ^ 64 ≤ (h.size + h.deleted) % 2 ^ 64 * 4 % 2 ^ 64

def insert (f : Hasher K) (memory : Bool) (h : HashTable K V) (key : K) (value : V) :
    Option (Inserted K V) :=
  if needsGrowth h then
    let requested := if h.capacity = 0 then 8 else if sizeMax / 2 < h.capacity then 0
      else h.capacity * 2
    if requested = 0 then some ⟨.capacityOverflow, h, none⟩
    else
      (reserve memory h requested).map fun grown =>
        if grown.1 = .ok then insertFrom f grown.2 key value grown.2.capacity 0 none
        else ⟨grown.1, grown.2, none⟩
  else some (insertFrom f h key value h.capacity 0 none)

/-! ## Erasing and clearing -/

/-- What `erase` returns and leaves; `removed` is the value it moves out. -/
structure Erased (K V : Type) where
  found : Bool
  table : HashTable K V
  removed : Option V
  deriving Repr, DecidableEq

def erase (f : Hasher K) (h : HashTable K V) (key : K) : Erased K V :=
  match locate f h key with
  | none => ⟨false, h, none⟩
  | some slot =>
    let bucket := h.bucketAt slot
    ⟨true, { h with
      buckets := h.buckets.set slot { bucket with state := .deleted, key := none, value := none }
      size := h.size - 1, deleted := h.deleted + 1 }, bucket.value⟩

def clear (h : HashTable K V) : HashTable K V :=
  { h with
    buckets := h.buckets.map fun bucket =>
      { bucket with state := .empty, key := none, value := none }
    size := 0, deleted := 0 }

end HashTable

end Container

end Chtholly
