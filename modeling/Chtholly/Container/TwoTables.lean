import Mathlib.Data.List.Forall2
import Chtholly.Container.Refinement
import Chtholly.Container.HashTable

/-!
# The two hash tables agree

The table of the runtime and the table of the compiler, given the same operations, go through the
same states: the same capacity, the same slots with the same keys, the same counts.  The relation
between the two is slot by slot; it is kept by the loops because they read the slots in the same
order, and by the growth because both tables ask for it at the same load.

The runtime chooses the new slots first and moves the objects afterwards; the compiler moves each
object as it chooses.  The invariant of the runtime's table says that its choice succeeds, and so
that the unbounded loop of the compiler ends.

## Main definitions

* `Container.SameTable` — what can be compared of the two tables.
* `Container.Agrees` — the relation that the operations keep.

## Main results

* `Container.run_sameTable` — the two tables agree after every sequence of operations.
-/

set_option autoImplicit false

namespace Chtholly

namespace Container

variable {K V : Type} {vt : Vtable K} {f : Hasher K} {t : Table K V} {h : HashTable K V}

/-- A slot and a bucket with the same content; the bucket caches the hash of its key. -/
inductive SameSlot (hashOf : K → ℕ) : Slot K V → Bucket K V → Prop
  | empty {b : Bucket K V} (state : b.state = .empty) : SameSlot hashOf .empty b
  | deleted {b : Bucket K V} (state : b.state = .deleted) : SameSlot hashOf .deleted b
  | occupied {b : Bucket K V} {k : K} {v : V} (state : b.state = .occupied)
      (hash : b.hash = hashOf k) (key : b.key = some k) (value : b.value = some v) :
      SameSlot hashOf (.occupied k v) b

/-- The relation between the tables. -/
structure Agrees (vt : Vtable K) (f : Hasher K) (t : Table K V) (h : HashTable K V) : Prop where
  slots : List.Forall₂ (SameSlot (t.hashOf vt)) t.slots h.buckets
  capacity : t.capacity = h.capacity
  size : t.size = h.size
  deleted : t.deleted = h.deleted
  hash : ∀ k, h.hashKey f k = t.hashOf vt k
  equal : f.equal = vt.equal

/-! ## Lists of slots -/

lemma forall₂_getD {α β : Type} {R : α → β → Prop} {l : List α} {m : List β} {a : α} {b : β}
    (hlm : List.Forall₂ R l m) (hab : R a b) (i : ℕ) : R (l.getD i a) (m.getD i b) := by
  induction hlm generalizing i with
  | nil => exact hab
  | cons hx _ ih =>
    cases i with
    | zero => exact hx
    | succ i => exact ih i

lemma forall₂_set {α β : Type} {R : α → β → Prop} {l : List α} {m : List β} {a : α} {b : β}
    (hlm : List.Forall₂ R l m) (hab : R a b) (i : ℕ) : List.Forall₂ R (l.set i a) (m.set i b) := by
  induction hlm generalizing i with
  | nil => exact .nil
  | cons hx hrest ih =>
    cases i with
    | zero => exact .cons hab hrest
    | succ i => exact .cons hx (ih i)

lemma Agrees.slotAt (ha : Agrees vt f t h) (i : ℕ) :
    SameSlot (t.hashOf vt) (t.slotAt i) (h.bucketAt i) :=
  forall₂_getD ha.slots (.empty rfl) i

lemma SameSlot.state {hashOf : K → ℕ} {s : Slot K V} {b : Bucket K V} (hs : SameSlot hashOf s b) :
    b.state = s.metadata := by
  cases hs with
  | empty state => exact state
  | deleted state => exact state
  | occupied state => exact state

lemma probe_eq (hash step capacity : ℕ) :
    HashTable.probe hash step capacity = probe hash step capacity := rfl

/-! ## Looking up -/

/-- An occupied bucket is compared as its slot is. -/
lemma holds_iff (ha : Agrees vt f t h) (key : K) {k : K} {b : Bucket K V}
    (hash : b.hash = t.hashOf vt k) (hkey : b.key = some k) :
    HashTable.holds f b (h.hashKey f key) key = true ↔
      t.hashOf vt k = t.hashOf vt key ∧ vt.equal k key = true := by
  rw [HashTable.holds, hash, hkey, ha.hash, ha.equal]
  simp

lemma locateFrom_eq (ha : Agrees vt f t h) (key : K) : ∀ fuel step,
    HashTable.locateFrom f h key fuel step = findSlotFrom vt t key fuel step
  | 0, _ => rfl
  | fuel + 1, step => by
    have ih := locateFrom_eq ha key fuel (step + 1)
    have hslot := ha.slotAt (probe (t.hashOf vt key) step t.capacity)
    rw [HashTable.locateFrom, findSlotFrom, probe_eq, ha.hash, ← ha.capacity]
    generalize t.slotAt (probe (t.hashOf vt key) step t.capacity) = s at hslot ⊢
    cases hslot with
    | empty state => rw [if_pos state]
    | deleted state => rw [if_neg (by simp [state]), if_neg (by simp [state]), ih]
    | @occupied _ k v state hash hkey value =>
      have hholds := holds_iff ha key hash hkey
      rw [if_neg (by simp [state]), ih]
      rw [ha.hash] at hholds
      simp only [state, decide_true, Bool.true_and, hholds]

lemma locate_eq (ha : Agrees vt f t h) (key : K) :
    HashTable.locate f h key = findSlot vt t key := by
  rw [HashTable.locate, findSlot, ← ha.capacity, locateFrom_eq ha]

lemma findSlot_sound {key : K} {slot : ℕ} (hfound : findSlot vt t key = some slot) :
    ∃ k v, t.slotAt slot = .occupied k v ∧ vt.equal k key = true := by
  rw [findSlot] at hfound
  split at hfound
  · cases hfound
  · exact findSlotFrom_sound key _ _ hfound

lemma find_eq (ha : Agrees vt f t h) (key : K) : HashTable.find f h key = find vt t key := by
  rw [HashTable.find, Container.find, locate_eq ha]
  cases hfound : findSlot vt t key with
  | none => rfl
  | some slot =>
    have hslot := ha.slotAt slot
    show (h.bucketAt slot).value = (t.slotAt slot).entry.map Prod.snd
    obtain ⟨k, v, hoccupied, -⟩ := findSlot_sound hfound
    rw [hoccupied] at hslot ⊢
    cases hslot with
    | occupied state hash hkey value => exact value

/-! ## Growing -/

lemma doubleCapacity_eq (requested : ℕ) : ∀ fuel capacity,
    HashTable.doubleCapacity requested fuel capacity = growCapacity requested fuel capacity
  | 0, _ => rfl
  | fuel + 1, capacity => by
    rw [HashTable.doubleCapacity, growCapacity, doubleCapacity_eq requested fuel]
    rfl

section Rehash

variable {hashOf : K → ℕ} {slots : List (Slot K V)} {candidate : List (Bucket K V)}

/-- No slot is a tombstone. -/
def Untouched (slots : List (Slot K V)) : Prop := ∀ i, slots.getD i .empty ≠ .deleted

lemma Untouched.set (hu : Untouched slots) (i : ℕ) (k : K) (v : V) :
    Untouched (slots.set i (.occupied k v)) := by
  intro j hj
  by_cases hi : i < slots.length
  · rw [getD_set i j _ hi] at hj
    split at hj
    · cases hj
    · exact hu j hj
  · rw [List.set_eq_of_length_le (Nat.le_of_not_lt hi)] at hj
    exact hu j hj

lemma getD_metadata (slots : List (Slot K V)) (i : ℕ) :
    (slots.map Slot.metadata).getD i .empty = (slots.getD i .empty).metadata := by
  rw [List.getD_eq_getElem?_getD, List.getElem?_map, List.getD_eq_getElem?_getD]
  cases slots[i]? <;> rfl

/-- Without tombstones, a slot is empty exactly when its bucket is not occupied. -/
lemma freeSlot_eq (hs : List.Forall₂ (SameSlot hashOf) slots candidate) (hu : Untouched slots)
    (hash capacity : ℕ) : ∀ fuel step,
    HashTable.freeSlot candidate hash capacity fuel step =
      emptySlot (slots.map Slot.metadata) hash capacity fuel step
  | 0, _ => rfl
  | fuel + 1, step => by
    have ih := freeSlot_eq hs hu hash capacity fuel (step + 1)
    have hslot : SameSlot hashOf (slots.getD (probe hash step capacity) .empty)
      (candidate.getD (probe hash step capacity) .fresh) := forall₂_getD hs (.empty rfl) _
    have hne := hu (probe hash step capacity)
    rw [HashTable.freeSlot, emptySlot, probe_eq, getD_metadata, ih, hslot.state]
    generalize slots.getD (probe hash step capacity) .empty = s at hne ⊢
    cases s with
    | empty => rfl
    | deleted => exact absurd rfl hne
    | occupied k v => rfl

/-- The compiler moves each object into the slot that the runtime chooses for it. -/
lemma moveBuckets_eq {capacity : ℕ} {olds : List (Slot K V)} {buckets : List (Bucket K V)}
    (holds : List.Forall₂ (SameSlot (t.hashOf vt)) olds buckets) :
    ∀ (slots : List (Slot K V)) (candidate : List (Bucket K V)),
      List.Forall₂ (SameSlot (t.hashOf vt)) slots candidate → Untouched slots →
      ∀ chosen, relocation vt t capacity olds (slots.map Slot.metadata) = some chosen →
        ∃ moved, HashTable.moveBuckets capacity buckets candidate = some moved ∧
          List.Forall₂ (SameSlot (t.hashOf vt)) (moveObjects olds chosen slots) moved := by
  induction holds with
  | nil =>
    intro slots candidate hs _ chosen _
    refine ⟨candidate, rfl, ?_⟩
    rw [moveObjects]
    exact hs
  | @cons s b olds buckets hsb _ ih =>
    intro slots candidate hs hu chosen hchosen
    rw [HashTable.moveBuckets]
    cases hsb with
    | empty state =>
      rw [if_neg (by simp [state]), moveObjects_cons_of_entry_eq_none rfl]
      exact ih slots candidate hs hu chosen hchosen
    | deleted state =>
      rw [if_neg (by simp [state]), moveObjects_cons_of_entry_eq_none rfl]
      exact ih slots candidate hs hu chosen hchosen
    | @occupied _ k v state hash hkey value =>
      rw [relocation] at hchosen
      rw [if_pos state, freeSlot_eq hs hu, hash]
      cases hslot : emptySlot (slots.map Slot.metadata) (t.hashOf vt k) capacity capacity 0 with
      | none =>
        rw [hslot] at hchosen
        cases hchosen
      | some slot =>
        rw [hslot] at hchosen
        obtain ⟨more, hmore, rfl⟩ := Option.map_eq_some_iff.1 hchosen
        have hset : (slots.map Slot.metadata).set slot .occupied =
            (slots.set slot (.occupied k v)).map Slot.metadata := by
          rw [List.map_set]
          rfl
        rw [hset] at hmore
        have hnew : SameSlot (t.hashOf vt) (.occupied k v) { state := .occupied, hash := t.hashOf vt k, key := b.key, value := b.value } :=
          .occupied rfl rfl hkey value
        exact ih _ _ (forall₂_set hs hnew slot) (hu.set slot k v) more hmore

end Rehash

lemma untouched_replicate (capacity : ℕ) : Untouched (List.replicate capacity (.empty : Slot K V)) := by
  intro i hi
  rw [getD_replicate_empty] at hi
  cases hi

/-- The rehash of a table that is granted its memory succeeds in both, with the same slots. -/
lemma Agrees.rehash (ha : Agrees vt f t h) (hv : t.Valid vt) {o : Outcome} {capacity n : ℕ}
    (hn : 3 ≤ n) (hcap : capacity = 2 ^ n) (hdouble : 2 * t.capacity ≤ capacity)
    (hle : capacity ≤ uint64Max) (hgen : t.generation ≠ uint64Max) (hbits : vt.pointerBits = 64)
    (hbegin : o.rehashBegin = .ok) (hmemory : (rehash vt o t capacity).status ≠ .outOfMemory) :
    (rehash vt o t capacity).status = .ok ∧
      ∃ h', HashTable.rehash true h capacity = some (.ok, h') ∧
        Agrees vt f (rehash vt o t capacity).table h' := by
  have hload := hv.load
  have hmax : ¬vt.sizeMax < capacity := by
    rw [Vtable.sizeMax, hbits]
    exact Nat.not_lt.2 hle
  have hbegin' : ¬o.rehashBegin ≠ .ok := by simpa using hbegin
  rw [Container.rehash, if_neg hmax] at hmemory ⊢
  by_cases halloc : allocateArrays vt o capacity = false
  · rw [if_pos halloc] at hmemory
    exact absurd rfl hmemory
  have hfits := allocateArrays_fits (by simpa using halloc)
  have hsize : ¬(t.size ≠ 0 ∧ vt.sizeMax / 8 < t.size) := by
    rw [hbits] at hfits
    rw [Vtable.sizeMax, hbits]
    omega
  rw [if_neg halloc, if_neg hbegin', if_neg hsize] at hmemory ⊢
  by_cases hreloc : t.size ≠ 0 ∧ o.relocation = false
  · rw [if_pos hreloc] at hmemory
    exact absurd rfl hmemory
  rw [if_neg hreloc]
  obtain ⟨chosen, hchosen, hre⟩ := hv.relocation_commit hn hcap hdouble hfits hgen
  rw [hchosen]
  refine ⟨hre.status, ?_⟩
  have hreplicate : List.replicate capacity Meta.empty =
      (List.replicate capacity (.empty : Slot K V)).map Slot.metadata := by
    rw [List.map_replicate]
    rfl
  have hempty : List.Forall₂ (SameSlot (t.hashOf vt)) (List.replicate capacity (.empty : Slot K V))
      (List.replicate capacity .fresh) := by
    rw [List.forall₂_iff_get]
    refine ⟨by simp, fun i h₁ h₂ => ?_⟩
    simp only [List.get_eq_getElem, List.getElem_replicate]
    exact .empty rfl
  rw [hreplicate] at hchosen
  obtain ⟨moved, hmoved, hsame⟩ :=
    moveBuckets_eq ha.slots _ _ hempty (untouched_replicate capacity) chosen hchosen
  refine ⟨{ h with buckets := moved, deleted := 0 }, ?_, ?_⟩
  · rw [HashTable.rehash, if_pos rfl, hmoved]
    rfl
  · have hbump := bumpGeneration_of_ne (t := { t with
      slots := moveObjects t.slots chosen (List.replicate capacity .empty)
      capacity := capacity, size := chosen.length, deleted := 0 }) hgen
    have hlength : chosen.length = t.size := by
      have hsize' := hre.valid.size
      have hperm := hre.perm.length_eq
      rw [commitRehash, hbump] at hsize' hperm
      rw [hv.size]
      exact hsize'.trans hperm
    have hmoved' : capacity = moved.length := by
      have hlen := hre.valid.length
      rw [commitRehash, hbump] at hlen
      rw [← hsame.length_eq]
      exact hlen.symm
    show Agrees vt f (commitRehash t capacity chosen).table _
    rw [commitRehash, hbump]
    exact {
      slots := hsame
      capacity := hmoved'
      size := hlength.trans ha.size
      deleted := rfl
      hash := ha.hash
      equal := ha.equal }

lemma growCapacity_le {requested : ℕ} : ∀ (fuel capacity : ℕ) {c : ℕ}, capacity ≤ uint64Max →
    growCapacity requested fuel capacity = some c → c ≤ uint64Max
  | 0, _, _, _, hgrow => by cases hgrow
  | fuel + 1, capacity, c, hle, hgrow => by
    rw [growCapacity] at hgrow
    split_ifs at hgrow with hlt hmax
    · exact growCapacity_le fuel (capacity * 2) (by omega) hgrow
    · cases hgrow
      exact hle

/-- What the two tables answer to `reserve`. -/
def sameStatus : Status → HashTable.Status → Prop
  | .ok, .ok => True
  | .capacityOverflow, .capacityOverflow => True
  | _, _ => False

lemma Agrees.reserve (ha : Agrees vt f t h) (hv : t.Valid vt) {o : Outcome} (requested : ℕ)
    (hgen : t.generation ≠ uint64Max) (hbits : vt.pointerBits = 64) (hbegin : o.rehashBegin = .ok)
    (hmemory : (reserve vt o t requested).status ≠ .outOfMemory) :
    ∃ status h', HashTable.reserve true h requested = some (status, h') ∧
      sameStatus (reserve vt o t requested).status status ∧
        Agrees vt f (reserve vt o t requested).table h' := by
  rw [HashTable.reserve, ← ha.capacity, doubleCapacity_eq]
  by_cases hle : requested ≤ t.capacity
  · rw [Container.reserve, if_pos hle, if_pos hle]
    exact ⟨.ok, h, rfl, trivial, ha⟩
  rw [Container.reserve, if_neg hle, if_neg hgen] at hmemory ⊢
  rw [if_neg hle]
  cases hgrow : growCapacity requested 64 (if t.capacity = 0 then 8 else t.capacity) with
  | none => exact ⟨.capacityOverflow, h, rfl, trivial, ha⟩
  | some c =>
    rw [hgrow] at hmemory
    obtain ⟨-, hdouble, n, hn, hc⟩ := hv.growCapacity_spec (by omega) hgrow
    have hstart : (if t.capacity = 0 then 8 else t.capacity) ≤ uint64Max := by
      have := hv.capacity_le
      have : uint64Max = 2 ^ 64 - 1 := rfl
      split <;> omega
    obtain ⟨hstatus, h', hh', ha'⟩ := ha.rehash hv hn hc hdouble
      (growCapacity_le _ _ hstart hgrow) hgen hbits hbegin hmemory
    refine ⟨.ok, h', hh', ?_, ha'⟩
    show sameStatus (Container.rehash vt o t c).status .ok
    rw [hstatus]
    trivial

/-! ## Inserting -/

/-- Both tables grow at the same load. -/
lemma needsGrowth_eq (ha : Agrees vt f t h) (hv : t.Valid vt) :
    HashTable.needsGrowth h = needsGrowth t := by
  have hload := hv.load
  have hle := hv.capacity_le
  have hmax : uint64Max = 2 ^ 64 - 1 := rfl
  have hmax' : HashTable.sizeMax = 2 ^ 64 - 1 := rfl
  rw [HashTable.needsGrowth, needsGrowth, ← ha.capacity, ← ha.size, ← ha.deleted]
  by_cases hzero : t.capacity = 0
  · simp [hzero]
  obtain ⟨n, hn, -, hcap⟩ := hv.capacity_eq hzero
  obtain ⟨m, hm⟩ : ∃ m, t.capacity = 8 * m := by
    refine ⟨2 ^ (n - 3), ?_⟩
    rw [hcap, show (8 : ℕ) = 2 ^ 3 from rfl, ← Nat.pow_add]
    congr 1
    omega
  have hsum : (t.size + t.deleted) % 2 ^ 64 = t.size + t.deleted := Nat.mod_eq_of_lt (by omega)
  have hfour : (t.size + t.deleted) * 4 % 2 ^ 64 = (t.size + t.deleted) * 4 :=
    Nat.mod_eq_of_lt (by omega)
  have hthree : t.capacity * 3 % 2 ^ 64 = t.capacity * 3 := Nat.mod_eq_of_lt (by omega)
  rw [Bool.eq_iff_iff]
  simp only [hsum, hfour, hthree, hmax, hmax', Bool.or_eq_true, Bool.and_eq_true,
    decide_eq_true_eq]
  omega

/-- Where the loop of the compiler's `insert` ends, by where the one of the runtime ends. -/
def landed (f : Hasher K) (h : HashTable K V) (key : K) (value : V) :
    Landing → HashTable.Inserted K V
  | .empty slot tombstone =>
    ⟨.ok, h.occupy (tombstone.getD slot) (h.hashKey f key) key value, none⟩
  | .same slot =>
    ⟨.ok, { h with buckets := h.buckets.set slot { h.bucketAt slot with value := some value } },
      (h.bucketAt slot).value⟩
  | .exhausted (some tombstone) => ⟨.ok, h.occupy tombstone (h.hashKey f key) key value, none⟩
  | .exhausted none => ⟨.capacityOverflow, h, none⟩

lemma insertFrom_eq (ha : Agrees vt f t h) (key : K) (value : V) : ∀ fuel step tombstone,
    HashTable.insertFrom f h key value fuel step tombstone =
      landed f h key value (landing vt t key fuel step tombstone)
  | 0, _, none => rfl
  | 0, _, some _ => rfl
  | fuel + 1, step, tombstone => by
    have hslot := ha.slotAt (probe (t.hashOf vt key) step t.capacity)
    rw [HashTable.insertFrom, landing, probe_eq, ha.hash, ← ha.capacity]
    generalize hs : t.slotAt (probe (t.hashOf vt key) step t.capacity) = s at hslot ⊢
    cases hslot with
    | empty state =>
      rw [if_pos state, ← ha.hash]
      rfl
    | deleted state =>
      rw [if_neg (by simp [state]), if_pos state, insertFrom_eq ha key value fuel]
    | @occupied _ k v state hash hkey hvalue =>
      have hholds := holds_iff ha key hash hkey
      rw [ha.hash] at hholds
      rw [if_neg (by simp [state]), if_neg (by simp [state]), insertFrom_eq ha key value fuel]
      by_cases hsame : t.hashOf vt k = t.hashOf vt key ∧ vt.equal k key = true
      · rw [if_pos (hholds.2 hsame)]
        dsimp only
        rw [if_pos hsame]
        rfl
      · rw [if_neg (fun hh => hsame (hholds.1 hh))]
        dsimp only
        rw [if_neg hsame]

lemma Agrees.bump (ha : Agrees vt f t h) : Agrees vt f (bumpGeneration t).2 h := by
  rw [bumpGeneration]
  split
  · exact ha
  · exact { ha with }

/-- The new pair, in a slot that is empty or a tombstone. -/
lemma Agrees.store (ha : Agrees vt f t h) {slot : ℕ} {tombstone : Bool} (key : K) (value : V)
    (hslot : t.slotAt slot = if tombstone then .deleted else .empty) :
    Agrees vt f (store t slot tombstone key value).table
      (h.occupy slot (h.hashKey f key) key value) := by
  have hstate := (ha.slotAt slot).state
  rw [Container.store]
  refine Agrees.bump {
    slots := forall₂_set ha.slots (.occupied rfl (ha.hash key) rfl rfl) slot
    capacity := ?_
    size := congrArg (· + 1) ha.size
    deleted := ?_
    hash := ha.hash
    equal := ha.equal }
  · rw [HashTable.capacity, HashTable.occupy, List.length_set]
    exact ha.capacity
  · rw [HashTable.occupy, hstate, hslot]
    cases tombstone with
    | true =>
      show t.deleted - 1 = h.deleted - 1
      rw [ha.deleted]
    | false => exact ha.deleted

/-- The new value, at an equal key. -/
lemma Agrees.replace (ha : Agrees vt f t h) {slot : ℕ} {k : K} {old : V} (key : K) (value : V)
    (replacedValue : Bool) (hslot : t.slotAt slot = .occupied k old) :
    Agrees vt f (replace t slot replacedValue key value).table
      { h with buckets := h.buckets.set slot { h.bucketAt slot with value := some value } } ∧
        (h.bucketAt slot).value.isSome = true := by
  have hsame := ha.slotAt slot
  rw [hslot] at hsame
  cases hsame with
  | occupied state hash hkey hvalue =>
    refine ⟨?_, by rw [hvalue]; rfl⟩
    have hnew : SameSlot (t.hashOf vt) (.occupied k value)
        { h.bucketAt slot with value := some value } := .occupied state hash hkey rfl
    rw [Container.replace, hslot]
    refine Agrees.bump {
      slots := forall₂_set ha.slots hnew slot
      capacity := ?_
      size := ha.size
      deleted := ha.deleted
      hash := ha.hash
      equal := ha.equal }
    rw [HashTable.capacity, List.length_set]
    exact ha.capacity

/-- A step that leaves the generation below its limit did not complain about it. -/
lemma bumpGeneration_ok (hgen : (bumpGeneration t).2.generation ≠ uint64Max) :
    (bumpGeneration t).1 = .ok := by
  rw [bumpGeneration_status]
  rw [bumpGeneration] at hgen
  split at hgen
  · rename_i hlimit
    exact absurd hlimit hgen
  · rename_i hlimit
    rw [if_neg hlimit]

/-- `insert` once there is room. -/
lemma Agrees.insertGrown (ha : Agrees vt f t h) (hv : t.Valid vt) (hroom : HasRoom t) (key : K)
    (value : V) (replacedValue : Bool)
    (hgen : (insertGrown vt t key value replacedValue).table.generation ≠ uint64Max) :
    sameStatus (insertGrown vt t key value replacedValue).status
        (HashTable.insertFrom f h key value h.capacity 0 none).status ∧
      (insertGrown vt t key value replacedValue).flag =
        some (HashTable.insertFrom f h key value h.capacity 0 none).replaced.isSome ∧
      Agrees vt f (insertGrown vt t key value replacedValue).table
        (HashTable.insertFrom f h key value h.capacity 0 none).table := by
  rw [HasRoom] at hroom
  rw [insertFrom_eq ha, ← ha.capacity]
  rcases hv.landing_spec key (by omega) with ⟨slot, k, old, hland, hslot, -⟩ |
    ⟨slot, tombstone, hland, -, htomb, hempty, -, -⟩
  · obtain ⟨hagrees, hsome⟩ := ha.replace key value replacedValue hslot
    have heq : Container.insertGrown vt t key value replacedValue =
        Container.replace t slot replacedValue key value := by
      rw [Container.insertGrown, hland]
    rw [heq] at hgen ⊢
    rw [hland]
    refine ⟨?_, ?_, hagrees⟩
    · rw [Container.replace, hslot] at hgen ⊢
      show sameStatus (bumpGeneration _).1 .ok
      rw [bumpGeneration_ok hgen]
      trivial
    · rw [Container.replace, hslot, landed, hsome]
  · have hlimit : t.generation ≠ uint64Max := by
      intro hlimit
      rw [Container.insertGrown, hland] at hgen
      simp [hlimit] at hgen
    have heq : Container.insertGrown vt t key value replacedValue =
        Container.store t (tombstone.getD slot) tombstone.isSome key value := by
      rw [Container.insertGrown, hland]
      exact if_neg hlimit
    have hdestination : t.slotAt (tombstone.getD slot) =
        if tombstone.isSome then .deleted else .empty := by
      cases tombstone with
      | none => exact hempty
      | some j => exact htomb j rfl
    rw [heq] at hgen ⊢
    rw [hland]
    refine ⟨?_, rfl, ha.store key value hdestination⟩
    rw [Container.store] at hgen ⊢
    show sameStatus (bumpGeneration _).1 .ok
    rw [bumpGeneration_ok hgen]
    trivial

/-- `insert`, which grows the table first where both need it. -/
lemma Agrees.insert (ha : Agrees vt f t h) (hv : t.Valid vt) {o : Outcome} (key : K) (value : V)
    (replacedValue : Bool) (hgen : t.generation ≠ uint64Max)
    (hgen' : (insertPair vt o t key value replacedValue).table.generation ≠ uint64Max)
    (hbits : vt.pointerBits = 64) (hbegin : o.rehashBegin = .ok)
    (hmemory : (insertPair vt o t key value replacedValue).status ≠ .outOfMemory) :
    ∃ inserted, HashTable.insert f true h key value = some inserted ∧
      sameStatus (insertPair vt o t key value replacedValue).status inserted.status ∧
      (insertPair vt o t key value replacedValue).flag = some inserted.replaced.isSome ∧
      Agrees vt f (insertPair vt o t key value replacedValue).table inserted.table := by
  have hcap := hv.capacity_le
  have hmax : uint64Max / 2 = 2 ^ 63 - 1 := by decide
  have hmax' : HashTable.sizeMax / 2 = 2 ^ 63 - 1 := by decide
  rw [HashTable.insert, needsGrowth_eq ha hv, ← ha.capacity]
  by_cases hgrow : needsGrowth t = true
  · have hrequested : (if t.capacity = 0 then 8 else if HashTable.sizeMax / 2 < t.capacity then 0
        else t.capacity * 2) = grownCapacity t := by
      rw [grownCapacity, if_neg (Nat.not_lt.2 (by omega))]
    have hne : grownCapacity t ≠ 0 := by
      rw [grownCapacity]
      split <;> omega
    have hhalf : ¬uint64Max / 2 < t.capacity := by omega
    -- The reply of the growth decides whether the pair is inserted at all.
    by_cases hok : (Container.reserve vt o t (grownCapacity t)).status = .ok
    · have hpair : (insertPair vt o t key value replacedValue) =
          { Container.insertGrown vt (Container.reserve vt o t (grownCapacity t)).table key value
              replacedValue with
            calls := (Container.reserve vt o t (grownCapacity t)).calls ++
              (Container.insertGrown vt (Container.reserve vt o t (grownCapacity t)).table key value
                replacedValue).calls } := by
        rw [insertPair, if_neg hgen, if_pos hgrow, if_neg hhalf, ← grownCapacity]
        exact if_neg (by simpa using hok)
      rw [hpair] at hgen' ⊢
      obtain ⟨status, h', hh', hsame, ha'⟩ :=
        ha.reserve hv (grownCapacity t) hgen hbits hbegin (by rw [hok]; simp)
      rw [hok] at hsame
      have hstatus : status = .ok := by
        cases status with
        | ok => rfl
        | outOfMemory => exact hsame.elim
        | capacityOverflow => exact hsame.elim
      obtain ⟨hvalid, hroom⟩ : (Container.reserve vt o t (grownCapacity t)).table.Valid vt ∧
          HasRoom (Container.reserve vt o t (grownCapacity t)).table := by
        rcases hv.reserve_spec o (grownCapacity t) with ⟨-, -, hle⟩ | hre
        · have := hle hok
          rw [grownCapacity] at this
          split at this <;> omega
        · exact ⟨hre.valid, hre.hasRoom hv⟩
      obtain ⟨hs, hflag, hagrees⟩ := ha'.insertGrown hvalid hroom key value replacedValue hgen'
      refine ⟨HashTable.insertFrom f h' key value h'.capacity 0 none, ?_, hs, hflag, hagrees⟩
      rw [if_pos hgrow]
      dsimp only
      rw [hrequested, if_neg hne, hh', hstatus]
      rfl
    · have hpair : (insertPair vt o t key value replacedValue) =
          { Container.reserve vt o t (grownCapacity t) with flag := some false } := by
        rw [insertPair, if_neg hgen, if_pos hgrow, if_neg hhalf, ← grownCapacity]
        exact if_pos (by simpa using hok)
      rw [hpair] at hmemory ⊢
      obtain ⟨status, h', hh', hsame, ha'⟩ :=
        ha.reserve hv (grownCapacity t) hgen hbits hbegin hmemory
      have hstatus : status ≠ .ok := by
        rintro rfl
        cases hreserve : (Container.reserve vt o t (grownCapacity t)).status <;>
          rw [hreserve] at hsame hok <;> first | exact hsame.elim | exact hok rfl
      refine ⟨⟨status, h', none⟩, ?_, hsame, rfl, ha'⟩
      rw [if_pos hgrow]
      dsimp only
      rw [hrequested, if_neg hne, hh']
      simp [hstatus]
  · rw [insertPair, if_neg hgen, if_neg hgrow] at hgen' ⊢
    rw [if_neg hgrow]
    have hroom := hasRoom_of_needsGrowth (by simpa using hgrow)
    obtain ⟨hstatus, hflag, hagrees⟩ := ha.insertGrown hv hroom key value replacedValue hgen'
    rw [ha.capacity]
    exact ⟨_, rfl, hstatus, hflag, hagrees⟩

/-! ## Erasing and clearing -/

lemma Agrees.erase (ha : Agrees vt f t h) (key : K) (removedValue : Bool)
    (hgen : t.generation ≠ uint64Max) :
    (erase vt t (some key) removedValue true).flag = some (HashTable.erase f h key).found ∧
      Agrees vt f (erase vt t (some key) removedValue true).table (HashTable.erase f h key).table := by
  rw [Container.erase, if_neg hgen, HashTable.erase, locate_eq ha]
  cases hfound : findSlot vt t key with
  | none => exact ⟨rfl, ha⟩
  | some slot =>
    obtain ⟨k, old, hslot, -⟩ := findSlot_sound hfound
    have hbury : SameSlot (t.hashOf vt) (.deleted : Slot K V)
        { h.bucketAt slot with state := .deleted, key := none, value := none } := .deleted rfl
    simp only [bury, hslot]
    refine ⟨trivial, Agrees.bump {
      slots := forall₂_set ha.slots hbury slot
      capacity := ?_
      size := congrArg (· - 1) ha.size
      deleted := congrArg (· + 1) ha.deleted
      hash := ha.hash
      equal := ha.equal }⟩
    rw [HashTable.capacity, List.length_set]
    exact ha.capacity

lemma Agrees.clear (ha : Agrees vt f t h) (hgen : t.generation ≠ uint64Max) :
    Agrees vt f (clear t).table h.clear := by
  rw [Container.clear, if_neg hgen]
  refine Agrees.bump {
    slots := ?_
    capacity := ?_
    size := rfl
    deleted := rfl
    hash := ha.hash
    equal := ha.equal }
  · rw [HashTable.clear, List.forall₂_map_left_iff, List.forall₂_map_right_iff]
    exact ha.slots.imp fun _ _ _ => .empty rfl
  · rw [HashTable.capacity, HashTable.clear, List.length_map]
    exact ha.capacity

/-! ## Sequences of operations -/

/-- What both tables are asked.  `buffer` tells whether the runtime gets a buffer for the value that
it moves out. -/
inductive Request (K V : Type)
  | reserve (requested : ℕ)
  | insert (key : K) (value : V) (buffer : Bool)
  | find (key : K)
  | erase (key : K) (buffer : Bool)
  | clear
  deriving Repr, DecidableEq

/-- The operation of the runtime's table. -/
def Request.op : Request K V → Op K V
  | .reserve requested => .reserve requested
  | .insert key value buffer => .insert (some key) (some value) buffer true
  | .find key => .find (some key) true
  | .erase key buffer => .erase (some key) buffer true
  | .clear => .clear

/-- What a table answers: whether the capacity overflows, and what was found, replaced or
removed. -/
inductive Answer (V : Type)
  | reserved (overflow : Bool)
  | inserted (overflow replaced : Bool)
  | found (value : Option V)
  | erased (removed : Bool)
  | cleared
  deriving Repr, DecidableEq

/-- The answer of the runtime's table. -/
def answer (vt : Vtable K) (o : Outcome) (t : Table K V) : Request K V → Answer V
  | .reserve requested => .reserved ((reserve vt o t requested).status = .capacityOverflow)
  | .insert key value buffer =>
    let reply := insert vt o t (some key) (some value) buffer true
    .inserted (reply.status = .capacityOverflow) (reply.flag = some true)
  | .find key => .found (find vt t key)
  | .erase key buffer => .erased ((erase vt t (some key) buffer true).flag = some true)
  | .clear => .cleared

/-- One operation on the compiler's table, with the memory it asks for. -/
def HashTable.perform (f : Hasher K) (h : HashTable K V) :
    Request K V → Option (HashTable K V × Answer V)
  | .reserve requested => (h.reserve true requested).map fun r =>
      (r.2, .reserved (r.1 = .capacityOverflow))
  | .insert key value _ => (h.insert f true key value).map fun r =>
      (r.table, .inserted (r.status = .capacityOverflow) r.replaced.isSome)
  | .find key => some (h, .found (h.find f key))
  | .erase key _ => some ((h.erase f key).table, .erased (h.erase f key).found)
  | .clear => some (h.clear, .cleared)

/-- A sequence of operations on the compiler's table, with the answers. -/
def HashTable.run (f : Hasher K) : HashTable K V → List (Request K V) →
    Option (HashTable K V × List (Answer V))
  | h, [] => some (h, [])
  | h, r :: rest =>
    (h.perform f r).bind fun x => (HashTable.run f x.1 rest).map fun y => (y.1, x.2 :: y.2)

/-- The same sequence on the runtime's table. -/
def runAnswers (vt : Vtable K) : Table K V → List (Request K V × Outcome) →
    Table K V × List (Answer V)
  | t, [] => (t, [])
  | t, (r, o) :: rest =>
    let y := runAnswers vt (perform vt o t r.op).table rest
    (y.1, answer vt o t r :: y.2)

/-- No allocation fails and no `rehash_begin` refuses, and the generation stays below its limit. -/
def Undisturbed (vt : Vtable K) : Table K V → List (Request K V × Outcome) → Prop
  | t, [] => t.generation < uint64Max
  | t, (r, o) :: rest => t.generation < uint64Max ∧ o.rehashBegin = .ok ∧
      (perform vt o t r.op).status ≠ .outOfMemory ∧ Undisturbed vt (perform vt o t r.op).table rest

lemma Undisturbed.generation {xs : List (Request K V × Outcome)} (hu : Undisturbed vt t xs) :
    t.generation ≠ uint64Max := by
  cases xs with
  | nil => exact Nat.ne_of_lt hu
  | cons x rest => exact Nat.ne_of_lt hu.1

lemma sameStatus.overflow {s : Status} {s' : HashTable.Status} (hs : sameStatus s s') :
    (s = .capacityOverflow) ↔ s' = .capacityOverflow := by
  cases s <;> cases s' <;> first | exact hs.elim | simp

lemma Agrees.perform (ha : Agrees vt f t h) (hv : t.Valid vt) {o : Outcome} (r : Request K V)
    (hbits : vt.pointerBits = 64) (hgen : t.generation ≠ uint64Max) (hbegin : o.rehashBegin = .ok)
    (hmemory : (perform vt o t r.op).status ≠ .outOfMemory)
    (hgen' : (perform vt o t r.op).table.generation ≠ uint64Max) :
    ∃ h', h.perform f r = some (h', answer vt o t r) ∧
      Agrees vt f (perform vt o t r.op).table h' := by
  cases r with
  | reserve requested =>
    obtain ⟨status, h', hh', hsame, ha'⟩ := ha.reserve hv requested hgen hbits hbegin hmemory
    refine ⟨h', ?_, ha'⟩
    rw [HashTable.perform, hh', answer]
    simp [hsame.overflow]
  | insert key value buffer =>
    obtain ⟨inserted, hh', hsame, hflag, ha'⟩ :=
      ha.insert hv key value buffer hgen hgen' hbits hbegin hmemory
    refine ⟨inserted.table, ?_, ha'⟩
    rw [HashTable.perform, hh', answer, Container.insert]
    simp [hsame.overflow, hflag]
  | find key =>
    refine ⟨h, ?_, ha⟩
    rw [HashTable.perform, answer, find_eq ha]
  | erase key buffer =>
    obtain ⟨hflag, ha'⟩ := ha.erase key buffer hgen
    refine ⟨_, ?_, ha'⟩
    rw [HashTable.perform, answer, hflag]
    simp
  | clear => exact ⟨h.clear, rfl, ha.clear hgen⟩

lemma Agrees.run (hbits : vt.pointerBits = 64) (xs : List (Request K V × Outcome)) :
    ∀ (t : Table K V) (h : HashTable K V), Agrees vt f t h → t.Valid vt → Undisturbed vt t xs →
      ∃ h', HashTable.run f h (xs.map Prod.fst) = some (h', (runAnswers vt t xs).2) ∧
        Agrees vt f (runAnswers vt t xs).1 h' := by
  induction xs with
  | nil => exact fun t h ha _ _ => ⟨h, rfl, ha⟩
  | cons x rest ih =>
    intro t h ha hv hu
    obtain ⟨r, o⟩ := x
    obtain ⟨-, hbegin, hmemory, hrest⟩ := id hu
    obtain ⟨h₁, hh₁, ha₁⟩ :=
      ha.perform hv r hbits hu.generation hbegin hmemory hrest.generation
    obtain ⟨h₂, hh₂, ha₂⟩ := ih _ h₁ ha₁ (hv.perform o r.op).1 hrest
    refine ⟨h₂, ?_, ha₂⟩
    rw [List.map_cons, HashTable.run, hh₁]
    show (HashTable.run f h₁ (rest.map Prod.fst)).map _ = _
    rw [hh₂]
    rfl

/-- What can be compared of the two tables. -/
structure SameTable (t : Table K V) (h : HashTable K V) : Prop where
  capacity : t.capacity = h.capacity
  size : t.size = h.size
  deleted : t.deleted = h.deleted
  state : ∀ i, (t.slotAt i).metadata = (h.bucketAt i).state
  key : ∀ i k v, t.slotAt i = .occupied k v → (h.bucketAt i).key = some k ∧
    (h.bucketAt i).value = some v

lemma Agrees.sameTable (ha : Agrees vt f t h) : SameTable t h where
  capacity := ha.capacity
  size := ha.size
  deleted := ha.deleted
  state := fun i => (ha.slotAt i).state.symm
  key := fun i k v hi => by
    have hslot := ha.slotAt i
    rw [hi] at hslot
    cases hslot with
    | occupied state hash hkey value => exact ⟨hkey, value⟩

/-- **The two tables are one algorithm.**  With the same hash of every key, every sequence of
operations leaves both in the same state and gets the same answers from both. -/
theorem run_sameTable (vt : Vtable K) (f : Hasher K) (seed : UInt64) (hbits : vt.pointerBits = 64)
    (hhash : ∀ k, f.hash k ^^^ seed = vt.hash k seed) (hequal : f.equal = vt.equal)
    (xs : List (Request K V × Outcome)) (hu : Undisturbed vt (init seed) xs) :
    ∃ h, HashTable.run f (HashTable.create seed) (xs.map Prod.fst) =
        some (h, (runAnswers vt (init seed) xs).2) ∧
      SameTable (runAnswers vt (init seed) xs).1 h := by
  have hinit : Agrees vt f (init seed : Table K V) (HashTable.create seed) := {
    slots := .nil
    capacity := rfl
    size := rfl
    deleted := rfl
    hash := fun k => congrArg UInt64.toNat (hhash k)
    equal := hequal }
  obtain ⟨h, hrun, ha⟩ := Agrees.run hbits xs _ _ hinit (valid_init seed) hu
  exact ⟨h, hrun, ha.sameTable⟩

/-- Two keys that meet in a slot; the first is erased. -/
def colliding : List (Request ℕ ℕ × Outcome) :=
  [(.insert 1 5 false, granted), (.insert 9 6 true, granted), (.erase 1 false, granted),
    (.find 9, granted)]

theorem colliding_sameTable : ∃ h,
    HashTable.run ⟨UInt64.ofNat, fun k l => k == l⟩ (HashTable.create 0) (colliding.map Prod.fst) =
      some (h, [.inserted false false, .inserted false false, .erased true, .found (some 6)]) ∧
    SameTable (runAnswers numbers (init 0) colliding).1 h := by
  have hundisturbed : Undisturbed numbers (init 0) colliding := by
    refine ⟨by decide, rfl, by decide, by decide, rfl, by decide,
      by decide, rfl, by decide, by decide, rfl, by decide, ?_⟩
    show (_ : ℕ) < _
    decide
  have hanswers : (runAnswers numbers (init 0) colliding).2 =
      [.inserted false false, .inserted false false, .erased true, .found (some 6)] := by
    decide
  rw [← hanswers]
  refine run_sameTable numbers ⟨UInt64.ofNat, fun k l => k == l⟩ 0 rfl ?_ rfl colliding hundisturbed
  intro k
  simp [numbers]

end Container

end Chtholly
