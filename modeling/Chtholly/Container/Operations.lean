import Mathlib.Data.Multiset.AddSub
import Chtholly.Container.Invariant

/-!
# What the operations do

Each operation keeps the invariant, and what it does to the table is told in terms of the pairs
in it: a rehash permutes them, `insert` adds a pair or puts a new value beside a key, `erase`
takes a pair out.  The callback calls account for the objects: what has moved in and was there
is what has moved out, was dropped, or is there now.

## Main definitions

* `Container.Balanced` — the calls account for the pairs before and after.
* `Container.Reply.Kept`, `Stored`, `Replaced`, `Buried`, `Cleared` — what an operation did.

## Main results

* `Container.reserve_spec`, `insertPair_spec`, `erase_spec`, `clear_spec` — one lemma for each
  operation, from any table with the invariant.
-/

set_option autoImplicit false

namespace Chtholly

namespace Container

variable {K V : Type} {vt : Vtable K} {t : Table K V}

/-! ## Accounting for objects -/

/-- The keys that moved from callers into slots. -/
def keysIn (calls : List (Call K V)) : Multiset K :=
  calls.filterMap fun
    | .moveKeyIn k => some k
    | _ => none

/-- The keys that were dropped in slots. -/
def keysDropped (calls : List (Call K V)) : Multiset K :=
  calls.filterMap fun
    | .dropKey k => some k
    | _ => none

/-- The values that moved from callers into slots. -/
def valuesIn (calls : List (Call K V)) : Multiset V :=
  calls.filterMap fun
    | .moveValueIn v => some v
    | _ => none

/-- The values that moved from slots to callers. -/
def valuesOut (calls : List (Call K V)) : Multiset V :=
  calls.filterMap fun
    | .moveValueOut v => some v
    | _ => none

/-- The values that were dropped in slots. -/
def valuesDropped (calls : List (Call K V)) : Multiset V :=
  calls.filterMap fun
    | .dropValue v => some v
    | _ => none

/-- The calls account for the pairs before and after them. -/
structure Balanced (before after : List (K × V)) (calls : List (Call K V)) : Prop where
  keys : keysIn calls + (before.map Prod.fst : Multiset K) =
    keysDropped calls + (after.map Prod.fst : Multiset K)
  values : valuesIn calls + (before.map Prod.snd : Multiset V) =
    valuesOut calls + valuesDropped calls + (after.map Prod.snd : Multiset V)

lemma coe_filterMap_append {α β : Type} (f : α → Option β) (l l' : List α) :
    ((l ++ l').filterMap f : Multiset β) = (l.filterMap f : Multiset β) + l'.filterMap f := by
  rw [List.filterMap_append, Multiset.coe_add]

variable {calls : List (Call K V)}

lemma Balanced.perm {before before' after after' : List (K × V)} (h : Balanced before after calls)
    (h₁ : before.Perm before') (h₂ : after.Perm after') : Balanced before' after' calls where
  keys := by
    rw [← Multiset.coe_eq_coe.2 (h₁.map Prod.fst), ← Multiset.coe_eq_coe.2 (h₂.map Prod.fst)]
    exact h.keys
  values := by
    rw [← Multiset.coe_eq_coe.2 (h₁.map Prod.snd), ← Multiset.coe_eq_coe.2 (h₂.map Prod.snd)]
    exact h.values

/-- Two balances in a row. -/
lemma add_balance {α : Type} {i₁ i₂ o₁ o₂ a b c : Multiset α} (h₁ : i₁ + a = o₁ + b)
    (h₂ : i₂ + b = o₂ + c) : i₁ + i₂ + a = o₁ + o₂ + c := by
  calc i₁ + i₂ + a = i₂ + (i₁ + a) := by ac_rfl
    _ = i₂ + (o₁ + b) := by rw [h₁]
    _ = o₁ + (i₂ + b) := by ac_rfl
    _ = o₁ + (o₂ + c) := by rw [h₂]
    _ = o₁ + o₂ + c := by ac_rfl

lemma Balanced.trans {a b c : List (K × V)} {calls' : List (Call K V)} (h : Balanced a b calls)
    (h' : Balanced b c calls') : Balanced a c (calls ++ calls') where
  keys := by
    rw [keysIn, keysDropped, coe_filterMap_append, coe_filterMap_append]
    exact add_balance h.keys h'.keys
  values := by
    have hsum := add_balance h.values h'.values
    rw [valuesIn, valuesOut, valuesDropped, coe_filterMap_append, coe_filterMap_append,
      coe_filterMap_append]
    refine hsum.trans ?_
    simp only [valuesOut, valuesDropped]
    ac_rfl

/-- Calls that only relocate leave the account as it is. -/
def Call.relocates : Call K V → Bool
  | .relocateKey _ => true
  | .relocateValue _ => true
  | _ => false

lemma balanced_of_relocates {before after : List (K × V)} (hperm : before.Perm after)
    (h : ∀ c ∈ calls, c.relocates = true) : Balanced before after calls := by
  have hnone : ∀ {β : Type} (f : Call K V → Option β), (∀ c, c.relocates = true → f c = none) →
      calls.filterMap f = [] := by
    intro β f hf
    exact List.filterMap_eq_nil_iff.2 fun c hc => hf c (h c hc)
  have hkeys := Multiset.coe_eq_coe.2 (hperm.map Prod.fst)
  have hvalues := Multiset.coe_eq_coe.2 (hperm.map Prod.snd)
  constructor
  · rw [keysIn, keysDropped, hnone _ (by intro c hc; cases c <;> simp_all [Call.relocates]),
      hnone _ (by intro c hc; cases c <;> simp_all [Call.relocates]), hkeys]
  · rw [valuesIn, valuesOut, valuesDropped,
      hnone _ (by intro c hc; cases c <;> simp_all [Call.relocates]),
      hnone _ (by intro c hc; cases c <;> simp_all [Call.relocates]),
      hnone _ (by intro c hc; cases c <;> simp_all [Call.relocates]), hvalues]
    rfl

lemma relocates_relocateCalls (t : Table K V) : ∀ c ∈ relocateCalls t, c.relocates = true := by
  intro c hc
  rw [relocateCalls, List.mem_flatMap] at hc
  obtain ⟨s, -, hc⟩ := hc
  cases s with
  | occupied k v =>
    rcases List.mem_cons.1 hc with rfl | hc
    · rfl
    · rw [List.mem_singleton.1 hc]
      rfl
  | empty => cases hc
  | deleted => cases hc

/-- Dropping all slots accounts for every pair. -/
lemma balanced_dropSlots (t : Table K V) : Balanced (entries t.slots) [] (dropSlots t) := by
  rw [dropSlots]
  induction t.slots with
  | nil => exact ⟨rfl, rfl⟩
  | cons s rest ih =>
    rw [List.flatMap_cons]
    cases s with
    | empty => exact ih
    | deleted => exact ih
    | occupied k v =>
      have hone : Balanced (entries (.occupied k v :: rest)) (entries rest)
          [.dropKey k, .dropValue v] := by
        constructor
        · exact Multiset.zero_add _
        · exact Multiset.zero_add _
      exact hone.trans ih

/-! ## The generation -/

@[simp] lemma bumpGeneration_slots : (bumpGeneration t).2.slots = t.slots := by
  rw [bumpGeneration]
  split <;> rfl

lemma bumpGeneration_status :
    (bumpGeneration t).1 = if t.generation = uint64Max then .generationOverflow else .ok := by
  rw [bumpGeneration]
  split <;> rfl

lemma bumpGeneration_of_ne (h : t.generation ≠ uint64Max) :
    bumpGeneration t = (.ok, { t with generation := t.generation + 1 }) := by
  rw [bumpGeneration, if_neg h]

lemma Table.Valid.bump (h : t.Valid vt) : (bumpGeneration t).2.Valid vt := by
  rw [bumpGeneration]
  split
  · exact h
  · rename_i hne
    exact { h with generation := Nat.succ_le_of_lt (lt_of_le_of_ne h.generation hne) }

/-! ## Rehashing -/

/-- The reply of an operation that left the pairs as they were. -/
structure Reply.Kept (vt : Vtable K) (t : Table K V) (r : Reply K V) : Prop where
  valid : r.table.Valid vt
  perm : (entries r.table.slots).Perm (entries t.slots)
  relocates : ∀ c ∈ r.calls, c.relocates = true

variable {r : Reply K V}

lemma Table.Valid.kept_of_eq (h : t.Valid vt) (htable : r.table = t) (hcalls : r.calls = []) :
    r.Kept vt t where
  valid := htable ▸ h
  perm := htable ▸ List.Perm.refl _
  relocates c hc := by
    rw [hcalls] at hc
    cases hc

/-- The reply of a `reserve` that moved the pairs into a larger table. -/
structure Reply.Rehashed (vt : Vtable K) (t : Table K V) (r : Reply K V) : Prop
    extends r.Kept vt t where
  status : r.status = .ok
  generation : r.table.generation = t.generation + 1
  deleted : r.table.deleted = 0
  eight_le : 8 ≤ r.table.capacity
  double_le : 2 * t.capacity ≤ r.table.capacity

lemma growCapacity_eq_some {requested : ℕ} : ∀ (fuel capacity : ℕ) {c : ℕ},
    growCapacity requested fuel capacity = some c →
      requested ≤ c ∧ ∃ j, c = capacity * 2 ^ j
  | 0, _, _, h => by cases h
  | fuel + 1, capacity, c, h => by
    rw [growCapacity] at h
    split at h
    · split at h
      · cases h
      · obtain ⟨hle, j, hj⟩ := growCapacity_eq_some fuel (capacity * 2) h
        exact ⟨hle, j + 1, by rw [hj, pow_succ', Nat.mul_assoc]⟩
    · cases h
      exact ⟨by omega, 0, by rw [pow_zero, Nat.mul_one]⟩

/-- A larger capacity is a larger power of two. -/
lemma Table.Valid.growCapacity_spec (h : t.Valid vt) {requested c : ℕ}
    (hlt : t.capacity < requested)
    (hgrow : growCapacity requested 64 (if t.capacity = 0 then 8 else t.capacity) = some c) :
    requested ≤ c ∧ 2 * t.capacity ≤ c ∧ ∃ n, 3 ≤ n ∧ c = 2 ^ n := by
  obtain ⟨hle, j, hj⟩ := growCapacity_eq_some _ _ hgrow
  split at hj
  · rename_i hzero
    have hpow : c = 2 ^ (3 + j) := by rw [hj, pow_add]; rfl
    exact ⟨hle, by omega, 3 + j, by omega, hpow⟩
  · rename_i hne
    obtain ⟨n, hn, -, hcap⟩ := h.capacity_eq hne
    cases j with
    | zero => omega
    | succ j =>
      refine ⟨hle, ?_, n + (j + 1), by omega, by rw [hj, hcap, pow_add 2 n]⟩
      have : 1 ≤ 2 ^ j := Nat.one_le_two_pow
      calc 2 * t.capacity = t.capacity * (1 * 2) := by omega
        _ ≤ t.capacity * (2 ^ j * 2) := Nat.mul_le_mul_left _ (Nat.mul_le_mul_right _ this)
        _ = c := by rw [hj, pow_succ]

variable {capacity : ℕ}

lemma allocateArrays_fits {o : Outcome} (h : allocateArrays vt o capacity = true) :
    3 * capacity ≤ 2 ^ vt.pointerBits := by
  simp only [allocateArrays, Bool.and_eq_true, decide_eq_true_eq] at h
  have hk : capacity ≤ capacity * vt.keySize := Nat.le_mul_of_pos_right _ vt.keySize_pos
  have hv : capacity ≤ capacity * vt.valueSize := Nat.le_mul_of_pos_right _ vt.valueSize_pos
  omega

/-- A power of two of bytes that fits three times into the address space. -/
lemma exponent_le_of_fits {n : ℕ} (h : 3 * 2 ^ n ≤ 2 ^ vt.pointerBits) : n ≤ 62 := by
  have hbits : 2 ^ vt.pointerBits ≤ 2 ^ 64 :=
    Nat.pow_le_pow_right (by omega) (by have := vt.pointerBits_eq; omega)
  by_contra hgt
  have : 2 ^ 63 ≤ 2 ^ n := Nat.pow_le_pow_right (by omega) (by omega)
  omega

/-- The commit of a rehash, for slots chosen by the first loop. -/
lemma Table.Valid.relocation_commit (h : t.Valid vt) {n : ℕ} (hn : 3 ≤ n)
    (hcap : capacity = 2 ^ n) (hdouble : 2 * t.capacity ≤ capacity)
    (hfits : 3 * capacity ≤ 2 ^ vt.pointerBits) (hgen : t.generation ≠ uint64Max) :
    ∃ chosen, relocation vt t capacity t.slots (List.replicate capacity .empty) = some chosen ∧
      (commitRehash t capacity chosen).Rehashed vt t := by
  have hn' : n ≤ 62 := exponent_le_of_fits (hcap ▸ hfits)
  have h8 : 2 ^ 3 ≤ capacity := by
    rw [hcap]
    exact Nat.pow_le_pow_right (by omega) hn
  have hload := h.load
  have hsize := h.size
  have hnil : entries (List.replicate capacity (.empty : Slot K V)) = [] := by
    rw [entries, List.filterMap_replicate_of_none rfl]
  have hroom : (entries t.slots).length +
      (entries (List.replicate capacity (.empty : Slot K V))).length ≤ capacity := by
    rw [hnil, List.length_nil, ← hsize]
    omega
  obtain ⟨chosen, hchosen, hlen, hfresh, hperm⟩ :=
    relocation_spec (Nat.le_succ_of_le hn') hcap t.slots _ (fresh_replicate vt t capacity) hroom
  rw [List.map_replicate] at hchosen
  rw [hnil, List.append_nil] at hperm
  refine ⟨chosen, hchosen, ?_⟩
  have hvalid : Table.Valid vt { t with
      slots := moveObjects t.slots chosen (List.replicate capacity .empty)
      capacity := capacity, size := chosen.length, deleted := 0 } := {
    length := hfresh.length
    capacity := Or.inr ⟨n, hn, hcap⟩
    fits := hfits
    size := by rw [hlen, hperm.length_eq]
    deleted := hfresh.tombstones.symm
    load := by
      show 4 * (chosen.length + 0) ≤ 3 * capacity
      rw [hlen, ← hsize]
      omega
    generation := h.generation
    reached := hfresh.reached
    distinct := (distinct_perm hperm).2 h.distinct }
  have hbump := bumpGeneration_of_ne (t := { t with
    slots := moveObjects t.slots chosen (List.replicate capacity .empty)
    capacity := capacity, size := chosen.length, deleted := 0 }) hgen
  rw [commitRehash, hbump]
  exact {
    valid := by
      have := hvalid.bump
      rwa [hbump] at this
    perm := hperm
    relocates := relocates_relocateCalls t
    status := rfl
    generation := rfl
    deleted := rfl
    eight_le := h8
    double_le := hdouble }

/-- With a new capacity chosen, `reserve` either changes nothing and fails, or rehashes. -/
lemma Table.Valid.rehash_spec (h : t.Valid vt) (o : Outcome) {n : ℕ} (hn : 3 ≤ n)
    (hcap : capacity = 2 ^ n) (hdouble : 2 * t.capacity ≤ capacity)
    (hgen : t.generation ≠ uint64Max) :
    ((rehash vt o t capacity).table = t ∧ (rehash vt o t capacity).calls = [] ∧
      (rehash vt o t capacity).status ≠ .ok) ∨ (rehash vt o t capacity).Rehashed vt t := by
  rw [rehash]
  split_ifs with hmax halloc hbegin hsize hreloc
  · exact Or.inl ⟨rfl, rfl, by simp [Reply.unchanged]⟩
  · exact Or.inl ⟨rfl, rfl, by simp [Reply.unchanged]⟩
  · exact Or.inl ⟨rfl, rfl, hbegin⟩
  · exact Or.inl ⟨rfl, rfl, by simp [Reply.unchanged]⟩
  · exact Or.inl ⟨rfl, rfl, by simp [Reply.unchanged]⟩
  · obtain ⟨chosen, hchosen, hres⟩ := h.relocation_commit hn hcap hdouble
      (allocateArrays_fits (by simpa using halloc)) hgen
    rw [hchosen]
    exact Or.inr hres

/-- `reserve` either changes nothing or rehashes. -/
lemma Table.Valid.reserve_spec (h : t.Valid vt) (o : Outcome) (requested : ℕ) :
    ((reserve vt o t requested).table = t ∧ (reserve vt o t requested).calls = [] ∧
      ((reserve vt o t requested).status = .ok → requested ≤ t.capacity)) ∨
    (reserve vt o t requested).Rehashed vt t := by
  by_cases hle : requested ≤ t.capacity
  · rw [reserve, if_pos hle]
    exact Or.inl ⟨rfl, rfl, fun _ => hle⟩
  by_cases hgen : t.generation = uint64Max
  · rw [reserve, if_neg hle, if_pos hgen]
    exact Or.inl ⟨rfl, rfl, fun hs => by cases hs⟩
  rw [reserve, if_neg hle, if_neg hgen]
  cases hgrow : growCapacity requested 64 (if t.capacity = 0 then 8 else t.capacity) with
  | none => exact Or.inl ⟨rfl, rfl, fun hs => by cases hs⟩
  | some c =>
    obtain ⟨-, hdouble, n, hn, hc⟩ := h.growCapacity_spec (by omega) hgrow
    rcases h.rehash_spec o hn hc hdouble hgen with ⟨htable, hcalls, hstatus⟩ | hres
    · exact Or.inl ⟨htable, hcalls, fun hs => absurd hs hstatus⟩
    · exact Or.inr hres

/-! ## Inserting -/

/-- The reply of an `insert` of a key that the table did not hold. -/
structure Reply.Stored (vt : Vtable K) (t : Table K V) (key : K) (value : V) (r : Reply K V) :
    Prop where
  valid : r.table.Valid vt
  fresh : ∀ x ∈ entries t.slots, vt.equal x.1 key = false
  perm : (entries r.table.slots).Perm ((key, value) :: entries t.slots)
  balanced : Balanced (entries t.slots) (entries r.table.slots) r.calls
  status : r.status = .ok

/-- The reply of an `insert` of a key that the table holds; `calls` shows that the caller's
value has moved. -/
structure Reply.Replaced (vt : Vtable K) (t : Table K V) (key : K) (value : V)
    (r : Reply K V) : Prop where
  valid : r.table.Valid vt
  pairs : ∃ k old rest, vt.equal k key = true ∧ (entries t.slots).Perm ((k, old) :: rest) ∧
    (entries r.table.slots).Perm ((k, value) :: rest)
  balanced : Balanced (entries t.slots) (entries r.table.slots) r.calls
  calls : .moveValueIn value ∈ r.calls

variable {key : K}

/-- What an operation does after a rehash it does to the pairs from before. -/
lemma Reply.Stored.of_kept {g : Reply K V} {value : V} (hg : g.Kept vt t)
    (h : r.Stored vt g.table key value) :
    Reply.Stored vt t key value { r with calls := g.calls ++ r.calls } where
  valid := h.valid
  fresh x hx := h.fresh x (hg.perm.mem_iff.2 hx)
  perm := h.perm.trans (hg.perm.cons _)
  balanced := (balanced_of_relocates hg.perm.symm hg.relocates).trans h.balanced
  status := h.status

lemma Reply.Replaced.of_kept {g : Reply K V} {value : V} (hg : g.Kept vt t)
    (h : r.Replaced vt g.table key value) :
    Reply.Replaced vt t key value { r with calls := g.calls ++ r.calls } where
  valid := h.valid
  pairs := by
    obtain ⟨k, old, rest, hk, hbefore, hafter⟩ := h.pairs
    exact ⟨k, old, rest, hk, hg.perm.symm.trans hbefore, hafter⟩
  balanced := (balanced_of_relocates hg.perm.symm hg.relocates).trans h.balanced
  calls := List.mem_append_right _ h.calls

/-- There is room for one more pair below the load limit. -/
def HasRoom (t : Table K V) : Prop := 4 * (t.size + t.deleted) + 4 ≤ 3 * t.capacity

/-- A key and a value move into an empty slot or a tombstone that the key's hash reaches. -/
lemma Table.Valid.stored (h : t.Valid vt) {slot : ℕ} {tombstone : Bool} {value : V}
    (hroom : HasRoom t) (hslot : slot < t.capacity)
    (hkind : t.slotAt slot = if tombstone then .deleted else .empty)
    (hfresh : ∀ x ∈ entries t.slots, vt.equal x.1 key = false)
    (hreach : Reaches t.slots t.capacity (t.hashOf vt key) slot) (hgen : t.generation ≠ uint64Max) :
    (store t slot tombstone key value).Stored vt t key value := by
  have hlt : slot < t.slots.length := by
    rw [h.length]
    exact hslot
  have hentry : (t.slots.getD slot .empty).entry = none := by
    rw [slotAt] at hkind
    rw [hkind]
    cases tombstone <;> rfl
  have hperm := entries_set_occupied hlt hentry (k := key) (v := value)
  have htomb : tombstones (t.slots.set slot (.occupied key value)) +
      (if tombstone then 1 else 0) = tombstones t.slots := by
    have hset := tombstones_set hlt (.occupied key value)
    rw [slotAt] at hkind
    rw [hkind] at hset
    cases tombstone <;> simpa [Slot.metadata] using hset
  have hload := h.load
  have hsize := h.size
  have hdel := h.deleted
  have hvalid : Table.Valid vt { t with
      slots := t.slots.set slot (.occupied key value)
      deleted := if tombstone then t.deleted - 1 else t.deleted
      size := t.size + 1 } := {
    length := by rw [List.length_set, h.length]
    capacity := h.capacity
    fits := h.fits
    size := by rw [hperm.length_eq, List.length_cons, ← hsize]
    deleted := by
      rw [hdel, ← htomb]
      cases tombstone <;> rfl
    load := by
      rw [HasRoom] at hroom
      cases tombstone with
      | true =>
        show 4 * (t.size + 1 + (t.deleted - 1)) ≤ 3 * t.capacity
        omega
      | false =>
        show 4 * (t.size + 1 + t.deleted) ≤ 3 * t.capacity
        omega
    generation := h.generation
    reached {i k v} hi := by
      rw [slotAt, getD_set _ _ _ hlt] at hi
      split at hi
      · rename_i his
        cases hi
        subst his
        exact hreach.set hlt (by simp)
      · exact (h.reached hi).set hlt (by simp)
    distinct := by
      rw [distinct_perm hperm, List.pairwise_cons]
      refine ⟨fun x hx => ?_, h.distinct⟩
      by_contra hne
      have := vt.equal_symm (by simpa using hne : vt.equal key x.1 = true)
      rw [hfresh x hx] at this
      cases this }
  have hbump := bumpGeneration_of_ne (t := { t with
    slots := t.slots.set slot (.occupied key value)
    deleted := if tombstone then t.deleted - 1 else t.deleted
    size := t.size + 1 }) hgen
  rw [store, hbump]
  exact {
    valid := by
      have := hvalid.bump
      rwa [hbump] at this
    fresh := hfresh
    perm := hperm
    balanced := by
      have hone : Balanced (entries t.slots) ((key, value) :: entries t.slots)
          [.moveKeyIn key, .moveValueIn value] := ⟨rfl, rfl⟩
      exact hone.perm (List.Perm.refl _) hperm.symm
    status := rfl }

/-- The value of a slot that stays occupied by its key gives way to another. -/
lemma Table.Valid.replaced (h : t.Valid vt) {slot : ℕ} {k : K} {old : V} (value : V)
    (replacedValue : Bool) (hslot : t.slotAt slot = .occupied k old) (hk : vt.equal k key = true) :
    (replace t slot replacedValue key value).Replaced vt t key value ∧
      (replace t slot replacedValue key value).status =
        if t.generation = uint64Max then .generationOverflow else .ok := by
  have hlt : slot < t.slots.length := lt_length_of_getD (by rw [slotAt] at hslot; rw [hslot]; simp)
  obtain ⟨rest, hbefore, hafter⟩ := entries_set_value hslot value
  have htomb := tombstones_set hlt (.occupied k value)
  rw [slotAt] at hslot
  rw [hslot] at htomb
  have hlen := hbefore.length_eq
  have hlen' := hafter.length_eq
  rw [List.length_cons] at hlen hlen'
  have hvalid : Table.Valid vt { t with slots := t.slots.set slot (.occupied k value) } := {
    length := by rw [List.length_set, h.length]
    capacity := h.capacity
    fits := h.fits
    size := by rw [hlen', ← hlen, h.size]
    deleted := by
      rw [h.deleted]
      exact (Nat.add_right_cancel htomb).symm
    load := h.load
    generation := h.generation
    reached {i l w} hi := by
      rw [slotAt, getD_set _ _ _ hlt] at hi
      split at hi
      · rename_i his
        cases hi
        subst his
        exact (h.reached hslot).set hlt (by simp)
      · exact (h.reached hi).set hlt (by simp)
    distinct := by
      have hdist := (distinct_perm hbefore).1 h.distinct
      rw [distinct_perm hafter]
      rw [List.pairwise_cons] at hdist ⊢
      exact hdist }
  rw [replace, slotAt, hslot]
  refine ⟨⟨hvalid.bump, ⟨k, old, rest, hk, hbefore, ?_⟩, ?_, by simp⟩, bumpGeneration_status⟩
  · rw [bumpGeneration_slots]
    exact hafter
  · rw [bumpGeneration_slots]
    have hone : Balanced ((k, old) :: rest) ((k, value) :: rest)
        [if replacedValue then .moveValueOut old else .dropValue old, .moveValueIn value,
          .dropCallerKey key] := by
      have hswap := Multiset.cons_swap value old (rest.map Prod.snd : Multiset V)
      cases replacedValue with
      | true => exact ⟨rfl, hswap⟩
      | false => exact ⟨rfl, hswap⟩
    exact hone.perm hbefore.symm hafter.symm

/-- The part of `insert` after the growth. -/
lemma Table.Valid.insertGrown_spec (h : t.Valid vt) (hroom : HasRoom t) (key : K) (value : V)
    (replacedValue : Bool) :
    ((∃ x ∈ entries t.slots, vt.equal x.1 key = true) ∧
      (insertGrown vt t key value replacedValue).Replaced vt t key value ∧
      (insertGrown vt t key value replacedValue).status =
        if t.generation = uint64Max then .generationOverflow else .ok) ∨
    (∀ x ∈ entries t.slots, vt.equal x.1 key = false) ∧
      ((t.generation = uint64Max ∧ insertGrown vt t key value replacedValue =
          { status := .generationOverflow, table := t, calls := [], flag := some false }) ∨
        (insertGrown vt t key value replacedValue).Stored vt t key value) := by
  have hload : t.size + t.deleted < t.capacity := by
    rw [HasRoom] at hroom
    omega
  rw [insertGrown]
  rcases h.landing_spec key hload with
    ⟨slot, k, v, hland, hslot, hk⟩ | ⟨slot, tombstone, hland, hfresh, htomb, hslot, hlt, hreach⟩
  · rw [hland]
    exact Or.inl ⟨⟨(k, v), mem_entries.2 ⟨slot, hslot⟩, hk⟩,
      h.replaced value replacedValue hslot hk⟩
  · rw [hland]
    refine Or.inr ⟨hfresh, ?_⟩
    by_cases hgen : t.generation = uint64Max
    · exact Or.inl ⟨hgen, if_pos hgen⟩
    · right
      show (if t.generation = uint64Max then _ else _ : Reply K V).Stored vt t key value
      rw [if_neg hgen]
      cases tombstone with
      | none => exact h.stored hroom hlt hslot hfresh hreach hgen
      | some j =>
        have hj : t.slotAt j = .deleted := htomb j rfl
        have hjlt : j < t.capacity := by
          rw [← h.length]
          exact lt_length_of_getD (by rw [slotAt] at hj; rw [hj]; simp)
        exact h.stored hroom hjlt hj hfresh hreach hgen

/-- Without growth there is room below the load limit. -/
lemma hasRoom_of_needsGrowth (h : needsGrowth t = false) : HasRoom t := by
  simp only [needsGrowth, Bool.or_eq_false_iff, Bool.and_eq_false_iff, decide_eq_false_iff_not]
    at h
  rw [HasRoom]
  omega

/-- After growth there is room below the load limit. -/
lemma Reply.Rehashed.hasRoom (h : t.Valid vt) (hr : r.Rehashed vt t) : HasRoom r.table := by
  have hsize : r.table.size = t.size := by
    rw [hr.valid.size, h.size, hr.perm.length_eq]
  have := h.load
  have := hr.eight_le
  have := hr.double_le
  rw [HasRoom, hsize, hr.deleted]
  omega

/-- The capacity that `insert` asks for. -/
def grownCapacity (t : Table K V) : ℕ := if t.capacity = 0 then 8 else t.capacity * 2

/-- The generation once `insert` had its chance to grow the table. -/
def grownGeneration (t : Table K V) : ℕ :=
  if needsGrowth t then t.generation + 1 else t.generation

/-- What `insert` of a key and a value does: nothing, and with an equal key in the table only
for lack of a generation or of memory; or, after the growth it needs, the pair is new, or it
takes the place of the pair with an equal key.  Only in the last case the status may tell of a
failure although the pairs changed, and then the generation has reached its limit. -/
lemma Table.Valid.insertPair_spec (h : t.Valid vt) (o : Outcome) (key : K) (value : V)
    (replacedValue : Bool) :
    ((insertPair vt o t key value replacedValue).Kept vt t ∧
      (insertPair vt o t key value replacedValue).status ≠ .ok ∧
      ((∃ x ∈ entries t.slots, vt.equal x.1 key = true) → t.generation = uint64Max ∨
        needsGrowth t = true ∧ (reserve vt o t (grownCapacity t)).status ≠ .ok)) ∨
    (insertPair vt o t key value replacedValue).Stored vt t key value ∨
    ((∃ x ∈ entries t.slots, vt.equal x.1 key = true) ∧ t.generation ≠ uint64Max ∧
      (needsGrowth t = true → (reserve vt o t (grownCapacity t)).status = .ok) ∧
      (insertPair vt o t key value replacedValue).Replaced vt t key value ∧
      (insertPair vt o t key value replacedValue).status =
        if grownGeneration t = uint64Max then .generationOverflow else .ok) := by
  by_cases hgen : t.generation = uint64Max
  · rw [insertPair, if_pos hgen]
    exact Or.inl ⟨h.kept_of_eq rfl rfl, by simp [Reply.unchanged], fun _ => Or.inl hgen⟩
  by_cases hgrow : needsGrowth t = true
  · have hmax : ¬ uint64Max / 2 < t.capacity := by
      have := h.capacity_le
      rw [show uint64Max / 2 = 2 ^ 63 - 1 by decide]
      omega
    rw [insertPair, if_neg hgen, if_pos hgrow, if_neg hmax]
    rw [← grownCapacity]
    rcases h.reserve_spec o (grownCapacity t) with ⟨htable, hcalls, hstatus⟩ | hre
    · -- a growth that changed nothing has failed
      have hfail : (reserve vt o t (grownCapacity t)).status ≠ .ok := by
        intro hok
        have := hstatus hok
        rw [grownCapacity] at this
        split at this <;> omega
      simp only [if_pos hfail]
      exact Or.inl ⟨h.kept_of_eq htable hcalls, hfail, fun _ => Or.inr ⟨hgrow, hfail⟩⟩
    · simp only [hre.status, ne_eq, not_true_eq_false, if_false]
      rcases hre.valid.insertGrown_spec (hre.hasRoom h) key value replacedValue with
        ⟨⟨x, hx, heq⟩, hrep, hs⟩ | ⟨hfresh, ⟨hg, hr⟩ | hst⟩
      · refine Or.inr (Or.inr ⟨⟨x, hre.perm.mem_iff.1 hx, heq⟩, hgen, fun _ => trivial,
          hrep.of_kept hre.toKept, ?_⟩)
        rw [grownGeneration, if_pos hgrow, ← hre.generation]
        exact hs
      · rw [hr]
        refine Or.inl ⟨⟨hre.valid, hre.perm, ?_⟩, by simp, ?_⟩
        · rw [List.append_nil]
          exact hre.relocates
        · rintro ⟨x, hx, heq⟩
          rw [hfresh x (hre.perm.mem_iff.2 hx)] at heq
          cases heq
      · exact Or.inr (Or.inl (hst.of_kept hre.toKept))
  · have hgrow' : needsGrowth t = false := by simpa using hgrow
    rw [insertPair, if_neg hgen, if_neg hgrow]
    rcases h.insertGrown_spec (hasRoom_of_needsGrowth hgrow') key value replacedValue with
      ⟨hex, hrep, hs⟩ | ⟨hfresh, ⟨hg, -⟩ | hst⟩
    · refine Or.inr (Or.inr ⟨hex, hgen, fun hg => absurd hg hgrow, hrep, ?_⟩)
      rw [grownGeneration, if_neg hgrow]
      exact hs
    · exact absurd hg hgen
    · exact Or.inr (Or.inl hst)

/-! ## Erasing and clearing -/

/-- The reply of an `erase` that found its key. -/
structure Reply.Buried (vt : Vtable K) (t : Table K V) (key : K) (r : Reply K V) : Prop where
  valid : r.table.Valid vt
  pairs : ∃ k old, vt.equal k key = true ∧
    (entries t.slots).Perm ((k, old) :: entries r.table.slots)
  balanced : Balanced (entries t.slots) (entries r.table.slots) r.calls
  status : r.status = .ok

lemma Table.Valid.buried (h : t.Valid vt) {slot : ℕ} {k : K} {old : V} (removedValue : Bool)
    (hslot : t.slotAt slot = .occupied k old) (hk : vt.equal k key = true)
    (hgen : t.generation ≠ uint64Max) : (bury t slot removedValue).Buried vt t key := by
  have hlt : slot < t.slots.length := lt_length_of_getD (by rw [slotAt] at hslot; rw [hslot]; simp)
  have hperm := entries_set_deleted hslot
  rw [slotAt] at hslot
  have htomb : tombstones (t.slots.set slot .deleted) = tombstones t.slots + 1 := by
    have hset := tombstones_set hlt (.deleted : Slot K V)
    rw [hslot] at hset
    simpa [Slot.metadata] using hset
  have hlen := hperm.length_eq
  rw [List.length_cons, ← h.size] at hlen
  have hvalid : Table.Valid vt { t with
      slots := t.slots.set slot .deleted, size := t.size - 1, deleted := t.deleted + 1 } := {
    length := by rw [List.length_set, h.length]
    capacity := h.capacity
    fits := h.fits
    size := by rw [hlen, Nat.add_sub_cancel]
    deleted := by rw [htomb, h.deleted]
    load := by
      have := h.load
      show 4 * (t.size - 1 + (t.deleted + 1)) ≤ 3 * t.capacity
      omega
    generation := h.generation
    reached {i l w} hi := by
      rw [slotAt, getD_set _ _ _ hlt] at hi
      split at hi
      · cases hi
      · exact (h.reached hi).set hlt (by simp)
    distinct := by
      have hdist := (distinct_perm hperm).1 h.distinct
      rw [List.pairwise_cons] at hdist
      exact hdist.2 }
  have hbump := bumpGeneration_of_ne (t := { t with
    slots := t.slots.set slot .deleted, size := t.size - 1, deleted := t.deleted + 1 }) hgen
  rw [bury, slotAt, hslot]
  simp only [hbump]
  exact {
    valid := by
      have := hvalid.bump
      rwa [hbump] at this
    pairs := ⟨k, old, hk, hperm⟩
    balanced := by
      have hone : Balanced ((k, old) :: entries (t.slots.set slot .deleted))
          (entries (t.slots.set slot .deleted))
          [if removedValue then .moveValueOut old else .dropValue old, .dropKey k] := by
        cases removedValue with
        | true => exact ⟨rfl, rfl⟩
        | false => exact ⟨rfl, rfl⟩
      exact hone.perm hperm.symm (List.Perm.refl _)
    status := rfl }

/-- `erase` changes nothing and fails, or takes out the pair with an equal key. -/
lemma Table.Valid.erase_spec (h : t.Valid vt) (key : Option K) (removedValue removed : Bool) :
    ((erase vt t key removedValue removed).table = t ∧
      (erase vt t key removedValue removed).calls = [] ∧
      (erase vt t key removedValue removed).status ≠ .ok) ∨
    ∃ k, key = some k ∧ (erase vt t key removedValue removed).Buried vt t k := by
  cases key with
  | none => exact Or.inl ⟨rfl, rfl, by simp [erase, Reply.unchanged]⟩
  | some k =>
    cases removed with
    | false => exact Or.inl ⟨rfl, rfl, by simp [erase, Reply.unchanged]⟩
    | true =>
      by_cases hgen : t.generation = uint64Max
      · rw [erase, if_pos hgen]
        exact Or.inl ⟨rfl, rfl, by simp [Reply.unchanged]⟩
      · rw [erase, if_neg hgen]
        cases hfind : findSlot vt t k with
        | none => exact Or.inl ⟨rfl, rfl, by simp⟩
        | some slot =>
          obtain ⟨l, v, hslot, hl⟩ := h.findSlot_eq_some_iff.1 hfind
          exact Or.inr ⟨k, rfl, h.buried removedValue hslot hl hgen⟩

/-- The reply of a `clear` that cleared. -/
structure Reply.Cleared (vt : Vtable K) (t : Table K V) (r : Reply K V) : Prop where
  valid : r.table.Valid vt
  pairs : entries r.table.slots = []
  balanced : Balanced (entries t.slots) [] r.calls
  status : r.status = .ok

lemma map_empty_eq_replicate (slots : List (Slot K V)) :
    (slots.map fun _ => (.empty : Slot K V)) = List.replicate slots.length .empty :=
  List.map_const'

/-- `clear` changes nothing and fails, or takes out all pairs. -/
lemma Table.Valid.clear_spec (h : t.Valid vt) :
    ((clear t).table = t ∧ (clear t).calls = [] ∧ (clear t).status ≠ .ok) ∨
      (clear t).Cleared vt t := by
  rw [clear]
  split
  · exact Or.inl ⟨rfl, rfl, by simp [Reply.unchanged]⟩
  · rename_i hgen
    right
    have hnil : entries (t.slots.map fun _ => (.empty : Slot K V)) = [] := by
      rw [map_empty_eq_replicate, entries, List.filterMap_replicate_of_none rfl]
    have hvalid : Table.Valid vt { t with
        slots := t.slots.map fun _ => .empty, size := 0, deleted := 0 } := {
      length := by rw [List.length_map, h.length]
      capacity := h.capacity
      fits := h.fits
      size := by rw [hnil]; rfl
      deleted := by
        rw [map_empty_eq_replicate]
        exact (fresh_replicate vt t _).tombstones.symm
      load := Nat.zero_le _
      generation := h.generation
      reached {i l w} hi := by
        rw [slotAt, map_empty_eq_replicate, getD_replicate_empty] at hi
        cases hi
      distinct := by
        rw [hnil]
        exact List.Pairwise.nil }
    have hbump := bumpGeneration_of_ne (t := ({ t with
      slots := t.slots.map fun _ => .empty, size := 0, deleted := 0 } : Table K V)) hgen
    simp only [hbump]
    exact {
      valid := by
        have := hvalid.bump
        rwa [hbump] at this
      pairs := hnil
      balanced := balanced_dropSlots t
      status := rfl }

end Container

end Chtholly
