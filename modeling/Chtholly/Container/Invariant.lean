import Chtholly.Container.Slots

/-!
# The invariant of the table

Every operation keeps the same invariant: the counters count the slots, the load stays at three
quarters, every key is reached by its hash, and no two occupied slots hold equal keys.  From it
follows what a lookup finds, where the loop of `insert` ends, and that a rehash finds a place
for every object.

## Main definitions

* `Container.Table.Valid` — the invariant.
* `Container.Passed` — the slots that a walk has passed hold no key equal to the one sought.

## Main results

* `Container.Table.Valid.find_eq_some_iff` — `find` reads the pairs of the occupied slots.
* `Container.Table.Valid.landing_spec` — where the loop of `insert` ends.
* `Container.relocation_spec` — every object finds a new slot, and the new slots hold the same
  pairs.
-/

set_option autoImplicit false

namespace Chtholly

namespace Container

variable {K V : Type} {vt : Vtable K} {t : Table K V}

/-- The invariant of a table. -/
structure Table.Valid (vt : Vtable K) (t : Table K V) : Prop where
  length : t.slots.length = t.capacity
  capacity : t.capacity = 0 ∨ ∃ n, 3 ≤ n ∧ t.capacity = 2 ^ n
  fits : 3 * t.capacity ≤ 2 ^ vt.pointerBits
  size : t.size = (entries t.slots).length
  deleted : t.deleted = tombstones t.slots
  load : 4 * (t.size + t.deleted) ≤ 3 * t.capacity
  generation : t.generation ≤ uint64Max
  reached : ∀ {i k v}, t.slotAt i = .occupied k v →
    Reaches t.slots t.capacity (t.hashOf vt k) i
  distinct : (entries t.slots).Pairwise fun a b => vt.equal a.1 b.1 = false

lemma valid_init (seed : UInt64) : (init seed : Table K V).Valid vt where
  length := rfl
  capacity := Or.inl rfl
  fits := Nat.zero_le _
  size := rfl
  deleted := rfl
  load := le_rfl
  generation := Nat.zero_le _
  reached h := by cases h
  distinct := List.Pairwise.nil

lemma distinct_perm {l l' : List (K × V)} (h : l.Perm l') :
    (l.Pairwise fun a b => vt.equal a.1 b.1 = false) ↔
      l'.Pairwise fun a b => vt.equal a.1 b.1 = false := by
  refine h.pairwise_iff fun {a b} hab => ?_
  by_contra hba
  have : vt.equal a.1 b.1 = true := vt.equal_symm (by simpa using hba)
  rw [hab] at this
  cases this

namespace Table.Valid

/-- A table that is not empty-handed has `2ⁿ` slots for some `n ≤ 62`: three arrays of as many
bytes must fit into the address space. -/
lemma capacity_eq (h : t.Valid vt) (hne : t.capacity ≠ 0) :
    ∃ n, 3 ≤ n ∧ n ≤ 62 ∧ t.capacity = 2 ^ n := by
  obtain ⟨n, hn, hcap⟩ := h.capacity.resolve_left hne
  refine ⟨n, hn, ?_, hcap⟩
  have hbits : 2 ^ vt.pointerBits ≤ 2 ^ 64 :=
    Nat.pow_le_pow_right (by omega) (by have := vt.pointerBits_eq; omega)
  have hfits := h.fits
  by_contra hgt
  have : 2 ^ 63 ≤ 2 ^ n := Nat.pow_le_pow_right (by omega) (by omega)
  omega

lemma capacity_le (h : t.Valid vt) : t.capacity ≤ 2 ^ 62 := by
  rcases Nat.eq_zero_or_pos t.capacity with h0 | hpos
  · omega
  · obtain ⟨n, -, hn, hcap⟩ := h.capacity_eq hpos.ne'
    rw [hcap]
    exact Nat.pow_le_pow_right (by omega) hn

/-- Where all slots of a probe sequence are not empty, no slot is. -/
lemma exists_probe_empty (h : t.Valid vt) (hash : ℕ)
    (hroom : t.size + t.deleted < t.capacity) :
    ∃ step < t.capacity, t.slotAt (probe hash step t.capacity) = .empty := by
  have hvac : vacancies t.slots ≠ 0 := by
    have := length_eq_contents t.slots
    have := h.length
    have := h.size
    have := h.deleted
    omega
  obtain ⟨i, hi, hempty⟩ := exists_getD_empty hvac
  obtain ⟨n, -, hn, hcap⟩ := h.capacity_eq (by omega)
  rw [h.length, hcap] at hi
  obtain ⟨step, hlt, hstep⟩ := exists_probe hash (by omega) hi
  refine ⟨step, by rw [hcap]; exact hlt, ?_⟩
  rw [hcap, hstep]
  exact hempty

/-- Equal keys sit in one slot. -/
lemma eq_of_equal (h : t.Valid vt) {i j : ℕ} {k l : K} {v w : V}
    (hi : t.slotAt i = .occupied k v) (hj : t.slotAt j = .occupied l w)
    (heq : vt.equal k l = true) : i = j := by
  have hpair := h.distinct
  rw [entries, List.pairwise_filterMap, List.pairwise_iff_getElem] at hpair
  have hi' : i < t.slots.length := lt_length_of_getD (by rw [slotAt] at hi; rw [hi]; simp)
  have hj' : j < t.slots.length := lt_length_of_getD (by rw [slotAt] at hj; rw [hj]; simp)
  rw [slotAt, List.getD_eq_getElem _ _ hi'] at hi
  rw [slotAt, List.getD_eq_getElem _ _ hj'] at hj
  rcases lt_trichotomy i j with hlt | heq' | hlt
  · have := hpair i j hi' hj' hlt (k, v) (by rw [hi]; rfl) (l, w) (by rw [hj]; rfl)
    rw [heq] at this
    cases this
  · exact heq'
  · have := hpair j i hj' hi' hlt (l, w) (by rw [hj]; rfl) (k, v) (by rw [hi]; rfl)
    rw [vt.equal_symm heq] at this
    cases this

end Table.Valid

/-! ## Looking up -/

/-- The comparison of the code, hash first, is that of the keys. -/
lemma same_iff (k key : K) :
    (t.hashOf vt k = t.hashOf vt key ∧ vt.equal k key = true) ↔ vt.equal k key = true := by
  refine ⟨And.right, fun h => ⟨?_, h⟩⟩
  rw [Table.hashOf, Table.hashOf, vt.hash_eq t.seed h]

lemma findSlotFrom_sound (key : K) : ∀ (fuel step : ℕ) {i : ℕ},
    findSlotFrom vt t key fuel step = some i →
      ∃ k v, t.slotAt i = .occupied k v ∧ vt.equal k key = true
  | 0, _, _, h => by cases h
  | fuel + 1, step, i, h => by
    rw [findSlotFrom] at h
    split at h
    · cases h
    · rename_i k v hs
      split at h
      · rename_i hsame
        cases h
        exact ⟨k, v, hs, hsame.2⟩
      · exact findSlotFrom_sound key fuel (step + 1) h
    · exact findSlotFrom_sound key fuel (step + 1) h

namespace Table.Valid

lemma findSlotFrom_complete (h : t.Valid vt) {key k : K} {i : ℕ} {v : V} {s : ℕ}
    (hi : t.slotAt i = .occupied k v) (hk : vt.equal k key = true) (hs : s < t.capacity)
    (hprobe : probe (t.hashOf vt key) s t.capacity = i)
    (hway : ∀ r < s, t.slotAt (probe (t.hashOf vt key) r t.capacity) ≠ .empty) :
    ∀ (fuel step : ℕ), step + fuel = t.capacity → step ≤ s →
      findSlotFrom vt t key fuel step = some i
  | 0, step, hfuel, hstep => by omega
  | fuel + 1, step, hfuel, hstep => by
    rw [findSlotFrom]
    -- the walk stops at the slot of the key at the latest
    rcases Nat.lt_or_eq_of_le hstep with hlt | rfl
    · have hnext := h.findSlotFrom_complete hi hk hs hprobe hway fuel (step + 1) (by omega) hlt
      cases hslot : t.slotAt (probe (t.hashOf vt key) step t.capacity) with
      | empty => exact absurd hslot (hway step hlt)
      | deleted => exact hnext
      | occupied l w =>
        simp only [same_iff]
        split
        · rename_i hl
          rw [h.eq_of_equal hslot hi (vt.equal_trans hl (vt.equal_symm hk))]
        · exact hnext
    · rw [hprobe, hi]
      exact if_pos ((same_iff k key).2 hk)

lemma findSlot_eq_some_iff (h : t.Valid vt) {key : K} {i : ℕ} :
    findSlot vt t key = some i ↔ ∃ k v, t.slotAt i = .occupied k v ∧ vt.equal k key = true := by
  rw [findSlot]
  constructor
  · intro hfind
    split at hfind
    · cases hfind
    · exact findSlotFrom_sound key _ _ hfind
  · rintro ⟨k, v, hi, hk⟩
    obtain ⟨s, hs, hprobe, hway⟩ := h.reached hi
    have hhash : t.hashOf vt k = t.hashOf vt key := ((same_iff k key).2 hk).1
    rw [hhash] at hprobe hway
    rw [if_neg (by omega)]
    exact h.findSlotFrom_complete hi hk hs hprobe hway _ _ (Nat.zero_add _) (Nat.zero_le _)

/-- What `find` points to. -/
lemma find_eq_some_iff (h : t.Valid vt) {key : K} {v : V} :
    find vt t key = some v ↔ ∃ k, (k, v) ∈ entries t.slots ∧ vt.equal k key = true := by
  rw [find, Option.bind_eq_some_iff]
  constructor
  · rintro ⟨i, hi, hv⟩
    obtain ⟨k, w, hslot, hk⟩ := h.findSlot_eq_some_iff.1 hi
    rw [hslot] at hv
    cases hv
    exact ⟨k, mem_entries.2 ⟨i, hslot⟩, hk⟩
  · rintro ⟨k, hmem, hk⟩
    obtain ⟨i, hi⟩ := mem_entries.1 hmem
    refine ⟨i, h.findSlot_eq_some_iff.2 ⟨k, v, hi, hk⟩, ?_⟩
    rw [slotAt, hi]
    rfl

/-- Tables that hold the same pairs look the same. -/
lemma find_eq_of_perm (h : t.Valid vt) {t' : Table K V} (h' : t'.Valid vt)
    (hperm : (entries t'.slots).Perm (entries t.slots)) (key : K) :
    find vt t' key = find vt t key := by
  ext v
  rw [h'.find_eq_some_iff, h.find_eq_some_iff]
  simp only [hperm.mem_iff]

lemma findSlot_isSome_iff (h : t.Valid vt) {key : K} :
    (findSlot vt t key).isSome = true ↔ ∃ x ∈ entries t.slots, vt.equal x.1 key = true := by
  rw [Option.isSome_iff_exists]
  constructor
  · rintro ⟨i, hi⟩
    obtain ⟨k, v, hslot, hk⟩ := h.findSlot_eq_some_iff.1 hi
    exact ⟨(k, v), mem_entries.2 ⟨i, hslot⟩, hk⟩
  · rintro ⟨⟨k, v⟩, hmem, hk⟩
    obtain ⟨i, hi⟩ := mem_entries.1 hmem
    exact ⟨i, h.findSlot_eq_some_iff.2 ⟨k, v, hi, hk⟩⟩

end Table.Valid

/-! ## The loop of `insert` -/

/-- The first steps on the way of the key meet no empty slot and no equal key. -/
def Passed (vt : Vtable K) (t : Table K V) (key : K) (step : ℕ) : Prop :=
  ∀ r < step, t.slotAt (probe (t.hashOf vt key) r t.capacity) ≠ .empty ∧
    ∀ k v, t.slotAt (probe (t.hashOf vt key) r t.capacity) = .occupied k v →
      vt.equal k key = false

lemma Passed.succ {key : K} {step : ℕ} (h : Passed vt t key step)
    (hne : t.slotAt (probe (t.hashOf vt key) step t.capacity) ≠ .empty)
    (hkey : ∀ k v, t.slotAt (probe (t.hashOf vt key) step t.capacity) = .occupied k v →
      vt.equal k key = false) : Passed vt t key (step + 1) := by
  intro r hr
  rcases Nat.lt_succ_iff_lt_or_eq.1 hr with hr | rfl
  · exact h r hr
  · exact ⟨hne, hkey⟩

/-- A tombstone among the slots passed. -/
def PassedTombstone (vt : Vtable K) (t : Table K V) (key : K) (step slot : ℕ) : Prop :=
  t.slotAt slot = .deleted ∧ ∃ r < step, probe (t.hashOf vt key) r t.capacity = slot

lemma PassedTombstone.succ {key : K} {step slot : ℕ} (h : PassedTombstone vt t key step slot) :
    PassedTombstone vt t key (step + 1) slot := by
  obtain ⟨hs, r, hr, hprobe⟩ := h
  exact ⟨hs, r, by omega, hprobe⟩

/-- What is known where the loop of `insert` ends. -/
def Landing.Ok (vt : Vtable K) (t : Table K V) (key : K) : Landing → Prop
  | .empty slot tombstone => ∃ step < t.capacity, Passed vt t key step ∧
      probe (t.hashOf vt key) step t.capacity = slot ∧ t.slotAt slot = .empty ∧
      ∀ j ∈ tombstone, PassedTombstone vt t key step j
  | .same slot => ∃ k v, t.slotAt slot = .occupied k v ∧ vt.equal k key = true
  | .exhausted _ => Passed vt t key t.capacity

lemma landing_ok (key : K) : ∀ (fuel step : ℕ) (tombstone : Option ℕ),
    step + fuel = t.capacity → Passed vt t key step →
    (∀ j ∈ tombstone, PassedTombstone vt t key step j) →
    (landing vt t key fuel step tombstone).Ok vt t key
  | 0, step, tombstone, hfuel, hpast, _ => by
    rw [landing, Landing.Ok, ← hfuel]
    exact hpast
  | fuel + 1, step, tombstone, hfuel, hpast, htomb => by
    rw [landing]
    cases hslot : t.slotAt (probe (t.hashOf vt key) step t.capacity) with
    | empty => exact ⟨step, by omega, hpast, rfl, hslot, htomb⟩
    | deleted =>
      refine landing_ok key fuel (step + 1) _ (by omega) (hpast.succ ?_ ?_) ?_
      · rw [hslot]
        simp
      · intro k v hk
        rw [hslot] at hk
        cases hk
      · intro j hj
        cases tombstone with
        | some j' =>
          cases hj
          exact (htomb j rfl).succ
        | none =>
          cases hj
          exact ⟨hslot, step, by omega, rfl⟩
    | occupied k v =>
      simp only [same_iff]
      split
      · rename_i hk
        exact ⟨k, v, hslot, hk⟩
      · rename_i hk
        refine landing_ok key fuel (step + 1) _ (by omega) (hpast.succ ?_ ?_) ?_
        · rw [hslot]
          simp
        · intro k' v' hk'
          rw [hslot] at hk'
          cases hk'
          simpa using hk
        · exact fun j hj => (htomb j hj).succ

namespace Table.Valid

/-- A walk that meets an empty slot without having met the key knows that the table has no
equal key. -/
lemma no_equal_of_passed (h : t.Valid vt) {key : K} {step : ℕ} (hpast : Passed vt t key step)
    (hempty : t.slotAt (probe (t.hashOf vt key) step t.capacity) = .empty) :
    ∀ x ∈ entries t.slots, vt.equal x.1 key = false := by
  rintro ⟨k, v⟩ hmem
  by_contra hk
  have hk' : vt.equal k key = true := by simpa using hk
  obtain ⟨i, hi⟩ := mem_entries.1 hmem
  obtain ⟨s, -, hprobe, hway⟩ := h.reached hi
  rw [((same_iff k key).2 hk').1] at hprobe hway
  rcases lt_trichotomy s step with hlt | rfl | hlt
  · have := (hpast s hlt).2 k v (by rw [hprobe]; exact hi)
    rw [hk'] at this
    cases this
  · rw [hprobe] at hempty
    rw [slotAt, hi] at hempty
    cases hempty
  · exact hway step hlt hempty

/-- Where the loop of `insert` ends in a table that is not full: at an equal key, or at an
empty slot, and then there is no equal key. -/
lemma landing_spec (h : t.Valid vt) (key : K) (hroom : t.size + t.deleted < t.capacity) :
    (∃ slot k v, landing vt t key t.capacity 0 none = .same slot ∧
      t.slotAt slot = .occupied k v ∧ vt.equal k key = true) ∨
    ∃ slot tombstone, landing vt t key t.capacity 0 none = .empty slot tombstone ∧
      (∀ x ∈ entries t.slots, vt.equal x.1 key = false) ∧
      (∀ j, tombstone = some j → t.slotAt j = .deleted) ∧
      t.slotAt slot = .empty ∧ slot < t.capacity ∧
      Reaches t.slots t.capacity (t.hashOf vt key) (tombstone.getD slot) := by
  have hok : (landing vt t key t.capacity 0 none).Ok vt t key :=
    landing_ok key t.capacity 0 none (Nat.zero_add _)
      (fun r hr => absurd hr (Nat.not_lt_zero r)) (fun j hj => by cases hj)
  cases hland : landing vt t key t.capacity 0 none with
  | same slot =>
    rw [hland] at hok
    obtain ⟨k, v, hslot, hk⟩ := hok
    exact Or.inl ⟨slot, k, v, rfl, hslot, hk⟩
  | exhausted tombstone =>
    rw [hland] at hok
    obtain ⟨step, hlt, hempty⟩ := h.exists_probe_empty (t.hashOf vt key) hroom
    exact absurd hempty (hok step hlt).1
  | empty slot tombstone =>
    rw [hland] at hok
    obtain ⟨step, hlt, hpast, hprobe, hempty, htomb⟩ := hok
    obtain ⟨n, -, hn, hcap⟩ := h.capacity_eq (by omega)
    have hslot : slot < t.capacity := by
      rw [← hprobe, hcap]
      exact probe_lt _ _ (by omega)
    refine Or.inr ⟨slot, tombstone, rfl, h.no_equal_of_passed hpast (by rw [hprobe, hempty]),
      fun j hj => (htomb j hj).1, hempty, hslot, ?_⟩
    cases tombstone with
    | none => exact ⟨step, hlt, hprobe, fun r hr => (hpast r hr).1⟩
    | some j =>
      obtain ⟨-, r, hr, hj⟩ := htomb j rfl
      exact ⟨r, by omega, hj, fun q hq => (hpast q (by omega)).1⟩

end Table.Valid

/-! ## The loops of the rehash -/

/-- Slots that a rehash is filling: no tombstones, and every key is reached. -/
structure Fresh (vt : Vtable K) (t : Table K V) (capacity : ℕ) (slots : List (Slot K V)) :
    Prop where
  length : slots.length = capacity
  tombstones : tombstones slots = 0
  reached : ∀ {i k v}, slots.getD i .empty = .occupied k v →
    Reaches slots capacity (t.hashOf vt k) i

lemma getD_replicate_empty (capacity i : ℕ) :
    (List.replicate capacity (.empty : Slot K V)).getD i .empty = .empty := by
  rw [List.getD_eq_getElem?_getD, List.getElem?_replicate]
  split <;> rfl

lemma fresh_replicate (vt : Vtable K) (t : Table K V) (capacity : ℕ) :
    Fresh vt t capacity (List.replicate capacity .empty) where
  length := List.length_replicate
  tombstones := by
    rw [Container.tombstones, List.countP_replicate]
    rfl
  reached h := by
    rw [getD_replicate_empty] at h
    cases h

/-- One object more in an empty slot that its hash reaches. -/
lemma Fresh.set {capacity : ℕ} {slots : List (Slot K V)} (h : Fresh vt t capacity slots)
    {i : ℕ} {k : K} {v : V} (hi : i < slots.length) (hempty : slots.getD i .empty = .empty)
    (hreach : Reaches slots capacity (t.hashOf vt k) i) :
    Fresh vt t capacity (slots.set i (.occupied k v)) where
  length := by rw [List.length_set, h.length]
  tombstones := by
    have := tombstones_set hi (.occupied k v)
    rw [hempty, h.tombstones, if_neg (by simp [Slot.metadata]),
      if_neg (by simp [Slot.metadata])] at this
    exact this
  reached {j l w} hj := by
    rw [getD_set _ _ _ hi] at hj
    split at hj
    · rename_i hij
      cases hj
      subst hij
      exact hreach.set hi (by simp)
    · exact (h.reached hj).set hi (by simp)

lemma moveObjects_cons_of_entry_eq_none {s : Slot K V} (h : s.entry = none)
    (olds : List (Slot K V)) (chosen : List ℕ) (slots : List (Slot K V)) :
    moveObjects (s :: olds) chosen slots = moveObjects olds chosen slots := by
  cases s with
  | occupied k v => cases h
  | empty => cases chosen <;> rfl
  | deleted => cases chosen <;> rfl

/-- Every object finds a new slot, and afterwards the new slots hold the same pairs.

**Proof sketch.**  By induction on the old slots, for any slots filled so far: as long as the
pairs still to place fit, there is an empty slot, and the probe sequence meets it. -/
lemma relocation_spec {capacity n : ℕ} (hn : n ≤ 63) (hcap : capacity = 2 ^ n)
    (olds : List (Slot K V)) : ∀ slots : List (Slot K V), Fresh vt t capacity slots →
      (entries olds).length + (entries slots).length ≤ capacity →
      ∃ chosen, relocation vt t capacity olds (slots.map Slot.metadata) = some chosen ∧
        chosen.length = (entries olds).length ∧
        Fresh vt t capacity (moveObjects olds chosen slots) ∧
        (entries (moveObjects olds chosen slots)).Perm (entries olds ++ entries slots) := by
  induction olds with
  | nil =>
    intro slots hfresh _
    refine ⟨[], rfl, rfl, ?_⟩
    rw [moveObjects]
    exact ⟨hfresh, List.Perm.refl _⟩
  | cons s olds ih =>
    intro slots hfresh hroom
    cases s with
    | empty =>
      obtain ⟨chosen, hchosen, hlen, hres⟩ := ih slots hfresh hroom
      refine ⟨chosen, hchosen, hlen, ?_⟩
      rw [moveObjects_cons_of_entry_eq_none rfl]
      exact hres
    | deleted =>
      obtain ⟨chosen, hchosen, hlen, hres⟩ := ih slots hfresh hroom
      refine ⟨chosen, hchosen, hlen, ?_⟩
      rw [moveObjects_cons_of_entry_eq_none rfl]
      exact hres
    | occupied k v =>
      have hlen : (entries (.occupied k v :: olds)).length = (entries olds).length + 1 := rfl
      have hvac : vacancies slots ≠ 0 := by
        have := length_eq_contents slots
        have := hfresh.length
        have := hfresh.tombstones
        omega
      obtain ⟨j, hj, hempty⟩ := exists_getD_empty hvac
      rw [hfresh.length, hcap] at hj
      obtain ⟨r, hr, hprobe⟩ := exists_probe (t.hashOf vt k) hn hj
      rw [← hcap] at hr hprobe
      obtain ⟨i, hfound, hi, hreach⟩ : ∃ i, emptySlot (slots.map Slot.metadata)
          (t.hashOf vt k) capacity capacity 0 = some i ∧ slots.getD i .empty = .empty ∧
          Reaches slots capacity (t.hashOf vt k) i :=
        emptySlot_spec capacity 0 (Nat.zero_add _) (fun q hq => absurd hq (Nat.not_lt_zero q))
          ⟨r, hr, by rw [hprobe]; exact hempty⟩
      have hlt : i < slots.length := by
        obtain ⟨q, -, hq, -⟩ := hreach
        rw [hfresh.length, hcap, ← hq, hcap]
        exact probe_lt _ _ hn
      have hperm : (entries (slots.set i (.occupied k v))).Perm ((k, v) :: entries slots) :=
        entries_set_occupied hlt (by rw [hi]; rfl)
      obtain ⟨chosen, hchosen, hclen, hfresh', hperm'⟩ :=
        ih _ (hfresh.set hlt hi hreach (v := v)) (by
          rw [hperm.length_eq, List.length_cons]
          omega)
      refine ⟨i :: chosen, ?_, by rw [List.length_cons, hclen, hlen], ?_⟩
      · rw [List.map_set] at hchosen
        simp only [Slot.metadata] at hchosen
        simp only [relocation, hfound, hchosen, Option.map_some]
      · rw [moveObjects]
        refine ⟨hfresh', hperm'.trans ?_⟩
        exact (hperm.append_left _).trans List.perm_middle

end Container

end Chtholly
