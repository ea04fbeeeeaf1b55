import Mathlib.Data.List.GetD
import Mathlib.Data.List.Perm.Basic
import Chtholly.Probing.Triangular
import Chtholly.Container.Table

/-!
# Slots and probe sequences

What the slots of a table hold, whatever their order: the pairs of the occupied slots
(`entries`), the number of tombstones and the number of empty slots, and how these change when
one slot is written.  And what a walk along a probe sequence meets: a slot is *reached* by a
hash if all slots before it on the way are not empty, which is what keeps a lookup going.

## Main definitions

* `Container.entries`, `Container.tombstones`, `Container.vacancies` — the content of slots.
* `Container.Reaches` — the slot lies on the way of a hash, behind slots that are not empty.

## Main results

* `Container.exists_probe` — every slot of a power of two lies on the way of every hash.
* `Container.emptySlot_spec` — the first empty slot on the way is found where there is one.
-/

set_option autoImplicit false

namespace Chtholly

namespace Container

variable {K V : Type} {slots : List (Slot K V)}

/-! ## What the slots hold -/

def entries (slots : List (Slot K V)) : List (K × V) := slots.filterMap Slot.entry

def tombstones (slots : List (Slot K V)) : ℕ := slots.countP fun s => s.metadata = .deleted

def vacancies (slots : List (Slot K V)) : ℕ := slots.countP fun s => s.metadata = .empty

variable {k : K} {v : V}

lemma entry_eq_some {s : Slot K V} (h : s.entry = some (k, v)) : s = .occupied k v := by
  cases s with
  | occupied k' v' =>
    cases h
    rfl
  | empty => cases h
  | deleted => cases h

lemma length_eq_contents (slots : List (Slot K V)) :
    slots.length = (entries slots).length + tombstones slots + vacancies slots := by
  induction slots with
  | nil => rfl
  | cons s rest ih =>
    cases s <;>
      simp [entries, tombstones, vacancies, List.filterMap_cons, Slot.entry, Slot.metadata]
        at ih ⊢ <;> omega

variable {i : ℕ}

lemma lt_length_of_getD (h : slots.getD i .empty ≠ .empty) : i < slots.length := by
  by_contra hi
  exact h (List.getD_eq_default _ _ (by omega))

lemma mem_entries : (k, v) ∈ entries slots ↔ ∃ i, slots.getD i .empty = .occupied k v := by
  rw [entries, List.mem_filterMap]
  constructor
  · rintro ⟨s, hs, he⟩
    obtain ⟨i, hi, rfl⟩ := List.mem_iff_getElem.1 hs
    refine ⟨i, ?_⟩
    rw [List.getD_eq_getElem _ _ hi]
    exact entry_eq_some he
  · rintro ⟨i, hi⟩
    have hlt : i < slots.length := lt_length_of_getD (by rw [hi]; simp)
    rw [List.getD_eq_getElem _ _ hlt] at hi
    exact ⟨slots[i], List.getElem_mem hlt, by rw [hi]; rfl⟩

lemma exists_getD_empty (h : vacancies slots ≠ 0) :
    ∃ i < slots.length, slots.getD i .empty = .empty := by
  obtain ⟨s, hs, he⟩ := List.countP_pos_iff.1 (Nat.pos_of_ne_zero h)
  obtain ⟨i, hi, rfl⟩ := List.mem_iff_getElem.1 hs
  refine ⟨i, hi, ?_⟩
  rw [List.getD_eq_getElem _ _ hi]
  cases hs' : slots[i] with
  | empty => rfl
  | occupied k v => rw [hs'] at he; simp [Slot.metadata] at he
  | deleted => rw [hs'] at he; simp [Slot.metadata] at he

/-! ## Writing one slot -/

lemma getD_set (i j : ℕ) (s : Slot K V) (hi : i < slots.length) :
    (slots.set i s).getD j .empty = if j = i then s else slots.getD j .empty := by
  rw [List.getD_eq_getElem?_getD, List.getD_eq_getElem?_getD]
  by_cases hj : j = i
  · rw [hj, List.getElem?_set_self hi, if_pos rfl]
    rfl
  · rw [List.getElem?_set_ne (Ne.symm hj), if_neg hj]

/-- A slot apart from the others, before and after it is written. -/
lemma exists_perm_set (hi : i < slots.length) (s : Slot K V) :
    ∃ rest, slots.Perm (slots.getD i .empty :: rest) ∧ (slots.set i s).Perm (s :: rest) := by
  refine ⟨slots.eraseIdx i, ?_, List.set_perm_cons_eraseIdx hi s⟩
  rw [List.getD_eq_getElem _ _ hi]
  exact (List.getElem_cons_eraseIdx_perm hi).symm

lemma entries_perm {slots' : List (Slot K V)} (h : slots.Perm slots') :
    (entries slots).Perm (entries slots') := h.filterMap _

lemma tombstones_perm {slots' : List (Slot K V)} (h : slots.Perm slots') :
    tombstones slots = tombstones slots' := h.countP_eq _

lemma tombstones_cons (s : Slot K V) :
    tombstones (s :: slots) = tombstones slots + if s.metadata = .deleted then 1 else 0 := by
  rw [tombstones, List.countP_cons]
  simp [tombstones]

/-- Objects that move into a slot without objects. -/
lemma entries_set_occupied (hi : i < slots.length) (hs : (slots.getD i .empty).entry = none) :
    (entries (slots.set i (.occupied k v))).Perm ((k, v) :: entries slots) := by
  obtain ⟨rest, h₁, h₂⟩ := exists_perm_set hi (.occupied k v)
  have he : (entries slots).Perm (entries rest) := by
    have h := entries_perm h₁
    rwa [entries, entries, List.filterMap_cons_none hs] at h
  exact (entries_perm h₂).trans (he.symm.cons _)

/-- Objects that leave their slot. -/
lemma entries_set_deleted (hs : slots.getD i .empty = .occupied k v) :
    (entries slots).Perm ((k, v) :: entries (slots.set i .deleted)) := by
  have hi : i < slots.length := lt_length_of_getD (by rw [hs]; simp)
  obtain ⟨rest, h₁, h₂⟩ := exists_perm_set hi (.deleted : Slot K V)
  rw [hs] at h₁
  exact (entries_perm h₁).trans ((entries_perm h₂).symm.cons _)

/-- A value that takes another's place. -/
lemma entries_set_value (hs : slots.getD i .empty = .occupied k v) (w : V) :
    ∃ rest, (entries slots).Perm ((k, v) :: rest) ∧
      (entries (slots.set i (.occupied k w))).Perm ((k, w) :: rest) := by
  have hi : i < slots.length := lt_length_of_getD (by rw [hs]; simp)
  obtain ⟨rest, h₁, h₂⟩ := exists_perm_set hi (.occupied k w)
  rw [hs] at h₁
  exact ⟨entries rest, entries_perm h₁, entries_perm h₂⟩

lemma tombstones_set (hi : i < slots.length) (s : Slot K V) :
    tombstones (slots.set i s) + (if (slots.getD i .empty).metadata = .deleted then 1 else 0) =
      tombstones slots + if s.metadata = .deleted then 1 else 0 := by
  obtain ⟨rest, h₁, h₂⟩ := exists_perm_set hi s
  rw [tombstones_perm h₁, tombstones_perm h₂, tombstones_cons, tombstones_cons]
  omega

/-! ## Walking -/

/-- In 64-bit arithmetic the probe sequence is the triangular one, up to `2⁶³` slots. -/
lemma probe_eq_slot (hash step : ℕ) {n : ℕ} (hn : n ≤ 63) :
    probe hash step (2 ^ n) = Triangular.slot hash step n := by
  have hdvd : 2 ^ n ∣ 2 ^ 64 := pow_dvd_pow 2 (by omega)
  have hdvd' : 2 ^ n ∣ 2 ^ 63 := pow_dvd_pow 2 hn
  have hhalf : (step + step * step) % 2 ^ 64 / 2 = (step + step * step) / 2 % 2 ^ 63 :=
    Nat.mod_mul_right_div_self _ 2 (2 ^ 63)
  rw [probe, Nat.and_two_pow_sub_one_eq_mod, hhalf, Nat.mod_mod_of_dvd _ hdvd, Nat.add_mod,
    Nat.mod_mod_of_dvd _ hdvd', ← Nat.add_mod, Triangular.slot]

lemma probe_lt (hash step : ℕ) {n : ℕ} (hn : n ≤ 63) : probe hash step (2 ^ n) < 2 ^ n := by
  rw [probe_eq_slot hash step hn]
  exact Triangular.slot_lt hash step n

/-- Every slot lies on the way of every hash. -/
lemma exists_probe (hash : ℕ) {n : ℕ} (hn : n ≤ 63) (hi : i < 2 ^ n) :
    ∃ step < 2 ^ n, probe hash step (2 ^ n) = i := by
  obtain ⟨step, hlt, hstep⟩ := Triangular.exists_step hash n hi
  exact ⟨step, hlt, by rw [probe_eq_slot hash step hn, hstep]⟩

/-- Slot `i` lies on the way of the hash, behind slots that are not empty. -/
def Reaches (slots : List (Slot K V)) (capacity hash i : ℕ) : Prop :=
  ∃ step < capacity, probe hash step capacity = i ∧
    ∀ r < step, slots.getD (probe hash r capacity) .empty ≠ .empty

/-- Writing a slot that is not empty afterwards hides no other slot. -/
lemma Reaches.set {capacity hash j : ℕ} (h : Reaches slots capacity hash i) {s : Slot K V}
    (hj : j < slots.length) (hs : s ≠ .empty) : Reaches (slots.set j s) capacity hash i := by
  obtain ⟨step, hlt, hstep, hway⟩ := h
  refine ⟨step, hlt, hstep, fun r hr => ?_⟩
  rw [getD_set _ _ _ hj]
  split
  · exact hs
  · exact hway r hr

/-- The search for an empty slot finds one that the hash reaches, if it has not passed all. -/
lemma emptySlot_spec {hash capacity : ℕ} (fuel step : ℕ) (hfuel : step + fuel = capacity)
    (hpast : ∀ r < step, slots.getD (probe hash r capacity) .empty ≠ .empty)
    (hex : ∃ r < capacity, slots.getD (probe hash r capacity) .empty = .empty) :
    ∃ i, emptySlot (slots.map Slot.metadata) hash capacity fuel step = some i ∧
      slots.getD i .empty = .empty ∧ Reaches slots capacity hash i := by
  induction fuel generalizing step with
  | zero =>
    obtain ⟨r, hr, hempty⟩ := hex
    exact absurd hempty (hpast r (by omega))
  | succ fuel ih =>
    have hmeta : (slots.map Slot.metadata).getD (probe hash step capacity) .empty =
        (slots.getD (probe hash step capacity) .empty).metadata := by
      rw [List.getD_eq_getElem?_getD, List.getElem?_map, List.getD_eq_getElem?_getD]
      cases slots[probe hash step capacity]? with
      | none => rfl
      | some s => rfl
    rw [emptySlot, hmeta]
    cases hs : slots.getD (probe hash step capacity) .empty with
    | empty =>
      exact ⟨_, if_pos rfl, hs, step, by omega, rfl, hpast⟩
    | occupied k v =>
      rw [if_neg (by simp [Slot.metadata])]
      refine ih (step + 1) (by omega) fun r hr => ?_
      rcases Nat.lt_succ_iff_lt_or_eq.1 hr with hr | rfl
      · exact hpast r hr
      · rw [hs]
        simp
    | deleted =>
      rw [if_neg (by simp [Slot.metadata])]
      refine ih (step + 1) (by omega) fun r hr => ?_
      rcases Nat.lt_succ_iff_lt_or_eq.1 hr with hr | rfl
      · exact hpast r hr
      · rw [hs]
        simp

end Container

end Chtholly
