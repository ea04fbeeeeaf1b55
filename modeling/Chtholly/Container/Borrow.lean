import Chtholly.Container.Refinement

/-!
# Borrow generations

A caller that has looked up a value keeps the pointer to it and the generation of the table.
`borrow_is_valid` compares that generation with the present one.  Every operation that moves, drops
or overwrites an object makes the generation larger, or has made it larger on its way there, so that
the generation stays only where the table stays.

## Main definitions

* `Container.borrowIsValid` — the comparison.
* `Container.Reply.Bumps` — what an operation does to the generation.

## Main results

* `Container.perform_bumps` — one operation.
* `Container.borrow_safe` — a valid borrow is of a value that was not touched, in every run.
-/

set_option autoImplicit false

namespace Chtholly

namespace Container

variable {K V : Type} {vt : Vtable K} {t : Table K V}

def borrowIsValid (t : Table K V) (generation : ℕ) : Status :=
  if t.generation = generation then .ok else .notFound

/-- An operation does nothing to the table or makes the generation larger. -/
def Reply.Bumps (t : Table K V) (r : Reply K V) : Prop :=
  (r.table = t ∧ r.calls = []) ∨ t.generation < r.table.generation

/-! ## The operations -/

lemma Reply.bumps_unchanged (status : Status) (t : Table K V) :
    (Reply.unchanged status t).Bumps t :=
  .inl ⟨rfl, rfl⟩

lemma le_bumpGeneration (t : Table K V) : t.generation ≤ (bumpGeneration t).2.generation := by
  by_cases h : t.generation = uint64Max
  · rw [bumpGeneration, if_pos h]
  · rw [bumpGeneration_of_ne h]
    exact Nat.le_succ _

lemma lt_bumpGeneration (h : t.generation ≠ uint64Max) :
    t.generation < (bumpGeneration t).2.generation := by
  rw [bumpGeneration_of_ne h]
  exact Nat.lt_succ_self _

lemma rehash_bumps (h : t.generation ≠ uint64Max) (o : Outcome) (capacity : ℕ) :
    (rehash vt o t capacity).Bumps t := by
  unfold rehash
  split_ifs
  iterate 5 exact Reply.bumps_unchanged _ _
  split
  · exact Reply.bumps_unchanged _ _
  · next chosen _ =>
    have hbump := @lt_bumpGeneration K V { t with
      slots := moveObjects t.slots chosen (List.replicate capacity .empty)
      capacity := capacity, size := chosen.length, deleted := 0 } h
    exact .inr hbump

lemma reserve_bumps (o : Outcome) (requested : ℕ) : (reserve vt o t requested).Bumps t := by
  unfold reserve
  by_cases hfits : requested ≤ t.capacity
  · rw [if_pos hfits]
    exact Reply.bumps_unchanged _ _
  by_cases hgeneration : t.generation = uint64Max
  · rw [if_neg hfits, if_pos hgeneration]
    exact Reply.bumps_unchanged _ _
  rw [if_neg hfits, if_neg hgeneration]
  split
  · exact Reply.bumps_unchanged _ _
  · exact rehash_bumps hgeneration o _

lemma le_store (slot : ℕ) (tombstone : Bool) (key : K) (value : V) :
    t.generation ≤ (store t slot tombstone key value).table.generation :=
  le_bumpGeneration { t with
    slots := t.slots.set slot (.occupied key value)
    deleted := if tombstone then t.deleted - 1 else t.deleted
    size := t.size + 1 }

lemma store_bumps (h : t.generation ≠ uint64Max) (slot : ℕ) (tombstone : Bool) (key : K)
    (value : V) : (store t slot tombstone key value).Bumps t := by
  have hbump := @lt_bumpGeneration K V { t with
    slots := t.slots.set slot (.occupied key value)
    deleted := if tombstone then t.deleted - 1 else t.deleted
    size := t.size + 1 } h
  exact .inr hbump

lemma le_replace (slot : ℕ) (replacedValue : Bool) (key : K) (value : V) :
    t.generation ≤ (replace t slot replacedValue key value).table.generation := by
  unfold replace
  split
  · exact le_bumpGeneration { t with slots := t.slots.set slot (.occupied _ value) }
  · exact le_rfl

lemma replace_bumps (h : t.generation ≠ uint64Max) (slot : ℕ) (replacedValue : Bool) (key : K)
    (value : V) : (replace t slot replacedValue key value).Bumps t := by
  unfold replace
  split
  case h_1 k old _ =>
    have hbump := @lt_bumpGeneration K V
      { t with slots := t.slots.set slot (.occupied k value) } h
    exact .inr hbump
  case h_2 => exact Reply.bumps_unchanged _ _

/-- At the limit of the generation this may change a slot with no bump. -/
lemma le_insertGrown (key : K) (value : V) (replacedValue : Bool) :
    t.generation ≤ (insertGrown vt t key value replacedValue).table.generation := by
  unfold insertGrown
  split
  · split
    · exact le_rfl
    · exact le_store _ _ key value
  · exact le_replace _ replacedValue key value
  · exact le_store _ true key value
  · exact le_rfl

lemma insertGrown_bumps (h : t.generation ≠ uint64Max) (key : K) (value : V)
    (replacedValue : Bool) : (insertGrown vt t key value replacedValue).Bumps t := by
  unfold insertGrown
  split
  · rw [if_neg h]
    exact store_bumps h _ _ key value
  · exact replace_bumps h _ replacedValue key value
  · exact store_bumps h _ true key value
  · exact .inl ⟨rfl, rfl⟩

/-- An insertion that reaches the limit by its own growth has bumped the generation there. -/
lemma insertPair_bumps (o : Outcome) (key : K) (value : V) (replacedValue : Bool) :
    (insertPair vt o t key value replacedValue).Bumps t := by
  unfold insertPair
  by_cases hgeneration : t.generation = uint64Max
  · rw [if_pos hgeneration]
    exact Reply.bumps_unchanged _ _
  rw [if_neg hgeneration]
  by_cases hgrowth : needsGrowth t = true
  · rw [if_pos hgrowth]
    by_cases hcapacity : uint64Max / 2 < t.capacity
    · rw [if_pos hcapacity]
      exact .inl ⟨rfl, rfl⟩
    rw [if_neg hcapacity]
    have hgrown : (reserve vt o t (if t.capacity = 0 then 8 else t.capacity * 2)).Bumps t :=
      reserve_bumps o _
    generalize reserve vt o t (if t.capacity = 0 then 8 else t.capacity * 2) = grown at hgrown ⊢
    by_cases hstatus : grown.status ≠ .ok
    · dsimp only
      rw [if_pos hstatus]
      exact hgrown
    dsimp only
    rw [if_neg hstatus]
    obtain ⟨htable, hcalls⟩ | hlt := hgrown
    · rw [htable, hcalls]
      exact insertGrown_bumps hgeneration key value replacedValue
    · exact .inr (hlt.trans_le (le_insertGrown key value replacedValue))
  · rw [if_neg hgrowth]
    exact insertGrown_bumps hgeneration key value replacedValue

lemma bury_bumps (h : t.generation ≠ uint64Max) (slot : ℕ) (removedValue : Bool) :
    (bury t slot removedValue).Bumps t := by
  unfold bury
  split
  case h_1 =>
    have hbump := @lt_bumpGeneration K V { t with
      slots := t.slots.set slot .deleted, size := t.size - 1, deleted := t.deleted + 1 } h
    exact .inr hbump
  case h_2 => exact Reply.bumps_unchanged _ _

lemma erase_bumps (key : Option K) (removedValue removed : Bool) :
    (erase vt t key removedValue removed).Bumps t := by
  unfold erase
  split
  · split_ifs with hgeneration
    · exact Reply.bumps_unchanged _ _
    · split
      · exact .inl ⟨rfl, rfl⟩
      · exact bury_bumps hgeneration _ removedValue
  · exact Reply.bumps_unchanged _ _

lemma clear_bumps (t : Table K V) : (clear t).Bumps t := by
  unfold clear
  split_ifs with hgeneration
  · exact Reply.bumps_unchanged _ _
  · have hbump := @lt_bumpGeneration K V
      { t with slots := t.slots.map fun _ => .empty, size := 0, deleted := 0 } hgeneration
    exact .inr hbump

/-- **One operation** does nothing to the table or makes the generation larger. -/
lemma perform_bumps (o : Outcome) (op : Op K V) : (perform vt o t op).Bumps t := by
  cases op with
  | reserve requested => exact reserve_bumps o requested
  | insert key value replacedValue replaced =>
    show (insert vt o t key value replacedValue replaced).Bumps t
    obtain ⟨k, v, -, -, -, heq⟩ | heq := insert_cases vt o t key value replacedValue replaced
    · rw [heq]
      exact insertPair_bumps o k v replacedValue
    · rw [heq]
      exact Reply.bumps_unchanged _ _
  | find key value => exact Reply.bumps_unchanged _ _
  | erase key removedValue removed => exact erase_bumps key removedValue removed
  | clear => exact clear_bumps t

/-! ## Runs -/

/-- Between two states of a run nothing happened to the table, or the generation became larger. -/
def State.Bumps (s s' : State K V) : Prop :=
  (s'.table = s.table ∧ s'.calls = s.calls) ∨ s.table.generation < s'.table.generation

lemma State.Bumps.le {s s' : State K V} (h : s.Bumps s') :
    s.table.generation ≤ s'.table.generation := by
  obtain ⟨htable, -⟩ | hlt := h
  · rw [htable]
  · exact hlt.le

lemma State.Bumps.trans {first second third : State K V} (h : first.Bumps second)
    (h' : second.Bumps third) : first.Bumps third := by
  obtain ⟨htable, hcalls⟩ | hlt := h
  · rwa [State.Bumps, htable, hcalls] at h'
  · exact .inr (hlt.trans_le h'.le)

lemma State.step_bumps (s : State K V) (x : Op K V × Outcome) : s.Bumps (s.step vt x) := by
  obtain ⟨htable, hcalls⟩ | hlt := @perform_bumps K V vt s.table x.2 x.1
  · refine .inl ⟨htable, ?_⟩
    rw [State.step, hcalls, List.append_nil]
  · exact .inr hlt

lemma run_bumps (vt : Vtable K) (seed : UInt64) (xs ys : List (Op K V × Outcome)) :
    (run vt seed xs).Bumps (run vt seed (xs ++ ys)) := by
  induction ys using List.reverseRecOn with
  | nil =>
    rw [List.append_nil]
    exact .inl ⟨rfl, rfl⟩
  | append_singleton ys y ih =>
    rw [← List.append_assoc, run_concat]
    exact ih.trans (State.step_bumps _ y)

/-- **Borrow generations are safe.**  If the borrow of a value that a lookup has found is valid after
some more operations, then after each of these the table is what it was, and none of them has moved
or dropped an object; and the generation never decreases and never comes back. -/
theorem borrow_safe (vt : Vtable K) (seed : UInt64) (xs ys : List (Op K V × Outcome)) :
    (∀ key slot, findSlot vt (run vt seed xs).table key = some slot →
      borrowIsValid (run vt seed (xs ++ ys)).table (run vt seed xs).table.generation = .ok →
      ∀ zs, zs <+: ys →
        (run vt seed (xs ++ zs)).table.slotAt slot = (run vt seed xs).table.slotAt slot ∧
        (run vt seed (xs ++ zs)).table = (run vt seed xs).table ∧
        (run vt seed (xs ++ zs)).calls = (run vt seed xs).calls) ∧
    (∀ zs, zs <+: ys →
      (run vt seed xs).table.generation ≤ (run vt seed (xs ++ zs)).table.generation ∧
      ((run vt seed (xs ++ zs)).table.generation ≠ (run vt seed xs).table.generation →
        (run vt seed (xs ++ ys)).table.generation ≠ (run vt seed xs).table.generation)) := by
  -- the state in between is on the way to the last one
  have hbetween : ∀ zs, zs <+: ys →
      (run vt seed (xs ++ zs)).table.generation ≤ (run vt seed (xs ++ ys)).table.generation := by
    rintro zs ⟨rest, rfl⟩
    rw [← List.append_assoc]
    exact (run_bumps vt seed (xs ++ zs) rest).le
  constructor
  · intro key slot _ hvalid zs hzs
    have hsame : (run vt seed (xs ++ ys)).table.generation = (run vt seed xs).table.generation := by
      by_contra hne
      rw [borrowIsValid, if_neg hne] at hvalid
      cases hvalid
    obtain ⟨htable, hcalls⟩ | hlt := run_bumps vt seed xs zs
    · exact ⟨by rw [htable], htable, hcalls⟩
    · exact absurd (hlt.trans_le (hbetween zs hzs)) (by rw [hsame]; exact lt_irrefl _)
  · intro zs hzs
    have hle := (run_bumps vt seed xs zs).le
    refine ⟨hle, fun hne heq => hne (le_antisymm ?_ hle)⟩
    rw [← heq]
    exact hbetween zs hzs

/-- A lookup and a refused removal leave the borrow of the value for `1` valid. -/
theorem borrow_safe_numbers :
    (run numbers 0 ([insertNumber 1 5] ++ [(.find (some 2) true, granted),
      (.erase (some 2) false true, granted)])).table.slotAt 1 = .occupied 1 5 := by
  have hsafe := ((borrow_safe numbers 0 [insertNumber 1 5] [(.find (some 2) true, granted),
    (.erase (some 2) false true, granted)]).1 1 1 (by decide) (by decide) _
      List.prefix_rfl).1
  rw [hsafe]
  decide

end Container

end Chtholly
