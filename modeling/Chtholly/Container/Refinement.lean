import Chtholly.Container.Operations

/-!
# The table as a finite map

Over every sequence of operations the table stands for a finite map: `find` returns the value of
the last successful `insert` of an equal key that was neither erased nor cleared since, the
counters count, and the callbacks have taken, moved and dropped every object once.  An operation
that fails leaves the map and the caller's objects alone.

Both statements have one exception.  `insert` checks the generation before it grows the table,
and again where it finds an empty slot, but not where it finds an equal key.  If the growth uses
up the last generation, the value has been replaced and the caller's key dropped when
`bump_generation` makes the call fail.

## Main definitions

* `Container.lastInserted` — the map that the statuses of a sequence promise.
* `Container.overflowsOnReplace` — an `insert` that replaces although it fails.
* `Container.RefinesMap` — the table stands for the map and accounts for its objects.
* `Container.FailsClean` — a failure changes nothing.

## Main results

* `Container.run_refinesMap` — without such an `insert`, every state refines the map.
* `Container.failsClean_iff` — in every state exactly these `insert`s fail with a change.
-/

set_option autoImplicit false

namespace Chtholly

namespace Container

variable {K V : Type} {vt : Vtable K} {t : Table K V}

/-! ## Every operation on a valid table -/

/-- A call that takes an object from the caller. -/
def Call.takes : Call K V → Bool
  | .moveKeyIn _ => true
  | .moveValueIn _ => true
  | .dropCallerKey _ => true
  | _ => false

variable {r : Reply K V}

lemma Reply.Kept.balanced (h : r.Kept vt t) :
    Balanced (entries t.slots) (entries r.table.slots) r.calls :=
  balanced_of_relocates h.perm.symm h.relocates

lemma Reply.Kept.takes (h : r.Kept vt t) : ∀ c ∈ r.calls, c.takes = false := by
  intro c hc
  have := h.relocates c hc
  cases c <;> first | rfl | cases this

lemma Table.Valid.reserve_kept (h : t.Valid vt) (o : Outcome) (requested : ℕ) :
    (reserve vt o t requested).Kept vt t := by
  rcases h.reserve_spec o requested with ⟨htable, hcalls, -⟩ | hre
  · exact h.kept_of_eq htable hcalls
  · exact hre.toKept

/-- `insert` without `NULL` arguments is `insertPair`. -/
lemma insert_cases (vt : Vtable K) (o : Outcome) (t : Table K V) (key : Option K)
    (value : Option V) (replacedValue replaced : Bool) :
    (∃ k v, key = some k ∧ value = some v ∧ replaced = true ∧
      insert vt o t key value replacedValue replaced = insertPair vt o t k v replacedValue) ∨
    insert vt o t key value replacedValue replaced = .unchanged .invalidArgument t := by
  cases key with
  | none => exact Or.inr rfl
  | some k =>
    cases value with
    | none => exact Or.inr rfl
    | some v =>
      cases replaced with
      | false => exact Or.inr rfl
      | true => exact Or.inl ⟨k, v, rfl, rfl, rfl, rfl⟩

/-- Every operation keeps the invariant and accounts for the objects. -/
lemma Table.Valid.perform (h : t.Valid vt) (o : Outcome) (op : Op K V) :
    (Container.perform vt o t op).table.Valid vt ∧
      Balanced (entries t.slots) (entries (Container.perform vt o t op).table.slots)
        (Container.perform vt o t op).calls := by
  cases op with
  | reserve requested => exact ⟨(h.reserve_kept o requested).valid, (h.reserve_kept o requested).balanced⟩
  | find key value => exact ⟨h, (h.kept_of_eq rfl rfl).balanced⟩
  | clear =>
    rcases h.clear_spec with ⟨htable, hcalls, -⟩ | hc
    · exact ⟨(h.kept_of_eq htable hcalls).valid, (h.kept_of_eq htable hcalls).balanced⟩
    · refine ⟨hc.valid, ?_⟩
      rw [Container.perform, hc.pairs]
      exact hc.balanced
  | erase key removedValue removed =>
    rcases h.erase_spec key removedValue removed with ⟨htable, hcalls, -⟩ | ⟨k, -, hb⟩
    · exact ⟨(h.kept_of_eq htable hcalls).valid, (h.kept_of_eq htable hcalls).balanced⟩
    · exact ⟨hb.valid, hb.balanced⟩
  | insert key value replacedValue replaced =>
    rw [Container.perform]
    rcases insert_cases vt o t key value replacedValue replaced with
      ⟨k, v, -, -, -, heq⟩ | heq
    · rw [heq]
      rcases h.insertPair_spec o k v replacedValue with ⟨hk, -, -⟩ | hs | ⟨-, -, -, hr, -⟩
      · exact ⟨hk.valid, hk.balanced⟩
      · exact ⟨hs.valid, hs.balanced⟩
      · exact ⟨hr.valid, hr.balanced⟩
    · rw [heq]
      exact ⟨h, (h.kept_of_eq rfl rfl).balanced⟩

lemma run_concat (seed : UInt64) (xs : List (Op K V × Outcome)) (x : Op K V × Outcome) :
    run vt seed (xs ++ [x]) = (run vt seed xs).step vt x := by
  rw [run, List.foldl_append]
  rfl

/-- In every state the table has the invariant, and the calls account for all objects. -/
lemma run_valid (vt : Vtable K) (seed : UInt64) (xs : List (Op K V × Outcome)) :
    (run vt seed xs).table.Valid vt ∧
      Balanced [] (entries (run vt seed xs).table.slots) (run vt seed xs).calls := by
  induction xs using List.reverseRecOn with
  | nil => exact ⟨valid_init seed, rfl, rfl⟩
  | append_singleton xs x ih =>
    obtain ⟨hvalid, hbal⟩ := ih
    obtain ⟨hvalid', hbal'⟩ := hvalid.perform x.2 x.1
    rw [run_concat]
    exact ⟨hvalid', hbal.trans hbal'⟩

/-! ## Growth -/

/-- The memory and the consent that the growth of `insert` needs. -/
def grantsGrowth (vt : Vtable K) (o : Outcome) (t : Table K V) : Bool :=
  allocateArrays vt o (grownCapacity t) && o.rehashBegin = .ok && (t.size = 0 || o.relocation)

lemma Table.Valid.reserve_grown (h : t.Valid vt) (o : Outcome)
    (hgen : t.generation ≠ uint64Max) :
    reserve vt o t (grownCapacity t) = rehash vt o t (grownCapacity t) := by
  have hle := h.capacity_le
  have hmax : uint64Max / 2 = 2 ^ 63 - 1 := by decide
  have hgrow : growCapacity (grownCapacity t) 64 (if t.capacity = 0 then 8 else t.capacity) =
      some (grownCapacity t) := by
    rw [grownCapacity]
    by_cases hzero : t.capacity = 0
    · rw [if_pos hzero, if_pos hzero]
      rfl
    · rw [if_neg hzero, if_neg hzero, growCapacity, if_pos (by omega), if_neg (by omega),
        growCapacity, if_neg (Nat.lt_irrefl _)]
  rw [reserve, if_neg (by rw [grownCapacity]; split <;> omega), if_neg hgen, hgrow]

/-- The growth of `insert` succeeds exactly when it is granted. -/
lemma Table.Valid.reserve_grown_status_iff (h : t.Valid vt) (o : Outcome)
    (hgen : t.generation ≠ uint64Max) :
    (reserve vt o t (grownCapacity t)).status = .ok ↔ grantsGrowth vt o t = true := by
  rw [h.reserve_grown o hgen]
  simp only [grantsGrowth, Bool.and_eq_true, Bool.or_eq_true, decide_eq_true_eq]
  constructor
  · intro hok
    rw [rehash] at hok
    split_ifs at hok with hmax halloc hbegin hsize hreloc
    · cases hok
    · cases hok
    · exact absurd hok hbegin
    · cases hok
    · cases hok
    · refine ⟨⟨by simpa using halloc, by simpa using hbegin⟩, ?_⟩
      by_contra hno
      rw [not_or] at hno
      exact hreloc ⟨hno.1, by simpa using hno.2⟩
  · rintro ⟨⟨halloc, hbegin⟩, hreloc⟩
    have hfits := allocateArrays_fits halloc
    have hload := h.load
    have hle := h.capacity_le
    have hdouble : 2 * t.capacity ≤ grownCapacity t := by
      rw [grownCapacity]
      split <;> omega
    -- three arrays in the address space leave no room for a size that overflows
    have hbounds : grownCapacity t ≤ vt.sizeMax ∧ t.size ≤ vt.sizeMax / 8 := by
      rw [Vtable.sizeMax]
      rcases vt.pointerBits_eq with hb | hb
      · rw [hb] at hfits ⊢
        omega
      · rw [hb] at hfits ⊢
        omega
    obtain ⟨n, hn, hcap⟩ : ∃ n, 3 ≤ n ∧ grownCapacity t = 2 ^ n := by
      rw [grownCapacity]
      split
      · exact ⟨3, le_rfl, rfl⟩
      · rename_i hne
        obtain ⟨n, hn, -, hcap⟩ := h.capacity_eq hne
        exact ⟨n + 1, by omega, by rw [hcap, pow_succ]⟩
    obtain ⟨chosen, hchosen, hre⟩ := h.relocation_commit hn hcap hdouble hfits hgen
    rw [rehash, if_neg (by omega), if_neg (by simpa using halloc), if_neg (by simpa using hbegin),
      if_neg (by omega), if_neg (by rintro ⟨h₁, h₂⟩; rcases hreloc with h | h <;> simp_all),
      hchosen]
    exact hre.status

/-- With the memory it asks for, `insert` never complains about the capacity. -/
lemma Table.Valid.insert_status_ne (h : t.Valid vt) {o : Outcome} (key : Option K)
    (value : Option V) (replacedValue replaced : Bool) (hgrant : grantsGrowth vt o t = true) :
    (insert vt o t key value replacedValue replaced).status ≠ .capacityOverflow := by
  rcases insert_cases vt o t key value replacedValue replaced with ⟨k, v, -, -, -, heq⟩ | heq
  · rw [heq]
    have hle := h.capacity_le
    have hmax : uint64Max / 2 = 2 ^ 63 - 1 := by decide
    by_cases hgen : t.generation = uint64Max
    · rw [insertPair, if_pos hgen]
      simp [Reply.unchanged]
    by_cases hgrow : needsGrowth t = true
    · rw [insertPair, if_neg hgen, if_pos hgrow, if_neg (by omega), ← grownCapacity]
      have hok := (h.reserve_grown_status_iff o hgen).2 hgrant
      simp only [hok, ne_eq, not_true_eq_false, if_false]
      rcases h.reserve_spec o (grownCapacity t) with ⟨-, -, hstatus⟩ | hre
      · have := hstatus hok
        rw [grownCapacity] at this
        split at this <;> omega
      · rcases hre.valid.insertGrown_spec (hre.hasRoom h) k v replacedValue with
          ⟨-, -, hs⟩ | ⟨-, ⟨-, hr⟩ | hst⟩
        · rw [hs]
          split <;> simp
        · rw [hr]
          simp
        · rw [hst.status]
          simp
    · rw [insertPair, if_neg hgen, if_neg hgrow]
      rcases h.insertGrown_spec (hasRoom_of_needsGrowth (by simpa using hgrow)) k v replacedValue
        with ⟨-, -, hs⟩ | ⟨-, ⟨-, hr⟩ | hst⟩
      · rw [hs]
        split <;> simp
      · rw [hr]
        simp
      · rw [hst.status]
        simp
  · rw [heq]
    simp [Reply.unchanged]

/-! ## What `find` sees -/

lemma Reply.Kept.find (h : t.Valid vt) (hr : r.Kept vt t) (key : K) :
    Container.find vt r.table key = Container.find vt t key :=
  h.find_eq_of_perm hr.valid hr.perm key

variable {k : K}

/-- A key is equal to at most one of the keys in a list of pairs without equal keys. -/
lemma equal_of_equal_left {l key : K} (hk : vt.equal k key = true) (hl : vt.equal k l = false) :
    vt.equal l key = false := by
  by_contra hne
  have := vt.equal_trans hk (vt.equal_symm (by simpa using hne))
  rw [hl] at this
  cases this

/-- Of two tables with the pairs `(k, v) :: rest` and the second one without the first pair:
the lookup of the first. -/
lemma Table.Valid.find_of_cons {t' : Table K V} {rest : List (K × V)} {v : V} (h' : t'.Valid vt)
    (hperm : (entries t'.slots).Perm ((k, v) :: rest)) (key : K) (w : V) :
    Container.find vt t' key = some w ↔
      (vt.equal k key = true ∧ w = v) ∨
        vt.equal k key = false ∧ ∃ l, (l, w) ∈ rest ∧ vt.equal l key = true := by
  have hdist := (distinct_perm hperm).1 h'.distinct
  rw [List.pairwise_cons] at hdist
  rw [h'.find_eq_some_iff]
  simp only [hperm.mem_iff, List.mem_cons, Prod.mk.injEq]
  constructor
  · rintro ⟨l, ⟨rfl, rfl⟩ | hmem, hl⟩
    · exact Or.inl ⟨hl, rfl⟩
    · refine Or.inr ⟨?_, l, hmem, hl⟩
      by_contra hne
      have := equal_of_equal_left (by simpa using hne) (hdist.1 (l, w) hmem)
      rw [hl] at this
      cases this
  · rintro (⟨hk, rfl⟩ | ⟨-, l, hmem, hl⟩)
    · exact ⟨k, Or.inl ⟨rfl, rfl⟩, hk⟩
    · exact ⟨l, Or.inr hmem, hl⟩

/-- The lookup after an `insert` that stored or replaced. -/
lemma Table.Valid.find_inserted (h : t.Valid vt) {t' : Table K V} (h' : t'.Valid vt)
    {before : List (K × V)} {rest : List (K × V)} {key' : K} {value : V}
    (hk : vt.equal k key' = true) (hbefore : (entries t.slots).Perm (before ++ rest))
    (hsame : ∀ x ∈ before, vt.equal x.1 k = true)
    (hafter : (entries t'.slots).Perm ((k, value) :: rest)) (key : K) :
    Container.find vt t' key =
      if vt.equal key' key = true then some value else Container.find vt t key := by
  ext w
  rw [h'.find_of_cons hafter]
  split
  · rename_i heq
    have hkk : vt.equal k key = true := vt.equal_trans hk heq
    constructor
    · rintro (⟨-, rfl⟩ | ⟨hne, -⟩)
      · rfl
      · rw [hkk] at hne
        cases hne
    · intro hw
      cases hw
      exact Or.inl ⟨hkk, rfl⟩
  · rename_i heq
    have hkk : vt.equal k key = false := by
      by_contra hne
      exact heq (vt.equal_trans (vt.equal_symm hk) (by simpa using hne))
    rw [h.find_eq_some_iff]
    simp only [hbefore.mem_iff, List.mem_append]
    constructor
    · rintro (⟨hk', -⟩ | ⟨-, l, hmem, hl⟩)
      · rw [hkk] at hk'
        cases hk'
      · exact ⟨l, Or.inr hmem, hl⟩
    · rintro ⟨l, hmem | hmem, hl⟩
      · have := vt.equal_trans (vt.equal_symm (hsame (l, w) hmem)) hl
        rw [hkk] at this
        cases this
      · exact Or.inr ⟨hkk, l, hmem, hl⟩

lemma Reply.Stored.find {v : V} (h : t.Valid vt) (hr : r.Stored vt t k v) (key : K) :
    Container.find vt r.table key =
      if vt.equal k key = true then some v else Container.find vt t key :=
  h.find_inserted hr.valid (vt.equal_refl k) (List.Perm.refl ([] ++ entries t.slots))
    (fun x hx => by cases hx) hr.perm key

lemma Reply.Replaced.find {v : V} (h : t.Valid vt) (hr : r.Replaced vt t k v) (key : K) :
    Container.find vt r.table key =
      if vt.equal k key = true then some v else Container.find vt t key := by
  obtain ⟨l, old, rest, hl, hbefore, hafter⟩ := hr.pairs
  have hsame : ∀ x ∈ [(l, old)], vt.equal x.1 l = true := by
    intro x hx
    rw [List.mem_singleton.1 hx]
    exact vt.equal_refl l
  exact h.find_inserted hr.valid hl hbefore hsame hafter key

lemma Reply.Buried.find (h : t.Valid vt) (hr : r.Buried vt t k) (key : K) :
    Container.find vt r.table key =
      if vt.equal k key = true then none else Container.find vt t key := by
  obtain ⟨l, old, hl, hperm⟩ := hr.pairs
  ext w
  rw [hr.valid.find_eq_some_iff]
  have hfind := h.find_of_cons hperm key w
  have hdist := (distinct_perm hperm).1 h.distinct
  rw [List.pairwise_cons] at hdist
  split
  · rename_i heq
    have hlk : vt.equal l key = true := vt.equal_trans hl heq
    constructor
    · rintro ⟨m, hmem, hm⟩
      have := equal_of_equal_left hlk (hdist.1 (m, w) hmem)
      rw [hm] at this
      cases this
    · intro hw
      cases hw
  · rename_i heq
    have hlk : vt.equal l key = false := by
      by_contra hne
      exact heq (vt.equal_trans (vt.equal_symm hl) (by simpa using hne))
    rw [hfind, hlk]
    simp

lemma Reply.Cleared.find (hr : r.Cleared vt t) (key : K) :
    Container.find vt r.table key = none := by
  rw [Option.eq_none_iff_forall_ne_some]
  intro w hw
  obtain ⟨k, hmem, -⟩ := hr.valid.find_eq_some_iff.1 hw
  rw [hr.pairs] at hmem
  cases hmem

/-! ## Failures -/

/-- An `insert` that the code lets replace a value although it fails: the growth that it needs
and is granted uses up the last generation, and the table holds an equal key. -/
def overflowsOnReplace (vt : Vtable K) (o : Outcome) (t : Table K V) : Op K V → Bool
  | .insert (some k) (some _) _ true =>
    t.generation + 1 = uint64Max && needsGrowth t && grantsGrowth vt o t &&
      (findSlot vt t k).isSome
  | _ => false

/-- If the operation fails, every lookup sees what it saw before, the caller still owns its
objects, and a `reserve` has left the table as it was. -/
def FailsClean (vt : Vtable K) (o : Outcome) (t : Table K V) (op : Op K V) : Prop :=
  (perform vt o t op).status ≠ .ok →
    (∀ key, find vt (perform vt o t op).table key = find vt t key) ∧
    (∀ c ∈ (perform vt o t op).calls, c.takes = false) ∧
    ∀ requested, op = .reserve requested →
      (perform vt o t op).table.capacity = t.capacity ∧
      (perform vt o t op).table.slots = t.slots ∧
      (perform vt o t op).table.generation = t.generation

lemma Table.Valid.failsClean_of_kept (h : t.Valid vt) {o : Outcome} {op : Op K V}
    (hr : (Container.perform vt o t op).Kept vt t) (hop : ∀ requested, op ≠ .reserve requested) :
    FailsClean vt o t op := by
  intro _
  exact ⟨hr.find h, hr.takes, fun requested hreq => absurd hreq (hop requested)⟩

lemma Table.Valid.failsClean_reserve (h : t.Valid vt) (o : Outcome) (requested : ℕ) :
    FailsClean vt o t (.reserve requested) := by
  intro hfail
  rw [Container.perform] at hfail ⊢
  rcases h.reserve_spec o requested with ⟨htable, hcalls, -⟩ | hre
  · rw [htable]
    refine ⟨fun _ => rfl, fun c hc => ?_, fun _ _ => ⟨rfl, rfl, rfl⟩⟩
    rw [hcalls] at hc
    cases hc
  · exact absurd hre.status hfail

/-- The failure of an `insert` of a key and a value. -/
lemma Table.Valid.failsClean_insertPair (h : t.Valid vt) (o : Outcome) (k : K) (v : V)
    (replacedValue : Bool) :
    FailsClean vt o t (.insert (some k) (some v) replacedValue true) ↔
      overflowsOnReplace vt o t (.insert (some k) (some v) replacedValue true) = false := by
  have heq : Container.perform vt o t (.insert (some k) (some v) replacedValue true) =
      insertPair vt o t k v replacedValue := rfl
  have hover : overflowsOnReplace vt o t (.insert (some k) (some v) replacedValue true) =
      (decide (t.generation + 1 = uint64Max) && needsGrowth t && grantsGrowth vt o t &&
        (findSlot vt t k).isSome) := rfl
  have hne : ∀ requested, (.insert (some k) (some v) replacedValue true : Op K V) ≠
      .reserve requested := by simp
  rcases h.insertPair_spec o k v replacedValue with
    ⟨hk, -, hwhy⟩ | hs | ⟨⟨x, hx, hxk⟩, hgen, hgrow, hr, hstatus⟩
  · refine ⟨fun _ => ?_, fun _ => h.failsClean_of_kept (heq ▸ hk) hne⟩
    by_contra hov
    rw [hover] at hov
    simp only [Bool.not_eq_false, Bool.and_eq_true, decide_eq_true_eq] at hov
    obtain ⟨⟨⟨hgen, -⟩, hgrant⟩, hsome⟩ := hov
    have hgen' : t.generation ≠ uint64Max := by omega
    rcases hwhy (h.findSlot_isSome_iff.1 hsome) with hmax | ⟨-, hno⟩
    · exact hgen' hmax
    · exact hno ((h.reserve_grown_status_iff o hgen').2 hgrant)
  · refine ⟨fun _ => ?_, fun _ hfail => absurd hs.status (heq ▸ hfail)⟩
    by_contra hov
    rw [hover] at hov
    simp only [Bool.not_eq_false, Bool.and_eq_true] at hov
    obtain ⟨x, hx, hxk⟩ := h.findSlot_isSome_iff.1 hov.2
    rw [hs.fresh x hx] at hxk
    cases hxk
  · -- the value was replaced: a failure if the growth took the last generation
    have hsome : (findSlot vt t k).isSome = true := h.findSlot_isSome_iff.2 ⟨x, hx, hxk⟩
    constructor
    · intro hclean
      by_contra hov
      rw [hover] at hov
      simp only [Bool.not_eq_false, Bool.and_eq_true, decide_eq_true_eq] at hov
      rw [grownGeneration, if_pos hov.1.1.2, if_pos hov.1.1.1] at hstatus
      have htakes := (hclean (by rw [heq, hstatus]; simp)).2.1 (.moveValueIn v) (heq ▸ hr.calls)
      cases htakes
    · intro hov hfail
      exfalso
      rw [heq, hstatus] at hfail
      have hmax : grownGeneration t = uint64Max := by
        by_contra hne'
        exact hfail (if_neg hne')
      rw [grownGeneration] at hmax
      split at hmax
      · rename_i hneeds
        have hgrant := (h.reserve_grown_status_iff o hgen).1 (hgrow hneeds)
        rw [hover, hmax, hneeds, hgrant, hsome] at hov
        simp at hov
      · exact hgen hmax

/-- Of a table with the invariant: an operation fails cleanly unless it is such an `insert`. -/
lemma Table.Valid.failsClean_iff_valid (h : t.Valid vt) (o : Outcome) (op : Op K V) :
    FailsClean vt o t op ↔ overflowsOnReplace vt o t op = false := by
  cases op with
  | reserve requested => exact iff_of_true (h.failsClean_reserve o requested) rfl
  | find key value =>
    exact iff_of_true (h.failsClean_of_kept (h.kept_of_eq rfl rfl) (by simp)) rfl
  | clear =>
    refine iff_of_true ?_ rfl
    rcases h.clear_spec with ⟨htable, hcalls, -⟩ | hc
    · exact h.failsClean_of_kept (h.kept_of_eq htable hcalls) (by simp)
    · exact fun hfail => absurd hc.status hfail
  | erase key removedValue removed =>
    refine iff_of_true ?_ rfl
    rcases h.erase_spec key removedValue removed with ⟨htable, hcalls, -⟩ | ⟨k, -, hb⟩
    · exact h.failsClean_of_kept (h.kept_of_eq htable hcalls) (by simp)
    · exact fun hfail => absurd hb.status hfail
  | insert key value replacedValue replaced =>
    rcases insert_cases vt o t key value replacedValue replaced with
      ⟨k, v, rfl, rfl, rfl, -⟩ | heq
    · exact h.failsClean_insertPair o k v replacedValue
    · have hkept : (Container.perform vt o t (.insert key value replacedValue replaced)).Kept vt
          t := by
        rw [Container.perform, heq]
        exact h.kept_of_eq rfl rfl
      have hclean := h.failsClean_of_kept hkept (by simp)
      refine iff_of_true hclean ?_
      cases key with
      | none => rfl
      | some k =>
        cases value with
        | none => rfl
        | some v =>
          cases replaced with
          | false => rfl
          | true => exact (h.failsClean_insertPair o k v replacedValue).1 hclean

/-- In every state that operations lead to, an operation fails cleanly unless it is an `insert`
that replaces with the last generation used up by its own growth. -/
theorem failsClean_iff (vt : Vtable K) (seed : UInt64) (xs : List (Op K V × Outcome))
    (o : Outcome) (op : Op K V) :
    FailsClean vt o (run vt seed xs).table op ↔
      overflowsOnReplace vt o (run vt seed xs).table op = false :=
  (run_valid vt seed xs).1.failsClean_iff_valid o op

/-! ## The map -/

/-- What a successful operation does to the value of a key. -/
def recorded (vt : Vtable K) (op : Op K V) (key : K) (before : Option V) : Option V :=
  match op with
  | .insert (some k) (some v) _ _ => if vt.equal k key = true then some v else before
  | .erase (some k) _ _ => if vt.equal k key = true then none else before
  | .clear => none
  | _ => before

/-- The value of the last successful `insert` of an equal key that was not erased or cleared
since, in a history that starts with the latest operation. -/
def lastInserted (vt : Vtable K) : List (Op K V × Status) → K → Option V
  | [], _ => none
  | (op, status) :: history, key =>
    if status = .ok then recorded vt op key (lastInserted vt history key)
    else lastInserted vt history key

/-- The table of a state stands for the map that the statuses promise, and all its objects are
accounted for when it is destroyed. -/
structure RefinesMap (vt : Vtable K) (s : State K V) : Prop where
  find_eq : ∀ key, find vt s.table key = lastInserted vt s.history key
  size_eq : ∃ keys : List K, keys.Pairwise (fun k l => vt.equal k l = false) ∧
    (∀ key, (lastInserted vt s.history key).isSome = true ↔
      ∃ k ∈ keys, vt.equal k key = true) ∧
    s.table.size = keys.length
  one_slot : ∀ {i j k l v w}, s.table.slotAt i = .occupied k v →
    s.table.slotAt j = .occupied l w → vt.equal k l = true → i = j
  slots_eq : s.table.slots.length = s.table.capacity ∧
    s.table.size + s.table.deleted + vacancies s.table.slots = s.table.capacity
  capacity : s.table.capacity = 0 ∨ ∃ n, 3 ≤ n ∧ s.table.capacity = 2 ^ n
  insert_status : ∀ o key value replacedValue replaced, s.table.capacity < 2 ^ 63 →
    grantsGrowth vt o s.table = true →
    (insert vt o s.table key value replacedValue replaced).status ≠ .capacityOverflow
  keys_released : keysIn (s.calls ++ (destroy s.table).1) =
    keysDropped (s.calls ++ (destroy s.table).1)
  values_released : valuesIn (s.calls ++ (destroy s.table).1) =
    valuesOut (s.calls ++ (destroy s.table).1) + valuesDropped (s.calls ++ (destroy s.table).1)

/-- One operation does to the lookups what its status promises. -/
lemma Table.Valid.find_perform (h : t.Valid vt) {o : Outcome} {op : Op K V}
    (hop : overflowsOnReplace vt o t op = false) (key : K) :
    Container.find vt (Container.perform vt o t op).table key =
      if (Container.perform vt o t op).status = .ok then
        recorded vt op key (Container.find vt t key)
      else Container.find vt t key := by
  by_cases hstatus : (Container.perform vt o t op).status = .ok
  · rw [if_pos hstatus]
    cases op with
    | reserve requested => exact (h.reserve_kept o requested).find h key
    | find key value => rfl
    | clear =>
      rcases h.clear_spec with ⟨-, -, hfail⟩ | hc
      · exact absurd hstatus hfail
      · exact hc.find key
    | erase key' removedValue removed =>
      rcases h.erase_spec key' removedValue removed with ⟨-, -, hfail⟩ | ⟨k, rfl, hb⟩
      · exact absurd hstatus hfail
      · exact hb.find h key
    | insert key' value replacedValue replaced =>
      rcases insert_cases vt o t key' value replacedValue replaced with
        ⟨k, v, rfl, rfl, rfl, heq⟩ | heq
      · rw [Container.perform, heq] at hstatus ⊢
        rcases h.insertPair_spec o k v replacedValue with
          ⟨-, hfail, -⟩ | hs | ⟨-, -, -, hr, -⟩
        · exact absurd hstatus hfail
        · exact hs.find h key
        · exact hr.find h key
      · rw [Container.perform, heq] at hstatus
        cases hstatus
  · rw [if_neg hstatus]
    exact ((h.failsClean_iff_valid o op).2 hop hstatus).1 key

/-- No operation of the sequence is an `insert` that replaces although it fails. -/
def neverOverflows (vt : Vtable K) : State K V → List (Op K V × Outcome) → Bool
  | _, [] => true
  | s, x :: xs => !overflowsOnReplace vt x.2 s.table x.1 && neverOverflows vt (s.step vt x) xs

lemma find_foldl_step (xs : List (Op K V × Outcome)) : ∀ s : State K V, s.table.Valid vt →
    (∀ key, find vt s.table key = lastInserted vt s.history key) →
    neverOverflows vt s xs = true → ∀ key,
    find vt (xs.foldl (State.step vt) s).table key =
      lastInserted vt (xs.foldl (State.step vt) s).history key := by
  induction xs with
  | nil => exact fun s _ hfind _ => hfind
  | cons x xs ih =>
    intro s hvalid hfind hover
    rw [neverOverflows, Bool.and_eq_true] at hover
    refine ih (s.step vt x) (hvalid.perform x.2 x.1).1 (fun key => ?_) hover.2
    have hstep := hvalid.find_perform (by simpa using hover.1) key
    rw [hfind key] at hstep
    exact hstep

/-- In every run in which no `insert` replaces with the last generation used up by its own
growth, the table is a finite map. -/
theorem run_refinesMap (vt : Vtable K) (seed : UInt64) (xs : List (Op K V × Outcome))
    (hxs : neverOverflows vt (run vt seed []) xs = true) : RefinesMap vt (run vt seed xs) := by
  obtain ⟨hvalid, hbal⟩ := run_valid vt seed xs
  have hfind : ∀ key, find vt (run vt seed xs).table key =
      lastInserted vt (run vt seed xs).history key := by
    refine find_foldl_step xs _ (valid_init seed) (fun key => ?_) hxs
    rfl
  have hend := hbal.trans (balanced_dropSlots (run vt seed xs).table)
  exact {
    find_eq := hfind
    size_eq := by
      refine ⟨(entries (run vt seed xs).table.slots).map Prod.fst, ?_, fun key => ?_, ?_⟩
      · exact List.pairwise_map.2 hvalid.distinct
      · rw [← hfind key, Option.isSome_iff_exists]
        simp only [hvalid.find_eq_some_iff, List.mem_map]
        constructor
        · rintro ⟨v, k, hmem, hk⟩
          exact ⟨k, ⟨(k, v), hmem, rfl⟩, hk⟩
        · rintro ⟨k, ⟨⟨k, v⟩, hmem, rfl⟩, hk⟩
          exact ⟨v, k, hmem, hk⟩
      · rw [List.length_map, hvalid.size]
    one_slot := hvalid.eq_of_equal
    slots_eq := by
      refine ⟨hvalid.length, ?_⟩
      rw [hvalid.size, hvalid.deleted, ← hvalid.length, ← length_eq_contents]
    capacity := hvalid.capacity
    insert_status := fun o key value replacedValue replaced _ hgrant =>
      hvalid.insert_status_ne key value replacedValue replaced hgrant
    keys_released := by simpa [destroy] using hend.keys
    values_released := by simpa [destroy] using hend.values }

/-! ## A table whose generation is nearly used up -/

/-- A descriptor for 64-bit numbers that hashes a number to itself. -/
def numbers : Vtable ℕ where
  pointerBits := 64
  keySize := 8
  valueSize := 8
  hash k _ := UInt64.ofNat k
  equal k l := k == l
  pointerBits_eq := Or.inr rfl
  keySize_pos := by omega
  valueSize_pos := by omega
  equal_refl k := beq_self_eq_true k
  equal_symm h := by rw [beq_iff_eq] at h ⊢; exact h.symm
  equal_trans h₁ h₂ := by rw [beq_iff_eq] at h₁ h₂ ⊢; exact h₁.trans h₂
  hash_eq seed h := by rw [beq_iff_eq] at h; rw [h]

/-- Memory is there and `rehash_begin` consents. -/
def granted : Outcome := { arrays := true, rehashBegin := .ok, relocation := true }

/-- Insert a value for a number, with the memory that it may need. -/
def insertNumber (k v : ℕ) : Op ℕ ℕ × Outcome :=
  (.insert (some k) (some v) false true, granted)

/-- Two insertions of one key and a lookup. -/
theorem twice_refinesMap :
    neverOverflows numbers (run numbers 0 []) [insertNumber 1 5, insertNumber 1 6] = true ∧
      RefinesMap numbers (run numbers 0 [insertNumber 1 5, insertNumber 1 6]) :=
  ⟨by decide, run_refinesMap numbers 0 _ (by decide)⟩

/-- A table that has only ever been cleared. -/
def worn (generation : ℕ) : Table ℕ ℕ :=
  { slots := [], size := 0, capacity := 0, deleted := 0, generation, seed := 0 }

lemma run_replicate_clear (o : Outcome) (n : ℕ) (hn : n ≤ uint64Max) :
    (run numbers 0 (List.replicate n (.clear, o))).table = worn n := by
  induction n with
  | zero => rfl
  | succ n ih =>
    have hne : n ≠ uint64Max := by omega
    rw [List.replicate_succ', run_concat]
    show (clear (run numbers 0 (List.replicate n (.clear, o))).table).table = _
    rw [ih (by omega)]
    simp [clear, worn, bumpGeneration, hne]

/-- The operations that leave six keys and the generation two short of its limit, and the
`insert` of the first key again. -/
def lastOps : List (Op ℕ ℕ × Outcome) :=
  [insertNumber 0 0, insertNumber 1 1, insertNumber 2 2, insertNumber 3 3, insertNumber 4 4,
    insertNumber 5 5]

/-- A long life of clearing before them. -/
def wornOps : List (Op ℕ ℕ × Outcome) :=
  List.replicate (2 ^ 64 - 9) (.clear, granted) ++ lastOps

/-- The table and the statuses of some operations, without the callback calls. -/
def replay (vt : Vtable K) : Table K V → List (Op K V × Outcome) →
    Table K V × List (Op K V × Status)
  | t, [] => (t, [])
  | t, x :: xs =>
    let rest := replay vt (perform vt x.2 t x.1).table xs
    (rest.1, rest.2 ++ [(x.1, (perform vt x.2 t x.1).status)])

lemma foldl_step_eq_replay (xs : List (Op K V × Outcome)) : ∀ s : State K V,
    (xs.foldl (State.step vt) s).table = (replay vt s.table xs).1 ∧
      (xs.foldl (State.step vt) s).history = (replay vt s.table xs).2 ++ s.history := by
  induction xs with
  | nil => exact fun s => ⟨rfl, rfl⟩
  | cons x xs ih =>
    intro s
    obtain ⟨htable, hhistory⟩ := ih (s.step vt x)
    refine ⟨htable, ?_⟩
    rw [List.foldl_cons, hhistory, replay, List.append_assoc]
    rfl

/-- The state after the long life is that of a fresh table with another generation. -/
lemma run_worn (xs : List (Op ℕ ℕ × Outcome)) :
    (run numbers 0 (List.replicate (2 ^ 64 - 9) (.clear, granted) ++ xs)).table =
      (replay numbers (worn (2 ^ 64 - 9)) xs).1 ∧
    ∃ history, (run numbers 0 (List.replicate (2 ^ 64 - 9) (.clear, granted) ++ xs)).history =
      (replay numbers (worn (2 ^ 64 - 9)) xs).2 ++ history := by
  have hsplit : run numbers 0 (List.replicate (2 ^ 64 - 9) (.clear, granted) ++ xs) =
      xs.foldl (State.step numbers)
        (run numbers 0 (List.replicate (2 ^ 64 - 9) (.clear, granted))) := by
    rw [run, List.foldl_append]
    rfl
  have hclear := run_replicate_clear granted (2 ^ 64 - 9) (by rw [uint64Max]; omega)
  rw [hsplit, ← hclear]
  exact ⟨(foldl_step_eq_replay xs _).1, _, (foldl_step_eq_replay xs _).2⟩

/-- The `insert` of the first key again fails and has taken the caller's objects. -/
theorem worn_not_failsClean : ¬ FailsClean numbers granted (run numbers 0 wornOps).table
    (insertNumber 0 7).1 := by
  rw [(run_valid numbers 0 wornOps).1.failsClean_iff_valid, wornOps, (run_worn lastOps).1]
  decide

/-- After it, a lookup finds the value of the `insert` that failed. -/
theorem worn_not_refinesMap :
    ¬ RefinesMap numbers (run numbers 0 (wornOps ++ [insertNumber 0 7])) := by
  intro h
  have hfind := h.find_eq 0
  rw [wornOps, List.append_assoc] at hfind
  obtain ⟨htable, history, hhistory⟩ := run_worn (lastOps ++ [insertNumber 0 7])
  rw [htable, hhistory] at hfind
  have hvalue : find numbers
      (replay numbers (worn (2 ^ 64 - 9)) (lastOps ++ [insertNumber 0 7])).1 0 = some 7 := by
    decide
  have hstatuses : (replay numbers (worn (2 ^ 64 - 9))
      (lastOps ++ [insertNumber 0 7])).2 =
      ((insertNumber 0 7).1, .generationOverflow) ::
        (lastOps.reverse.map fun x => (x.1, .ok)) := by decide
  rw [hvalue, hstatuses] at hfind
  have hlast : lastInserted numbers (((insertNumber 0 7).1, .generationOverflow) ::
      (lastOps.reverse.map fun x => (x.1, Status.ok)) ++ history) 0 = some 0 := rfl
  rw [hlast] at hfind
  cases hfind

end Container

end Chtholly
