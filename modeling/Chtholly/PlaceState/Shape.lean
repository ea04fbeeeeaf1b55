import Chtholly.PlaceState.State

set_option autoImplicit false

/-!
# The maps of place states

How the operations on the facts about all locals act on the facts about one of them, and that none of
them changes which leaves, unions and enums a local has.

## Main definitions

* `Chtholly.RootState.shape`, `Chtholly.StateMap.Shaped` — the paths of the leaves, unions and enums,
  and a map in which every local has those of its type.
* `Chtholly.StateMap.Touches` — what an operation that mentions some locals does to a map.

## Main results

* `Chtholly.StateMap.lookup_merge`, `Chtholly.StateMap.lookup_eraseLocals` and so on — the facts about
  one local.
* `Chtholly.StateMap.Shaped.merge` and so on — the operations keep the shape.
-/

namespace Chtholly

namespace StateMap

variable {sem : SemIR} {S T : StateMap} {l m : LocalId} {f : RootState → RootState}

/-! ## Facts about one local -/

lemma lookup_cons (e : LocalId × RootState) :
    List.lookup m (e :: S) = if m = e.1 then some e.2 else S.lookup m := by
  rw [List.lookup_cons]
  by_cases h : m = e.1
  · simp [h]
  · have hb : (m == e.1) = false := beq_eq_false_iff_ne.2 h
    rw [hb, if_neg h]

/-- A map that changes the facts and keeps the locals. -/
lemma lookup_map (g : LocalId × RootState → LocalId × RootState)
    (hg : ∀ e, (g e).1 = e.1) :
    List.lookup m (S.map g) = (S.lookup m).map fun r => (g (m, r)).2 := by
  induction S with
  | nil => rfl
  | cons e S ih =>
    rw [List.map_cons, lookup_cons, lookup_cons, hg, ih]
    by_cases h : m = e.1
    · subst h
      simp
    · simp [h]

lemma lookup_update :
    List.lookup m (S.update l f) = if m = l then (S.lookup m).map f else S.lookup m := by
  rw [update, lookup_map]
  · by_cases h : m = l
    · simp [h]
    · simp [h]
  · intro e
    split
    · rfl
    · rfl

lemma lookup_ensureRoot :
    List.lookup m (S.ensureRoot sem l) =
      if m = l then some (S.root sem l) else S.lookup m := by
  rw [ensureRoot]
  by_cases hl : S.has l = true
  · rw [if_pos hl]
    by_cases h : m = l
    · subst h
      obtain ⟨r, hr⟩ := Option.isSome_iff_exists.1 hl
      simp [root, hr]
    · simp [h]
  · rw [if_neg hl, lookup_cons]
    by_cases h : m = l
    · subst h
      have hnone : S.lookup m = none := Option.not_isSome_iff_eq_none.1 hl
      simp [root, hnone]
    · simp [h]

lemma lookup_modifyRoot :
    List.lookup m (S.modifyRoot sem l f) =
      if m = l then some (f (S.root sem l)) else S.lookup m := by
  rw [modifyRoot, lookup_update, lookup_ensureRoot]
  by_cases h : m = l
  · simp [h]
  · simp [h]

lemma lookup_eraseLocals (ls : List LocalId) :
    List.lookup m (S.eraseLocals ls) = if m ∈ ls then none else S.lookup m := by
  induction S with
  | nil => simp [eraseLocals]
  | cons e S ih =>
    rw [eraseLocals, List.filter_cons]
    by_cases he : e.1 ∈ ls
    · rw [if_neg (by simpa using he)]
      change List.lookup m (eraseLocals ls S) = _
      rw [ih, lookup_cons]
      by_cases h : m = e.1
      · subst h
        simp [he]
      · simp [h]
    · rw [if_pos (by simpa using he)]
      change List.lookup m (e :: eraseLocals ls S) = _
      rw [lookup_cons, lookup_cons, ih]
      by_cases h : m = e.1
      · subst h
        simp [he]
      · simp [h]

lemma lookup_merge :
    List.lookup m (S.merge T) = (S.lookup m).map fun r =>
      match T.lookup m with
      | some s => r.merge s
      | none => r := by
  rw [merge, lookup_map]
  · congr 1
    funext r
    cases T.lookup m with
    | none => rfl
    | some s => rfl
  · intro e
    cases T.lookup e.1 with
    | none => rfl
    | some s => rfl

lemma has_iff : S.has l = true ↔ ∃ r, S.lookup l = some r := Option.isSome_iff_exists

@[simp] lemma has_update : (S.update l f).has m = S.has m := by
  rw [has, has, lookup_update]
  by_cases h : m = l
  · simp [h]
  · simp [h]

@[simp] lemma has_ensureRoot : (S.ensureRoot sem l).has m = (decide (m = l) || S.has m) := by
  rw [has, has, lookup_ensureRoot]
  by_cases h : m = l
  · simp [h]
  · simp [h]

@[simp] lemma has_modifyRoot :
    (S.modifyRoot sem l f).has m = (decide (m = l) || S.has m) := by
  rw [modifyRoot, has_update, has_ensureRoot]

@[simp] lemma has_eraseLocals (ls : List LocalId) :
    (S.eraseLocals ls).has m = (!decide (m ∈ ls) && S.has m) := by
  rw [has, has, lookup_eraseLocals]
  by_cases h : m ∈ ls
  · simp [h]
  · simp [h]

@[simp] lemma has_merge : (S.merge T).has m = S.has m := by
  rw [has, has, lookup_merge, Option.isSome_map]

lemma root_of_lookup {r : RootState} (h : S.lookup l = some r) : S.root sem l = r := by
  rw [root, h]
  rfl

@[simp] lemma root_ensureRoot : (S.ensureRoot sem l).root sem m = S.root sem m := by
  rw [root, lookup_ensureRoot]
  by_cases h : m = l
  · simp [h]
  · simp [h, root]

lemma root_modifyRoot :
    (S.modifyRoot sem l f).root sem m = if m = l then f (S.root sem l) else S.root sem m := by
  rw [root, lookup_modifyRoot]
  by_cases h : m = l
  · simp [h]
  · simp [h, root]

/-- A join, for a local that both maps have. -/
lemma root_merge (hS : S.has l = true) (hT : T.has l = true) :
    (S.merge T).root sem l = (S.root sem l).merge (T.root sem l) := by
  obtain ⟨r, hr⟩ := has_iff.1 hS
  obtain ⟨s, hs⟩ := has_iff.1 hT
  rw [root, lookup_merge, root, root, hr, hs]
  rfl

/-- A join, for a local that the second map does not have. -/
lemma root_merge_of_not_has (hT : T.has l = false) :
    (S.merge T).root sem l = S.root sem l := by
  have hnone : T.lookup l = none := by
    apply Option.not_isSome_iff_eq_none.1
    rw [show (T.lookup l).isSome = false from hT]
    exact Bool.false_ne_true
  rw [root, lookup_merge, root, hnone]
  cases S.lookup l with
  | none => rfl
  | some r => rfl

lemma root_eraseLocals_of_notMem {ls : List LocalId} (h : l ∉ ls) :
    (S.eraseLocals ls).root sem l = S.root sem l := by
  rw [root, lookup_eraseLocals, if_neg h, root]

end StateMap

/-! ## The shape of the facts about a local -/

/-- Where the leaves, unions and enums of a local are, without what is known of them. -/
def RootState.shape (r : RootState) :
    List (PlacePath × TypeId) × List PlacePath × List PlacePath :=
  (r.leaves.map fun x => (x.path, x.type), r.unions.map (·.path), r.enums.map (·.path))

section Shape

variable {sem : SemIR} (r : RootState)

lemma List.map_map₂Left {α β γ : Type} (g : α → Option β → α) (p : α → γ)
    (h : ∀ x y, p (g x y) = p x) (l : List α) (m : List β) :
    (List.map₂Left g l m).map p = l.map p := by
  induction l generalizing m with
  | nil => cases m <;> rfl
  | cons x l ih =>
    cases m with
    | nil => simp [List.map₂Left, h]
    | cons y m => simp [List.map₂Left, h, ih]

@[simp] lemma RootState.shape_merge (s : RootState) : (r.merge s).shape = r.shape := by
  have h₁ : ∀ (x : LeafState) y, ((x.merge y).path, (x.merge y).type) = (x.path, x.type) := by
    intro x y
    cases y with
    | none => rfl
    | some y => rfl
  have h₂ : ∀ (x : UnionState) y, (x.merge y).path = x.path := by
    intro x y
    cases y with
    | none => rfl
    | some y => rfl
  have h₃ : ∀ (x : EnumState) y, (x.merge y).path = x.path := by
    intro x y
    cases y with
    | none => rfl
    | some y => rfl
  simp only [RootState.shape, RootState.merge]
  rw [List.map_map₂Left _ _ h₁, List.map_map₂Left _ _ h₂, List.map_map₂Left _ _ h₃]

@[simp] lemma RootState.shape_setLeaves (path : PlacePath) (f : Possibilities → Possibilities) :
    (r.setLeaves sem path f).shape = r.shape := by
  simp only [RootState.shape, RootState.setLeaves, List.map_map, Prod.mk.injEq, and_true]
  apply List.map_congr_left
  intro x _
  simp only [Function.comp]
  split
  · rfl
  · rfl

@[simp] lemma RootState.shape_clearUnions (path : PlacePath) (b : Bool) :
    (r.clearUnions path b).shape = r.shape := by
  simp only [RootState.shape, RootState.clearUnions, List.map_map, Prod.mk.injEq, true_and, and_true]
  apply List.map_congr_left
  intro x _
  simp only [Function.comp]
  split
  · rfl
  · rfl

@[simp] lemma RootState.shape_setVariant (path : PlacePath) (k : Int) :
    (r.setVariant path k).shape = r.shape := by
  simp only [RootState.shape, RootState.setVariant, List.map_map, Prod.mk.injEq, true_and]
  apply List.map_congr_left
  intro x _
  simp only [Function.comp]
  split
  · rfl
  · rfl

@[simp] lemma RootState.shape_setMember (path : PlacePath) (k : Int) :
    (r.setMember path k).shape = r.shape := by
  simp only [RootState.shape, RootState.setMember, List.map_map, Prod.mk.injEq, true_and, and_true]
  apply List.map_congr_left
  intro x _
  simp only [Function.comp]
  split
  · rfl
  · rfl

@[simp] lemma shape_copyEnumStates (source : List EnumState) (p q : PlacePath) :
    (copyEnumStates source p q r).shape = r.shape := by
  induction source generalizing r with
  | nil => rfl
  | cons e source ih =>
    rw [copyEnumStates, List.foldl_cons]
    change (copyEnumStates source p q _).shape = _
    rw [ih]
    split
    · simp only [RootState.shape, List.map_map, Prod.mk.injEq, true_and]
      apply List.map_congr_left
      intro x _
      simp only [Function.comp]
      split
      · rfl
      · rfl
    · rfl

@[simp] lemma shape_copyUnionStates (source : List UnionState) (p q : PlacePath) :
    (copyUnionStates source p q r).shape = r.shape := by
  induction source generalizing r with
  | nil => rfl
  | cons e source ih =>
    rw [copyUnionStates, List.foldl_cons]
    change (copyUnionStates source p q _).shape = _
    rw [ih]
    split
    · simp only [RootState.shape, List.map_map, Prod.mk.injEq, true_and, and_true]
      apply List.map_congr_left
      intro x _
      simp only [Function.comp]
      split
      · rfl
      · rfl
    · rfl

end Shape

/-- Every local of the map has the leaves, unions and enums of its type. -/
def StateMap.Shaped (sem : SemIR) (S : StateMap) : Prop :=
  ∀ l, (S.root sem l).shape = (RootState.fresh sem l).shape

namespace StateMap

variable {sem : SemIR} {S T U : StateMap} {l : LocalId} {f : RootState → RootState}

lemma shaped_nil : Shaped sem [] := fun _ => rfl

lemma Shaped.ensureRoot (h : S.Shaped sem) : (S.ensureRoot sem l).Shaped sem := by
  intro m
  rw [root_ensureRoot]
  exact h m

lemma Shaped.update (h : S.Shaped sem) (hf : ∀ r, (f r).shape = r.shape) :
    (S.update l f).Shaped sem := by
  intro m
  have hm := h m
  rw [root] at hm ⊢
  rw [lookup_update]
  by_cases hml : m = l
  · rw [if_pos hml]
    cases hS : S.lookup m with
    | none => rfl
    | some r =>
      rw [hS] at hm
      simpa [hf] using hm
  · rw [if_neg hml]
    exact hm

lemma Shaped.eraseLocals (h : S.Shaped sem) (ls : List LocalId) :
    (S.eraseLocals ls).Shaped sem := by
  intro m
  rw [root, lookup_eraseLocals]
  by_cases hm : m ∈ ls
  · simp [hm]
  · rw [if_neg hm]
    exact h m

lemma Shaped.merge (h : S.Shaped sem) : (S.merge T).Shaped sem := by
  intro m
  have hm := h m
  rw [root] at hm ⊢
  rw [lookup_merge]
  cases hS : S.lookup m with
  | none => rfl
  | some r =>
    rw [hS] at hm
    cases T.lookup m with
    | none => exact hm
    | some s => simpa using hm

/-! ## What an operation that mentions some locals does to a map -/

/-- An operation that mentions the locals may create the facts about them, drops no local and leaves
every local the shape it has. -/
structure Touches (sem : SemIR) (ls : List LocalId) (S T : StateMap) : Prop where
  new : ∀ l, T.has l = true → S.has l = true ∨ l ∈ ls
  keeps : ∀ l, S.has l = true → T.has l = true
  shaped : S.Shaped sem → T.Shaped sem

variable {ls : List LocalId}

lemma Touches.refl (S : StateMap) : Touches sem ls S S :=
  ⟨fun _ h => Or.inl h, fun _ h => h, fun h => h⟩

lemma Touches.trans (h₁ : Touches sem ls S T) (h₂ : Touches sem ls T U) : Touches sem ls S U where
  new l hl := (h₂.new l hl).elim (h₁.new l) Or.inr
  keeps l hl := h₂.keeps l (h₁.keeps l hl)
  shaped h := h₂.shaped (h₁.shaped h)

lemma touches_ensureRoot (hl : l ∈ ls) : Touches sem ls S (S.ensureRoot sem l) := by
  refine ⟨fun m hm => ?_, fun m hm => ?_, Shaped.ensureRoot⟩
  · rw [has_ensureRoot, Bool.or_eq_true, decide_eq_true_eq] at hm
    rcases hm with rfl | hm
    · exact Or.inr hl
    · exact Or.inl hm
  · simp [hm]

lemma touches_update (hf : ∀ r, (f r).shape = r.shape) : Touches sem ls S (S.update l f) :=
  ⟨fun m hm => Or.inl (by simpa using hm), fun m hm => by simpa using hm, fun h => h.update hf⟩

lemma touches_modifyRoot (hl : l ∈ ls) (hf : ∀ r, (f r).shape = r.shape) :
    Touches sem ls S (S.modifyRoot sem l f) :=
  (touches_ensureRoot hl).trans (touches_update hf)

end StateMap

end Chtholly
