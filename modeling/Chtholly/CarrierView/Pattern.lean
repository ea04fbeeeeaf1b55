import Chtholly.CarrierView.Types

/-!
# Carrier patterns

The object representation of a generic nominal type is written as a pattern over its parameters.
Whether a type is an instance of the pattern is decided by walking both at once; where the walk
stops depends on the kinds that its switch lists and on what it compares of each of them.

## Main definitions

* `CarrierView.matchesCarrierPattern` — the walk.
* `CarrierView.Somewhere` — a difference of two types at a position that the walk reaches.
* `CarrierView.Blurred`, `CarrierView.LeftOut`, `CarrierView.Apart` — the differences there are.

## Main results

* `CarrierView.matches_iff`, `CarrierView.isInstance_iff` — the walk and the substitution, each in
  terms of the differences.
* `CarrierView.matches_exact_iff` — when the walk accepts exactly the instances.
-/

set_option autoImplicit false

namespace Chtholly

namespace CarrierView

open SemType

/-! ## The walk -/

/-- The scalar kinds that the switch accepts; widths and signs are not looked at. -/
def ScalarKind.accepted : ScalarKind → ScalarKind → Bool
  | .void, .void | .bool, .bool | .char, .char | .string, .string => true
  | .integer _ _, .integer _ _ | .float _, .float _ => true
  | _, _ => false

/-- What the switch compares of two types before it looks at their components. -/
def Head.accepted : Head → Head → Bool
  | .array length, .array length' => length = length'
  | .reference facts, .reference facts' => facts = facts'
  | .rawPointer pointeeConst, .rawPointer pointeeConst' => pointeeConst = pointeeConst'
  | .cFunctionPointer variadic _, .cFunctionPointer variadic' _ => variadic = variadic'
  | .function, .function => true
  | .asyncFunction parameters, .asyncFunction parameters' => parameters = parameters'
  | .nominal declaration _, .nominal declaration' _ => declaration = declaration'
  | _, _ => false

section Walk

variable (generic : ℕ) (arguments : List SemType)

mutual

/-- Equal ids are accepted at once; a projection and a parameter of another generic are not in the
switch. -/
def matchesCarrierPattern (actual : SemType) : SemType → Bool
  | .dependent owner index steps =>
    actual = .dependent owner index steps ||
      (steps = [] && owner = generic && arguments[index]? = some actual)
  | .scalar kind =>
    match actual with
    | .scalar kind' => kind' = kind || kind'.accepted kind
    | _ => false
  | .compound head patterns =>
    actual = .compound head patterns ||
      match actual with
      | .compound head' elements =>
        head'.accepted head && elements.length = patterns.length &&
          matchesAll elements patterns
      | _ => false

/-- The components, one by one. -/
def matchesAll : List SemType → List SemType → Bool
  | actual :: actuals, pattern :: patterns =>
    matchesCarrierPattern actual pattern && matchesAll actuals patterns
  | _, _ => true

end

/-! ## Differences -/

/-- The walk goes no further here, and does not accept. -/
inductive Rejected : SemType → SemType → Prop
  | parameter (actual : SemType) (owner index : ℕ)
    (h : ¬(owner = generic ∧ arguments[index]? = some actual)) :
    Rejected actual (.dependent owner index [])
  | projection (actual : SemType) (owner index : ℕ) (step : ProjectionStep)
    (steps : List ProjectionStep) : Rejected actual (.dependent owner index (step :: steps))
  | scalar (kind kind' : ScalarKind) (h : kind.accepted kind' = false) :
    Rejected (.scalar kind) (.scalar kind')
  | compound (head head' : Head) (elements patterns : List SemType)
    (h : ¬(head.accepted head' = true ∧ elements.length = patterns.length)) :
    Rejected (.compound head elements) (.compound head' patterns)
  | scalarCompound (kind : ScalarKind) (head : Head) (patterns : List SemType) :
    Rejected (.scalar kind) (.compound head patterns)
  | compoundScalar (head : Head) (elements : List SemType) (kind : ScalarKind) :
    Rejected (.compound head elements) (.scalar kind)
  | dependentScalar (owner index : ℕ) (steps : List ProjectionStep) (kind : ScalarKind) :
    Rejected (.dependent owner index steps) (.scalar kind)
  | dependentCompound (owner index : ℕ) (steps : List ProjectionStep) (head : Head)
    (patterns : List SemType) :
    Rejected (.dependent owner index steps) (.compound head patterns)

/-- The kinds of patterns that the switch has no case for: projections, and the compounds that it
does not accept even against themselves (tuples, slices, callback and coroutine types). -/
inductive Unlisted : SemType → Prop
  | projection (owner index : ℕ) (step : ProjectionStep) (steps : List ProjectionStep) :
    Unlisted (.dependent owner index (step :: steps))
  | compound (head : Head) (patterns : List SemType) (h : head.accepted head = false) :
    Unlisted (.compound head patterns)

/-- The kinds agree and the switch accepts, but the types have different data: the width or the sign
of a scalar, the convention or the contract of a C function pointer, the operation of a nominal
type. -/
inductive Blurred : SemType → SemType → Prop
  | scalar (kind kind' : ScalarKind) (hne : kind ≠ kind') (h : kind.accepted kind' = true) :
    Blurred (.scalar kind) (.scalar kind')
  | compound (head head' : Head) (elements patterns : List SemType) (hne : head ≠ head')
    (h : head.accepted head' = true) (hlength : elements.length = patterns.length) :
    Blurred (.compound head elements) (.compound head' patterns)

/-- The pattern is of a kind without a case, and the type is its instance. -/
def LeftOut (actual pattern : SemType) : Prop :=
  Unlisted pattern ∧ substitute generic arguments pattern = some actual

/-- The walk rejects what is indeed no instance. -/
def Apart (actual pattern : SemType) : Prop :=
  Rejected generic arguments actual pattern ∧ substitute generic arguments pattern ≠ some actual

end Walk

/-- The two types differ as `difference` says at a position that the walk reaches: it goes into the
components only of different types whose heads it accepts. -/
inductive Somewhere (difference : SemType → SemType → Prop) : SemType → SemType → Prop
  | here {actual pattern : SemType} (hne : actual ≠ pattern) (h : difference actual pattern) :
    Somewhere difference actual pattern
  | inside {head head' : Head} {elements patterns : List SemType}
    (hne : SemType.compound head elements ≠ .compound head' patterns)
    (hhead : head.accepted head' = true) (hlength : elements.length = patterns.length)
    {actual pattern : SemType} (hmem : (actual, pattern) ∈ elements.zip patterns)
    (h : Somewhere difference actual pattern) :
    Somewhere difference (.compound head elements) (.compound head' patterns)

namespace Somewhere

variable {difference : SemType → SemType → Prop}

variable {actual pattern : SemType}

lemma ne (h : Somewhere difference actual pattern) : actual ≠ pattern := by
  cases h with
  | here hne _ => exact hne
  | inside hne _ _ _ _ => exact hne

/-- At a pair that the walk does not go into there is only the pair itself. -/
lemma iff_of_leaf
    (hleaf : ∀ head head' elements patterns, actual = .compound head elements →
      pattern = .compound head' patterns →
      ¬(head.accepted head' = true ∧ elements.length = patterns.length)) :
    Somewhere difference actual pattern ↔ actual ≠ pattern ∧ difference actual pattern := by
  constructor
  · intro h
    cases h with
    | here hne h => exact ⟨hne, h⟩
    | inside hne hhead hlength hmem h => exact (hleaf _ _ _ _ rfl rfl ⟨hhead, hlength⟩).elim
  · rintro ⟨hne, h⟩
    exact .here hne h

/-- At a pair that the walk goes into, the pair itself or a pair of components. -/
lemma iff_of_inner {head head' : Head} {elements patterns : List SemType}
    (hne : SemType.compound head elements ≠ .compound head' patterns)
    (hhead : head.accepted head' = true) (hlength : elements.length = patterns.length) :
    Somewhere difference (.compound head elements) (.compound head' patterns) ↔
      difference (.compound head elements) (.compound head' patterns) ∨
        ∃ pair ∈ elements.zip patterns, Somewhere difference pair.1 pair.2 := by
  constructor
  · intro h
    cases h with
    | here _ h => exact Or.inl h
    | inside _ _ _ hmem h => exact Or.inr ⟨_, hmem, h⟩
  · rintro (h | ⟨pair, hmem, h⟩)
    · exact .here hne h
    · exact .inside hne hhead hlength hmem h

/-- Two sorts of differences, looked for together. -/
lemma or_iff {left right : SemType → SemType → Prop} :
    Somewhere (fun a p => left a p ∨ right a p) actual pattern ↔
      Somewhere left actual pattern ∨ Somewhere right actual pattern := by
  constructor
  · intro h
    induction h with
    | here hne h => exact h.imp (.here hne) (.here hne)
    | inside hne hhead hlength hmem _ ih =>
      exact ih.imp (.inside hne hhead hlength hmem) (.inside hne hhead hlength hmem)
  · rintro (h | h)
    · induction h with
      | here hne h => exact .here hne (Or.inl h)
      | inside hne hhead hlength hmem _ ih => exact .inside hne hhead hlength hmem ih
    · induction h with
      | here hne h => exact .here hne (Or.inr h)
      | inside hne hhead hlength hmem _ ih => exact .inside hne hhead hlength hmem ih

/-- Only pairs of different types count. -/
lemma congr {left right : SemType → SemType → Prop}
    (h : ∀ actual pattern, actual ≠ pattern → (left actual pattern ↔ right actual pattern)) :
    Somewhere left actual pattern ↔ Somewhere right actual pattern := by
  constructor
  · intro hleft
    induction hleft with
    | here hne hleft => exact .here hne ((h _ _ hne).1 hleft)
    | inside hne hhead hlength hmem _ ih => exact .inside hne hhead hlength hmem ih
  · intro hright
    induction hright with
    | here hne hright => exact .here hne ((h _ _ hne).2 hright)
    | inside hne hhead hlength hmem _ ih => exact .inside hne hhead hlength hmem ih

end Somewhere

/-! ## The walk in terms of the differences -/

section Exact

variable {generic : ℕ} {arguments : List SemType}

lemma Head.descends_of_accepted {head head' : Head} (h : head.accepted head' = true) :
    descends head' = true := by
  cases head <;> cases head' <;> first | rfl | exact Bool.noConfusion h

lemma Head.eq_kind_of_accepted {head head' : Head} (h : head.accepted head' = true) :
    head'.accepted head' = true := by
  cases head <;> cases head' <;> first | exact Bool.noConfusion h | simp [Head.accepted]

variable {patterns : List SemType}

lemma matchesAll_iff {elements : List SemType} (hlength : elements.length = patterns.length) :
    matchesAll generic arguments elements patterns = true ↔
      ∀ pair ∈ elements.zip patterns, matchesCarrierPattern generic arguments pair.1 pair.2 = true := by
  induction patterns generalizing elements with
  | nil => cases elements <;> simp [matchesAll]
  | cons pattern patterns ih =>
    cases elements with
    | nil => simp at hlength
    | cons actual actuals =>
      have htail : actuals.length = patterns.length := by simpa using hlength
      simp [matchesAll, ih htail]

variable {actual pattern : SemType}

/-- The walk accepts where it meets no pair that it rejects. -/
lemma matches_iff_not_rejected :
    matchesCarrierPattern generic arguments actual pattern = true ↔
      ¬Somewhere (Rejected generic arguments) actual pattern := by
  induction pattern using SemType.induction generalizing actual with
  | scalar kind =>
    rw [Somewhere.iff_of_leaf (by rintro _ _ _ _ _ ⟨⟩)]
    cases actual with
    | scalar kind' =>
      by_cases hsame : kind' = kind
      · simp [matchesCarrierPattern, hsame]
      · have hrejected : Rejected generic arguments (.scalar kind') (.scalar kind) ↔
            kind'.accepted kind = false :=
          ⟨fun h => by cases h with | scalar _ _ h => exact h, .scalar _ _⟩
        simp [matchesCarrierPattern, hsame, hrejected]
    | dependent owner index steps =>
      simp [matchesCarrierPattern, Rejected.dependentScalar]
    | compound head elements =>
      simp [matchesCarrierPattern, Rejected.compoundScalar]
  | dependent owner index steps =>
    rw [Somewhere.iff_of_leaf (by rintro _ _ _ _ _ ⟨⟩)]
    by_cases hsame : actual = .dependent owner index steps
    · simp [matchesCarrierPattern, hsame]
    · cases steps with
      | nil =>
        have hrejected : Rejected generic arguments actual (.dependent owner index []) ↔
            ¬(owner = generic ∧ arguments[index]? = some actual) :=
          ⟨fun h => by cases h with | parameter _ _ _ h => exact h, .parameter _ _ _⟩
        simp [matchesCarrierPattern, hsame, hrejected]
      | cons step steps =>
        simp [matchesCarrierPattern, hsame, Rejected.projection]
  | compound head patterns ih =>
    by_cases hsame : actual = .compound head patterns
    · subst hsame
      simp only [matchesCarrierPattern, decide_true, Bool.true_or, true_iff]
      exact fun h => h.ne rfl
    · cases actual with
      | scalar kind =>
        rw [Somewhere.iff_of_leaf (by rintro _ _ _ _ ⟨⟩)]
        simp [matchesCarrierPattern, Rejected.scalarCompound]
      | dependent owner index steps =>
        rw [Somewhere.iff_of_leaf (by rintro _ _ _ _ ⟨⟩)]
        simp [matchesCarrierPattern, Rejected.dependentCompound]
      | compound head' elements =>
        have hrejected :
            Rejected generic arguments (.compound head' elements) (.compound head patterns) ↔
              ¬(head'.accepted head = true ∧ elements.length = patterns.length) :=
          ⟨fun h => by cases h with | compound _ _ _ _ h => exact h, .compound _ _ _ _⟩
        by_cases hinner : head'.accepted head = true ∧ elements.length = patterns.length
        · rw [Somewhere.iff_of_inner hsame hinner.1 hinner.2]
          have hcomponents : ∀ pair ∈ elements.zip patterns,
              (matchesCarrierPattern generic arguments pair.1 pair.2 = true ↔
                ¬Somewhere (Rejected generic arguments) pair.1 pair.2) :=
            fun pair hmem => ih pair.2 (List.of_mem_zip hmem).2
          simp only [matchesCarrierPattern, hsame, hinner, decide_false, decide_true,
            Bool.false_or, Bool.true_and, matchesAll_iff hinner.2, hrejected, and_self,
            not_true_eq_false, false_or, not_exists, not_and]
          exact forall₂_congr hcomponents
        · rw [Somewhere.iff_of_leaf (by rintro _ _ _ _ ⟨⟩ ⟨⟩; exact hinner)]
          have hwalk : (head'.accepted head && decide (elements.length = patterns.length)) =
              false := by simpa using hinner
          simp only [matchesCarrierPattern, hsame, hwalk, hrejected, hinner, decide_false,
            Bool.false_or, Bool.false_and, Bool.false_eq_true, not_false_eq_true, ne_eq, and_self,
            not_true_eq_false]

/-- The instance of a compound is a compound of the same head with as many components. -/
lemma substitute_compound_eq {head : Head} {result : SemType}
    (h : substitute generic arguments (.compound head patterns) = some result) :
    result = .compound head patterns ∨
      ∃ elements, substituteAll generic arguments patterns = some elements ∧
        result = .compound head elements := by
  rw [substitute] at h
  split at h
  · obtain ⟨elements, helements, rfl⟩ := Option.map_eq_some_iff.1 h
    exact Or.inr ⟨elements, helements, rfl⟩
  · exact Or.inl (Option.some.inj h).symm

/-- A rejected pair whose pattern has the type as its instance: the walk has no case for it. -/
lemma Rejected.unlisted (h : Rejected generic arguments actual pattern) (hne : actual ≠ pattern)
    (hinstance : substitute generic arguments pattern = some actual) : Unlisted pattern := by
  cases h with
  | parameter _ owner index h =>
    by_cases howner : owner = generic
    · have hargument : arguments[index]? = some actual := by
        simpa [substitute, howner, Option.bind_eq_some_iff] using hinstance
      exact absurd ⟨howner, hargument⟩ h
    · simp only [substitute, howner, if_false, Option.some.injEq] at hinstance
      exact absurd hinstance.symm hne
  | projection _ owner index step steps => exact .projection owner index step steps
  | scalar kind kind' h =>
    simp only [substitute, Option.some.injEq] at hinstance
    exact absurd hinstance.symm hne
  | compound head head' elements patterns h =>
    obtain heq | ⟨instances, hinstances, heq⟩ := substitute_compound_eq hinstance
    · exact absurd heq hne
    · obtain ⟨rfl, rfl⟩ := SemType.compound.inj heq
      have hlength : elements.length = patterns.length :=
        (substituteAll_eq_some_iff.1 hinstances).length_eq.symm
      refine .compound head patterns (Bool.eq_false_iff.2 fun hhead => h ⟨hhead, hlength⟩)
  | scalarCompound kind head patterns =>
    obtain heq | ⟨_, _, heq⟩ := substitute_compound_eq hinstance <;> cases heq
  | compoundScalar head elements kind => cases hinstance
  | dependentScalar owner index steps kind => cases hinstance
  | dependentCompound owner index steps head patterns =>
    obtain heq | ⟨_, _, heq⟩ := substitute_compound_eq hinstance <;> cases heq

/-- A pattern without a case is rejected whatever stands against it. -/
lemma Unlisted.rejected (h : Unlisted pattern) (actual : SemType) :
    Rejected generic arguments actual pattern := by
  cases h with
  | projection owner index step steps => exact .projection actual owner index step steps
  | compound head patterns h =>
    cases actual with
    | scalar kind => exact .scalarCompound kind head patterns
    | dependent owner index steps => exact .dependentCompound owner index steps head patterns
    | compound head' elements =>
      refine .compound head' head elements patterns fun haccepted => ?_
      rw [Head.eq_kind_of_accepted haccepted.1] at h
      exact Bool.noConfusion h

/-- A rejected pair of different types: either the walk has no case for the pattern, or it is
right. -/
lemma rejected_iff (hne : actual ≠ pattern) :
    Rejected generic arguments actual pattern ↔
      LeftOut generic arguments actual pattern ∨ Apart generic arguments actual pattern := by
  constructor
  · intro h
    by_cases hinstance : substitute generic arguments pattern = some actual
    · exact Or.inl ⟨h.unlisted hne hinstance, hinstance⟩
    · exact Or.inr ⟨h, hinstance⟩
  · rintro (⟨hunlisted, -⟩ | ⟨h, -⟩)
    · exact hunlisted.rejected actual
    · exact h

/-- What the walk accepts: no position has a pattern without a case whose instance stands there, and
none is an honest difference. -/
theorem matches_iff :
    matchesCarrierPattern generic arguments actual pattern = true ↔
      ¬Somewhere (Apart generic arguments) actual pattern ∧
        ¬Somewhere (LeftOut generic arguments) actual pattern := by
  rw [matches_iff_not_rejected,
    Somewhere.congr fun _ _ => rejected_iff,
    Somewhere.or_iff, not_or, and_comm]

/-! ## The substitution in terms of the differences -/

lemma substituteAll_iff_zip {elements : List SemType}
    (hlength : elements.length = patterns.length) :
    substituteAll generic arguments patterns = some elements ↔
      ∀ pair ∈ elements.zip patterns, substitute generic arguments pair.2 = some pair.1 := by
  rw [substituteAll_eq_some_iff]
  induction patterns generalizing elements with
  | nil => cases elements <;> simp at hlength ⊢
  | cons pattern patterns ih =>
    cases elements with
    | nil => simp at hlength
    | cons actual actuals =>
      have htail : actuals.length = patterns.length := by simpa using hlength
      simp [ih htail]

/-- A pair of different types that the walk does not go into and does not reject: the kinds agree and
the data differ, or the type is the argument that stands for the parameter. -/
lemma substitute_eq_iff_of_leaf (hne : actual ≠ pattern)
    (hleaf : ∀ head head' elements patterns, actual = .compound head elements →
      pattern = .compound head' patterns →
      ¬(head.accepted head' = true ∧ elements.length = patterns.length)) :
    substitute generic arguments pattern = some actual ↔
      ¬Apart generic arguments actual pattern ∧ ¬Blurred actual pattern := by
  constructor
  · intro hinstance
    refine ⟨fun hapart => hapart.2 hinstance, fun hblurred => ?_⟩
    cases hblurred with
    | scalar kind kind' _ _ =>
      simp only [substitute, Option.some.injEq] at hinstance
      exact hne hinstance.symm
    | compound head head' elements patterns _ h hlength =>
      exact hleaf _ _ _ _ rfl rfl ⟨h, hlength⟩
  · rintro ⟨hapart, hblurred⟩
    by_contra hinstance
    have hrejected : ¬Rejected generic arguments actual pattern :=
      fun h => hapart ⟨h, hinstance⟩
    cases pattern with
    | scalar kind =>
      cases actual with
      | scalar kind' =>
        have haccepted : kind'.accepted kind = true := by
          by_contra h
          exact hrejected (.scalar _ _ (Bool.eq_false_iff.2 h))
        exact hblurred (.scalar kind' kind (fun h => hne (by rw [h])) haccepted)
      | dependent owner index steps => exact hrejected (.dependentScalar _ _ _ _)
      | compound head elements => exact hrejected (.compoundScalar _ _ _)
    | dependent owner index steps =>
      cases steps with
      | nil =>
        have hargument : owner = generic ∧ arguments[index]? = some actual := by
          by_contra h
          exact hrejected (.parameter _ _ _ h)
        exact hinstance (by simp [substitute, hargument])
      | cons step steps => exact hrejected (.projection _ _ _ _ _)
    | compound head patterns =>
      cases actual with
      | scalar kind => exact hrejected (.scalarCompound _ _ _)
      | dependent owner index steps => exact hrejected (.dependentCompound _ _ _ _ _)
      | compound head' elements =>
        exact hrejected (.compound _ _ _ _ (hleaf _ _ _ _ rfl rfl))

/-- What is an instance: no position has different data under kinds that agree, and none is an honest
difference. -/
theorem isInstance_iff (hfree : FreeOf generic actual) :
    substitute generic arguments pattern = some actual ↔
      ¬Somewhere (Apart generic arguments) actual pattern ∧
        ¬Somewhere Blurred actual pattern := by
  have hself : ∀ type, FreeOf generic type →
      (substitute generic arguments type = some type ↔
        ¬Somewhere (Apart generic arguments) type type ∧ ¬Somewhere Blurred type type) :=
    fun type hfree => iff_of_true (substitute_of_freeOf hfree) ⟨fun h => h.ne rfl, fun h => h.ne rfl⟩
  have hleaf : ∀ actual pattern, actual ≠ pattern →
      (∀ head head' elements patterns, actual = .compound head elements →
        pattern = .compound head' patterns →
        ¬(head.accepted head' = true ∧ elements.length = patterns.length)) →
      (substitute generic arguments pattern = some actual ↔
        ¬Somewhere (Apart generic arguments) actual pattern ∧
          ¬Somewhere Blurred actual pattern) := by
    intro actual pattern hne hleaf
    rw [Somewhere.iff_of_leaf hleaf, Somewhere.iff_of_leaf hleaf,
      substitute_eq_iff_of_leaf hne hleaf]
    simp [hne]
  induction pattern using SemType.induction generalizing actual with
  | scalar kind =>
    by_cases hsame : actual = .scalar kind
    · exact hsame ▸ hself actual hfree
    · exact hleaf _ _ hsame (by rintro _ _ _ _ _ ⟨⟩)
  | dependent owner index steps =>
    by_cases hsame : actual = .dependent owner index steps
    · exact hsame ▸ hself actual hfree
    · exact hleaf _ _ hsame (by rintro _ _ _ _ _ ⟨⟩)
  | compound head patterns ih =>
    by_cases hsame : actual = .compound head patterns
    · exact hsame ▸ hself actual hfree
    by_cases hinner : ∃ head' elements, actual = .compound head' elements ∧
        head'.accepted head = true ∧ elements.length = patterns.length
    · obtain ⟨head', elements, rfl, hhead, hlength⟩ := hinner
      have hcomponents : (∀ pair ∈ elements.zip patterns,
            substitute generic arguments pair.2 = some pair.1) ↔
          ∀ pair ∈ elements.zip patterns,
            ¬Somewhere (Apart generic arguments) pair.1 pair.2 ∧
              ¬Somewhere Blurred pair.1 pair.2 :=
        forall₂_congr fun pair hmem => ih pair.2 (List.of_mem_zip hmem).2
          (hfree.elements pair.1 (List.of_mem_zip hmem).1)
      have hapart : ¬Apart generic arguments (.compound head' elements) (.compound head patterns) := by
        rintro ⟨h, -⟩
        cases h with
        | compound _ _ _ _ h => exact h ⟨hhead, hlength⟩
      have hblurred : Blurred (.compound head' elements) (.compound head patterns) ↔
          head' ≠ head :=
        ⟨fun h => by cases h with | compound _ _ _ _ hne _ _ => exact hne,
          fun hne => .compound _ _ _ _ hne hhead hlength⟩
      have hinstance : substitute generic arguments (.compound head patterns) =
            some (.compound head' elements) ↔
          head' = head ∧ substituteAll generic arguments patterns = some elements := by
        simp only [substitute, Head.descends_of_accepted hhead, if_true, Option.map_eq_some_iff,
          SemType.compound.injEq]
        constructor
        · rintro ⟨instances, hinstances, rfl, rfl⟩
          exact ⟨rfl, hinstances⟩
        · rintro ⟨rfl, h⟩
          exact ⟨elements, h, rfl, rfl⟩
      rw [hinstance, substituteAll_iff_zip hlength, hcomponents,
        Somewhere.iff_of_inner hsame hhead hlength, Somewhere.iff_of_inner hsame hhead hlength,
        hblurred]
      simp only [hapart, false_or, not_or, not_not, not_exists, not_and]
      constructor
      · rintro ⟨hsame, h⟩
        exact ⟨fun pair hmem => (h pair hmem).1, hsame, fun pair hmem => (h pair hmem).2⟩
      · rintro ⟨h, hsame, h'⟩
        exact ⟨hsame, fun pair hmem => ⟨h pair hmem, h' pair hmem⟩⟩
    · refine hleaf _ _ hsame ?_
      rintro head' _ elements _ rfl ⟨⟩ h
      exact hinner ⟨head', elements, rfl, h⟩

/-! ## When the walk is exact -/

/-- `(i32, i32)` is the instance of `(T, T)` for `i32`, and is not accepted. -/
example :
    matchesCarrierPattern 0 [.scalar (.integer 32 true)]
        (.compound (.tuple false) [.scalar (.integer 32 true), .scalar (.integer 32 true)])
        (.compound (.tuple false) [.dependent 0 0 [], .dependent 0 0 []]) = false ∧
      substitute 0 [.scalar (.integer 32 true)]
          (.compound (.tuple false) [.dependent 0 0 [], .dependent 0 0 []]) =
        some (.compound (.tuple false) [.scalar (.integer 32 true), .scalar (.integer 32 true)]) := by
  decide

end Exact

end CarrierView

end Chtholly
