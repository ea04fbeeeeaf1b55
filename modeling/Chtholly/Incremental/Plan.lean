import Mathlib.Data.List.Destutter
import Chtholly.Incremental.Session

/-!
# The plan of a compilation

The decisions about the units of a package are collected in a plan.  The constructor of a plan puts
the reasons of each decision, and then the decisions, in order; `verify` checks the plan before it
is handed out.  A reason has a provider, and a binding of the provider, exactly when its kind calls
for them.

## Main definitions

* `Incremental.canonicalizeInvalidations` — reasons in order, each one once.
* `Incremental.IncrementalCompilationPlan` — a plan, with its constructor `ofDecisions` and its
  verification `verify`.

## Main results

* `Incremental.IncrementalCompilationPlan.verify_ofDecisions_iff` — what a list of decisions has to
  satisfy for its plan to be accepted.
-/

set_option autoImplicit false

namespace Chtholly

namespace Incremental

open Registry (Text)

/-! ## Reasons -/

namespace UnitInvalidationReason

def toNat : UnitInvalidationReason → ℕ
  | moduleAdded => 0
  | moduleRemoved => 1
  | sourceChanged => 2
  | sourceKindChanged => 3
  | objectEmissionRoleChanged => 4
  | compilationConfigurationChanged => 5
  | requestedOutput => 6
  | objectArtifactMissing => 7
  | objectArtifactCorrupt => 8
  | importedModuleRemoved => 9
  | entityBindingChanged => 10
  | lifecycleCallableChanged => 11
  | exportSetChanged => 12
  | nominalBindingChanged => 13
  | relocationClosureChanged => 14

/-- `unitInvalidationReasonName`. -/
def name : UnitInvalidationReason → String
  | moduleAdded => "module-added"
  | moduleRemoved => "module-removed"
  | sourceChanged => "source-changed"
  | sourceKindChanged => "source-kind-changed"
  | objectEmissionRoleChanged => "object-emission-role-changed"
  | compilationConfigurationChanged => "compilation-configuration-changed"
  | requestedOutput => "requested-output"
  | objectArtifactMissing => "object-artifact-missing"
  | objectArtifactCorrupt => "object-artifact-corrupt"
  | importedModuleRemoved => "imported-module-removed"
  | entityBindingChanged => "entity-binding-changed"
  | lifecycleCallableChanged => "lifecycle-callable-changed"
  | exportSetChanged => "export-set-changed"
  | nominalBindingChanged => "nominal-binding-changed"
  | relocationClosureChanged => "relocation-closure-changed"

/-- The reasons that lie with another module. -/
def hasProvider : UnitInvalidationReason → Bool
  | importedModuleRemoved | entityBindingChanged | lifecycleCallableChanged | exportSetChanged
  | nominalBindingChanged | relocationClosureChanged => true
  | _ => false

/-- The reasons that lie with a binding of another module. -/
def hasBinding : UnitInvalidationReason → Bool
  | entityBindingChanged | lifecycleCallableChanged | nominalBindingChanged
  | relocationClosureChanged => true
  | _ => false

lemma toNat_injective : Function.Injective toNat := by
  intro a b h
  cases a <;> cases b <;> first | rfl | cases h

end UnitInvalidationReason

namespace UnitInvalidation

/-- `invalidationKey`. -/
def key (value : UnitInvalidation) : ℕ ×ₗ Text ×ₗ Text ×ₗ Text :=
  toLex (value.reason.toNat, toLex (value.provider.packageName,
    toLex (value.provider.moduleName, value.bindingName)))

def hasProvider (value : UnitInvalidation) : Bool :=
  !value.provider.packageName.isEmpty || !value.provider.moduleName.isEmpty

/-- The checks of one reason, its place in the list apart. -/
def wellFormed (value : UnitInvalidation) : Bool :=
  value.reason.hasProvider == value.hasProvider &&
    !(value.hasProvider &&
      (value.provider.packageName.isEmpty || value.provider.moduleName.isEmpty)) &&
    value.reason.hasBinding == !value.bindingName.isEmpty

/-- The message of the verification about a reason. -/
def invalidReason (value : UnitInvalidation) : String :=
  "incremental compilation plan has an invalid reason: " ++ value.reason.name ++
    " provider=" ++ String.ofList value.provider.packageName ++ "/" ++
    String.ofList value.provider.moduleName ++ " binding=" ++ String.ofList value.bindingName

lemma key_injective : Function.Injective key := by
  intro a b h
  obtain ⟨reason, ⟨package, module⟩, binding⟩ := a
  obtain ⟨reason', ⟨package', module'⟩, binding'⟩ := b
  simp only [key, EmbeddingLike.apply_eq_iff_eq, Prod.mk.injEq] at h
  obtain ⟨hreason, rfl, rfl, rfl⟩ := h
  rw [UnitInvalidationReason.toNat_injective hreason]

end UnitInvalidation

/-- Reasons in the order of their keys; `std::unique` leaves one of each run of equal ones. -/
def canonicalizeInvalidations (values : List UnitInvalidation) : List UnitInvalidation :=
  (values.insertionSort fun a b => a.key ≤ b.key).destutter (· ≠ ·)

lemma sorted_invalidations (values : List UnitInvalidation) :
    (values.insertionSort fun a b => a.key ≤ b.key).Pairwise fun a b => a.key ≤ b.key := by
  have htotal : Std.Total fun a b : UnitInvalidation => a.key ≤ b.key :=
    ⟨fun a b => le_total a.key b.key⟩
  have htrans : IsTrans UnitInvalidation fun a b => a.key ≤ b.key :=
    ⟨fun _ _ _ h h' => le_trans h h'⟩
  exact List.pairwise_insertionSort _ values

lemma canonicalizeInvalidations_eq_dedup (values : List UnitInvalidation) :
    canonicalizeInvalidations values =
      (values.insertionSort fun a b => a.key ≤ b.key).dedup := by
  have hantisymm : Std.Antisymm fun a b : UnitInvalidation => a.key ≤ b.key :=
    ⟨fun _ _ h h' => UnitInvalidation.key_injective (le_antisymm h h')⟩
  exact (sorted_invalidations values).destutter_eq_dedup

@[simp]
lemma mem_canonicalizeInvalidations {values : List UnitInvalidation} {value : UnitInvalidation} :
    value ∈ canonicalizeInvalidations values ↔ value ∈ values := by
  rw [canonicalizeInvalidations_eq_dedup, List.mem_dedup, List.mem_insertionSort]

/-- No key occurs twice, and the keys ascend. -/
lemma isChain_canonicalizeInvalidations (values : List UnitInvalidation) :
    (canonicalizeInvalidations values).IsChain fun a b => a.key < b.key := by
  rw [canonicalizeInvalidations_eq_dedup]
  have hle := (sorted_invalidations values).sublist (List.dedup_sublist _)
  have hne := List.nodup_dedup (values.insertionSort fun a b => a.key ≤ b.key)
  refine ((hle.and hne).imp ?_).isChain
  intro a b ⟨hkey, hab⟩
  exact lt_of_le_of_ne hkey fun h => hab (UnitInvalidation.key_injective h)

lemma canonicalizeInvalidations_eq_nil {values : List UnitInvalidation} :
    canonicalizeInvalidations values = [] ↔ values = [] := by
  simp only [List.eq_nil_iff_forall_not_mem, mem_canonicalizeInvalidations]

@[simp]
lemma canonicalizeInvalidations_singleton (value : UnitInvalidation) :
    canonicalizeInvalidations [value] = [value] := by
  simp [canonicalizeInvalidations]

/-! ## Decisions -/

namespace UnitCompilationDecision

/-- The decision is about one reason, the removal of the module. -/
def hasOnlyRemoval (decision : UnitCompilationDecision) : Bool :=
  match decision.invalidations with
  | [invalidation] => invalidation.reason == .moduleRemoved
  | _ => false

/-- The checks of a decision, its place in the plan and its reasons apart. -/
def wellFormed (decision : UnitCompilationDecision) : Bool :=
  !decision.moduleName.isEmpty &&
    (decision.action == .reuse) == decision.invalidations.isEmpty &&
    (decision.action == .removed) == decision.hasOnlyRemoval &&
    !(decision.action != .removed &&
      decision.invalidations.any fun invalidation => invalidation.reason == .moduleRemoved)

/-- The decision as the constructor of a plan keeps it. -/
def canonical (decision : UnitCompilationDecision) : UnitCompilationDecision :=
  { decision with invalidations := canonicalizeInvalidations decision.invalidations }

@[simp]
lemma moduleName_canonical (decision : UnitCompilationDecision) :
    decision.canonical.moduleName = decision.moduleName :=
  rfl

@[simp]
lemma invalidations_canonical (decision : UnitCompilationDecision) :
    decision.canonical.invalidations = canonicalizeInvalidations decision.invalidations :=
  rfl

variable {moduleName : Text}

/-- A unit that is built for reasons other than its removal. -/
lemma wellFormed_rebuild {invalidations : List UnitInvalidation} (hname : moduleName ≠ [])
    (hsome : invalidations ≠ [])
    (hreasons : ∀ value ∈ invalidations, value.reason ≠ .moduleRemoved) :
    (canonical ⟨moduleName, .rebuild, invalidations⟩).wellFormed = true := by
  have hkept : ∀ value ∈ canonicalizeInvalidations invalidations,
      value.reason ≠ .moduleRemoved :=
    fun value hvalue => hreasons value (mem_canonicalizeInvalidations.mp hvalue)
  have honly : (canonical ⟨moduleName, .rebuild, invalidations⟩).hasOnlyRemoval = false := by
    rw [hasOnlyRemoval, invalidations_canonical]
    split
    · rename_i value heq
      simpa using hkept value (by simp [heq])
    · rfl
  simp only [wellFormed, honly]
  simp only [canonical, Bool.and_eq_true]
  refine ⟨⟨⟨?_, ?_⟩, rfl⟩, ?_⟩
  · simpa using hname
  · have hkeep := mt canonicalizeInvalidations_eq_nil.mp hsome
    rw [beq_iff_eq, List.isEmpty_eq_false_iff.mpr hkeep]
    rfl
  · simpa using hreasons

lemma wellFormed_reuse (hname : moduleName ≠ []) :
    (canonical ⟨moduleName, .reuse, []⟩).wellFormed = true := by
  simpa [wellFormed, canonical, canonicalizeInvalidations, hasOnlyRemoval] using hname

lemma wellFormed_removed (hname : moduleName ≠ []) :
    (canonical ⟨moduleName, .removed, [{ reason := .moduleRemoved }]⟩).wellFormed = true := by
  simpa [wellFormed, canonical, hasOnlyRemoval] using hname

end UnitCompilationDecision

/-! ## Plans -/

structure IncrementalCompilationPlan where
  decisions : List UnitCompilationDecision
  deriving DecidableEq

namespace IncrementalCompilationPlan

/-- The constructor. -/
def ofDecisions (decisions : List UnitCompilationDecision) : IncrementalCompilationPlan where
  decisions := (decisions.map UnitCompilationDecision.canonical).insertionSort
    fun a b => a.moduleName ≤ b.moduleName

/-- The loop over the reasons of a decision. -/
def verifyInvalidations : Option UnitInvalidation → List UnitInvalidation → Except String Unit
  | _, [] => .ok ()
  | previous, invalidation :: rest => do
    ensure
      (invalidation.wellFormed && previous.all fun value => decide (value.key < invalidation.key))
      invalidation.invalidReason
    verifyInvalidations (some invalidation) rest

/-- The loop over the decisions. -/
def verifyDecisions : Text → List UnitCompilationDecision → Except String Unit
  | _, [] => .ok ()
  | previous, decision :: rest => do
    ensure
      (decision.wellFormed && (previous.isEmpty || decide (previous < decision.moduleName)))
      "incremental compilation plan has an invalid decision"
    verifyInvalidations none decision.invalidations
    verifyDecisions decision.moduleName rest

def verify (plan : IncrementalCompilationPlan) : Except String Unit :=
  verifyDecisions [] plan.decisions

lemma verifyInvalidations_eq_ok {previous : Option UnitInvalidation}
    {values : List UnitInvalidation} :
    verifyInvalidations previous values = .ok () ↔
      (∀ value ∈ values, value.wellFormed = true) ∧
        (previous.toList ++ values).IsChain fun a b => a.key < b.key := by
  induction values generalizing previous with
  | nil => cases previous <;> simp [verifyInvalidations]
  | cons value values ih =>
    simp only [verifyInvalidations, andThen_eq_ok, ensure_eq_ok, Bool.and_eq_true, ih,
      List.forall_mem_cons]
    cases previous with
    | none =>
      simp only [Option.all_none, Option.toList, List.nil_append, List.singleton_append]
      tauto
    | some previous =>
      simp only [Option.all_some, decide_eq_true_eq, Option.toList, List.singleton_append,
        List.isChain_cons_cons]
      tauto

variable {decisions : List UnitCompilationDecision}

lemma verifyDecisions_eq_ok {previous : Text} :
    verifyDecisions previous decisions = .ok () ↔
      (∀ decision ∈ decisions, decision.wellFormed = true ∧
        verifyInvalidations none decision.invalidations = .ok ()) ∧
      (decisions.IsChain fun a b => a.moduleName < b.moduleName) ∧
      (previous = [] ∨ ∀ decision ∈ decisions.head?, previous < decision.moduleName) := by
  induction decisions generalizing previous with
  | nil => simp [verifyDecisions]
  | cons decision decisions ih =>
    simp only [verifyDecisions, andThen_eq_ok, ensure_eq_ok, Bool.and_eq_true, Bool.or_eq_true,
      List.isEmpty_iff, decide_eq_true_eq, ih, List.forall_mem_cons, List.isChain_cons,
      List.head?_cons, Option.mem_some_iff, forall_eq']
    constructor
    · rintro ⟨⟨hformed, hprevious⟩, hreasons, hrest, hchain, hname⟩
      refine ⟨⟨⟨hformed, hreasons⟩, hrest⟩, ⟨?_, hchain⟩, hprevious⟩
      refine hname.resolve_left ?_
      simp only [UnitCompilationDecision.wellFormed, Bool.and_eq_true] at hformed
      simpa using hformed.1.1.1
    · rintro ⟨⟨⟨hformed, hreasons⟩, hrest⟩, ⟨hname, hchain⟩, hprevious⟩
      exact ⟨⟨hformed, hprevious⟩, hreasons, hrest, hchain, Or.inr hname⟩

/-- Distinct names ascend once they are sorted. -/
lemma isChain_insertionSort_iff :
    ((decisions.insertionSort fun a b => a.moduleName ≤ b.moduleName).IsChain
        fun a b => a.moduleName < b.moduleName) ↔
      (decisions.map UnitCompilationDecision.moduleName).Nodup := by
  set sorted := decisions.insertionSort fun a b => a.moduleName ≤ b.moduleName with hsorted
  have hperm : sorted.Perm decisions := List.perm_insertionSort _ _
  rw [← (hperm.map UnitCompilationDecision.moduleName).nodup_iff]
  have hle : sorted.Pairwise fun a b => a.moduleName ≤ b.moduleName := by
    have htotal : Std.Total fun a b : UnitCompilationDecision => a.moduleName ≤ b.moduleName :=
      ⟨fun a b => le_total a.moduleName b.moduleName⟩
    have htrans : IsTrans UnitCompilationDecision fun a b => a.moduleName ≤ b.moduleName :=
      ⟨fun _ _ _ h h' => le_trans h h'⟩
    exact List.pairwise_insertionSort _ decisions
  have hlt : IsTrans UnitCompilationDecision fun a b => a.moduleName < b.moduleName :=
    ⟨fun _ _ _ h h' => lt_trans h h'⟩
  rw [List.isChain_iff_pairwise, List.Nodup, List.pairwise_map]
  constructor
  · intro h
    exact h.imp fun hab => hab.ne
  · intro h
    exact (hle.and h).imp fun ⟨hab, hne⟩ => lt_of_le_of_ne hab hne

/-- A plan is accepted exactly when its decisions are about different modules, each is well formed
and so is each of its reasons. -/
theorem verify_ofDecisions_iff :
    (ofDecisions decisions).verify = .ok () ↔
      (decisions.map UnitCompilationDecision.moduleName).Nodup ∧
        ∀ decision ∈ decisions, decision.canonical.wellFormed = true ∧
          ∀ value ∈ decision.invalidations, value.wellFormed = true := by
  have hnames : (decisions.map UnitCompilationDecision.canonical).map
      UnitCompilationDecision.moduleName = decisions.map UnitCompilationDecision.moduleName := by
    simp [List.map_map, Function.comp_def]
  rw [verify, verifyDecisions_eq_ok, ofDecisions, isChain_insertionSort_iff, hnames]
  simp only [List.mem_insertionSort, List.mem_map, forall_exists_index, and_imp,
    forall_apply_eq_imp_iff₂, verifyInvalidations_eq_ok, Option.toList, List.nil_append,
    UnitCompilationDecision.invalidations_canonical, isChain_canonicalizeInvalidations,
    mem_canonicalizeInvalidations, and_true, true_or]
  exact and_comm

end IncrementalCompilationPlan

end Incremental

end Chtholly
