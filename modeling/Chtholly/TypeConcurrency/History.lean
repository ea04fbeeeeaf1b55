import Mathlib.Data.Set.Finite.Basic
import Mathlib.Logic.Relation
import Mathlib.Tactic.Common
import Chtholly.TypeConcurrency.Summary

/-!
# Answers that do not depend on earlier queries

A summary remembers what it has found in the middle of a recursion, where a type that it has not
finished counts as neither transferable nor shareable.  A type that has met such a provisional
answer contains itself by value, and so the answer is final.

## Main definitions

* `TypeConcurrency.Ends` — looking through a type ends in what has a capability.
* `TypeConcurrency.Remembers` — what is remembered is right.

## Main results

* `TypeConcurrency.summarizeImpl_spec` — what one call answers and remembers.
* `TypeConcurrency.summarize_independent` — answers do not depend on earlier queries.
-/

set_option autoImplicit false

namespace Chtholly

namespace TypeConcurrency

open Relation (ReflTransGen TransGen)

/-! ## Capabilities -/

inductive Capability
  | transferable | shareable
  deriving DecidableEq

def Capability.of (facts : TypeConcurrencyFacts) : Capability → Bool
  | transferable => facts.transferable
  | shareable => facts.shareable

@[simp] lemma Capability.of_and (facts child : TypeConcurrencyFacts) (capability : Capability) :
    capability.of (facts.and child) = (capability.of facts && capability.of child) := by
  cases capability <;> rfl

@[simp] lemma Capability.of_true (capability : Capability) : capability.of ⟨true, true⟩ = true := by
  cases capability <;> rfl

@[simp] lemma Capability.of_empty (capability : Capability) : capability.of {} = false := by
  cases capability <;> rfl

lemma facts_ext {facts others : TypeConcurrencyFacts}
    (h : ∀ capability : Capability, capability.of facts = capability.of others) : facts = others := by
  obtain ⟨transferable, shareable⟩ := facts
  obtain ⟨transferable', shareable'⟩ := others
  obtain rfl : transferable = transferable' := h .transferable
  obtain rfl : shareable = shareable' := h .shareable
  rfl

section

variable (resolvers : Resolvers)

/-- Looking through arrays, tuples, fields and payloads comes to an end, in scalars and in types
for which foreign facts state the capability. -/
inductive Ends (capability : Capability) : PublicType → Prop
  | scalar {type : PublicType} (h : type.kind = .bool ∨ type.kind = .char ∨
      type.kind = .integer ∨ type.kind = .float) : Ends capability type
  | aggregate {type : PublicType} (h : type.kind = .array ∨ type.kind = .tuple)
      (hall : ∀ argument ∈ type.arguments, Ends capability argument) : Ends capability type
  | foreign {type : PublicType} {facts : TypeConcurrencyFacts} (h : type.kind = .nominal)
      (hforeign : resolvers.resolveForeign type = some facts)
      (hfacts : capability.of facts = true) : Ends capability type
  | nominal {type : PublicType} {specific : NominalTypeSpecificArtifact} (h : type.kind = .nominal)
      (hforeign : resolvers.resolveForeign type = none)
      (hspecific : resolvers.resolveSpecific type = some specific)
      (hfields : ∀ field ∈ specific.fields, Ends capability field.type)
      (hpayloads : ∀ variant ∈ specific.variants, ∀ field ∈ variant.fields,
        Ends capability field.type) : Ends capability type

/-- A type is looked through to another one. -/
def Looks (type child : PublicType) : Prop :=
  ∃ children, resolvers.inspect type = .inr children ∧ child ∈ children

variable {resolvers} {capability : Capability} {type : PublicType}

/-- What a nominal type is looked through to. -/
def memberTypes (specific : NominalTypeSpecificArtifact) : List PublicType :=
  specific.fields.map PublicNominalFieldArtifact.type ++ specific.variants.flatMap fun variant =>
    variant.fields.map PublicNominalFieldArtifact.type

lemma forall_memberTypes {specific : NominalTypeSpecificArtifact} {p : PublicType → Prop} :
    (∀ child ∈ memberTypes specific, p child) ↔ (∀ field ∈ specific.fields, p field.type) ∧
      ∀ variant ∈ specific.variants, ∀ field ∈ variant.fields, p field.type := by
  simp only [memberTypes, List.forall_mem_append, List.forall_mem_map, List.mem_flatMap,
    forall_exists_index, and_imp]
  exact and_congr_right fun _ => ⟨fun h variant hvariant field hfield =>
    h _ variant hvariant (List.mem_map_of_mem hfield), fun h child variant hvariant hchild => by
      obtain ⟨field, hfield, rfl⟩ := List.mem_map.1 hchild
      exact h variant hvariant field hfield⟩

/-- A type ends by the `switch` over its kind. -/
lemma ends_iff_inspect : Ends resolvers capability type ↔
    match resolvers.inspect type with
    | .inl facts => capability.of facts = true
    | .inr children => ∀ child ∈ children, Ends resolvers capability child := by
  constructor
  · intro h
    cases h with
    | scalar h =>
      obtain h | h | h | h := h
      all_goals
        simp only [Resolvers.inspect, h]
        exact Capability.of_true capability
    | aggregate h hall =>
      obtain h | h := h
      all_goals
        simp only [Resolvers.inspect, h]
        exact hall
    | foreign h hforeign hfacts =>
      simp only [Resolvers.inspect, h, hforeign]
      exact hfacts
    | nominal h hforeign hspecific hfields hpayloads =>
      simp only [Resolvers.inspect, h, hforeign, hspecific]
      exact forall_memberTypes.2 ⟨hfields, hpayloads⟩
  · intro h
    unfold Resolvers.inspect at h
    cases hkind : type.kind
    case bool => exact .scalar (.inl hkind)
    case char => exact .scalar (.inr (.inl hkind))
    case integer => exact .scalar (.inr (.inr (.inl hkind)))
    case float => exact .scalar (.inr (.inr (.inr hkind)))
    case array =>
      simp only [hkind] at h
      exact .aggregate (.inl hkind) h
    case tuple =>
      simp only [hkind] at h
      exact .aggregate (.inr hkind) h
    case nominal =>
      simp only [hkind] at h
      cases hforeign : resolvers.resolveForeign type with
      | some facts =>
        simp only [hforeign] at h
        exact .foreign hkind hforeign h
      | none =>
        cases hspecific : resolvers.resolveSpecific type with
        | none =>
          simp only [hforeign, hspecific, Capability.of_empty] at h
          cases h
        | some specific =>
          simp only [hforeign, hspecific] at h
          obtain ⟨hfields, hpayloads⟩ := forall_memberTypes.1 h
          exact .nominal hkind hforeign hspecific hfields hpayloads
    all_goals
      simp only [hkind, Capability.of_empty] at h
      cases h

variable {facts : TypeConcurrencyFacts}

lemma ends_of_inl (h : resolvers.inspect type = .inl facts) :
    Ends resolvers capability type ↔ capability.of facts = true := by
  rw [ends_iff_inspect, h]

lemma ends_of_inr {children : List PublicType} (h : resolvers.inspect type = .inr children) :
    Ends resolvers capability type ↔ ∀ child ∈ children, Ends resolvers capability child := by
  rw [ends_iff_inspect, h]

/-- A type with a capability is looked through in finitely many steps. -/
lemma acc_of_ends (h : Ends resolvers capability type) :
    Acc (fun child type => Looks resolvers type child) type := by
  induction h with
  | scalar h =>
    refine .intro _ fun child ⟨children, hinspect, _⟩ => ?_
    obtain h | h | h | h := h
    all_goals
      simp only [Resolvers.inspect, h] at hinspect
      cases hinspect
  | aggregate h _ ih =>
    refine .intro _ fun child ⟨children, hinspect, hchild⟩ => ih child ?_
    obtain h | h := h
    all_goals
      simp only [Resolvers.inspect, h] at hinspect
      exact Sum.inr.inj hinspect ▸ hchild
  | foreign h hforeign _ =>
    refine .intro _ fun child ⟨children, hinspect, _⟩ => ?_
    simp only [Resolvers.inspect, h, hforeign] at hinspect
    cases hinspect
  | nominal h hforeign hspecific _ _ ihFields ihPayloads =>
    refine .intro _ fun child ⟨children, hinspect, hchild⟩ => ?_
    simp only [Resolvers.inspect, h, hforeign, hspecific] at hinspect
    have hmember : child ∈ memberTypes _ := (Sum.inr.inj hinspect).symm ▸ hchild
    exact forall_memberTypes.2 ⟨ihFields, ihPayloads⟩ child hmember

lemma not_rel_of_acc {α : Type} {r : α → α → Prop} {a : α} (h : Acc r a) : ¬r a a := by
  induction h with
  | intro b _ ih => exact fun hb => ih b hb hb

/-- A type with a capability does not contain itself. -/
lemma not_transGen_of_ends (h : Ends resolvers capability type) :
    ¬TransGen (Looks resolvers) type type := by
  intro hcycle
  exact not_rel_of_acc (acc_of_ends h).transGen (Relation.transGen_swap.2 hcycle)

/-! ## One call -/

/-- What is remembered is right. -/
def Remembers (resolvers : Resolvers) (summary : Summary) : Prop :=
  ∀ type facts, summary.completed.lookup type = some facts →
    ∀ capability : Capability, capability.of facts = true ↔ Ends resolvers capability type

lemma budgetError_ne : budgetError ≠ "" := by decide

/-- What a call on a type answers and remembers. -/
structure Answered (resolvers : Resolvers) (type : PublicType) (summary : Summary)
    (facts : TypeConcurrencyFacts) (next : Summary) : Prop where
  remembers : Remembers resolvers next
  active : next.active = summary.active
  error : summary.error ≠ "" → next.error ≠ ""
  sound : ∀ capability : Capability, capability.of facts = true → Ends resolvers capability type
  complete : next.error = "" → ∀ capability : Capability, Ends resolvers capability type →
    type ∉ summary.active → capability.of facts = true

/-- The types that are being looked through lead to this one. -/
def Follows (resolvers : Resolvers) (summary : Summary) (type : PublicType) : Prop :=
  ∀ above ∈ summary.active, ReflTransGen (Looks resolvers) above type

variable {summary : Summary}

lemma remembers_finish (h : Remembers resolvers summary)
    (hfacts : summary.error = "" → ∀ capability : Capability,
      capability.of facts = true ↔ Ends resolvers capability type) :
    Remembers resolvers (Resolvers.finish type facts summary) := by
  intro other found hlookup
  unfold Resolvers.finish at hlookup
  dsimp only at hlookup
  split at hlookup
  case isFalse => exact h other found hlookup
  case isTrue herror =>
    split at hlookup
    case h_1 => exact h other found hlookup
    case h_2 =>
      rw [List.lookup_cons] at hlookup
      split at hlookup
      case h_1 hsame =>
        rw [beq_iff_eq.1 hsame, ← Option.some.inj hlookup]
        exact hfacts herror
      case h_2 => exact h other found hlookup

/-- The step of the loop over the children. -/
def childStep (resolvers : Resolvers) (budget : Option ℕ) (fuel : ℕ) :
    TypeConcurrencyFacts × Summary → PublicType → Option (TypeConcurrencyFacts × Summary) :=
  fun (facts, summary) child => do
    let (childFacts, summary) ← resolvers.summarizeImpl budget fuel child summary
    some (facts.and childFacts, summary)

variable {budget : Option ℕ} {fuel : ℕ} {next : Summary}

lemma childStep_eq_some {facts' : TypeConcurrencyFacts} {child : PublicType}
    (h : childStep resolvers budget fuel (facts, summary) child = some (facts', next)) :
    ∃ childFacts, resolvers.summarizeImpl budget fuel child summary = some (childFacts, next) ∧
      facts' = facts.and childFacts := by
  simp only [childStep, Option.bind_eq_bind, Option.bind_eq_some_iff] at h
  obtain ⟨⟨childFacts, last⟩, hchild, heq⟩ := h
  simp only [Option.some.injEq, Prod.mk.injEq] at heq
  obtain ⟨rfl, rfl⟩ := heq
  exact ⟨childFacts, hchild, rfl⟩

/-- What the loop over the children answers and remembers. -/
structure AnsweredAll (resolvers : Resolvers) (children : List PublicType)
    (facts : TypeConcurrencyFacts) (summary : Summary) (facts' : TypeConcurrencyFacts)
    (next : Summary) : Prop where
  remembers : Remembers resolvers next
  active : next.active = summary.active
  error : summary.error ≠ "" → next.error ≠ ""
  sound : ∀ capability : Capability, capability.of facts' = true →
    capability.of facts = true ∧ ∀ child ∈ children, Ends resolvers capability child
  complete : next.error = "" → ∀ capability : Capability, capability.of facts = true →
    (∀ child ∈ children, Ends resolvers capability child ∧ child ∉ summary.active) →
    capability.of facts' = true

lemma answeredAll_of_foldlM
    (hcall : ∀ type summary facts next,
      resolvers.summarizeImpl budget fuel type summary = some (facts, next) →
      Remembers resolvers summary → Follows resolvers summary type →
      Answered resolvers type summary facts next) {children : List PublicType}
    {facts' : TypeConcurrencyFacts}
    (h : children.foldlM (childStep resolvers budget fuel) (facts, summary) = some (facts', next))
    (hremembers : Remembers resolvers summary)
    (hfollows : ∀ child ∈ children, Follows resolvers summary child) :
    AnsweredAll resolvers children facts summary facts' next := by
  induction children generalizing facts summary with
  | nil =>
    cases h
    exact ⟨hremembers, rfl, id, fun _ h => ⟨h, fun _ hnil => absurd hnil List.not_mem_nil⟩,
      fun _ _ h _ => h⟩
  | cons child rest ih =>
    rw [List.foldlM_cons, Option.bind_eq_bind, Option.bind_eq_some_iff] at h
    obtain ⟨⟨between, middle⟩, hfirst, hlast⟩ := h
    obtain ⟨childFacts, hchild, rfl⟩ := childStep_eq_some hfirst
    obtain ⟨hfollowsChild, hfollowsRest⟩ := List.forall_mem_cons.1 hfollows
    have hanswer := hcall child summary childFacts middle hchild hremembers hfollowsChild
    have hrest := ih hlast hanswer.remembers fun other hother above habove =>
      hfollowsRest other hother above (hanswer.active ▸ habove)
    refine ⟨hrest.remembers, hrest.active.trans hanswer.active,
      fun herror => hrest.error (hanswer.error herror), fun capability hfacts => ?_,
      fun herror capability hfacts hall => ?_⟩
    · obtain ⟨hboth, hothers⟩ := hrest.sound capability hfacts
      rw [Capability.of_and, Bool.and_eq_true] at hboth
      exact ⟨hboth.1, List.forall_mem_cons.2 ⟨hanswer.sound capability hboth.2, hothers⟩⟩
    · obtain ⟨⟨hends, hnot⟩, hothers⟩ := List.forall_mem_cons.1 hall
      have herrorMiddle : middle.error = "" := by
        by_contra hne
        exact hrest.error hne herror
      refine hrest.complete herror capability ?_ (hanswer.active.symm ▸ hothers)
      rw [Capability.of_and, hfacts, hanswer.complete herrorMiddle capability hends hnot]
      rfl

/-- **One call.** A call answers and remembers what is right: provisional answers are given only
for types that contain themselves.

**Proof sketch.** Induction on the bound of the recursion.  When a child is being looked through
already, it leads to the type and the type leads to it, so it has no capability. -/
lemma summarizeImpl_spec {type : PublicType}
    (h : resolvers.summarizeImpl budget fuel type summary = some (facts, next))
    (hremembers : Remembers resolvers summary) (hfollows : Follows resolvers summary type) :
    Answered resolvers type summary facts next := by
  induction fuel generalizing type summary facts next with
  | zero => cases h
  | succ fuel ih =>
    have hempty (capability : Capability) : capability.of {} = true → Ends resolvers capability type :=
      fun h => by rw [Capability.of_empty] at h; cases h
    unfold Resolvers.summarizeImpl at h
    dsimp only at h
    split at h
    case isTrue =>
      cases h
      exact ⟨hremembers, rfl, fun _ => budgetError_ne, hempty,
        fun herror => absurd herror budgetError_ne⟩
    case isFalse =>
      split at h
      case h_1 found hlookup =>
        cases h
        exact ⟨hremembers, rfl, id, fun capability => (hremembers _ _ hlookup capability).1,
          fun _ capability hends _ => (hremembers _ _ hlookup capability).2 hends⟩
      case h_2 hlookup =>
        split at h
        case isTrue hactive =>
          cases h
          exact ⟨hremembers, rfl, id, hempty, fun _ _ _ hnot => absurd hactive hnot⟩
        case isFalse hactive =>
          split at h
          case h_1 found hinspect =>
            cases h
            refine ⟨remembers_finish hremembers fun _ capability => (ends_of_inl hinspect).symm,
              List.erase_cons_head .., id, fun capability => (ends_of_inl hinspect).2,
              fun _ capability hends _ => (ends_of_inl hinspect).1 hends⟩
          case h_2 children hinspect =>
            rw [Option.bind_eq_bind, Option.bind_eq_some_iff] at h
            obtain ⟨⟨found, last⟩, hfold, heq⟩ := h
            simp only [Option.some.injEq, Prod.mk.injEq] at heq
            obtain ⟨rfl, rfl⟩ := heq
            have hall := answeredAll_of_foldlM (fun _ _ _ _ => ih) hfold hremembers
              fun child hchild above habove => by
                have hlooks : Looks resolvers type child := ⟨children, hinspect, hchild⟩
                obtain rfl | habove := List.mem_cons.1 habove
                · exact .single hlooks
                · exact (hfollows above habove).tail hlooks
            have hsound (capability : Capability) (hfacts : capability.of found = true) :
                Ends resolvers capability type :=
              (ends_of_inr hinspect).2 (hall.sound capability hfacts).2
            have hcomplete (herror : last.error = "") (capability : Capability)
                (hends : Ends resolvers capability type) : capability.of found = true := by
              refine hall.complete herror capability (Capability.of_true capability)
                fun child hchild => ?_
              have hlooks : Looks resolvers type child := ⟨children, hinspect, hchild⟩
              refine ⟨(ends_of_inr hinspect).1 hends child hchild, fun hmem => ?_⟩
              obtain rfl | hmem := List.mem_cons.1 hmem
              · exact not_transGen_of_ends hends (.single hlooks)
              · exact not_transGen_of_ends hends (TransGen.head' hlooks (hfollows child hmem))
            refine ⟨remembers_finish hall.remembers fun herror capability =>
                ⟨hsound capability, hcomplete herror capability⟩, ?_, hall.error, hsound,
              fun herror capability hends _ => hcomplete herror capability hends⟩
            show last.active.erase type = summary.active
            rw [hall.active]
            exact List.erase_cons_head ..

/-! ## Calls return -/

/-- The loop over the children returns when the calls do, with what they keep. -/
lemma foldlM_returns {budget : Option ℕ} {fuel : ℕ} {p : Summary → Prop}
    {children : List PublicType} {facts : TypeConcurrencyFacts} {summary : Summary}
    (hcall : ∀ child ∈ children, ∀ summary, p summary → ∃ facts next,
      resolvers.summarizeImpl budget fuel child summary = some (facts, next) ∧ p next)
    (h : p summary) : ∃ facts' next,
      children.foldlM (childStep resolvers budget fuel) (facts, summary) = some (facts', next) ∧
        p next := by
  induction children generalizing facts summary with
  | nil => exact ⟨facts, summary, rfl, h⟩
  | cons child rest ih =>
    obtain ⟨hchild, hrest⟩ := List.forall_mem_cons.1 hcall
    obtain ⟨childFacts, middle, hsome, hmiddle⟩ := hchild summary h
    have hstep : childStep resolvers budget fuel (facts, summary) child =
        some (facts.and childFacts, middle) := by
      simp only [childStep, hsome, Option.bind_eq_bind, Option.bind_some]
    rw [List.foldlM_cons, hstep]
    exact ih hrest hmiddle

/-- With a budget every call returns. -/
lemma returns_of_budget {maxWorkItems fuel : ℕ} {type : PublicType} {summary : Summary}
    (hfuel : 0 < fuel) (h : maxWorkItems < fuel + summary.workItems) : ∃ facts next,
      resolvers.summarizeImpl (some maxWorkItems) fuel type summary = some (facts, next) ∧
        summary.workItems ≤ next.workItems := by
  induction fuel generalizing type summary with
  | zero => exact absurd hfuel (lt_irrefl 0)
  | succ fuel ih =>
    unfold Resolvers.summarizeImpl
    dsimp only
    split
    case isTrue => exact ⟨_, _, rfl, Nat.le_succ _⟩
    case isFalse hbudget =>
      have hwithin : ¬maxWorkItems < summary.workItems + 1 := by simpa using hbudget
      split
      case h_1 => exact ⟨_, _, rfl, Nat.le_succ _⟩
      case h_2 =>
        split
        case isTrue => exact ⟨_, _, rfl, Nat.le_succ _⟩
        case isFalse =>
          split
          case h_1 => exact ⟨_, _, rfl, Nat.le_succ _⟩
          case h_2 children _ =>
            obtain ⟨facts, last, hfold, hlast⟩ := @foldlM_returns resolvers (some maxWorkItems) fuel
              (fun next => summary.workItems + 1 ≤ next.workItems) children ⟨true, true⟩
              { summary with
                workItems := summary.workItems + 1
                active := type :: summary.active }
              (fun child _ middle hmiddle => by
                obtain ⟨facts, next, hsome, hnext⟩ := @ih child middle (by omega) (by omega)
                exact ⟨facts, next, hsome, hmiddle.trans hnext⟩)
              le_rfl
            refine ⟨facts, Resolvers.finish type facts last, ?_, (Nat.le_succ _).trans hlast⟩
            exact congrArg (fun result => result.bind fun (facts, next) =>
              some (facts, Resolvers.finish type facts next)) hfold

/-- Without a budget a call returns when finitely many types are looked through.

**Proof sketch.** Each type that is looked through is one less that is not. -/
lemma returns_of_finite {reached : Finset PublicType} {fuel : ℕ} {type : PublicType}
    {summary : Summary} (hclosed : ∀ a ∈ reached, ∀ b, Looks resolvers a b → b ∈ reached)
    (htype : type ∈ reached)
    (h : (reached.filter fun a => a ∉ summary.active).card < fuel) : ∃ facts next,
      resolvers.summarizeImpl none fuel type summary = some (facts, next) ∧
        next.active = summary.active := by
  induction fuel generalizing type summary with
  | zero => exact absurd h (Nat.not_lt_zero _)
  | succ fuel ih =>
    unfold Resolvers.summarizeImpl
    dsimp only
    rw [if_neg (by simp)]
    split
    case h_1 => exact ⟨_, _, rfl, rfl⟩
    case h_2 =>
      split
      case isTrue => exact ⟨_, _, rfl, rfl⟩
      case isFalse hactive =>
        have hless : (reached.filter fun a => a ∉ type :: summary.active).card < fuel := by
          have hlt : (reached.filter fun a => a ∉ type :: summary.active).card <
              (reached.filter fun a => a ∉ summary.active).card := by
            refine Finset.card_lt_card (Finset.ssubset_iff_of_subset ?_ |>.2
              ⟨type, Finset.mem_filter.2 ⟨htype, hactive⟩, ?_⟩)
            · intro a ha
              obtain ⟨hmem, hnot⟩ := Finset.mem_filter.1 ha
              exact Finset.mem_filter.2 ⟨hmem, fun h => hnot (List.mem_cons_of_mem _ h)⟩
            · exact fun hmem => (Finset.mem_filter.1 hmem).2 List.mem_cons_self
          omega
        split
        case h_1 => exact ⟨_, _, rfl, List.erase_cons_head ..⟩
        case h_2 children hinspect =>
          obtain ⟨facts, last, hfold, hlast⟩ := @foldlM_returns resolvers none fuel
            (fun next => next.active = type :: summary.active) children ⟨true, true⟩
            { summary with
              workItems := summary.workItems + 1
              active := type :: summary.active }
            (fun child hchild middle hmiddle => by
              have hreached := hclosed type htype child ⟨children, hinspect, hchild⟩
              obtain ⟨facts, next, hsome, hnext⟩ := @ih child middle hreached (hmiddle ▸ hless)
              exact ⟨facts, next, hsome, hnext.trans hmiddle⟩)
            rfl
          refine ⟨facts, Resolvers.finish type facts last, ?_, ?_⟩
          · exact congrArg (fun result => result.bind fun (facts, next) =>
              some (facts, Resolvers.finish type facts next)) hfold
          · show last.active.erase type = summary.active
            rw [hlast]
            exact List.erase_cons_head ..

/-- Without a budget there is no error. -/
lemma error_of_unlimited {type : PublicType}
    (h : resolvers.summarizeImpl none fuel type summary = some (facts, next)) :
    next.error = summary.error := by
  induction fuel generalizing type summary facts next with
  | zero => cases h
  | succ fuel ih =>
    have hfold {children : List PublicType} {start result : TypeConcurrencyFacts × Summary}
        (h : children.foldlM (childStep resolvers none fuel) start = some result) :
        result.2.error = start.2.error := by
      induction children generalizing start with
      | nil =>
        cases h
        rfl
      | cons child rest ihRest =>
        rw [List.foldlM_cons, Option.bind_eq_bind, Option.bind_eq_some_iff] at h
        obtain ⟨⟨between, middle⟩, hfirst, hlast⟩ := h
        obtain ⟨childFacts, hchild, -⟩ := childStep_eq_some hfirst
        exact (ihRest hlast).trans (ih hchild)
    unfold Resolvers.summarizeImpl at h
    dsimp only at h
    rw [if_neg (by simp)] at h
    split at h
    case h_1 =>
      cases h
      rfl
    case h_2 =>
      split at h
      case isTrue =>
        cases h
        rfl
      case isFalse =>
        split at h
        case h_1 =>
          cases h
          rfl
        case h_2 =>
          rw [Option.bind_eq_bind, Option.bind_eq_some_iff] at h
          obtain ⟨result, hloop, heq⟩ := h
          simp only [Option.some.injEq, Prod.mk.injEq] at heq
          rw [← heq.2]
          exact hfold hloop

/-! ## Queries -/

lemma summarize_spec {type : PublicType} (hremembers : Remembers resolvers summary)
    (h : resolvers.summarize budget fuel type summary = some (facts, next)) :
    Answered resolvers type { summary with error := "", workItems := 0, active := [] } facts next :=
  summarizeImpl_spec h hremembers fun _ habove => absurd habove List.not_mem_nil

lemma remembers_new : Remembers resolvers {} := fun _ _ h => nomatch h

/-- **Queries.** What is remembered after any queries is right. -/
lemma remembers_summarizeAll {queries : List PublicType}
    (hremembers : Remembers resolvers summary)
    (h : resolvers.summarizeAll budget fuel queries summary = some next) :
    Remembers resolvers next := by
  induction queries generalizing summary with
  | nil =>
    cases h
    exact hremembers
  | cons type rest ih =>
    rw [Resolvers.summarizeAll, List.foldlM_cons, Option.bind_eq_bind,
      Option.bind_eq_some_iff] at h
    obtain ⟨middle, hfirst, hrest⟩ := h
    obtain ⟨⟨facts, result⟩, hquery, rfl⟩ := Option.map_eq_some_iff.1 hfirst
    exact ih (summarize_spec hremembers hquery).remembers hrest

/-- An answer without an error states the capability exactly. -/
lemma facts_iff {type : PublicType} (hremembers : Remembers resolvers summary)
    (h : resolvers.summarize budget fuel type summary = some (facts, next))
    (herror : next.error = "") (capability : Capability) :
    capability.of facts = true ↔ Ends resolvers capability type := by
  have hanswer := summarize_spec hremembers h
  exact ⟨hanswer.sound capability, fun hends =>
    hanswer.complete herror capability hends List.not_mem_nil⟩

end

/-- **Answers do not depend on earlier queries.** After any queries, a query within its budget
answers what a new summary without a budget answers, which it does when finitely many types are
looked through.  With a budget a query always returns, and a capability is stated only for types
that end in what has it. -/
theorem summarize_independent (resolvers : Resolvers) (budget : Option ℕ) (fuel fuel' : ℕ)
    (queries : List PublicType) (summary next : Summary) (type : PublicType)
    (facts : TypeConcurrencyFacts)
    (hqueries : resolvers.summarizeAll budget fuel queries {} = some summary)
    (hquery : resolvers.summarize budget fuel' type summary = some (facts, next)) :
    (next.error = "" → ∀ fuel'' facts' next',
        resolvers.summarize none fuel'' type {} = some (facts', next') →
        facts' = facts ∧ next'.error = "") ∧
      (({child | ReflTransGen (Looks resolvers) type child} : Set PublicType).Finite →
        ∃ bound, ∀ fuel'' ≥ bound, (resolvers.summarize none fuel'' type {}).isSome = true) ∧
      (∀ maxWorkItems type' summary',
        (resolvers.summarize (some maxWorkItems) (maxWorkItems + 1) type' summary').isSome = true) ∧
      ∀ capability : Capability, capability.of facts = true → Ends resolvers capability type := by
  have hremembers := remembers_summarizeAll remembers_new hqueries
  refine ⟨fun herror fuel'' facts' next' hnew => ?_, fun hfinite => ?_, ?_,
    (summarize_spec hremembers hquery).sound⟩
  · have herror' : next'.error = "" := error_of_unlimited hnew
    refine ⟨facts_ext fun capability => ?_, herror'⟩
    rw [Bool.eq_iff_iff, facts_iff remembers_new hnew herror', facts_iff hremembers hquery herror]
  · refine ⟨hfinite.toFinset.card + 1, fun fuel'' hfuel => ?_⟩
    obtain ⟨facts', next', hsome, -⟩ := @returns_of_finite resolvers hfinite.toFinset fuel'' type {}
      (fun a ha b hlooks => by
        rw [Set.Finite.mem_toFinset] at ha ⊢
        exact ReflTransGen.tail ha hlooks)
      (hfinite.mem_toFinset.2 .refl)
      ((Finset.card_filter_le _ _).trans_lt hfuel)
    exact Option.isSome_iff_exists.2 ⟨_, hsome⟩
  · intro maxWorkItems type' summary'
    obtain ⟨facts', next', hsome, -⟩ := @returns_of_budget resolvers maxWorkItems
      (maxWorkItems + 1) type' { summary' with error := "", workItems := 0, active := [] }
      (Nat.succ_pos _) (Nat.lt_succ_self _)
    exact Option.isSome_iff_exists.2 ⟨_, hsome⟩

def nominalType (name : String) : PublicType := .mk .nominal name.toList []

def integerType : PublicType := .mk .integer [] []

/-- Two types that contain each other, and one with two integers. -/
def sampleResolvers : Resolvers where
  resolveSpecific type :=
    if type = nominalType "Left" then some ⟨[⟨[], nominalType "Right"⟩], []⟩
    else if type = nominalType "Right" then
      some ⟨[⟨[], integerType⟩, ⟨[], nominalType "Left"⟩], []⟩
    else if type = nominalType "Pair" then some ⟨[⟨[], integerType⟩, ⟨[], integerType⟩], []⟩
    else none
  resolveForeign _ := none

/-- A pair is answered after the types that contain each other and a query beyond the budget. -/
theorem summarize_independent_pair :
    (sampleResolvers.summarize none 4 (nominalType "Pair") {}).map
      (fun answer => (answer.1, answer.2.error)) = some (⟨true, true⟩, "") := by
  have hnew := (summarize_independent sampleResolvers (some 4) 5 5
    [nominalType "Right", .mk .tuple [] (List.replicate 4 integerType)]
    ⟨5, [(nominalType "Right", {}), (nominalType "Left", {}), (integerType, ⟨true, true⟩)], [],
      budgetError⟩
    ⟨3, [(nominalType "Pair", ⟨true, true⟩), (nominalType "Right", {}), (nominalType "Left", {}),
      (integerType, ⟨true, true⟩)], [], ""⟩
    (nominalType "Pair") ⟨true, true⟩ (by decide) (by decide)).1 rfl 4
  have hreturns : (sampleResolvers.summarize none 4 (nominalType "Pair") {}).isSome = true := by
    decide
  obtain ⟨⟨facts', next'⟩, hsome⟩ := Option.isSome_iff_exists.1 hreturns
  obtain ⟨hfacts, herror⟩ := hnew facts' next' hsome
  rw [hsome, Option.map_some, hfacts, herror]

end TypeConcurrency

end Chtholly
