import Chtholly.Registry.Digest

/-!
# What may be moved to and shared with another thread

A summary answers for a type whether its values may be transferred to another thread and whether
they may be shared with one.  It looks through arrays, tuples and nominal types, remembers what it
has answered, and gives a provisional answer for a type that it is in the middle of.

The keys of the source are the canonical bytes of a type, which spell all of what is kept of a type
here; the model takes the type itself.  The recursion of the source is bounded only by its budget,
so that of the model has a bound of its own, and `none` stands for a recursion that is deeper.

## Main definitions

* `TypeConcurrency.PublicType`, `TypeConcurrency.Resolvers` — types, and what is known of nominal
  types.
* `TypeConcurrency.summarizeImpl`, `TypeConcurrency.summarize` — the recursion, and one query.
* `TypeConcurrency.summarizeAll` — queries one after the other.
-/

set_option autoImplicit false

namespace Chtholly

namespace TypeConcurrency

open Registry (Text)

/-! ## Types -/

inductive PublicTypeKind
  | void | bool | integer | float | typeParameter | nominal | reference | rawPointer | string
  | array | cFunctionPointer | callbackAdapter | callbackRegistration | callbackCompletion
  | callbackWake | foreignCompletion | foreignWake | function | never | tuple | slice
  | typeProjection | foreignOperationState | char | count
  deriving DecidableEq

/-- A type: `detail` stands for the canonical bytes of all that is not an argument. -/
inductive PublicType
  | mk (kind : PublicTypeKind) (detail : Text) (arguments : List PublicType)

namespace PublicType

mutual

/-- Equality of the canonical bytes. -/
def decEq : (a b : PublicType) → Decidable (a = b)
  | mk kind detail arguments, mk kind' detail' arguments' =>
    if h : kind = kind' ∧ detail = detail' then
      match decEqList arguments arguments' with
      | isTrue hsame => isTrue (by rw [h.1, h.2, hsame])
      | isFalse hdifferent => isFalse fun heq => hdifferent (mk.inj heq).2.2
    else isFalse fun heq => h ⟨(mk.inj heq).1, (mk.inj heq).2.1⟩

def decEqList : (as bs : List PublicType) → Decidable (as = bs)
  | [], [] => isTrue rfl
  | [], _ :: _ => isFalse (List.cons_ne_nil _ _ ∘ Eq.symm)
  | _ :: _, [] => isFalse (List.cons_ne_nil _ _)
  | a :: as, b :: bs =>
    match decEq a b, decEqList as bs with
    | isTrue hfirst, isTrue hrest => isTrue (by rw [hfirst, hrest])
    | isFalse hfirst, _ => isFalse fun heq => hfirst (List.cons.inj heq).1
    | _, isFalse hrest => isFalse fun heq => hrest (List.cons.inj heq).2

end

instance : DecidableEq PublicType := decEq

def kind : PublicType → PublicTypeKind
  | mk kind _ _ => kind

def arguments : PublicType → List PublicType
  | mk _ _ arguments => arguments

end PublicType

structure PublicNominalFieldArtifact where
  name : Text
  type : PublicType

structure PublicEnumVariantArtifact where
  name : Text
  fields : List PublicNominalFieldArtifact

/-- `NominalTypeSpecificArtifact`, as far as the summary reads it. -/
structure NominalTypeSpecificArtifact where
  fields : List PublicNominalFieldArtifact
  variants : List PublicEnumVariantArtifact

structure TypeConcurrencyFacts where
  transferable : Bool := false
  shareable : Bool := false
  deriving DecidableEq

/-- The conjunction of the facts of the children. -/
def TypeConcurrencyFacts.and (facts child : TypeConcurrencyFacts) : TypeConcurrencyFacts :=
  ⟨facts.transferable && child.transferable, facts.shareable && child.shareable⟩

/-- `SpecificResolver` and `ForeignResolver`; a resolver that is not there resolves nothing. -/
structure Resolvers where
  resolveSpecific : PublicType → Option NominalTypeSpecificArtifact
  resolveForeign : PublicType → Option TypeConcurrencyFacts

/-! ## The recursion -/

/-- `TypeConcurrencySummary`, with the error of the query. -/
structure Summary where
  workItems : ℕ := 0
  completed : List (PublicType × TypeConcurrencyFacts) := []
  active : List PublicType := []
  error : String := ""
  deriving DecidableEq

def budgetError : String := "Send/Sync capability worklist exceeded its bound"

namespace Resolvers

variable (resolvers : Resolvers)

/-- The `switch` over the kinds: facts that are known at once, or the types that are looked
through. -/
def inspect (type : PublicType) : TypeConcurrencyFacts ⊕ List PublicType :=
  match type.kind with
  | .bool | .char | .integer | .float => .inl ⟨true, true⟩
  | .array | .tuple => .inr type.arguments
  | .nominal =>
    match resolvers.resolveForeign type with
    | some facts => .inl facts
    | none =>
      match resolvers.resolveSpecific type with
      | none => .inl {}
      | some specific =>
        .inr (specific.fields.map PublicNominalFieldArtifact.type ++
          specific.variants.flatMap fun variant =>
            variant.fields.map PublicNominalFieldArtifact.type)
  | .void | .never | .string | .reference | .slice | .rawPointer | .function | .cFunctionPointer
  | .typeParameter | .typeProjection | .callbackAdapter | .callbackRegistration
  | .callbackCompletion | .callbackWake | .foreignCompletion | .foreignWake
  | .foreignOperationState | .count => .inl {}

/-- Facts are remembered, unless there has been an error. -/
def finish (type : PublicType) (facts : TypeConcurrencyFacts) (summary : Summary) : Summary :=
  { summary with
    active := summary.active.erase type
    completed := if summary.error = "" then
        match summary.completed.lookup type with
        | some _ => summary.completed
        | none => (type, facts) :: summary.completed
      else summary.completed }

/-- `summarizeImpl`, with a budget unless it is unlimited. -/
def summarizeImpl (budget : Option ℕ) :
    ℕ → PublicType → Summary → Option (TypeConcurrencyFacts × Summary)
  | 0, _, _ => none
  | fuel + 1, type, summary =>
    let summary := { summary with workItems := summary.workItems + 1 }
    if budget.any fun maxWorkItems => decide (maxWorkItems < summary.workItems) then
      some ({}, { summary with error := budgetError })
    else
      match summary.completed.lookup type with
      | some facts => some (facts, summary)
      | none =>
        if type ∈ summary.active then some ({}, summary)
        else
          let summary := { summary with active := type :: summary.active }
          match resolvers.inspect type with
          | .inl facts => some (facts, finish type facts summary)
          | .inr children => do
            let (facts, summary) ← children.foldlM
              (fun (facts, summary) child => do
                let (childFacts, summary) ← summarizeImpl budget fuel child summary
                some (facts.and childFacts, summary))
              ((⟨true, true⟩ : TypeConcurrencyFacts), summary)
            some (facts, finish type facts summary)

/-- `summarize`. -/
def summarize (budget : Option ℕ) (fuel : ℕ) (type : PublicType) (summary : Summary) :
    Option (TypeConcurrencyFacts × Summary) :=
  resolvers.summarizeImpl budget fuel type
    { summary with error := "", workItems := 0, active := [] }

/-- Queries one after the other. -/
def summarizeAll (budget : Option ℕ) (fuel : ℕ) (queries : List PublicType) (summary : Summary) :
    Option Summary :=
  queries.foldlM (fun summary type => (resolvers.summarize budget fuel type summary).map Prod.snd)
    summary

end Resolvers

end TypeConcurrency

end Chtholly
