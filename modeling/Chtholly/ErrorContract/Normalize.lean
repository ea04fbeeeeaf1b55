import Chtholly.Intervals.Merge
import Mathlib.Data.Prod.Lex

/-!
# Error predicates

The contract of a foreign callable says which results are errors: a value, all but a value, the
values below one, or a set of values and ranges, or all but these.  The builder turns the predicate
into intervals of words of the width of the result.  The words are compared by a key, which is the
word with its sign bit flipped when the type is signed.

## Main definitions

* `ErrorContract.ErrorContractSyntax` — a contract as it is written.
* `ErrorContract.orderKey`, `ErrorContract.valueBits` — the key, and the word of a value.
* `ErrorContract.normalizeErrorPredicate` — the intervals of a contract.
-/

set_option autoImplicit false

namespace Chtholly

namespace ErrorContract

/-! ## Contracts -/

inductive ErrorPredicateKind
  | none | equal | notEqual | less | null | invalid | inSet | notInSet
  deriving DecidableEq

/-- A literal, or the name of a constant. -/
structure ErrorValueSyntax where
  name : String := ""
  magnitude : BitVec 64 := 0
  negative : Bool := false
  deriving DecidableEq

structure ErrorRangeSyntax where
  lower : ErrorValueSyntax
  upper : Option ErrorValueSyntax := none
  deriving DecidableEq

inductive ErrorDomainKind
  | none | code | errno | win32
  deriving DecidableEq

structure ErrorContractSyntax where
  domain : ErrorDomainKind
  predicate : ErrorPredicateKind
  ranges : List ErrorRangeSyntax := []

structure PredicateConstant where
  magnitude : BitVec 64
  negative : Bool

inductive InvalidState
  | null | integer | pointerBitPattern | other
  deriving DecidableEq

/-- The kind of the physical type of the result. -/
inductive ResultKind
  | integer (width : ℕ) (signed : Bool)
  | rawPointer
  | other
  deriving DecidableEq

/-- What the builder knows of the callable and of the target. -/
structure Context where
  result : ResultKind
  pointerWidth : ℕ
  targetIsWindows : Bool
  /-- The invalid state and the invalid integer of the result, when its type is nominal. -/
  nominal : Option (InvalidState × BitVec 64)
  predicateConstants : String → Option PredicateConstant

namespace Context

variable (context : Context)

def integerResult : Bool :=
  match context.result with
  | .integer _ _ => true
  | _ => false

def pointerResult : Bool := decide (context.result = .rawPointer)

def width : ℕ :=
  match context.result with
  | .integer width _ => width
  | _ => context.pointerWidth

def signed : Bool :=
  match context.result with
  | .integer _ signed => signed
  | _ => false

end Context

/-! ## Words -/

section

variable (width : ℕ) (signed : Bool)

def mask : BitVec 64 := if width = 64 then BitVec.allOnes 64 else (1 : BitVec 64) <<< width - 1

def signBit : BitVec 64 := if signed then (1 : BitVec 64) <<< (width - 1) else 0

def orderKey (bits : BitVec 64) : BitVec 64 := (bits &&& mask width) ^^^ signBit width signed

/-- A name stands for its constant. -/
def resolveValue (constants : String → Option PredicateConstant) (written : ErrorValueSyntax) :
    Option PredicateConstant :=
  if written.name ≠ "" then constants written.name
  else some { magnitude := written.magnitude, negative := written.negative }

/-- The word of a value, if there is one. -/
def valueBits (constants : String → Option PredicateConstant) (written : ErrorValueSyntax) :
    Option (BitVec 64) :=
  match resolveValue constants written with
  | none => none
  | some value =>
    if value.negative then
      if signed = false then none
      else if (1 : BitVec 64) <<< (width - 1) < value.magnitude then none
      else some ((0 - value.magnitude) &&& mask width)
    else
      let limit := if signed then signBit width signed - 1 else mask width
      if limit < value.magnitude then none else some (value.magnitude &&& mask width)

/-! ## Intervals -/

/-- The words of a range, when they are in order. -/
def rangeBits (constants : String → Option PredicateConstant) (range : ErrorRangeSyntax) :
    Option (Intervals.Interval (BitVec 64)) :=
  match valueBits width signed constants range.lower,
      (match range.upper with
        | some upper => valueBits width signed constants upper
        | none => valueBits width signed constants range.lower) with
  | some lower, some upper =>
    if orderKey width signed upper < orderKey width signed lower then none
    else some { lower := lower, upper := upper }
  | _, _ => none

/-- The interval below a word. -/
def intervalBelow (boundary : BitVec 64) : Option (Intervals.Interval (BitVec 64)) :=
  let key := orderKey width signed boundary
  if key = 0 then none
  else some {
    lower := signBit width signed
    upper := ((key - 1) ^^^ signBit width signed) &&& mask width }

/-- One step of the loop that merges. -/
def mergeStep (merged : List (Intervals.Interval (BitVec 64)))
    (range : Intervals.Interval (BitVec 64)) :
    List (Intervals.Interval (BitVec 64)) :=
  match merged.getLast? with
  | none => merged ++ [range]
  | some last =>
    let currentUpper := orderKey width signed last.upper
    let nextLower := orderKey width signed range.lower
    if nextLower ≤ currentUpper ∨ (currentUpper ≠ mask width ∧ nextLower = currentUpper + 1) then
      if currentUpper < orderKey width signed range.upper then
        merged.dropLast ++ [{ last with upper := range.upper }]
      else merged
    else merged ++ [range]

/-- The order of the intervals before they are merged. -/
def precedes (lhs rhs : Intervals.Interval (BitVec 64)) : Bool :=
  decide (orderKey width signed lhs.lower < orderKey width signed rhs.lower ∨
    (orderKey width signed lhs.lower = orderKey width signed rhs.lower ∧
      orderKey width signed lhs.upper ≤ orderKey width signed rhs.upper))

def mergeIntervals (intervals : List (Intervals.Interval (BitVec 64))) :
    List (Intervals.Interval (BitVec 64)) :=
  (intervals.mergeSort (precedes width signed)).foldl (mergeStep width signed) []

end

inductive ErrorPredicate
  | integerSet | null | invalidSentinel
  deriving DecidableEq

structure NormalizedError where
  predicate : ErrorPredicate
  intervals : List (Intervals.Interval (BitVec 64))
  width : ℕ
  signed : Bool
  inverted : Bool

/-- A predicate on the integers. -/
def integerSet (context : Context) (contract : ErrorContractSyntax) :
    Option (List (Intervals.Interval (BitVec 64))) :=
  if context.integerResult = false ∨ contract.ranges = [] then none
  else
    match contract.ranges.mapM (rangeBits context.width context.signed context.predicateConstants)
    with
    | none => none
    | some intervals =>
      if contract.predicate = .less then
        match intervals with
        | [] => some []
        | first :: rest =>
          (intervalBelow context.width context.signed first.lower).map (· :: rest)
      else some intervals

/-- The invalid state of a nominal type. -/
def invalidSentinel (context : Context) :
    Option (ErrorPredicate × List (Intervals.Interval (BitVec 64))) :=
  match context.nominal with
  | none => none
  | some (.null, _) => some (.null, [])
  | some (.other, _) => none
  | some (_, invalidInteger) =>
    let negative := invalidInteger.slt 0
    let bits :=
      if context.pointerResult then some (invalidInteger &&& mask context.width)
      else valueBits context.width context.signed context.predicateConstants
        { magnitude := if negative then 0 - invalidInteger else invalidInteger
          negative := negative }
    bits.map fun bits => (.invalidSentinel, [{ lower := bits, upper := bits }])

/-- The predicate of a contract with its intervals, when it is valid. -/
def normalizeErrorPredicate (context : Context) (contract : ErrorContractSyntax) :
    Option NormalizedError :=
  let inverted := decide (contract.predicate = .notEqual ∨ contract.predicate = .notInSet)
  let found : Option (ErrorPredicate × List (Intervals.Interval (BitVec 64)) × Bool) :=
    match contract.predicate with
    | .null => if context.pointerResult then some (.null, [], false) else none
    | .invalid => (invalidSentinel context).map fun found => (found.1, found.2, false)
    | _ => (integerSet context contract).map fun intervals => (.integerSet, intervals, inverted)
  found.map fun found => {
    predicate := found.1
    intervals := mergeIntervals context.width context.signed found.2.1
    width := context.width
    signed := context.signed
    inverted := found.2.2 }

/-- A valid predicate has to go with the domain and the target. -/
def validErrorContract (context : Context) (contract : ErrorContractSyntax) : Bool :=
  match normalizeErrorPredicate context contract with
  | none => false
  | some normalized =>
    let pointerPredicate := normalized.predicate = .null ∨
      (normalized.predicate = .invalidSentinel ∧ context.pointerResult)
    match contract.domain with
    | .none => false
    | .code => context.integerResult && !decide pointerPredicate
    | .errno => context.integerResult || decide pointerPredicate
    | .win32 => context.targetIsWindows && (context.integerResult || decide pointerPredicate)

end ErrorContract

end Chtholly
