import Chtholly.PlaceState.Place
import Mathlib.Data.List.Map2

set_option autoImplicit false

/-!
# Place states

What the place-state analysis knows at a program point (`PlaceStateAnalyzerSetup.inc`,
`PlaceStateAnalyzerPlace.inc`, `PlaceStateAnalyzerCleanup.inc`): for every leaf of a local whether
it may be initialised and whether it may be moved, for every union and enum in it the members and
variants it may hold. The facts about a local are created when the local is first mentioned.

## Main definitions

* `Chtholly.RootState`, `Chtholly.StateMap` — the facts about one local and about all of them.
* `Chtholly.collectLeaves` — the leaves, unions and enums of a type.
* `Chtholly.RootState.stateFor` — the state of a place.
* `Chtholly.StateMap.merge`, `Chtholly.StateMap.same` — joins and the test for a fixed point.
-/

namespace Chtholly

/-- The two bits of `possibilities`. -/
structure Possibilities where
  initialized : Bool
  moved : Bool
  deriving DecidableEq, Repr

/-- `InitializedBit`. -/
def initializedBit : Possibilities := ⟨true, false⟩

/-- `MovedBit`. -/
def movedBit : Possibilities := ⟨false, true⟩

/-- `InitializedBit | MovedBit`. -/
def eitherBit : Possibilities := ⟨true, true⟩

/-- The bitwise or of two sets of possibilities. -/
def Possibilities.union (p q : Possibilities) : Possibilities :=
  ⟨p.initialized || q.initialized, p.moved || q.moved⟩

/-- `LeafState`. -/
structure LeafState where
  path : PlacePath
  type : TypeId
  possibilities : Possibilities := movedBit
  deriving DecidableEq, Repr

/-- `UnionState`: the members that may be active. -/
structure UnionState where
  path : PlacePath
  type : TypeId
  possibleMembers : List Bool
  unknown : Bool := false
  deriving DecidableEq, Repr

/-- `EnumState`: the variants that may be held. -/
structure EnumState where
  path : PlacePath
  type : TypeId
  possibleVariants : List Bool
  unknown : Bool := false
  deriving DecidableEq, Repr

/-- The leaves, unions and enums found in a type. -/
structure Tracked where
  leaves : List LeafState := []
  unions : List UnionState := []
  enums : List EnumState := []
  deriving DecidableEq, Repr

/-- What was found first stays first. -/
def Tracked.append (s t : Tracked) : Tracked :=
  ⟨s.leaves ++ t.leaves, s.unions ++ t.unions, s.enums ++ t.enums⟩

/-- What is found in the parts of a type, in order. -/
def Tracked.join (l : List Tracked) : Tracked := l.foldr Tracked.append {}

/-- What is found in the fields of the given types. -/
def Tracked.ofFields (path : PlacePath) (types : List TypeId)
    (collect : TypeId → PlacePath → Tracked) : Tracked :=
  .join (types.mapIdx fun k t => collect t (path ++ [.field k]))

/-- What is found in the payloads of an enum. -/
def Tracked.ofVariants (path : PlacePath) (variants : List (List TypeId))
    (collect : TypeId → PlacePath → Tracked) : Tracked :=
  .join (variants.mapIdx fun v fields =>
    .join (fields.mapIdx fun k t => collect t (path ++ [.enumPayload k v])))

/-- What is found in the elements of an array. -/
def Tracked.ofElements (path : PlacePath) (element : TypeId) (count : Nat)
    (collect : TypeId → PlacePath → Tracked) : Tracked :=
  .join ((List.range count).map fun k => collect element (path ++ [.element k]))

/-- The elements of an array of this length are tracked one by one. -/
def tracksElements (count : Nat) : Bool := decide (count ≠ 0 ∧ count ≤ maxTrackedElements)

/-- `collectNestedUnions`, with the depth counted down. -/
def collectNestedUnions (sem : SemIR) : Nat → TypeId → PlacePath → Tracked
  | 0, _, _ => {}
  | n + 1, t, path =>
    match sem.type t with
    | .nominal .enum _ variants =>
      Tracked.append { enums := [⟨path, t, variants.map fun _ => false, true⟩] }
        (.ofVariants path variants fun t p => collectNestedUnions sem n t p)
    | .nominal kind fields _ =>
      Tracked.append
        (if kind = .union then { unions := [⟨path, t, fields.map fun _ => false, false⟩] } else {})
        (.ofFields path (fields.map (·.type)) fun t p => collectNestedUnions sem n t p)
    | .array element count =>
      if tracksElements count then
        .ofElements path element count fun t p => collectNestedUnions sem n t p
      else {}
    | .tuple elements => .ofFields path elements fun t p => collectNestedUnions sem n t p
    | _ => {}

/-- A type tracked as a whole. -/
def Tracked.leaf (path : PlacePath) (t : TypeId) : Tracked := { leaves := [⟨path, t, movedBit⟩] }

/-- `collectLeaves`, with the depth counted down. The tag of an enum is a leaf of its own, and the
elements that a slice views count as initialised from the start. -/
def collectLeaves (sem : SemIR) : Nat → TypeId → PlacePath → Tracked
  | 0, t, path => .leaf path t
  | n + 1, t, path =>
    match sem.type t with
    | .nominal kind fields variants =>
      if (sem.typeRepresentation t).destroy ≠ .trivial then .leaf path t
      else match kind with
        | .union =>
          Tracked.append { unions := [⟨path, t, fields.map fun _ => false, false⟩] }
            (Tracked.append
              (.ofFields path (fields.map (·.type)) fun t p => collectNestedUnions sem n t p)
              (.leaf path t))
        | .enum =>
          Tracked.append
            { enums := [⟨path, t, variants.map fun _ => false, true⟩]
              leaves := [⟨path, sem.voidType, movedBit⟩] }
            (.ofVariants path variants fun t p => collectLeaves sem n t p)
        | _ =>
          if fields.isEmpty then .leaf path t
          else .join (fields.mapIdx fun k f =>
            if f.stableAddress then collectLeaves sem n f.type (path ++ [.field k])
            else .leaf (path ++ [.field k]) f.type)
    | .array element count =>
      if tracksElements count then
        .ofElements path element count fun t p => collectLeaves sem n t p
      else .leaf path t
    | .tuple elements => .ofFields path elements fun t p => collectLeaves sem n t p
    | .slice element => { leaves := [⟨path ++ [.anyElement], element, initializedBit⟩] }
    | _ => .leaf path t

/-- Types are followed through 128 levels. -/
def maxTypeDepth : Nat := 129

/-- `RootState`: the facts about one local. -/
structure RootState where
  leaves : List LeafState
  unions : List UnionState
  enums : List EnumState
  everInitialized : Bool := false
  uninitializedDeclaration : Option InstId := none
  deriving DecidableEq, Repr

/-- The facts about a local when it is first mentioned. -/
def RootState.fresh (sem : SemIR) (l : LocalId) : RootState :=
  let found := collectLeaves sem maxTypeDepth (sem.loc l).type []
  { leaves := found.leaves, unions := found.unions, enums := found.enums }

/-! ## The state of a place -/

/-- `PlaceStateKind`. -/
inductive PlaceStateKind where
  | initialized | moved | maybeMoved | partiallyMoved
  deriving DecidableEq, Repr

/-- The leaf holds a part of the place or the place is a part of the leaf. -/
def LeafState.overlaps (path : PlacePath) (leaf : LeafState) : Bool :=
  isPrefix path leaf.path || isPrefix leaf.path path

/-- The leaf changes when the place does: it is a part of the place, or a union around it. -/
def LeafState.coveredBy (sem : SemIR) (path : PlacePath) (leaf : LeafState) : Bool :=
  isPrefix path leaf.path || sem.isUnion leaf.type && isPrefix leaf.path path

/-- The state of a place all of whose leaves have the given possibilities. -/
def PlaceStateKind.ofPossibilities (p : Possibilities) : PlaceStateKind :=
  if p = eitherBit then .maybeMoved else if p = initializedBit then .initialized else .moved

/-- The state of a place whose leaves have the given possibilities. -/
def PlaceStateKind.ofLeaves : List Possibilities → PlaceStateKind
  | [] => .moved
  | p :: l => if l.all fun q => decide (q = p) then .ofPossibilities p else .partiallyMoved

/-- `stateFor`, for a place that is not a forwarded capability. -/
def RootState.stateFor (r : RootState) (path : PlacePath) : PlaceStateKind :=
  .ofLeaves ((r.leaves.filter (LeafState.overlaps path)).map (·.possibilities))

/-- `hasTrackedLeaf`. -/
def RootState.hasTrackedLeaf (sem : SemIR) (r : RootState) (path : PlacePath) : Bool :=
  r.leaves.any (LeafState.coveredBy sem path)

/-- `hasObservableLeaf`. -/
def RootState.hasObservableLeaf (r : RootState) (path : PlacePath) : Bool :=
  r.leaves.any (LeafState.overlaps path)

/-- The leaves that change with a place get new possibilities. -/
def RootState.setLeaves (sem : SemIR) (path : PlacePath)
    (f : Possibilities → Possibilities) (r : RootState) : RootState :=
  { r with leaves := r.leaves.map fun leaf =>
      if leaf.coveredBy sem path then { leaf with possibilities := f leaf.possibilities }
      else leaf }

/-- The union overlaps a place. -/
def UnionState.overlaps (path : PlacePath) (u : UnionState) : Bool :=
  isPrefix path u.path || isPrefix u.path path

/-- No member is marked, and the active one is or is not known. -/
def UnionState.cleared (unknown : Bool) (u : UnionState) : UnionState :=
  { u with possibleMembers := u.possibleMembers.map fun _ => false, unknown := unknown }

/-- One element of a list of marks. -/
def onlyMark (l : List Bool) (k : Nat) : List Bool := l.mapIdx fun j _ => decide (j = k)

/-- The unions that overlap a place get no member. -/
def RootState.clearUnions (path : PlacePath) (unknown : Bool) (r : RootState) : RootState :=
  { r with unions := r.unions.map fun u => if u.overlaps path then u.cleared unknown else u }

/-! ## Accesses to union members and enum payloads -/

/-- `PlaceStateDiagnosticKind`, the kinds that the modelled operations emit. -/
inductive PlaceStateDiagnosticKind where
  | invalidMoveOperand | invalidCopyOperand | invalidAssignmentTarget | assignmentToImmutablePlace
  | copyUnavailable | moveUnavailable | useAfterMove | useOfMaybeMovedPlace
  | useOfPartiallyMovedPlace | inactiveUnionMember | unknownActiveUnionMember
  | uninitializedStorage
  deriving DecidableEq, Repr

/-- The number of marks. -/
def countMarks (l : List Bool) : Nat := l.count true

/-- `checkUnionAccess` for one union around the place. -/
def UnionState.check (place : ResolvedPlace) (u : UnionState) : Option PlaceStateDiagnosticKind :=
  if isPrefix u.path place.path then
    match place.path[u.path.length]? with
    | some (.field member) =>
      if member < u.possibleMembers.length then
        if u.unknown then some .unknownActiveUnionMember
        else if countMarks u.possibleMembers ≠ 1 ∨ u.possibleMembers[member]? ≠ some true then
          some .inactiveUnionMember
        else none
      else none
    | _ => none
  else none

/-- `checkUnionAccess`: the first union that the access is not known to be right for. -/
def checkUnionAccess (unions : List UnionState) (place : ResolvedPlace) :
    Option PlaceStateDiagnosticKind :=
  if place.unsafeUnionAccess then none else unions.findSome? (UnionState.check place)

/-- `checkEnumAccess` for one enum around the place. -/
def EnumState.check (place : ResolvedPlace) (e : EnumState) : Option PlaceStateDiagnosticKind :=
  if isPrefix e.path place.path then
    match place.path[e.path.length]? with
    | some (.enumPayload _ variant) =>
      if e.unknown ∨ countMarks e.possibleVariants ≠ 1 ∨
          e.possibleVariants[variant]? ≠ some true then
        some .invalidMoveOperand
      else none
    | _ => none
  else none

/-- `checkEnumAccess`. -/
def checkEnumAccess (enums : List EnumState) (place : ResolvedPlace) :
    Option PlaceStateDiagnosticKind :=
  enums.findSome? (EnumState.check place)

/-! ## The facts about all locals -/

/-- `StateMap`. -/
abbrev StateMap := List (LocalId × RootState)

namespace StateMap

/-- The facts about a local, those of a new one if it was not mentioned. -/
def root (sem : SemIR) (S : StateMap) (l : LocalId) : RootState :=
  (S.lookup l).getD (RootState.fresh sem l)

/-- The local has been mentioned. -/
def has (S : StateMap) (l : LocalId) : Bool := (S.lookup l).isSome

/-- `ensureRoot`. -/
def ensureRoot (sem : SemIR) (l : LocalId) (S : StateMap) : StateMap :=
  if S.has l then S else (l, RootState.fresh sem l) :: S

/-- The facts about one local change. -/
def update (l : LocalId) (f : RootState → RootState) (S : StateMap) : StateMap :=
  S.map fun e => if e.1 = l then (e.1, f e.2) else e

/-- The facts that `ensureRoot` gives a reference to change. -/
def modifyRoot (sem : SemIR) (l : LocalId) (f : RootState → RootState) (S : StateMap) : StateMap :=
  (S.ensureRoot sem l).update l f

/-- `eraseLocals`. -/
def eraseLocals (locals : List LocalId) (S : StateMap) : StateMap :=
  S.filter fun e => decide (e.1 ∉ locals)

end StateMap

/-- The join of two lists of marks. -/
def mergeMarks (l m : List Bool) : List Bool :=
  List.map₂Left (fun b c => b || c.getD false) l m

/-- The join of the facts about one leaf. -/
def LeafState.merge (a : LeafState) (b : Option LeafState) : LeafState :=
  match b with
  | some b => { a with possibilities := a.possibilities.union b.possibilities }
  | none => a

/-- The join of the facts about one union. -/
def UnionState.merge (a : UnionState) (b : Option UnionState) : UnionState :=
  match b with
  | some b =>
    { a with
      possibleMembers := mergeMarks a.possibleMembers b.possibleMembers
      unknown := a.unknown || b.unknown }
  | none => a

/-- The join of the facts about one enum. -/
def EnumState.merge (a : EnumState) (b : Option EnumState) : EnumState :=
  match b with
  | some b =>
    { a with
      possibleVariants := mergeMarks a.possibleVariants b.possibleVariants
      unknown := a.unknown || b.unknown }
  | none => a

/-- The join of the facts about one local. Both lists of leaves have the same paths, since both come
from the type of the local, and the source asserts that their lengths agree. -/
def RootState.merge (r s : RootState) : RootState :=
  { r with
    leaves := List.map₂Left LeafState.merge r.leaves s.leaves
    unions := List.map₂Left UnionState.merge r.unions s.unions
    enums := List.map₂Left EnumState.merge r.enums s.enums
    everInitialized := r.everInitialized && s.everInitialized }

/-- `mergeStates`: only the locals of the first map stay, and those that the second one does not
have stay as they are. -/
def StateMap.merge (before after : StateMap) : StateMap :=
  before.map fun e =>
    match after.lookup e.1 with
    | some s => (e.1, e.2.merge s)
    | none => e

/-- `mergeOptionalState`. -/
def StateMap.mergeOptional (target : Option StateMap) (source : StateMap) : StateMap :=
  match target with
  | none => source
  | some current => current.merge source

/-- The comparison that `sameStates` makes for one local. -/
def RootState.same (r s : RootState) : Bool :=
  decide (r.leaves.map (·.possibilities) = s.leaves.map (·.possibilities)) &&
    r.everInitialized == s.everInitialized &&
    decide (r.unions.map (fun u => (u.unknown, u.possibleMembers)) =
      s.unions.map (fun u => (u.unknown, u.possibleMembers))) &&
    decide (r.enums.map (fun e => (e.unknown, e.possibleVariants)) =
      s.enums.map (fun e => (e.unknown, e.possibleVariants)))

/-- `sameStates`. -/
def StateMap.same (S T : StateMap) : Bool :=
  decide (S.length = T.length) && S.all fun e =>
    match T.lookup e.1 with
    | some s => e.2.same s
    | none => false

/-! ## The facts about a value that is stored -/

/-- Enum facts copied from a part of one local to a part of another. -/
def copyEnumStates (source : List EnumState) (sourcePath targetPath : PlacePath)
    (target : RootState) : RootState :=
  source.foldl (fun r e =>
    if isPrefix sourcePath e.path then
      { r with enums := r.enums.map fun d =>
          if d.path = targetPath ++ e.path.drop sourcePath.length then
            { d with possibleVariants := e.possibleVariants, unknown := e.unknown }
          else d }
    else r) target

/-- Union facts copied from a part of one local to a part of another. -/
def copyUnionStates (source : List UnionState) (sourcePath targetPath : PlacePath)
    (target : RootState) : RootState :=
  source.foldl (fun r u =>
    if isPrefix sourcePath u.path then
      { r with unions := r.unions.map fun d =>
          if d.path = targetPath ++ u.path.drop sourcePath.length then
            { d with possibleMembers := u.possibleMembers, unknown := u.unknown }
          else d }
    else r) target

/-- The enum at a path holds the variant. -/
def RootState.setVariant (path : PlacePath) (variant : Int) (r : RootState) : RootState :=
  { r with enums := r.enums.map fun e =>
      if e.path = path ∧ 0 ≤ variant ∧ variant < e.possibleVariants.length then
        { e with possibleVariants := onlyMark e.possibleVariants variant.toNat, unknown := false }
      else e }

/-- The union at a path has the member. -/
def RootState.setMember (path : PlacePath) (member : Int) (r : RootState) : RootState :=
  { r with unions := r.unions.map fun u =>
      if u.path = path ∧ 0 ≤ member ∧ member < u.possibleMembers.length then
        { u with possibleMembers := onlyMark u.possibleMembers member.toNat, unknown := false }
      else u }

/-- The root has a union at the path with this member. -/
def RootState.hasMember (path : PlacePath) (member : Int) (r : RootState) : Bool :=
  r.unions.any fun u => decide (u.path = path ∧ 0 ≤ member ∧ member < u.possibleMembers.length)

/-- `setEnumStatesFromValue`: what storing a value at a path of a local says of its enums. -/
def setEnumStatesFromValue (sem : SemIR) (target : LocalId) (path : PlacePath) :
    Value → StateMap → StateMap
  | .move _ v, S | .copy _ v, S => setEnumStatesFromValue sem target path v S
  | .enumInit _ _ variant _, S => S.update target (RootState.setVariant path variant)
  | v, S =>
    match resolvePlace sem v with
    | none => S
    | some p =>
      let S := S.ensureRoot sem p.root
      S.update target (copyEnumStates (S.root sem p.root).enums p.path path)

mutual

/-- `setUnionStatesFromValue`: what storing a value at a path of a local says of its unions. -/
def setUnionStatesFromValue (sem : SemIR) (target : LocalId) :
    Value → PlacePath → StateMap → StateMap
  | .move _ v, path, S | .copy _ v, path, S => setUnionStatesFromValue sem target v path S
  | .unionInit _ v member _, path, S =>
    if (S.root sem target).hasMember path member then
      setUnionStatesFromValue sem target v (path ++ [.field member.toNat])
        (S.update target (RootState.setMember path member))
    else S
  | .aggregateInit _ fields _, path, S =>
    setUnionStatesFromParts sem target PlaceProjection.field fields 0 path S
  | .arrayLiteral _ elements _, path, S =>
    setUnionStatesFromParts sem target PlaceProjection.element elements 0 path S
  | v, path, S =>
    match resolvePlace sem v with
    | none => S
    | some p =>
      let S := S.ensureRoot sem p.root
      S.update target (copyUnionStates (S.root sem p.root).unions p.path path)

/-- The parts of an aggregate or of an array, from the given position on. -/
def setUnionStatesFromParts (sem : SemIR) (target : LocalId) (step : Nat → PlaceProjection) :
    List Value → Nat → PlacePath → StateMap → StateMap
  | [], _, _, S => S
  | v :: l, k, path, S =>
    setUnionStatesFromParts sem target step l (k + 1) path
      (setUnionStatesFromValue sem target v (path ++ [step k]) S)

end

end Chtholly
