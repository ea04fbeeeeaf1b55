import Chtholly.Layout.Natural
import Chtholly.Scalar.Integers

/-!
# The layout query

`querySemanticTypeLayout` is a layout engine of its own over the semantic types; every sum is
checked against the largest `uint64_t`.

A concrete type is given with the types that are stored in it.  What a raw pointer or a slice points
to is not stored in it, and a nominal type that is stored in itself, which the query rejects, has no
such tree.  The structs are complete ones whose object representation is their own.

## Main definitions

* `Layout.SemType`, `Layout.SemType.Part` — the types, and what is stored in them.
* `Layout.TargetLayoutConfig` — the target.
* `Layout.querySemanticTypeLayout` — the query.

## Main results

* `Layout.exists_of_tuple`, `Layout.exists_of_aggregate` — what the loops over elements and fields
  compute when no sum overflows.
* `Layout.SemType.Part.exists_layout` — a type with a layout has parts with layouts.
-/

set_option autoImplicit false

namespace Chtholly

namespace Layout

open Scalar (IntegerType)

/-- The widths of `float` types. -/
structure FloatType where
  width : ℕ
  valid : width = 32 ∨ width = 64

/-- A concrete type; `cUnion` is a tuple type with `abi_union`, which has at least one member. -/
inductive SemType
  | bool
  | char
  | integer (type : IntegerType)
  | float (type : FloatType)
  | string
  | rawPointer
  | array (element : SemType) (bound : ℕ)
  | slice
  | tuple (elements : List SemType)
  | cUnion (first : SemType) (rest : List SemType)
  | struct (fields : List SemType)

/-- The types that are stored in a type next to each other. -/
def SemType.children : SemType → List SemType
  | .array element _ => [element]
  | .tuple elements => elements
  | .cUnion first rest => first :: rest
  | .struct fields => fields
  | _ => []

variable {child type : SemType}

lemma SemType.sizeOf_lt_of_mem_children (h : child ∈ type.children) :
    sizeOf child < sizeOf type := by
  cases type with
  | array element bound =>
    obtain rfl := List.mem_singleton.1 h
    simp
    omega
  | tuple elements =>
    have hlt := List.sizeOf_lt_of_mem (show child ∈ elements from h)
    simp
    omega
  | cUnion first rest =>
    have hlt := List.sizeOf_lt_of_mem (show child ∈ first :: rest from h)
    simp at hlt ⊢
    omega
  | struct fields =>
    have hlt := List.sizeOf_lt_of_mem (show child ∈ fields from h)
    simp
    omega
  | _ => cases h

/-- Induction over what is stored in a type. -/
lemma SemType.induction {P : SemType → Prop}
    (h : ∀ type, (∀ child ∈ SemType.children type, P child) → P type) (type : SemType) : P type :=
  h type fun child hchild =>
    have := SemType.sizeOf_lt_of_mem_children hchild
    SemType.induction h child
termination_by sizeOf type

/-- The types that are stored in a type at any depth, and the type itself. -/
inductive SemType.Part : SemType → SemType → Prop
  | self (type : SemType) : SemType.Part type type
  | child {part child type : SemType} (hmem : child ∈ type.children)
      (h : SemType.Part part child) : SemType.Part part type

variable {part : SemType}

lemma SemType.Part.trans {other : SemType} (h : SemType.Part part other)
    (hother : SemType.Part other type) : SemType.Part part type := by
  induction hother with
  | self => exact h
  | child hmem _ ih => exact .child hmem ih

lemma SemType.Part.trans_child (h : SemType.Part part type) (hchild : child ∈ part.children) :
    SemType.Part child type :=
  SemType.Part.trans (.child hchild (.self child)) h

structure TargetLayoutConfig where
  normalizedTriple : String
  pointerWidth : ℕ
  abiEpoch : ℕ

def TargetLayoutConfig.verify (target : TargetLayoutConfig) : Except String Unit :=
  if target.normalizedTriple = "" ∨ (target.pointerWidth ≠ 32 ∧ target.pointerWidth ≠ 64) ∨
      target.abiEpoch = 0 then .error "target layout configuration is invalid"
  else .ok ()

def TargetLayoutConfig.pointer (target : TargetLayoutConfig) : ℕ := target.pointerWidth / 8

/-- `std::numeric_limits<std::uint64_t>::max()`. -/
def maxUInt64 : ℕ := 2 ^ 64 - 1

def checkedAlign (value alignment : ℕ) : Option ℕ :=
  if alignment = 0 ∨ alignment &&& (alignment - 1) ≠ 0 then none
  else
    let remainder := value % alignment
    let padding := if remainder = 0 then 0 else alignment - remainder
    if value > maxUInt64 - padding then none else some (value + padding)

/-- The body of the loop over the elements of a tuple. -/
def placeElement (cursor : Cursor) (child : TypeLayout) : Except String Cursor :=
  let alignment := max cursor.alignment child.alignment
  match checkedAlign cursor.position child.alignment with
  | none => .error "tuple layout overflows the target address space"
  | some offset =>
    if child.size > maxUInt64 - offset then
      .error "tuple layout overflows the target address space"
    else
      match checkedAlign (offset + child.size) alignment with
      | none => .error "tuple layout overflows the target address space"
      | some position => .ok { position, alignment }

/-- The case of `Tuple`. -/
def tuple (elements : List (Except String TypeLayout)) : Except String TypeLayout := do
  let cursor ← elements.foldlM (fun cursor element => element >>= placeElement cursor) .start
  match checkedAlign cursor.position cursor.alignment with
  | none => .error "tuple layout tail padding overflows the target address space"
  | some size => .ok { size, alignment := cursor.alignment }

/-- The body of the loop over the fields of a struct. -/
def placeField (cursor : Cursor) (child : TypeLayout) : Except String Cursor :=
  let alignment := max cursor.alignment child.alignment
  match checkedAlign cursor.position child.alignment with
  | none => .error "aggregate layout overflows the target address space"
  | some offset =>
    if child.size > maxUInt64 - offset then
      .error "aggregate layout overflows the target address space"
    else .ok { position := offset + child.size, alignment }

/-- `aggregate` on the fields of a struct. -/
def aggregate (fields : List (Except String TypeLayout)) : Except String TypeLayout := do
  let cursor ← fields.foldlM (fun cursor field => field >>= placeField cursor) .start
  match checkedAlign cursor.position cursor.alignment with
  | none => .error "aggregate tail padding overflows the target address space"
  | some size => .ok { size, alignment := cursor.alignment }

/-- The case of `Integer` and `Float`. -/
def scalar (width : ℕ) : Except String TypeLayout :=
  let bytes := width / 8
  if bytes = 0 ∨ bytes &&& (bytes - 1) ≠ 0 then .error "scalar type has no target object layout"
  else .ok { size := bytes, alignment := bytes }

mutual

/-- `Query::layout`.  The case of tuples does not ask whether the type is a union. -/
def layout (target : TargetLayoutConfig) : SemType → Except String TypeLayout
  | .bool => .ok { size := 1, alignment := 1 }
  | .char => .ok { size := 4, alignment := 4 }
  | .integer type => scalar type.width
  | .float type => scalar type.width
  | .string => .ok { size := target.pointer + 8, alignment := max target.pointer 8 }
  | .rawPointer => .ok { size := target.pointer, alignment := target.pointer }
  | .array element bound =>
    match layout target element with
    | .error error => .error error
    | .ok element =>
      if bound = 0 ∨ element.size > maxUInt64 / bound then
        .error "array layout is incomplete or overflows"
      else .ok { size := element.size * bound, alignment := element.alignment }
  | .slice => .ok { size := target.pointer + target.pointer, alignment := max target.pointer 8 }
  | .tuple elements => tuple (layouts target elements)
  | .cUnion first rest => tuple (layout target first :: layouts target rest)
  | .struct fields => aggregate (layouts target fields)

def layouts (target : TargetLayoutConfig) : List SemType → List (Except String TypeLayout)
  | [] => []
  | type :: types => layout target type :: layouts target types

end

def querySemanticTypeLayout (target : TargetLayoutConfig) (type : SemType) :
    Except String TypeLayout := do
  target.verify
  layout target type

/-! ## What the query computes -/

lemma layouts_eq_map (target : TargetLayoutConfig) (types : List SemType) :
    layouts target types = types.map (layout target) := by
  induction types with
  | nil => rfl
  | cons type types ih => rw [layouts, ih, List.map_cons]

variable {target : TargetLayoutConfig} {result : TypeLayout}

lemma querySemanticTypeLayout_eq_ok_iff :
    querySemanticTypeLayout target type = .ok result ↔
      target.verify = .ok () ∧ layout target type = .ok result := by
  rw [querySemanticTypeLayout]
  cases target.verify <;> simp [bind, Except.bind]

lemma pointer_eq (h : target.verify = .ok ()) :
    (target.pointerWidth = 32 ∧ target.pointer = 4) ∨
      (target.pointerWidth = 64 ∧ target.pointer = 8) := by
  rw [TargetLayoutConfig.verify] at h
  split at h
  · cases h
  · rw [TargetLayoutConfig.pointer]
    omega

/-- The padding makes the value a multiple of the alignment. -/
lemma checkedAlign_eq_some {value alignment result : ℕ}
    (h : checkedAlign value alignment = some result) :
    0 < alignment ∧ result = alignUp value alignment := by
  rw [checkedAlign] at h
  split at h
  · cases h
  case isFalse halignment =>
    have hpos : 0 < alignment := by omega
    dsimp only at h
    rw [Option.ite_none_left_eq_some, Option.some.injEq] at h
    exact ⟨hpos, h.2.symm.trans (alignUp_eq_add hpos).symm⟩

variable {cursor : Cursor}

lemma placeElement_eq_ok {result : Cursor} {child : TypeLayout}
    (h : placeElement cursor child = .ok result) : result = cursor.placePadded child := by
  rw [placeElement] at h
  split at h
  · cases h
  case h_2 offset hoffset =>
    obtain ⟨-, rfl⟩ := checkedAlign_eq_some hoffset
    split at h
    · cases h
    split at h
    · cases h
    case h_2 position hposition =>
      obtain ⟨-, rfl⟩ := checkedAlign_eq_some hposition
      cases h
      rfl

lemma placeField_eq_ok {result : Cursor} {child : TypeLayout}
    (h : placeField cursor child = .ok result) : result = cursor.place child := by
  rw [placeField] at h
  split at h
  · cases h
  case h_2 offset hoffset =>
    obtain ⟨-, rfl⟩ := checkedAlign_eq_some hoffset
    split at h
    · cases h
    · cases h
      rfl

/-- A loop over children that all have layouts. -/
lemma foldlM_place_eq_ok {place : Cursor → TypeLayout → Except String Cursor}
    {natural : Cursor → TypeLayout → Cursor}
    (hplace : ∀ {cursor child result}, place cursor child = .ok result →
      result = natural cursor child) {children : List (Except String TypeLayout)}
    {result : Cursor}
    (h : children.foldlM (fun cursor child => child >>= place cursor) cursor = .ok result) :
    ∃ sizes : List TypeLayout, children = sizes.map .ok ∧ result = sizes.foldl natural cursor := by
  induction children generalizing cursor with
  | nil =>
    cases h
    exact ⟨[], rfl, rfl⟩
  | cons child children ih =>
    rw [List.foldlM_cons] at h
    cases child with
    | error message => cases h
    | ok size =>
      cases hnext : place cursor size with
      | error message =>
        rw [show (Except.ok size >>= place cursor) = .error message from hnext] at h
        cases h
      | ok next =>
        rw [show (Except.ok size >>= place cursor) = .ok next from hnext] at h
        obtain ⟨sizes, rfl, rfl⟩ := ih h
        exact ⟨size :: sizes, rfl, by rw [hplace hnext, List.foldl_cons]⟩

/-- The elements of a tuple that has a layout. -/
lemma exists_of_tuple {elements : List (Except String TypeLayout)}
    (h : tuple elements = .ok result) :
    ∃ sizes : List TypeLayout, elements = sizes.map .ok ∧ result = paddedLayout sizes := by
  rw [tuple] at h
  cases hloop : elements.foldlM (fun cursor element => element >>= placeElement cursor) .start with
  | error message =>
    rw [hloop] at h
    cases h
  | ok cursor =>
    rw [hloop] at h
    obtain ⟨sizes, rfl, rfl⟩ := foldlM_place_eq_ok placeElement_eq_ok hloop
    refine ⟨sizes, rfl, ?_⟩
    simp only [bind, Except.bind] at h
    split at h
    · cases h
    case h_2 size hsize =>
      obtain ⟨-, rfl⟩ := checkedAlign_eq_some hsize
      cases h
      rfl

/-- The fields of a struct that has a layout. -/
lemma exists_of_aggregate {fields : List (Except String TypeLayout)}
    (h : aggregate fields = .ok result) :
    ∃ sizes : List TypeLayout, fields = sizes.map .ok ∧ result = structLayout sizes := by
  rw [aggregate] at h
  cases hloop : fields.foldlM (fun cursor field => field >>= placeField cursor) .start with
  | error message =>
    rw [hloop] at h
    cases h
  | ok cursor =>
    rw [hloop] at h
    obtain ⟨sizes, rfl, rfl⟩ := foldlM_place_eq_ok placeField_eq_ok hloop
    refine ⟨sizes, rfl, ?_⟩
    simp only [bind, Except.bind] at h
    split at h
    · cases h
    case h_2 size hsize =>
      obtain ⟨-, rfl⟩ := checkedAlign_eq_some hsize
      cases h
      rfl

/-- A member of a list of types whose layouts are all there. -/
lemma exists_layout_of_mem {types : List SemType} {sizes : List TypeLayout}
    (h : layouts target types = sizes.map .ok) (hmem : type ∈ types) :
    ∃ size, layout target type = .ok size := by
  have hlayout := List.mem_map_of_mem (f := layout target) hmem
  rw [← layouts_eq_map, h] at hlayout
  obtain ⟨size, -, heq⟩ := List.mem_map.1 hlayout
  exact ⟨size, heq.symm⟩

lemma exists_layout_of_array {element : SemType} {bound : ℕ}
    (h : layout target (.array element bound) = .ok result) :
    ∃ size, layout target element = .ok size ∧ bound ≠ 0 ∧
      result = { size := size.size * bound, alignment := size.alignment } := by
  rw [layout] at h
  split at h
  · cases h
  case h_2 size hsize =>
    split at h
    · cases h
    case isFalse hbound =>
      cases h
      exact ⟨size, hsize, fun hzero => hbound (Or.inl hzero), rfl⟩

/-- The children of a type with a layout have layouts. -/
lemma exists_layout_of_mem_children (hmem : child ∈ type.children)
    (h : layout target type = .ok result) : ∃ size, layout target child = .ok size := by
  cases type with
  | array element bound =>
    obtain rfl := List.mem_singleton.1 hmem
    obtain ⟨size, hsize, -⟩ := exists_layout_of_array h
    exact ⟨size, hsize⟩
  | tuple elements =>
    rw [layout] at h
    obtain ⟨sizes, hsizes, -⟩ := exists_of_tuple h
    exact exists_layout_of_mem hsizes hmem
  | cUnion first rest =>
    rw [layout, ← layouts] at h
    obtain ⟨sizes, hsizes, -⟩ := exists_of_tuple h
    exact exists_layout_of_mem hsizes hmem
  | struct fields =>
    rw [layout] at h
    obtain ⟨sizes, hsizes, -⟩ := exists_of_aggregate h
    exact exists_layout_of_mem hsizes hmem
  | _ => cases hmem

/-- A type with a layout has parts with layouts. -/
lemma SemType.Part.exists_layout (h : SemType.Part part type)
    (hlayout : layout target type = .ok result) : ∃ size, layout target part = .ok size := by
  induction h generalizing result with
  | self => exact ⟨result, hlayout⟩
  | child hmem _ ih =>
    obtain ⟨size, hsize⟩ := exists_layout_of_mem_children hmem hlayout
    exact ih hsize

end Layout

end Chtholly
