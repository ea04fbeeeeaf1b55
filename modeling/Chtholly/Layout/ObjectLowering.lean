import Chtholly.Layout.TypeLayout

/-!
# The lowered object types

`lowerObjectType` gives every concrete type an LLVM type, and LLVM lays it out: an integer or a
pointer is aligned to its size, a struct is laid out field by field.

## Main definitions

* `Layout.LLVMType`, `Layout.LLVMType.layout` — the types of LLVM and their layouts.
* `Layout.lowerObjectType` — the object type of a concrete type.

## Main results

* `Layout.unionStorage_layout` — the storage of a union is laid out as a union.
-/

set_option autoImplicit false

namespace Chtholly

namespace Layout

inductive LLVMType
  | integer (width : ℕ)
  | float
  | double
  | pointer
  | struct (fields : List LLVMType)
  | array (element : LLVMType) (bound : ℕ)

mutual

/-- `getTypeAllocSize` and `getABITypeAlign`. -/
def LLVMType.layout (pointer : ℕ) : LLVMType → TypeLayout
  | .integer width => { size := (width + 7) / 8, alignment := (width + 7) / 8 }
  | .float => { size := 4, alignment := 4 }
  | .double => { size := 8, alignment := 8 }
  | .pointer => { size := pointer, alignment := pointer }
  | .struct fields => structLayout (LLVMType.layouts pointer fields)
  | .array element bound =>
    { size := bound * (LLVMType.layout pointer element).size,
      alignment := (LLVMType.layout pointer element).alignment }

def LLVMType.layouts (pointer : ℕ) : List LLVMType → List TypeLayout
  | [] => []
  | type :: types => LLVMType.layout pointer type :: LLVMType.layouts pointer types

end

/-- The largest size and the member that carries the storage, the first of the largest alignment. -/
structure Carrier where
  size : ℕ
  carrier : LLVMType

/-- The body of the loop over the members of a union. -/
def Carrier.next (pointer : ℕ) (state : Carrier) (field : LLVMType) : Carrier where
  size := max state.size (field.layout pointer).size
  carrier :=
    if (field.layout pointer).alignment > (state.carrier.layout pointer).alignment then field
    else state.carrier

/-- The fields of the storage of a union. -/
def unionStorage (pointer : ℕ) (first : LLVMType) (rest : List LLVMType) : List LLVMType :=
  let state := (first :: rest).foldl (Carrier.next pointer) ⟨0, first⟩
  let carrierSize := (state.carrier.layout pointer).size
  if state.size > carrierSize then
    [state.carrier, .array (.integer 8) (state.size - carrierSize)]
  else [state.carrier]

mutual

def lowerObjectType (pointer : ℕ) : SemType → LLVMType
  | .bool => .integer 1
  | .char => .integer 32
  | .integer type => .integer type.width
  | .float type => if type.width = 32 then .float else .double
  | .string => .struct [.pointer, .integer 64]
  | .rawPointer => .pointer
  | .array element bound => .array (lowerObjectType pointer element) bound
  | .slice => .struct [.pointer, .integer 64]
  | .tuple elements => .struct (lowerObjectTypes pointer elements)
  | .cUnion first rest =>
    .struct (unionStorage pointer (lowerObjectType pointer first) (lowerObjectTypes pointer rest))
  | .struct fields => .struct (lowerObjectTypes pointer fields)

def lowerObjectTypes (pointer : ℕ) : List SemType → List LLVMType
  | [] => []
  | type :: types => lowerObjectType pointer type :: lowerObjectTypes pointer types

end

/-- The layout of the object type. -/
def objectLayout (pointer : ℕ) (type : SemType) : TypeLayout :=
  (lowerObjectType pointer type).layout pointer

/-! ## Layouts of the object types -/

lemma LLVMType.layouts_eq_map (pointer : ℕ) (types : List LLVMType) :
    LLVMType.layouts pointer types = types.map (LLVMType.layout pointer) := by
  induction types with
  | nil => rfl
  | cons type types ih => rw [LLVMType.layouts, ih, List.map_cons]

lemma layouts_lowerObjectTypes (pointer : ℕ) (types : List SemType) :
    LLVMType.layouts pointer (lowerObjectTypes pointer types) =
      types.map (objectLayout pointer) := by
  induction types with
  | nil => rfl
  | cons type types ih => rw [lowerObjectTypes, LLVMType.layouts, ih, List.map_cons, objectLayout]

/-- The loop over the members finds the largest size and the largest alignment. -/
lemma foldl_next_layout (pointer : ℕ) (members : List LLVMType) (state : Carrier) :
    (members.foldl (Carrier.next pointer) state).size =
        ((members.map (LLVMType.layout pointer)).map TypeLayout.size).foldl max state.size ∧
      ((members.foldl (Carrier.next pointer) state).carrier.layout pointer).alignment =
        ((members.map (LLVMType.layout pointer)).map TypeLayout.alignment).foldl max
          (state.carrier.layout pointer).alignment := by
  induction members generalizing state with
  | nil => exact ⟨rfl, rfl⟩
  | cons member members ih =>
    obtain ⟨hsize, halignment⟩ := ih (state.next pointer member)
    have hmax : ((state.next pointer member).carrier.layout pointer).alignment =
        max (state.carrier.layout pointer).alignment (member.layout pointer).alignment := by
      rw [Carrier.next]
      split
      case isTrue h => exact (max_eq_right h.le).symm
      case isFalse h => exact (max_eq_left (not_lt.1 h)).symm
    exact ⟨hsize, halignment.trans (by rw [hmax]; rfl)⟩

lemma foldl_next_mem (pointer : ℕ) (members : List LLVMType) (state : Carrier) :
    (members.foldl (Carrier.next pointer) state).carrier ∈ state.carrier :: members := by
  induction members generalizing state with
  | nil => exact List.mem_singleton.2 rfl
  | cons member members ih =>
    have hnext : (state.next pointer member).carrier = member ∨
        (state.next pointer member).carrier = state.carrier := by
      rw [Carrier.next]
      split <;> simp
    rcases List.mem_cons.1 (ih (state.next pointer member)) with h | h
    · rcases hnext with hnext | hnext <;> rw [List.foldl_cons, h, hnext] <;> simp
    · rw [List.foldl_cons]
      simp [h]

/-- The storage of a union is laid out as a union. -/
lemma unionStorage_layout {pointer : ℕ} {first : LLVMType} {rest : List LLVMType}
    (h : ∀ member ∈ first :: rest, WellSized (member.layout pointer)) :
    structLayout (LLVMType.layouts pointer (unionStorage pointer first rest)) =
      unionLayout ((first :: rest).map (LLVMType.layout pointer)) := by
  have hmem := foldl_next_mem pointer (first :: rest) ⟨0, first⟩
  obtain ⟨hsize, halignment⟩ := foldl_next_layout pointer (first :: rest) ⟨0, first⟩
  rw [unionStorage]
  set state := (first :: rest).foldl (Carrier.next pointer) ⟨0, first⟩ with hstate
  have hcarrier : WellSized (state.carrier.layout pointer) := by
    apply h
    rcases List.mem_cons.1 hmem with heq | hmem
    · rw [heq]
      exact List.mem_cons_self
    · exact hmem
  have hpos := hcarrier.alignment_pos
  have hfirst : max 1 (first.layout pointer).alignment = (first.layout pointer).alignment :=
    max_eq_right (h first List.mem_cons_self).alignment_pos
  replace halignment : (state.carrier.layout pointer).alignment =
      maxAlignment ((first :: rest).map (LLVMType.layout pointer)) := by
    rw [halignment, maxAlignment, List.map_cons, List.map_cons, List.foldl_cons, List.foldl_cons,
      hfirst, max_self]
  replace hsize : state.size = maxSize ((first :: rest).map (LLVMType.layout pointer)) := hsize
  have hplace : Cursor.start.place (state.carrier.layout pointer) =
      ⟨(state.carrier.layout pointer).size, (state.carrier.layout pointer).alignment⟩ := by
    have hmax : max 1 (state.carrier.layout pointer).alignment =
        (state.carrier.layout pointer).alignment := max_eq_right hpos
    simp [Cursor.place, Cursor.start, hmax]
  have hunion : unionLayout ((first :: rest).map (LLVMType.layout pointer)) =
      Cursor.layout ⟨state.size, (state.carrier.layout pointer).alignment⟩ := by
    rw [unionLayout, Cursor.layout, ← hsize, ← halignment]
  rw [hunion]
  split
  case isTrue hlt =>
    -- the bytes behind the carrier
    have hmax : max (state.carrier.layout pointer).alignment 1 =
        (state.carrier.layout pointer).alignment := max_eq_left hpos
    have hend : (state.carrier.layout pointer).size +
        (state.size - (state.carrier.layout pointer).size) = state.size := by omega
    rw [LLVMType.layouts, LLVMType.layouts, LLVMType.layouts, structLayout, List.foldl_cons,
      List.foldl_cons, List.foldl_nil, hplace]
    simp [LLVMType.layout, Cursor.place, hmax, hend]
  case isFalse hle =>
    have hcarrierSize : (state.carrier.layout pointer).size ≤ state.size := by
      rw [hsize]
      apply le_foldl_max_of_mem
      apply List.mem_map_of_mem
      apply List.mem_map_of_mem
      rcases List.mem_cons.1 hmem with heq | hmem
      · rw [heq]
        exact List.mem_cons_self
      · exact hmem
    have heq : (state.carrier.layout pointer).size = state.size := by omega
    simp [LLVMType.layouts, structLayout, hplace, heq]

end Layout

end Chtholly
