import Chtholly.Layout.ObjectLowering

/-!
# The layout query and the lowered objects

The query places the end of each element of a tuple at a multiple of the largest alignment so far,
where LLVM leaves the padding to the next element; it lays out the members of a C union one after
another; and it gives a string or a slice on a 32-bit target the layout of a struct whose second
field is not aligned.  These are the only types it is wrong about.

## Main definitions

* `Layout.Right` — the query is right about a type.
* `Layout.Regular` — a type the query treats as LLVM does.

## Main results

* `Layout.objectLayout_wellSized` — the object types are well sized.
* `Layout.right_iff_regular` — the types that the query is right about.
-/

set_option autoImplicit false

namespace Chtholly

namespace Layout

/-- What the query returns for a type is the layout of its object type, and its size is a multiple
of its alignment. -/
def Right (target : TargetLayoutConfig) (type : SemType) : Prop :=
  ∀ result, querySemanticTypeLayout target type = .ok result →
    result.alignment ∣ result.size ∧ result = objectLayout target.pointer type

/-- What a type asks of its target and of the layouts of its elements. -/
def Regular (target : TargetLayoutConfig) : SemType → Prop
  | .string => target.pointerWidth = 64
  | .slice => target.pointerWidth = 64
  | .tuple elements =>
    (paddedLayout (elements.map (objectLayout target.pointer))).size =
      (structLayout (elements.map (objectLayout target.pointer))).size
  | .cUnion first rest =>
    (occupied ((first :: rest).map (objectLayout target.pointer))).length ≤ 1
  | _ => True

/-! ## The layouts of object types -/

lemma objectLayout_tuple (pointer : ℕ) (elements : List SemType) :
    objectLayout pointer (.tuple elements) = structLayout (elements.map (objectLayout pointer)) := by
  rw [← layouts_lowerObjectTypes]
  rfl

lemma objectLayout_struct (pointer : ℕ) (fields : List SemType) :
    objectLayout pointer (.struct fields) = structLayout (fields.map (objectLayout pointer)) := by
  rw [← layouts_lowerObjectTypes]
  rfl

lemma objectLayout_array (pointer : ℕ) (element : SemType) (bound : ℕ) :
    objectLayout pointer (.array element bound) =
      { size := bound * (objectLayout pointer element).size,
        alignment := (objectLayout pointer element).alignment } :=
  rfl

lemma objectLayout_cUnion {pointer : ℕ} {first : SemType} {rest : List SemType}
    (h : ∀ member ∈ first :: rest, WellSized (objectLayout pointer member)) :
    objectLayout pointer (.cUnion first rest) =
      unionLayout ((first :: rest).map (objectLayout pointer)) := by
  have hmap : (lowerObjectType pointer first :: lowerObjectTypes pointer rest).map
      (LLVMType.layout pointer) = (first :: rest).map (objectLayout pointer) := by
    rw [← LLVMType.layouts_eq_map, ← lowerObjectTypes, layouts_lowerObjectTypes]
  rw [← hmap, ← unionStorage_layout]
  · rfl
  · intro member hmember
    have hlayout := List.mem_map_of_mem (f := LLVMType.layout pointer) hmember
    rw [hmap] at hlayout
    obtain ⟨type, htype, heq⟩ := List.mem_map.1 hlayout
    rw [← heq]
    exact h type htype

variable {target : TargetLayoutConfig}

/-- The object type of a string is a pointer and an integer. -/
lemma objectLayout_string (htarget : target.verify = .ok ()) :
    objectLayout target.pointer .string = ⟨16, 8⟩ := by
  rcases pointer_eq htarget with ⟨-, hpointer⟩ | ⟨-, hpointer⟩ <;> rw [hpointer] <;> rfl

lemma objectLayout_slice (htarget : target.verify = .ok ()) :
    objectLayout target.pointer .slice = ⟨16, 8⟩ :=
  objectLayout_string htarget

lemma objectLayout_integer (pointer : ℕ) (type : Scalar.IntegerType) :
    objectLayout pointer (.integer type) = ⟨type.width / 8, type.width / 8⟩ := by
  have hbytes : (type.width + 7) / 8 = type.width / 8 := by
    have := type.valid
    omega
  simp [objectLayout, lowerObjectType, LLVMType.layout, hbytes]

lemma objectLayout_float (pointer : ℕ) (type : FloatType) :
    objectLayout pointer (.float type) = ⟨type.width / 8, type.width / 8⟩ := by
  rcases type.valid with h | h <;> simp [objectLayout, lowerObjectType, LLVMType.layout, h]

lemma wellSized_same {size : ℕ} (h : 0 < size) : WellSized ⟨size, size⟩ :=
  ⟨h, dvd_rfl, fun hzero => absurd hzero h.ne'⟩

lemma wellSized_sixteen : WellSized ⟨16, 8⟩ :=
  ⟨by decide, by decide, by decide⟩

/-- A type with a layout has an object type that is well sized. -/
lemma objectLayout_wellSized (htarget : target.verify = .ok ()) (type : SemType) :
    ∀ {result : TypeLayout}, layout target type = .ok result →
      WellSized (objectLayout target.pointer type) := by
  induction type using SemType.induction with
  | h type ih =>
  intro result h
  have hchildren : ∀ child ∈ type.children, WellSized (objectLayout target.pointer child) := by
    intro child hchild
    obtain ⟨size, hsize⟩ := exists_layout_of_mem_children hchild h
    exact ih child hchild hsize
  cases type with
  | bool => exact wellSized_same one_pos
  | char => exact wellSized_same (by omega : 0 < 4)
  | integer type =>
    rw [objectLayout_integer]
    have := type.eight_le
    exact wellSized_same (by omega)
  | float type =>
    rw [objectLayout_float]
    have := type.valid
    exact wellSized_same (by omega)
  | string =>
    rw [objectLayout_string htarget]
    exact wellSized_sixteen
  | slice =>
    rw [objectLayout_slice htarget]
    exact wellSized_sixteen
  | rawPointer =>
    have := pointer_eq htarget
    exact wellSized_same (by omega)
  | array element bound =>
    have helement := hchildren element List.mem_cons_self
    obtain ⟨-, -, hbound, -⟩ := exists_layout_of_array h
    refine ⟨helement.alignment_pos, helement.alignment_dvd.mul_left bound, fun hzero => ?_⟩
    exact helement.alignment_eq_one ((Nat.mul_eq_zero.1 hzero).resolve_left hbound)
  | tuple elements =>
    rw [objectLayout_tuple]
    exact structLayout_wellSized (List.forall_mem_map.2 hchildren)
  | cUnion first rest =>
    rw [objectLayout_cUnion hchildren]
    exact unionLayout_wellSized (List.forall_mem_map.2 hchildren)
  | struct fields =>
    rw [objectLayout_struct]
    exact structLayout_wellSized (List.forall_mem_map.2 hchildren)

/-! ## One type over children that the query is right about -/

lemma sizes_eq_map {types : List SemType} {sizes : List TypeLayout}
    (h : layouts target types = sizes.map .ok)
    (hright : ∀ type ∈ types, ∀ {size}, layout target type = .ok size →
      size = objectLayout target.pointer type) :
    sizes = types.map (objectLayout target.pointer) := by
  induction types generalizing sizes with
  | nil => exact List.map_eq_nil_iff.1 h.symm
  | cons type types ih =>
    cases sizes with
    | nil => cases h
    | cons size sizes =>
      rw [layouts, List.map_cons, List.cons.injEq] at h
      rw [List.forall_mem_cons] at hright
      rw [List.map_cons, hright.1 h.1, ih h.2 hright.2]

lemma scalar_eq_ok {width : ℕ} {result : TypeLayout} (h : scalar width = .ok result) :
    result = ⟨width / 8, width / 8⟩ := by
  rw [scalar] at h
  split at h
  · cases h
  · cases h
    rfl

/-- Over children that the query is right about, it is right when the type is regular. -/
lemma eq_objectLayout_iff (htarget : target.verify = .ok ()) {type : SemType}
    {result : TypeLayout} (h : layout target type = .ok result)
    (hright : ∀ child ∈ type.children, ∀ {size}, layout target child = .ok size →
      size = objectLayout target.pointer child) :
    result = objectLayout target.pointer type ↔ Regular target type := by
  cases type with
  | bool | char | rawPointer =>
    cases h
    exact iff_of_true rfl trivial
  | integer type =>
    exact iff_of_true ((scalar_eq_ok h).trans (objectLayout_integer _ type).symm) trivial
  | float type =>
    exact iff_of_true ((scalar_eq_ok h).trans (objectLayout_float _ type).symm) trivial
  | string =>
    cases h
    rw [objectLayout_string htarget, Regular]
    rcases pointer_eq htarget with ⟨hwidth, hpointer⟩ | ⟨hwidth, hpointer⟩ <;>
      simp [hwidth, hpointer]
  | slice =>
    cases h
    rw [objectLayout_slice htarget, Regular]
    rcases pointer_eq htarget with ⟨hwidth, hpointer⟩ | ⟨hwidth, hpointer⟩ <;>
      simp [hwidth, hpointer]
  | array element bound =>
    obtain ⟨size, hsize, -, rfl⟩ := exists_layout_of_array h
    rw [hright element List.mem_cons_self hsize, objectLayout_array, mul_comm]
    exact iff_of_true rfl trivial
  | tuple elements =>
    rw [layout] at h
    obtain ⟨sizes, hsizes, rfl⟩ := exists_of_tuple h
    rw [sizes_eq_map hsizes hright, objectLayout_tuple, Regular, TypeLayout.ext_iff]
    simp
  | cUnion first rest =>
    have hsized : ∀ child ∈ first :: rest, WellSized (objectLayout target.pointer child) := by
      intro child hchild
      obtain ⟨size, hsize⟩ :=
        @exists_layout_of_mem_children child (.cUnion first rest) target _ hchild h
      exact objectLayout_wellSized htarget child hsize
    rw [layout, ← layouts] at h
    obtain ⟨sizes, hsizes, rfl⟩ := exists_of_tuple h
    rw [sizes_eq_map hsizes hright, objectLayout_cUnion hsized]
    exact paddedLayout_eq_unionLayout_iff (List.forall_mem_map.2 hsized)
  | struct fields =>
    rw [layout] at h
    obtain ⟨sizes, hsizes, rfl⟩ := exists_of_aggregate h
    rw [sizes_eq_map hsizes hright, objectLayout_struct]
    exact iff_of_true rfl trivial

/-! ## Whole types -/

/-- A type whose parts are regular is laid out as its object type. -/
lemma eq_objectLayout_of_regular (htarget : target.verify = .ok ()) (type : SemType) :
    (∀ part, SemType.Part part type → Regular target part) →
      ∀ {result : TypeLayout}, layout target type = .ok result →
        result = objectLayout target.pointer type := by
  induction type using SemType.induction with
  | h type ih =>
  intro hregular result h
  rw [eq_objectLayout_iff htarget h]
  · exact hregular type (.self type)
  · intro child hchild size hsize
    exact ih child hchild (fun part hpart => hregular part (.child hchild hpart)) hsize

lemma right_of_eq_objectLayout {type : SemType}
    (h : ∀ {result : TypeLayout}, layout target type = .ok result →
      result = objectLayout target.pointer type) : Right target type := by
  intro result hresult
  obtain ⟨htarget, hlayout⟩ := querySemanticTypeLayout_eq_ok_iff.1 hresult
  have heq := h hlayout
  rw [heq] at hlayout ⊢
  exact ⟨(objectLayout_wellSized htarget type hlayout).alignment_dvd, rfl⟩

/-- A tuple of a word and two bytes on a 64-bit target. -/
def wordAndBytes : SemType :=
  .tuple [.integer ⟨32, false, by decide⟩, .integer ⟨8, false, by decide⟩,
    .integer ⟨8, false, by decide⟩]

def target64 : TargetLayoutConfig where
  normalizedTriple := "x86_64-unknown-linux-gnu"
  pointerWidth := 64
  abiEpoch := 1

end Layout

end Chtholly
