import Mathlib.Algebra.BigOperators.Group.List.Basic
import Mathlib.Algebra.Order.BigOperators.Group.List
import Mathlib.Algebra.Order.Ring.Nat

/-!
# Layouts of aggregates

A layout is a size with an alignment.  The natural layout of a struct places each field at the next
multiple of its alignment and pads the end; a union takes the largest size and the largest
alignment.  A padded struct also rounds the end of each field up to the largest alignment so far.

## Main definitions

* `Layout.alignUp` — the next multiple of an alignment.
* `Layout.TypeLayout` — a size and an alignment.
* `Layout.structLayout`, `Layout.unionLayout`, `Layout.paddedLayout` — the layouts of aggregates.
* `Layout.WellSized` — the layouts that types have.

## Main results

* `Layout.alignUp_le_iff` — what `alignUp` is.
* `Layout.paddedLayout_eq_unionLayout_iff` — when a padded struct is laid out as a union.
-/

set_option autoImplicit false

namespace Chtholly

namespace Layout

/-- The smallest multiple of the alignment that is not below the value. -/
def alignUp (value alignment : ℕ) : ℕ :=
  (value + alignment - 1) / alignment * alignment

lemma dvd_alignUp (value alignment : ℕ) : alignment ∣ alignUp value alignment :=
  Nat.dvd_mul_left _ _

variable {value alignment : ℕ}

lemma alignUp_le_iff {multiple : ℕ} (halignment : 0 < alignment) (hdvd : alignment ∣ multiple) :
    alignUp value alignment ≤ multiple ↔ value ≤ multiple := by
  obtain ⟨k, rfl⟩ := hdvd
  rw [alignUp, mul_comm alignment k, Nat.mul_le_mul_right_iff halignment,
    ← Nat.lt_add_one_iff, Nat.div_lt_iff_lt_mul halignment, Nat.add_mul, Nat.one_mul]
  omega

lemma le_alignUp (halignment : 0 < alignment) : value ≤ alignUp value alignment :=
  (alignUp_le_iff halignment (dvd_alignUp value alignment)).1 le_rfl

lemma alignUp_eq_self (halignment : 0 < alignment) (hdvd : alignment ∣ value) :
    alignUp value alignment = value :=
  le_antisymm ((alignUp_le_iff halignment hdvd).2 le_rfl) (le_alignUp halignment)

@[simp]
lemma alignUp_one (value : ℕ) : alignUp value 1 = value :=
  alignUp_eq_self one_pos (one_dvd value)

@[simp]
lemma alignUp_zero (alignment : ℕ) : alignUp 0 alignment = 0 := by
  rw [alignUp, Nat.zero_add]
  rcases Nat.eq_zero_or_pos alignment with rfl | h
  · rfl
  · rw [Nat.div_eq_of_lt (by omega), Nat.zero_mul]

lemma alignUp_lt_add (halignment : 0 < alignment) :
    alignUp value alignment < value + alignment := by
  have h := Nat.div_mul_le_self (value + alignment - 1) alignment
  rw [alignUp]
  omega

/-- The padding in front of the next multiple. -/
lemma alignUp_eq_add (halignment : 0 < alignment) :
    alignUp value alignment =
      value + if value % alignment = 0 then 0 else alignment - value % alignment := by
  have hmod := Nat.mod_lt value halignment
  have hdvd : alignment ∣ value + if value % alignment = 0 then 0 else alignment - value % alignment := by
    have hvalue := Nat.div_add_mod value alignment
    split
    · exact Nat.dvd_of_mod_eq_zero (by simpa)
    · refine ⟨value / alignment + 1, ?_⟩
      rw [Nat.mul_add, Nat.mul_one]
      omega
  apply le_antisymm
  · exact (alignUp_le_iff halignment hdvd).2 (Nat.le_add_right _ _)
  · have hle : value ≤ alignUp value alignment := le_alignUp halignment
    apply Nat.le_of_lt_add_of_dvd _ hdvd (dvd_alignUp value alignment)
    split <;> omega

@[ext]
structure TypeLayout where
  size : ℕ
  alignment : ℕ
  deriving DecidableEq, Repr

/-- Every object of the type can be followed by another one, and only an object without bytes has
no demands on its address. -/
structure WellSized (layout : TypeLayout) : Prop where
  alignment_pos : 0 < layout.alignment
  alignment_dvd : layout.alignment ∣ layout.size
  alignment_eq_one : layout.size = 0 → layout.alignment = 1

/-! ## Structs and unions -/

/-- The end of the fields so far and the largest alignment so far. -/
structure Cursor where
  position : ℕ
  alignment : ℕ
  deriving DecidableEq, Repr

def Cursor.start : Cursor := ⟨0, 1⟩

/-- The next field at the next multiple of its alignment. -/
def Cursor.place (cursor : Cursor) (field : TypeLayout) : Cursor where
  position := alignUp cursor.position field.alignment + field.size
  alignment := max cursor.alignment field.alignment

/-- The end of the next field is rounded up to the largest alignment so far. -/
def Cursor.placePadded (cursor : Cursor) (field : TypeLayout) : Cursor where
  position := alignUp (cursor.place field).position (cursor.place field).alignment
  alignment := (cursor.place field).alignment

/-- The layout of the fields so far, with its end padded. -/
def Cursor.layout (cursor : Cursor) : TypeLayout where
  size := alignUp cursor.position cursor.alignment
  alignment := cursor.alignment

def structLayout (fields : List TypeLayout) : TypeLayout :=
  (fields.foldl Cursor.place .start).layout

def paddedLayout (fields : List TypeLayout) : TypeLayout :=
  (fields.foldl Cursor.placePadded .start).layout

def maxSize (fields : List TypeLayout) : ℕ :=
  (fields.map TypeLayout.size).foldl max 0

def maxAlignment (fields : List TypeLayout) : ℕ :=
  (fields.map TypeLayout.alignment).foldl max 1

def unionLayout (members : List TypeLayout) : TypeLayout where
  size := alignUp (maxSize members) (maxAlignment members)
  alignment := maxAlignment members

lemma foldl_place_alignment (fields : List TypeLayout) (cursor : Cursor) :
    (fields.foldl Cursor.place cursor).alignment =
      (fields.map TypeLayout.alignment).foldl max cursor.alignment := by
  induction fields generalizing cursor with
  | nil => rfl
  | cons field fields ih => exact ih (cursor.place field)

lemma foldl_placePadded_alignment (fields : List TypeLayout) (cursor : Cursor) :
    (fields.foldl Cursor.placePadded cursor).alignment =
      (fields.map TypeLayout.alignment).foldl max cursor.alignment := by
  induction fields generalizing cursor with
  | nil => rfl
  | cons field fields ih => exact ih (cursor.placePadded field)

@[simp]
lemma structLayout_alignment (fields : List TypeLayout) :
    (structLayout fields).alignment = maxAlignment fields :=
  foldl_place_alignment fields .start

@[simp]
lemma paddedLayout_alignment (fields : List TypeLayout) :
    (paddedLayout fields).alignment = maxAlignment fields :=
  foldl_placePadded_alignment fields .start

lemma le_foldl_max (values : List ℕ) (start : ℕ) : start ≤ values.foldl max start := by
  induction values generalizing start with
  | nil => exact le_rfl
  | cons value values ih => exact (le_max_left start value).trans (ih _)

lemma le_foldl_max_of_mem {values : List ℕ} (h : value ∈ values) (start : ℕ) :
    value ≤ values.foldl max start := by
  induction values generalizing start with
  | nil => cases h
  | cons other values ih =>
    rcases List.mem_cons.1 h with rfl | h
    · exact (le_max_right start value).trans (le_foldl_max values _)
    · exact ih h _

/-- A maximum is one of the values. -/
lemma foldl_max_eq_or_mem (values : List ℕ) (start : ℕ) :
    values.foldl max start = start ∨ values.foldl max start ∈ values := by
  induction values generalizing start with
  | nil => exact Or.inl rfl
  | cons value values ih =>
    rw [List.foldl_cons, List.mem_cons]
    rcases ih (max start value) with h | h
    · rcases max_choice start value with hmax | hmax <;> rw [h, hmax] <;> simp
    · exact Or.inr (Or.inr h)

lemma maxAlignment_pos (fields : List TypeLayout) : 0 < maxAlignment fields :=
  le_foldl_max _ 1

variable {fields : List TypeLayout}

/-- The fields do not overlap. -/
lemma sum_le_foldl_place (h : ∀ field ∈ fields, WellSized field) (cursor : Cursor) :
    cursor.position + (fields.map TypeLayout.size).sum ≤
      (fields.foldl Cursor.place cursor).position := by
  induction fields generalizing cursor with
  | nil => exact le_rfl
  | cons field fields ih =>
    rw [List.forall_mem_cons] at h
    have hplace : cursor.position + field.size ≤ (cursor.place field).position :=
      Nat.add_le_add_right (le_alignUp h.1.alignment_pos) _
    have htail := ih h.2 (cursor.place field)
    rw [List.map_cons, List.sum_cons, List.foldl_cons]
    omega

lemma sum_le_foldl_placePadded (h : ∀ field ∈ fields, WellSized field) (cursor : Cursor) :
    cursor.position + (fields.map TypeLayout.size).sum ≤
      (fields.foldl Cursor.placePadded cursor).position := by
  induction fields generalizing cursor with
  | nil => exact le_rfl
  | cons field fields ih =>
    rw [List.forall_mem_cons] at h
    have hplace : cursor.position + field.size ≤ (cursor.place field).position :=
      Nat.add_le_add_right (le_alignUp h.1.alignment_pos) _
    have hpadded : (cursor.place field).position ≤ (cursor.placePadded field).position :=
      le_alignUp (lt_max_of_lt_right h.1.alignment_pos)
    have htail := ih h.2 (cursor.placePadded field)
    rw [List.map_cons, List.sum_cons, List.foldl_cons]
    omega

/-- Fields without bytes have no demands on their addresses. -/
lemma maxAlignment_eq_one (h : ∀ field ∈ fields, WellSized field)
    (hsize : ∀ field ∈ fields, field.size = 0) : maxAlignment fields = 1 := by
  rcases foldl_max_eq_or_mem (fields.map TypeLayout.alignment) 1 with hmax | hmax
  · exact hmax
  · obtain ⟨field, hfield, heq⟩ := List.mem_map.1 hmax
    exact heq.symm.trans ((h field hfield).alignment_eq_one (hsize field hfield))

lemma structLayout_wellSized (h : ∀ field ∈ fields, WellSized field) :
    WellSized (structLayout fields) where
  alignment_pos := by
    rw [structLayout_alignment]
    exact maxAlignment_pos fields
  alignment_dvd := dvd_alignUp _ _
  alignment_eq_one := by
    intro hzero
    rw [structLayout_alignment]
    apply maxAlignment_eq_one h
    intro field hfield
    have hpos : 0 < (fields.foldl Cursor.place .start).alignment := by
      rw [foldl_place_alignment]
      exact maxAlignment_pos fields
    have hend : (fields.foldl Cursor.place .start).position ≤ 0 :=
      (le_alignUp hpos).trans hzero.le
    have hsum := sum_le_foldl_place h .start
    have hle := List.single_le_sum (by simp) _ (List.mem_map_of_mem (f := TypeLayout.size) hfield)
    omega

variable {members : List TypeLayout}

lemma unionLayout_wellSized (h : ∀ member ∈ members, WellSized member) :
    WellSized (unionLayout members) where
  alignment_pos := maxAlignment_pos members
  alignment_dvd := dvd_alignUp _ _
  alignment_eq_one := by
    intro hzero
    apply maxAlignment_eq_one h
    intro member hmember
    have hmax : maxSize members ≤ 0 := (le_alignUp (maxAlignment_pos members)).trans hzero.le
    exact Nat.le_zero.1 ((le_foldl_max_of_mem (List.mem_map_of_mem hmember) 0).trans hmax)

/-! ## Padded structs and unions -/

/-- A field without bytes stays at the cursor. -/
lemma placePadded_of_size_eq_zero {field : TypeLayout} (h : WellSized field)
    (hsize : field.size = 0) {cursor : Cursor} (hpos : 0 < cursor.alignment)
    (hcursor : cursor.alignment ∣ cursor.position) : cursor.placePadded field = cursor := by
  have hone := h.alignment_eq_one hsize
  have hmax : max cursor.alignment 1 = cursor.alignment := max_eq_left hpos
  simp [Cursor.placePadded, Cursor.place, hone, hsize, hmax, alignUp_eq_self hpos hcursor]

lemma foldl_placePadded_of_size_eq_zero (h : ∀ field ∈ fields, WellSized field)
    (hsize : ∀ field ∈ fields, field.size = 0) {cursor : Cursor} (hpos : 0 < cursor.alignment)
    (hcursor : cursor.alignment ∣ cursor.position) :
    fields.foldl Cursor.placePadded cursor = cursor := by
  induction fields with
  | nil => rfl
  | cons field fields ih =>
    rw [List.forall_mem_cons] at h hsize
    rw [List.foldl_cons, placePadded_of_size_eq_zero h.1 hsize.1 hpos hcursor]
    exact ih h.2 hsize.2

lemma foldl_max_of_le {values : List ℕ} {start : ℕ} (h : ∀ value ∈ values, value ≤ start) :
    values.foldl max start = start := by
  induction values with
  | nil => rfl
  | cons value values ih =>
    rw [List.forall_mem_cons] at h
    rw [List.foldl_cons, max_eq_left h.1]
    exact ih h.2

/-- The members that have bytes. -/
def occupied (members : List TypeLayout) : List TypeLayout :=
  members.filter fun member => member.size ≠ 0

lemma paddedLayout_append_cons {before after : List TypeLayout} {member : TypeLayout}
    (hbefore : ∀ field ∈ before, WellSized field) (hmember : WellSized member)
    (hafter : ∀ field ∈ after, WellSized field) (hzero : ∀ field ∈ before, field.size = 0)
    (hzero' : ∀ field ∈ after, field.size = 0) :
    paddedLayout (before ++ member :: after) = member := by
  have hpos := hmember.alignment_pos
  have hdvd := hmember.alignment_dvd
  have hcursor : Cursor.start.placePadded member = ⟨member.size, member.alignment⟩ := by
    have hmax : max 1 member.alignment = member.alignment := max_eq_right hpos
    simp [Cursor.placePadded, Cursor.place, Cursor.start, hmax, alignUp_eq_self hpos hdvd]
  rw [paddedLayout, List.foldl_append,
    foldl_placePadded_of_size_eq_zero hbefore hzero one_pos (one_dvd _), List.foldl_cons, hcursor,
    foldl_placePadded_of_size_eq_zero hafter hzero' hpos hdvd, Cursor.layout,
    alignUp_eq_self hpos hdvd]

lemma maxSize_eq_zero (hsize : ∀ field ∈ fields, field.size = 0) : maxSize fields = 0 := by
  apply foldl_max_of_le
  intro value hvalue
  obtain ⟨field, hfield, rfl⟩ := List.mem_map.1 hvalue
  exact (hsize field hfield).le

lemma unionLayout_append_cons {before after : List TypeLayout} {member : TypeLayout}
    (hbefore : ∀ field ∈ before, WellSized field) (hmember : WellSized member)
    (hafter : ∀ field ∈ after, WellSized field) (hzero : ∀ field ∈ before, field.size = 0)
    (hzero' : ∀ field ∈ after, field.size = 0) :
    unionLayout (before ++ member :: after) = member := by
  have hsize : maxSize (before ++ member :: after) = member.size := by
    have hstart : (before.map TypeLayout.size).foldl max 0 = 0 := maxSize_eq_zero hzero
    rw [maxSize, List.map_append, List.map_cons, List.foldl_append, List.foldl_cons, hstart,
      Nat.zero_max]
    apply foldl_max_of_le
    intro value hvalue
    obtain ⟨field, hfield, rfl⟩ := List.mem_map.1 hvalue
    simp [hzero' field hfield]
  have halignment : maxAlignment (before ++ member :: after) = member.alignment := by
    have hstart : (before.map TypeLayout.alignment).foldl max 1 = 1 :=
      maxAlignment_eq_one hbefore hzero
    rw [maxAlignment, List.map_append, List.map_cons, List.foldl_append, List.foldl_cons, hstart,
      max_eq_right hmember.alignment_pos]
    apply foldl_max_of_le
    intro value hvalue
    obtain ⟨field, hfield, rfl⟩ := List.mem_map.1 hvalue
    exact ((hafter field hfield).alignment_eq_one (hzero' field hfield)).trans_le
      hmember.alignment_pos
  rw [unionLayout, hsize, halignment,
    alignUp_eq_self hmember.alignment_pos hmember.alignment_dvd]

/-- The largest size is that of a member, and so is an alignment that a byte has. -/
lemma exists_eq_maxSize (h : members ≠ []) : ∃ member ∈ members, member.size = maxSize members := by
  rcases foldl_max_eq_or_mem (members.map TypeLayout.size) 0 with hmax | hmax
  · obtain ⟨member, hmember⟩ := List.exists_mem_of_ne_nil members h
    have hle := le_foldl_max_of_mem (List.mem_map_of_mem (f := TypeLayout.size) hmember) 0
    exact ⟨member, hmember, by rw [maxSize]; omega⟩
  · exact List.mem_map.1 hmax

/-- The room of a union is smaller than that of two members with bytes. -/
lemma unionLayout_size_lt_sum (h : ∀ member ∈ members, WellSized member)
    (htwo : 2 ≤ (occupied members).length) :
    (unionLayout members).size < (members.map TypeLayout.size).sum := by
  have hne : members ≠ [] := by
    rintro rfl
    simp [occupied] at htwo
  obtain ⟨largest, hlargest, hsize⟩ := exists_eq_maxSize hne
  -- the largest member and the others
  have hperm := List.perm_cons_erase hlargest
  set others := members.erase largest with hothers
  have hsum : (members.map TypeLayout.size).sum =
      maxSize members + (others.map TypeLayout.size).sum := by
    rw [(hperm.map TypeLayout.size).sum_eq, List.map_cons, List.sum_cons, hsize]
  have hother : ∀ member ∈ others, member.size ≤ (others.map TypeLayout.size).sum :=
    fun member hmember => List.single_le_sum (by simp) _ (List.mem_map_of_mem hmember)
  have hpos : 0 < (others.map TypeLayout.size).sum := by
    have hlength := (hperm.filter fun member => member.size ≠ 0).length_eq
    have hle : (occupied (largest :: others)).length ≤ (occupied others).length + 1 := by
      rw [occupied, List.filter_cons]
      split
      · exact le_rfl
      · exact Nat.le_succ _
    have hlt : 0 < (occupied others).length := by
      rw [occupied] at htwo
      rw [occupied] at hle
      omega
    obtain ⟨member, hmember⟩ := List.exists_mem_of_length_pos hlt
    rw [occupied, List.mem_filter, decide_eq_true_eq] at hmember
    have := hother member hmember.1
    omega
  show alignUp (maxSize members) (maxAlignment members) < (members.map TypeLayout.size).sum
  rw [hsum]
  rcases foldl_max_eq_or_mem (members.map TypeLayout.alignment) 1 with hmax | hmax
  · rw [maxAlignment, hmax, alignUp_one]
    omega
  obtain ⟨aligned, haligned, halignment⟩ := List.mem_map.1 hmax
  replace halignment : aligned.alignment = maxAlignment members := halignment
  rw [← halignment]
  rcases List.mem_cons.1 (hperm.mem_iff.1 haligned) with rfl | hmember
  · -- the largest member has the alignment
    rw [← hsize, alignUp_eq_self (h _ haligned).alignment_pos (h _ haligned).alignment_dvd]
    omega
  · -- another member has it, and so has as many bytes
    have hpadding := @alignUp_lt_add (maxSize members) _ (h aligned haligned).alignment_pos
    have hbytes := hother aligned hmember
    rcases Nat.eq_zero_or_pos aligned.size with hzero | hbyte
    · rw [(h aligned haligned).alignment_eq_one hzero, alignUp_one]
      omega
    · have hle := Nat.le_of_dvd hbyte (h aligned haligned).alignment_dvd
      omega

/-- A padded struct is laid out as a union when at most one of its fields has bytes. -/
lemma paddedLayout_eq_unionLayout_iff (h : ∀ member ∈ members, WellSized member) :
    paddedLayout members = unionLayout members ↔ (occupied members).length ≤ 1 := by
  constructor
  · intro heq
    by_contra htwo
    have hlt := unionLayout_size_lt_sum h (by omega)
    have hsum := sum_le_foldl_placePadded h .start
    have hend : (members.foldl Cursor.placePadded .start).position ≤ (paddedLayout members).size := by
      apply le_alignUp
      rw [foldl_placePadded_alignment]
      exact maxAlignment_pos members
    rw [heq] at hend
    omega
  · intro hone
    cases hoccupied : occupied members with
    | nil =>
      have hzero : ∀ member ∈ members, member.size = 0 := by
        simpa [occupied] using hoccupied
      rw [paddedLayout, foldl_placePadded_of_size_eq_zero h hzero one_pos (one_dvd _), unionLayout,
        maxSize_eq_zero hzero, maxAlignment_eq_one h hzero]
      rfl
    | cons member rest =>
      rw [hoccupied, List.length_cons] at hone
      obtain rfl : rest = [] := List.length_eq_zero_iff.1 (by omega)
      obtain ⟨before, after, rfl, hbefore, -, hafter⟩ := List.filter_eq_cons_iff.1 hoccupied
      rw [List.filter_eq_nil_iff] at hafter
      simp only [decide_eq_true_eq, not_not] at hbefore hafter
      rw [List.forall_mem_append, List.forall_mem_cons] at h
      obtain ⟨hsized, hmember, hsized'⟩ := h
      rw [paddedLayout_append_cons hsized hmember hsized' hbefore hafter,
        unionLayout_append_cons hsized hmember hsized' hbefore hafter]

end Layout

end Chtholly
