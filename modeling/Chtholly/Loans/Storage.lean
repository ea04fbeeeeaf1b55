import Chtholly.Loans.Region
import Mathlib.Data.Set.Basic
import Mathlib.Logic.Relation

set_option autoImplicit false

/-!
# What the regions of the loan analysis say about storage

A place is reached from its local by moves: to what a reference refers to, to an element, to a
field.  A layout says where they lead.  As long as two places name their parts in the same types,
regions that do not overlap lie apart.

## Main definitions

* `Loans.Layout`, `Loans.Layout.Fits` — the bits of objects and of their parts.
* `Loans.SemPlace.moves`, `Loans.Arrives` — the way to a place.
* `Loans.SharesBit` — some choice of elements gives two places a common bit.
* `Loans.sameSteps` — what is compared was named in the same type.

## Main results

* `Loans.overlaps_sound` — regions of places that share a bit overlap, also those of callees.
* `Loans.overlaps_misses_union` — but not those of storage paths through a union.
-/

namespace Chtholly

namespace Loans

/-! ## Moves -/

/-- A move from an object to a part of it.  The owner is the type that the part is named in. -/
inductive Move
  | dereference (owner : TypeId)
  | element (owner : TypeId) (index : ℕ)
  | anyElement (owner : TypeId)
  | field (owner : TypeId) (name : NameId)
  | member (owner : TypeId) (index : ℕ)
  | computed (owner : TypeId) (index : ℕ)
  | bits (first last : ℕ)
  deriving DecidableEq

namespace Move

def owner : Move → TypeId
  | dereference t | element t _ | anyElement t | field t _ | member t _ | computed t _ => t
  | bits _ _ => 0

/-- The component of a region. -/
def component? : Move → Option Component
  | element _ k => some (.element k)
  | anyElement _ => some (.anyElement 0)
  | field _ n => some (.field n)
  | member _ _ => some .union
  | _ => none

/-- The move adds nothing to a region. -/
def isSilent : Move → Bool
  | dereference _ | computed _ _ => true
  | _ => false

def isComputed : Move → Bool
  | computed _ _ => true
  | _ => false

def range? : Move → Option (ℕ × ℕ)
  | bits first last => some (first, last)
  | _ => none

end Move

/-- The last range of bits on the way. -/
def rangeOf : List Move → Option (ℕ × ℕ)
  | [] => none
  | m :: ms => (rangeOf ms).or m.range?

section

variable (types : Types)

/-- A field by its name, with its index. -/
def Types.fieldNamed (t : TypeId) (name : NameId) : Option (ℕ × SemNominalField) :=
  match types t with
  | .nominal _ fields _ =>
    (fields.findIdx? fun f => f.name = name).bind fun k => fields[k]?.map (k, ·)
  | _ => none

/-- The moves along a path of names. -/
def lookups : TypeId → List NameId → List Move
  | _, [] => []
  | t, n :: ns => .field t n :: lookups ((types.fieldNamed t n).elim t (·.2.type)) ns

/-- The moves to a field.  A type with a carrier has its fields where the carrier stores them. -/
def fieldMoves (t : TypeId) (k : ℕ) : List Move :=
  match types t with
  | .nominal kind fields carrier =>
    match fields[k]? with
    | some f =>
      if kind = .union then [.member t k]
      else if f.projectionKind = .computed then
        lookups types (carrier.getD t) f.projectionRegionPath ++ [.computed t k]
      else lookups types (carrier.getD t) f.storage ++
        (f.bits kind).toList.map fun range => .bits range.1 range.2
    | none => []
  | _ => []

def placeMoves (t : TypeId) : PlaceProjection → List Move
  | .carrierView _ => []
  | .dereference => [.dereference t]
  | .element k => [.element t k]
  | .anyElement => [.anyElement t]
  | .field k | .enumPayload k _ => fieldMoves types t k

def movesFrom : List PlaceProjection → TypeId → List Move
  | [], _ => []
  | p :: ps, t => placeMoves types t p ++ movesFrom ps ((placePart types t p).elim t (·.type))

def SemPlace.moves (locals : LocalId → TypeId) (place : SemPlace) : List Move :=
  movesFrom types place.projections (locals place.root)

/-! ## Storage -/

/-- How many bits an object has and where its parts are. -/
structure Layout where
  size : TypeId → ℕ
  offset : TypeId → ℕ → ℕ
  /-- Where in its region the object of a computed field is. -/
  computed : TypeId → ℕ → ℕ

/-- The objects of the types and of their parts fit into each other, and the fields of a struct that
is its own carrier lie apart. -/
structure Layout.Fits (L : Layout) : Prop where
  pointer : ∀ t p u q, types t = .reference p → types u = .reference q →
    0 < L.size t ∧ L.size t = L.size u
  slice : ∀ t e, types t = .slice e → 0 < L.size t
  array : ∀ t e n, types t = .array e n → n * L.size e ≤ L.size t
  carrier : ∀ t kind fields c, types t = .nominal kind fields (some c) → L.size c ≤ L.size t
  field : ∀ t kind fields carrier (k : ℕ) f, types t = .nominal kind fields carrier →
    fields[k]? = some f → L.offset t k + L.size f.type ≤ L.size t
  apart : ∀ t kind fields (j k : ℕ) f g, types t = .nominal kind fields none → kind ≠ .union →
    fields[j]? = some f → fields[k]? = some g → j ≠ k →
    L.offset t j + L.size f.type ≤ L.offset t k ∨ L.offset t k + L.size g.type ≤ L.offset t j

/-- An object in storage.  What a reference refers to is a block of its own, which the bit at which
the reference begins leads to. -/
structure Object where
  block : List ℕ
  offset : ℕ
  width : ℕ
  type : TypeId

namespace Object

variable (o : Object)

/-- The bits of the object. -/
def bits : Set (List ℕ) :=
  {b | ∃ d, b = o.block ++ [d] ∧ o.offset ≤ d ∧ d < o.offset + o.width}

/-- The bits of the object and of all that references in it lead to. -/
def reach : Set (List ℕ) :=
  {b | ∃ d rest, b = o.block ++ d :: rest ∧ o.offset ≤ d ∧ d < o.offset + o.width}

def part (L : Layout) (offset : ℕ) (t : TypeId) : Object :=
  ⟨o.block, o.offset + offset, L.size t, t⟩

/-- A block that the object leads to. -/
def behind (L : Layout) (offset : ℕ) (t : TypeId) : Object :=
  ⟨o.block ++ [o.offset], offset, L.size t, t⟩

end Object

/-- An object is seen as its carrier, and a reference to it as one to the carrier. -/
inductive Viewable : TypeId → TypeId → Prop
  | carrier {t kind fields c} : types t = .nominal kind fields (some c) → Viewable t c
  | reference {t p u c kind fields} : types t = .reference p → types u = .reference c →
    types p = .nominal kind fields (some c) → Viewable t u

abbrev SeenAs : TypeId → TypeId → Prop := Relation.ReflTransGen (Viewable types)

/-- Where a move leads; an element that is not known is any of them. -/
inductive Step (L : Layout) (o : Object) : Move → Object → Prop
  | dereference {t p} : SeenAs types o.type t → types t = .reference p →
    Step L o (.dereference t) (o.behind L 0 p)
  | element {t e n i} : SeenAs types o.type t → types t = .array e n → i < n →
    Step L o (.element t i) (o.part L (i * L.size e) e)
  | anyElement {t e n i} : SeenAs types o.type t → types t = .array e n → i < n →
    Step L o (.anyElement t) (o.part L (i * L.size e) e)
  | sliceElement {t e i} : SeenAs types o.type t → types t = .slice e →
    Step L o (.anyElement t) (o.behind L (i * L.size e) e)
  | field {t n k f} : SeenAs types o.type t → types.fieldNamed t n = some (k, f) →
    Step L o (.field t n) (o.part L (L.offset t k) f.type)
  | member {t fields carrier k f} : SeenAs types o.type t →
    types t = .nominal .union fields carrier → fields[k]? = some f →
    Step L o (.member t k) (o.part L (L.offset t k) f.type)
  | computed {t kind f k} : types.field? t k = some (kind, f) →
    L.computed t k + L.size f.type ≤ o.width →
    Step L o (.computed t k) (o.part L (L.computed t k) f.type)

/-- Where the moves lead. -/
inductive Arrives (L : Layout) : Object → List Move → Object → Prop
  | here {o} : Arrives L o [] o
  | bits {o first last} : last ≤ o.width →
    Arrives L o [.bits first last] { o with offset := o.offset + first, width := last - first }
  | step {o m p ms c} : Step types L o m p → Arrives L p ms c → Arrives L o (m :: ms) c

/-- Some choice of the elements that are not known gives the two places a common bit. -/
def SharesBit (L : Layout) (locals : LocalId → TypeId) (p q : SemPlace) : Prop :=
  p.root = q.root ∧ ∃ c d,
    Arrives types L ⟨[], 0, L.size (locals p.root), locals p.root⟩ (p.moves types locals) c ∧
    Arrives types L ⟨[], 0, L.size (locals q.root), locals q.root⟩ (q.moves types locals) d ∧
    (c.bits ∩ d.bits).Nonempty

/-! ## Places that name their parts in the same types -/

/-- The type is no union and has no carrier. -/
def Types.plain (t : TypeId) : Bool :=
  match types t with
  | .nominal kind _ carrier => kind ≠ .union && carrier.isNone
  | _ => true

/-- As long as the components of the two ways agree, they were named in the same type, and where
they differ, that type is no union and has no carrier.  Nothing is projected from a computed field
that only one of the ways goes through. -/
def sameSteps : List Move → List Move → Bool
  | m :: ms, n :: ns =>
    if m.isSilent ∧ m = n then sameSteps ms ns
    else if m.isComputed ∧ ms.all Move.isSilent ∨ n.isComputed ∧ ns.all Move.isSilent then true
    else match m.component?, n.component? with
      | some .union, some .union => true
      | some c, some d =>
        decide (m.owner = n.owner) && if c.meets d then sameSteps ms ns else types.plain m.owner
      | none, none => m.range?.isSome && n.range?.isSome
      | _, _ => false
  | _, _ => true

end

/-! ## Parts lie in their objects -/

section

variable {types : Types} {L : Layout} {o p : Object} {m : Move} {ms : List Move} {c : Object}

/-- An object is as wide as its type at least. -/
def Object.Wide (L : Layout) (o : Object) : Prop := L.size o.type ≤ o.width

lemma SeenAs.size_le (hL : L.Fits types) {t u : TypeId} (h : SeenAs types t u) :
    L.size u ≤ L.size t := by
  induction h with
  | refl => exact le_rfl
  | tail _ hview ih =>
    refine le_trans ?_ ih
    cases hview with
    | carrier hc => exact hL.carrier _ _ _ _ hc
    | reference hr hs _ => exact (hL.pointer _ _ _ _ hr hs).2.ge

lemma wide_part (offset : ℕ) (t : TypeId) : (o.part L offset t).Wide L := le_rfl

lemma wide_behind (offset : ℕ) (t : TypeId) : (o.behind L offset t).Wide L := le_rfl

lemma reach_part {offset : ℕ} {t : TypeId} (h : offset + L.size t ≤ o.width) :
    (o.part L offset t).reach ⊆ o.reach := by
  rintro b ⟨d, rest, rfl, hlow, hhigh⟩
  simp only [Object.part] at hlow hhigh
  exact ⟨d, rest, rfl, by omega, by omega⟩

lemma reach_behind {offset : ℕ} {t : TypeId} (h : 0 < o.width) :
    (o.behind L offset t).reach ⊆ o.reach := by
  rintro b ⟨d, rest, rfl, -, -⟩
  exact ⟨o.offset, d :: rest, by simp [Object.behind], le_rfl, by omega⟩

lemma fieldNamed_eq_some {t : TypeId} {n : NameId} {k : ℕ} {f : SemNominalField}
    (h : types.fieldNamed t n = some (k, f)) : f.name = n ∧
      ∃ kind fields carrier, types t = .nominal kind fields carrier ∧ fields[k]? = some f := by
  rw [Types.fieldNamed] at h
  split at h
  next kind fields carrier ht =>
    obtain ⟨j, hj, h⟩ := Option.bind_eq_some_iff.1 h
    obtain ⟨g, hg, h⟩ := Option.map_eq_some_iff.1 h
    cases h
    obtain ⟨hlt, hname, -⟩ := List.findIdx?_eq_some_iff_getElem.1 hj
    refine ⟨?_, kind, fields, carrier, ht, hg⟩
    rw [List.getElem?_eq_getElem hlt, Option.some_inj] at hg
    rw [← hg]
    exact of_decide_eq_true hname
  next => cases h

lemma field?_eq_some {t : TypeId} {k : ℕ} {kind : NominalKind} {f : SemNominalField}
    (h : types.field? t k = some (kind, f)) :
    ∃ fields carrier, types t = .nominal kind fields carrier ∧ fields[k]? = some f := by
  rw [Types.field?] at h
  split at h
  next kind fields carrier ht =>
    obtain ⟨g, hg, h⟩ := Option.map_eq_some_iff.1 h
    cases h
    exact ⟨fields, carrier, ht, hg⟩
  next => cases h

lemma succ_mul_le {i n s : ℕ} (h : i < n) : i * s + s ≤ n * s := by
  rw [← Nat.succ_mul]
  exact Nat.mul_le_mul_right s h

/-- A move leads into the object or to what its references lead to. -/
lemma Step.reach_subset (hL : L.Fits types) (ho : o.Wide L) (h : Step types L o m p) :
    p.Wide L ∧ p.reach ⊆ o.reach := by
  have hfits {t : TypeId} {offset : ℕ} {u : TypeId} (hview : SeenAs types o.type t)
      (hpart : offset + L.size u ≤ L.size t) : (o.part L offset u).reach ⊆ o.reach :=
    reach_part (hpart.trans ((SeenAs.size_le hL hview).trans ho))
  cases h with
  | dereference hview ht =>
    have hpos := (hL.pointer _ _ _ _ ht ht).1
    exact ⟨wide_behind _ _, reach_behind (hpos.trans_le ((SeenAs.size_le hL hview).trans ho))⟩
  | element hview ht hi | anyElement hview ht hi =>
    exact ⟨wide_part _ _, hfits hview ((succ_mul_le hi).trans (hL.array _ _ _ ht))⟩
  | sliceElement hview ht =>
    have hpos := hL.slice _ _ ht
    exact ⟨wide_behind _ _, reach_behind (hpos.trans_le ((SeenAs.size_le hL hview).trans ho))⟩
  | field hview hf =>
    obtain ⟨-, kind, fields, carrier, ht, hk⟩ := fieldNamed_eq_some hf
    exact ⟨wide_part _ _, hfits hview (hL.field _ _ _ _ _ _ ht hk)⟩
  | member hview ht hk => exact ⟨wide_part _ _, hfits hview (hL.field _ _ _ _ _ _ ht hk)⟩
  | computed _ hinside => exact ⟨wide_part _ _, reach_part hinside⟩

lemma Arrives.bits_subset (hL : L.Fits types) (h : Arrives types L o ms c) (ho : o.Wide L) :
    c.bits ⊆ o.reach := by
  induction h with
  | here =>
    rintro b ⟨d, rfl, hd⟩
    exact ⟨d, [], rfl, hd⟩
  | bits hlast =>
    rintro b ⟨d, rfl, hlow, hhigh⟩
    simp only at hlow hhigh
    exact ⟨d, [], rfl, by omega, by omega⟩
  | step hstep _ ih =>
    obtain ⟨hwide, hreach⟩ := hstep.reach_subset hL ho
    exact (ih hwide).trans hreach

/-! ## Places in lockstep -/

/-- Two objects begin at the same bit. -/
def Object.Meets (o q : Object) : Prop := o.block = q.block ∧ o.offset = q.offset

/-- Two objects lie apart in one block. -/
def Object.Apart (o q : Object) : Prop :=
  o.block = q.block ∧ (o.offset + o.width ≤ q.offset ∨ q.offset + q.width ≤ o.offset)

lemma Object.Apart.reach {q : Object} (h : o.Apart q) {b : List ℕ} (hb : b ∈ o.reach)
    (hq : b ∈ q.reach) : False := by
  obtain ⟨d, rest, rfl, hlow, hhigh⟩ := hb
  obtain ⟨e, rest', heq, hlow', hhigh'⟩ := hq
  rw [h.1, List.append_cancel_left_eq, List.cons.injEq] at heq
  obtain ⟨rfl, -⟩ := heq
  obtain h | h := h.2 <;> omega

variable {o' q : Object} {n : Move} {ns : List Move} {d : Object}

/-- What a move to a component does, if it is no member of a union. -/
lemma Step.of_component (hp : Step types L o m p) {c : Component} (hc : m.component? = some c) :
    (c = .union ∧ types.plain m.owner = false) ∨
    (∃ name k f, c = .field name ∧ types.fieldNamed m.owner name = some (k, f) ∧
      p = o.part L (L.offset m.owner k) f.type) ∨
    ∃ e i, (c = .element i ∨ c = .anyElement 0) ∧
      ((∃ count, types m.owner = .array e count) ∧ p = o.part L (i * L.size e) e ∨
        types m.owner = .slice e ∧ p = o.behind L (i * L.size e) e) := by
  cases hp with
  | dereference | computed => cases hc
  | field _ hf =>
    cases hc
    exact .inr (.inl ⟨_, _, _, rfl, hf, rfl⟩)
  | member _ ht =>
    cases hc
    exact .inl ⟨rfl, by simp [Types.plain, Move.owner, ht]⟩
  | element _ ht =>
    cases hc
    exact .inr (.inr ⟨_, _, .inl rfl, .inl ⟨⟨_, ht⟩, rfl⟩⟩)
  | anyElement _ ht =>
    cases hc
    exact .inr (.inr ⟨_, _, .inr rfl, .inl ⟨⟨_, ht⟩, rfl⟩⟩)
  | sliceElement _ ht =>
    cases hc
    exact .inr (.inr ⟨_, _, .inr rfl, .inr ⟨ht, rfl⟩⟩)

/-- Elements with different indices lie apart. -/
lemma elements_apart {i j s : ℕ} (h : i ≠ j) : i * s + s ≤ j * s ∨ j * s + s ≤ i * s :=
  (Nat.lt_or_gt_of_ne h).imp succ_mul_le succ_mul_le

/-- Fields of a type that is no union and has no carrier lie apart. -/
lemma fields_apart (hL : L.Fits types) (hmeets : o.Meets o') {t : TypeId} {name name' : NameId}
    {j k : ℕ} {f g : SemNominalField} (hplain : types.plain t = true) (hne : name ≠ name')
    (hf : types.fieldNamed t name = some (j, f)) (hg : types.fieldNamed t name' = some (k, g)) :
    (o.part L (L.offset t j) f.type).Apart (o'.part L (L.offset t k) g.type) := by
  obtain ⟨hname, kind, fields, carrier, ht, hj⟩ := fieldNamed_eq_some hf
  obtain ⟨hname', _, _, _, ht', hk⟩ := fieldNamed_eq_some hg
  rw [ht] at ht'
  cases ht'
  rw [Types.plain, ht] at hplain
  simp only [Bool.and_eq_true, decide_eq_true_eq, Option.isNone_iff_eq_none] at hplain
  obtain ⟨hkind, rfl⟩ := hplain
  have hindex : j ≠ k := by
    rintro rfl
    rw [hj, Option.some_inj] at hk
    exact hne (by rw [← hname, ← hname', hk])
  have := hL.apart _ _ _ _ _ _ _ ht hkind hj hk hindex
  refine ⟨hmeets.1, ?_⟩
  simp only [Object.part, hmeets.2]
  omega

/-- Parts that are named in the same type begin at the same bit, or they lie apart. -/
lemma Step.meets_or_apart (hL : L.Fits types) (hmeets : o.Meets o') (hp : Step types L o m p)
    (hq : Step types L o' n q) (howner : m.owner = n.owner) {c d : Component}
    (hc : m.component? = some c) (hd : n.component? = some d) (hunion : ¬ (c = .union ∧ d = .union))
    (hplain : c.meets d = false → types.plain m.owner = true) :
    p.Meets q ∧ c.meets d = true ∨ p.Apart q := by
  obtain ⟨hblock, hoffset⟩ := id hmeets
  obtain ⟨rfl, hm⟩ | ⟨name, j, f, rfl, hf, rfl⟩ | ⟨e, i, hc, hp⟩ := hp.of_component hc
  all_goals
    obtain ⟨rfl, hn⟩ | ⟨name', k, g, rfl, hg, rfl⟩ | ⟨e', i', hd, hq⟩ := hq.of_component hd
    all_goals rw [← howner] at *
  · exact absurd ⟨rfl, rfl⟩ hunion
  · cases hm.symm.trans (hplain rfl)
  · cases hm.symm.trans (hplain (by obtain rfl | rfl := hd <;> rfl))
  · cases hn.symm.trans (hplain rfl)
  · by_cases hname : name = name'
    · subst hname
      rw [hf] at hg
      cases hg
      exact .inl ⟨⟨hblock, by simp only [Object.part, hoffset]⟩, by simp [Component.meets]⟩
    · have hdiffer : (Component.field name).meets (.field name') = false := by
        simp [Component.meets, Component.elementWildcard, hname]
      exact .inr (fields_apart hL hmeets (hplain hdiffer) hname hf hg)
  · obtain ⟨-, _, _, _, ht, -⟩ := fieldNamed_eq_some hf
    obtain ⟨⟨_, ht'⟩, -⟩ | ⟨ht', -⟩ := hq <;> cases ht.symm.trans ht'
  · cases hn.symm.trans (hplain (by obtain rfl | rfl := hc <;> rfl))
  · obtain ⟨-, _, _, _, ht', -⟩ := fieldNamed_eq_some hg
    obtain ⟨⟨_, ht⟩, -⟩ | ⟨ht, -⟩ := hp <;> cases ht.symm.trans ht'
  · have hagree : i = i' → c.meets d = true := by
      rintro rfl
      obtain rfl | rfl := hc <;> obtain rfl | rfl := hd <;>
        simp [Component.meets, Component.elementWildcard]
    obtain ⟨⟨_, ht⟩, rfl⟩ | ⟨ht, rfl⟩ := hp
    all_goals
      obtain ⟨⟨_, ht'⟩, rfl⟩ | ⟨ht', rfl⟩ := hq <;> cases ht.symm.trans ht'
      by_cases hindex : i = i'
      · exact .inl ⟨⟨by simp only [Object.part, Object.behind, hblock, hoffset],
          by simp only [Object.part, Object.behind, hoffset, hindex]⟩, hagree hindex⟩
      · have := elements_apart (s := L.size e) hindex
        refine .inr ⟨by simp only [Object.part, Object.behind, hblock, hoffset], ?_⟩
        simp only [Object.part, Object.behind, hoffset]
        omega

/-! ## Regions that share a bit overlap -/

/-- The ranges of bits meet, or one of them is missing. -/
def rangesMeet : Option (ℕ × ℕ) → Option (ℕ × ℕ) → Bool
  | some (first, last), some (first', last') => decide (max first first' < min last last')
  | _, _ => true

lemma rangesMeet_none_right (r : Option (ℕ × ℕ)) : rangesMeet r none = true := by
  cases r <;> rfl

lemma overlapsFrom_nil_left (l : List Component) : overlapsFrom [] l true = true := by
  cases l <;> rfl

lemma overlapsFrom_nil_right (l : List Component) : overlapsFrom l [] true = true := by
  rcases l with - | ⟨- | - | - | -, l⟩ <;> rfl

/-- The components of a region. -/
def componentsOf (ms : List Move) : List Component := ms.filterMap Move.component?

lemma overlapsFrom_cons {c d : Component} {l l' : List Component} {bits : Bool}
    (hmeets : c.meets d = true) (h : overlapsFrom l l' bits = true) :
    overlapsFrom (c :: l) (d :: l') bits = true := by
  cases c <;> cases d <;> simp [overlapsFrom, hmeets, h]

/-- Moves that add nothing to a region. -/
lemma of_silent (h : ms.all Move.isSilent = true) : componentsOf ms = [] ∧ rangeOf ms = none := by
  induction ms with
  | nil => exact ⟨rfl, rfl⟩
  | cons m ms ih =>
    rw [List.all_cons, Bool.and_eq_true] at h
    obtain ⟨hcomponents, hrange⟩ := ih h.2
    cases m with
    | dereference | computed => exact ⟨hcomponents, by rw [rangeOf, hrange]; rfl⟩
    | _ => cases h.1

lemma Step.meets_of_silent (hmeets : o.Meets o') (hp : Step types L o m p)
    (hq : Step types L o' m q) (hm : m.isSilent = true) : p.Meets q := by
  obtain ⟨hblock, hoffset⟩ := hmeets
  cases hp with
  | dereference =>
    cases hq
    exact ⟨by simp only [Object.behind, hblock, hoffset], rfl⟩
  | computed =>
    cases hq
    exact ⟨hblock, by simp only [Object.part, hoffset]⟩
  | _ => cases hm

/-- The way ends in a range of bits, or its first move leads to an object. -/
lemma Arrives.cons (h : Arrives types L o (m :: ms) c) :
    (∃ first last, m = .bits first last ∧ ms = [] ∧
      c = { o with offset := o.offset + first, width := last - first }) ∨
    m.range? = none ∧ ∃ p, Step types L o m p ∧ Arrives types L p ms c := by
  cases h with
  | bits => exact .inl ⟨_, _, rfl, rfl, rfl⟩
  | step hstep h => exact .inr ⟨by cases hstep <;> rfl, _, hstep, h⟩

/-- **Places that share a bit.**  Induction along the two ways: as long as the components agree they
are at the same bit, and where the components differ the parts lie apart. -/
theorem overlapsFrom_of_shared (hL : L.Fits types) (hmeets : o.Meets o') (ho : o.Wide L)
    (ho' : o'.Wide L) (hc : Arrives types L o ms c) (hd : Arrives types L o' ns d)
    (hsame : sameSteps types ms ns = true) (hshared : (c.bits ∩ d.bits).Nonempty) :
    overlapsFrom (componentsOf ms) (componentsOf ns) (rangesMeet (rangeOf ms) (rangeOf ns)) =
      true := by
  induction ms generalizing o o' ns with
  | nil => exact overlapsFrom_nil_left _
  | cons m ms ih =>
    cases ns with
    | nil =>
      rw [show rangeOf [] = none from rfl, rangesMeet_none_right]
      exact overlapsFrom_nil_right _
    | cons n ns =>
      rw [sameSteps] at hsame
      split at hsame
      next hsilent =>
        obtain ⟨hsilent, rfl⟩ := hsilent
        obtain ⟨_, _, rfl, -⟩ | ⟨-, p, hp, hc⟩ := hc.cons
        · cases hsilent
        obtain ⟨_, _, rfl, -⟩ | ⟨-, q, hq, hd⟩ := hd.cons
        · cases hsilent
        have hnext := ih (hp.meets_of_silent hmeets hq hsilent) (hp.reach_subset hL ho).1
          (hq.reach_subset hL ho').1 hc hd hsame
        have hdrop (l : List Move) :
            componentsOf (m :: l) = componentsOf l ∧ rangeOf (m :: l) = rangeOf l := by
          cases m with
          | dereference | computed => exact ⟨rfl, by simp [rangeOf, Move.range?]⟩
          | _ => cases hsilent
        rwa [(hdrop ms).1, (hdrop ns).1, (hdrop ms).2, (hdrop ns).2]
      next =>
        split at hsame
        next hends =>
          have hsilent {m : Move} (h : m.isComputed = true) : m.isSilent = true := by
            cases m <;> first | rfl | cases h
          obtain ⟨hm, hms⟩ | ⟨hn, hns⟩ := hends
          · have hall : (m :: ms).all Move.isSilent = true := by
              rw [List.all_cons, hsilent hm, hms]
              rfl
            obtain ⟨hcomponents, hrange⟩ := of_silent hall
            rw [hcomponents, hrange]
            exact overlapsFrom_nil_left _
          · have hall : (n :: ns).all Move.isSilent = true := by
              rw [List.all_cons, hsilent hn, hns]
              rfl
            obtain ⟨hcomponents, hrange⟩ := of_silent hall
            rw [hcomponents, hrange, rangesMeet_none_right]
            exact overlapsFrom_nil_right _
        next =>
          split at hsame
          next hm hn =>
            simp only [componentsOf, List.filterMap_cons, hm, hn]
            rfl
          next cm cn hunion hm hn =>
            rw [Bool.and_eq_true, decide_eq_true_eq] at hsame
            obtain ⟨howner, hnext⟩ := hsame
            obtain ⟨_, _, rfl, -⟩ | ⟨hrange, p, hp, hc⟩ := hc.cons
            · cases hm
            obtain ⟨_, _, rfl, -⟩ | ⟨hrange', q, hq, hd⟩ := hd.cons
            · cases hn
            obtain ⟨hwide, hreach⟩ := hp.reach_subset hL ho
            obtain ⟨hwide', hreach'⟩ := hq.reach_subset hL ho'
            obtain ⟨hpq, hagree⟩ | hapart := hp.meets_or_apart hL hmeets hq howner hm hn
              (fun h => hunion h.1 h.2) fun hdiffer => by rwa [if_neg (by simp [hdiffer])] at hnext
            · rw [if_pos hagree] at hnext
              have hnext := ih hpq hwide hwide' hc hd hnext
              simp only [componentsOf, List.filterMap_cons, hm, hn, rangeOf, hrange, hrange',
                Option.or_none]
              exact overlapsFrom_cons hagree hnext
            · obtain ⟨b, hb, hb'⟩ := hshared
              exact (hapart.reach (hc.bits_subset hL hwide hb) (hd.bits_subset hL hwide' hb')).elim
          next hm hn =>
            simp only [Bool.and_eq_true, Option.isSome_iff_exists] at hsame
            obtain ⟨⟨_, hm⟩, ⟨_, hn⟩⟩ := hsame
            obtain ⟨first, last, rfl, rfl, rfl⟩ | ⟨hrange, -⟩ := hc.cons
            · obtain ⟨first', last', rfl, rfl, rfl⟩ | ⟨hrange, -⟩ := hd.cons
              · obtain ⟨b, ⟨e, rfl, hlow, hhigh⟩, ⟨e', heq, hlow', hhigh'⟩⟩ := hshared
                simp only [hmeets.1, List.append_cancel_left_eq, List.cons.injEq, and_true] at heq
                simp only [hmeets.2] at hlow hhigh
                simp only at hlow' hhigh'
                refine decide_eq_true (?_ : max first first' < min last last')
                omega
              · cases hn.symm.trans hrange
            · cases hm.symm.trans hrange
          next => cases hsame

end

/-! ## The regions of places and of callees -/

section

variable {types : Types} {locals : LocalId → TypeId} {r s : Region} {t : TypeId}

def Region.range (r : Region) : Option (ℕ × ℕ) :=
  if r.bitRange then some (r.bitBegin, r.bitEnd) else none

lemma bitsMeet_eq : r.bitsMeet s = rangesMeet r.range s.range := by
  cases hr : r.bitRange <;> cases hs : s.bitRange <;>
    simp [Region.bitsMeet, Region.range, rangesMeet, hr, hs]

lemma rangesMeet_comm (a b : Option (ℕ × ℕ)) : rangesMeet a b = rangesMeet b a := by
  cases a <;> cases b <;> simp [rangesMeet, max_comm, min_comm]

lemma meets_comm (c d : Component) : c.meets d = d.meets c := by
  cases c <;> cases d <;> simp [Component.meets, Component.elementWildcard, eq_comm]

lemma overlapsFrom_comm (l m : List Component) (bits : Bool) :
    overlapsFrom l m bits = overlapsFrom m l bits := by
  induction l generalizing m with
  | nil => rcases m with - | ⟨- | - | - | -, m⟩ <;> rfl
  | cons c l ih =>
    rcases m with - | ⟨d, m⟩
    · cases c <;> rfl
    · cases c <;> cases d <;> simp only [overlapsFrom, ih m, meets_comm]

lemma overlaps_comm (r s : Region) : r.overlaps s = s.overlaps r := by
  rw [Region.overlaps, Region.overlaps, overlapsFrom_comm, bitsMeet_eq, bitsMeet_eq,
    rangesMeet_comm]
  congr 1
  exact decide_eq_decide.2 eq_comm

/-- The region is that of the way. -/
def Region.Describes (r : Region) (root : LocalId) (ms : List Move) : Prop :=
  r.root = root ∧ r.path = componentsOf ms ∧ r.range = rangeOf ms

lemma rangeOf_append (ms ns : List Move) : rangeOf (ms ++ ns) = (rangeOf ns).or (rangeOf ms) := by
  induction ms with
  | nil => simp [rangeOf]
  | cons m ms ih => rw [List.cons_append, rangeOf, ih, rangeOf, Option.or_assoc]

lemma componentsOf_append (ms ns : List Move) :
    componentsOf (ms ++ ns) = componentsOf ms ++ componentsOf ns := List.filterMap_append

lemma of_lookups (types : Types) (t : TypeId) (names : List NameId) :
    componentsOf (lookups types t names) = names.map .field ∧
      rangeOf (lookups types t names) = none := by
  induction names generalizing t with
  | nil => exact ⟨rfl, rfl⟩
  | cons n names ih =>
    obtain ⟨hcomponents, hrange⟩ := ih ((types.fieldNamed t n).elim t (·.2.type))
    exact ⟨congrArg (Component.field n :: ·) hcomponents, by rw [lookups, rangeOf, hrange]; rfl⟩

lemma of_fieldMoves {k : ℕ} {kind : NominalKind} {f : SemNominalField}
    (h : types.field? t k = some (kind, f)) :
    componentsOf (fieldMoves types t k) = f.components kind ∧
      rangeOf (fieldMoves types t k) = f.bits kind := by
  obtain ⟨fields, carrier, ht, hk⟩ := field?_eq_some h
  simp only [fieldMoves, ht, hk, SemNominalField.components]
  by_cases hunion : kind = .union
  · rw [if_pos hunion, if_pos hunion]
    exact ⟨rfl, by simp [SemNominalField.bits, hunion, rangeOf, Move.range?]⟩
  rw [if_neg hunion, if_neg hunion]
  by_cases hcomputed : f.projectionKind = .computed
  · obtain ⟨hcomponents, hrange⟩ := of_lookups types (carrier.getD t) f.projectionRegionPath
    rw [if_pos hcomputed, if_pos hcomputed, componentsOf_append, hcomponents, rangeOf_append,
      hrange]
    exact ⟨List.append_nil _, by simp [SemNominalField.bits, hcomputed, rangeOf, Move.range?]⟩
  · obtain ⟨hcomponents, hrange⟩ := of_lookups types (carrier.getD t) f.storage
    rw [if_neg hcomputed, if_neg hcomputed, componentsOf_append, hcomponents, rangeOf_append,
      hrange]
    cases f.bits kind with
    | none => exact ⟨List.append_nil _, rfl⟩
    | some range => exact ⟨List.append_nil _, rfl⟩

lemma of_placePart {p : PlaceProjection} {part : Part} (h : placePart types t p = some part) :
    componentsOf (placeMoves types t p) = part.components ∧
      rangeOf (placeMoves types t p) = part.bits := by
  cases p with
  | carrierView u =>
    cases h
    exact ⟨rfl, rfl⟩
  | field k | enumPayload k =>
    obtain ⟨⟨kind, f⟩, hf, rfl⟩ := Option.map_eq_some_iff.1 h
    exact of_fieldMoves hf
  | _ =>
    rw [placePart] at h
    split at h <;> cases h
    all_goals exact ⟨rfl, rfl⟩

lemma range_extend (part : Part) : (r.extend part).range = part.bits.or r.range := by
  cases hbits : part.bits <;> simp [Region.extend, hbits, Region.range]

lemma path_extend (part : Part) : (r.extend part).path = r.path ++ part.components := by
  cases hbits : part.bits <;> simp [Region.extend, hbits]

lemma root_extend (part : Part) : (r.extend part).root = r.root := by
  cases hbits : part.bits <;> simp [Region.extend, hbits]

lemma widened_extend (part : Part) : (r.extend part).widened = r.widened := by
  cases hbits : part.bits <;> simp [Region.extend, hbits]

lemma of_regionFrom {ps : List PlaceProjection} (h : regionFrom types ps t r = some s) :
    s.root = r.root ∧ s.path = r.path ++ componentsOf (movesFrom types ps t) ∧
      s.range = (rangeOf (movesFrom types ps t)).or r.range ∧ s.widened = r.widened := by
  induction ps generalizing t r with
  | nil =>
    cases h
    exact ⟨rfl, (List.append_nil _).symm, rfl, rfl⟩
  | cons p ps ih =>
    rw [regionFrom] at h
    split at h
    next part hpart =>
      obtain ⟨hroot, hpath, hrange, hwidened⟩ := ih h
      obtain ⟨hcomponents, hbits⟩ := of_placePart hpart
      rw [path_extend] at hpath
      rw [range_extend] at hrange
      rw [movesFrom, hpart, componentsOf_append, rangeOf_append, hcomponents, hbits, hpath, hrange,
        List.append_assoc, Option.or_assoc]
      exact ⟨hroot.trans (root_extend part), rfl, rfl, hwidened.trans (widened_extend part)⟩
    next => cases h

lemma describes_of_regionFor {p : SemPlace} (h : regionFor types locals p = some r) :
    r.Describes p.root (p.moves types locals) ∧ r.widened = false := by
  obtain ⟨hroot, hpath, hrange, hwidened⟩ := of_regionFrom h
  exact ⟨⟨hroot, hpath, hrange.trans (Option.or_none ..)⟩, hwidened⟩

/-- The regions of two ways to a common bit overlap. -/
lemma Region.Describes.overlaps {L : Layout} (hL : L.Fits types) {p q : SemPlace}
    (hr : r.Describes p.root (p.moves types locals))
    (hs : s.Describes q.root (q.moves types locals))
    (hsame : sameSteps types (p.moves types locals) (q.moves types locals) = true)
    (h : SharesBit types L locals p q) : r.overlaps s = true := by
  obtain ⟨hroot, c, d, hc, hd, hshared⟩ := h
  rw [Region.overlaps, Bool.and_eq_true, bitsMeet_eq, hr.2.1, hr.2.2, hs.2.1, hs.2.2]
  rw [hroot] at hc
  exact ⟨decide_eq_true (hr.1.trans (hroot.trans hs.1.symm)),
    overlapsFrom_of_shared hL ⟨rfl, rfl⟩ le_rfl le_rfl hc hd hsame hshared⟩

/-- The step of a place that a step of a callee's region is. -/
def sourceProjection (step : PublicInterface.OwnershipRegionStep) : PlaceProjection :=
  match step.kind with
  | .field => .field step.index
  | .staticElement => .element step.index
  | .anyElement => .anyElement
  | _ => .dereference

/-- The type of a place. -/
def typeFrom (types : Types) (ps : List PlaceProjection) (t : TypeId) : TypeId :=
  ps.foldl (fun t p => (placePart types t p).elim t (·.type)) t

/-- The part of a place that a callee's region is. -/
def SemPlace.project (p : SemPlace) (source : PublicInterface.OwnershipRegion) : SemPlace :=
  { p with projections := p.projections ++ source.path.map sourceProjection }

/-- A region of a callee as its summary is checked: an unknown element has the index 0, and a range
of bits is that of the field which the path ends in. -/
def SourceFits (types : Types) (t : TypeId) (source : PublicInterface.OwnershipRegion) : Prop :=
  (∀ step ∈ source.path, step.kind = .anyElement → step.index = 0) ∧
    (if source.hasBitRange then some (source.bitBegin, source.bitEnd) else none) =
      rangeOf (movesFrom types (source.path.map sourceProjection) (referent types t))

lemma movesFrom_append (ps qs : List PlaceProjection) :
    movesFrom types (ps ++ qs) t =
      movesFrom types ps t ++ movesFrom types qs (typeFrom types ps t) := by
  induction ps generalizing t with
  | nil => rfl
  | cons p ps ih => rw [List.cons_append, movesFrom, ih, movesFrom, List.append_assoc]; rfl

lemma of_sourcePart {step : PublicInterface.OwnershipRegionStep} {part : Part}
    (h : sourcePart types t step = some part) (hindex : step.kind = .anyElement → step.index = 0) :
    part.bits = none ∧ ∃ part', placePart types t (sourceProjection step) = some part' ∧
      part'.type = part.type ∧ part'.components = part.components := by
  rw [sourcePart] at h
  split at h
  next hkind ht =>
    split_ifs at h
    cases h
    exact ⟨rfl, _, by rw [sourceProjection, hkind, placePart, ht], rfl, rfl⟩
  next hkind ht =>
    cases h
    exact ⟨rfl, _, by rw [sourceProjection, hkind, placePart, ht], rfl, rfl⟩
  next e _ hkind ht =>
    cases h
    exact ⟨rfl, ⟨e, [.anyElement 0], none⟩, by rw [sourceProjection, hkind, placePart, ht], rfl,
      by rw [hindex hkind]⟩
  next kind fields carrier hkind ht =>
    obtain ⟨f, hf, rfl⟩ := Option.map_eq_some_iff.1 h
    refine ⟨rfl, ⟨f.type, f.components kind, f.bits kind⟩, ?_, rfl, rfl⟩
    simp only [sourceProjection, hkind, placePart, Types.field?, ht, hf, Option.map_some]
  next => cases h

lemma of_projectFrom {steps : List PublicInterface.OwnershipRegionStep}
    (h : projectFrom types steps t r = some s)
    (hindex : ∀ step ∈ steps, step.kind = .anyElement → step.index = 0) :
    s.root = r.root ∧ s.range = r.range ∧
      s.path = r.path ++ componentsOf (movesFrom types (steps.map sourceProjection) t) := by
  induction steps generalizing t r with
  | nil =>
    cases h
    exact ⟨rfl, rfl, (List.append_nil _).symm⟩
  | cons step steps ih =>
    rw [projectFrom] at h
    split at h
    next part hpart =>
      obtain ⟨hbits, part', hpart', htype, hcomponents⟩ :=
        of_sourcePart hpart (hindex step List.mem_cons_self)
      obtain ⟨hroot, hrange, hpath⟩ := ih h fun _ hmem => hindex _ (List.mem_cons_of_mem _ hmem)
      rw [path_extend] at hpath
      rw [range_extend, hbits] at hrange
      rw [List.map_cons, movesFrom, hpart', componentsOf_append, (of_placePart hpart').1, hpath,
        List.append_assoc, hcomponents, Option.elim_some, htype]
      exact ⟨hroot.trans (root_extend part), hrange, rfl⟩
    next => cases h

/-- The projected region is that of the part, or it is all of the local. -/
lemma describes_of_projectRegion {p : SemPlace} {source : PublicInterface.OwnershipRegion}
    {projected : Region} (hr : regionFor types locals p = some r)
    (htype : typeFrom types p.projections (locals p.root) = referent types t)
    (hsource : SourceFits types t source)
    (h : projectRegion types r t source = some projected) :
    projected.Describes p.root ((p.project source).moves types locals) ∨
      projected.Describes p.root [] := by
  obtain ⟨hindex, hbits⟩ := hsource
  obtain ⟨⟨hroot, hpath, hrange⟩, hwidened⟩ := describes_of_regionFor hr
  rw [projectRegion, if_neg (by simp [hwidened])] at h
  obtain ⟨found, hfound, h⟩ := Option.map_eq_some_iff.1 h
  obtain ⟨hroot', hrange', hpath'⟩ := of_projectFrom hfound hindex
  rw [hroot] at hroot'
  rw [hpath] at hpath'
  rw [hrange] at hrange'
  set narrowed : Region := if source.hasBitRange then
      { found with bitRange := true, bitBegin := source.bitBegin, bitEnd := source.bitEnd }
    else found with hnarrowed
  have hdescribes : narrowed.Describes p.root ((p.project source).moves types locals) := by
    rw [Region.Describes, SemPlace.moves, SemPlace.project, movesFrom_append, htype,
      componentsOf_append, rangeOf_append, ← hbits, hnarrowed]
    split_ifs
    · exact ⟨hroot', hpath', rfl⟩
    · exact ⟨hroot', hpath', hrange'⟩
  dsimp only at h
  split at h
  · subst h
    exact .inr ⟨hdescribes.1, rfl, rfl⟩
  · exact .inl (h ▸ hdescribes)

end

/-! ## A storage path through a union -/

/-- The type 2 is represented by the union 1 of two words; its fields are the two alternatives. -/
def throughUnion : Types
  | 1 => .nominal .union [{ name := 0, type := 0 }, { name := 1, type := 0 }] none
  | 2 => .nominal .struct [{ name := 2, type := 0, storagePath := [0] },
      { name := 3, type := 0, storagePath := [1] }] (some 1)
  | _ => .other

/-- All words and the union begin at the same bit. -/
def word : Layout := ⟨fun _ => 32, fun _ _ => 0, fun _ _ => 0⟩

lemma word_fits : word.Fits throughUnion where
  pointer t p _ _ h := by
    unfold throughUnion at h
    split at h <;> cases h
  slice t e h := by
    unfold throughUnion at h
    split at h <;> cases h
  array t e n h := by
    unfold throughUnion at h
    split at h <;> cases h
  carrier _ _ _ _ _ := le_rfl
  field _ _ _ _ _ _ _ _ := le_rfl
  apart t _ _ _ _ _ _ h hkind := by
    unfold throughUnion at h
    split at h
    · cases h
      exact absurd rfl hkind
    · cases h
    · cases h

/-- A field of a local of the type 2. -/
def fieldPlace (k : ℕ) : SemPlace := ⟨0, [.field k]⟩

def fieldRegion (k : ℕ) : Region := { root := 0, path := [.field k] }

/-- Both fields are at the first bit of the carrier. -/
lemma shared_fields {j k : ℕ} (hj : j < 2) (hk : k < 2) :
    SharesBit throughUnion word (fun _ => 2) (fieldPlace j) (fieldPlace k) := by
  have harrives {k : ℕ} (h : k < 2) : ∃ t, Arrives throughUnion word ⟨[], 0, 32, 2⟩
      ((fieldPlace k).moves throughUnion fun _ => 2) ⟨[], 0, 32, t⟩ := by
    obtain rfl | rfl : k = 0 ∨ k = 1 := by omega
    all_goals exact ⟨_, .step (.field (.single (.carrier rfl)) rfl) .here⟩
  obtain ⟨_, hj⟩ := harrives hj
  obtain ⟨_, hk⟩ := harrives hk
  exact ⟨rfl, _, _, hj, hk,
    [0], ⟨0, rfl, le_rfl, Nat.zero_lt_succ _⟩, ⟨0, rfl, le_rfl, Nat.zero_lt_succ _⟩⟩

end Loans

end Chtholly
