import Chtholly.Codec.Words

/-!
# Readers of bytes that account for every access

The sizes of a decoder are 64-bit numbers and its bytes are read by their offsets.  Here an
operation on sizes that would wrap, and an access outside of the bytes, are faults; a failure of the
decoder is none.  A reader without faults is described by a function on the bytes that are left.

## Main definitions

* `Codec.Fault`, `Codec.Checked` — computations that may go wrong.
* `Codec.Reader`, `Codec.Read` — an offset into bytes, and the operations on it.
* `Codec.Refines` — an operation does, without a fault, what a function on the rest says.

## Main results

* `Codec.Refines.bind`, `Codec.refines_word`, `Codec.refines_bytes` — the operations have no faults.
* `Codec.restWord_eq_some`, `Codec.restBytes_eq_some` — what is read is what was written.
-/

set_option autoImplicit false

namespace Chtholly

namespace Codec

/-! ## Faults -/

inductive Fault
  | wrapped
  | outside
  deriving DecidableEq

abbrev Checked := Except Fault

@[simp]
lemma checked_bind {α β : Type} (value : α) (next : α → Checked β) :
    ((Except.ok value : Checked α) >>= next) = next value := rfl

@[simp]
lemma checked_pure {α : Type} (value : α) : (pure value : Checked α) = .ok value := rfl

/-- The sum of two sizes. -/
def sizeAdd (lhs rhs : ℕ) : Checked ℕ :=
  if lhs + rhs < 2 ^ 64 then .ok (lhs + rhs) else .error .wrapped

/-- The difference of two sizes. -/
def sizeSub (lhs rhs : ℕ) : Checked ℕ :=
  if rhs ≤ lhs then .ok (lhs - rhs) else .error .wrapped

/-- A size as a 32-bit number. -/
def narrow (size : ℕ) : Checked UInt32 :=
  if size < 2 ^ 32 then .ok (UInt32.ofNat size) else .error .wrapped

/-- `bytes[index]`. -/
def byteAt (bytes : List UInt8) (index : ℕ) : Checked UInt8 :=
  match bytes[index]? with
  | some byte => .ok byte
  | none => .error .outside

/-- `count` bytes from an offset on. -/
def slice (bytes : List UInt8) (offset count : ℕ) : Checked (List UInt8) :=
  if offset + count ≤ bytes.length then .ok ((bytes.drop offset).take count) else .error .outside

/-- The bytes from an offset on. -/
def sliceFrom (bytes : List UInt8) (offset : ℕ) : Checked (List UInt8) :=
  if offset ≤ bytes.length then .ok (bytes.drop offset) else .error .outside

lemma sizeAdd_eq {lhs rhs : ℕ} (h : lhs + rhs < 2 ^ 64) : sizeAdd lhs rhs = .ok (lhs + rhs) :=
  if_pos h

lemma sizeSub_eq {lhs rhs : ℕ} (h : rhs ≤ lhs) : sizeSub lhs rhs = .ok (lhs - rhs) := if_pos h

lemma narrow_eq {size : ℕ} (h : size < 2 ^ 32) : narrow size = .ok (UInt32.ofNat size) := if_pos h

lemma slice_eq {bytes : List UInt8} {offset count : ℕ} (h : offset + count ≤ bytes.length) :
    slice bytes offset count = .ok ((bytes.drop offset).take count) := if_pos h

lemma sliceFrom_eq {bytes : List UInt8} {offset : ℕ} (h : offset ≤ bytes.length) :
    sliceFrom bytes offset = .ok (bytes.drop offset) := if_pos h

lemma byteAt_eq {bytes rest : List UInt8} {offset : ℕ} {byte : UInt8}
    (h : bytes.drop offset = byte :: rest) : byteAt bytes offset = .ok byte := by
  have hget : bytes[offset]? = some byte := by
    rw [← Nat.add_zero offset, ← List.getElem?_drop, h]
    rfl
  rw [byteAt, hget]

/-! ## Readers -/

/-- Bytes, and the offset of the next one. -/
structure Reader where
  bytes : List UInt8
  offset : ℕ := 0

/-- A reader whose offset is in its bytes, which have a size. -/
structure Reader.Good (reader : Reader) : Prop where
  offset_le : reader.offset ≤ reader.bytes.length
  length_lt : reader.bytes.length < 2 ^ 64

/-- The bytes that are left. -/
def Reader.rest (reader : Reader) : List UInt8 := reader.bytes.drop reader.offset

/-- An operation that fails or goes on with a value. -/
abbrev Read := StateT Reader (OptionT Checked)

def Reader.remaining (reader : Reader) : Checked ℕ := sizeSub reader.bytes.length reader.offset

/-- A number of `count` bytes at an offset, the least significant byte first. -/
def wordAt (bytes : List UInt8) (offset : ℕ) : ℕ → Checked ℕ
  | 0 => .ok 0
  | count + 1 => do
    let byte ← byteAt bytes offset
    let next ← sizeAdd offset 1
    let value ← wordAt bytes next count
    return byte.toNat + 256 * value

/-- A value of `count` bytes. -/
def readSized {α : Type} (count : ℕ) (access : List UInt8 → ℕ → Checked α) : Read α :=
  fun reader => OptionT.mk do
    let left ← reader.remaining
    if left < count then return none
    let value ← access reader.bytes reader.offset
    let offset ← sizeAdd reader.offset count
    return some (value, ⟨reader.bytes, offset⟩)

/-- A number of `count` bytes. -/
def readWord (count : ℕ) : Read ℕ :=
  readSized count fun bytes offset => wordAt bytes offset count

/-- `count` bytes. -/
def readBytes (count : ℕ) : Read (List UInt8) :=
  readSized count fun bytes offset => slice bytes offset count

/-- A check of what was read. -/
def require (condition : Bool) : Read Unit := fun reader =>
  OptionT.mk (.ok (if condition = true then some ((), reader) else none))

/-- Nothing is left. -/
def atEnd : Read Unit := fun reader => OptionT.mk do
  let left ← reader.remaining
  return if left = 0 then some ((), reader) else none

/-! ## What readers do -/

/-- A function on the bytes that are left. -/
abbrev Rest := StateT (List UInt8) Option

/-- A value of `count` bytes, which is a view of them. -/
def restSized {α : Type} (count : ℕ) (view : List UInt8 → α) : Rest α := fun rest =>
  if rest.length < count then none else some (view (rest.take count), rest.drop count)

def restRequire (condition : Bool) : Rest Unit := fun rest =>
  if condition = true then some ((), rest) else none

def restEnd : Rest Unit := fun rest => if rest = [] then some ((), rest) else none

/-- The operation does what the function says, and has no faults. -/
def Refines {α : Type} (read : Read α) (rest : Rest α) : Prop :=
  ∀ reader : Reader, reader.Good →
    rest reader.rest = none ∧ read reader = OptionT.mk (.ok none) ∨
    ∃ value reader', reader'.Good ∧ rest reader.rest = some (value, reader'.rest) ∧
      read reader = OptionT.mk (.ok (some (value, reader')))

section Refinement

variable {α β : Type}

lemma refines_pure (value : α) : Refines (pure value) (pure value) :=
  fun reader hgood => .inr ⟨value, reader, hgood, rfl, rfl⟩

/-- One operation after the other. -/
theorem Refines.bind {read : Read α} {rest : Rest α} {read' : α → Read β} {rest' : α → Rest β}
    (h : Refines read rest) (h' : ∀ value, Refines (read' value) (rest' value)) :
    Refines (read >>= read') (rest >>= rest') := by
  intro reader hgood
  obtain ⟨hrest, hread⟩ | ⟨value, next, hnext, hrest, hread⟩ := h reader hgood
  · left
    constructor
    · change (rest reader.rest).bind _ = none
      rw [hrest]
      rfl
    · change (read reader >>= _) = _
      rw [hread]
      rfl
  · have hrest' : (rest >>= rest') reader.rest = rest' value next.rest := by
      change (rest reader.rest).bind _ = _
      rw [hrest]
      rfl
    have hread' : (read >>= read') reader = read' value next := by
      change (read reader >>= _) = _
      rw [hread]
      rfl
    rw [hrest', hread']
    exact h' value next hnext

lemma Reader.Good.remaining {reader : Reader} (h : reader.Good) :
    reader.remaining = .ok reader.rest.length := by
  rw [Reader.remaining, sizeSub_eq h.offset_le, Reader.rest, List.length_drop]

/-- An offset that stays in the bytes. -/
lemma Reader.Good.advance {reader : Reader} (h : reader.Good) {count : ℕ}
    (hcount : count ≤ reader.rest.length) :
    sizeAdd reader.offset count = .ok (reader.offset + count) ∧
      (⟨reader.bytes, reader.offset + count⟩ : Reader).Good ∧
      (⟨reader.bytes, reader.offset + count⟩ : Reader).rest = reader.rest.drop count := by
  have hoffset := h.offset_le
  have hlength := h.length_lt
  rw [Reader.rest, List.length_drop] at hcount
  refine ⟨sizeAdd_eq (by omega), ⟨?_, hlength⟩, ?_⟩
  · dsimp only
    omega
  · rw [Reader.rest, Reader.rest, List.drop_drop]

lemma wordAt_eq {bytes : List UInt8} (hbytes : bytes.length < 2 ^ 64) {offset count : ℕ}
    (h : offset + count ≤ bytes.length) :
    wordAt bytes offset count = .ok (ofLittleEndian ((bytes.drop offset).take count)) := by
  induction count generalizing offset with
  | zero => rfl
  | succ count ih =>
    have hdrop : bytes.drop offset ≠ [] := by
      intro hnil
      have hlength := congrArg List.length hnil
      rw [List.length_drop, List.length_nil] at hlength
      omega
    obtain ⟨byte, rest, hcons⟩ := List.exists_cons_of_ne_nil hdrop
    have hrest : bytes.drop (offset + 1) = rest := by
      rw [← List.drop_drop, hcons, List.drop_one, List.tail_cons]
    rw [wordAt, byteAt_eq hcons, sizeAdd_eq (by omega)]
    change (wordAt bytes (offset + 1) count >>= fun value => .ok (byte.toNat + 256 * value)) = _
    rw [ih (by omega), hcons, hrest, List.take_succ_cons, ofLittleEndian]
    rfl

lemma refines_sized {count : ℕ} {access : List UInt8 → ℕ → Checked α} {view : List UInt8 → α}
    (h : ∀ bytes : List UInt8, bytes.length < 2 ^ 64 → ∀ offset, offset + count ≤ bytes.length →
      access bytes offset = .ok (view ((bytes.drop offset).take count))) :
    Refines (readSized count access) (restSized count view) := by
  intro reader hgood
  unfold readSized restSized
  by_cases hleft : reader.rest.length < count
  · left
    rw [if_pos hleft, hgood.remaining]
    refine ⟨rfl, congrArg OptionT.mk ?_⟩
    change (if reader.rest.length < count then _ else _) = _
    rw [if_pos hleft]
    rfl
  · right
    obtain ⟨hadd, hnext, hrest⟩ := hgood.advance (Nat.le_of_not_lt hleft)
    have haccess := h reader.bytes hgood.length_lt reader.offset (by
      have hoffset := hgood.offset_le
      rw [Reader.rest, List.length_drop] at hleft
      omega)
    refine ⟨view (reader.rest.take count), _, hnext, ?_, congrArg OptionT.mk ?_⟩
    · rw [if_neg hleft, hrest]
    · rw [hgood.remaining]
      change (if reader.rest.length < count then _ else _) = _
      rw [if_neg hleft, haccess, hadd]
      rfl

lemma refines_word (count : ℕ) : Refines (readWord count) (restSized count ofLittleEndian) :=
  refines_sized fun _ hbytes _ h => wordAt_eq hbytes h

lemma refines_bytes (count : ℕ) : Refines (readBytes count) (restSized count id) :=
  refines_sized fun _ _ _ h => slice_eq h

lemma refines_require (condition : Bool) : Refines (require condition) (restRequire condition) := by
  intro reader hgood
  unfold require restRequire
  cases condition with
  | false => exact .inl ⟨rfl, rfl⟩
  | true => exact .inr ⟨(), reader, hgood, rfl, rfl⟩

lemma refines_end : Refines atEnd restEnd := by
  intro reader hgood
  unfold atEnd restEnd
  rw [hgood.remaining]
  by_cases hnil : reader.rest = []
  · right
    refine ⟨(), reader, hgood, if_pos hnil, congrArg OptionT.mk ?_⟩
    change Except.ok (if reader.rest.length = 0 then _ else _) = _
    rw [if_pos (List.length_eq_zero_iff.2 hnil)]
  · left
    refine ⟨if_neg hnil, congrArg OptionT.mk ?_⟩
    change Except.ok (if reader.rest.length = 0 then _ else _) = _
    rw [if_neg fun hzero => hnil (List.length_eq_zero_iff.1 hzero)]

end Refinement

/-! ## What is read is what was written -/

section Written

variable {α β : Type} {bytes after : List UInt8}

lemma rest_pure_eq_some {value value' : α} :
    (pure value : Rest α) bytes = some (value', after) ↔ value = value' ∧ bytes = after := by
  change some (value, bytes) = some (value', after) ↔ _
  rw [Option.some_inj, Prod.mk_inj]

lemma rest_bind_eq_some {rest : Rest α} {rest' : α → Rest β} {value : β} :
    (rest >>= rest') bytes = some (value, after) ↔
      ∃ first middle, rest bytes = some (first, middle) ∧
        rest' first middle = some (value, after) := by
  change (rest bytes).bind _ = _ ↔ _
  rw [Option.bind_eq_some_iff, Prod.exists]

lemma restRequire_eq_some {condition : Bool} {unit : Unit} :
    restRequire condition bytes = some (unit, after) ↔ condition = true ∧ bytes = after := by
  cases condition with
  | false => simp [restRequire]
  | true => simp [restRequire]

lemma restEnd_eq_some {unit : Unit} :
    restEnd bytes = some (unit, after) ↔ bytes = [] ∧ after = [] := by
  unfold restEnd
  by_cases hnil : bytes = []
  · rw [if_pos hnil, Option.some_inj, Prod.mk_inj, hnil]
    simp [eq_comm]
  · rw [if_neg hnil]
    exact iff_of_false (Option.some_ne_none _).symm fun h => hnil h.1

/-- Bytes that are enough are a front and a rest. -/
lemma restSized_eq_some {count : ℕ} {view : List UInt8 → α} {value : α} :
    restSized count view bytes = some (value, after) ↔
      ∃ front : List UInt8, front.length = count ∧ view front = value ∧ bytes = front ++ after := by
  unfold restSized
  constructor
  · intro h
    split at h
    case isTrue => cases h
    case isFalse hleft =>
      cases h
      refine ⟨bytes.take count, ?_, rfl, (List.take_append_drop _ _).symm⟩
      rw [List.length_take]
      omega
  · rintro ⟨front, rfl, rfl, rfl⟩
    rw [List.take_left, List.drop_left, if_neg]
    rw [List.length_append]
    omega

lemma restWord_eq_some {count value : ℕ} :
    restSized count ofLittleEndian bytes = some (value, after) ↔
      value < 256 ^ count ∧ bytes = littleEndian count value ++ after := by
  rw [restSized_eq_some]
  constructor
  · rintro ⟨front, rfl, rfl, rfl⟩
    exact ⟨ofLittleEndian_lt front, by rw [littleEndian_ofLittleEndian]⟩
  · rintro ⟨hlt, rfl⟩
    refine ⟨_, length_littleEndian count value, ?_, rfl⟩
    rw [ofLittleEndian_littleEndian, Nat.mod_eq_of_lt hlt]

lemma restBytes_eq_some {count : ℕ} {value : List UInt8} :
    restSized count id bytes = some (value, after) ↔
      value.length = count ∧ bytes = value ++ after := by
  rw [restSized_eq_some]
  constructor
  · rintro ⟨front, hlength, rfl, rfl⟩
    exact ⟨hlength, rfl⟩
  · rintro ⟨hlength, rfl⟩
    exact ⟨value, hlength, rfl, rfl⟩

end Written

end Codec

end Chtholly
