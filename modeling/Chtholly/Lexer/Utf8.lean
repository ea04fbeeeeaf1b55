import Mathlib.Data.List.GetD
import Mathlib.Data.Nat.Bitwise

/-!
# The length of a character in UTF-8

The lexer asks how many bytes the character at a position takes.  A first byte gives the number of
bytes, the least value that needs so many, and the first bits of the value; the other bytes give six
bits each.  There is no character when a byte is missing or is not a continuation, when the value
could have been written with fewer bytes, when it is a surrogate, and when it is too large.

## Main definitions

* `Lexer.validUtf8Length` — the number of bytes, or zero.

## Main results

* `Lexer.validUtf8Length_eq_iff` — it is positive exactly where the encoding of a character stands,
  and then it is the length of that encoding.
-/

set_option autoImplicit false

namespace Chtholly

namespace Lexer

/-- The bytes of a source. -/
abbrev Source := List UInt8

def isUtf8Continuation (value : UInt8) : Bool := value &&& 0xC0 == 0x80

/-- The bits of the continuation bytes behind the value that was read before them. -/
def readContinuations : ℕ → Source → Option ℕ
  | value, [] => some value
  | value, byte :: rest =>
    if isUtf8Continuation byte then
      readContinuations ((value <<< 6) ||| (byte.toNat &&& 0x3F)) rest
    else none

/-- What a first byte says: the length, the least value of that length, and the first bits. -/
def readFirst (first : UInt8) : Option (ℕ × ℕ × ℕ) :=
  if first &&& 0xE0 == 0xC0 then some (2, 0x80, first.toNat &&& 0x1F)
  else if first &&& 0xF0 == 0xE0 then some (3, 0x800, first.toNat &&& 0x0F)
  else if first &&& 0xF8 == 0xF0 then some (4, 0x10000, first.toNat &&& 0x07)
  else none

/-- The value is a character that needs that many bytes. -/
def validScalar (minimum value : ℕ) : Bool :=
  !(decide (value < minimum) || decide (0x10FFFF < value) ||
    (decide (0xD800 ≤ value) && decide (value ≤ 0xDFFF)))

def validUtf8Length (text : Source) (offset : ℕ) : ℕ :=
  let first := text.getD offset 0
  if first < 0x80 then 1
  else
    match readFirst first with
    | none => 0
    | some (length, minimum, bits) =>
      if text.length < offset + length then 0
      else
        match readContinuations bits ((text.drop (offset + 1)).take (length - 1)) with
        | none => 0
        | some value => if validScalar minimum value then length else 0

/-! ## Bytes and the bits in them -/

variable {byte : UInt8}

/-- A test of the leading bits of a byte is a test of its range. -/
lemma mask_iff {mask tag : UInt8} {least bound : ℕ}
    (hall : ((List.range 256).all fun n =>
      decide (n &&& mask.toNat = tag.toNat) == decide (least ≤ n ∧ n < bound)) = true) :
    (byte &&& mask == tag) = true ↔ least ≤ byte.toNat ∧ byte.toNat < bound := by
  have hbyte := List.all_eq_true.mp hall byte.toNat (List.mem_range.mpr byte.toNat_lt)
  rw [beq_iff_eq, decide_eq_decide] at hbyte
  rw [beq_iff_eq, ← UInt8.toNat_inj, UInt8.toNat_and]
  exact hbyte

set_option maxRecDepth 8000 in
lemma isUtf8Continuation_iff :
    isUtf8Continuation byte = true ↔ 0x80 ≤ byte.toNat ∧ byte.toNat < 0xC0 :=
  mask_iff rfl

set_option maxRecDepth 8000 in
lemma twoBytes_iff : (byte &&& 0xE0 == 0xC0) = true ↔ 0xC0 ≤ byte.toNat ∧ byte.toNat < 0xE0 :=
  mask_iff rfl

set_option maxRecDepth 8000 in
lemma threeBytes_iff : (byte &&& 0xF0 == 0xE0) = true ↔ 0xE0 ≤ byte.toNat ∧ byte.toNat < 0xF0 :=
  mask_iff rfl

set_option maxRecDepth 8000 in
lemma fourBytes_iff : (byte &&& 0xF8 == 0xF0) = true ↔ 0xF0 ≤ byte.toNat ∧ byte.toNat < 0xF8 :=
  mask_iff rfl

/-- A continuation byte shifts the value by six bits and adds its own. -/
lemma shift_or (value byte : ℕ) :
    (value <<< 6) ||| (byte &&& 0x3F) = value * 64 + byte % 64 := by
  have hmask : byte &&& 0x3F = byte % 64 := Nat.and_two_pow_sub_one_eq_mod byte 6
  have hlt : byte % 64 < 2 ^ 6 := Nat.mod_lt _ (by decide)
  rw [hmask, Nat.shiftLeft_eq, Nat.mul_comm value, ← Nat.two_pow_add_eq_or_of_lt hlt]

lemma readContinuations_cons {value : ℕ} {rest : Source} {result : ℕ} :
    readContinuations value (byte :: rest) = some result ↔
      (0x80 ≤ byte.toNat ∧ byte.toNat < 0xC0) ∧
        readContinuations (value * 64 + byte.toNat % 64) rest = some result := by
  rw [readContinuations, shift_or, ← isUtf8Continuation_iff]
  split <;> simp_all

lemma validScalar_iff {minimum value : ℕ} :
    validScalar minimum value = true ↔
      minimum ≤ value ∧ value ≤ 0x10FFFF ∧ ¬ (0xD800 ≤ value ∧ value ≤ 0xDFFF) := by
  simp [validScalar]
  omega

/-! ## Characters and their encodings -/

/-- What makes a number the value of a byte. -/
lemma ofNat_eq_iff {n : ℕ} (h : n < 256) : UInt8.ofNat n = byte ↔ n = byte.toNat := by
  rw [← UInt8.toNat_inj, UInt8.toNat_ofNat', Nat.mod_eq_of_lt h]

/-- A number that is the value of a character. -/
lemma exists_char {value : ℕ} (h : value ≤ 0x10FFFF) (h' : ¬ (0xD800 ≤ value ∧ value ≤ 0xDFFF)) :
    ∃ c : Char, c.val.toNat = value := by
  have hvalid : value.isValidChar := by
    simp only [Nat.isValidChar]
    omega
  exact ⟨Char.ofNatAux value hvalid, rfl⟩

lemma char_valid (c : Char) :
    c.val.toNat ≤ 0x10FFFF ∧ ¬ (0xD800 ≤ c.val.toNat ∧ c.val.toNat ≤ 0xDFFF) := by
  have hvalid := c.valid
  simp only [UInt32.isValidChar, Nat.isValidChar] at hvalid
  omega

lemma encode_one_iff {b : UInt8} :
    (∃ c : Char, String.utf8EncodeChar c = [b]) ↔ b.toNat < 0x80 := by
  constructor
  · rintro ⟨c, hc⟩
    simp only [String.utf8EncodeChar] at hc
    split at hc
    · rw [List.singleton_inj, ofNat_eq_iff (by omega)] at hc
      omega
    · split at hc
      · simp at hc
      · split at hc <;> simp at hc
  · intro h
    obtain ⟨c, hc⟩ := @exists_char b.toNat (by omega) (by omega)
    refine ⟨c, ?_⟩
    simp only [String.utf8EncodeChar, hc]
    rw [if_pos (by omega), List.singleton_inj, ofNat_eq_iff (by omega)]

lemma encode_two_iff {b₀ b₁ : UInt8} :
    (∃ c : Char, String.utf8EncodeChar c = [b₀, b₁]) ↔
      (0xC0 ≤ b₀.toNat ∧ b₀.toNat < 0xE0) ∧ (0x80 ≤ b₁.toNat ∧ b₁.toNat < 0xC0) ∧
        validScalar 0x80 (b₀.toNat % 32 * 64 + b₁.toNat % 64) = true := by
  rw [validScalar_iff]
  constructor
  · rintro ⟨c, hc⟩
    have hvalid := char_valid c
    simp only [String.utf8EncodeChar] at hc
    split at hc
    · simp at hc
    · split at hc
      · simp only [List.cons.injEq, and_true] at hc
        obtain ⟨h₀, h₁⟩ := hc
        rw [ofNat_eq_iff (by omega)] at h₀ h₁
        omega
      · split at hc <;> simp at hc
  · rintro ⟨h₀, h₁, hmin, hmax, hsurrogate⟩
    obtain ⟨c, hc⟩ := exists_char hmax hsurrogate
    refine ⟨c, ?_⟩
    simp only [String.utf8EncodeChar, hc]
    rw [if_neg (by omega), if_pos (by omega)]
    simp only [List.cons.injEq, and_true]
    refine ⟨?_, ?_⟩ <;> rw [ofNat_eq_iff (by omega)] <;> omega

lemma encode_three_iff {b₀ b₁ b₂ : UInt8} :
    (∃ c : Char, String.utf8EncodeChar c = [b₀, b₁, b₂]) ↔
      (0xE0 ≤ b₀.toNat ∧ b₀.toNat < 0xF0) ∧ (0x80 ≤ b₁.toNat ∧ b₁.toNat < 0xC0) ∧
        (0x80 ≤ b₂.toNat ∧ b₂.toNat < 0xC0) ∧
        validScalar 0x800 ((b₀.toNat % 16 * 64 + b₁.toNat % 64) * 64 + b₂.toNat % 64) = true := by
  rw [validScalar_iff]
  constructor
  · rintro ⟨c, hc⟩
    have hvalid := char_valid c
    simp only [String.utf8EncodeChar] at hc
    split at hc
    · simp at hc
    · split at hc
      · simp at hc
      · split at hc
        · simp only [List.cons.injEq, and_true] at hc
          obtain ⟨h₀, h₁, h₂⟩ := hc
          rw [ofNat_eq_iff (by omega)] at h₀ h₁ h₂
          omega
        · simp at hc
  · rintro ⟨h₀, h₁, h₂, hmin, hmax, hsurrogate⟩
    obtain ⟨c, hc⟩ := exists_char hmax hsurrogate
    refine ⟨c, ?_⟩
    simp only [String.utf8EncodeChar, hc]
    rw [if_neg (by omega), if_neg (by omega), if_pos (by omega)]
    simp only [List.cons.injEq, and_true]
    refine ⟨?_, ?_, ?_⟩ <;> rw [ofNat_eq_iff (by omega)] <;> omega

lemma encode_four_iff {b₀ b₁ b₂ b₃ : UInt8} :
    (∃ c : Char, String.utf8EncodeChar c = [b₀, b₁, b₂, b₃]) ↔
      (0xF0 ≤ b₀.toNat ∧ b₀.toNat < 0xF8) ∧ (0x80 ≤ b₁.toNat ∧ b₁.toNat < 0xC0) ∧
        (0x80 ≤ b₂.toNat ∧ b₂.toNat < 0xC0) ∧ (0x80 ≤ b₃.toNat ∧ b₃.toNat < 0xC0) ∧
        validScalar 0x10000 (((b₀.toNat % 8 * 64 + b₁.toNat % 64) * 64 + b₂.toNat % 64) * 64 +
          b₃.toNat % 64) = true := by
  rw [validScalar_iff]
  constructor
  · rintro ⟨c, hc⟩
    have hvalid := char_valid c
    simp only [String.utf8EncodeChar] at hc
    split at hc
    · simp at hc
    · split at hc
      · simp at hc
      · split at hc
        · simp at hc
        · simp only [List.cons.injEq, and_true] at hc
          obtain ⟨h₀, h₁, h₂, h₃⟩ := hc
          rw [ofNat_eq_iff (by omega)] at h₀ h₁ h₂ h₃
          omega
  · rintro ⟨h₀, h₁, h₂, h₃, hmin, hmax, hsurrogate⟩
    obtain ⟨c, hc⟩ := exists_char hmax hsurrogate
    refine ⟨c, ?_⟩
    simp only [String.utf8EncodeChar, hc]
    rw [if_neg (by omega), if_neg (by omega), if_neg (by omega)]
    simp only [List.cons.injEq, and_true]
    refine ⟨?_, ?_, ?_, ?_⟩ <;> rw [ofNat_eq_iff (by omega)] <;> omega

/-! ## The length -/

lemma readFirst_eq_some {first : UInt8} {length minimum bits : ℕ} :
    readFirst first = some (length, minimum, bits) ↔
      (0xC0 ≤ first.toNat ∧ first.toNat < 0xE0 ∧ length = 2 ∧ minimum = 0x80 ∧
          bits = first.toNat % 32) ∨
        (0xE0 ≤ first.toNat ∧ first.toNat < 0xF0 ∧ length = 3 ∧ minimum = 0x800 ∧
          bits = first.toNat % 16) ∨
        (0xF0 ≤ first.toNat ∧ first.toNat < 0xF8 ∧ length = 4 ∧ minimum = 0x10000 ∧
          bits = first.toNat % 8) := by
  have h₅ : first.toNat &&& 0x1F = first.toNat % 32 := Nat.and_two_pow_sub_one_eq_mod _ 5
  have h₄ : first.toNat &&& 0x0F = first.toNat % 16 := Nat.and_two_pow_sub_one_eq_mod _ 4
  have h₃ : first.toNat &&& 0x07 = first.toNat % 8 := Nat.and_two_pow_sub_one_eq_mod _ 3
  rw [readFirst, h₅, h₄, h₃]
  split
  · rename_i h
    rw [twoBytes_iff] at h
    simp only [Option.some.injEq, Prod.mk.injEq]
    omega
  · rename_i h
    rw [twoBytes_iff] at h
    split
    · rename_i h'
      rw [threeBytes_iff] at h'
      simp only [Option.some.injEq, Prod.mk.injEq]
      omega
    · rename_i h'
      rw [threeBytes_iff] at h'
      split
      · rename_i h''
        rw [fourBytes_iff] at h''
        simp only [Option.some.injEq, Prod.mk.injEq]
        omega
      · rename_i h''
        rw [fourBytes_iff] at h''
        simp only [reduceCtorEq, false_iff]
        omega

/-- The length, by the bytes from the position on. -/
lemma validUtf8Length_eq_iff_read {text rest : Source} {offset : ℕ} {first : UInt8} {n : ℕ}
    (hdrop : text.drop offset = first :: rest) (hn : n ≠ 0) :
    validUtf8Length text offset = n ↔
      (first.toNat < 0x80 ∧ n = 1) ∨
        (0x80 ≤ first.toNat ∧ ∃ minimum bits, readFirst first = some (n, minimum, bits) ∧
          n ≤ rest.length + 1 ∧ ∃ value, readContinuations bits (rest.take (n - 1)) = some value ∧
            validScalar minimum value = true) := by
  have hfirst : text.getD offset 0 = first := by
    rw [List.getD_eq_getElem?_getD, ← List.head?_drop, hdrop]
    rfl
  have hrest : text.drop (offset + 1) = rest := by
    rw [← List.drop_drop, hdrop, List.drop_one, List.tail_cons]
  have hlength : text.length = offset + (rest.length + 1) := by
    have hsize := congrArg List.length hdrop
    rw [List.length_drop, List.length_cons] at hsize
    omega
  have hascii : first < 0x80 ↔ first.toNat < 0x80 := UInt8.lt_iff_toNat_lt
  simp only [validUtf8Length, hfirst, hrest, hlength, hascii]
  split
  · rename_i h
    constructor
    · rintro rfl
      exact Or.inl ⟨h, rfl⟩
    · rintro (⟨-, rfl⟩ | ⟨h', -⟩)
      · rfl
      · omega
  · rename_i h
    have hlarge : 0x80 ≤ first.toNat := by omega
    simp only [h, false_and, false_or, hlarge, true_and]
    cases hread : readFirst first with
    | none => simp [hn.symm]
    | some triple =>
      obtain ⟨length, minimum, bits⟩ := triple
      simp only [Option.some.injEq, Prod.mk.injEq]
      constructor
      · intro hvalue
        split at hvalue
        · omega
        · split at hvalue
          · omega
          · rename_i value hsome
            split at hvalue
            · rename_i hvalid
              subst hvalue
              exact ⟨minimum, bits, ⟨rfl, rfl, rfl⟩, by omega, value, hsome, hvalid⟩
            · omega
      · rintro ⟨minimum', bits', ⟨rfl, rfl, rfl⟩, hle, value, hsome, hvalid⟩
        rw [if_neg (by omega), hsome]
        exact if_pos hvalid

/-- The length is positive exactly where the encoding of a character stands, and then it is the
length of that encoding. -/
theorem validUtf8Length_eq_iff {text : Source} {offset n : ℕ} (h : offset < text.length)
    (hn : n ≠ 0) :
    validUtf8Length text offset = n ↔
      ∃ c : Char, String.utf8EncodeChar c <+: text.drop offset ∧
        (String.utf8EncodeChar c).length = n := by
  obtain ⟨first, rest, hdrop⟩ : ∃ first rest, text.drop offset = first :: rest :=
    ⟨_, _, List.drop_eq_getElem_cons h⟩
  rw [validUtf8Length_eq_iff_read hdrop hn, hdrop]
  constructor
  · rintro (⟨hascii, rfl⟩ | ⟨-, minimum, bits, hfirst, hle, value, hvalue, hvalid⟩)
    · obtain ⟨c, hc⟩ := encode_one_iff.mpr hascii
      exact ⟨c, by simp [hc], by simp [hc]⟩
    · obtain ⟨h₁, h₂, rfl, rfl, rfl⟩ | ⟨h₁, h₂, rfl, rfl, rfl⟩ | ⟨h₁, h₂, rfl, rfl, rfl⟩ :=
        readFirst_eq_some.mp hfirst
      · match rest, hle, hvalue with
        | b₁ :: tail, _, hvalue =>
          obtain ⟨hb₁, hvalue⟩ := readContinuations_cons.mp hvalue
          obtain rfl := Option.some.inj hvalue
          obtain ⟨c, hc⟩ := encode_two_iff.mpr ⟨⟨h₁, h₂⟩, hb₁, hvalid⟩
          exact ⟨c, by simp [hc], by simp [hc]⟩
      · match rest, hle, hvalue with
        | b₁ :: b₂ :: tail, _, hvalue =>
          obtain ⟨hb₁, hvalue⟩ := readContinuations_cons.mp hvalue
          obtain ⟨hb₂, hvalue⟩ := readContinuations_cons.mp hvalue
          obtain rfl := Option.some.inj hvalue
          obtain ⟨c, hc⟩ := encode_three_iff.mpr ⟨⟨h₁, h₂⟩, hb₁, hb₂, hvalid⟩
          exact ⟨c, by simp [hc], by simp [hc]⟩
      · match rest, hle, hvalue with
        | b₁ :: b₂ :: b₃ :: tail, _, hvalue =>
          obtain ⟨hb₁, hvalue⟩ := readContinuations_cons.mp hvalue
          obtain ⟨hb₂, hvalue⟩ := readContinuations_cons.mp hvalue
          obtain ⟨hb₃, hvalue⟩ := readContinuations_cons.mp hvalue
          obtain rfl := Option.some.inj hvalue
          obtain ⟨c, hc⟩ := encode_four_iff.mpr ⟨⟨h₁, h₂⟩, hb₁, hb₂, hb₃, hvalid⟩
          exact ⟨c, by simp [hc], by simp [hc]⟩
  · rintro ⟨c, ⟨tail, hc⟩, rfl⟩
    match henc : String.utf8EncodeChar c with
    | [] =>
      exact absurd (by rw [henc]; rfl) hn
    | [b₀] =>
      rw [henc] at hc
      obtain ⟨rfl, rfl⟩ := List.cons.inj hc
      exact Or.inl ⟨encode_one_iff.mp ⟨c, henc⟩, rfl⟩
    | [b₀, b₁] =>
      rw [henc] at hc
      obtain ⟨rfl, rfl⟩ := List.cons.inj hc
      obtain ⟨h₀, h₁, hvalid⟩ := encode_two_iff.mp ⟨c, henc⟩
      refine Or.inr ⟨by omega, _, _, readFirst_eq_some.mpr (Or.inl ⟨h₀.1, h₀.2, rfl, rfl, rfl⟩),
        by simp, _, ?_, hvalid⟩
      exact readContinuations_cons.mpr ⟨h₁, rfl⟩
    | [b₀, b₁, b₂] =>
      rw [henc] at hc
      obtain ⟨rfl, rfl⟩ := List.cons.inj hc
      obtain ⟨h₀, h₁, h₂, hvalid⟩ := encode_three_iff.mp ⟨c, henc⟩
      refine Or.inr ⟨by omega, _, _,
        readFirst_eq_some.mpr (Or.inr (Or.inl ⟨h₀.1, h₀.2, rfl, rfl, rfl⟩)), by simp, _, ?_, hvalid⟩
      exact readContinuations_cons.mpr ⟨h₁, readContinuations_cons.mpr ⟨h₂, rfl⟩⟩
    | [b₀, b₁, b₂, b₃] =>
      rw [henc] at hc
      obtain ⟨rfl, rfl⟩ := List.cons.inj hc
      obtain ⟨h₀, h₁, h₂, h₃, hvalid⟩ := encode_four_iff.mp ⟨c, henc⟩
      refine Or.inr ⟨by omega, _, _,
        readFirst_eq_some.mpr (Or.inr (Or.inr ⟨h₀.1, h₀.2, rfl, rfl, rfl⟩)), by simp, _, ?_, hvalid⟩
      exact readContinuations_cons.mpr
        ⟨h₁, readContinuations_cons.mpr ⟨h₂, readContinuations_cons.mpr ⟨h₃, rfl⟩⟩⟩
    | b₀ :: b₁ :: b₂ :: b₃ :: b₄ :: more =>
      have hfour := c.utf8Size_le_four
      rw [← String.length_utf8EncodeChar, henc] at hfour
      simp only [List.length_cons] at hfour
      omega

end Lexer

end Chtholly
