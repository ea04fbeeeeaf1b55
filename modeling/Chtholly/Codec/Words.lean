import Mathlib.Tactic.Ring

/-!
# Words as bytes

Numbers are written as a fixed number of bytes, the least significant one first.

## Main definitions

* `Codec.littleEndian`, `Codec.ofLittleEndian` — the bytes of a number, and the number of bytes.

## Main results

* `Codec.ofLittleEndian_littleEndian`, `Codec.littleEndian_ofLittleEndian` — they are inverse.
-/

set_option autoImplicit false

namespace Chtholly

namespace Codec

/-- The `count` lowest bytes of a number. -/
def littleEndian : ℕ → ℕ → List UInt8
  | 0, _ => []
  | count + 1, value => UInt8.ofNat value :: littleEndian count (value / 256)

def ofLittleEndian : List UInt8 → ℕ
  | [] => 0
  | byte :: rest => byte.toNat + 256 * ofLittleEndian rest

lemma length_littleEndian (count value : ℕ) : (littleEndian count value).length = count := by
  induction count generalizing value with
  | zero => rfl
  | succ count ih => rw [littleEndian, List.length_cons, ih]

lemma ofLittleEndian_lt (bytes : List UInt8) : ofLittleEndian bytes < 256 ^ bytes.length := by
  induction bytes with
  | nil => exact Nat.one_pos
  | cons byte bytes ih =>
    have hbyte := byte.toNat_lt
    rw [ofLittleEndian, List.length_cons, Nat.pow_succ]
    omega

/-- The bytes of a number give its remainder. -/
lemma ofLittleEndian_littleEndian (count value : ℕ) :
    ofLittleEndian (littleEndian count value) = value % 256 ^ count := by
  induction count generalizing value with
  | zero => rw [Nat.pow_zero, Nat.mod_one, littleEndian, ofLittleEndian]
  | succ count ih =>
    rw [littleEndian, ofLittleEndian, ih, UInt8.toNat_ofNat']
    show value % 256 + 256 * (value / 256 % 256 ^ count) = value % (256 ^ count * 256)
    rw [Nat.mul_comm (256 ^ count), Nat.mod_mul]

lemma littleEndian_ofLittleEndian (bytes : List UInt8) :
    littleEndian bytes.length (ofLittleEndian bytes) = bytes := by
  induction bytes with
  | nil => rfl
  | cons byte bytes ih =>
    have hbyte := byte.toNat_lt
    have hdiv : (byte.toNat + 256 * ofLittleEndian bytes) / 256 = ofLittleEndian bytes := by omega
    have hmod : UInt8.ofNat (byte.toNat + 256 * ofLittleEndian bytes) = byte := by
      apply UInt8.toNat_inj.1
      rw [UInt8.toNat_ofNat']
      omega
    rw [List.length_cons, ofLittleEndian, littleEndian, hdiv, hmod, ih]

end Codec

end Chtholly
