import Mathlib.Data.Char
import Mathlib.Data.List.Basic
import Mathlib.Data.List.Lex
import Mathlib.Tactic.IntervalCases

/-!
# The digest of a byte string

The compiler computes SHA-256 itself and hands digests around as lower-case hexadecimal text.  The
model keeps texts as lists of characters and byte strings as lists of bytes, so that a digest can
be evaluated.

## Main definitions

* `Registry.Sha256` — the running state of a digest: eight words, the pending block, the length.
* `Registry.sha256Hex` — the digest of a byte string, as text.
* `Registry.isHexDigest`, `Registry.digestBytes` — the texts that are digests, and their bytes.

## Main results

* `Registry.isHexDigest_sha256Hex` — every digest is a text of sixty-four hexadecimal digits.
-/

set_option autoImplicit false

namespace Chtholly

namespace Registry

/-- A `std::string` that holds text. -/
abbrev Text := List Char

/-- A `std::string` that holds raw bytes. -/
abbrev Bytes := List UInt8

def kRoundConstants : List UInt32 :=
  [0x428a2f98, 0x71374491, 0xb5c0fbcf, 0xe9b5dba5, 0x3956c25b,
    0x59f111f1, 0x923f82a4, 0xab1c5ed5, 0xd807aa98, 0x12835b01,
    0x243185be, 0x550c7dc3, 0x72be5d74, 0x80deb1fe, 0x9bdc06a7,
    0xc19bf174, 0xe49b69c1, 0xefbe4786, 0x0fc19dc6, 0x240ca1cc,
    0x2de92c6f, 0x4a7484aa, 0x5cb0a9dc, 0x76f988da, 0x983e5152,
    0xa831c66d, 0xb00327c8, 0xbf597fc7, 0xc6e00bf3, 0xd5a79147,
    0x06ca6351, 0x14292967, 0x27b70a85, 0x2e1b2138, 0x4d2c6dfc,
    0x53380d13, 0x650a7354, 0x766a0abb, 0x81c2c92e, 0x92722c85,
    0xa2bfe8a1, 0xa81a664b, 0xc24b8b70, 0xc76c51a3, 0xd192e819,
    0xd6990624, 0xf40e3585, 0x106aa070, 0x19a4c116, 0x1e376c08,
    0x2748774c, 0x34b0bcb5, 0x391c0cb3, 0x4ed8aa4a, 0x5b9cca4f,
    0x682e6ff3, 0x748f82ee, 0x78a5636f, 0x84c87814, 0x8cc70208,
    0x90befffa, 0xa4506ceb, 0xbef9a3f7, 0xc67178f2]

def rotateRight (value amount : UInt32) : UInt32 :=
  (value >>> amount) ||| (value <<< (32 - amount))

/-- The eight words `state_`, and the eight variables of the rounds. -/
structure Words where
  a : UInt32
  b : UInt32
  c : UInt32
  d : UInt32
  e : UInt32
  f : UInt32
  g : UInt32
  h : UInt32

def Words.initial : Words :=
  ⟨0x6a09e667, 0xbb67ae85, 0x3c6ef372, 0xa54ff53a,
    0x510e527f, 0x9b05688c, 0x1f83d9ab, 0x5be0cd19⟩

/-- `state_[i] += …`, for the eight words. -/
def Words.plus (x y : Words) : Words :=
  ⟨x.a + y.a, x.b + y.b, x.c + y.c, x.d + y.d, x.e + y.e, x.f + y.f, x.g + y.g, x.h + y.h⟩

def Words.toList (x : Words) : List UInt32 :=
  [x.a, x.b, x.c, x.d, x.e, x.f, x.g, x.h]

/-- The first sixteen words of the schedule: the block read four bytes at a time. -/
def blockWord (block : Bytes) (index : ℕ) : UInt32 :=
  let byte := fun i => (block.getD (index * 4 + i) 0).toUInt32
  (byte 0 <<< 24) ||| (byte 1 <<< 16) ||| (byte 2 <<< 8) ||| byte 3

/-- One of the later words of the schedule, from the `index` words before it. -/
def scheduleWord (words : List UInt32) (index : ℕ) : UInt32 :=
  let word := fun i => words.getD (index - i) 0
  let s0 := rotateRight (word 15) 7 ^^^ rotateRight (word 15) 18 ^^^ (word 15 >>> 3)
  let s1 := rotateRight (word 2) 17 ^^^ rotateRight (word 2) 19 ^^^ (word 2 >>> 10)
  word 16 + s0 + word 7 + s1

def schedule (block : Bytes) : List UInt32 :=
  (List.range' 16 48).foldl (fun words index => words ++ [scheduleWord words index])
    ((List.range 16).map (blockWord block))

/-- One round. -/
def round (x : Words) (constant word : UInt32) : Words :=
  let sum1 := rotateRight x.e 6 ^^^ rotateRight x.e 11 ^^^ rotateRight x.e 25
  let choice := (x.e &&& x.f) ^^^ (~~~x.e &&& x.g)
  let temp1 := x.h + sum1 + choice + constant + word
  let sum0 := rotateRight x.a 2 ^^^ rotateRight x.a 13 ^^^ rotateRight x.a 22
  let majority := (x.a &&& x.b) ^^^ (x.a &&& x.c) ^^^ (x.b &&& x.c)
  let temp2 := sum0 + majority
  ⟨temp1 + temp2, x.a, x.b, x.c, x.d + temp1, x.e, x.f, x.g⟩

def transform (state : Words) (block : Bytes) : Words :=
  state.plus ((kRoundConstants.zip (schedule block)).foldl (fun x p => round x p.1 p.2) state)

/-- A digest under way.  The model keeps the used part of `block_` only. -/
structure Sha256 where
  state : Words := .initial
  block : Bytes := []
  totalBytes : ℕ := 0

/-- One byte into the block, which is consumed when it is full.  The source copies as many bytes at
once as the block has room for. -/
def Sha256.push (digest : Sha256) (byte : UInt8) : Sha256 :=
  let block := digest.block ++ [byte]
  if block.length = 64 then { digest with state := transform digest.state block, block := [] }
  else { digest with block := block }

def Sha256.update (digest : Sha256) (data : Bytes) : Sha256 :=
  data.foldl Sha256.push { digest with totalBytes := digest.totalBytes + data.length }

/-- A hexadecimal digit, as the stream prints it. -/
def hexDigit (value : ℕ) : Char :=
  if value < 10 then Char.ofNat (48 + value) else Char.ofNat (87 + value)

/-- `std::setw(8)` with `std::hex` and `std::setfill('0')`. -/
def hexWord (value : UInt32) : Text :=
  (List.range 8).map fun i => hexDigit (value.toNat / 16 ^ (7 - i) % 16)

/-- The bytes of the length, most significant first. -/
def lengthBytes (bitLength : ℕ) : Bytes :=
  (List.range 8).map fun i => UInt8.ofNat (bitLength / 256 ^ (7 - i))

def Sha256.finish (digest : Sha256) : Text :=
  let bitLength := digest.totalBytes * 8 % 2 ^ 64
  let block := digest.block ++ [0x80]
  let (state, block) :=
    if 56 < block.length then
      (transform digest.state (block ++ List.replicate (64 - block.length) 0), [])
    else (digest.state, block)
  let block := block ++ List.replicate (56 - block.length) 0
  (transform state (block ++ lengthBytes bitLength)).toList.flatMap hexWord

def sha256Hex (text : Bytes) : Text :=
  (Sha256.update {} text).finish

/-- The characters `0` to `9` and `a` to `f`. -/
def isHexDigit (ch : Char) : Bool :=
  ('0' ≤ ch && ch ≤ '9') || ('a' ≤ ch && ch ≤ 'f')

def isHexDigest (value : Text) : Bool :=
  value.length == 64 && value.all isHexDigit

/-- The value of a hexadecimal digit. -/
def digit (ch : Char) : UInt8 :=
  if ch ≤ '9' then UInt8.ofNat (ch.toNat - '0'.toNat) else UInt8.ofNat (ch.toNat - 'a'.toNat + 10)

def digestBytes (hex : Text) : Option Bytes :=
  if isHexDigest hex then
    some ((List.range 32).map fun i =>
      (digit (hex.getD (i * 2) '0') <<< 4) ||| digit (hex.getD (i * 2 + 1) '0'))
  else none

/-! ## Digests are digests -/

lemma isHexDigit_hexDigit {n : ℕ} (h : n < 16) : isHexDigit (hexDigit n) = true := by
  interval_cases n <;> rfl

@[simp]
lemma length_hexWord (w : UInt32) : (hexWord w).length = 8 := by
  simp [hexWord]

lemma all_hexWord (w : UInt32) : (hexWord w).all isHexDigit = true := by
  rw [List.all_eq_true]
  intro ch hch
  obtain ⟨i, -, rfl⟩ := List.mem_map.mp hch
  exact isHexDigit_hexDigit (Nat.mod_lt _ (by omega))

lemma isHexDigest_words (x : Words) : isHexDigest (x.toList.flatMap hexWord) = true := by
  simp [isHexDigest, Words.toList, all_hexWord]

theorem isHexDigest_sha256Hex (text : Bytes) : isHexDigest (sha256Hex text) = true :=
  isHexDigest_words _

end Registry

end Chtholly
