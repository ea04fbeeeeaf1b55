import Chtholly.Loop.Bounded
import Chtholly.Merkle.Extension
import Chtholly.Registry.Digest

/-!
# The transparency log of a registry

The log of a registry is a hash tree over the digests of its entries.  `merkleRange` computes the
root over a range of them, `consistencyRange` collects the siblings that link an older root to a
newer one, and `verifyRegistryMerkleConsistency` walks the bits of the two sizes to check them.

The sizes are 64-bit; the subtraction in `largestPowerOfTwoLessThan` wraps, and the shifting loops
are given the sixty-four rounds that a 64-bit number can make them take.

## Main definitions

* `Registry.nodeHash`, `Registry.merkleRange`, `Registry.registryMerkleRoot` — roots.
* `Registry.registryMerkleConsistencyProof` — the proof that a registry serves.
* `Registry.Walk`, `Registry.walk`, `Registry.verifyRegistryMerkleConsistency` — its check.
* `Registry.consistencyHashes` — the pairs that a check hashes.
-/

set_option autoImplicit false

namespace Chtholly

namespace Registry

open Loop Merkle

def nodeHash (left right : Text) : Text :=
  match digestBytes left, digestBytes right with
  | some leftBytes, some rightBytes => sha256Hex (0x01 :: leftBytes ++ rightBytes)
  | _, _ => []

/-- `while (result <= bound) result *= 2`.  The loop starts at one, so the result is never zero. -/
def doubleWhile (bound result : ℕ) : ℕ :=
  if 0 < result ∧ result ≤ bound then doubleWhile bound (result * 2) else result
termination_by bound + 1 - result

def largestPowerOfTwoLessThan (value : ℕ) : ℕ :=
  doubleWhile ((value + (2 ^ 64 - 1)) % 2 ^ 64 / 2) 1

lemma doubleWhile_pos {bound result : ℕ} (h : 0 < result) : 0 < doubleWhile bound result := by
  fun_induction doubleWhile bound result with
  | case1 result hc ih => exact ih (by omega)
  | case2 result hc => exact h

lemma doubleWhile_le (bound result : ℕ) : doubleWhile bound result ≤ max result (2 * bound) := by
  fun_induction doubleWhile bound result with
  | case1 result hc ih => omega
  | case2 result hc => omega

lemma largestPowerOfTwoLessThan_pos (value : ℕ) : 0 < largestPowerOfTwoLessThan value :=
  doubleWhile_pos (by omega)

lemma largestPowerOfTwoLessThan_lt {value : ℕ} (h : 2 ≤ value) :
    largestPowerOfTwoLessThan value < value := by
  have := doubleWhile_le ((value + (2 ^ 64 - 1)) % 2 ^ 64 / 2) 1
  unfold largestPowerOfTwoLessThan
  omega

def merkleRange (leaves : List Text) (begin count : ℕ) : Text :=
  if count = 0 then sha256Hex []
  else if count = 1 then leaves.getD begin []
  else
    let split := largestPowerOfTwoLessThan count
    nodeHash (merkleRange leaves begin split) (merkleRange leaves (begin + split) (count - split))
termination_by count
decreasing_by
  · exact largestPowerOfTwoLessThan_lt (by omega)
  · have := largestPowerOfTwoLessThan_pos count
    omega

def registryMerkleRoot (leafHashes : List Text) : Text :=
  if leafHashes.all isHexDigest then merkleRange leafHashes 0 leafHashes.length else []

/-- The siblings on the way down to the older tree, pushed to `proof` on the way back. -/
def consistencyRange (leaves : List Text) (begin oldSize newSize : ℕ) (complete : Bool)
    (proof : List Text) : List Text :=
  if oldSize = newSize then
    if complete then proof else proof ++ [merkleRange leaves begin newSize]
  -- a range of fewer than two leaves is not asked for: the sizes differ and are positive
  else if newSize < 2 then proof
  else
    let split := largestPowerOfTwoLessThan newSize
    if oldSize ≤ split then
      consistencyRange leaves begin oldSize split complete proof ++
        [merkleRange leaves (begin + split) (newSize - split)]
    else
      consistencyRange leaves (begin + split) (oldSize - split) (newSize - split) false proof ++
        [merkleRange leaves begin split]
termination_by newSize
decreasing_by
  · exact largestPowerOfTwoLessThan_lt (by omega)
  · have := largestPowerOfTwoLessThan_pos newSize
    omega

def registryMerkleConsistencyProof (leafHashes : List Text) (oldTreeSize : ℕ) : List Text :=
  let newSize := leafHashes.length
  if oldTreeSize = 0 ∨ newSize < oldTreeSize ∨ leafHashes.all isHexDigest = false then []
  else if oldTreeSize ≠ newSize then consistencyRange leafHashes 0 oldTreeSize newSize true []
  else []

/-! ## The check -/

/-- `fn >>= 1U; sn >>= 1U`. -/
def shift (p : ℕ × ℕ) : ℕ × ℕ := (p.1 >>> 1, p.2 >>> 1)

/-- The trailing ones of the older size are dropped from both. -/
def strip : ℕ × ℕ → Option (ℕ × ℕ) :=
  whileDo (fun p => p.1 &&& 1 != 0) shift 64

/-- The trailing zeros of a size that is not zero are dropped from both. -/
def skip : ℕ × ℕ → Option (ℕ × ℕ) :=
  whileDo (fun p => p.1 != 0 && p.1 &&& 1 == 0) shift 64

/-- The variables of the check: `fn`, `sn`, and the roots `first` and `second` rebuilt so far.  The
record of the hashed pairs is not in the source. -/
structure Walk where
  bits : ℕ × ℕ
  roots : Rebuilt Text

/-- The body of the loop over the proof. -/
def walkStep (w : Walk) (hash : Text) : Option Walk :=
  if w.bits.1 &&& 1 != 0 || w.bits.1 == w.bits.2 then
    (skip w.bits).map fun bits => ⟨shift bits, w.roots.joinLeft nodeHash hash⟩
  else some ⟨shift w.bits, w.roots.joinRight nodeHash hash⟩

/-- The loop over the proof; it returns false, here `some none`, when digests are left at the top
of the tree. -/
def walk (w : Walk) : List Text → Option (Option Walk)
  | [] => some (some w)
  | hash :: proof =>
    if w.bits.2 = 0 then some none
    else (walkStep w hash).bind fun w => walk w proof

/-- The walk from a seed. -/
def walkFrom (bits : ℕ × ℕ) (seed : Text) (proof : List Text) : Option (Option Walk) :=
  walk ⟨bits, ⟨seed, seed, []⟩⟩ proof

/-- The walk of the check: the seed is the old root, or else the first digest of the proof. -/
def consistencyWalk (oldTreeSize newTreeSize : ℕ) (oldRoot : Text) (proof : List Text) :
    Option (Option Walk) :=
  (strip (oldTreeSize - 1, newTreeSize - 1)).bind fun bits =>
    if bits.1 = 0 then walkFrom bits oldRoot proof
    else
      match proof with
      | [] => some none
      | front :: proof => walkFrom bits front proof

/-- The pairs that the check hashes. -/
def consistencyHashes (oldTreeSize newTreeSize : ℕ) (oldRoot : Text) (proof : List Text) :
    List (Text × Text) :=
  match consistencyWalk oldTreeSize newTreeSize oldRoot proof with
  | some (some w) => w.roots.hashed
  | _ => []

/-- The check itself; `none` when one of its loops takes more than sixty-four rounds. -/
def verifyRegistryMerkleConsistency (oldTreeSize newTreeSize : ℕ) (oldRoot newRoot : Text)
    (proof : List Text) : Option Bool :=
  if oldTreeSize = 0 ∨ newTreeSize < oldTreeSize ∨ isHexDigest oldRoot = false ∨
      isHexDigest newRoot = false ∨ proof.all isHexDigest = false then some false
  else if oldTreeSize = newTreeSize then some (proof.isEmpty && oldRoot == newRoot)
  else
    (consistencyWalk oldTreeSize newTreeSize oldRoot proof).map fun
      | none => false
      | some w => w.bits.2 == 0 && w.roots.first == oldRoot && w.roots.second == newRoot

end Registry

end Chtholly
