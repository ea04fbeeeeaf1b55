import Chtholly.Merkle.Inclusion
import Chtholly.Registry.Consistency

/-!
# Inclusion proofs are complete and binding

An inclusion proof lists the siblings of an entry of the log.  The check rebuilds the root from the
digest of the entry and takes the siblings one after the other on the way back from the recursion.

## Main definitions

* `Registry.inclusionRange`, `Registry.registryMerkleInclusionProof` — the proof that is served.
* `Registry.rebuild`, `Registry.verifyRegistryMerkleInclusion` — its check.
* `Registry.inclusionHashes` — the pairs that a check hashes.

## Main results

* `Registry.verifyRegistryMerkleInclusion_binding` — completeness and binding.
-/

set_option autoImplicit false

namespace Chtholly

namespace Registry

open Merkle

/-- The siblings on the way down to the entry, pushed to `proof` on the way back. -/
def inclusionRange (leaves : List Text) (begin count index : ℕ) (proof : List Text) : List Text :=
  if count ≤ 1 then proof
  else
    let split := largestPowerOfTwoLessThan count
    if index < split then
      inclusionRange leaves begin split index proof ++
        [merkleRange leaves (begin + split) (count - split)]
    else
      inclusionRange leaves (begin + split) (count - split) (index - split) proof ++
        [merkleRange leaves begin split]
termination_by count
decreasing_by
  · exact largestPowerOfTwoLessThan_lt (by omega)
  · have := largestPowerOfTwoLessThan_pos count
    omega

def registryMerkleInclusionProof (leafHashes : List Text) (leafIndex : ℕ) : List Text :=
  if leafHashes.length ≤ leafIndex ∨ leafHashes.all isHexDigest = false then []
  else inclusionRange leafHashes 0 leafHashes.length leafIndex []

/-- `rebuild`, on the digests from `proof_index` on.  The record of the hashed pairs is not in the
source. -/
def rebuild (leafHash : Text) (index count : ℕ) (proof : List Text) : Option (Ascent Text) :=
  if count = 1 then some ⟨leafHash, proof, []⟩
  -- an empty range is not asked for: the index is below the count
  else if count = 0 then none
  else
    let split := largestPowerOfTwoLessThan count
    if index < split then (rebuild leafHash index split proof).bind (·.joinRight nodeHash)
    else (rebuild leafHash (index - split) (count - split) proof).bind (·.joinLeft nodeHash)
termination_by count
decreasing_by
  · exact largestPowerOfTwoLessThan_lt (by omega)
  · have := largestPowerOfTwoLessThan_pos count
    omega

def verifyRegistryMerkleInclusion (leafHash : Text) (leafIndex treeSize : ℕ) (proof : List Text)
    (expectedRoot : Text) : Bool :=
  if isHexDigest leafHash = false ∨ isHexDigest expectedRoot = false ∨ treeSize = 0 ∨
      treeSize ≤ leafIndex ∨ proof.all isHexDigest = false then false
  else
    match rebuild leafHash leafIndex treeSize proof with
    | none => false
    | some rebuilt => rebuilt.rest.isEmpty && rebuilt.root == expectedRoot

/-- The pairs that the check hashes. -/
def inclusionHashes (leafHash : Text) (leafIndex treeSize : ℕ) (proof : List Text) :
    List (Text × Text) :=
  match rebuild leafHash leafIndex treeSize proof with
  | none => []
  | some rebuilt => rebuilt.hashed

/-! ## The source's recursions are those of the tree -/

/-- The siblings of the source's tree. -/
abbrev rangePath (leaves : List Text) : ℕ → ℕ → ℕ → List Text :=
  path nodeHash (sha256Hex []) (leafAt leaves)

lemma inclusionRange_eq (leaves : List Text) {begin count index : ℕ} (proof : List Text)
    (h : count < 2 ^ 64) :
    inclusionRange leaves begin count index proof = proof ++ rangePath leaves begin count index := by
  induction count using Nat.strongRecOn generalizing begin index with
  | ind count ih =>
    rw [inclusionRange, rangePath, path]
    by_cases hc : count ≤ 1
    · simp only [if_pos hc, List.append_nil]
    · have hlt := split_lt (show 2 ≤ count by omega)
      have hpos := split_pos count
      simp only [if_neg hc, largestPowerOfTwoLessThan_eq (show 2 ≤ count by omega) h]
      by_cases hleft : index < split count
      · rw [if_pos hleft, if_pos hleft, ih _ hlt (by omega), merkleRange_eq _ (by omega),
          List.append_assoc]
      · rw [if_neg hleft, if_neg hleft, ih _ (by omega) (by omega), merkleRange_eq _ (by omega),
          List.append_assoc]

lemma rebuild_eq (leafHash : Text) {index count : ℕ} (proof : List Text) (hpos : 0 < count)
    (h : count < 2 ^ 64) :
    rebuild leafHash index count proof = ascend nodeHash index count leafHash proof := by
  induction count using Nat.strongRecOn generalizing index with
  | ind count ih =>
    rw [rebuild]
    by_cases hone : count = 1
    · rw [if_pos hone, ascend_of_le_one (by omega)]
    · have hlt := split_lt (show 2 ≤ count by omega)
      have hsplit := split_pos count
      rw [if_neg hone, if_neg (by omega)]
      simp only [largestPowerOfTwoLessThan_eq (show 2 ≤ count by omega) h]
      by_cases hleft : index < split count
      · rw [if_pos hleft, ascend_left (by omega) hleft, ih _ hlt (by omega) (by omega)]
      · rw [if_neg hleft, ascend_right (by omega) hleft, ih _ (by omega) (by omega) (by omega)]

/-- The siblings of an entry are digests. -/
lemma all_rangePath {leaves : List Text} (hleaves : leaves.all isHexDigest = true)
    {begin count index : ℕ} (h : begin + count ≤ leaves.length) :
    (rangePath leaves begin count index).all isHexDigest = true := by
  induction count using Nat.strongRecOn generalizing begin index with
  | ind count ih =>
    rw [rangePath, path]
    by_cases hc : count ≤ 1
    · rw [if_pos hc, List.all_nil]
    · have hlt := split_lt (show 2 ≤ count by omega)
      have hpos := split_pos count
      rw [if_neg hc]
      by_cases hleft : index < split count
      · have hright := isHexDigest_rangeRoot hleaves
          (show begin + split count + (count - split count) ≤ leaves.length by omega)
        rw [if_pos hleft, List.all_append, ih _ hlt (by omega), Bool.true_and]
        simpa using hright
      · have hroot := isHexDigest_rangeRoot hleaves
          (show begin + split count ≤ leaves.length by omega)
        rw [if_neg hleft, List.all_append, ih _ (by omega) (by omega), Bool.true_and]
        simpa using hroot

lemma registryMerkleInclusionProof_eq {leaves : List Text} {index : ℕ}
    (hleaves : leaves.all isHexDigest = true) (hi : index < leaves.length)
    (hn : leaves.length < 2 ^ 64) :
    registryMerkleInclusionProof leaves index = rangePath leaves 0 leaves.length index := by
  have hguard : ¬(leaves.length ≤ index ∨ leaves.all isHexDigest = false) := by
    rw [hleaves]
    simp only [Bool.true_eq_false, or_false]
    omega
  rw [registryMerkleInclusionProof, if_neg hguard, inclusionRange_eq _ _ hn, List.nil_append]

/-! ## Completeness and binding -/

/-- What the check accepts is rebuilt from well-formed digests, without any left. -/
lemma verify_eq_true {leafHash expectedRoot : Text} {leafIndex treeSize : ℕ} {proof : List Text} :
    verifyRegistryMerkleInclusion leafHash leafIndex treeSize proof expectedRoot = true ↔
      isHexDigest leafHash = true ∧ isHexDigest expectedRoot = true ∧ leafIndex < treeSize ∧
        proof.all isHexDigest = true ∧
        ∃ hashed, rebuild leafHash leafIndex treeSize proof = some ⟨expectedRoot, [], hashed⟩ := by
  unfold verifyRegistryMerkleInclusion
  split
  · rename_i hguard
    simp only [Bool.false_eq_true, false_iff]
    rintro ⟨hleaf, hroot, hi, hproof, -⟩
    rw [hleaf, hroot, hproof] at hguard
    simp only [Bool.true_eq_false, or_false, false_or] at hguard
    omega
  · rename_i hguard
    simp only [not_or, Bool.not_eq_false] at hguard
    obtain ⟨hleaf, hroot, -, hi, hproof⟩ := hguard
    simp only [hleaf, hroot, hproof, true_and, show leafIndex < treeSize by omega]
    split
    · rename_i hnone
      simp [hnone]
    · rename_i rebuilt hsome
      obtain ⟨root, rest, hashed⟩ := rebuilt
      simp [hsome, and_comm]

/-- The check accepts the proof that is served for each entry; and whatever it accepts against the
root over some entries is that entry with that proof, as long as no two of the hashed pairs
collide. -/
theorem verifyRegistryMerkleInclusion_binding :
    (∀ (leaves : List Text) (index : ℕ) (hi : index < leaves.length), leaves.length < 2 ^ 64 →
      leaves.all isHexDigest = true →
      verifyRegistryMerkleInclusion leaves[index] index leaves.length
        (registryMerkleInclusionProof leaves index) (registryMerkleRoot leaves) = true) ∧
    (∀ (S : Set (Text × Text)), S.InjOn (fun p => nodeHash p.1 p.2) →
      ∀ (leaves : List Text) (index : ℕ) (hi : index < leaves.length) (leafHash : Text)
        (proof : List Text), leaves.length < 2 ^ 64 →
      (∀ p ∈ registryMerklePairs leaves, p ∈ S) →
      (∀ p ∈ inclusionHashes leafHash index leaves.length proof, p ∈ S) →
      verifyRegistryMerkleInclusion leafHash index leaves.length proof
        (registryMerkleRoot leaves) = true →
      leafHash = leaves[index] ∧ proof = registryMerkleInclusionProof leaves index) := by
  refine ⟨?_, ?_⟩
  · intro leaves index hi hn hleaves
    have hleaf : leafAt leaves (0 + index) = leaves[index] := by
      rw [Nat.zero_add, leafAt, List.getD_eq_getElem _ _ hi]
    have hdigest := isHexDigest_rangeRoot hleaves (show 0 + leaves.length ≤ leaves.length by omega)
    obtain ⟨hashed, hascend⟩ :=
      @ascend_path _ nodeHash (sha256Hex []) (leafAt leaves) 0 leaves.length index [] hi
    rw [hleaf, List.append_nil] at hascend
    rw [registryMerkleInclusionProof_eq hleaves hi hn, registryMerkleRoot_eq hleaves hn,
      verify_eq_true, rebuild_eq _ _ (by omega) hn]
    exact ⟨List.all_eq_true.mp hleaves _ (List.getElem_mem hi), hdigest, hi,
      all_rangePath hleaves (by omega), hashed, hascend⟩
  · intro S hS leaves index hi leafHash proof hn hpairs hhashed hverify
    obtain ⟨-, hroot, -, -, hashed, hrebuild⟩ := verify_eq_true.mp hverify
    have hleaves : leaves.all isHexDigest = true := by
      -- the root over anything else is the empty text, which is no digest
      by_contra hleaves
      rw [registryMerkleRoot, if_neg hleaves] at hroot
      simp [isHexDigest] at hroot
    rw [registryMerkleRoot_eq hleaves hn] at hrebuild
    rw [inclusionHashes, hrebuild] at hhashed
    rw [rebuild_eq _ _ (by omega) hn] at hrebuild
    obtain ⟨hleaf, hproof⟩ := ascend_inj hS hi hpairs hrebuild hhashed rfl
    rw [registryMerkleInclusionProof_eq hleaves hi hn]
    refine ⟨?_, by rw [hproof, List.append_nil]⟩
    rw [hleaf, Nat.zero_add, leafAt, List.getD_eq_getElem _ _ hi]

lemma rebuild_pair (a b : Text) :
    rebuild a 0 2 [b] = some ⟨nodeHash a b, [], [(a, b)]⟩ := by
  have hsplit : split 2 = 1 := by
    rw [split_eq (j := 0) (by decide) (by decide), pow_zero]
  rw [rebuild_eq _ _ (by decide) (by decide), ascend_left (by decide) (by omega), hsplit,
    ascend_of_le_one le_rfl]
  rfl

theorem twoLeaves_inclusion :
    verifyRegistryMerkleInclusion (sha256Hex [0]) 0 2
        (registryMerkleInclusionProof [sha256Hex [0], sha256Hex [1]] 0)
        (registryMerkleRoot [sha256Hex [0], sha256Hex [1]]) = true ∧
      [sha256Hex [1]] = registryMerkleInclusionProof [sha256Hex [0], sha256Hex [1]] 0 := by
  have ha := isHexDigest_sha256Hex [0]
  have hb := isHexDigest_sha256Hex [1]
  generalize sha256Hex [0] = a at *
  generalize sha256Hex [1] = b at *
  have hleaves : [a, b].all isHexDigest = true := by simp [ha, hb]
  have hS : Set.InjOn (fun p : Text × Text => nodeHash p.1 p.2) {(a, b)} :=
    Set.injOn_singleton _ _
  have hpairs : ∀ p ∈ registryMerklePairs [a, b], p ∈ ({(a, b)} : Set (Text × Text)) := by
    rw [registryMerklePairs_pair]
    simp
  have hhashed : ∀ p ∈ inclusionHashes a 0 2 [b], p ∈ ({(a, b)} : Set (Text × Text)) := by
    rw [inclusionHashes, rebuild_pair]
    simp
  have hroot : registryMerkleRoot [a, b] = nodeHash a b :=
    (registryMerkleRoot_eq hleaves (by simp)).trans (root_pair a b)
  obtain ⟨hcomplete, hbinding⟩ := verifyRegistryMerkleInclusion_binding
  refine ⟨hcomplete [a, b] 0 (by simp) (by simp) hleaves, ?_⟩
  refine (hbinding _ hS [a, b] 0 (by simp) a [b] (by simp) hpairs hhashed ?_).2
  rw [hroot]
  exact verify_eq_true.mpr ⟨ha, isHexDigest_nodeHash ha hb, by simp, by simp [hb], [(a, b)],
    rebuild_pair a b⟩

end Registry

end Chtholly
