import Mathlib.Data.Int.ModEq
import Mathlib.Data.Fintype.Pigeonhole
import Mathlib.Data.Nat.Prime.Basic
import Mathlib.Tactic.Ring
import Mathlib.Tactic.Linarith

/-!
# Triangular probing

The probe sequence `h, h + 1, h + 3, h + 6, …` of open addressing: step `s` looks at slot
`h + s (s + 1) / 2` modulo the capacity.  Over a power of two the first `2ᵏ` steps visit each
of the `2ᵏ` slots exactly once, so a search that goes on for as many steps as there are slots
meets every slot.

## Main results

* `Triangular.injOn` — two of the first `2ᵏ` steps that meet are the same step.
* `Triangular.exists_step` — every slot is met by one of the first `2ᵏ` steps.
-/

set_option autoImplicit false

namespace Triangular

/-- The slot that step `s` of the sequence from `h` looks at, among `2ᵏ` slots. -/
def slot (h s k : ℕ) : ℕ := (h + (s + s * s) / 2) % 2 ^ k

lemma slot_lt (h s k : ℕ) : slot h s k < 2 ^ k :=
  Nat.mod_lt _ (Nat.two_pow_pos k)

lemma even_step (s : ℕ) : 2 ∣ s + s * s := by
  have h : Even (s * (s + 1)) := Nat.even_mul_succ_self s
  rw [show s + s * s = s * (s + 1) by ring]
  exact h.two_dvd

/-- If `2ᵏ⁺¹` divides the product of two numbers of which one is odd, it divides the other. -/
lemma dvd_of_dvd_mul_of_odd {k a b : ℕ} (hdvd : 2 ^ (k + 1) ∣ a * b) (hodd : Odd (a + b)) :
    2 ^ (k + 1) ∣ a ∨ 2 ^ (k + 1) ∣ b := by
  rcases Nat.even_or_odd a with ha | ha
  · have hb : Odd b := by
      rw [Nat.add_comm] at hodd
      exact (Nat.odd_add.1 hodd).2 ha
    left
    exact ((Nat.coprime_two_left.2 hb).pow_left _).dvd_of_dvd_mul_right hdvd
  · right
    exact ((Nat.coprime_two_left.2 ha).pow_left _).dvd_of_dvd_mul_left hdvd

/-- The distance of two steps that meet: `s (s + 1) / 2` and `t (t + 1) / 2` differ by
`(s - t) (s + t + 1) / 2`. -/
lemma dvd_of_slot_eq {h s t k : ℕ} (hle : t ≤ s) (heq : slot h s k = slot h t k) :
    2 ^ (k + 1) ∣ (s - t) * (s + t + 1) := by
  obtain ⟨a, ha⟩ := even_step s
  obtain ⟨b, hb⟩ := even_step t
  have hs : (s + s * s) / 2 = a := by omega
  have ht : (t + t * t) / 2 = b := by omega
  have hmod : h + b ≡ h + a [MOD 2 ^ k] := by
    rw [slot, slot, hs, ht] at heq
    exact heq.symm
  have hba : b ≤ a := by
    have := Nat.mul_le_mul hle hle
    omega
  obtain ⟨c, hc⟩ : 2 ^ k ∣ a - b :=
    (Nat.modEq_iff_dvd' hba).1 (Nat.ModEq.add_left_cancel' h hmod)
  obtain ⟨d, rfl⟩ := Nat.exists_eq_add_of_le hle
  refine ⟨c, ?_⟩
  have hab : a = b + 2 ^ k * c := by omega
  have hd : (t + d - t) * (t + d + t + 1) + (t + t * t) = t + d + (t + d) * (t + d) := by
    rw [Nat.add_sub_cancel_left]
    ring
  rw [ha, hb, hab] at hd
  rw [pow_succ]
  linarith

/-- Two of the first `2ᵏ` steps that look at the same slot are the same step. -/
lemma injOn {h s t k : ℕ} (hs : s < 2 ^ k) (ht : t < 2 ^ k) (heq : slot h s k = slot h t k) :
    s = t := by
  wlog hle : t ≤ s generalizing s t with H
  · exact (H ht hs heq.symm (Nat.le_of_not_le hle)).symm
  have hdvd : 2 ^ (k + 1) ∣ (s - t) * (s + t + 1) := dvd_of_slot_eq hle heq
  have hodd : Odd ((s - t) + (s + t + 1)) := ⟨s, by omega⟩
  have hpow : 2 ^ (k + 1) = 2 * 2 ^ k := by rw [pow_succ, Nat.mul_comm]
  rcases dvd_of_dvd_mul_of_odd hdvd hodd with hd | hd
  · have : s - t = 0 := Nat.eq_zero_of_dvd_of_lt hd (by omega)
    omega
  · have : s + t + 1 = 0 := Nat.eq_zero_of_dvd_of_lt hd (by omega)
    omega

/-- Every slot is looked at by one of the first `2ᵏ` steps. -/
theorem exists_step (h k : ℕ) {i : ℕ} (hi : i < 2 ^ k) : ∃ s < 2 ^ k, slot h s k = i := by
  let f : Fin (2 ^ k) → Fin (2 ^ k) := fun s => ⟨slot h s k, slot_lt h s k⟩
  have hinj : Function.Injective f := by
    intro s t hst
    exact Fin.ext (injOn s.2 t.2 (Fin.mk.inj hst))
  obtain ⟨s, hs⟩ := (Finite.injective_iff_surjective.1 hinj) ⟨i, hi⟩
  exact ⟨s, s.2, Fin.mk.inj hs⟩

end Triangular
