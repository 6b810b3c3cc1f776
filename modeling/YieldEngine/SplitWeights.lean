import Mathlib.NumberTheory.Harmonic.Bounds
import Mathlib.Analysis.Complex.ExponentialBounds

/-! # Taking an amount apart step by step

An amount `p` is taken apart by parts `q₁, q₂, …`.  When each part is charged in proportion to
what is left (`q₁ / p`, then `q₂ / (p - q₁)`, …) the charges sum to `splitWeight`, which is
more than the one charge `(q₁ + q₂ + …) / p` (`sum_div_le_splitWeight`) and at most the
harmonic number of `p` (`splitWeight_le_harmonic`): logarithmic in the amount, however it is
split. -/

namespace SplitWeights

/-- The parts are positive and each is at most what is left. -/
def SplitsFrom : ℤ → List ℤ → Prop
  | _, [] => True
  | p, q :: qs => 0 < q ∧ q ≤ p ∧ SplitsFrom (p - q) qs

/-- The sum of the parts, each over what is left when it is taken. -/
def splitWeight : ℤ → List ℤ → ℚ
  | _, [] => 0
  | p, q :: qs => (q : ℚ) / p + splitWeight (p - q) qs

theorem SplitsFrom.sum_bounds :
    ∀ {qs : List ℤ} {p : ℤ}, SplitsFrom p qs → 0 ≤ qs.sum ∧ (0 ≤ p → qs.sum ≤ p)
  | [], _, _ => by simp
  | q :: qs, p, ⟨hq, hqp, hqs⟩ => by
      obtain ⟨h0, hle⟩ := hqs.sum_bounds
      rw [List.sum_cons]
      exact ⟨by omega, fun _ => by have := hle (by omega); omega⟩

theorem splitWeight_nonneg :
    ∀ {qs : List ℤ} {p : ℤ}, SplitsFrom p qs → 0 ≤ splitWeight p qs
  | [], _, _ => le_rfl
  | q :: qs, p, ⟨hq, hqp, hqs⟩ => by
      have hq' : (0 : ℚ) ≤ q := by exact_mod_cast hq.le
      have hp' : (0 : ℚ) ≤ p := by exact_mod_cast hq.le.trans hqp
      exact add_nonneg (div_nonneg hq' hp') (splitWeight_nonneg hqs)

/-- Charging in parts is never cheaper than charging once on a larger rest. -/
theorem sum_div_le_splitWeight {P : ℤ} :
    ∀ {qs : List ℤ} {p : ℤ}, SplitsFrom p qs → p ≤ P → (qs.sum : ℚ) / P ≤ splitWeight p qs
  | [], _, _, _ => by simp [splitWeight]
  | q :: qs, p, ⟨hq, hqp, hqs⟩, hpP => by
      have ih := sum_div_le_splitWeight (P := P) hqs (by omega)
      have hp' : (0 : ℚ) < p := by exact_mod_cast hq.trans_le hqp
      have hq' : (0 : ℚ) ≤ q := by exact_mod_cast hq.le
      have hpP' : (p : ℚ) ≤ P := by exact_mod_cast hpP
      rw [List.sum_cons, splitWeight, Int.cast_add, add_div]
      exact add_le_add (div_le_div_of_nonneg_left hq' hp' hpP') ih

/-- The harmonic numbers grow by at least `q / p` on the way from `p - q` to `p`. -/
theorem harmonic_add_le {m : ℕ} : ∀ q : ℕ, (q : ℚ) / (m + q : ℕ) + harmonic m ≤ harmonic (m + q)
  | 0 => by simp
  | q + 1 => by
      have ih := harmonic_add_le (m := m) q
      have hstep : harmonic (m + (q + 1)) = harmonic (m + q) + ((m + q + 1 : ℕ) : ℚ)⁻¹ := by
        rw [← add_assoc, harmonic_succ]
      have hle : (q : ℚ) / (m + (q + 1) : ℕ) ≤ (q : ℚ) / (m + q : ℕ) := by
        rcases Nat.eq_zero_or_pos q with rfl | hq
        · simp
        · refine div_le_div_of_nonneg_left (Nat.cast_nonneg q) ?_ ?_
          · exact_mod_cast Nat.add_pos_right m hq
          · exact_mod_cast Nat.add_le_add_left (Nat.le_succ q) m
      have hsplit : ((q + 1 : ℕ) : ℚ) / (m + (q + 1) : ℕ) =
          (q : ℚ) / (m + (q + 1) : ℕ) + ((m + q + 1 : ℕ) : ℚ)⁻¹ := by
        rw [Nat.cast_add_one, add_div, one_div, ← add_assoc m q 1]
      rw [hsplit, hstep]
      linarith

theorem splitWeight_le_harmonic :
    ∀ {qs : List ℤ} {p : ℤ}, SplitsFrom p qs → splitWeight p qs ≤ harmonic p.toNat
  | [], p, _ => by
      rw [splitWeight, harmonic]
      exact Finset.sum_nonneg fun i _ => inv_nonneg.mpr (Nat.cast_nonneg _)
  | q :: qs, p, ⟨hq, hqp, hqs⟩ => by
      have ih := splitWeight_le_harmonic hqs
      obtain ⟨k, rfl⟩ := Int.eq_ofNat_of_zero_le hq.le
      obtain ⟨m, hm⟩ := Int.eq_ofNat_of_zero_le (sub_nonneg.mpr hqp)
      obtain rfl : p = ((m + k : ℕ) : ℤ) := by push_cast; omega
      have hmk : ((m + k : ℕ) : ℤ) - (k : ℤ) = m := by push_cast; ring
      rw [hmk, Int.toNat_natCast] at ih
      have h := harmonic_add_le (m := m) k
      rw [splitWeight, hmk, Int.toNat_natCast]
      push_cast at h ⊢
      linarith

/-- However an amount below `2 ^ 127` is split, the charges sum to at most 90. -/
theorem splitWeight_le {qs : List ℤ} {p : ℤ} (h : SplitsFrom p qs) (hp : p < 2 ^ 127) :
    splitWeight p qs ≤ 90 := by
  refine (splitWeight_le_harmonic h).trans ?_
  have hlog := harmonic_le_one_add_log p.toNat
  have hpow : Real.log p.toNat ≤ 127 * Real.log 2 := by
    rcases Nat.eq_zero_or_pos p.toNat with h0 | hpos
    · rw [h0]
      have := Real.log_pos (one_lt_two)
      simp only [Nat.cast_zero, Real.log_zero]
      positivity
    · rw [← Real.log_rpow two_pos]
      refine Real.log_le_log (by exact_mod_cast hpos) ?_
      have h1 : p.toNat ≤ 2 ^ 127 := by omega
      exact_mod_cast h1
  have hreal : ((harmonic p.toNat : ℚ) : ℝ) ≤ 90 := by
    have := Real.log_two_lt_d9
    linarith
  exact_mod_cast hreal

end SplitWeights
