import YieldEngine.InsuranceAmounts
import YieldEngine.RootCurve

/-! # Compensation and divergence

The loss a policy covers grows as the price moves away from the start.  The contract evaluates
it over the scaled price ratio as `2000000·root / (1000 + ratio / 1000)`, and truncates the root
and the denominator apart from one another: within one root the fraction falls where the
denominator steps, at a new root it jumps up.  So the compensation is a sawtooth.

`paidAt` is the compensation as a function of the fraction, `compensation_eq` connects it with
the contract.  Two current prices are compensated in the wrong order when a level of the fraction
at which the coverage pays less separates them (`Misordered`), and `compensation_grows_iff` says
that this is the only way. -/

namespace YieldEngine.Insurance

open CheckedArith IntegerRoot RootCurve

/-- What a coverage pays at the fraction `level` of the value kept, at scale `1000000`. -/
def paidAt (coverage level : ℤ) : ℤ := (max 0 coverage * max 0 (1000000 - level)).tdiv 1000000

/-- The contract's fraction of the value kept reaches `level` at the scaled price ratio. -/
def Keeps (ratio level : ℤ) : Prop := Reaches 2000000 ratio (1000 + ratio.tdiv 1000) level

instance (ratio level : ℤ) : Decidable (Keeps ratio level) :=
  inferInstanceAs (Decidable (Reaches _ _ _ _))

/-- At some level where the coverage pays less, the ratio `far` keeps more than `near`. -/
def Misordered (coverage near far : ℤ) : Prop :=
  ∃ level, 0 < level ∧ paidAt coverage level < paidAt coverage (level - 1) ∧
    ¬ Keeps near level ∧ Keeps far level

theorem paidAt_antitone (coverage : ℤ) : Antitone (paidAt coverage) := by
  intro low high hle
  have hcoverage : 0 ≤ max 0 coverage := le_max_left _ _
  have hlow : 0 ≤ max 0 (1000000 - low) := le_max_left _ _
  have hhigh : 0 ≤ max 0 (1000000 - high) := le_max_left _ _
  unfold paidAt
  rw [Int.tdiv_eq_ediv_of_nonneg (mul_nonneg hcoverage hhigh),
    Int.tdiv_eq_ediv_of_nonneg (mul_nonneg hcoverage hlow)]
  apply Int.ediv_le_ediv (by norm_num)
  exact mul_le_mul_of_nonneg_left (max_le_max le_rfl (by omega)) hcoverage

/-- A claim pays for the coverage at the level of the loss formula, up to the reserve. -/
theorem compensationAt_eq (coverage ratio root : ℤ) :
    max 0 (compensationAt coverage ratio root) =
      paidAt coverage ((2000000 * root).tdiv (1000 + ratio.tdiv 1000)) := by
  simp only [compensationAt, paidAt]
  rw [show 2 * root * 1000000 = 2000000 * root by ring]
  generalize (2000000 * root).tdiv (1000 + ratio.tdiv 1000) = level
  split_ifs with hnone
  · rw [max_eq_left (show 1000000 - level ≤ 0 by omega)]
    simp
  · have hloss : 0 ≤ 1000000 - level := by omega
    rw [max_eq_right hloss]
    rcases le_total 0 coverage with hcoverage | hcoverage
    · rw [max_eq_right hcoverage]
      exact max_eq_right (Rounding.tdiv_nonneg (mul_nonneg hcoverage hloss) (by norm_num))
    · have hneg := Rounding.tdiv_nonneg (mul_nonneg (neg_nonneg.mpr hcoverage) hloss)
        (show (0 : ℤ) < 1000000 by norm_num)
      rw [neg_mul, Int.neg_tdiv, neg_nonneg] at hneg
      rw [max_eq_left hcoverage, max_eq_left hneg]
      simp

/-- One ratio is paid less than another when they are misordered. -/
theorem compensationAt_lt_iff {coverage near far rootNear rootFar : ℤ} (hnear : 0 ≤ near)
    (hfar : 0 ≤ far) (hrootNear : IsRoot near rootNear) (hrootFar : IsRoot far rootFar) :
    max 0 (compensationAt coverage far rootFar) < max 0 (compensationAt coverage near rootNear) ↔
      Misordered coverage near far := by
  have hnonneg := quotient_nonneg (by norm_num : (0 : ℤ) < 2000000) (denominator_pos hnear)
    hrootNear
  have hkeepsNear : ∀ level, 0 < level → (Keeps near level ↔ level ≤ _) := fun level hlevel =>
    reaches_iff (by norm_num) (denominator_pos hnear) hlevel.le hrootNear
  have hkeepsFar : ∀ level, 0 < level → (Keeps far level ↔ level ≤ _) := fun level hlevel =>
    reaches_iff (by norm_num) (denominator_pos hfar) hlevel.le hrootFar
  rw [compensationAt_eq, compensationAt_eq, antitone_lt_iff (paidAt_antitone coverage)]
  constructor
  · rintro ⟨level, hlow, hhigh, hstep⟩
    refine ⟨level, by omega, hstep, ?_, ?_⟩
    · rw [hkeepsNear level (by omega)]
      omega
    · rwa [hkeepsFar level (by omega)]
  · rintro ⟨level, hpos, hstep, hnot, hkeeps⟩
    rw [hkeepsNear level hpos] at hnot
    rw [hkeepsFar level hpos] at hkeeps
    exact ⟨level, by omega, hkeeps, hstep⟩

/-- Without truncation of the root and the denominator there is nothing to misorder: the
fractions of the truncated values decide. -/
theorem not_misordered_of_cross {coverage near far rootNear rootFar : ℤ} (hnear : 0 ≤ near)
    (hfar : 0 ≤ far) (hrootNear : IsRoot near rootNear) (hrootFar : IsRoot far rootFar)
    (hcross : rootFar * (1000 + near.tdiv 1000) ≤ rootNear * (1000 + far.tdiv 1000)) :
    ¬ Misordered coverage near far := by
  rintro ⟨level, hpos, -, hnot, hkeeps⟩
  exact hnot (reaches_of_cross (by norm_num) (denominator_pos hnear) (denominator_pos hfar)
    hrootNear hrootFar hcross hpos.le hkeeps)

section policy
variable {policy : InsurancePolicy}

/-- At the start price nothing is lost. -/
theorem ilCompensation_start {compensation : ℤ}
    (h : ilCompensation policy policy.startPriceRatio = .ok compensation) : compensation = 0 := by
  obtain ⟨hstart, root, hroot, rfl⟩ := ilCompensation_value h
  have hratio : priceRatio policy.startPriceRatio policy.startPriceRatio = 1000000 := by
    rw [priceRatio, mul_comm, Int.mul_tdiv_cancel _ (mul_pos hstart hstart).ne']
  rw [hratio] at hroot ⊢
  have hlow := hroot.lt_iff (show (0 : ℤ) ≤ 1000 by norm_num)
  have hhigh := hroot.lt_iff (show (0 : ℤ) ≤ 1001 by norm_num)
  obtain rfl : root = 1000 := by omega
  rfl

/-- The compensations at two current prices, before the reserve caps them, are in the order of
their divergence exactly when the prices are not misordered.  What a policy pays is `0` where the
formula is negative, so no assumption on the coverage is needed. -/
theorem compensation_grows_iff {near far compensationNear compensationFar : ℤ}
    (hnear : ilCompensation policy near = .ok compensationNear)
    (hfar : ilCompensation policy far = .ok compensationFar) :
    (max 0 compensationNear ≤ max 0 compensationFar ∧
      ∀ compensation, ilCompensation policy policy.startPriceRatio = .ok compensation →
        compensation = 0) ↔
    ¬ Misordered policy.coverageAmount (priceRatio policy.startPriceRatio near)
      (priceRatio policy.startPriceRatio far) := by
  obtain ⟨hstart, rootNear, hrootNear, rfl⟩ := ilCompensation_value hnear
  obtain ⟨-, rootFar, hrootFar, rfl⟩ := ilCompensation_value hfar
  rw [← compensationAt_lt_iff (priceRatio_nonneg hstart near) (priceRatio_nonneg hstart far)
    hrootNear hrootFar, not_lt]
  exact and_iff_left fun _ h => ilCompensation_start h

end policy

/-- A policy over a million, sold at price 1. -/
def soldAtOne : InsurancePolicy := ⟨0, 5, 1000000, 5000, 1000000, 0, coverage7d, 2, false, false⟩

/-- A price that has doubled is compensated at least as much as one that has risen by a half. -/
theorem compensation_grows_iff_doubled : ∃ near far,
    ilCompensation soldAtOne 1500000 = .ok near ∧ ilCompensation soldAtOne 2000000 = .ok far ∧
      max 0 near ≤ max 0 far := by
  have hnear : ilCompensation soldAtOne 1500000 = .ok 76924 := by decide +kernel
  have hfar : ilCompensation soldAtOne 2000000 = .ok 200000 := by decide +kernel
  have hordered : ¬ Misordered 1000000 2250000 4000000 :=
    not_misordered_of_cross (by norm_num) (by norm_num)
      (⟨by norm_num, by norm_num, by norm_num⟩ : IsRoot 2250000 1500)
      (⟨by norm_num, by norm_num, by norm_num⟩ : IsRoot 4000000 2000) (by decide)
  exact ⟨_, _, hnear, hfar, ((compensation_grows_iff hnear hfar).mpr hordered).1⟩

/-- Above the start a price just before a step is compensated and the next one, which is further
away, is not. -/
theorem compensation_falls_at_step :
    ¬ ∀ (policy : InsurancePolicy) (near far compensationNear compensationFar : ℤ),
      (policy.startPriceRatio ≤ near ∧ near ≤ far ∨
        far ≤ near ∧ near ≤ policy.startPriceRatio) →
      ilCompensation policy near = .ok compensationNear →
      ilCompensation policy far = .ok compensationFar → compensationNear ≤ compensationFar := by
  intro hall
  have habove := hall soldAtOne 1000999 1001000 500 0 (by decide) (by decide +kernel)
    (by decide +kernel)
  exact absurd habove (by norm_num)

/-- Below it as well. -/
example : ilCompensation soldAtOne 999500 = .ok 501 ∧ ilCompensation soldAtOne 999499 = .ok 0 := by
  decide +kernel

end YieldEngine.Insurance
