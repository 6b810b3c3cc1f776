import YieldEngine.InsuranceState
import YieldEngine.IntegerRoot
import YieldEngine.Rounding

/-! # Amounts of the insurance contract

The arithmetic of the insurance on `i128`: the integer square root, the premium of a policy,
and the compensation of an impermanent loss before the reserve caps it (`ilCompensation`).

The compensation is `coverage · (1 - IL)` for `IL = 2·√r / (1 + r)`, evaluated at scale
`1000000` over a ratio `r` of the same scale.  `compensationAt` is that formula as a function
of the root, without overflow checks, and `ilCompensation_value` says that the contract takes
it at the integer square root of the scaled ratio. -/

namespace YieldEngine.Insurance

open CheckedArith IntegerRoot

/-! ### Square root -/

/-- The rounds of `sqrt_scaled`, at most `fuel` of them. -/
def sqrtRounds (x : ℤ) : ℕ → ℤ → ℤ → InsuranceCall ℤ
  | 0, s, _ => pure s
  | fuel + 1, s, t =>
      if t < s then do
        let quotient ← I128.div x t
        let sum ← I128.add t quotient
        let next ← I128.div sum 2
        sqrtRounds x fuel t next
      else pure s

/-- `sqrt_scaled`.  The estimate falls each round, so `x` rounds are enough. -/
def sqrtScaled (x : ℤ) : InsuranceCall ℤ :=
  if x ≤ 0 then pure 0
  else do
    let sum ← I128.add x 1
    let t ← I128.div sum 2
    sqrtRounds x x.toNat x t

theorem sqrtRounds_value {x r : ℤ} :
    ∀ (fuel : ℕ) {s t : ℤ}, sqrtRounds x fuel s t = .ok r → r = newton x fuel s t := by
  intro fuel
  induction fuel with
  | zero =>
      intro s t h
      simp only [sqrtRounds, pure_eq_ok] at h
      simp [newton, h]
  | succ fuel ih =>
      intro s t h
      simp only [sqrtRounds, ite_eq_ok, bind_eq_ok, I128.div_eq_ok, I128.add_eq_ok,
        pure_eq_ok] at h
      unfold newton
      obtain ⟨hlt, _, ⟨-, -, rfl⟩, _, ⟨-, rfl⟩, _, ⟨-, -, rfl⟩, hrest⟩ | ⟨hge, rfl⟩ := h
      · rw [if_pos hlt]
        exact ih hrest
      · rw [if_neg hge]

/-- A returning `sqrt_scaled` has found the integer square root. -/
theorem sqrtScaled_isRoot {x r : ℤ} (hx : 0 ≤ x) (h : sqrtScaled x = .ok r) : IsRoot x r := by
  simp only [sqrtScaled, ite_eq_ok, bind_eq_ok, I128.div_eq_ok, I128.add_eq_ok, pure_eq_ok] at h
  obtain ⟨hle, rfl⟩ | ⟨hpos, _, ⟨-, rfl⟩, _, ⟨-, -, rfl⟩, hrounds⟩ := h
  · exact ⟨le_rfl, by omega, by omega⟩
  · rw [sqrtRounds_value _ hrounds]
    exact newton_self_isRoot (not_le.mp hpos)

/-- No round overflows on a number with a bit to spare. -/
theorem sqrtRounds_eq_newton {x : ℤ} (hx : x < 2 ^ 126) :
    ∀ (fuel : ℕ) {s t : ℤ}, 0 < t → t ≤ x → sqrtRounds x fuel s t = .ok (newton x fuel s t) := by
  intro fuel
  induction fuel with
  | zero => exact fun _ _ => rfl
  | succ fuel ih =>
      intro s t ht hle
      unfold sqrtRounds newton
      by_cases hlt : t < s
      · obtain ⟨hq, hmul, -⟩ := Rounding.tdiv_bounds (show 0 ≤ x by omega) ht
        have hqx : x.tdiv t ≤ x := by nlinarith
        have hhalf : nextEstimate x t = (t + x.tdiv t) / 2 :=
          Int.tdiv_eq_ediv_of_nonneg (by omega)
        have hpos := nextEstimate_pos ht hle
        have hnext : nextEstimate x t ≤ x := by omega
        rw [if_pos hlt, if_pos hlt, I128.div_of_fits ht.ne' (.of_lt hq (by omega)), ok_bind,
          I128.add_of_fits (.of_lt (by omega) (by omega)), ok_bind, ← ih hpos hnext, nextEstimate,
          I128.div_of_fits (by norm_num) (.of_lt hpos.le (hnext.trans_lt (by omega))), ok_bind]
      · rw [if_neg hlt, if_neg hlt]
        rfl

theorem sqrtScaled_returns {x : ℤ} (hx : x < 2 ^ 126) : ∃ r, sqrtScaled x = .ok r := by
  unfold sqrtScaled
  by_cases hle : x ≤ 0
  · exact ⟨0, if_pos hle⟩
  · have hhalf : (x + 1).tdiv 2 = (x + 1) / 2 := Int.tdiv_eq_ediv_of_nonneg (by omega)
    refine ⟨newton x x.toNat x ((x + 1).tdiv 2), ?_⟩
    rw [if_neg hle, I128.add_of_fits (.of_lt (by omega) (by omega)), ok_bind,
      I128.div_of_fits (by norm_num) (.of_lt (by omega) (by omega)), ok_bind,
      sqrtRounds_eq_newton hx _ (by omega) (by omega)]

/-! ### Premium -/

/-- `compute_reserve_ratio`; the quotient is narrowed to 32 bits. -/
def computeReserveRatio (reserve : ReservePool) : InsuranceCall ℕ :=
  if reserve.activeCoverage = 0 then pure (targetReserveRatio * 10)
  else do
    let scaled ← I128.mul reserve.currentReserve 10000
    let ratio ← I128.div scaled reserve.activeCoverage
    pure (ratio % 2 ^ 32).toNat

/-- The base rate and the volatility net of the correlation, over the duration. -/
def volatilityRateBps (durationFactor : ℤ) (historicalVolatilityBps poolCorrelationBps : ℕ) :
    InsuranceCall ℤ := do
  let uncorrelated ← I128.sub 10000 poolCorrelationBps
  let adjusted ← I128.mul historicalVolatilityBps uncorrelated
  let correlationAdjusted ← I128.div adjusted 10000
  let weighted ← I128.mul correlationAdjusted durationFactor
  let volatilityBps ← I128.div weighted 100000
  I128.add basePremiumBps volatilityBps

/-- The rate with the surcharge of a reserve below its minimum. -/
def surchargedRateBps (rate : ℤ) (reserveRatio : ℕ) : InsuranceCall ℤ :=
  if reserveRatio < minReserveRatio then do
    let scaled ← I128.mul rate ((minReserveRatio : ℤ) - reserveRatio)
    let increase ← I128.div scaled 10000
    I128.add rate increase
  else pure rate

/-- `calculate_premium`. -/
def calculatePremium (s : InsuranceStore) (coverageAmount : ℤ)
    (coveragePeriod historicalVolatilityBps poolCorrelationBps : ℕ) :
    InsuranceCall PremiumQuote := do
  let scaledPeriod ← I128.mul coveragePeriod 1000
  let periods ← I128.div scaledPeriod coverage30d
  let durationFactor ← sqrtScaled periods
  let volatilityRate ← volatilityRateBps durationFactor historicalVolatilityBps poolCorrelationBps
  let reserveRatio ← computeReserveRatio s.getReservePoolInternal
  let rate ← surchargedRateBps volatilityRate reserveRatio
  let effectiveRateBps := if 500 < rate then 500 else rate
  let scaled ← I128.mul coverageAmount effectiveRateBps
  let premiumAmount ← I128.div scaled 10000
  pure ⟨premiumAmount, coveragePeriod, coverageAmount, (effectiveRateBps % 2 ^ 32).toNat,
    reserveRatio⟩

/-! ### Compensation -/

/-- The guarded quotient of the loss formula. -/
def ilQuotient (numerator denominator : ℤ) : InsuranceCall ℤ :=
  if 0 < denominator then I128.div numerator denominator else pure 0

/-- The compensation of a claim before the reserve caps it; `0` where the price has returned
to the start. -/
def ilCompensation (policy : InsurancePolicy) (currentPriceRatioScaled : ℤ) :
    InsuranceCall ℤ := do
  let start := policy.startPriceRatio
  let current := currentPriceRatioScaled
  require (0 < start) (.contract .invalidStartPriceRatio)
  let currentSq ← I128.mul current current
  let scaledSq ← I128.mul currentSq 1000000
  let startSq ← I128.mul start start
  let priceRatio1e6 ← I128.div scaledSq startSq
  let sqrtR ← sqrtScaled priceRatio1e6
  let twice ← I128.mul 2 sqrtR
  let numerator ← I128.mul twice 1000000
  let thousandths ← I128.div priceRatio1e6 1000
  let denominator ← I128.add 1000 thousandths
  let ilScaled ← ilQuotient numerator denominator
  if 1000000 ≤ ilScaled then pure 0
  else do
    let ilLossScaled ← I128.sub 1000000 ilScaled
    let covered ← I128.mul policy.coverageAmount ilLossScaled
    I128.div covered 1000000

/-- The squared price movement at scale `1000000`. -/
def priceRatio (start current : ℤ) : ℤ := (current * current * 1000000).tdiv (start * start)

theorem priceRatio_nonneg {start : ℤ} (hstart : 0 < start) (current : ℤ) :
    0 ≤ priceRatio start current := by
  have hsq := mul_self_nonneg current
  exact Rounding.tdiv_nonneg (by omega) (mul_pos hstart hstart)

/-- The formula of the compensation at the square root `root` of the price ratio. -/
def compensationAt (coverage ratio root : ℤ) : ℤ :=
  let ilScaled := (2 * root * 1000000).tdiv (1000 + ratio.tdiv 1000)
  if 1000000 ≤ ilScaled then 0 else (coverage * (1000000 - ilScaled)).tdiv 1000000

theorem denominator_pos {ratio : ℤ} (hratio : 0 ≤ ratio) : 0 < 1000 + ratio.tdiv 1000 := by
  have h := Rounding.tdiv_nonneg hratio (show (0 : ℤ) < 1000 by norm_num)
  omega

/-- The contract takes the formula at the integer square root of the scaled ratio. -/
theorem ilCompensation_value {policy : InsurancePolicy} {current compensation : ℤ}
    (h : ilCompensation policy current = .ok compensation) :
    0 < policy.startPriceRatio ∧ ∃ root,
      IsRoot (priceRatio policy.startPriceRatio current) root ∧
        compensation = compensationAt policy.coverageAmount
          (priceRatio policy.startPriceRatio current) root := by
  simp only [ilCompensation, bind_eq_ok, require_eq_ok, exists_const, I128.mul_eq_ok,
    I128.div_eq_ok, I128.add_eq_ok] at h
  obtain ⟨hstart, _, ⟨-, rfl⟩, _, ⟨-, rfl⟩, _, ⟨-, rfl⟩, ratio, ⟨-, -, hratio⟩, root, hroot, _,
    ⟨-, rfl⟩, _, ⟨-, rfl⟩, _, ⟨-, -, rfl⟩, _, ⟨-, rfl⟩, il, hil, hrest⟩ := h
  have hnonneg := priceRatio_nonneg hstart current
  rw [priceRatio, hratio] at hnonneg
  refine ⟨hstart, root, ?_, ?_⟩
  · rw [priceRatio, hratio]
    exact sqrtScaled_isRoot hnonneg hroot
  · rw [priceRatio, hratio]
    rw [ilQuotient, if_pos (denominator_pos hnonneg), I128.div_eq_ok] at hil
    obtain ⟨-, -, rfl⟩ := hil
    simp only [compensationAt]
    simp only [ite_eq_ok, pure_eq_ok, bind_eq_ok, I128.sub_eq_ok, I128.mul_eq_ok,
      I128.div_eq_ok] at hrest
    obtain ⟨hge, rfl⟩ | ⟨hlt, _, ⟨-, rfl⟩, _, ⟨-, rfl⟩, -, -, rfl⟩ := hrest
    · rw [if_pos hge]
    · rw [if_neg hlt]

end YieldEngine.Insurance
