import YieldEngine.InsuranceCalls

/-! # The client's estimate of an insurance payout

The client repeats the loss formula of the contract on unbounded integers
(`getClaimableAmount`).  It multiplies the price ratio by `1000000` before it takes the square
root, so its root is at scale `1000000`, while the formula around it is the contract's, which
expects a root at scale `1000`.

A compensation of at least `m` is a square root below a step of the formula, `stepRoot`.  The
two roots give the same compensation exactly when no step lies between them
(`NoStepBetween`). -/

namespace YieldEngine.InsuranceClient

open CheckedArith IntegerRoot Insurance

/-- The client's record of a policy. -/
structure ClientPolicy where
  policyId : ℕ
  owner : Address
  coverageAmount : ℤ
  premiumPaid : ℤ
  startPriceRatio : ℤ
  startTime : ℕ
  expiry : ℕ
  claimed : Bool
  autoRenew : Bool
deriving DecidableEq, Repr

/-- The client's record of a policy of the contract. -/
def clientPolicy (policy : InsurancePolicy) : ClientPolicy where
  policyId := policy.policyId
  owner := policy.owner
  coverageAmount := policy.coverageAmount
  premiumPaid := policy.premiumPaid
  startPriceRatio := policy.startPriceRatio
  startTime := policy.startTime
  expiry := policy.expiry
  claimed := policy.claimed
  autoRenew := policy.autoRenew

/-- `bigintSqrt`.  The estimate falls each round, so `n` rounds are enough. -/
def bigintSqrt (n : ℤ) : Except String ℤ :=
  if n < 0 then .error "Square root of negative number"
  else if n = 0 then .ok 0
  else .ok (newton n n.toNat n ((n + 1).tdiv 2))

/-- `getClaimableAmount`. -/
def getClaimableAmount (policy : ClientPolicy) (currentPriceRatioScaled : ℤ) :
    Except String ℤ := do
  let startRatio := policy.startPriceRatio
  let currentRatio := currentPriceRatioScaled
  if startRatio ≤ 0 then pure 0
  else do
    let priceRatio1e6 := (currentRatio * currentRatio * 1000000).tdiv (startRatio * startRatio)
    let sqrtR ← bigintSqrt (priceRatio1e6 * 1000000)
    let numerator := 2 * sqrtR * 1000000
    let denominator := 1000 + priceRatio1e6.tdiv 1000
    let ilScaled := if 0 < denominator then numerator.tdiv denominator else 0
    if 1000000 ≤ ilScaled then pure 0
    else
      let ilLossScaled := 1000000 - ilScaled
      pure ((policy.coverageAmount * ilLossScaled).tdiv 1000000)

/-! ### The estimate is the formula at another root -/

/-- `bigintSqrt` returns the integer square root of every non-negative integer. -/
theorem bigintSqrt_returns {n : ℤ} (hn : 0 ≤ n) : ∃ r, bigintSqrt n = .ok r ∧ IsRoot n r := by
  unfold bigintSqrt
  rw [if_neg (not_lt.mpr hn)]
  by_cases hzero : n = 0
  · exact ⟨0, if_pos hzero, le_rfl, by omega, by omega⟩
  · exact ⟨_, if_neg hzero, newton_self_isRoot (by omega)⟩

/-- The estimate is the formula of the contract at the square root of `1000000` times the
scaled ratio. -/
theorem getClaimableAmount_value (policy : ClientPolicy) (current : ℤ)
    (hstart : 0 < policy.startPriceRatio) :
    ∃ root, IsRoot (1000000 * priceRatio policy.startPriceRatio current) root ∧
      getClaimableAmount policy current = .ok (compensationAt policy.coverageAmount
        (priceRatio policy.startPriceRatio current) root) := by
  have hratio := priceRatio_nonneg hstart current
  have hden := denominator_pos hratio
  obtain ⟨root, hroot, hisRoot⟩ :=
    bigintSqrt_returns (show 0 ≤ priceRatio policy.startPriceRatio current * 1000000 by omega)
  refine ⟨root, by rwa [mul_comm] at hisRoot, ?_⟩
  simp only [getClaimableAmount, not_le.mpr hstart, if_false]
  rw [← priceRatio, hroot]
  simp only [bind, Except.bind, if_pos hden, compensationAt]
  split_ifs
  · rfl
  · rfl

/-! ### Steps of the formula -/

/-- The least square root at which the compensation is below `m`. -/
def stepRoot (coverage ratio m : ℤ) : ℤ :=
  Rounding.ceilDiv
    ((1000 + ratio.tdiv 1000) * (1000001 - Rounding.ceilDiv (1000000 * m) coverage)) 2000000

/-- No step of the formula lies between the square root of the price ratio and that of
`1000000` times it. -/
def NoStepBetween (coverage ratio : ℤ) : Prop :=
  ∀ m, 1 ≤ m → m ≤ coverage →
    ¬ (ratio < stepRoot coverage ratio m * stepRoot coverage ratio m ∧
      stepRoot coverage ratio m * stepRoot coverage ratio m ≤ 1000000 * ratio)

section steps
variable {coverage ratio root m : ℤ}

theorem il_nonneg (hratio : 0 ≤ ratio) (hroot : 0 ≤ root) :
    0 ≤ (2 * root * 1000000).tdiv (1000 + ratio.tdiv 1000) :=
  Rounding.tdiv_nonneg (by omega) (denominator_pos hratio)

theorem compensationAt_nonneg (hcoverage : 0 ≤ coverage) :
    0 ≤ compensationAt coverage ratio root := by
  simp only [compensationAt]
  split_ifs with h
  · exact le_rfl
  · exact Rounding.tdiv_nonneg (mul_nonneg hcoverage (by omega)) (by norm_num)

theorem compensationAt_le (hcoverage : 0 ≤ coverage) (hratio : 0 ≤ ratio) (hroot : 0 ≤ root) :
    compensationAt coverage ratio root ≤ coverage := by
  have hil := il_nonneg hratio hroot
  simp only [compensationAt]
  split_ifs with h
  · exact hcoverage
  · exact Rounding.rate_le hcoverage (by omega) (by omega) (by norm_num)

/-- The compensation reaches `m` exactly when the root is below the step of `m`. -/
theorem le_compensationAt_iff (hratio : 0 ≤ ratio) (hroot : 0 ≤ root) (hm : 1 ≤ m)
    (hle : m ≤ coverage) :
    m ≤ compensationAt coverage ratio root ↔ root < stepRoot coverage ratio m := by
  have hcoverage : 0 < coverage := by omega
  have hden := denominator_pos hratio
  have hil := il_nonneg hratio hroot
  have hloss : 0 < Rounding.ceilDiv (1000000 * m) coverage :=
    (Rounding.lt_ceilDiv_iff hcoverage).mpr (by omega)
  have hstep : (2 * root * 1000000).tdiv (1000 + ratio.tdiv 1000) <
      1000001 - Rounding.ceilDiv (1000000 * m) coverage ↔ root < stepRoot coverage ratio m := by
    rw [stepRoot, Rounding.lt_ceilDiv_iff (by norm_num), Rounding.tdiv_lt_iff (by omega) hden]
    constructor
    · intro h
      linarith
    · intro h
      linarith
  rw [← hstep]
  simp only [compensationAt]
  split_ifs with h
  · omega
  · rw [Rounding.le_tdiv_iff (mul_nonneg hcoverage.le (by omega)) (by norm_num)]
    have hceil := Rounding.ceilDiv_le_iff (a := 1000000 * m)
      (x := 1000000 - (2 * root * 1000000).tdiv (1000 + ratio.tdiv 1000)) hcoverage
    rw [mul_comm m, mul_comm coverage, ← hceil]
    omega

theorem stepRoot_nonneg (hratio : 0 ≤ ratio) (hm : 1 ≤ m) (hle : m ≤ coverage) :
    0 ≤ stepRoot coverage ratio m := by
  have hloss : Rounding.ceilDiv (1000000 * m) coverage ≤ 1000000 :=
    (Rounding.ceilDiv_le_iff (by omega)).mpr (by omega)
  have hpos := mul_pos (denominator_pos hratio)
    (show 0 < 1000001 - Rounding.ceilDiv (1000000 * m) coverage by omega)
  exact ((Rounding.lt_ceilDiv_iff (by norm_num)).mpr (by omega)).le

/-- The two roots give the same compensation exactly when no step lies between them. -/
theorem compensationAt_eq_iff {contractRoot clientRoot : ℤ} (hcoverage : 0 ≤ coverage)
    (hratio : 0 ≤ ratio) (hcontract : IsRoot ratio contractRoot)
    (hclient : IsRoot (1000000 * ratio) clientRoot) :
    compensationAt coverage ratio clientRoot = compensationAt coverage ratio contractRoot ↔
      NoStepBetween coverage ratio := by
  rw [Rounding.eq_iff_thresholds (compensationAt_nonneg hcoverage) (compensationAt_nonneg hcoverage)
    (compensationAt_le hcoverage hratio hclient.nonneg)
    (compensationAt_le hcoverage hratio hcontract.nonneg)]
  refine forall_congr' fun m => forall_congr' fun hm => forall_congr' fun hle => ?_
  have hstep := stepRoot_nonneg hratio hm hle
  rw [le_compensationAt_iff hratio hclient.nonneg hm hle,
    le_compensationAt_iff hratio hcontract.nonneg hm hle, hclient.lt_iff hstep,
    hcontract.lt_iff hstep]
  omega

end steps

/-- The claim and the estimate are the formula at the root of the ratio and at that of `1000000`
times the ratio. -/
theorem estimate_and_claim {policy : InsurancePolicy} {current compensation : ℤ}
    (h : ilCompensation policy current = .ok compensation) :
    let ratio := priceRatio policy.startPriceRatio current
    ∃ contractRoot clientRoot, 0 ≤ ratio ∧ IsRoot ratio contractRoot ∧
      IsRoot (1000000 * ratio) clientRoot ∧
      compensation = compensationAt policy.coverageAmount ratio contractRoot ∧
      getClaimableAmount (clientPolicy policy) current =
        .ok (compensationAt policy.coverageAmount ratio clientRoot) := by
  obtain ⟨hstart, contractRoot, hcontract, hpaid⟩ := ilCompensation_value h
  obtain ⟨clientRoot, hclient, hestimate⟩ :=
    getClaimableAmount_value (clientPolicy policy) current hstart
  exact ⟨contractRoot, clientRoot, priceRatio_nonneg hstart current, hcontract, hclient, hpaid,
    hestimate⟩

/-- Where the contract computes a compensation, the client estimates the same amount exactly
when no step of the formula lies between the two roots. -/
theorem getClaimableAmount_eq_iff {policy : InsurancePolicy} {current compensation : ℤ}
    (hcoverage : 0 ≤ policy.coverageAmount)
    (h : ilCompensation policy current = .ok compensation) :
    getClaimableAmount (clientPolicy policy) current = .ok compensation ↔
      NoStepBetween policy.coverageAmount (priceRatio policy.startPriceRatio current) := by
  obtain ⟨contractRoot, clientRoot, hratio, hcontract, hclient, rfl, hestimate⟩ :=
    estimate_and_claim h
  rw [hestimate, Except.ok.injEq]
  exact compensationAt_eq_iff hcoverage hratio hcontract hclient

/-- A returning claim of a policy with no step between the two roots pays the client's estimate,
capped by the reserve. -/
theorem claim_pays_estimate {e : Env} {w w' : InsuranceWorld} {claimant : Address}
    {policyId : ℕ} {current payout : ℤ} {policy : InsurancePolicy}
    (h : claimIlCompensation e w claimant policyId current = .ok (payout, w'))
    (hpolicy : w.store.policies.get policyId = some policy) (hcoverage : 0 ≤ policy.coverageAmount)
    (hstep : NoStepBetween policy.coverageAmount (priceRatio policy.startPriceRatio current)) :
    ∃ estimate, getClaimableAmount (clientPolicy policy) current = .ok estimate ∧
      payout =
        if estimate ≤ 0 then 0 else min estimate w.store.getReservePoolInternal.currentReserve := by
  obtain ⟨stored, compensation, hfacts⟩ := claim_facts h
  obtain rfl : policy = stored := Option.some.inj (hpolicy.symm.trans hfacts.stored)
  obtain ⟨contractRoot, clientRoot, hratio, hcontract, hclient, hpaid, hestimate⟩ :=
    estimate_and_claim hfacts.computed
  rw [(compensationAt_eq_iff hcoverage hratio hcontract hclient).mpr hstep, ← hpaid] at hestimate
  exact ⟨compensation, hestimate, hfacts.capped⟩

/-! ### Where the estimate is lost -/

/-- The root of `1000000` times the ratio outgrows the denominator over a wide range. -/
theorem denominator_le_root {ratio root : ℤ} (hroot : IsRoot (1000000 * ratio) root)
    (hlow : 1 ≤ ratio) (hhigh : ratio ≤ 1000000000000) : 1000 + ratio.tdiv 1000 ≤ 2 * root := by
  have hratio : 0 ≤ ratio := by omega
  obtain ⟨hq, hmul, -⟩ := Rounding.tdiv_bounds hratio (show (0 : ℤ) < 1000 by norm_num)
  generalize ratio.tdiv 1000 = q at *
  by_contra hlt
  have hsq := mul_self_le_mul_self (show 0 ≤ 2 * (root + 1) by linarith [hroot.nonneg])
    (show 2 * (root + 1) ≤ 1001 + q by omega)
  have hupper := hroot.upper
  have hqq : q * q ≤ 1000000000 * q := mul_le_mul_of_nonneg_right (by omega) hq
  nlinarith

/-- Between a thousandth and a thousandfold of the start price the client estimates nothing. -/
theorem getClaimableAmount_eq_zero {policy : ClientPolicy} {current : ℤ}
    (hstart : 0 < policy.startPriceRatio)
    (hlow : 1 ≤ priceRatio policy.startPriceRatio current)
    (hhigh : priceRatio policy.startPriceRatio current ≤ 1000000000000) :
    getClaimableAmount policy current = .ok 0 := by
  obtain ⟨root, hroot, hestimate⟩ := getClaimableAmount_value policy current hstart
  have hratio := priceRatio_nonneg hstart current
  have hle := denominator_le_root hroot hlow hhigh
  have hil : 1000000 ≤ (2 * root * 1000000).tdiv
      (1000 + (priceRatio policy.startPriceRatio current).tdiv 1000) := by
    rw [Rounding.le_tdiv_iff (by linarith [hroot.nonneg]) (denominator_pos hratio)]
    linarith
  rw [hestimate, compensationAt, if_pos hil]

/-! ### A doubled price -/

/-- A policy over `1000` bought at the price `1`. -/
def unitPolicy : InsurancePolicy := ⟨0, 3, 1000, 5, 1000000, 0, 604800, 2, false, false⟩

/-- At a price below a thousandth of the old one both pay the whole coverage, and at a doubled one
they pay the same exactly when no step lies between the roots. -/
theorem getClaimableAmount_eq_iff_unitPolicy :
    (getClaimableAmount (clientPolicy unitPolicy) 999 = .ok 1000 ↔
        NoStepBetween 1000 (priceRatio 1000000 999)) ∧
      (getClaimableAmount (clientPolicy unitPolicy) 2000000 = .ok 200 ↔
        NoStepBetween 1000 (priceRatio 1000000 2000000)) := by
  have hcoverage : 0 ≤ unitPolicy.coverageAmount := by decide
  exact ⟨getClaimableAmount_eq_iff hcoverage (by decide),
    getClaimableAmount_eq_iff hcoverage (by decide)⟩

/-- At a doubled price the contract pays a fifth of the coverage and the client estimates
nothing. -/
theorem doubled_estimate :
    ilCompensation unitPolicy 2000000 = .ok 200 ∧
      getClaimableAmount (clientPolicy unitPolicy) 2000000 = .ok 0 := by
  decide

end YieldEngine.InsuranceClient
