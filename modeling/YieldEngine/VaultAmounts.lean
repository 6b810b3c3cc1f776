import YieldEngine.VaultCalls
import YieldEngine.Rounding

/-! # The amounts of a withdrawal in exact arithmetic

`redeemed`, `realizedGain`, `performanceFee` and `performanceFeeLegA` are the formulas of a
withdrawal over unbounded integers.  The `_guarded` theorems say that each checked
computation of `VaultCalls.lean` returns the value of its formula unless it overflows, and
`planWithdraw_facts` collects what a returning `planWithdraw` has checked and computed.

The bounds on the formulas are those every accounting argument needs: a redeemed amount lies
between zero and the total, and a full exit either redeems the proportion or clears the
total. -/

namespace YieldEngine.Vault

open CheckedArith Rounding

/-! ### Formulas -/

/-- The amount `q` of `S` shares redeem from a total `A`. -/
def redeemed (isFullExit : Bool) (q A S : ℤ) : ℤ :=
  if isFullExit = true ∧ A - (q * A).tdiv S ≤ dustThreshold then A else (q * A).tdiv S

/-- The redeemed value less the user's proportional cost basis. -/
def realizedGain (position : UserPosition) (amountA amountB q : ℤ) : ℤ :=
  amountA + amountB - ((position.depositedAmountA * q).tdiv position.shares +
    (position.depositedAmountB * q).tdiv position.shares)

/-- The performance fee on the realized gain. -/
def performanceFee (feeRate : ℕ) (position : UserPosition) (amountA amountB q : ℤ) : ℤ :=
  if feeRate = 0 ∨ position.shares ≤ 0 then 0
  else if 0 < realizedGain position amountA amountB q then
    (realizedGain position amountA amountB q * feeRate).tdiv bps
  else 0

/-- Token A's part of a performance fee. -/
def performanceFeeLegA (perfFee amountA amountB : ℤ) : ℤ :=
  if 0 < amountA + amountB then (perfFee * amountA).tdiv (amountA + amountB) else 0

/-- A fee in basis points. -/
def feeOn (rate : ℕ) (amount : ℤ) : ℤ := (amount * rate).tdiv bps

/-! ### The checked computations return the formulas -/

theorem redeemLeg_guarded (isFullExit : Bool) (q A : ℤ) {S : ℤ} (hS : S ≠ 0) :
    Guarded (redeemLeg isFullExit q A S) (fun x => x = redeemed isFullExit q A S) := by
  refine Guarded.bind (guarded_checked fun _ => Guarded.bind (I128.guarded_div hS fun _ => ?_))
  cases isFullExit with
  | false => simp [redeemed, guarded_pure]
  | true =>
      refine Guarded.bind (guarded_checked fun _ => ?_)
      by_cases h : A - (q * A).tdiv S ≤ dustThreshold
      · rw [if_pos h]
        exact guarded_checked fun _ => by simp [redeemed, h]
      · simp [redeemed, h, guarded_pure]

theorem bps_ne_zero : bps ≠ 0 := by decide

theorem bps_pos : 0 < bps := by decide

theorem calculatePerformanceFee_guarded (info : VaultInfo) (position : UserPosition)
    (amountA amountB q : ℤ) :
    Guarded (calculatePerformanceFee info position amountA amountB q)
      (fun x => x = performanceFee info.feeRate position amountA amountB q) := by
  unfold calculatePerformanceFee performanceFee
  by_cases h : info.feeRate = 0 ∨ position.shares ≤ 0
  · simp [h, guarded_pure]
  · have hp : position.shares ≠ 0 := by
      intro h0
      exact h (.inr h0.le)
    rw [if_neg h, if_neg h]
    refine Guarded.bind (guarded_checked fun _ => Guarded.bind (I128.guarded_div hp fun _ => ?_))
    refine Guarded.bind (guarded_checked fun _ => Guarded.bind (I128.guarded_div hp fun _ => ?_))
    refine Guarded.bind (guarded_checked fun _ => Guarded.bind (guarded_checked fun _ =>
      Guarded.bind (guarded_checked fun _ => ?_)))
    change Guarded (if 0 < realizedGain position amountA amountB q then _ else _) _
    by_cases hg : 0 < realizedGain position amountA amountB q
    · rw [if_pos hg, if_pos hg]
      exact Guarded.bind (guarded_checked fun _ => I128.guarded_div bps_ne_zero fun _ => rfl)
    · rw [if_neg hg, if_neg hg]
      exact guarded_pure.mpr rfl

theorem performanceFeeA_guarded (perfFee amountA amountB : ℤ) :
    Guarded (performanceFeeA perfFee amountA amountB)
      (fun x => x = performanceFeeLegA perfFee amountA amountB) := by
  refine Guarded.bind (guarded_checked fun _ => ?_)
  unfold performanceFeeLegA
  by_cases h : 0 < amountA + amountB
  · rw [if_pos h, if_pos h]
    exact Guarded.bind (guarded_checked fun _ => I128.guarded_div h.ne' fun _ => rfl)
  · rw [if_neg h, if_neg h]
    exact guarded_pure.mpr rfl

/-! ### What a plan contains -/

/-- The amounts of a plan are the formulas, applied to the state it was made in. -/
structure PlanFacts (s : VaultStore) (user : Address) (q : ℤ) (plan : WithdrawPlan) : Prop where
  info : s.vaultInfo = some plan.info
  position : plan.position = s.getUserPosition user
  totalShares : plan.metrics.totalShares = s.storedMetrics.totalShares
  totalAmountA : plan.metrics.totalAmountA = s.storedMetrics.totalAmountA
  totalAmountB : plan.metrics.totalAmountB = s.storedMetrics.totalAmountB
  unpaused : s.isPaused = false
  shares_pos : 0 < q
  shares_le : q ≤ plan.position.shares
  total_pos : 0 < plan.metrics.totalShares
  amountA : plan.withdrawAmountA =
    redeemed (q = plan.position.shares) q plan.metrics.totalAmountA plan.metrics.totalShares
  amountB : plan.withdrawAmountB =
    redeemed (q = plan.position.shares) q plan.metrics.totalAmountB plan.metrics.totalShares
  feeA : plan.feeAmountA = feeOn plan.info.withdrawalFee plan.withdrawAmountA
  feeB : plan.feeAmountB = feeOn plan.info.withdrawalFee plan.withdrawAmountB
  perfFee : plan.perfFee = performanceFee plan.info.feeRate plan.position plan.withdrawAmountA
    plan.withdrawAmountB q
  perfFeeA : plan.perfFeeA =
    performanceFeeLegA plan.perfFee plan.withdrawAmountA plan.withdrawAmountB
  perfFeeB : plan.perfFeeB = plan.perfFee - plan.perfFeeA
  finalA : plan.finalAmountA = plan.withdrawAmountA - plan.feeAmountA - plan.perfFeeA
  finalB : plan.finalAmountB = plan.withdrawAmountB - plan.feeAmountB - plan.perfFeeB

theorem planWithdraw_facts {s : VaultStore} {user : Address} {q minA minB : ℤ}
    {plan : WithdrawPlan} (h : planWithdraw s user q minA minB = .ok plan) :
    PlanFacts s user q plan ∧ minA ≤ plan.finalAmountA ∧ minB ≤ plan.finalAmountB := by
  simp only [planWithdraw, bind_eq_ok, require_eq_ok, pure_eq_ok, exists_const, I128.mul_eq_ok,
    I128.sub_eq_ok, I128.div_eq_ok, VaultStore.requireNotPaused_eq_ok,
    VaultStore.getVaultInfo_eq_ok] at h
  obtain ⟨hpause, hq, -, info, hinfo, metrics, hmetrics, hle, hS, amountA, hamountA, amountB,
    hamountB, -, _, ⟨-, rfl⟩, feeA, ⟨-, -, hfeeA⟩, _, ⟨-, rfl⟩, feeB, ⟨-, -, hfeeB⟩, perfFee,
    hperf, perfFeeA, hperfA, perfFeeB, ⟨-, hperfB⟩, _, ⟨-, rfl⟩, finalA, ⟨-, hfinalA⟩, _,
    ⟨-, rfl⟩, finalB, ⟨-, hfinalB⟩, hminA, hminB, rfl⟩ := h
  obtain ⟨hm1, hm2, hm3⟩ := VaultStore.getMetrics_totals hmetrics
  exact ⟨{
    info := hinfo
    position := rfl
    totalShares := hm1
    totalAmountA := hm2
    totalAmountB := hm3
    unpaused := hpause
    shares_pos := hq
    shares_le := hle
    total_pos := hS
    amountA := (redeemLeg_guarded _ _ _ hS.ne').of_ok hamountA
    amountB := (redeemLeg_guarded _ _ _ hS.ne').of_ok hamountB
    feeA := hfeeA.symm
    feeB := hfeeB.symm
    perfFee := (calculatePerformanceFee_guarded _ _ _ _ _).of_ok hperf
    perfFeeA := (performanceFeeA_guarded _ _ _).of_ok hperfA
    perfFeeB := hperfB.symm
    finalA := hfinalA.symm
    finalB := hfinalB.symm }, hminA, hminB⟩

/-! ### A plan is returned -/

/-- The plan of a withdrawal over unbounded integers. -/
def exactPlan (info : VaultInfo) (metrics : VaultMetrics) (position : UserPosition) (q : ℤ) :
    WithdrawPlan :=
  let amountA := redeemed (q = position.shares) q metrics.totalAmountA metrics.totalShares
  let amountB := redeemed (q = position.shares) q metrics.totalAmountB metrics.totalShares
  let feeA := feeOn info.withdrawalFee amountA
  let feeB := feeOn info.withdrawalFee amountB
  let perfFee := performanceFee info.feeRate position amountA amountB q
  let perfFeeA := performanceFeeLegA perfFee amountA amountB
  ⟨info, metrics, position, amountA, amountB, feeA, feeB, perfFee, perfFeeA, perfFee - perfFeeA,
    amountA - feeA - perfFeeA, amountB - feeB - (perfFee - perfFeeA)⟩

theorem valueInUsd_guarded (s : VaultStore) (amountA amountB : ℤ) :
    Guarded (s.valueInUsd amountA amountB) (fun _ => True) :=
  Guarded.bind (guarded_checked fun _ => Guarded.bind (guarded_checked fun _ =>
    guarded_checked fun _ => trivial))

theorem getMetrics_guarded (s : VaultStore) :
    Guarded s.getMetrics (fun m => m.totalShares = s.storedMetrics.totalShares ∧
      m.totalAmountA = s.storedMetrics.totalAmountA ∧
      m.totalAmountB = s.storedMetrics.totalAmountB) :=
  Guarded.bind ((valueInUsd_guarded s _ _).mono fun _ _ => guarded_pure.mpr ⟨rfl, rfl, rfl⟩)

/-- A withdrawal in an unpaused vault gets its plan, unless an operation overflows, once the
share checks pass and the exact amounts meet the slippage bounds. -/
theorem planWithdraw_guarded {s : VaultStore} {user : Address} {q minA minB : ℤ}
    {info : VaultInfo} (hinfo : s.vaultInfo = some info) (hpause : s.isPaused = false)
    (hq : 0 < q) (hmin : s.getMinWithdrawShares ≤ q) (hle : q ≤ (s.getUserPosition user).shares)
    (hS : 0 < s.storedMetrics.totalShares)
    (hnonzero : ∀ plan, PlanFacts s user q plan →
      q = plan.position.shares ∨ 0 < plan.withdrawAmountA ∨ 0 < plan.withdrawAmountB)
    (hfinal : ∀ plan, PlanFacts s user q plan →
      minA ≤ plan.finalAmountA ∧ minB ≤ plan.finalAmountB) :
    Guarded (planWithdraw s user q minA minB) (PlanFacts s user q) := by
  refine Guarded.bind (guarded_require hpause ?_)
  refine Guarded.bind (guarded_require hq ?_)
  refine Guarded.bind (guarded_require hmin ?_)
  refine Guarded.bind (guarded_orRaise hinfo ?_)
  refine Guarded.bind ((getMetrics_guarded s).mono ?_)
  rintro metrics ⟨hm1, hm2, hm3⟩
  have hS' : 0 < metrics.totalShares := hm1 ▸ hS
  have hfacts : PlanFacts s user q (exactPlan info metrics (s.getUserPosition user) q) :=
    ⟨hinfo, rfl, hm1, hm2, hm3, hpause, hq, hle, hS', rfl, rfl, rfl, rfl, rfl, rfl, rfl, rfl, rfl⟩
  obtain ⟨hminA, hminB⟩ := hfinal _ hfacts
  refine Guarded.bind (guarded_require hle ?_)
  refine Guarded.bind (guarded_require hS' ?_)
  refine Guarded.bind ((redeemLeg_guarded _ _ _ hS'.ne').mono ?_)
  rintro amountA rfl
  refine Guarded.bind ((redeemLeg_guarded _ _ _ hS'.ne').mono ?_)
  rintro amountB rfl
  refine Guarded.bind (guarded_require ((hnonzero _ hfacts).imp_left fun h => decide_eq_true h) ?_)
  refine Guarded.bind (guarded_checked fun _ => Guarded.bind (I128.guarded_div bps_ne_zero ?_))
  intro _
  refine Guarded.bind (guarded_checked fun _ => Guarded.bind (I128.guarded_div bps_ne_zero ?_))
  intro _
  refine Guarded.bind ((calculatePerformanceFee_guarded _ _ _ _ _).mono ?_)
  rintro perfFee rfl
  refine Guarded.bind ((performanceFeeA_guarded _ _ _).mono ?_)
  rintro perfFeeA rfl
  refine Guarded.bind (guarded_checked fun _ => Guarded.bind (guarded_checked fun _ => ?_))
  refine Guarded.bind (guarded_checked fun _ => Guarded.bind (guarded_checked fun _ => ?_))
  refine Guarded.bind (guarded_checked fun _ => ?_)
  exact Guarded.bind (guarded_require hminA (Guarded.bind (guarded_require hminB hfacts)))

end YieldEngine.Vault
