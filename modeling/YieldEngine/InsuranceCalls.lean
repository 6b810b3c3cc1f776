import YieldEngine.InsuranceAmounts

/-! # Entrypoints of the insurance contract

The entrypoints that write storage or move tokens, as functions from the state an invocation
starts in (`InsuranceWorld`) to the state it ends in.

A claim settles a policy in one of three ways: without compensation, with a compensation that
the reserve cannot pay, or with a payout.  `claim_facts` says what all three have in common:
the policy was open, expired and owned by the claimant, the payout is the compensation capped
by the reserve, and the policy is stored as claimed. -/

namespace YieldEngine.Insurance

open CheckedArith

/-- The contract's storage and the token balances. -/
structure InsuranceWorld where
  store : InsuranceStore
  ledger : Ledger

/-- `initialize`. -/
def initializeInsurance (s : InsuranceStore) (admin reserveToken : Address) : InsuranceStore :=
  { s with
    admin := some admin
    reserveToken := some reserveToken
    nextPolicyId := some 0
    reservePool := some ReservePool.empty
    version := some storageVersion }

/-- `upgrade`: the new code takes effect after this invocation, storage is kept. -/
def upgrade (s : InsuranceStore) (admin : Address) : InsuranceCall InsuranceStore := do
  s.requireAdmin admin
  pure s

/-- `migrate`, returning the version replaced. -/
def migrate (s : InsuranceStore) (admin : Address) : InsuranceCall (InsuranceStore × ℕ) := do
  s.requireAdmin admin
  pure ({ s with version := some storageVersion }, s.version.getD 0)

/-! ### Purchase -/

/-- `next_policy_id`. -/
def nextPolicyId (s : InsuranceStore) : InsuranceCall (InsuranceStore × ℕ) := do
  let id := s.nextPolicyId.getD 0
  let next ← checkedU 64 (id + 1)
  pure ({ s with nextPolicyId := some next.toNat }, id)

/-- The reserve after a premium is collected. -/
def collectPremium (reserve : ReservePool) (premiumAmount coverageAmount : ℤ) :
    InsuranceCall ReservePool := do
  let collected ← I128.add reserve.totalPremiumsCollected premiumAmount
  let currentReserve ← I128.add reserve.currentReserve premiumAmount
  let activeCoverage ← I128.add reserve.activeCoverage coverageAmount
  let count ← checkedU 64 (reserve.policyCount + 1)
  pure ⟨collected, reserve.totalClaimsPaid, currentReserve, activeCoverage, count.toNat⟩

/-- `purchase_insurance`, returning the id of the policy.  The premium is paid in the token
the caller names. -/
def purchaseInsurance (e : Env) (w : InsuranceWorld) (buyer : Address) (coverageAmount : ℤ)
    (coveragePeriod : ℕ) (currentPriceRatioScaled : ℤ)
    (historicalVolatilityBps poolCorrelationBps : ℕ) (autoRenew : Bool) (reserveToken : Address) :
    InsuranceCall (ℕ × InsuranceWorld) := do
  e.requireAuth buyer
  require (coveragePeriod = coverage7d ∨ coveragePeriod = coverage30d ∨
    coveragePeriod = coverage90d) (.contract .invalidCoveragePeriod)
  require (0 < coverageAmount) (.contract .coverageAmountMustBePositive)
  let quote ← calculatePremium w.store coverageAmount coveragePeriod historicalVolatilityBps
    poolCorrelationBps
  require (0 < quote.premiumAmount) (.contract .premiumMustBePositive)
  let ledger ← Ledger.transfer e w.ledger reserveToken buyer e.contract quote.premiumAmount
  let (s, policyId) ← nextPolicyId w.store
  let expiry ← checkedU 64 (e.timestamp + coveragePeriod)
  let s := s.savePolicy
    ⟨policyId, buyer, coverageAmount, quote.premiumAmount, currentPriceRatioScaled, e.timestamp,
      expiry.toNat, reserveToken, false, autoRenew⟩
  let reserve ← collectPremium s.getReservePoolInternal quote.premiumAmount coverageAmount
  pure (policyId, ⟨s.setReservePool reserve, ledger⟩)

/-! ### Claim -/

/-- The payment of a payout: where it is positive, the transfer and the reserve after it. -/
def payClaim (e : Env) (w : InsuranceWorld) (claimant : Address) (policy : InsurancePolicy)
    (payout : ℤ) : InsuranceCall InsuranceWorld :=
  if 0 < payout then do
    let reserve := w.store.getReservePoolInternal
    let ledger ← Ledger.transfer e w.ledger policy.coverageToken e.contract claimant payout
    let paid ← I128.add reserve.totalClaimsPaid payout
    let currentReserve ← I128.sub reserve.currentReserve payout
    let activeCoverage ← I128.sub reserve.activeCoverage policy.coverageAmount
    pure ⟨w.store.setReservePool
      { reserve with
        totalClaimsPaid := paid
        currentReserve := currentReserve
        activeCoverage := activeCoverage }, ledger⟩
  else pure w

/-- `claim_il_compensation`, returning the payout.  The source leaves early where the price has
returned to the start and where the compensation is not positive; both store the policy as
claimed and pay nothing. -/
def claimIlCompensation (e : Env) (w : InsuranceWorld) (claimant : Address) (policyId : ℕ)
    (currentPriceRatioScaled : ℤ) : InsuranceCall (ℤ × InsuranceWorld) := do
  e.requireAuth claimant
  let policy ← w.store.getPolicy policyId
  require (policy.claimed = false) (.contract .policyAlreadyClaimed)
  require (policy.owner = claimant) (.contract .notPolicyOwner)
  require (policy.expiry ≤ e.timestamp) (.contract .policyNotExpired)
  let compensation ← ilCompensation policy currentPriceRatioScaled
  if compensation ≤ 0 then
    pure (0, { w with store := w.store.savePolicy { policy with claimed := true } })
  else do
    let payout := min compensation w.store.getReservePoolInternal.currentReserve
    let w ← payClaim e w claimant policy payout
    pure (payout, { w with store := w.store.savePolicy { policy with claimed := true } })

/-- What a returning claim has checked and settled. -/
structure ClaimFacts (e : Env) (w w' : InsuranceWorld) (claimant : Address) (policyId : ℕ)
    (current payout : ℤ) (policy : InsurancePolicy) (compensation : ℤ) : Prop where
  authorized : e.Authorized claimant
  stored : w.store.policies.get policyId = some policy
  isOpen : policy.claimed = false
  owned : policy.owner = claimant
  expired : policy.expiry ≤ e.timestamp
  computed : ilCompensation policy current = .ok compensation
  /-- The compensation is capped by the reserve. -/
  capped : payout =
    if compensation ≤ 0 then 0
    else min compensation w.store.getReservePoolInternal.currentReserve
  settled : w'.store.policies = w.store.policies.set policy.policyId { policy with claimed := true }

theorem payClaim_policies {e : Env} {w w' : InsuranceWorld} {claimant : Address}
    {policy : InsurancePolicy} {payout : ℤ} (h : payClaim e w claimant policy payout = .ok w') :
    w'.store.policies = w.store.policies := by
  simp only [payClaim, ite_eq_ok, bind_eq_ok, pure_eq_ok] at h
  obtain ⟨-, _, -, _, -, _, -, _, -, rfl⟩ | ⟨-, rfl⟩ := h
  · rfl
  · rfl

theorem claim_facts {e : Env} {w w' : InsuranceWorld} {claimant : Address} {policyId : ℕ}
    {current payout : ℤ}
    (h : claimIlCompensation e w claimant policyId current = .ok (payout, w')) :
    ∃ policy compensation,
      ClaimFacts e w w' claimant policyId current payout policy compensation := by
  simp only [claimIlCompensation, bind_eq_ok, Env.requireAuth, require_eq_ok, exists_const,
    InsuranceStore.getPolicy, orRaise_eq_ok, ite_eq_ok, pure_eq_ok, Prod.mk.injEq] at h
  obtain ⟨hauth, policy, hpolicy, hopen, howner, hexpired, compensation, hcomp, hrest⟩ := h
  refine ⟨policy, compensation, hauth, hpolicy, hopen, howner, hexpired, hcomp, ?_, ?_⟩
  · obtain ⟨hle, rfl, -⟩ | ⟨hpos, _, -, rfl, -⟩ := hrest
    · rw [if_pos hle]
    · rw [if_neg hpos]
  · obtain ⟨-, -, rfl⟩ | ⟨-, paid, hpaid, -, rfl⟩ := hrest
    · rfl
    · simp only [InsuranceStore.savePolicy, payClaim_policies hpaid]

end YieldEngine.Insurance
