import YieldEngine.RebalanceState

/-! # Routing of the rebalance engine

The two entrypoints that look for better pools.  Both read rates through `resolveApy`: a fresh
oracle record wins over the rate the caller or the strategy carries.  A pool plays one of four
roles in them.  As the source of an allocation, and as the pool of the vault, it is the rate to
beat; as another allocation, and as an available pool, it is a candidate.

`analyzeRebalanceOpportunities` and `scanOpportunities` write nothing.  Rates are 32-bit
numbers, so the profit estimate cannot overflow; the two operations on thresholds can. -/

namespace YieldEngine.Rebalance

open CheckedArith

variable (e : Env) (s : RebalanceStore)

/-- `resolve_apy`. -/
def resolveApy (poolId : Address) (fallback : ℕ) : ℕ :=
  match s.getApyRegistry.get poolId with
  | none => fallback
  | some record =>
      if s.getMaxApyAge < e.timestamp - record.updatedAt then fallback else record.apyBps

/-- Runs `f` on each element and joins what it finds. -/
def collect {α β : Type} (f : α → RebalanceCall (List β)) : List α → RebalanceCall (List β)
  | [] => pure []
  | a :: as => do
      let found ← f a
      let rest ← collect f as
      pure (found ++ rest)

/-! ### Proposals of a strategy -/

/-- The candidate beats the rate `currentApy` of the allocation by the strategy's threshold, at
a risk the strategy accepts. -/
def Beats (strategy : RebalanceStrategy) (currentAllocation : PoolAllocation) (currentApy : ℕ)
    (candidate : PoolAllocation) : Prop :=
  candidate.poolId ≠ currentAllocation.poolId ∧
    currentApy < resolveApy e s candidate.poolId candidate.currentApy ∧
    strategy.minApyThreshold ≤
      resolveApy e s candidate.poolId candidate.currentApy - currentApy ∧
    candidate.impermanentLossRisk ≤ strategy.maxIlRisk

instance (strategy : RebalanceStrategy) (currentAllocation : PoolAllocation) (currentApy : ℕ)
    (candidate : PoolAllocation) :
    Decidable (Beats e s strategy currentAllocation currentApy candidate) :=
  inferInstanceAs (Decidable (_ ∧ _ ∧ _ ∧ _))

/-- One round of `find_better_pools`; the pool is reported with its resolved rate. -/
def betterPool (strategy : RebalanceStrategy) (currentAllocation : PoolAllocation)
    (currentApy : ℕ) (candidate : PoolAllocation) : Option PoolAllocation :=
  if s.isFeedExcluded candidate.poolId = true then none
  else if Beats e s strategy currentAllocation currentApy candidate then
    some { candidate with currentApy := resolveApy e s candidate.poolId candidate.currentApy }
  else none

/-- `find_better_pools`. -/
def findBetterPools (currentAllocation : PoolAllocation) (strategy : RebalanceStrategy)
    (currentApy : ℕ) : List PoolAllocation :=
  strategy.allocations.filterMap (betterPool e s strategy currentAllocation currentApy)

/-- `estimate_gas_cost`. -/
def estimateGasCost : ℤ := 50000

/-- The proposal to move an allocation at `currentApy` into a better pool. -/
def proposalTo (allocation : PoolAllocation) (currentApy : ℕ) (betterPool : PoolAllocation) :
    RebalanceProposal where
  fromPool := allocation.poolId
  toPool := betterPool.poolId
  amountA := allocation.allocationPercent
  amountB := allocation.allocationPercent
  expectedApyImprovement := betterPool.currentApy - currentApy
  estimatedGasCost := estimateGasCost
  timestamp := e.timestamp
  minOutput := 0

/-- One round of `analyze_rebalance_opportunities`. -/
def analyzeAllocation (strategy : RebalanceStrategy) (allocation : PoolAllocation) :
    RebalanceCall (List RebalanceProposal) := do
  let currentApy := resolveApy e s allocation.poolId allocation.currentApy
  let bound ← checkedU 32 ((allocation.targetApy : ℤ) - strategy.minApyThreshold)
  if currentApy < bound then
    pure ((findBetterPools e s allocation strategy currentApy).map
      (proposalTo e allocation currentApy))
  else pure []

/-- `analyze_rebalance_opportunities`. -/
def analyzeRebalanceOpportunities (strategyId : ℕ) : RebalanceCall (List RebalanceProposal) := do
  s.requireNotPaused
  let strategy ← s.getStrategy strategyId
  collect (analyzeAllocation e s strategy) strategy.allocations

/-! ### Opportunities of a vault -/

/-- The estimate of the net profit of an opportunity. -/
def netProfitEstimate (apyDelta impermanentLossRisk : ℕ) : ℤ :=
  (((apyDelta : ℤ) - impermanentLossRisk) * 1000000).tdiv 10000

/-- One round of `scan_opportunities`; `apyDelta` saturates at zero. -/
def scanPool (vaultApy : ℕ) (pool : PoolAllocation) :
    RebalanceCall (List ArbitrageOpportunity) :=
  if s.isFeedExcluded pool.poolId = true then pure []
  else
    let thresholds := s.getArbitrageThresholds
    let poolApy := resolveApy e s pool.poolId pool.currentApy
    let apyDelta := poolApy - vaultApy
    if thresholds.minApyDelta ≤ apyDelta ∧
        pool.impermanentLossRisk ≤ thresholds.maxIlTolerance then
      let netProfit := netProfitEstimate apyDelta pool.impermanentLossRisk
      if netProfit < thresholds.minNetProfit then pure []
      else do
        let strong ← checkedU 32 ((thresholds.minApyDelta : ℤ) * 2)
        pure [⟨pool.poolId, vaultApy, poolApy, pool.impermanentLossRisk, netProfit, apyDelta,
          decide (strong ≤ apyDelta)⟩]
    else pure []

/-- `scan_opportunities`. -/
def scanOpportunities (vaultPoolId : Address) (vaultCurrentApy : ℕ)
    (availablePools : List PoolAllocation) : RebalanceCall (List ArbitrageOpportunity) := do
  s.requireNotPaused
  collect (scanPool e s (resolveApy e s vaultPoolId vaultCurrentApy)) availablePools

end YieldEngine.Rebalance
