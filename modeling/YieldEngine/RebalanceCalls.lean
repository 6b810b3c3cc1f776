import YieldEngine.RebalanceState

/-! # Entrypoints of the rebalance engine

Each entrypoint is a function from the state an invocation starts in to the state it leaves.
Most of them touch the engine's storage alone; the two that move tokens work on a `World`.

A pool address is also the address of the pool's token contract.  `execute_flash_rebalance`
asks a vault contract for its pool; `vaultPool` is that contract's answer, or `none` where the
call traps. -/

namespace YieldEngine.Rebalance

open CheckedArith

/-- The engine's storage and the token balances. -/
structure World where
  store : RebalanceStore
  ledger : Ledger

variable (e : Env) (s : RebalanceStore)

/-! ### Initialisation and upgrades -/

/-- `initialize`. -/
def initializeRebalance (admin : Address) : RebalanceStore :=
  { s with
    admin := some admin
    paused := some false
    nextStrategyId := some 1
    strategies := some SortedMap.empty
    history := some []
    poolApy := some SortedMap.empty
    apyKeepers := some []
    maxApyAge := some defaultMaxApyAge
    maxSlippageBps := some defaultMaxSlippageBps
    version := some storageVersion }

/-- `upgrade`: the new code takes effect after this invocation, storage is kept. -/
def upgrade (admin : Address) : RebalanceCall RebalanceStore := do
  s.requireAdmin admin
  pure s

/-- `migrate`, returning the version replaced. -/
def migrate (admin : Address) : RebalanceCall (RebalanceStore × ℕ) := do
  s.requireAdmin admin
  pure ({ s with version := some storageVersion }, s.version.getD 0)

/-! ### Strategies -/

/-- `validate_allocations`. -/
def validateAllocations (allocations : List PoolAllocation) : RebalanceCall Unit := do
  require (allocations ≠ []) (.contract .emptyAllocations)
  let totalBps ← allocations.foldlM (fun (total : ℕ) allocation => do
    require (allocation.allocationPercent ≤ 10000) (.contract .allocationOutOfRange)
    pure (total + allocation.allocationPercent)) 0
  require (totalBps = 10000) (.contract .allocationsMustSumTo100Percent)

/-- `get_next_strategy_id`. -/
def getNextStrategyId : RebalanceCall (RebalanceStore × ℕ) := do
  let id ← orRaise s.nextStrategyId (.contract .notInitialized)
  let next ← checkedU 32 (id + 1)
  pure ({ s with nextStrategyId := some next.toNat }, id)

/-- `create_strategy`, returning the new id. -/
def createStrategy (admin : Address) (name : String)
    (riskLevel minApyThreshold maxIlRisk rebalanceFrequency : ℕ)
    (allocations : List PoolAllocation) : RebalanceCall (RebalanceStore × ℕ) := do
  s.requireAdmin admin
  s.requireNotPaused
  validateAllocations allocations
  let (s, strategyId) ← getNextStrategyId s
  let strategies ← s.getStrategiesMap
  require (1 ≤ riskLevel ∧ riskLevel ≤ 3) (.contract .invalidRiskLevel)
  pure ({ s with
    strategies := some (strategies.set strategyId
      ⟨strategyId, name, riskLevel, minApyThreshold, maxIlRisk, rebalanceFrequency,
        allocations⟩) }, strategyId)

/-- `update_strategy`. -/
def updateStrategy (admin : Address) (strategyId : ℕ) (name : String)
    (riskLevel minApyThreshold maxIlRisk rebalanceFrequency : ℕ)
    (allocations : List PoolAllocation) : RebalanceCall RebalanceStore := do
  s.requireAdmin admin
  s.requireNotPaused
  validateAllocations allocations
  require (1 ≤ riskLevel ∧ riskLevel ≤ 3) (.contract .invalidRiskLevel)
  let strategies ← s.getStrategiesMap
  require (strategies.contains strategyId = true) (.contract .strategyNotFound)
  pure { s with
    strategies := some (strategies.set strategyId
      ⟨strategyId, name, riskLevel, minApyThreshold, maxIlRisk, rebalanceFrequency,
        allocations⟩) }

/-! ### Settings -/

/-- `set_max_slippage_bps`. -/
def setMaxSlippageBps (admin : Address) (maxSlippageBps : ℕ) : RebalanceCall RebalanceStore := do
  s.requireAdmin admin
  require (maxSlippageBps ≤ 10000) (.panic "max_slippage_bps must not exceed 10000")
  pure { s with maxSlippageBps := some maxSlippageBps }

/-- `set_max_apy_age`. -/
def setMaxApyAge (admin : Address) (maxAge : ℕ) : RebalanceCall RebalanceStore := do
  s.requireAdmin admin
  pure { s with maxApyAge := some maxAge }

/-- `set_apy_keepers`. -/
def setApyKeepers (admin : Address) (keepers : List Address) : RebalanceCall RebalanceStore := do
  s.requireAdmin admin
  pure { s with apyKeepers := some keepers }

/-- `set_feed_failure_threshold`. -/
def setFeedFailureThreshold (admin : Address) (threshold : ℕ) :
    RebalanceCall RebalanceStore := do
  s.requireAdmin admin
  pure { s with feedFailureThreshold := some threshold }

/-- `set_rebalance_pacing`. -/
def setRebalancePacing (admin : Address) (maxAmountPerWindow : ℤ) (windowSeconds : ℕ) :
    RebalanceCall RebalanceStore := do
  s.requireAdmin admin
  require (0 ≤ maxAmountPerWindow) (.panic "max_amount_per_window must not be negative")
  require (maxAmountPerWindow = 0 ∨ 0 < windowSeconds)
    (.panic "window_seconds must be positive when pacing is enabled")
  pure { s with rebalancePacing := some ⟨maxAmountPerWindow, windowSeconds⟩ }

/-- `set_rebalance_thresholds`: the minimum net profit has a setter of its own. -/
def setRebalanceThresholds (admin : Address) (minApyDelta maxIlTolerance cooldownPeriod : ℕ) :
    RebalanceCall RebalanceStore := do
  s.requireAdmin admin
  pure { s with
    arbitrageThresholds := some ⟨minApyDelta, maxIlTolerance, cooldownPeriod,
      s.getArbitrageThresholds.minNetProfit⟩ }

/-- `set_min_net_profit`. -/
def setMinNetProfit (admin : Address) (minNetProfit : ℤ) : RebalanceCall RebalanceStore := do
  s.requireAdmin admin
  require (0 ≤ minNetProfit) (.panic "min_net_profit must not be negative")
  pure { s with
    arbitrageThresholds := some { s.getArbitrageThresholds with minNetProfit := minNetProfit } }

/-- `set_pool_breaker_threshold`. -/
def setPoolBreakerThreshold (admin poolId : Address) (threshold : ℕ) :
    RebalanceCall RebalanceStore := do
  s.requireAdmin admin
  require (0 < threshold) (.panic "threshold must be greater than zero")
  pure { s with
    poolBreakerThresh :=
      some ((s.poolBreakerThresh.getD SortedMap.empty).set poolId threshold) }

/-- `set_strategy_breaker_threshold`. -/
def setStrategyBreakerThreshold (admin : Address) (strategyId threshold : ℕ) :
    RebalanceCall RebalanceStore := do
  s.requireAdmin admin
  require (0 < threshold) (.panic "threshold must be greater than zero")
  pure { s with
    stratBreakerThresh :=
      some ((s.stratBreakerThresh.getD SortedMap.empty).set strategyId threshold) }

/-- `pause`. -/
def pause (admin : Address) : RebalanceCall RebalanceStore := do
  s.requireAdmin admin
  pure { s with paused := some true }

/-- `unpause`. -/
def unpause (admin : Address) : RebalanceCall RebalanceStore := do
  s.requireAdmin admin
  pure { s with paused := some false }

/-! ### Feeds -/

/-- `update_pool_apy`; the source checks the bound twice. -/
def updatePoolApy (caller poolId : Address) (apyBps : ℕ) : RebalanceCall RebalanceStore := do
  s.requireNotPaused
  s.requireAdminOrApyKeeper caller
  require (apyBps ≤ maxApyBps) (.contract .apyOutOfRange)
  require (apyBps ≤ maxApyBps) (.panic "apy_bps exceeds maximum")
  e.requireAuth caller
  pure { s with
    poolApy := some (s.getApyRegistry.set poolId ⟨apyBps, e.timestamp, caller⟩) }

/-- `record_feed_validation_failure`. -/
def recordFeedValidationFailure (poolId : Address) :
    RebalanceCall (RebalanceStore × FeedValidationRecord) := do
  s.requireNotPaused
  let records := s.getFeedValidationMap
  let record := (records.get poolId).getD ⟨0, 0, false⟩
  let failureCount := min (record.failureCount + 1) u32Max
  let threshold := s.getFeedFailureThreshold
  let record : FeedValidationRecord :=
    ⟨failureCount, e.timestamp,
      if 0 < threshold ∧ threshold ≤ failureCount then true else record.excluded⟩
  pure ({ s with feedValidation := some (records.set poolId record) }, record)

/-- `record_feed_validation_success`, returning the record it replaced. -/
def recordFeedValidationSuccess (poolId : Address) :
    RebalanceCall (RebalanceStore × FeedValidationRecord) := do
  s.requireNotPaused
  let records := s.getFeedValidationMap
  pure ({ s with feedValidation := some (records.set poolId ⟨0, 0, false⟩) },
    (records.get poolId).getD ⟨0, 0, false⟩)

/-! ### Pacing -/

/-- `pacing_allows`: whether `amount` may leave the pool under the current window. -/
def pacingAllows (poolId : Address) (amount : ℤ) : RebalanceCall Bool :=
  let pacing := s.getRebalancePacing
  if pacing.maxAmountPerWindow ≤ 0 ∨ pacing.windowSeconds = 0 then pure true
  else do
    let usage := s.getPoolWindowUsage poolId
    let used := if usage.windowActive = true ∧
        e.timestamp - usage.windowStartedAt < pacing.windowSeconds then usage.amountMoved else 0
    let next ← I128.add used amount
    pure (decide (next ≤ pacing.maxAmountPerWindow))

/-- `record_pacing`: charge a successful move against the pool's window. -/
def recordPacing (poolId : Address) (amount : ℤ) : RebalanceCall RebalanceStore :=
  let pacing := s.getRebalancePacing
  if pacing.maxAmountPerWindow ≤ 0 ∨ pacing.windowSeconds = 0 then pure s
  else do
    let usage := s.getPoolWindowUsage poolId
    let usage : PoolWindowUsage :=
      if usage.windowActive = false ∨ pacing.windowSeconds ≤ e.timestamp - usage.windowStartedAt
      then ⟨true, e.timestamp, 0⟩ else usage
    let amountMoved ← I128.add usage.amountMoved amount
    pure { s with
      rebalancePoolWindows := some (s.getPoolWindows.set poolId
        { usage with amountMoved := amountMoved }) }

/-- The budget check of both rebalances; a move of nothing is not paced. -/
def budgetAllows (poolId : Address) (movedAmount : ℤ) : RebalanceCall Bool :=
  if 0 < movedAmount then pacingAllows e s poolId movedAmount else pure true

/-- The budget charge of both rebalances. -/
def chargeBudget (poolId : Address) (movedAmount : ℤ) : RebalanceCall RebalanceStore :=
  if 0 < movedAmount then recordPacing e s poolId movedAmount else pure s

/-! ### Rebalances -/

/-- `slippage_allows`.  The engine quotes the output it realises, so the shortfall it compares
with the configured cap is zero. -/
def slippageAllows (proposal : RebalanceProposal) : RebalanceCall Bool :=
  if proposal.minOutput ≤ 0 then pure false
  else
    let realisedOutput := proposal.amountB
    if realisedOutput < proposal.minOutput then pure false
    else
      let quotedOutput := proposal.amountB
      if quotedOutput ≤ 0 then pure false
      else do
        let shortfall := max (-2 ^ 127) (min (2 ^ 127 - 1) (quotedOutput - realisedOutput))
        let scaled ← checkedU 128 (shortfall % 2 ^ 128 * 10000)
        pure (decide (scaled / quotedOutput ≤ s.getMaxSlippageBps))

/-- `perform_rebalance`: take `amount_a` out of the source pool and put `amount_b` into the
target pool. -/
def performRebalance (l : Ledger) (proposal : RebalanceProposal) :
    RebalanceCall (Ledger × Bool) :=
  if proposal.amountA ≤ 0 ∨ proposal.amountB ≤ 0 then pure (l, false)
  else do
    let l ← l.transfer e proposal.fromPool proposal.fromPool e.contract proposal.amountA
    let l ← l.transfer e proposal.toPool e.contract proposal.toPool proposal.amountB
    pure (l, true)

/-- `add_to_history`. -/
def addToHistory (entry : RebalanceHistory) : RebalanceCall RebalanceStore := do
  let history ← s.storedHistory
  let history := history ++ [entry]
  pure { s with
    history := some
      (if historyLimit < history.length then history.drop (history.length - historyLimit)
       else history) }

/-- `execute_rebalance`. -/
def executeRebalance (w : World) (proposal : RebalanceProposal) : RebalanceCall (World × Bool) := do
  w.store.requireNotPaused
  let movedAmount ← I128.add proposal.amountA proposal.amountB
  let paced ← budgetAllows e w.store proposal.fromPool movedAmount
  if paced = false then pure (w, false)
  else do
    let bounded ← slippageAllows w.store proposal
    if bounded = false then pure (w, false)
    else do
      let apyBefore := w.store.getPoolCurrentApy proposal.fromPool
      let (ledger, success) ← performRebalance e w.ledger proposal
      let s ← (if success = true then chargeBudget e w.store proposal.fromPool movedAmount
        else pure w.store : RebalanceCall RebalanceStore)
      let apyAfter := if success = true then s.getPoolCurrentApy proposal.toPool else apyBefore
      let s ← addToHistory s ⟨e.timestamp, proposal.fromPool, proposal.toPool, movedAmount,
        apyBefore, apyAfter, success⟩
      pure (⟨s, ledger⟩, success)

/-- `record_vault_rebalance`. -/
def recordVaultRebalance (vaultId : Address) : RebalanceStore :=
  { s with
    vaultLastRebalanceTimes := some (s.getLastRebalanceTimes.set vaultId e.timestamp) }

/-- `execute_flash_rebalance`: an exit leg, then a leg into the pool of the opportunity. -/
def executeFlashRebalance (vaultPool : Address → Option Address) (w : World) (vaultId : Address)
    (opportunity : ArbitrageOpportunity) (amount : ℤ) : RebalanceCall (World × Bool) := do
  w.store.requireNotPaused
  if w.store.isFeedExcluded opportunity.poolId = true then pure (w, false)
  else if w.store.isVaultInCooldown e vaultId = true then pure (w, false)
  else do
    let currentPool ← orRaise (vaultPool vaultId) (.panic "get_vault_info failed")
    let movedAmount ← I128.mul amount 2
    let paced ← budgetAllows e w.store currentPool movedAmount
    if paced = false then pure (w, false)
    else do
      let leg (toPool : Address) : RebalanceProposal :=
        ⟨currentPool, toPool, amount, amount, opportunity.apyDelta, 30000, e.timestamp, amount⟩
      let (ledger, withdrawn) ← performRebalance e w.ledger (leg currentPool)
      if withdrawn = false then pure (⟨w.store, ledger⟩, false)
      else do
        let (ledger, deposited) ← performRebalance e ledger (leg opportunity.poolId)
        if deposited = false then pure (⟨w.store, ledger⟩, false)
        else do
          let s ← chargeBudget e w.store currentPool movedAmount
          pure (⟨recordVaultRebalance e s vaultId, ledger⟩, true)

/-! ### Circuit breakers -/

/-- `breaker_trips`. -/
def breakerTrips (newestSuccess secondNewestSuccess thirdNewestSuccess : Bool) : Bool :=
  !newestSuccess && !secondNewestSuccess && !thirdNewestSuccess

/-- `Vec::get(i).unwrap()`. -/
def entryAt (history : List RebalanceHistory) (i : ℕ) : RebalanceCall RebalanceHistory :=
  orRaise history[i]? (.panic "called `Option::unwrap()` on a `None` value")

/-- `is_emergency_stop_triggered`. -/
def isEmergencyStopTriggered : RebalanceCall Bool := do
  let history ← s.getHistory emergencyStopWindow
  let newest := history.length
  if newest < emergencyStopWindow then pure false
  else do
    let first ← entryAt history (newest - 1)
    let second ← entryAt history (newest - 2)
    let third ← entryAt history (newest - 3)
    pure (breakerTrips first.success second.success third.success)

/-- Pause on behalf of the stored admin if `triggered`. -/
def stopIf (triggered : Bool) : RebalanceCall (RebalanceStore × Bool) :=
  if triggered = false then pure (s, false)
  else do
    let admin ← s.getAdmin
    let s ← pause s admin
    pure (s, true)

/-- `check_emergency_stop`. -/
def checkEmergencyStop : RebalanceCall (RebalanceStore × Bool) := do
  let triggered ← isEmergencyStopTriggered s
  stopIf s triggered

/-- The pool is the source or the destination of the entry. -/
def RebalanceHistory.Touches (entry : RebalanceHistory) (poolId : Address) : Prop :=
  entry.fromPool = poolId ∨ entry.toPool = poolId

instance (entry : RebalanceHistory) (poolId : Address) : Decidable (entry.Touches poolId) :=
  inferInstanceAs (Decidable (_ ∨ _))

/-- The loop of `get_pool_history` over the entries not read yet, newest first. -/
def poolHistoryLoop (poolId : Address) (limit : ℕ) :
    List RebalanceHistory → List RebalanceHistory → List RebalanceHistory
  | [], matching => matching
  | entry :: older, matching =>
      if entry.Touches poolId then
        if limit ≤ (matching ++ [entry]).length then matching ++ [entry]
        else poolHistoryLoop poolId limit older (matching ++ [entry])
      else poolHistoryLoop poolId limit older matching

/-- `get_pool_history`: the newest `limit` entries of a pool, newest first. -/
def getPoolHistory (poolId : Address) (limit : ℕ) : RebalanceCall (List RebalanceHistory) :=
  if limit = 0 then pure []
  else do
    let history ← orRaise s.history (.panic "history")
    pure (poolHistoryLoop poolId limit history.reverse [])

/-- `is_pool_emergency_stop_triggered`. -/
def isPoolEmergencyStopTriggered (poolId : Address) : RebalanceCall Bool := do
  let threshold := s.getPoolBreakerThreshold poolId
  let poolEntries ← getPoolHistory s poolId threshold
  if poolEntries.length < threshold then pure false
  else pure (poolEntries.all fun entry => !entry.success)

/-- `check_pool_emergency_stop`. -/
def checkPoolEmergencyStop (poolId : Address) : RebalanceCall (RebalanceStore × Bool) := do
  let triggered ← isPoolEmergencyStopTriggered s poolId
  stopIf s triggered

/-- The loop of `is_strategy_breaker_tripped` over the entries not read yet, newest first. -/
def strategyBreakerLoop (pools : List Address) (threshold : ℕ) :
    List RebalanceHistory → ℕ → Bool
  | [], _ => false
  | entry :: older, count =>
      if ∃ poolId ∈ pools, entry.Touches poolId then
        if entry.success = true then false
        else if threshold ≤ count + 1 then true
        else strategyBreakerLoop pools threshold older (count + 1)
      else strategyBreakerLoop pools threshold older count

/-- `is_strategy_breaker_tripped`. -/
def isStrategyBreakerTripped (strategyId : ℕ) : RebalanceCall Bool := do
  let strategies ← s.getStrategiesMap
  match strategies.get strategyId with
  | none => pure false
  | some strategy => do
      let history ← orRaise s.history (.panic "history")
      pure (strategyBreakerLoop (strategy.allocations.map PoolAllocation.poolId)
        (s.getStrategyBreakerThreshold strategyId) history.reverse 0)

/-- `check_strategy_emergency_stop`. -/
def checkStrategyEmergencyStop (strategyId : ℕ) : RebalanceCall (RebalanceStore × Bool) := do
  let triggered ← isStrategyBreakerTripped s strategyId
  stopIf s triggered

end YieldEngine.Rebalance
