import YieldEngine.Host
import YieldEngine.SortedMap

/-! # Storage of the rebalance engine

The records the engine keeps in instance storage (`RebalanceStore`), its error codes, and the
getters with their defaults.  A cell of `RebalanceStore` is `none` until it is first written.
Rates and allocations are in basis points.

Contract events are not modelled: no function of the engine reads them. -/

namespace YieldEngine.Rebalance

open CheckedArith

/-- `RebalanceError`. -/
inductive RebalanceError where
  | unauthorized
  | paused
  | notInitialized
  | strategyNotFound
  | invalidRiskLevel
  | emptyAllocations
  | allocationOutOfRange
  | allocationsMustSumTo100Percent
  | apyOutOfRange
deriving DecidableEq, Repr

/-- The outcome of an engine invocation. -/
abbrev RebalanceCall (α : Type) := Call RebalanceError α

/-! ### Records -/

structure PoolAllocation where
  poolId : Address
  tokenA : Address
  tokenB : Address
  allocationPercent : ℕ
  targetApy : ℕ
  currentApy : ℕ
  impermanentLossRisk : ℕ
deriving DecidableEq, Repr

/-- The risk level is 1 (conservative), 2 (balanced) or 3 (aggressive). -/
structure RebalanceStrategy where
  strategyId : ℕ
  name : String
  riskLevel : ℕ
  minApyThreshold : ℕ
  maxIlRisk : ℕ
  rebalanceFrequency : ℕ
  allocations : List PoolAllocation
deriving DecidableEq, Repr

structure RebalanceProposal where
  fromPool : Address
  toPool : Address
  amountA : ℤ
  amountB : ℤ
  expectedApyImprovement : ℕ
  estimatedGasCost : ℤ
  timestamp : ℕ
  /-- Minimum acceptable output, enforced at execution time. -/
  minOutput : ℤ
deriving DecidableEq, Repr

structure RebalanceHistory where
  timestamp : ℕ
  fromPool : Address
  toPool : Address
  amountMoved : ℤ
  apyBefore : ℕ
  apyAfter : ℕ
  success : Bool
deriving DecidableEq, Repr

structure ArbitrageOpportunity where
  poolId : Address
  currentApy : ℕ
  projectedApy : ℕ
  ilRisk : ℕ
  netProfit : ℤ
  apyDelta : ℕ
  recommended : Bool
deriving DecidableEq, Repr

structure ArbitrageThresholds where
  minApyDelta : ℕ
  maxIlTolerance : ℕ
  /-- Seconds between rebalances of one vault. -/
  cooldownPeriod : ℕ
  minNetProfit : ℤ
deriving DecidableEq, Repr

/-- Rejected observations of one pool's feed. -/
structure FeedValidationRecord where
  failureCount : ℕ
  lastFailureAt : ℕ
  excluded : Bool
deriving DecidableEq, Repr

/-- At most `maxAmountPerWindow` leaves one pool per window; zero disables pacing. -/
structure RebalancePacing where
  maxAmountPerWindow : ℤ
  windowSeconds : ℕ
deriving DecidableEq, Repr

structure PoolWindowUsage where
  windowActive : Bool
  windowStartedAt : ℕ
  amountMoved : ℤ
deriving DecidableEq, Repr

structure PoolApyRecord where
  apyBps : ℕ
  updatedAt : ℕ
  updatedBy : Address
deriving DecidableEq, Repr

/-! ### Constants -/

def maxApyBps : ℕ := 1000000
def defaultMaxApyAge : ℕ := 86400
def defaultFeedFailureThreshold : ℕ := 3
def emergencyStopWindow : ℕ := 3
def defaultMaxSlippageBps : ℕ := 50

/-- The entries of the history that are kept. -/
def historyLimit : ℕ := 1000

/-- `upgrade::STORAGE_VERSION`. -/
def storageVersion : ℕ := 1

/-- Largest `u32`. -/
def u32Max : ℕ := 2 ^ 32 - 1

/-! ### Storage -/

/-- The instance storage of the engine. -/
structure RebalanceStore where
  admin : Option Address
  paused : Option Bool
  nextStrategyId : Option ℕ
  strategies : Option (SortedMap ℕ RebalanceStrategy)
  history : Option (List RebalanceHistory)
  poolApy : Option (SortedMap Address PoolApyRecord)
  apyKeepers : Option (List Address)
  maxApyAge : Option ℕ
  maxSlippageBps : Option ℕ
  version : Option ℕ
  feedFailureThreshold : Option ℕ
  feedValidation : Option (SortedMap Address FeedValidationRecord)
  rebalancePacing : Option RebalancePacing
  rebalancePoolWindows : Option (SortedMap Address PoolWindowUsage)
  arbitrageThresholds : Option ArbitrageThresholds
  vaultLastRebalanceTimes : Option (SortedMap Address ℕ)
  poolBreakerThresh : Option (SortedMap Address ℕ)
  stratBreakerThresh : Option (SortedMap ℕ ℕ)

namespace RebalanceStore

/-- The storage of a deployed contract before its first invocation. -/
def fresh : RebalanceStore where
  admin := none
  paused := none
  nextStrategyId := none
  strategies := none
  history := none
  poolApy := none
  apyKeepers := none
  maxApyAge := none
  maxSlippageBps := none
  version := none
  feedFailureThreshold := none
  feedValidation := none
  rebalancePacing := none
  rebalancePoolWindows := none
  arbitrageThresholds := none
  vaultLastRebalanceTimes := none
  poolBreakerThresh := none
  stratBreakerThresh := none

/-! ### Getters -/

section getters
variable (s : RebalanceStore)

def getAdmin : RebalanceCall Address := orRaise s.admin (.contract .notInitialized)

def isPaused : Bool := s.paused.getD false

def getMaxSlippageBps : ℕ := s.maxSlippageBps.getD defaultMaxSlippageBps

def getStrategiesMap : RebalanceCall (SortedMap ℕ RebalanceStrategy) :=
  orRaise s.strategies (.contract .notInitialized)

def getStrategy (strategyId : ℕ) : RebalanceCall RebalanceStrategy := do
  let strategies ← s.getStrategiesMap
  orRaise (strategies.get strategyId) (.contract .strategyNotFound)

/-- The stored history, newest entry last. -/
def storedHistory : RebalanceCall (List RebalanceHistory) :=
  orRaise s.history (.contract .notInitialized)

/-- `get_history`: the newest `limit` entries. -/
def getHistory (limit : ℕ) : RebalanceCall (List RebalanceHistory) :=
  if limit = 0 then pure []
  else do
    let history ← s.storedHistory
    pure (history.drop (if limit < history.length then history.length - limit else 0))

def getApyRegistry : SortedMap Address PoolApyRecord := s.poolApy.getD SortedMap.empty

/-- `get_pool_current_apy`: 0 stands for an unknown rate. -/
def getPoolCurrentApy (poolId : Address) : ℕ :=
  ((s.getApyRegistry.get poolId).map PoolApyRecord.apyBps).getD 0

def getMaxApyAge : ℕ := s.maxApyAge.getD defaultMaxApyAge

def getApyKeepers : List Address := s.apyKeepers.getD []

def getFeedFailureThreshold : ℕ := s.feedFailureThreshold.getD defaultFeedFailureThreshold

def getFeedValidationMap : SortedMap Address FeedValidationRecord :=
  s.feedValidation.getD SortedMap.empty

def isFeedExcluded (poolId : Address) : Bool :=
  ((s.getFeedValidationMap.get poolId).map FeedValidationRecord.excluded).getD false

def getRebalancePacing : RebalancePacing := s.rebalancePacing.getD ⟨0, 0⟩

def getPoolWindows : SortedMap Address PoolWindowUsage :=
  s.rebalancePoolWindows.getD SortedMap.empty

def getPoolWindowUsage (poolId : Address) : PoolWindowUsage :=
  (s.getPoolWindows.get poolId).getD ⟨false, 0, 0⟩

def getArbitrageThresholds : ArbitrageThresholds :=
  s.arbitrageThresholds.getD ⟨200, 100, 86400, 0⟩

def getLastRebalanceTimes : SortedMap Address ℕ :=
  s.vaultLastRebalanceTimes.getD SortedMap.empty

/-- `get_vault_cooldown_remaining`: zero for a vault that never rebalanced. -/
def getVaultCooldownRemaining (e : Env) (vaultId : Address) : ℕ :=
  match s.getLastRebalanceTimes.get vaultId with
  | none => 0
  | some last => s.getArbitrageThresholds.cooldownPeriod - (e.timestamp - last)

def isVaultInCooldown (e : Env) (vaultId : Address) : Bool :=
  decide (0 < s.getVaultCooldownRemaining e vaultId)

def getPoolBreakerThreshold (poolId : Address) : ℕ :=
  ((s.poolBreakerThresh.getD SortedMap.empty).get poolId).getD emergencyStopWindow

def getStrategyBreakerThreshold (strategyId : ℕ) : ℕ :=
  ((s.stratBreakerThresh.getD SortedMap.empty).get strategyId).getD emergencyStopWindow

def requireNotPaused : RebalanceCall Unit := require (s.isPaused = false) (.contract .paused)

def requireAdmin (caller : Address) : RebalanceCall Unit := do
  let admin ← s.getAdmin
  require (caller = admin) (.contract .unauthorized)

/-- `require_admin_or_apy_keeper`. -/
def requireAdminOrApyKeeper (caller : Address) : RebalanceCall Unit := do
  let admin ← s.getAdmin
  require (caller = admin ∨ caller ∈ s.getApyKeepers) (.contract .unauthorized)

end getters

section specs
variable {s : RebalanceStore}

theorem requireNotPaused_eq_ok {u : Unit} : s.requireNotPaused = .ok u ↔ s.isPaused = false :=
  require_eq_ok

theorem requireAdmin_eq_ok {caller : Address} {u : Unit} :
    s.requireAdmin caller = .ok u ↔ s.admin = some caller := by
  simp only [requireAdmin, getAdmin, bind_eq_ok, orRaise_eq_ok, require_eq_ok]
  constructor
  · rintro ⟨admin, hadmin, rfl⟩
    exact hadmin
  · intro hadmin
    exact ⟨caller, hadmin, rfl⟩

/-- `get_history` reads the newest entries of the stored history. -/
theorem getHistory_eq {history : List RebalanceHistory} (h : s.history = some history)
    (limit : ℕ) : s.getHistory limit = .ok (history.drop (history.length - limit)) := by
  unfold getHistory storedHistory
  rw [h]
  split_ifs with hlimit
  · subst hlimit
    rw [Nat.sub_zero, List.drop_length]
    rfl
  · apply congrArg Except.ok
    apply congrArg (fun n => history.drop n)
    split_ifs <;> omega

end specs
end RebalanceStore
end YieldEngine.Rebalance
