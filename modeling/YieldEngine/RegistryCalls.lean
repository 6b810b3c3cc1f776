import YieldEngine.BoundedLog
import YieldEngine.RegistryState

/-! # Entrypoints of the strategy registry

Each entrypoint is a function from the storage an invocation starts in to the storage it
leaves.  Registering, updating and recording performance ask nobody's authorisation: `creator`
is an argument of the call, which `update_strategy` compares with the stored creator. -/

namespace YieldEngine.Registry

open CheckedArith

variable (e : Env) (s : RegistryStore)

/-! ### Initialisation and upgrades -/

/-- `initialize`: it writes every cell of the storage. -/
def initializeRegistry (admin : Address) : RegistryStore where
  admin := some admin
  paused := some false
  nextStrategyId := some 1
  strategies := some SortedMap.empty
  approvals := some []
  strategyParams := some SortedMap.empty
  version := some storageVersion

/-- `upgrade`: the new code takes effect after this invocation, storage is kept. -/
def upgrade (admin : Address) : RegistryCall RegistryStore := do
  s.requireAdmin e admin
  pure s

/-- `migrate`, returning the version replaced. -/
def migrate (admin : Address) : RegistryCall (RegistryStore × ℕ) := do
  s.requireAdmin e admin
  pure ({ s with version := some storageVersion }, s.version.getD 0)

/-! ### Registering and updating -/

/-- `get_next_strategy_id`. -/
def getNextStrategyId : RegistryCall (RegistryStore × ℕ) := do
  let id ← orRaise s.nextStrategyId (.contract .notInitialized)
  let next ← checkedU 32 (id + 1)
  pure ({ s with nextStrategyId := some next.toNat }, id)

/-- `register_strategy`, returning the new id. -/
def registerStrategy (creator : Address) (name description : String) (riskLevel : ℕ)
    (minInvestment maxInvestment : ℤ) (feeStructure : FeeStructure)
    (parameters : StrategyParameters) : RegistryCall (RegistryStore × ℕ) := do
  s.requireNotPaused
  require (0 < minInvestment) (.contract .minInvestmentMustBePositive)
  require (minInvestment ≤ maxInvestment) (.contract .maxInvestmentBelowMinimum)
  let (s, strategyId) ← getNextStrategyId s
  let strategies ← s.getStrategiesMap
  require (1 ≤ riskLevel ∧ riskLevel ≤ 3) (.contract .invalidRiskLevel)
  require ((strategies.get strategyId).isNone = true) (.contract .strategyIdCollision)
  let strategyParams ← s.getStrategyParams
  pure ({ s with
    strategies := some (strategies.set strategyId
      { strategyId, name, description, creator, riskLevel, minInvestment, maxInvestment
        feeStructure
        performanceHistory := []
        isActive := false
        createdAt := e.timestamp
        updatedAt := e.timestamp })
    strategyParams := some (strategyParams.set strategyId parameters) }, strategyId)

/-- `update_strategy`: an updated strategy is inactive until it is approved again. -/
def updateStrategy (creator : Address) (strategyId : ℕ) (name description : String)
    (riskLevel : ℕ) (minInvestment maxInvestment : ℤ) (feeStructure : FeeStructure)
    (parameters : StrategyParameters) : RegistryCall RegistryStore := do
  s.requireNotPaused
  require (0 < minInvestment) (.contract .minInvestmentMustBePositive)
  require (minInvestment ≤ maxInvestment) (.contract .maxInvestmentBelowMinimum)
  let strategies ← s.getStrategiesMap
  let strategy ← orRaise (strategies.get strategyId) (.contract .strategyNotFound)
  require (strategy.creator = creator) (.contract .notStrategyCreator)
  require (1 ≤ riskLevel ∧ riskLevel ≤ 3) (.contract .invalidRiskLevel)
  let strategyParams ← s.getStrategyParams
  pure { s with
    strategies := some (strategies.set strategyId
      { strategyId, name, description, creator, riskLevel, minInvestment, maxInvestment
        feeStructure
        performanceHistory := strategy.performanceHistory
        isActive := false
        createdAt := strategy.createdAt
        updatedAt := e.timestamp })
    strategyParams := some (strategyParams.set strategyId parameters) }

/-! ### Approvals -/

/-- `add_approval`: only the last 1000 are kept. -/
def addApproval (approval : StrategyApproval) : RegistryCall RegistryStore := do
  let approvals ← s.getApprovals
  pure { s with approvals := some (BoundedLog.push maxApprovals approvals approval) }

/-- `approve_strategy`. -/
def approveStrategy (admin : Address) (strategyId : ℕ) (comments : String) :
    RegistryCall RegistryStore := do
  s.requireAdmin e admin
  let strategies ← s.getStrategiesMap
  let strategy ← orRaise (strategies.get strategyId) (.contract .strategyNotFound)
  let strategy := { strategy with isActive := true, updatedAt := e.timestamp }
  let s := { s with strategies := some (strategies.set strategyId strategy) }
  addApproval s ⟨strategyId, admin, e.timestamp, 1, comments⟩

/-- `deactivate_strategy`. -/
def deactivateStrategy (admin : Address) (strategyId : ℕ) : RegistryCall RegistryStore := do
  s.requireAdmin e admin
  let strategies ← s.getStrategiesMap
  let strategy ← orRaise (strategies.get strategyId) (.contract .strategyNotFound)
  let strategy := { strategy with isActive := false, updatedAt := e.timestamp }
  let s := { s with strategies := some (strategies.set strategyId strategy) }
  addApproval s ⟨strategyId, admin, e.timestamp, 3, "deactivated"⟩

/-! ### Performance -/

/-- `record_performance`: only the last 100 records are kept. -/
def recordPerformance (strategyId : ℕ) (totalValue : ℤ) (netApy volatility sharpeRatio : ℕ) :
    RegistryCall RegistryStore := do
  s.requireNotPaused
  let strategies ← s.getStrategiesMap
  let strategy ← orRaise (strategies.get strategyId) (.contract .strategyNotFound)
  let strategy := { strategy with
    performanceHistory := BoundedLog.push maxPerformanceRecords strategy.performanceHistory
      ⟨e.timestamp, totalValue, netApy, volatility, sharpeRatio⟩
    updatedAt := e.timestamp }
  pure { s with strategies := some (strategies.set strategyId strategy) }

/-! ### Pausing -/

/-- `pause`: the message of the second failure is printed with its quotation marks. -/
def pause (admin : Address) : RegistryCall RegistryStore := do
  s.requireAdmin e admin
  require (s.isPaused = false) (.panic "\"already paused\"")
  pure { s with paused := some true }

/-- `unpause`. -/
def unpause (admin : Address) : RegistryCall RegistryStore := do
  s.requireAdmin e admin
  require (s.isPaused = true) (.panic "\"not paused\"")
  pure { s with paused := some false }

/-! ### Readers -/

/-- `get_strategies`: in the order of their ids. -/
def getStrategies : RegistryCall (List YieldStrategy) := SortedMap.values <$> s.getStrategiesMap

/-- `get_active_strategies`. -/
def getActiveStrategies : RegistryCall (List YieldStrategy) :=
  (fun strategies => strategies.filter fun strategy => strategy.isActive) <$> getStrategies s

/-- `get_strategies_by_risk`: of the active ones. -/
def getStrategiesByRisk (riskLevel : ℕ) : RegistryCall (List YieldStrategy) :=
  (fun strategies => strategies.filter fun strategy =>
    strategy.riskLevel = riskLevel && strategy.isActive) <$> getStrategies s

/-- `get_strategy`. -/
def getStrategy (strategyId : ℕ) : RegistryCall YieldStrategy := do
  let strategies ← s.getStrategiesMap
  orRaise (strategies.get strategyId) (.contract .strategyNotFound)

/-- `get_strategy_parameters`. -/
def getStrategyParameters (strategyId : ℕ) : RegistryCall StrategyParameters := do
  let strategyParams ← s.getStrategyParams
  orRaise (strategyParams.get strategyId) (.contract .strategyParametersNotFound)

end YieldEngine.Registry
