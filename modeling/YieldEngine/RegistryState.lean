import YieldEngine.Host
import YieldEngine.SortedMap

/-! # Storage of the strategy registry

The records the strategy registry keeps in instance storage (`RegistryStore`), its error codes,
and the getters with the error each raises on storage that was never initialised.

Contract events are not modelled: no function of the registry reads them. -/

namespace YieldEngine.Registry

open CheckedArith

/-- `RegistryError`. -/
inductive RegistryError where
  | unauthorized
  | paused
  | notInitialized
  | strategyNotFound
  | strategyParametersNotFound
  | minInvestmentMustBePositive
  | maxInvestmentBelowMinimum
  | invalidRiskLevel
  | strategyIdCollision
  | notStrategyCreator
deriving DecidableEq, Repr

/-- The outcome of a registry invocation. -/
abbrev RegistryCall (α : Type) := Call RegistryError α

/-- All four in basis points. -/
structure FeeStructure where
  managementFee : ℕ
  performanceFee : ℕ
  depositFee : ℕ
  withdrawalFee : ℕ
deriving DecidableEq, Repr

structure PerformanceRecord where
  timestamp : ℕ
  totalValue : ℤ
  netApy : ℕ
  volatility : ℕ
  sharpeRatio : ℕ
deriving DecidableEq, Repr

structure StrategyParameters where
  targetTokens : List Address
  allocationWeights : List ℕ
  rebalanceThreshold : ℕ
  impermanentLossLimit : ℕ
  minApyTarget : ℕ
deriving DecidableEq, Repr

structure YieldStrategy where
  strategyId : ℕ
  name : String
  description : String
  creator : Address
  riskLevel : ℕ
  minInvestment : ℤ
  maxInvestment : ℤ
  feeStructure : FeeStructure
  performanceHistory : List PerformanceRecord
  isActive : Bool
  createdAt : ℕ
  updatedAt : ℕ
deriving DecidableEq, Repr

/-- The type is 1 for an approval, 2 for an update and 3 for a removal. -/
structure StrategyApproval where
  strategyId : ℕ
  approvedBy : Address
  approvedAt : ℕ
  approvalType : ℕ
  comments : String
deriving DecidableEq, Repr

/-! ### Constants -/

def maxPerformanceRecords : ℕ := 100
def maxApprovals : ℕ := 1000

/-- `upgrade::STORAGE_VERSION`. -/
def storageVersion : ℕ := 1

/-! ### Storage -/

/-- The instance storage of the registry. -/
structure RegistryStore where
  admin : Option Address
  paused : Option Bool
  nextStrategyId : Option ℕ
  strategies : Option (SortedMap ℕ YieldStrategy)
  approvals : Option (List StrategyApproval)
  strategyParams : Option (SortedMap ℕ StrategyParameters)
  version : Option ℕ

namespace RegistryStore

/-- The storage of a deployed contract before its first invocation. -/
def fresh : RegistryStore := ⟨none, none, none, none, none, none, none⟩

/-! ### Getters -/

section getters
variable (e : Env) (s : RegistryStore)

def getAdmin : RegistryCall Address := orRaise s.admin (.contract .notInitialized)

def getStrategiesMap : RegistryCall (SortedMap ℕ YieldStrategy) :=
  orRaise s.strategies (.contract .notInitialized)

def getStrategyParams : RegistryCall (SortedMap ℕ StrategyParameters) :=
  orRaise s.strategyParams (.contract .notInitialized)

def getApprovals : RegistryCall (List StrategyApproval) :=
  orRaise s.approvals (.contract .notInitialized)

def isPaused : Bool := s.paused.getD false

/-- `require_admin`: the caller authorises the call before it is compared with the admin. -/
def requireAdmin (caller : Address) : RegistryCall Unit := do
  let admin ← s.getAdmin
  e.requireAuth caller
  require (caller = admin) (.contract .unauthorized)

def requireNotPaused : RegistryCall Unit := require (s.isPaused = false) (.contract .paused)

end getters

/-! ### The stored maps -/

/-- The stored strategies; none before initialisation. -/
def strategyMap (s : RegistryStore) : SortedMap ℕ YieldStrategy :=
  s.strategies.getD SortedMap.empty

/-- The stored parameters; none before initialisation. -/
def paramMap (s : RegistryStore) : SortedMap ℕ StrategyParameters :=
  s.strategyParams.getD SortedMap.empty

end RegistryStore
end YieldEngine.Registry
