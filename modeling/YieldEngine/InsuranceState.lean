import YieldEngine.Host
import YieldEngine.SortedMap

/-! # Storage of the insurance contract

The records the impermanent-loss insurance keeps (`InsuranceStore`), its error codes, and the
getters with their defaults.  Policies are persistent entries under their id; everything else
is instance storage.

Prices are square roots of reserve ratios at scale `1000000`.  Contract events are not
modelled: no function of the contract reads them. -/

namespace YieldEngine.Insurance

open CheckedArith

/-- `InsuranceError`. -/
inductive InsuranceError where
  | unauthorized
  | notInitialized
  | policyNotFound
  | invalidCoveragePeriod
  | coverageAmountMustBePositive
  | premiumMustBePositive
  | policyAlreadyClaimed
  | notPolicyOwner
  | policyNotExpired
  | invalidStartPriceRatio
deriving DecidableEq, Repr

/-- The outcome of an insurance invocation. -/
abbrev InsuranceCall (α : Type) := Call InsuranceError α

structure InsurancePolicy where
  policyId : ℕ
  owner : Address
  coverageAmount : ℤ
  premiumPaid : ℤ
  startPriceRatio : ℤ
  startTime : ℕ
  expiry : ℕ
  coverageToken : Address
  claimed : Bool
  autoRenew : Bool
deriving DecidableEq, Repr

structure ReservePool where
  totalPremiumsCollected : ℤ
  totalClaimsPaid : ℤ
  currentReserve : ℤ
  activeCoverage : ℤ
  policyCount : ℕ
deriving DecidableEq, Repr

structure PremiumQuote where
  premiumAmount : ℤ
  coveragePeriod : ℕ
  coverageAmount : ℤ
  effectiveRateBps : ℕ
  reserveRatio : ℕ
deriving DecidableEq, Repr

/-! ### Constants -/

def coverage7d : ℕ := 7 * 24 * 3600
def coverage30d : ℕ := 30 * 24 * 3600
def coverage90d : ℕ := 90 * 24 * 3600
def basePremiumBps : ℤ := 50
def targetReserveRatio : ℕ := 15000
def minReserveRatio : ℕ := 15000

/-- `upgrade::STORAGE_VERSION`. -/
def storageVersion : ℕ := 1

/-! ### Storage -/

/-- The storage of the insurance contract. -/
structure InsuranceStore where
  admin : Option Address
  reserveToken : Option Address
  nextPolicyId : Option ℕ
  reservePool : Option ReservePool
  version : Option ℕ
  policies : SortedMap ℕ InsurancePolicy

def ReservePool.empty : ReservePool := ⟨0, 0, 0, 0, 0⟩

namespace InsuranceStore

/-- The storage of a deployed contract before its first invocation. -/
def fresh : InsuranceStore where
  admin := none
  reserveToken := none
  nextPolicyId := none
  reservePool := none
  version := none
  policies := SortedMap.empty

section getters
variable (s : InsuranceStore)

def requireAdmin (caller : Address) : InsuranceCall Unit := do
  let admin ← orRaise s.admin (.contract .notInitialized)
  require (caller = admin) (.contract .unauthorized)

def getPolicy (policyId : ℕ) : InsuranceCall InsurancePolicy :=
  orRaise (s.policies.get policyId) (.contract .policyNotFound)

def getReservePoolInternal : ReservePool := s.reservePool.getD ReservePool.empty

/-- A policy is stored under its own id. -/
def savePolicy (policy : InsurancePolicy) : InsuranceStore :=
  { s with policies := s.policies.set policy.policyId policy }

def setReservePool (reserve : ReservePool) : InsuranceStore :=
  { s with reservePool := some reserve }

end getters
end InsuranceStore
end YieldEngine.Insurance
