import YieldEngine.Host
import YieldEngine.SortedMap

/-! # Storage of the yield vault

The records the vault keeps in instance storage (`VaultStore`), its error codes, and the
getters with their defaults.  A cell of `VaultStore` is `none` until it is first written;
user positions are stored under the user's address.

Contract events are not modelled: no function of the vault reads them. -/

namespace YieldEngine.Vault

open CheckedArith

/-- `VaultError`. -/
inductive VaultError where
  | unauthorized
  | paused
  | notInitialized
  | amountBelowMinimum
  | depositMustBePositive
  | depositTooSmall
  | insufficientSharesReceived
  | sharesMustBePositive
  | withdrawalBelowMinimum
  | insufficientShares
  | noSharesOutstanding
  | withdrawalTooSmall
  | insufficientAmountA
  | insufficientAmountB
  | negativeMinimumDeposit
  | minSharesMustBePositive
  | negativePrice
  | thresholdMustBePositive
  | insufficientEmergencySignatures
deriving DecidableEq, Repr

/-- The outcome of a vault invocation. -/
abbrev VaultCall (α : Type) := Call VaultError α

/-- Rates are in basis points. -/
structure VaultInfo where
  name : String
  tokenA : Address
  tokenB : Address
  poolId : Address
  strategyId : ℕ
  feeRate : ℕ
  harvestFee : ℕ
  withdrawalFee : ℕ
deriving DecidableEq, Repr

structure UserPosition where
  shares : ℤ
  lastHarvest : ℕ
  depositedAmountA : ℤ
  depositedAmountB : ℤ
deriving DecidableEq, Repr

structure WithdrawPacing where
  userMaxBps : ℕ
  vaultMaxBps : ℕ
  windowSeconds : ℕ
deriving DecidableEq, Repr

structure WithdrawWindow where
  windowStartedAt : ℕ
  sharesWithdrawn : ℤ
  windowStartShares : ℤ
deriving DecidableEq, Repr

/-- `PendingAdminAction`. -/
inductive PendingAdminAction where
  | prices (priceA priceB : ℤ)
  | minDepositAmounts (minA minB : ℤ)
  | minWithdrawShares (minShares : ℤ)
  | treasury (treasury : Address)
  | timelockDelay (delay : ℕ)
deriving DecidableEq, Repr

structure PendingAction where
  id : ℕ
  action : PendingAdminAction
  proposer : Address
  executableAt : ℕ
deriving DecidableEq, Repr

structure VaultMetrics where
  totalShares : ℤ
  totalAmountA : ℤ
  totalAmountB : ℤ
  apy : ℕ
  tvl : ℤ
  lastHarvest : ℕ
deriving DecidableEq, Repr

structure HarvestSnapshot where
  timestamp : ℕ
  tvl : ℤ
  apy : ℕ
deriving DecidableEq, Repr

/-! ### Constants -/

def secondsPerYear : ℤ := 31536000
def defaultMinDeposit : ℤ := 0
def defaultMinWithdrawShares : ℤ := 1
def dustThreshold : ℤ := 1
def defaultTimelockDelay : ℕ := 48 * 60 * 60
def bps : ℤ := 10000

/-- `upgrade::STORAGE_VERSION`. -/
def storageVersion : ℕ := 1

/-! ### Storage -/

/-- The instance storage of the vault. -/
structure VaultStore where
  vaultInfo : Option VaultInfo
  admin : Option Address
  treasury : Option Address
  paused : Option Bool
  timelockDelay : Option ℕ
  nextActionId : Option ℕ
  pendingActions : Option (SortedMap ℕ PendingAction)
  emergencySigners : Option (List Address)
  emergencyThreshold : Option ℕ
  metrics : Option VaultMetrics
  harvestSnapshot : Option HarvestSnapshot
  minDepositA : Option ℤ
  minDepositB : Option ℤ
  minWithdrawShares : Option ℤ
  withdrawPacing : Option WithdrawPacing
  withdrawWindows : Option (SortedMap Address WithdrawWindow)
  vaultWithdrawWindow : Option WithdrawWindow
  priceA : Option ℤ
  priceB : Option ℤ
  version : Option ℕ
  positions : SortedMap Address UserPosition

namespace VaultStore

/-- The storage of a deployed contract before its first invocation. -/
def fresh : VaultStore where
  vaultInfo := none
  admin := none
  treasury := none
  paused := none
  timelockDelay := none
  nextActionId := none
  pendingActions := none
  emergencySigners := none
  emergencyThreshold := none
  metrics := none
  harvestSnapshot := none
  minDepositA := none
  minDepositB := none
  minWithdrawShares := none
  withdrawPacing := none
  withdrawWindows := none
  vaultWithdrawWindow := none
  priceA := none
  priceB := none
  version := none
  positions := SortedMap.empty

/-! ### Getters -/

section getters
variable (s : VaultStore)

def getMinDepositAmounts : ℤ × ℤ :=
  (s.minDepositA.getD defaultMinDeposit, s.minDepositB.getD defaultMinDeposit)

def getMinWithdrawShares : ℤ := s.minWithdrawShares.getD defaultMinWithdrawShares

def getWithdrawPacing : WithdrawPacing := s.withdrawPacing.getD ⟨0, 0, 0⟩

def defaultWithdrawWindow : WithdrawWindow := ⟨0, 0, 0⟩

def getWithdrawWindows : SortedMap Address WithdrawWindow :=
  s.withdrawWindows.getD SortedMap.empty

def getUserWithdrawWindow (user : Address) : WithdrawWindow :=
  (s.getWithdrawWindows.get user).getD defaultWithdrawWindow

def getVaultWithdrawWindow : WithdrawWindow := s.vaultWithdrawWindow.getD defaultWithdrawWindow

def getVaultInfo : VaultCall VaultInfo := orRaise s.vaultInfo (.contract .notInitialized)

def getTreasury : VaultCall Address := orRaise s.treasury (.contract .notInitialized)

def getAdmin : VaultCall Address := orRaise s.admin (.contract .notInitialized)

def getUserPosition (user : Address) : UserPosition :=
  (s.positions.get user).getD ⟨0, 0, 0, 0⟩

def getTimelockDelay : ℕ := s.timelockDelay.getD defaultTimelockDelay

def getPendingActions : SortedMap ℕ PendingAction := s.pendingActions.getD SortedMap.empty

def isPaused : Bool := s.paused.getD false

def getEmergencySigners : List Address := s.emergencySigners.getD []

def getEmergencyThreshold : ℕ := s.emergencyThreshold.getD 3

def getPriceA : ℤ := s.priceA.getD 0

def getPriceB : ℤ := s.priceB.getD 0

def getPrices : ℤ × ℤ := (s.getPriceA, s.getPriceB)

/-- `stored_metrics`: the raw stored record. -/
def storedMetrics : VaultMetrics := s.metrics.getD ⟨0, 0, 0, 0, 0, 0⟩

/-- `value_in_usd`. -/
def valueInUsd (amountA amountB : ℤ) : VaultCall ℤ := do
  let a ← I128.mul amountA s.getPriceA
  let b ← I128.mul amountB s.getPriceB
  I128.add a b

/-- The stored annual yield, or the one of the last harvest snapshot while it is zero. -/
def reportedApy : ℕ :=
  if s.storedMetrics.apy = 0 then (s.harvestSnapshot.map HarvestSnapshot.apy).getD 0
  else s.storedMetrics.apy

/-- `get_metrics`: the stored record with TVL recomputed at the configured prices. -/
def getMetrics : VaultCall VaultMetrics := do
  let tvl ← s.valueInUsd s.storedMetrics.totalAmountA s.storedMetrics.totalAmountB
  pure { s.storedMetrics with tvl := tvl, apy := s.reportedApy }

def requireNotPaused : VaultCall Unit := require (s.isPaused = false) (.contract .paused)

def requireAdmin (caller : Address) : VaultCall Unit := do
  let admin ← s.getAdmin
  require (caller = admin) (.contract .unauthorized)

end getters

/-! ### What the getters return -/

section specs
variable {s : VaultStore}

theorem requireNotPaused_eq_ok {u : Unit} : s.requireNotPaused = .ok u ↔ s.isPaused = false :=
  require_eq_ok

theorem getVaultInfo_eq_ok {i : VaultInfo} : s.getVaultInfo = .ok i ↔ s.vaultInfo = some i :=
  orRaise_eq_ok

/-- Reading the metrics changes neither the shares nor the token totals. -/
theorem getMetrics_totals {m : VaultMetrics} (h : s.getMetrics = .ok m) :
    m.totalShares = s.storedMetrics.totalShares ∧
      m.totalAmountA = s.storedMetrics.totalAmountA ∧
      m.totalAmountB = s.storedMetrics.totalAmountB := by
  simp only [getMetrics, bind_eq_ok, pure_eq_ok] at h
  obtain ⟨tvl, -, rfl⟩ := h
  exact ⟨rfl, rfl, rfl⟩

end specs
end VaultStore
end YieldEngine.Vault
