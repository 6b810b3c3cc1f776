import YieldEngine.Host
import YieldEngine.SortedMap
import Mathlib.Data.Prod.Lex

/-! # Storage of the reward distributor

The records the multi-reward distributor keeps in instance storage (`RewardStore`), its error
codes, and the getters with their defaults.  Records stored under a pair of keys are kept in
a map over the lexicographic order of the pair.

Contract events are not modelled: no function of the distributor reads them. -/

namespace YieldEngine.Rewards

open CheckedArith

/-- `RewardError`. -/
inductive RewardError where
  | unauthorized
  | invalidStream
  | streamLimitExceeded
  | insufficientBalance
  | paused
  | invalidPercentage
  | swapFailed
  | slippageExceeded
  | emergencyModeActive
  | invalidVault
  | alreadyInitialized
  | claimDeadlinePassed
  | noPendingRewards
  | emergencyWithdrawalAlreadyCompleted
deriving DecidableEq, Repr

/-- The outcome of a distributor invocation. -/
abbrev RewardCall (α : Type) := Call RewardError α

structure RewardStream where
  token : Address
  ratePerSecond : ℤ
  totalDistributed : ℤ
  lastUpdate : ℕ
  isActive : Bool
  decimals : ℕ
  /-- Claims are rejected after this time; `0` means never. -/
  claimDeadline : ℕ
deriving DecidableEq, Repr

structure UserRewardDebt where
  user : Address
  streamIndex : ℕ
  rewardDebt : ℤ
  lastClaimTimestamp : ℕ
  pendingRewards : ℤ
deriving DecidableEq, Repr

/-- The percentage is in basis points. -/
structure AutoCompoundConfig where
  token : Address
  reinvestPercentage : ℕ
  enabled : Bool
deriving DecidableEq, Repr

inductive SwapStatus where
  | pending
  | processing
  | completed
  | failed
  | expired
deriving DecidableEq, Repr

structure PendingSwap where
  id : ℕ
  user : Address
  fromToken : Address
  toToken : Address
  amount : ℤ
  minReceived : ℤ
  timestamp : ℕ
  retryCount : ℕ
  status : SwapStatus
deriving DecidableEq, Repr

structure VaultShareInfo where
  vault : Address
  totalShares : ℤ
  shareDecimals : ℕ
deriving DecidableEq, Repr

structure EmergencyWithdrawal where
  user : Address
  vault : Address
  shares : ℤ
  requestedAt : ℕ
  completed : Bool
deriving DecidableEq, Repr

/-! ### Constants -/

def maxRewardStreams : ℕ := 10
def bpsDivisor : ℤ := 10000
def treasuryFeeBps : ℤ := 25
def defaultMaxSlippageBps : ℕ := 100

/-- `upgrade::STORAGE_VERSION`. -/
def storageVersion : ℕ := 1

/-! ### Storage -/

/-- The instance storage of the distributor. -/
structure RewardStore where
  initialized : Option Bool
  admin : Option Address
  treasury : Option Address
  swapRouter : Option Address
  paused : Option Bool
  emergencyMode : Option Bool
  defaultSlippage : Option ℕ
  streams : Option (List RewardStream)
  nextSwapId : Option ℕ
  pendingSwaps : Option (SortedMap ℕ PendingSwap)
  priceOracle : Option Address
  poolBalance : Option (SortedMap Address ℤ)
  version : Option ℕ
  vaultInfos : SortedMap Address VaultShareInfo
  debts : SortedMap (Address ×ₗ ℕ) UserRewardDebt
  accumulated : SortedMap ℕ ℤ
  autoCompound : SortedMap (Address ×ₗ Address) AutoCompoundConfig
  emergencyWithdrawals : SortedMap (Address ×ₗ Address) EmergencyWithdrawal

namespace RewardStore

/-- The storage of a deployed contract before its first invocation. -/
def fresh : RewardStore where
  initialized := none
  admin := none
  treasury := none
  swapRouter := none
  paused := none
  emergencyMode := none
  defaultSlippage := none
  streams := none
  nextSwapId := none
  pendingSwaps := none
  priceOracle := none
  poolBalance := none
  version := none
  vaultInfos := SortedMap.empty
  debts := SortedMap.empty
  accumulated := SortedMap.empty
  autoCompound := SortedMap.empty
  emergencyWithdrawals := SortedMap.empty

/-! ### Getters and setters -/

section getters
variable (s : RewardStore)

def getAdmin : RewardCall Address := orRaise s.admin (.panic "admin not configured")

def getTreasury : RewardCall Address := orRaise s.treasury (.panic "treasury not configured")

def getSwapRouter : RewardCall Address :=
  orRaise s.swapRouter (.panic "called `Option::unwrap()` on a `None` value")

def isPaused : Bool := s.paused.getD false

def isEmergency : Bool := s.emergencyMode.getD false

def getStreams : List RewardStream := s.streams.getD []

def getDefaultSlippage : ℕ := s.defaultSlippage.getD defaultMaxSlippageBps

def getVaultInfo (vault : Address) : VaultShareInfo :=
  (s.vaultInfos.get vault).getD ⟨vault, 0, 7⟩

def setVaultInfo (vault : Address) (info : VaultShareInfo) : RewardStore :=
  { s with vaultInfos := s.vaultInfos.set vault info }

def getUserRewardDebt (user : Address) (streamIndex : ℕ) : UserRewardDebt :=
  (s.debts.get (toLex (user, streamIndex))).getD ⟨user, streamIndex, 0, 0, 0⟩

def setUserRewardDebt (user : Address) (streamIndex : ℕ) (debt : UserRewardDebt) : RewardStore :=
  { s with debts := s.debts.set (toLex (user, streamIndex)) debt }

def getAccumulatedRewardPerShare (streamIndex : ℕ) : ℤ := (s.accumulated.get streamIndex).getD 0

def setAccumulatedRewardPerShare (streamIndex : ℕ) (value : ℤ) : RewardStore :=
  { s with accumulated := s.accumulated.set streamIndex value }

def getAutoCompoundConfig (user token : Address) : AutoCompoundConfig :=
  (s.autoCompound.get (toLex (user, token))).getD ⟨token, 0, false⟩

def requireAdmin (caller : Address) : RewardCall Unit := do
  let admin ← s.getAdmin
  require (caller = admin) (.contract .unauthorized)

def requireNotPaused : RewardCall Unit := require (s.isPaused = false) (.contract .paused)

def requireNotEmergency : RewardCall Unit :=
  require (s.isEmergency = false) (.contract .emergencyModeActive)

end getters

/-! ### Reading after writing -/

section laws
variable (s : RewardStore)

@[simp] theorem getUserRewardDebt_set_self (user : Address) (i : ℕ) (debt : UserRewardDebt) :
    (s.setUserRewardDebt user i debt).getUserRewardDebt user i = debt := by
  simp [setUserRewardDebt, getUserRewardDebt]

theorem getUserRewardDebt_set_ne {user user' : Address} {i j : ℕ} (debt : UserRewardDebt)
    (h : ¬ (user' = user ∧ j = i)) :
    (s.setUserRewardDebt user i debt).getUserRewardDebt user' j = s.getUserRewardDebt user' j := by
  have hne : toLex (user', j) ≠ toLex (user, i) := by
    intro heq
    exact h (by simpa using heq)
  simp [setUserRewardDebt, getUserRewardDebt, SortedMap.get_set_ne _ _ hne]

@[simp] theorem getAccumulated_set_self (i : ℕ) (x : ℤ) :
    (s.setAccumulatedRewardPerShare i x).getAccumulatedRewardPerShare i = x := by
  simp [setAccumulatedRewardPerShare, getAccumulatedRewardPerShare]

theorem getAccumulated_set_ne {i j : ℕ} (x : ℤ) (h : j ≠ i) :
    (s.setAccumulatedRewardPerShare i x).getAccumulatedRewardPerShare j =
      s.getAccumulatedRewardPerShare j := by
  simp [setAccumulatedRewardPerShare, getAccumulatedRewardPerShare, SortedMap.get_set_ne _ _ h]

@[simp] theorem getAccumulated_setUserRewardDebt (user : Address) (i j : ℕ)
    (debt : UserRewardDebt) :
    (s.setUserRewardDebt user i debt).getAccumulatedRewardPerShare j =
      s.getAccumulatedRewardPerShare j := rfl

end laws
end RewardStore
end YieldEngine.Rewards
