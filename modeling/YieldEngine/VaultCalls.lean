import YieldEngine.VaultState

/-! # Entrypoints of the yield vault

Every entrypoint that writes storage or moves tokens, as a function from the state an
invocation starts in (`World`) to the state it ends in.

`withdraw` is cut along the stages of its source: `planWithdraw` makes the checks and
computes the amounts, `consumeWithdrawPacing` charges the pacing windows, `retireShares`
writes the position and the metrics and `payOut` transfers the tokens.  It returns the whole
plan; the pair the contract returns is its `finalAmountA` and `finalAmountB`.  The two token
legs of an exit are computed by the same statements, here `redeemLeg`. -/

namespace YieldEngine.Vault

open CheckedArith

/-- The vault's storage and the token balances. -/
structure World where
  store : VaultStore
  ledger : Ledger

/-! ### Initialisation -/

/-- `initialize`. -/
def initializeVault (e : Env) (s : VaultStore) (admin : Address) (name : String)
    (tokenA tokenB poolId : Address) (strategyId feeRate harvestFee withdrawalFee : ℕ)
    (treasury : Address) : VaultStore :=
  { s with
    vaultInfo := some ⟨name, tokenA, tokenB, poolId, strategyId, feeRate, harvestFee, withdrawalFee⟩
    admin := some admin
    treasury := some treasury
    paused := some false
    timelockDelay := some defaultTimelockDelay
    nextActionId := some 1
    emergencySigners := some []
    emergencyThreshold := some 3
    metrics := some ⟨0, 0, 0, 0, 0, e.timestamp⟩
    version := some storageVersion }

/-! ### Deposits -/

/-- The shares a deposit mints: one per unit of value into an empty vault, else the value's
proportion of the shares outstanding, rounded down. -/
def sharesForDeposit (metrics : VaultMetrics) (amountA amountB : ℤ) : VaultCall ℤ :=
  if metrics.totalShares = 0 then I128.add amountA amountB
  else do
    let totalValue ← I128.add metrics.totalAmountA metrics.totalAmountB
    if totalValue ≤ 0 then pure 0
    else do
      let value ← I128.add amountA amountB
      let scaled ← I128.mul value metrics.totalShares
      I128.div scaled totalValue

/-- The position and the metrics after minting `shares` for a deposit. -/
def mintShares (e : Env) (s : VaultStore) (user : Address) (metrics : VaultMetrics)
    (amountA amountB shares : ℤ) : VaultCall VaultStore := do
  let position := s.getUserPosition user
  let positionShares ← I128.add position.shares shares
  let depositedA ← I128.add position.depositedAmountA amountA
  let depositedB ← I128.add position.depositedAmountB amountB
  let totalShares ← I128.add metrics.totalShares shares
  let totalA ← I128.add metrics.totalAmountA amountA
  let totalB ← I128.add metrics.totalAmountB amountB
  let tvl ← s.valueInUsd totalA totalB
  pure { s with
    positions := s.positions.set user ⟨positionShares, e.timestamp, depositedA, depositedB⟩
    metrics := some ⟨totalShares, totalA, totalB, metrics.apy, tvl, metrics.lastHarvest⟩ }

/-- `deposit`. -/
def deposit (e : Env) (w : World) (user : Address) (amountA amountB minShares : ℤ) :
    VaultCall (World × ℤ) := do
  w.store.requireNotPaused
  require (w.store.getMinDepositAmounts.1 ≤ amountA) (.contract .amountBelowMinimum)
  require (w.store.getMinDepositAmounts.2 ≤ amountB) (.contract .amountBelowMinimum)
  let value ← I128.add amountA amountB
  require (0 < value) (.contract .depositMustBePositive)
  let info ← w.store.getVaultInfo
  let metrics ← w.store.getMetrics
  let shares ← sharesForDeposit metrics amountA amountB
  require (0 < shares) (.contract .depositTooSmall)
  require (minShares ≤ shares) (.contract .insufficientSharesReceived)
  let paidA ← w.ledger.transfer e info.tokenA user e.contract amountA
  let paidB ← paidA.transfer e info.tokenB user e.contract amountB
  let store ← mintShares e w.store user metrics amountA amountB shares
  pure (⟨store, paidB⟩, shares)

/-! ### Withdrawals -/

/-- One token's redeemed amount: the proportion of the total, and on a full exit the rest of
the total as well when that is dust. -/
def redeemLeg (isFullExit : Bool) (shares totalAmount totalShares : ℤ) : VaultCall ℤ := do
  let scaled ← I128.mul shares totalAmount
  let amount ← I128.div scaled totalShares
  if isFullExit then do
    let leftover ← I128.sub totalAmount amount
    if leftover ≤ dustThreshold then I128.add amount leftover else pure amount
  else pure amount

/-- `calculate_performance_fee`. -/
def calculatePerformanceFee (info : VaultInfo) (position : UserPosition)
    (withdrawAmountA withdrawAmountB shares : ℤ) : VaultCall ℤ :=
  if info.feeRate = 0 ∨ position.shares ≤ 0 then pure 0
  else do
    let scaledA ← I128.mul position.depositedAmountA shares
    let costA ← I128.div scaledA position.shares
    let scaledB ← I128.mul position.depositedAmountB shares
    let costB ← I128.div scaledB position.shares
    let redeemed ← I128.add withdrawAmountA withdrawAmountB
    let cost ← I128.add costA costB
    let gain ← I128.sub redeemed cost
    if 0 < gain then do
      let scaled ← I128.mul gain info.feeRate
      I128.div scaled bps
    else pure 0

/-- Token A's part of the performance fee. -/
def performanceFeeA (perfFee withdrawAmountA withdrawAmountB : ℤ) : VaultCall ℤ := do
  let redeemed ← I128.add withdrawAmountA withdrawAmountB
  if 0 < redeemed then do
    let scaled ← I128.mul perfFee withdrawAmountA
    I128.div scaled redeemed
  else pure 0

/-- The amounts of one withdrawal, with the records they were computed from. -/
structure WithdrawPlan where
  info : VaultInfo
  metrics : VaultMetrics
  position : UserPosition
  withdrawAmountA : ℤ
  withdrawAmountB : ℤ
  feeAmountA : ℤ
  feeAmountB : ℤ
  perfFee : ℤ
  perfFeeA : ℤ
  perfFeeB : ℤ
  finalAmountA : ℤ
  finalAmountB : ℤ

/-- The checks of `withdraw` up to its slippage bounds, and the amounts it computes. -/
def planWithdraw (s : VaultStore) (user : Address) (shares minAmountA minAmountB : ℤ) :
    VaultCall WithdrawPlan := do
  s.requireNotPaused
  require (0 < shares) (.contract .sharesMustBePositive)
  require (s.getMinWithdrawShares ≤ shares) (.contract .withdrawalBelowMinimum)
  let info ← s.getVaultInfo
  let metrics ← s.getMetrics
  let position := s.getUserPosition user
  require (shares ≤ position.shares) (.contract .insufficientShares)
  require (0 < metrics.totalShares) (.contract .noSharesOutstanding)
  let isFullExit := decide (shares = position.shares)
  let amountA ← redeemLeg isFullExit shares metrics.totalAmountA metrics.totalShares
  let amountB ← redeemLeg isFullExit shares metrics.totalAmountB metrics.totalShares
  require (isFullExit = true ∨ 0 < amountA ∨ 0 < amountB) (.contract .withdrawalTooSmall)
  let scaledFeeA ← I128.mul amountA info.withdrawalFee
  let feeA ← I128.div scaledFeeA bps
  let scaledFeeB ← I128.mul amountB info.withdrawalFee
  let feeB ← I128.div scaledFeeB bps
  let perfFee ← calculatePerformanceFee info position amountA amountB shares
  let perfFeeA ← performanceFeeA perfFee amountA amountB
  let perfFeeB ← I128.sub perfFee perfFeeA
  let afterFeeA ← I128.sub amountA feeA
  let finalA ← I128.sub afterFeeA perfFeeA
  let afterFeeB ← I128.sub amountB feeB
  let finalB ← I128.sub afterFeeB perfFeeB
  require (minAmountA ≤ finalA) (.contract .insufficientAmountA)
  require (minAmountB ≤ finalB) (.contract .insufficientAmountB)
  pure ⟨info, metrics, position, amountA, amountB, feeA, feeB, perfFee, perfFeeA, perfFeeB,
    finalA, finalB⟩

/-- `window_expired`: no window is open, or the open one has run its length. -/
def windowExpired (pacing : WithdrawPacing) (now : ℕ) (window : WithdrawWindow) : Bool :=
  window.windowStartShares = 0 || pacing.windowSeconds ≤ now - window.windowStartedAt

/-- The window a withdrawal is charged to: the open one, or a new one sized by `startShares`. -/
def currentWindow (pacing : WithdrawPacing) (now : ℕ) (startShares : ℤ)
    (window : WithdrawWindow) : WithdrawWindow :=
  if windowExpired pacing now window then ⟨now, 0, startShares⟩ else window

/-- One limit of the pacing check; a limit of zero is no limit. -/
def requireAllowance (maxBps : ℕ) (window : WithdrawWindow) (shares : ℤ) (msg : String) :
    VaultCall Unit :=
  if 0 < maxBps then do
    let scaled ← I128.mul window.windowStartShares maxBps
    let rounded ← I128.add scaled 9999
    let allowance ← I128.div rounded bps
    let withdrawn ← I128.add window.sharesWithdrawn shares
    require (withdrawn ≤ allowance) (.panic msg)
  else pure ()

/-- `consume_withdraw_pacing`. -/
def consumeWithdrawPacing (e : Env) (s : VaultStore) (user : Address)
    (shares positionShares totalShares : ℤ) : VaultCall VaultStore :=
  let pacing := s.getWithdrawPacing
  if pacing.windowSeconds = 0 ∨ (pacing.userMaxBps = 0 ∧ pacing.vaultMaxBps = 0) then pure s
  else do
    let userWindow := currentWindow pacing e.timestamp positionShares (s.getUserWithdrawWindow user)
    let vaultWindow := currentWindow pacing e.timestamp totalShares s.getVaultWithdrawWindow
    requireAllowance pacing.userMaxBps userWindow shares "withdrawal exceeds per-user pacing limit"
    requireAllowance pacing.vaultMaxBps vaultWindow shares "withdrawal exceeds vault pacing limit"
    let userWithdrawn ← I128.add userWindow.sharesWithdrawn shares
    let vaultWithdrawn ← I128.add vaultWindow.sharesWithdrawn shares
    pure { s with
      withdrawWindows := some (s.getWithdrawWindows.set user
        { userWindow with sharesWithdrawn := userWithdrawn })
      vaultWithdrawWindow := some { vaultWindow with sharesWithdrawn := vaultWithdrawn } }

/-- The position and the metrics after a withdrawal of `shares`. -/
def retireShares (e : Env) (s : VaultStore) (user : Address) (shares : ℤ) (plan : WithdrawPlan) :
    VaultCall VaultStore := do
  let positionShares ← I128.sub plan.position.shares shares
  let depositedA ← I128.sub plan.position.depositedAmountA plan.withdrawAmountA
  let depositedB ← I128.sub plan.position.depositedAmountB plan.withdrawAmountB
  let totalShares ← I128.sub plan.metrics.totalShares shares
  let totalA ← I128.sub plan.metrics.totalAmountA plan.withdrawAmountA
  let totalB ← I128.sub plan.metrics.totalAmountB plan.withdrawAmountB
  let tvl ← s.valueInUsd totalA totalB
  pure { s with
    positions := s.positions.set user ⟨positionShares, e.timestamp, depositedA, depositedB⟩
    metrics := some ⟨totalShares, totalA, totalB, plan.metrics.apy, tvl, plan.metrics.lastHarvest⟩ }

/-- One fee leg: nothing is transferred for a fee that is not positive. -/
def payFee (e : Env) (l : Ledger) (token treasury : Address) (fee : ℤ) : VaultCall Ledger :=
  if 0 < fee then l.transfer e token e.contract treasury fee else pure l

/-- A fee in both tokens; the treasury is read only when one of the two is positive. -/
def payFees (e : Env) (s : VaultStore) (l : Ledger) (info : VaultInfo) (feeA feeB : ℤ) :
    VaultCall Ledger :=
  if 0 < feeA ∨ 0 < feeB then do
    let treasury ← s.getTreasury
    let l ← payFee e l info.tokenA treasury feeA
    payFee e l info.tokenB treasury feeB
  else pure l

/-- The transfers of a withdrawal: the user's amounts, the performance fee, the withdrawal
fee. -/
def payOut (e : Env) (s : VaultStore) (l : Ledger) (user : Address) (plan : WithdrawPlan) :
    VaultCall Ledger := do
  let l ← l.transfer e plan.info.tokenA e.contract user plan.finalAmountA
  let l ← l.transfer e plan.info.tokenB e.contract user plan.finalAmountB
  let l ← payFees e s l plan.info plan.perfFeeA plan.perfFeeB
  payFees e s l plan.info plan.feeAmountA plan.feeAmountB

/-- The checks and the storage writes of `withdraw`, up to its transfers. -/
def settleWithdraw (e : Env) (s : VaultStore) (user : Address)
    (shares minAmountA minAmountB : ℤ) : VaultCall (VaultStore × WithdrawPlan) := do
  let plan ← planWithdraw s user shares minAmountA minAmountB
  let s ← consumeWithdrawPacing e s user shares plan.position.shares plan.metrics.totalShares
  let s ← retireShares e s user shares plan
  pure (s, plan)

/-- `withdraw`. -/
def withdraw (e : Env) (w : World) (user : Address) (shares minAmountA minAmountB : ℤ) :
    VaultCall (World × WithdrawPlan) := do
  let (store, plan) ← settleWithdraw e w.store user shares minAmountA minAmountB
  let ledger ← payOut e store w.ledger user plan
  pure (⟨store, ledger⟩, plan)

/-! ### Harvests -/

/-- `calculate_pending_rewards`: the placeholder of the source. -/
def calculatePendingRewards (_poolId : Address) : ℤ := 1000

/-- The annual yield of a harvest, in basis points; `none` when there is no basis for one. -/
def harvestApy (elapsed : ℕ) (prevValue rewardValue : ℤ) : VaultCall (Option ℕ) :=
  if 0 < elapsed ∧ 0 < prevValue ∧ 0 < rewardValue then do
    let yearly ← checkedU 128 (rewardValue * secondsPerYear)
    let scaled ← checkedU 128 (yearly * bps)
    let base ← checkedU 128 (prevValue * elapsed)
    pure (some (min (scaled.tdiv base) 10000000).toNat)
  else pure none

/-- The harvested amounts, net of the harvest fee, added to the totals. -/
def reinvest (e : Env) (s : VaultStore) (metrics : VaultMetrics) (netA netB : ℤ) :
    VaultCall VaultStore := do
  let rewardValue ← s.valueInUsd netA netB
  let apy ← harvestApy (e.timestamp - metrics.lastHarvest) metrics.tvl rewardValue
  let totalA ← I128.add metrics.totalAmountA netA
  let totalB ← I128.add metrics.totalAmountB netB
  let tvl ← s.valueInUsd totalA totalB
  let apy := apy.getD metrics.apy
  pure { s with
    harvestSnapshot := some ⟨e.timestamp, tvl, apy⟩
    metrics := some ⟨metrics.totalShares, totalA, totalB, apy, tvl, e.timestamp⟩ }

/-- The harvest stamp of a caller who holds shares. -/
def stampHarvest (e : Env) (s : VaultStore) (caller : Address) : VaultStore :=
  let position := s.getUserPosition caller
  if 0 < position.shares then
    { s with positions := s.positions.set caller { position with lastHarvest := e.timestamp } }
  else s

/-- `harvest`. -/
def harvest (e : Env) (w : World) (caller : Address) : VaultCall World := do
  w.store.requireNotPaused
  let info ← w.store.getVaultInfo
  let metrics ← w.store.getMetrics
  let rewardsA := calculatePendingRewards info.poolId
  let rewardsB := calculatePendingRewards info.poolId
  if 0 < rewardsA ∨ 0 < rewardsB then do
    let scaledA ← I128.mul rewardsA info.harvestFee
    let feeA ← I128.div scaledA bps
    let scaledB ← I128.mul rewardsB info.harvestFee
    let feeB ← I128.div scaledB bps
    let netA ← I128.sub rewardsA feeA
    let netB ← I128.sub rewardsB feeB
    let store ← reinvest e w.store metrics netA netB
    let ledger ← payFees e store w.ledger info feeA feeB
    pure ⟨stampHarvest e store caller, ledger⟩
  else pure ⟨stampHarvest e w.store caller, w.ledger⟩

/-! ### Time-locked parameters -/

/-- `next_action_id`: allocate an id. -/
def nextActionId (s : VaultStore) : VaultCall (VaultStore × ℕ) := do
  let id := s.nextActionId.getD 1
  let next ← checkedU 64 (id + 1)
  pure ({ s with nextActionId := some next.toNat }, id)

/-- `enqueue`: queue `action` behind the current delay. -/
def enqueue (e : Env) (s : VaultStore) (proposer : Address) (action : PendingAdminAction) :
    VaultCall (VaultStore × ℕ) := do
  let (s, id) ← nextActionId s
  let executableAt := min (e.timestamp + s.getTimelockDelay) u64Max
  pure ({ s with
    pendingActions := some (s.getPendingActions.set id ⟨id, action, proposer, executableAt⟩) }, id)

/-- `propose_set_min_deposit_amounts`. -/
def proposeSetMinDepositAmounts (e : Env) (s : VaultStore) (admin : Address) (minA minB : ℤ) :
    VaultCall (VaultStore × ℕ) := do
  s.requireAdmin admin
  require (0 ≤ minA) (.contract .negativeMinimumDeposit)
  require (0 ≤ minB) (.contract .negativeMinimumDeposit)
  enqueue e s admin (.minDepositAmounts minA minB)

/-- `propose_set_min_withdraw_shares`. -/
def proposeSetMinWithdrawShares (e : Env) (s : VaultStore) (admin : Address) (minShares : ℤ) :
    VaultCall (VaultStore × ℕ) := do
  s.requireAdmin admin
  require (0 < minShares) (.contract .minSharesMustBePositive)
  enqueue e s admin (.minWithdrawShares minShares)

/-- `propose_set_prices`. -/
def proposeSetPrices (e : Env) (s : VaultStore) (admin : Address) (priceA priceB : ℤ) :
    VaultCall (VaultStore × ℕ) := do
  s.requireAdmin admin
  require (0 ≤ priceA ∧ 0 ≤ priceB) (.panic "price must not be negative")
  enqueue e s admin (.prices priceA priceB)

/-- `propose_set_treasury`. -/
def proposeSetTreasury (e : Env) (s : VaultStore) (admin treasury : Address) :
    VaultCall (VaultStore × ℕ) := do
  s.requireAdmin admin
  enqueue e s admin (.treasury treasury)

/-- `propose_set_timelock_delay`. -/
def proposeSetTimelockDelay (e : Env) (s : VaultStore) (admin : Address) (delay : ℕ) :
    VaultCall (VaultStore × ℕ) := do
  s.requireAdmin admin
  enqueue e s admin (.timelockDelay delay)

/-- New prices, with the stored metrics revalued at them. -/
def applyPrices (s : VaultStore) (priceA priceB : ℤ) : VaultCall VaultStore := do
  let s := { s with priceA := some priceA, priceB := some priceB }
  let metrics ← s.getMetrics
  pure { s with metrics := some metrics }

/-- `apply_action`. -/
def applyAction (s : VaultStore) : PendingAdminAction → VaultCall VaultStore
  | .prices priceA priceB => applyPrices s priceA priceB
  | .minDepositAmounts minA minB =>
      pure { s with minDepositA := some minA, minDepositB := some minB }
  | .minWithdrawShares minShares => pure { s with minWithdrawShares := some minShares }
  | .treasury treasury => do
      let _ ← s.getTreasury
      pure { s with treasury := some treasury }
  | .timelockDelay delay => pure { s with timelockDelay := some delay }

/-- `execute_pending_action`. -/
def executePendingAction (e : Env) (s : VaultStore) (admin : Address) (actionId : ℕ) :
    VaultCall VaultStore := do
  s.requireAdmin admin
  let action ← orRaise (s.getPendingActions.get actionId) (.panic "no pending action with that id")
  require (action.executableAt ≤ e.timestamp) (.panic "action is still timelocked")
  applyAction { s with pendingActions := some (s.getPendingActions.remove actionId) } action.action

/-- `cancel_pending_action`. -/
def cancelPendingAction (s : VaultStore) (admin : Address) (actionId : ℕ) :
    VaultCall VaultStore := do
  s.requireAdmin admin
  require (s.getPendingActions.contains actionId = true) (.panic "no pending action with that id")
  pure { s with pendingActions := some (s.getPendingActions.remove actionId) }

/-! ### Immediate admin calls -/

/-- `set_prices`. -/
def setPrices (s : VaultStore) (admin : Address) (priceA priceB : ℤ) : VaultCall VaultStore := do
  s.requireAdmin admin
  require (0 ≤ priceA ∧ 0 ≤ priceB) (.contract .negativePrice)
  applyPrices s priceA priceB

/-- `set_withdraw_pacing`. -/
def setWithdrawPacing (s : VaultStore) (admin : Address)
    (userMaxBps vaultMaxBps windowSeconds : ℕ) : VaultCall VaultStore := do
  s.requireAdmin admin
  require (userMaxBps ≤ 10000) (.panic "user_max_bps must not exceed 10000 bps")
  require (vaultMaxBps ≤ 10000) (.panic "vault_max_bps must not exceed 10000 bps")
  require (¬(0 < userMaxBps ∨ 0 < vaultMaxBps) ∨ 0 < windowSeconds)
    (.panic "window_seconds must be positive when pacing is enabled")
  pure { s with withdrawPacing := some ⟨userMaxBps, vaultMaxBps, windowSeconds⟩ }

/-- `pause`. -/
def pause (s : VaultStore) (admin : Address) : VaultCall VaultStore := do
  s.requireAdmin admin
  pure { s with paused := some true }

/-- `unpause`. -/
def unpause (s : VaultStore) (admin : Address) : VaultCall VaultStore := do
  s.requireAdmin admin
  pure { s with paused := some false }

/-- `upgrade`: the new code takes effect after this invocation, storage is kept. -/
def upgrade (s : VaultStore) (admin : Address) : VaultCall VaultStore := do
  s.requireAdmin admin
  pure s

/-- `migrate`, returning the version replaced. -/
def migrate (s : VaultStore) (admin : Address) : VaultCall (VaultStore × ℕ) := do
  s.requireAdmin admin
  pure ({ s with version := some storageVersion }, s.version.getD 0)

/-! ### Emergency multisig -/

/-- `set_emergency_signers`. -/
def setEmergencySigners (s : VaultStore) (admin : Address) (signers : List Address) :
    VaultCall VaultStore := do
  s.requireAdmin admin
  pure { s with emergencySigners := some signers }

/-- `set_emergency_threshold`. -/
def setEmergencyThreshold (s : VaultStore) (admin : Address) (threshold : ℕ) :
    VaultCall VaultStore := do
  s.requireAdmin admin
  require (threshold ≠ 0) (.contract .thresholdMustBePositive)
  pure { s with emergencyThreshold := some threshold }

/-- `require_multisig`: count the submitted signers that occur in the configured list. -/
def requireMultisig (s : VaultStore) (signers : List Address) : VaultCall Unit :=
  require (s.getEmergencyThreshold ≤ signers.countP (fun signer => signer ∈ s.getEmergencySigners))
    (.contract .insufficientEmergencySignatures)

/-- `emergency_pause`. -/
def emergencyPause (s : VaultStore) (signers : List Address) : VaultCall VaultStore := do
  requireMultisig s signers
  pure { s with paused := some true }

/-- `emergency_unpause`. -/
def emergencyUnpause (s : VaultStore) (signers : List Address) : VaultCall VaultStore := do
  requireMultisig s signers
  pure { s with paused := some false }

end YieldEngine.Vault
