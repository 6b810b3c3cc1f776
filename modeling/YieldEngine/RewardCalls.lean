import YieldEngine.RewardState

/-! # Entrypoints of the reward distributor

Every entrypoint that writes storage or moves tokens, as a function from the state an
invocation starts in (`RewardWorld`) to the state it ends in.

`updateRewards` and `claimRewards` are loops over streams.  One round of the first accrues the
stream (`accrueStream`) and recomputes the user's pending amount from the accumulator
(`accrueUser`); one round of the second pays one stream out (`claimStream`).  A claim also
returns the payouts it has made; what the contract returns is `claimedAmounts`. -/

namespace YieldEngine.Rewards

open CheckedArith

/-- The distributor's storage and the token balances. -/
structure RewardWorld where
  store : RewardStore
  ledger : Ledger

/-! ### Initialisation and streams -/

/-- `initialize`. -/
def initializeRewards (s : RewardStore) (admin treasury swapRouter : Address) :
    RewardCall RewardStore := do
  require (s.initialized.getD false = false) (.contract .alreadyInitialized)
  pure { s with
    initialized := some true
    admin := some admin
    treasury := some treasury
    swapRouter := some swapRouter
    paused := some false
    emergencyMode := some false
    defaultSlippage := some defaultMaxSlippageBps
    streams := some []
    nextSwapId := some 1
    version := some storageVersion }

/-- `add_reward_stream`, returning the index of the new stream. -/
def addRewardStream (e : Env) (s : RewardStore) (admin token : Address) (ratePerSecond : ℤ)
    (decimals claimDeadline : ℕ) : RewardCall (RewardStore × ℕ) := do
  s.requireAdmin admin
  s.requireNotPaused
  require (s.getStreams.length < maxRewardStreams) (.contract .streamLimitExceeded)
  pure ({ s with
    streams := some (s.getStreams ++
      [⟨token, ratePerSecond, 0, e.timestamp, true, decimals, claimDeadline⟩]) },
    s.getStreams.length)

/-- The admin's write of one field of one stream. -/
def writeStream (s : RewardStore) (admin : Address) (i : ℕ)
    (write : RewardStream → RewardStream) : RewardCall RewardStore := do
  s.requireAdmin admin
  let stream ← orRaise s.getStreams[i]? (.contract .invalidStream)
  pure { s with streams := some (s.getStreams.set i (write stream)) }

/-- `set_claim_deadline`. -/
def setClaimDeadline (s : RewardStore) (admin : Address) (i claimDeadline : ℕ) :
    RewardCall RewardStore :=
  writeStream s admin i fun stream => { stream with claimDeadline := claimDeadline }

/-- `update_reward_rate`. -/
def updateRewardRate (e : Env) (s : RewardStore) (admin : Address) (i : ℕ)
    (newRatePerSecond : ℤ) : RewardCall RewardStore :=
  writeStream s admin i fun stream =>
    { stream with ratePerSecond := newRatePerSecond, lastUpdate := e.timestamp }

/-- `deactivate_stream`. -/
def deactivateStream (e : Env) (s : RewardStore) (admin : Address) (i : ℕ) :
    RewardCall RewardStore :=
  writeStream s admin i fun stream => { stream with isActive := false, lastUpdate := e.timestamp }

/-! ### Accrual -/

/-- The stream's part of one round of `update_rewards`: accrue the time since its last update
to the accumulator. -/
def accrueStream (e : Env) (s : RewardStore) (totalShares : ℤ) (decimals i : ℕ)
    (stream : RewardStream) : RewardCall (RewardStore × RewardStream) := do
  let elapsed ← checkedU 64 ((e.timestamp : ℤ) - stream.lastUpdate)
  if 0 < elapsed ∧ 0 < totalShares then do
    let rewardDelta ← I128.mul stream.ratePerSecond elapsed
    let scale ← I128.pow 10 decimals
    let scaled ← I128.mul rewardDelta scale
    let perShare ← I128.div scaled totalShares
    let accumulated ← I128.add (s.getAccumulatedRewardPerShare i) perShare
    let distributed ← I128.add stream.totalDistributed rewardDelta
    pure (s.setAccumulatedRewardPerShare i accumulated,
      { stream with totalDistributed := distributed, lastUpdate := e.timestamp })
  else pure (s, stream)

/-- The user's part: the pending amount, from the shares and the accumulator. -/
def accrueUser (e : Env) (s : RewardStore) (user : Address) (userShares : ℤ) (decimals i : ℕ) :
    RewardCall (RewardStore × ℤ) := do
  let debt := s.getUserRewardDebt user i
  let scaled ← I128.mul userShares (s.getAccumulatedRewardPerShare i)
  let scale ← I128.pow 10 decimals
  let userAccumulated ← I128.div scaled scale
  let pending ← I128.sub userAccumulated debt.rewardDebt
  pure (s.setUserRewardDebt user i
    { debt with pendingRewards := pending, lastClaimTimestamp := e.timestamp }, pending)

section accrual
variable (e : Env) (user : Address) (userShares totalShares : ℤ) (decimals : ℕ)

/-- The rounds of `update_rewards` from stream `i` on; inactive streams are skipped. -/
def updateStreams : ℕ → List RewardStream → RewardStore → SortedMap ℕ ℤ →
    RewardCall (RewardStore × List RewardStream × SortedMap ℕ ℤ)
  | _, [], s, pending => pure (s, [], pending)
  | i, stream :: rest, s, pending =>
      if stream.isActive then do
        let (s, stream) ← accrueStream e s totalShares decimals i stream
        let (s, amount) ← accrueUser e s user userShares decimals i
        let (s, rest, pending) ← updateStreams (i + 1) rest s (pending.set i amount)
        pure (s, stream :: rest, pending)
      else do
        let (s, rest, pending) ← updateStreams (i + 1) rest s pending
        pure (s, stream :: rest, pending)

end accrual

/-- The share record of a vault as `update_rewards` writes it: never with zero shares. -/
def refreshedVaultInfo (s : RewardStore) (vault : Address) (decimals : ℕ) : VaultShareInfo :=
  let info := s.getVaultInfo vault
  { info with
    totalShares := if info.totalShares = 0 then 1 else info.totalShares
    shareDecimals := decimals }

/-- `update_rewards`, returning the pending amount of each active stream. -/
def updateRewards (e : Env) (s : RewardStore) (user vault : Address) (userShares : ℤ)
    (vaultShareDecimals : ℕ) : RewardCall (RewardStore × SortedMap ℕ ℤ) := do
  s.requireNotEmergency
  let info := refreshedVaultInfo s vault vaultShareDecimals
  let (s, streams, pending) ← updateStreams e user userShares info.totalShares vaultShareDecimals 0
    s.getStreams (s.setVaultInfo vault info) .empty
  pure ({ s with streams := some streams }, pending)

/-! ### Claims -/

/-- `calculate_min_received`. -/
def calculateMinReceived (amount : ℤ) (maxSlippageBps : ℕ) : RewardCall ℤ := do
  let factor ← I128.sub bpsDivisor maxSlippageBps
  let scaled ← I128.mul amount factor
  I128.div scaled bpsDivisor

/-- `execute_swap`: the placeholder of the source, which only emits an event. -/
def executeSwap (_swapRouter _user _fromToken _toToken : Address) (_amount _minReceived : ℤ) :
    Bool := true

/-- `queue_failed_swap`. -/
def queueFailedSwap (e : Env) (s : RewardStore) (user fromToken toToken : Address)
    (amount minReceived : ℤ) : RewardCall RewardStore := do
  let id := s.nextSwapId.getD 1
  let next ← checkedU 64 (id + 1)
  let swap : PendingSwap :=
    ⟨id, user, fromToken, toToken, amount, minReceived, e.timestamp, 0, .failed⟩
  pure { s with
    nextSwapId := some next.toNat
    pendingSwaps := some ((s.pendingSwaps.getD .empty).set id swap) }

/-- The conversion of one payout, when another token was asked for. -/
def convertReward (e : Env) (s : RewardStore) (swapRouter user : Address)
    (convertTo : Option Address) (token : Address) (netReward : ℤ) : RewardCall RewardStore :=
  match convertTo with
  | none => pure s
  | some target =>
      if target = token then pure s
      else do
        let minReceived ← calculateMinReceived netReward s.getDefaultSlippage
        if executeSwap swapRouter user token target netReward minReceived then pure s
        else queueFailedSwap e s user token target netReward minReceived

/-- What one round of a claim has transferred. -/
structure ClaimPayout where
  streamIndex : ℕ
  token : Address
  netReward : ℤ
  treasuryFee : ℤ
deriving DecidableEq, Repr

/-- One fee transfer; nothing is transferred for a fee that is not positive. -/
def payTreasuryFee (e : Env) (l : Ledger) (token treasury : Address) (fee : ℤ) :
    RewardCall Ledger :=
  if 0 < fee then l.transfer e token e.contract treasury fee else pure l

section claim
variable (e : Env) (streams : List RewardStream) (treasury swapRouter user : Address)
  (convertTo : Option Address)

/-- One round of `claim_rewards`: pay out stream `i`. -/
def claimStream (w : RewardWorld) (i : ℕ) : RewardCall (RewardWorld × ClaimPayout) := do
  let stream ← orRaise streams[i]? (.contract .invalidStream)
  require (stream.claimDeadline = 0 ∨ e.timestamp ≤ stream.claimDeadline)
    (.contract .claimDeadlinePassed)
  let debt := w.store.getUserRewardDebt user i
  let pending := debt.pendingRewards
  require (0 < pending) (.contract .noPendingRewards)
  let scaledFee ← I128.mul pending treasuryFeeBps
  let treasuryFee ← I128.div scaledFee bpsDivisor
  let netReward ← I128.sub pending treasuryFee
  require (pending ≤ w.ledger stream.token e.contract) (.contract .insufficientBalance)
  let l ← w.ledger.transfer e stream.token e.contract user netReward
  let l ← payTreasuryFee e l stream.token treasury treasuryFee
  let s := w.store.setUserRewardDebt user i
    { debt with pendingRewards := 0, lastClaimTimestamp := e.timestamp }
  let s ← convertReward e s swapRouter user convertTo stream.token netReward
  pure (⟨s, l⟩, ⟨i, stream.token, netReward, treasuryFee⟩)

/-- The rounds of `claim_rewards`, adding up the net rewards by token. -/
def claimStreams : List ℕ → RewardWorld → SortedMap Address ℤ →
    RewardCall (RewardWorld × List ClaimPayout)
  | [], w, _ => pure (w, [])
  | i :: rest, w, totalByToken => do
      let (w, payout) ← claimStream e streams treasury swapRouter user convertTo w i
      let total ← I128.add ((totalByToken.get payout.token).getD 0) payout.netReward
      let (w, payouts) ← claimStreams rest w (totalByToken.set payout.token total)
      pure (w, payout :: payouts)

end claim

/-- What a claim returns, and the payouts it has made. -/
structure ClaimReport where
  claimedAmounts : SortedMap Address ℤ
  payouts : List ClaimPayout

/-- `claim_rewards`.  The returned map is the empty one the source creates and never writes. -/
def claimRewards (e : Env) (w : RewardWorld) (user _vault : Address) (streamIndices : List ℕ)
    (convertTo : Option Address) : RewardCall (RewardWorld × ClaimReport) := do
  w.store.requireNotEmergency
  w.store.requireNotPaused
  let treasury ← w.store.getTreasury
  let swapRouter ← w.store.getSwapRouter
  let (w, payouts) ← claimStreams e w.store.getStreams treasury swapRouter user convertTo
    streamIndices w .empty
  pure (w, ⟨.empty, payouts⟩)

/-! ### Auto-compounding -/

/-- `set_auto_compound_config`. -/
def setAutoCompoundConfig (s : RewardStore) (user token : Address) (reinvestPercentage : ℕ)
    (enabled : Bool) : RewardCall RewardStore := do
  require (reinvestPercentage ≤ 10000) (.contract .invalidPercentage)
  pure { s with
    autoCompound := s.autoCompound.set (toLex (user, token)) ⟨token, reinvestPercentage, enabled⟩ }

/-- Add a positive amount to a token's entry. -/
def addAmount (m : SortedMap Address ℤ) (token : Address) (amount : ℤ) :
    RewardCall (SortedMap Address ℤ) :=
  if 0 < amount then do
    let total ← I128.add ((m.get token).getD 0) amount
    pure (m.set token total)
  else pure m

/-- The rounds of `execute_auto_compound`: the amounts to reinvest and to claim. -/
def splitStreams (s : RewardStore) (user : Address) : List ℕ → SortedMap Address ℤ →
    SortedMap Address ℤ → RewardCall (SortedMap Address ℤ × SortedMap Address ℤ)
  | [], reinvest, claim => pure (reinvest, claim)
  | i :: rest, reinvest, claim => do
      let stream ← orRaise s.getStreams[i]? (.panic "called `Option::unwrap()` on a `None` value")
      let config := s.getAutoCompoundConfig user stream.token
      let pending := (s.getUserRewardDebt user i).pendingRewards
      if config.enabled = false ∨ pending ≤ 0 then splitStreams s user rest reinvest claim
      else do
        let scaled ← I128.mul pending config.reinvestPercentage
        let toReinvest ← I128.div scaled bpsDivisor
        let toClaim ← I128.sub pending toReinvest
        let reinvest ← addAmount reinvest stream.token toReinvest
        let claim ← addAmount claim stream.token toClaim
        splitStreams s user rest reinvest claim

/-- `execute_auto_compound`, returning the amounts to reinvest and the payouts made. -/
def executeAutoCompound (e : Env) (w : RewardWorld) (user vault : Address)
    (streamIndices : List ℕ) :
    RewardCall (RewardWorld × SortedMap Address ℤ × List ClaimPayout) := do
  w.store.requireNotEmergency
  let (reinvest, claim) ← splitStreams w.store user streamIndices .empty .empty
  if claim.entries = [] then pure (w, reinvest, [])
  else do
    let (w, report) ← claimRewards e w user vault streamIndices none
    pure (w, reinvest, report.payouts)

/-! ### Emergency withdrawals -/

/-- `emergency_withdraw`. -/
def emergencyWithdraw (e : Env) (s : RewardStore) (user vault : Address) (shares : ℤ) :
    RewardStore :=
  { s with
    emergencyWithdrawals := s.emergencyWithdrawals.set (toLex (user, vault))
      ⟨user, vault, shares, e.timestamp, false⟩ }

/-- `complete_emergency_withdrawal`. -/
def completeEmergencyWithdrawal (s : RewardStore) (user vault : Address) :
    RewardCall RewardStore := do
  let withdrawal ← orRaise (s.emergencyWithdrawals.get (toLex (user, vault)))
    (.panic "called `Option::unwrap()` on a `None` value")
  require (withdrawal.completed = false) (.contract .emergencyWithdrawalAlreadyCompleted)
  pure { s with
    emergencyWithdrawals := s.emergencyWithdrawals.set (toLex (user, vault))
      { withdrawal with completed := true } }

/-! ### Admin calls -/

/-- `set_price_oracle`. -/
def setPriceOracle (s : RewardStore) (admin oracle : Address) : RewardCall RewardStore := do
  s.requireAdmin admin
  pure { s with priceOracle := some oracle }

/-- An admin call that sets the pause flag. -/
def setPaused (paused : Bool) (s : RewardStore) (admin : Address) : RewardCall RewardStore := do
  s.requireAdmin admin
  pure { s with paused := some paused }

/-- `pause`. -/
def pause : RewardStore → Address → RewardCall RewardStore := setPaused true

/-- `unpause`. -/
def unpause : RewardStore → Address → RewardCall RewardStore := setPaused false

/-- An admin call that sets the emergency flag. -/
def setEmergencyMode (mode : Bool) (s : RewardStore) (admin : Address) :
    RewardCall RewardStore := do
  s.requireAdmin admin
  pure { s with emergencyMode := some mode }

/-- `enable_emergency_mode`. -/
def enableEmergencyMode : RewardStore → Address → RewardCall RewardStore := setEmergencyMode true

/-- `disable_emergency_mode`. -/
def disableEmergencyMode : RewardStore → Address → RewardCall RewardStore := setEmergencyMode false

/-- `update_default_slippage`. -/
def updateDefaultSlippage (s : RewardStore) (admin : Address) (newSlippageBps : ℕ) :
    RewardCall RewardStore := do
  s.requireAdmin admin
  require (newSlippageBps ≤ 10000) (.panic "InvalidPercentage")
  pure { s with defaultSlippage := some newSlippageBps }

/-- `fund_reward_pool`. -/
def fundRewardPool (e : Env) (w : RewardWorld) (admin token : Address) (amount : ℤ) :
    RewardCall RewardWorld := do
  w.store.requireAdmin admin
  let ledger ← w.ledger.transfer e token admin e.contract amount
  let balances := w.store.poolBalance.getD .empty
  let balance ← I128.add ((balances.get token).getD 0) amount
  pure ⟨{ w.store with poolBalance := some (balances.set token balance) }, ledger⟩

/-- `retry_failed_swaps`: the source iterates over an empty list. -/
def retryFailedSwaps (s : RewardStore) (admin : Address) (_maxRetries : ℕ) :
    RewardCall (RewardStore × ℕ) := do
  s.requireAdmin admin
  let _ ← s.getSwapRouter
  pure (s, 0)

/-- `upgrade`: the new code takes effect after this invocation, storage is kept. -/
def upgrade (s : RewardStore) (admin : Address) : RewardCall RewardStore := do
  s.requireAdmin admin
  pure s

/-- `migrate`, returning the version replaced. -/
def migrate (s : RewardStore) (admin : Address) : RewardCall (RewardStore × ℕ) := do
  s.requireAdmin admin
  pure ({ s with version := some storageVersion }, s.version.getD 0)

end YieldEngine.Rewards
