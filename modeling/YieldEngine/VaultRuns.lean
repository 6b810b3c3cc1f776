import YieldEngine.VaultCalls
import YieldEngine.Transact

/-! # Runs of the yield vault

`VaultAction` lists every writing entrypoint of the vault other than `initialize`, with its
arguments, and `exec` performs one invocation.  In a run of the vault (`VaultEvent`)
invocations alternate with token movements that do not involve it, which leave the balances
of the token contracts in any state at all; a failed invocation is rolled back
(`Transact.commit`).

A state is `Reachable info` when it results from one `initialize` on fresh storage, with the
tokens and rates of `info`, and any sequence of events: invocations by any addresses with any
arguments, over any token balances. -/

namespace YieldEngine.Vault

open CheckedArith

/-- One invocation of the vault. -/
inductive VaultAction where
  | deposit (user : Address) (amountA amountB minShares : ℤ)
  | withdraw (user : Address) (shares minAmountA minAmountB : ℤ)
  | harvest (caller : Address)
  | proposeSetMinDepositAmounts (admin : Address) (minA minB : ℤ)
  | proposeSetMinWithdrawShares (admin : Address) (minShares : ℤ)
  | proposeSetPrices (admin : Address) (priceA priceB : ℤ)
  | proposeSetTreasury (admin treasury : Address)
  | proposeSetTimelockDelay (admin : Address) (delay : ℕ)
  | executePendingAction (admin : Address) (actionId : ℕ)
  | cancelPendingAction (admin : Address) (actionId : ℕ)
  | setPrices (admin : Address) (priceA priceB : ℤ)
  | setWithdrawPacing (admin : Address) (userMaxBps vaultMaxBps windowSeconds : ℕ)
  | pause (admin : Address)
  | unpause (admin : Address)
  | upgrade (admin : Address)
  | migrate (admin : Address)
  | setEmergencySigners (admin : Address) (signers : List Address)
  | setEmergencyThreshold (admin : Address) (threshold : ℕ)
  | emergencyPause (signers : List Address)
  | emergencyUnpause (signers : List Address)
deriving DecidableEq, Repr

/-- An entrypoint that writes storage only: the storage it leaves. -/
def execAdmin (e : Env) (s : VaultStore) : VaultAction → VaultCall VaultStore
  | .deposit .. | .withdraw .. | .harvest .. => pure s
  | .proposeSetMinDepositAmounts admin minA minB =>
      Prod.fst <$> proposeSetMinDepositAmounts e s admin minA minB
  | .proposeSetMinWithdrawShares admin minShares =>
      Prod.fst <$> proposeSetMinWithdrawShares e s admin minShares
  | .proposeSetPrices admin priceA priceB => Prod.fst <$> proposeSetPrices e s admin priceA priceB
  | .proposeSetTreasury admin treasury => Prod.fst <$> proposeSetTreasury e s admin treasury
  | .proposeSetTimelockDelay admin delay => Prod.fst <$> proposeSetTimelockDelay e s admin delay
  | .executePendingAction admin actionId => executePendingAction e s admin actionId
  | .cancelPendingAction admin actionId => cancelPendingAction s admin actionId
  | .setPrices admin priceA priceB => setPrices s admin priceA priceB
  | .setWithdrawPacing admin userMaxBps vaultMaxBps windowSeconds =>
      setWithdrawPacing s admin userMaxBps vaultMaxBps windowSeconds
  | .pause admin => pause s admin
  | .unpause admin => unpause s admin
  | .upgrade admin => upgrade s admin
  | .migrate admin => Prod.fst <$> migrate s admin
  | .setEmergencySigners admin signers => setEmergencySigners s admin signers
  | .setEmergencyThreshold admin threshold => setEmergencyThreshold s admin threshold
  | .emergencyPause signers => emergencyPause s signers
  | .emergencyUnpause signers => emergencyUnpause s signers

/-- One invocation, on storage and balances. -/
def exec (w : World) (c : Env × VaultAction) : VaultCall World :=
  match c.2 with
  | .deposit user amountA amountB minShares =>
      Prod.fst <$> deposit c.1 w user amountA amountB minShares
  | .withdraw user shares minAmountA minAmountB =>
      Prod.fst <$> withdraw c.1 w user shares minAmountA minAmountB
  | .harvest caller => harvest c.1 w caller
  | action => (fun s => { w with store := s }) <$> execAdmin c.1 w.store action

/-! ### Runs -/

/-- What happens to a deployed vault: an invocation, or token movements outside it. -/
inductive VaultEvent where
  | call (e : Env) (action : VaultAction)
  | tokens (ledger : Ledger)

/-- One event of a run. -/
def vaultStep (w : World) : VaultEvent → VaultCall World
  | .call e action => exec w (e, action)
  | .tokens ledger => pure { w with ledger := ledger }

/-- The state after `initialize` on fresh storage, with the tokens and rates of `info`. -/
def initialWorld (e : Env) (info : VaultInfo) (admin treasury : Address) (ledger : Ledger) :
    World where
  store := initializeVault e .fresh admin info.name info.tokenA info.tokenB info.poolId
    info.strategyId info.feeRate info.harvestFee info.withdrawalFee treasury
  ledger := ledger

/-- `w` results from one `initialize` and a run of the vault. -/
def Reachable (info : VaultInfo) (w : World) : Prop :=
  ∃ e admin treasury ledger events,
    w = Transact.run vaultStep (initialWorld e info admin treasury ledger) events

/-- Every rate is at most 100 %. -/
structure RatesBounded (info : VaultInfo) : Prop where
  feeRate : info.feeRate ≤ 10000
  harvestFee : info.harvestFee ≤ 10000
  withdrawalFee : info.withdrawalFee ≤ 10000

instance (info : VaultInfo) : Decidable (RatesBounded info) :=
  decidable_of_iff (info.feeRate ≤ 10000 ∧ info.harvestFee ≤ 10000 ∧ info.withdrawalFee ≤ 10000)
    ⟨fun h => ⟨h.1, h.2.1, h.2.2⟩, fun h => ⟨h.feeRate, h.harvestFee, h.withdrawalFee⟩⟩

/-- A vault over the tokens `1` and `2` whose only rate is the performance fee. -/
def twoTokenVault (feeRate : ℕ) : VaultInfo where
  name := "vault"
  tokenA := 1
  tokenB := 2
  poolId := 3
  strategyId := 0
  feeRate := feeRate
  harvestFee := 0
  withdrawalFee := 0

/-- Such a vault of admin `7`, just initialised, over plentiful balances. -/
def openedVault : World := initialWorld ⟨9, [], 0⟩ (twoTokenVault 0) 7 8 fun _ _ => 1000

end YieldEngine.Vault
