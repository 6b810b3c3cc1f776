import YieldEngine.RebalanceCalls
import YieldEngine.Transact

/-! # Runs of the rebalance engine

`RebalanceAction` lists the entrypoints that write storage, other than `initialize`, and
`exec` executes one of them.  A run is a sequence of events: invocations, and token movements
that the engine has no part in.  `executionResult` is what `execute_rebalance` reported. -/

namespace YieldEngine.Rebalance

open CheckedArith

/-- One invocation of the engine. -/
inductive RebalanceAction where
  | upgrade (admin : Address)
  | migrate (admin : Address)
  | createStrategy (admin : Address) (name : String)
      (riskLevel minApyThreshold maxIlRisk rebalanceFrequency : ℕ)
      (allocations : List PoolAllocation)
  | updateStrategy (admin : Address) (strategyId : ℕ) (name : String)
      (riskLevel minApyThreshold maxIlRisk rebalanceFrequency : ℕ)
      (allocations : List PoolAllocation)
  | setMaxSlippageBps (admin : Address) (maxSlippageBps : ℕ)
  | setMaxApyAge (admin : Address) (maxAge : ℕ)
  | setApyKeepers (admin : Address) (keepers : List Address)
  | setFeedFailureThreshold (admin : Address) (threshold : ℕ)
  | setRebalancePacing (admin : Address) (maxAmountPerWindow : ℤ) (windowSeconds : ℕ)
  | setRebalanceThresholds (admin : Address) (minApyDelta maxIlTolerance cooldownPeriod : ℕ)
  | setMinNetProfit (admin : Address) (minNetProfit : ℤ)
  | setPoolBreakerThreshold (admin poolId : Address) (threshold : ℕ)
  | setStrategyBreakerThreshold (admin : Address) (strategyId threshold : ℕ)
  | pause (admin : Address)
  | unpause (admin : Address)
  | updatePoolApy (caller poolId : Address) (apyBps : ℕ)
  | recordFeedValidationFailure (poolId : Address)
  | recordFeedValidationSuccess (poolId : Address)
  | checkEmergencyStop
  | checkPoolEmergencyStop (poolId : Address)
  | checkStrategyEmergencyStop (strategyId : ℕ)
  | executeRebalance (proposal : RebalanceProposal)
  | executeFlashRebalance (vaultId : Address) (opportunity : ArbitrageOpportunity) (amount : ℤ)
deriving DecidableEq, Repr

structure Invocation where
  env : Env
  /-- The pool each vault contract reports. -/
  vaultPool : Address → Option Address
  action : RebalanceAction

/-- The storage part of an invocation that moves no tokens. -/
def execStore (e : Env) (s : RebalanceStore) : RebalanceAction → RebalanceCall RebalanceStore
  | .upgrade admin => upgrade s admin
  | .migrate admin => Prod.fst <$> migrate s admin
  | .createStrategy admin name riskLevel minApyThreshold maxIlRisk rebalanceFrequency
      allocations =>
      Prod.fst <$> createStrategy s admin name riskLevel minApyThreshold maxIlRisk
        rebalanceFrequency allocations
  | .updateStrategy admin strategyId name riskLevel minApyThreshold maxIlRisk
      rebalanceFrequency allocations =>
      updateStrategy s admin strategyId name riskLevel minApyThreshold maxIlRisk
        rebalanceFrequency allocations
  | .setMaxSlippageBps admin maxSlippageBps => setMaxSlippageBps s admin maxSlippageBps
  | .setMaxApyAge admin maxAge => setMaxApyAge s admin maxAge
  | .setApyKeepers admin keepers => setApyKeepers s admin keepers
  | .setFeedFailureThreshold admin threshold => setFeedFailureThreshold s admin threshold
  | .setRebalancePacing admin maxAmountPerWindow windowSeconds =>
      setRebalancePacing s admin maxAmountPerWindow windowSeconds
  | .setRebalanceThresholds admin minApyDelta maxIlTolerance cooldownPeriod =>
      setRebalanceThresholds s admin minApyDelta maxIlTolerance cooldownPeriod
  | .setMinNetProfit admin minNetProfit => setMinNetProfit s admin minNetProfit
  | .setPoolBreakerThreshold admin poolId threshold =>
      setPoolBreakerThreshold s admin poolId threshold
  | .setStrategyBreakerThreshold admin strategyId threshold =>
      setStrategyBreakerThreshold s admin strategyId threshold
  | .pause admin => pause s admin
  | .unpause admin => unpause s admin
  | .updatePoolApy caller poolId apyBps => updatePoolApy e s caller poolId apyBps
  | .recordFeedValidationFailure poolId =>
      Prod.fst <$> recordFeedValidationFailure e s poolId
  | .recordFeedValidationSuccess poolId => Prod.fst <$> recordFeedValidationSuccess s poolId
  | .checkEmergencyStop => Prod.fst <$> checkEmergencyStop s
  | .checkPoolEmergencyStop poolId => Prod.fst <$> checkPoolEmergencyStop s poolId
  | .checkStrategyEmergencyStop strategyId =>
      Prod.fst <$> checkStrategyEmergencyStop s strategyId
  | .executeRebalance _ | .executeFlashRebalance _ _ _ => pure s

def exec (w : World) (c : Invocation) : RebalanceCall World :=
  match c.action with
  | .executeRebalance proposal => Prod.fst <$> executeRebalance c.env w proposal
  | .executeFlashRebalance vaultId opportunity amount =>
      Prod.fst <$> executeFlashRebalance c.env c.vaultPool w vaultId opportunity amount
  | action => (fun s => { w with store := s }) <$> execStore c.env w.store action

/-- What happens around a deployed engine: an invocation, or token movements outside it. -/
inductive RebalanceEvent where
  | call (c : Invocation)
  | tokens (ledger : Ledger)

def rebalanceStep (w : World) : RebalanceEvent → RebalanceCall World
  | .call c => exec w c
  | .tokens ledger => pure { w with ledger := ledger }

/-- The event is a rebalance, or moves tokens outside the engine. -/
def RebalanceEvent.Rebalances : RebalanceEvent → Prop
  | .call ⟨_, _, .executeRebalance _⟩ => True
  | .call ⟨_, _, .executeFlashRebalance _ _ _⟩ => True
  | .call _ => False
  | .tokens _ => True

/-- What an `execute_rebalance` that returns reports. -/
def executionResult (w : World) : RebalanceEvent → List Bool
  | .call ⟨e, _, .executeRebalance proposal⟩ =>
      match executeRebalance e w proposal with
      | .ok r => [r.2]
      | .error _ => []
  | _ => []

/-- The storage after `initialize` on fresh storage. -/
def initialRebalance (admin : Address) : RebalanceStore := initializeRebalance .fresh admin

end YieldEngine.Rebalance
