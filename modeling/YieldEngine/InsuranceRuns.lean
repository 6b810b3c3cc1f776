import YieldEngine.InsuranceCalls
import YieldEngine.Transact

/-! # Runs of the insurance contract

`InsuranceAction` lists the writing entrypoints other than `initialize`, with their arguments,
and `insuranceStep` is one event of a run. -/

namespace YieldEngine.Insurance

open CheckedArith

/-- One invocation of the insurance contract. -/
inductive InsuranceAction where
  | upgrade (admin : Address)
  | migrate (admin : Address)
  | purchaseInsurance (buyer : Address) (coverageAmount : ℤ) (coveragePeriod : ℕ)
      (currentPriceRatioScaled : ℤ) (historicalVolatilityBps poolCorrelationBps : ℕ)
      (autoRenew : Bool) (reserveToken : Address)
  | claimIlCompensation (claimant : Address) (policyId : ℕ) (currentPriceRatioScaled : ℤ)
deriving DecidableEq, Repr

def exec (w : InsuranceWorld) (c : Env × InsuranceAction) : InsuranceCall InsuranceWorld :=
  match c.2 with
  | .upgrade admin => (fun s => { w with store := s }) <$> upgrade w.store admin
  | .migrate admin => (fun r => { w with store := r.1 }) <$> migrate w.store admin
  | .purchaseInsurance buyer coverageAmount coveragePeriod currentPriceRatioScaled
      historicalVolatilityBps poolCorrelationBps autoRenew reserveToken =>
      Prod.snd <$> purchaseInsurance c.1 w buyer coverageAmount coveragePeriod
        currentPriceRatioScaled historicalVolatilityBps poolCorrelationBps autoRenew reserveToken
  | .claimIlCompensation claimant policyId currentPriceRatioScaled =>
      Prod.snd <$> claimIlCompensation c.1 w claimant policyId currentPriceRatioScaled

/-- What happens around a deployed contract: an invocation, or token movements outside it. -/
inductive InsuranceEvent where
  | call (e : Env) (action : InsuranceAction)
  | tokens (ledger : Ledger)

def insuranceStep (w : InsuranceWorld) : InsuranceEvent → InsuranceCall InsuranceWorld
  | .call e action => exec w (e, action)
  | .tokens ledger => pure { w with ledger := ledger }

/-- The storage after `initialize` on fresh storage. -/
def initialInsurance (admin reserveToken : Address) : InsuranceStore :=
  initializeInsurance .fresh admin reserveToken

end YieldEngine.Insurance
