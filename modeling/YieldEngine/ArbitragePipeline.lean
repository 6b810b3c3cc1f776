import YieldEngine.ArbitrageScan

/-! # What the executor and the optimizer make of an opportunity

`simulateRebalance` and `executeArbitrage` of the executor and `calculateProfitability` of the
optimizer each work out the profit of an opportunity again.  On the entries of a scan they agree at
every position (`agrees_of_isEntry`): all three have a profit to report at the scanned amount only,
and there it is the same. -/

namespace YieldEngine.Arbitrage

open Selection

/-! ### The executor and the optimizer -/

/-- What an opportunity costs and yields. -/
structure CostEstimate where
  grossProfit : ℤ
  roundTripCost : ℤ
  ilRisk : ℤ
deriving DecidableEq, Repr

/-- The checks that each of the three functions makes before it uses the estimate of an
opportunity. -/
def Opportunity.estimateFor (opportunity : Opportunity) (amount : ℤ) : Option CostEstimate :=
  match opportunity.roundTripCost, opportunity.grossProfit with
  | some roundTripCost, some grossProfit =>
      if roundTripCost < 0 || opportunity.investmentAmount ≠ some amount || grossProfit < 0 ||
          !opportunity.ilRisk.isSafeInteger || opportunity.ilRisk.lt (.ofNat 0) || amount ≤ 0 then
        none
      else opportunity.ilRisk.toBigInt.map fun ilRisk => ⟨grossProfit, roundTripCost, ilRisk⟩
  | _, _ => none

/-- The deduction for the risk, in bigints. -/
def ilCost (amount ilRisk : ℤ) : ℤ := (amount * ilRisk).tdiv 10000

structure Simulation where
  totalCost : ℤ
  netProfit : ℤ
  profitable : Bool
  costEstimateAvailable : Bool
deriving DecidableEq, Repr

/-- `ArbitrageExecutor.simulateRebalance`. -/
def simulateRebalance (opportunity : Opportunity) (currentPosition : ℤ) : Simulation :=
  match opportunity.estimateFor currentPosition with
  | none => ⟨0, 0, false, false⟩
  | some estimate =>
      let totalCost := estimate.roundTripCost + ilCost currentPosition estimate.ilRisk
      let netProfit := estimate.grossProfit - totalCost
      ⟨totalCost, netProfit, netProfit > 0, true⟩

/-- The transaction that is handed to the limiter of writes. -/
structure Submission where
  currentPoolId : String
  poolId : String
  amount : ℤ
deriving DecidableEq, Repr

structure ExecutionResult where
  success : Bool
  transactionHash : Option String
  error : Option String
deriving DecidableEq, Repr

/-- A result with an error message only. -/
def ExecutionResult.failed (message : String) : ExecutionResult := ⟨false, none, some message⟩

/-- `ArbitrageExecutor.executeArbitrage`: what it submits, if anything, and its result.  The
limiter answers with the hash of the transaction, or throws. -/
def executeArbitrage (schedule : Submission → Except String String) (opportunity : Opportunity)
    (currentPoolId : String) (amount : ℤ) (_privateKey : String) :
    Option Submission × ExecutionResult :=
  if !opportunity.recommended then
    (none, .failed "Opportunity no longer meets recommended threshold")
  else
    match opportunity.estimateFor amount, decide (opportunity.netProfit ≤ 0) with
    | none, _ | _, true =>
        (none, .failed
          "Opportunity has no valid profitable round-trip cost estimate for this amount")
    | some estimate, false =>
        if estimate.grossProfit - estimate.roundTripCost - ilCost amount estimate.ilRisk ≤ 0 then
          (none, .failed "Opportunity is not profitable after round-trip costs and IL risk")
        else
          let submission := ⟨currentPoolId, opportunity.poolId, amount⟩
          match schedule submission with
          | .ok transactionHash => (some submission, ⟨true, some transactionHash, none⟩)
          | .error message => (some submission, .failed s!"Execution failed: {message}")

structure Profitability where
  grossProfit : ℤ
  netProfit : ℤ
  /-- Percentage, not rounded to a double. -/
  roi : JsNumber
  costEstimateAvailable : Bool
deriving DecidableEq, Repr

/-- `ArbitrageOptimizer.calculateProfitability`; nothing where `BigInt` throws on the APY
difference. -/
def calculateProfitability (opportunity : Opportunity) (amount : ℤ) : Option Profitability := do
  let apyDelta ← opportunity.apyDelta.toBigInt
  let grossProfit := (amount * apyDelta).tdiv 10000
  match opportunity.estimateFor amount with
  | none => pure ⟨grossProfit, 0, .ofNat 0, false⟩
  | some estimate =>
      let netProfit := grossProfit - estimate.roundTripCost - ilCost amount estimate.ilRisk
      let roi : JsNumber :=
        if amount > 0 then .finite ((netProfit * 10000).tdiv amount / 100) else .ofNat 0
      pure ⟨grossProfit, netProfit, roi, true⟩

/-! ### Agreement -/

/-- The net profit of a position: there is one at the scanned amount only. -/
def netProfitAt (scanned gross cost risk position : ℤ) : ℤ :=
  if position = scanned then gross - cost - position * risk / 10000 else 0

/-- The executor and the optimizer agree on an opportunity that was scanned for an amount. -/
def AgreeOn (scanned : ℤ) (o : Opportunity) : Prop :=
  ∃ gross cost risk : ℤ,
    o.grossProfit = some gross ∧ o.roundTripCost = some cost ∧ o.ilRisk = .ofInt risk ∧
    ∀ position : ℤ,
      ((simulateRebalance o position).costEstimateAvailable = true ↔ position = scanned) ∧
      (simulateRebalance o position).netProfit = netProfitAt scanned gross cost risk position ∧
      (∃ r, calculateProfitability o position = some r ∧
        (r.costEstimateAvailable = true ↔ position = scanned) ∧
        r.netProfit = netProfitAt scanned gross cost risk position) ∧
      ∀ schedule currentPoolId privateKey,
        (executeArbitrage schedule o currentPoolId position privateKey).1.isSome = true ↔
          position = scanned ∧ o.recommended = true ∧
            0 < netProfitAt scanned gross cost risk position

section proofs
variable {scan : Scan} {vaultApy : JsNumber} {pool : PoolMetrics} {i delta risk : ℕ} {cost : ℤ}

/-- A valid estimate does not cost less than nothing. -/
theorem Scan.Costs.nonneg (h : scan.Costs i pool cost) : 0 ≤ cost := by
  obtain ⟨network, execution, protocol, _, rfl⟩ := h
  positivity

/-- The estimate of an entry is there for the scanned amount. -/
theorem estimateFor_entry (h : scan.Qualifies vaultApy i pool delta risk cost) (position : ℤ) :
    (scan.entry vaultApy pool delta cost).estimateFor position =
      if position = scan.amount then some ⟨scan.gross delta, cost, risk⟩ else none := by
  by_cases hposition : position = scan.amount
  · subst hposition
    have hcost : ¬ cost < 0 := not_lt.mpr h.costs.nonneg
    have hgross : ¬ scan.gross delta < 0 := not_lt.mpr (gross_nonneg delta)
    have hamount : ¬ scan.amount ≤ 0 := not_le.mpr scan.amount_pos
    have hrisk : (JsNumber.ofInt risk).isSafeInteger = true :=
      (JsNumber.isSafeInteger_natCast risk).mpr h.risk_safe
    have hrisk0 : ¬ (risk : ℤ) < 0 := not_lt.mpr (Int.natCast_nonneg risk)
    simp only [Opportunity.estimateFor, Scan.entry, h.risk_eq, hrisk, JsNumber.ofNat_eq_ofInt,
      JsNumber.lt_ofInt, Nat.cast_zero, hcost, hgross, hamount, hrisk0, ne_eq, not_true_eq_false,
      decide_false, Bool.or_false, Bool.not_true, Bool.false_eq_true, if_false, if_true,
      JsNumber.toBigInt_ofInt, Option.map_some]
  · have hother : some scan.amount ≠ some position :=
      fun heq => hposition (Option.some.inj heq).symm
    simp [Opportunity.estimateFor, Scan.entry, hother, hposition]

/-- The deduction for the risk is rounded down. -/
theorem ilCost_amount (risk : ℕ) : ilCost scan.amount risk = scan.amount * risk / 10000 :=
  Int.tdiv_eq_ediv_of_nonneg (Int.mul_nonneg scan.amount_pos.le (Int.natCast_nonneg risk))

theorem simulateRebalance_entry (h : scan.Qualifies vaultApy i pool delta risk cost)
    (position : ℤ) :
    ((simulateRebalance (scan.entry vaultApy pool delta cost) position).costEstimateAvailable =
        true ↔ position = scan.amount) ∧
      (simulateRebalance (scan.entry vaultApy pool delta cost) position).netProfit =
        netProfitAt scan.amount (scan.gross delta) cost risk position := by
  unfold simulateRebalance netProfitAt
  rw [estimateFor_entry h]
  by_cases hposition : position = scan.amount
  · subst hposition
    simp only [if_true, true_and, ilCost_amount]
    exact (sub_sub _ _ _).symm
  · simp only [hposition, if_false, Bool.false_eq_true, and_true]

theorem calculateProfitability_entry (h : scan.Qualifies vaultApy i pool delta risk cost)
    (position : ℤ) :
    ∃ r, calculateProfitability (scan.entry vaultApy pool delta cost) position = some r ∧
      (r.costEstimateAvailable = true ↔ position = scan.amount) ∧
      r.netProfit = netProfitAt scan.amount (scan.gross delta) cost risk position := by
  have hdelta : (scan.entry vaultApy pool delta cost).apyDelta.toBigInt = some (delta : ℤ) :=
    JsNumber.toBigInt_ofInt delta
  unfold calculateProfitability netProfitAt
  rw [estimateFor_entry h, hdelta]
  by_cases hposition : position = scan.amount
  · subst hposition
    simp only [Option.bind_eq_bind, Option.bind_some, if_true, ilCost_amount, tdiv_gross]
    exact ⟨_, rfl, iff_of_true rfl trivial, rfl⟩
  · simp only [hposition, if_false]
    exact ⟨_, rfl, iff_of_false Bool.false_ne_true not_false, rfl⟩

theorem executeArbitrage_entry (h : scan.Qualifies vaultApy i pool delta risk cost)
    (schedule : Submission → Except String String) (currentPoolId : String) (position : ℤ)
    (privateKey : String) :
    (executeArbitrage schedule (scan.entry vaultApy pool delta cost) currentPoolId position
        privateKey).1.isSome = true ↔
      position = scan.amount ∧ (scan.entry vaultApy pool delta cost).recommended = true ∧
        0 < netProfitAt scan.amount (scan.gross delta) cost risk position := by
  have hprofit : decide ((scan.entry vaultApy pool delta cost).netProfit ≤ 0) = false :=
    decide_eq_false (not_le.mpr h.profit)
  unfold executeArbitrage netProfitAt
  rw [estimateFor_entry h, hprofit]
  cases hrecommended : (scan.entry vaultApy pool delta cost).recommended with
  | false => simp
  | true =>
      by_cases hposition : position = scan.amount
      · subst hposition
        simp only [if_true, ilCost_amount, Bool.not_true, Bool.false_eq_true, if_false, true_and]
        split
        · rename_i hloss
          exact iff_of_false Bool.false_ne_true (not_lt.mpr hloss)
        · rename_i hgain
          refine iff_of_true ?_ (not_le.mp hgain)
          cases schedule
            ⟨currentPoolId, (scan.entry vaultApy pool delta cost).poolId, scan.amount⟩ with
          | ok transactionHash => rfl
          | error message => rfl
      · simp [hposition]

/-- The executor and the optimizer agree on the entries of a scan. -/
theorem agrees_of_isEntry {x : PoolMetrics × ℕ} {o : Opportunity} (h : scan.IsEntry vaultApy x o) :
    AgreeOn scan.amount o := by
  obtain ⟨delta, risk, cost, hq, rfl⟩ := h
  refine ⟨scan.gross delta, cost, risk, rfl, rfl, hq.risk_eq, fun position => ?_⟩
  obtain ⟨havailable, hnet⟩ := simulateRebalance_entry hq position
  exact ⟨havailable, hnet, calculateProfitability_entry hq position,
    fun schedule currentPoolId => executeArbitrage_entry hq schedule currentPoolId position⟩

end proofs

/-- The pipeline agrees on profitability: a request that is not refused yields one entry for each
pool that is worth one, by falling net profit, and on these the executor and the optimizer agree. -/
theorem pipeline_agrees (estimator : Option RoundTripCostEstimator) (pools : List PoolMetrics)
    (vaultApy : JsNumber) (minApyDelta maxIlTolerance : Option JsNumber)
    (scanOptions : Option OpportunityScanOptions) :
    ((∀ scan : Scan, ¬ scan.Requests estimator minApyDelta maxIlTolerance scanOptions) ∧
        findOpportunities estimator pools vaultApy minApyDelta maxIlTolerance scanOptions = []) ∨
      ∃ scan : Scan, scan.Requests estimator minApyDelta maxIlTolerance scanOptions ∧
        (∃ entries, Selects (scan.IsEntry vaultApy) pools.zipIdx entries ∧
          RankedBy Opportunity.netProfit entries
            (findOpportunities estimator pools vaultApy minApyDelta maxIlTolerance scanOptions)) ∧
        ∀ o ∈ findOpportunities estimator pools vaultApy minApyDelta maxIlTolerance scanOptions,
          AgreeOn scan.amount o := by
  by_cases hscan : ∃ scan : Scan, scan.Requests estimator minApyDelta maxIlTolerance scanOptions
  · obtain ⟨scan, hrequests⟩ := hscan
    obtain ⟨entries, hselects, hranked⟩ := findOpportunities_ranked hrequests pools vaultApy
    refine .inr ⟨scan, hrequests, ⟨entries, hselects, hranked⟩, fun o ho => ?_⟩
    obtain ⟨x, _, hentry⟩ := hselects.exists_of_mem (hranked.perm.mem_iff.mp ho)
    exact agrees_of_isEntry hentry
  · have hrefused := not_exists.mp hscan
    exact .inl ⟨hrefused, findOpportunities_refused hrefused pools vaultApy⟩

/-- An estimator that asks for nothing. -/
def zeroCostEstimator : RoundTripCostEstimator where
  estimateRoundTripCosts _ request := .ok (some ⟨request.asset, some 0, some 0, some 0⟩)

/-- A pool of 700 bp against a vault of 300 bp, with 10000 to invest.  Its 400 bp meet a threshold
of 200.5 bp, at which nothing is found.  At the default threshold there is an entry, but neither the
executor nor the optimizer reports the net profit of a position of 10001. -/
theorem fractional_threshold_and_other_position :
    let pool : PoolMetrics := ⟨"pool-1", .ofInt 700, .ofInt 100⟩
    let options : OpportunityScanOptions := ⟨10000, "USDC", "current-pool"⟩
    let o : Opportunity := ⟨"pool-1", .ofInt 300, .ofInt 700, .ofInt 100, some 400, some 0,
      some 10000, 400, .ofInt 400, true⟩
    ((JsNumber.finite (401 / 2)).le (.ofInt 400) = true ∧
        (JsNumber.ofInt 100).le ((JsNumber.ofInt 100).mul (.ofInt 100)) = true ∧
        (0 : ℤ) < 10000 * (700 - 300) / 10000 - (0 + 0 + 0) ∧
        findOpportunities (some zeroCostEstimator) [pool] (.ofInt 300)
          (some (.finite (401 / 2))) none (some options) = []) ∧
      findOpportunities (some zeroCostEstimator) [pool] (.ofInt 300) none none
        (some options) = [o] ∧
      (400 - 0 - 10001 * 100 / 10000 : ℤ) ≠ 0 ∧
      (simulateRebalance o 10001).netProfit = 0 ∧
      (calculateProfitability o 10001).map Profitability.netProfit = some 0 := by
  decide +kernel

end YieldEngine.Arbitrage
