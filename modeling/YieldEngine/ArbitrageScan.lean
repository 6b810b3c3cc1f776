import YieldEngine.JsNumber
import YieldEngine.Selection

/-! # The scan for arbitrage opportunities

`findOpportunities` of the scanner, for any list of scanned pools and any answers of the estimator
of round-trip costs.  `Scan` is a request that is not refused, in whole numbers; `IsEntry` says
which pools are worth an entry, and which entry it is.  The result holds one entry for each such
pool, by falling net profit (`findOpportunities_ranked`).

The comparisons of the scanner are exact although its numbers are doubles: a difference of safe
integers is rounded only where it is not safe, and a product of one with `100` only where it
exceeds every safe integer. -/

namespace YieldEngine.Arbitrage

open Selection

/-! ### Pools, estimates and opportunities -/

structure PoolMetrics where
  poolId : String
  currentApy : JsNumber
  volatility24h : JsNumber
deriving DecidableEq, Repr

/-- A cost is missing where the estimator yields something else than a bigint. -/
structure RoundTripCostEstimate where
  asset : String
  networkCost : Option ℤ
  executionCost : Option ℤ
  protocolCost : Option ℤ
deriving DecidableEq, Repr

/-- The argument of `estimateRoundTripCosts`. -/
structure CostRequest where
  amount : ℤ
  asset : String
  sourcePoolId : String
  destinationPoolId : String
deriving DecidableEq, Repr

/-- An estimator, by what it answers to the request it gets for each of the scanned pools: it
throws, or it yields an estimate or `null`. -/
structure RoundTripCostEstimator where
  estimateRoundTripCosts : ℕ → CostRequest → Except String (Option RoundTripCostEstimate)

structure OpportunityScanOptions where
  investmentAmount : ℤ
  investmentAsset : String
  sourcePoolId : String
deriving DecidableEq, Repr

structure Opportunity where
  poolId : String
  currentApy : JsNumber
  projectedApy : JsNumber
  ilRisk : JsNumber
  grossProfit : Option ℤ
  roundTripCost : Option ℤ
  investmentAmount : Option ℤ
  netProfit : ℤ
  apyDelta : JsNumber
  recommended : Bool
deriving DecidableEq, Repr

/-- The total of an estimate in the asset, all of whose costs are bigints and none is negative. -/
def RoundTripCostEstimate.total (estimate : RoundTripCostEstimate) (asset : String) : Option ℤ :=
  if estimate.asset ≠ asset then none
  else
    match estimate.networkCost, estimate.executionCost, estimate.protocolCost with
    | some networkCost, some executionCost, some protocolCost =>
        if networkCost < 0 ∨ executionCost < 0 ∨ protocolCost < 0 then none
        else some (networkCost + executionCost + protocolCost)
    | _, _, _ => none

/-! ### The scanner -/

section scanner
variable (estimator : RoundTripCostEstimator)
  (currentVaultApy minApyDelta maxIlTolerance : JsNumber)
  (scanOptions : OpportunityScanOptions)

/-- The checks of a pool before its costs are estimated; the difference of the APYs. -/
def candidateDelta (pool : PoolMetrics) : Option JsNumber :=
  if !currentVaultApy.isSafeInteger || !pool.currentApy.isSafeInteger ||
      !pool.volatility24h.isSafeInteger || pool.volatility24h.lt (.ofNat 0) then none
  else
    let apyDelta := JsNumber.max (.ofNat 0) (pool.currentApy.sub currentVaultApy)
    if !apyDelta.isSafeInteger then none
    else if minApyDelta.le apyDelta && pool.volatility24h.le (maxIlTolerance.mul (.ofNat 100)) then
      some apyDelta
    else none

/-- The estimate for a pool, as the scanner accepts it. -/
def estimatedCost (i : ℕ) (pool : PoolMetrics) : Option ℤ :=
  match estimator.estimateRoundTripCosts i
      { amount := scanOptions.investmentAmount
        asset := scanOptions.investmentAsset
        sourcePoolId := scanOptions.sourcePoolId
        destinationPoolId := pool.poolId } with
  | .error _ => none
  | .ok none => none
  | .ok (some estimate) => estimate.total scanOptions.investmentAsset

/-- The profit of a pool with its costs, and the opportunity if there is any profit. -/
def pricedOpportunity (pool : PoolMetrics) (apyDelta : JsNumber) (delta roundTripCost : ℤ) :
    Option Opportunity :=
  let grossProfit := (scanOptions.investmentAmount * delta).tdiv 10000
  let netProfit := grossProfit - roundTripCost
  if netProfit ≤ 0 then none
  else
    let netApyDelta := (netProfit * 10000).tdiv scanOptions.investmentAmount
    some
      { poolId := pool.poolId
        currentApy := currentVaultApy
        projectedApy := pool.currentApy
        ilRisk := pool.volatility24h
        grossProfit := some grossProfit
        roundTripCost := some roundTripCost
        investmentAmount := some scanOptions.investmentAmount
        netProfit
        apyDelta
        recommended := (minApyDelta.mul (.ofNat 2)).le (.ofInt netApyDelta) }

/-- The body of the loop over the pools: the opportunity that is pushed, if any. -/
def opportunityOf (i : ℕ) (pool : PoolMetrics) : Option Opportunity := do
  let apyDelta ← candidateDelta currentVaultApy minApyDelta maxIlTolerance pool
  let roundTripCost ← estimatedCost estimator scanOptions i pool
  let delta ← apyDelta.toBigInt
  pricedOpportunity currentVaultApy minApyDelta scanOptions pool apyDelta delta roundTripCost

/-- One turn of the loop. -/
def scanPool (opportunities : List Opportunity) (pool : PoolMetrics × ℕ) : List Opportunity :=
  match opportunityOf estimator currentVaultApy minApyDelta maxIlTolerance scanOptions
      pool.2 pool.1 with
  | some opportunity => opportunities ++ [opportunity]
  | none => opportunities

end scanner

/-- The comparator of the result. -/
def compareNetProfit (a b : Opportunity) : ℤ :=
  if a.netProfit = b.netProfit then 0 else if a.netProfit > b.netProfit then -1 else 1

/-- `findOpportunities` of a scanner, given the result of `scanAllPools`. -/
def findOpportunities (estimator : Option RoundTripCostEstimator) (allPools : List PoolMetrics)
    (currentVaultApy : JsNumber) (minApyDelta maxIlTolerance : Option JsNumber)
    (scanOptions : Option OpportunityScanOptions) : List Opportunity :=
  let minApyDelta := minApyDelta.getD (.ofNat 200)
  let maxIlTolerance := maxIlTolerance.getD (.ofNat 100)
  match estimator, scanOptions with
  | some estimator, some scanOptions =>
      if !minApyDelta.isSafeInteger || minApyDelta.lt (.ofNat 0) ||
          !maxIlTolerance.isSafeInteger || maxIlTolerance.lt (.ofNat 0) ||
          scanOptions.investmentAmount ≤ 0 || scanOptions.investmentAsset = "" ||
          scanOptions.sourcePoolId = "" then []
      else
        sortBy compareNetProfit (allPools.zipIdx.foldl
          (scanPool estimator currentVaultApy minApyDelta maxIlTolerance scanOptions) [])
  | _, _ => []

/-! ### What a scan looks for -/

/-- A request that the scanner does not refuse: its thresholds are whole, and there is something to
invest. -/
structure Scan where
  estimator : RoundTripCostEstimator
  options : OpportunityScanOptions
  minApyDelta : ℕ
  maxIlTolerance : ℕ
  minApyDelta_safe : minApyDelta < 2 ^ 53
  maxIlTolerance_safe : maxIlTolerance < 2 ^ 53
  amount_pos : 0 < options.investmentAmount
  asset_ne : options.investmentAsset ≠ ""
  source_ne : options.sourcePoolId ≠ ""

namespace Scan
variable (scan : Scan)

def amount : ℤ := scan.options.investmentAmount

/-- The scan is what the arguments of `findOpportunities` ask for. -/
structure Requests (estimator : Option RoundTripCostEstimator)
    (minApyDelta maxIlTolerance : Option JsNumber)
    (scanOptions : Option OpportunityScanOptions) : Prop where
  estimator : estimator = some scan.estimator
  options : scanOptions = some scan.options
  minApyDelta : minApyDelta.getD (.ofNat 200) = .ofInt scan.minApyDelta
  maxIlTolerance : maxIlTolerance.getD (.ofNat 100) = .ofInt scan.maxIlTolerance

/-- The estimator's answer for a pool is in the asset of the investment, its parts are not negative
and add up to `cost`. -/
def Costs (i : ℕ) (pool : PoolMetrics) (cost : ℤ) : Prop :=
  ∃ network execution protocol : ℕ,
    scan.estimator.estimateRoundTripCosts i ⟨scan.amount, scan.options.investmentAsset,
      scan.options.sourcePoolId, pool.poolId⟩ =
        .ok (some ⟨scan.options.investmentAsset, some network, some execution, some protocol⟩) ∧
    cost = network + execution + protocol

/-- One year of `delta` basis points more on the invested amount. -/
def gross (delta : ℕ) : ℤ := scan.amount * delta / 10000

/-- A pool that meets the thresholds, in whole numbers: it is `delta` basis points over the
vault. -/
structure Candidate (vaultApy : JsNumber) (pool : PoolMetrics) (delta risk : ℕ) : Prop where
  delta_eq : ∃ vault apy : ℤ, vaultApy = .ofInt vault ∧ |vault| < 2 ^ 53 ∧
    pool.currentApy = .ofInt apy ∧ |apy| < 2 ^ 53 ∧ (delta : ℤ) = max 0 (apy - vault)
  delta_safe : delta < 2 ^ 53
  risk_eq : pool.volatility24h = .ofInt risk
  risk_safe : risk < 2 ^ 53
  delta_le : scan.minApyDelta ≤ delta
  risk_le : risk ≤ scan.maxIlTolerance * 100

/-- Such a pool with a valid estimate that leaves a profit. -/
structure Qualifies (vaultApy : JsNumber) (i : ℕ) (pool : PoolMetrics) (delta risk : ℕ)
    (cost : ℤ) : Prop extends scan.Candidate vaultApy pool delta risk where
  costs : scan.Costs i pool cost
  profit : 0 < scan.gross delta - cost

/-- The entry of a pool. -/
def entry (vaultApy : JsNumber) (pool : PoolMetrics) (delta : ℕ) (cost : ℤ) : Opportunity where
  poolId := pool.poolId
  currentApy := vaultApy
  projectedApy := pool.currentApy
  ilRisk := pool.volatility24h
  grossProfit := some (scan.gross delta)
  roundTripCost := some cost
  investmentAmount := some scan.amount
  netProfit := scan.gross delta - cost
  apyDelta := .ofInt delta
  recommended := 2 * scan.minApyDelta ≤ (scan.gross delta - cost) * 10000 / scan.amount

def IsEntry (vaultApy : JsNumber) (pool : PoolMetrics × ℕ) (o : Opportunity) : Prop :=
  ∃ delta risk cost, scan.Qualifies vaultApy pool.2 pool.1 delta risk cost ∧
    o = scan.entry vaultApy pool.1 delta cost

end Scan

/-! ### The scanner and the scan -/

/-- An accepted estimate has three costs that are not negative. -/
theorem RoundTripCostEstimate.total_eq_some {estimate : RoundTripCostEstimate} {asset : String}
    {cost : ℤ} : estimate.total asset = some cost ↔
      ∃ network execution protocol : ℕ,
        estimate = ⟨asset, some network, some execution, some protocol⟩ ∧
          cost = network + execution + protocol := by
  constructor
  · intro h
    obtain ⟨asset', network, execution, protocol⟩ := estimate
    simp only [total] at h
    split at h
    · cases h
    · rename_i hasset
      split at h
      · split at h
        · cases h
        · rename_i network execution protocol hcosts
          obtain ⟨hnetwork, hexecution, hprotocol⟩ :
              0 ≤ network ∧ 0 ≤ execution ∧ 0 ≤ protocol := by
            omega
          lift network to ℕ using hnetwork
          lift execution to ℕ using hexecution
          lift protocol to ℕ using hprotocol
          exact ⟨network, execution, protocol, by rw [not_not.mp hasset], (Option.some.inj h).symm⟩
      · cases h
  · rintro ⟨network, execution, protocol, rfl, rfl⟩
    have hcosts : ¬ ((network : ℤ) < 0 ∨ (execution : ℤ) < 0 ∨ (protocol : ℤ) < 0) := by omega
    simp only [total, ne_eq, not_true_eq_false, if_false, if_neg hcosts]

section proofs
variable {scan : Scan} {vaultApy : JsNumber} {pool : PoolMetrics}

theorem estimatedCost_eq_some {i : ℕ} {cost : ℤ} :
    estimatedCost scan.estimator scan.options i pool = some cost ↔ scan.Costs i pool cost := by
  unfold estimatedCost Scan.Costs Scan.amount
  split
  · rename_i hanswer
    simp only [hanswer, reduceCtorEq, false_and, exists_false]
  · rename_i hanswer
    simp only [hanswer, reduceCtorEq, false_and, exists_false, Except.ok.injEq]
  · rename_i hanswer
    rw [RoundTripCostEstimate.total_eq_some]
    simp only [hanswer, Except.ok.injEq, Option.some.injEq]

/-- A pool that passes the checks meets the thresholds. -/
theorem candidate_of_candidateDelta {d : JsNumber}
    (h : candidateDelta vaultApy (.ofInt scan.minApyDelta) (.ofInt scan.maxIlTolerance) pool =
      some d) :
    ∃ delta risk : ℕ, d = .ofInt delta ∧ scan.Candidate vaultApy pool delta risk := by
  unfold candidateDelta at h
  split at h
  · cases h
  · rename_i hwhole
    simp only [Bool.or_eq_true, Bool.not_eq_true', not_or, Bool.not_eq_false,
      JsNumber.isSafeInteger_iff] at hwhole
    obtain ⟨⟨⟨⟨vault, rfl, hvault⟩, apy, hapy, hapySafe⟩, risk, hrisk, hriskSafe⟩, hrisk0⟩ := hwhole
    simp only [hrisk, hapy, JsNumber.ofNat_eq_ofInt, JsNumber.lt_ofInt, JsNumber.sub_ofInt,
      JsNumber.max_ofInt, JsNumber.mul_ofInt, JsNumber.le_ofInt, Nat.cast_zero, decide_eq_true_eq,
      not_lt] at h hrisk0
    lift risk to ℕ using hrisk0
    obtain ⟨delta, hdelta⟩ := Int.eq_ofNat_of_zero_le (le_max_left 0 (apy - vault))
    rw [hdelta] at h
    split at h
    · cases h
    · rename_i hsafe
      split at h
      · rename_i hmeets
        simp only [Bool.and_eq_true, decide_eq_true_eq] at hmeets
        rw [Bool.not_eq_true', Bool.not_eq_false, JsNumber.isSafeInteger_natCast] at hsafe
        rw [Nat.abs_cast] at hriskSafe
        refine ⟨delta, risk, (Option.some.inj h).symm, ?_⟩
        exact
          { delta_eq := ⟨vault, apy, rfl, hvault, hapy, hapySafe, hdelta.symm⟩
            delta_safe := hsafe
            risk_eq := hrisk
            risk_safe := by exact_mod_cast hriskSafe
            delta_le := by exact_mod_cast hmeets.1
            risk_le := by exact_mod_cast hmeets.2 }
      · cases h

/-- A pool that meets the thresholds passes the checks. -/
theorem candidateDelta_of_candidate {delta risk : ℕ}
    (h : scan.Candidate vaultApy pool delta risk) :
    candidateDelta vaultApy (.ofInt scan.minApyDelta) (.ofInt scan.maxIlTolerance) pool =
      some (.ofInt delta) := by
  obtain ⟨⟨vault, apy, rfl, hvault, hapy, hapySafe, hdelta⟩, hsafe, hrisk, hriskSafe, hmin,
    hmax⟩ := h
  have hsafe' := (JsNumber.isSafeInteger_natCast delta).mpr hsafe
  have hriskSafe' := (JsNumber.isSafeInteger_natCast risk).mpr hriskSafe
  have hvaultSafe := JsNumber.isSafeInteger_iff.mpr ⟨vault, rfl, hvault⟩
  have hapySafe' := JsNumber.isSafeInteger_iff.mpr ⟨apy, rfl, hapySafe⟩
  have hmin' : (scan.minApyDelta : ℤ) ≤ delta := by exact_mod_cast hmin
  have hmax' : (risk : ℤ) ≤ scan.maxIlTolerance * 100 := by exact_mod_cast hmax
  have hrisk0 : ¬ (risk : ℤ) < 0 := not_lt.mpr (Int.natCast_nonneg risk)
  simp only [candidateDelta, hapy, hrisk, hvaultSafe, hapySafe', hriskSafe',
    JsNumber.ofNat_eq_ofInt, JsNumber.lt_ofInt, JsNumber.le_ofInt, JsNumber.sub_ofInt,
    JsNumber.mul_ofInt, JsNumber.max_ofInt, Nat.cast_zero, Nat.cast_ofNat, ← hdelta, hsafe', hmin',
    hmax', hrisk0, decide_true, decide_false, Bool.not_true, Bool.or_false, Bool.and_true,
    Bool.false_eq_true, if_false, if_true]

theorem candidateDelta_eq_some {d : JsNumber} :
    candidateDelta vaultApy (.ofInt scan.minApyDelta) (.ofInt scan.maxIlTolerance) pool = some d ↔
      ∃ delta risk : ℕ, d = .ofInt delta ∧ scan.Candidate vaultApy pool delta risk := by
  refine ⟨candidate_of_candidateDelta, ?_⟩
  rintro ⟨delta, risk, rfl, hcandidate⟩
  exact candidateDelta_of_candidate hcandidate

theorem gross_nonneg (delta : ℕ) : 0 ≤ scan.gross delta := by
  have hamount : 0 ≤ scan.amount := scan.amount_pos.le
  exact Int.ediv_nonneg (Int.mul_nonneg hamount (Int.natCast_nonneg delta)) (by decide)

/-- The division of bigints agrees with the floor on what the scanner divides. -/
theorem tdiv_gross (delta : ℕ) : (scan.amount * delta).tdiv 10000 = scan.gross delta := by
  have hamount : 0 ≤ scan.amount := scan.amount_pos.le
  exact Int.tdiv_eq_ediv_of_nonneg (Int.mul_nonneg hamount (Int.natCast_nonneg delta))

theorem tdiv_netApyDelta {net : ℤ} (hnet : 0 < net) :
    (net * 10000).tdiv scan.amount = net * 10000 / scan.amount :=
  Int.tdiv_eq_ediv_of_nonneg (by omega)

/-- A priced pool has its entry where there is a profit. -/
theorem pricedOpportunity_eq_some {delta : ℕ} {cost : ℤ} {o : Opportunity} :
    pricedOpportunity vaultApy (.ofInt scan.minApyDelta) scan.options pool (.ofInt delta) delta
        cost = some o ↔ 0 < scan.gross delta - cost ∧ o = scan.entry vaultApy pool delta cost := by
  have hgross : (scan.options.investmentAmount * delta).tdiv 10000 = scan.gross delta :=
    tdiv_gross delta
  unfold pricedOpportunity
  rw [hgross]
  by_cases hprofit : 0 < scan.gross delta - cost
  · have hnet : ((scan.gross delta - cost) * 10000).tdiv scan.options.investmentAmount =
        (scan.gross delta - cost) * 10000 / scan.amount := tdiv_netApyDelta hprofit
    simp only [not_le.mpr hprofit, if_false, hnet, Option.some.injEq, hprofit, true_and,
      JsNumber.ofNat_eq_ofInt, JsNumber.mul_ofInt, JsNumber.le_ofInt, Scan.entry, Scan.amount,
      Nat.cast_ofNat, mul_comm (scan.minApyDelta : ℤ) 2]
    exact eq_comm
  · simp only [not_lt.mp hprofit, if_true, reduceCtorEq, hprofit, false_and]

/-- The body of the loop yields the entry of a pool that is worth one, and no other. -/
theorem opportunityOf_eq_some {i : ℕ} {o : Opportunity} :
    opportunityOf scan.estimator vaultApy (.ofInt scan.minApyDelta) (.ofInt scan.maxIlTolerance)
      scan.options i pool = some o ↔ scan.IsEntry vaultApy (pool, i) o := by
  simp only [opportunityOf, Option.bind_eq_bind, Option.bind_eq_some_iff, candidateDelta_eq_some,
    estimatedCost_eq_some]
  constructor
  · rintro ⟨_, ⟨delta, risk, rfl, hcandidate⟩, cost, hcosts, _, hdelta, hpriced⟩
    obtain rfl := Option.some.inj (hdelta.symm.trans (JsNumber.toBigInt_ofInt delta))
    obtain ⟨hprofit, rfl⟩ := pricedOpportunity_eq_some.mp hpriced
    exact ⟨delta, risk, cost, ⟨hcandidate, hcosts, hprofit⟩, rfl⟩
  · rintro ⟨delta, risk, cost, ⟨hcandidate, hcosts, hprofit⟩, rfl⟩
    exact ⟨_, ⟨delta, risk, rfl, hcandidate⟩, cost, hcosts, delta, JsNumber.toBigInt_ofInt delta,
      pricedOpportunity_eq_some.mpr ⟨hprofit, rfl⟩⟩

/-- The loop selects the entries of the pools. -/
theorem scan_selects (pools : List (PoolMetrics × ℕ)) :
    Selects (scan.IsEntry vaultApy) pools (pools.foldl (scanPool scan.estimator vaultApy
      (.ofInt scan.minApyDelta) (.ofInt scan.maxIlTolerance) scan.options) []) := by
  have htake : ∀ opportunities x o, scan.IsEntry vaultApy x o →
      scanPool scan.estimator vaultApy (.ofInt scan.minApyDelta) (.ofInt scan.maxIlTolerance)
        scan.options opportunities x = opportunities ++ [o] := by
    intro opportunities x o ho
    rw [scanPool, opportunityOf_eq_some.mpr ho]
  have hskip : ∀ opportunities x, (∀ o, ¬ scan.IsEntry vaultApy x o) →
      scanPool scan.estimator vaultApy (.ofInt scan.minApyDelta) (.ofInt scan.maxIlTolerance)
        scan.options opportunities x = opportunities := by
    intro opportunities x hnone
    have hno : opportunityOf scan.estimator vaultApy (.ofInt scan.minApyDelta)
        (.ofInt scan.maxIlTolerance) scan.options x.2 x.1 = none :=
      Option.eq_none_iff_forall_ne_some.mpr fun o ho => hnone o (opportunityOf_eq_some.mp ho)
    rw [scanPool, hno]
  obtain ⟨entries, hentries, hfold⟩ := selects_foldl htake hskip pools []
  rw [hfold, List.nil_append]
  exact hentries

end proofs

/-! ### The result -/

theorem compareNetProfit_le (a b : Opportunity) :
    compareNetProfit a b ≤ 0 ↔ b.netProfit ≤ a.netProfit := by
  unfold compareNetProfit
  split
  · omega
  · split
    · omega
    · omega

section result
variable {estimator : Option RoundTripCostEstimator} {minApyDelta maxIlTolerance : Option JsNumber}
  {scanOptions : Option OpportunityScanOptions}

/-- A request of a scan passes the checks. -/
theorem findOpportunities_of_requests {scan : Scan}
    (h : scan.Requests estimator minApyDelta maxIlTolerance scanOptions)
    (pools : List PoolMetrics) (vaultApy : JsNumber) :
    findOpportunities estimator pools vaultApy minApyDelta maxIlTolerance scanOptions =
      sortBy compareNetProfit (pools.zipIdx.foldl (scanPool scan.estimator vaultApy
        (.ofInt scan.minApyDelta) (.ofInt scan.maxIlTolerance) scan.options) []) := by
  obtain ⟨rfl, rfl, hmin, hmax⟩ := h
  have hamount := not_le.mpr scan.amount_pos
  have hminSafe := (JsNumber.isSafeInteger_natCast scan.minApyDelta).mpr scan.minApyDelta_safe
  have hmaxSafe := (JsNumber.isSafeInteger_natCast scan.maxIlTolerance).mpr scan.maxIlTolerance_safe
  have hmin0 : ¬ (scan.minApyDelta : ℤ) < 0 := not_lt.mpr (Int.natCast_nonneg _)
  have hmax0 : ¬ (scan.maxIlTolerance : ℤ) < 0 := not_lt.mpr (Int.natCast_nonneg _)
  simp only [findOpportunities, hmin, hmax]
  refine if_neg ?_
  simp only [hminSafe, hmaxSafe, hmin0, hmax0, hamount, scan.asset_ne, scan.source_ne,
    JsNumber.ofNat_eq_ofInt, JsNumber.lt_ofInt, Nat.cast_zero, decide_false, Bool.not_true,
    Bool.or_false, Bool.false_eq_true, not_false_eq_true]

/-- The result of a scan: the entries of the pools, by falling net profit. -/
theorem findOpportunities_ranked {scan : Scan}
    (h : scan.Requests estimator minApyDelta maxIlTolerance scanOptions)
    (pools : List PoolMetrics) (vaultApy : JsNumber) :
    ∃ entries, Selects (scan.IsEntry vaultApy) pools.zipIdx entries ∧
      RankedBy Opportunity.netProfit entries
        (findOpportunities estimator pools vaultApy minApyDelta maxIlTolerance scanOptions) := by
  rw [findOpportunities_of_requests h]
  exact ⟨_, scan_selects pools.zipIdx, rankedBy_sortBy compareNetProfit_le _⟩

/-- A request that is not one of a scan is refused. -/
theorem findOpportunities_refused
    (h : ∀ scan : Scan, ¬ scan.Requests estimator minApyDelta maxIlTolerance scanOptions)
    (pools : List PoolMetrics) (vaultApy : JsNumber) :
    findOpportunities estimator pools vaultApy minApyDelta maxIlTolerance scanOptions = [] := by
  unfold findOpportunities
  dsimp only
  split
  · rename_i estimator options
    split
    · rfl
    · rename_i hchecks
      simp only [Bool.or_eq_true, Bool.not_eq_true', not_or, Bool.not_eq_false,
        JsNumber.isSafeInteger_iff, decide_eq_true_eq, not_le] at hchecks
      obtain ⟨⟨⟨⟨⟨⟨⟨min, hmin, hminSafe⟩, hmin0⟩, max, hmax, hmaxSafe⟩, hmax0⟩, hamount⟩, hasset⟩,
        hsource⟩ := hchecks
      rw [hmin] at hmin0
      rw [hmax] at hmax0
      simp only [JsNumber.ofNat_eq_ofInt, JsNumber.lt_ofInt, Nat.cast_zero, decide_eq_true_eq,
        not_lt] at hmin0 hmax0
      lift min to ℕ using hmin0
      lift max to ℕ using hmax0
      rw [Nat.abs_cast] at hminSafe hmaxSafe
      exact absurd ⟨rfl, rfl, hmin, hmax⟩ (h
        { estimator, options
          minApyDelta := min
          maxIlTolerance := max
          minApyDelta_safe := by exact_mod_cast hminSafe
          maxIlTolerance_safe := by exact_mod_cast hmaxSafe
          amount_pos := hamount
          asset_ne := hasset
          source_ne := hsource })
  · rfl

end result

end YieldEngine.Arbitrage
