import YieldEngine.ActuaryPricing
import YieldEngine.Transact
import Mathlib.Algebra.BigOperators.Ring.List

/-! # Quotes of the actuary

The risk-adjusted price of a coverage is the coverage times the expected loss rate of the last
simulation, with the multiplier and the margin that governance has set.  The rate is truncated
twice before it meets the coverage.  Anybody who signs may submit a simulation, and `initialize`
may be called by anybody at any time.

Whatever is called, the parameters stay in their ranges (`inRange_of_run`).  A quote covers the
expected payout for every rate and coverage exactly when the multiplier is at least one; no margin
makes up for a lower one (`covers_payouts_iff`).  A coverage taken out in parts costs less than the
whole by fewer units than there are parts (`price_of_parts`). -/

namespace YieldEngine.Actuary

open CheckedArith Transact

structure SimulationParams where
  annualVolatilityBps : ℕ
  /-- The fraction of paths with a payout, in millionths. -/
  expectedLossRateScaled : ℤ
  fairPremiumBps : ℕ
  pathsCount : ℕ
  lastUpdated : ℕ
deriving DecidableEq, Repr

def defaultSimulationParams : SimulationParams := ⟨8000, 50000, 550, 0, 0⟩

/-- The whole instance storage. -/
structure ActuaryState extends ActuaryStore where
  simParams : Option SimulationParams
  version : Option ℕ
deriving DecidableEq, Repr

/-- A contract that has been deployed and not called yet. -/
def deployedActuary : ActuaryState := ⟨⟨none, none⟩, none, none⟩

/-- `upgrade::STORAGE_VERSION`. -/
def storageVersion : ℕ := 1

/-! ### Entrypoints -/

/-- `compute_fair_premium`; the quotient is narrowed to 32 bits. -/
def computeFairPremium (expectedLossRateScaled : ℤ) : ActuaryCall ℕ := do
  let scaled ← I128.mul expectedLossRateScaled 11000
  let withMargin ← I128.div scaled 10000
  let premium ← I128.div withMargin 100
  pure (premium % 2 ^ 32).toNat

namespace ActuaryState

def getSimulationParams (s : ActuaryState) : SimulationParams :=
  s.simParams.getD defaultSimulationParams

def getStorageVersion (s : ActuaryState) : ℕ := s.version.getD 0

/-- `require_admin`; it compares addresses and asks for no signature. -/
def requireAdmin (s : ActuaryState) (caller : Address) : ActuaryCall Unit := do
  let admin ← orRaise s.admin (.contract .notInitialized)
  require (caller = admin) (.contract .unauthorized)

/-- `initialize`. -/
def initializeAll (s : ActuaryState) (admin : Address) : ActuaryState :=
  { s with
    toActuaryStore := initializeActuary s.toActuaryStore admin
    version := some storageVersion }

/-- `upgrade`: the new code takes effect after this invocation, storage is kept. -/
def upgrade (s : ActuaryState) (admin : Address) : ActuaryCall ActuaryState := do
  s.requireAdmin admin
  pure s

/-- `migrate`, returning the version replaced. -/
def migrate (s : ActuaryState) (admin : Address) : ActuaryCall (ActuaryState × ℕ) := do
  s.requireAdmin admin
  pure ({ s with version := some storageVersion }, s.getStorageVersion)

/-- `submit_simulation_results`. -/
def submitSimulationResults (e : Env) (s : ActuaryState) (oracle : Address)
    (annualVolatilityBps : ℕ) (expectedLossRateScaled : ℤ) (pathsCount : ℕ) :
    ActuaryCall ActuaryState := do
  e.requireAuth oracle
  let fairPremiumBps ← computeFairPremium expectedLossRateScaled
  pure { s with
    simParams := some ⟨annualVolatilityBps, expectedLossRateScaled, fairPremiumBps, pathsCount,
      e.timestamp⟩ }

/-- `risk_adjusted_pricing`. -/
def riskAdjustedPricing (s : ActuaryState) (coverageAmount : ℤ) : ActuaryCall ℤ := do
  let sim := s.getSimulationParams
  let params := s.getPricingParams
  let scaled ← I128.mul sim.expectedLossRateScaled params.baseMultiplierBps
  let adjustedLossRate ← I128.div scaled 10000
  let factor ← I128.add 10000 params.reserveMarginBps
  let raised ← I128.mul adjustedLossRate factor
  let withMargin ← I128.div raised 10000
  let product ← I128.mul coverageAmount withMargin
  I128.div product 1000000

end ActuaryState

/-- Calls that write the state of the contract. -/
inductive Action where
  | initializeActuary (admin : Address)
  | upgrade (admin : Address)
  | migrate (admin : Address)
  | submitSimulationResults (oracle : Address) (annualVolatilityBps : ℕ)
      (expectedLossRateScaled : ℤ) (pathsCount : ℕ)
  | updatePricingParams (admin : Address) (newParams : PricingParams)
deriving DecidableEq, Repr

def exec (s : ActuaryState) (c : Env × Action) : ActuaryCall ActuaryState :=
  match c.2 with
  | .initializeActuary admin => pure (s.initializeAll admin)
  | .upgrade admin => s.upgrade admin
  | .migrate admin => Prod.fst <$> s.migrate admin
  | .submitSimulationResults oracle volatility rate paths =>
      ActuaryState.submitSimulationResults c.1 s oracle volatility rate paths
  | .updatePricingParams admin newParams =>
      (fun store => { s with toActuaryStore := store }) <$>
        updatePricingParams c.1 s.toActuaryStore admin newParams

/-! ### The parameters in force -/

/-- What governance may set. -/
structure PricingParams.InRange (p : PricingParams) : Prop where
  base : 5000 ≤ p.baseMultiplierBps ∧ p.baseMultiplierBps ≤ 30000
  margin : 500 ≤ p.reserveMarginBps ∧ p.reserveMarginBps ≤ 5000

theorem inRange_default : defaultPricingParams.InRange := ⟨by decide, by decide⟩

theorem updatePricingParams_inRange {e : Env} {s s' : ActuaryStore} {admin : Address}
    {params : PricingParams} (h : updatePricingParams e s admin params = .ok s') :
    s'.getPricingParams.InRange := by
  simp only [updatePricingParams, bind_eq_ok, require_eq_ok, exists_const, pure_eq_ok] at h
  obtain ⟨_, -, _, -, -, hbase, hmargin, rfl⟩ := h
  exact ⟨hbase, hmargin⟩

theorem inRange_exec {s s' : ActuaryState} {c : Env × Action} (h : exec s c = .ok s')
    (hs : s.getPricingParams.InRange) : s'.getPricingParams.InRange := by
  obtain ⟨e, a⟩ := c
  cases a with
  | initializeActuary admin =>
      obtain rfl := pure_eq_ok.mp h
      exact inRange_default
  | upgrade admin =>
      simp only [exec, ActuaryState.upgrade, bind_eq_ok, pure_eq_ok] at h
      obtain ⟨_, -, rfl⟩ := h
      exact hs
  | migrate admin =>
      simp only [exec, ActuaryState.migrate, map_eq_ok, bind_eq_ok, pure_eq_ok] at h
      obtain ⟨_, ⟨_, -, rfl⟩, rfl⟩ := h
      exact hs
  | submitSimulationResults oracle volatility rate paths =>
      simp only [exec, ActuaryState.submitSimulationResults, bind_eq_ok, pure_eq_ok] at h
      obtain ⟨_, -, _, -, rfl⟩ := h
      exact hs
  | updatePricingParams admin newParams =>
      obtain ⟨store, hstore, rfl⟩ := map_eq_ok.mp h
      exact updatePricingParams_inRange hstore

theorem inRange_of_run (calls : List (Env × Action)) :
    (run exec deployedActuary calls).getPricingParams.InRange :=
  run_invariant (I := fun s : ActuaryState => s.getPricingParams.InRange)
    (fun _ _ _ hs h => inRange_exec h hs) calls inRange_default

/-! ### What a quote is worth -/

/-- The loss rate a quote uses. -/
def quotedRate (p : PricingParams) (rate : ℤ) : ℤ :=
  ((rate * p.baseMultiplierBps).tdiv 10000 * (10000 + p.reserveMarginBps)).tdiv 10000

theorem riskAdjustedPricing_value {s : ActuaryState} {coverage price : ℤ}
    (h : s.riskAdjustedPricing coverage = .ok price) :
    price = (coverage * quotedRate s.getPricingParams
      s.getSimulationParams.expectedLossRateScaled).tdiv 1000000 := by
  simp only [ActuaryState.riskAdjustedPricing, bind_eq_ok, I128.mul_eq_ok, I128.div_eq_ok,
    I128.add_eq_ok] at h
  obtain ⟨_, ⟨-, rfl⟩, _, ⟨-, -, rfl⟩, _, ⟨-, rfl⟩, _, ⟨-, rfl⟩, _, ⟨-, -, rfl⟩, _, ⟨-, rfl⟩, -, -,
    rfl⟩ := h
  rfl

theorem le_quotedRate {p : PricingParams} (hbase : 10000 ≤ p.baseMultiplierBps) {rate : ℤ}
    (hrate : 0 ≤ rate) : rate ≤ quotedRate p rate := by
  have hadjusted : rate ≤ (rate * p.baseMultiplierBps).tdiv 10000 := by
    rw [Rounding.le_tdiv_iff (by positivity) (by norm_num)]
    exact mul_le_mul_of_nonneg_left (by exact_mod_cast hbase) hrate
  have hnonneg := hrate.trans hadjusted
  refine hadjusted.trans ?_
  rw [quotedRate, Rounding.le_tdiv_iff (by positivity) (by norm_num)]
  exact mul_le_mul_of_nonneg_left (by omega) hnonneg

theorem quotedRate_nonneg (p : PricingParams) {rate : ℤ} (hrate : 0 ≤ rate) :
    0 ≤ quotedRate p rate := by
  have hadjusted : 0 ≤ (rate * p.baseMultiplierBps).tdiv 10000 :=
    Rounding.tdiv_nonneg (by positivity) (by norm_num)
  exact Rounding.tdiv_nonneg (by positivity) (by norm_num)

theorem submitSimulationResults_eq_ok {e : Env} {s s' : ActuaryState} {oracle : Address}
    {volatility paths : ℕ} {rate : ℤ}
    (h : ActuaryState.submitSimulationResults e s oracle volatility rate paths = .ok s') :
    s'.getPricingParams = s.getPricingParams ∧
      s'.getSimulationParams.expectedLossRateScaled = rate := by
  simp only [ActuaryState.submitSimulationResults, bind_eq_ok, pure_eq_ok] at h
  obtain ⟨_, -, _, -, rfl⟩ := h
  exact ⟨rfl, rfl⟩

/-- A simulation of the lowest rate, by an oracle that signs. -/
def lowestRate (s : ActuaryState) : ActuaryState :=
  { s with simParams := some ⟨0, 1, 0, 0, 0⟩ }

theorem submit_lowestRate (s : ActuaryState) :
    ActuaryState.submitSimulationResults ⟨0, [1], 0⟩ s 1 0 1 0 = .ok (lowestRate s) := by
  have hauth : (Env.requireAuth ⟨0, [1], 0⟩ 1 : ActuaryCall Unit) = .ok () := by decide
  have hfair : computeFairPremium 1 = .ok 0 := by decide
  rw [ActuaryState.submitSimulationResults, hauth, ok_bind, hfair, ok_bind]
  rfl

/-- Below a multiplier of one the lowest rate is truncated to none. -/
theorem lowestRate_free {s : ActuaryState} (hs : s.getPricingParams.InRange)
    (hbase : s.getPricingParams.baseMultiplierBps < 10000) :
    (lowestRate s).riskAdjustedPricing 1000000 = .ok 0 := by
  have hparams : (lowestRate s).getPricingParams = s.getPricingParams := rfl
  have hmargin := hs.margin.2
  have hadjusted : (1 * (s.getPricingParams.baseMultiplierBps : ℤ)).tdiv 10000 = 0 := by
    rw [one_mul]
    exact Int.tdiv_eq_zero_of_lt (by positivity) (by exact_mod_cast hbase)
  unfold ActuaryState.riskAdjustedPricing
  rw [hparams]
  simp only [show (lowestRate s).getSimulationParams.expectedLossRateScaled = 1 from rfl]
  rw [I128.mul_of_fits (Fits.of_lt (by positivity) (by omega)), ok_bind,
    I128.div_of_fits (by norm_num) (by rw [hadjusted]; decide), ok_bind, hadjusted,
    I128.add_of_fits (Fits.of_lt (by positivity) (by omega)), ok_bind,
    I128.mul_of_fits (by rw [zero_mul]; decide), ok_bind, zero_mul]
  rfl

/-- Whatever was called before, quotes cover the expected payout, for every simulation that anybody
may submit and every coverage, exactly when the multiplier in force is at least one. -/
theorem covers_payouts_iff (calls : List (Env × Action)) :
    (∀ e oracle volatility rate paths s' coverage price, 0 ≤ rate → 0 ≤ coverage →
      ActuaryState.submitSimulationResults e (run exec deployedActuary calls) oracle volatility rate
        paths = .ok s' →
      s'.riskAdjustedPricing coverage = .ok price → (coverage * rate).tdiv 1000000 ≤ price) ↔
    10000 ≤ (run exec deployedActuary calls).getPricingParams.baseMultiplierBps := by
  constructor
  · intro hcovers
    by_contra hbase
    have hfree := lowestRate_free (inRange_of_run calls) (not_le.mp hbase)
    have hpaid := hcovers _ 1 0 1 0 _ 1000000 0 (by norm_num) (by norm_num)
      (submit_lowestRate _) hfree
    norm_num at hpaid
  · intro hbase e oracle volatility rate paths s' coverage price hrate hcoverage hsubmit hprice
    obtain ⟨hparams, hsim⟩ := submitSimulationResults_eq_ok hsubmit
    rw [riskAdjustedPricing_value hprice, hparams, hsim]
    have hquoted := le_quotedRate hbase hrate
    have hnonneg := hrate.trans hquoted
    rw [Rounding.le_tdiv_iff (by positivity) (by norm_num)]
    exact (Rounding.tdiv_bounds (by positivity) (by norm_num)).2.1.trans
      (mul_le_mul_of_nonneg_left hquoted hcoverage)

/-- A coverage taken out in parts never costs more than the whole, and less by fewer units than
there are parts. -/
theorem price_of_parts {s : ActuaryState} (hrate : 0 ≤ s.getSimulationParams.expectedLossRateScaled)
    {parts : List (ℤ × ℤ)}
    (hparts : ∀ part ∈ parts, 0 ≤ part.1 ∧ s.riskAdjustedPricing part.1 = .ok part.2) {whole : ℤ}
    (hwhole : s.riskAdjustedPricing (parts.map Prod.fst).sum = .ok whole) :
    (parts.map Prod.snd).sum ≤ whole ∧
      whole ≤ (parts.map Prod.snd).sum + (parts.length - 1 : ℕ) := by
  have hquoted := quotedRate_nonneg s.getPricingParams hrate
  have hprices : parts.map Prod.snd = (parts.map (·.1 * quotedRate s.getPricingParams
      s.getSimulationParams.expectedLossRateScaled)).map (·.tdiv 1000000) := by
    rw [List.map_map]
    exact List.map_congr_left fun part hpart => riskAdjustedPricing_value (hparts part hpart).2
  have hnonneg : ∀ x ∈ parts.map (·.1 * quotedRate s.getPricingParams
      s.getSimulationParams.expectedLossRateScaled), 0 ≤ x := by
    intro x hx
    obtain ⟨part, hpart, rfl⟩ := List.mem_map.mp hx
    exact mul_nonneg (hparts part hpart).1 hquoted
  have hsums := Rounding.sum_tdiv_bounds (by norm_num : (0 : ℤ) < 1000000) hnonneg
  rw [riskAdjustedPricing_value hwhole, hprices, ← List.sum_map_mul_right]
  rwa [List.length_map] at hsums

end YieldEngine.Actuary
