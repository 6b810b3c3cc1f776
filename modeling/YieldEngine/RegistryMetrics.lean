import YieldEngine.RegistryLogs
import Mathlib.Algebra.Group.Action.Defs
import Mathlib.Algebra.Order.BigOperators.Group.List
import Mathlib.Algebra.Order.Floor.Semifield
import Mathlib.Data.Rat.Floor

/-! # Metrics of a strategy

`calculate_strategy_metrics` adds the three figures of the records that are kept and divides by
their number.  The sums are words of 32 bits, and nothing bounds what is recorded, so the call
traps where a sum does not fit.  `metrics_average_iff` says that it returns the averages exactly
where the three sums fit, in every state of every run. -/

namespace YieldEngine.Registry

open CheckedArith Transact BoundedLog

structure MetricTotals where
  apy : ℕ
  volatility : ℕ
  sharpe : ℕ

/-- The loop over the records. -/
def addRecords (totals : MetricTotals) : List PerformanceRecord → RegistryCall MetricTotals
  | [] => pure totals
  | record :: rest => do
      let apy ← checkedU 32 ((totals.apy + record.netApy : ℕ) : ℤ)
      let volatility ← checkedU 32 ((totals.volatility + record.volatility : ℕ) : ℤ)
      let sharpe ← checkedU 32 ((totals.sharpe + record.sharpeRatio : ℕ) : ℤ)
      addRecords ⟨apy.toNat, volatility.toNat, sharpe.toNat⟩ rest

/-- `calculate_strategy_metrics`: the net rate, the volatility and the ratio. -/
def calculateStrategyMetrics (s : RegistryStore) (strategyId : ℕ) :
    RegistryCall (ℕ × ℕ × ℕ) := do
  let strategy ← getStrategy s strategyId
  if strategy.performanceHistory = [] then pure (0, 0, 0)
  else do
    let count := strategy.performanceHistory.length
    let totals ← addRecords ⟨0, 0, 0⟩ strategy.performanceHistory
    pure (totals.apy / count, totals.volatility / count, totals.sharpe / count)

/-! ### Averages -/

/-- `average` is the mean of the figures rounded down, and 0 where there are none. -/
structure IsAverage (figures : List ℕ) (average : ℕ) : Prop where
  of_nil : figures = [] → average = 0
  floor : figures ≠ [] → average = ⌊(figures.sum : ℚ) / figures.length⌋₊
  least : figures ≠ [] → ∃ x ∈ figures, x ≤ average
  greatest : figures ≠ [] → ∃ x ∈ figures, average ≤ x

theorem isAverage_nil : IsAverage [] 0 :=
  ⟨fun _ => rfl, fun h => absurd rfl h, fun h => absurd rfl h, fun h => absurd rfl h⟩

theorem isAverage_div {figures : List ℕ} (hne : figures ≠ []) :
    IsAverage figures (figures.sum / figures.length) := by
  have hcount : 0 < figures.length := List.length_pos_of_ne_nil hne
  refine ⟨fun h => absurd h hne, fun _ => ?_, fun _ => ?_, fun _ => ?_⟩
  · exact (Nat.floor_div_eq_div _ _).symm
  · by_contra! hall
    -- all figures above the average would have a larger sum
    have hsum := List.card_nsmul_le_sum figures (figures.sum / figures.length + 1) hall
    have hlt := Nat.lt_mul_div_succ figures.sum hcount
    rw [smul_eq_mul] at hsum
    omega
  · by_contra! hall
    have hpos : 0 < figures.sum / figures.length := by
      obtain ⟨x, hx⟩ := List.exists_mem_of_ne_nil figures hne
      exact Nat.zero_lt_of_lt (hall x hx)
    have hsum := List.sum_le_card_nsmul figures (figures.sum / figures.length - 1)
      fun x hx => Nat.le_sub_one_of_lt (hall x hx)
    have hle := Nat.mul_div_le figures.sum figures.length
    have hlt := Nat.mul_lt_mul_of_pos_left (Nat.sub_one_lt hpos.ne') hcount
    rw [smul_eq_mul] at hsum
    omega

/-! ### The sums -/

/-- The three sums are in their words. -/
structure MetricTotals.InWord (t : MetricTotals) : Prop where
  apy : t.apy < 2 ^ 32
  volatility : t.volatility < 2 ^ 32
  sharpe : t.sharpe < 2 ^ 32

/-- The sums with these records added. -/
def MetricTotals.plus (t : MetricTotals) (records : List PerformanceRecord) : MetricTotals where
  apy := t.apy + (records.map PerformanceRecord.netApy).sum
  volatility := t.volatility + (records.map PerformanceRecord.volatility).sum
  sharpe := t.sharpe + (records.map PerformanceRecord.sharpeRatio).sum

section sums
variable {t : MetricTotals}

theorem plus_cons (t : MetricTotals) (record : PerformanceRecord)
    (records : List PerformanceRecord) :
    t.plus (record :: records) = (t.plus [record]).plus records := by
  simp only [MetricTotals.plus, List.map_cons, List.sum_cons, List.map_nil, List.sum_nil,
    Nat.add_zero, Nat.add_assoc]

/-- Sums only grow. -/
theorem MetricTotals.InWord.of_plus {records : List PerformanceRecord}
    (h : (t.plus records).InWord) : t.InWord :=
  ⟨Nat.lt_of_le_of_lt (Nat.le_add_right _ _) h.apy,
    Nat.lt_of_le_of_lt (Nat.le_add_right _ _) h.volatility,
    Nat.lt_of_le_of_lt (Nat.le_add_right _ _) h.sharpe⟩

theorem checkedWord_of_lt {n : ℕ} (h : n < 2 ^ 32) :
    (checkedU 32 (n : ℤ) : RegistryCall ℤ) = .ok (n : ℤ) :=
  checkedU_eq_ok.mpr ⟨⟨Int.natCast_nonneg n, by exact_mod_cast h⟩, rfl⟩

/-- One round. -/
theorem addRecords_cons {record : PerformanceRecord} (h : (t.plus [record]).InWord)
    (rest : List PerformanceRecord) :
    addRecords t (record :: rest) = addRecords (t.plus [record]) rest := by
  have hone : ∀ f : PerformanceRecord → ℕ, ([record].map f).sum = f record := fun f => rfl
  obtain ⟨hapy, hvolatility, hsharpe⟩ := h
  simp only [MetricTotals.plus, hone] at hapy hvolatility hsharpe ⊢
  rw [addRecords, checkedWord_of_lt hapy, ok_bind, checkedWord_of_lt hvolatility, ok_bind,
    checkedWord_of_lt hsharpe, ok_bind]
  rfl

/-- The loop returns the sums. -/
theorem addRecords_eq (records : List PerformanceRecord) : ∀ {t : MetricTotals},
    (t.plus records).InWord → addRecords t records = .ok (t.plus records) := by
  induction records with
  | nil => exact fun _ => rfl
  | cons record rest ih =>
      intro t h
      rw [plus_cons] at h ⊢
      rw [addRecords_cons h.of_plus]
      exact ih h

/-- A loop that returns has not left the word. -/
theorem inWord_of_addRecords (records : List PerformanceRecord) : ∀ {t t' : MetricTotals},
    t.InWord → addRecords t records = .ok t' → (t.plus records).InWord := by
  induction records with
  | nil => exact fun h _ => h
  | cons record rest ih =>
      intro t t' ht h
      have hnext : (t.plus [record]).InWord := by
        have hround := h
        simp only [addRecords, bind_eq_ok, checkedU_eq_ok] at hround
        obtain ⟨_, ⟨⟨-, hapy⟩, -⟩, _, ⟨⟨-, hvolatility⟩, -⟩, _, ⟨⟨-, hsharpe⟩, -⟩, -⟩ := hround
        exact ⟨by exact_mod_cast hapy, by exact_mod_cast hvolatility, by exact_mod_cast hsharpe⟩
      rw [addRecords_cons hnext] at h
      rw [plus_cons]
      exact ih hnext h

end sums

/-- The three figures are the averages of the records. -/
structure Averages (records : List PerformanceRecord) (metrics : ℕ × ℕ × ℕ) : Prop where
  apy : IsAverage (records.map PerformanceRecord.netApy) metrics.1
  volatility : IsAverage (records.map PerformanceRecord.volatility) metrics.2.1
  sharpe : IsAverage (records.map PerformanceRecord.sharpeRatio) metrics.2.2

/-- The sums of the records are in their words. -/
def SumsInWord (records : List PerformanceRecord) : Prop :=
  (MetricTotals.plus ⟨0, 0, 0⟩ records).InWord

theorem sumsInWord_iff {records : List PerformanceRecord} : SumsInWord records ↔
    (records.map PerformanceRecord.netApy).sum < 2 ^ 32 ∧
      (records.map PerformanceRecord.volatility).sum < 2 ^ 32 ∧
      (records.map PerformanceRecord.sharpeRatio).sum < 2 ^ 32 := by
  unfold SumsInWord MetricTotals.plus
  simp only [Nat.zero_add]
  exact ⟨fun ⟨hapy, hvolatility, hsharpe⟩ => ⟨hapy, hvolatility, hsharpe⟩,
    fun ⟨hapy, hvolatility, hsharpe⟩ => ⟨hapy, hvolatility, hsharpe⟩⟩

/-- The sums of a window fit where every figure is at most a hundredth of the largest word. -/
theorem sumsInWord_of_small {records : List PerformanceRecord}
    (hwindow : records.length ≤ maxPerformanceRecords)
    (hsmall : ∀ record ∈ records, record.netApy ≤ 42949672 ∧ record.volatility ≤ 42949672 ∧
      record.sharpeRatio ≤ 42949672) : SumsInWord records := by
  have hsum : ∀ f : PerformanceRecord → ℕ, (∀ record ∈ records, f record ≤ 42949672) →
      (records.map f).sum < 2 ^ 32 := by
    intro f hf
    have hle := List.sum_le_card_nsmul (records.map f) 42949672 (by simpa using hf)
    have hmul := Nat.mul_le_mul_right 42949672 hwindow
    rw [smul_eq_mul, List.length_map] at hle
    unfold maxPerformanceRecords at hmul
    omega
  rw [sumsInWord_iff]
  exact ⟨hsum _ fun record hrecord => (hsmall record hrecord).1,
    hsum _ fun record hrecord => (hsmall record hrecord).2.1,
    hsum _ fun record hrecord => (hsmall record hrecord).2.2⟩

section metrics
variable {s : RegistryStore} {id : ℕ} {strategy : YieldStrategy}

/-- The metrics are returned, and are averages, exactly when the sums fit. -/
theorem calculateStrategyMetrics_iff (h : getStrategy s id = .ok strategy) :
    (∃ metrics, calculateStrategyMetrics s id = .ok metrics ∧
      Averages strategy.performanceHistory metrics) ↔ SumsInWord strategy.performanceHistory := by
  unfold calculateStrategyMetrics
  rw [h, ok_bind]
  by_cases hnone : strategy.performanceHistory = []
  · rw [if_pos hnone, hnone]
    refine iff_of_true ⟨(0, 0, 0), rfl, isAverage_nil, isAverage_nil, isAverage_nil⟩ ?_
    exact ⟨by decide, by decide, by decide⟩
  · rw [if_neg hnone]
    have haverage : ∀ f : PerformanceRecord → ℕ, IsAverage (strategy.performanceHistory.map f)
        ((0 + (strategy.performanceHistory.map f).sum) / strategy.performanceHistory.length) := by
      intro f
      have hdiv := isAverage_div (List.map_eq_nil_iff.not.mpr hnone :
        strategy.performanceHistory.map f ≠ [])
      rwa [List.length_map, ← Nat.zero_add (List.sum _)] at hdiv
    constructor
    · rintro ⟨metrics, hcall, -⟩
      obtain ⟨totals, htotals, -⟩ := bind_eq_ok.mp hcall
      exact inWord_of_addRecords _ ⟨by decide, by decide, by decide⟩ htotals
    · intro hsums
      dsimp only
      rw [addRecords_eq _ hsums, ok_bind]
      exact ⟨_, rfl, haverage _, haverage _, haverage _⟩

end metrics

/-- In every state of every run, the metrics of a stored strategy are the averages of its newest 100
records exactly when the sums of these fit. -/
theorem metrics_average_iff (admin : Address) (calls : List (Address ⊕ Invocation)) (id : ℕ)
    (hstored : (getStrategy (registryReached admin calls) id).isOk) :
    (∃ metrics, calculateStrategyMetrics (registryReached admin calls) id = .ok metrics ∧
      Averages ((recordLog admin id calls).rtake maxPerformanceRecords) metrics) ↔
    SumsInWord ((recordLog admin id calls).rtake maxPerformanceRecords) := by
  obtain ⟨strategy, hstrategy⟩ := returns_of_isOk hstored
  rw [← run_performance_of_stored admin calls hstrategy]
  exact calculateStrategyMetrics_iff hstrategy

/-- A strategy, and records of it with these rates. -/
def recorded (rates : List ℕ) : List (Address ⊕ Invocation) :=
  .inr ⟨⟨9, [], 0⟩, .registerStrategy 5 "s" "d" 2 1 10 ⟨0, 0, 0, 0⟩ ⟨[], [], 0, 0, 0⟩⟩ ::
    rates.map fun rate => .inr ⟨⟨9, [], 1⟩, .recordPerformance 1 100 rate 20 30⟩

theorem metrics_average_iff_recorded : ∃ metrics,
    calculateStrategyMetrics (registryReached 7 (recorded [500, 801])) 1 = .ok metrics ∧
      Averages ((recordLog 7 1 (recorded [500, 801])).rtake maxPerformanceRecords) metrics :=
  (metrics_average_iff 7 (recorded [500, 801]) 1 (by decide)).mpr (sumsInWord_iff.mpr (by decide))

/-- Two of the largest rates. -/
theorem metrics_trap : ¬ ∀ (admin : Address) (calls : List (Address ⊕ Invocation)) (id : ℕ),
    (getStrategy (registryReached admin calls) id).isOk →
    ∃ metrics, calculateStrategyMetrics (registryReached admin calls) id = .ok metrics ∧
      Averages ((recordLog admin id calls).rtake maxPerformanceRecords) metrics := by
  intro h
  obtain ⟨metrics, hmetrics, -⟩ := h 7 (recorded [2 ^ 32 - 1, 2 ^ 32 - 1]) 1 (by decide)
  have htrap : calculateStrategyMetrics
      (registryReached 7 (recorded [2 ^ 32 - 1, 2 ^ 32 - 1])) 1 = .error .overflow := by decide
  rw [htrap] at hmetrics
  cases hmetrics

end YieldEngine.Registry
