import YieldEngine.RebalanceFeeds
import YieldEngine.RebalanceRuns

/-! # What the analysis of a strategy finds

`opportunities` is the list the analysis of a strategy is meant to return: a proposal for each
pair of allocations of which the first lags behind its target and the second is better
(`Qualifies`), in the order of the allocations.

The engine takes the threshold off the target in unsigned arithmetic, and a threshold above the
target of any allocation stops the call (`Overflows`).  On a running engine the analysis returns
the opportunities of a stored strategy exactly when no target is below the threshold
(`analyze_meets_spec_iff`). -/

namespace YieldEngine.Rebalance

open CheckedArith

section spec
variable (e : Env) (s : RebalanceStore) (strategy : RebalanceStrategy)

/-- The rate of an allocation that the analysis works with. -/
def resolved (allocation : PoolAllocation) : ℕ :=
  resolveApy e s allocation.poolId allocation.currentApy

/-- It pays to move the allocation `i` into the pool of `j`. -/
def Qualifies (i j : PoolAllocation) : Prop :=
  resolved e s i + strategy.minApyThreshold < i.targetApy ∧
    (j.poolId ≠ i.poolId ∧ s.isFeedExcluded j.poolId = false) ∧
    (resolved e s i < resolved e s j ∧
      resolved e s i + strategy.minApyThreshold ≤ resolved e s j) ∧
    j.impermanentLossRisk ≤ strategy.maxIlRisk

instance (i j : PoolAllocation) : Decidable (Qualifies e s strategy i j) :=
  inferInstanceAs (Decidable (_ ∧ _ ∧ _ ∧ _))

/-- The proposal to move the allocation `i` into the pool of `j`. -/
def moveProposal (i j : PoolAllocation) : RebalanceProposal where
  fromPool := i.poolId
  toPool := j.poolId
  amountA := i.allocationPercent
  amountB := i.allocationPercent
  expectedApyImprovement := resolved e s j - resolved e s i
  estimatedGasCost := estimateGasCost
  timestamp := e.timestamp
  minOutput := 0

/-- The proposals of the qualifying pairs, in order. -/
def opportunities : List RebalanceProposal :=
  strategy.allocations.flatMap fun i =>
    (strategy.allocations.filter fun j => Qualifies e s strategy i j).map (moveProposal e s i)

/-- The analysis of a stored strategy returns its opportunities. -/
def MeetsSpec (strategyId : ℕ) : Prop :=
  ∀ strategy, s.getStrategy strategyId = .ok strategy →
    analyzeRebalanceOpportunities e s strategyId = .ok (opportunities e s strategy)

end spec

section analysis
variable {e : Env} {s : RebalanceStore} {strategy : RebalanceStrategy}

/-- A candidate is better when the pair qualifies, once the allocation lags behind. -/
theorem betterPool_map {i : PoolAllocation}
    (hlags : resolved e s i + strategy.minApyThreshold < i.targetApy) (j : PoolAllocation) :
    (betterPool e s strategy i (resolved e s i) j).map (proposalTo e i (resolved e s i)) =
      if Qualifies e s strategy i j then some (moveProposal e s i j) else none := by
  have hbeats : Qualifies e s strategy i j ↔ s.isFeedExcluded j.poolId = false ∧
      Beats e s strategy i (resolved e s i) j := by
    unfold Qualifies Beats
    change _ ↔ _ ∧ _ ∧ resolved e s i < resolved e s j ∧
      strategy.minApyThreshold ≤ resolved e s j - resolved e s i ∧ _
    constructor
    · rintro ⟨-, ⟨hne, hincluded⟩, ⟨hlt, hgap⟩, hrisk⟩
      exact ⟨hincluded, hne, hlt, by omega, hrisk⟩
    · rintro ⟨hincluded, hne, hlt, hgap, hrisk⟩
      exact ⟨hlags, ⟨hne, hincluded⟩, ⟨hlt, by omega⟩, hrisk⟩
  unfold betterPool
  by_cases hexcluded : s.isFeedExcluded j.poolId = true
  · rw [if_pos hexcluded, if_neg]
    · rfl
    · rw [hbeats, hexcluded]
      exact fun h => absurd h.1 (by decide)
  · have hincluded : s.isFeedExcluded j.poolId = false := by simpa using hexcluded
    rw [if_neg hexcluded]
    by_cases hq : Qualifies e s strategy i j
    · rw [if_pos (hbeats.mp hq).2, if_pos hq]
      rfl
    · rw [if_neg fun hb => hq (hbeats.mpr ⟨hincluded, hb⟩), if_neg hq]
      rfl

/-- One round proposes the qualifying pairs of its allocation. -/
theorem proposed_eq_opportunities (i : PoolAllocation) :
    proposed e s strategy i (resolved e s i) =
      (strategy.allocations.filter fun j => Qualifies e s strategy i j).map
        (moveProposal e s i) := by
  unfold proposed
  split_ifs with hbound
  · have hlags : resolved e s i + strategy.minApyThreshold < i.targetApy := by omega
    rw [findBetterPools, List.map_filterMap]
    induction strategy.allocations with
    | nil => rfl
    | cons j rest ih =>
        rw [List.filterMap_cons, betterPool_map hlags, List.filter_cons]
        by_cases hq : Qualifies e s strategy i j
        · simp [hq, ih]
        · simp [hq, ih]
  · have hnone : strategy.allocations.filter (fun j => Qualifies e s strategy i j) = [] := by
      rw [List.filter_eq_nil_iff]
      intro j _ hq
      have hlags := (of_decide_eq_true hq).1
      omega
    rw [hnone]
    rfl

theorem analyzeAllocation_round (i : PoolAllocation) :
    analyzeAllocation e s strategy i =
      if FitsU 32 ((i.targetApy : ℤ) - strategy.minApyThreshold) then
        .ok (proposed e s strategy i (resolved e s i))
      else .error .overflow := by
  rw [analyzeAllocation, proposed]
  unfold checkedU
  by_cases hfits : FitsU 32 ((i.targetApy : ℤ) - strategy.minApyThreshold)
  · rw [if_pos hfits, if_pos hfits]
    change (if _ then _ else _) = Except.ok (if _ then _ else _)
    unfold resolved
    split_ifs <;> rfl
  · rw [if_neg hfits, if_neg hfits]
    rfl

/-- The loop stops at the first target below the threshold, or joins what its rounds find. -/
theorem collect_analyzeAllocation (e : Env) (s : RebalanceStore) (strategy : RebalanceStrategy) :
    (Overflows strategy ∧
      collect (analyzeAllocation e s strategy) strategy.allocations = .error .overflow) ∨
    (¬ Overflows strategy ∧
      collect (analyzeAllocation e s strategy) strategy.allocations =
        .ok (opportunities e s strategy)) := by
  by_cases hoverflow : Overflows strategy
  · refine .inl ⟨hoverflow, collect_fault (fun i _ => ?_) ?_⟩
    · rw [analyzeAllocation_round]
      split_ifs
      · exact .inl ⟨_, rfl⟩
      · exact .inr rfl
    · obtain ⟨i, hi, hwide⟩ := hoverflow
      exact ⟨i, hi, (analyzeAllocation_round i).trans (if_neg hwide)⟩
  · refine .inr ⟨hoverflow, collect_ok fun i hi => ?_⟩
    have hfits : FitsU 32 ((i.targetApy : ℤ) - strategy.minApyThreshold) := by
      by_contra hwide
      exact hoverflow ⟨i, hi, hwide⟩
    rw [analyzeAllocation_round, if_pos hfits, proposed_eq_opportunities]

/-- With 32-bit targets, the overflow is a threshold above a target. -/
theorem overflows_iff (htargets : ∀ i ∈ strategy.allocations, i.targetApy ≤ u32Max) :
    Overflows strategy ↔ ∃ i ∈ strategy.allocations, i.targetApy < strategy.minApyThreshold := by
  unfold Overflows
  constructor
  · rintro ⟨i, hi, hwide⟩
    have htarget := htargets i hi
    refine ⟨i, hi, ?_⟩
    by_contra hle
    exact hwide ⟨by omega, by unfold u32Max at htarget; omega⟩
  · rintro ⟨i, hi, hlt⟩
    exact ⟨i, hi, fun hfits => by have hnonneg := hfits.1; omega⟩

/-- On a running engine, the analysis of a stored strategy returns its opportunities exactly
when no target of the strategy is below its threshold. -/
theorem analyze_meets_spec_iff {strategyId : ℕ} (hrunning : s.isPaused = false)
    (hstored : s.getStrategy strategyId = .ok strategy)
    (htargets : ∀ i ∈ strategy.allocations, i.targetApy ≤ u32Max) :
    MeetsSpec e s strategyId ↔
      ∀ i ∈ strategy.allocations, strategy.minApyThreshold ≤ i.targetApy := by
  have hguard : s.requireNotPaused = .ok () := RebalanceStore.requireNotPaused_eq_ok.mpr hrunning
  have hanalyze : analyzeRebalanceOpportunities e s strategyId =
      collect (analyzeAllocation e s strategy) strategy.allocations := by
    rw [analyzeRebalanceOpportunities, hguard, hstored]
    rfl
  have hspec : MeetsSpec e s strategyId ↔ ¬ Overflows strategy := by
    unfold MeetsSpec
    rw [hanalyze, hstored]
    rcases collect_analyzeAllocation e s strategy with
      ⟨hoverflow, hcollect⟩ | ⟨hfits, hcollect⟩
    · rw [hcollect]
      refine iff_of_false (fun h => ?_) (not_not_intro hoverflow)
      cases h strategy rfl
    · rw [hcollect]
      refine iff_of_true (fun other hother => ?_) hfits
      obtain rfl := Except.ok.inj hother
      rfl
  rw [hspec, overflows_iff htargets]
  push Not
  rfl

end analysis

/-- What the admin of a new engine creates: a strategy over the pools 1 and 2, both with the
target 1000. -/
def createHalves (minApyThreshold : ℕ) : RebalanceCall (RebalanceStore × ℕ) :=
  createStrategy (initialRebalance 7) 7 "halves" 1 minApyThreshold 500 0
    [halfIn 1 300, halfIn 2 900]

/-- With a threshold below the target, the move from pool 1 to pool 2 is found. -/
theorem analyze_meets_spec_iff_halves :
    ∃ s, createHalves 100 = .ok (s, 1) ∧ MeetsSpec ⟨9, [], 7⟩ s 1 := by
  refine ⟨_, rfl, (analyze_meets_spec_iff rfl rfl ?_).mpr ?_⟩
  · decide
  · decide

/-- With a threshold above the target, the strategy is accepted and its analysis traps. -/
theorem analysis_traps :
    ∃ s, createHalves 1001 = .ok (s, 1) ∧ s.isPaused = false ∧
      analyzeRebalanceOpportunities ⟨9, [], 7⟩ s 1 = .error .overflow ∧
      ¬ MeetsSpec ⟨9, [], 7⟩ s 1 := by
  refine ⟨_, rfl, rfl, rfl, fun h => ?_⟩
  cases h _ rfl

end YieldEngine.Rebalance
