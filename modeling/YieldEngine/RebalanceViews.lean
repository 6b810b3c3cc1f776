import YieldEngine.RebalancePools

/-! # One rule for three breakers

The engine has three read-only breakers: one over the whole history, one for a pool, one for a
strategy.  Each scans the history backwards in a way of its own.  All three realise one rule,
`FailedRow`: among the entries the breaker is about, the newest `threshold` exist and have all
failed (`breaker_views`). -/

namespace YieldEngine.Rebalance

open CheckedArith BoundedLog

/-- The entries that touch one of the pools. -/
def touchingAny (pools : List Address) (entries : List RebalanceHistory) : List RebalanceHistory :=
  entries.filter fun entry => ∃ poolId ∈ pools, entry.Touches poolId

/-- The pools of a strategy. -/
def RebalanceStrategy.pools (strategy : RebalanceStrategy) : List Address :=
  strategy.allocations.map PoolAllocation.poolId

/-! ### Rows of failures -/

section rows
variable {n : ℕ} {entries : List RebalanceHistory} {entry : RebalanceHistory}

theorem failedRow_zero : FailedRow 0 entries := by
  refine ⟨Nat.zero_le _, fun e he => ?_⟩
  rw [List.rtake_zero] at he
  cases he

theorem not_failedRow_nil (hn : 0 < n) : ¬ FailedRow n [] := fun h => absurd h.1 hn.not_ge

/-- A row ends in the newest entry. -/
theorem failedRow_concat :
    FailedRow (n + 1) (entries ++ [entry]) ↔ entry.success = false ∧ FailedRow n entries := by
  have hrow : (entries ++ [entry]).rtake (n + 1) = entries.rtake n ++ [entry] :=
    List.rtake_concat_succ _ _ _
  unfold FailedRow
  rw [hrow, List.length_append, List.length_singleton, Nat.add_le_add_iff_right]
  constructor
  · rintro ⟨hlength, hfailed⟩
    exact ⟨hfailed entry (by simp), hlength, fun e he => hfailed e (List.mem_append_left _ he)⟩
  · rintro ⟨hlast, hlength, hfailed⟩
    refine ⟨hlength, fun e he => ?_⟩
    rcases List.mem_append.mp he with he | he
    · exact hfailed e he
    · rw [List.mem_singleton.mp he]
      exact hlast

end rows

/-! ### The scan of a strategy -/

section scan
variable {pools : List Address} {entry : RebalanceHistory} {entries : List RebalanceHistory}

theorem touchingAny_concat_of_touches (h : ∃ poolId ∈ pools, entry.Touches poolId) :
    touchingAny pools (entries ++ [entry]) = touchingAny pools entries ++ [entry] := by
  have hkept : decide (∃ poolId ∈ pools, entry.Touches poolId) = true := decide_eq_true h
  simp only [touchingAny, List.filter_append, List.filter_cons, hkept, if_true, List.filter_nil]

theorem touchingAny_concat_of_not (h : ¬ ∃ poolId ∈ pools, entry.Touches poolId) :
    touchingAny pools (entries ++ [entry]) = touchingAny pools entries := by
  have hdropped : decide (∃ poolId ∈ pools, entry.Touches poolId) = false := decide_eq_false h
  simp only [touchingAny, List.filter_append, List.filter_cons, hdropped, Bool.false_eq_true,
    if_false, List.filter_nil, List.append_nil]

/-- The loop looks for what is missing to a row among the entries not read yet. -/
theorem strategyBreakerLoop_eq (pools : List Address) {threshold : ℕ} :
    ∀ (unread : List RebalanceHistory) (count : ℕ), count < threshold →
      strategyBreakerLoop pools threshold unread count =
        decide (FailedRow (threshold - count) (touchingAny pools unread.reverse)) := by
  intro unread
  induction unread with
  | nil =>
      intro count hcount
      exact (decide_eq_false (not_failedRow_nil (by omega))).symm
  | cons entry older ih =>
      intro count hcount
      obtain ⟨missing, hmissing⟩ : ∃ missing, threshold - count = missing + 1 :=
        ⟨threshold - count - 1, by omega⟩
      rw [strategyBreakerLoop, List.reverse_cons]
      split_ifs with htouches hsuccess hfull
      · rw [touchingAny_concat_of_touches htouches, hmissing]
        symm
        apply decide_eq_false
        rw [failedRow_concat, hsuccess]
        exact fun h => Bool.noConfusion h.1
      · rw [touchingAny_concat_of_touches htouches, hmissing]
        symm
        apply decide_eq_true
        obtain rfl : missing = 0 := by omega
        exact failedRow_concat.mpr ⟨eq_false_of_ne_true hsuccess, failedRow_zero⟩
      · have hrest : threshold - (count + 1) = missing := by omega
        rw [ih (count + 1) (by omega), touchingAny_concat_of_touches htouches, hmissing, hrest,
          decide_eq_decide, failedRow_concat]
        exact (and_iff_right (eq_false_of_ne_true hsuccess)).symm
      · rw [ih count hcount, touchingAny_concat_of_not htouches]

/-- For a strategy in one pool, the entries of its pools are those of the pool. -/
theorem touchingAny_of_only {strategy : RebalanceStrategy} {poolId : Address}
    (hne : strategy.allocations ≠ []) (honly : ∀ a ∈ strategy.allocations, a.poolId = poolId) :
    touchingAny strategy.pools entries = touching poolId entries := by
  have hpools : ∀ x, x ∈ strategy.pools ↔ x = poolId := by
    intro x
    obtain ⟨a, ha⟩ := List.exists_mem_of_ne_nil _ hne
    constructor
    · intro hx
      obtain ⟨b, hb, rfl⟩ := List.mem_map.mp hx
      exact honly b hb
    · rintro rfl
      exact List.mem_map.mpr ⟨a, ha, honly a ha⟩
  unfold touchingAny touching
  simp only [hpools, exists_eq_left]

end scan

/-! ### The three views -/

/-- The view answers, and says whether `P`. -/
def Reports (view : RebalanceCall Bool) (P : Prop) : Prop := ∃ b, view = .ok b ∧ (b = true ↔ P)

section views
variable {s : RebalanceStore} {history : List RebalanceHistory}
  {strategies : SortedMap ℕ RebalanceStrategy}

theorem isEmergencyStopTriggered_reports (hhistory : s.history = some history) :
    Reports (isEmergencyStopTriggered s) (FailedRow emergencyStopWindow history) := by
  have hread : s.getHistory emergencyStopWindow = .ok (history.rtake emergencyStopWindow) :=
    RebalanceStore.getHistory_eq hhistory _
  have hlength := length_rtake emergencyStopWindow history
  by_cases hfew : history.length < emergencyStopWindow
  · have hshort : (history.rtake emergencyStopWindow).length < emergencyStopWindow := by omega
    refine ⟨false, ?_, iff_of_false Bool.noConfusion fun h => absurd h.1 hfew.not_ge⟩
    rw [isEmergencyStopTriggered, hread]
    exact if_pos hshort
  · have hlong : emergencyStopWindow ≤ history.length := not_lt.mp hfew
    have hfull : (history.rtake emergencyStopWindow).length = 3 := by
      unfold emergencyStopWindow at *
      omega
    obtain ⟨third, second, first, hrow⟩ := List.length_eq_three.mp hfull
    refine ⟨breakerTrips first.success second.success third.success, ?_, ?_⟩
    · rw [isEmergencyStopTriggered, hread, hrow]
      rfl
    · unfold FailedRow breakerTrips
      rw [hrow]
      simp only [Bool.and_eq_true, Bool.not_eq_true', hlong, true_and, List.forall_mem_cons,
        List.not_mem_nil, false_imp_iff, implies_true, and_true]
      tauto

theorem isPoolEmergencyStopTriggered_reports (hhistory : s.history = some history)
    (poolId : Address) : Reports (isPoolEmergencyStopTriggered s poolId)
      (FailedRow (s.getPoolBreakerThreshold poolId) (touching poolId history)) :=
  ⟨_, isPoolEmergencyStopTriggered_eq hhistory poolId, decide_eq_true_iff⟩

/-- What a strategy's breaker reports. -/
theorem isStrategyBreakerTripped_reports (hhistory : s.history = some history)
    (hstrategies : s.strategies = some strategies) {strategyId : ℕ}
    (hthreshold : 1 ≤ s.getStrategyBreakerThreshold strategyId) :
    Reports (isStrategyBreakerTripped s strategyId) (∃ strategy,
      strategies.get strategyId = some strategy ∧
        FailedRow (s.getStrategyBreakerThreshold strategyId)
          (touchingAny strategy.pools history)) := by
  have hread : s.getStrategiesMap = .ok strategies := orRaise_eq_ok.mpr hstrategies
  unfold isStrategyBreakerTripped
  rw [hhistory]
  cases hstrategy : strategies.get strategyId with
  | none =>
      refine ⟨false, bind_eq_ok.mpr ⟨strategies, hread, ?_⟩, iff_of_false Bool.noConfusion ?_⟩
      · rw [hstrategy]
        rfl
      · rintro ⟨_, hfound, -⟩
        cases hfound
  | some strategy =>
      have hscan := strategyBreakerLoop_eq strategy.pools history.reverse 0 hthreshold
      rw [List.reverse_reverse, Nat.sub_zero] at hscan
      refine ⟨_, bind_eq_ok.mpr ⟨strategies, hread, ?_⟩,
        (decide_eq_true_iff (p := FailedRow (s.getStrategyBreakerThreshold strategyId)
          (touchingAny strategy.pools history))).trans ?_⟩
      · rw [hstrategy]
        exact congrArg Except.ok hscan
      · constructor
        · intro hrow
          exact ⟨strategy, rfl, hrow⟩
        · rintro ⟨_, hfound, hrow⟩
          obtain rfl := Option.some.inj hfound
          exact hrow

/-- The pool of a strategy that has no other. -/
theorem breakers_agree (hhistory : s.history = some history)
    (hstrategies : s.strategies = some strategies) {strategyId : ℕ} {strategy : RebalanceStrategy}
    {poolId : Address} (hstored : strategies.get strategyId = some strategy)
    (hne : strategy.allocations ≠ []) (honly : ∀ a ∈ strategy.allocations, a.poolId = poolId)
    (hsame : s.getPoolBreakerThreshold poolId = s.getStrategyBreakerThreshold strategyId)
    (hthreshold : 1 ≤ s.getStrategyBreakerThreshold strategyId) :
    isPoolEmergencyStopTriggered s poolId = isStrategyBreakerTripped s strategyId := by
  obtain ⟨b, hb, hpool⟩ := isPoolEmergencyStopTriggered_reports hhistory poolId
  obtain ⟨b', hb', hstrategy⟩ := isStrategyBreakerTripped_reports hhistory hstrategies hthreshold
  rw [hb, hb']
  apply congrArg Except.ok
  rw [Bool.eq_iff_iff, hpool, hstrategy, hsame]
  constructor
  · intro hrow
    rw [← touchingAny_of_only hne honly] at hrow
    exact ⟨strategy, hstored, hrow⟩
  · rintro ⟨_, hfound, hrow⟩
    obtain rfl := Option.some.inj (hstored.symm.trans hfound)
    rwa [touchingAny_of_only hne honly] at hrow

end views

/-- What the three views report, for every pool and every strategy with a positive threshold. -/
structure BreakerViews (s : RebalanceStore) (history : List RebalanceHistory)
    (strategies : SortedMap ℕ RebalanceStrategy) : Prop where
  pool : ∀ poolId, 1 ≤ s.getPoolBreakerThreshold poolId →
    Reports (isPoolEmergencyStopTriggered s poolId)
      (FailedRow (s.getPoolBreakerThreshold poolId) (touching poolId history))
  strategy : ∀ strategyId, 1 ≤ s.getStrategyBreakerThreshold strategyId →
    Reports (isStrategyBreakerTripped s strategyId) (∃ strategy,
      strategies.get strategyId = some strategy ∧
        FailedRow (s.getStrategyBreakerThreshold strategyId) (touchingAny strategy.pools history))
  engine : Reports (isEmergencyStopTriggered s) (FailedRow 3 history)
  agree : ∀ strategyId strategy poolId, strategies.get strategyId = some strategy →
    strategy.allocations ≠ [] → (∀ a ∈ strategy.allocations, a.poolId = poolId) →
    s.getPoolBreakerThreshold poolId = s.getStrategyBreakerThreshold strategyId →
    1 ≤ s.getStrategyBreakerThreshold strategyId →
    isPoolEmergencyStopTriggered s poolId = isStrategyBreakerTripped s strategyId

/-- On an initialised engine the breakers follow one rule. -/
theorem breaker_views {s : RebalanceStore} {history : List RebalanceHistory}
    {strategies : SortedMap ℕ RebalanceStrategy} (hhistory : s.history = some history)
    (hstrategies : s.strategies = some strategies) : BreakerViews s history strategies where
  pool := fun poolId _ => isPoolEmergencyStopTriggered_reports hhistory poolId
  strategy := fun _ hthreshold => isStrategyBreakerTripped_reports hhistory hstrategies hthreshold
  engine := isEmergencyStopTriggered_reports hhistory
  agree := fun _ _ _ hstored hne honly hsame hthreshold =>
    breakers_agree hhistory hstrategies hstored hne honly hsame hthreshold

/-- An entry for a move from pool 1 to pool `toPool`. -/
def resultOf (toPool : Address) (success : Bool) : RebalanceHistory :=
  ⟨5, 1, toPool, 10, 0, 0, success⟩

/-- The strategy 1 holds pool 2 alone, of which three moves failed, and one of pool 3 succeeded
in between. -/
def failingEngine : RebalanceStore :=
  { initialRebalance 7 with
    history := some [resultOf 2 false, resultOf 2 false, resultOf 3 true, resultOf 2 false]
    strategies := some (SortedMap.empty.set 1
      ⟨1, "single", 1, 0, 0, 0, [⟨2, 1, 2, 10000, 0, 0, 0⟩]⟩) }

theorem breaker_views_failingEngine :
    isPoolEmergencyStopTriggered failingEngine 2 = .ok true ∧
      isStrategyBreakerTripped failingEngine 1 = .ok true ∧
      isEmergencyStopTriggered failingEngine = .ok false ∧
      ∃ history strategies, BreakerViews failingEngine history strategies :=
  ⟨by decide, by decide, by decide, _, _, breaker_views rfl rfl⟩

end YieldEngine.Rebalance
