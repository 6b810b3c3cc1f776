import YieldEngine.Pages
import YieldEngine.RebalancePools
import YieldEngine.RebalanceStrategies
import YieldEngine.RegistryCalls

/-! # Paginated reads of the engine and of the registry

Every list that the contracts keep is read page by page through one loop, in each entrypoint on
the list of its own.  The loop adds the limit to the offset before it compares the sum with the
length, so a page that begins inside the list and whose end passes the largest word is not
returned: the addition traps.  `paged_reads` says of the two reads of the rebalance engine where
this is. -/

namespace YieldEngine

open CheckedArith Pages

/-- The loop on a stored vector, where `Vec::get(i).unwrap()` reads an item. -/
def paginateVec {ε α : Type} (items : List α) (limit offset : ℕ) : Call ε (List α) :=
  paginate (.panic "called `Option::unwrap()` on a `None` value") items limit offset

theorem paged_read {ε α σ : Type} {read : Call ε σ} {x : σ} (h : read = .ok x)
    (items : σ → List α) : Paged (fun limit offset => do
      let x ← read
      paginateVec (items x) limit offset) (items x) := by
  have hread : ∀ limit offset, (do
      let x ← read
      paginateVec (items x) limit offset) = paginateVec (items x) limit offset := by
    intro limit offset
    rw [h]
    rfl
  exact paged_of_paginate hread

namespace Rebalance
variable (s : RebalanceStore)

/-- `get_strategies`: in the order of their ids. -/
def getStrategies : RebalanceCall (List RebalanceStrategy) :=
  SortedMap.values <$> s.getStrategiesMap

/-- `get_strategies_paginated`. -/
def getStrategiesPaginated (limit offset : ℕ) : RebalanceCall (List RebalanceStrategy) := do
  let all ← getStrategies s
  paginateVec all limit offset

/-- `get_history_paginated`: unlike `get_history`, oldest first. -/
def getHistoryPaginated (limit offset : ℕ) : RebalanceCall (List RebalanceHistory) := do
  let history ← s.storedHistory
  paginateVec history limit offset

theorem history_paged {history : List RebalanceHistory} (h : s.history = some history) :
    Paged (getHistoryPaginated s) history := by
  have hread : s.storedHistory = .ok history := orRaise_eq_ok.mpr h
  exact paged_read hread id

theorem paged_reads : (∀ history, s.history = some history →
      Paged (getHistoryPaginated s) history) ∧
    ∀ strategies, s.strategies = some strategies →
      Paged (getStrategiesPaginated s) strategies.values := by
  constructor
  · exact fun history h => history_paged s h
  · intro strategies h
    have hread : getStrategies s = .ok strategies.values :=
      map_eq_ok.mpr ⟨strategies, orRaise_eq_ok.mpr h, rfl⟩
    exact paged_read hread id

/-- In every state reached after `initialize`, the pages of the history are all the entries: the
history is cut long before the end of a page of it could pass the largest word. -/
theorem history_by_pages (admin : Address) (ledger : Ledger)
    (calls : List (Address ⊕ RebalanceEvent)) {limit n : ℕ} (hlimit : limit ≤ 2 ^ 31)
    (henough : historyLimit ≤ n * limit) :
    walk (getHistoryPaginated (reachedBy admin ledger calls).store limit)
        ((List.range n).map (· * limit)) = .ok (reachedBy admin ledger calls).entries := by
  obtain ⟨history, hhistory, hlength⟩ := trimmed_reachedBy admin ledger calls
  have hshort : history.length + limit ≤ 2 ^ 32 := by
    unfold historyLimit at hlength
    omega
  rw [World.entries, hhistory, Option.getD_some]
  exact ((history_paged _ hhistory).walk_iff limit n (hlength.trans henough)).mpr
    fun i _ => reachable_of_short hshort _

/-- An engine with two strategies. -/
def twoStrategies : RebalanceStore :=
  (startedRun 7 (fun _ _ => 0) [
    .call ⟨⟨9, [7], 5⟩, fun _ => none, .createStrategy 7 "first" 1 0 0 0
      [⟨1, 1, 2, 10000, 0, 0, 0⟩]⟩,
    .call ⟨⟨9, [7], 6⟩, fun _ => none, .createStrategy 7 "second" 3 0 0 0
      [⟨1, 1, 2, 10000, 0, 0, 0⟩]⟩]).store

/-- Asked for everything from the second strategy on, the read traps. -/
theorem rest_not_returned : ∃ strategies, twoStrategies.strategies = some strategies ∧
    (page strategies.values (2 ^ 32 - 1) 1).map RebalanceStrategy.name = ["second"] ∧
    getStrategiesPaginated twoStrategies (2 ^ 32 - 1) 1 = .error .overflow :=
  ⟨_, rfl, by decide, by decide⟩

end Rebalance

namespace Registry
variable (s : RegistryStore)

/-- `get_strategies_paginated`. -/
def getStrategiesPaginated (limit offset : ℕ) : RegistryCall (List YieldStrategy) := do
  let all ← getStrategies s
  paginateVec all limit offset

/-- `get_active_strategies_paginated`. -/
def getActiveStrategiesPaginated (limit offset : ℕ) : RegistryCall (List YieldStrategy) := do
  let active ← getActiveStrategies s
  paginateVec active limit offset

/-- `get_strategies_by_risk_paginated`. -/
def getStrategiesByRiskPaginated (riskLevel limit offset : ℕ) :
    RegistryCall (List YieldStrategy) := do
  let filtered ← getStrategiesByRisk s riskLevel
  paginateVec filtered limit offset

/-- `get_performance_history_page`. -/
def getPerformanceHistoryPage (strategyId limit offset : ℕ) :
    RegistryCall (List PerformanceRecord) := do
  let strategy ← getStrategy s strategyId
  paginateVec strategy.performanceHistory limit offset

/-- The pages of the registry are pages of what the unpaginated read returns. -/
theorem registry_paged_reads :
    (∀ all, getStrategies s = .ok all → Paged (getStrategiesPaginated s) all) ∧
    (∀ active, getActiveStrategies s = .ok active →
      Paged (getActiveStrategiesPaginated s) active) ∧
    (∀ riskLevel filtered, getStrategiesByRisk s riskLevel = .ok filtered →
      Paged (getStrategiesByRiskPaginated s riskLevel) filtered) ∧
    ∀ strategyId strategy, getStrategy s strategyId = .ok strategy →
      Paged (getPerformanceHistoryPage s strategyId) strategy.performanceHistory := by
  refine ⟨fun all h => ?_, fun active h => ?_, fun riskLevel filtered h => ?_,
    fun strategyId strategy h => ?_⟩
  · exact paged_read h id
  · exact paged_read h id
  · exact paged_read h id
  · exact paged_read h YieldStrategy.performanceHistory

end Registry
end YieldEngine
