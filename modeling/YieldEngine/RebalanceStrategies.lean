import YieldEngine.IssuedNumbers
import YieldEngine.RebalanceWrites

/-! # The stored strategies

The engine numbers its strategies.  `create_strategy` advances the counter before it has checked
the risk level, and both strategy entrypoints check the allocations before they read the map; a
call that fails in between is rolled back.  `strategy_store` says what this comes to in every
state after `initialize`: every strategy is stored under its own number and is well formed, a new
strategy gets a number never used before, and a failed call changes nothing. -/

namespace YieldEngine.Rebalance

open CheckedArith IssuedNumbers Transact

/-- The allocations of a strategy: some, none above the whole, together the whole. -/
def WellAllocated (allocations : List PoolAllocation) : Prop :=
  allocations ≠ [] ∧ (∀ a ∈ allocations, a.allocationPercent ≤ 10000) ∧
    (allocations.map PoolAllocation.allocationPercent).sum = 10000

/-- What `create_strategy` and `update_strategy` store under an id. -/
structure WellFormed (id : ℕ) (strategy : RebalanceStrategy) : Prop where
  own_id : strategy.strategyId = id
  risk : 1 ≤ strategy.riskLevel ∧ strategy.riskLevel ≤ 3
  allocations : WellAllocated strategy.allocations

/-- The loop of `validate_allocations` from a partial total. -/
theorem validate_loop_eq_ok (allocations : List PoolAllocation) :
    ∀ total r : ℕ, (allocations.foldlM (fun (total : ℕ) allocation => do
        require (allocation.allocationPercent ≤ 10000) (.contract .allocationOutOfRange)
        pure (total + allocation.allocationPercent)) total : RebalanceCall ℕ) = .ok r ↔
      (∀ a ∈ allocations, a.allocationPercent ≤ 10000) ∧
        total + (allocations.map PoolAllocation.allocationPercent).sum = r := by
  induction allocations with
  | nil =>
      intro total r
      simp [pure_eq_ok]
  | cons a rest ih =>
      intro total r
      simp only [List.foldlM_cons, bind_eq_ok, require_eq_ok, pure_eq_ok, exists_const, ih,
        exists_and_left, exists_eq_left', List.forall_mem_cons, List.map_cons, List.sum_cons,
        and_assoc, Nat.add_assoc]

theorem validateAllocations_eq_ok {allocations : List PoolAllocation} {u : Unit} :
    validateAllocations allocations = .ok u ↔ WellAllocated allocations := by
  simp only [validateAllocations, bind_eq_ok, require_eq_ok, validate_loop_eq_ok, WellAllocated,
    exists_const, Nat.zero_add, exists_eq_right]

/-! ### One call -/

/-- The id an event has issued. -/
def createdRecord (w : World) : RebalanceEvent → List ℕ
  | .call ⟨_, _, .createStrategy admin name riskLevel minApyThreshold maxIlRisk
      rebalanceFrequency allocations⟩ =>
      match createStrategy w.store admin name riskLevel minApyThreshold maxIlRisk
        rebalanceFrequency allocations with
      | .ok (_, id) => [id]
      | .error _ => []
  | _ => []

/-- The ids a run has issued, oldest first. -/
def createdLog : World → List RebalanceEvent → List ℕ := ghostLog rebalanceStep createdRecord

/-- The stored strategies are well formed and stored under the ids issued so far. -/
def StrategyBooks (log : List ℕ) (s : RebalanceStore) : Prop :=
  ∃ next strategies, s.nextStrategyId = some next ∧ s.strategies = some strategies ∧
    Issued WellFormed 1 next log strategies

/-- A returning `create_strategy` stores a well formed strategy under the next id. -/
theorem createStrategy_ok {s s' : RebalanceStore} {admin : Address} {name : String}
    {riskLevel minApyThreshold maxIlRisk rebalanceFrequency id : ℕ}
    {allocations : List PoolAllocation}
    (h : createStrategy s admin name riskLevel minApyThreshold maxIlRisk rebalanceFrequency
      allocations = .ok (s', id)) :
    s.nextStrategyId = some id ∧ s'.nextStrategyId = some (id + 1) ∧
      ∃ strategies strategy, s.strategies = some strategies ∧ WellFormed id strategy ∧
        s'.strategies = some (strategies.set id strategy) := by
  simp only [createStrategy, getNextStrategyId, bind_eq_ok, pure_eq_ok, orRaise_eq_ok,
    require_eq_ok, checkedU_eq_ok, validateAllocations_eq_ok, RebalanceStore.getStrategiesMap,
    Prod.mk.injEq] at h
  obtain ⟨_, -, _, -, _, hallocations, _, ⟨_, hnext, _, ⟨-, rfl⟩, rfl⟩, strategies, hstrategies, _,
    hrisk, rfl, rfl⟩ := h
  exact ⟨hnext, rfl, strategies, _, hstrategies, ⟨rfl, hrisk, hallocations⟩, rfl⟩

/-- Calls other than `create_strategy` write well formed strategies, under ids that are in use. -/
theorem StoreWrite.strategies {s s' : RebalanceStore} {action : RebalanceAction} {log : List ℕ}
    (hbooks : StrategyBooks log s) (h : StoreWrite s action s')
    (hother : ∀ admin name riskLevel minApyThreshold maxIlRisk rebalanceFrequency allocations,
      action ≠ .createStrategy admin name riskLevel minApyThreshold maxIlRisk rebalanceFrequency
        allocations) : StrategyBooks log s' := by
  obtain ⟨next, strategies, hnext, hmap, hissued⟩ := hbooks
  cases h with
  | settings h =>
      exact ⟨next, strategies, (congrArg Books.nextStrategyId h).trans hnext,
        (congrArg Books.strategies h).trans hmap, hissued⟩
  | created => exact absurd rfl (hother _ _ _ _ _ _ _)
  | updated hstrategies hallocations hrisk hknown h =>
      obtain rfl := Option.some.inj (hstrategies.symm.trans hmap)
      have hgood := validateAllocations_eq_ok.mp hallocations
      exact ⟨next, _, (congrArg Books.nextStrategyId h).trans hnext,
        congrArg Books.strategies h, hissued.replace hknown ⟨rfl, hrisk, hgood⟩⟩

theorem StrategyBooks.of_same {log : List ℕ} {s s' : RebalanceStore} (hbooks : StrategyBooks log s)
    (hnext : s'.nextStrategyId = s.nextStrategyId) (hstrategies : s'.strategies = s.strategies) :
    StrategyBooks log s' := by
  unfold StrategyBooks
  rw [hnext, hstrategies]
  exact hbooks

theorem strategyBooks_step {log : List ℕ} {w w' : World} {event : RebalanceEvent}
    (hbooks : StrategyBooks log w.store) (h : rebalanceStep w event = .ok w') :
    StrategyBooks (log ++ createdRecord w event) w'.store := by
  cases event with
  | tokens ledger =>
      obtain rfl := pure_eq_ok.mp h
      change StrategyBooks (log ++ []) _
      rw [List.append_nil]
      exact hbooks
  | call c =>
      obtain ⟨e, vaultPool, action⟩ := c
      cases action with
      | createStrategy admin name riskLevel minApyThreshold maxIlRisk rebalanceFrequency
          allocations =>
          obtain ⟨s, hs, rfl⟩ := map_eq_ok.mp h
          obtain ⟨⟨s, id⟩, hcreated, rfl⟩ := map_eq_ok.mp hs
          obtain ⟨next, strategies, hnext, hmap, hissued⟩ := hbooks
          obtain ⟨hid, hadvanced, _, strategy, hstored, hgood, hset⟩ := createStrategy_ok hcreated
          obtain rfl := Option.some.inj (hid.symm.trans hnext)
          obtain rfl := Option.some.inj (hstored.symm.trans hmap)
          simp only [createdRecord, hcreated]
          exact ⟨_, _, hadvanced, hset, hissued.create hgood⟩
      | executeRebalance p =>
          obtain ⟨⟨w₁, b⟩, hreturned, rfl⟩ := map_eq_ok.mp h
          change StrategyBooks (log ++ []) _
          rw [List.append_nil]
          obtain ⟨_, _, hstore⟩ := (executeRebalance_executed hreturned).2.frame
          exact hbooks.of_same (by rw [hstore]) (by rw [hstore])
      | executeFlashRebalance vaultId opportunity amount =>
          obtain ⟨⟨w₁, b⟩, hreturned, rfl⟩ := map_eq_ok.mp h
          change StrategyBooks (log ++ []) _
          rw [List.append_nil]
          obtain ⟨_, _, hstore⟩ := (executeFlashRebalance_flashed hreturned).2.frame
          exact hbooks.of_same (by rw [hstore]) (by rw [hstore])
      | _ =>
          obtain ⟨s, hs, rfl⟩ := map_eq_ok.mp h
          change StrategyBooks (log ++ []) _
          rw [List.append_nil]
          exact StoreWrite.strategies hbooks (execStore_writes hs)
            fun _ _ _ _ _ _ _ h => by cases h

/-! ### Runs -/

/-- The engine after a run that starts with `initialize`. -/
def startedRun (admin : Address) (ledger : Ledger) (events : List RebalanceEvent) : World :=
  run rebalanceStep ⟨initialRebalance admin, ledger⟩ events

/-- The ids issued in a run that starts with `initialize`. -/
def issuedIds (admin : Address) (ledger : Ledger) (events : List RebalanceEvent) : List ℕ :=
  createdLog ⟨initialRebalance admin, ledger⟩ events

theorem run_strategyBooks (admin : Address) (ledger : Ledger) (events : List RebalanceEvent) :
    StrategyBooks (issuedIds admin ledger events) (startedRun admin ledger events).store := by
  have hstart : StrategyBooks [] (initialRebalance admin) :=
    ⟨1, SortedMap.empty, rfl, rfl, Issued.start WellFormed 1⟩
  exact run_log_invariant (I := fun log w => StrategyBooks log w.store)
    (fun log w event w' hbooks _ h => strategyBooks_step hbooks h) events
    ⟨initialRebalance admin, ledger⟩ [] hstart (along_true events _)

/-- The state after a run, and what one more call does in it. -/
structure StrategyStore (admin : Address) (ledger : Ledger) (events : List RebalanceEvent) :
    Prop where
  /-- Every stored strategy is well formed, under its own id below the next one. -/
  stored : ∃ next strategies, (startedRun admin ledger events).store.nextStrategyId = some next ∧
    (startedRun admin ledger events).store.strategies = some strategies ∧
    ∀ id strategy, strategies.get id = some strategy →
      WellFormed id strategy ∧ 1 ≤ id ∧ id < next
  /-- A new strategy gets an id that no earlier call issued and no earlier state has stored, and the
  other strategies stay as they were. -/
  created : ∀ caller name riskLevel minApyThreshold maxIlRisk rebalanceFrequency allocations s' id,
    createStrategy (startedRun admin ledger events).store caller name riskLevel minApyThreshold
      maxIlRisk rebalanceFrequency allocations = .ok (s', id) →
    id ∉ issuedIds admin ledger events ∧
    (∀ before, before <+: events → ∀ strategies,
      (startedRun admin ledger before).store.strategies = some strategies →
        strategies.get id = none) ∧
    ∃ strategies strategy, (startedRun admin ledger events).store.strategies = some strategies ∧
      WellFormed id strategy ∧ s'.strategies = some (strategies.set id strategy)
  /-- A failed call changes nothing. -/
  failed : ∀ event fault, rebalanceStep (startedRun admin ledger events) event = .error fault →
    commit rebalanceStep (startedRun admin ledger events) event = startedRun admin ledger events

theorem strategy_store (admin : Address) (ledger : Ledger) (events : List RebalanceEvent) :
    StrategyStore admin ledger events := by
  obtain ⟨next, strategies, hnext, hmap, hissued⟩ := run_strategyBooks admin ledger events
  refine ⟨⟨next, strategies, hnext, hmap, fun id strategy hstored => ?_⟩, ?_, fun event fault h =>
    commit_of_error h⟩
  · have hcontains : strategies.contains id = true := by
      rw [SortedMap.contains, hstored]
      rfl
    have hrange := hissued.range id ((hissued.stored id).mp hcontains)
    exact ⟨hissued.good id strategy hstored, hrange⟩
  · intro caller name riskLevel minApyThreshold maxIlRisk rebalanceFrequency allocations s' id h
    obtain ⟨hid, -, _, strategy, hstored, hgood, hset⟩ := createStrategy_ok h
    obtain rfl := Option.some.inj (hid.symm.trans hnext)
    refine ⟨hissued.next_not_mem, ?_, _, strategy, hstored, hgood, hset⟩
    rintro before ⟨after, rfl⟩ earlier hearlier
    obtain ⟨_, stored, _, hbefore, hissuedBefore⟩ := run_strategyBooks admin ledger before
    obtain rfl := Option.some.inj (hbefore.symm.trans hearlier)
    by_contra hfound
    have hcontains : stored.contains id = true := Option.isSome_iff_ne_none.mpr hfound
    -- what an earlier state has stored was issued in the run
    apply hissued.next_not_mem
    rw [issuedIds, createdLog, ghostLog_append]
    exact List.mem_append_left _ ((hissuedBefore.stored id).mp hcontains)

/-- The id that a failed creation has taken from the counter is issued to the next strategy. -/
example : (startedRun 7 (fun _ _ => 0) [
    .call ⟨⟨9, [7], 5⟩, fun _ => none, .createStrategy 7 "risky" 4 0 0 0
      [⟨1, 1, 2, 10000, 0, 0, 0⟩]⟩,
    .call ⟨⟨9, [7], 6⟩, fun _ => none, .createStrategy 7 "sound" 3 0 0 0
      [⟨1, 1, 2, 10000, 0, 0, 0⟩]⟩]).store.nextStrategyId = some 2 := by decide

end YieldEngine.Rebalance
