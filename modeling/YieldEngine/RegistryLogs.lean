import YieldEngine.LogLoops
import YieldEngine.RegistryApprovals
import YieldEngine.RunLogs

/-! # Logs of the strategy registry

The registry keeps the newest 1000 approvals, and of each strategy the newest 100 performance
records.  `addApproval_loop` and `recordPerformance_loop` are the entrypoints with the loops that
cut the two vectors.

A run may call `initialize` again.  The records of a strategy are those since it was registered,
and the registry keeps the newest of them in every run (`run_performance`).  The approvals are those
of all strategies, and a further `initialize` drops them (`approvals_logging`). -/

namespace YieldEngine

open CheckedArith Transact BoundedLog LogLoops RunLogs

/-- `Vec::get(i).unwrap()` past the end. -/
def missingItem {ε : Type} : HostError ε := .panic "called `Option::unwrap()` on a `None` value"

namespace Registry

/-! ### The loops -/

section loops
variable (e : Env) (s : RegistryStore)

/-- `get_performance_history`. -/
def getPerformanceHistory (strategyId limit : ℕ) : RegistryCall (List PerformanceRecord) := do
  let strategy ← getStrategy s strategyId
  newest missingItem strategy.performanceHistory limit

/-- `add_approval` with the loop that cuts the approvals. -/
theorem addApproval_loop (approval : StrategyApproval) :
    addApproval s approval = (do
      let approvals ← s.getApprovals
      let approvals ← trimmed missingItem maxApprovals (approvals ++ [approval])
      pure { s with approvals := some approvals }) := by
  simp only [trimmed_concat, ok_bind]
  rfl

/-- `record_performance` with the loop that cuts the records. -/
theorem recordPerformance_loop (strategyId : ℕ) (totalValue : ℤ)
    (netApy volatility sharpeRatio : ℕ) :
    recordPerformance e s strategyId totalValue netApy volatility sharpeRatio = (do
      s.requireNotPaused
      let strategies ← s.getStrategiesMap
      let strategy ← orRaise (strategies.get strategyId) (.contract .strategyNotFound)
      let performanceHistory := strategy.performanceHistory ++
        [⟨e.timestamp, totalValue, netApy, volatility, sharpeRatio⟩]
      let performanceHistory ← trimmed missingItem maxPerformanceRecords performanceHistory
      let strategy := { strategy with performanceHistory, updatedAt := e.timestamp }
      pure { s with strategies := some (strategies.set strategyId strategy) }) := by
  simp only [trimmed_concat, ok_bind]
  rfl

end loops

/-! ### One call -/

def initializeCall (_ : RegistryStore) (admin : Address) : RegistryCall RegistryStore :=
  pure (initializeRegistry admin)

/-- One invocation of any writing entrypoint. -/
def registryStep : RegistryStore → Address ⊕ Invocation → RegistryCall RegistryStore :=
  either initializeCall exec

/-- The records a stored strategy keeps. -/
def RegistryStore.performance (s : RegistryStore) (id : ℕ) : Option (List PerformanceRecord) :=
  (s.strategyMap.get id).map YieldStrategy.performanceHistory

/-- The record of the strategy `id` that a returning call appends, or the start of its records. -/
def performanceNote (id : ℕ) (s : RegistryStore) :
    Address ⊕ Invocation → List (Option PerformanceRecord)
  | .inl _ => []
  | .inr c =>
      match c.action with
      | .registerStrategy .. => if registeredId s c = [id] then [none] else []
      | .recordPerformance strategyId totalValue netApy volatility sharpeRatio =>
          if strategyId = id then
            [some ⟨c.env.timestamp, totalValue, netApy, volatility, sharpeRatio⟩]
          else []
      | _ => []

/-- The approval that a returning call appends. -/
def approvalNote (_ : RegistryStore) : Address ⊕ Invocation → List StrategyApproval
  | .inl _ => []
  | .inr c =>
      match c.action with
      | .approveStrategy admin strategyId comments =>
          [⟨strategyId, admin, c.env.timestamp, 1, comments⟩]
      | .deactivateStrategy admin strategyId =>
          [⟨strategyId, admin, c.env.timestamp, 3, "deactivated"⟩]
      | _ => []

section effects
variable {s s' : RegistryStore} {id k : ℕ}

theorem performance_of_set {strategies : SortedMap ℕ YieldStrategy} {new : YieldStrategy}
    (hs : s.strategies = some strategies) (hs' : s'.strategies = some (strategies.set k new)) :
    s'.performance id = if id = k then some new.performanceHistory else s.performance id := by
  unfold RegistryStore.performance
  rw [strategyMap_of_stored hs, strategyMap_of_stored hs']
  split_ifs with hk
  · rw [hk, SortedMap.get_set_self, Option.map_some]
  · rw [SortedMap.get_set_ne _ _ hk]

theorem performance_of_stored {strategies : SortedMap ℕ YieldStrategy} {strategy : YieldStrategy}
    (hs : s.strategies = some strategies) (hget : strategies.get k = some strategy) :
    s.performance k = some strategy.performanceHistory := by
  rw [RegistryStore.performance, strategyMap_of_stored hs, hget, Option.map_some]

/-- A strategy that is written back with its records keeps them. -/
theorem performance_of_kept {strategies : SortedMap ℕ YieldStrategy} {old new : YieldStrategy}
    (hs : s.strategies = some strategies) (hget : strategies.get k = some old)
    (hs' : s'.strategies = some (strategies.set k new))
    (hkept : new.performanceHistory = old.performanceHistory) :
    s'.performance id = s.performance id := by
  rw [performance_of_set hs hs']
  split_ifs with hk
  · rw [hk, performance_of_stored hs hget, hkept]
  · rfl

/-- What the records of a strategy become by a note. -/
def keepRecord (kept : Option (List PerformanceRecord)) (note : Option PerformanceRecord) :
    Option (List PerformanceRecord) :=
  note.elim (some []) fun r => kept.map fun log => push maxPerformanceRecords log r

/-- The logs of `s'` are those of `s` with what the call notes. -/
structure Noted (s s' : RegistryStore) (c : Invocation) : Prop where
  performance : ∀ id, s'.performance id =
    (performanceNote id s (.inr c)).foldl keepRecord (s.performance id)
  approvals : ∀ approvals, s.approvals = some approvals →
    s'.approvals = some ((approvalNote s (.inr c)).foldl (push maxApprovals) approvals)

theorem registerStrategy_noted {e : Env} {creator : Address} {name description : String}
    {riskLevel : ℕ} {minInvestment maxInvestment : ℤ} {feeStructure : FeeStructure}
    {parameters : StrategyParameters}
    (hcall : registerStrategy e s creator name description riskLevel minInvestment maxInvestment
      feeStructure parameters = .ok (s', k)) :
    Noted s s' ⟨e, .registerStrategy creator name description riskLevel minInvestment
      maxInvestment feeStructure parameters⟩ := by
  have hid : registeredId s ⟨e, .registerStrategy creator name description riskLevel minInvestment
      maxInvestment feeStructure parameters⟩ = [k] := by simp only [registeredId, hcall]
  simp only [registerStrategy, getNextStrategyId, RegistryStore.requireNotPaused,
    RegistryStore.getStrategiesMap, RegistryStore.getStrategyParams, bind_eq_ok, require_eq_ok,
    orRaise_eq_ok, checkedU_eq_ok, pure_eq_ok, exists_const] at hcall
  obtain ⟨-, -, -, ⟨s₁, id₁⟩, ⟨next, -, _, ⟨-, rfl⟩, hs₁⟩, strategies, hstrategies,
    -, -, strategyParams, -, hs'⟩ := hcall
  obtain ⟨rfl, rfl⟩ := Prod.mk.inj hs₁
  obtain ⟨rfl, rfl⟩ := Prod.mk.inj hs'
  refine ⟨fun id => ?_, fun _ h => h⟩
  rw [performance_of_set hstrategies rfl]
  simp only [performanceNote, hid, List.cons.injEq, and_true]
  by_cases hk : id = next
  · rw [if_pos hk, if_pos hk.symm]
    rfl
  · rw [if_neg hk, if_neg (Ne.symm hk)]
    rfl

theorem recordPerformance_noted {e : Env} {totalValue : ℤ} {netApy volatility sharpeRatio : ℕ}
    (h : recordPerformance e s k totalValue netApy volatility sharpeRatio = .ok s') :
    Noted s s' ⟨e, .recordPerformance k totalValue netApy volatility sharpeRatio⟩ := by
  simp only [recordPerformance, RegistryStore.requireNotPaused, RegistryStore.getStrategiesMap,
    bind_eq_ok, require_eq_ok, orRaise_eq_ok, pure_eq_ok, exists_const] at h
  obtain ⟨-, strategies, hstrategies, old, hold, rfl⟩ := h
  refine ⟨fun id => ?_, fun _ h => h⟩
  rw [performance_of_set hstrategies rfl]
  by_cases hk : id = k
  · subst hk
    simp only [performanceNote, if_true, performance_of_stored hstrategies hold]
    rfl
  · simp only [performanceNote, if_neg hk, if_neg (Ne.symm hk)]
    rfl

/-- Every returning call notes what it appends. -/
theorem exec_noted {c : Invocation} (h : exec s c = .ok s') : Noted s s' c := by
  obtain ⟨e, action⟩ := c
  cases action with
  | upgrade admin =>
      simp only [exec, upgrade, bind_eq_ok, pure_eq_ok] at h
      obtain ⟨-, -, rfl⟩ := h
      exact ⟨fun _ => rfl, fun _ h => h⟩
  | migrate admin =>
      simp only [exec, migrate, map_eq_ok, bind_eq_ok, pure_eq_ok] at h
      obtain ⟨_, ⟨-, -, rfl⟩, rfl⟩ := h
      exact ⟨fun _ => rfl, fun _ h => h⟩
  | registerStrategy creator name description riskLevel minInvestment maxInvestment
      feeStructure parameters =>
      obtain ⟨⟨s₁, k⟩, hcall, rfl⟩ := map_eq_ok.mp h
      exact registerStrategy_noted hcall
  | approveStrategy admin strategyId comments =>
      simp only [exec, approveStrategy, addApproval, RegistryStore.getStrategiesMap,
        RegistryStore.getApprovals, bind_eq_ok, orRaise_eq_ok, pure_eq_ok] at h
      obtain ⟨-, -, strategies, hstrategies, old, hold, approvals, happrovals, rfl⟩ := h
      refine ⟨fun id => performance_of_kept hstrategies hold rfl rfl, fun log hlog => ?_⟩
      obtain rfl := Option.some.inj (happrovals.symm.trans hlog)
      simp only [approvalNote, List.foldl_cons, List.foldl_nil]
  | updateStrategy creator strategyId name description riskLevel minInvestment maxInvestment
      feeStructure parameters =>
      simp only [exec, updateStrategy, RegistryStore.requireNotPaused,
        RegistryStore.getStrategiesMap, RegistryStore.getStrategyParams, bind_eq_ok, require_eq_ok,
        orRaise_eq_ok, pure_eq_ok, exists_const] at h
      obtain ⟨-, -, -, strategies, hstrategies, old, hold, -, -, strategyParams, -, rfl⟩ := h
      exact ⟨fun id => performance_of_kept hstrategies hold rfl rfl, fun _ h => h⟩
  | recordPerformance strategyId totalValue netApy volatility sharpeRatio =>
      exact recordPerformance_noted h
  | deactivateStrategy admin strategyId =>
      simp only [exec, deactivateStrategy, addApproval, RegistryStore.getStrategiesMap,
        RegistryStore.getApprovals, bind_eq_ok, orRaise_eq_ok, pure_eq_ok] at h
      obtain ⟨-, -, strategies, hstrategies, old, hold, approvals, happrovals, rfl⟩ := h
      refine ⟨fun id => performance_of_kept hstrategies hold rfl rfl, fun log hlog => ?_⟩
      obtain rfl := Option.some.inj (happrovals.symm.trans hlog)
      simp only [approvalNote, List.foldl_cons, List.foldl_nil]
  | pause admin =>
      simp only [exec, pause, bind_eq_ok, pure_eq_ok] at h
      obtain ⟨-, -, -, -, rfl⟩ := h
      exact ⟨fun _ => rfl, fun _ h => h⟩
  | unpause admin =>
      simp only [exec, unpause, bind_eq_ok, pure_eq_ok] at h
      obtain ⟨-, -, -, -, rfl⟩ := h
      exact ⟨fun _ => rfl, fun _ h => h⟩

end effects

/-! ### Runs -/

/-- The state of a deployed registry after `calls`, which may initialise it again. -/
def registryReached (admin : Address) (calls : List (Address ⊕ Invocation)) : RegistryStore :=
  run registryStep (initializeRegistry admin) calls

/-- The records appended to the strategy `id` since it was registered. -/
def recordLog (admin : Address) (id : ℕ) (calls : List (Address ⊕ Invocation)) :
    List PerformanceRecord :=
  sinceFresh (ghostLog registryStep (performanceNote id) (initializeRegistry admin) calls)

/-- All approvals appended. -/
def approvalLog (admin : Address) (calls : List (Address ⊕ Invocation)) : List StrategyApproval :=
  ghostLog registryStep approvalNote (initializeRegistry admin) calls

section runs
variable {s s' : RegistryStore} {id : ℕ}

theorem replay_of_keepRecord (notes : List (Option PerformanceRecord)) :
    ∀ {log : List (Option PerformanceRecord)} {stored : Option (List PerformanceRecord)},
      (∀ kept, stored = some kept → kept = replay (push maxPerformanceRecords) [] log) →
      ∀ kept, notes.foldl keepRecord stored = some kept →
        kept = replay (push maxPerformanceRecords) [] (log ++ notes) := by
  induction notes with
  | nil =>
      intro log stored h
      rwa [List.append_nil]
  | cons note notes ih =>
      intro log stored h
      rw [List.foldl_cons, List.append_cons]
      refine ih fun kept hkept => ?_
      unfold replay at *
      rw [List.foldl_append]
      cases note with
      | none => exact (Option.some.inj hkept).symm
      | some r =>
          obtain ⟨before, hbefore, rfl⟩ := Option.map_eq_some_iff.mp hkept
          rw [h before hbefore]
          rfl

/-- In every run a stored strategy keeps the newest of its records. -/
theorem run_performance (admin : Address) (calls : List (Address ⊕ Invocation))
    {kept : List PerformanceRecord} (h : (registryReached admin calls).performance id = some kept) :
    kept = (recordLog admin id calls).rtake maxPerformanceRecords := by
  have hstep : ∀ log s c s', (∀ kept, RegistryStore.performance s id = some kept →
        kept = replay (push maxPerformanceRecords) [] log) → True → registryStep s c = .ok s' →
      ∀ kept, s'.performance id = some kept →
        kept = replay (push maxPerformanceRecords) [] (log ++ performanceNote id s c) := by
    intro log s c s' hs _ hcall kept hkept
    cases c with
    | inl admin' =>
        obtain rfl := pure_eq_ok.mp hcall
        -- no strategy is stored
        cases hkept
    | inr c =>
        rw [(exec_noted hcall).performance] at hkept
        exact replay_of_keepRecord _ hs kept hkept
  have hrun := run_log_invariant hstep calls (initializeRegistry admin) []
    (fun kept hkept => by cases hkept) (along_true calls _) kept h
  rwa [List.nil_append, replay_push] at hrun

theorem run_performance_of_stored (admin : Address) (calls : List (Address ⊕ Invocation))
    {strategy : YieldStrategy} (h : getStrategy (registryReached admin calls) id = .ok strategy) :
    strategy.performanceHistory = (recordLog admin id calls).rtake maxPerformanceRecords := by
  obtain ⟨strategies, hstrategies, hget⟩ := bind_eq_ok.mp h
  exact run_performance admin calls
    (performance_of_stored (orRaise_eq_ok.mp hstrategies) (orRaise_eq_ok.mp hget))

theorem approvals_logging : Logging registryStep approvalNote RegistryStore.approvals
    (fun c => c.isLeft = true) maxApprovals where
  fresh := by
    intro s c s' hfresh h
    obtain ⟨admin, rfl⟩ := Sum.isLeft_iff.mp hfresh
    obtain rfl := pure_eq_ok.mp h
    exact ⟨rfl, rfl⟩
  append := by
    intro s c s' log hfresh h hlog
    cases c with
    | inl admin => exact absurd rfl hfresh
    | inr c => exact (exec_noted h).approvals log hlog

end runs

end Registry
end YieldEngine
