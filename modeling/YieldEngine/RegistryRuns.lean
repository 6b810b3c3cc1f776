import YieldEngine.RegistryCalls
import YieldEngine.Transact

/-! # Runs of the strategy registry

`RegistryAction` lists the entrypoints that write storage, other than `initialize`, and `exec`
executes one of them.

`Effect` says what a returning call does to the stored strategies and parameters, with the
guards it has checked.  By `exec_effect` it covers every call, and the invariants of a run are
derived from it alone. -/

namespace YieldEngine.Registry

open CheckedArith Transact

/-- One invocation of the registry. -/
inductive RegistryAction where
  | upgrade (admin : Address)
  | migrate (admin : Address)
  | registerStrategy (creator : Address) (name description : String) (riskLevel : ℕ)
      (minInvestment maxInvestment : ℤ) (feeStructure : FeeStructure)
      (parameters : StrategyParameters)
  | approveStrategy (admin : Address) (strategyId : ℕ) (comments : String)
  | updateStrategy (creator : Address) (strategyId : ℕ) (name description : String)
      (riskLevel : ℕ) (minInvestment maxInvestment : ℤ) (feeStructure : FeeStructure)
      (parameters : StrategyParameters)
  | recordPerformance (strategyId : ℕ) (totalValue : ℤ) (netApy volatility sharpeRatio : ℕ)
  | deactivateStrategy (admin : Address) (strategyId : ℕ)
  | pause (admin : Address)
  | unpause (admin : Address)
deriving DecidableEq, Repr

structure Invocation where
  env : Env
  action : RegistryAction

def exec (s : RegistryStore) (c : Invocation) : RegistryCall RegistryStore :=
  match c.action with
  | .upgrade admin => upgrade c.env s admin
  | .migrate admin => Prod.fst <$> migrate c.env s admin
  | .registerStrategy creator name description riskLevel minInvestment maxInvestment
      feeStructure parameters =>
      Prod.fst <$> registerStrategy c.env s creator name description riskLevel minInvestment
        maxInvestment feeStructure parameters
  | .approveStrategy admin strategyId comments =>
      approveStrategy c.env s admin strategyId comments
  | .updateStrategy creator strategyId name description riskLevel minInvestment maxInvestment
      feeStructure parameters =>
      updateStrategy c.env s creator strategyId name description riskLevel minInvestment
        maxInvestment feeStructure parameters
  | .recordPerformance strategyId totalValue netApy volatility sharpeRatio =>
      recordPerformance c.env s strategyId totalValue netApy volatility sharpeRatio
  | .deactivateStrategy admin strategyId => deactivateStrategy c.env s admin strategyId
  | .pause admin => pause c.env s admin
  | .unpause admin => unpause c.env s admin

/-- The id a registration that returns hands out. -/
def registeredId (s : RegistryStore) (c : Invocation) : List ℕ :=
  match c.action with
  | .registerStrategy creator name description riskLevel minInvestment maxInvestment
      feeStructure parameters =>
      match registerStrategy c.env s creator name description riskLevel minInvestment
        maxInvestment feeStructure parameters with
      | .ok r => [r.2]
      | .error _ => []
  | _ => []

/-! ### What a call does -/

/-- A strategy within the bounds that registering and updating check, stored under its id. -/
structure WellFormed (id : ℕ) (strategy : YieldStrategy) : Prop where
  key : strategy.strategyId = id
  minPositive : 0 < strategy.minInvestment
  ordered : strategy.minInvestment ≤ strategy.maxInvestment
  risk : 1 ≤ strategy.riskLevel ∧ strategy.riskLevel ≤ 3

/-- The call approves, updates or deactivates the strategy `id`. -/
def Decides (id : ℕ) (c : Invocation) : Prop :=
  match c.action with
  | .approveStrategy _ strategyId _ => strategyId = id
  | .updateStrategy _ strategyId _ _ _ _ _ _ _ => strategyId = id
  | .deactivateStrategy _ strategyId => strategyId = id
  | _ => False

/-- The storage `s'` is `s` with the inactive strategy `new` and its parameters written. -/
structure Lists (s s' : RegistryStore) (id : ℕ) (new : YieldStrategy)
    (parameters : StrategyParameters) : Prop where
  wellFormed : WellFormed id new
  inactive : new.isActive = false
  strategies : s'.strategyMap = s.strategyMap.set id new
  params : s'.paramMap = s.paramMap.set id parameters
  admin : s'.admin = s.admin

/-- The two strategies differ at most in activity, performance history and update time. -/
def SameListing (old new : YieldStrategy) : Prop :=
  { new with
    performanceHistory := old.performanceHistory
    isActive := old.isActive
    updatedAt := old.updatedAt } = old

/-- The storage `s'` is `s` with the stored strategy `old` replaced by `new`. -/
structure Marks (s s' : RegistryStore) (id : ℕ) (old new : YieldStrategy) : Prop where
  stored : s.strategyMap.get id = some old
  same : SameListing old new
  strategies : s'.strategyMap = s.strategyMap.set id new
  params : s'.paramMap = s.paramMap
  admin : s'.admin = s.admin

/-- What a returning call does to the stored strategies and parameters. -/
inductive Effect (s s' : RegistryStore) : Invocation → Prop where
  | registered {e creator name description riskLevel minInvestment maxInvestment feeStructure
      parameters id new} (unused : s.strategyMap.get id = none)
      (lists : Lists s s' id new parameters)
      (ids : registeredId s ⟨e, .registerStrategy creator name description riskLevel
        minInvestment maxInvestment feeStructure parameters⟩ = [id]) :
      Effect s s' ⟨e, .registerStrategy creator name description riskLevel minInvestment
        maxInvestment feeStructure parameters⟩
  | updated {e creator id name description riskLevel minInvestment maxInvestment feeStructure
      parameters old new} (stored : s.strategyMap.get id = some old)
      (lists : Lists s s' id new parameters) :
      Effect s s' ⟨e, .updateStrategy creator id name description riskLevel minInvestment
        maxInvestment feeStructure parameters⟩
  | approved {e admin id comments old new} (isAdmin : s.admin = some admin)
      (authorized : e.Authorized admin) (marks : Marks s s' id old new) :
      Effect s s' ⟨e, .approveStrategy admin id comments⟩
  | recorded {e id totalValue netApy volatility sharpeRatio old new}
      (marks : Marks s s' id old new) (activity : new.isActive = old.isActive) :
      Effect s s' ⟨e, .recordPerformance id totalValue netApy volatility sharpeRatio⟩
  | deactivated {e admin id old new} (marks : Marks s s' id old new)
      (inactive : new.isActive = false) : Effect s s' ⟨e, .deactivateStrategy admin id⟩
  | other {c} (strategies : s'.strategyMap = s.strategyMap) (params : s'.paramMap = s.paramMap)
      (admin : s'.admin = s.admin) (ids : registeredId s c = []) (quiet : ∀ id, ¬ Decides id c) :
      Effect s s' c

section inversions
variable {e : Env} {s s' : RegistryStore}

theorem requireAdmin_eq_ok {caller : Address} {u : Unit} :
    s.requireAdmin e caller = .ok u ↔ s.admin = some caller ∧ e.Authorized caller := by
  simp only [RegistryStore.requireAdmin, RegistryStore.getAdmin, Env.requireAuth, bind_eq_ok,
    orRaise_eq_ok, require_eq_ok, exists_const]
  constructor
  · rintro ⟨admin, hadmin, hauth, rfl⟩
    exact ⟨hadmin, hauth⟩
  · rintro ⟨hadmin, hauth⟩
    exact ⟨caller, hadmin, hauth, rfl⟩

section writes
variable {strategies : SortedMap ℕ YieldStrategy} {id : ℕ} {old new : YieldStrategy}
  {strategyParams : SortedMap ℕ StrategyParameters} {parameters : StrategyParameters}

theorem strategyMap_of_stored (h : s.strategies = some strategies) :
    s.strategyMap = strategies := by rw [RegistryStore.strategyMap, h, Option.getD_some]

theorem paramMap_of_stored (h : s.strategyParams = some strategyParams) :
    s.paramMap = strategyParams := by rw [RegistryStore.paramMap, h, Option.getD_some]

theorem Lists.of_set (hs' : s'.strategies = some (strategies.set id new))
    (hp' : s'.strategyParams = some (strategyParams.set id parameters))
    (hs : s.strategies = some strategies) (hp : s.strategyParams = some strategyParams)
    (hnew : WellFormed id new) (hinactive : new.isActive = false) (hadmin : s'.admin = s.admin) :
    Lists s s' id new parameters := by
  refine ⟨hnew, hinactive, ?_, ?_, hadmin⟩
  · rw [strategyMap_of_stored hs, strategyMap_of_stored hs']
  · rw [paramMap_of_stored hp, paramMap_of_stored hp']

theorem Marks.of_set (hs' : s'.strategies = some (strategies.set id new))
    (hs : s.strategies = some strategies) (hold : strategies.get id = some old)
    (hsame : SameListing old new) (hparams : s'.paramMap = s.paramMap)
    (hadmin : s'.admin = s.admin) : Marks s s' id old new := by
  refine ⟨?_, hsame, ?_, hparams, hadmin⟩
  · rw [strategyMap_of_stored hs, hold]
  · rw [strategyMap_of_stored hs, strategyMap_of_stored hs']

end writes

theorem registerStrategy_effect {creator : Address} {name description : String} {riskLevel : ℕ}
    {minInvestment maxInvestment : ℤ} {feeStructure : FeeStructure}
    {parameters : StrategyParameters} {id : ℕ}
    (h : registerStrategy e s creator name description riskLevel minInvestment maxInvestment
      feeStructure parameters = .ok (s', id)) :
    s.strategyMap.get id = none ∧ ∃ new, Lists s s' id new parameters := by
  simp only [registerStrategy, getNextStrategyId, RegistryStore.requireNotPaused,
    RegistryStore.getStrategiesMap, RegistryStore.getStrategyParams, bind_eq_ok, require_eq_ok,
    orRaise_eq_ok, checkedU_eq_ok, pure_eq_ok, exists_const, Option.isNone_iff_eq_none] at h
  obtain ⟨-, hmin, hmax, ⟨s₁, id₁⟩, ⟨next, -, _, ⟨-, rfl⟩, hs₁⟩, strategies, hstrategies,
    hrisk, hunused, strategyParams, hparams, hs'⟩ := h
  obtain ⟨rfl, rfl⟩ := Prod.mk.inj hs₁
  obtain ⟨rfl, rfl⟩ := Prod.mk.inj hs'
  dsimp only at hstrategies hunused hparams ⊢
  refine ⟨?_, _, Lists.of_set rfl rfl hstrategies hparams ?_ rfl rfl⟩
  · rw [strategyMap_of_stored hstrategies, hunused]
  · exact ⟨rfl, hmin, hmax, hrisk⟩

theorem updateStrategy_effect {creator : Address} {id : ℕ} {name description : String}
    {riskLevel : ℕ} {minInvestment maxInvestment : ℤ} {feeStructure : FeeStructure}
    {parameters : StrategyParameters}
    (h : updateStrategy e s creator id name description riskLevel minInvestment maxInvestment
      feeStructure parameters = .ok s') :
    ∃ old new, s.strategyMap.get id = some old ∧ Lists s s' id new parameters := by
  simp only [updateStrategy, RegistryStore.requireNotPaused, RegistryStore.getStrategiesMap,
    RegistryStore.getStrategyParams, bind_eq_ok, require_eq_ok, orRaise_eq_ok, pure_eq_ok,
    exists_const] at h
  obtain ⟨-, hmin, hmax, strategies, hstrategies, old, hold, -, hrisk, strategyParams, hparams,
    rfl⟩ := h
  refine ⟨old, _, ?_, Lists.of_set rfl rfl hstrategies hparams ?_ rfl rfl⟩
  · rw [strategyMap_of_stored hstrategies, hold]
  · exact ⟨rfl, hmin, hmax, hrisk⟩

theorem approveStrategy_effect {admin : Address} {id : ℕ} {comments : String}
    (h : approveStrategy e s admin id comments = .ok s') :
    (s.admin = some admin ∧ e.Authorized admin) ∧ ∃ old new, Marks s s' id old new := by
  simp only [approveStrategy, addApproval, RegistryStore.getStrategiesMap,
    RegistryStore.getApprovals, bind_eq_ok, requireAdmin_eq_ok, orRaise_eq_ok, pure_eq_ok,
    exists_const] at h
  obtain ⟨hadmin, strategies, hstrategies, old, hold, approvals, -, rfl⟩ := h
  exact ⟨hadmin, old, _, Marks.of_set rfl hstrategies hold rfl rfl rfl⟩

theorem deactivateStrategy_effect {admin : Address} {id : ℕ}
    (h : deactivateStrategy e s admin id = .ok s') :
    ∃ old new, Marks s s' id old new ∧ new.isActive = false := by
  simp only [deactivateStrategy, addApproval, RegistryStore.getStrategiesMap,
    RegistryStore.getApprovals, bind_eq_ok, requireAdmin_eq_ok, orRaise_eq_ok, pure_eq_ok,
    exists_const] at h
  obtain ⟨-, strategies, hstrategies, old, hold, approvals, -, rfl⟩ := h
  exact ⟨old, _, Marks.of_set rfl hstrategies hold rfl rfl rfl, rfl⟩

theorem recordPerformance_effect {id netApy volatility sharpeRatio : ℕ} {totalValue : ℤ}
    (h : recordPerformance e s id totalValue netApy volatility sharpeRatio = .ok s') :
    ∃ old new, Marks s s' id old new ∧ new.isActive = old.isActive := by
  simp only [recordPerformance, RegistryStore.requireNotPaused, RegistryStore.getStrategiesMap,
    bind_eq_ok, require_eq_ok, orRaise_eq_ok, pure_eq_ok, exists_const] at h
  obtain ⟨-, strategies, hstrategies, old, hold, rfl⟩ := h
  exact ⟨old, _, Marks.of_set rfl hstrategies hold rfl rfl rfl, rfl⟩

end inversions

/-- Every returning call has one of the effects. -/
theorem exec_effect {s s' : RegistryStore} {c : Invocation} (h : exec s c = .ok s') :
    Effect s s' c := by
  obtain ⟨e, action⟩ := c
  cases action with
  | upgrade admin =>
      simp only [exec, upgrade, bind_eq_ok, pure_eq_ok] at h
      obtain ⟨-, -, rfl⟩ := h
      exact .other rfl rfl rfl rfl fun _ => id
  | migrate admin =>
      simp only [exec, migrate, map_eq_ok, bind_eq_ok, pure_eq_ok] at h
      obtain ⟨_, ⟨-, -, rfl⟩, rfl⟩ := h
      exact .other rfl rfl rfl rfl fun _ => id
  | registerStrategy creator name description riskLevel minInvestment maxInvestment
      feeStructure parameters =>
      obtain ⟨⟨s₁, id⟩, hcall, rfl⟩ := map_eq_ok.mp h
      obtain ⟨hunused, new, hlists⟩ := registerStrategy_effect hcall
      refine .registered hunused hlists ?_
      simp only [registeredId, hcall]
  | approveStrategy admin strategyId comments =>
      obtain ⟨⟨hadmin, hauth⟩, old, new, hmarks⟩ := approveStrategy_effect h
      exact .approved hadmin hauth hmarks
  | updateStrategy creator strategyId name description riskLevel minInvestment maxInvestment
      feeStructure parameters =>
      obtain ⟨old, new, hstored, hlists⟩ := updateStrategy_effect h
      exact .updated hstored hlists
  | recordPerformance strategyId totalValue netApy volatility sharpeRatio =>
      obtain ⟨old, new, hmarks, hactive⟩ := recordPerformance_effect h
      exact .recorded hmarks hactive
  | deactivateStrategy admin strategyId =>
      obtain ⟨old, new, hmarks, hinactive⟩ := deactivateStrategy_effect h
      exact .deactivated hmarks hinactive
  | pause admin =>
      simp only [exec, pause, bind_eq_ok, pure_eq_ok] at h
      obtain ⟨-, -, -, -, rfl⟩ := h
      exact .other rfl rfl rfl rfl fun _ => id
  | unpause admin =>
      simp only [exec, unpause, bind_eq_ok, pure_eq_ok] at h
      obtain ⟨-, -, -, -, rfl⟩ := h
      exact .other rfl rfl rfl rfl fun _ => id

end YieldEngine.Registry
