import YieldEngine.RebalancePools
import YieldEngine.RegistryLogs

/-! # What the bounded logs keep

The rebalance engine keeps the newest 1000 entries of its history, and the strategy registry the
newest 1000 approvals and, of each strategy, the newest 100 records.  Each is cut by a loop of its
own, and two reads copy a suffix with a loop of their own.

`initialize` of neither contract is guarded, and it empties the history and the approvals.
`newest_entries` says that the logs are the newest of all entries ever appended exactly in the runs
in which no further `initialize` finds an entry. -/

namespace YieldEngine

open CheckedArith Transact BoundedLog LogLoops RunLogs

namespace Rebalance

/-! ### The history of the engine -/

section loops
variable (s : RebalanceStore)

/-- `add_to_history` with the loop that cuts the history. -/
theorem addToHistory_loop (entry : RebalanceHistory) : addToHistory s entry = (do
    let history ← s.storedHistory
    let history ← trimmed missingItem historyLimit (history ++ [entry])
    pure { s with history := some history }) := by
  simp only [trimmed_concat, ok_bind]
  cases h : s.history with
  | none =>
      have hstored : s.storedHistory = .error (.raised (.contract .notInitialized)) := by
        rw [RebalanceStore.storedHistory, h]
        rfl
      rw [addToHistory, hstored, error_bind, error_bind]
  | some history =>
      have hstored : s.storedHistory = .ok history := orRaise_eq_ok.mpr h
      rw [addToHistory_eq_ok.mpr ⟨history, h, rfl⟩, hstored, ok_bind]
      exact (pure_eq_ok.mpr rfl).symm

/-- `get_history` with the loop that copies the entries. -/
theorem getHistory_loop (limit : ℕ) : s.getHistory limit =
    (if limit = 0 then pure []
     else do
       let history ← s.storedHistory
       newest missingItem history limit) := by
  unfold RebalanceStore.getHistory
  simp only [newest_eq]
  split_ifs with hlimit
  · rfl
  · cases h : s.history with
    | none =>
        rw [RebalanceStore.storedHistory, h]
        rfl
    | some history =>
        have hstored : s.storedHistory = .ok history := orRaise_eq_ok.mpr h
        have hread := RebalanceStore.getHistory_eq h limit
        rw [RebalanceStore.getHistory, if_neg hlimit] at hread
        rw [hread, hstored]
        rfl

end loops

/-- The entry that a returning call appends. -/
def historyNote (w : World) : Address ⊕ RebalanceEvent → List RebalanceHistory :=
  Sum.elim (fun _ => []) (recordedEntry w)

/-- All entries appended. -/
def historyLog (admin : Address) (ledger : Ledger) (calls : List (Address ⊕ RebalanceEvent)) :
    List RebalanceHistory :=
  ghostLog (either initializeCall rebalanceStep) historyNote ⟨initialRebalance admin, ledger⟩ calls

theorem history_logging : Logging (either initializeCall rebalanceStep) historyNote
    (fun w => w.store.history) (fun c => c.isLeft = true) historyLimit where
  fresh := by
    intro w c w' hfresh h
    obtain ⟨admin, rfl⟩ := Sum.isLeft_iff.mp hfresh
    obtain rfl := pure_eq_ok.mp h
    exact ⟨rfl, rfl⟩
  append := by
    intro w c w' log hfresh h hlog
    cases c with
    | inl admin => exact absurd rfl hfresh
    | inr event => exact rebalanceStep_recorded h hlog

/-- After these calls the history is the newest of all entries, and `get_history` reads the newest
of them. -/
structure KeepsHistory (admin : Address) (ledger : Ledger)
    (calls : List (Address ⊕ RebalanceEvent)) : Prop where
  history : (reachedBy admin ledger calls).store.history =
    some ((historyLog admin ledger calls).rtake historyLimit)
  read : ∀ limit, (reachedBy admin ledger calls).store.getHistory limit =
    .ok (((historyLog admin ledger calls).rtake historyLimit).rtake limit)

theorem keepsHistory_iff {admin : Address} {ledger : Ledger}
    {calls : List (Address ⊕ RebalanceEvent)} : KeepsHistory admin ledger calls ↔
      (reachedBy admin ledger calls).store.history =
        some ((historyLog admin ledger calls).rtake historyLimit) :=
  ⟨KeepsHistory.history, fun h => ⟨h, RebalanceStore.getHistory_eq h⟩⟩

theorem keepsHistory_run_iff (admin : Address) (ledger : Ledger)
    (calls : List (Address ⊕ RebalanceEvent)) :
    (∀ before, before <+: calls → KeepsHistory admin ledger before) ↔
      Along (either initializeCall rebalanceStep)
        (fun w c => c.isLeft = true → w.store.history = some [])
        ⟨initialRebalance admin, ledger⟩ calls := by
  simp only [keepsHistory_iff]
  refine newest_iff history_logging (fun w c hc => ?_) rfl calls
  obtain ⟨admin', rfl⟩ := Sum.isLeft_iff.mp hc
  exact ⟨_, rfl⟩

end Rebalance

namespace Registry

/-! ### The logs of the registry -/

/-- After these calls the approvals are the newest of all, every stored strategy has the newest of
its records, and `get_performance_history` reads the newest of them. -/
structure KeepsLogs (admin : Address) (calls : List (Address ⊕ Invocation)) : Prop where
  approvals : (registryReached admin calls).approvals =
    some ((approvalLog admin calls).rtake maxApprovals)
  performance : ∀ id strategy, getStrategy (registryReached admin calls) id = .ok strategy →
    strategy.performanceHistory = (recordLog admin id calls).rtake maxPerformanceRecords
  read : ∀ id strategy, getStrategy (registryReached admin calls) id = .ok strategy →
    ∀ limit, getPerformanceHistory (registryReached admin calls) id limit =
      .ok (((recordLog admin id calls).rtake maxPerformanceRecords).rtake limit)

/-- The records are kept in every run. -/
theorem keepsLogs_iff {admin : Address} {calls : List (Address ⊕ Invocation)} :
    KeepsLogs admin calls ↔ (registryReached admin calls).approvals =
      some ((approvalLog admin calls).rtake maxApprovals) := by
  refine ⟨KeepsLogs.approvals, fun h => ⟨h,
    fun id strategy => run_performance_of_stored admin calls,
    fun id strategy hstrategy limit => ?_⟩⟩
  rw [getPerformanceHistory, hstrategy, ok_bind, newest_eq,
    run_performance_of_stored admin calls hstrategy]

theorem keepsLogs_run_iff (admin : Address) (calls : List (Address ⊕ Invocation)) :
    (∀ before, before <+: calls → KeepsLogs admin before) ↔
      Along registryStep (fun s c => c.isLeft = true → s.approvals = some [])
        (initializeRegistry admin) calls := by
  simp only [keepsLogs_iff]
  refine newest_iff approvals_logging (fun s c hc => ?_) rfl calls
  obtain ⟨admin', rfl⟩ := Sum.isLeft_iff.mp hc
  exact ⟨_, rfl⟩

end Registry

/-- In a run of either contract the logs are the newest of all entries, in every state, exactly when
every further `initialize` finds an empty history, or no approvals. -/
theorem newest_entries (admin : Address) :
    (∀ (ledger : Ledger) (calls : List (Address ⊕ Rebalance.RebalanceEvent)),
      (∀ before, before <+: calls → Rebalance.KeepsHistory admin ledger before) ↔
        Along (either Rebalance.initializeCall Rebalance.rebalanceStep)
          (fun w c => c.isLeft = true → w.store.history = some [])
          ⟨Rebalance.initialRebalance admin, ledger⟩ calls) ∧
    ∀ calls : List (Address ⊕ Registry.Invocation),
      (∀ before, before <+: calls → Registry.KeepsLogs admin before) ↔
        Along Registry.registryStep (fun s c => c.isLeft = true → s.approvals = some [])
          (Registry.initializeRegistry admin) calls :=
  ⟨Rebalance.keepsHistory_run_iff admin, Registry.keepsLogs_run_iff admin⟩

/-- An approval, and a further `initialize` after it. -/
def approvedThenInitialized : List (Address ⊕ Registry.Invocation) :=
  [.inr ⟨⟨9, [], 0⟩, .registerStrategy 5 "s" "d" 2 1 10 ⟨0, 0, 0, 0⟩ ⟨[], [], 0, 0, 0⟩⟩,
    .inr ⟨⟨9, [7], 1⟩, .approveStrategy 7 1 "ok"⟩, .inl 7]

/-- The approval is gone. -/
theorem entries_dropped_by_initialize :
    ¬ ((∀ admin ledger calls, Rebalance.KeepsHistory admin ledger calls) ∧
      ∀ admin calls, Registry.KeepsLogs admin calls) := by
  rintro ⟨-, hlogs⟩
  have hkept := (hlogs 7 approvedThenInitialized).approvals
  have hall : Registry.approvalLog 7 approvedThenInitialized = [⟨1, 7, 1, 1, "ok"⟩] := by decide
  have hnone : (Registry.registryReached 7 approvedThenInitialized).approvals = some [] := by
    decide
  rw [hall, hnone] at hkept
  exact absurd hkept (by decide)

end YieldEngine
