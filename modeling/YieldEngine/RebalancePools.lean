import YieldEngine.InitializeOnce
import YieldEngine.RebalanceBreaker

/-! # Breakers of different pools

The breaker of a pool reads the newest entries of the pool, as many as its threshold, out of
the one history that all pools share.  `poolHistoryLoop_eq` says what the loop over the history
computes, and `isPoolEmergencyStopTriggered_eq` what the breaker decides.

The history keeps its newest 1000 entries.  Entries of other pools cannot change what the
breaker reads, but they can push entries of the pool out.  `pool_breakers_agree_iff` compares two
runs from one start that record the same entries of a pool: the breaker of the pool answers
alike, unless the newest entries of the pool are all failures and only one of the two histories
still keeps enough of them. -/

namespace YieldEngine.Rebalance

open CheckedArith BoundedLog Transact

/-! ### What the breaker of a pool decides -/

/-- The entries of a pool. -/
def touching (poolId : Address) (entries : List RebalanceHistory) : List RebalanceHistory :=
  entries.filter fun entry => entry.Touches poolId

section touching
variable {poolId : Address}

theorem touching_append (l l' : List RebalanceHistory) :
    touching poolId (l ++ l') = touching poolId l ++ touching poolId l' := by
  unfold touching
  exact List.filter_append l l'

theorem touching_reverse (l : List RebalanceHistory) :
    touching poolId l.reverse = (touching poolId l).reverse := by
  unfold touching
  exact List.filter_reverse

theorem touching_cons_of_touches {entry : RebalanceHistory} (h : entry.Touches poolId)
    (l : List RebalanceHistory) : touching poolId (entry :: l) = entry :: touching poolId l :=
  List.filter_cons_of_pos (decide_eq_true h)

theorem touching_cons_of_not {entry : RebalanceHistory} (h : ¬ entry.Touches poolId)
    (l : List RebalanceHistory) : touching poolId (entry :: l) = touching poolId l := by
  apply List.filter_cons_of_neg
  rwa [decide_eq_true_eq]

/-- A limit on the shared entries acts on a pool as some limit on its own. -/
theorem touching_rtake (limit : ℕ) (l : List RebalanceHistory) :
    touching poolId (l.rtake limit) =
      (touching poolId l).rtake (touching poolId (l.rtake limit)).length := by
  unfold touching
  exact filter_rtake _ limit l

end touching

/-- The loop of `get_pool_history` takes the first `limit` entries of the pool. -/
theorem poolHistoryLoop_eq (poolId : Address) (limit : ℕ) :
    ∀ (unread matching : List RebalanceHistory), matching.length < limit →
      poolHistoryLoop poolId limit unread matching =
        (matching ++ touching poolId unread).take limit := by
  intro unread
  induction unread with
  | nil =>
      intro matching hshort
      rw [poolHistoryLoop, touching, List.filter_nil, List.append_nil,
        List.take_of_length_le hshort.le]
  | cons entry older ih =>
      intro matching hshort
      rw [poolHistoryLoop]
      split_ifs with htouches hfull
      · have hlimit : limit = (matching ++ [entry]).length := by
          rw [List.length_append, List.length_singleton] at hfull ⊢
          omega
        rw [touching_cons_of_touches htouches,
          List.append_cons matching entry (touching poolId older), hlimit, List.take_left]
      · rw [ih _ (not_le.mp hfull), touching_cons_of_touches htouches,
          List.append_cons matching entry (touching poolId older)]
      · rw [ih _ hshort, touching_cons_of_not htouches]

theorem getPoolHistory_eq {s : RebalanceStore} {history : List RebalanceHistory}
    (h : s.history = some history) (poolId : Address) (limit : ℕ) :
    getPoolHistory s poolId limit = .ok ((touching poolId history).rtake limit).reverse := by
  unfold getPoolHistory
  rw [List.rtake_eq_reverse_take_reverse, List.reverse_reverse]
  split_ifs with hlimit
  · rw [hlimit, List.take_zero]
    rfl
  · have hloop := poolHistoryLoop_eq poolId limit history.reverse [] (Nat.pos_of_ne_zero hlimit)
    rw [h, ← touching_reverse, ← List.nil_append (touching poolId history.reverse), ← hloop]
    rfl

/-- The newest `threshold` entries exist and are all failures. -/
def FailedRow (threshold : ℕ) (entries : List RebalanceHistory) : Prop :=
  threshold ≤ entries.length ∧ ∀ entry ∈ entries.rtake threshold, entry.success = false

instance (threshold : ℕ) (entries : List RebalanceHistory) :
    Decidable (FailedRow threshold entries) := inferInstanceAs (Decidable (_ ∧ _))

/-- The breaker is triggered by a row of failures of the pool. -/
theorem isPoolEmergencyStopTriggered_eq {s : RebalanceStore} {history : List RebalanceHistory}
    (h : s.history = some history) (poolId : Address) :
    isPoolEmergencyStopTriggered s poolId =
      .ok (decide (FailedRow (s.getPoolBreakerThreshold poolId) (touching poolId history))) := by
  unfold isPoolEmergencyStopTriggered
  dsimp only
  rw [getPoolHistory_eq h]
  change (if _ then _ else _) = _
  rw [List.length_reverse, length_rtake]
  split_ifs with hfew
  · have hno : ¬ FailedRow (s.getPoolBreakerThreshold poolId) (touching poolId history) :=
      fun hrow => by have := hrow.1; omega
    rw [decide_eq_false hno]
    rfl
  · have hmany : s.getPoolBreakerThreshold poolId ≤ (touching poolId history).length := by omega
    apply congrArg Except.ok
    rw [Bool.eq_iff_iff, decide_eq_true_eq, List.all_eq_true]
    simp only [List.mem_reverse, Bool.not_eq_true', FailedRow, hmany, true_and]

/-- Among the newest `kept` entries there is a row of failures when that many are kept and the
newest of all entries are failures. -/
theorem failedRow_rtake {threshold kept : ℕ} {entries : List RebalanceHistory}
    (hkept : kept ≤ entries.length) : FailedRow threshold (entries.rtake kept) ↔
      threshold ≤ kept ∧ ∀ entry ∈ entries.rtake threshold, entry.success = false := by
  unfold FailedRow
  rw [length_rtake, rtake_rtake, Nat.min_eq_left hkept]
  apply and_congr_right
  intro hthreshold
  rw [Nat.min_eq_left hthreshold]

/-! ### What a run records -/

/-- The entry a returning `execute_rebalance` records. -/
def recordedEntry (w : World) : RebalanceEvent → List RebalanceHistory
  | .call ⟨e, _, .executeRebalance p⟩ =>
      match budgetAllows e w.store p.fromPool (p.amountA + p.amountB),
        executeRebalance e w p with
      | .ok true, .ok (_, success) =>
          if Bounded p then [historyEntry e w.store p success] else []
      | _, _ => []
  | _ => []

/-- The entries a run records. -/
def entryLog : World → List RebalanceEvent → List RebalanceHistory :=
  ghostLog rebalanceStep recordedEntry

/-- The history the engine keeps, or nothing before `initialize`. -/
def World.entries (w : World) : List RebalanceHistory := w.store.history.getD []

theorem budgetAllows_of_paced {e : Env} {s : RebalanceStore} {poolId : Address} {moved : ℤ}
    (h : Paced e s poolId moved) : budgetAllows e s poolId moved = .ok true := by
  unfold budgetAllows
  split_ifs with hmoved
  · exact h hmoved
  · rfl

theorem executed_recorded {e : Env} {vaultPool : Address → Option Address} {w w' : World}
    {p : RebalanceProposal} {b : Bool} {history : List RebalanceHistory}
    (h : executeRebalance e w p = .ok (w', b)) (hhistory : w.store.history = some history) :
    w'.store.history = some ((recordedEntry w (.call ⟨e, vaultPool, .executeRebalance p⟩)).foldl
      (push historyLimit) history) := by
  unfold recordedEntry
  cases (executeRebalance_executed h).2 with
  | overBudget hmoved hpacing =>
      have hover : budgetAllows e w.store p.fromPool (p.amountA + p.amountB) = .ok false := by
        rw [budgetAllows, if_pos hmoved, hpacing]
      simp only [hover]
      exact hhistory
  | unbounded hpaced hbound =>
      simp only [budgetAllows_of_paced hpaced, h, if_neg hbound]
      exact hhistory
  | malformed hpaced hbound hamounts hstored =>
      obtain rfl := Option.some.inj (hhistory.symm.trans hstored)
      simp only [budgetAllows_of_paced hpaced, h, if_pos hbound, List.foldl_cons,
        List.foldl_nil, RebalanceStore.logged]
  | moved hpaced hbound hmoved hrecord hstored =>
      obtain rfl := Option.some.inj (hhistory.symm.trans hstored)
      simp only [budgetAllows_of_paced hpaced, h, if_pos hbound, List.foldl_cons,
        List.foldl_nil, RebalanceStore.logged]

theorem rebalanceStep_recorded {w w' : World} {event : RebalanceEvent}
    {history : List RebalanceHistory} (h : rebalanceStep w event = .ok w')
    (hhistory : w.store.history = some history) :
    w'.store.history = some ((recordedEntry w event).foldl (push historyLimit) history) := by
  cases event with
  | tokens ledger =>
      obtain rfl := pure_eq_ok.mp h
      exact hhistory
  | call c =>
      obtain ⟨e, vaultPool, action⟩ := c
      by_cases hexecute : ∃ proposal, action = .executeRebalance proposal
      · obtain ⟨proposal, rfl⟩ := hexecute
        obtain ⟨⟨w₁, b⟩, hreturned, rfl⟩ := map_eq_ok.mp h
        exact executed_recorded hreturned hhistory
      · have hsame := (exec_log (fun proposal hp => hexecute ⟨proposal, hp⟩) h).2
        cases action with
        | executeRebalance proposal => exact absurd ⟨proposal, rfl⟩ hexecute
        | _ => exact hsame.trans hhistory

/-- A rebalance leaves the thresholds of the breakers alone. -/
theorem rebalanceStep_thresholds {w w' : World} {event : RebalanceEvent}
    (hevent : event.Rebalances) (h : rebalanceStep w event = .ok w') :
    w'.store.poolBreakerThresh = w.store.poolBreakerThresh := by
  cases event with
  | tokens ledger =>
      obtain rfl := pure_eq_ok.mp h
      rfl
  | call c =>
      obtain ⟨e, vaultPool, action⟩ := c
      cases action with
      | executeRebalance p =>
          obtain ⟨⟨w₁, b⟩, hreturned, rfl⟩ := map_eq_ok.mp h
          obtain ⟨windows, history, hstore⟩ := (executeRebalance_executed hreturned).2.frame
          rw [hstore]
      | executeFlashRebalance vaultId opportunity amount =>
          obtain ⟨⟨w₁, b⟩, hreturned, rfl⟩ := map_eq_ok.mp h
          obtain ⟨windows, times, hstore⟩ := (executeFlashRebalance_flashed hreturned).2.frame
          rw [hstore]
      | _ => exact hevent.elim

/-! ### Runs -/

/-- The engine has been initialised, and keeps no more entries than its limit. -/
def Trimmed (w : World) : Prop :=
  ∃ history, w.store.history = some history ∧ history.length ≤ historyLimit

theorem trimmed_step {w w' : World} (hw : Trimmed w) {c : Address ⊕ RebalanceEvent}
    (h : either initializeCall rebalanceStep w c = .ok w') : Trimmed w' := by
  obtain ⟨history, hhistory, hlength⟩ := hw
  cases c with
  | inl admin =>
      obtain rfl := pure_eq_ok.mp h
      exact ⟨[], rfl, Nat.zero_le _⟩
  | inr event =>
      exact ⟨_, rebalanceStep_recorded h hhistory, length_foldl_push_le hlength _⟩

/-- The state a deployed engine is in after `calls`, which may initialise it again. -/
def reachedBy (admin : Address) (ledger : Ledger) (calls : List (Address ⊕ RebalanceEvent)) :
    World :=
  run (either initializeCall rebalanceStep) ⟨initialRebalance admin, ledger⟩ calls

theorem trimmed_reachedBy (admin : Address) (ledger : Ledger)
    (calls : List (Address ⊕ RebalanceEvent)) : Trimmed (reachedBy admin ledger calls) := by
  apply run_invariant
  · intro w c w' hw h
    exact trimmed_step hw h
  · exact ⟨[], rfl, Nat.zero_le _⟩

/-- A run keeps the newest entries of those there were and those it records. -/
theorem run_entries {w : World} (hw : Trimmed w) (events : List RebalanceEvent) :
    (run rebalanceStep w events).store.history =
      some ((w.entries ++ entryLog w events).rtake historyLimit) := by
  obtain ⟨history, hhistory, hlength⟩ := hw
  have hstart : w.entries = history := by rw [World.entries, hhistory, Option.getD_some]
  have hstep : ∀ log v event v',
      v.store.history = some (log.foldl (push historyLimit) history) → True →
      rebalanceStep v event = .ok v' →
      v'.store.history =
        some ((log ++ recordedEntry v event).foldl (push historyLimit) history) := by
    intro log v event v' hv _ h
    rw [List.foldl_append]
    exact rebalanceStep_recorded h hv
  have hrun := run_log_invariant hstep events w [] hhistory (along_true events w)
  rw [List.nil_append] at hrun
  rw [hrun, foldl_push hlength, hstart]
  rfl

theorem run_thresholds {w : World} {events : List RebalanceEvent}
    (hevents : ∀ event ∈ events, event.Rebalances) :
    (run rebalanceStep w events).store.poolBreakerThresh = w.store.poolBreakerThresh := by
  have hstep : ∀ v event v', v.store.poolBreakerThresh = w.store.poolBreakerThresh →
      event.Rebalances → rebalanceStep v event = .ok v' →
      v'.store.poolBreakerThresh = w.store.poolBreakerThresh :=
    fun v event v' hv hevent h => (rebalanceStep_thresholds hevent h).trans hv
  exact run_invariant_along hstep events w rfl (along_of_forall events w hevents)

/-- The entries of a pool among the newest entries, to which the history is cut. -/
def keptEntries (poolId : Address) (entries : List RebalanceHistory) : ℕ :=
  (touching poolId (entries.rtake historyLimit)).length

/-- After a run of rebalances, the breaker of a pool is triggered when enough entries of the
pool are kept and the newest of all its entries are failures. -/
theorem run_breaker {w : World} (hw : Trimmed w) (poolId : Address)
    {events : List RebalanceEvent} (hevents : ∀ event ∈ events, event.Rebalances) :
    isPoolEmergencyStopTriggered (run rebalanceStep w events).store poolId =
      .ok (decide (w.store.getPoolBreakerThreshold poolId ≤
          keptEntries poolId (w.entries ++ entryLog w events) ∧
        ∀ entry ∈ (touching poolId (w.entries ++ entryLog w events)).rtake
          (w.store.getPoolBreakerThreshold poolId), entry.success = false)) := by
  have hthreshold : (run rebalanceStep w events).store.getPoolBreakerThreshold poolId =
      w.store.getPoolBreakerThreshold poolId := by
    rw [RebalanceStore.getPoolBreakerThreshold, run_thresholds hevents]
    rfl
  have hkept : keptEntries poolId (w.entries ++ entryLog w events) ≤
      (touching poolId (w.entries ++ entryLog w events)).length := by
    have hlength := congrArg List.length
      (touching_rtake historyLimit (w.entries ++ entryLog w events) : touching poolId _ = _)
    rw [length_rtake] at hlength
    unfold keptEntries
    omega
  rw [isPoolEmergencyStopTriggered_eq (run_entries hw events), hthreshold, touching_rtake]
  apply congrArg Except.ok
  rw [decide_eq_decide]
  exact failedRow_rtake hkept

/-- Two runs of rebalances that record the same entries of a pool: its breaker answers alike
unless the newest entries of the pool are all failures and enough of them are still kept after
only one of the runs. -/
theorem pool_breakers_agree_iff (admin : Address) (ledger : Ledger)
    (before : List (Address ⊕ RebalanceEvent)) (poolId : Address)
    (events₁ events₂ : List RebalanceEvent) :
    let start := reachedBy admin ledger before
    let threshold := start.store.getPoolBreakerThreshold poolId
    let recorded₁ := start.entries ++ entryLog start events₁
    let recorded₂ := start.entries ++ entryLog start events₂
    (∀ event ∈ events₁, event.Rebalances) → (∀ event ∈ events₂, event.Rebalances) →
    touching poolId (entryLog start events₁) = touching poolId (entryLog start events₂) →
    (isPoolEmergencyStopTriggered (run rebalanceStep start events₁).store poolId =
        isPoolEmergencyStopTriggered (run rebalanceStep start events₂).store poolId ↔
      ((∀ entry ∈ (touching poolId recorded₁).rtake threshold, entry.success = false) →
        (threshold ≤ keptEntries poolId recorded₁ ↔
          threshold ≤ keptEntries poolId recorded₂))) := by
  intro start threshold recorded₁ recorded₂ hevents₁ hevents₂ hsame
  have hw : Trimmed start := trimmed_reachedBy admin ledger before
  have htouching : touching poolId recorded₁ = touching poolId recorded₂ := by
    rw [touching_append, hsame, ← touching_append]
  rw [run_breaker hw poolId hevents₁, run_breaker hw poolId hevents₂, Except.ok.injEq,
    decide_eq_decide]
  change (threshold ≤ keptEntries poolId recorded₁ ∧
      (∀ entry ∈ (touching poolId recorded₁).rtake threshold, entry.success = false) ↔
    threshold ≤ keptEntries poolId recorded₂ ∧
      (∀ entry ∈ (touching poolId recorded₂).rtake threshold, entry.success = false)) ↔ _
  rw [← htouching, and_congr_left_iff]

/-! ### Entries pushed out -/

/-- The engine after `initialize`, with a history. -/
def openedWith (history : List RebalanceHistory) : World :=
  ⟨{ initialRebalance 7 with history := some history }, fun _ _ => 0⟩

/-- Somebody proposes to take nothing out of a pool. -/
def malformed (pools : Address × Address) : RebalanceEvent :=
  .call ⟨⟨9, [], 1⟩, fun _ => none,
    .executeRebalance ⟨pools.1, pools.2, 0, 5, 0, 50000, 1, 1⟩⟩

/-- The failure recorded for it. -/
def failedEntry (pools : Address × Address) : RebalanceHistory :=
  ⟨1, pools.1, pools.2, 5, 0, 0, false⟩

theorem malformed_step (history : List RebalanceHistory) (pools : Address × Address) :
    rebalanceStep (openedWith history) (malformed pools) =
      .ok (openedWith (push historyLimit history (failedEntry pools))) := by
  have hlog : addToHistory (openedWith history).store (failedEntry pools) =
      .ok (openedWith (push historyLimit history (failedEntry pools))).store :=
    addToHistory_eq_ok.mpr ⟨history, rfl, rfl⟩
  have hexecute : executeRebalance ⟨9, [], 1⟩ (openedWith history)
      ⟨pools.1, pools.2, 0, 5, 0, 50000, 1, 1⟩ = (do
        let s ← addToHistory (openedWith history).store (failedEntry pools)
        pure (⟨s, fun _ _ => 0⟩, false)) := rfl
  rw [hlog] at hexecute
  exact map_eq_ok.mpr ⟨_, hexecute, rfl⟩

theorem malformed_recorded (history : List RebalanceHistory) (pools : Address × Address) :
    recordedEntry (openedWith history) (malformed pools) = [failedEntry pools] := by
  obtain ⟨⟨w', b⟩, hreturned, hw'⟩ := map_eq_ok.mp (malformed_step history pools)
  obtain rfl : b = false := by
    cases (executeRebalance_executed hreturned).2 with
    | moved hpaced hbound hmoved => exact absurd hmoved.1 (lt_irrefl 0)
    | _ => rfl
  have hbudget : budgetAllows ⟨9, [], 1⟩ (openedWith history).store pools.1 (0 + 5) = .ok true :=
    rfl
  unfold recordedEntry malformed
  simp only [hbudget, hreturned]
  rfl

theorem malformed_entryLog (pools : List (Address × Address)) :
    ∀ history, entryLog (openedWith history) (pools.map malformed) = pools.map failedEntry := by
  unfold entryLog
  induction pools with
  | nil => exact fun _ => rfl
  | cons pool pools ih =>
      intro history
      rw [List.map_cons, List.map_cons, ghostLog, malformed_step]
      dsimp only
      rw [malformed_recorded, ih]
      rfl

theorem openedEngine_entryLog (pools : List (Address × Address)) :
    entryLog openedEngine (pools.map malformed) = pools.map failedEntry :=
  malformed_entryLog pools []

theorem malformed_rebalances (pools : List (Address × Address)) :
    ∀ event ∈ pools.map malformed, event.Rebalances := by
  intro event hevent
  obtain ⟨pool, -, rfl⟩ := List.mem_map.mp hevent
  trivial

/-- Three failures of the pools 1 and 2. -/
def failures : List (Address × Address) := List.replicate 3 (1, 2)

/-- A thousand failures of two other pools. -/
def otherFailures : List (Address × Address) := List.replicate historyLimit (3, 4)

theorem touching_otherFailures : touching 1 (otherFailures.map failedEntry) = [] := by
  unfold touching otherFailures
  rw [List.map_replicate, List.filter_replicate_of_neg (by decide)]

/-- Three failures trip the breaker of pool 1.  With as many failures of two other pools after
them as the history keeps, they do not, although no further entry touches pool 1. -/
theorem failures_pushed_out :
    (∀ event ∈ (failures ++ otherFailures).map malformed, event.Rebalances) ∧
    touching 1 (entryLog openedEngine (failures.map malformed)) =
      touching 1 (entryLog openedEngine ((failures ++ otherFailures).map malformed)) ∧
    isPoolEmergencyStopTriggered
      (run rebalanceStep openedEngine (failures.map malformed)).store 1 = .ok true ∧
    isPoolEmergencyStopTriggered (run rebalanceStep openedEngine
      ((failures ++ otherFailures).map malformed)).store 1 = .ok false := by
  have hw : Trimmed openedEngine := ⟨[], rfl, Nat.zero_le _⟩
  refine ⟨malformed_rebalances _, ?_, ?_, ?_⟩
  · rw [openedEngine_entryLog, openedEngine_entryLog, List.map_append, touching_append,
      touching_otherFailures, List.append_nil]
  · rw [run_breaker hw 1 (malformed_rebalances _), openedEngine_entryLog]
    decide
  · have hpushed : ((failures ++ otherFailures).map failedEntry).rtake historyLimit =
        otherFailures.map failedEntry := by
      have hlength : (otherFailures.map failedEntry).length = historyLimit := by
        rw [List.length_map, otherFailures, List.length_replicate]
      have hsuffix : otherFailures.map failedEntry <:+
          (failures ++ otherFailures).map failedEntry := by
        rw [List.map_append]
        exact List.suffix_append _ _
      rw [← hlength]
      exact rtake_of_suffix hsuffix
    have hkept : keptEntries 1 (openedEngine.entries ++
        (failures ++ otherFailures).map failedEntry) = 0 := by
      have hnone : openedEngine.entries = [] := rfl
      rw [keptEntries, hnone, List.nil_append, hpushed, touching_otherFailures, List.length_nil]
    rw [run_breaker hw 1 (malformed_rebalances _), openedEngine_entryLog, hkept]
    rfl

/-- One failure of two other pools does not push anything out. -/
theorem pool_breakers_agree_iff_failures :
    isPoolEmergencyStopTriggered
        (run rebalanceStep openedEngine (failures.map malformed)).store 1 =
      isPoolEmergencyStopTriggered (run rebalanceStep openedEngine
        ((failures ++ [(3, 4)]).map malformed)).store 1 := by
  have hstart : reachedBy 7 (fun _ _ => 0) [] = openedEngine := rfl
  have hfailures := malformed_rebalances failures
  have hmore := malformed_rebalances (failures ++ [(3, 4)])
  rw [← hstart]
  apply (pool_breakers_agree_iff 7 (fun _ _ => 0) [] 1 _ _ hfailures hmore _).mpr
  · intro _
    rw [hstart, openedEngine_entryLog, openedEngine_entryLog]
    decide
  · rw [hstart, openedEngine_entryLog, openedEngine_entryLog]
    decide

end YieldEngine.Rebalance
