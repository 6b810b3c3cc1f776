import YieldEngine.RebalanceWrites

/-! # Failed rebalances and the circuit breaker

The breaker is meant to stop the engine after three failed rebalances in a row, and it reads
nothing but the history.  `execute_rebalance` returns `false` in three places, of which only
the last is reached with an entry: a proposal over the pool's budget, and one that fails the
slippage check, are turned down before anything is recorded.

`executed_appended_iff` says when a returning call is recorded with the result it reports.
`run_newest_results` is the consequence for runs: as long as the condition is met, the newest
results in the history are the newest results reported, whatever is called in between. -/

namespace YieldEngine.Rebalance

open CheckedArith BoundedLog

/-- One entry was appended, and it reports `b`. -/
def Appended (s s' : RebalanceStore) (b : Bool) : Prop :=
  ∃ history entry, s.history = some history ∧ entry.success = b ∧
    s'.history = some (push historyLimit history entry)

/-- The history is full of copies of one failed entry, so one more does not show. -/
def Saturated (s : RebalanceStore) : Prop :=
  ∃ entry : RebalanceHistory, entry.success = false ∧
    s.history = some (List.replicate historyLimit entry)

/-- The proposal passes the two checks made before anything is recorded. -/
def Counted (e : Env) (s : RebalanceStore) (p : RebalanceProposal) : Prop :=
  (Paced e s p.fromPool (p.amountA + p.amountB) ∧ Bounded p) ∨ Saturated s

/-- The event is not an `execute_rebalance` that returns without being counted. -/
def CountedCall (w : World) : RebalanceEvent → Prop
  | .call ⟨e, _, .executeRebalance proposal⟩ => ∀ w' b,
      executeRebalance e w proposal = .ok (w', b) → Counted e w.store proposal
  | _ => True

/-- The cells the breaker needs have been written by `initialize`. -/
structure Initialized (s : RebalanceStore) : Prop where
  admin : ∃ admin, s.admin = some admin
  history : ∃ history, s.history = some history

/-! ### One call -/

theorem appended_self_iff {s : RebalanceStore} : Appended s s false ↔ Saturated s := by
  constructor
  · rintro ⟨history, entry, hhistory, hfailed, hsame⟩
    rw [hhistory] at hsame
    have hfull := push_eq_self_iff.mp (Option.some.inj hsame).symm
    exact ⟨entry, hfailed, hfull ▸ hhistory⟩
  · rintro ⟨entry, hfailed, hfull⟩
    exact ⟨_, entry, hfull, hfailed, (push_eq_self_iff.mpr rfl).symm ▸ hfull⟩

theorem Executed.appended_iff {e : Env} {w w' : World} {p : RebalanceProposal} {b : Bool}
    (h : Executed e w p w' b) : Appended w.store w'.store b ↔ Counted e w.store p := by
  cases h with
  | overBudget hmoved hpacing =>
      rw [appended_self_iff]
      constructor
      · exact .inr
      · rintro (⟨hpaced, -⟩ | hfull)
        · have hallowed := hpaced hmoved
          rw [hpacing] at hallowed
          injection hallowed with hallowed
          cases hallowed
        · exact hfull
  | unbounded hpaced hbound =>
      rw [appended_self_iff]
      constructor
      · exact .inr
      · rintro (⟨-, hbounded⟩ | hfull)
        · exact absurd hbounded hbound
        · exact hfull
  | malformed hpaced hbound hamounts hhistory =>
      apply iff_of_true
      · exact ⟨_, _, hhistory, rfl, rfl⟩
      · exact .inl ⟨hpaced, hbound⟩
  | moved hpaced hbound hmoved hrecord hhistory =>
      apply iff_of_true
      · exact ⟨_, _, hhistory, rfl, rfl⟩
      · exact .inl ⟨hpaced, hbound⟩

theorem executed_appended_iff {e : Env} {w w' : World} {p : RebalanceProposal} {b : Bool}
    (h : executeRebalance e w p = .ok (w', b)) :
    Appended w.store w'.store b ↔ Counted e w.store p :=
  (executeRebalance_executed h).2.appended_iff

/-! ### Runs -/

/-- The newest results recorded are those of `results`. -/
structure Newest (m : ℕ) (results : List Bool) (s : RebalanceStore) : Prop where
  admin : ∃ admin, s.admin = some admin
  history : ∃ history, s.history = some history ∧
    (history.map RebalanceHistory.success).rtake m = results.rtake m

theorem newest_step {m : ℕ} (hm : m ≤ historyLimit) {results : List Bool} {w w' : World}
    {event : RebalanceEvent} (hs : Newest m results w.store) (hcounted : CountedCall w event)
    (h : rebalanceStep w event = .ok w') :
    Newest m (results ++ executionResult w event) w'.store := by
  obtain ⟨⟨admin, hadmin⟩, history, hhistory, hnewest⟩ := hs
  -- whatever is not an `execute_rebalance` reports nothing and keeps the history
  have hsilent : executionResult w event = [] → w'.store.admin = w.store.admin →
      w'.store.history = w.store.history →
      Newest m (results ++ executionResult w event) w'.store := by
    intro hnone hsame hkept
    rw [hnone, List.append_nil]
    exact ⟨⟨admin, hsame.trans hadmin⟩, history, hkept.trans hhistory, hnewest⟩
  cases event with
  | tokens ledger =>
      obtain rfl := pure_eq_ok.mp h
      exact hsilent rfl rfl rfl
  | call c =>
      obtain ⟨e, vaultPool, action⟩ := c
      by_cases hexecute : ∃ proposal, action = .executeRebalance proposal
      · obtain ⟨proposal, rfl⟩ := hexecute
        obtain ⟨⟨w₁, b⟩, hreturned, rfl⟩ := map_eq_ok.mp h
        obtain ⟨history₀, entry, hhistory₀, hresult, hlogged⟩ :=
          (executed_appended_iff hreturned).mpr (hcounted w₁ b hreturned)
        obtain rfl : history = history₀ := Option.some.inj (hhistory.symm.trans hhistory₀)
        have hreported : executionResult w (.call ⟨e, vaultPool, .executeRebalance proposal⟩) =
            [b] := by
          simp only [executionResult, hreturned]
        have hadmin' := (executeRebalance_executed hreturned).2.admin.trans hadmin
        refine ⟨⟨admin, hadmin'⟩, _, hlogged, ?_⟩
        calc ((push historyLimit history entry).map RebalanceHistory.success).rtake m
            = ((history ++ [entry]).map RebalanceHistory.success).rtake m := by
              rw [← map_rtake, rtake_push hm, map_rtake]
          _ = (history.map RebalanceHistory.success ++ [b]).rtake m := by
              rw [List.map_append, List.map_singleton, hresult]
          _ = (results ++ [b]).rtake m := by
              rw [← rtake_append_rtake le_rfl, hnewest, rtake_append_rtake le_rfl]
          _ = (results ++ executionResult w _).rtake m := by
              rw [hreported]
      · have hsame := exec_log (fun proposal hp => hexecute ⟨proposal, hp⟩) h
        apply hsilent _ hsame.1 hsame.2
        cases action with
        | executeRebalance proposal => exact absurd ⟨proposal, rfl⟩ hexecute
        | _ => rfl

/-- In a run whose executions are all counted, the newest results recorded are the newest
results reported, preceded by those recorded before the run. -/
theorem run_newest_results {m : ℕ} (hm : m ≤ historyLimit) {w : World} {admin : Address}
    {history : List RebalanceHistory} (hadmin : w.store.admin = some admin)
    (hhistory : w.store.history = some history) (events : List RebalanceEvent)
    (hcounted : Transact.Along rebalanceStep CountedCall w events) :
    Newest m (history.map RebalanceHistory.success ++
      Transact.ghostLog rebalanceStep executionResult w events)
      (Transact.run rebalanceStep w events).store := by
  rw [← List.nil_append (Transact.ghostLog rebalanceStep executionResult w events)]
  apply Transact.run_log_invariant (Q := CountedCall)
    (I := fun log w => Newest m (history.map RebalanceHistory.success ++ log) w.store)
  · intro log w event w' hs hevent h
    rw [← List.append_assoc]
    exact newest_step hm hs hevent h
  · rw [List.append_nil]
    exact ⟨⟨admin, hadmin⟩, history, hhistory, rfl⟩
  · exact hcounted

/-! ### The breaker -/

theorem isEmergencyStopTriggered_of_newest {s : RebalanceStore} {history : List RebalanceHistory}
    (hhistory : s.history = some history)
    (hnewest : (history.map RebalanceHistory.success).rtake emergencyStopWindow =
      [false, false, false]) : isEmergencyStopTriggered s = .ok true := by
  rw [← map_rtake] at hnewest
  obtain ⟨third, rest, hrest, hthird, hnewest⟩ := List.map_eq_cons_iff.mp hnewest
  obtain ⟨second, rest, rfl, hsecond, hnewest⟩ := List.map_eq_cons_iff.mp hnewest
  obtain ⟨first, rest, rfl, hfirst, hnewest⟩ := List.map_eq_cons_iff.mp hnewest
  obtain rfl := List.map_eq_nil_iff.mp hnewest
  have hread : s.getHistory emergencyStopWindow = .ok [third, second, first] :=
    (RebalanceStore.getHistory_eq hhistory _).trans (congrArg Except.ok hrest)
  have htrips : breakerTrips first.success second.success third.success = true := by
    rw [hfirst, hsecond, hthird]
    rfl
  rw [isEmergencyStopTriggered, hread]
  exact congrArg Except.ok htrips

/-- Checking a tripped breaker pauses the engine. -/
theorem checkEmergencyStop_of_triggered {s : RebalanceStore} {admin : Address}
    (hadmin : s.admin = some admin) (htriggered : isEmergencyStopTriggered s = .ok true) :
    checkEmergencyStop s = .ok ({ s with paused := some true }, true) := by
  have hgetAdmin : s.getAdmin = .ok admin := orRaise_eq_ok.mpr hadmin
  have hguard : s.requireAdmin admin = .ok () := RebalanceStore.requireAdmin_eq_ok.mpr hadmin
  have hpause : pause s admin = .ok { s with paused := some true } :=
    bind_eq_ok.mpr ⟨(), hguard, rfl⟩
  apply bind_eq_ok.mpr ⟨true, htriggered, _⟩
  rw [stopIf, if_neg Bool.noConfusion]
  apply bind_eq_ok.mpr ⟨admin, hgetAdmin, _⟩
  exact bind_eq_ok.mpr ⟨_, hpause, rfl⟩

/-- A returning `execute_rebalance` is recorded with the result it reports if and only if its
proposal is counted; and when every execution of a run is counted, three failures in a row
trip the breaker and a check then pauses the engine. -/
theorem failures_counted (w : World) :
    (∀ e w' p b, executeRebalance e w p = .ok (w', b) →
      (Appended w.store w'.store b ↔ Counted e w.store p)) ∧
    ∀ events, Initialized w.store → Transact.Along rebalanceStep CountedCall w events →
      [false, false, false] <:+ Transact.ghostLog rebalanceStep executionResult w events →
      isEmergencyStopTriggered (Transact.run rebalanceStep w events).store = .ok true ∧
        ∃ s', checkEmergencyStop (Transact.run rebalanceStep w events).store = .ok (s', true) ∧
          s'.isPaused = true := by
  refine ⟨fun e w' p b h => executed_appended_iff h, ?_⟩
  rintro events ⟨⟨admin, hadmin⟩, history, hhistory⟩ hcounted hfailed
  obtain ⟨⟨admin', hadmin'⟩, history', hhistory', hnewest⟩ :=
    run_newest_results (m := emergencyStopWindow) (by decide) hadmin hhistory events hcounted
  have hlast := rtake_of_suffix
    (hfailed.trans (List.suffix_append (history.map RebalanceHistory.success) _))
  have htriggered := isEmergencyStopTriggered_of_newest hhistory' (hnewest.trans hlast)
  exact ⟨htriggered, _, checkEmergencyStop_of_triggered hadmin' htriggered, rfl⟩

/-- The engine after `initialize`, without any tokens. -/
def openedEngine : World := ⟨initialRebalance 7, fun _ _ => 0⟩

/-- Somebody proposes to move `amountA` and `amountB` from pool 1 to pool 2. -/
def proposing (amountA amountB minOutput : ℤ) : RebalanceEvent :=
  .call ⟨⟨9, [], 1⟩, fun _ => none,
    .executeRebalance ⟨1, 2, amountA, amountB, 0, 50000, 1, minOutput⟩⟩

/-- Three malformed proposals that pass both checks trip the breaker. -/
theorem failures_counted_malformed :
    isEmergencyStopTriggered (Transact.run rebalanceStep openedEngine
      [proposing 0 5 1, proposing 0 5 1, proposing 0 5 1]).store = .ok true ∧
    ∃ s', checkEmergencyStop (Transact.run rebalanceStep openedEngine
      [proposing 0 5 1, proposing 0 5 1, proposing 0 5 1]).store = .ok (s', true) ∧
        s'.isPaused = true := by
  have hcounted : ∀ w : World, w.store.rebalancePacing = none →
      CountedCall w (proposing 0 5 1) := by
    intro w hpacing w' b _
    refine .inl ⟨fun _ => ?_, by decide⟩
    rw [pacingAllows, RebalanceStore.getRebalancePacing, hpacing]
    rfl
  apply (failures_counted openedEngine).2
  · exact ⟨⟨7, rfl⟩, [], rfl⟩
  · exact ⟨hcounted _ rfl, hcounted _ (by decide), hcounted _ (by decide), trivial⟩
  · decide

/-- Three proposals without a bound on the output: each is turned down, none is recorded, and
the breaker does not trip. -/
theorem rejections_not_counted :
    Transact.ghostLog rebalanceStep executionResult openedEngine
        [proposing 10 10 0, proposing 10 10 0, proposing 10 10 0] = [false, false, false] ∧
      (Transact.run rebalanceStep openedEngine
        [proposing 10 10 0, proposing 10 10 0, proposing 10 10 0]).store.history = some [] ∧
      isEmergencyStopTriggered (Transact.run rebalanceStep openedEngine
        [proposing 10 10 0, proposing 10 10 0, proposing 10 10 0]).store = .ok false := by
  refine ⟨by decide, by decide, by decide⟩

end YieldEngine.Rebalance
