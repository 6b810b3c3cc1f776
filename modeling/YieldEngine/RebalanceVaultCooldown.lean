import YieldEngine.RebalanceWrites

/-! # The cooldown of a vault

Flash rebalances of different vaults share one map of last-rebalance times.  A call that
returns `true` writes the time of its own vault and nothing else; every other outcome writes
no time at all (`flash_frame`).  Hence two successful calls for one vault are at least the
cooldown period apart, in every run with non-decreasing timestamps that leaves the period as it
is, whatever else happens in between (`vault_cooldown`). -/

namespace YieldEngine.Rebalance

open CheckedArith Transact

/-- `get_vault_last_rebalance_time`: zero for a vault that never rebalanced. -/
def RebalanceStore.getVaultLastRebalanceTime (s : RebalanceStore) (vaultId : Address) : ℕ :=
  (s.getLastRebalanceTimes.get vaultId).getD 0

/-- A flash rebalance that returned `true`. -/
structure FlashRecord where
  vault : Address
  time : ℕ
deriving DecidableEq

/-- The successful flash rebalance of an event. -/
def flashRecord (w : World) : RebalanceEvent → List FlashRecord
  | .call ⟨e, vaultPool, .executeFlashRebalance vaultId opportunity amount⟩ =>
      match executeFlashRebalance e vaultPool w vaultId opportunity amount with
      | .ok (_, true) => [⟨vaultId, e.timestamp⟩]
      | _ => []
  | _ => []

/-- The successful flash rebalances of a run. -/
def flashLog : World → List RebalanceEvent → List FlashRecord := ghostLog rebalanceStep flashRecord

/-- The time of an invocation. -/
def RebalanceEvent.times : RebalanceEvent → List ℕ
  | .call c => [c.env.timestamp]
  | .tokens _ => []

/-- The timestamps of the invocations do not decrease. -/
def Chronological (events : List RebalanceEvent) : Prop :=
  (events.flatMap RebalanceEvent.times).Pairwise (· ≤ ·)

/-! ### One call -/

/-- What a call has written to the times of the vaults. -/
inductive TimesEffect (w : World) (event : RebalanceEvent) (w' : World) : Prop
  | rebalanced (e : Env) (vaultId : Address)
      (hrecord : flashRecord w event = [⟨vaultId, e.timestamp⟩])
      (hready : w.store.isVaultInCooldown e vaultId = false)
      (htimes : w'.store.getLastRebalanceTimes =
        w.store.getLastRebalanceTimes.set vaultId e.timestamp)
  | idle (hrecord : flashRecord w event = [])
      (htimes : w'.store.getLastRebalanceTimes = w.store.getLastRebalanceTimes)

theorem Flashed.times {e : Env} {vaultPool : Address → Option Address} {w w' : World}
    {vaultId : Address} {opportunity : ArbitrageOpportunity} {amount : ℤ} {b : Bool}
    (h : Flashed e vaultPool w vaultId opportunity amount w' b) :
    w'.store.getLastRebalanceTimes = if b = true then
      w.store.getLastRebalanceTimes.set vaultId e.timestamp else w.store.getLastRebalanceTimes := by
  cases h with
  | refused => rfl
  | moved _ _ _ _ _ _ hrecord =>
      obtain ⟨windows, rfl⟩ := recordPacing_ok hrecord
      rfl

theorem Flashed.thresholds {e : Env} {vaultPool : Address → Option Address} {w w' : World}
    {vaultId : Address} {opportunity : ArbitrageOpportunity} {amount : ℤ} {b : Bool}
    (h : Flashed e vaultPool w vaultId opportunity amount w' b) :
    w'.store.getArbitrageThresholds = w.store.getArbitrageThresholds := by
  obtain ⟨windows, times, hstore⟩ := h.frame
  rw [hstore]
  rfl

theorem Executed.times {e : Env} {w w' : World} {p : RebalanceProposal} {b : Bool}
    (h : Executed e w p w' b) : w'.store.getLastRebalanceTimes = w.store.getLastRebalanceTimes := by
  obtain ⟨windows, history, hstore⟩ := h.frame
  rw [hstore]
  rfl

theorem StoreWrite.times {s s' : RebalanceStore} {action : RebalanceAction}
    (h : StoreWrite s action s') : s'.getLastRebalanceTimes = s.getLastRebalanceTimes := by
  have hcell : s'.vaultLastRebalanceTimes = s.vaultLastRebalanceTimes := by
    cases h with
    | settings h => exact congrArg Books.vaultLastRebalanceTimes h
    | created _ _ _ _ h => exact congrArg Books.vaultLastRebalanceTimes h
    | updated _ _ _ _ h => exact congrArg Books.vaultLastRebalanceTimes h
  rw [RebalanceStore.getLastRebalanceTimes, hcell]
  rfl

theorem rebalanceStep_times {w w' : World} {event : RebalanceEvent}
    (h : rebalanceStep w event = .ok w') : TimesEffect w event w' := by
  cases event with
  | tokens ledger =>
      obtain rfl := pure_eq_ok.mp h
      exact .idle rfl rfl
  | call c =>
      obtain ⟨e, vaultPool, action⟩ := c
      cases action with
      | executeRebalance p =>
          obtain ⟨⟨w₁, b⟩, hreturned, rfl⟩ := map_eq_ok.mp h
          exact .idle rfl (executeRebalance_executed hreturned).2.times
      | executeFlashRebalance vaultId opportunity amount =>
          obtain ⟨⟨w₁, b⟩, hreturned, rfl⟩ := map_eq_ok.mp h
          have hflashed := (executeFlashRebalance_flashed hreturned).2
          have htimes := hflashed.times
          cases hflashed with
          | refused => exact .idle (by simp only [flashRecord, hreturned]) htimes
          | moved _ hcooldown =>
              exact .rebalanced e vaultId (by simp only [flashRecord, hreturned]) hcooldown htimes
      | _ =>
          obtain ⟨s, hs, rfl⟩ := map_eq_ok.mp h
          exact .idle rfl (execStore_writes hs).times

/-- A vault that is ready and has rebalanced before has waited for the whole period. -/
theorem waited {s : RebalanceStore} {e : Env} {vaultId : Address} {last : ℕ}
    (hready : s.isVaultInCooldown e vaultId = false)
    (hlast : s.getLastRebalanceTimes.get vaultId = some last)
    (hperiod : 0 < s.getArbitrageThresholds.cooldownPeriod) :
    last + s.getArbitrageThresholds.cooldownPeriod ≤ e.timestamp := by
  have hremaining := of_decide_eq_false hready
  simp only [RebalanceStore.getVaultCooldownRemaining, hlast] at hremaining
  omega

/-- The answers about a vault depend on its stored time and the period. -/
theorem cooldown_answers {s s' : RebalanceStore} {v : Address}
    (hthresholds : s'.getArbitrageThresholds = s.getArbitrageThresholds)
    (hget : s'.getLastRebalanceTimes.get v = s.getLastRebalanceTimes.get v) :
    s'.getVaultLastRebalanceTime v = s.getVaultLastRebalanceTime v ∧
      ∀ now, s'.getVaultCooldownRemaining now v = s.getVaultCooldownRemaining now v ∧
        s'.isVaultInCooldown now v = s.isVaultInCooldown now v := by
  have hremaining : ∀ now,
      s'.getVaultCooldownRemaining now v = s.getVaultCooldownRemaining now v := by
    intro now
    rw [RebalanceStore.getVaultCooldownRemaining, hget, hthresholds]
    rfl
  constructor
  · rw [RebalanceStore.getVaultLastRebalanceTime, hget]
    rfl
  · intro now
    rw [RebalanceStore.isVaultInCooldown, hremaining now]
    exact ⟨rfl, rfl⟩

/-- What a flash rebalance for `vaultId` leaves alone. -/
structure FlashFrame (e : Env) (vaultPool : Address → Option Address) (w : World)
    (vaultId : Address) (opportunity : ArbitrageOpportunity) (amount : ℤ) (w' : World) : Prop where
  others : ∀ v, v ≠ vaultId →
    w'.store.getLastRebalanceTimes.get v = w.store.getLastRebalanceTimes.get v ∧
    w'.store.getVaultLastRebalanceTime v = w.store.getVaultLastRebalanceTime v ∧
    ∀ now, w'.store.getVaultCooldownRemaining now v = w.store.getVaultCooldownRemaining now v ∧
      w'.store.isVaultInCooldown now v = w.store.isVaultInCooldown now v
  refused :
    (∀ w₁, executeFlashRebalance e vaultPool w vaultId opportunity amount ≠ .ok (w₁, true)) →
    ∀ v, w'.store.getLastRebalanceTimes.get v = w.store.getLastRebalanceTimes.get v

/-- Whatever its outcome, a flash rebalance changes no answer about another vault; and if it does
not return `true`, no time at all. -/
theorem flash_frame (e : Env) (vaultPool : Address → Option Address) (w : World)
    (vaultId : Address) (opportunity : ArbitrageOpportunity) (amount : ℤ) :
    FlashFrame e vaultPool w vaultId opportunity amount (commit rebalanceStep w
      (.call ⟨e, vaultPool, .executeFlashRebalance vaultId opportunity amount⟩)) := by
  cases hcall : executeFlashRebalance e vaultPool w vaultId opportunity amount with
  | error fault =>
      have hstep : rebalanceStep w
          (.call ⟨e, vaultPool, .executeFlashRebalance vaultId opportunity amount⟩) =
            .error fault := by
        change Prod.fst <$> executeFlashRebalance e vaultPool w vaultId opportunity amount = _
        rw [hcall]
        rfl
      rw [commit_of_error hstep]
      exact ⟨fun v _ => ⟨rfl, cooldown_answers rfl rfl⟩, fun _ _ => rfl⟩
  | ok r =>
      obtain ⟨w', b⟩ := r
      have hflashed := (executeFlashRebalance_flashed hcall).2
      have hstep : rebalanceStep w
          (.call ⟨e, vaultPool, .executeFlashRebalance vaultId opportunity amount⟩) = .ok w' :=
        map_eq_ok.mpr ⟨_, hcall, rfl⟩
      rw [commit_of_ok hstep]
      constructor
      · intro v hv
        have hget : w'.store.getLastRebalanceTimes.get v = w.store.getLastRebalanceTimes.get v := by
          rw [hflashed.times]
          split_ifs
          · exact SortedMap.get_set_ne _ _ hv
          · rfl
        exact ⟨hget, cooldown_answers hflashed.thresholds hget⟩
      · intro hfailed v
        have hb : b = false := by
          cases b with
          | true => exact absurd hcall (hfailed w')
          | false => rfl
        rw [hflashed.times, if_neg (by rw [hb]; exact Bool.noConfusion)]

/-! ### Runs -/

/-- The successful rebalances of every vault are apart, and not later than its stored time. -/
structure Spaced (c : ℕ) (log : List FlashRecord) (w : World) : Prop where
  apart : log.Pairwise fun a b => a.vault = b.vault → a.time + c ≤ b.time
  stored : ∀ r ∈ log, ∃ last, w.store.getLastRebalanceTimes.get r.vault = some last ∧ r.time ≤ last

theorem Spaced.step {c : ℕ} (hc : 0 < c) {log : List FlashRecord} {w w' : World}
    {event : RebalanceEvent} (hspaced : Spaced c log w)
    (hperiod : w.store.getArbitrageThresholds.cooldownPeriod = c)
    (h : rebalanceStep w event = .ok w') : Spaced c (log ++ flashRecord w event) w' := by
  cases rebalanceStep_times h with
  | idle hrecord htimes =>
      rw [hrecord, List.append_nil]
      refine ⟨hspaced.apart, fun r hr => ?_⟩
      rw [htimes]
      exact hspaced.stored r hr
  | rebalanced e vaultId hrecord hready htimes =>
      subst hperiod
      have hwaited : ∀ r ∈ log, r.vault = vaultId →
          r.time + w.store.getArbitrageThresholds.cooldownPeriod ≤ e.timestamp := by
        rintro r hr rfl
        obtain ⟨last, hlast, hle⟩ := hspaced.stored r hr
        have hready := waited hready hlast hc
        omega
      rw [hrecord]
      constructor
      · refine List.pairwise_append.mpr ⟨hspaced.apart, List.pairwise_singleton _ _, ?_⟩
        intro r hr b hb hvault
        obtain rfl := List.mem_singleton.mp hb
        exact hwaited r hr hvault
      · intro r hr
        rw [htimes]
        by_cases hvault : r.vault = vaultId
        · refine ⟨e.timestamp, by rw [hvault, SortedMap.get_set_self], ?_⟩
          rcases List.mem_append.mp hr with hr | hr
          · have hready := hwaited r hr hvault
            omega
          · rw [List.mem_singleton.mp hr]
        · rw [SortedMap.get_set_ne _ _ hvault]
          rcases List.mem_append.mp hr with hr | hr
          · exact hspaced.stored r hr
          · exact absurd (congrArg FlashRecord.vault (List.mem_singleton.mp hr)) hvault

theorem flashRecord_times (w : World) (event : RebalanceEvent) :
    ((flashRecord w event).map FlashRecord.time).Sublist event.times := by
  unfold flashRecord
  split
  · split
    · exact List.Sublist.refl _
    · exact List.nil_sublist _
  · exact List.nil_sublist _

/-- In a run with non-decreasing timestamps that is made with the period at `c` throughout, two
successful flash rebalances of one vault are at least `c` apart; and every flash rebalance, in
whatever state, leaves alone what it has to. -/
theorem vault_cooldown {w₀ : World} {c : ℕ} {events : List RebalanceEvent}
    (hperiod : Along rebalanceStep
      (fun w _ => w.store.getArbitrageThresholds.cooldownPeriod = c) w₀ events)
    (hclock : Chronological events) :
    ((flashLog w₀ events).Pairwise fun a b => a.vault = b.vault → a.time + c ≤ b.time) ∧
    ∀ e vaultPool w vaultId opportunity amount,
      FlashFrame e vaultPool w vaultId opportunity amount (commit rebalanceStep w
        (.call ⟨e, vaultPool, .executeFlashRebalance vaultId opportunity amount⟩)) := by
  refine ⟨?_, flash_frame⟩
  rcases Nat.eq_zero_or_pos c with rfl | hc
  · have htimes := (ghostLog_sublist_flatMap flashRecord_times events w₀ :
      ((flashLog w₀ events).map FlashRecord.time).Sublist _)
    have hordered := List.pairwise_map.mp (hclock.sublist htimes)
    refine hordered.imp fun {a b} hle _ => ?_
    rwa [Nat.add_zero]
  · have hstart : Spaced c [] w₀ := ⟨List.Pairwise.nil, fun r hr => by cases hr⟩
    have hrun := run_log_invariant (I := Spaced c) (fun log w event w' hs hp h => hs.step hc hp h)
      events w₀ [] hstart hperiod
    exact hrun.apart

/-- A vault moves 10 out of pool 1 at the time given; the default period is a day. -/
def flashAt (time : ℕ) (vaultId : Address) : RebalanceEvent :=
  .call ⟨⟨9, [1], time⟩, fun _ => some 1, .executeFlashRebalance vaultId
    ⟨2, 0, 0, 0, 0, 0, false⟩ 10⟩

/-- A new engine in whose tokens everybody holds plenty. -/
def flashEngine : World := ⟨initialRebalance 7, fun _ _ => 1000⟩

/-- Of three calls for vault 4 the second comes too early; vault 5 is not held up. -/
theorem vault_cooldown_flashEngine :
    flashLog flashEngine [flashAt 100 4, flashAt 200 5, flashAt 86499 4, flashAt 86500 4] =
        [⟨4, 100⟩, ⟨5, 200⟩, ⟨4, 86500⟩] ∧
      (flashLog flashEngine [flashAt 100 4, flashAt 200 5, flashAt 86499 4,
        flashAt 86500 4]).Pairwise fun a b => a.vault = b.vault → a.time + 86400 ≤ b.time := by
  have hperiod : Along rebalanceStep
      (fun w _ => w.store.getArbitrageThresholds.cooldownPeriod = 86400) flashEngine
      [flashAt 100 4, flashAt 200 5, flashAt 86499 4, flashAt 86500 4] :=
    ⟨rfl, rfl, rfl, rfl, trivial⟩
  have hclock : Chronological
      [flashAt 100 4, flashAt 200 5, flashAt 86499 4, flashAt 86500 4] := by
    unfold Chronological
    decide
  exact ⟨by decide, (vault_cooldown hperiod hclock).1⟩

end YieldEngine.Rebalance
