import YieldEngine.BoundedLog
import YieldEngine.RebalanceRuns

/-! # What an entrypoint of the rebalance engine writes

The returning calls of the engine, classified.  `StoreWrite` is for the calls that move no
tokens: all but the two strategy calls leave the engine's books alone.  `Executed` lists the
four ways out of `execute_rebalance`, with the checks passed on each and the world it leaves.
Results about runs split on these two, never on the code of an entrypoint. -/

namespace YieldEngine.Rebalance

open CheckedArith BoundedLog

/-! ### Calls that move no tokens -/

/-- The cells that record what the engine did, as opposed to how it is configured. -/
structure Books where
  admin : Option Address
  nextStrategyId : Option ℕ
  strategies : Option (SortedMap ℕ RebalanceStrategy)
  history : Option (List RebalanceHistory)
  rebalancePoolWindows : Option (SortedMap Address PoolWindowUsage)
  vaultLastRebalanceTimes : Option (SortedMap Address ℕ)

def RebalanceStore.books (s : RebalanceStore) : Books :=
  ⟨s.admin, s.nextStrategyId, s.strategies, s.history, s.rebalancePoolWindows,
    s.vaultLastRebalanceTimes⟩

/-- What an invocation that moves no tokens writes. -/
inductive StoreWrite (s : RebalanceStore) : RebalanceAction → RebalanceStore → Prop
  | settings {action : RebalanceAction} {s' : RebalanceStore} (h : s'.books = s.books) :
      StoreWrite s action s'
  | created {admin : Address} {name : String}
      {riskLevel minApyThreshold maxIlRisk rebalanceFrequency : ℕ}
      {allocations : List PoolAllocation} {id : ℕ} {strategies : SortedMap ℕ RebalanceStrategy}
      {s' : RebalanceStore} (hnext : s.nextStrategyId = some id)
      (hstrategies : s.strategies = some strategies)
      (hallocations : validateAllocations allocations = .ok ())
      (hrisk : 1 ≤ riskLevel ∧ riskLevel ≤ 3)
      (h : s'.books = { s.books with
        nextStrategyId := some (id + 1)
        strategies := some (strategies.set id ⟨id, name, riskLevel, minApyThreshold, maxIlRisk,
          rebalanceFrequency, allocations⟩) }) :
      StoreWrite s (.createStrategy admin name riskLevel minApyThreshold maxIlRisk
        rebalanceFrequency allocations) s'
  | updated {admin : Address} {strategyId : ℕ} {name : String}
      {riskLevel minApyThreshold maxIlRisk rebalanceFrequency : ℕ}
      {allocations : List PoolAllocation} {strategies : SortedMap ℕ RebalanceStrategy}
      {s' : RebalanceStore} (hstrategies : s.strategies = some strategies)
      (hallocations : validateAllocations allocations = .ok ())
      (hrisk : 1 ≤ riskLevel ∧ riskLevel ≤ 3) (hknown : strategies.contains strategyId = true)
      (h : s'.books = { s.books with
        strategies := some (strategies.set strategyId ⟨strategyId, name, riskLevel,
          minApyThreshold, maxIlRisk, rebalanceFrequency, allocations⟩) }) :
      StoreWrite s (.updateStrategy admin strategyId name riskLevel minApyThreshold maxIlRisk
        rebalanceFrequency allocations) s'

theorem stopIf_books {s : RebalanceStore} {triggered : Bool} {r : RebalanceStore × Bool}
    (h : stopIf s triggered = .ok r) : r.1.books = s.books := by
  unfold stopIf at h
  split_ifs at h with htriggered
  · obtain rfl := pure_eq_ok.mp h
    rfl
  · simp only [pause, bind_eq_ok, pure_eq_ok] at h
    obtain ⟨_, -, _, ⟨_, -, rfl⟩, rfl⟩ := h
    rfl

/-- An admin call that passes its guard and writes settings. -/
theorem StoreWrite.of_admin {s t s' : RebalanceStore} {action : RebalanceAction}
    {admin : Address}
    (h : (do s.requireAdmin admin; pure t : RebalanceCall RebalanceStore) = .ok s')
    (ht : t.books = s.books) : StoreWrite s action s' := by
  obtain ⟨_, -, h⟩ := bind_eq_ok.mp h
  obtain rfl := pure_eq_ok.mp h
  exact .settings ht

theorem execStore_writes {e : Env} {s s' : RebalanceStore} {action : RebalanceAction}
    (h : execStore e s action = .ok s') : StoreWrite s action s' := by
  cases action with
  | upgrade admin => exact .of_admin h rfl
  | migrate admin =>
      obtain ⟨r, hr, rfl⟩ := map_eq_ok.mp h
      obtain ⟨_, -, hr⟩ := bind_eq_ok.mp hr
      obtain rfl := pure_eq_ok.mp hr
      exact .settings rfl
  | createStrategy admin name riskLevel minApyThreshold maxIlRisk rebalanceFrequency
      allocations =>
      simp only [execStore, createStrategy, getNextStrategyId, map_eq_ok, bind_eq_ok, pure_eq_ok,
        orRaise_eq_ok, require_eq_ok, checkedU_eq_ok, RebalanceStore.getStrategiesMap] at h
      obtain ⟨_, ⟨_, -, _, -, _, hallocations, _, ⟨id, hnext, _, ⟨-, rfl⟩, rfl⟩, strategies,
        hstrategies, _, hrisk, rfl⟩, rfl⟩ := h
      exact .created hnext hstrategies hallocations hrisk rfl
  | updateStrategy admin strategyId name riskLevel minApyThreshold maxIlRisk rebalanceFrequency
      allocations =>
      simp only [execStore, updateStrategy, bind_eq_ok, pure_eq_ok, orRaise_eq_ok, require_eq_ok,
        RebalanceStore.getStrategiesMap] at h
      obtain ⟨_, -, _, -, _, hallocations, _, hrisk, strategies, hstrategies, _, hknown, rfl⟩ := h
      exact .updated hstrategies hallocations hrisk hknown rfl
  | setMaxSlippageBps admin maxSlippageBps =>
      simp only [execStore, setMaxSlippageBps, bind_eq_ok, pure_eq_ok] at h
      obtain ⟨_, -, _, -, rfl⟩ := h
      exact .settings rfl
  | setMaxApyAge admin maxAge => exact .of_admin h rfl
  | setApyKeepers admin keepers => exact .of_admin h rfl
  | setFeedFailureThreshold admin threshold => exact .of_admin h rfl
  | setRebalancePacing admin maxAmountPerWindow windowSeconds =>
      simp only [execStore, setRebalancePacing, bind_eq_ok, pure_eq_ok] at h
      obtain ⟨_, -, _, -, _, -, rfl⟩ := h
      exact .settings rfl
  | setRebalanceThresholds admin minApyDelta maxIlTolerance cooldownPeriod =>
      exact .of_admin h rfl
  | setMinNetProfit admin minNetProfit =>
      simp only [execStore, setMinNetProfit, bind_eq_ok, pure_eq_ok] at h
      obtain ⟨_, -, _, -, rfl⟩ := h
      exact .settings rfl
  | setPoolBreakerThreshold admin poolId threshold =>
      simp only [execStore, setPoolBreakerThreshold, bind_eq_ok, pure_eq_ok] at h
      obtain ⟨_, -, _, -, rfl⟩ := h
      exact .settings rfl
  | setStrategyBreakerThreshold admin strategyId threshold =>
      simp only [execStore, setStrategyBreakerThreshold, bind_eq_ok, pure_eq_ok] at h
      obtain ⟨_, -, _, -, rfl⟩ := h
      exact .settings rfl
  | pause admin => exact .of_admin h rfl
  | unpause admin => exact .of_admin h rfl
  | updatePoolApy caller poolId apyBps =>
      simp only [execStore, updatePoolApy, bind_eq_ok, pure_eq_ok] at h
      obtain ⟨_, -, _, -, _, -, _, -, _, -, rfl⟩ := h
      exact .settings rfl
  | recordFeedValidationFailure poolId =>
      simp only [execStore, recordFeedValidationFailure, map_eq_ok, bind_eq_ok, pure_eq_ok] at h
      obtain ⟨_, ⟨_, -, rfl⟩, rfl⟩ := h
      exact .settings rfl
  | recordFeedValidationSuccess poolId =>
      simp only [execStore, recordFeedValidationSuccess, map_eq_ok, bind_eq_ok, pure_eq_ok] at h
      obtain ⟨_, ⟨_, -, rfl⟩, rfl⟩ := h
      exact .settings rfl
  | checkEmergencyStop =>
      obtain ⟨r, hr, rfl⟩ := map_eq_ok.mp h
      obtain ⟨triggered, -, hr⟩ := bind_eq_ok.mp hr
      exact .settings (stopIf_books hr)
  | checkPoolEmergencyStop poolId =>
      obtain ⟨r, hr, rfl⟩ := map_eq_ok.mp h
      obtain ⟨triggered, -, hr⟩ := bind_eq_ok.mp hr
      exact .settings (stopIf_books hr)
  | checkStrategyEmergencyStop strategyId =>
      obtain ⟨r, hr, rfl⟩ := map_eq_ok.mp h
      obtain ⟨triggered, -, hr⟩ := bind_eq_ok.mp hr
      exact .settings (stopIf_books hr)
  | executeRebalance proposal =>
      obtain rfl := pure_eq_ok.mp h
      exact .settings rfl
  | executeFlashRebalance vaultId opportunity amount =>
      obtain rfl := pure_eq_ok.mp h
      exact .settings rfl

/-! ### Parts of a rebalance -/

/-- The slippage check compares the output with the bound the proposal carries, and nothing
else: the shortfall it derives is zero, whatever the configured cap. -/
theorem slippageAllows_eq (s : RebalanceStore) (p : RebalanceProposal) :
    slippageAllows s p = .ok (decide (0 < p.minOutput ∧ p.minOutput ≤ p.amountB)) := by
  unfold slippageAllows
  by_cases hbound : p.minOutput ≤ 0
  · have hrefused : ¬ (0 < p.minOutput ∧ p.minOutput ≤ p.amountB) := by omega
    rw [if_pos hbound, decide_eq_false hrefused]
    rfl
  by_cases hshort : p.amountB < p.minOutput
  · have hrefused : ¬ (0 < p.minOutput ∧ p.minOutput ≤ p.amountB) := by omega
    rw [if_neg hbound, if_pos hshort, decide_eq_false hrefused]
    rfl
  have hquoted : ¬ p.amountB ≤ 0 := by omega
  have hallowed : 0 < p.minOutput ∧ p.minOutput ≤ p.amountB := by omega
  rw [if_neg hbound, if_neg hshort, if_neg hquoted, decide_eq_true hallowed, sub_self]
  dsimp only
  have hscaled : (checkedU 128 (max (-2 ^ 127) (min (2 ^ 127 - 1) 0) % 2 ^ 128 * 10000) :
      RebalanceCall ℤ) = .ok 0 := by decide
  rw [hscaled]
  apply congrArg Except.ok
  rw [Int.zero_ediv]
  exact decide_eq_true (Int.natCast_nonneg _)

/-- Charging the budget writes the windows only. -/
theorem recordPacing_ok {e : Env} {s s' : RebalanceStore} {poolId : Address} {amount : ℤ}
    (h : recordPacing e s poolId amount = .ok s') :
    ∃ windows, s' = { s with rebalancePoolWindows := windows } := by
  unfold recordPacing at h
  dsimp only at h
  split_ifs at h
  · obtain rfl := pure_eq_ok.mp h
    exact ⟨s.rebalancePoolWindows, rfl⟩
  all_goals
    simp only [bind_eq_ok, pure_eq_ok] at h
    obtain ⟨_, -, rfl⟩ := h
    exact ⟨_, rfl⟩

theorem addToHistory_eq_ok {s s' : RebalanceStore} {entry : RebalanceHistory} :
    addToHistory s entry = .ok s' ↔ ∃ history, s.history = some history ∧
      { s with history := some (push historyLimit history entry) } = s' := by
  have hpush : ∀ history : List RebalanceHistory,
      (if historyLimit < (history ++ [entry]).length then
        (history ++ [entry]).drop ((history ++ [entry]).length - historyLimit)
       else history ++ [entry]) = push historyLimit history entry := by
    intro history
    split_ifs with hlong
    · rfl
    · exact (rtake_of_length_le (Nat.le_of_not_lt hlong)).symm
  simp only [addToHistory, RebalanceStore.storedHistory, bind_eq_ok, orRaise_eq_ok, pure_eq_ok,
    hpush]

/-- The two transfers of a rebalance that moved tokens. -/
def Moved (e : Env) (l l' : Ledger) (p : RebalanceProposal) : Prop :=
  0 < p.amountA ∧ 0 < p.amountB ∧ ∃ l₁,
    (l.transfer e p.fromPool p.fromPool e.contract p.amountA : RebalanceCall Ledger) = .ok l₁ ∧
      (l₁.transfer e p.toPool e.contract p.toPool p.amountB : RebalanceCall Ledger) = .ok l'

theorem performRebalance_ok {e : Env} {l l' : Ledger} {p : RebalanceProposal} {b : Bool}
    (h : performRebalance e l p = .ok (l', b)) :
    (b = false ∧ l' = l ∧ (p.amountA ≤ 0 ∨ p.amountB ≤ 0)) ∨ (b = true ∧ Moved e l l' p) := by
  unfold performRebalance at h
  split_ifs at h with hamounts
  · obtain h := pure_eq_ok.mp h
    injection h with hl hb
    exact .inl ⟨hb.symm, hl.symm, hamounts⟩
  · simp only [bind_eq_ok, pure_eq_ok, Prod.mk.injEq] at h
    obtain ⟨l₁, hfirst, _, hsecond, rfl, rfl⟩ := h
    push Not at hamounts
    exact .inr ⟨rfl, hamounts.1, hamounts.2, l₁, hfirst, hsecond⟩

/-! ### The ways out of `execute_rebalance` -/

/-- The budget of the pool covers the move. -/
def Paced (e : Env) (s : RebalanceStore) (poolId : Address) (moved : ℤ) : Prop :=
  0 < moved → pacingAllows e s poolId moved = .ok true

/-- The output meets the bound the proposal carries. -/
def Bounded (p : RebalanceProposal) : Prop := 0 < p.minOutput ∧ p.minOutput ≤ p.amountB

instance (p : RebalanceProposal) : Decidable (Bounded p) := inferInstanceAs (Decidable (_ ∧ _))

/-- The entry recorded for a proposal. -/
def historyEntry (e : Env) (s : RebalanceStore) (p : RebalanceProposal) (success : Bool) :
    RebalanceHistory :=
  ⟨e.timestamp, p.fromPool, p.toPool, p.amountA + p.amountB, s.getPoolCurrentApy p.fromPool,
    if success = true then s.getPoolCurrentApy p.toPool else s.getPoolCurrentApy p.fromPool,
    success⟩

/-- The store with one more entry in its history. -/
def RebalanceStore.logged (s : RebalanceStore) (history : List RebalanceHistory)
    (entry : RebalanceHistory) : RebalanceStore :=
  { s with history := some (push historyLimit history entry) }

inductive Executed (e : Env) (w : World) (p : RebalanceProposal) : World → Bool → Prop
  | overBudget (hmoved : 0 < p.amountA + p.amountB)
      (hpacing : pacingAllows e w.store p.fromPool (p.amountA + p.amountB) = .ok false) :
      Executed e w p w false
  | unbounded (hpaced : Paced e w.store p.fromPool (p.amountA + p.amountB))
      (hbound : ¬ Bounded p) : Executed e w p w false
  | malformed {history : List RebalanceHistory}
      (hpaced : Paced e w.store p.fromPool (p.amountA + p.amountB)) (hbound : Bounded p)
      (hamounts : p.amountA ≤ 0 ∨ p.amountB ≤ 0) (hhistory : w.store.history = some history) :
      Executed e w p ⟨w.store.logged history (historyEntry e w.store p false), w.ledger⟩ false
  | moved {history : List RebalanceHistory} {s : RebalanceStore} {ledger : Ledger}
      (hpaced : Paced e w.store p.fromPool (p.amountA + p.amountB)) (hbound : Bounded p)
      (hmoved : Moved e w.ledger ledger p)
      (hrecord : recordPacing e w.store p.fromPool (p.amountA + p.amountB) = .ok s)
      (hhistory : w.store.history = some history) :
      Executed e w p ⟨s.logged history (historyEntry e w.store p true), ledger⟩ true

theorem executeRebalance_executed {e : Env} {w w' : World} {p : RebalanceProposal} {b : Bool}
    (h : executeRebalance e w p = .ok (w', b)) :
    w.store.isPaused = false ∧ Executed e w p w' b := by
  simp only [executeRebalance, bind_eq_ok, RebalanceStore.requireNotPaused_eq_ok,
    I128.add_eq_ok] at h
  obtain ⟨_, hpaused, _, ⟨-, rfl⟩, paced, hpacing, h⟩ := h
  refine ⟨hpaused, ?_⟩
  cases paced with
  | false =>
      rw [if_pos rfl] at h
      obtain h := pure_eq_ok.mp h
      injection h with hw hb
      subst hw hb
      unfold budgetAllows at hpacing
      split_ifs at hpacing with hmoved
      · exact .overBudget hmoved hpacing
      · cases pure_eq_ok.mp hpacing
  | true =>
      have hpaced : Paced e w.store p.fromPool (p.amountA + p.amountB) := by
        intro hmoved
        rw [budgetAllows, if_pos hmoved] at hpacing
        exact hpacing
      rw [if_neg Bool.noConfusion] at h
      obtain ⟨bounded, hbounded, h⟩ := bind_eq_ok.mp h
      rw [slippageAllows_eq] at hbounded
      injection hbounded with hbounded
      by_cases hbound : Bounded p
      · have htrue : bounded = true := hbounded.symm.trans (decide_eq_true hbound)
        rw [htrue, if_neg Bool.noConfusion] at h
        obtain ⟨⟨ledger, success⟩, hperform, h⟩ := bind_eq_ok.mp h
        obtain ⟨s, hrecord, h⟩ := bind_eq_ok.mp h
        obtain ⟨s', hlog, h⟩ := bind_eq_ok.mp h
        obtain h := pure_eq_ok.mp h
        injection h with hw hb
        subst hw hb
        obtain ⟨history, hhistory, rfl⟩ := addToHistory_eq_ok.mp hlog
        rcases performRebalance_ok hperform with ⟨rfl, rfl, hamounts⟩ | ⟨rfl, hmoved⟩
        · obtain rfl := pure_eq_ok.mp hrecord
          exact .malformed hpaced hbound hamounts hhistory
        · have hpositive : 0 < p.amountA + p.amountB := Int.add_pos hmoved.1 hmoved.2.1
          rw [if_pos rfl, chargeBudget, if_pos hpositive] at hrecord
          obtain ⟨windows, rfl⟩ := recordPacing_ok hrecord
          exact .moved hpaced hbound hmoved hrecord hhistory
      · have hfalse : bounded = false := hbounded.symm.trans (decide_eq_false hbound)
        rw [if_pos hfalse] at h
        obtain h := pure_eq_ok.mp h
        injection h with hw hb
        subst hw hb
        exact .unbounded hpaced hbound

/-! ### The ways out of `execute_flash_rebalance` -/

inductive Flashed (e : Env) (vaultPool : Address → Option Address) (w : World)
    (vaultId : Address) (opportunity : ArbitrageOpportunity) (amount : ℤ) :
    World → Bool → Prop
  | refused : Flashed e vaultPool w vaultId opportunity amount w false
  | moved {currentPool : Address} {s : RebalanceStore} {ledger₁ ledger : Ledger}
      (hfeed : w.store.isFeedExcluded opportunity.poolId = false)
      (hcooldown : w.store.isVaultInCooldown e vaultId = false)
      (hpool : vaultPool vaultId = some currentPool)
      (hpaced : Paced e w.store currentPool (amount * 2))
      (hexit : Moved e w.ledger ledger₁ ⟨currentPool, currentPool, amount, amount,
        opportunity.apyDelta, 30000, e.timestamp, amount⟩)
      (henter : Moved e ledger₁ ledger ⟨currentPool, opportunity.poolId, amount, amount,
        opportunity.apyDelta, 30000, e.timestamp, amount⟩)
      (hrecord : recordPacing e w.store currentPool (amount * 2) = .ok s) :
      Flashed e vaultPool w vaultId opportunity amount
        ⟨recordVaultRebalance e s vaultId, ledger⟩ true

theorem executeFlashRebalance_flashed {e : Env} {vaultPool : Address → Option Address}
    {w w' : World} {vaultId : Address} {opportunity : ArbitrageOpportunity} {amount : ℤ}
    {b : Bool}
    (h : executeFlashRebalance e vaultPool w vaultId opportunity amount = .ok (w', b)) :
    w.store.isPaused = false ∧ Flashed e vaultPool w vaultId opportunity amount w' b := by
  -- every early exit returns the world it was given
  have hrefused : ∀ {l : Ledger}, l = w.ledger →
      (pure (⟨w.store, l⟩, false) : RebalanceCall (World × Bool)) = .ok (w', b) →
      Flashed e vaultPool w vaultId opportunity amount w' b := by
    intro l hl h
    obtain h := pure_eq_ok.mp h
    injection h with hw hb
    subst hl hb
    exact hw ▸ .refused
  obtain ⟨_, hpaused, h⟩ := bind_eq_ok.mp h
  refine ⟨RebalanceStore.requireNotPaused_eq_ok.mp hpaused, ?_⟩
  by_cases hfeed : w.store.isFeedExcluded opportunity.poolId = true
  · rw [if_pos hfeed] at h
    exact hrefused rfl h
  rw [if_neg hfeed] at h
  by_cases hcooldown : w.store.isVaultInCooldown e vaultId = true
  · rw [if_pos hcooldown] at h
    exact hrefused rfl h
  rw [if_neg hcooldown] at h
  simp only [bind_eq_ok, orRaise_eq_ok, I128.mul_eq_ok] at h
  obtain ⟨currentPool, hpool, _, ⟨-, rfl⟩, paced, hpacing, h⟩ := h
  cases paced with
  | false => exact hrefused rfl h
  | true =>
      rw [if_neg Bool.noConfusion] at h
      obtain ⟨⟨ledger₁, withdrawn⟩, hfirst, h⟩ := bind_eq_ok.mp h
      rcases performRebalance_ok hfirst with ⟨rfl, rfl, -⟩ | ⟨rfl, hexit⟩
      · exact hrefused rfl h
      rw [if_neg Bool.noConfusion] at h
      obtain ⟨⟨ledger, deposited⟩, hsecond, h⟩ := bind_eq_ok.mp h
      rcases performRebalance_ok hsecond with ⟨rfl, rfl, hamounts⟩ | ⟨rfl, henter⟩
      · -- the second leg moves the same amounts as the first, so it cannot be refused
        have hpositive : 0 < amount := hexit.1
        simp only at hamounts
        omega
      rw [if_neg Bool.noConfusion] at h
      obtain ⟨s, hcharge, h⟩ := bind_eq_ok.mp h
      obtain h := pure_eq_ok.mp h
      injection h with hw hb
      subst hw hb
      have hpositive : 0 < amount * 2 := by
        have hamount : 0 < amount := hexit.1
        omega
      rw [chargeBudget, if_pos hpositive] at hcharge
      refine .moved (eq_false_of_ne_true hfeed) (eq_false_of_ne_true hcooldown) hpool ?_ hexit
        henter hcharge
      intro _
      rw [budgetAllows, if_pos hpositive] at hpacing
      exact hpacing

/-! ### The history -/

theorem StoreWrite.log {s s' : RebalanceStore} {action : RebalanceAction}
    (h : StoreWrite s action s') : s'.admin = s.admin ∧ s'.history = s.history := by
  cases h with
  | settings h => exact ⟨congrArg Books.admin h, congrArg Books.history h⟩
  | created _ _ _ _ h => exact ⟨congrArg Books.admin h, congrArg Books.history h⟩
  | updated _ _ _ _ h => exact ⟨congrArg Books.admin h, congrArg Books.history h⟩

/-- A rebalance writes the windows and the history. -/
theorem Executed.frame {e : Env} {w w' : World} {p : RebalanceProposal} {b : Bool}
    (h : Executed e w p w' b) : ∃ windows history, w'.store =
      { w.store with rebalancePoolWindows := windows, history := history } := by
  cases h with
  | overBudget => exact ⟨w.store.rebalancePoolWindows, w.store.history, rfl⟩
  | unbounded => exact ⟨w.store.rebalancePoolWindows, w.store.history, rfl⟩
  | malformed => exact ⟨w.store.rebalancePoolWindows, _, rfl⟩
  | moved _ _ _ hrecord =>
      obtain ⟨windows, rfl⟩ := recordPacing_ok hrecord
      exact ⟨windows, _, rfl⟩

/-- A flash rebalance writes the windows and the times of the vaults. -/
theorem Flashed.frame {e : Env} {vaultPool : Address → Option Address} {w w' : World}
    {vaultId : Address} {opportunity : ArbitrageOpportunity} {amount : ℤ} {b : Bool}
    (h : Flashed e vaultPool w vaultId opportunity amount w' b) : ∃ windows times, w'.store =
      { w.store with rebalancePoolWindows := windows, vaultLastRebalanceTimes := times } := by
  cases h with
  | refused => exact ⟨w.store.rebalancePoolWindows, w.store.vaultLastRebalanceTimes, rfl⟩
  | moved _ _ _ _ _ _ hrecord =>
      obtain ⟨windows, rfl⟩ := recordPacing_ok hrecord
      exact ⟨windows, _, rfl⟩

theorem Flashed.log {e : Env} {vaultPool : Address → Option Address} {w w' : World}
    {vaultId : Address} {opportunity : ArbitrageOpportunity} {amount : ℤ} {b : Bool}
    (h : Flashed e vaultPool w vaultId opportunity amount w' b) :
    w'.store.admin = w.store.admin ∧ w'.store.history = w.store.history := by
  obtain ⟨windows, times, hstore⟩ := h.frame
  rw [hstore]
  exact ⟨rfl, rfl⟩

theorem Executed.admin {e : Env} {w w' : World} {p : RebalanceProposal} {b : Bool}
    (h : Executed e w p w' b) : w'.store.admin = w.store.admin := by
  obtain ⟨windows, history, hstore⟩ := h.frame
  rw [hstore]

/-- Apart from `execute_rebalance`, no call writes the history. -/
theorem exec_log {w w' : World} {c : Invocation}
    (hother : ∀ proposal, c.action ≠ .executeRebalance proposal) (h : exec w c = .ok w') :
    w'.store.admin = w.store.admin ∧ w'.store.history = w.store.history := by
  obtain ⟨e, vaultPool, action⟩ := c
  cases action with
  | executeRebalance proposal => exact absurd rfl (hother proposal)
  | executeFlashRebalance vaultId opportunity amount =>
      obtain ⟨⟨w₁, b⟩, hreturned, rfl⟩ := map_eq_ok.mp h
      exact (executeFlashRebalance_flashed hreturned).2.log
  | _ =>
      obtain ⟨s, hs, rfl⟩ := map_eq_ok.mp h
      exact (execStore_writes hs).log

end YieldEngine.Rebalance
