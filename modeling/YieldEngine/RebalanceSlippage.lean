import YieldEngine.RebalanceAnalysis
import YieldEngine.RebalancePacing
import YieldEngine.RebalancePools

/-! # The slippage check of a rebalance

Before `execute_rebalance` moves anything it compares the output with the minimum the proposal
carries, and derives the slippage from a quote.  The quote is the output itself, so that the
configured cap rejects nothing (`slippageAllows_eq`); and the proposals of the analysis carry
the minimum zero, which is always rejected.

`Accepted` collects what a call needs in order to return `true`, as conditions on the state and
the proposal.  With it `slippage_cap_iff` says exactly when the cap limits what an executed
proposal may lose, and `proposals_pass_iff` when the proposals of the analysis pass the check. -/

namespace YieldEngine.Rebalance

open CheckedArith

/-! ### When a call returns `true` -/

/-- The move fits the budget of the pool's current window, if pacing is enabled. -/
def WithinBudget (e : Env) (s : RebalanceStore) (poolId : Address) (moved : ℤ) : Prop :=
  s.getRebalancePacing.Enabled →
    Fits 128 ((currentUsage s.getRebalancePacing e.timestamp
      (s.getPoolWindowUsage poolId)).amountMoved + moved) ∧
    (currentUsage s.getRebalancePacing e.timestamp (s.getPoolWindowUsage poolId)).amountMoved +
      moved ≤ s.getRebalancePacing.maxAmountPerWindow

/-- What the engine needs to pay `amount_b` out of: its balance, and what the first leg brings in
where both pools are one. -/
def payable (e : Env) (l : Ledger) (p : RebalanceProposal) : ℤ :=
  l p.toPool e.contract +
    if p.toPool = p.fromPool ∧ p.fromPool ≠ e.contract then p.amountA else 0

/-- The engine runs, the move is within its budget and its bound, and both legs are covered. -/
structure Accepted (e : Env) (w : World) (p : RebalanceProposal) : Prop where
  running : w.store.isPaused = false
  started : w.store.history ≠ none
  sum : Fits 128 (p.amountA + p.amountB)
  budget : WithinBudget e w.store p.fromPool (p.amountA + p.amountB)
  bound : Bounded p
  taken_pos : 0 < p.amountA
  authorized : e.Authorized p.fromPool
  taken : p.amountA ≤ w.ledger p.fromPool p.fromPool
  put : p.amountB ≤ payable e w.ledger p

section acceptance
variable {e : Env} {s : RebalanceStore} {poolId : Address} {moved : ℤ}

theorem enabled_iff (s : RebalanceStore) : s.getRebalancePacing.Enabled ↔
    ¬ (s.getRebalancePacing.maxAmountPerWindow ≤ 0 ∨ s.getRebalancePacing.windowSeconds = 0) := by
  unfold RebalancePacing.Enabled
  omega

/-- The amount the check counts as used is that of the current window. -/
theorem used_eq (p : RebalancePacing) (now : ℕ) (usage : PoolWindowUsage) :
    (if usage.windowActive = true ∧ now - usage.windowStartedAt < p.windowSeconds then
      usage.amountMoved else 0) = (currentUsage p now usage).amountMoved := by
  unfold currentUsage
  by_cases hexpired : usage.windowActive = false ∨ p.windowSeconds ≤ now - usage.windowStartedAt
  · rw [if_pos hexpired, if_neg]
    rintro ⟨hactive, hyoung⟩
    rcases hexpired with hinactive | hold
    · exact absurd (hactive.symm.trans hinactive) Bool.noConfusion
    · omega
  · rw [if_neg hexpired]
    push Not at hexpired
    exact if_pos ⟨eq_true_of_ne_false hexpired.1, hexpired.2⟩

theorem pacingAllows_iff : pacingAllows e s poolId moved = .ok true ↔
    WithinBudget e s poolId moved := by
  unfold pacingAllows WithinBudget
  by_cases henabled : s.getRebalancePacing.Enabled
  · have hon := (enabled_iff s).mp henabled
    simp only [if_neg hon, used_eq, bind_eq_ok, I128.add_eq_ok, pure_eq_ok, decide_eq_true_eq]
    constructor
    · rintro ⟨_, ⟨hfits, rfl⟩, hle⟩ -
      exact ⟨hfits, hle⟩
    · intro h
      obtain ⟨hfits, hle⟩ := h henabled
      exact ⟨_, ⟨hfits, rfl⟩, hle⟩
  · have hoff := not_not.mp fun hon => henabled ((enabled_iff s).mpr hon)
    dsimp only
    rw [if_pos hoff]
    exact iff_of_true rfl fun h => absurd h henabled

/-- What is within the budget can be charged to it. -/
theorem recordPacing_of_within (h : WithinBudget e s poolId moved) :
    ∃ s', recordPacing e s poolId moved = .ok s' := by
  unfold recordPacing
  by_cases henabled : s.getRebalancePacing.Enabled
  · have hon := (enabled_iff s).mp henabled
    have hfits := (h henabled).1
    dsimp only
    rw [if_neg hon]
    refine ⟨_, bind_eq_ok.mpr ⟨_, I128.add_eq_ok.mpr ⟨hfits, rfl⟩, rfl⟩⟩
  · have hoff := not_not.mp fun hon => henabled ((enabled_iff s).mpr hon)
    dsimp only
    rw [if_pos hoff]
    exact ⟨s, rfl⟩

/-- The balance of the engine after the first leg. -/
theorem engine_after_first (e : Env) (l : Ledger) (p : RebalanceProposal) :
    ((l.credit p.fromPool p.fromPool (-p.amountA)).credit p.fromPool e.contract p.amountA)
      p.toPool e.contract = payable e l p := by
  unfold payable
  by_cases hpool : p.toPool = p.fromPool
  · rw [hpool, Ledger.credit_self]
    by_cases hengine : p.fromPool = e.contract
    · have hsame : ¬ (p.fromPool = p.fromPool ∧ p.fromPool ≠ e.contract) := fun h => h.2 hengine
      rw [if_neg hsame, ← hengine, Ledger.credit_self]
      ring
    · rw [if_pos ⟨rfl, hengine⟩, Ledger.credit_of_ne_holder _ _ _ _ (Ne.symm hengine)]
  · have hother : ¬ (p.toPool = p.fromPool ∧ p.fromPool ≠ e.contract) := fun h => hpool h.1
    rw [if_neg hother, Ledger.credit_of_ne_token _ _ _ _ hpool,
      Ledger.credit_of_ne_token _ _ _ _ hpool, add_zero]

/-- Both legs go through exactly when the source pool authorises the first and both are
covered. -/
theorem moved_iff {l : Ledger} {p : RebalanceProposal} (hput : 0 < p.amountB) :
    (∃ l', Moved e l l' p) ↔ 0 < p.amountA ∧ e.Authorized p.fromPool ∧
      p.amountA ≤ l p.fromPool p.fromPool ∧ p.amountB ≤ payable e l p := by
  simp only [Moved, Ledger.transfer_eq_ok]
  constructor
  · rintro ⟨_, htaken, -, _, ⟨hauthorized, ⟨-, hcovered⟩, rfl⟩, -, ⟨-, hpayable⟩, rfl⟩
    rw [engine_after_first] at hpayable
    exact ⟨htaken, hauthorized, hcovered, hpayable⟩
  · rintro ⟨htaken, hauthorized, hcovered, hpayable⟩
    refine ⟨_, htaken, hput, _, ⟨hauthorized, ⟨htaken.le, hcovered⟩, rfl⟩, .inl rfl,
      ⟨hput.le, ?_⟩, rfl⟩
    rw [engine_after_first]
    exact hpayable

end acceptance

theorem performRebalance_of_moved {e : Env} {l l' : Ledger} {p : RebalanceProposal}
    (h : Moved e l l' p) : performRebalance e l p = .ok (l', true) := by
  obtain ⟨htaken, hput, l₁, hfirst, hsecond⟩ := h
  have hamounts : ¬ (p.amountA ≤ 0 ∨ p.amountB ≤ 0) := by omega
  rw [performRebalance, if_neg hamounts]
  exact bind_eq_ok.mpr ⟨l₁, hfirst, bind_eq_ok.mpr ⟨l', hsecond, rfl⟩⟩

/-- A call returns `true` exactly when the proposal is accepted. -/
theorem executeRebalance_true_iff {e : Env} {w : World} {p : RebalanceProposal} :
    (∃ w', executeRebalance e w p = .ok (w', true)) ↔ Accepted e w p := by
  constructor
  · rintro ⟨w', h⟩
    have hsum : Fits 128 (p.amountA + p.amountB) := by
      simp only [executeRebalance, bind_eq_ok, I128.add_eq_ok] at h
      obtain ⟨_, -, _, ⟨hsum, -⟩, -⟩ := h
      exact hsum
    obtain ⟨hrunning, hexecuted⟩ := executeRebalance_executed h
    cases hexecuted with
    | moved hpaced hbound hmoved hrecord hhistory =>
        obtain ⟨htaken, hauthorized, hcovered, hpayable⟩ :=
          (moved_iff hmoved.2.1).mp ⟨_, hmoved⟩
        have hpositive : 0 < p.amountA + p.amountB := Int.add_pos htaken hmoved.2.1
        refine ⟨hrunning, ?_, hsum, pacingAllows_iff.mp (hpaced hpositive), hbound, htaken,
          hauthorized, hcovered, hpayable⟩
        rw [hhistory]
        exact Option.some_ne_none _
  · intro h
    obtain ⟨history, hhistory⟩ := Option.ne_none_iff_exists'.mp h.started
    have hput : 0 < p.amountB := h.bound.1.trans_le h.bound.2
    have hpositive : 0 < p.amountA + p.amountB := Int.add_pos h.taken_pos hput
    obtain ⟨l', hmoved⟩ := (moved_iff hput).mpr ⟨h.taken_pos, h.authorized, h.taken, h.put⟩
    obtain ⟨s, hrecord⟩ := recordPacing_of_within h.budget
    obtain ⟨windows, rfl⟩ := recordPacing_ok hrecord
    have hpaced := budgetAllows_of_paced fun _ => pacingAllows_iff.mpr h.budget
    have hbounded : slippageAllows w.store p = .ok true := by
      rw [slippageAllows_eq]
      exact congrArg Except.ok (decide_eq_true h.bound)
    have hcharge : chargeBudget e w.store p.fromPool (p.amountA + p.amountB) =
        .ok { w.store with rebalancePoolWindows := windows } := by
      rw [chargeBudget, if_pos hpositive, hrecord]
    have hrunning : w.store.requireNotPaused = .ok () :=
      RebalanceStore.requireNotPaused_eq_ok.mpr h.running
    refine ⟨⟨RebalanceStore.logged { w.store with rebalancePoolWindows := windows } history
      (historyEntry e w.store p true), l'⟩, ?_⟩
    rw [executeRebalance, hrunning, ok_bind, I128.add_of_fits h.sum, ok_bind, hpaced, ok_bind,
      if_neg Bool.noConfusion, hbounded, ok_bind, if_neg Bool.noConfusion,
      performRebalance_of_moved hmoved, ok_bind]
    exact bind_eq_ok.mpr ⟨_, hcharge, bind_eq_ok.mpr ⟨_,
      addToHistory_eq_ok.mpr ⟨history, hhistory, rfl⟩, rfl⟩⟩

/-! ### The configured cap -/

/-- An executed proposal meets its minimum, and puts in at most the configured slippage less
than it takes out. -/
def CapHolds (e : Env) (w : World) (p : RebalanceProposal) : Prop :=
  ∀ w', executeRebalance e w p = .ok (w', true) → p.minOutput ≤ p.amountB ∧
    p.amountA * (10000 - w.store.getMaxSlippageBps) ≤ p.amountB * 10000

/-- The cap holds of a proposal exactly when its amounts are within the cap or the proposal is not
accepted for some other reason: the check of the cap rejects nothing. -/
theorem slippage_cap_iff (e : Env) (w : World) (p : RebalanceProposal) :
    CapHolds e w p ↔
      p.amountA * (10000 - w.store.getMaxSlippageBps) ≤ p.amountB * 10000 ∨
        ¬ Accepted e w p := by
  constructor
  · intro hholds
    by_cases haccepted : Accepted e w p
    · obtain ⟨w', h⟩ := executeRebalance_true_iff.mpr haccepted
      exact .inl (hholds w' h).2
    · exact .inr haccepted
  · rintro (hwithin | hrejected) w' h
    · exact ⟨(executeRebalance_true_iff.mp ⟨w', h⟩).bound.2, hwithin⟩
    · exact absurd (executeRebalance_true_iff.mp ⟨w', h⟩) hrejected

/-- Everybody holds 1000 of every token; the cap is the default of 50 basis points. -/
def fundedEngine : World := ⟨initialRebalance 7, fun _ _ => 1000⟩

/-- 1000 are taken out of pool 1 and 1 is put into pool 2. -/
theorem cap_ignored :
    ∃ w', executeRebalance ⟨9, [1], 5⟩ fundedEngine ⟨1, 2, 1000, 1, 0, 0, 5, 1⟩ = .ok (w', true) ∧
      fundedEngine.store.getMaxSlippageBps = 50 ∧
      ¬ CapHolds ⟨9, [1], 5⟩ fundedEngine ⟨1, 2, 1000, 1, 0, 0, 5, 1⟩ := by
  have haccepted : Accepted ⟨9, [1], 5⟩ fundedEngine ⟨1, 2, 1000, 1, 0, 0, 5, 1⟩ :=
    ⟨rfl, Option.some_ne_none _, by decide, fun h => absurd h (by decide), by decide, by decide,
      by decide, by decide, by decide⟩
  obtain ⟨w', h⟩ := executeRebalance_true_iff.mpr haccepted
  exact ⟨w', h, rfl, fun hholds => absurd (hholds w' h).2 (by decide)⟩

/-! ### Proposals of the analysis -/

section analysis
variable {e : Env} {s : RebalanceStore} {strategyId : ℕ}

theorem analyze_eq_ok_iff {proposals : List RebalanceProposal} :
    analyzeRebalanceOpportunities e s strategyId = .ok proposals ↔
      s.isPaused = false ∧ ∃ strategy, s.getStrategy strategyId = .ok strategy ∧
        ¬ Overflows strategy ∧ opportunities e s strategy = proposals := by
  simp only [analyzeRebalanceOpportunities, bind_eq_ok, RebalanceStore.requireNotPaused_eq_ok,
    exists_const]
  apply and_congr_right
  intro _
  apply exists_congr
  intro strategy
  apply and_congr_right
  intro _
  rcases collect_analyzeAllocation e s strategy with ⟨hoverflow, hcollect⟩ | ⟨hfits, hcollect⟩
  · rw [hcollect]
    exact iff_of_false (fun h => by cases h) fun h => h.1 hoverflow
  · rw [hcollect, Except.ok.injEq]
    exact (and_iff_right hfits).symm

theorem mem_opportunities {strategy : RebalanceStrategy} {p : RebalanceProposal} :
    p ∈ opportunities e s strategy ↔ ∃ i ∈ strategy.allocations, ∃ j ∈ strategy.allocations,
      Qualifies e s strategy i j ∧ moveProposal e s i j = p := by
  simp only [opportunities, List.mem_flatMap, List.mem_map, List.mem_filter, decide_eq_true_eq,
    and_assoc]

/-- No proposal of the analysis passes the slippage check, in whatever state it is executed, and
an execution that returns has done nothing. -/
theorem proposal_rejected {proposals : List RebalanceProposal} {p : RebalanceProposal}
    (h : analyzeRebalanceOpportunities e s strategyId = .ok proposals) (hp : p ∈ proposals)
    (e' : Env) (w : World) :
    slippageAllows w.store p = .ok false ∧
      ∀ r, executeRebalance e' w p = .ok r → r = (w, false) := by
  obtain ⟨-, strategy, -, -, rfl⟩ := analyze_eq_ok_iff.mp h
  obtain ⟨i, -, j, -, -, rfl⟩ := mem_opportunities.mp hp
  have hunbounded : ¬ Bounded (moveProposal e s i j) := fun hbound => lt_irrefl 0 hbound.1
  constructor
  · rw [slippageAllows_eq]
    exact congrArg Except.ok (decide_eq_false hunbounded)
  · rintro ⟨w', b⟩ hreturned
    cases (executeRebalance_executed hreturned).2 with
    | overBudget => rfl
    | unbounded => rfl
    | malformed _ hbound => exact absurd hbound hunbounded
    | moved _ hbound => exact absurd hbound hunbounded

end analysis

/-- The proposals with positive amounts that the analysis returns pass the slippage check. -/
def ProposalsPass (e : Env) (s : RebalanceStore) (strategyId : ℕ) : Prop :=
  ∀ proposals p, analyzeRebalanceOpportunities e s strategyId = .ok proposals → p ∈ proposals →
    0 < p.amountA → 0 < p.amountB → slippageAllows s p = .ok true

/-- The analysis of the strategy has a positive share of it to move. -/
def HasMove (e : Env) (s : RebalanceStore) (strategyId : ℕ) : Prop :=
  s.isPaused = false ∧ ∃ strategy, s.getStrategy strategyId = .ok strategy ∧
    ¬ Overflows strategy ∧ ∃ i ∈ strategy.allocations, ∃ j ∈ strategy.allocations,
      Qualifies e s strategy i j ∧ 0 < i.allocationPercent

/-- The proposals of the analysis pass the slippage check exactly when it has nothing to move. -/
theorem proposals_pass_iff (e : Env) (s : RebalanceStore) (strategyId : ℕ) :
    ProposalsPass e s strategyId ↔ ¬ HasMove e s strategyId := by
  constructor
  · rintro hpass ⟨hrunning, strategy, hstored, hfits, i, hi, j, hj, hqualifies, hpercent⟩
    have hanalysis : analyzeRebalanceOpportunities e s strategyId =
        .ok (opportunities e s strategy) :=
      analyze_eq_ok_iff.mpr ⟨hrunning, strategy, hstored, hfits, rfl⟩
    have hmem : moveProposal e s i j ∈ opportunities e s strategy :=
      mem_opportunities.mpr ⟨i, hi, j, hj, hqualifies, rfl⟩
    have hpositive : (0 : ℤ) < i.allocationPercent := Int.natCast_pos.mpr hpercent
    have hpassed := hpass _ _ hanalysis hmem hpositive hpositive
    rw [(proposal_rejected hanalysis hmem e ⟨s, fun _ _ => 0⟩).1] at hpassed
    cases hpassed
  · intro hnone proposals p hanalysis hp hpositive _
    obtain ⟨hrunning, strategy, hstored, hfits, rfl⟩ := analyze_eq_ok_iff.mp hanalysis
    obtain ⟨i, hi, j, hj, hqualifies, rfl⟩ := mem_opportunities.mp hp
    exact absurd ⟨hrunning, strategy, hstored, hfits, i, hi, j, hj, hqualifies,
      Int.natCast_pos.mp hpositive⟩ hnone

/-- The analysis finds that half of the strategy should leave pool 1; the execution of its
proposal refuses it, although pacing is disabled and both legs are covered. -/
theorem proposal_not_executed :
    ∃ s p, createHalves 100 = .ok (s, 1) ∧ ¬ s.getRebalancePacing.Enabled ∧
      analyzeRebalanceOpportunities ⟨9, [1], 7⟩ s 1 = .ok [p] ∧ p.amountA = 5000 ∧
      p.amountB = 5000 ∧ (executeRebalance ⟨9, [1], 7⟩ ⟨s, fun _ _ => 10000⟩ p).map Prod.snd =
        .ok false ∧
      ¬ ProposalsPass ⟨9, [1], 7⟩ s 1 := by
  refine ⟨_, ⟨1, 2, 5000, 5000, 600, 50000, 7, 0⟩, rfl, by decide, rfl, rfl, rfl, rfl, ?_⟩
  intro hpass
  have hpassed := hpass _ _ rfl List.mem_cons_self (by decide) (by decide)
  cases hpassed

end YieldEngine.Rebalance
