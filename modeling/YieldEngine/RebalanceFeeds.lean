import YieldEngine.RebalanceRouting
import Mathlib.Algebra.Order.BigOperators.Group.List

/-! # Excluded feeds and routing

A feed is excluded after repeated rejected observations, and its record must then not influence
routing.  Both entrypoints skip an excluded pool as a candidate, and both still read its record
for the rate to beat, when it is the source of an allocation or the pool of the vault.

Two states that differ in the record of `x` alone are related by `SameButFeed`.  Across them
nothing changes but the rate to beat at `x`, which can be any number; so an entrypoint is blind
to the record exactly when it finds nothing even for the rate zero (`excluded_feed_iff`). -/

namespace YieldEngine.Rebalance

open CheckedArith

/-- The states differ at most in the oracle record of `x`. -/
structure SameButFeed (x : Address) (s s' : RebalanceStore) : Prop where
  rest : s' = { s with poolApy := s'.poolApy }
  others : ∀ y, y ≠ x → s'.getApyRegistry.get y = s.getApyRegistry.get y

/-- The result of `f` is the same for every version of the record of `x`. -/
def Blind {α : Type} (f : RebalanceStore → α) (x : Address) (s : RebalanceStore) : Prop :=
  ∀ s₁ s₂, SameButFeed x s s₁ → SameButFeed x s s₂ → f s₁ = f s₂

/-- Another pool of the strategy would be proposed for the allocation at the rate `currentApy`. -/
def Attracted (e : Env) (s : RebalanceStore) (strategy : RebalanceStrategy) (currentApy : ℕ)
    (allocation : PoolAllocation) : Prop :=
  (currentApy : ℤ) < (allocation.targetApy : ℤ) - strategy.minApyThreshold ∧
    ∃ candidate ∈ strategy.allocations, s.isFeedExcluded candidate.poolId = false ∧
      Beats e s strategy allocation currentApy candidate

/-- The available pool is an opportunity for a vault at the rate `vaultApy`. -/
def Bargain (e : Env) (s : RebalanceStore) (vaultApy : ℕ) (pool : PoolAllocation) : Prop :=
  s.isFeedExcluded pool.poolId = false ∧
    s.getArbitrageThresholds.minApyDelta ≤
      resolveApy e s pool.poolId pool.currentApy - vaultApy ∧
    pool.impermanentLossRisk ≤ s.getArbitrageThresholds.maxIlTolerance ∧
    s.getArbitrageThresholds.minNetProfit ≤
      netProfitEstimate (resolveApy e s pool.poolId pool.currentApy - vaultApy)
        pool.impermanentLossRisk

/-! ### Joining what is found -/

section collect
variable {α β : Type} {f g : α → RebalanceCall (List β)} {l : List α}

theorem collect_cons (f : α → RebalanceCall (List β)) (a : α) (l : List α) :
    collect f (a :: l) = (do let found ← f a; let rest ← collect f l; pure (found ++ rest)) := rfl

theorem collect_congr (h : ∀ a ∈ l, f a = g a) : collect f l = collect g l := by
  induction l with
  | nil => rfl
  | cons a l ih =>
      have hrest := ih fun b hb => h b (List.mem_cons_of_mem a hb)
      rw [collect_cons, collect_cons, h a List.mem_cons_self, hrest]

/-- Where every round returns, the results are joined. -/
theorem collect_ok {k : α → List β} (h : ∀ a ∈ l, f a = .ok (k a)) :
    collect f l = .ok (l.flatMap k) := by
  induction l with
  | nil => rfl
  | cons a l ih =>
      have hrest := ih fun b hb => h b (List.mem_cons_of_mem a hb)
      rw [collect_cons, h a List.mem_cons_self, hrest]
      rfl

/-- A round that fails fails the loop, with the one fault there is. -/
theorem collect_fault {fault : Fault (HostError RebalanceError)}
    (h : ∀ a ∈ l, (∃ r, f a = .ok r) ∨ f a = .error fault) (hfail : ∃ a ∈ l, f a = .error fault) :
    collect f l = .error fault := by
  induction l with
  | nil =>
      obtain ⟨a, ha, -⟩ := hfail
      cases ha
  | cons a l ih =>
      rw [collect_cons]
      rcases h a List.mem_cons_self with ⟨r, hr⟩ | herror
      · rw [hr]
        have hlater : ∃ b ∈ l, f b = .error fault := by
          obtain ⟨b, hb, hfailed⟩ := hfail
          rcases List.mem_cons.mp hb with rfl | hb
          · rw [hr] at hfailed
            cases hfailed
          · exact ⟨b, hb, hfailed⟩
        have hrest := ih (fun b hb => h b (List.mem_cons_of_mem a hb)) hlater
        rw [hrest]
        rfl
      · rw [herror]
        rfl

/-- What a returning loop has found was found in one of its rounds. -/
theorem mem_collect {r : List β} {b : β} (h : collect f l = .ok r) (hb : b ∈ r) :
    ∃ a ∈ l, ∃ found, f a = .ok found ∧ b ∈ found := by
  induction l generalizing r with
  | nil =>
      obtain rfl := pure_eq_ok.mp h
      cases hb
  | cons a l ih =>
      simp only [collect_cons, bind_eq_ok, pure_eq_ok] at h
      obtain ⟨found, hfound, rest, hrest, rfl⟩ := h
      rcases List.mem_append.mp hb with hb | hb
      · exact ⟨a, List.mem_cons_self, found, hfound, hb⟩
      · obtain ⟨a', ha', hmem⟩ := ih hrest hb
        exact ⟨a', List.mem_cons_of_mem a ha', hmem⟩

end collect

/-! ### What a version of the record can change -/

namespace SameButFeed
variable {x : Address} {s s' : RebalanceStore}

theorem refl (x : Address) (s : RebalanceStore) : SameButFeed x s s := ⟨rfl, fun _ _ => rfl⟩

/-- The state with a given record of `x`. -/
theorem publish (x : Address) (s : RebalanceStore) (record : PoolApyRecord) :
    SameButFeed x s { s with poolApy := some (s.getApyRegistry.set x record) } :=
  ⟨rfl, fun _ hy => SortedMap.get_set_ne _ _ hy⟩

/-- A version is the state with another registry. -/
theorem registry (h : SameButFeed x s s') : ∃ registry, s' = { s with poolApy := registry } :=
  ⟨s'.poolApy, h.rest⟩

theorem excluded (h : SameButFeed x s s') (y : Address) :
    s'.isFeedExcluded y = s.isFeedExcluded y := by
  obtain ⟨registry, rfl⟩ := h.registry
  rfl

theorem thresholds (h : SameButFeed x s s') :
    s'.getArbitrageThresholds = s.getArbitrageThresholds := by
  obtain ⟨registry, rfl⟩ := h.registry
  rfl

theorem resolveApy_eq (h : SameButFeed x s s') (e : Env) {y : Address} (hy : y ≠ x)
    (fallback : ℕ) : resolveApy e s' y fallback = resolveApy e s y fallback := by
  have hage : s'.getMaxApyAge = s.getMaxApyAge := by
    obtain ⟨registry, rfl⟩ := h.registry
    rfl
  unfold resolveApy
  rw [h.others y hy, hage]

end SameButFeed

/-- A record published at the time of the call gives the rate. -/
theorem resolveApy_publish (e : Env) (s : RebalanceStore) (x who : Address) (rate fallback : ℕ) :
    resolveApy e { s with
      poolApy := some (s.getApyRegistry.set x ⟨rate, e.timestamp, who⟩) } x fallback = rate := by
  have hget : ({ s with poolApy := some (s.getApyRegistry.set x ⟨rate, e.timestamp, who⟩) } :
      RebalanceStore).getApyRegistry.get x = some ⟨rate, e.timestamp, who⟩ :=
    SortedMap.get_set_self _ _ _
  have hfresh : ∀ age : ℕ, ¬ age < e.timestamp - e.timestamp := by
    intro age
    omega
  rw [resolveApy, hget]
  exact if_neg (hfresh _)

theorem requireNotPaused_of_paused {s : RebalanceStore} (h : s.isPaused = true) :
    s.requireNotPaused = .error (.raised (.contract .paused)) := by
  rw [RebalanceStore.requireNotPaused, h]
  rfl

/-! ### Proposals of a strategy -/

section analysis
variable {e : Env} {x : Address} {s s' : RebalanceStore} {strategy : RebalanceStrategy}
  {allocation : PoolAllocation}

/-- What one round proposes for an allocation at the rate `currentApy`. -/
def proposed (e : Env) (s : RebalanceStore) (strategy : RebalanceStrategy)
    (allocation : PoolAllocation) (currentApy : ℕ) : List RebalanceProposal :=
  if (currentApy : ℤ) < (allocation.targetApy : ℤ) - strategy.minApyThreshold then
    (findBetterPools e s allocation strategy currentApy).map (proposalTo e allocation currentApy)
  else []

/-- A candidate is not `x` or is skipped, so the record of `x` does not matter for it. -/
theorem SameButFeed.betterPool_eq (h : SameButFeed x s s') (hx : s.isFeedExcluded x = true)
    (currentApy : ℕ) (candidate : PoolAllocation) :
    betterPool e s' strategy allocation currentApy candidate =
      betterPool e s strategy allocation currentApy candidate := by
  by_cases hpool : candidate.poolId = x
  · subst hpool
    rw [betterPool, betterPool, h.excluded, if_pos hx, if_pos hx]
  · have hbeats : Beats e s' strategy allocation currentApy candidate ↔
        Beats e s strategy allocation currentApy candidate := by
      unfold Beats
      rw [h.resolveApy_eq e hpool]
    simp only [betterPool, hbeats, h.excluded, h.resolveApy_eq e hpool]

theorem SameButFeed.proposed_eq (h : SameButFeed x s s') (hx : s.isFeedExcluded x = true)
    (currentApy : ℕ) :
    proposed e s' strategy allocation currentApy = proposed e s strategy allocation currentApy := by
  have hbetter : betterPool e s' strategy allocation currentApy =
      betterPool e s strategy allocation currentApy :=
    funext fun candidate => h.betterPool_eq hx currentApy candidate
  simp only [proposed, findBetterPools, hbetter]

/-- A round depends on the record of `x` by the rate of its own pool only. -/
theorem SameButFeed.analyzeAllocation_eq (h : SameButFeed x s s')
    (hx : s.isFeedExcluded x = true) (allocation : PoolAllocation) :
    analyzeAllocation e s' strategy allocation = (do
      let _ ← checkedU 32 ((allocation.targetApy : ℤ) - strategy.minApyThreshold)
      pure (proposed e s strategy allocation
        (resolveApy e s' allocation.poolId allocation.currentApy))) := by
  rw [← h.proposed_eq hx, analyzeAllocation, proposed]
  unfold checkedU
  by_cases hfits : FitsU 32 ((allocation.targetApy : ℤ) - strategy.minApyThreshold)
  · rw [if_pos hfits]
    change (if _ then _ else _) = pure (if _ then _ else _)
    split_ifs <;> rfl
  · rw [if_neg hfits]
    rfl

theorem proposed_eq_nil {currentApy : ℕ} (h : ¬ Attracted e s strategy currentApy allocation) :
    proposed e s strategy allocation currentApy = [] := by
  unfold proposed
  split_ifs with hbound
  · have hnone : findBetterPools e s allocation strategy currentApy = [] := by
      apply List.filterMap_eq_nil_iff.mpr
      intro candidate hcandidate
      unfold betterPool
      split_ifs with hexcluded hbeats
      · rfl
      · exact absurd ⟨hbound, candidate, hcandidate, eq_false_of_ne_true hexcluded, hbeats⟩ h
      · rfl
    rw [hnone]
    rfl
  · rfl

/-- What beats a rate beats every lower one. -/
theorem Beats.mono {currentApy rate : ℕ} {candidate : PoolAllocation} (hle : rate ≤ currentApy)
    (h : Beats e s strategy allocation currentApy candidate) :
    Beats e s strategy allocation rate candidate := by
  obtain ⟨hne, hlt, hthreshold, hrisk⟩ := h
  exact ⟨hne, hle.trans_lt hlt, hthreshold.trans (Nat.sub_le_sub_left hle _), hrisk⟩

theorem Attracted.mono {currentApy rate : ℕ} (hle : rate ≤ currentApy)
    (h : Attracted e s strategy currentApy allocation) :
    Attracted e s strategy rate allocation := by
  obtain ⟨hbound, candidate, hcandidate, hopen, hbeats⟩ := h
  have hle' : (rate : ℤ) ≤ currentApy := by exact_mod_cast hle
  exact ⟨hle'.trans_lt hbound, candidate, hcandidate, hopen, hbeats.mono hle⟩

/-! The improvements promised by a round add up to less at a higher rate. -/

/-- The improvement one candidate is proposed for; `0` if it is not. -/
def improvement (e : Env) (s : RebalanceStore) (strategy : RebalanceStrategy)
    (allocation : PoolAllocation) (currentApy : ℕ) (candidate : PoolAllocation) : ℕ :=
  if s.isFeedExcluded candidate.poolId = false ∧
      Beats e s strategy allocation currentApy candidate then
    resolveApy e s candidate.poolId candidate.currentApy - currentApy
  else 0

def promised (proposals : List RebalanceProposal) : ℕ :=
  (proposals.map RebalanceProposal.expectedApyImprovement).sum

theorem promised_append (l l' : List RebalanceProposal) :
    promised (l ++ l') = promised l + promised l' := by simp [promised]

theorem promised_betterPools (currentApy : ℕ) (candidates : List PoolAllocation) :
    promised ((candidates.filterMap (betterPool e s strategy allocation currentApy)).map
      (proposalTo e allocation currentApy)) =
      (candidates.map (improvement e s strategy allocation currentApy)).sum := by
  induction candidates with
  | nil => rfl
  | cons candidate candidates ih =>
      rw [List.map_cons, List.sum_cons, ← ih]
      unfold improvement betterPool
      cases hexcluded : s.isFeedExcluded candidate.poolId with
      | true => simp [hexcluded, promised]
      | false =>
          by_cases hbeats : Beats e s strategy allocation currentApy candidate
          · simp [hexcluded, hbeats, promised, proposalTo]
          · simp [hexcluded, hbeats, promised]

theorem improvement_mono {currentApy rate : ℕ} (hle : rate ≤ currentApy)
    (candidate : PoolAllocation) : improvement e s strategy allocation currentApy candidate ≤
      improvement e s strategy allocation rate candidate := by
  unfold improvement
  split_ifs with hhigh hlow
  · exact Nat.sub_le_sub_left hle _
  · exact absurd ⟨hhigh.1, hhigh.2.mono hle⟩ hlow
  · exact Nat.zero_le _
  · exact le_rfl

theorem promised_proposed (currentApy : ℕ) :
    promised (proposed e s strategy allocation currentApy) =
      if (currentApy : ℤ) < (allocation.targetApy : ℤ) - strategy.minApyThreshold then
        (strategy.allocations.map (improvement e s strategy allocation currentApy)).sum
      else 0 := by
  unfold proposed findBetterPools
  split_ifs
  · exact promised_betterPools currentApy strategy.allocations
  · rfl

theorem promised_mono {currentApy rate : ℕ} (hle : rate ≤ currentApy) :
    promised (proposed e s strategy allocation currentApy) ≤
      promised (proposed e s strategy allocation rate) := by
  have hle' : (rate : ℤ) ≤ currentApy := by exact_mod_cast hle
  rw [promised_proposed, promised_proposed]
  split_ifs with hhigh hlow
  · exact List.sum_le_sum fun candidate _ => improvement_mono hle candidate
  · exact absurd (hle'.trans_lt hhigh) hlow
  · exact Nat.zero_le _
  · exact le_rfl

/-- Where something is proposed at the rate zero, less is promised at the rate one. -/
theorem promised_lt (h : Attracted e s strategy 0 allocation) :
    promised (proposed e s strategy allocation 1) <
      promised (proposed e s strategy allocation 0) := by
  obtain ⟨hbound, candidate, hcandidate, hopen, hbeats⟩ := h
  have hzero : improvement e s strategy allocation 0 candidate =
      resolveApy e s candidate.poolId candidate.currentApy := if_pos ⟨hopen, hbeats⟩
  have hpositive : 0 < resolveApy e s candidate.poolId candidate.currentApy := hbeats.2.1
  have hone : improvement e s strategy allocation 1 candidate <
      improvement e s strategy allocation 0 candidate := by
    rw [hzero]
    unfold improvement
    split_ifs
    · omega
    · exact hpositive
  have hsum : (strategy.allocations.map (improvement e s strategy allocation 1)).sum <
      (strategy.allocations.map (improvement e s strategy allocation 0)).sum :=
    List.sum_lt_sum _ _ (fun c _ => improvement_mono (Nat.zero_le 1) c)
      ⟨candidate, hcandidate, hone⟩
  rw [promised_proposed, promised_proposed, if_pos hbound]
  split_ifs
  · exact hsum
  · exact (Nat.zero_le _).trans_lt hsum

theorem promised_flatMap {α : Type} (k : α → List RebalanceProposal) (l : List α) :
    promised (l.flatMap k) = (l.map fun a => promised (k a)).sum := by
  induction l with
  | nil => rfl
  | cons a l ih => rw [List.flatMap_cons, promised_append, ih, List.map_cons, List.sum_cons]

theorem SameButFeed.analyze_eq (h : SameButFeed x s s') (strategyId : ℕ) :
    analyzeRebalanceOpportunities e s' strategyId = (do
      s.requireNotPaused
      let strategy ← s.getStrategy strategyId
      collect (analyzeAllocation e s' strategy) strategy.allocations) := by
  obtain ⟨registry, rfl⟩ := h.registry
  rfl

/-- A running analysis is its loop over the allocations. -/
theorem SameButFeed.analyze_loop (h : SameButFeed x s s') (hrunning : s.isPaused = false)
    {strategyId : ℕ} (hstrategy : s.getStrategy strategyId = .ok strategy) :
    analyzeRebalanceOpportunities e s' strategyId =
      collect (analyzeAllocation e s' strategy) strategy.allocations := by
  have hguard : s.requireNotPaused = .ok () := RebalanceStore.requireNotPaused_eq_ok.mpr hrunning
  rw [h.analyze_eq, hguard, hstrategy]
  rfl

/-- The target of an allocation is below the threshold of the strategy, so every analysis of it
stops at an overflow. -/
def Overflows (strategy : RebalanceStrategy) : Prop :=
  ∃ allocation ∈ strategy.allocations,
    ¬ FitsU 32 ((allocation.targetApy : ℤ) - strategy.minApyThreshold)

theorem analyzeAllocation_overflow (hx : s.isFeedExcluded x = true) (h : SameButFeed x s s')
    (hoverflow : Overflows strategy) :
    collect (analyzeAllocation e s' strategy) strategy.allocations = .error .overflow := by
  have hround : ∀ a : PoolAllocation, analyzeAllocation e s' strategy a =
      if FitsU 32 ((a.targetApy : ℤ) - strategy.minApyThreshold) then
        .ok (proposed e s strategy a (resolveApy e s' a.poolId a.currentApy))
      else .error .overflow := by
    intro a
    rw [h.analyzeAllocation_eq hx]
    unfold checkedU
    split_ifs <;> rfl
  apply collect_fault
  · intro a _
    rw [hround]
    split_ifs
    · exact .inl ⟨_, rfl⟩
    · exact .inr rfl
  · obtain ⟨a, ha, hwide⟩ := hoverflow
    exact ⟨a, ha, (hround a).trans (if_neg hwide)⟩

/-- Where nothing overflows, the loop joins the proposals of its rounds. -/
theorem analyzeAllocation_joined (hx : s.isFeedExcluded x = true) (h : SameButFeed x s s')
    (hfits : ¬ Overflows strategy) :
    collect (analyzeAllocation e s' strategy) strategy.allocations =
      .ok (strategy.allocations.flatMap fun a =>
        proposed e s strategy a (resolveApy e s' a.poolId a.currentApy)) := by
  apply collect_ok
  intro a ha
  have hfit : FitsU 32 ((a.targetApy : ℤ) - strategy.minApyThreshold) := by
    by_contra hwide
    exact hfits ⟨a, ha, hwide⟩
  rw [h.analyzeAllocation_eq hx]
  unfold checkedU
  rw [if_pos hfit]
  rfl

/-- The rates zero and one of an excluded pool are told apart by the profit promised for an
allocation in it. -/
theorem not_blind_of_attracted {strategyId : ℕ} (hrunning : s.isPaused = false)
    (hstrategy : s.getStrategy strategyId = .ok strategy) (hfits : ¬ Overflows strategy)
    (hallocation : allocation ∈ strategy.allocations)
    (hx : s.isFeedExcluded allocation.poolId = true)
    (hattracted : Attracted e s strategy 0 allocation) :
    ¬ Blind (fun s => analyzeRebalanceOpportunities e s strategyId) allocation.poolId s := by
  intro hblind
  have hzero := SameButFeed.publish allocation.poolId s ⟨0, e.timestamp, 0⟩
  have hone := SameButFeed.publish allocation.poolId s ⟨1, e.timestamp, 0⟩
  have hsame := hblind _ _ hzero hone
  simp only [hzero.analyze_loop hrunning hstrategy, hone.analyze_loop hrunning hstrategy,
    analyzeAllocation_joined hx hzero hfits, analyzeAllocation_joined hx hone hfits] at hsame
  have hpromised := congrArg promised (Except.ok.inj hsame)
  rw [promised_flatMap, promised_flatMap] at hpromised
  refine absurd hpromised (ne_of_gt (List.sum_lt_sum _ _ (fun a _ => ?_) ⟨allocation,
    hallocation, ?_⟩))
  · by_cases hpool : a.poolId = allocation.poolId
    · rw [hpool, resolveApy_publish, resolveApy_publish]
      exact promised_mono (Nat.zero_le 1)
    · rw [hzero.resolveApy_eq e hpool, hone.resolveApy_eq e hpool]
  · rw [resolveApy_publish, resolveApy_publish]
    exact promised_lt hattracted

/-- Where the loop stops in any case, or proposes nothing for the pool at the rate zero, it does
the same for every rate. -/
theorem analyzeAllocation_same {s₁ s₂ : RebalanceStore} (hx : s.isFeedExcluded x = true)
    (h₁ : SameButFeed x s s₁) (h₂ : SameButFeed x s s₂)
    (hcond : Overflows strategy ∨ ∀ allocation ∈ strategy.allocations, allocation.poolId = x →
      ¬ Attracted e s strategy 0 allocation) :
    collect (analyzeAllocation e s₁ strategy) strategy.allocations =
      collect (analyzeAllocation e s₂ strategy) strategy.allocations := by
  rcases hcond with hoverflow | hnone
  · rw [analyzeAllocation_overflow hx h₁ hoverflow, analyzeAllocation_overflow hx h₂ hoverflow]
  · apply collect_congr
    intro a ha
    rw [h₁.analyzeAllocation_eq hx, h₂.analyzeAllocation_eq hx]
    by_cases hpool : a.poolId = x
    · have hnothing : ∀ rate, proposed e s strategy a rate = [] := fun rate =>
        proposed_eq_nil fun hattracted => hnone a ha hpool (hattracted.mono (Nat.zero_le rate))
      rw [hnothing, hnothing]
    · rw [h₁.resolveApy_eq e hpool, h₂.resolveApy_eq e hpool]

/-- The analysis of a strategy is blind to the record of an excluded pool if and only if it
stops in any case, or nothing is proposed for the allocations of that pool at the rate zero. -/
theorem analyze_blind_iff (hx : s.isFeedExcluded x = true) (strategyId : ℕ) :
    Blind (fun s => analyzeRebalanceOpportunities e s strategyId) x s ↔
      s.isPaused = true ∨ ∀ strategy, s.getStrategy strategyId = .ok strategy →
        Overflows strategy ∨ ∀ allocation ∈ strategy.allocations, allocation.poolId = x →
          ¬ Attracted e s strategy 0 allocation := by
  constructor
  · intro hblind
    by_contra hnot
    push Not at hnot
    obtain ⟨hrunning, strategy, hstrategy, hfits, allocation, hallocation, rfl, hattracted⟩ := hnot
    exact not_blind_of_attracted (eq_false_of_ne_true hrunning) hstrategy hfits hallocation hx
      hattracted hblind
  · intro hcond s₁ s₂ h₁ h₂
    simp only [h₁.analyze_eq, h₂.analyze_eq]
    rcases hcond with hpaused | hcond
    · rw [requireNotPaused_of_paused hpaused, error_bind, error_bind]
    · cases hstrategy : s.getStrategy strategyId with
      | error fault => rfl
      | ok strategy =>
          exact congrArg (fun loop => s.requireNotPaused >>= fun _ => loop)
            (analyzeAllocation_same hx h₁ h₂ (hcond strategy hstrategy))

end analysis

/-! ### Opportunities of a vault -/

section scan
variable {e : Env} {x : Address} {s s' : RebalanceStore}

theorem SameButFeed.scanPool_eq (h : SameButFeed x s s') (hx : s.isFeedExcluded x = true)
    (vaultApy : ℕ) (pool : PoolAllocation) :
    scanPool e s' vaultApy pool = scanPool e s vaultApy pool := by
  by_cases hpool : pool.poolId = x
  · subst hpool
    rw [scanPool, scanPool, h.excluded, if_pos hx, if_pos hx]
  · simp only [scanPool, h.excluded, h.thresholds, h.resolveApy_eq e hpool]

/-- A scan depends on the record of `x` by the rate of the vault's pool only. -/
theorem SameButFeed.scan_eq (h : SameButFeed x s s') (hx : s.isFeedExcluded x = true)
    (vaultPoolId : Address) (vaultCurrentApy : ℕ) (availablePools : List PoolAllocation) :
    scanOpportunities e s' vaultPoolId vaultCurrentApy availablePools = (do
      s.requireNotPaused
      collect (scanPool e s (resolveApy e s' vaultPoolId vaultCurrentApy)) availablePools) := by
  have hloop := collect_congr fun pool (_ : pool ∈ availablePools) =>
    h.scanPool_eq hx (e := e) (resolveApy e s' vaultPoolId vaultCurrentApy) pool
  rw [← hloop]
  obtain ⟨registry, rfl⟩ := h.registry
  rfl

theorem SameButFeed.scan_loop (h : SameButFeed x s s') (hx : s.isFeedExcluded x = true)
    (hrunning : s.isPaused = false) (vaultPoolId : Address) (vaultCurrentApy : ℕ)
    (availablePools : List PoolAllocation) :
    scanOpportunities e s' vaultPoolId vaultCurrentApy availablePools =
      collect (scanPool e s (resolveApy e s' vaultPoolId vaultCurrentApy)) availablePools := by
  have hguard : s.requireNotPaused = .ok () := RebalanceStore.requireNotPaused_eq_ok.mpr hrunning
  rw [h.scan_eq hx, hguard]
  rfl

theorem netProfitEstimate_eq (apyDelta impermanentLossRisk : ℕ) :
    netProfitEstimate apyDelta impermanentLossRisk =
      ((apyDelta : ℤ) - impermanentLossRisk) * 100 := by
  rw [netProfitEstimate]
  have hscale : ((apyDelta : ℤ) - impermanentLossRisk) * 1000000 =
      ((apyDelta : ℤ) - impermanentLossRisk) * 100 * 10000 := by ring
  rw [hscale]
  exact Int.mul_tdiv_cancel _ (by norm_num)

/-- A bargain is one for every lower rate of the vault. -/
theorem Bargain.mono {vaultApy rate : ℕ} {pool : PoolAllocation} (hle : rate ≤ vaultApy)
    (h : Bargain e s vaultApy pool) : Bargain e s rate pool := by
  obtain ⟨hopen, hdelta, hrisk, hprofit⟩ := h
  have hless := Nat.sub_le_sub_left hle (resolveApy e s pool.poolId pool.currentApy)
  refine ⟨hopen, hdelta.trans hless, hrisk, hprofit.trans ?_⟩
  rw [netProfitEstimate_eq, netProfitEstimate_eq]
  omega

/-- One round of a scan. -/
inductive Scanned (e : Env) (s : RebalanceStore) (vaultApy : ℕ) (pool : PoolAllocation) :
    RebalanceCall (List ArbitrageOpportunity) → Prop
  | nothing (hnone : ¬ Bargain e s vaultApy pool) : Scanned e s vaultApy pool (.ok [])
  | found (opportunity : ArbitrageOpportunity) (hbargain : Bargain e s vaultApy pool)
      (hrate : opportunity.currentApy = vaultApy) :
      Scanned e s vaultApy pool (.ok [opportunity])
  /-- Twice the threshold does not fit 32 bits, so the threshold is not zero. -/
  | overflow (hbargain : Bargain e s vaultApy pool)
      (hthreshold : 0 < s.getArbitrageThresholds.minApyDelta) :
      Scanned e s vaultApy pool (.error .overflow)

theorem scanPool_scanned (e : Env) (s : RebalanceStore) (vaultApy : ℕ) (pool : PoolAllocation) :
    Scanned e s vaultApy pool (scanPool e s vaultApy pool) := by
  unfold scanPool
  dsimp only
  split_ifs with hexcluded hmatches hsmall
  · exact .nothing fun h => absurd (hexcluded.symm.trans h.1) Bool.noConfusion
  · exact .nothing fun h => absurd h.2.2.2 (not_le.mpr hsmall)
  · have hbargain : Bargain e s vaultApy pool :=
      ⟨eq_false_of_ne_true hexcluded, hmatches.1, hmatches.2, not_lt.mp hsmall⟩
    unfold checkedU
    split_ifs with hfits
    · exact .found _ hbargain rfl
    · refine .overflow hbargain ?_
      by_contra hzero
      obtain hzero : s.getArbitrageThresholds.minApyDelta = 0 := by omega
      rw [hzero] at hfits
      exact hfits (by decide)
  · exact .nothing fun h => hmatches ⟨h.2.1, h.2.2.1⟩

/-- A scan finds nothing exactly when no pool is a bargain. -/
theorem scan_eq_nil_iff {vaultApy : ℕ} {pools : List PoolAllocation} :
    collect (scanPool e s vaultApy) pools = .ok [] ↔
      ∀ pool ∈ pools, ¬ Bargain e s vaultApy pool := by
  constructor
  · intro h pool hpool hbargain
    induction pools with
    | nil => cases hpool
    | cons first pools ih =>
        simp only [collect_cons, bind_eq_ok, pure_eq_ok, List.append_eq_nil_iff] at h
        obtain ⟨found, hfound, rest, hrest, rfl, rfl⟩ := h
        rcases List.mem_cons.mp hpool with rfl | hpool
        · have hround := scanPool_scanned e s vaultApy pool
          rw [hfound] at hround
          cases hround with
          | nothing hnone => exact hnone hbargain
        · exact ih hrest hpool
  · intro hnone
    have hround : ∀ pool ∈ pools, scanPool e s vaultApy pool = .ok [] := by
      intro pool hpool
      have hround := scanPool_scanned e s vaultApy pool
      cases hscan : scanPool e s vaultApy pool with
      | ok found =>
          rw [hscan] at hround
          cases hround with
          | nothing => rfl
          | found _ hbargain _ => exact absurd hbargain (hnone pool hpool)
      | error fault =>
          rw [hscan] at hround
          cases hround with
          | overflow hbargain _ => exact absurd hbargain (hnone pool hpool)
    rw [collect_ok hround, List.flatMap_eq_nil_iff.mpr fun _ _ => rfl]

/-- Every opportunity of a scan names the rate of the vault. -/
theorem scan_rate {vaultApy : ℕ} {pools : List PoolAllocation}
    {opportunities : List ArbitrageOpportunity} {opportunity : ArbitrageOpportunity}
    (h : collect (scanPool e s vaultApy) pools = .ok opportunities)
    (hmem : opportunity ∈ opportunities) : opportunity.currentApy = vaultApy := by
  obtain ⟨pool, -, found, hfound, hmem⟩ := mem_collect h hmem
  have hround := scanPool_scanned e s vaultApy pool
  rw [hfound] at hround
  cases hround with
  | nothing => cases hmem
  | found _ _ hrate =>
      obtain rfl := List.mem_singleton.mp hmem
      exact hrate

/-- At a rate no pool exceeds, nothing is a bargain while there is a threshold. -/
theorem not_bargain_of_high {vaultApy : ℕ} {pool : PoolAllocation}
    (hthreshold : 0 < s.getArbitrageThresholds.minApyDelta)
    (hhigh : resolveApy e s pool.poolId pool.currentApy ≤ vaultApy) :
    ¬ Bargain e s vaultApy pool := by
  rintro ⟨-, hdelta, -⟩
  omega

/-- A scan that fails has a threshold. -/
theorem scan_fault {vaultApy : ℕ} {pools : List PoolAllocation}
    {fault : Fault (HostError RebalanceError)}
    (h : collect (scanPool e s vaultApy) pools = .error fault) :
    0 < s.getArbitrageThresholds.minApyDelta := by
  by_contra hzero
  have hround : ∀ pool ∈ pools, ∃ found, scanPool e s vaultApy pool = .ok found := by
    intro pool _
    have hround := scanPool_scanned e s vaultApy pool
    cases hscan : scanPool e s vaultApy pool with
    | ok found => exact ⟨found, rfl⟩
    | error fault =>
        rw [hscan] at hround
        cases hround with
        | overflow _ hthreshold => exact absurd hthreshold hzero
  choose! found hfound using hround
  rw [collect_ok hfound] at h
  cases h

/-- The rates of the available pools are bounded. -/
theorem exists_high_rate (e : Env) (s : RebalanceStore) (pools : List PoolAllocation) :
    ∃ rate, ∀ pool ∈ pools, resolveApy e s pool.poolId pool.currentApy ≤ rate := by
  refine ⟨(pools.map fun pool => resolveApy e s pool.poolId pool.currentApy).sum, ?_⟩
  intro pool hpool
  exact List.single_le_sum (fun _ _ => Nat.zero_le _) _ (List.mem_map_of_mem hpool)

/-- A scan is blind to the record of an excluded pool if and only if it is refused, or that
pool is not the vault's, or nothing is a bargain for a vault at the rate zero. -/
theorem scan_blind_iff (hx : s.isFeedExcluded x = true) (vaultPoolId : Address)
    (vaultCurrentApy : ℕ) (availablePools : List PoolAllocation) :
    Blind (fun s => scanOpportunities e s vaultPoolId vaultCurrentApy availablePools) x s ↔
      s.isPaused = true ∨ vaultPoolId ≠ x ∨ ∀ pool ∈ availablePools, ¬ Bargain e s 0 pool := by
  constructor
  · intro hblind
    by_contra hnot
    push Not at hnot
    obtain ⟨hrunning, rfl, pool, hpool, hbargain⟩ := hnot
    -- whatever rate is published for the vault's pool, the scan is the same
    have hsame : ∀ rate, collect (scanPool e s rate) availablePools =
        collect (scanPool e s 0) availablePools := by
      intro rate
      have hrate := SameButFeed.publish vaultPoolId s ⟨rate, e.timestamp, 0⟩
      have hzero := SameButFeed.publish vaultPoolId s ⟨0, e.timestamp, 0⟩
      have hscan := hblind _ _ hrate hzero
      have hrunning := eq_false_of_ne_true hrunning
      simp only [hrate.scan_loop hx hrunning, hzero.scan_loop hx hrunning,
        resolveApy_publish] at hscan
      exact hscan
    cases hscan : collect (scanPool e s 0) availablePools with
    | ok opportunities =>
        cases opportunities with
        | nil => exact scan_eq_nil_iff.mp hscan pool hpool hbargain
        | cons opportunity rest =>
            have hzero := scan_rate hscan List.mem_cons_self
            have hone := scan_rate ((hsame 1).trans hscan) List.mem_cons_self
            rw [hzero] at hone
            cases hone
    | error fault =>
        obtain ⟨rate, hhigh⟩ := exists_high_rate e s availablePools
        have hnothing := scan_eq_nil_iff.mpr fun pool hpool =>
          not_bargain_of_high (scan_fault hscan) (hhigh pool hpool)
        rw [hsame rate, hscan] at hnothing
        cases hnothing
  · intro hcond s₁ s₂ h₁ h₂
    simp only [h₁.scan_eq hx, h₂.scan_eq hx]
    rcases hcond with hpaused | hother | hnone
    · rw [requireNotPaused_of_paused hpaused, error_bind, error_bind]
    · rw [h₁.resolveApy_eq e hother, h₂.resolveApy_eq e hother]
    · have hnothing : ∀ rate, collect (scanPool e s rate) availablePools = .ok [] := fun rate =>
        scan_eq_nil_iff.mpr fun pool hpool hbargain =>
          hnone pool hpool (hbargain.mono (Nat.zero_le rate))
      rw [hnothing, hnothing]

end scan

/-! ### Both entrypoints -/

/-- When the record of an excluded pool has no influence on routing. -/
theorem excluded_feed_iff (e : Env) (s : RebalanceStore) (x : Address)
    (hx : s.isFeedExcluded x = true) :
    (∀ strategyId, Blind (fun s => analyzeRebalanceOpportunities e s strategyId) x s ↔
      s.isPaused = true ∨ ∀ strategy, s.getStrategy strategyId = .ok strategy →
        Overflows strategy ∨ ∀ allocation ∈ strategy.allocations, allocation.poolId = x →
          ¬ Attracted e s strategy 0 allocation) ∧
    ∀ vaultPoolId vaultCurrentApy availablePools,
      Blind (fun s => scanOpportunities e s vaultPoolId vaultCurrentApy availablePools) x s ↔
        s.isPaused = true ∨ vaultPoolId ≠ x ∨ ∀ pool ∈ availablePools, ¬ Bargain e s 0 pool :=
  ⟨fun strategyId => analyze_blind_iff hx strategyId,
    fun vaultPoolId vaultCurrentApy availablePools =>
      scan_blind_iff hx vaultPoolId vaultCurrentApy availablePools⟩

/-- An allocation of half a strategy in `poolId`. -/
def halfIn (poolId : Address) (currentApy : ℕ) : PoolAllocation :=
  ⟨poolId, 1, 2, 5000, 1000, currentApy, 0⟩

/-- The feed of pool 1 is excluded; a strategy holds the pools 1 and 2. -/
def excludingEngine : RebalanceStore :=
  { RebalanceStore.fresh with
    strategies := some (SortedMap.empty.set 1
      ⟨1, "halves", 2, 100, 500, 0, [halfIn 1 300, halfIn 2 900]⟩)
    feedValidation := some (SortedMap.empty.set 1 ⟨3, 5, true⟩) }

/-- For a vault in the other pool the record makes no difference. -/
theorem excluded_feed_iff_excludingEngine :
    Blind (fun s => scanOpportunities ⟨9, [], 7⟩ s 2 300 [halfIn 1 900]) 1 excludingEngine := by
  have hscan := (excluded_feed_iff ⟨9, [], 7⟩ excludingEngine 1 rfl).2 2 300 [halfIn 1 900]
  exact hscan.mpr (.inr (.inl (by decide)))

/-- The record of an excluded pool decides whether the strategy moves out of it, and whether a
vault in it has an opportunity. -/
theorem excluded_feed_read :
    excludingEngine.isFeedExcluded 1 = true ∧
      ¬ Blind (fun s => analyzeRebalanceOpportunities ⟨9, [], 7⟩ s 1) 1 excludingEngine ∧
      ¬ Blind (fun s => scanOpportunities ⟨9, [], 7⟩ s 1 300 [halfIn 2 900]) 1
        excludingEngine := by
  refine ⟨rfl, fun h => ?_, fun h => ?_⟩
  · have hsame := h _ _ (.publish 1 _ ⟨300, 7, 0⟩) (.publish 1 _ ⟨950, 7, 0⟩)
    exact absurd (congrArg (fun r => r.toOption.map List.length) hsame) (by decide)
  · have hsame := h _ _ (.publish 1 _ ⟨300, 7, 0⟩) (.publish 1 _ ⟨950, 7, 0⟩)
    exact absurd (congrArg (fun r => r.toOption.map List.length) hsame) (by decide)

end YieldEngine.Rebalance
