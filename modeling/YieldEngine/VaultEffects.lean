import YieldEngine.VaultWrites
import YieldEngine.VaultAmounts

/-! # What an invocation of the vault can do

One lemma per entrypoint that moves value, saying everything a returning call has checked
and written: `deposit_facts`, `withdraw_facts` (over `planWithdraw_facts`) and
`harvest_facts`.  Every other entrypoint leaves the accounts of the vault alone
(`execAdmin_sameAccounts`).

The accounts are the configuration, the positions and the three totals.  Later files reason
from these lemmas and do not unfold an entrypoint. -/

namespace YieldEngine.Vault

open CheckedArith

/-! ### The frame of the accounts -/

/-- Two stores agree on the configuration, the positions and the totals. -/
structure SameAccounts (s s' : VaultStore) : Prop where
  info : s'.vaultInfo = s.vaultInfo
  positions : s'.positions = s.positions
  totalShares : s'.storedMetrics.totalShares = s.storedMetrics.totalShares
  totalAmountA : s'.storedMetrics.totalAmountA = s.storedMetrics.totalAmountA
  totalAmountB : s'.storedMetrics.totalAmountB = s.storedMetrics.totalAmountB

theorem SameAccounts.refl (s : VaultStore) : SameAccounts s s := ⟨rfl, rfl, rfl, rfl, rfl⟩

theorem SameAccounts.of_revalued {s s' : VaultStore} {metrics : Option VaultMetrics}
    (hinfo : s'.vaultInfo = s.vaultInfo) (hpositions : s'.positions = s.positions)
    (hs' : s'.metrics = metrics)
    (hmetrics : metrics = s.metrics ∨ ∃ m, metrics = some m ∧ s.Revalued m) :
    SameAccounts s s' := by
  obtain h | ⟨m, h, h1, h2, h3⟩ := hmetrics
  · have hstored : s'.storedMetrics = s.storedMetrics := by
      rw [VaultStore.storedMetrics, hs', h, ← VaultStore.storedMetrics]
    exact ⟨hinfo, hpositions, by rw [hstored], by rw [hstored], by rw [hstored]⟩
  · have hstored : s'.storedMetrics = m := by
      rw [VaultStore.storedMetrics, hs', h]
      rfl
    exact ⟨hinfo, hpositions, hstored ▸ h1, hstored ▸ h2, hstored ▸ h3⟩

/-- Entrypoints other than deposits, withdrawals and harvests leave the accounts alone. -/
theorem Written.sameAccounts {e : Env} {s s' : VaultStore} {action : VaultAction}
    (h : Written e s action s') : SameAccounts s s' := by
  cases h with
  | @execute admin actionId entry metrics _ _ _ hmetrics =>
      cases entry.action <;> exact .of_revalued rfl rfl rfl hmetrics
  | setPrices _ hmetrics => exact .of_revalued rfl rfl rfl (.inr ⟨_, rfl, hmetrics⟩)
  | _ => exact ⟨rfl, rfl, rfl, rfl, rfl⟩

theorem execAdmin_sameAccounts {e : Env} {s s' : VaultStore} {action : VaultAction}
    (h : execAdmin e s action = .ok s') : SameAccounts s s' := by
  cases action with
  | deposit user amountA amountB minShares =>
      obtain rfl := pure_eq_ok.mp h
      exact .refl s
  | withdraw user shares minAmountA minAmountB =>
      obtain rfl := pure_eq_ok.mp h
      exact .refl s
  | harvest caller =>
      obtain rfl := pure_eq_ok.mp h
      exact .refl s
  | _ => exact (execAdmin_written id h).sameAccounts

/-! ### Deposits -/

/-- The shares a deposit of value `v` mints against totals `T` and `S`, unbounded. -/
def mintedShares (S T v : ℤ) : ℤ :=
  if S = 0 then v else if T ≤ 0 then 0 else (v * S).tdiv T

/-- What a returning deposit has checked and written. -/
structure DepositFacts (e : Env) (w : World) (user : Address) (amountA amountB : ℤ)
    (w' : World) (shares : ℤ) : Prop where
  shares_eq : shares = mintedShares w.store.storedMetrics.totalShares
    (w.store.storedMetrics.totalAmountA + w.store.storedMetrics.totalAmountB) (amountA + amountB)
  shares_pos : 0 < shares
  amountA_nonneg : 0 ≤ amountA
  amountB_nonneg : 0 ≤ amountB
  shares_fit : Fits 128 ((w.store.getUserPosition user).shares + shares)
  info : w'.store.vaultInfo = w.store.vaultInfo
  positions : w'.store.positions = w.store.positions.set user
    ⟨(w.store.getUserPosition user).shares + shares, e.timestamp,
      (w.store.getUserPosition user).depositedAmountA + amountA,
      (w.store.getUserPosition user).depositedAmountB + amountB⟩
  totalShares : w'.store.storedMetrics.totalShares = w.store.storedMetrics.totalShares + shares
  totalAmountA : w'.store.storedMetrics.totalAmountA = w.store.storedMetrics.totalAmountA + amountA
  totalAmountB : w'.store.storedMetrics.totalAmountB = w.store.storedMetrics.totalAmountB + amountB
  ledger : ∃ info, w.store.vaultInfo = some info ∧ ∃ l : Ledger,
    (w.ledger.transfer e info.tokenA user e.contract amountA : VaultCall Ledger) = .ok l ∧
      (l.transfer e info.tokenB user e.contract amountB : VaultCall Ledger) = .ok w'.ledger

theorem sharesForDeposit_guarded (metrics : VaultMetrics) (amountA amountB : ℤ) :
    Guarded (sharesForDeposit metrics amountA amountB) (fun x => x = mintedShares
      metrics.totalShares (metrics.totalAmountA + metrics.totalAmountB) (amountA + amountB)) := by
  unfold sharesForDeposit mintedShares
  by_cases hS : metrics.totalShares = 0
  · rw [if_pos hS, if_pos hS]
    exact guarded_checked fun _ => rfl
  · rw [if_neg hS, if_neg hS]
    refine Guarded.bind (guarded_checked fun _ => ?_)
    by_cases hT : metrics.totalAmountA + metrics.totalAmountB ≤ 0
    · rw [if_pos hT, if_pos hT]
      exact guarded_pure.mpr rfl
    · rw [if_neg hT, if_neg hT]
      refine Guarded.bind (guarded_checked fun _ => Guarded.bind (guarded_checked fun _ => ?_))
      exact I128.guarded_div (fun h0 => hT h0.le) fun _ => rfl

theorem mintShares_ok {e : Env} {s s' : VaultStore} {user : Address} {metrics : VaultMetrics}
    {amountA amountB shares : ℤ} (h : mintShares e s user metrics amountA amountB shares = .ok s') :
    Fits 128 ((s.getUserPosition user).shares + shares) ∧ ∃ tvl, s' = { s with
      positions := s.positions.set user ⟨(s.getUserPosition user).shares + shares, e.timestamp,
        (s.getUserPosition user).depositedAmountA + amountA,
        (s.getUserPosition user).depositedAmountB + amountB⟩
      metrics := some ⟨metrics.totalShares + shares, metrics.totalAmountA + amountA,
        metrics.totalAmountB + amountB, metrics.apy, tvl, metrics.lastHarvest⟩ } := by
  simp only [mintShares, bind_eq_ok, pure_eq_ok, I128.add_eq_ok] at h
  obtain ⟨_, ⟨hfit, rfl⟩, _, ⟨-, rfl⟩, _, ⟨-, rfl⟩, _, ⟨-, rfl⟩, _, ⟨-, rfl⟩, _, ⟨-, rfl⟩, tvl,
    -, rfl⟩ := h
  exact ⟨hfit, tvl, rfl⟩

theorem deposit_facts {e : Env} {w w' : World} {user : Address} {amountA amountB minShares : ℤ}
    {shares : ℤ} (h : deposit e w user amountA amountB minShares = .ok (w', shares)) :
    DepositFacts e w user amountA amountB w' shares := by
  simp only [deposit, bind_eq_ok, pure_eq_ok, require_eq_ok, exists_const,
    VaultStore.requireNotPaused_eq_ok, VaultStore.getVaultInfo_eq_ok, I128.add_eq_ok,
    Prod.mk.injEq] at h
  obtain ⟨-, -, -, _, ⟨-, rfl⟩, -, info, hinfo, metrics, hmetrics, shares', hshares, hpos, -,
    paidA, hpaidA, paidB, hpaidB, store, hstore, rfl, rfl⟩ := h
  obtain ⟨hfit, tvl, rfl⟩ := mintShares_ok hstore
  obtain ⟨hm1, hm2, hm3⟩ := VaultStore.getMetrics_totals hmetrics
  have hs := (sharesForDeposit_guarded metrics amountA amountB).of_ok hshares
  rw [hm1, hm2, hm3] at hs
  exact {
    shares_eq := hs
    shares_pos := hpos
    amountA_nonneg := (Ledger.transfer_eq_ok.mp hpaidA).2.1.1
    amountB_nonneg := (Ledger.transfer_eq_ok.mp hpaidB).2.1.1
    shares_fit := hfit
    info := rfl
    positions := rfl
    totalShares := congrArg (· + shares') hm1
    totalAmountA := congrArg (· + amountA) hm2
    totalAmountB := congrArg (· + amountB) hm3
    ledger := ⟨info, hinfo, paidA, hpaidA, hpaidB⟩ }

/-! ### Withdrawals -/

theorem consumeWithdrawPacing_sameAccounts {e : Env} {s s' : VaultStore} {user : Address}
    {shares positionShares totalShares : ℤ}
    (h : consumeWithdrawPacing e s user shares positionShares totalShares = .ok s') :
    SameAccounts s s' := by
  simp only [consumeWithdrawPacing, ite_eq_ok, bind_eq_ok, pure_eq_ok] at h
  obtain ⟨-, rfl⟩ | ⟨-, -, -, -, -, _, -, _, -, rfl⟩ := h
  · exact .refl s
  · exact ⟨rfl, rfl, rfl, rfl, rfl⟩

theorem retireShares_ok {e : Env} {s s' : VaultStore} {user : Address} {q : ℤ}
    {plan : WithdrawPlan} (h : retireShares e s user q plan = .ok s') :
    ∃ tvl, s' = { s with
      positions := s.positions.set user ⟨plan.position.shares - q, e.timestamp,
        plan.position.depositedAmountA - plan.withdrawAmountA,
        plan.position.depositedAmountB - plan.withdrawAmountB⟩
      metrics := some ⟨plan.metrics.totalShares - q,
        plan.metrics.totalAmountA - plan.withdrawAmountA,
        plan.metrics.totalAmountB - plan.withdrawAmountB, plan.metrics.apy, tvl,
        plan.metrics.lastHarvest⟩ } := by
  simp only [retireShares, bind_eq_ok, pure_eq_ok, I128.sub_eq_ok] at h
  obtain ⟨_, ⟨-, rfl⟩, _, ⟨-, rfl⟩, _, ⟨-, rfl⟩, _, ⟨-, rfl⟩, _, ⟨-, rfl⟩, _, ⟨-, rfl⟩, tvl, -,
    rfl⟩ := h
  exact ⟨tvl, rfl⟩

/-- What a withdrawal has checked and written once its storage writes are done. -/
structure SettleFacts (e : Env) (s : VaultStore) (user : Address) (q minA minB : ℤ)
    (s' : VaultStore) (plan : WithdrawPlan) : Prop where
  amounts : PlanFacts s user q plan
  minA_le : minA ≤ plan.finalAmountA
  minB_le : minB ≤ plan.finalAmountB
  info : s'.vaultInfo = s.vaultInfo
  positions : s'.positions = s.positions.set user ⟨plan.position.shares - q, e.timestamp,
    plan.position.depositedAmountA - plan.withdrawAmountA,
    plan.position.depositedAmountB - plan.withdrawAmountB⟩
  totalShares : s'.storedMetrics.totalShares = s.storedMetrics.totalShares - q
  totalAmountA : s'.storedMetrics.totalAmountA =
    s.storedMetrics.totalAmountA - plan.withdrawAmountA
  totalAmountB : s'.storedMetrics.totalAmountB =
    s.storedMetrics.totalAmountB - plan.withdrawAmountB

theorem settleWithdraw_facts {e : Env} {s s' : VaultStore} {user : Address} {q minA minB : ℤ}
    {plan : WithdrawPlan} (h : settleWithdraw e s user q minA minB = .ok (s', plan)) :
    SettleFacts e s user q minA minB s' plan := by
  simp only [settleWithdraw, bind_eq_ok, pure_eq_ok, Prod.mk.injEq] at h
  obtain ⟨plan', hplan, s₁, hpacing, s₂, hretire, rfl, rfl⟩ := h
  obtain ⟨hp, hminA, hminB⟩ := planWithdraw_facts hplan
  have hs := consumeWithdrawPacing_sameAccounts hpacing
  obtain ⟨tvl, rfl⟩ := retireShares_ok hretire
  exact {
    amounts := hp
    minA_le := hminA
    minB_le := hminB
    info := hs.info
    positions := by rw [← hs.positions]
    totalShares := congrArg (· - q) hp.totalShares
    totalAmountA := congrArg (· - plan'.withdrawAmountA) hp.totalAmountA
    totalAmountB := congrArg (· - plan'.withdrawAmountB) hp.totalAmountB }

theorem withdraw_facts {e : Env} {w w' : World} {user : Address} {q minA minB : ℤ}
    {plan : WithdrawPlan} (h : withdraw e w user q minA minB = .ok (w', plan)) :
    SettleFacts e w.store user q minA minB w'.store plan ∧
      payOut e w'.store w.ledger user plan = .ok w'.ledger := by
  simp only [withdraw, bind_eq_ok, pure_eq_ok, Prod.mk.injEq] at h
  obtain ⟨⟨store, plan'⟩, hsettle, ledger, hpay, rfl, rfl⟩ := h
  exact ⟨settleWithdraw_facts hsettle, hpay⟩

/-! ### Harvests -/

/-- A harvested amount net of the harvest fee. -/
def netReward (rate : ℕ) (rewards : ℤ) : ℤ := rewards - feeOn rate rewards

/-- What a returning harvest has written.  The caller's stamp keeps shares and cost basis. -/
structure HarvestFacts (e : Env) (w : World) (caller : Address) (info : VaultInfo)
    (w' : World) : Prop where
  configured : w.store.vaultInfo = some info
  info_eq : w'.store.vaultInfo = w.store.vaultInfo
  positions : w'.store.positions = w.store.positions ∨
    0 < (w.store.getUserPosition caller).shares ∧
      w'.store.positions = w.store.positions.set caller
        { w.store.getUserPosition caller with lastHarvest := e.timestamp }
  totalShares : w'.store.storedMetrics.totalShares = w.store.storedMetrics.totalShares
  totalAmountA : w'.store.storedMetrics.totalAmountA = w.store.storedMetrics.totalAmountA +
    netReward info.harvestFee (calculatePendingRewards info.poolId)
  totalAmountB : w'.store.storedMetrics.totalAmountB = w.store.storedMetrics.totalAmountB +
    netReward info.harvestFee (calculatePendingRewards info.poolId)
  ledger : ∃ s, payFees e s w.ledger info
    (feeOn info.harvestFee (calculatePendingRewards info.poolId))
    (feeOn info.harvestFee (calculatePendingRewards info.poolId)) = .ok w'.ledger

theorem reinvest_ok {e : Env} {s s' : VaultStore} {metrics : VaultMetrics} {netA netB : ℤ}
    (h : reinvest e s metrics netA netB = .ok s') :
    ∃ tvl apy snapshot, s' = { s with
      harvestSnapshot := snapshot
      metrics := some ⟨metrics.totalShares, metrics.totalAmountA + netA,
        metrics.totalAmountB + netB, apy, tvl, e.timestamp⟩ } := by
  simp only [reinvest, bind_eq_ok, pure_eq_ok, I128.add_eq_ok] at h
  obtain ⟨_, -, apy, -, _, ⟨-, rfl⟩, _, ⟨-, rfl⟩, tvl, -, rfl⟩ := h
  exact ⟨tvl, _, _, rfl⟩

/-- Stamping a caller writes at most the caller's own position. -/
theorem stampHarvest_cases (e : Env) (s : VaultStore) (caller : Address) :
    stampHarvest e s caller = s ∨ 0 < (s.getUserPosition caller).shares ∧
      stampHarvest e s caller = { s with
        positions := s.positions.set caller
          { s.getUserPosition caller with lastHarvest := e.timestamp } } := by
  unfold stampHarvest
  by_cases h : 0 < (s.getUserPosition caller).shares
  · exact .inr ⟨h, if_pos h⟩
  · exact .inl (if_neg h)

theorem calculatePendingRewards_pos (poolId : Address) : 0 < calculatePendingRewards poolId := by
  simp [calculatePendingRewards]

theorem harvest_facts {e : Env} {w w' : World} {caller : Address}
    (h : harvest e w caller = .ok w') : ∃ info, HarvestFacts e w caller info w' := by
  simp only [harvest, bind_eq_ok, VaultStore.getVaultInfo_eq_ok] at h
  obtain ⟨_, -, info, hinfo, metrics, hmetrics, h⟩ := h
  rw [if_pos (.inl (calculatePendingRewards_pos info.poolId))] at h
  simp only [bind_eq_ok, pure_eq_ok, I128.mul_eq_ok, I128.div_eq_ok, I128.sub_eq_ok] at h
  obtain ⟨_, ⟨-, rfl⟩, feeA, ⟨-, -, hfeeA⟩, _, ⟨-, rfl⟩, feeB, ⟨-, -, hfeeB⟩, netA, ⟨-, hnetA⟩,
    netB, ⟨-, hnetB⟩, s, hs, l, hl, rfl⟩ := h
  obtain ⟨hm1, hm2, hm3⟩ := VaultStore.getMetrics_totals hmetrics
  obtain ⟨tvl, apy, snapshot, rfl⟩ := reinvest_ok hs
  subst hfeeA hfeeB hnetA hnetB
  have hA := congrArg (· + netReward info.harvestFee (calculatePendingRewards info.poolId)) hm2
  have hB := congrArg (· + netReward info.harvestFee (calculatePendingRewards info.poolId)) hm3
  obtain hst | ⟨hpos, hst⟩ := stampHarvest_cases e _ caller
  · exact ⟨info, by rw [hst]; exact ⟨hinfo, rfl, .inl rfl, hm1, hA, hB, _, hl⟩⟩
  · exact ⟨info, by rw [hst]; exact ⟨hinfo, rfl, .inr ⟨hpos, rfl⟩, hm1, hA, hB, _, hl⟩⟩

/-! ### Any invocation -/

/-- What one returning invocation has done. -/
inductive Effect (e : Env) (w : World) (action : VaultAction) (w' : World) : Prop
  | deposit (user : Address) (amountA amountB minShares shares : ℤ)
      (haction : action = .deposit user amountA amountB minShares)
      (h : DepositFacts e w user amountA amountB w' shares)
  | withdraw (user : Address) (q minA minB : ℤ) (plan : WithdrawPlan)
      (haction : action = .withdraw user q minA minB)
      (h : SettleFacts e w.store user q minA minB w'.store plan)
      (hpay : payOut e w'.store w.ledger user plan = .ok w'.ledger)
  | harvest (caller : Address) (info : VaultInfo) (haction : action = .harvest caller)
      (h : HarvestFacts e w caller info w')
  | admin (h : SameAccounts w.store w'.store) (hledger : w'.ledger = w.ledger)

/-- A call that moves no value writes the storage and leaves the balances alone. -/
theorem exec_admin {e : Env} {w w' : World} {action : VaultAction} (hkind : ¬ action.MovesValue)
    (h : exec w (e, action) = .ok w') :
    ∃ s, execAdmin e w.store action = .ok s ∧ w' = { w with store := s } := by
  have hadmin : ((fun s => { w with store := s }) <$> execAdmin e w.store action) = .ok w' →
      ∃ s, execAdmin e w.store action = .ok s ∧ w' = { w with store := s } := by
    intro h
    obtain ⟨s, hs, rfl⟩ := map_eq_ok.mp h
    exact ⟨s, hs, rfl⟩
  cases action with
  | deposit user amountA amountB minShares => exact absurd trivial hkind
  | withdraw user q minA minB => exact absurd trivial hkind
  | harvest caller => exact absurd trivial hkind
  | _ => exact hadmin h

theorem exec_effect {e : Env} {w w' : World} {action : VaultAction}
    (h : exec w (e, action) = .ok w') : Effect e w action w' := by
  cases action with
  | deposit user amountA amountB minShares =>
      obtain ⟨⟨w₁, shares⟩, hd, rfl⟩ := map_eq_ok.mp h
      exact .deposit user amountA amountB minShares shares rfl (deposit_facts hd)
  | withdraw user q minA minB =>
      obtain ⟨⟨w₁, plan⟩, hw, rfl⟩ := map_eq_ok.mp h
      obtain ⟨hs, hpay⟩ := withdraw_facts hw
      exact .withdraw user q minA minB plan rfl hs hpay
  | harvest caller =>
      obtain ⟨info, hf⟩ := harvest_facts h
      exact .harvest caller info rfl hf
  | _ =>
      obtain ⟨s, hs, rfl⟩ := exec_admin id h
      exact .admin (execAdmin_sameAccounts hs) rfl

/-! ### The frame of a call that moves value -/

/-- Only the accounts, the harvest snapshot and the withdrawal windows may have been written. -/
def MovedOnly (s s' : VaultStore) : Prop :=
  ∃ positions metrics snapshot windows vaultWindow, s' = { s with
    positions := positions
    metrics := metrics
    harvestSnapshot := snapshot
    withdrawWindows := windows
    vaultWithdrawWindow := vaultWindow }

theorem deposit_writes {e : Env} {w w' : World} {user : Address} {amountA amountB minShares : ℤ}
    {shares : ℤ} (h : deposit e w user amountA amountB minShares = .ok (w', shares)) :
    ∃ positions metrics,
      w'.store = { w.store with positions := positions, metrics := metrics } := by
  simp only [deposit, bind_eq_ok, pure_eq_ok, require_eq_ok, exists_const,
    VaultStore.requireNotPaused_eq_ok, Prod.mk.injEq] at h
  obtain ⟨-, -, -, _, -, -, info, -, metrics, -, shares', -, -, -, paidA, -, paidB, -, store,
    hstore, rfl, -⟩ := h
  obtain ⟨-, tvl, rfl⟩ := mintShares_ok hstore
  exact ⟨_, _, rfl⟩

/-- A withdrawal charges the pacing windows and writes the accounts. -/
theorem withdraw_writes {e : Env} {w w' : World} {user : Address} {q minA minB : ℤ}
    {plan : WithdrawPlan} (h : withdraw e w user q minA minB = .ok (w', plan)) :
    ∃ paced, consumeWithdrawPacing e w.store user q (w.store.getUserPosition user).shares
        w.store.storedMetrics.totalShares = .ok paced ∧
      ∃ positions metrics,
        w'.store = { paced with positions := positions, metrics := metrics } := by
  simp only [withdraw, settleWithdraw, bind_eq_ok, pure_eq_ok, Prod.mk.injEq] at h
  obtain ⟨⟨store, plan'⟩, ⟨plan'', hplan, paced, hpacing, s₂, hretire, rfl, rfl⟩, -, -, rfl, -⟩ := h
  obtain ⟨hp, -, -⟩ := planWithdraw_facts hplan
  rw [hp.position, hp.totalShares] at hpacing
  obtain ⟨tvl, rfl⟩ := retireShares_ok hretire
  exact ⟨paced, hpacing, _, _, rfl⟩

theorem stampHarvest_writes (e : Env) (s : VaultStore) (caller : Address) :
    ∃ positions, stampHarvest e s caller = { s with positions := positions } := by
  obtain h | ⟨-, h⟩ := stampHarvest_cases e s caller
  · exact ⟨s.positions, h⟩
  · exact ⟨_, h⟩

theorem harvest_writes {e : Env} {w w' : World} {caller : Address}
    (h : harvest e w caller = .ok w') : ∃ positions metrics snapshot, w'.store = { w.store with
      positions := positions, metrics := metrics, harvestSnapshot := snapshot } := by
  simp only [harvest, bind_eq_ok, ite_eq_ok, pure_eq_ok] at h
  obtain ⟨_, -, info, -, metrics, -, ⟨-, _, -, feeA, -, _, -, feeB, -, netA, -, netB, -, s, hs, l,
    -, rfl⟩ | ⟨-, rfl⟩⟩ := h
  · obtain ⟨tvl, apy, snapshot, rfl⟩ := reinvest_ok hs
    obtain ⟨positions, hst⟩ := stampHarvest_writes e { w.store with
      harvestSnapshot := snapshot
      metrics := some ⟨metrics.totalShares, _, _, apy, tvl, e.timestamp⟩ } caller
    exact ⟨positions, _, snapshot, hst⟩
  · obtain ⟨positions, hst⟩ := stampHarvest_writes e w.store caller
    exact ⟨positions, w.store.metrics, w.store.harvestSnapshot, hst⟩

theorem consumeWithdrawPacing_writes {e : Env} {s s' : VaultStore} {user : Address}
    {shares positionShares totalShares : ℤ}
    (h : consumeWithdrawPacing e s user shares positionShares totalShares = .ok s') :
    ∃ windows vaultWindow,
      s' = { s with withdrawWindows := windows, vaultWithdrawWindow := vaultWindow } := by
  simp only [consumeWithdrawPacing, ite_eq_ok, bind_eq_ok, pure_eq_ok] at h
  obtain ⟨-, rfl⟩ | ⟨-, -, -, -, -, _, -, _, -, rfl⟩ := h
  · exact ⟨s.withdrawWindows, s.vaultWithdrawWindow, rfl⟩
  · exact ⟨_, _, rfl⟩

/-- A deposit, withdrawal or harvest writes accounts and windows only. -/
theorem exec_movedOnly {e : Env} {w w' : World} {action : VaultAction} (hkind : action.MovesValue)
    (h : exec w (e, action) = .ok w') : MovedOnly w.store w'.store := by
  cases action with
  | deposit user amountA amountB minShares =>
      obtain ⟨⟨w₁, shares⟩, hd, rfl⟩ := map_eq_ok.mp h
      obtain ⟨positions, metrics, hs⟩ := deposit_writes hd
      exact ⟨positions, metrics, _, _, _, hs⟩
  | withdraw user q minA minB =>
      obtain ⟨⟨w₁, plan⟩, hw, rfl⟩ := map_eq_ok.mp h
      obtain ⟨paced, hpaced, positions, metrics, hs⟩ := withdraw_writes hw
      obtain ⟨windows, vaultWindow, rfl⟩ := consumeWithdrawPacing_writes hpaced
      exact ⟨positions, metrics, _, windows, vaultWindow, hs⟩
  | harvest caller =>
      obtain ⟨positions, metrics, snapshot, hs⟩ := harvest_writes h
      exact ⟨positions, metrics, snapshot, _, _, hs⟩
  | _ => exact hkind.elim

end YieldEngine.Vault
