import YieldEngine.VaultAccounting

/-! # Solvency of the vault

A vault at address `vault` is `Solvent` when its balance of each token covers the recorded
total.  Runs are taken in an environment that behaves (`Admissible`): every invocation runs
at `vault`, token movements outside the vault never take from its balances, and the rewards a
harvest reads have been transferred to it before the call (`fundedStep`).

A deposit credits its amounts to the totals and moves them from the user to the vault.  For
the vault's own address as user these transfers move nothing, so such a deposit raises the
totals only.  It is the only step that can: `solvent_run` keeps solvency along every run
without one, and `self_deposit_insolvent` is a run with one that loses it. -/

namespace YieldEngine.Vault

open CheckedArith Rounding

/-! ### What a payout costs the vault -/

section payout
variable {e : Env} {l l' : Ledger} {info : VaultInfo}

theorem payFee_cost {token treasury : Address} {fee : ℤ} (hfee : 0 ≤ fee)
    (h : payFee e l token treasury fee = .ok l') :
    l token e.contract - fee ≤ l' token e.contract ∧ ∀ t, t ≠ token → l' t = l t := by
  unfold payFee at h
  split_ifs at h with hpos
  · exact ⟨Ledger.transfer_paid_le h, fun t ht => funext (Ledger.transfer_other h ht)⟩
  · obtain rfl := pure_eq_ok.mp h
    exact ⟨sub_le_self _ hfee, fun _ _ => rfl⟩

theorem payFees_cost {s : VaultStore} {feeA feeB : ℤ} (hAB : info.tokenA ≠ info.tokenB)
    (hA : 0 ≤ feeA) (hB : 0 ≤ feeB) (h : payFees e s l info feeA feeB = .ok l') :
    l info.tokenA e.contract - feeA ≤ l' info.tokenA e.contract ∧
      l info.tokenB e.contract - feeB ≤ l' info.tokenB e.contract := by
  unfold payFees at h
  split_ifs at h with hpos
  · simp only [bind_eq_ok] at h
    obtain ⟨treasury, -, l₁, h₁, h₂⟩ := h
    obtain ⟨hcostA, hotherA⟩ := payFee_cost hA h₁
    obtain ⟨hcostB, hotherB⟩ := payFee_cost hB h₂
    rw [hotherB _ hAB]
    rw [hotherA _ hAB.symm] at hcostB
    exact ⟨hcostA, hcostB⟩
  · obtain rfl := pure_eq_ok.mp h
    exact ⟨sub_le_self _ hA, sub_le_self _ hB⟩

/-- The two transfers to the user and the two fees cost the vault at most their sum. -/
theorem payOut_cost {s : VaultStore} {user : Address} {plan : WithdrawPlan}
    (hAB : plan.info.tokenA ≠ plan.info.tokenB) (hpA : 0 ≤ plan.perfFeeA)
    (hpB : 0 ≤ plan.perfFeeB) (hfA : 0 ≤ plan.feeAmountA) (hfB : 0 ≤ plan.feeAmountB)
    (h : payOut e s l user plan = .ok l') :
    l plan.info.tokenA e.contract - (plan.finalAmountA + plan.perfFeeA + plan.feeAmountA) ≤
        l' plan.info.tokenA e.contract ∧
      l plan.info.tokenB e.contract - (plan.finalAmountB + plan.perfFeeB + plan.feeAmountB) ≤
        l' plan.info.tokenB e.contract := by
  simp only [payOut, bind_eq_ok] at h
  obtain ⟨l₁, h₁, l₂, h₂, l₃, h₃, h₄⟩ := h
  have hA₁ := Ledger.transfer_paid_le h₁
  have hA₂ := Ledger.transfer_other h₂ hAB e.contract
  have hB₁ := Ledger.transfer_other h₁ hAB.symm e.contract
  have hB₂ := Ledger.transfer_paid_le h₂
  obtain ⟨hA₃, hB₃⟩ := payFees_cost hAB hpA hpB h₃
  obtain ⟨hA₄, hB₄⟩ := payFees_cost hAB hfA hfB h₄
  exact ⟨by linarith, by linarith⟩

end payout

/-! ### The fees of a plan are not negative -/

theorem performanceFee_nonneg (feeRate : ℕ) (position : UserPosition) (amountA amountB q : ℤ) :
    0 ≤ performanceFee feeRate position amountA amountB q := by
  unfold performanceFee
  split_ifs with h0 hgain
  · exact le_rfl
  · exact tdiv_nonneg (mul_nonneg hgain.le (Int.natCast_nonneg feeRate)) bps_pos
  · exact le_rfl

theorem performanceFeeLegA_bounds {perfFee amountA amountB : ℤ} (hp : 0 ≤ perfFee)
    (hA : 0 ≤ amountA) (hB : 0 ≤ amountB) :
    0 ≤ performanceFeeLegA perfFee amountA amountB ∧
      performanceFeeLegA perfFee amountA amountB ≤ perfFee := by
  unfold performanceFeeLegA
  split_ifs with h
  · rw [mul_comm]
    exact ⟨part_nonneg hp hA h, part_le hp hA (by omega) h⟩
  · exact ⟨le_rfl, hp⟩

theorem PlanFacts.fees_nonneg {info : VaultInfo} {s : VaultStore} {user : Address} {q : ℤ}
    {plan : WithdrawPlan} (hp : PlanFacts s user q plan) (h : Sound info s) :
    (0 ≤ plan.feeAmountA ∧ 0 ≤ plan.feeAmountB) ∧ 0 ≤ plan.perfFeeA ∧ 0 ≤ plan.perfFeeB := by
  obtain ⟨⟨hA, -⟩, hB, -⟩ := hp.redeemed_bounds h
  have hperf : 0 ≤ plan.perfFee := hp.perfFee ▸ performanceFee_nonneg _ _ _ _ _
  obtain ⟨hlo, hhi⟩ := performanceFeeLegA_bounds hperf hA hB
  rw [hp.feeA, hp.feeB, hp.perfFeeB, hp.perfFeeA]
  exact ⟨⟨feeOn_nonneg hA, feeOn_nonneg hB⟩, hlo, sub_nonneg.mpr hhi⟩

/-! ### Runs with funded harvests -/

/-- The vault's balances cover the recorded totals. -/
structure Solvent (info : VaultInfo) (vault : Address) (w : World) : Prop where
  balanceA : w.store.storedMetrics.totalAmountA ≤ w.ledger info.tokenA vault
  balanceB : w.store.storedMetrics.totalAmountB ≤ w.ledger info.tokenB vault

instance (info : VaultInfo) (vault : Address) (w : World) : Decidable (Solvent info vault w) :=
  decidable_of_iff (w.store.storedMetrics.totalAmountA ≤ w.ledger info.tokenA vault ∧
    w.store.storedMetrics.totalAmountB ≤ w.ledger info.tokenB vault)
    ⟨fun h => ⟨h.1, h.2⟩, fun h => ⟨h.balanceA, h.balanceB⟩⟩

/-- The balances once the pending rewards have arrived at the vault. -/
def rewardedLedger (info : VaultInfo) (vault : Address) (l : Ledger) : Ledger :=
  (l.credit info.tokenA vault (calculatePendingRewards info.poolId)).credit info.tokenB vault
    (calculatePendingRewards info.poolId)

/-- The pending rewards arrive at the vault before a harvest. -/
def fundRewards (info : VaultInfo) (vault : Address) (w : World) : VaultEvent → World
  | .call _ (.harvest _) => { w with ledger := rewardedLedger info vault w.ledger }
  | _ => w

/-- One event of a run in which the rewards of every harvest are transferred beforehand.  A
failed harvest is rolled back; the rewards stay. -/
def fundedStep (info : VaultInfo) (vault : Address) (w : World) (event : VaultEvent) :
    VaultCall World :=
  .ok (Transact.commit vaultStep (fundRewards info vault w event) event)

/-- Invocations run at `vault`; outside movements do not take the vault's tokens. -/
def Admissible (info : VaultInfo) (vault : Address) (w : World) : VaultEvent → Prop
  | .call e _ => e.contract = vault
  | .tokens ledger => w.ledger info.tokenA vault ≤ ledger info.tokenA vault ∧
      w.ledger info.tokenB vault ≤ ledger info.tokenB vault

/-- The event is no deposit in the name of the vault's own address. -/
def NotSelfDeposit (vault : Address) : VaultEvent → Prop
  | .call _ (.deposit user ..) => user ≠ vault
  | _ => True

/-! ### Every step but a self-deposit keeps solvency -/

section steps
variable {info : VaultInfo} {e : Env} {w w' : World} (hAB : info.tokenA ≠ info.tokenB)
include hAB

theorem solvent_deposit {user : Address} {amountA amountB shares : ℤ}
    (hsound : Sound info w.store) (h : Solvent info e.contract w) (huser : user ≠ e.contract)
    (hd : DepositFacts e w user amountA amountB w' shares) : Solvent info e.contract w' := by
  obtain ⟨info', hinfo, l, h₁, h₂⟩ := hd.ledger
  obtain rfl : info = info' := Option.some.inj (hsound.configured.symm.trans hinfo)
  constructor
  · rw [hd.totalAmountA, Ledger.transfer_other h₂ hAB, Ledger.transfer_received h₁ huser.symm]
    exact add_le_add_left h.balanceA amountA
  · rw [hd.totalAmountB, Ledger.transfer_received h₂ huser.symm,
      Ledger.transfer_other h₁ hAB.symm]
    exact add_le_add_left h.balanceB amountB

theorem solvent_withdraw {user : Address} {q minA minB : ℤ} {plan : WithdrawPlan}
    (hsound : Sound info w.store) (h : Solvent info e.contract w)
    (hs : SettleFacts e w.store user q minA minB w'.store plan)
    (hpay : payOut e w'.store w.ledger user plan = .ok w'.ledger) : Solvent info e.contract w' := by
  obtain rfl : info = plan.info := Option.some.inj (hsound.configured.symm.trans hs.amounts.info)
  obtain ⟨⟨hfA, hfB⟩, hpA, hpB⟩ := hs.amounts.fees_nonneg hsound
  obtain ⟨hcostA, hcostB⟩ := payOut_cost hAB hpA hpB hfA hfB hpay
  have hfinalA := hs.amounts.finalA
  have hfinalB := hs.amounts.finalB
  have hbalA := h.balanceA
  have hbalB := h.balanceB
  constructor
  · rw [hs.totalAmountA]
    linarith
  · rw [hs.totalAmountB]
    linarith

/-- A harvest is solvent when its rewards have arrived. -/
theorem solvent_harvest {caller : Address} {info' : VaultInfo} (hsound : Sound info w.store)
    (hA : w.store.storedMetrics.totalAmountA + calculatePendingRewards info.poolId ≤
      w.ledger info.tokenA e.contract)
    (hB : w.store.storedMetrics.totalAmountB + calculatePendingRewards info.poolId ≤
      w.ledger info.tokenB e.contract)
    (hh : HarvestFacts e w caller info' w') : Solvent info e.contract w' := by
  obtain rfl : info = info' := Option.some.inj (hsound.configured.symm.trans hh.configured)
  have hfee : 0 ≤ feeOn info.harvestFee (calculatePendingRewards info.poolId) :=
    feeOn_nonneg (calculatePendingRewards_pos info.poolId).le
  obtain ⟨s, hs⟩ := hh.ledger
  obtain ⟨hcostA, hcostB⟩ := payFees_cost hAB hfee hfee hs
  constructor
  · rw [hh.totalAmountA, netReward]
    linarith
  · rw [hh.totalAmountB, netReward]
    linarith

end steps

theorem rewardedLedger_eq {info : VaultInfo} (vault : Address) (l : Ledger)
    (hAB : info.tokenA ≠ info.tokenB) :
    rewardedLedger info vault l info.tokenA vault =
        l info.tokenA vault + calculatePendingRewards info.poolId ∧
      rewardedLedger info vault l info.tokenB vault =
        l info.tokenB vault + calculatePendingRewards info.poolId := by
  unfold rewardedLedger
  rw [Ledger.credit_of_ne_token _ _ _ _ hAB, Ledger.credit_self, Ledger.credit_self,
    Ledger.credit_of_ne_token _ _ _ _ hAB.symm]
  exact ⟨rfl, rfl⟩

/-- Funding an event keeps the vault solvent. -/
theorem solvent_fundRewards {info : VaultInfo} {vault : Address} {w : World} (event : VaultEvent)
    (hAB : info.tokenA ≠ info.tokenB) (h : Solvent info vault w) :
    Solvent info vault (fundRewards info vault w event) ∧
      (fundRewards info vault w event).store = w.store := by
  obtain ⟨hA, hB⟩ := rewardedLedger_eq vault w.ledger hAB
  have hr := (calculatePendingRewards_pos info.poolId).le
  unfold fundRewards
  split
  · exact ⟨⟨h.balanceA.trans (by simp [hA, hr]), h.balanceB.trans (by simp [hB, hr])⟩, rfl⟩
  · exact ⟨h, rfl⟩

theorem solvent_exec {info : VaultInfo} {e : Env} {w w' : World} {action : VaultAction}
    (hAB : info.tokenA ≠ info.tokenB) (hsound : Sound info w.store)
    (h : Solvent info e.contract w) (hself : NotSelfDeposit e.contract (.call e action))
    (hexec : exec (fundRewards info e.contract w (.call e action)) (e, action) = .ok w') :
    Solvent info e.contract w' := by
  obtain ⟨hfund, hstore⟩ := solvent_fundRewards (.call e action) hAB h
  rw [← hstore] at hsound
  cases exec_effect hexec with
  | deposit user amountA amountB minShares shares ha hd =>
      subst ha
      exact solvent_deposit hAB hsound hfund hself hd
  | withdraw user q minA minB plan ha hs hpay => exact solvent_withdraw hAB hsound hfund hs hpay
  | harvest caller info' ha hh =>
      subst ha
      obtain ⟨hA, hB⟩ := rewardedLedger_eq e.contract w.ledger hAB
      refine solvent_harvest hAB hsound ?_ ?_ hh
      · simp only [fundRewards, hA]
        exact add_le_add_left h.balanceA _
      · simp only [fundRewards, hB]
        exact add_le_add_left h.balanceB _
  | admin hs hledger =>
      refine ⟨?_, ?_⟩
      · rw [hs.totalAmountA, hledger]
        exact hfund.balanceA
      · rw [hs.totalAmountB, hledger]
        exact hfund.balanceB

/-- The invariant of a funded run: the accounts add up and the vault is solvent. -/
theorem solvent_step {info : VaultInfo} {vault : Address} (hrates : RatesBounded info)
    (hAB : info.tokenA ≠ info.tokenB) (w : World) (event : VaultEvent) (w' : World)
    (h : Sound info w.store ∧ Solvent info vault w)
    (hevent : Admissible info vault w event ∧ NotSelfDeposit vault event)
    (hstep : fundedStep info vault w event = .ok w') :
    Sound info w'.store ∧ Solvent info vault w' := by
  obtain ⟨hsound, hsolvent⟩ := h
  obtain rfl : Transact.commit vaultStep (fundRewards info vault w event) event = w' :=
    Except.ok.inj hstep
  obtain ⟨hfund, hstore⟩ := solvent_fundRewards event hAB hsolvent
  have hfundSound : Sound info (fundRewards info vault w event).store := hstore ▸ hsound
  refine Transact.commit_invariant (I := fun w => Sound info w.store ∧ Solvent info vault w)
    ⟨hfundSound, hfund⟩ fun w' hw' => ⟨sound_step hrates.harvestFee _ event w' hfundSound hw', ?_⟩
  cases event with
  | call e action =>
      obtain rfl : e.contract = vault := hevent.1
      exact solvent_exec hAB hsound hsolvent hevent.2 hw'
  | tokens ledger =>
      obtain rfl := pure_eq_ok.mp hw'
      exact ⟨hsolvent.balanceA.trans hevent.1.1, hsolvent.balanceB.trans hevent.1.2⟩

/-- From one `initialize`, every run without a deposit by the vault itself stays solvent. -/
theorem solvent_run (info : VaultInfo) (vault : Address) (hrates : RatesBounded info)
    (hAB : info.tokenA ≠ info.tokenB) (e : Env) (admin treasury : Address) (ledger : Ledger)
    (hA : 0 ≤ ledger info.tokenA vault) (hB : 0 ≤ ledger info.tokenB vault)
    (events : List VaultEvent)
    (hevents : Transact.Along (fundedStep info vault)
      (fun w event => Admissible info vault w event ∧ NotSelfDeposit vault event)
      (initialWorld e info admin treasury ledger) events) :
    Solvent info vault (Transact.run (fundedStep info vault)
      (initialWorld e info admin treasury ledger) events) := by
  have h0 : Solvent info vault (initialWorld e info admin treasury ledger) := ⟨hA, hB⟩
  exact (Transact.run_invariant_along (I := fun w => Sound info w.store ∧ Solvent info vault w)
    (solvent_step hrates hAB) events _ ⟨sound_initial e info admin treasury ledger, h0⟩
    hevents).2

/-- Holder `5` owns 100 of each token. -/
def oneFundedHolder : Ledger := fun _ holder => if holder = 5 then 100 else 0

theorem solvent_run_deposit : RatesBounded (twoTokenVault 0) ∧
    Solvent (twoTokenVault 0) 9 (Transact.run (fundedStep (twoTokenVault 0) 9)
      (initialWorld ⟨9, [], 0⟩ (twoTokenVault 0) 7 8 oneFundedHolder)
      [.call ⟨9, [5], 1⟩ (.deposit 5 100 100 0), .call ⟨9, [5], 2⟩ (.harvest 5)]) :=
  ⟨by decide, solvent_run (twoTokenVault 0) 9 (by decide) (by decide) _ _ _ _ (by decide)
    (by decide) _ ⟨⟨rfl, show (5 : Address) ≠ 9 by decide⟩, ⟨rfl, trivial⟩, trivial⟩⟩

/-- A deposit in the name of the vault raises the totals of its 100 tokens to 200. -/
theorem self_deposit_insolvent :
    (RatesBounded (twoTokenVault 0) ∧ (twoTokenVault 0).tokenA ≠ (twoTokenVault 0).tokenB ∧
      0 ≤ oneFundedHolder (twoTokenVault 0).tokenA 9 ∧
      0 ≤ oneFundedHolder (twoTokenVault 0).tokenB 9 ∧
      Transact.Along (fundedStep (twoTokenVault 0) 9) (Admissible (twoTokenVault 0) 9)
        (initialWorld ⟨9, [], 0⟩ (twoTokenVault 0) 7 8 oneFundedHolder)
        [.call ⟨9, [5], 1⟩ (.deposit 5 100 100 0), .call ⟨9, [], 2⟩ (.deposit 9 100 100 0)]) ∧
    ¬ Solvent (twoTokenVault 0) 9 (Transact.run (fundedStep (twoTokenVault 0) 9)
      (initialWorld ⟨9, [], 0⟩ (twoTokenVault 0) 7 8 oneFundedHolder)
      [.call ⟨9, [5], 1⟩ (.deposit 5 100 100 0), .call ⟨9, [], 2⟩ (.deposit 9 100 100 0)]) :=
  ⟨⟨by decide, by decide, by decide, by decide, rfl, rfl, trivial⟩, by decide⟩

end YieldEngine.Vault
