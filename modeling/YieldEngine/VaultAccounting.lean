import YieldEngine.VaultEffects

/-! # The accounts of the vault add up

`Sound info s` is the accounting invariant: the vault is configured with `info`, the shares
of all positions sum to the recorded total, every position holds a number of shares between
zero and the largest machine integer, and neither token total is negative.  Every invocation
keeps it (`sound_exec`), so it holds in every reachable state (`Reachable.sound`).

A withdrawal keeps the totals non-negative because a position holds at most all shares
(`Sound.shares_le`), so that a redeemed amount is at most the total (`redeemed_le`). -/

namespace YieldEngine.Vault

open CheckedArith Rounding SortedMap

/-! ### Redeemed amounts -/

theorem redeemed_nonneg {full : Bool} {q A S : ℤ} (hA : 0 ≤ A) (hq : 0 ≤ q) (hS : 0 < S) :
    0 ≤ redeemed full q A S := by
  unfold redeemed
  split_ifs
  · exact hA
  · exact part_nonneg hA hq hS

theorem redeemed_le {full : Bool} {q A S : ℤ} (hA : 0 ≤ A) (hq : 0 ≤ q) (hqS : q ≤ S)
    (hS : 0 < S) : redeemed full q A S ≤ A := by
  unfold redeemed
  split_ifs
  · exact le_rfl
  · exact part_le hA hq hqS hS

theorem feeOn_nonneg {rate : ℕ} {amount : ℤ} (h : 0 ≤ amount) : 0 ≤ feeOn rate amount :=
  tdiv_nonneg (mul_nonneg h (Int.natCast_nonneg rate)) bps_pos

theorem feeOn_le {rate : ℕ} {amount : ℤ} (hrate : rate ≤ 10000) (h : 0 ≤ amount) :
    feeOn rate amount ≤ amount :=
  rate_le h (Int.natCast_nonneg rate) (by unfold bps; exact_mod_cast hrate) bps_pos

theorem netReward_nonneg {rate : ℕ} {rewards : ℤ} (hrate : rate ≤ 10000) (h : 0 ≤ rewards) :
    0 ≤ netReward rate rewards := sub_nonneg.mpr (feeOn_le hrate h)

/-! ### The invariant -/

structure Sound (info : VaultInfo) (s : VaultStore) : Prop where
  configured : s.vaultInfo = some info
  shares : s.positions.total UserPosition.shares = s.storedMetrics.totalShares
  position_bounds : ∀ user p, s.positions.get user = some p → 0 ≤ p.shares ∧ p.shares < 2 ^ 127
  totalA_nonneg : 0 ≤ s.storedMetrics.totalAmountA
  totalB_nonneg : 0 ≤ s.storedMetrics.totalAmountB

section
variable {info : VaultInfo} {s s' : VaultStore}

theorem Sound.shares_bounds (h : Sound info s) (user : Address) :
    0 ≤ (s.getUserPosition user).shares ∧ (s.getUserPosition user).shares < 2 ^ 127 := by
  unfold VaultStore.getUserPosition
  cases hp : s.positions.get user with
  | none => exact ⟨le_rfl, by norm_num⟩
  | some p => exact h.position_bounds user p hp

/-- A position holds at most all shares. -/
theorem Sound.shares_le (h : Sound info s) (user : Address) :
    (s.getUserPosition user).shares ≤ s.storedMetrics.totalShares := by
  rw [← h.shares]
  unfold VaultStore.getUserPosition
  cases hp : s.positions.get user with
  | none =>
      refine List.sum_nonneg fun x hx => ?_
      obtain ⟨p, hp, rfl⟩ := List.mem_map.mp hx
      exact (h.position_bounds p.1 p.2 ((s.positions.get_eq_some_iff p.1 p.2).mpr hp)).1
  | some p =>
      exact s.positions.le_total UserPosition.shares (fun k v hv => (h.position_bounds k v hv).1) hp

theorem Sound.totalShares_nonneg (h : Sound info s) : 0 ≤ s.storedMetrics.totalShares :=
  (h.shares_bounds 0).1.trans (h.shares_le 0)

/-- Writing one position changes the sum of the shares by the change of that position. -/
theorem total_shares_set (s : VaultStore) (user : Address) (p : UserPosition) :
    (s.positions.set user p).total UserPosition.shares =
      s.positions.total UserPosition.shares - (s.getUserPosition user).shares + p.shares := by
  rw [SortedMap.total_set]
  unfold VaultStore.getUserPosition
  cases s.positions.get user <;> rfl

/-- What holds of every position holds after one is written, if it holds of that one. -/
theorem set_position_all {P : UserPosition → Prop} {user : Address} {p : UserPosition} (hp : P p)
    (h : ∀ u q, s.positions.get u = some q → P q) :
    ∀ u q, (s.positions.set user p).get u = some q → P q := by
  intro u q hq
  rw [SortedMap.get_set] at hq
  split_ifs at hq
  · obtain rfl := Option.some.inj hq
    exact hp
  · exact h u q hq

/-! ### Every invocation keeps it -/

theorem sound_sameAccounts (h : Sound info s) (hs : SameAccounts s s') : Sound info s' where
  configured := hs.info.trans h.configured
  shares := by rw [hs.positions, hs.totalShares, h.shares]
  position_bounds := hs.positions ▸ h.position_bounds
  totalA_nonneg := hs.totalAmountA ▸ h.totalA_nonneg
  totalB_nonneg := hs.totalAmountB ▸ h.totalB_nonneg

theorem sound_deposit {e : Env} {w w' : World} {user : Address} {amountA amountB shares : ℤ}
    (h : Sound info w.store) (hd : DepositFacts e w user amountA amountB w' shares) :
    Sound info w'.store where
  configured := hd.info.trans h.configured
  shares := by
    rw [hd.positions, total_shares_set, hd.totalShares, h.shares]
    ring
  position_bounds := hd.positions ▸ set_position_all
    ⟨add_nonneg (h.shares_bounds user).1 hd.shares_pos.le, hd.shares_fit.2⟩ h.position_bounds
  totalA_nonneg := hd.totalAmountA ▸ add_nonneg h.totalA_nonneg hd.amountA_nonneg
  totalB_nonneg := hd.totalAmountB ▸ add_nonneg h.totalB_nonneg hd.amountB_nonneg

/-- The redeemed amounts of a plan are between zero and the totals. -/
theorem PlanFacts.redeemed_bounds {user : Address} {q : ℤ} {plan : WithdrawPlan}
    (hp : PlanFacts s user q plan) (h : Sound info s) :
    (0 ≤ plan.withdrawAmountA ∧ plan.withdrawAmountA ≤ s.storedMetrics.totalAmountA) ∧
      0 ≤ plan.withdrawAmountB ∧ plan.withdrawAmountB ≤ s.storedMetrics.totalAmountB := by
  have hS := hp.total_pos
  have hq := hp.shares_pos.le
  have hqS : q ≤ plan.metrics.totalShares := by
    rw [hp.totalShares]
    exact (hp.position ▸ hp.shares_le).trans (h.shares_le user)
  have hA : 0 ≤ plan.metrics.totalAmountA := hp.totalAmountA ▸ h.totalA_nonneg
  have hB : 0 ≤ plan.metrics.totalAmountB := hp.totalAmountB ▸ h.totalB_nonneg
  rw [hp.amountA, hp.amountB, ← hp.totalAmountA, ← hp.totalAmountB]
  exact ⟨⟨redeemed_nonneg hA hq hS, redeemed_le hA hq hqS hS⟩,
    redeemed_nonneg hB hq hS, redeemed_le hB hq hqS hS⟩

theorem sound_settle {e : Env} {user : Address} {q minA minB : ℤ} {plan : WithdrawPlan}
    (h : Sound info s) (hs : SettleFacts e s user q minA minB s' plan) : Sound info s' := by
  obtain ⟨⟨-, hA⟩, -, hB⟩ := hs.amounts.redeemed_bounds h
  refine ⟨hs.info.trans h.configured, ?_, ?_, ?_, ?_⟩
  · rw [hs.positions, total_shares_set, hs.totalShares, h.shares, hs.amounts.position]
    ring
  · rw [hs.positions]
    have hlt := (h.shares_bounds user).2
    rw [← hs.amounts.position] at hlt
    exact set_position_all ⟨sub_nonneg.mpr hs.amounts.shares_le,
      (sub_le_self _ hs.amounts.shares_pos.le).trans_lt hlt⟩ h.position_bounds
  · rw [hs.totalAmountA]
    exact sub_nonneg.mpr hA
  · rw [hs.totalAmountB]
    exact sub_nonneg.mpr hB

theorem sound_harvest {e : Env} {w w' : World} {caller : Address} {info' : VaultInfo}
    (h : Sound info w.store) (hrate : info.harvestFee ≤ 10000)
    (hh : HarvestFacts e w caller info' w') : Sound info w'.store := by
  obtain rfl : info = info' := Option.some.inj (h.configured.symm.trans hh.configured)
  have hnet := netReward_nonneg hrate (calculatePendingRewards_pos info.poolId).le
  refine ⟨hh.info_eq.trans h.configured, ?_, ?_, ?_, ?_⟩
  · rw [hh.totalShares]
    obtain hpos | ⟨-, hpos⟩ := hh.positions
    · rw [hpos, h.shares]
    · rw [hpos, total_shares_set, h.shares]
      ring
  · obtain hpos | ⟨hp, hpos⟩ := hh.positions
    · rw [hpos]
      exact h.position_bounds
    · rw [hpos]
      exact set_position_all (h.shares_bounds caller) h.position_bounds
  · rw [hh.totalAmountA]
    exact add_nonneg h.totalA_nonneg hnet
  · rw [hh.totalAmountB]
    exact add_nonneg h.totalB_nonneg hnet

end

theorem sound_exec {info : VaultInfo} (hrate : info.harvestFee ≤ 10000) {e : Env} {w w' : World}
    {action : VaultAction} (h : Sound info w.store) (hexec : exec w (e, action) = .ok w') :
    Sound info w'.store := by
  cases exec_effect hexec with
  | deposit user amountA amountB minShares shares _ hd => exact sound_deposit h hd
  | withdraw user q minA minB plan _ hs _ => exact sound_settle h hs
  | harvest caller info' _ hh => exact sound_harvest h hrate hh
  | admin hs _ => exact sound_sameAccounts h hs

/-! ### Reachable states -/

theorem sound_initial (e : Env) (info : VaultInfo) (admin treasury : Address) (ledger : Ledger) :
    Sound info (initialWorld e info admin treasury ledger).store where
  configured := rfl
  shares := rfl
  position_bounds := fun user p h => by simp [initialWorld, initializeVault, VaultStore.fresh] at h
  totalA_nonneg := le_rfl
  totalB_nonneg := le_rfl

theorem sound_step {info : VaultInfo} (hrate : info.harvestFee ≤ 10000) (w : World)
    (event : VaultEvent) (w' : World) (h : Sound info w.store)
    (hstep : vaultStep w event = .ok w') : Sound info w'.store := by
  cases event with
  | call e action => exact sound_exec hrate h hstep
  | tokens ledger =>
      obtain rfl := pure_eq_ok.mp hstep
      exact h

/-- The accounts add up in every reachable state. -/
theorem Reachable.sound {info : VaultInfo} {w : World} (h : Reachable info w)
    (hrate : info.harvestFee ≤ 10000) : Sound info w.store := by
  obtain ⟨e, admin, treasury, ledger, events, rfl⟩ := h
  exact Transact.run_invariant (sound_step hrate) events
    (sound_initial e info admin treasury ledger)

/-- In every reachable state the recorded shares are the sum of all positions, and no position
and no token total is negative. -/
theorem shares_conserved {info : VaultInfo} {w : World} (h : Reachable info w)
    (hrate : info.harvestFee ≤ 10000) :
    w.store.storedMetrics.totalShares = w.store.positions.total UserPosition.shares ∧
      (∀ user p, w.store.positions.get user = some p → 0 ≤ p.shares) ∧
      0 ≤ w.store.storedMetrics.totalAmountA ∧ 0 ≤ w.store.storedMetrics.totalAmountB :=
  have hsound := h.sound hrate
  ⟨hsound.shares.symm, fun user p hp => (hsound.position_bounds user p hp).1,
    hsound.totalA_nonneg, hsound.totalB_nonneg⟩

/-- Two holders trade, and one of them leaves. -/
def tradedVault : World :=
  Transact.run vaultStep openedVault [.call ⟨9, [5], 1⟩ (.deposit 5 1 1 0),
    .call ⟨9, [6], 2⟩ (.deposit 6 3 2 0), .call ⟨9, [], 3⟩ (.withdraw 6 5 0 0)]

theorem shares_conserved_tradedVault :
    tradedVault.store.storedMetrics.totalShares =
        tradedVault.store.positions.total UserPosition.shares ∧
      (∀ user p, tradedVault.store.positions.get user = some p → 0 ≤ p.shares) ∧
      0 ≤ tradedVault.store.storedMetrics.totalAmountA ∧
      0 ≤ tradedVault.store.storedMetrics.totalAmountB := by
  have hreach : Reachable (twoTokenVault 0) tradedVault := ⟨_, _, _, _, _, rfl⟩
  exact shares_conserved hreach (by decide)

end YieldEngine.Vault
