import YieldEngine.VaultAccounting

/-! # Value and owners of the vault

A vault should have value exactly while somebody owns shares of it (`Owned`): then a deposit
is always priced, and the first deposit into an empty vault acquires nothing left by others.

Two calls can break this.  A harvest adds its rewards even when no shares are outstanding, and
a full exit sweeps a last unit of each token, which may be all the value there is while other
holders keep shares (`SweepsAll`).  `owned_run_iff` says that these are the only ways: over
every run after one `initialize`, all states are owned exactly when no returning harvest
meets an empty vault (or leaves it nothing) and no returning exit sweeps it all. -/

namespace YieldEngine.Vault

open CheckedArith Rounding

/-- There is value exactly while there are owners. -/
structure Owned (s : VaultStore) : Prop where
  balanced : s.storedMetrics.totalShares = 0 ↔
    s.storedMetrics.totalAmountA + s.storedMetrics.totalAmountB = 0
  /-- A deposit beside other holders is priced by a positive value. -/
  priced : s.storedMetrics.totalShares ≠ 0 →
    0 < s.storedMetrics.totalAmountA + s.storedMetrics.totalAmountB
  /-- A first deposit finds nothing. -/
  nothingLeft : s.storedMetrics.totalShares = 0 →
    s.storedMetrics.totalAmountA = 0 ∧ s.storedMetrics.totalAmountB = 0

/-- The exit of a whole position beside others whose shares back at most one unit of each
token. -/
def SweepsAll (s : VaultStore) (user : Address) (q : ℤ) : Prop :=
  q = (s.getUserPosition user).shares ∧ q < s.storedMetrics.totalShares ∧
    s.storedMetrics.totalAmountA * (s.storedMetrics.totalShares - q) ≤
      s.storedMetrics.totalShares ∧
    s.storedMetrics.totalAmountB * (s.storedMetrics.totalShares - q) ≤ s.storedMetrics.totalShares

instance (s : VaultStore) (user : Address) (q : ℤ) : Decidable (SweepsAll s user q) :=
  inferInstanceAs (Decidable (_ ∧ _))

/-- The event neither adds value nobody owns nor takes all value from those who own shares. -/
def KeepsOwned (info : VaultInfo) (w : World) : VaultEvent → Prop
  | .call _ (.withdraw user q _ _) => ¬ SweepsAll w.store user q
  | .call _ (.harvest _) => w.store.storedMetrics.totalShares ≠ 0 ∨ info.harvestFee = 10000
  | _ => True

section
variable {info : VaultInfo} {s s' : VaultStore}

/-- In sound accounts the equivalence alone gives the other two promises. -/
theorem owned_iff_balanced (hsound : Sound info s) :
    Owned s ↔ (s.storedMetrics.totalShares = 0 ↔
      s.storedMetrics.totalAmountA + s.storedMetrics.totalAmountB = 0) := by
  have hA := hsound.totalA_nonneg
  have hB := hsound.totalB_nonneg
  constructor
  · exact Owned.balanced
  · intro h
    refine ⟨h, fun hS => ?_, fun hS => ?_⟩
    · have hne := fun h0 => hS (h.mpr h0)
      omega
    · have h0 := h.mp hS
      omega

theorem owned_sameAccounts (h : Owned s) (hs : SameAccounts s s') : Owned s' where
  balanced := by
    rw [hs.totalShares, hs.totalAmountA, hs.totalAmountB]
    exact h.balanced
  priced := by
    rw [hs.totalShares, hs.totalAmountA, hs.totalAmountB]
    exact h.priced
  nothingLeft := by
    rw [hs.totalShares, hs.totalAmountA, hs.totalAmountB]
    exact h.nothingLeft

/-! ### Single calls -/

theorem owned_deposit {e : Env} {w w' : World} {user : Address} {amountA amountB shares : ℤ}
    (hsound : Sound info w.store) (hsound' : Sound info w'.store) (h : Owned w.store)
    (hd : DepositFacts e w user amountA amountB w' shares) : Owned w'.store := by
  rw [owned_iff_balanced hsound', hd.totalShares, hd.totalAmountA, hd.totalAmountB]
  have hS := hsound.totalShares_nonneg
  have hpos := hd.shares_pos
  have hA := hd.amountA_nonneg
  have hB := hd.amountB_nonneg
  refine iff_of_false (by omega) fun hzero => ?_
  have hA' := hsound.totalA_nonneg
  have hB' := hsound.totalB_nonneg
  -- nothing was there before, so the shares minted are the value deposited
  have hempty := h.balanced.mpr (by omega)
  have hminted := hd.shares_eq
  rw [mintedShares, if_pos hempty] at hminted
  omega

/-- A redemption beside other holders takes the whole total exactly when it sweeps it. -/
theorem redeemed_eq_iff {full : Bool} {q T S : ℤ} (hT : 0 < T) (hq : 0 < q) (hqS : q < S) :
    redeemed full q T S = T ↔ full = true ∧ T * (S - q) ≤ S := by
  have hS : 0 < S := hq.trans hqS
  have hprod := mul_nonneg hq.le hT.le
  have hdust : T - (q * T).tdiv S ≤ dustThreshold ↔ T * (S - q) ≤ S := by
    have h := le_tdiv_iff (x := T - 1) hprod hS
    unfold dustThreshold
    constructor
    · intro hle
      linarith [h.mp (by omega)]
    · intro hle
      have hge := h.mpr (by linarith)
      omega
  have hpart : (q * T).tdiv S < T := by
    rw [tdiv_lt_iff hprod hS, mul_comm T S]
    exact mul_lt_mul_of_pos_right hqS hT
  unfold redeemed
  rw [← hdust]
  split_ifs with hsweep
  · exact iff_of_true rfl hsweep
  · exact iff_of_false hpart.ne hsweep

/-- An exit beside other holders leaves them nothing exactly when it sweeps both totals. -/
theorem nothing_left_iff (full : Bool) {q A B S : ℤ} (hA : 0 ≤ A) (hB : 0 ≤ B) (hvalue : 0 < A + B)
    (hq : 0 < q) (hqS : q < S) :
    A - redeemed full q A S + (B - redeemed full q B S) = 0 ↔
      full = true ∧ A * (S - q) ≤ S ∧ B * (S - q) ≤ S := by
  have hS : 0 < S := hq.trans hqS
  have hcleared : ∀ T, 0 ≤ T →
      (redeemed full q T S = T ↔ T = 0 ∨ full = true ∧ T * (S - q) ≤ S) := by
    intro T hT
    obtain rfl | hpos := hT.eq_or_lt
    · have hle : redeemed full q 0 S ≤ 0 := redeemed_le le_rfl hq.le hqS.le hS
      have hge : 0 ≤ redeemed full q 0 S := redeemed_nonneg le_rfl hq.le hS
      exact iff_of_true (le_antisymm hle hge) (.inl rfl)
    · rw [redeemed_eq_iff hpos hq hqS]
      exact (or_iff_right hpos.ne').symm
  have hleA : redeemed full q A S ≤ A := redeemed_le hA hq.le hqS.le hS
  have hleB : redeemed full q B S ≤ B := redeemed_le hB hq.le hqS.le hS
  have hsum : A - redeemed full q A S + (B - redeemed full q B S) = 0 ↔
      redeemed full q A S = A ∧ redeemed full q B S = B := by omega
  rw [hsum, hcleared A hA, hcleared B hB]
  constructor
  · rintro ⟨rfl | ⟨hfull, hsweepA⟩, rfl | ⟨hfull', hsweepB⟩⟩
    · omega
    · exact ⟨hfull', by rw [zero_mul]; exact hS.le, hsweepB⟩
    · exact ⟨hfull, hsweepA, by rw [zero_mul]; exact hS.le⟩
    · exact ⟨hfull, hsweepA, hsweepB⟩
  · rintro ⟨hfull, hsweepA, hsweepB⟩
    exact ⟨.inr ⟨hfull, hsweepA⟩, .inr ⟨hfull, hsweepB⟩⟩

/-- The holder of all shares redeems everything. -/
theorem redeemed_all {full : Bool} {T S : ℤ} (hS : 0 < S) : redeemed full S T S = T := by
  unfold redeemed
  rw [Int.mul_tdiv_cancel_left T hS.ne']
  split_ifs <;> rfl

theorem owned_settle_iff {e : Env} {user : Address} {q minA minB : ℤ} {plan : WithdrawPlan}
    (hsound : Sound info s) (hsound' : Sound info s') (h : Owned s)
    (hs : SettleFacts e s user q minA minB s' plan) : Owned s' ↔ ¬ SweepsAll s user q := by
  have hp := hs.amounts
  have hS : 0 < s.storedMetrics.totalShares := hp.totalShares ▸ hp.total_pos
  have hqS : q ≤ s.storedMetrics.totalShares :=
    (hp.position ▸ hp.shares_le).trans (hsound.shares_le user)
  have hrA := hp.amountA
  have hrB := hp.amountB
  rw [hp.position, hp.totalShares, hp.totalAmountA] at hrA
  rw [hp.position, hp.totalShares, hp.totalAmountB] at hrB
  rw [owned_iff_balanced hsound', hs.totalShares, hs.totalAmountA, hs.totalAmountB]
  obtain hlt | rfl := lt_or_eq_of_le hqS
  · -- others keep shares: the question is whether any value is left to them
    have hleft := nothing_left_iff (decide (q = (s.getUserPosition user).shares))
      hsound.totalA_nonneg hsound.totalB_nonneg (h.priced hS.ne') hp.shares_pos hlt
    have hothers : s.storedMetrics.totalShares - q ≠ 0 := by omega
    rw [hrA, hrB, hleft, decide_eq_true_eq]
    simp only [hothers, false_iff, SweepsAll, hlt, true_and]
  · rw [redeemed_all hS] at hrA hrB
    rw [hrA, hrB]
    refine iff_of_true (iff_of_true (sub_self _) (by ring)) fun hsweep => ?_
    exact lt_irrefl _ hsweep.2.1

theorem owned_harvest_iff {e : Env} {w w' : World} {caller : Address} {info' : VaultInfo}
    (hrates : RatesBounded info) (hsound : Sound info w.store) (hsound' : Sound info w'.store)
    (h : Owned w.store) (hh : HarvestFacts e w caller info' w') :
    Owned w'.store ↔ w.store.storedMetrics.totalShares ≠ 0 ∨ info.harvestFee = 10000 := by
  obtain rfl : info = info' := Option.some.inj (hsound.configured.symm.trans hh.configured)
  have hnet : netReward info.harvestFee (calculatePendingRewards info.poolId) = 0 ↔
      info.harvestFee = 10000 := by
    have hrate := hrates.harvestFee
    unfold netReward feeOn calculatePendingRewards bps
    rw [Int.tdiv_eq_ediv_of_nonneg (by positivity)]
    omega
  have hnonneg := netReward_nonneg hrates.harvestFee (calculatePendingRewards_pos info.poolId).le
  rw [owned_iff_balanced hsound', hh.totalShares, hh.totalAmountA, hh.totalAmountB, ← hnet]
  by_cases hS : w.store.storedMetrics.totalShares = 0
  · obtain ⟨hA, hB⟩ := h.nothingLeft hS
    rw [hA, hB]
    simp only [hS, true_iff, ne_eq, not_true_eq_false, false_or]
    omega
  · have hvalue := h.priced hS
    refine iff_of_true (iff_of_false hS ?_) (.inl hS)
    omega

/-! ### Runs -/

theorem owned_step_iff (hrates : RatesBounded info) {w w' : World} {event : VaultEvent}
    (hsound : Sound info w.store) (h : Owned w.store) (hstep : vaultStep w event = .ok w') :
    Owned w'.store ↔ KeepsOwned info w event := by
  have hsound' := sound_step hrates.harvestFee w event w' hsound hstep
  cases event with
  | tokens ledger =>
      obtain rfl := pure_eq_ok.mp hstep
      exact iff_of_true h trivial
  | call e action =>
      have hexec : exec w (e, action) = .ok w' := hstep
      by_cases hkind : action.MovesValue
      · cases action with
        | deposit user amountA amountB minShares =>
            obtain ⟨⟨w₁, shares⟩, hd, rfl⟩ := map_eq_ok.mp hexec
            exact iff_of_true (owned_deposit hsound hsound' h (deposit_facts hd)) trivial
        | withdraw user q minA minB =>
            obtain ⟨⟨w₁, plan⟩, hw, rfl⟩ := map_eq_ok.mp hexec
            exact owned_settle_iff hsound hsound' h (withdraw_facts hw).1
        | harvest caller =>
            obtain ⟨info', hh⟩ := harvest_facts hexec
            exact owned_harvest_iff hrates hsound hsound' h hh
        | _ => exact hkind.elim
      · obtain ⟨s, hs, rfl⟩ := exec_admin hkind hexec
        refine iff_of_true (owned_sameAccounts h (execAdmin_written hkind hs).sameAccounts) ?_
        cases action <;> first | trivial | exact absurd trivial hkind

/-- Over every run after one `initialize`, every state has value exactly while it has owners if
and only if every returning call of the run keeps it so. -/
theorem owned_run_iff (hrates : RatesBounded info) (e : Env) (admin treasury : Address)
    (ledger : Ledger) (events : List VaultEvent) :
    (∀ before, before <+: events →
      Owned (Transact.run vaultStep (initialWorld e info admin treasury ledger) before).store) ↔
    Transact.Along vaultStep
      (fun w event => ∀ w', vaultStep w event = .ok w' → KeepsOwned info w event)
      (initialWorld e info admin treasury ledger) events := by
  have hinitial : Owned (initialWorld e info admin treasury ledger).store :=
    ⟨iff_of_true rfl rfl, fun h => absurd rfl h, fun _ => ⟨rfl, rfl⟩⟩
  have hsound : ∀ before, Sound info
      (Transact.run vaultStep (initialWorld e info admin treasury ledger) before).store :=
    fun before => Transact.run_invariant (sound_step hrates.harvestFee) before
      (sound_initial e info admin treasury ledger)
  have hstep : ∀ w event w', (Sound info w.store ∧ Owned w.store) →
      vaultStep w event = .ok w' →
      ((Sound info w'.store ∧ Owned w'.store) ↔ KeepsOwned info w event) := by
    intro w event w' hw h
    rw [← owned_step_iff hrates hw.1 hw.2 h]
    exact and_iff_right (sound_step hrates.harvestFee w event w' hw.1 h)
  refine Iff.trans ?_ (Transact.run_invariant_iff hstep events
    (initialWorld e info admin treasury ledger) ⟨hsound [], hinitial⟩)
  exact ⟨fun h before hbefore => ⟨hsound before, h before hbefore⟩,
    fun h before hbefore => (h before hbefore).2⟩

end

theorem owned_run_openedVault :
    Owned (Transact.run vaultStep openedVault [.call ⟨9, [5], 1⟩ (.deposit 5 10 10 0),
      .call ⟨9, [5], 2⟩ (.harvest 5), .call ⟨9, [5], 3⟩ (.withdraw 5 20 0 0)]).store := by
  have hrates : RatesBounded (twoTokenVault 0) := by decide
  have hiff := owned_run_iff hrates ⟨9, [], 0⟩ 7 8 (fun _ _ => 1000)
    [.call ⟨9, [5], 1⟩ (.deposit 5 10 10 0), .call ⟨9, [5], 2⟩ (.harvest 5),
      .call ⟨9, [5], 3⟩ (.withdraw 5 20 0 0)]
  refine hiff.mpr ⟨fun _ _ => trivial, fun _ _ => .inl ?_, fun _ _ => ?_, trivial⟩ _
    List.prefix_rfl
  · decide
  · change ¬ SweepsAll _ _ _
    decide

/-- Anyone harvests an empty vault and adds value nobody owns, which the first deposit then
acquires; and the exit of one of two holders takes the last value from under the other. -/
theorem value_without_owner :
    (Reachable (twoTokenVault 0) (Transact.run vaultStep openedVault
        [.call ⟨9, [], 1⟩ (.harvest 6)]) ∧
      ¬ Owned (Transact.run vaultStep openedVault [.call ⟨9, [], 1⟩ (.harvest 6)]).store) ∧
    Reachable (twoTokenVault 0) (Transact.run vaultStep openedVault
        [.call ⟨9, [5], 1⟩ (.deposit 5 1 0 0), .call ⟨9, [6], 2⟩ (.deposit 6 0 1 0),
          .call ⟨9, [6], 3⟩ (.withdraw 6 1 0 0)]) ∧
      ¬ Owned (Transact.run vaultStep openedVault
        [.call ⟨9, [5], 1⟩ (.deposit 5 1 0 0), .call ⟨9, [6], 2⟩ (.deposit 6 0 1 0),
          .call ⟨9, [6], 3⟩ (.withdraw 6 1 0 0)]).store := by
  refine ⟨⟨⟨_, _, _, _, _, rfl⟩, fun h => ?_⟩, ⟨_, _, _, _, _, rfl⟩, fun h => ?_⟩
  · have hempty := h.nothingLeft (by decide)
    revert hempty
    decide
  · have hvalue := h.priced (by decide)
    revert hvalue
    decide

end YieldEngine.Vault
