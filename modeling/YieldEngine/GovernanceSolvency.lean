import YieldEngine.GovernanceCustody

/-! # Paying out locks and stakes

While every amount of a run is at least zero (`NonNeg`), the governance contracts stay `Solvent`:
nobody is overdrawn, and the escrow and the staking contract are sound pools.  Whoever has a stake
or an ended lock is then paid on demand (`unstake_pays`, `withdraw_pays`).

The entrypoints do not check the sign.  In any solvent state one call that stakes a negative amount
takes all tokens out of the staking contract (`negative_stake_drains`). -/

namespace YieldEngine.Governance

open CheckedArith Transact GovernanceToken SortedMap PooledAccounts

variable {d : Deployment} {w w' : World}

/-- The amount of a call is not negative. -/
def NonNeg : Action → Prop
  | .token (.mint _ _ amount) => 0 ≤ amount
  | .token (.burn _ amount) => 0 ≤ amount
  | .token (.transfer _ _ amount) => 0 ≤ amount
  | .staking (.stake _ amount) => 0 ≤ amount
  | .staking (.unstake _ amount) => 0 ≤ amount
  | .escrow (.createLock _ amount _) => 0 ≤ amount
  | .escrow (.increaseLock _ amount) => 0 ≤ amount
  | _ => True

/-- Nobody is overdrawn and both pools are sound. -/
structure Solvent (d : Deployment) (w : World) : Prop where
  balance_nonneg : ∀ a, 0 ≤ w.token.balance a
  supply_fits : Fits 128 w.token.totalSupply
  gap_nonneg : 0 ≤ gap w.token
  escrow : (escrowPool d w).Sound
  staking : (stakingPool d w).Sound
  noRewards : NoRewards w.staking
  initialized : w.escrow.governanceToken.isSome ∧ w.staking.governanceToken.isSome

/-! ### One call -/

theorem received_nonneg {c : GovEnv × Action} (h : NonNeg c.2) (holder : Address) :
    ∀ x ∈ received holder w c, 0 ≤ x := by
  obtain ⟨e, a⟩ := c
  intro x hx
  unfold received at hx
  split at hx
  · split_ifs at hx
    · obtain rfl := List.mem_singleton.mp hx
      simp_all [NonNeg]
    · cases hx
  · split_ifs at hx
    · obtain rfl := List.mem_singleton.mp hx
      simp_all [NonNeg]
    · cases hx
  · cases hx

/-- An amount that is not negative and that the payer has leaves no balance negative. -/
theorem moved_balance_nonneg {t : GovernanceToken.Store} (h : ∀ a, 0 ≤ t.balance a)
    {sender recipient : Address} {amount : ℤ} (hamount : 0 ≤ amount)
    (hpaid : amount ≤ t.balance sender) (a : Address) :
    0 ≤ (t.moved sender recipient amount).balance a := by
  have hs := h sender
  have hr := h recipient
  have ha := h a
  unfold Store.balance at hs hr ha hpaid ⊢
  rw [Store.moved, amount_credit, amount_credit, amount_credit]
  split_ifs <;> omega

theorem written_balance_nonneg {t : GovernanceToken.Store} (h : ∀ a, 0 ≤ t.balance a)
    {b : GovernanceToken.Action} (hcovered : b.Covered t) (hb : NonNeg (.token b)) (a : Address) :
    0 ≤ (written t b).balance a := by
  have ha := h a
  cases b with
  | mint admin recipient amount =>
      have hamount : 0 ≤ amount := hb
      have hr := h recipient
      unfold Store.balance at ha hr ⊢
      rw [written, amount_credit]
      split_ifs <;> omega
  | burn sender amount =>
      have hpaid : amount ≤ t.balance sender := hcovered
      unfold Store.balance at ha hpaid ⊢
      rw [written, amount_credit]
      split_ifs <;> omega
  | transfer sender recipient amount => exact moved_balance_nonneg h hb hcovered a
  | delegate sender recipient => exact ha
  | approve sender spender amount => exact ha

theorem step_balance_nonneg {e : GovEnv} {a : Action} (h : Step d w e a w') (hs : Solvent d w)
    (ha : NonNeg a) : ∀ holder, 0 ≤ w'.token.balance holder := by
  have hkept := hs.balance_nonneg
  cases h with
  | token h =>
      intro holder
      rw [h.eq_written]
      exact written_balance_nonneg hkept h.covered ha holder
  | staking h =>
      cases h with
      | stake _ hpaid => exact moved_balance_nonneg hkept ha hpaid
      | unstake _ _ hpaid => exact moved_balance_nonneg hkept ha hpaid
      | claimRewards _ _ =>
          dsimp only
          rw [hs.noRewards.pending, StakingContract.paidReward, if_neg (lt_irrefl 0)]
          exact hkept
  | fees h => exact hkept
  | governor h => exact hkept
  | escrow h =>
      cases h with
      | createLock _ _ _ hpaid => exact moved_balance_nonneg hkept ha hpaid
      | increaseLock _ _ hpaid => exact moved_balance_nonneg hkept ha hpaid
      | extendLock _ _ _ => exact hkept
      | withdraw _ _ hpaid =>
          exact moved_balance_nonneg hkept (hs.escrow.amount_nonneg _) hpaid
      | delegate _ _ => exact hkept
  | multisig h => exact hkept

theorem step_supply_fits {e : GovEnv} {a : Action} (h : Step d w e a w')
    (hfits : Fits 128 w.token.totalSupply) : Fits 128 w'.token.totalSupply := by
  obtain ⟨b, -, hreturns⟩ | ⟨-, houtside⟩ := step_token h
  · exact hreturns.fits hfits
  · generalize w'.token = t at houtside
    cases houtside with
    | kept => exact hfits
    | moved _ _ _ => exact hfits

theorem step_escrow_sound {c : GovEnv × Action} (h : Step d w c.1 c.2 w')
    (hunsigned : Unsigned d c.1) (hs : Solvent d w) (hc : NonNeg c.2) :
    (escrowPool d w').Sound := by
  rw [step_escrowPool h hunsigned]
  obtain ⟨e, a⟩ := c
  have hgifts := hs.escrow.after_gifts (received_nonneg (w := w) (c := (e, a)) hc d.escrow)
  cases a with
  | escrow a =>
      cases a with
      | createLock user amount duration => exact hs.escrow.apply (m := .reopen user amount) hc
      | increaseLock user amount => exact hs.escrow.apply (m := .deposit user amount) hc
      | withdraw user => exact hs.escrow.apply (m := .withdraw user _) (le_refl _)
      | extendLock user newDuration => exact hgifts
      | delegate sender recipient amount => exact hgifts
  | _ => exact hgifts

theorem step_staking_sound {c : GovEnv × Action} (h : Step d w c.1 c.2 w')
    (hunsigned : Unsigned d c.1) (hs : Solvent d w) (hc : NonNeg c.2) :
    (stakingPool d w').Sound := by
  rw [step_stakingPool h hunsigned hs.noRewards]
  obtain ⟨e, a⟩ := c
  have hgifts := hs.staking.after_gifts (received_nonneg (w := w) (c := (e, a)) hc d.staking)
  cases a with
  | staking a =>
      cases a with
      | stake user amount => exact hs.staking.apply (m := .deposit user amount) hc
      | unstake user amount =>
          cases h with
          | staking h =>
              cases h with
              | unstake _ hcovered _ =>
                  exact hs.staking.apply (m := .withdraw user amount) hcovered
      | claimRewards user => exact hgifts
  | _ => exact hgifts

theorem step_initialized {e : GovEnv} {a : Action} (h : Step d w e a w')
    (hs : w.escrow.governanceToken.isSome ∧ w.staking.governanceToken.isSome) :
    w'.escrow.governanceToken.isSome ∧ w'.staking.governanceToken.isSome := by
  cases h with
  | staking h => cases h <;> exact hs
  | escrow h => cases h <;> exact hs
  | _ => exact hs

theorem step_solvent {c : GovEnv × Action} (h : Step d w c.1 c.2 w') (hunsigned : Unsigned d c.1)
    (hc : NonNeg c.2) (hs : Solvent d w) : Solvent d w' where
  balance_nonneg := step_balance_nonneg h hs hc
  supply_fits := step_supply_fits h hs.supply_fits
  gap_nonneg := by
    rw [step_gap h]
    exact hs.gap_nonneg
  escrow := step_escrow_sound h hunsigned hs hc
  staking := step_staking_sound h hunsigned hs hc
  noRewards := step_noRewards h hs.noRewards
  initialized := step_initialized h hs.initialized

/-! ### Runs -/

theorem deployed_solvent {e : GovEnv} {p : Parties} (h : deployed e d p = .ok w) :
    Solvent d w where
  balance_nonneg := deployed_balance_nonneg h
  supply_fits := by
    rw [(deployed_balances h).1]
    decide
  gap_nonneg := by
    have hle := (deployed_total h).1
    rw [gap, (deployed_balances h).1]
    omega
  escrow := by
    rw [deployed_escrowPool h]
    exact ⟨fun _ => le_rfl, le_rfl, deployed_balance_nonneg h _⟩
  staking := by
    rw [deployed_stakingPool h]
    exact ⟨fun _ => le_rfl, le_rfl, deployed_balance_nonneg h _⟩
  noRewards := deployed_noRewards h
  initialized := by
    obtain ⟨-, hstaking, -, -, hescrow, -⟩ := deployed_ok h
    rw [hstaking, hescrow]
    exact ⟨rfl, rfl⟩

theorem run_solvent {e : GovEnv} {p : Parties} (h : deployed e d p = .ok w)
    (calls : List (GovEnv × Action)) (hcalls : ∀ c ∈ calls, Unsigned d c.1 ∧ NonNeg c.2) :
    Solvent d (run (exec d) w calls) :=
  run_invariant_along (Q := fun _ c => Unsigned d c.1 ∧ NonNeg c.2)
    (fun _ _ _ hs hc hcall => step_solvent (exec_step hcall) hc.1 hc.2 hs)
    calls w (deployed_solvent h) (along_of_forall calls w hcalls)

/-! ### Payments -/

/-- All balances together fit. -/
theorem Solvent.total_fits (h : Solvent d w) : Fits 128 (w.token.balances.total id) := by
  have hgap := h.gap_nonneg
  unfold gap at hgap
  exact h.supply_fits.of_le (total_amounts_nonneg h.balance_nonneg) (by omega)

theorem Solvent.balance_fits (h : Solvent d w) (a : Address) : Fits 128 (w.token.balance a) :=
  h.total_fits.of_le (h.balance_nonneg a) (amount_le_total h.balance_nonneg a)

/-- A transfer that the payer can afford returns. -/
theorem Solvent.transfer_returns (h : Solvent d w) {e : GovEnv} {sender recipient : Address}
    {amount : ℤ} (hauth : sender ∈ e.auths) (hne : recipient ≠ sender) (hamount : 0 ≤ amount)
    (hpaid : amount ≤ w.token.balance sender) :
    transfer e w.token sender recipient amount = .ok (w.token.moved sender recipient amount) := by
  have hpair := amount_add_amount_le_total h.balance_nonneg hne
  have hrecipient := h.balance_nonneg recipient
  have hsender := h.balance_fits sender
  refine transfer_eq_ok.mpr ⟨hauth, hpaid, ?_, ?_, rfl⟩
  · exact hsender.of_le (by omega) (by omega)
  · rw [balance_moved_to _ _ hne]
    unfold Store.balance at hrecipient hpaid ⊢
    exact h.total_fits.of_le (by omega) (by omega)

/-- What lies within a representable number and its negative is representable. -/
theorem fits_of_between {x y : ℤ} (h : Fits 128 y) (hlow : -y ≤ x) (hhigh : x ≤ y) :
    Fits 128 x := by
  have hlt := h.2
  exact ⟨by omega, by omega⟩

theorem Solvent.withdraw_returns (h : Solvent d w) {e : GovEnv} {user : Address}
    (hauth : user ∈ e.auths) (hunsigned : Unsigned d e)
    (hended : w.escrow.lockEnd user ≤ e.timestamp) :
    exec d w (e, .escrow (.withdraw user)) =
      .ok { w with
        token := w.token.moved d.escrow user (w.escrow.lockedAmount user)
        escrow := w.escrow.closed user } := by
  have hne : user ≠ d.escrow := fun heq => hunsigned.2 (heq ▸ hauth)
  obtain ⟨address, haddress⟩ := Option.isSome_iff_exists.mp h.initialized.1
  have hlocked : 0 ≤ w.escrow.lockedAmount user := h.escrow.amount_nonneg user
  have hheld : w.escrow.lockedAmount user ≤ w.token.balance d.escrow := h.escrow.amount_le_held user
  have hrecord : w.escrow.lockedAmount user ≤ w.escrow.getTotalSupply :=
    (amount_le_total h.escrow.amount_nonneg user).trans h.escrow.total_le
  have hsupply : w.escrow.getTotalSupply ≤ w.token.balance d.escrow := h.escrow.recorded_le
  have htransfer := h.transfer_returns (e := e.calledBy d.escrow) List.mem_cons_self hne hlocked
    hheld
  have hfits : Fits 128 (w.escrow.getTotalSupply - w.escrow.lockedAmount user) :=
    (h.balance_fits d.escrow).of_le (by omega) (by omega)
  have hcall : VotingEscrow.withdraw d.escrow e w.token w.escrow user =
      .ok (w.token.moved d.escrow user (w.escrow.lockedAmount user), w.escrow.closed user) := by
    simp only [VotingEscrow.withdraw, VotingEscrow.Store.getGovernanceToken, bind_eq_ok,
      GovEnv.requireAuth_eq_ok, require_eq_ok, orRaise_eq_ok, exists_const]
    exact ⟨hauth, hended, address, haddress, _, htransfer, _, I128.sub_of_fits hfits, rfl⟩
  simp only [exec, VotingEscrow.exec, hcall]
  rfl

theorem Solvent.unstake_returns (h : Solvent d w) {e : GovEnv} {user : Address} {amount : ℤ}
    (hauth : user ∈ e.auths) (hunsigned : Unsigned d e) (hamount : 0 ≤ amount)
    (hcovered : amount ≤ w.staking.getStakeBalance user) :
    exec d w (e, .staking (.unstake user amount)) =
      .ok { w with
        token := w.token.moved d.staking user amount
        staking := w.staking.unstaked user amount } := by
  have hne : user ≠ d.staking := fun heq => hunsigned.1 (heq ▸ hauth)
  obtain ⟨address, haddress⟩ := Option.isSome_iff_exists.mp h.initialized.2
  have hheld : w.staking.getStakeBalance user ≤ w.token.balance d.staking :=
    h.staking.amount_le_held user
  have hrecord : w.staking.getStakeBalance user ≤ w.staking.getTotalStaked :=
    (amount_le_total h.staking.amount_nonneg user).trans h.staking.total_le
  have htotal : w.staking.getTotalStaked ≤ w.token.balance d.staking := h.staking.recorded_le
  have hbalance := h.balance_fits d.staking
  have htransfer := h.transfer_returns (e := e.calledBy d.staking) List.mem_cons_self hne hamount
    (hcovered.trans hheld)
  have hrest : Fits 128 (w.staking.getStakeBalance user - amount) :=
    hbalance.of_le (by omega) (by omega)
  have hstaked : Fits 128 (w.staking.getTotalStaked - amount) :=
    hbalance.of_le (by omega) (by omega)
  have hcall : StakingContract.unstake d.staking e w.token w.staking user amount =
      .ok (w.token.moved d.staking user amount, w.staking.unstaked user amount) := by
    simp only [StakingContract.unstake, StakingContract.Store.getGovernanceToken, bind_eq_ok,
      GovEnv.requireAuth_eq_ok, require_eq_ok, orRaise_eq_ok, exists_const]
    exact ⟨hauth, hcovered, _, I128.sub_of_fits hrest, _, I128.sub_of_fits hstaked, address,
      haddress, _, htransfer, rfl⟩
  simp only [exec, StakingContract.exec, hcall]
  rfl

/-- In every state of a run without negative amounts, the owner of an ended lock who asks for it is
paid all of it. -/
theorem withdraw_pays {e₀ : GovEnv} {p : Parties} {w : World} (d : Deployment)
    (h : deployed e₀ d p = .ok w) (calls : List (GovEnv × Action))
    (hcalls : ∀ c ∈ calls, Unsigned d c.1 ∧ NonNeg c.2) {e : GovEnv} {user : Address}
    (hauth : user ∈ e.auths) (hunsigned : Unsigned d e)
    (hended : (run (exec d) w calls).escrow.lockEnd user ≤ e.timestamp) :
    ∃ v, exec d (run (exec d) w calls) (e, .escrow (.withdraw user)) = .ok v ∧
      v.token.balance user = (run (exec d) w calls).token.balance user +
          (run (exec d) w calls).escrow.lockedAmount user ∧
        v.escrow.lockedAmount user = 0 := by
  have hne : user ≠ d.escrow := fun heq => hunsigned.2 (heq ▸ hauth)
  refine ⟨_, (run_solvent h calls hcalls).withdraw_returns hauth hunsigned hended,
    balance_moved_to _ _ hne, ?_⟩
  exact (amount_set _ _ _ _).trans (if_pos rfl)

theorem sampleCalls_nonNeg :
    ∀ c ∈ sampleCalls, Unsigned sampleDeployment c.1 ∧ NonNeg c.2 := by
  intro c hc
  refine ⟨sampleCalls_unsigned c hc, ?_⟩
  simp only [sampleCalls, List.mem_cons, List.not_mem_nil, or_false] at hc
  obtain rfl | rfl := hc
  · exact (by decide : (0 : ℤ) ≤ 50)
  · exact (by decide : (0 : ℤ) ≤ 70)

theorem withdraw_pays_sample :
    let u := run (exec sampleDeployment) sampleWorld sampleCalls
    u.escrow.lockedAmount 2 = 50 ∧
      ∃ v, exec sampleDeployment u (⟨[2], 604800, 0⟩, .escrow (.withdraw 2)) = .ok v ∧
        v.token.balance 2 = u.token.balance 2 + u.escrow.lockedAmount 2 ∧
          v.escrow.lockedAmount 2 = 0 :=
  ⟨by decide +kernel, withdraw_pays sampleDeployment sampleWorld_deployed sampleCalls
    sampleCalls_nonNeg (by decide) (by decide) (by decide +kernel)⟩

/-- In every state of a run without negative amounts, a staker who asks for a part of his stake is
paid it. -/
theorem unstake_pays {e₀ : GovEnv} {p : Parties} {w : World} (d : Deployment)
    (h : deployed e₀ d p = .ok w) (calls : List (GovEnv × Action))
    (hcalls : ∀ c ∈ calls, Unsigned d c.1 ∧ NonNeg c.2) {e : GovEnv} {user : Address} {amount : ℤ}
    (hauth : user ∈ e.auths) (hunsigned : Unsigned d e) (hamount : 0 ≤ amount)
    (hcovered : amount ≤ (run (exec d) w calls).staking.getStakeBalance user) :
    ∃ v, exec d (run (exec d) w calls) (e, .staking (.unstake user amount)) = .ok v ∧
      v.token.balance user = (run (exec d) w calls).token.balance user + amount ∧
        v.staking.getStakeBalance user =
          (run (exec d) w calls).staking.getStakeBalance user - amount := by
  have hne : user ≠ d.staking := fun heq => hunsigned.1 (heq ▸ hauth)
  refine ⟨_, (run_solvent h calls hcalls).unstake_returns hauth hunsigned hamount hcovered,
    balance_moved_to _ _ hne, ?_⟩
  exact (amount_credit_self _ _ _).trans (sub_eq_add_neg _ _).symm

theorem unstake_pays_sample :
    let u := run (exec sampleDeployment) sampleWorld sampleCalls
    u.staking.getStakeBalance 2 = 70 ∧
      ∃ v, exec sampleDeployment u (⟨[2], 9, 0⟩, .staking (.unstake 2 30)) = .ok v ∧
        v.token.balance 2 = u.token.balance 2 + 30 ∧
          v.staking.getStakeBalance 2 = u.staking.getStakeBalance 2 - 30 :=
  ⟨by decide +kernel, unstake_pays sampleDeployment sampleWorld_deployed sampleCalls
    sampleCalls_nonNeg (by decide) (by decide) (by decide) (by decide +kernel)⟩

/-! ### Negative stakes -/

/-- A stake of a negative amount takes it out of the staking contract. -/
theorem Solvent.stake_takes (h : Solvent d w) {e : GovEnv} {user : Address}
    (hauth : user ∈ e.auths) (hunsigned : Unsigned d e) :
    exec d w (e, .staking (.stake user (-w.token.balance d.staking))) =
      .ok { w with
        token := w.token.moved user d.staking (-w.token.balance d.staking)
        staking := w.staking.staked e.timestamp user (-w.token.balance d.staking) } := by
  have hne : d.staking ≠ user := fun heq => hunsigned.1 (heq ▸ hauth)
  obtain ⟨address, haddress⟩ := Option.isSome_iff_exists.mp h.initialized.2
  have hheld := h.balance_nonneg d.staking
  have hbalance := h.balance_fits d.staking
  have hpair : w.token.balance user + w.token.balance d.staking ≤ w.token.balances.total id :=
    amount_add_amount_le_total h.balance_nonneg (Ne.symm hne)
  have hpool : w.staking.getTotalStaked ≤ w.token.balance d.staking := h.staking.recorded_le
  have hstake : w.staking.getStakeBalance user ≤ w.staking.getTotalStaked :=
    (amount_le_total h.staking.amount_nonneg user).trans h.staking.total_le
  have hstaker : 0 ≤ w.staking.getStakeBalance user := h.staking.amount_nonneg user
  have htransfer : transfer (e.calledBy d.staking) w.token user d.staking
      (-w.token.balance d.staking) =
        .ok (w.token.moved user d.staking (-w.token.balance d.staking)) := by
    apply transfer_takes (List.mem_cons_of_mem _ hauth) hne (h.balance_nonneg user) hheld
    · rw [sub_self]
      decide
    · exact h.total_fits.of_le (add_nonneg (h.balance_nonneg user) hheld) hpair
  have hrest : Fits 128 (w.staking.getStakeBalance user + -w.token.balance d.staking) :=
    fits_of_between hbalance (by omega) (by omega)
  have htotal : Fits 128 (w.staking.getTotalStaked + -w.token.balance d.staking) :=
    fits_of_between hbalance (by omega) (by omega)
  have hcall : StakingContract.stake d.staking e w.token w.staking user
      (-w.token.balance d.staking) =
        .ok (w.token.moved user d.staking (-w.token.balance d.staking),
          w.staking.staked e.timestamp user (-w.token.balance d.staking)) := by
    simp only [StakingContract.stake, StakingContract.Store.getGovernanceToken, bind_eq_ok,
      GovEnv.requireAuth_eq_ok, orRaise_eq_ok, exists_const]
    exact ⟨hauth, address, haddress, _, htransfer, _, I128.add_of_fits hrest, _,
      I128.add_of_fits htotal, rfl⟩
  simp only [exec, StakingContract.exec, hcall]
  rfl

/-- An empty staking contract pays nobody. -/
theorem unstake_refused (hempty : w.token.balance d.staking = 0) {e : GovEnv} {owner : Address}
    {amount : ℤ} (hamount : 0 < amount) :
    exec d w (e, .staking (.unstake owner amount)) ≠ .ok w' := by
  intro hcall
  have hstep := exec_step hcall
  dsimp only at hstep
  cases hstep with
  | staking h =>
      cases h with
      | unstake _ _ hpaid => omega

/-- In every state of a run without negative amounts, any account that signs for itself, with or
without a stake, can take all tokens of the staking contract by one stake of a negative amount, and
then no staker is paid. -/
theorem negative_stake_drains {e₀ : GovEnv} {p : Parties} {w : World} (d : Deployment)
    (h : deployed e₀ d p = .ok w) (calls : List (GovEnv × Action))
    (hcalls : ∀ c ∈ calls, Unsigned d c.1 ∧ NonNeg c.2) {e : GovEnv} {user : Address}
    (hauth : user ∈ e.auths) (hunsigned : Unsigned d e) :
    let held := (run (exec d) w calls).token.balance d.staking
    ∃ v, exec d (run (exec d) w calls) (e, .staking (.stake user (-held))) = .ok v ∧
      v.token.balance user = (run (exec d) w calls).token.balance user + held ∧
        ∀ e' owner amount v', 0 < amount →
          exec d v (e', .staking (.unstake owner amount)) ≠ .ok v' := by
  have hs := run_solvent h calls hcalls
  have hne : d.staking ≠ user := fun heq => hunsigned.1 (heq ▸ hauth)
  refine ⟨_, hs.stake_takes hauth hunsigned, ?_, fun e' owner amount v' hamount => ?_⟩
  · dsimp only
    rw [balance_moved_from _ _ hne.symm, sub_neg_eq_add]
  · apply unstake_refused _ hamount
    dsimp only
    rw [balance_moved_to _ _ hne, add_neg_cancel]

theorem negative_stake_drains_sample :
    let u := run (exec sampleDeployment) sampleWorld sampleCalls
    ∃ v, exec sampleDeployment u (⟨[9], 9, 0⟩, .staking (.stake 9 (-u.token.balance 101))) =
        .ok v ∧
      v.token.balance 9 = u.token.balance 9 + u.token.balance 101 ∧
        ∀ e' owner amount v', 0 < amount →
          exec sampleDeployment v (e', .staking (.unstake owner amount)) ≠ .ok v' :=
  negative_stake_drains sampleDeployment sampleWorld_deployed sampleCalls sampleCalls_nonNeg
    (by decide) (by decide)

end YieldEngine.Governance
