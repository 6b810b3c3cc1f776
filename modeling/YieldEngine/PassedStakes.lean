import YieldEngine.FeeClaims
import YieldEngine.FeeLedger
import YieldEngine.GovernanceSolvency

/-! # Claims with passed on tokens

A claim looks at the stake of the moment, for any week, and only marks the account that claims.  So
an amount of tokens that is sent to an account, staked there, claimed with, unstaked and sent back
leaves the holder as he was and the account paid (`pass_ok`), and it can be passed through any number
of accounts in the same way: each is paid the same share of the fees of the same week
(`holding_claims_again`). -/

namespace YieldEngine.Governance

open CheckedArith Transact SortedMap FeeDistributor

variable {d : Deployment} {w w' : World} {e : GovEnv} {src a : Address} {week : ℕ} {x : ℤ}

/-- A stake that the staker can afford returns. -/
theorem Solvent.stake_returns (h : Solvent d w) (hauth : a ∈ e.auths) (hunsigned : Unsigned d e)
    (hx : 0 ≤ x) (hpaid : x ≤ w.token.balance a) :
    exec d w (e, .staking (.stake a x)) =
      .ok { w with
        token := w.token.moved a d.staking x
        staking := w.staking.staked e.timestamp a x } := by
  have hne : d.staking ≠ a := fun heq => hunsigned.1 (heq ▸ hauth)
  obtain ⟨address, haddress⟩ := Option.isSome_iff_exists.mp h.initialized.2
  have hpair : w.token.balance a + w.token.balance d.staking ≤ w.token.balances.total id :=
    amount_add_amount_le_total h.balance_nonneg (Ne.symm hne)
  have hpool : w.staking.getTotalStaked ≤ w.token.balance d.staking := h.staking.recorded_le
  have hown : 0 ≤ w.staking.getStakeBalance a := h.staking.amount_nonneg a
  have hstake : w.staking.getStakeBalance a ≤ w.staking.getTotalStaked :=
    (amount_le_total h.staking.amount_nonneg a).trans h.staking.total_le
  have htransfer := h.transfer_returns (e := e.calledBy d.staking) (List.mem_cons_of_mem _ hauth)
    hne hx hpaid
  have hnew : Fits 128 (w.staking.getStakeBalance a + x) :=
    h.total_fits.of_le (by omega) (by omega)
  have htotal : Fits 128 (w.staking.getTotalStaked + x) :=
    h.total_fits.of_le (by omega) (by omega)
  have hcall : StakingContract.stake d.staking e w.token w.staking a x =
      .ok (w.token.moved a d.staking x, w.staking.staked e.timestamp a x) := by
    simp only [StakingContract.stake, StakingContract.Store.getGovernanceToken, bind_eq_ok,
      GovEnv.requireAuth_eq_ok, orRaise_eq_ok, exists_const]
    exact ⟨hauth, address, haddress, _, htransfer, _, I128.add_of_fits hnew, _,
      I128.add_of_fits htotal, rfl⟩
  simp only [exec, StakingContract.exec, hcall]
  rfl

theorem Solvent.send_returns (h : Solvent d w) {sender recipient : Address}
    (hauth : sender ∈ e.auths) (hne : recipient ≠ sender) (hx : 0 ≤ x)
    (hpaid : x ≤ w.token.balance sender) :
    exec d w (e, .token (.transfer sender recipient x)) =
      .ok { w with token := w.token.moved sender recipient x } := by
  simp only [exec, GovernanceToken.exec, h.transfer_returns hauth hne hx hpaid]
  rfl

/-- The calls that pass `x` tokens of `src` through the account `a`. -/
def pass (e : GovEnv) (src : Address) (week : ℕ) (x : ℤ) (a : Address) :
    List (GovEnv × Action) :=
  [(e, .token (.transfer src a x)), (e, .staking (.stake a x)), (e, .fees (.claimWeek a week)),
    (e, .staking (.unstake a x)), (e, .token (.transfer a src x))]

/-- The tokens of `src` can be passed through the account `a`. -/
structure Passable (d : Deployment) (e : GovEnv) (src : Address) (week : ℕ) (x : ℤ) (a : Address)
    (w : World) : Prop where
  solvent : Solvent d w
  fees : w.fees.stakingContract.isSome
  held : x ≤ w.token.balance src
  other : a ≠ src
  signed : a ∈ e.auths
  unstaked : w.staking.getStakeBalance a = 0
  unclaimed : w.fees.hasClaimed a week = false

/-- What the account is paid. -/
def passedShare (w : World) (week : ℕ) (x : ℤ) : ℤ :=
  (w.fees.weekFees.amount week * x).tdiv (w.staking.getTotalStaked + x)

/-- The state `v` is `w` with the claim of the account `a`. -/
structure Passed (d : Deployment) (week : ℕ) (a : Address) (w v : World) : Prop where
  solvent : Solvent d v
  balances : ∀ b, v.token.balance b = w.token.balance b
  stakes : ∀ b, v.staking.getStakeBalance b = w.staking.getStakeBalance b
  total : v.staking.getTotalStaked = w.staking.getTotalStaked
  fees : v.fees = w.fees.marked a week

/-- Passing tokens through an account pays the account and restores everything but its claim. -/
theorem pass_ok (h : Passable d e src week x a w) (hauth : src ∈ e.auths)
    (hunsigned : Unsigned d e) (hx : 0 < x) (hfits : Fits 128 (w.fees.weekFees.amount week * x)) :
    Passed d week a w (run (exec d) w (pass e src week x a)) ∧
      ghostLog (exec d) claims w (pass e src week x a) = [⟨a, week, passedShare w week x⟩] := by
  have hstaking : a ≠ d.staking := fun heq => hunsigned.1 (heq ▸ h.signed)
  have hsource : src ≠ d.staking := fun heq => hunsigned.1 (heq ▸ hauth)
  have hpool : 0 ≤ w.staking.getTotalStaked :=
    (total_amounts_nonneg h.solvent.staking.amount_nonneg).trans h.solvent.staking.total_le
  -- the tokens arrive
  have h1 := h.solvent.send_returns hauth h.other hx.le h.held
  have hs1 := step_solvent (exec_step h1) hunsigned hx.le h.solvent
  have hb1 : x ≤ (w.token.moved src a x).balance a := by
    have hnonneg := h.solvent.balance_nonneg a
    rw [balance_moved_to _ _ h.other]
    omega
  -- they are staked
  have h2 := hs1.stake_returns h.signed hunsigned hx.le hb1
  have hs2 := step_solvent (exec_step h2) hunsigned hx.le hs1
  have hstake : (w.staking.staked e.timestamp a x).getStakeBalance a = x := by
    refine (amount_credit_self _ _ _).trans ?_
    rw [show w.staking.stakes.amount a = 0 from h.unstaked, zero_add]
  have htotal : (w.staking.staked e.timestamp a x).getTotalStaked =
      w.staking.getTotalStaked + x := rfl
  -- the account claims
  have hshare : shareOf w.fees ((w.staking.staked e.timestamp a x).getStakeBalance a)
      (w.staking.staked e.timestamp a x).getTotalStaked week = .ok (passedShare w week x) := by
    rw [hstake, htotal]
    simp only [shareOf, bind_eq_ok, I128.mul_eq_ok, I128.div_eq_ok]
    exact ⟨_, ⟨hfits, rfl⟩, by omega, hfits.tdiv (by omega), rfl⟩
  have hstaked : (w.staking.staked e.timestamp a x).getTotalStaked ≠ 0 := by
    rw [htotal]
    omega
  have hclaim := claimWeek_of_share h.signed h.unclaimed h.fees hstaked hshare
  have h3 : exec d { w with
      token := (w.token.moved src a x).moved a d.staking x
      staking := w.staking.staked e.timestamp a x } (e, .fees (.claimWeek a week)) =
        .ok { w with
          token := (w.token.moved src a x).moved a d.staking x
          staking := w.staking.staked e.timestamp a x
          fees := w.fees.marked a week } := by
    simp only [exec, FeeDistributor.exec, hclaim]
    rfl
  have hs3 := step_solvent (exec_step h3) hunsigned trivial hs2
  -- the tokens go back
  have h4 := hs3.unstake_returns h.signed hunsigned hx.le hstake.ge
  have hs4 := step_solvent (exec_step h4) hunsigned hx.le hs3
  have hb4 : x ≤ (((w.token.moved src a x).moved a d.staking x).moved d.staking a x).balance a := by
    rw [balance_moved_to _ _ hstaking, balance_moved_from _ _ hstaking]
    omega
  have h5 := hs4.send_returns h.signed h.other.symm hx.le hb4
  have hs5 := step_solvent (exec_step h5) hunsigned hx.le hs4
  constructor
  · rw [pass, run_cons, commit_of_ok h1, run_cons, commit_of_ok h2, run_cons, commit_of_ok h3,
      run_cons, commit_of_ok h4, run_cons, commit_of_ok h5, run_nil]
    refine ⟨hs5, fun b => ?_, fun b => ?_, ?_, rfl⟩
    · simp only [GovernanceToken.Store.balance, GovernanceToken.Store.moved, amount_credit_eq_add]
      split_ifs <;> ring
    · simp only [StakingContract.Store.getStakeBalance, StakingContract.Store.staked,
        StakingContract.Store.unstaked, amount_credit_eq_add]
      split_ifs <;> ring
    · simp [StakingContract.Store.getTotalStaked, StakingContract.Store.staked,
        StakingContract.Store.unstaked]
  · rw [pass, ghostLog_cons_of_ok h1, ghostLog_cons_of_ok h2, ghostLog_cons_of_ok h3,
      ghostLog_cons_of_ok h4, ghostLog_cons_of_ok h5]
    have hpaid : share w.fees (w.staking.staked e.timestamp a x) a week = passedShare w week x := by
      rw [share, hstake, htotal]
      rfl
    simp only [claims, if_neg hstaked, hpaid]
    rfl

/-- What makes an account passable stays when the tokens pass through another one. -/
theorem Passed.passable {v : World} {b : Address} (h : Passed d week a w v) (hne : b ≠ a)
    (hb : Passable d e src week x b w) : Passable d e src week x b v where
  solvent := h.solvent
  fees := by
    rw [h.fees]
    exact hb.fees
  held := by
    rw [h.balances]
    exact hb.held
  other := hb.other
  signed := hb.signed
  unstaked := (h.stakes b).trans hb.unstaked
  unclaimed := by
    rw [h.fees, ← Bool.not_eq_true, hasClaimed_marked_iff, hb.unclaimed]
    simp [hne]

theorem Passed.share_eq {v : World} (h : Passed d week a w v) :
    passedShare v week x = passedShare w week x := by
  rw [passedShare, passedShare, h.fees, h.total]
  rfl

/-- Passing tokens through accounts, one after another. -/
theorem passes_ok (hauth : src ∈ e.auths) (hunsigned : Unsigned d e) (hx : 0 < x)
    {accounts : List Address} (hnodup : accounts.Nodup) :
    ∀ {w : World}, (∀ a ∈ accounts, Passable d e src week x a w) →
      Fits 128 (w.fees.weekFees.amount week * x) →
        ghostLog (exec d) claims w (accounts.flatMap (pass e src week x)) =
            accounts.map (fun a => ⟨a, week, passedShare w week x⟩) ∧
          ∀ b, (run (exec d) w (accounts.flatMap (pass e src week x))).token.balance b =
            w.token.balance b := by
  induction accounts with
  | nil => exact fun _ _ => ⟨rfl, fun _ => rfl⟩
  | cons a accounts ih =>
      intro w hall hfits
      obtain ⟨ha, haccounts⟩ := List.nodup_cons.mp hnodup
      obtain ⟨hpassed, hclaim⟩ :=
        pass_ok (hall a List.mem_cons_self) hauth hunsigned hx hfits
      have hrest : ∀ b ∈ accounts,
          Passable d e src week x b (run (exec d) w (pass e src week x a)) := by
        intro b hb
        have hne : b ≠ a := by
          rintro rfl
          exact ha hb
        exact hpassed.passable hne (hall b (List.mem_cons_of_mem a hb))
      obtain ⟨hlog, hbalances⟩ := ih haccounts hrest (by rw [hpassed.fees]; exact hfits)
      rw [List.flatMap_cons, ghostLog_append, run_append, hclaim, hlog, hpassed.share_eq]
      exact ⟨rfl, fun b => (hbalances b).trans (hpassed.balances b)⟩

theorem step_stakingContract {c : GovEnv × Action} (h : Step d w c.1 c.2 w')
    (hs : w.fees.stakingContract.isSome) : w'.fees.stakingContract.isSome := by
  have hbooked := step_booked h
  generalize w'.fees = fees at hbooked ⊢
  cases hbooked with
  | kept _ _ => exact hs
  | collected _ _ =>
      unfold Store.collected Store.started
      split_ifs <;> exact hs
  | claimed _ _ _ _ => exact hs

/-- In every state of a run without negative amounts: the owner of some tokens who passes them
through any accounts that have no stake and have not claimed the week, has each of them paid the
same share of the fees of the week, and ends up with his tokens. -/
theorem holding_claims_again {e₀ : GovEnv} {p : Parties} {w : World} (d : Deployment)
    (h : deployed e₀ d p = .ok w) (calls : List (GovEnv × Action))
    (hcalls : ∀ c ∈ calls, Unsigned d c.1 ∧ NonNeg c.2) {e : GovEnv} {src : Address}
    {accounts : List Address} (hnodup : (src :: accounts).Nodup)
    (hauth : ∀ a ∈ src :: accounts, a ∈ e.auths) (hunsigned : Unsigned d e) (week : ℕ) {x : ℤ}
    (hx : 0 < x) (hheld : x ≤ (run (exec d) w calls).token.balance src)
    (hunstaked : ∀ a ∈ accounts, (run (exec d) w calls).staking.getStakeBalance a = 0)
    (hunclaimed : ∀ a ∈ accounts, (run (exec d) w calls).fees.hasClaimed a week = false)
    (hfits : Fits 128 ((run (exec d) w calls).fees.weekFees.amount week * x)) :
    let v := run (exec d) w calls
    let passes := accounts.flatMap (pass e src week x)
    ghostLog (exec d) claims v passes =
        accounts.map (fun a => ⟨a, week, (v.fees.weekFees.amount week * x).tdiv
          (v.staking.getTotalStaked + x)⟩) ∧
      ∀ b, (run (exec d) v passes).token.balance b = v.token.balance b := by
  obtain ⟨hsrc, haccounts⟩ := List.nodup_cons.mp hnodup
  have hstart : w.fees.stakingContract.isSome := by
    obtain ⟨-, -, hfees, -, -, -⟩ := deployed_ok h
    rw [hfees]
    rfl
  have hfees : (run (exec d) w calls).fees.stakingContract.isSome :=
    run_invariant (fun _ _ _ hs hcall => step_stakingContract (exec_step hcall) hs) calls hstart
  refine passes_ok (hauth src List.mem_cons_self) hunsigned hx haccounts (fun a ha => ?_) hfits
  exact {
    solvent := run_solvent h calls hcalls
    fees := hfees
    held := hheld
    other := by
      rintro rfl
      exact hsrc ha
    signed := hauth a (List.mem_cons_of_mem src ha)
    unstaked := hunstaked a ha
    unclaimed := hunclaimed a ha }

theorem holding_claims_again_sample :
    let v := run (exec sampleDeployment) sampleWorld sampleCalls
    let passes := [7, 8, 9].flatMap (pass ⟨[2, 7, 8, 9], 9, 0⟩ 2 0 100)
    ghostLog (exec sampleDeployment) claims v passes =
        [7, 8, 9].map (fun a => ⟨a, 0, (v.fees.weekFees.amount 0 * 100).tdiv
          (v.staking.getTotalStaked + 100)⟩) ∧
      ∀ b, (run (exec sampleDeployment) v passes).token.balance b = v.token.balance b :=
  holding_claims_again sampleDeployment sampleWorld_deployed sampleCalls sampleCalls_nonNeg
    (by decide) (by decide) (by decide) 0 (by decide) (by decide +kernel) (by decide +kernel)
    (by decide +kernel) (by decide +kernel)

end YieldEngine.Governance
