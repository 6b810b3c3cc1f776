import YieldEngine.GovernanceRuns

/-! # The supply of the governance token

The token keeps its supply beside the balances.  No call changes the difference of the two
(`step_gap`), so it is what `initialize` left: nothing when the four wallets are distinct, and
otherwise the allocations that were overwritten in a wallet named twice.

What a holder has who signs nothing changes only by direct transfers and mints to him
(`balance_of_quiet_holder`).  These may be negative: an account that signs a transfer of a negative
amount takes tokens of the payee, and one account can take those of all (`takes_all`). -/

namespace YieldEngine.Governance

open CheckedArith Transact GovernanceToken

/-! ### Supply and balances -/

/-- The supply that no balance accounts for. -/
def gap (t : GovernanceToken.Store) : ℤ := t.totalSupply - t.balances.total id

theorem gap_moved (t : GovernanceToken.Store) (sender recipient : Address) (amount : ℤ) :
    gap (t.moved sender recipient amount) = gap t := by
  unfold gap
  rw [Store.moved, SortedMap.total_moved]
  rfl

theorem gap_written (t : GovernanceToken.Store) (a : GovernanceToken.Action) :
    gap (written t a) = gap t := by
  cases a with
  | transfer sender recipient amount => exact gap_moved t sender recipient amount
  | mint admin recipient amount =>
      simp only [written, gap, SortedMap.total_credit, Store.totalSupply, Option.getD_some]
      ring
  | burn sender amount =>
      simp only [written, gap, SortedMap.total_credit, Store.totalSupply, Option.getD_some]
      ring
  | delegate sender recipient => rfl
  | approve sender spender amount => rfl

variable {d : Deployment} {w w' : World}

/-- The token after a call that did not go to it: nothing happened, or an amount the payer had was
moved between two parties, each of them a signer of the call or a contract. -/
inductive Outside (d : Deployment) (e : GovEnv) (t : GovernanceToken.Store) :
    GovernanceToken.Store → Prop
  | kept : Outside d e t t
  | moved {sender recipient : Address} {amount : ℤ}
      (hsender : sender ∈ e.auths ∨ sender = d.staking ∨ sender = d.escrow)
      (hrecipient : recipient ∈ e.auths ∨ recipient = d.staking ∨ recipient = d.escrow)
      (hpaid : amount ≤ t.balance sender) :
      Outside d e t (t.moved sender recipient amount)

/-- What a returning call does to the token. -/
theorem step_token {e : GovEnv} {a : Action} (h : Step d w e a w') :
    (∃ b, a = .token b ∧ Returns e w.token b w'.token) ∨
      ((∀ b, a ≠ .token b) ∧ Outside d e w.token w'.token) := by
  cases h with
  | token h => exact .inl ⟨_, rfl, h⟩
  | staking h =>
      refine .inr ⟨fun b => by simp, ?_⟩
      cases h with
      | stake hauth hpaid => exact .moved (.inl hauth) (.inr (.inl rfl)) hpaid
      | unstake hauth _ hpaid => exact .moved (.inr (.inl rfl)) (.inl hauth) hpaid
      | claimRewards hauth hpaid =>
          dsimp only
          unfold StakingContract.paidReward
          split_ifs with hpending
          · exact .moved (.inr (.inl rfl)) (.inl hauth) (hpaid hpending)
          · exact .kept
  | fees h => exact .inr ⟨fun b => by simp, .kept⟩
  | governor h => exact .inr ⟨fun b => by simp, .kept⟩
  | escrow h =>
      refine .inr ⟨fun b => by simp, ?_⟩
      cases h with
      | createLock hauth _ _ hpaid => exact .moved (.inl hauth) (.inr (.inr rfl)) hpaid
      | increaseLock hauth _ hpaid => exact .moved (.inl hauth) (.inr (.inr rfl)) hpaid
      | extendLock _ _ _ => exact .kept
      | withdraw hauth _ hpaid => exact .moved (.inr (.inr rfl)) (.inl hauth) hpaid
      | delegate _ _ => exact .kept
  | multisig h => exact .inr ⟨fun b => by simp, .kept⟩

theorem step_gap {e : GovEnv} {a : Action} (h : Step d w e a w') : gap w'.token = gap w.token := by
  obtain ⟨b, -, hb⟩ | ⟨-, houtside⟩ := step_token h
  · rw [hb.eq_written, gap_written]
  · generalize w'.token = t at houtside
    cases houtside with
    | kept => rfl
    | moved _ _ _ => exact gap_moved _ _ _ _

/-- What a call adds to the supply. -/
def issued (_ : World) (c : GovEnv × Action) : List ℤ :=
  match c.2 with
  | .token (.mint _ _ amount) => [amount]
  | .token (.burn _ amount) => [-amount]
  | _ => []

theorem step_supply {c : GovEnv × Action} (h : Step d w c.1 c.2 w') :
    w'.token.totalSupply = w.token.totalSupply + (issued w c).sum := by
  obtain ⟨e, a⟩ := c
  obtain ⟨b, hb, hreturns⟩ | ⟨hother, houtside⟩ := step_token h
  · dsimp only at hb
    subst hb
    rw [hreturns.eq_written]
    cases b with
    | mint admin recipient amount => simp [issued, written, Store.totalSupply]
    | burn sender amount =>
        simp only [issued, written, Store.totalSupply, Option.getD_some, List.sum_cons,
          List.sum_nil, add_zero]
        ring
    | _ => exact (add_zero _).symm
  · have hnone : issued w (e, a) = [] := by
      cases a with
      | token b => exact absurd rfl (hother b)
      | _ => rfl
    rw [hnone, List.sum_nil, add_zero]
    generalize w'.token = t at houtside
    cases houtside with
    | kept => rfl
    | moved _ _ _ => rfl

/-- The allocations of `initialize`, by wallet. -/
def allocations (communityWallet teamWallet treasuryWallet liquidityMiningWallet : Address) :
    List (Address × ℤ) :=
  [(communityWallet, communityAllocation * scale), (teamWallet, teamAllocation * scale),
    (treasuryWallet, treasuryAllocation * scale),
    (liquidityMiningWallet, liquidityMiningAllocation * scale)]

theorem initializeToken_ok {e : GovEnv} {s s' : GovernanceToken.Store}
    {admin community team treasury liquidity : Address}
    (h : initializeToken e s admin community team treasury liquidity = .ok s') :
    s'.totalSupply = totalSupplyTokens * scale ∧
      s'.balances = (allocations community team treasury liquidity).foldl
        (fun m p => m.set p.1 p.2) s.balances := by
  simp only [initializeToken, bind_eq_ok, GovEnv.requireAuth_eq_ok, checkedU_eq_ok, pure_eq_ok,
    exists_const] at h
  obtain ⟨-, _, ⟨-, rfl⟩, rfl⟩ := h
  exact ⟨rfl, rfl⟩

/-- The balances of the token as it is deployed. -/
theorem deployed_balances {e : GovEnv} {p : Parties} (h : deployed e d p = .ok w) :
    w.token.totalSupply = totalSupplyTokens * scale ∧
      w.token.balances = SortedMap.overwrite (allocations p.communityWallet p.teamWallet
        p.treasuryWallet p.liquidityMiningWallet) :=
  initializeToken_ok (deployed_ok h).1

theorem allocations_pos (community team treasury liquidity : Address) :
    ∀ q ∈ allocations community team treasury liquidity, 0 < q.2 := by
  simp [allocations, communityAllocation, teamAllocation, treasuryAllocation,
    liquidityMiningAllocation, scale]

/-- They are within the supply, and make it up exactly when the wallets are distinct. -/
theorem deployed_total {e : GovEnv} {p : Parties} (h : deployed e d p = .ok w) :
    w.token.balances.total id ≤ totalSupplyTokens * scale ∧
      (w.token.balances.total id = totalSupplyTokens * scale ↔ p.wallets.Nodup) := by
  rw [(deployed_balances h).2]
  exact SortedMap.total_overwrite_le (allocations_pos _ _ _ _)

/-- None of them is overdrawn. -/
theorem deployed_balance_nonneg {e : GovEnv} {p : Parties} (h : deployed e d p = .ok w)
    (a : Address) : 0 ≤ w.token.balance a := by
  have hamount := SortedMap.amount_overwrite (allocations_pos p.communityWallet p.teamWallet
    p.treasuryWallet p.liquidityMiningWallet) a
  rw [Store.balance, (deployed_balances h).2]
  split_ifs at hamount
  · exact hamount.le
  · exact hamount.ge

/-- After every run of the deployed contracts, the supply is what was allocated, minted and not
burned; the balances never exceed it, and they make it up exactly when the four wallets of the
initialization are distinct. -/
theorem supply_follows_balances {e : GovEnv} {p : Parties} {w : World} (d : Deployment)
    (h : deployed e d p = .ok w) (calls : List (GovEnv × Action)) :
    let t := (run (exec d) w calls).token
    t.totalSupply = totalSupplyTokens * scale + (ghostLog (exec d) issued w calls).sum ∧
      t.balances.total id ≤ t.totalSupply ∧
        (t.balances.total id = t.totalSupply ↔ p.wallets.Nodup) := by
  have hsupply := (deployed_balances h).1
  obtain ⟨hle, hiff⟩ := deployed_total h
  have hgap : gap (run (exec d) w calls).token = gap w.token :=
    run_invariant (I := fun v => gap v.token = gap w.token)
      (fun s c s' hs hcall => (step_gap (exec_step hcall)).trans hs) calls rfl
  have hissued : (run (exec d) w calls).token.totalSupply =
      w.token.totalSupply + ([] ++ ghostLog (exec d) issued w calls).sum :=
    run_log_invariant (Q := fun _ _ => True)
      (I := fun log v => v.token.totalSupply = w.token.totalSupply + log.sum)
      (fun log s c s' hs _ hcall => by
        rw [step_supply (exec_step hcall), hs, List.sum_append, add_assoc])
      calls w [] (add_zero _).symm (along_true calls w)
  rw [List.nil_append, hsupply] at hissued
  unfold gap at hgap
  rw [hsupply] at hgap
  refine ⟨hissued, by omega, ?_⟩
  rw [← hiff]
  omega

theorem supply_follows_balances_sample :
    let calls := [(sampleEnv, Action.token (.mint 1 7 50))]
    let t := (run (exec sampleDeployment) sampleWorld calls).token
    t.totalSupply = totalSupplyTokens * scale +
        (ghostLog (exec sampleDeployment) issued sampleWorld calls).sum ∧
      t.balances.total id ≤ t.totalSupply ∧
        (t.balances.total id = t.totalSupply ↔ sampleParties.wallets.Nodup) :=
  supply_follows_balances sampleDeployment sampleWorld_deployed _

/-! ### A holder who signs nothing -/

/-- What a call hands to `holder` directly. -/
def received (holder : Address) (_ : World) (c : GovEnv × Action) : List ℤ :=
  match c.2 with
  | .token (.transfer _ recipient amount) => if recipient = holder then [amount] else []
  | .token (.mint _ recipient amount) => if recipient = holder then [amount] else []
  | _ => []

theorem balance_moved_of_ne (t : GovernanceToken.Store) {sender recipient holder : Address}
    (amount : ℤ) (hsender : holder ≠ sender) (hrecipient : holder ≠ recipient) :
    (t.moved sender recipient amount).balance holder = t.balance holder := by
  rw [Store.balance, Store.moved, SortedMap.amount_credit_of_ne _ _ hrecipient,
    SortedMap.amount_credit_of_ne _ _ hsender]
  rfl

/-- What a call of the token does to the balance of an address that does not sign it. -/
theorem written_balance {e : GovEnv} {b : GovernanceToken.Action} {holder : Address}
    (hsigner : holder ≠ b.signer) : (written w.token b).balance holder =
      w.token.balance holder + (received holder w (e, .token b)).sum := by
  cases b with
  | mint admin recipient amount =>
      simp only [received, written, Store.balance, SortedMap.amount_credit]
      by_cases hr : holder = recipient
      · simp [hr]
      · simp [hr, Ne.symm hr]
  | burn sender amount =>
      simp only [received, written, Store.balance, List.sum_nil, add_zero]
      exact SortedMap.amount_credit_of_ne _ _ hsigner
  | transfer sender recipient amount =>
      have hsender : holder ≠ sender := hsigner
      simp only [received, written]
      by_cases hr : holder = recipient
      · subst hr
        rw [if_pos rfl, Store.balance, Store.moved, SortedMap.amount_credit_self,
          SortedMap.amount_credit_of_ne _ _ hsender, List.sum_singleton]
        rfl
      · rw [if_neg (Ne.symm hr), balance_moved_of_ne _ _ hsender hr, List.sum_nil, add_zero]
  | _ => exact (add_zero _).symm

theorem step_balance {c : GovEnv × Action} {holder : Address} (h : Step d w c.1 c.2 w')
    (hquiet : holder ∉ c.1.auths) (hstaking : holder ≠ d.staking) (hescrow : holder ≠ d.escrow) :
    w'.token.balance holder = w.token.balance holder + (received holder w c).sum := by
  obtain ⟨e, a⟩ := c
  have hparty : ∀ x, x ∈ e.auths ∨ x = d.staking ∨ x = d.escrow → holder ≠ x := by
    rintro x (hx | rfl | rfl)
    · rintro rfl
      exact hquiet hx
    · exact hstaking
    · exact hescrow
  obtain ⟨b, hb, hreturns⟩ | ⟨hother, houtside⟩ := step_token h
  · dsimp only at hb
    subst hb
    rw [hreturns.eq_written]
    exact written_balance (hparty _ (.inl hreturns.signed))
  · have hnone : received holder w (e, a) = [] := by
      cases a with
      | token b => exact absurd rfl (hother b)
      | _ => rfl
    rw [hnone, List.sum_nil, add_zero]
    generalize w'.token = t at houtside
    cases houtside with
    | kept => rfl
    | moved hs hr _ => exact balance_moved_of_ne _ _ (hparty _ hs) (hparty _ hr)

/-- Over every run in which he signs nothing, the balance of a holder changes by what returning
transfers and mints handed to him, negative amounts included, and by nothing else. -/
theorem balance_of_quiet_holder (d : Deployment) {holder : Address} (hstaking : holder ≠ d.staking)
    (hescrow : holder ≠ d.escrow) (w : World) (calls : List (GovEnv × Action))
    (hquiet : ∀ c ∈ calls, holder ∉ c.1.auths) :
    (run (exec d) w calls).token.balance holder =
      w.token.balance holder + (ghostLog (exec d) (received holder) w calls).sum :=
  run_log_invariant (Q := fun _ c => holder ∉ c.1.auths)
    (I := fun log v => v.token.balance holder = w.token.balance holder + log.sum)
    (fun log s c s' hs hq hcall => by
      rw [step_balance (exec_step hcall) hq hstaking hescrow, hs, List.sum_append, add_assoc])
    calls w [] (add_zero _).symm (along_of_forall calls w hquiet)

theorem balance_of_quiet_holder_sample :
    let calls := [(sampleEnv, Action.token (.transfer 2 9 (-50)))]
    ∀ w : World, (run (exec sampleDeployment) w calls).token.balance 9 =
      w.token.balance 9 + (ghostLog (exec sampleDeployment) (received 9) w calls).sum :=
  fun w => balance_of_quiet_holder sampleDeployment (by decide) (by decide) w _ (by decide)

/-! ### Negative transfers -/

/-- A transfer of a negative amount returns and takes it out of the account of the payee, who
signs nothing. -/
theorem transfer_takes {t : GovernanceToken.Store} {e : GovEnv} {taker holder : Address} {n : ℤ}
    (hauth : taker ∈ e.auths) (hne : holder ≠ taker) (htaker : 0 ≤ t.balance taker) (hn : 0 ≤ n)
    (hholder : Fits 128 (t.balance holder - n)) (hfits : Fits 128 (t.balance taker + n)) :
    transfer e t taker holder (-n) = .ok (t.moved taker holder (-n)) := by
  refine transfer_eq_ok.mpr ⟨hauth, by omega, ?_, ?_, rfl⟩
  · rwa [sub_neg_eq_add]
  · rw [Store.balance, Store.moved, SortedMap.amount_credit_self,
      SortedMap.amount_credit_of_ne _ _ hne, ← sub_eq_add_neg]
    exact hholder

/-- The calls by which one account takes its amount from each of the holders. -/
def takings (e : GovEnv) (amounts : Address → ℤ) (taker : Address) (holders : List Address) :
    List (GovEnv × Action) :=
  holders.map fun holder => (e, .token (.transfer taker holder (-amounts holder)))

/-- The balances after a holder was emptied. -/
theorem balance_taken (t : GovernanceToken.Store) {taker holder : Address} (hne : holder ≠ taker)
    (a : Address) : (t.moved taker holder (-t.balance holder)).balance a =
      if a = holder then 0 else if a = taker then t.balance taker + t.balance holder
      else t.balance a := by
  rw [Store.balance, Store.moved, neg_neg, SortedMap.amount_credit]
  split_ifs with hholder htaker
  · rw [SortedMap.amount_credit_of_ne _ _ hne]
    exact add_neg_cancel _
  · rw [htaker, SortedMap.amount_credit_self]
    rfl
  · rw [SortedMap.amount_credit_of_ne _ _ htaker]
    rfl

/-- One of these calls. -/
theorem exec_taking {e : GovEnv} {taker holder : Address} (hauth : taker ∈ e.auths)
    (hne : holder ≠ taker) (hnonneg : ∀ a, 0 ≤ w.token.balance a)
    (hfits : Fits 128 (w.token.balances.total id)) :
    exec d w (e, .token (.transfer taker holder (-w.token.balance holder))) =
      .ok { w with token := w.token.moved taker holder (-w.token.balance holder) } := by
  have hpair := SortedMap.amount_add_amount_le_total hnonneg (Ne.symm hne)
  have htransfer : GovernanceToken.exec e w.token
      (.transfer taker holder (-w.token.balance holder)) =
        .ok (w.token.moved taker holder (-w.token.balance holder)) := by
    apply transfer_takes hauth hne (hnonneg taker) (hnonneg holder)
    · rw [sub_self]
      decide
    · exact hfits.of_le (add_nonneg (hnonneg taker) (hnonneg holder)) hpair
  simp only [exec, htransfer]
  rfl

/-- While no account is overdrawn, one account that signs for itself alone can empty all others:
after one transfer of a negative amount to each of the holders he has what they had. -/
theorem takes_all (d : Deployment) {e : GovEnv} {taker : Address} (hauth : taker ∈ e.auths)
    (amounts : Address → ℤ) (holders : List Address) : ∀ w : World,
      (∀ a, 0 ≤ w.token.balance a) → Fits 128 (w.token.balances.total id) →
      (taker :: holders).Nodup → (∀ holder ∈ holders, w.token.balance holder = amounts holder) →
      ∀ a, (run (exec d) w (takings e amounts taker holders)).token.balance a =
        if a ∈ holders then 0
        else if a = taker then w.token.balance taker + (holders.map amounts).sum
        else w.token.balance a := by
  induction holders with
  | nil =>
      intro w _ _ _ _ a
      simp only [takings, List.map_nil, run_nil, List.not_mem_nil, if_false, List.sum_nil, add_zero]
      split_ifs with ha
      · rw [ha]
      · rfl
  | cons holder rest ih =>
      intro w hnonneg hfits hnodup hamounts a
      obtain ⟨hfresh, hrest⟩ := List.nodup_cons.mp hnodup
      obtain ⟨hholder, hnodup⟩ := List.nodup_cons.mp hrest
      have hne : holder ≠ taker := fun h => hfresh (h ▸ List.mem_cons_self)
      have hfirst := hamounts holder List.mem_cons_self
      have hbalance := balance_taken w.token hne
      have hcall := exec_taking (d := d) hauth hne hnonneg hfits
      rw [hfirst] at hbalance hcall
      have hnext : ∀ a, 0 ≤ (w.token.moved taker holder (-amounts holder)).balance a := by
        intro a
        have htaker := hnonneg taker
        have hamount := hnonneg holder
        have ha := hnonneg a
        rw [hbalance]
        split_ifs <;> omega
      have htotal : Fits 128 ((w.token.moved taker holder (-amounts holder)).balances.total id) := by
        rw [Store.moved, SortedMap.total_moved]
        exact hfits
      have hlater : ∀ b ∈ rest,
          (w.token.moved taker holder (-amounts holder)).balance b = amounts b := by
        intro b hb
        have hother : b ≠ holder := fun h => hholder (h ▸ hb)
        have htaker : b ≠ taker := fun h => hfresh (h ▸ List.mem_cons_of_mem _ hb)
        rw [hbalance, if_neg hother, if_neg htaker]
        exact hamounts b (List.mem_cons_of_mem _ hb)
      have hrun := ih { w with token := w.token.moved taker holder (-amounts holder) } hnext htotal
        (List.nodup_cons.mpr ⟨fun h => hfresh (List.mem_cons_of_mem _ h), hnodup⟩) hlater a
      rw [takings, List.map_cons, run_cons, commit_of_ok hcall]
      refine hrun.trans ?_
      dsimp only
      rw [hbalance a, hbalance taker, if_neg (Ne.symm hne), if_pos rfl, List.map_cons,
        List.sum_cons]
      by_cases harest : a ∈ rest
      · rw [if_pos harest, if_pos (List.mem_cons_of_mem _ harest)]
      · rw [if_neg harest]
        by_cases haholder : a = holder
        · subst haholder
          rw [if_neg hne, if_pos rfl, if_pos List.mem_cons_self]
        · have hmem : a ∉ holder :: rest := by simp [haholder, harest]
          rw [if_neg hmem, if_neg haholder]
          split_ifs
          · ring
          · rfl

theorem takes_all_sample :
    (run (exec sampleDeployment) sampleWorld
        (takings ⟨[9], 0, 0⟩ sampleWorld.token.balance 9 sampleParties.wallets)).token.balance 9 =
      sampleWorld.token.balance 9 + (sampleParties.wallets.map sampleWorld.token.balance).sum := by
  have hfits : Fits 128 (totalSupplyTokens * scale) := by decide
  have hnonneg := deployed_balance_nonneg sampleWorld_deployed
  have hauth : 9 ∈ (⟨[9], 0, 0⟩ : GovEnv).auths := List.mem_cons_self
  have htakes := takes_all sampleDeployment hauth sampleWorld.token.balance
    sampleParties.wallets sampleWorld hnonneg
    (hfits.of_le (SortedMap.total_amounts_nonneg hnonneg) (deployed_total sampleWorld_deployed).1)
    (by decide) (fun _ _ => rfl) 9
  have hthief : 9 ∉ sampleParties.wallets := by decide
  rwa [if_neg hthief, if_pos rfl] at htakes

end YieldEngine.Governance
