import YieldEngine.GovernanceSupply
import YieldEngine.PooledAccounts

/-! # What the escrow and the staking contract hold

Both contracts are pools: `escrowPool` has the locks as its accounts and the total supply of the
escrow as its record, `stakingPool` the stakes and the total staked.  Every returning call makes
the moves of `escrowMoves` and `stakingMoves` (`step_escrowPool`, `step_stakingPool`), so the books
of pools hold of whole runs (`locks_accounted`, `stakes_accounted`).

A new lock over an ended one replaces it: what was locked before stays in the escrow for nobody.
The reward rate of the staking contract stays zero, so a claim of rewards pays nothing. -/

namespace YieldEngine.Governance

open CheckedArith Transact GovernanceToken SortedMap PooledAccounts

variable {d : Deployment} {w w' : World}

/-- A balance whose owner is paid by another address. -/
theorem balance_moved_to (t : GovernanceToken.Store) {sender recipient : Address} (amount : ℤ)
    (hne : recipient ≠ sender) :
    (t.moved sender recipient amount).balance recipient = t.balance recipient + amount := by
  rw [Store.balance, Store.moved, amount_credit_self, amount_credit_of_ne _ _ hne]
  rfl

/-- A balance whose owner pays another address. -/
theorem balance_moved_from (t : GovernanceToken.Store) {sender recipient : Address} (amount : ℤ)
    (hne : sender ≠ recipient) :
    (t.moved sender recipient amount).balance sender = t.balance sender - amount := by
  rw [Store.balance, Store.moved, amount_credit_of_ne _ _ hne, amount_credit_self]
  rfl

/-! ### The escrow -/

/-- The escrow as a pool. -/
def escrowPool (d : Deployment) (w : World) : Pool Address :=
  ⟨w.escrow.lockedAmounts, w.escrow.getTotalSupply, w.token.balance d.escrow⟩

/-- What a call does to it. -/
def escrowMoves (d : Deployment) (w : World) (c : GovEnv × Action) : List (Move Address) :=
  match c.2 with
  | .escrow (.createLock user amount _) => [.reopen user amount]
  | .escrow (.increaseLock user amount) => [.deposit user amount]
  | .escrow (.withdraw user) => [.withdraw user (w.escrow.lockedAmount user)]
  | _ => (received d.escrow w c).map .gift

/-- One call makes these moves. -/
theorem step_escrowPool {c : GovEnv × Action} (h : Step d w c.1 c.2 w')
    (hunsigned : Unsigned d c.1) :
    escrowPool d w' = (escrowPool d w).after (escrowMoves d w c) := by
  obtain ⟨e, a⟩ := c
  have hother : ∀ user ∈ e.auths, d.escrow ≠ user := fun user hu heq => hunsigned.2 (heq ▸ hu)
  cases h with
  | @token b t h =>
      have hbalance := written_balance (w := w) (e := e) (hother _ h.signed)
      rw [← h.eq_written] at hbalance
      dsimp only [escrowMoves]
      rw [Pool.after_gifts]
      simp only [escrowPool, hbalance]
  | staking h =>
      have hkept : ∀ user ∈ e.auths, ∀ amount,
          (w.token.moved user d.staking amount).balance d.escrow = w.token.balance d.escrow ∧
            (w.token.moved d.staking user amount).balance d.escrow = w.token.balance d.escrow :=
        fun user hu amount =>
          ⟨balance_moved_of_ne _ _ (hother user hu) d.distinct.symm,
            balance_moved_of_ne _ _ d.distinct.symm (hother user hu)⟩
      cases h with
      | @stake user amount hauth _ =>
          exact congrArg (Pool.mk _ _) (hkept user hauth amount).1
      | @unstake user amount hauth _ _ =>
          exact congrArg (Pool.mk _ _) (hkept user hauth amount).2
      | @claimRewards user hauth _ =>
          refine congrArg (Pool.mk _ _) ?_
          unfold StakingContract.paidReward
          split_ifs
          · exact (hkept user hauth _).2
          · rfl
  | fees h => rfl
  | governor h => rfl
  | escrow h =>
      cases h with
      | @createLock user amount duration hauth _ _ _ =>
          exact congrArg (Pool.mk _ _) (balance_moved_to _ _ (hother user hauth))
      | @increaseLock user amount hauth _ _ =>
          exact congrArg (Pool.mk _ _) (balance_moved_to _ _ (hother user hauth))
      | extendLock _ _ _ => rfl
      | @withdraw user hauth _ _ =>
          have hclosed : w.escrow.lockedAmounts.credit user (-w.escrow.lockedAmount user) =
              w.escrow.lockedAmounts.set user 0 := by
            rw [credit, VotingEscrow.Store.lockedAmount, add_neg_cancel]
          have hbalance := balance_moved_from w.token (w.escrow.lockedAmount user)
            (hother user hauth)
          simp only [escrowPool, escrowMoves, Pool.after, List.foldl_cons, List.foldl_nil,
            Pool.apply, VotingEscrow.Store.closed, hclosed, hbalance]
          rfl
      | delegate _ _ => rfl
  | multisig h => rfl

/-! ### The staking contract -/

/-- The staking contract as a pool. -/
def stakingPool (d : Deployment) (w : World) : Pool Address :=
  ⟨w.staking.stakes, w.staking.getTotalStaked, w.token.balance d.staking⟩

/-- What a call does to it. -/
def stakingMoves (d : Deployment) (w : World) (c : GovEnv × Action) : List (Move Address) :=
  match c.2 with
  | .staking (.stake user amount) => [.deposit user amount]
  | .staking (.unstake user amount) => [.withdraw user amount]
  | _ => (received d.staking w c).map .gift

/-- The reward rate is zero and nothing has accrued. -/
structure NoRewards (s : StakingContract.Store) : Prop where
  rate : s.rewardPerToken.getD 0 = 0
  accrued : ∀ user, s.accruedRewards.amount user = 0

theorem NoRewards.pending {s : StakingContract.Store} (h : NoRewards s) (now : ℕ) (user : Address) :
    s.pending now user = 0 := by
  rw [StakingContract.Store.pending, h.rate, h.accrued, mul_zero, add_zero]

theorem step_noRewards {e : GovEnv} {a : Action} (h : Step d w e a w') (hs : NoRewards w.staking) :
    NoRewards w'.staking := by
  cases h with
  | staking h =>
      cases h with
      | stake _ _ => exact ⟨hs.rate, hs.accrued⟩
      | unstake _ _ _ => exact ⟨hs.rate, hs.accrued⟩
      | @claimRewards user _ _ =>
          refine ⟨hs.rate, fun other => ?_⟩
          simp only [StakingContract.Store.claimed, amount_set]
          split_ifs
          · rfl
          · exact hs.accrued other
  | _ => exact hs

/-- One call makes these moves. -/
theorem step_stakingPool {c : GovEnv × Action} (h : Step d w c.1 c.2 w')
    (hunsigned : Unsigned d c.1) (hs : NoRewards w.staking) :
    stakingPool d w' = (stakingPool d w).after (stakingMoves d w c) := by
  obtain ⟨e, a⟩ := c
  have hother : ∀ user ∈ e.auths, d.staking ≠ user := fun user hu heq => hunsigned.1 (heq ▸ hu)
  cases h with
  | @token b t h =>
      have hbalance := written_balance (w := w) (e := e) (hother _ h.signed)
      rw [← h.eq_written] at hbalance
      dsimp only [stakingMoves]
      rw [Pool.after_gifts]
      simp only [stakingPool, hbalance]
  | staking h =>
      cases h with
      | @stake user amount hauth _ =>
          exact congrArg (Pool.mk _ _) (balance_moved_to _ _ (hother user hauth))
      | @unstake user amount hauth _ _ =>
          exact congrArg (Pool.mk _ _) (balance_moved_from _ _ (hother user hauth))
      | @claimRewards user hauth _ =>
          refine congrArg (Pool.mk _ _) ?_
          rw [hs.pending, StakingContract.paidReward, if_neg (lt_irrefl 0)]
  | fees h => rfl
  | governor h => rfl
  | escrow h =>
      have hkept : ∀ user ∈ e.auths, ∀ amount,
          (w.token.moved user d.escrow amount).balance d.staking = w.token.balance d.staking ∧
            (w.token.moved d.escrow user amount).balance d.staking = w.token.balance d.staking :=
        fun user hu amount =>
          ⟨balance_moved_of_ne _ _ (hother user hu) d.distinct,
            balance_moved_of_ne _ _ d.distinct (hother user hu)⟩
      cases h with
      | @createLock user amount duration hauth _ _ _ =>
          exact congrArg (Pool.mk _ _) (hkept user hauth amount).1
      | @increaseLock user amount hauth _ _ =>
          exact congrArg (Pool.mk _ _) (hkept user hauth amount).1
      | extendLock _ _ _ => rfl
      | @withdraw user hauth _ _ => exact congrArg (Pool.mk _ _) (hkept user hauth _).2
      | delegate _ _ => rfl
  | multisig h => rfl

/-! ### The books over whole runs -/

/-- The escrow as a pool after a run is the pool before it after the moves of the run. -/
theorem run_escrowPool (calls : List (GovEnv × Action)) (hunsigned : ∀ c ∈ calls, Unsigned d c.1)
    (w : World) : escrowPool d (run (exec d) w calls) =
      (escrowPool d w).after (ghostLog (exec d) (escrowMoves d) w calls) :=
  run_log_invariant (Q := fun _ c => Unsigned d c.1)
    (I := fun moves v => escrowPool d v = (escrowPool d w).after moves)
    (fun moves s c s' hs hc hcall => by
      rw [step_escrowPool (exec_step hcall) hc, hs, Pool.after_append])
    calls w [] rfl (along_of_forall calls w hunsigned)

theorem run_noRewards (calls : List (GovEnv × Action)) {w : World} (h : NoRewards w.staking) :
    NoRewards (run (exec d) w calls).staking :=
  run_invariant (I := fun v => NoRewards v.staking)
    (fun _ _ _ hs hcall => step_noRewards (exec_step hcall) hs) calls h

/-- So is the staking contract while there are no rewards. -/
theorem run_stakingPool (calls : List (GovEnv × Action)) (hunsigned : ∀ c ∈ calls, Unsigned d c.1)
    {w : World} (h : NoRewards w.staking) : stakingPool d (run (exec d) w calls) =
      (stakingPool d w).after (ghostLog (exec d) (stakingMoves d) w calls) :=
  (run_log_invariant (Q := fun _ c => Unsigned d c.1)
    (I := fun moves v => NoRewards v.staking ∧ stakingPool d v = (stakingPool d w).after moves)
    (fun moves s c s' hs hc hcall => by
      refine ⟨step_noRewards (exec_step hcall) hs.1, ?_⟩
      rw [step_stakingPool (exec_step hcall) hc hs.1, hs.2, Pool.after_append])
    calls w [] ⟨h, rfl⟩ (along_of_forall calls w hunsigned)).2

theorem deployed_escrowPool {e : GovEnv} {p : Parties} (h : deployed e d p = .ok w) :
    escrowPool d w = ⟨SortedMap.empty, 0, w.token.balance d.escrow⟩ := by
  rw [escrowPool, (deployed_ok h).2.2.2.2.1]
  rfl

theorem deployed_stakingPool {e : GovEnv} {p : Parties} (h : deployed e d p = .ok w) :
    stakingPool d w = ⟨SortedMap.empty, 0, w.token.balance d.staking⟩ := by
  rw [stakingPool, (deployed_ok h).2.1]
  rfl

theorem deployed_noRewards {e : GovEnv} {p : Parties} (h : deployed e d p = .ok w) :
    NoRewards w.staking := by
  rw [(deployed_ok h).2.1]
  exact ⟨rfl, fun _ => rfl⟩

/-- In every state of every run in which the contracts sign nothing: the escrow holds its supply
and what it was handed directly, its supply is what is locked and what new locks replaced, and
what a user locked is locked still, was paid back or was replaced. -/
theorem locks_accounted {e : GovEnv} {p : Parties} {w : World} (d : Deployment)
    (h : deployed e d p = .ok w) (calls : List (GovEnv × Action))
    (hunsigned : ∀ c ∈ calls, Unsigned d c.1) :
    let v := run (exec d) w calls
    let moves := ghostLog (exec d) (escrowMoves d) w calls
    let lost := (escrowPool d w).replaced moves
    v.token.balance d.escrow =
        w.token.balance d.escrow + v.escrow.getTotalSupply + (gifts moves).sum ∧
      v.escrow.getTotalSupply = v.escrow.lockedAmounts.total id + (lost.map Prod.snd).sum ∧
        ∀ user, sumAt user (putIn moves) =
          v.escrow.lockedAmount user + sumAt user (takenOut moves) + sumAt user lost := by
  have hrun := run_escrowPool calls hunsigned w
  have hheld := Pool.held_after (ghostLog (exec d) (escrowMoves d) w calls) (escrowPool d w)
  have hrecorded := Pool.recorded_after (ghostLog (exec d) (escrowMoves d) w calls)
    (escrowPool d w)
  have hamount := fun user => Pool.amount_after user
    (ghostLog (exec d) (escrowMoves d) w calls) (escrowPool d w)
  rw [← hrun] at hheld hrecorded
  simp only [← hrun] at hamount
  rw [deployed_escrowPool h] at hheld hrecorded hamount ⊢
  simp only [escrowPool, SortedMap.total_empty, amount_empty] at hheld hrecorded hamount
  refine ⟨by linarith, by linarith, fun user => ?_⟩
  have huser := hamount user
  rw [VotingEscrow.Store.lockedAmount]
  linarith

/-- A claim without rewards. -/
theorem claimRewards_nothing {staking : Address} {e : GovEnv} {token : GovernanceToken.Store}
    {s : StakingContract.Store} {user : Address} {r : GovernanceToken.Store × StakingContract.Store}
    {paid : ℤ} (hs : NoRewards s)
    (h : StakingContract.claimRewards staking e token s user = .ok (r, paid)) :
    paid = 0 ∧ r.1 = token := by
  simp only [StakingContract.claimRewards, bind_eq_ok, ite_eq_ok, pure_eq_ok] at h
  obtain ⟨_, -, pending, hpending, hbranch⟩ := h
  have hzero : pending = 0 := by
    rw [StakingContract.pendingRewards_ok hpending, hs.pending]
  obtain ⟨hpos, -⟩ | ⟨-, heq⟩ := hbranch
  · rw [hzero] at hpos
    exact absurd hpos (lt_irrefl 0)
  · obtain ⟨rfl, rfl⟩ := Prod.mk.inj heq
    exact ⟨hzero, rfl⟩

theorem stakingMoves_keep (w : World) (c : GovEnv × Action) :
    ∀ m ∈ stakingMoves d w c, ∀ user x, m ≠ .reopen user x := by
  intro m hm user x
  rintro rfl
  unfold stakingMoves at hm
  split at hm <;> simp at hm

/-- In every state of every run in which the contracts sign nothing: the total staked is the sum of
the stakes, the staking contract holds it and what it was handed directly, a stake is what was put
in less what was taken out, and a claim of rewards pays nothing. -/
theorem stakes_accounted {e : GovEnv} {p : Parties} {w : World} (d : Deployment)
    (h : deployed e d p = .ok w) (calls : List (GovEnv × Action))
    (hunsigned : ∀ c ∈ calls, Unsigned d c.1) :
    let v := run (exec d) w calls
    let moves := ghostLog (exec d) (stakingMoves d) w calls
    v.token.balance d.staking =
        w.token.balance d.staking + v.staking.getTotalStaked + (gifts moves).sum ∧
      v.staking.getTotalStaked = v.staking.stakes.total id ∧
        (∀ user, sumAt user (putIn moves) =
          v.staking.getStakeBalance user + sumAt user (takenOut moves)) ∧
          ∀ e' user r paid, StakingContract.claimRewards d.staking e' v.token v.staking user =
            .ok (r, paid) → paid = 0 ∧ r.1 = v.token := by
  have hrewards := deployed_noRewards h
  have hrun := run_stakingPool calls hunsigned hrewards
  have hkeep : (stakingPool d w).replaced (ghostLog (exec d) (stakingMoves d) w calls) = [] :=
    Pool.replaced_eq_nil _ (forall_mem_ghostLog stakingMoves_keep calls w) _
  have hheld := Pool.held_after (ghostLog (exec d) (stakingMoves d) w calls) (stakingPool d w)
  have hrecorded := Pool.recorded_after (ghostLog (exec d) (stakingMoves d) w calls)
    (stakingPool d w)
  have hamount := fun user => Pool.amount_after user
    (ghostLog (exec d) (stakingMoves d) w calls) (stakingPool d w)
  simp only [hkeep] at hrecorded hamount
  rw [← hrun] at hheld hrecorded
  simp only [← hrun] at hamount
  rw [deployed_stakingPool h] at hheld hrecorded hamount
  simp only [stakingPool, SortedMap.total_empty, amount_empty, List.map_nil, List.sum_nil]
    at hheld hrecorded hamount
  refine ⟨by linarith, by linarith, fun user => ?_, fun e' user r paid hclaim => ?_⟩
  · have huser := hamount user
    simp only [sumAt, List.map_nil, List.sum_nil] at huser ⊢
    rw [StakingContract.Store.getStakeBalance]
    linarith
  · exact claimRewards_nothing (run_noRewards calls hrewards) hclaim

/-- Wallet `2` locks and stakes. -/
def sampleCalls : List (GovEnv × Action) :=
  [(⟨[2], 0, 0⟩, .escrow (.createLock 2 50 604800)), (⟨[2], 0, 0⟩, .staking (.stake 2 70))]

theorem sampleCalls_unsigned : ∀ c ∈ sampleCalls, Unsigned sampleDeployment c.1 := by
  decide

theorem locks_accounted_sample :
    let v := run (exec sampleDeployment) sampleWorld sampleCalls
    let moves :=
      ghostLog (exec sampleDeployment) (escrowMoves sampleDeployment) sampleWorld sampleCalls
    let lost := (escrowPool sampleDeployment sampleWorld).replaced moves
    v.token.balance 102 =
        sampleWorld.token.balance 102 + v.escrow.getTotalSupply + (gifts moves).sum ∧
      v.escrow.getTotalSupply = v.escrow.lockedAmounts.total id + (lost.map Prod.snd).sum ∧
        ∀ user, sumAt user (putIn moves) =
          v.escrow.lockedAmount user + sumAt user (takenOut moves) + sumAt user lost :=
  locks_accounted sampleDeployment sampleWorld_deployed sampleCalls sampleCalls_unsigned

theorem stakes_accounted_sample :
    let v := run (exec sampleDeployment) sampleWorld sampleCalls
    let moves :=
      ghostLog (exec sampleDeployment) (stakingMoves sampleDeployment) sampleWorld sampleCalls
    v.token.balance 101 =
        sampleWorld.token.balance 101 + v.staking.getTotalStaked + (gifts moves).sum ∧
      v.staking.getTotalStaked = v.staking.stakes.total id ∧
        (∀ user, sumAt user (putIn moves) =
          v.staking.getStakeBalance user + sumAt user (takenOut moves)) ∧
          ∀ e' user r paid, StakingContract.claimRewards 101 e' v.token v.staking user =
            .ok (r, paid) → paid = 0 ∧ r.1 = v.token :=
  stakes_accounted sampleDeployment sampleWorld_deployed sampleCalls sampleCalls_unsigned

end YieldEngine.Governance
