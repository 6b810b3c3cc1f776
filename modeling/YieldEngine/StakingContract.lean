import YieldEngine.GovernanceToken

/-! # The staking contract

`StakingContract` holds the governance tokens of its stakers.  It keeps a stake for each user, the
sum of all stakes and a reward rate, which `initialize` sets to zero and no entrypoint writes. -/

namespace YieldEngine.StakingContract

open CheckedArith

/-- The storage of the staking contract. -/
structure Store where
  stakes : SortedMap Address ℤ
  stakeStarts : SortedMap Address ℕ
  totalStaked : Option ℤ
  accruedRewards : SortedMap Address ℤ
  lastClaimTimes : SortedMap Address ℕ
  rewardPerToken : Option ℤ
  governanceToken : Option Address

namespace Store

/-- The storage of a deployed contract before its first invocation. -/
def fresh : Store where
  stakes := SortedMap.empty
  stakeStarts := SortedMap.empty
  totalStaked := none
  accruedRewards := SortedMap.empty
  lastClaimTimes := SortedMap.empty
  rewardPerToken := none
  governanceToken := none

variable (s : Store)

/-- `governance_token`; `unwrap` of a missing cell traps. -/
def getGovernanceToken : GovCall Address :=
  orRaise s.governanceToken (.panic "called `Option::unwrap()` on a `None` value")

def getStakeBalance (user : Address) : ℤ := s.stakes.amount user

def getTotalStaked : ℤ := s.totalStaked.getD 0

/-- `pending_rewards`; the time elapsed is a saturating difference. -/
def pendingRewards (e : GovEnv) (user : Address) : GovCall ℤ := do
  let timeElapsed := e.timestamp - (s.lastClaimTimes.get user).getD 0
  let weighted ← I128.mul (s.getStakeBalance user) timeElapsed
  let rewards ← I128.mul weighted (s.rewardPerToken.getD 0)
  I128.add rewards (s.accruedRewards.amount user)

end Store

/-! ### Entrypoints -/

/-- `initialize`; the address of the fee distributor is not stored. -/
def initializeStaking (s : Store) (governanceToken : Address) : Store :=
  { s with
    governanceToken := some governanceToken
    rewardPerToken := some 0
    totalStaked := some 0 }

section entrypoints
variable (staking : Address) (e : GovEnv) (token : GovernanceToken.Store) (s : Store)

/-- `stake`. -/
def stake (user : Address) (amount : ℤ) : GovCall (GovernanceToken.Store × Store) := do
  e.requireAuth user
  let _ ← s.getGovernanceToken
  let token ← GovernanceToken.transfer (e.calledBy staking) token user staking amount
  let stakeBalance ← I128.add (s.getStakeBalance user) amount
  let totalStaked ← I128.add s.getTotalStaked amount
  pure (token, { s with
    stakes := s.stakes.set user stakeBalance
    totalStaked := some totalStaked
    stakeStarts := s.stakeStarts.set user e.timestamp })

/-- `unstake`. -/
def unstake (user : Address) (amount : ℤ) : GovCall (GovernanceToken.Store × Store) := do
  e.requireAuth user
  require (amount ≤ s.getStakeBalance user) (.panic "insufficient staked balance")
  let stakeBalance ← I128.sub (s.getStakeBalance user) amount
  let totalStaked ← I128.sub s.getTotalStaked amount
  let _ ← s.getGovernanceToken
  let token ← GovernanceToken.transfer (e.calledBy staking) token staking user amount
  pure (token, { s with
    stakes := s.stakes.set user stakeBalance
    totalStaked := some totalStaked })

/-- `claim_rewards`, returning what was paid. -/
def claimRewards (user : Address) : GovCall ((GovernanceToken.Store × Store) × ℤ) := do
  e.requireAuth user
  let pending ← s.pendingRewards e user
  let s := { s with
    accruedRewards := s.accruedRewards.set user 0
    lastClaimTimes := s.lastClaimTimes.set user e.timestamp }
  if pending > 0 then do
    let _ ← s.getGovernanceToken
    let token ← GovernanceToken.transfer (e.calledBy staking) token staking user pending
    pure ((token, s), pending)
  else pure ((token, s), pending)

/-- The writing entrypoints other than `initialize`. -/
inductive Action where
  | stake (user : Address) (amount : ℤ)
  | unstake (user : Address) (amount : ℤ)
  | claimRewards (user : Address)
deriving DecidableEq, Repr

def exec : Action → GovCall (GovernanceToken.Store × Store)
  | .stake user amount => stake staking e token s user amount
  | .unstake user amount => unstake staking e token s user amount
  | .claimRewards user => Prod.fst <$> claimRewards staking e token s user

end entrypoints

/-! ### What a returning call has checked and done -/

/-- The storage after a stake. -/
def Store.staked (s : Store) (now : ℕ) (user : Address) (amount : ℤ) : Store :=
  { s with
    stakes := s.stakes.credit user amount
    totalStaked := some (s.getTotalStaked + amount)
    stakeStarts := s.stakeStarts.set user now }

/-- The storage after an unstake. -/
def Store.unstaked (s : Store) (user : Address) (amount : ℤ) : Store :=
  { s with
    stakes := s.stakes.credit user (-amount)
    totalStaked := some (s.getTotalStaked - amount) }

/-- The storage after a claim. -/
def Store.claimed (s : Store) (now : ℕ) (user : Address) : Store :=
  { s with
    accruedRewards := s.accruedRewards.set user 0
    lastClaimTimes := s.lastClaimTimes.set user now }

/-- The pending rewards as a value. -/
def Store.pending (s : Store) (now : ℕ) (user : Address) : ℤ :=
  s.getStakeBalance user * (now - (s.lastClaimTimes.get user).getD 0 : ℕ) *
    s.rewardPerToken.getD 0 + s.accruedRewards.amount user

theorem pendingRewards_ok {s : Store} {e : GovEnv} {user : Address} {pending : ℤ}
    (h : s.pendingRewards e user = .ok pending) : pending = s.pending e.timestamp user := by
  simp only [Store.pendingRewards, bind_eq_ok, I128.mul_eq_ok, I128.add_eq_ok] at h
  obtain ⟨_, ⟨-, rfl⟩, _, ⟨-, rfl⟩, -, rfl⟩ := h
  rfl

/-- The tokens a claim moves: pending rewards if they are positive. -/
def paidReward (staking : Address) (token : GovernanceToken.Store) (user : Address)
    (pending : ℤ) : GovernanceToken.Store :=
  if pending > 0 then token.moved staking user pending else token

/-- What a returning call has checked and done. -/
inductive Effect (staking : Address) (e : GovEnv) (token : GovernanceToken.Store) (s : Store) :
    Action → GovernanceToken.Store → Store → Prop
  | stake {user : Address} {amount : ℤ} (hauth : user ∈ e.auths)
      (hpaid : amount ≤ token.balance user) :
      Effect staking e token s (.stake user amount) (token.moved user staking amount)
        (s.staked e.timestamp user amount)
  | unstake {user : Address} {amount : ℤ} (hauth : user ∈ e.auths)
      (hcovered : amount ≤ s.getStakeBalance user) (hpaid : amount ≤ token.balance staking) :
      Effect staking e token s (.unstake user amount) (token.moved staking user amount)
        (s.unstaked user amount)
  | claimRewards {user : Address} (hauth : user ∈ e.auths)
      (hpaid : s.pending e.timestamp user > 0 →
        s.pending e.timestamp user ≤ token.balance staking) :
      Effect staking e token s (.claimRewards user)
        (paidReward staking token user (s.pending e.timestamp user))
        (s.claimed e.timestamp user)

theorem exec_effect {staking : Address} {e : GovEnv} {token token' : GovernanceToken.Store}
    {s s' : Store} {a : Action} (h : exec staking e token s a = .ok (token', s')) :
    Effect staking e token s a token' s' := by
  cases a with
  | stake user amount =>
      simp only [exec, stake, bind_eq_ok, GovEnv.requireAuth_eq_ok,
        GovernanceToken.transfer_eq_ok, I128.add_eq_ok, pure_eq_ok, exists_const] at h
      obtain ⟨hauth, _, -, _, ⟨-, hpaid, -, -, rfl⟩, _, ⟨-, rfl⟩, _, ⟨-, rfl⟩, heq⟩ := h
      obtain ⟨rfl, rfl⟩ := Prod.mk.inj heq
      exact .stake hauth hpaid
  | unstake user amount =>
      simp only [exec, unstake, bind_eq_ok, GovEnv.requireAuth_eq_ok, require_eq_ok,
        GovernanceToken.transfer_eq_ok, I128.sub_eq_ok, pure_eq_ok, exists_const] at h
      obtain ⟨hauth, hcovered, _, ⟨-, rfl⟩, _, ⟨-, rfl⟩, _, -, _, ⟨-, hpaid, -, -, rfl⟩, heq⟩ := h
      obtain ⟨rfl, rfl⟩ := Prod.mk.inj heq
      exact .unstake hauth hcovered hpaid
  | claimRewards user =>
      simp only [exec, claimRewards, map_eq_ok, bind_eq_ok, GovEnv.requireAuth_eq_ok, ite_eq_ok,
        GovernanceToken.transfer_eq_ok, pure_eq_ok, exists_const] at h
      obtain ⟨_, ⟨hauth, _, hpending, hpay⟩, heq⟩ := h
      obtain rfl := pendingRewards_ok hpending
      have hclaim := @Effect.claimRewards staking e token s user hauth
      unfold paidReward at hclaim
      rcases hpay with ⟨hpos, _, -, _, ⟨-, hpaid, -, -, rfl⟩, rfl⟩ | ⟨hnone, rfl⟩
      · obtain ⟨rfl, rfl⟩ := Prod.mk.inj heq
        rw [if_pos hpos] at hclaim
        exact hclaim fun _ => hpaid
      · obtain ⟨rfl, rfl⟩ := Prod.mk.inj heq
        rw [if_neg hnone] at hclaim
        exact hclaim fun hpos => absurd hpos hnone

end YieldEngine.StakingContract
