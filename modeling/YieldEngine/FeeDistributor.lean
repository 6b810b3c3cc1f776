import YieldEngine.StakingContract

/-! # The fee distributor

`FeeDistributor` books the fees the treasury reports, by weeks of the ledger clock, and works out
the share of a staker from his stake at the time he asks.  A claim is booked; no tokens move. -/

namespace YieldEngine.FeeDistributor

open CheckedArith

def secondsPerWeek : ℕ := 604800

/-- The storage of the fee distributor. -/
structure Store where
  treasury : Option Address
  stakingContract : Option Address
  totalFeesCollected : Option ℤ
  weekFees : SortedMap ℕ ℤ
  weekStarts : SortedMap ℕ ℕ
  userClaimedWeek : SortedMap (Address ×ₗ ℕ) Bool
  accumulatedFeesPerStake : Option ℤ
  lastDistributionTime : Option ℕ

namespace Store

/-- The storage of a deployed contract before its first invocation. -/
def fresh : Store where
  treasury := none
  stakingContract := none
  totalFeesCollected := none
  weekFees := SortedMap.empty
  weekStarts := SortedMap.empty
  userClaimedWeek := SortedMap.empty
  accumulatedFeesPerStake := none
  lastDistributionTime := none

variable (s : Store)

/-- `treasury`; `unwrap` of a missing cell traps. -/
def getTreasury : GovCall Address :=
  orRaise s.treasury (.panic "called `Option::unwrap()` on a `None` value")

/-- `staking_contract`; `unwrap` of a missing cell traps. -/
def getStakingContract : GovCall Address :=
  orRaise s.stakingContract (.panic "called `Option::unwrap()` on a `None` value")

def getTotalFeesCollected : ℤ := s.totalFeesCollected.getD 0

/-- `UserClaimedWeek`, false where nothing is stored. -/
def hasClaimed (user : Address) (week : ℕ) : Bool :=
  (s.userClaimedWeek.get (toLex (user, week))).getD false

/-- `get_week_start`; the default is computed also where a start is stored. -/
def getWeekStart (week : ℕ) : GovCall ℕ := do
  let default ← checkedU 64 (week * secondsPerWeek : ℕ)
  pure ((s.weekStarts.get week).getD default.toNat)

end Store

/-- `timestamp / SECONDS_PER_WEEK`. -/
def currentWeek (e : GovEnv) : ℕ := e.timestamp / secondsPerWeek

/-- A staker's part of a week's fees. -/
def shareOf (s : Store) (userStake totalStake : ℤ) (week : ℕ) : GovCall ℤ := do
  let scaled ← I128.mul (s.weekFees.amount week) userStake
  I128.div scaled totalStake

/-! ### Entrypoints -/

/-- `initialize`. -/
def initializeDistributor (e : GovEnv) (s : Store) (treasury stakingContract : Address) : Store :=
  { s with
    treasury := some treasury
    stakingContract := some stakingContract
    totalFeesCollected := some 0
    accumulatedFeesPerStake := some 0
    lastDistributionTime := some e.timestamp }

/-- `record_week_start`. -/
def recordWeekStart (s : Store) (week : ℕ) : GovCall Store :=
  if (s.weekStarts.get week).isNone then do
    let start ← checkedU 64 (week * secondsPerWeek : ℕ)
    pure { s with weekStarts := s.weekStarts.set week start.toNat }
  else pure s

/-- `collect_fees`. -/
def collectFees (e : GovEnv) (s : Store) (caller : Address) (amount : ℤ) : GovCall Store := do
  e.requireAuth caller
  let treasury ← s.getTreasury
  require (caller = treasury) (.panic "unauthorized: treasury required")
  let total ← I128.add s.getTotalFeesCollected amount
  let s := { s with totalFeesCollected := some total }
  let s ← recordWeekStart s (currentWeek e)
  let weekFees ← I128.add (s.weekFees.amount (currentWeek e)) amount
  pure { s with weekFees := s.weekFees.set (currentWeek e) weekFees }

/-- `claim_week`, returning the share; without any stake nothing is booked. -/
def claimWeek (e : GovEnv) (staking : StakingContract.Store) (s : Store) (user : Address)
    (week : ℕ) : GovCall (Store × ℤ) := do
  e.requireAuth user
  require (s.hasClaimed user week = false) (.panic "already claimed for this week")
  let _ ← s.getStakingContract
  let userStake := staking.getStakeBalance user
  let totalStake := staking.getTotalStaked
  if totalStake = 0 then pure (s, 0)
  else do
    let userShare ← shareOf s userStake totalStake week
    pure ({ s with userClaimedWeek := s.userClaimedWeek.set (toLex (user, week)) true }, userShare)

/-- The round of `get_claimable_fees` for one week. -/
def addClaimable (s : Store) (user : Address) (userStake totalStake : ℤ) (totalClaimable : ℤ)
    (week : ℕ) : GovCall ℤ :=
  if s.hasClaimed user week then pure totalClaimable
  else do
    let share ← shareOf s userStake totalStake week
    I128.add totalClaimable share

/-- The 52 weeks up to `week`, as far as they exist. -/
def lastWeeks (week : ℕ) : List ℕ := List.range' (week - 51) (week + 1 - (week - 51))

/-- `get_claimable_fees`. -/
def getClaimableFees (e : GovEnv) (staking : StakingContract.Store) (s : Store) (user : Address) :
    GovCall ℤ := do
  let _ ← s.getStakingContract
  let userStake := staking.getStakeBalance user
  let totalStake := staking.getTotalStaked
  if totalStake = 0 ∨ userStake = 0 then pure 0
  else (lastWeeks (currentWeek e)).foldlM (addClaimable s user userStake totalStake) 0

/-- The writing entrypoints other than `initialize`. -/
inductive Action where
  | collectFees (caller : Address) (amount : ℤ)
  | claimWeek (user : Address) (week : ℕ)
deriving DecidableEq, Repr

def exec (e : GovEnv) (staking : StakingContract.Store) (s : Store) : Action → GovCall Store
  | .collectFees caller amount => collectFees e s caller amount
  | .claimWeek user week => Prod.fst <$> claimWeek e staking s user week

/-! ### What a returning call has checked and done -/

/-- The storage with the start of a week on record. -/
def Store.started (s : Store) (week : ℕ) : Store :=
  if (s.weekStarts.get week).isNone then
    { s with weekStarts := s.weekStarts.set week (week * secondsPerWeek) }
  else s

/-- The storage after fees were booked. -/
def Store.collected (s : Store) (week : ℕ) (amount : ℤ) : Store :=
  { s.started week with
    totalFeesCollected := some (s.getTotalFeesCollected + amount)
    weekFees := s.weekFees.credit week amount }

/-- The storage after a claim was booked. -/
def Store.marked (s : Store) (user : Address) (week : ℕ) : Store :=
  { s with userClaimedWeek := s.userClaimedWeek.set (toLex (user, week)) true }

/-- A staker's part of a week's fees as a value. -/
def share (s : Store) (staking : StakingContract.Store) (user : Address) (week : ℕ) : ℤ :=
  (s.weekFees.amount week * staking.getStakeBalance user).tdiv staking.getTotalStaked

theorem collectFees_ok {e : GovEnv} {s s' : Store} {caller : Address} {amount : ℤ}
    (h : collectFees e s caller amount = .ok s') :
    caller ∈ e.auths ∧ s.treasury = some caller ∧ s' = s.collected (currentWeek e) amount := by
  simp only [collectFees, recordWeekStart, bind_eq_ok, GovEnv.requireAuth_eq_ok, require_eq_ok,
    Store.getTreasury, orRaise_eq_ok, I128.add_eq_ok, ite_eq_ok, checkedU_eq_ok, pure_eq_ok,
    exists_const] at h
  obtain ⟨hauth, treasury, htreasury, rfl, _, ⟨-, rfl⟩, _, hstart, _, ⟨-, rfl⟩, rfl⟩ := h
  refine ⟨hauth, htreasury, ?_⟩
  unfold Store.collected Store.started
  obtain ⟨hnone, _, ⟨-, rfl⟩, rfl⟩ | ⟨hsome, rfl⟩ := hstart
  · rw [if_pos hnone]
    rfl
  · rw [if_neg hsome]
    rfl

theorem claimWeek_ok {e : GovEnv} {staking : StakingContract.Store} {s s' : Store}
    {user : Address} {week : ℕ} {paid : ℤ}
    (h : claimWeek e staking s user week = .ok (s', paid)) :
    user ∈ e.auths ∧ s.hasClaimed user week = false ∧
      (staking.getTotalStaked = 0 ∧ s' = s ∧ paid = 0 ∨
        staking.getTotalStaked ≠ 0 ∧ s' = s.marked user week ∧
          paid = share s staking user week) := by
  simp only [claimWeek, shareOf, bind_eq_ok, GovEnv.requireAuth_eq_ok, require_eq_ok, ite_eq_ok,
    I128.mul_eq_ok, I128.div_eq_ok, pure_eq_ok, exists_const] at h
  obtain ⟨hauth, hnew, _, -, ⟨hzero, heq⟩ | ⟨hstake, _, ⟨_, ⟨-, rfl⟩, -, -, rfl⟩, heq⟩⟩ := h
  · obtain ⟨rfl, rfl⟩ := Prod.mk.inj heq
    exact ⟨hauth, hnew, .inl ⟨hzero, rfl, rfl⟩⟩
  · obtain ⟨rfl, rfl⟩ := Prod.mk.inj heq
    exact ⟨hauth, hnew, .inr ⟨hstake, rfl, rfl⟩⟩

end YieldEngine.FeeDistributor
