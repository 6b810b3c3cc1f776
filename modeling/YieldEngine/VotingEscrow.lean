import YieldEngine.GovernanceToken

/-! # The voting escrow

`VotingEscrow` holds governance tokens under locks of one week to four years.  Its storage is
`VotingEscrow.Store`; the entrypoints that move tokens also take the storage of the token and the
address of the escrow, which authorises its own payments.

Voting power decays linearly to the end of the lock; what others delegated to a user is added to it
and taken off nobody. -/

namespace YieldEngine.VotingEscrow

open CheckedArith

def maxBoostMultiplier : ℤ := 2500
def maxVoteDuration : ℕ := 126144000
def minVoteDuration : ℕ := 604800

/-- The storage of the escrow. -/
structure Store where
  lockedAmounts : SortedMap Address ℤ
  lockStarts : SortedMap Address ℕ
  lockEnds : SortedMap Address ℕ
  supply : Option ℤ
  supplyAt : SortedMap ℕ ℤ
  delegatedFrom : SortedMap Address ℤ
  delegatedTo : SortedMap Address ℤ
  governanceToken : Option Address

namespace Store

/-- The storage of a deployed contract before its first invocation. -/
def fresh : Store where
  lockedAmounts := SortedMap.empty
  lockStarts := SortedMap.empty
  lockEnds := SortedMap.empty
  supply := none
  supplyAt := SortedMap.empty
  delegatedFrom := SortedMap.empty
  delegatedTo := SortedMap.empty
  governanceToken := none

variable (s : Store)

/-- `governance_token`; `unwrap` of a missing cell traps. -/
def getGovernanceToken : GovCall Address :=
  orRaise s.governanceToken (.panic "called `Option::unwrap()` on a `None` value")

def lockedAmount (user : Address) : ℤ := s.lockedAmounts.amount user

def lockStart (user : Address) : ℕ := (s.lockStarts.get user).getD 0

def lockEnd (user : Address) : ℕ := (s.lockEnds.get user).getD 0

def getTotalSupply : ℤ := s.supply.getD 0

/-- `get_lock_info`. -/
def getLockInfo (user : Address) : ℤ × ℕ × ℕ :=
  (s.lockedAmount user, s.lockStart user, s.lockEnd user)

/-- `get_voting_power`. -/
def getVotingPower (e : GovEnv) (user : Address) : GovCall ℤ :=
  let amount := s.lockedAmount user
  let lockEnd := s.lockEnd user
  if lockEnd ≤ e.timestamp ∨ amount = 0 then pure 0
  else do
    let remainingTime := lockEnd - e.timestamp
    let scaled ← I128.mul amount remainingTime
    let votingPower ← I128.div scaled maxVoteDuration
    I128.add votingPower (s.delegatedTo.amount user)

/-- `get_boosted_balance`. -/
def getBoostedBalance (e : GovEnv) (user : Address) : GovCall ℤ :=
  let amount := s.lockedAmount user
  let lockEnd := s.lockEnd user
  if lockEnd ≤ e.timestamp ∨ amount = 0 then pure 0
  else do
    let lockDuration ← checkedU 64 ((lockEnd : ℤ) - s.lockStart user)
    let scaled ← I128.mul lockDuration 10000
    let durationFactor ← I128.div scaled maxVoteDuration
    let weighted ← I128.mul durationFactor 1500
    let extra ← I128.div weighted 10000
    let boost ← I128.add 10000 extra
    let multiplied ← I128.mul amount boost
    let boosted ← I128.div multiplied 10000
    let capped ← I128.mul amount maxBoostMultiplier
    let maxBoosted ← I128.div capped 10000
    pure (if boosted < maxBoosted then boosted else maxBoosted)

/-- `get_boost_multiplier`; a multiplier that is no `u32` reads as the base multiplier. -/
def getBoostMultiplier (e : GovEnv) (user : Address) : GovCall ℤ := do
  let boosted ← s.getBoostedBalance e user
  let locked := s.lockedAmount user
  if locked = 0 then pure 10000
  else do
    let scaled ← I128.mul boosted 10000
    let multiplier ← I128.div scaled locked
    pure (if FitsU 32 multiplier then multiplier else 10000)

end Store

/-! ### Entrypoints -/

/-- `initialize`. -/
def initializeEscrow (s : Store) (governanceToken : Address) : Store :=
  { s with governanceToken := some governanceToken, supply := some 0 }

section entrypoints
variable (escrow : Address) (e : GovEnv) (token : GovernanceToken.Store) (s : Store)

/-- `create_lock`. -/
def createLock (user : Address) (amount : ℤ) (duration : ℕ) :
    GovCall (GovernanceToken.Store × Store) := do
  e.requireAuth user
  require (¬ (duration < minVoteDuration ∨ duration > maxVoteDuration))
    (.panic "lock duration must be between 1 week and 4 years")
  require (s.lockEnd user ≤ e.timestamp) (.panic "existing lock must be withdrawn first")
  let _ ← s.getGovernanceToken
  let token ← GovernanceToken.transfer (e.calledBy escrow) token user escrow amount
  let lockEnd ← checkedU 64 (e.timestamp + duration : ℕ)
  let total ← I128.add s.getTotalSupply amount
  pure (token, { s with
    lockedAmounts := s.lockedAmounts.set user amount
    lockStarts := s.lockStarts.set user e.timestamp
    lockEnds := s.lockEnds.set user lockEnd.toNat
    supply := some total
    supplyAt := s.supplyAt.set e.timestamp total })

/-- `increase_lock`. -/
def increaseLock (user : Address) (amount : ℤ) : GovCall (GovernanceToken.Store × Store) := do
  e.requireAuth user
  require (¬ s.lockEnd user ≤ e.timestamp) (.panic "lock expired, must create new lock")
  let _ ← s.getGovernanceToken
  let token ← GovernanceToken.transfer (e.calledBy escrow) token user escrow amount
  let locked ← I128.add (s.lockedAmount user) amount
  let total ← I128.add s.getTotalSupply amount
  pure (token, { s with lockedAmounts := s.lockedAmounts.set user locked, supply := some total })

/-- `extend_lock`. -/
def extendLock (user : Address) (newDuration : ℕ) : GovCall Store := do
  e.requireAuth user
  require (¬ (newDuration < minVoteDuration ∨ newDuration > maxVoteDuration))
    (.panic "lock duration must be between 1 week and 4 years")
  let existingLockDuration := s.lockEnd user - s.lockStart user
  require (¬ newDuration < existingLockDuration) (.panic "cannot shorten lock duration")
  let newLockEnd ← checkedU 64 (e.timestamp + newDuration : ℕ)
  pure { s with lockEnds := s.lockEnds.set user newLockEnd.toNat }

/-- `withdraw`. -/
def withdraw (user : Address) : GovCall (GovernanceToken.Store × Store) := do
  e.requireAuth user
  require (s.lockEnd user ≤ e.timestamp) (.panic "lock has not expired")
  let amount := s.lockedAmount user
  let _ ← s.getGovernanceToken
  let token ← GovernanceToken.transfer (e.calledBy escrow) token escrow user amount
  let total ← I128.sub s.getTotalSupply amount
  pure (token, { s with
    lockedAmounts := s.lockedAmounts.set user 0
    lockStarts := s.lockStarts.set user 0
    lockEnds := s.lockEnds.set user 0
    supply := some total })

/-- `delegate`. -/
def delegate (sender recipient : Address) (amount : ℤ) : GovCall Store := do
  e.requireAuth sender
  let votingPower ← s.getVotingPower e sender
  require (amount ≤ votingPower) (.panic "insufficient voting power to delegate")
  let delegatedFrom ← I128.add (s.delegatedFrom.amount sender) amount
  let delegatedTo ← I128.add (s.delegatedTo.amount recipient) amount
  pure { s with
    delegatedFrom := s.delegatedFrom.set sender delegatedFrom
    delegatedTo := s.delegatedTo.set recipient delegatedTo }

/-- The writing entrypoints other than `initialize`. -/
inductive Action where
  | createLock (user : Address) (amount : ℤ) (duration : ℕ)
  | increaseLock (user : Address) (amount : ℤ)
  | extendLock (user : Address) (newDuration : ℕ)
  | withdraw (user : Address)
  | delegate (sender recipient : Address) (amount : ℤ)
deriving DecidableEq, Repr

def exec : Action → GovCall (GovernanceToken.Store × Store)
  | .createLock user amount duration => createLock escrow e token s user amount duration
  | .increaseLock user amount => increaseLock escrow e token s user amount
  | .extendLock user newDuration => (token, ·) <$> extendLock e s user newDuration
  | .withdraw user => withdraw escrow e token s user
  | .delegate sender recipient amount => (token, ·) <$> delegate e s sender recipient amount

end entrypoints

/-! ### What a returning call has checked and done -/

/-- The voting power at `now` as a value. -/
def Store.power (s : Store) (now : ℕ) (user : Address) : ℤ :=
  if s.lockEnd user ≤ now ∨ s.lockedAmount user = 0 then 0
  else (s.lockedAmount user * (s.lockEnd user - now : ℕ)).tdiv maxVoteDuration +
    s.delegatedTo.amount user

theorem getVotingPower_ok {s : Store} {e : GovEnv} {user : Address} {power : ℤ}
    (h : s.getVotingPower e user = .ok power) : power = s.power e.timestamp user := by
  simp only [Store.getVotingPower, ite_eq_ok, bind_eq_ok, I128.mul_eq_ok, I128.div_eq_ok,
    I128.add_eq_ok, pure_eq_ok] at h
  unfold Store.power
  obtain ⟨hover, rfl⟩ | ⟨hlocked, _, ⟨-, rfl⟩, _, ⟨-, -, rfl⟩, -, rfl⟩ := h
  · rw [if_pos hover]
  · rw [if_neg hlocked]

/-- The storage after a new lock. -/
def Store.opened (s : Store) (now : ℕ) (user : Address) (amount : ℤ) (duration : ℕ) : Store :=
  { s with
    lockedAmounts := s.lockedAmounts.set user amount
    lockStarts := s.lockStarts.set user now
    lockEnds := s.lockEnds.set user (now + duration)
    supply := some (s.getTotalSupply + amount)
    supplyAt := s.supplyAt.set now (s.getTotalSupply + amount) }

/-- The storage after a lock took more tokens. -/
def Store.increased (s : Store) (user : Address) (amount : ℤ) : Store :=
  { s with
    lockedAmounts := s.lockedAmounts.credit user amount
    supply := some (s.getTotalSupply + amount) }

/-- The storage after a lock was closed. -/
def Store.closed (s : Store) (user : Address) : Store :=
  { s with
    lockedAmounts := s.lockedAmounts.set user 0
    lockStarts := s.lockStarts.set user 0
    lockEnds := s.lockEnds.set user 0
    supply := some (s.getTotalSupply - s.lockedAmount user) }

/-- The storage after a delegation. -/
def Store.delegated (s : Store) (sender recipient : Address) (amount : ℤ) : Store :=
  { s with
    delegatedFrom := s.delegatedFrom.credit sender amount
    delegatedTo := s.delegatedTo.credit recipient amount }

/-- What a returning call has checked and done. -/
inductive Effect (escrow : Address) (e : GovEnv) (token : GovernanceToken.Store) (s : Store) :
    Action → GovernanceToken.Store → Store → Prop
  | createLock {user : Address} {amount : ℤ} {duration : ℕ} (hauth : user ∈ e.auths)
      (hduration : minVoteDuration ≤ duration ∧ duration ≤ maxVoteDuration)
      (hended : s.lockEnd user ≤ e.timestamp) (hpaid : amount ≤ token.balance user) :
      Effect escrow e token s (.createLock user amount duration) (token.moved user escrow amount)
        (s.opened e.timestamp user amount duration)
  | increaseLock {user : Address} {amount : ℤ} (hauth : user ∈ e.auths)
      (hrunning : e.timestamp < s.lockEnd user) (hpaid : amount ≤ token.balance user) :
      Effect escrow e token s (.increaseLock user amount) (token.moved user escrow amount)
        (s.increased user amount)
  | extendLock {user : Address} {newDuration : ℕ} (hauth : user ∈ e.auths)
      (hduration : minVoteDuration ≤ newDuration ∧ newDuration ≤ maxVoteDuration)
      (hlonger : s.lockEnd user - s.lockStart user ≤ newDuration) :
      Effect escrow e token s (.extendLock user newDuration) token
        { s with lockEnds := s.lockEnds.set user (e.timestamp + newDuration) }
  | withdraw {user : Address} (hauth : user ∈ e.auths) (hended : s.lockEnd user ≤ e.timestamp)
      (hpaid : s.lockedAmount user ≤ token.balance escrow) :
      Effect escrow e token s (.withdraw user) (token.moved escrow user (s.lockedAmount user))
        (s.closed user)
  | delegate {sender recipient : Address} {amount : ℤ} (hauth : sender ∈ e.auths)
      (hpower : amount ≤ s.power e.timestamp sender) :
      Effect escrow e token s (.delegate sender recipient amount) token
        (s.delegated sender recipient amount)

theorem exec_effect {escrow : Address} {e : GovEnv} {token token' : GovernanceToken.Store}
    {s s' : Store} {a : Action} (h : exec escrow e token s a = .ok (token', s')) :
    Effect escrow e token s a token' s' := by
  cases a with
  | createLock user amount duration =>
      simp only [exec, createLock, bind_eq_ok, GovEnv.requireAuth_eq_ok, require_eq_ok,
        GovernanceToken.transfer_eq_ok, checkedU_eq_ok, I128.add_eq_ok, pure_eq_ok,
        exists_const] at h
      obtain ⟨hauth, hduration, hended, _, -, _, ⟨-, hpaid, -, -, rfl⟩, _, ⟨-, rfl⟩, _, ⟨-, rfl⟩,
        heq⟩ := h
      obtain ⟨rfl, rfl⟩ := Prod.mk.inj heq
      exact .createLock hauth (by omega) hended hpaid
  | increaseLock user amount =>
      simp only [exec, increaseLock, bind_eq_ok, GovEnv.requireAuth_eq_ok, require_eq_ok,
        GovernanceToken.transfer_eq_ok, I128.add_eq_ok, pure_eq_ok, exists_const] at h
      obtain ⟨hauth, hrunning, _, -, _, ⟨-, hpaid, -, -, rfl⟩, _, ⟨-, rfl⟩, _, ⟨-, rfl⟩, heq⟩ := h
      obtain ⟨rfl, rfl⟩ := Prod.mk.inj heq
      exact .increaseLock hauth (not_le.mp hrunning) hpaid
  | extendLock user newDuration =>
      simp only [exec, extendLock, map_eq_ok, bind_eq_ok, GovEnv.requireAuth_eq_ok, require_eq_ok,
        checkedU_eq_ok, pure_eq_ok, exists_const] at h
      obtain ⟨_, ⟨hauth, hduration, hlonger, _, ⟨-, rfl⟩, rfl⟩, heq⟩ := h
      obtain ⟨rfl, rfl⟩ := Prod.mk.inj heq
      exact .extendLock hauth (by omega) (not_lt.mp hlonger)
  | withdraw user =>
      simp only [exec, withdraw, bind_eq_ok, GovEnv.requireAuth_eq_ok, require_eq_ok,
        GovernanceToken.transfer_eq_ok, I128.sub_eq_ok, pure_eq_ok, exists_const] at h
      obtain ⟨hauth, hended, _, -, _, ⟨-, hpaid, -, -, rfl⟩, _, ⟨-, rfl⟩, heq⟩ := h
      obtain ⟨rfl, rfl⟩ := Prod.mk.inj heq
      exact .withdraw hauth hended hpaid
  | delegate sender recipient amount =>
      simp only [exec, delegate, map_eq_ok, bind_eq_ok, GovEnv.requireAuth_eq_ok, require_eq_ok,
        I128.add_eq_ok, pure_eq_ok, exists_const] at h
      obtain ⟨_, ⟨hauth, power, hpower, hle, _, ⟨-, rfl⟩, _, ⟨-, rfl⟩, rfl⟩, heq⟩ := h
      obtain ⟨rfl, rfl⟩ := Prod.mk.inj heq
      rw [getVotingPower_ok hpower] at hle
      exact .delegate hauth hle

end YieldEngine.VotingEscrow
