import YieldEngine.RewardCalls
import YieldEngine.Transact

/-! # Runs of the reward distributor

`RewardAction` lists every writing entrypoint of the distributor other than `initialize`, with
its arguments, and `exec` performs one invocation; the payouts it returns are those of the
claim it contains, if any.

What an invocation can do to the accounts of one user in one stream is said here once:
`updateRewards` sets the pending amount from the accumulator (`updateRewards_own`) and leaves
other users alone (`updateRewards_frame`), a claim pays a pending amount out in full or leaves
it alone (`ClaimFacts`), and everything else leaves it alone (`execAdmin_emission`).  Runs are
proved about by a case split on these three (`exec_effect`). -/

namespace YieldEngine.Rewards

open CheckedArith

/-- One invocation of the distributor. -/
inductive RewardAction where
  | addRewardStream (admin token : Address) (ratePerSecond : ℤ) (decimals claimDeadline : ℕ)
  | setClaimDeadline (admin : Address) (i claimDeadline : ℕ)
  | updateRewardRate (admin : Address) (i : ℕ) (newRatePerSecond : ℤ)
  | deactivateStream (admin : Address) (i : ℕ)
  | updateRewards (user vault : Address) (userShares : ℤ) (vaultShareDecimals : ℕ)
  | claimRewards (user vault : Address) (streamIndices : List ℕ) (convertTo : Option Address)
  | emergencyWithdraw (user vault : Address) (shares : ℤ)
  | completeEmergencyWithdrawal (user vault : Address)
  | setAutoCompoundConfig (user token : Address) (reinvestPercentage : ℕ) (enabled : Bool)
  | executeAutoCompound (user vault : Address) (streamIndices : List ℕ)
  | setPriceOracle (admin oracle : Address)
  | pause (admin : Address)
  | unpause (admin : Address)
  | enableEmergencyMode (admin : Address)
  | disableEmergencyMode (admin : Address)
  | updateDefaultSlippage (admin : Address) (newSlippageBps : ℕ)
  | fundRewardPool (admin token : Address) (amount : ℤ)
  | retryFailedSwaps (admin : Address) (maxRetries : ℕ)
  | upgrade (admin : Address)
  | migrate (admin : Address)
deriving DecidableEq, Repr

/-- An entrypoint that neither accrues nor claims: the state it leaves. -/
def execAdmin (e : Env) (w : RewardWorld) (action : RewardAction) : RewardCall RewardWorld :=
  let onStore := fun (c : RewardCall RewardStore) => (fun s => { w with store := s }) <$> c
  match action with
  | .updateRewards .. | .claimRewards .. | .executeAutoCompound .. => pure w
  | .addRewardStream admin token ratePerSecond decimals claimDeadline =>
      onStore (Prod.fst <$> addRewardStream e w.store admin token ratePerSecond decimals
        claimDeadline)
  | .setClaimDeadline admin i claimDeadline =>
      onStore (setClaimDeadline w.store admin i claimDeadline)
  | .updateRewardRate admin i newRatePerSecond =>
      onStore (updateRewardRate e w.store admin i newRatePerSecond)
  | .deactivateStream admin i => onStore (deactivateStream e w.store admin i)
  | .emergencyWithdraw user vault shares =>
      onStore (pure (emergencyWithdraw e w.store user vault shares))
  | .completeEmergencyWithdrawal user vault =>
      onStore (completeEmergencyWithdrawal w.store user vault)
  | .setAutoCompoundConfig user token reinvestPercentage enabled =>
      onStore (setAutoCompoundConfig w.store user token reinvestPercentage enabled)
  | .setPriceOracle admin oracle => onStore (setPriceOracle w.store admin oracle)
  | .pause admin => onStore (pause w.store admin)
  | .unpause admin => onStore (unpause w.store admin)
  | .enableEmergencyMode admin => onStore (enableEmergencyMode w.store admin)
  | .disableEmergencyMode admin => onStore (disableEmergencyMode w.store admin)
  | .updateDefaultSlippage admin newSlippageBps =>
      onStore (updateDefaultSlippage w.store admin newSlippageBps)
  | .fundRewardPool admin token amount => fundRewardPool e w admin token amount
  | .retryFailedSwaps admin maxRetries =>
      onStore (Prod.fst <$> retryFailedSwaps w.store admin maxRetries)
  | .upgrade admin => onStore (upgrade w.store admin)
  | .migrate admin => onStore (Prod.fst <$> migrate w.store admin)

/-- One invocation, with the payouts it makes. -/
def exec (w : RewardWorld) (c : Env × RewardAction) : RewardCall (RewardWorld × List ClaimPayout) :=
  match c.2 with
  | .updateRewards user vault userShares decimals =>
      (fun r => ({ w with store := r.1 }, [])) <$>
        updateRewards c.1 w.store user vault userShares decimals
  | .claimRewards user vault streamIndices convertTo =>
      (fun r => (r.1, r.2.payouts)) <$> claimRewards c.1 w user vault streamIndices convertTo
  | .executeAutoCompound user vault streamIndices =>
      (fun r => (r.1, r.2.2)) <$> executeAutoCompound c.1 w user vault streamIndices
  | action => (fun w => (w, [])) <$> execAdmin c.1 w action

/-- What happens around a deployed distributor: an invocation, or token movements outside it. -/
inductive RewardEvent where
  | call (e : Env) (action : RewardAction)
  | tokens (ledger : Ledger)

/-- One event of a run, without the payouts. -/
def rewardStep (w : RewardWorld) : RewardEvent → RewardCall RewardWorld
  | .call e action => Prod.fst <$> exec w (e, action)
  | .tokens ledger => pure { w with ledger := ledger }

/-- The storage after `initialize` on fresh storage. -/
def initialRewards (admin treasury swapRouter : Address) : RewardStore :=
  { RewardStore.fresh with
    initialized := some true
    admin := some admin
    treasury := some treasury
    swapRouter := some swapRouter
    paused := some false
    emergencyMode := some false
    defaultSlippage := some defaultMaxSlippageBps
    streams := some []
    nextSwapId := some 1
    version := some storageVersion }

theorem initializeRewards_fresh (admin treasury swapRouter : Address) :
    initializeRewards .fresh admin treasury swapRouter =
      .ok (initialRewards admin treasury swapRouter) := rfl

/-! ### Accrual -/

section accrual
variable {e : Env} {user : Address} {userShares totalShares : ℤ} {decimals : ℕ}

/-- The accumulator of a stream once the time up to `now` has been accrued. -/
def accruedPerShare (now : ℕ) (totalShares : ℤ) (decimals : ℕ) (stream : RewardStream)
    (accumulated : ℤ) : ℤ :=
  if 0 < (now : ℤ) - stream.lastUpdate ∧ 0 < totalShares then
    accumulated +
      (stream.ratePerSecond * (now - stream.lastUpdate) * 10 ^ decimals).tdiv totalShares
  else accumulated

theorem accrueStream_ok {s s' : RewardStore} {i : ℕ} {stream stream' : RewardStream}
    (h : accrueStream e s totalShares decimals i stream = .ok (s', stream')) :
    s'.debts = s.debts ∧ stream'.isActive = stream.isActive ∧ stream'.token = stream.token ∧
      s'.getAccumulatedRewardPerShare i = accruedPerShare e.timestamp totalShares decimals stream
        (s.getAccumulatedRewardPerShare i) ∧
      ∀ j, j ≠ i → s'.getAccumulatedRewardPerShare j = s.getAccumulatedRewardPerShare j := by
  simp only [accrueStream, bind_eq_ok, checkedU_eq_ok] at h
  obtain ⟨elapsed, ⟨-, rfl⟩, h⟩ := h
  unfold accruedPerShare
  split_ifs at h with hc
  · simp only [bind_eq_ok, pure_eq_ok, I128.mul_eq_ok, I128.pow_eq_ok, I128.div_eq_ok,
      I128.add_eq_ok, Prod.mk.injEq] at h
    obtain ⟨_, ⟨-, rfl⟩, _, ⟨-, rfl⟩, _, ⟨-, rfl⟩, _, ⟨-, -, rfl⟩, _, ⟨-, rfl⟩, _, ⟨-, rfl⟩, rfl,
      rfl⟩ := h
    refine ⟨rfl, rfl, rfl, ?_, fun j hj => s.getAccumulated_set_ne _ hj⟩
    rw [if_pos hc, s.getAccumulated_set_self]
  · simp only [pure_eq_ok, Prod.mk.injEq] at h
    obtain ⟨rfl, rfl⟩ := h
    exact ⟨rfl, rfl, rfl, (if_neg hc).symm, fun _ _ => rfl⟩

theorem accrueUser_ok {s s' : RewardStore} {i : ℕ} {amount : ℤ}
    (h : accrueUser e s user userShares decimals i = .ok (s', amount)) :
    s' = s.setUserRewardDebt user i
      { s.getUserRewardDebt user i with
        pendingRewards := (userShares * s.getAccumulatedRewardPerShare i).tdiv (10 ^ decimals) -
          (s.getUserRewardDebt user i).rewardDebt
        lastClaimTimestamp := e.timestamp } := by
  simp only [accrueUser, bind_eq_ok, pure_eq_ok, I128.mul_eq_ok, I128.pow_eq_ok, I128.div_eq_ok,
    I128.sub_eq_ok, Prod.mk.injEq] at h
  obtain ⟨_, ⟨-, rfl⟩, _, ⟨-, rfl⟩, _, ⟨-, -, rfl⟩, _, ⟨-, rfl⟩, rfl, rfl⟩ := h
  rfl

/-- The rounds from stream `k` on leave earlier streams and other users alone, and do not
change which streams are active. -/
theorem updateStreams_frame {streams : List RewardStream} {k : ℕ} {s : RewardStore}
    {pending : SortedMap ℕ ℤ} {r : RewardStore × List RewardStream × SortedMap ℕ ℤ}
    (h : updateStreams e user userShares totalShares decimals k streams s pending = .ok r) :
    (∀ i, i < k → r.1.getAccumulatedRewardPerShare i = s.getAccumulatedRewardPerShare i) ∧
      (∀ u i, u ≠ user ∨ i < k → r.1.getUserRewardDebt u i = s.getUserRewardDebt u i) ∧
      r.2.1.map RewardStream.isActive = streams.map RewardStream.isActive := by
  induction streams generalizing k s pending r with
  | nil =>
      obtain rfl := pure_eq_ok.mp h
      exact ⟨fun _ _ => rfl, fun _ _ _ => rfl, rfl⟩
  | cons stream rest ih =>
      simp only [updateStreams, ite_eq_ok, bind_eq_ok, pure_eq_ok] at h
      obtain ⟨hactive, ⟨s₁, stream₁⟩, h₁, ⟨s₂, amount⟩, h₂, r₃, h₃, rfl⟩ | ⟨-, r₃, h₃, rfl⟩ := h
      · obtain ⟨hdebts, hact, -, -, hacc⟩ := accrueStream_ok h₁
        obtain rfl := accrueUser_ok h₂
        obtain ⟨hacc₃, hdebt₃, hmap₃⟩ := ih h₃
        refine ⟨fun i hi => ?_, fun u i hui => ?_, ?_⟩
        · rw [hacc₃ i (by omega), RewardStore.getAccumulated_setUserRewardDebt, hacc i (by omega)]
        · rw [hdebt₃ u i (hui.imp_right (by omega)), RewardStore.getUserRewardDebt_set_ne]
          · rw [RewardStore.getUserRewardDebt, hdebts, RewardStore.getUserRewardDebt]
          · rintro ⟨rfl, rfl⟩
            rcases hui with hu | hi
            · exact hu rfl
            · omega
        · simp only [List.map_cons, hmap₃, hact]
      · obtain ⟨hacc₃, hdebt₃, hmap₃⟩ := ih h₃
        refine ⟨fun i hi => hacc₃ i (by omega), fun u i hui => hdebt₃ u i ?_, ?_⟩
        · exact hui.imp_right (by omega)
        · simp only [List.map_cons, hmap₃]

/-- The round of an active stream accrues it and sets the user's pending amount. -/
theorem updateStreams_at {streams : List RewardStream} {k : ℕ} {s : RewardStore}
    {pending : SortedMap ℕ ℤ} {r : RewardStore × List RewardStream × SortedMap ℕ ℤ}
    (h : updateStreams e user userShares totalShares decimals k streams s pending = .ok r)
    {j : ℕ} {stream : RewardStream} (hj : streams[j]? = some stream)
    (hactive : stream.isActive = true) :
    r.1.getAccumulatedRewardPerShare (k + j) = accruedPerShare e.timestamp totalShares decimals
        stream (s.getAccumulatedRewardPerShare (k + j)) ∧
      (r.1.getUserRewardDebt user (k + j)).rewardDebt =
        (s.getUserRewardDebt user (k + j)).rewardDebt ∧
      (r.1.getUserRewardDebt user (k + j)).pendingRewards =
        (userShares * r.1.getAccumulatedRewardPerShare (k + j)).tdiv (10 ^ decimals) -
          (s.getUserRewardDebt user (k + j)).rewardDebt := by
  induction streams generalizing k j s pending r with
  | nil => simp at hj
  | cons head rest ih =>
      simp only [updateStreams, ite_eq_ok, bind_eq_ok, pure_eq_ok] at h
      cases j with
      | zero =>
          obtain rfl : head = stream := by simpa using hj
          obtain ⟨-, ⟨s₁, stream₁⟩, h₁, ⟨s₂, amount⟩, h₂, r₃, h₃, rfl⟩ | ⟨hn, -⟩ := h
          · obtain ⟨hdebts, -, -, hacc, -⟩ := accrueStream_ok h₁
            obtain rfl := accrueUser_ok h₂
            obtain ⟨hacc₃, hdebt₃, -⟩ := updateStreams_frame h₃
            have hdebt : s₁.getUserRewardDebt user k = s.getUserRewardDebt user k := by
              rw [RewardStore.getUserRewardDebt, hdebts, RewardStore.getUserRewardDebt]
            rw [add_zero, hacc₃ k (by omega), hdebt₃ user k (.inr (by omega)),
              RewardStore.getUserRewardDebt_set_self,
              RewardStore.getAccumulated_setUserRewardDebt, hacc, hdebt]
            exact ⟨rfl, rfl, rfl⟩
          · exact absurd hactive hn
      | succ j =>
          have hj' : rest[j]? = some stream := by simpa using hj
          have hk : k + (j + 1) = k + 1 + j := by omega
          rw [hk]
          obtain ⟨-, ⟨s₁, stream₁⟩, h₁, ⟨s₂, amount⟩, h₂, r₃, h₃, rfl⟩ | ⟨-, r₃, h₃, rfl⟩ := h
          · obtain ⟨hdebts, -, -, -, hacc⟩ := accrueStream_ok h₁
            obtain rfl := accrueUser_ok h₂
            have hdebt : (s₁.setUserRewardDebt user k
                { s₁.getUserRewardDebt user k with
                  pendingRewards := (userShares * s₁.getAccumulatedRewardPerShare k).tdiv
                    (10 ^ decimals) - (s₁.getUserRewardDebt user k).rewardDebt
                  lastClaimTimestamp := e.timestamp }).getUserRewardDebt user (k + 1 + j) =
                s.getUserRewardDebt user (k + 1 + j) := by
              rw [RewardStore.getUserRewardDebt_set_ne]
              · rw [RewardStore.getUserRewardDebt, hdebts, RewardStore.getUserRewardDebt]
              · rintro ⟨-, hkj⟩
                omega
            obtain ⟨hacc₃, hdebt₃, hpend₃⟩ := ih h₃ hj'
            rw [RewardStore.getAccumulated_setUserRewardDebt, hacc _ (by omega)] at hacc₃
            rw [hdebt] at hdebt₃ hpend₃
            exact ⟨hacc₃, hdebt₃, hpend₃⟩
          · exact ih h₃ hj'

/-- A stream once the time up to `now` has been accrued. -/
def accruedStream (now : ℕ) (totalShares : ℤ) (stream : RewardStream) : RewardStream :=
  if 0 < (now : ℤ) - stream.lastUpdate ∧ 0 < totalShares then
    { stream with
      totalDistributed := stream.totalDistributed + stream.ratePerSecond * (now - stream.lastUpdate)
      lastUpdate := now }
  else stream

theorem accrueStream_stream {s s' : RewardStore} {i : ℕ} {stream stream' : RewardStream}
    (h : accrueStream e s totalShares decimals i stream = .ok (s', stream')) :
    stream' = accruedStream e.timestamp totalShares stream ∧ s'.initialized = s.initialized := by
  simp only [accrueStream, bind_eq_ok, checkedU_eq_ok] at h
  obtain ⟨elapsed, ⟨-, rfl⟩, h⟩ := h
  unfold accruedStream
  split_ifs at h with hc
  · simp only [bind_eq_ok, pure_eq_ok, I128.mul_eq_ok, I128.add_eq_ok, Prod.mk.injEq] at h
    obtain ⟨_, ⟨-, rfl⟩, _, -, _, -, _, -, _, -, _, ⟨-, rfl⟩, rfl, rfl⟩ := h
    rw [if_pos hc]
    exact ⟨rfl, rfl⟩
  · simp only [pure_eq_ok, Prod.mk.injEq] at h
    obtain ⟨rfl, rfl⟩ := h
    rw [if_neg hc]
    exact ⟨rfl, rfl⟩

/-- The rounds accrue the active streams and leave the accounts in the others alone. -/
theorem updateStreams_streams {streams : List RewardStream} {k : ℕ} {s : RewardStore}
    {pending : SortedMap ℕ ℤ} {r : RewardStore × List RewardStream × SortedMap ℕ ℤ}
    (h : updateStreams e user userShares totalShares decimals k streams s pending = .ok r) :
    r.2.1 = streams.map (fun stream =>
        if stream.isActive then accruedStream e.timestamp totalShares stream else stream) ∧
      r.1.initialized = s.initialized := by
  induction streams generalizing k s pending r with
  | nil =>
      obtain rfl := pure_eq_ok.mp h
      exact ⟨rfl, rfl⟩
  | cons stream rest ih =>
      simp only [updateStreams, ite_eq_ok, bind_eq_ok, pure_eq_ok] at h
      obtain ⟨hactive, ⟨s₁, stream₁⟩, h₁, ⟨s₂, amount⟩, h₂, r₃, h₃, rfl⟩ | ⟨hn, r₃, h₃, rfl⟩ := h
      · obtain ⟨rfl, hinit⟩ := accrueStream_stream h₁
        obtain rfl := accrueUser_ok h₂
        obtain ⟨hrest, hinit₃⟩ := ih h₃
        rw [List.map_cons, if_pos hactive]
        exact ⟨congrArg (List.cons _) hrest, hinit₃.trans hinit⟩
      · obtain ⟨hrest, hinit₃⟩ := ih h₃
        rw [List.map_cons, if_neg hn]
        exact ⟨congrArg (List.cons _) hrest, hinit₃⟩

/-- The rounds leave a stream that is missing or inactive alone. -/
theorem updateStreams_skip {streams : List RewardStream} {k : ℕ} {s : RewardStore}
    {pending : SortedMap ℕ ℤ} {r : RewardStore × List RewardStream × SortedMap ℕ ℤ}
    (h : updateStreams e user userShares totalShares decimals k streams s pending = .ok r) {j : ℕ}
    (hj : ∀ stream, streams[j]? = some stream → ¬ stream.isActive = true) :
    r.1.getAccumulatedRewardPerShare (k + j) = s.getAccumulatedRewardPerShare (k + j) ∧
      r.1.getUserRewardDebt user (k + j) = s.getUserRewardDebt user (k + j) := by
  induction streams generalizing k j s pending r with
  | nil =>
      obtain rfl := pure_eq_ok.mp h
      exact ⟨rfl, rfl⟩
  | cons stream rest ih =>
      simp only [updateStreams, ite_eq_ok, bind_eq_ok, pure_eq_ok] at h
      cases j with
      | zero =>
          obtain ⟨hactive, -⟩ | ⟨-, r₃, h₃, rfl⟩ := h
          · exact absurd hactive (hj stream rfl)
          · obtain ⟨hacc₃, hdebt₃, -⟩ := updateStreams_frame h₃
            exact ⟨hacc₃ k (by omega), hdebt₃ user k (.inr (by omega))⟩
      | succ j =>
          have hj' : ∀ stream, rest[j]? = some stream → ¬ stream.isActive = true := by
            intro other hother
            exact hj other (by simpa using hother)
          have hk : k + (j + 1) = k + 1 + j := by omega
          rw [hk]
          obtain ⟨-, ⟨s₁, stream₁⟩, h₁, ⟨s₂, amount⟩, h₂, r₃, h₃, rfl⟩ | ⟨-, r₃, h₃, rfl⟩ := h
          · obtain ⟨hdebts, -, -, -, hacc⟩ := accrueStream_ok h₁
            obtain rfl := accrueUser_ok h₂
            obtain ⟨hacc₃, hdebt₃⟩ := ih h₃ hj'
            rw [RewardStore.getAccumulated_setUserRewardDebt, hacc _ (by omega)] at hacc₃
            rw [RewardStore.getUserRewardDebt_set_ne] at hdebt₃
            · have hdebt : s₁.getUserRewardDebt user (k + 1 + j) =
                  s.getUserRewardDebt user (k + 1 + j) := by
                rw [RewardStore.getUserRewardDebt, hdebts, RewardStore.getUserRewardDebt]
              exact ⟨hacc₃, hdebt₃.trans hdebt⟩
            · rintro ⟨-, hkj⟩
              omega
          · exact ih h₃ hj'

/-- What `update_rewards` does to its user in an active stream. -/
theorem updateRewards_own {s s' : RewardStore} {vault : Address} {pending : SortedMap ℕ ℤ}
    (h : updateRewards e s user vault userShares decimals = .ok (s', pending)) {i : ℕ}
    {stream : RewardStream} (hi : s.getStreams[i]? = some stream)
    (hactive : stream.isActive = true) :
    s'.getAccumulatedRewardPerShare i = accruedPerShare e.timestamp
        (refreshedVaultInfo s vault decimals).totalShares decimals stream
        (s.getAccumulatedRewardPerShare i) ∧
      (s'.getUserRewardDebt user i).rewardDebt = (s.getUserRewardDebt user i).rewardDebt ∧
      (s'.getUserRewardDebt user i).pendingRewards =
        (userShares * s'.getAccumulatedRewardPerShare i).tdiv (10 ^ decimals) -
          (s.getUserRewardDebt user i).rewardDebt := by
  simp only [updateRewards, bind_eq_ok, pure_eq_ok, Prod.mk.injEq] at h
  obtain ⟨-, -, r, hr, rfl, rfl⟩ := h
  have hat := updateStreams_at hr hi hactive
  rw [zero_add] at hat
  exact hat

/-- What `update_rewards` leaves alone. -/
theorem updateRewards_frame {s s' : RewardStore} {vault : Address} {pending : SortedMap ℕ ℤ}
    (h : updateRewards e s user vault userShares decimals = .ok (s', pending)) :
    (∀ u i, u ≠ user → s'.getUserRewardDebt u i = s.getUserRewardDebt u i) ∧
      s'.getStreams.map RewardStream.isActive = s.getStreams.map RewardStream.isActive := by
  simp only [updateRewards, bind_eq_ok, pure_eq_ok, Prod.mk.injEq] at h
  obtain ⟨-, -, r, hr, rfl, rfl⟩ := h
  obtain ⟨-, hdebt, hmap⟩ := updateStreams_frame hr
  exact ⟨fun u i hu => hdebt u i (.inl hu), hmap⟩

/-- What `update_rewards` does to the streams. -/
theorem updateRewards_streams {s s' : RewardStore} {vault : Address} {pending : SortedMap ℕ ℤ}
    (h : updateRewards e s user vault userShares decimals = .ok (s', pending)) :
    s'.getStreams = s.getStreams.map (fun stream => if stream.isActive then
        accruedStream e.timestamp (refreshedVaultInfo s vault decimals).totalShares stream
      else stream) ∧ s'.initialized = s.initialized := by
  simp only [updateRewards, bind_eq_ok, pure_eq_ok, Prod.mk.injEq] at h
  obtain ⟨-, -, r, hr, rfl, rfl⟩ := h
  obtain ⟨hstreams, hinit⟩ := updateStreams_streams hr
  exact ⟨hstreams, hinit⟩

/-- `update_rewards` leaves a stream that is missing or inactive alone. -/
theorem updateRewards_skip {s s' : RewardStore} {vault : Address} {pending : SortedMap ℕ ℤ}
    (h : updateRewards e s user vault userShares decimals = .ok (s', pending)) {i : ℕ}
    (hi : ∀ stream, s.getStreams[i]? = some stream → ¬ stream.isActive = true) :
    s'.getAccumulatedRewardPerShare i = s.getAccumulatedRewardPerShare i ∧
      s'.getUserRewardDebt user i = s.getUserRewardDebt user i := by
  simp only [updateRewards, bind_eq_ok, pure_eq_ok, Prod.mk.injEq] at h
  obtain ⟨-, -, r, hr, rfl, rfl⟩ := h
  have hskip := updateStreams_skip hr hi
  rw [zero_add] at hskip
  exact hskip

end accrual

/-! ### Claims -/

/-- What the payouts of a claim carry for stream `i`, fee included. -/
def paidFor (i : ℕ) (payouts : List ClaimPayout) : ℤ :=
  (payouts.map fun p => if p.streamIndex = i then p.netReward + p.treasuryFee else 0).sum

/-- A claim pays a pending amount out in full or leaves it alone. -/
structure ClaimFacts (s s' : RewardStore) (user : Address) (payouts : List ClaimPayout) : Prop where
  streams : s'.streams = s.streams
  accumulated : s'.accumulated = s.accumulated
  others : ∀ u i, u ≠ user → s'.getUserRewardDebt u i = s.getUserRewardDebt u i
  rewardDebt : ∀ i, (s'.getUserRewardDebt user i).rewardDebt =
    (s.getUserRewardDebt user i).rewardDebt
  pays : ∀ i, (s'.getUserRewardDebt user i).pendingRewards =
      (s.getUserRewardDebt user i).pendingRewards ∧ paidFor i payouts = 0 ∨
    0 < (s.getUserRewardDebt user i).pendingRewards ∧
      (s'.getUserRewardDebt user i).pendingRewards = 0 ∧
      paidFor i payouts = (s.getUserRewardDebt user i).pendingRewards

section claim
variable {e : Env} {streams : List RewardStream} {treasury swapRouter user : Address}
  {convertTo : Option Address}

/-- The swap placeholder always succeeds, so a conversion writes nothing. -/
theorem convertReward_ok {s s' : RewardStore} {token : Address} {netReward : ℤ}
    (h : convertReward e s swapRouter user convertTo token netReward = .ok s') : s' = s := by
  cases convertTo with
  | none => exact (pure_eq_ok.mp h).symm
  | some target =>
      simp only [convertReward, executeSwap, if_true, ite_eq_ok, bind_eq_ok, pure_eq_ok] at h
      obtain ⟨-, rfl⟩ | ⟨-, -, -, rfl⟩ := h <;> rfl

theorem claimStream_ok {w w' : RewardWorld} {i : ℕ} {payout : ClaimPayout}
    (h : claimStream e streams treasury swapRouter user convertTo w i = .ok (w', payout)) :
    0 < (w.store.getUserRewardDebt user i).pendingRewards ∧ payout.streamIndex = i ∧
      payout.netReward + payout.treasuryFee =
        (w.store.getUserRewardDebt user i).pendingRewards ∧
      w'.store = w.store.setUserRewardDebt user i
        { w.store.getUserRewardDebt user i with
          pendingRewards := 0
          lastClaimTimestamp := e.timestamp } := by
  simp only [claimStream, bind_eq_ok, pure_eq_ok, require_eq_ok, exists_const, I128.mul_eq_ok,
    I128.div_eq_ok, I128.sub_eq_ok, Prod.mk.injEq] at h
  obtain ⟨stream, -, -, hpos, _, ⟨-, rfl⟩, _, ⟨-, -, rfl⟩, _, ⟨-, rfl⟩, -, l₁, -, l₂, -, s, hs,
    rfl, rfl⟩ := h
  obtain rfl := convertReward_ok hs
  exact ⟨hpos, rfl, by ring, rfl⟩

theorem claimStreams_facts {is : List ℕ} {w w' : RewardWorld} {totals : SortedMap Address ℤ}
    {payouts : List ClaimPayout}
    (h : claimStreams e streams treasury swapRouter user convertTo is w totals =
      .ok (w', payouts)) : ClaimFacts w.store w'.store user payouts := by
  induction is generalizing w totals payouts with
  | nil =>
      simp only [claimStreams, pure_eq_ok, Prod.mk.injEq] at h
      obtain ⟨rfl, rfl⟩ := h
      exact ⟨rfl, rfl, fun _ _ _ => rfl, fun _ => rfl, fun _ => .inl ⟨rfl, rfl⟩⟩
  | cons i rest ih =>
      simp only [claimStreams, bind_eq_ok, pure_eq_ok, Prod.mk.injEq] at h
      obtain ⟨⟨w₁, payout⟩, h₁, total, -, ⟨w₂, more⟩, h₂, rfl, rfl⟩ := h
      obtain ⟨hpos, hstream, hpaid, hstore⟩ := claimStream_ok h₁
      have hrest := ih h₂
      simp only [hstore] at hrest
      refine ⟨hrest.streams, hrest.accumulated, fun u j hu => ?_, fun j => ?_, fun j => ?_⟩
      · rw [hrest.others u j hu, RewardStore.getUserRewardDebt_set_ne _ _ (fun hc => hu hc.1)]
      · rw [hrest.rewardDebt j]
        by_cases hj : j = i
        · subst hj
          rw [RewardStore.getUserRewardDebt_set_self]
        · rw [RewardStore.getUserRewardDebt_set_ne _ _ (fun hc => hj hc.2)]
      · have hsum : paidFor j (payout :: more) =
            (if i = j then payout.netReward + payout.treasuryFee else 0) + paidFor j more := by
          simp [paidFor, hstream]
        have hpays := hrest.pays j
        by_cases hj : j = i
        · subst hj
          rw [RewardStore.getUserRewardDebt_set_self] at hpays
          rw [hsum, if_pos rfl, hpaid]
          rcases hpays with ⟨h0, hmore⟩ | ⟨h0, -, -⟩
          · exact .inr ⟨hpos, h0, by rw [hmore, add_zero]⟩
          · exact absurd h0 (lt_irrefl 0)
        · rw [RewardStore.getUserRewardDebt_set_ne _ _ (fun hc => hj hc.2)] at hpays
          rw [hsum, if_neg (fun hc => hj hc.symm), zero_add]
          exact hpays

end claim

theorem claimRewards_facts {e : Env} {w w' : RewardWorld} {user vault : Address}
    {streamIndices : List ℕ} {convertTo : Option Address} {report : ClaimReport}
    (h : claimRewards e w user vault streamIndices convertTo = .ok (w', report)) :
    ClaimFacts w.store w'.store user report.payouts := by
  simp only [claimRewards, bind_eq_ok, pure_eq_ok, Prod.mk.injEq] at h
  obtain ⟨-, -, -, -, treasury, -, swapRouter, -, ⟨w₁, payouts⟩, hc, rfl, rfl⟩ := h
  exact claimStreams_facts hc

theorem claimStreams_initialized {e : Env} {streams : List RewardStream}
    {treasury swapRouter user : Address} {convertTo : Option Address} {is : List ℕ}
    {w : RewardWorld} {totals : SortedMap Address ℤ} {r : RewardWorld × List ClaimPayout}
    (h : claimStreams e streams treasury swapRouter user convertTo is w totals = .ok r) :
    r.1.store.initialized = w.store.initialized := by
  induction is generalizing w totals r with
  | nil =>
      obtain rfl := pure_eq_ok.mp h
      rfl
  | cons i rest ih =>
      simp only [claimStreams, bind_eq_ok, pure_eq_ok] at h
      obtain ⟨⟨w₁, payout⟩, h₁, total, -, r₂, h₂, rfl⟩ := h
      obtain ⟨-, -, -, hstore⟩ := claimStream_ok h₁
      calc r₂.1.store.initialized = w₁.store.initialized := ih h₂
        _ = w.store.initialized := by
          rw [hstore]
          rfl

theorem claimRewards_initialized {e : Env} {w : RewardWorld} {user vault : Address}
    {streamIndices : List ℕ} {convertTo : Option Address} {r : RewardWorld × ClaimReport}
    (h : claimRewards e w user vault streamIndices convertTo = .ok r) :
    r.1.store.initialized = w.store.initialized := by
  simp only [claimRewards, bind_eq_ok, pure_eq_ok] at h
  obtain ⟨-, -, -, -, treasury, -, swapRouter, -, r₁, hc, rfl⟩ := h
  exact claimStreams_initialized hc

theorem executeAutoCompound_initialized {e : Env} {w : RewardWorld} {user vault : Address}
    {streamIndices : List ℕ} {r : RewardWorld × SortedMap Address ℤ × List ClaimPayout}
    (h : executeAutoCompound e w user vault streamIndices = .ok r) :
    r.1.store.initialized = w.store.initialized := by
  simp only [executeAutoCompound, ite_eq_ok, bind_eq_ok, pure_eq_ok] at h
  obtain ⟨-, -, split, -, ⟨-, rfl⟩ | ⟨-, r₁, hclaim, rfl⟩⟩ := h
  · rfl
  · exact claimRewards_initialized hclaim

/-- Auto-compounding claims or does nothing. -/
theorem executeAutoCompound_facts {e : Env} {w w' : RewardWorld} {user vault : Address}
    {streamIndices : List ℕ} {reinvest : SortedMap Address ℤ} {payouts : List ClaimPayout}
    (h : executeAutoCompound e w user vault streamIndices = .ok (w', reinvest, payouts)) :
    ClaimFacts w.store w'.store user payouts := by
  simp only [executeAutoCompound, ite_eq_ok, bind_eq_ok, pure_eq_ok, Prod.mk.injEq] at h
  obtain ⟨-, -, ⟨reinvest', claim⟩, -, ⟨-, rfl, -, rfl⟩ | ⟨-, ⟨w₁, report⟩, hc, rfl, -, rfl⟩⟩ := h
  · exact ⟨rfl, rfl, fun _ _ _ => rfl, fun _ => rfl, fun _ => .inl ⟨rfl, rfl⟩⟩
  · exact claimRewards_facts hc

/-! ### Everything else -/

/-- Stream `i` exists and is active. -/
def ActiveStream (s : RewardStore) (i : ℕ) : Prop :=
  ∃ stream, s.getStreams[i]? = some stream ∧ stream.isActive = true

theorem activeStream_iff {s : RewardStore} {i : ℕ} :
    ActiveStream s i ↔ (s.getStreams.map RewardStream.isActive)[i]? = some true := by
  simp [ActiveStream]

/-- The accounts of the users in the streams are the same. -/
structure SameRewards (s s' : RewardStore) (stays : ℕ → Prop) : Prop where
  debts : s'.debts = s.debts
  accumulated : s'.accumulated = s.accumulated
  active : ∀ i, stays i → ActiveStream s i → ActiveStream s' i

/-- What stream `i` has distributed so far. -/
def RewardStore.distributed (s : RewardStore) (i : ℕ) : ℤ :=
  (s.getStreams[i]?.map RewardStream.totalDistributed).getD 0

/-- Neither do the streams distribute anything, nor is the initialisation mark touched. -/
structure SameEmission (s s' : RewardStore) (stays : ℕ → Prop) : Prop
    extends SameRewards s s' stays where
  distributed : ∀ i, s'.distributed i = s.distributed i
  initialized : s'.initialized = s.initialized

theorem SameEmission.of_streams {s s' : RewardStore} {stays : ℕ → Prop} (hd : s'.debts = s.debts)
    (ha : s'.accumulated = s.accumulated) (hs : s'.streams = s.streams)
    (hi : s'.initialized = s.initialized) : SameEmission s s' stays where
  debts := hd
  accumulated := ha
  active := fun i _ h => by simpa only [ActiveStream, RewardStore.getStreams, hs] using h
  distributed := fun i => by simp only [RewardStore.distributed, RewardStore.getStreams, hs]
  initialized := hi

/-- An admin call that passes its guard and leaves the accounts alone. -/
theorem SameEmission.of_admin {s t s' : RewardStore} {stays : ℕ → Prop} {admin : Address}
    (h : (do s.requireAdmin admin; pure t : RewardCall RewardStore) = .ok s')
    (ht : SameEmission s t stays) : SameEmission s s' stays := by
  obtain ⟨_, -, h⟩ := bind_eq_ok.mp h
  obtain rfl := pure_eq_ok.mp h
  exact ht

theorem writeStream_same {s s' : RewardStore} {admin : Address} {i : ℕ}
    {write : RewardStream → RewardStream} {stays : ℕ → Prop}
    (h : writeStream s admin i write = .ok s')
    (hwrite : stays i → ∀ stream, (write stream).isActive = stream.isActive)
    (hkept : ∀ stream, (write stream).totalDistributed = stream.totalDistributed) :
    SameEmission s s' stays := by
  simp only [writeStream, bind_eq_ok, pure_eq_ok, orRaise_eq_ok] at h
  obtain ⟨-, -, stream, hi, rfl⟩ := h
  have hlt : i < s.getStreams.length := (List.getElem?_eq_some_iff.mp hi).1
  refine ⟨⟨rfl, rfl, fun j hj hact => ?_⟩, fun j => ?_, rfl⟩
  · obtain ⟨other, hother, hact⟩ := hact
    by_cases hij : i = j
    · subst hij
      obtain rfl : stream = other := Option.some.inj (hi.symm.trans hother)
      refine ⟨write stream, ?_, (hwrite hj stream).trans hact⟩
      show (s.getStreams.set i (write stream))[i]? = _
      rw [List.getElem?_set_self hlt]
    · refine ⟨other, ?_, hact⟩
      show (s.getStreams.set i (write stream))[j]? = _
      rw [List.getElem?_set_ne hij]
      exact hother
  · show ((s.getStreams.set i (write stream))[j]?.map RewardStream.totalDistributed).getD 0 = _
    by_cases hij : i = j
    · subst hij
      rw [List.getElem?_set_self hlt, RewardStore.distributed, hi]
      exact hkept stream
    · rw [List.getElem?_set_ne hij]
      rfl

theorem addRewardStream_same {e : Env} {s : RewardStore} {admin token : Address} {rate : ℤ}
    {decimals deadline : ℕ} {r : RewardStore × ℕ} {stays : ℕ → Prop}
    (h : addRewardStream e s admin token rate decimals deadline = .ok r) :
    SameEmission s r.1 stays := by
  simp only [addRewardStream, bind_eq_ok, pure_eq_ok] at h
  obtain ⟨-, -, -, -, -, -, rfl⟩ := h
  refine ⟨⟨rfl, rfl, fun j _ hactive => ?_⟩, fun j => ?_, rfl⟩
  · obtain ⟨stream, hj, hact⟩ := hactive
    refine ⟨stream, ?_, hact⟩
    show (s.getStreams ++ _)[j]? = _
    rw [List.getElem?_append_left (List.getElem?_eq_some_iff.mp hj).1]
    exact hj
  · show ((s.getStreams ++ [_])[j]?.map RewardStream.totalDistributed).getD 0 = s.distributed j
    unfold RewardStore.distributed
    rcases lt_trichotomy j s.getStreams.length with hj | hj | hj
    · rw [List.getElem?_append_left hj]
    · subst hj
      -- the new stream has distributed nothing yet
      rw [List.getElem?_concat_length, List.getElem?_eq_none le_rfl]
      rfl
    · have hlong : (s.getStreams ++ [(⟨token, rate, 0, e.timestamp, true, decimals, deadline⟩ :
          RewardStream)]).length ≤ j := by
        rw [List.length_append, List.length_singleton]
        omega
      rw [List.getElem?_eq_none hlong, List.getElem?_eq_none hj.le]

/-- The action does not deactivate stream `i`. -/
def KeepsStream (action : RewardAction) (i : ℕ) : Prop :=
  ∀ admin, action ≠ .deactivateStream admin i

/-- The records of the rewards are as they were; only settings and queues may differ. -/
structure SettingsOnly (s s' : RewardStore) : Prop where
  initialized : s'.initialized = s.initialized
  admin : s'.admin = s.admin
  paused : s'.isPaused = s.isPaused
  streams : s'.streams = s.streams
  vaultInfos : s'.vaultInfos = s.vaultInfos
  debts : s'.debts = s.debts
  accumulated : s'.accumulated = s.accumulated

theorem SettingsOnly.refl (s : RewardStore) : SettingsOnly s s :=
  ⟨rfl, rfl, rfl, rfl, rfl, rfl, rfl⟩

/-- An admin call that passes its guard and writes a setting. -/
theorem SettingsOnly.of_admin {s t s' : RewardStore} {admin : Address}
    (h : (do s.requireAdmin admin; pure t : RewardCall RewardStore) = .ok s')
    (ht : SettingsOnly s t) : SettingsOnly s s' := by
  obtain ⟨_, -, h⟩ := bind_eq_ok.mp h
  obtain rfl := pure_eq_ok.mp h
  exact ht

/-- The actions that write settings and queues only. -/
def RewardAction.IsSetting : RewardAction → Prop
  | .emergencyWithdraw .. | .completeEmergencyWithdrawal .. | .setAutoCompoundConfig ..
  | .fundRewardPool .. | .retryFailedSwaps .. | .migrate _ | .updateDefaultSlippage ..
  | .setPriceOracle .. | .upgrade _ | .enableEmergencyMode _ | .disableEmergencyMode _ => True
  | _ => False

theorem execAdmin_setting {e : Env} {w w' : RewardWorld} {action : RewardAction}
    (h : execAdmin e w action = .ok w') (hsetting : action.IsSetting) :
    SettingsOnly w.store w'.store := by
  cases action with
  | emergencyWithdraw user vault shares =>
      obtain ⟨s, hs, rfl⟩ := map_eq_ok.mp h
      obtain rfl := pure_eq_ok.mp hs
      exact ⟨rfl, rfl, rfl, rfl, rfl, rfl, rfl⟩
  | completeEmergencyWithdrawal user vault =>
      obtain ⟨s, hs, rfl⟩ := map_eq_ok.mp h
      simp only [completeEmergencyWithdrawal, bind_eq_ok, pure_eq_ok] at hs
      obtain ⟨-, -, -, -, rfl⟩ := hs
      exact ⟨rfl, rfl, rfl, rfl, rfl, rfl, rfl⟩
  | setAutoCompoundConfig user token percentage enabled =>
      obtain ⟨s, hs, rfl⟩ := map_eq_ok.mp h
      simp only [setAutoCompoundConfig, bind_eq_ok, pure_eq_ok] at hs
      obtain ⟨-, -, rfl⟩ := hs
      exact ⟨rfl, rfl, rfl, rfl, rfl, rfl, rfl⟩
  | fundRewardPool admin token amount =>
      simp only [execAdmin, fundRewardPool, bind_eq_ok, pure_eq_ok] at h
      obtain ⟨-, -, -, -, -, -, rfl⟩ := h
      exact ⟨rfl, rfl, rfl, rfl, rfl, rfl, rfl⟩
  | retryFailedSwaps admin retries =>
      obtain ⟨s, hs, rfl⟩ := map_eq_ok.mp h
      simp only [retryFailedSwaps, map_eq_ok, bind_eq_ok, pure_eq_ok] at hs
      obtain ⟨-, ⟨-, -, -, -, rfl⟩, rfl⟩ := hs
      exact .refl _
  | migrate admin =>
      obtain ⟨s, hs, rfl⟩ := map_eq_ok.mp h
      simp only [migrate, map_eq_ok, bind_eq_ok, pure_eq_ok] at hs
      obtain ⟨-, ⟨-, -, rfl⟩, rfl⟩ := hs
      exact ⟨rfl, rfl, rfl, rfl, rfl, rfl, rfl⟩
  | updateDefaultSlippage admin bps =>
      obtain ⟨s, hs, rfl⟩ := map_eq_ok.mp h
      simp only [updateDefaultSlippage, bind_eq_ok, pure_eq_ok] at hs
      obtain ⟨-, -, -, -, rfl⟩ := hs
      exact ⟨rfl, rfl, rfl, rfl, rfl, rfl, rfl⟩
  | setPriceOracle admin oracle =>
      obtain ⟨s, hs, rfl⟩ := map_eq_ok.mp h
      exact .of_admin hs ⟨rfl, rfl, rfl, rfl, rfl, rfl, rfl⟩
  | upgrade admin =>
      obtain ⟨s, hs, rfl⟩ := map_eq_ok.mp h
      exact .of_admin hs (.refl _)
  | enableEmergencyMode admin | disableEmergencyMode admin =>
      obtain ⟨s, hs, rfl⟩ := map_eq_ok.mp h
      exact .of_admin hs ⟨rfl, rfl, rfl, rfl, rfl, rfl, rfl⟩
  | _ => cases hsetting

theorem SettingsOnly.sameEmission {s s' : RewardStore} (h : SettingsOnly s s')
    (stays : ℕ → Prop) : SameEmission s s' stays :=
  .of_streams h.debts h.accumulated h.streams h.initialized

theorem execAdmin_emission {e : Env} {w w' : RewardWorld} {action : RewardAction}
    (h : execAdmin e w action = .ok w') : SameEmission w.store w'.store (KeepsStream action) := by
  cases action with
  | updateRewards | claimRewards | executeAutoCompound =>
      obtain rfl := pure_eq_ok.mp h
      exact .of_streams rfl rfl rfl rfl
  | addRewardStream admin token rate decimals deadline =>
      obtain ⟨s, hs, rfl⟩ := map_eq_ok.mp h
      obtain ⟨r, hr, rfl⟩ := map_eq_ok.mp hs
      exact addRewardStream_same hr
  | setClaimDeadline admin i deadline =>
      obtain ⟨s, hs, rfl⟩ := map_eq_ok.mp h
      exact writeStream_same hs (fun _ _ => rfl) fun _ => rfl
  | updateRewardRate admin i rate =>
      obtain ⟨s, hs, rfl⟩ := map_eq_ok.mp h
      exact writeStream_same hs (fun _ _ => rfl) fun _ => rfl
  | deactivateStream admin i =>
      obtain ⟨s, hs, rfl⟩ := map_eq_ok.mp h
      exact writeStream_same hs (fun hkeeps => absurd rfl (hkeeps admin)) fun _ => rfl
  | pause admin | unpause admin =>
      obtain ⟨s, hs, rfl⟩ := map_eq_ok.mp h
      exact .of_admin hs (.of_streams rfl rfl rfl rfl)
  | _ => exact (execAdmin_setting h trivial).sameEmission _

/-! ### One invocation -/

/-- The user whose rewards the action pays out. -/
def RewardAction.claimant : RewardAction → Option Address
  | .claimRewards user .. | .executeAutoCompound user .. => some user
  | _ => none

/-- The action accrues rewards. -/
def RewardAction.Accrues : RewardAction → Prop
  | .updateRewards .. => True
  | _ => False

/-- What a returning invocation has done: accrued, paid out, or neither. -/
inductive Effect (e : Env) (w : RewardWorld) :
    RewardAction → RewardWorld → List ClaimPayout → Prop
  | update {user vault : Address} {shares : ℤ} {decimals : ℕ} {s' : RewardStore}
      {pending : SortedMap ℕ ℤ}
      (h : updateRewards e w.store user vault shares decimals = .ok (s', pending)) :
      Effect e w (.updateRewards user vault shares decimals) { w with store := s' } []
  | claim {action : RewardAction} {w' : RewardWorld} {user : Address}
      {payouts : List ClaimPayout} (hclaimant : action.claimant = some user)
      (h : ClaimFacts w.store w'.store user payouts)
      (hinit : w'.store.initialized = w.store.initialized) : Effect e w action w' payouts
  | other {action : RewardAction} {w' : RewardWorld} (hclaimant : action.claimant = none)
      (haccrues : ¬ action.Accrues) (h : SameEmission w.store w'.store (KeepsStream action)) :
      Effect e w action w' []

theorem exec_effect {e : Env} {w w' : RewardWorld} {action : RewardAction}
    {payouts : List ClaimPayout} (h : exec w (e, action) = .ok (w', payouts)) :
    Effect e w action w' payouts := by
  have hadmin : (fun w => (w, ([] : List ClaimPayout))) <$> execAdmin e w action =
      .ok (w', payouts) → action.claimant = none → ¬ action.Accrues →
      Effect e w action w' payouts := by
    intro hx hclaimant haccrues
    obtain ⟨w₁, hadm, hw⟩ := map_eq_ok.mp hx
    obtain ⟨rfl, rfl⟩ := Prod.mk.inj hw
    exact .other hclaimant haccrues (execAdmin_emission hadm)
  cases action with
  | updateRewards user vault shares decimals =>
      obtain ⟨⟨s', pending⟩, hu, hw⟩ := map_eq_ok.mp h
      obtain ⟨rfl, rfl⟩ := Prod.mk.inj hw
      exact .update hu
  | claimRewards user vault is convertTo =>
      obtain ⟨⟨w₁, report⟩, hc, hw⟩ := map_eq_ok.mp h
      obtain ⟨rfl, rfl⟩ := Prod.mk.inj hw
      exact .claim rfl (claimRewards_facts hc) (claimRewards_initialized hc)
  | executeAutoCompound user vault is =>
      obtain ⟨⟨w₁, reinvest, more⟩, hc, hw⟩ := map_eq_ok.mp h
      obtain ⟨rfl, rfl⟩ := Prod.mk.inj hw
      exact .claim rfl (executeAutoCompound_facts hc) (executeAutoCompound_initialized hc)
  | _ => exact hadmin h rfl id

end YieldEngine.Rewards
