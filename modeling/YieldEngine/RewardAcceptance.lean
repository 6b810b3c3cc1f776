import YieldEngine.RewardClaims

/-! # When a claim returns

A claim without conversion pays the listed streams out one after the other, and any of its
checks stops it.  Each check is one on the state before the call: a stream is `Payable` after
the streams paid before it when the contract's balance covers it on top of what these have
taken out.  A claim returns exactly when every listed stream is payable in turn
(`claimRewards_returns_iff`). -/

namespace YieldEngine.Rewards

open CheckedArith SortedMap

/-- The items of a list pass a check, each after those before it. -/
def InTurn {α : Type} (check : List α → α → Prop) (done : List α) : List α → Prop
  | [] => True
  | x :: rest => check done x ∧ InTurn check (done ++ [x]) rest

section inputs
variable (e : Env) (s : RewardStore) (ledger : Ledger) (treasury user : Address)

/-- What paying out the listed streams takes from the contract's balances. -/
def outflows (is : List ℕ) : List (Address × ℤ) :=
  is.filterMap fun i => s.getStreams[i]?.map fun stream =>
    (stream.token, roundOutflow e treasury user (s.getUserRewardDebt user i).pendingRewards)

/-- The net rewards of the listed streams, under their tokens. -/
def netRewards (is : List ℕ) : List (Address × ℤ) :=
  is.filterMap fun i => s.getStreams[i]?.map fun stream =>
    (stream.token, (s.getUserRewardDebt user i).pendingRewards -
      treasuryFeeOn (s.getUserRewardDebt user i).pendingRewards)

/-- Stream `i` can be paid out once the streams `done` have been. -/
structure Payable (done : List ℕ) (i : ℕ) (stream : RewardStream) : Prop where
  listed : s.getStreams[i]? = some stream
  inTime : stream.claimDeadline = 0 ∨ e.timestamp ≤ stream.claimDeadline
  pos : 0 < (s.getUserRewardDebt user i).pendingRewards
  fits : Fits 128 ((s.getUserRewardDebt user i).pendingRewards * treasuryFeeBps)
  covered : (s.getUserRewardDebt user i).pendingRewards +
    sumAt stream.token (outflows e s treasury user done) ≤ ledger stream.token e.contract
  total : Fits 128 (sumAt stream.token (netRewards s user (done ++ [i])))

/-- The distributor is running and every listed stream can be paid out in turn. -/
structure ClaimAccepted (is : List ℕ) : Prop where
  emergency : s.isEmergency = false
  running : s.isPaused = false
  router : s.swapRouter.isSome
  payable : ∃ treasury, s.treasury = some treasury ∧
    InTurn (fun done i => ∃ stream, Payable e s ledger treasury user done i stream) [] is

end inputs

section loop
variable {e : Env} {s : RewardStore} {ledger : Ledger} {treasury swapRouter user : Address}
  {done : List ℕ} {w w₁ : RewardWorld} {totals : SortedMap Address ℤ} {i : ℕ}
  {stream : RewardStream} {payout : ClaimPayout}

/-- Where the loop is once the streams `done` are paid. -/
structure PaidSoFar (e : Env) (s : RewardStore) (ledger : Ledger) (treasury user : Address)
    (done : List ℕ) (w : RewardWorld) (totals : SortedMap Address ℤ) : Prop where
  debts : ∀ i ∉ done, w.store.getUserRewardDebt user i = s.getUserRewardDebt user i
  ledger : ∀ t, w.ledger t e.contract =
    ledger t e.contract - sumAt t (outflows e s treasury user done)
  totals : Tallies totals (netRewards s user done)

theorem outflows_concat (hi : s.getStreams[i]? = some stream) :
    outflows e s treasury user (done ++ [i]) = outflows e s treasury user done ++
      [(stream.token, roundOutflow e treasury user
        (s.getUserRewardDebt user i).pendingRewards)] := by
  simp [outflows, List.filterMap_append, hi]

theorem netRewards_concat (hi : s.getStreams[i]? = some stream) :
    netRewards s user (done ++ [i]) = netRewards s user done ++
      [(stream.token, (s.getUserRewardDebt user i).pendingRewards -
        treasuryFeeOn (s.getUserRewardDebt user i).pendingRewards)] := by
  simp [netRewards, List.filterMap_append, hi]

/-- The facts of a round on a stream that has not been paid, in terms of the state before. -/
theorem PaidSoFar.facts (h : PaidSoFar e s ledger treasury user done w totals) (hnew : i ∉ done)
    (hround : claimStream e s.getStreams treasury swapRouter user none w i = .ok (w₁, payout)) :
    ∃ stream, RoundFacts e s.getStreams treasury user w i
      (s.getUserRewardDebt user i).pendingRewards stream w₁ payout := by
  rw [← h.debts i hnew]
  exact claimStream_facts hround

/-- The running total of a round is the sum of the net rewards so far. -/
theorem PaidSoFar.running_total (h : PaidSoFar e s ledger treasury user done w totals)
    (facts : RoundFacts e s.getStreams treasury user w i
      (s.getUserRewardDebt user i).pendingRewards stream w₁ payout) :
    (totals.get payout.token).getD 0 + payout.netReward =
      sumAt stream.token (netRewards s user (done ++ [i])) := by
  rw [netRewards_concat facts.listed, sumAt_append, sumAt_singleton, if_pos rfl,
    facts.payout_token, h.totals.getD, facts.payout]
  rfl

/-- A round pays one more stream. -/
theorem PaidSoFar.round (h : PaidSoFar e s ledger treasury user done w totals)
    (facts : RoundFacts e s.getStreams treasury user w i
      (s.getUserRewardDebt user i).pendingRewards stream w₁ payout) :
    PaidSoFar e s ledger treasury user (done ++ [i]) w₁
      (totals.set payout.token ((totals.get payout.token).getD 0 + payout.netReward)) := by
  refine ⟨fun j hj => ?_, fun t => ?_, ?_⟩
  · rw [List.mem_append, List.mem_singleton, not_or] at hj
    rw [facts.others (Ne.symm hj.2)]
    exact h.debts j hj.1
  · rw [facts.balance t, h.ledger t, outflows_concat facts.listed, sumAt_append, sumAt_singleton]
    simp only [eq_comm (a := t)]
    omega
  · rw [netRewards_concat facts.listed, facts.payout_token]
    have hnet : payout.netReward = (s.getUserRewardDebt user i).pendingRewards -
        treasuryFeeOn (s.getUserRewardDebt user i).pendingRewards := by
      rw [facts.payout]
      rfl
    rw [hnet]
    exact h.totals.add _ _

/-- A round returns, with a total that fits, exactly when its stream is payable. -/
theorem PaidSoFar.round_iff (h : PaidSoFar e s ledger treasury user done w totals)
    (hnew : i ∉ done) (swapRouter : Address) :
    (∃ w₁ payout,
      claimStream e s.getStreams treasury swapRouter user none w i = .ok (w₁, payout) ∧
        Fits 128 ((totals.get payout.token).getD 0 + payout.netReward)) ↔
      ∃ stream, Payable e s ledger treasury user done i stream := by
  constructor
  · rintro ⟨w₁, payout, hround, hfits⟩
    obtain ⟨stream, facts⟩ := h.facts hnew hround
    have hcovered := facts.covered
    rw [h.ledger] at hcovered
    rw [h.running_total facts] at hfits
    exact ⟨stream, facts.listed, facts.inTime, facts.pos, facts.fits, by omega, hfits⟩
  · rintro ⟨stream, hpayable⟩
    have hcovered : (s.getUserRewardDebt user i).pendingRewards ≤
        w.ledger stream.token e.contract := by
      have hpaid := hpayable.covered
      rw [h.ledger]
      omega
    obtain ⟨⟨w₁, payout⟩, hround⟩ : ∃ r,
        claimStream e s.getStreams treasury swapRouter user none w i = .ok r :=
      claimStream_returns hpayable.listed hpayable.inTime
        (congrArg UserRewardDebt.pendingRewards (h.debts i hnew)) hpayable.pos hpayable.fits
        hcovered
    obtain ⟨stream₁, facts⟩ := h.facts hnew hround
    obtain rfl : stream = stream₁ := Option.some.inj (hpayable.listed.symm.trans facts.listed)
    refine ⟨w₁, payout, hround, ?_⟩
    rw [h.running_total facts]
    exact hpayable.total

theorem claimStreams_returns_iff {is : List ℕ} (hdistinct : (done ++ is).Nodup)
    (h : PaidSoFar e s ledger treasury user done w totals) (swapRouter : Address) :
    (∃ r, claimStreams e s.getStreams treasury swapRouter user none is w totals = .ok r) ↔
      InTurn (fun done i => ∃ stream, Payable e s ledger treasury user done i stream) done is := by
  induction is generalizing done w totals with
  | nil => exact iff_of_true ⟨_, rfl⟩ trivial
  | cons i rest ih =>
      have hnew : i ∉ done := fun hmem =>
        List.disjoint_of_nodup_append hdistinct hmem List.mem_cons_self
      have hdistinct' : (done ++ [i] ++ rest).Nodup := by
        rwa [List.append_assoc]
      rw [InTurn, ← h.round_iff hnew swapRouter]
      constructor
      · rintro ⟨r, hr⟩
        simp only [claimStreams, bind_eq_ok, I128.add_eq_ok] at hr
        obtain ⟨⟨w₁, payout⟩, hround, _, ⟨hfits, rfl⟩, r₂, hrest, -⟩ := hr
        obtain ⟨stream, facts⟩ := h.facts hnew hround
        exact ⟨⟨w₁, payout, hround, hfits⟩, (ih hdistinct' (h.round facts)).mp ⟨r₂, hrest⟩⟩
      · rintro ⟨⟨w₁, payout, hround, hfits⟩, hturn⟩
        obtain ⟨stream, facts⟩ := h.facts hnew hround
        obtain ⟨⟨w₂, payouts⟩, hrest⟩ := (ih hdistinct' (h.round facts)).mpr hturn
        refine ⟨(w₂, payout :: payouts), ?_⟩
        simp only [claimStreams, bind_eq_ok, I128.add_eq_ok, pure_eq_ok]
        exact ⟨_, hround, _, ⟨hfits, rfl⟩, _, hrest, rfl⟩

end loop

/-- A claim returns exactly when it is accepted. -/
theorem claimRewards_returns_iff {e : Env} {w : RewardWorld} {user vault : Address} {is : List ℕ}
    (hdistinct : is.Nodup) :
    (∃ r, claimRewards e w user vault is none = .ok r) ↔
      ClaimAccepted e w.store w.ledger user is := by
  have hloop : ∀ treasury swapRouter, (∃ r, claimStreams e w.store.getStreams treasury swapRouter
      user none is w .empty = .ok r) ↔ InTurn (fun done i => ∃ stream,
        Payable e w.store w.ledger treasury user done i stream) [] is := fun _ =>
    claimStreams_returns_iff hdistinct ⟨fun _ _ => rfl, fun _ => (sub_zero _).symm, tallies_empty⟩
  simp only [claimRewards, RewardStore.requireNotEmergency, RewardStore.requireNotPaused,
    RewardStore.getTreasury, RewardStore.getSwapRouter, bind_eq_ok, pure_eq_ok, require_eq_ok,
    orRaise_eq_ok, exists_const]
  constructor
  · rintro ⟨_, hemergency, hrunning, treasury, htreasury, swapRouter, hrouter, r, hc, -⟩
    exact ⟨hemergency, hrunning, Option.isSome_iff_exists.mpr ⟨_, hrouter⟩, treasury, htreasury,
      (hloop treasury swapRouter).mp ⟨r, hc⟩⟩
  · rintro ⟨hemergency, hrunning, hrouter, treasury, htreasury, hturn⟩
    obtain ⟨swapRouter, hrouter⟩ := Option.isSome_iff_exists.mp hrouter
    obtain ⟨r, hc⟩ := (hloop treasury swapRouter).mpr hturn
    exact ⟨_, hemergency, hrunning, treasury, htreasury, swapRouter, hrouter, r, hc, rfl⟩

end YieldEngine.Rewards
