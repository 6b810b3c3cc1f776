import YieldEngine.FeeDistributor
import YieldEngine.KeyedLoops

/-! # What a staker can claim

`get_claimable_fees` adds up the shares of the weeks of the last year that are not claimed yet.  A
staker who claims these weeks one by one, at that time, is paid exactly this, and nothing is left
(`claimable_is_claimed`). -/

namespace YieldEngine.FeeDistributor

open CheckedArith KeyedLoops

/-- One more claim, with what has been paid so far. -/
def claimNext (e : GovEnv) (staking : StakingContract.Store) (user : Address) (s : Store × ℤ)
    (week : ℕ) : GovCall (Store × ℤ) := do
  let r ← claimWeek e staking s.1 user week
  pure (r.1, s.2 + r.2)

/-- The weeks of the last year that a user has not claimed. -/
def unclaimedWeeks (e : GovEnv) (s : Store) (user : Address) : List ℕ :=
  (lastWeeks (currentWeek e)).filter fun week => s.hasClaimed user week = false

section
variable {e : GovEnv} {staking : StakingContract.Store} {s t : Store} {user : Address} {week : ℕ}

@[simp] theorem hasClaimed_marked (s : Store) (user : Address) (week j : ℕ) :
    (s.marked user week).hasClaimed user j = if j = week then true else s.hasClaimed user j := by
  unfold Store.hasClaimed Store.marked
  rw [SortedMap.get_set]
  by_cases hj : j = week
  · simp [hj]
  · have hne : toLex (user, j) ≠ toLex (user, week) := fun h => hj (Prod.mk.inj h).2
    rw [if_neg hne, if_neg hj]

/-- A claim of a week nobody has claimed for the user pays the share and marks the week. -/
theorem claimWeek_of_share {share : ℤ} (hauth : user ∈ e.auths)
    (hnew : s.hasClaimed user week = false) (hstaking : s.stakingContract.isSome)
    (hstaked : staking.getTotalStaked ≠ 0)
    (hshare : shareOf s (staking.getStakeBalance user) staking.getTotalStaked week = .ok share) :
    claimWeek e staking s user week = .ok (s.marked user week, share) := by
  obtain ⟨a, ha⟩ := Option.isSome_iff_exists.mp hstaking
  simp only [claimWeek, Store.getStakingContract, bind_eq_ok, GovEnv.requireAuth_eq_ok,
    require_eq_ok, orRaise_eq_ok, exists_const]
  refine ⟨hauth, hnew, a, ha, ?_⟩
  rw [if_neg hstaked, hshare]
  rfl

/-- The loop over the weeks and the claims of those not claimed yet go together: `t` is `s` with
some other weeks marked. -/
theorem claims_of_loop (hauth : user ∈ e.auths) (hstaked : staking.getTotalStaked ≠ 0)
    {weeks : List ℕ} (hnodup : weeks.Nodup) :
    ∀ {t : Store} {paid total : ℤ}, t.stakingContract.isSome → t.weekFees = s.weekFees →
      (∀ week ∈ weeks, t.hasClaimed user week = s.hasClaimed user week) →
      weeks.foldlM (addClaimable s user (staking.getStakeBalance user) staking.getTotalStaked)
        paid = .ok total →
      ∃ t', (weeks.filter fun week => s.hasClaimed user week = false).foldlM
          (claimNext e staking user) (t, paid) = .ok (t', total) ∧
        t'.stakingContract = t.stakingContract ∧
        ∀ week, (week ∈ weeks ∨ t.hasClaimed user week = true) →
          t'.hasClaimed user week = true := by
  induction weeks with
  | nil =>
      intro t paid total _ _ _ hloop
      obtain rfl := Except.ok.inj hloop
      exact ⟨t, rfl, rfl, by simp⟩
  | cons week weeks ih =>
      intro t paid total hstaking hfees hsame hloop
      obtain ⟨hweek, hweeks⟩ := List.nodup_cons.mp hnodup
      obtain ⟨mid, hround, hrest⟩ := foldlM_cons_ok.mp hloop
      have hown := hsame week List.mem_cons_self
      have hlater : ∀ j ∈ weeks, t.hasClaimed user j = s.hasClaimed user j := fun j hj =>
        hsame j (List.mem_cons_of_mem week hj)
      rw [addClaimable] at hround
      by_cases hclaimed : s.hasClaimed user week = true
      · -- claimed already: neither loop looks at the week
        rw [if_pos hclaimed] at hround
        obtain rfl := pure_eq_ok.mp hround
        obtain ⟨t', hclaims, hkept, hdone⟩ := ih hweeks hstaking hfees hlater hrest
        refine ⟨t', ?_, hkept, fun j hj => hdone j ?_⟩
        · rw [List.filter_cons_of_neg (by simp [hclaimed])]
          exact hclaims
        · rcases hj with hj | hj
          · rcases List.mem_cons.mp hj with rfl | hj
            · exact .inr (hown.trans hclaimed)
            · exact .inl hj
          · exact .inr hj
      · have hnew : s.hasClaimed user week = false := Bool.not_eq_true _ ▸ hclaimed
        rw [if_neg hclaimed] at hround
        obtain ⟨share, hshare, hsum⟩ := bind_eq_ok.mp hround
        obtain ⟨-, rfl⟩ := I128.add_eq_ok.mp hsum
        have hshare' : shareOf t (staking.getStakeBalance user) staking.getTotalStaked week =
            .ok share := by
          rw [← hshare, shareOf, shareOf, hfees]
        have hclaim := claimWeek_of_share hauth (hown.trans hnew) hstaking hstaked hshare'
        obtain ⟨t', hclaims, hkept, hdone⟩ := ih hweeks (t := t.marked user week) hstaking hfees
          (fun j hj => by
            have hne : j ≠ week := by
              rintro rfl
              exact hweek hj
            rw [hasClaimed_marked, if_neg hne, hlater j hj]) hrest
        refine ⟨t', ?_, hkept, fun j hj => hdone j ?_⟩
        · rw [List.filter_cons_of_pos (by simp [hnew]), foldlM_cons_ok]
          refine ⟨(t.marked user week, paid + share), ?_, hclaims⟩
          rw [claimNext, hclaim]
          rfl
        · rw [hasClaimed_marked]
          rcases hj with hj | hj
          · rcases List.mem_cons.mp hj with rfl | hj
            · exact .inr (if_pos rfl)
            · exact .inl hj
          · exact .inr (by simp [hj])

/-- A staker without a stake is owed nothing. -/
theorem foldlM_addClaimable_zero {totalStake : ℤ} (hstaked : totalStake ≠ 0) (weeks : List ℕ) :
    weeks.foldlM (addClaimable s user 0 totalStake) 0 = .ok 0 := by
  induction weeks with
  | nil => rfl
  | cons week weeks ih =>
      refine foldlM_cons_ok.mpr ⟨0, ?_, ih⟩
      rw [addClaimable]
      split_ifs
      · rfl
      · simp only [shareOf, bind_eq_ok, I128.mul_eq_ok, I128.div_eq_ok, I128.add_eq_ok]
        refine ⟨0, ⟨0, ⟨by rw [mul_zero]; decide, mul_zero _⟩, hstaked, ?_, Int.zero_tdiv _⟩,
          by decide, rfl⟩
        rw [Int.zero_tdiv]
        decide

/-- Weeks that are claimed add nothing. -/
theorem foldlM_addClaimable_claimed {userStake totalStake : ℤ} {weeks : List ℕ}
    (h : ∀ week ∈ weeks, s.hasClaimed user week = true) :
    weeks.foldlM (addClaimable s user userStake totalStake) 0 = .ok 0 := by
  induction weeks with
  | nil => rfl
  | cons week weeks ih =>
      refine foldlM_cons_ok.mpr ⟨0, ?_, ih fun j hj => h j (List.mem_cons_of_mem week hj)⟩
      rw [addClaimable, if_pos (h week List.mem_cons_self)]
      rfl

/-- Without any stake a claim is answered with nothing and is not booked. -/
theorem claims_without_stake (hauth : user ∈ e.auths) (hstaking : s.stakingContract.isSome)
    (hstaked : staking.getTotalStaked = 0) {weeks : List ℕ}
    (h : ∀ week ∈ weeks, s.hasClaimed user week = false) :
    weeks.foldlM (claimNext e staking user) (s, 0) = .ok (s, 0) := by
  obtain ⟨a, ha⟩ := Option.isSome_iff_exists.mp hstaking
  induction weeks with
  | nil => rfl
  | cons week weeks ih =>
      refine foldlM_cons_ok.mpr ⟨(s, 0), ?_, ih fun j hj => h j (List.mem_cons_of_mem week hj)⟩
      have hclaim : claimWeek e staking s user week = .ok (s, 0) := by
        simp only [claimWeek, Store.getStakingContract, bind_eq_ok, GovEnv.requireAuth_eq_ok,
          require_eq_ok, orRaise_eq_ok, exists_const]
        refine ⟨hauth, h week List.mem_cons_self, a, ha, ?_⟩
        rw [if_pos hstaked]
        rfl
      rw [claimNext, hclaim]
      rfl

/-- Whatever is on the books: when `get_claimable_fees` returns an amount, claiming every unclaimed
week of the last year, one by one, returns and pays this amount in all, and afterwards
`get_claimable_fees` returns zero. -/
theorem claimable_is_claimed (e : GovEnv) (staking : StakingContract.Store) (s : Store)
    (user : Address) (hauth : user ∈ e.auths) {total : ℤ}
    (h : getClaimableFees e staking s user = .ok total) :
    ∃ t, (unclaimedWeeks e s user).foldlM (claimNext e staking user) (s, 0) = .ok (t, total) ∧
      getClaimableFees e staking t user = .ok 0 := by
  simp only [getClaimableFees, Store.getStakingContract, bind_eq_ok, orRaise_eq_ok] at h
  obtain ⟨a, ha, hloop⟩ := h
  have hstaking : s.stakingContract.isSome := by
    rw [ha]
    rfl
  by_cases hstaked : staking.getTotalStaked = 0
  · rw [if_pos (.inl hstaked)] at hloop
    obtain rfl := pure_eq_ok.mp hloop
    refine ⟨s, claims_without_stake hauth hstaking hstaked fun week hweek => ?_, ?_⟩
    · simpa using List.of_mem_filter hweek
    · simp only [getClaimableFees, Store.getStakingContract, bind_eq_ok, orRaise_eq_ok]
      exact ⟨a, ha, by rw [if_pos (.inl hstaked)]; rfl⟩
  · have hall : (lastWeeks (currentWeek e)).foldlM (addClaimable s user
        (staking.getStakeBalance user) staking.getTotalStaked) 0 = .ok total := by
      by_cases hnone : staking.getStakeBalance user = 0
      · rw [if_pos (.inr hnone)] at hloop
        obtain rfl := pure_eq_ok.mp hloop
        rw [hnone]
        exact foldlM_addClaimable_zero hstaked _
      · rwa [if_neg (not_or.mpr ⟨hstaked, hnone⟩)] at hloop
    obtain ⟨t, hclaims, hkept, hdone⟩ := claims_of_loop hauth hstaked List.nodup_range' hstaking rfl
      (fun _ _ => rfl) hall
    refine ⟨t, hclaims, ?_⟩
    simp only [getClaimableFees, Store.getStakingContract, bind_eq_ok, orRaise_eq_ok]
    refine ⟨a, hkept.trans ha, ?_⟩
    split_ifs
    · rfl
    · exact foldlM_addClaimable_claimed fun week hweek => hdone week (.inl hweek)

theorem claimable_is_claimed_sample :
    let staking : StakingContract.Store := { StakingContract.Store.fresh with
      stakes := SortedMap.empty.set 2 70
      totalStaked := some 100 }
    let s := (initializeDistributor ⟨[], 0, 0⟩ .fresh 4 101).collected 0 1000
    getClaimableFees ⟨[2], 9, 0⟩ staking s 2 = .ok 700 ∧
      ∃ t, (unclaimedWeeks ⟨[2], 9, 0⟩ s 2).foldlM (claimNext ⟨[2], 9, 0⟩ staking 2) (s, 0) =
          .ok (t, 700) ∧
        getClaimableFees ⟨[2], 9, 0⟩ staking t 2 = .ok 0 := by
  intro staking s
  have h : getClaimableFees ⟨[2], 9, 0⟩ staking s 2 = .ok 700 := by rfl
  exact ⟨h, claimable_is_claimed _ staking s 2 (by decide) h⟩

end
end YieldEngine.FeeDistributor
