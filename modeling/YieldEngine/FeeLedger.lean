import YieldEngine.GovernanceRuns
import YieldEngine.Rounding

/-! # The books of the fee distributor

After every run the distributor has booked the fees its treasury reported, in all and by weeks, and
each user has claimed a week at most once (`fees_are_booked`).

A claim is a share of what the week has by then, weighed by the stakes at that time.  While the stakes
rest, the claims of a week stay within its fees (`claims_within_fees`). -/

namespace YieldEngine.Governance

open CheckedArith Transact SortedMap FeeDistributor

variable {d : Deployment} {w w' : World}

/-- The fees a call reports, with the week they belong to. -/
def collections (_ : World) (c : GovEnv × Action) : List (ℕ × ℤ) :=
  match c.2 with
  | .fees (.collectFees _ amount) => [(currentWeek c.1, amount)]
  | _ => []

/-- A booked claim. -/
structure Claim where
  user : Address
  week : ℕ
  paid : ℤ
deriving DecidableEq, Repr

/-- The claim a call books. -/
def claims (w : World) (c : GovEnv × Action) : List Claim :=
  match c.2 with
  | .fees (.claimWeek user week) =>
      if w.staking.getTotalStaked = 0 then [] else [⟨user, week, share w.fees w.staking user week⟩]
  | _ => []

/-- What a returning call does to the books. -/
inductive Booked (w : World) (c : GovEnv × Action) : FeeDistributor.Store → Prop
  | kept (hcollections : collections w c = []) (hclaims : claims w c = []) : Booked w c w.fees
  | collected {week : ℕ} {amount : ℤ} (hcollections : collections w c = [(week, amount)])
      (hclaims : claims w c = []) : Booked w c (w.fees.collected week amount)
  | claimed {user : Address} {week : ℕ} (hcollections : collections w c = [])
      (hclaims : claims w c = [⟨user, week, share w.fees w.staking user week⟩])
      (hstaked : w.staking.getTotalStaked ≠ 0) (hnew : w.fees.hasClaimed user week = false) :
      Booked w c (w.fees.marked user week)

theorem step_booked {c : GovEnv × Action} (h : Step d w c.1 c.2 w') : Booked w c w'.fees := by
  obtain ⟨e, a⟩ := c
  cases h with
  | fees h =>
      rename_i a _
      cases a with
      | collectFees caller amount =>
          obtain ⟨-, -, rfl⟩ := collectFees_ok h
          exact .collected rfl rfl
      | claimWeek user week =>
          obtain ⟨⟨s', paid⟩, hcall, rfl⟩ := map_eq_ok.mp h
          obtain ⟨-, hnew, ⟨hzero, rfl, -⟩ | ⟨hstaked, rfl, -⟩⟩ := claimWeek_ok hcall
          · exact .kept rfl (if_pos hzero)
          · exact .claimed rfl (if_neg hstaked) hstaked hnew
  | _ => exact .kept rfl rfl

/-! ### What was collected and claimed -/

/-- The distributor holds the fees `log`. -/
structure Collected (log : List (ℕ × ℤ)) (w : World) : Prop where
  total : w.fees.getTotalFeesCollected = (log.map Prod.snd).sum
  weeks : ∀ week, w.fees.weekFees.amount week = sumAt week log
  starts : ∀ week start, w.fees.weekStarts.get week = some start → start = week * secondsPerWeek

theorem started_get (s : FeeDistributor.Store) (week j : ℕ) :
    (s.started week).weekStarts.get j = s.weekStarts.get j ∨
      j = week ∧ (s.started week).weekStarts.get j = some (week * secondsPerWeek) := by
  unfold Store.started
  split_ifs with hnone
  · by_cases hj : j = week
    · exact .inr ⟨hj, by rw [hj]; exact get_set_self _ _ _⟩
    · exact .inl (get_set_ne _ _ hj)
  · exact .inl rfl

theorem step_collected {log : List (ℕ × ℤ)} {c : GovEnv × Action} (h : Step d w c.1 c.2 w')
    (hs : Collected log w) : Collected (log ++ collections w c) w' := by
  have hbooked := step_booked h
  generalize hfees : w'.fees = fees at hbooked
  cases hbooked with
  | kept hcollections _ =>
      rw [hcollections, List.append_nil]
      exact ⟨hfees ▸ hs.total, hfees ▸ hs.weeks, hfees ▸ hs.starts⟩
  | @collected week amount hcollections _ =>
      rw [hcollections]
      refine ⟨?_, fun j => ?_, fun j start hstart => ?_⟩
      · rw [hfees, List.map_append, List.sum_append, ← hs.total]
        simp [Store.getTotalFeesCollected, Store.collected]
      · rw [hfees, sumAt_append, ← hs.weeks j, sumAt_singleton]
        exact amount_credit_eq_add _ _ _ _
      · rw [hfees] at hstart
        rcases started_get w.fees week j with hold | ⟨rfl, hnew⟩
        · exact hs.starts j start (hold.symm.trans hstart)
        · exact (Option.some.inj (hnew.symm.trans hstart)).symm
  | claimed hcollections _ _ _ =>
      rw [hcollections, List.append_nil]
      exact ⟨hfees ▸ hs.total, hfees ▸ hs.weeks, hfees ▸ hs.starts⟩

/-- The claims `log` are those on the books, each once. -/
structure Claimed (log : List Claim) (w : World) : Prop where
  once : (log.map fun c => (c.user, c.week)).Nodup
  known : ∀ user week, w.fees.hasClaimed user week = true ↔
    (user, week) ∈ log.map fun c => (c.user, c.week)

theorem hasClaimed_marked_iff (s : FeeDistributor.Store) (user a : Address) (week j : ℕ) :
    (s.marked user week).hasClaimed a j = true ↔
      s.hasClaimed a j = true ∨ (a, j) = (user, week) := by
  unfold Store.hasClaimed Store.marked
  rw [get_set]
  by_cases h : (a, j) = (user, week)
  · simp [h]
  · have hne : toLex (a, j) ≠ toLex (user, week) := h
    simp only [if_neg hne, h, or_false]

theorem step_claimed {log : List Claim} {c : GovEnv × Action} (h : Step d w c.1 c.2 w')
    (hs : Claimed log w) : Claimed (log ++ claims w c) w' := by
  have hbooked := step_booked h
  generalize hfees : w'.fees = fees at hbooked
  cases hbooked with
  | kept _ hclaims =>
      rw [hclaims, List.append_nil]
      exact ⟨hs.once, hfees ▸ hs.known⟩
  | @collected week amount _ hclaims =>
      rw [hclaims, List.append_nil]
      refine ⟨hs.once, fun user j => ?_⟩
      rw [hfees, ← hs.known]
      unfold Store.hasClaimed Store.collected Store.started
      split_ifs <;> rfl
  | @claimed user week _ hclaims _ hnew =>
      rw [hclaims]
      have hmissing : (user, week) ∉ log.map fun c => (c.user, c.week) := by
        rw [← hs.known, hnew]
        exact Bool.false_ne_true
      refine ⟨?_, fun a j => ?_⟩
      · rw [List.map_append, List.nodup_append_comm]
        exact List.nodup_cons.mpr ⟨hmissing, hs.once⟩
      · rw [hfees, hasClaimed_marked_iff, hs.known, List.map_append, List.mem_append,
          List.map_singleton, List.mem_singleton]

/-- After every run the distributor has booked what its treasury reported, in all and by weeks; a
user has claimed a week at most once, and exactly the claims on the books count as claimed; and
every week is taken to start where it starts on the clock. -/
theorem fees_are_booked {e : GovEnv} {p : Parties} {w : World} (d : Deployment)
    (h : deployed e d p = .ok w) (calls : List (GovEnv × Action)) :
    let s := (run (exec d) w calls).fees
    let collected := ghostLog (exec d) collections w calls
    let claimed := (ghostLog (exec d) claims w calls).map fun c => (c.user, c.week)
    s.getTotalFeesCollected = (collected.map Prod.snd).sum ∧
      (∀ week, s.weekFees.amount week = sumAt week collected) ∧
      claimed.Nodup ∧
      (∀ user week, s.hasClaimed user week = true ↔ (user, week) ∈ claimed) ∧
      ∀ week start, s.getWeekStart week = .ok start → start = week * secondsPerWeek := by
  obtain ⟨-, -, hfees, -, -, -⟩ := deployed_ok h
  have hfirst : Collected [] w := by
    refine ⟨by rw [hfees]; rfl, fun week => by rw [hfees]; rfl, fun week start hstart => ?_⟩
    rw [hfees] at hstart
    cases hstart
  have hnone : Claimed [] w := by
    refine ⟨List.nodup_nil, fun user week => ?_⟩
    rw [hfees]
    exact iff_of_false Bool.false_ne_true (List.not_mem_nil)
  have hcollected : Collected (ghostLog (exec d) collections w calls) (run (exec d) w calls) :=
    run_log_invariant (Q := fun _ _ => True)
      (fun _ _ _ _ hs _ hcall => step_collected (exec_step hcall) hs) calls w [] hfirst
      (along_true calls w)
  have hclaimed : Claimed (ghostLog (exec d) claims w calls) (run (exec d) w calls) :=
    run_log_invariant (Q := fun _ _ => True)
      (fun _ _ _ _ hs _ hcall => step_claimed (exec_step hcall) hs) calls w [] hnone
      (along_true calls w)
  refine ⟨hcollected.total, hcollected.weeks, hclaimed.once, hclaimed.known, ?_⟩
  intro week start hstart
  simp only [Store.getWeekStart, bind_eq_ok, checkedU_eq_ok, pure_eq_ok] at hstart
  obtain ⟨_, ⟨-, rfl⟩, rfl⟩ := hstart
  cases hget : (run (exec d) w calls).fees.weekStarts.get week with
  | none => rfl
  | some start => exact hcollected.starts week start hget

theorem fees_are_booked_sample :
    let calls := [(⟨[4], 0, 0⟩, .fees (.collectFees 4 1000)),
      (⟨[2], 0, 0⟩, .staking (.stake 2 70)), (⟨[2], 1, 0⟩, .fees (.claimWeek 2 0))]
    let s := (run (exec sampleDeployment) sampleWorld calls).fees
    let collected := ghostLog (exec sampleDeployment) collections sampleWorld calls
    let claimed :=
      (ghostLog (exec sampleDeployment) claims sampleWorld calls).map fun c => (c.user, c.week)
    s.getTotalFeesCollected = (collected.map Prod.snd).sum ∧
      (∀ week, s.weekFees.amount week = sumAt week collected) ∧
      claimed.Nodup ∧
      (∀ user week, s.hasClaimed user week = true ↔ (user, week) ∈ claimed) ∧
      ∀ week start, s.getWeekStart week = .ok start → start = week * secondsPerWeek :=
  fees_are_booked sampleDeployment sampleWorld_deployed _

/-! ### Claims and fees -/

/-- The stakes are those of `staking`, and each claim in `log` was within the share its user has in
the fees of the week now. -/
structure Shared (staking : StakingContract.Store) (week : ℕ) (log : List Claim) (w : World) :
    Prop where
  rest : w.staking = staking
  fees_nonneg : 0 ≤ w.fees.weekFees.amount week
  marked : ∀ c ∈ log, w.fees.hasClaimed c.user c.week = true
  once : ((log.filter fun c => c.week = week).map Claim.user).Nodup
  within : ∀ c ∈ log, c.week = week → staking.getTotalStaked ≠ 0 ∧
    c.paid * staking.getTotalStaked ≤
      w.fees.weekFees.amount week * staking.getStakeBalance c.user

section shares
variable {staking : StakingContract.Store} {week : ℕ} {log : List Claim}

/-- More fees keep the shares. -/
theorem Shared.more (h : Shared staking week log w) {fees : FeeDistributor.Store}
    (hstakes : ∀ user, 0 ≤ staking.getStakeBalance user)
    (hfees : w.fees.weekFees.amount week ≤ fees.weekFees.amount week)
    (hclaims : fees.userClaimedWeek = w.fees.userClaimedWeek) (v : World)
    (hv : v.staking = w.staking ∧ v.fees = fees) : Shared staking week log v where
  rest := hv.1.trans h.rest
  fees_nonneg := by
    rw [hv.2]
    exact h.fees_nonneg.trans hfees
  marked := by
    intro c hc
    rw [hv.2, Store.hasClaimed, hclaims]
    exact h.marked c hc
  once := h.once
  within := by
    intro c hc hweek
    obtain ⟨hstaked, hle⟩ := h.within c hc hweek
    rw [hv.2]
    exact ⟨hstaked, hle.trans (mul_le_mul_of_nonneg_right hfees (hstakes c.user))⟩

theorem collections_nonneg {c : GovEnv × Action} (w : World)
    (h : ∀ caller amount, c.2 = .fees (.collectFees caller amount) → 0 ≤ amount) :
    ∀ p ∈ collections w c, 0 ≤ p.2 := by
  intro p hp
  unfold collections at hp
  split at hp
  · obtain rfl := List.mem_singleton.mp hp
    exact h _ _ (by assumption)
  · cases hp

theorem step_shared (hstakes : ∀ user, 0 ≤ staking.getStakeBalance user)
    (htotal : staking.getTotalStaked = staking.stakes.total id) {c : GovEnv × Action}
    (h : Step d w c.1 c.2 w') (hrest : ∀ a, c.2 ≠ .staking a)
    (hnonneg : ∀ p ∈ collections w c, 0 ≤ p.2) (hs : Shared staking week log w) :
    Shared staking week (log ++ claims w c) w' := by
  have hstaking : w'.staking = w.staking := by
    obtain ⟨e, a⟩ := c
    cases h with
    | staking _ => exact absurd rfl (hrest _)
    | _ => rfl
  have hbooked := step_booked h
  generalize hfees : w'.fees = fees at hbooked
  cases hbooked with
  | kept _ hclaims =>
      rw [hclaims, List.append_nil]
      exact hs.more hstakes le_rfl rfl w' ⟨hstaking, hfees⟩
  | @collected j amount hcollections hclaims =>
      rw [hclaims, List.append_nil]
      have hamount : 0 ≤ amount :=
        hnonneg (j, amount) (by rw [hcollections]; exact List.mem_cons_self)
      refine hs.more hstakes ?_ ?_ w' ⟨hstaking, hfees⟩
      · refine le_trans ?_ (amount_credit_eq_add w.fees.weekFees j week amount).ge
        split_ifs <;> omega
      · unfold Store.collected Store.started
        split_ifs <;> rfl
  | @claimed user j _ hclaims hstaked hnew =>
      rw [hclaims]
      refine ⟨hstaking.trans hs.rest, by rw [hfees]; exact hs.fees_nonneg, fun c' hc' => ?_, ?_,
        fun c' hc' hweek => ?_⟩
      · rw [hfees, hasClaimed_marked_iff]
        rcases List.mem_append.mp hc' with hc' | hc'
        · exact .inl (hs.marked c' hc')
        · obtain rfl := List.mem_singleton.mp hc'
          exact .inr rfl
      · rw [List.filter_append, List.map_append]
        by_cases hj : j = week
        · have hmissing : user ∉ (log.filter fun c => c.week = week).map Claim.user := by
            intro hmem
            obtain ⟨c', hc', rfl⟩ := List.mem_map.mp hmem
            obtain ⟨hlog, hweek⟩ := List.mem_filter.mp hc'
            have hold := hs.marked c' hlog
            rw [of_decide_eq_true hweek, ← hj, hnew] at hold
            cases hold
          rw [List.nodup_append_comm]
          simpa [hj] using ⟨by simpa using hmissing, hs.once⟩
        · simpa [hj] using hs.once
      · rw [hfees]
        rcases List.mem_append.mp hc' with hc' | hc'
        · exact hs.within c' hc' hweek
        · obtain rfl := List.mem_singleton.mp hc'
          obtain rfl : j = week := hweek
          rw [hs.rest] at hstaked ⊢
          have hpos : 0 < staking.getTotalStaked := by
            have hnonneg := total_amounts_nonneg (m := staking.stakes) hstakes
            omega
          exact ⟨hstaked, (Rounding.tdiv_bounds
            (mul_nonneg hs.fees_nonneg (hstakes user)) hpos).2.1⟩

end shares

/-- From any state whose stakes are not negative and add up, over every run in which nobody stakes or
unstakes and no negative fees are reported, the claims of a week are within its fees. -/
theorem claims_within_fees (d : Deployment) (w : World) (week : ℕ)
    (hstakes : ∀ user, 0 ≤ w.staking.getStakeBalance user)
    (htotal : w.staking.getTotalStaked = w.staking.stakes.total id)
    (hfees : 0 ≤ w.fees.weekFees.amount week) (calls : List (GovEnv × Action))
    (hcalls : ∀ c ∈ calls, (∀ a, c.2 ≠ .staking a) ∧
      ∀ caller amount, c.2 = .fees (.collectFees caller amount) → 0 ≤ amount) :
    (((ghostLog (exec d) claims w calls).filter fun c => c.week = week).map Claim.paid).sum ≤
      (run (exec d) w calls).fees.weekFees.amount week := by
  have hstart : Shared w.staking week [] w :=
    ⟨rfl, hfees, fun _ hc => absurd hc List.not_mem_nil, List.nodup_nil,
      fun _ hc => absurd hc List.not_mem_nil⟩
  have hrun : Shared w.staking week (ghostLog (exec d) claims w calls) (run (exec d) w calls) := by
    refine run_log_invariant (Q := fun _ c => (∀ a, c.2 ≠ .staking a) ∧
        ∀ caller amount, c.2 = .fees (.collectFees caller amount) → 0 ≤ amount)
      (fun _ v c _ hs hc hcall => step_shared hstakes htotal (exec_step hcall) hc.1 ?_ hs) calls w
      [] hstart (along_of_forall calls w hcalls)
    exact collections_nonneg v hc.2
  generalize ghostLog (exec d) claims w calls = log at hrun
  cases hempty : log.filter fun c => c.week = week with
  | nil => exact hrun.fees_nonneg
  | cons c rest =>
      obtain ⟨hc, hweek⟩ := List.mem_filter.mp (hempty ▸ List.mem_cons_self)
      have hstaked := (hrun.within c hc (of_decide_eq_true hweek)).1
      have hnonneg := total_amounts_nonneg (m := w.staking.stakes) hstakes
      rw [← hempty]
      have hkeys : (((log.filter fun c => c.week = week).map fun c => (c.user, c.paid)).map
          Prod.fst).Nodup := by
        rw [List.map_map]
        exact hrun.once
      have hshares := sum_shares_le hstakes (by omega) hrun.fees_nonneg hkeys fun p hp => ?_
      · rwa [List.map_map] at hshares
      · obtain ⟨c', hc', rfl⟩ := List.mem_map.mp hp
        obtain ⟨hlog, hweek'⟩ := List.mem_filter.mp hc'
        rw [← htotal]
        exact (hrun.within c' hlog (of_decide_eq_true hweek')).2

theorem claims_within_fees_sample :
    let w := run (exec sampleDeployment) sampleWorld
      [(⟨[2], 0, 0⟩, .staking (.stake 2 70)), (⟨[3], 0, 0⟩, .staking (.stake 3 50))]
    let calls : List (GovEnv × Action) := [(⟨[4], 0, 0⟩, .fees (.collectFees 4 1000)),
      (⟨[2], 1, 0⟩, .fees (.claimWeek 2 0)), (⟨[3], 1, 0⟩, .fees (.claimWeek 3 0))]
    (((ghostLog (exec sampleDeployment) claims w calls).filter fun c => c.week = 0).map
        Claim.paid).sum ≤ (run (exec sampleDeployment) w calls).fees.weekFees.amount 0 := by
  intro w calls
  have hstakes : w.staking.stakes = (SortedMap.empty.set 2 70).set 3 50 := by rfl
  refine claims_within_fees sampleDeployment w 0 (fun user => ?_) (by decide +kernel)
    (by decide +kernel) calls ?_
  · rw [StakingContract.Store.getStakeBalance, hstakes, amount_set, amount_set]
    split_ifs <;> simp
  · intro c hc
    simp only [calls, List.mem_cons, List.not_mem_nil, or_false] at hc
    rcases hc with rfl | rfl | rfl <;> simp

end YieldEngine.Governance
