import YieldEngine.GovernanceCustody
import YieldEngine.Rounding

/-! # What a lock commits to

From any state on and until the end a lock has there, the lock is not closed, shortened or opened
anew, whoever calls what: what is locked grows by the increases of its owner, and the end only
moves back (`lock_holds`).

The boost of a lock is meant to grow with its duration.  It is computed from `10000` upwards and
capped at `2500`, so the cap always applies: every running lock counts with a quarter of its amount
(`boost_is_a_quarter`). -/

namespace YieldEngine.Governance

open CheckedArith Transact SortedMap

variable {d : Deployment} {w w' : World}

/-- What a call adds to the lock of `user`. -/
def increases (user : Address) (_ : World) (c : GovEnv × Action) : List ℤ :=
  match c.2 with
  | .escrow (.increaseLock owner amount) => if owner = user then [amount] else []
  | _ => []

/-- The lock of `user` that began at `start` has taken `added` on top of `amount` and ends no earlier
than at `ending`. -/
structure Committed (user : Address) (start ending : ℕ) (amount : ℤ) (added : List ℤ) (w : World) :
    Prop where
  lockStart : w.escrow.lockStart user = start
  lockEnd : ending ≤ w.escrow.lockEnd user
  locked : w.escrow.lockedAmount user = amount + added.sum

section
variable {user : Address} {start ending : ℕ} {amount : ℤ} {added : List ℤ}

/-- What leaves the lock of `user` alone keeps the commitment. -/
theorem Committed.kept (h : Committed user start ending amount added w)
    (hstart : w'.escrow.lockStarts.get user = w.escrow.lockStarts.get user)
    (hend : w'.escrow.lockEnds.get user = w.escrow.lockEnds.get user)
    (hlocked : w'.escrow.lockedAmounts.amount user = w.escrow.lockedAmounts.amount user) :
    Committed user start ending amount added w' where
  lockStart := by
    rw [VotingEscrow.Store.lockStart, hstart]
    exact h.lockStart
  lockEnd := by
    rw [VotingEscrow.Store.lockEnd, hend]
    exact h.lockEnd
  locked := hlocked.trans h.locked

/-- A call to the escrow before the end keeps the commitment. -/
theorem effect_committed {e : GovEnv} {a : VotingEscrow.Action} {t : GovernanceToken.Store}
    {s : VotingEscrow.Store} (h : VotingEscrow.Effect d.escrow e w.token w.escrow a t s)
    (hstart : start ≤ e.timestamp) (hending : e.timestamp < ending)
    (hs : Committed user start ending amount added w) :
    Committed user start ending amount (added ++ increases user w (e, .escrow a))
      { w with token := t, escrow := s } := by
  have hrunning : e.timestamp < w.escrow.lockEnd user := hending.trans_le hs.lockEnd
  cases h with
  | @createLock owner x duration _ _ hended _ =>
      have hne : user ≠ owner := by
        rintro rfl
        omega
      simp only [increases, List.append_nil]
      exact hs.kept (get_set_ne _ _ hne) (get_set_ne _ _ hne)
        ((amount_set _ _ _ _).trans (if_neg hne))
  | @increaseLock owner x _ _ _ =>
      by_cases hne : user = owner
      · subst hne
        simp only [increases, if_true]
        refine ⟨hs.lockStart, hs.lockEnd, ?_⟩
        rw [List.sum_append, List.sum_singleton, ← add_assoc, ← hs.locked]
        exact amount_credit_self _ _ _
      · simp only [increases, if_neg (Ne.symm hne), List.append_nil]
        exact hs.kept rfl rfl (amount_credit_of_ne _ _ hne)
  | @extendLock owner newDuration _ _ hlonger =>
      simp only [increases, List.append_nil]
      by_cases hne : user = owner
      · subst hne
        refine ⟨hs.lockStart, ?_, hs.locked⟩
        have hfirst := hs.lockStart
        have hlast := hs.lockEnd
        simp only [VotingEscrow.Store.lockEnd, get_set_self, Option.getD_some] at hlast hlonger ⊢
        simp only [VotingEscrow.Store.lockStart] at hfirst hlonger
        omega
      · exact hs.kept rfl (get_set_ne _ _ hne) rfl
  | @withdraw owner _ hended _ =>
      have hne : user ≠ owner := by
        rintro rfl
        omega
      simp only [increases, List.append_nil]
      exact hs.kept (get_set_ne _ _ hne) (get_set_ne _ _ hne)
        ((amount_set _ _ _ _).trans (if_neg hne))
  | delegate _ _ =>
      simp only [increases, List.append_nil]
      exact hs.kept rfl rfl rfl

/-- A call before the end keeps the commitment. -/
theorem step_committed {c : GovEnv × Action} (h : Step d w c.1 c.2 w')
    (hstart : start ≤ c.1.timestamp) (hending : c.1.timestamp < ending)
    (hs : Committed user start ending amount added w) :
    Committed user start ending amount (added ++ increases user w c) w' := by
  obtain ⟨e, a⟩ := c
  cases h with
  | escrow h => exact effect_committed h hstart hending hs
  | _ =>
      simp only [increases, List.append_nil]
      exact hs.kept rfl rfl rfl

end

/-- From any state, over every run within the time from the start to the end of a lock: the lock
keeps its start, ends no earlier, holds what it held and what its owner added, and cannot be
withdrawn before its end. -/
theorem lock_holds (d : Deployment) (w : World) (user : Address) (calls : List (GovEnv × Action))
    (htime : ∀ c ∈ calls, w.escrow.lockStart user ≤ c.1.timestamp ∧
      c.1.timestamp < w.escrow.lockEnd user) :
    let v := run (exec d) w calls
    v.escrow.lockStart user = w.escrow.lockStart user ∧
      w.escrow.lockEnd user ≤ v.escrow.lockEnd user ∧
        v.escrow.lockedAmount user = w.escrow.lockedAmount user +
            (ghostLog (exec d) (increases user) w calls).sum ∧
          ∀ e v', e.timestamp < w.escrow.lockEnd user →
            exec d v (e, .escrow (.withdraw user)) ≠ .ok v' := by
  have hrun : Committed user (w.escrow.lockStart user) (w.escrow.lockEnd user)
      (w.escrow.lockedAmount user) (ghostLog (exec d) (increases user) w calls)
      (run (exec d) w calls) :=
    run_log_invariant
      (Q := fun _ c => w.escrow.lockStart user ≤ c.1.timestamp ∧
        c.1.timestamp < w.escrow.lockEnd user)
      (fun _ _ _ _ hs hc hcall => step_committed (exec_step hcall) hc.1 hc.2 hs)
      calls w [] ⟨rfl, le_rfl, (add_zero _).symm⟩ (along_of_forall calls w htime)
  refine ⟨hrun.lockStart, hrun.lockEnd, hrun.locked, fun e v' hearly hcall => ?_⟩
  have hlater := hrun.lockEnd
  have hstep := exec_step hcall
  dsimp only at hstep
  cases hstep with
  | escrow h =>
      cases h with
      | withdraw _ hended _ => omega

theorem lock_holds_sample :
    let w := run (exec sampleDeployment) sampleWorld sampleCalls
    let calls := [(⟨[2], 5, 0⟩, Action.escrow (.increaseLock 2 10))]
    let v := run (exec sampleDeployment) w calls
    v.escrow.lockStart 2 = w.escrow.lockStart 2 ∧ w.escrow.lockEnd 2 ≤ v.escrow.lockEnd 2 ∧
      v.escrow.lockedAmount 2 = w.escrow.lockedAmount 2 +
          (ghostLog (exec sampleDeployment) (increases 2) w calls).sum ∧
        ∀ e v', e.timestamp < w.escrow.lockEnd 2 →
          exec sampleDeployment v (e, .escrow (.withdraw 2)) ≠ .ok v' := by
  apply lock_holds
  intro c hc
  obtain rfl := List.mem_singleton.mp hc
  decide +kernel

/-! ### The boost -/

/-- The boosted balance of a user who locked something: a quarter of it while the lock runs. -/
theorem getBoostedBalance_ok {s : VotingEscrow.Store} {e : GovEnv} {user : Address} {boosted : ℤ}
    (hlocked : 0 < s.lockedAmount user) (h : s.getBoostedBalance e user = .ok boosted) :
    boosted = if s.lockEnd user ≤ e.timestamp then 0
      else (s.lockedAmount user * VotingEscrow.maxBoostMultiplier).tdiv 10000 := by
  simp only [VotingEscrow.Store.getBoostedBalance, ite_eq_ok, bind_eq_ok, checkedU_eq_ok,
    I128.mul_eq_ok, I128.div_eq_ok, I128.add_eq_ok, pure_eq_ok] at h
  obtain ⟨hended, rfl⟩ | ⟨hrunning, _, ⟨hduration, rfl⟩, _, ⟨-, rfl⟩, _, ⟨-, -, rfl⟩, _, ⟨-, rfl⟩, _,
    ⟨-, -, rfl⟩, _, ⟨-, rfl⟩, _, ⟨-, rfl⟩, _, ⟨-, -, rfl⟩, _, ⟨-, rfl⟩, _, ⟨-, -, rfl⟩, rfl⟩ := h
  · rw [if_pos (hended.resolve_right hlocked.ne')]
  · rw [if_neg (not_or.mp hrunning).1]
    have hfactor : (0 : ℤ) ≤ (((s.lockEnd user : ℤ) - s.lockStart user) * 10000).tdiv
        VotingEscrow.maxVoteDuration :=
      Int.tdiv_nonneg (mul_nonneg hduration.1 (by decide)) (by decide)
    have hextra := Int.tdiv_nonneg (mul_nonneg hfactor (by decide : (0 : ℤ) ≤ 1500))
      (by decide : (0 : ℤ) ≤ 10000)
    refine if_neg (not_lt.mpr (Int.tdiv_le_tdiv (by decide) ?_))
    apply mul_le_mul_of_nonneg_left _ hlocked.le
    unfold VotingEscrow.maxBoostMultiplier
    omega

/-- Whatever its duration, a running lock is boosted to a quarter of its amount, and the multiplier
of a user who locked something is at most `2500`, while it is `10000` for one who locked
nothing. -/
theorem boost_is_a_quarter (s : VotingEscrow.Store) (e : GovEnv) (user : Address) :
    (s.lockedAmount user = 0 → s.getBoostMultiplier e user = .ok 10000) ∧
      (0 < s.lockedAmount user →
        (∀ boosted, s.getBoostedBalance e user = .ok boosted →
          boosted = if s.lockEnd user ≤ e.timestamp then 0
            else (s.lockedAmount user * 2500).tdiv 10000) ∧
          ∀ multiplier, s.getBoostMultiplier e user = .ok multiplier →
            0 ≤ multiplier ∧ multiplier ≤ 2500) := by
  constructor
  · intro hnone
    simp [VotingEscrow.Store.getBoostMultiplier, VotingEscrow.Store.getBoostedBalance, hnone]
    rfl
  · intro hlocked
    refine ⟨fun boosted h => getBoostedBalance_ok hlocked h, fun multiplier h => ?_⟩
    simp only [VotingEscrow.Store.getBoostMultiplier, bind_eq_ok, ite_eq_ok, I128.mul_eq_ok,
      I128.div_eq_ok, pure_eq_ok] at h
    obtain ⟨boosted, hboosted, ⟨hnone, -⟩ | ⟨-, _, ⟨-, rfl⟩, _, ⟨-, -, rfl⟩, rfl⟩⟩ := h
    · omega
    · have hvalue := getBoostedBalance_ok hlocked hboosted
      have hbounds : 0 ≤ boosted ∧ boosted * 10000 ≤ s.lockedAmount user * 2500 := by
        have hquarter := Rounding.tdiv_bounds (a := s.lockedAmount user * 2500) (b := 10000)
          (by positivity) (by decide)
        rw [hvalue]
        split_ifs
        · exact ⟨le_rfl, by rw [zero_mul]; positivity⟩
        · exact ⟨hquarter.1, hquarter.2.1⟩
      have hlow := Rounding.tdiv_nonneg (mul_nonneg hbounds.1 (by decide : (0 : ℤ) ≤ 10000))
        hlocked
      have hhigh : (boosted * 10000).tdiv (s.lockedAmount user) < 2501 := by
        rw [Rounding.tdiv_lt_iff (mul_nonneg hbounds.1 (by decide)) hlocked]
        nlinarith [hbounds.2]
      have hfits : FitsU 32 ((boosted * 10000).tdiv (s.lockedAmount user)) := by
        refine ⟨hlow, hhigh.trans (by decide)⟩
      rw [if_pos hfits]
      exact ⟨hlow, by omega⟩

end YieldEngine.Governance
