import YieldEngine.VaultSolvency

/-! # Leaving the vault

A full exit without slippage bounds fails only where a fee takes more of a token than is
redeemed.  The withdrawal fee never does; the performance fee is charged on the redeemed
value over the remaining cost basis, and a partial withdrawal lowers that basis by the
redeemed amounts, gains included.  The basis can so become negative, and the fee of the last
exit exceed its value.

`feeRoom` is the largest performance fee both legs of an exit can bear.  `canLeave_iff` says
that a holder can leave exactly when the fee on the excess of the value over the basis stays
within it; a basis that is not negative is enough (`basis_nonneg_fits`). -/

namespace YieldEngine.Vault

open CheckedArith Rounding

/-! ### What the legs of an exit can bear -/

/-- The largest fee whose parts leave both legs non-negative, for redeemed amounts `a` and
`b` of which `restA` and `restB` are left by the withdrawal fee. -/
def feeRoom (a b restA restB : ℤ) : ℤ :=
  if a = 0 then restB
  else if b = 0 then restA
  else min (((restA + 1) * (a + b) - 1) / a) (restB * (a + b) / b)

/-- Both parts of a performance fee are covered exactly when the fee is within the room. -/
theorem legs_bear_iff {fee a b restA restB : ℤ} (ha : 0 ≤ a) (hb : 0 ≤ b) (hA : 0 ≤ restA)
    (hB : 0 ≤ restB) (hfee : 0 ≤ fee) :
    (performanceFeeLegA fee a b ≤ restA ∧ fee - performanceFeeLegA fee a b ≤ restB) ↔
      fee ≤ feeRoom a b restA restB := by
  unfold feeRoom performanceFeeLegA
  by_cases ha0 : a = 0
  · subst ha0
    simp [hA]
  · have hapos : 0 < a := lt_of_le_of_ne ha (Ne.symm ha0)
    have hW : 0 < a + b := by omega
    rw [if_neg ha0, if_pos hW]
    by_cases hb0 : b = 0
    · subst hb0
      simp [Int.mul_tdiv_cancel fee ha0, hB]
    · have hbpos : 0 < b := lt_of_le_of_ne hb (Ne.symm hb0)
      have hdiv : fee - (fee * a).tdiv (a + b) ≤ restB ↔
          fee - restB ≤ (fee * a).tdiv (a + b) := by omega
      rw [if_neg hb0, le_min_iff, Int.le_ediv_iff_mul_le hapos, Int.le_ediv_iff_mul_le hbpos,
        ← Int.lt_add_one_iff (b := restA), hdiv, tdiv_lt_iff (mul_nonneg hfee ha) hW,
        le_tdiv_iff (mul_nonneg hfee ha) hW, Int.le_sub_one_iff]
      refine and_congr_right fun _ => ?_
      constructor <;> intro h <;> linarith

/-- Of a fee at a rate on both legs, the share of each leg is at most the rate on it, the second
up to rounding. -/
theorem shares_within_rate {fee rate a b x : ℤ} (ha : 0 ≤ a) (hb : 0 ≤ b) (hlegs : 0 < a + b)
    (hfee : fee * bps ≤ (a + b) * rate) (hx : x * (a + b) ≤ fee * a)
    (hx' : fee * a < (x + 1) * (a + b)) :
    x * bps ≤ rate * a ∧ (fee - x - 1) * bps < rate * b := by
  constructor
  · refine le_of_mul_le_mul_right ?_ hlegs
    calc x * bps * (a + b) = x * (a + b) * bps := by ring
      _ ≤ fee * a * bps := mul_le_mul_of_nonneg_right hx bps_pos.le
      _ = fee * bps * a := by ring
      _ ≤ (a + b) * rate * a := mul_le_mul_of_nonneg_right hfee ha
      _ = rate * a * (a + b) := by ring
  · refine lt_of_mul_lt_mul_right ?_ hlegs.le
    calc (fee - x - 1) * bps * (a + b) = ((fee - x - 1) * (a + b)) * bps := by ring
      _ < fee * b * bps := mul_lt_mul_of_pos_right (by linarith) bps_pos
      _ = fee * bps * b := by ring
      _ ≤ (a + b) * rate * b := mul_le_mul_of_nonneg_right hfee hb
      _ = rate * b * (a + b) := by ring

/-- Rates of at most 100 % together take at most the redeemed amount of each leg. -/
theorem legs_of_rates {feeRate withdrawalFee : ℕ} {a b : ℤ}
    (hsum : feeRate + withdrawalFee ≤ 10000) (ha : 0 ≤ a) (hb : 0 ≤ b) :
    performanceFeeLegA (feeOn feeRate (a + b)) a b ≤ a - feeOn withdrawalFee a ∧
      feeOn feeRate (a + b) - performanceFeeLegA (feeOn feeRate (a + b)) a b ≤
        b - feeOn withdrawalFee b := by
  have hsum' : (feeRate : ℤ) + withdrawalFee ≤ bps := by
    unfold bps
    exact_mod_cast hsum
  have hr := Int.natCast_nonneg feeRate
  obtain ⟨hf0, hf, -⟩ := tdiv_bounds (mul_nonneg (add_nonneg ha hb) hr) bps_pos
  obtain ⟨-, hya, -⟩ := tdiv_bounds (mul_nonneg ha (Int.natCast_nonneg withdrawalFee)) bps_pos
  obtain ⟨-, hyb, -⟩ := tdiv_bounds (mul_nonneg hb (Int.natCast_nonneg withdrawalFee)) bps_pos
  change 0 ≤ feeOn feeRate (a + b) at hf0
  change feeOn feeRate (a + b) * bps ≤ _ at hf
  change feeOn withdrawalFee a * bps ≤ _ at hya
  change feeOn withdrawalFee b * bps ≤ _ at hyb
  generalize feeOn feeRate (a + b) = f at *
  generalize feeOn withdrawalFee a = ya at *
  generalize feeOn withdrawalFee b = yb at *
  have hbps := bps_pos
  unfold performanceFeeLegA
  split_ifs with hW
  · obtain ⟨-, hx, hx'⟩ := tdiv_bounds (mul_nonneg hf0 ha) hW
    generalize (f * a).tdiv (a + b) = x at *
    obtain ⟨hxa, hxb⟩ := shares_within_rate ha hb hW hf hx hx'
    have hA : (x + ya) * bps ≤ a * bps := by
      have := mul_le_mul_of_nonneg_left hsum' ha
      linarith
    have hB : (f - x - 1 + yb) * bps < b * bps := by
      have := mul_le_mul_of_nonneg_left hsum' hb
      linarith
    have hA' := le_of_mul_le_mul_right hA hbps
    have hB' := lt_of_mul_lt_mul_right hB hbps.le
    exact ⟨by omega, by omega⟩
  · obtain ⟨rfl, rfl⟩ : a = 0 ∧ b = 0 := by omega
    simp only [add_zero, zero_mul] at hf hya hyb
    have hf' : f ≤ 0 := nonpos_of_mul_nonpos_left hf hbps
    have hya' : ya ≤ 0 := nonpos_of_mul_nonpos_left hya hbps
    have hyb' : yb ≤ 0 := nonpos_of_mul_nonpos_left hyb hbps
    exact ⟨by omega, by omega⟩

/-- The fee on an excess of value over cost is within a room exactly when the excess is. -/
theorem gainFee_le_iff {rate : ℕ} {gain room : ℤ} (hroom : 0 ≤ room) :
    (if rate = 0 then 0 else if 0 < gain then (gain * rate).tdiv bps else 0) ≤ room ↔
      gain * rate < bps * (room + 1) := by
  have hpos : 0 < bps * (room + 1) := mul_pos bps_pos (by omega)
  split_ifs with hrate hgain
  · subst hrate
    simp [hroom, hpos]
  · rw [← Int.lt_add_one_iff, tdiv_lt_iff (mul_nonneg hgain.le (Int.natCast_nonneg rate)) bps_pos,
      mul_comm (room + 1)]
  · refine iff_of_true hroom (lt_of_le_of_lt ?_ hpos)
    exact mul_nonpos_of_nonpos_of_nonneg (not_lt.mp hgain) (Int.natCast_nonneg rate)

/-! ### The condition on the state -/

section condition
variable (info : VaultInfo) (s : VaultStore) (user : Address)

/-- One token's redeemed amount when the user leaves with all shares. -/
def exitAmount (total : ℤ) : ℤ :=
  redeemed true (s.getUserPosition user).shares total s.storedMetrics.totalShares

/-- What the withdrawal fee leaves of an amount. -/
def afterWithdrawalFee (amount : ℤ) : ℤ := amount - feeOn info.withdrawalFee amount

/-- The performance fee on the value of a full exit, over the remaining cost basis, fits in
what the withdrawal fee leaves of both legs. -/
def ExitFeeFits : Prop :=
  let a := exitAmount s user s.storedMetrics.totalAmountA
  let b := exitAmount s user s.storedMetrics.totalAmountB
  let basis := (s.getUserPosition user).depositedAmountA + (s.getUserPosition user).depositedAmountB
  (a + b - basis) * info.feeRate <
    bps * (feeRoom a b (afterWithdrawalFee info a) (afterWithdrawalFee info b) + 1)

instance : Decidable (ExitFeeFits info s user) := inferInstanceAs (Decidable (_ < _))

end condition

/-- The amounts of a plan are non-negative and each leg adds up. -/
structure CleanExit (plan : WithdrawPlan) : Prop where
  finalA_nonneg : 0 ≤ plan.finalAmountA
  finalB_nonneg : 0 ≤ plan.finalAmountB
  legA : plan.finalAmountA + plan.feeAmountA + plan.perfFeeA = plan.withdrawAmountA
  legB : plan.finalAmountB + plan.feeAmountB + plan.perfFeeB = plan.withdrawAmountB

theorem feeRoom_nonneg {a b restA restB : ℤ} (ha : 0 ≤ a) (hb : 0 ≤ b) (hA : 0 ≤ restA)
    (hB : 0 ≤ restB) : 0 ≤ feeRoom a b restA restB := by
  refine (legs_bear_iff ha hb hA hB le_rfl).mp ?_
  simp [performanceFeeLegA, hA, hB]

/-- The plan of a full exit pays no negative amount exactly when its fee fits. -/
theorem PlanFacts.clean_iff {info : VaultInfo} {s : VaultStore} {user : Address} {q : ℤ}
    {plan : WithdrawPlan} (hsound : Sound info s) (hrates : RatesBounded info)
    (hp : PlanFacts s user q plan) (hq : q = (s.getUserPosition user).shares) :
    (0 ≤ plan.finalAmountA ∧ 0 ≤ plan.finalAmountB) ↔ ExitFeeFits info s user := by
  obtain rfl : info = plan.info := Option.some.inj (hsound.configured.symm.trans hp.info)
  obtain ⟨⟨ha, -⟩, hb, -⟩ := hp.redeemed_bounds hsound
  obtain ⟨-, hperfA, hperfB⟩ := hp.fees_nonneg hsound
  have hfull : q = plan.position.shares := hp.position ▸ hq
  have hA : plan.withdrawAmountA = exitAmount s user s.storedMetrics.totalAmountA := by
    rw [hp.amountA, decide_eq_true hfull, hp.totalAmountA, hp.totalShares, hq, exitAmount]
  have hB : plan.withdrawAmountB = exitAmount s user s.storedMetrics.totalAmountB := by
    rw [hp.amountB, decide_eq_true hfull, hp.totalAmountB, hp.totalShares, hq, exitAmount]
  have hrestA : 0 ≤ afterWithdrawalFee plan.info plan.withdrawAmountA :=
    sub_nonneg.mpr (feeOn_le hrates.withdrawalFee ha)
  have hrestB : 0 ≤ afterWithdrawalFee plan.info plan.withdrawAmountB :=
    sub_nonneg.mpr (feeOn_le hrates.withdrawalFee hb)
  have hq0 : plan.position.shares ≠ 0 := (hfull ▸ hp.shares_pos).ne'
  have hgain : realizedGain plan.position plan.withdrawAmountA plan.withdrawAmountB q =
      plan.withdrawAmountA + plan.withdrawAmountB -
        (plan.position.depositedAmountA + plan.position.depositedAmountB) := by
    rw [realizedGain, hfull, Int.mul_tdiv_cancel _ hq0, Int.mul_tdiv_cancel _ hq0]
  have hfee : plan.perfFee = if plan.info.feeRate = 0 then 0
      else if 0 < realizedGain plan.position plan.withdrawAmountA plan.withdrawAmountB q then
        (realizedGain plan.position plan.withdrawAmountA plan.withdrawAmountB q *
          plan.info.feeRate).tdiv bps
      else 0 := by
    have hpos : ¬ plan.position.shares ≤ 0 := not_le.mpr (hfull ▸ hp.shares_pos)
    rw [hp.perfFee, performanceFee]
    simp only [hpos, or_false]
  have hfits : ExitFeeFits plan.info s user ↔ plan.perfFee ≤ feeRoom plan.withdrawAmountA
      plan.withdrawAmountB (afterWithdrawalFee plan.info plan.withdrawAmountA)
      (afterWithdrawalFee plan.info plan.withdrawAmountB) := by
    rw [hfee, gainFee_le_iff (feeRoom_nonneg ha hb hrestA hrestB), hgain, hp.position, hA, hB]
    exact Iff.rfl
  have hperf : 0 ≤ plan.perfFee := hp.perfFee ▸ performanceFee_nonneg _ _ _ _ _
  rw [hfits, ← legs_bear_iff ha hb hrestA hrestB hperf, hp.finalA, hp.finalB, hp.perfFeeB,
    hp.feeA, hp.feeB, ← hp.perfFeeA]
  unfold afterWithdrawalFee
  constructor <;> rintro ⟨h1, h2⟩ <;> constructor <;> linarith

/-! ### Leaving -/

/-- Withdrawal pacing is off. -/
def PacingOff (s : VaultStore) : Prop :=
  s.getWithdrawPacing.windowSeconds = 0 ∨
    (s.getWithdrawPacing.userMaxBps = 0 ∧ s.getWithdrawPacing.vaultMaxBps = 0)

theorem consumeWithdrawPacing_off {e : Env} {s : VaultStore} {user : Address}
    {shares positionShares totalShares : ℤ} (h : PacingOff s) :
    consumeWithdrawPacing e s user shares positionShares totalShares = .ok s := by
  unfold consumeWithdrawPacing
  exact if_pos h

theorem retireShares_guarded (e : Env) (s : VaultStore) (user : Address) (q : ℤ)
    (plan : WithdrawPlan) : Guarded (retireShares e s user q plan) (fun _ => True) := by
  refine Guarded.bind (guarded_checked fun _ => Guarded.bind (guarded_checked fun _ => ?_))
  refine Guarded.bind (guarded_checked fun _ => Guarded.bind (guarded_checked fun _ => ?_))
  refine Guarded.bind (guarded_checked fun _ => Guarded.bind (guarded_checked fun _ => ?_))
  exact Guarded.bind ((valueInUsd_guarded s _ _).mono fun _ _ => guarded_pure.mpr trivial)

/-- The legs of a plan add up by the way the final amounts are computed. -/
theorem PlanFacts.cleanExit {s : VaultStore} {user : Address} {q : ℤ} {plan : WithdrawPlan}
    (hp : PlanFacts s user q plan) (hA : 0 ≤ plan.finalAmountA) (hB : 0 ≤ plan.finalAmountB) :
    CleanExit plan where
  finalA_nonneg := hA
  finalB_nonneg := hB
  legA := by
    rw [hp.finalA]
    ring
  legB := by
    rw [hp.finalB]
    ring

/-- A holder can leave an unpaused, unpaced vault exactly when the performance fee fits. -/
theorem canLeave_iff {info : VaultInfo} {w : World} (hreach : Reachable info w)
    (hrates : RatesBounded info) (hpause : w.store.isPaused = false)
    (hpacing : PacingOff w.store) (e : Env) (user : Address)
    (hpos : 0 < (w.store.getUserPosition user).shares)
    (hmin : w.store.getMinWithdrawShares ≤ (w.store.getUserPosition user).shares)
    (hover : settleWithdraw e w.store user (w.store.getUserPosition user).shares 0 0 ≠
      .error .overflow) :
    (∃ s' plan, settleWithdraw e w.store user (w.store.getUserPosition user).shares 0 0 =
      .ok (s', plan) ∧ CleanExit plan) ↔ ExitFeeFits info w.store user := by
  have hsound := hreach.sound hrates.harvestFee
  constructor
  · rintro ⟨s', plan, h, hclean⟩
    have hp := (settleWithdraw_facts h).amounts
    exact (hp.clean_iff hsound hrates rfl).mp ⟨hclean.finalA_nonneg, hclean.finalB_nonneg⟩
  · intro hfits
    have hfinal : ∀ plan, PlanFacts w.store user (w.store.getUserPosition user).shares plan →
        0 ≤ plan.finalAmountA ∧ 0 ≤ plan.finalAmountB :=
      fun plan hp => (hp.clean_iff hsound hrates rfl).mpr hfits
    have hplan := planWithdraw_guarded hsound.configured hpause hpos hmin le_rfl
      (hpos.trans_le (hsound.shares_le user)) (fun plan hp => .inl (hp.position ▸ rfl)) hfinal
    have hsettle : Guarded
        (settleWithdraw e w.store user (w.store.getUserPosition user).shares 0 0)
        (fun r => CleanExit r.2) := by
      refine Guarded.bind (hplan.mono fun plan hp => Guarded.bind ?_)
      rw [consumeWithdrawPacing_off hpacing]
      refine guarded_ok.mpr (Guarded.bind ?_)
      refine (retireShares_guarded e _ user _ plan).mono fun s' _ => ?_
      exact guarded_pure.mpr (hp.cleanExit (hfinal plan hp).1 (hfinal plan hp).2)
    obtain ⟨⟨s', plan⟩, h, hclean⟩ := hsettle.returns hover
    exact ⟨s', plan, h, hclean⟩

/-- A cost basis that is not negative leaves room for the fee. -/
theorem basis_nonneg_fits {info : VaultInfo} {s : VaultStore} {user : Address}
    (hsound : Sound info s) (hrates : RatesBounded info)
    (hsum : info.feeRate + info.withdrawalFee ≤ 10000)
    (hpos : 0 < (s.getUserPosition user).shares)
    (hbasis : 0 ≤ (s.getUserPosition user).depositedAmountA +
      (s.getUserPosition user).depositedAmountB) : ExitFeeFits info s user := by
  have hS := hpos.trans_le (hsound.shares_le user)
  have ha : 0 ≤ exitAmount s user s.storedMetrics.totalAmountA :=
    redeemed_nonneg hsound.totalA_nonneg hpos.le hS
  have hb : 0 ≤ exitAmount s user s.storedMetrics.totalAmountB :=
    redeemed_nonneg hsound.totalB_nonneg hpos.le hS
  unfold ExitFeeFits
  generalize exitAmount s user s.storedMetrics.totalAmountA = a at *
  generalize exitAmount s user s.storedMetrics.totalAmountB = b at *
  have hrestA : 0 ≤ afterWithdrawalFee info a := sub_nonneg.mpr (feeOn_le hrates.withdrawalFee ha)
  have hrestB : 0 ≤ afterWithdrawalFee info b := sub_nonneg.mpr (feeOn_le hrates.withdrawalFee hb)
  -- it is enough to bear the fee on the whole value
  have hwhole : (a + b) * info.feeRate < bps *
      (feeRoom a b (afterWithdrawalFee info a) (afterWithdrawalFee info b) + 1) := by
    have hval := mul_nonneg (add_nonneg ha hb) (Int.natCast_nonneg info.feeRate)
    obtain ⟨hf0, -, hfhi⟩ := tdiv_bounds hval bps_pos
    have hlegs := (legs_bear_iff ha hb hrestA hrestB hf0).mp (legs_of_rates hsum ha hb)
    calc (a + b) * (info.feeRate : ℤ) < (((a + b) * info.feeRate).tdiv bps + 1) * bps := hfhi
      _ ≤ (feeRoom a b (afterWithdrawalFee info a) (afterWithdrawalFee info b) + 1) * bps :=
          mul_le_mul_of_nonneg_right (by omega) bps_pos.le
      _ = _ := mul_comm _ _
  refine lt_of_le_of_lt (mul_le_mul_of_nonneg_right ?_ (Int.natCast_nonneg _)) hwhole
  omega

/-- Holder `5` has taken out three quarters of a doubled deposit, gains included. -/
def partlyExitedWorld : World :=
  Transact.run vaultStep (initialWorld ⟨9, [], 0⟩ (twoTokenVault 6000) 7 8 fun _ _ => 10000)
    [.call ⟨9, [5], 1⟩ (.deposit 5 1000 1000 0), .call ⟨9, [5], 2⟩ (.harvest 5),
      .call ⟨9, [5], 3⟩ (.withdraw 5 1500 0 0)]

/-- The vault of holder `5` before any exit. -/
def enteredWorld : World :=
  Transact.run vaultStep (initialWorld ⟨9, [], 0⟩ (twoTokenVault 6000) 7 8 fun _ _ => 10000)
    [.call ⟨9, [5], 1⟩ (.deposit 5 1000 1000 0)]

theorem canLeave_enteredWorld :
    ∃ s' plan, settleWithdraw ⟨9, [5], 2⟩ enteredWorld.store 5 2000 0 0 = .ok (s', plan) ∧
      CleanExit plan := by
  have hreach : Reachable (twoTokenVault 6000) enteredWorld := ⟨_, _, _, _, _, rfl⟩
  exact (canLeave_iff hreach (by decide) (by decide) (.inl (by decide)) ⟨9, [5], 2⟩ 5 (by decide)
    (by decide) (fun h => by cases h)).mpr (by decide)

/-- The last exit is charged 1200 on 1000 redeemed, and refused. -/
theorem last_exit_refused :
    (Reachable (twoTokenVault 6000) partlyExitedWorld ∧ RatesBounded (twoTokenVault 6000) ∧
      (twoTokenVault 6000).feeRate + (twoTokenVault 6000).withdrawalFee ≤ 10000 ∧
      partlyExitedWorld.store.isPaused = false ∧ PacingOff partlyExitedWorld.store ∧
      (partlyExitedWorld.store.getUserPosition 5).shares = 500 ∧
      partlyExitedWorld.store.getMinWithdrawShares ≤ 500) ∧
    settleWithdraw ⟨9, [5], 4⟩ partlyExitedWorld.store 5 500 0 0 =
      .error (.raised (.contract .insufficientAmountA)) :=
  ⟨⟨⟨_, _, _, _, _, rfl⟩, by decide, by decide, by decide, .inl (by decide), by decide,
    by decide⟩, rfl⟩

end YieldEngine.Vault
