import YieldEngine.VaultEvenExit
import YieldEngine.SplitWeights

/-! # Performance fees of split exits

A performance fee is charged on the redeemed value over the proportional cost basis, but a
withdrawal reduces the recorded basis by the redeemed amounts.  The gain the user has not
realized yet (`unrealizedGain`) therefore stays what it was, up to rounding
(`unrealizedGain_step`), while the shares it is spread over get fewer: each of the parts
`q₁, q₂, …` of an exit is charged on the fraction `qᵢ / pᵢ` of the whole gain
(`perfFee_near`).

The fees of a split exit so exceed the fee of a single one by `splitExcess`, up to rounding
(`splitFee_near`): by nothing where there is no gain, no rate or a single part, and by a
multiple of the gain otherwise.  Rounding adds `roundingUnits` a step. -/

namespace YieldEngine.Vault

open CheckedArith Rounding SplitWeights

/-! ### One withdrawal -/

/-- The value of the user's shares over the recorded cost basis. -/
def unrealizedGain (s : VaultStore) (user : Address) : ℚ :=
  (s.getUserPosition user).shares *
      (s.storedMetrics.totalAmountA + s.storedMetrics.totalAmountB : ℤ) /
      s.storedMetrics.totalShares -
    ((s.getUserPosition user).depositedAmountA + (s.getUserPosition user).depositedAmountB : ℤ)

/-- The fee rate as a fraction. -/
def feeFraction (info : VaultInfo) : ℚ := info.feeRate / 10000

/-- A redeemed amount is its proportion of the total, up to one unit. -/
theorem redeemed_near {full : Bool} {q T S : ℤ} (hT : 0 ≤ T) (hq : 0 ≤ q) (hqS : q ≤ S)
    (hS : 0 < S) : |((redeemed full q T S : ℤ) : ℚ) - q * T / S| ≤ 1 := by
  have hS' : (0 : ℚ) < S := by exact_mod_cast hS
  unfold redeemed dustThreshold
  split_ifs with h
  · obtain ⟨-, hlo, -⟩ := tdiv_bounds (mul_nonneg hq hT) hS
    have hle : (q : ℚ) * T / S ≤ T := by
      rw [div_le_iff₀ hS', mul_comm (T : ℚ)]
      exact_mod_cast mul_le_mul_of_nonneg_right hqS hT
    have hge : (T : ℚ) - 1 ≤ q * T / S := by
      rw [le_div_iff₀ hS']
      have h1 : (T - 1) * S ≤ q * T :=
        (mul_le_mul_of_nonneg_right (by linarith [h.2]) hS.le).trans hlo
      exact_mod_cast h1
    rw [abs_le]
    constructor <;> linarith
  · have h := tdiv_near (q * T) hS
    push_cast at h
    exact h

theorem feeFraction_nonneg (info : VaultInfo) : 0 ≤ feeFraction info := by
  unfold feeFraction
  positivity

/-- What rounding contributes to the fees of a split exit, in units per step; at most 190 at a
rate of at most 100 %. -/
def roundingUnits (info : VaultInfo) : ℚ := 2 + 188 * feeFraction info

section withdrawal
variable {info : VaultInfo} {s : VaultStore} {user : Address} {q : ℤ} {plan : WithdrawPlan}

theorem PlanFacts.shares_le_total (hsound : Sound info s) (hp : PlanFacts s user q plan) :
    q ≤ s.storedMetrics.totalShares := (hp.position ▸ hp.shares_le).trans (hsound.shares_le user)

/-- The redeemed amounts are their proportions of the totals, up to one unit each. -/
theorem PlanFacts.amounts_near (hsound : Sound info s) (hp : PlanFacts s user q plan) :
    |(plan.withdrawAmountA : ℚ) - q * s.storedMetrics.totalAmountA / s.storedMetrics.totalShares| ≤ 1
      ∧ |(plan.withdrawAmountB : ℚ) -
        q * s.storedMetrics.totalAmountB / s.storedMetrics.totalShares| ≤ 1 := by
  have hS := hp.totalShares ▸ hp.total_pos
  have hle := hp.shares_le_total hsound
  rw [hp.amountA, hp.amountB, hp.totalAmountA, hp.totalAmountB, hp.totalShares]
  exact ⟨redeemed_near hsound.totalA_nonneg hp.shares_pos.le hle hS,
    redeemed_near hsound.totalB_nonneg hp.shares_pos.le hle hS⟩

/-- The realized gain is its fraction of the unrealized one, up to four roundings. -/
theorem realizedGain_near (hsound : Sound info s) (hp : PlanFacts s user q plan) :
    |((realizedGain plan.position plan.withdrawAmountA plan.withdrawAmountB q : ℤ) : ℚ) -
      (q : ℚ) / (s.getUserPosition user).shares * unrealizedGain s user| ≤ 4 := by
  have hpos := hp.shares_pos.trans_le hp.shares_le
  obtain ⟨hA, hB⟩ := hp.amounts_near hsound
  have hcA := tdiv_near (plan.position.depositedAmountA * q) hpos
  have hcB := tdiv_near (plan.position.depositedAmountB * q) hpos
  have hpos' : (plan.position.shares : ℚ) ≠ 0 := by exact_mod_cast hpos.ne'
  have hsplit : (q : ℚ) / (s.getUserPosition user).shares * unrealizedGain s user =
      q * s.storedMetrics.totalAmountA / s.storedMetrics.totalShares +
        q * s.storedMetrics.totalAmountB / s.storedMetrics.totalShares -
      ((plan.position.depositedAmountA * q : ℤ) / plan.position.shares +
        (plan.position.depositedAmountB * q : ℤ) / plan.position.shares) := by
    unfold unrealizedGain
    rw [← hp.position]
    push_cast
    field_simp
  rw [hsplit, realizedGain]
  push_cast at hcA hcB ⊢
  rw [abs_le] at *
  constructor <;> linarith

/-- The fee of one withdrawal is its fraction of the unrealized gain, up to one unit and the
rate on four. -/
theorem perfFee_near (hsound : Sound info s) (hp : PlanFacts s user q plan) :
    |(plan.perfFee : ℚ) - feeFraction info * ((q : ℚ) / (s.getUserPosition user).shares *
      max (unrealizedGain s user) 0)| ≤ 1 + feeFraction info * 4 := by
  obtain rfl : info = plan.info := Option.some.inj (hsound.configured.symm.trans hp.info)
  have hrate := feeFraction_nonneg plan.info
  have hpos := hp.shares_pos.trans_le hp.shares_le
  have hgain := realizedGain_near hsound hp
  have hfee : |(plan.perfFee : ℚ) - feeFraction plan.info * max
      ((realizedGain plan.position plan.withdrawAmountA plan.withdrawAmountB q : ℤ) : ℚ) 0| ≤ 1 := by
    rw [hp.perfFee, performanceFee]
    generalize realizedGain plan.position plan.withdrawAmountA plan.withdrawAmountB q = gain
    split_ifs with h0 hg
    · have hzero : plan.info.feeRate = 0 := h0.resolve_right (not_le.mpr hpos)
      simp [feeFraction, hzero]
    · have h := tdiv_near (gain * plan.info.feeRate) bps_pos
      have hg' : (0 : ℚ) ≤ gain := by exact_mod_cast hg.le
      rw [max_eq_left hg']
      convert h using 3
      unfold feeFraction bps
      push_cast
      ring
    · have hg' : (gain : ℚ) ≤ 0 := by exact_mod_cast not_lt.mp hg
      simp [max_eq_right hg']
  have hq' : (0 : ℚ) ≤ (q : ℚ) / (s.getUserPosition user).shares :=
    div_nonneg (by exact_mod_cast hp.shares_pos.le)
      (by exact_mod_cast (hsound.shares_bounds user).1)
  have hmax : |feeFraction plan.info * max
        ((realizedGain plan.position plan.withdrawAmountA plan.withdrawAmountB q : ℤ) : ℚ) 0 -
      feeFraction plan.info * ((q : ℚ) / (s.getUserPosition user).shares *
        max (unrealizedGain s user) 0)| ≤ feeFraction plan.info * 4 := by
    rw [← mul_sub, abs_mul, abs_of_nonneg hrate, mul_max_of_nonneg _ _ hq', mul_zero]
    exact mul_le_mul_of_nonneg_left ((abs_max_sub_max_le_abs _ _ 0).trans hgain) hrate
  rw [abs_le] at *
  constructor <;> linarith

/-- Paying `W` for `q` shares shifts the unrealized gain by what `W` falls short of the
proportion, spread over the shares of the others. -/
theorem gain_shift {p S q T W D : ℚ} (hS : S ≠ 0) (hSq : S - q ≠ 0) :
    (p - q) * (T - W) / (S - q) - (D - W) =
      p * T / S - D - (q * T / S - W) * ((S - p) / (S - q)) := by
  field_simp
  ring

/-- A partial withdrawal redeems at most its proportion of a total. -/
theorem redeemed_partial_le {q T S : ℤ} (hT : 0 ≤ T) (hq : 0 ≤ q) (hS : 0 < S) :
    ((redeemed false q T S : ℤ) : ℚ) ≤ q * T / S := by
  rw [le_div_iff₀ (by exact_mod_cast hS)]
  have h := (tdiv_bounds (mul_nonneg hq hT) hS).2.1
  simp only [redeemed, Bool.false_eq_true, false_and, if_false]
  exact_mod_cast h

/-- A partial withdrawal takes at most its proportion of each total. -/
theorem PlanFacts.amounts_le (hsound : Sound info s) (hp : PlanFacts s user q plan)
    (hq : q < (s.getUserPosition user).shares) :
    (plan.withdrawAmountA : ℚ) ≤ q * s.storedMetrics.totalAmountA / s.storedMetrics.totalShares ∧
      (plan.withdrawAmountB : ℚ) ≤
        q * s.storedMetrics.totalAmountB / s.storedMetrics.totalShares := by
  have hS := hp.totalShares ▸ hp.total_pos
  have hpart : decide (q = plan.position.shares) = false :=
    decide_eq_false (hp.position ▸ hq.ne)
  constructor
  · rw [hp.amountA, hpart, hp.totalAmountA, hp.totalShares]
    exact redeemed_partial_le hsound.totalA_nonneg hp.shares_pos.le hS
  · rw [hp.amountB, hpart, hp.totalAmountB, hp.totalShares]
    exact redeemed_partial_le hsound.totalB_nonneg hp.shares_pos.le hS

/-- The position that a settled withdrawal leaves. -/
theorem SettleFacts.position {e : Env} {s' : VaultStore} {minA minB : ℤ}
    (hs : SettleFacts e s user q minA minB s' plan) :
    s'.getUserPosition user = ⟨(s.getUserPosition user).shares - q, e.timestamp,
      (s.getUserPosition user).depositedAmountA - plan.withdrawAmountA,
      (s.getUserPosition user).depositedAmountB - plan.withdrawAmountB⟩ := by
  rw [VaultStore.getUserPosition, hs.positions, SortedMap.get_set_self, hs.amounts.position]
  rfl

/-- What the others hold is a fraction of what is left. -/
theorem others_fraction {total held q : ℤ} (hheld : held ≤ total) (hq : q < held) :
    (0 : ℚ) ≤ (total - held) / (total - q) ∧ ((total : ℚ) - held) / (total - q) ≤ 1 := by
  have htotal : (0 : ℚ) ≤ total - held := sub_nonneg.mpr (by exact_mod_cast hheld)
  have hleft : (0 : ℚ) < total - q := sub_pos.mpr (by exact_mod_cast hq.trans_le hheld)
  have hless : (q : ℚ) < held := by exact_mod_cast hq
  refine ⟨div_nonneg htotal hleft.le, (div_le_one hleft).mpr ?_⟩
  linarith

/-- A partial withdrawal keeps the unrealized gain, up to the two roundings it leaves in the
vault. -/
theorem unrealizedGain_step {e : Env} {s' : VaultStore} {minA minB : ℤ} (hsound : Sound info s)
    (hs : SettleFacts e s user q minA minB s' plan) (hq : q < (s.getUserPosition user).shares) :
    unrealizedGain s user - 2 ≤ unrealizedGain s' user ∧
      unrealizedGain s' user ≤ unrealizedGain s user := by
  have hp := hs.amounts
  have hS := hp.totalShares ▸ hp.total_pos
  have hpS := hsound.shares_le user
  obtain ⟨hA, hB⟩ := hp.amounts_near hsound
  obtain ⟨hA', hB'⟩ := hp.amounts_le hsound hq
  have hS' : (0 : ℚ) < s.storedMetrics.totalShares := by exact_mod_cast hS
  have hSq : (0 : ℚ) < s.storedMetrics.totalShares - q := by
    have h : (0 : ℤ) < s.storedMetrics.totalShares - q := by omega
    exact_mod_cast h
  have hshift := gain_shift (p := (s.getUserPosition user).shares)
    (T := s.storedMetrics.totalAmountA + s.storedMetrics.totalAmountB)
    (W := plan.withdrawAmountA + plan.withdrawAmountB)
    (D := (s.getUserPosition user).depositedAmountA + (s.getUserPosition user).depositedAmountB)
    hS'.ne' hSq.ne'
  have hgain : unrealizedGain s' user = unrealizedGain s user -
      (q * (s.storedMetrics.totalAmountA + s.storedMetrics.totalAmountB) /
          s.storedMetrics.totalShares - (plan.withdrawAmountA + plan.withdrawAmountB)) *
        ((s.storedMetrics.totalShares - (s.getUserPosition user).shares) /
          (s.storedMetrics.totalShares - q)) := by
    unfold unrealizedGain
    rw [hs.position, hs.totalShares, hs.totalAmountA, hs.totalAmountB]
    push_cast
    rw [← hshift]
    ring
  obtain ⟨hfrac0, hfrac1⟩ := others_fraction hpS hq
  rw [mul_add, add_div] at hgain
  rw [abs_le] at hA hB
  rw [hgain]
  constructor <;> nlinarith

end withdrawal

/-! ### A sequence of withdrawals -/

/-- The arguments of one withdrawal. -/
structure ExitCall where
  env : Env
  shares : ℤ
  minAmountA : ℤ
  minAmountB : ℤ

/-- Withdrawals one after the other, and the sum of their performance fees. -/
def withdrawEach (user : Address) : World → List ExitCall → VaultCall (World × ℤ)
  | w, [] => pure (w, 0)
  | w, c :: cs => do
      let (w, plan) ← withdraw c.env w user c.shares c.minAmountA c.minAmountB
      let (w, fees) ← withdrawEach user w cs
      pure (w, plan.perfFee + fees)

section sequence
variable {info : VaultInfo} {user : Address}

theorem withdrawEach_cons {w w' : World} {c : ExitCall} {cs : List ExitCall} {fees : ℤ}
    (h : withdrawEach user w (c :: cs) = .ok (w', fees)) :
    ∃ w₁ plan rest, withdraw c.env w user c.shares c.minAmountA c.minAmountB = .ok (w₁, plan) ∧
      withdrawEach user w₁ cs = .ok (w', rest) ∧ fees = plan.perfFee + rest := by
  simp only [withdrawEach, bind_eq_ok, pure_eq_ok, Prod.mk.injEq] at h
  obtain ⟨⟨w₁, plan⟩, hw, ⟨w₂, rest⟩, hrest, rfl, rfl⟩ := h
  exact ⟨w₁, plan, rest, hw, hrest, rfl⟩

theorem withdrawEach_of_cons {w w₁ w' : World} {c : ExitCall} {cs : List ExitCall}
    {plan : WithdrawPlan} {rest : ℤ}
    (hw : withdraw c.env w user c.shares c.minAmountA c.minAmountB = .ok (w₁, plan))
    (hrest : withdrawEach user w₁ cs = .ok (w', rest)) :
    withdrawEach user w (c :: cs) = .ok (w', plan.perfFee + rest) := by
  simp only [withdrawEach, bind_eq_ok, pure_eq_ok]
  exact ⟨_, hw, _, hrest, rfl⟩

theorem SettleFacts.shares_left {e : Env} {s s' : VaultStore} {q minA minB : ℤ}
    {plan : WithdrawPlan} (hs : SettleFacts e s user q minA minB s' plan) :
    (s'.getUserPosition user).shares = (s.getUserPosition user).shares - q := by
  rw [VaultStore.getUserPosition, hs.positions, SortedMap.get_set_self, hs.amounts.position]
  rfl

/-- Returning withdrawals split the user's shares. -/
theorem withdrawEach_splits :
    ∀ {cs : List ExitCall} {w w' : World} {fees : ℤ},
      withdrawEach user w cs = .ok (w', fees) →
        SplitsFrom (w.store.getUserPosition user).shares (cs.map ExitCall.shares)
  | [], _, _, _, _ => trivial
  | c :: cs, w, w', fees, h => by
      obtain ⟨w₁, plan, rest, hw, hrest, -⟩ := withdrawEach_cons h
      have hs := (withdraw_facts hw).1
      have ih := withdrawEach_splits hrest
      rw [hs.shares_left] at ih
      exact ⟨hs.amounts.shares_pos, hs.amounts.position ▸ hs.amounts.shares_le, ih⟩

/-- The errors of a first fee and of the fees after it, whose gain drifts by at most two. -/
theorem near_cons {rate part weight first rest n gain gain' : ℚ} (hrate : 0 ≤ rate)
    (hpart : 0 ≤ part) (hn : 0 ≤ n)
    (hfirst : |first - rate * (part * gain)| ≤ 1 + rate * 4)
    (hrest : |rest - rate * (weight * gain')| ≤ (1 + rate * (4 + 2 * weight)) * n)
    (hdrift : |weight * (gain' - gain)| ≤ 2 * weight) :
    |first + rest - rate * ((part + weight) * gain)| ≤
      (1 + rate * (4 + 2 * (part + weight))) * (n + 1) := by
  have hscaled : |rate * (weight * (gain' - gain))| ≤ rate * (2 * weight) := by
    rw [abs_mul, abs_of_nonneg hrate]
    exact mul_le_mul_of_nonneg_left hdrift hrate
  have hsum : first + rest - rate * ((part + weight) * gain) =
      (first - rate * (part * gain)) + (rest - rate * (weight * gain')) +
        rate * (weight * (gain' - gain)) := by ring
  have hmore : 0 ≤ rate * (2 * part) * (n + 1) := by positivity
  calc |first + rest - rate * ((part + weight) * gain)|
      ≤ |first - rate * (part * gain)| + |rest - rate * (weight * gain')| +
          |rate * (weight * (gain' - gain))| := hsum ▸ abs_add_three _ _ _
    _ ≤ 1 + rate * 4 + (1 + rate * (4 + 2 * weight)) * n + rate * (2 * weight) :=
        add_le_add (add_le_add hfirst hrest) hscaled
    _ = (1 + rate * (4 + 2 * weight)) * (n + 1) := by ring
    _ ≤ (1 + rate * (4 + 2 * weight)) * (n + 1) + rate * (2 * part) * (n + 1) :=
        le_add_of_nonneg_right hmore
    _ = (1 + rate * (4 + 2 * (part + weight))) * (n + 1) := by ring

/-- Either the gain drifts by at most two, or nothing is left to charge. -/
theorem gain_drift {e : Env} {s s' : VaultStore} {q minA minB : ℤ} {plan : WithdrawPlan}
    {qs : List ℤ} (hsound : Sound info s) (hs : SettleFacts e s user q minA minB s' plan)
    (hqs : SplitsFrom ((s.getUserPosition user).shares - q) qs) :
    |splitWeight ((s.getUserPosition user).shares - q) qs *
        (max (unrealizedGain s' user) 0 - max (unrealizedGain s user) 0)| ≤
      2 * splitWeight ((s.getUserPosition user).shares - q) qs := by
  have hweight := splitWeight_nonneg hqs
  have hle : q ≤ (s.getUserPosition user).shares := hs.amounts.position ▸ hs.amounts.shares_le
  rcases hle.lt_or_eq with hlt | heq
  · obtain ⟨hlo, hhi⟩ := unrealizedGain_step hsound hs hlt
    have h := abs_max_sub_max_le_abs (unrealizedGain s' user) (unrealizedGain s user) 0
    have habs : |unrealizedGain s' user - unrealizedGain s user| ≤ 2 := by
      rw [abs_le]
      constructor <;> linarith
    rw [abs_mul, abs_of_nonneg hweight, mul_comm]
    exact mul_le_mul_of_nonneg_right (h.trans habs) hweight
  · cases qs with
    | nil => simp [splitWeight]
    | cons r rs =>
        obtain ⟨hr, hr', -⟩ := hqs
        omega

/-- The fees of a sequence are the weight of its split times the gain, up to rounding. -/
theorem withdrawEach_near :
    ∀ {cs : List ExitCall} {w w' : World} {fees : ℤ}, Sound info w.store →
      withdrawEach user w cs = .ok (w', fees) →
      |(fees : ℚ) - feeFraction info * (splitWeight (w.store.getUserPosition user).shares
          (cs.map ExitCall.shares) * max (unrealizedGain w.store user) 0)| ≤
        (1 + feeFraction info * (4 + 2 * splitWeight (w.store.getUserPosition user).shares
          (cs.map ExitCall.shares))) * cs.length
  | [], w, w', fees, _, h => by
      simp only [withdrawEach, pure_eq_ok, Prod.mk.injEq] at h
      obtain ⟨-, rfl⟩ := h
      simp [splitWeight]
  | c :: cs, w, w', fees, hsound, h => by
      obtain ⟨w₁, plan, rest, hw, hrest, rfl⟩ := withdrawEach_cons h
      have hs := (withdraw_facts hw).1
      have hfirst := perfFee_near hsound hs.amounts
      have hsplits := withdrawEach_splits hrest
      have ih := withdrawEach_near (sound_settle hsound hs) hrest
      have hq : c.shares ≤ (w.store.getUserPosition user).shares :=
        hs.amounts.position ▸ hs.amounts.shares_le
      rw [hs.shares_left] at ih hsplits
      have hpart : (0 : ℚ) ≤ (c.shares : ℚ) / (w.store.getUserPosition user).shares :=
        div_nonneg (by exact_mod_cast hs.amounts.shares_pos.le)
          (by exact_mod_cast (hsound.shares_bounds user).1)
      have h := near_cons (feeFraction_nonneg info) hpart (Nat.cast_nonneg _) hfirst ih
        (gain_drift hsound hs hsplits)
      simp only [List.map_cons, splitWeight, List.length_cons]
      push_cast
      exact h

/-! ### Splitting an exit -/

/-- What splitting an exit into `qs` adds to its fee, before rounding: the gain is charged on
`splitWeight` of the shares instead of on their sum. -/
def splitExcess (info : VaultInfo) (s : VaultStore) (user : Address) (qs : List ℤ) : ℚ :=
  feeFraction info * ((splitWeight (s.getUserPosition user).shares qs -
    (qs.sum : ℚ) / (s.getUserPosition user).shares) * max (unrealizedGain s user) 0)

theorem splitExcess_nonneg {s : VaultStore} {qs : List ℤ}
    (hqs : SplitsFrom (s.getUserPosition user).shares qs) : 0 ≤ splitExcess info s user qs :=
  mul_nonneg (feeFraction_nonneg info)
    (mul_nonneg (sub_nonneg.mpr (sum_div_le_splitWeight hqs le_rfl)) (le_max_right _ _))

/-- Splitting adds nothing to the fee of a position that has no gain, without a rate, or in
one part. -/
theorem splitExcess_eq_zero {s : VaultStore} {qs : List ℤ}
    (h : info.feeRate = 0 ∨ unrealizedGain s user ≤ 0 ∨ qs.length ≤ 1) :
    splitExcess info s user qs = 0 := by
  unfold splitExcess feeFraction
  rcases h with h | h | h
  · simp [h]
  · simp [max_eq_right h]
  · match qs, h with
    | [], _ => simp [splitWeight]
    | [q], _ => simp [splitWeight]

/-- A split exit costs `splitExcess` more than a single one, up to the rounding of each step. -/
theorem splitFee_near {w w' w'' : World} {cs : List ExitCall} {split minA minB : ℤ} {e : Env}
    {plan : WithdrawPlan} (hsound : Sound info w.store)
    (hsplit : withdrawEach user w cs = .ok (w', split))
    (hsingle : withdraw e w user (cs.map ExitCall.shares).sum minA minB = .ok (w'', plan)) :
    |(split : ℚ) - plan.perfFee - splitExcess info w.store user (cs.map ExitCall.shares)| ≤
      roundingUnits info * cs.length := by
  have hs := (withdraw_facts hsingle).1
  have hfees := withdrawEach_near hsound hsplit
  have hfee := perfFee_near hsound hs.amounts
  have hrate := feeFraction_nonneg info
  have hweight := splitWeight_le (withdrawEach_splits hsplit) (hsound.shares_bounds user).2
  have hlen : (1 : ℚ) ≤ cs.length := by
    have hne : cs ≠ [] := by
      rintro rfl
      exact absurd hs.amounts.shares_pos (by simp)
    exact_mod_cast List.length_pos_iff.mpr hne
  have hstep : 1 + feeFraction info * (4 + 2 * splitWeight (w.store.getUserPosition user).shares
      (cs.map ExitCall.shares)) ≤ 1 + feeFraction info * 184 := by
    have := mul_le_mul_of_nonneg_left hweight hrate
    linarith
  have hfees' := hfees.trans (mul_le_mul_of_nonneg_right hstep (by linarith))
  have hfee' : 1 + feeFraction info * 4 ≤ (1 + feeFraction info * 4) * cs.length :=
    le_mul_of_one_le_right (by positivity) hlen
  unfold splitExcess roundingUnits
  rw [abs_le] at *
  constructor <;> linarith

/-- The fees of a split exit and of a single one differ by a number of units per step exactly
where the excess does, up to rounding.  A harvest fee above 100 % would take the totals below
zero. -/
theorem splitFee_within_iff {w w' w'' : World} (hreach : Reachable info w)
    (hharvest : info.harvestFee ≤ 10000) {cs : List ExitCall} {split minA minB : ℤ} {e : Env}
    {plan : WithdrawPlan} (hsplit : withdrawEach user w cs = .ok (w', split))
    (hsingle : withdraw e w user (cs.map ExitCall.shares).sum minA minB = .ok (w'', plan))
    (K : ℚ) :
    (splitExcess info w.store user (cs.map ExitCall.shares) ≤ K * cs.length →
      |(split : ℚ) - plan.perfFee| ≤ (K + roundingUnits info) * cs.length) ∧
    (|(split : ℚ) - plan.perfFee| ≤ K * cs.length →
      splitExcess info w.store user (cs.map ExitCall.shares) ≤
        (K + roundingUnits info) * cs.length) := by
  have hnear := splitFee_near (hreach.sound hharvest) hsplit hsingle
  have hnonneg : 0 ≤ splitExcess info w.store user (cs.map ExitCall.shares) :=
    splitExcess_nonneg (withdrawEach_splits hsplit)
  rw [abs_le] at hnear
  constructor
  · intro h
    rw [abs_le]
    constructor <;> linarith
  · intro h
    rw [abs_le] at h
    linarith

end sequence

theorem splitFee_within_grownWorld :
    splitExcess (twoTokenVault 2000) (grownWorld 6).store 5 [1000, 1000] ≤
      (600 + roundingUnits (twoTokenVault 2000)) * (2 : ℕ) := by
  have hreach : Reachable (twoTokenVault 2000) (grownWorld 6) := ⟨_, _, _, _, _, rfl⟩
  have hsplit : ∃ w', withdrawEach 5 (grownWorld 6)
      [⟨⟨9, [], 8⟩, 1000, 0, 0⟩, ⟨⟨9, [], 9⟩, 1000, 0, 0⟩] = .ok (w', 3600) := ⟨_, rfl⟩
  have hsingle : ∃ w' plan, withdraw ⟨9, [], 8⟩ (grownWorld 6) 5 2000 0 0 = .ok (w', plan) ∧
      plan.perfFee = 2400 := ⟨_, _, rfl, rfl⟩
  obtain ⟨w', hsplit⟩ := hsplit
  obtain ⟨w'', plan, hsingle, hfee⟩ := hsingle
  refine (splitFee_within_iff hreach (by decide) hsplit hsingle 600).2 ?_
  rw [hfee]
  norm_num

/-! ### A difference that grows with the gain -/

section overcharged
variable (m : ℕ) (hm : m ≤ 10 ^ 12) {l : Ledger} (hA : 10 ^ 18 ≤ l 1 9) (hB : 10 ^ 18 ≤ l 2 9)
include hm hA hB

theorem halves_even : ∃ w', withdrawEach 5 ⟨evenStore 0 2000 (1000 * (m + 2)) 2000 1000, l⟩
    [⟨⟨9, [], 1⟩, 1000, 0, 0⟩, ⟨⟨9, [], 2⟩, 1000, 0, 0⟩] = .ok (w', 600 * (m + 1)) := by
  have hfirst : EvenExit 2000 (1000 * ((m : ℤ) + 2)) 2000 1000 1000 (500 * (m + 2))
      (100 * (m + 1)) := by
    constructor <;> omega
  have hsecond : EvenExit 1000 (1000 * ((m : ℤ) + 2) - 500 * (m + 2)) 1000
      (1000 - 500 * (m + 2)) 1000 (500 * (m + 2)) (200 * (m + 1)) := by
    constructor <;> omega
  obtain ⟨l₁, plan₁, h₁, hfee₁, hA₁, hB₁⟩ := withdraw_even 0 _ _ _ _ hfirst
    (rfl : (⟨9, [], 1⟩ : Env).contract = 9) (by omega) (by omega : _ ≤ l 2 9)
  obtain ⟨l₂, plan₂, h₂, hfee₂, -⟩ := withdraw_even 1 _ _ _ _ hsecond
    (rfl : (⟨9, [], 2⟩ : Env).contract = 9) (by omega) (by omega : _ ≤ l₁ 2 9)
  have hfees : plan₁.perfFee + (plan₂.perfFee + 0) = 600 * (m + 1) := by
    rw [hfee₁, hfee₂]
    ring
  have hlast := withdrawEach_of_cons (c := ⟨⟨9, [], 2⟩, 1000, 0, 0⟩) h₂
    (rfl : withdrawEach 5 _ [] = .ok (_, 0))
  exact ⟨_, hfees ▸ withdrawEach_of_cons (c := ⟨⟨9, [], 1⟩, 1000, 0, 0⟩) h₁ hlast⟩

theorem whole_even : ∃ w' plan,
    withdraw ⟨9, [], 1⟩ ⟨evenStore 0 2000 (1000 * (m + 2)) 2000 1000, l⟩ 5 2000 0 0 =
      .ok (w', plan) ∧ plan.perfFee = 400 * (m + 1) := by
  have hexit : EvenExit 2000 (1000 * ((m : ℤ) + 2)) 2000 1000 2000 (1000 * (m + 2))
      (200 * (m + 1)) := by
    constructor <;> omega
  obtain ⟨l', plan, h, hfee, -⟩ := withdraw_even 0 _ _ _ _ hexit
    (rfl : (⟨9, [], 1⟩ : Env).contract = 9) (by omega) (by omega : _ ≤ l 2 9)
  exact ⟨_, plan, h, hfee.trans (by ring)⟩

end overcharged

/-- After `n` harvests, leaving in two halves costs `600 * n` in performance fees and leaving at
once `400 * n`: above every constant, once `n` is large enough. -/
theorem split_exit_overcharged : RatesBounded (twoTokenVault 2000) ∧
    ∀ n : ℕ, 0 < n → n ≤ 10 ^ 12 → Reachable (twoTokenVault 2000) (grownWorld n) ∧
      (∃ w', withdrawEach 5 (grownWorld n)
        [⟨⟨9, [], 1⟩, 1000, 0, 0⟩, ⟨⟨9, [], 2⟩, 1000, 0, 0⟩] = .ok (w', 600 * n)) ∧
      ∃ w' plan, withdraw ⟨9, [], 1⟩ (grownWorld n) 5 2000 0 0 = .ok (w', plan) ∧
        plan.perfFee = 400 * n := by
  refine ⟨by decide, fun n hn hle => ?_⟩
  obtain ⟨m, rfl⟩ := Nat.exists_eq_succ_of_ne_zero hn.ne'
  obtain ⟨l, hworld, hA, hB⟩ := grownWorld_even (by omega : m ≤ 10 ^ 12)
  refine ⟨⟨_, _, _, _, _, rfl⟩, ?_⟩
  rw [Nat.succ_eq_add_one, hworld]
  push_cast
  exact ⟨halves_even m (by omega) hA hB, whole_even m (by omega) hA hB⟩

end YieldEngine.Vault
