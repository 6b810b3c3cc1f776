import YieldEngine.InsuranceSettlement

/-! # The laws of the premium

The rate of a premium is `50` basis points and the volatility, weighted with the root of the
period and freed from the correlation, raised by the shortage of the reserve and capped at `500`.
`effectiveRate` is that rate on integers, and `calculatePremium_rate` says that the contract
quotes it.  It grows with the risk whatever the reserve (`volatilityRate_mono`,
`effectiveRate_mono`).

What it makes of the reserve is another matter: the ratio is narrowed to 32 bits before it is
compared, so a reserve of more than `429496` times the exposure can read as a shortage.
`RatioKept` is the condition under which narrowing is harmless, and `premiumLaws_of_ratioKept`
derives the laws in every state that a run reaches and that satisfies it;
`narrowed_dearer` shows that the condition cannot be weakened. -/

namespace YieldEngine.Insurance

open CheckedArith IntegerRoot Transact

/-! ### The rate -/

/-- The rate before the reserve is looked at. -/
def volatilityRate (durationFactor volatilityBps correlationBps : ℤ) : ℤ :=
  50 + ((volatilityBps * (10000 - correlationBps)).tdiv 10000 * durationFactor).tdiv 100000

/-- The surcharge of a reserve ratio below the minimum. -/
def surcharge (rate ratio : ℤ) : ℤ :=
  if ratio < 15000 then (rate * (15000 - ratio)).tdiv 10000 else 0

/-- The rate at a reserve ratio, with its cap. -/
def effectiveRate (rate ratio : ℤ) : ℤ := min 500 (rate + surcharge rate ratio)

/-- The reserve over the active coverage in basis points, before it is narrowed. -/
def trueRatio (reserve : ReservePool) : ℤ :=
  (reserve.currentReserve * 10000).tdiv reserve.activeCoverage

/-- The reserve ratio as `compute_reserve_ratio` returns it. -/
def narrowRatio (reserve : ReservePool) : ℤ :=
  if reserve.activeCoverage = 0 then 150000 else trueRatio reserve % 2 ^ 32

/-- A reserve that is no shortage does not read as one that is charged for. -/
def RatioKept (reserve : ReservePool) : Prop :=
  reserve.activeCoverage = 0 ∨ trueRatio reserve < 15000 ∨ 14980 ≤ trueRatio reserve % 2 ^ 32

instance (reserve : ReservePool) : Decidable (RatioKept reserve) :=
  inferInstanceAs (Decidable (_ ∨ _ ∨ _))

section rate
variable {rate rate' ratio ratio' : ℤ}

theorem volatilityRate_mono {factor factor' volatility volatility' correlation correlation' : ℤ}
    (hfactor : 0 ≤ factor) (hfactors : factor ≤ factor') (hvolatility : 0 ≤ volatility)
    (hvolatilities : volatility ≤ volatility') (hcorrelation : correlation ≤ 10000)
    (hcorrelations : correlation' ≤ correlation) :
    volatilityRate factor volatility correlation ≤
      volatilityRate factor' volatility' correlation' := by
  have hnet : 0 ≤ volatility * (10000 - correlation) := mul_nonneg hvolatility (by omega)
  have hnets : volatility * (10000 - correlation) ≤ volatility' * (10000 - correlation') :=
    mul_le_mul hvolatilities (by omega) (by omega) (hvolatility.trans hvolatilities)
  have hadjusted := Rounding.tdiv_nonneg hnet (show (0 : ℤ) < 10000 by norm_num)
  have hadjusteds : (volatility * (10000 - correlation)).tdiv 10000 ≤
      (volatility' * (10000 - correlation')).tdiv 10000 :=
    Int.tdiv_le_tdiv (by norm_num) hnets
  unfold volatilityRate
  apply Int.add_le_add_left
  exact Int.tdiv_le_tdiv (by norm_num)
    (mul_le_mul hadjusteds hfactors hfactor (hadjusted.trans hadjusteds))

theorem le_volatilityRate {factor volatility correlation : ℤ} (hfactor : 0 ≤ factor)
    (hvolatility : 0 ≤ volatility) (hcorrelation : correlation ≤ 10000) :
    50 ≤ volatilityRate factor volatility correlation := by
  have hadjusted := Rounding.tdiv_nonneg (mul_nonneg hvolatility (sub_nonneg.mpr hcorrelation))
    (show (0 : ℤ) < 10000 by norm_num)
  have hweighted := Rounding.tdiv_nonneg (mul_nonneg hadjusted hfactor)
    (show (0 : ℤ) < 100000 by norm_num)
  unfold volatilityRate
  omega

theorem surcharge_nonneg (hrate : 0 ≤ rate) : 0 ≤ surcharge rate ratio := by
  unfold surcharge
  split_ifs with hshort
  · exact Rounding.tdiv_nonneg (mul_nonneg hrate (by omega)) (by norm_num)
  · exact le_rfl

theorem surcharge_mono (hrate : 0 ≤ rate) (hrates : rate ≤ rate') (hratios : ratio' ≤ ratio) :
    surcharge rate ratio ≤ surcharge rate' ratio' := by
  by_cases hshort : ratio < 15000
  · unfold surcharge
    rw [if_pos hshort, if_pos (by omega)]
    exact Int.tdiv_le_tdiv (by norm_num)
      (mul_le_mul hrates (by omega) (by omega) (hrate.trans hrates))
  · rw [surcharge, if_neg hshort]
    exact surcharge_nonneg (hrate.trans hrates)

theorem effectiveRate_mono (hrate : 0 ≤ rate) (hrates : rate ≤ rate') (hratios : ratio' ≤ ratio) :
    effectiveRate rate ratio ≤ effectiveRate rate' ratio' :=
  min_le_min le_rfl (add_le_add hrates (surcharge_mono hrate hrates hratios))

theorem effectiveRate_bounds (hrate : 50 ≤ rate) :
    50 ≤ effectiveRate rate ratio ∧ effectiveRate rate ratio ≤ 500 := by
  have hsurcharge : 0 ≤ surcharge rate ratio := surcharge_nonneg (by omega)
  unfold effectiveRate
  omega

/-- Below the cap a shortage of at most `20` basis points makes no basis point. -/
theorem effectiveRate_of_slight (hrate : 0 ≤ rate) (hratio : 14980 ≤ ratio) :
    effectiveRate rate ratio = min 500 rate := by
  have hsurcharge : 0 ≤ surcharge rate ratio := surcharge_nonneg hrate
  unfold effectiveRate
  rcases le_or_gt 500 rate with hcap | hcap
  · omega
  · have hnone : surcharge rate ratio = 0 := by
      unfold surcharge
      split_ifs with hshort
      · apply le_antisymm _ (Rounding.tdiv_nonneg (mul_nonneg hrate (by omega)) (by norm_num))
        rw [← Int.lt_add_one_iff, Rounding.tdiv_lt_iff (mul_nonneg hrate (by omega)) (by norm_num)]
        nlinarith
      · rfl
    rw [hnone, add_zero]

end rate

/-! ### The contract quotes the rate -/

theorem computeReserveRatio_value {reserve : ReservePool} {ratio : ℕ}
    (h : computeReserveRatio reserve = .ok ratio) : (ratio : ℤ) = narrowRatio reserve := by
  unfold computeReserveRatio at h
  unfold narrowRatio
  split_ifs with hidle
  · rw [if_pos hidle, pure_eq_ok] at h
    rw [← h]
    rfl
  · simp only [if_neg hidle, bind_eq_ok, I128.mul_eq_ok, I128.div_eq_ok, pure_eq_ok] at h
    obtain ⟨_, ⟨-, rfl⟩, _, ⟨-, -, rfl⟩, rfl⟩ := h
    exact Int.toNat_of_nonneg (Int.emod_nonneg _ (by norm_num))

theorem volatilityRateBps_value {factor rate : ℤ} {volatility correlation : ℕ}
    (h : volatilityRateBps factor volatility correlation = .ok rate) :
    rate = volatilityRate factor volatility correlation := by
  simp only [volatilityRateBps, bind_eq_ok, I128.sub_eq_ok, I128.mul_eq_ok, I128.div_eq_ok,
    I128.add_eq_ok] at h
  obtain ⟨_, ⟨-, rfl⟩, _, ⟨-, rfl⟩, _, ⟨-, -, rfl⟩, _, ⟨-, rfl⟩, _, ⟨-, -, rfl⟩, -, rfl⟩ := h
  rfl

theorem surchargedRateBps_value {rate surcharged : ℤ} {ratio : ℕ}
    (h : surchargedRateBps rate ratio = .ok surcharged) :
    surcharged = rate + surcharge rate ratio := by
  have hshort : ratio < minReserveRatio ↔ (ratio : ℤ) < 15000 := by
    unfold minReserveRatio
    omega
  simp only [surchargedRateBps, ite_eq_ok, bind_eq_ok, I128.mul_eq_ok, I128.div_eq_ok,
    I128.add_eq_ok, pure_eq_ok, hshort] at h
  unfold surcharge
  obtain ⟨hlt, _, ⟨-, rfl⟩, _, ⟨-, -, rfl⟩, -, rfl⟩ | ⟨hge, rfl⟩ := h
  · rw [if_pos hlt]
    rfl
  · rw [if_neg hge, add_zero]

/-- The terms a premium is quoted on. -/
structure PremiumTerms where
  coverageAmount : ℤ
  coveragePeriod : ℕ
  volatilityBps : ℕ
  correlationBps : ℕ

/-- `purchase_insurance` sells on these terms. -/
structure PremiumTerms.Accepted (t : PremiumTerms) : Prop where
  covers : 0 < t.coverageAmount
  period : t.coveragePeriod = coverage7d ∨ t.coveragePeriod = coverage30d ∨
    t.coveragePeriod = coverage90d
  volatility : t.volatilityBps < 2 ^ 32
  correlation : t.correlationBps ≤ 10000

/-- The contract quotes the rate on the terms. -/
def Quotes (s : InsuranceStore) (t : PremiumTerms) (rate : ℕ) : Prop :=
  ∃ quote, calculatePremium s t.coverageAmount t.coveragePeriod t.volatilityBps t.correlationBps =
    .ok quote ∧ quote.effectiveRateBps = rate

/-- The period in units of `30` days, at scale `1000`. -/
def periods (coveragePeriod : ℕ) : ℤ := ((coveragePeriod : ℤ) * 1000).tdiv coverage30d

theorem calculatePremium_rate {s : InsuranceStore} {t : PremiumTerms} {rate : ℕ}
    (ht : t.Accepted) (h : Quotes s t rate) :
    ∃ factor, IsRoot (periods t.coveragePeriod) factor ∧
      (rate : ℤ) = effectiveRate (volatilityRate factor t.volatilityBps t.correlationBps)
        (narrowRatio s.getReservePoolInternal) := by
  obtain ⟨quote, hquote, rfl⟩ := h
  simp only [calculatePremium, bind_eq_ok, I128.mul_eq_ok, I128.div_eq_ok, pure_eq_ok] at hquote
  obtain ⟨_, ⟨-, rfl⟩, _, ⟨-, -, rfl⟩, factor, hsqrt, unadjusted, hunadjusted, ratio, hratio,
    surcharged, hsurcharged, _, -, _, -, rfl⟩ := hquote
  have hperiods : 0 ≤ periods t.coveragePeriod :=
    Rounding.tdiv_nonneg (by positivity) (by norm_num [coverage30d])
  have hroot : IsRoot (periods t.coveragePeriod) factor := sqrtScaled_isRoot hperiods hsqrt
  have hcorrelation : (t.correlationBps : ℤ) ≤ 10000 := by exact_mod_cast ht.correlation
  have hrate := le_volatilityRate hroot.nonneg (Int.natCast_nonneg t.volatilityBps) hcorrelation
  obtain rfl := volatilityRateBps_value hunadjusted
  obtain rfl := surchargedRateBps_value hsurcharged
  have hbounds : 50 ≤ effectiveRate _ (ratio : ℤ) ∧ effectiveRate _ (ratio : ℤ) ≤ 500 :=
    effectiveRate_bounds hrate
  refine ⟨factor, hroot, ?_⟩
  rw [← computeReserveRatio_value hratio]
  unfold effectiveRate at hbounds ⊢
  dsimp only
  split_ifs with hcap
  · omega
  · omega

/-! ### Reserves -/

section reserves
variable {less more : ReservePool} {rate : ℤ}

theorem trueRatio_mono (hactive : more.activeCoverage = less.activeCoverage)
    (hcovers : 0 < less.activeCoverage) (hless : less.currentReserve ≤ more.currentReserve) :
    trueRatio less ≤ trueRatio more := by
  unfold trueRatio
  rw [hactive]
  exact Int.tdiv_le_tdiv hcovers (by omega)

theorem narrowRatio_of_small {reserve : ReservePool} (hactive : reserve.activeCoverage ≠ 0)
    (h0 : 0 ≤ trueRatio reserve) (hlt : trueRatio reserve < 2 ^ 32) :
    narrowRatio reserve = trueRatio reserve := by
  rw [narrowRatio, if_neg hactive]
  exact Int.emod_eq_of_lt h0 hlt

/-- Of two reserves behind one exposure the larger is not dearer, where narrowing keeps its
ratio. -/
theorem effectiveRate_reserve (hrate : 0 ≤ rate)
    (hactive : more.activeCoverage = less.activeCoverage) (hcovers : 0 ≤ less.activeCoverage)
    (hreserve : 0 ≤ less.currentReserve) (hless : less.currentReserve ≤ more.currentReserve)
    (hkept : RatioKept more) :
    effectiveRate rate (narrowRatio more) ≤ effectiveRate rate (narrowRatio less) := by
  by_cases hidle : less.activeCoverage = 0
  · rw [narrowRatio, narrowRatio, hactive, if_pos hidle, if_pos hidle]
  · have hpositive : 0 < less.activeCoverage := by omega
    have hratios := trueRatio_mono hactive hpositive hless
    have hratio : 0 ≤ trueRatio less := Rounding.tdiv_nonneg (by omega) hpositive
    rcases hkept with hnone | hshort | hhealthy
    · omega
    · rw [narrowRatio_of_small (by omega) (by omega) (by omega),
        narrowRatio_of_small hidle hratio (by omega)]
      exact effectiveRate_mono hrate le_rfl hratios
    · rw [effectiveRate_of_slight hrate (by rwa [narrowRatio, if_neg (by omega)])]
      exact min_le_min le_rfl (le_add_of_nonneg_right (surcharge_nonneg hrate))

/-- Where narrowing turns a reserve into a shortage, some rate is charged more for it than for
any reserve without a shortage. -/
theorem narrowed_dearer (hactive : more.activeCoverage ≠ 0) (hkept : ¬ RatioKept more)
    (hless : 15000 ≤ narrowRatio less) :
    effectiveRate 499 (narrowRatio less) < effectiveRate 499 (narrowRatio more) := by
  have hshort : trueRatio more % 2 ^ 32 < 14980 := by
    by_contra hge
    exact hkept (.inr (.inr (by omega)))
  have hnarrow : 0 ≤ trueRatio more % 2 ^ 32 := Int.emod_nonneg _ (by norm_num)
  have hcharged : 1 ≤ surcharge 499 (narrowRatio more) := by
    rw [surcharge, narrowRatio, if_neg hactive, if_pos (by omega),
      Rounding.le_tdiv_iff (by omega) (by norm_num)]
    omega
  have hfree : surcharge 499 (narrowRatio less) = 0 := if_neg (by omega)
  unfold effectiveRate
  omega

end reserves

/-! ### The laws -/

/-- A state that purchases, claims and the other calls lead to, in which the contract is not
initialised again over an open policy. -/
def Reached (w : InsuranceWorld) : Prop :=
  ∃ admin reserveToken ledger calls,
    Along insuranceCall SetsUpIdle ⟨initialInsurance admin reserveToken, ledger⟩ calls ∧
      run insuranceCall ⟨initialInsurance admin reserveToken, ledger⟩ calls = w

/-- Every rate quoted in the state is within its bounds, grows with the risk, and is not above
the rate of a smaller reserve behind the same active coverage. -/
structure PremiumLaws (w : InsuranceWorld) : Prop where
  bounds : ∀ (t : PremiumTerms) rate, t.Accepted → Quotes w.store t rate → 50 ≤ rate ∧ rate ≤ 500
  risk : ∀ (t t' : PremiumTerms) rate rate', t.Accepted → t'.Accepted →
    t.volatilityBps ≤ t'.volatilityBps → t.coveragePeriod ≤ t'.coveragePeriod →
    t'.correlationBps ≤ t.correlationBps → Quotes w.store t rate → Quotes w.store t' rate' →
    rate ≤ rate'
  reserve : ∀ (w' : InsuranceWorld) (t : PremiumTerms) rate rate', Reached w' → t.Accepted →
    w.store.getReservePoolInternal.activeCoverage =
      w'.store.getReservePoolInternal.activeCoverage →
    w'.store.getReservePoolInternal.currentReserve ≤
      w.store.getReservePoolInternal.currentReserve →
    Quotes w.store t rate → Quotes w'.store t rate' → rate ≤ rate'

theorem Reached.insured {w : InsuranceWorld} (h : Reached w) : Insured w := by
  obtain ⟨admin, reserveToken, ledger, calls, hcalls, rfl⟩ := h
  exact run_invariant_along (fun _ _ _ hv hidle hstep => insuranceCall_insured hv hidle hstep)
    calls _ (insured_initial admin reserveToken ledger) hcalls

/-- The exposure is never negative: it counts the open policies. -/
theorem Insured.active_nonneg {w : InsuranceWorld} (hw : Insured w) :
    0 ≤ w.store.getReservePoolInternal.activeCoverage :=
  (SortedMap.total_nonneg openCoverage _ hw.openCoverage_nonneg).trans hw.counted

theorem quotes_bounds {s : InsuranceStore} {t : PremiumTerms} {rate : ℕ} (ht : t.Accepted)
    (h : Quotes s t rate) : 50 ≤ rate ∧ rate ≤ 500 := by
  obtain ⟨factor, hroot, hrate⟩ := calculatePremium_rate ht h
  have hcorrelation : (t.correlationBps : ℤ) ≤ 10000 := by exact_mod_cast ht.correlation
  have hbounds : 50 ≤ effectiveRate _ (narrowRatio s.getReservePoolInternal) ∧ _ :=
    effectiveRate_bounds
      (le_volatilityRate hroot.nonneg (Int.natCast_nonneg t.volatilityBps) hcorrelation)
  omega

theorem quotes_risk {s : InsuranceStore} {t t' : PremiumTerms} {rate rate' : ℕ}
    (ht : t.Accepted) (ht' : t'.Accepted) (hvolatility : t.volatilityBps ≤ t'.volatilityBps)
    (hperiod : t.coveragePeriod ≤ t'.coveragePeriod)
    (hcorrelation : t'.correlationBps ≤ t.correlationBps) (h : Quotes s t rate)
    (h' : Quotes s t' rate') : rate ≤ rate' := by
  obtain ⟨factor, hroot, hrate⟩ := calculatePremium_rate ht h
  obtain ⟨factor', hroot', hrate'⟩ := calculatePremium_rate ht' h'
  have hbelow : (t.correlationBps : ℤ) ≤ 10000 := by exact_mod_cast ht.correlation
  have hvolatility0 : (0 : ℤ) ≤ t.volatilityBps := Int.natCast_nonneg _
  have hperiods : periods t.coveragePeriod ≤ periods t'.coveragePeriod :=
    Int.tdiv_le_tdiv (by norm_num [coverage30d]) (by omega)
  have hrates := volatilityRate_mono hroot.nonneg (hroot.mono hroot' hperiods) hvolatility0
    (Int.ofNat_le.mpr hvolatility) hbelow (Int.ofNat_le.mpr hcorrelation)
  have hrate0 := le_volatilityRate hroot.nonneg hvolatility0 hbelow
  have hle := effectiveRate_mono (by omega) hrates (le_refl (narrowRatio s.getReservePoolInternal))
  omega

theorem quotes_reserve {w w' : InsuranceWorld} {t : PremiumTerms} {rate rate' : ℕ}
    (hw' : Insured w') (ht : t.Accepted)
    (hactive : w.store.getReservePoolInternal.activeCoverage =
      w'.store.getReservePoolInternal.activeCoverage)
    (hless : w'.store.getReservePoolInternal.currentReserve ≤
      w.store.getReservePoolInternal.currentReserve)
    (hkept : RatioKept w.store.getReservePoolInternal) (h : Quotes w.store t rate)
    (h' : Quotes w'.store t rate') : rate ≤ rate' := by
  obtain ⟨factor, hroot, hrate⟩ := calculatePremium_rate ht h
  obtain ⟨factor', hroot', hrate'⟩ := calculatePremium_rate ht h'
  obtain rfl : factor = factor' := le_antisymm (hroot.mono hroot' le_rfl) (hroot'.mono hroot le_rfl)
  have hcorrelation : (t.correlationBps : ℤ) ≤ 10000 := by exact_mod_cast ht.correlation
  have hrate0 := le_volatilityRate hroot.nonneg (Int.natCast_nonneg t.volatilityBps) hcorrelation
  have hnonneg : 0 ≤ volatilityRate factor t.volatilityBps t.correlationBps := by omega
  have hle : effectiveRate _ (narrowRatio w.store.getReservePoolInternal) ≤ _ :=
    effectiveRate_reserve hnonneg hactive hw'.active_nonneg hw'.balanced.nonneg hless hkept
  rw [← hrate, ← hrate'] at hle
  exact Int.ofNat_le.mp hle

/-- The laws of the premium hold in every state whose reserve ratio narrowing keeps, whatever run
the larger and the smaller reserve are reached by. -/
theorem premiumLaws_of_ratioKept {w : InsuranceWorld}
    (hkept : RatioKept w.store.getReservePoolInternal) : PremiumLaws w where
  bounds _ _ ht h := quotes_bounds ht h
  risk _ _ _ _ ht ht' hvolatility hperiod hcorrelation h h' :=
    quotes_risk ht ht' hvolatility hperiod hcorrelation h h'
  reserve _ _ _ _ hw' ht hactive hless h h' :=
    quotes_reserve hw'.insured ht hactive hless hkept h h'

/-- Holder 5 insures `coverage` at price 1, claims for a small loss after a week, and insures 200
again. -/
def insuringAgain (coverage : ℤ) : List (InsuranceSetup ⊕ InsuranceEvent) :=
  [.inr (.call ⟨9, [5], 0⟩ (.purchaseInsurance 5 coverage coverage7d 1000000 0 0 false 2)),
    .inr (.call ⟨9, [5], coverage7d⟩ (.claimIlCompensation 5 0 1000999)),
    .inr (.call ⟨9, [5], coverage7d⟩ (.purchaseInsurance 5 200 coverage7d 1000000 0 0 false 2))]

def insuredAgain (coverage : ℤ) : InsuranceWorld :=
  run insuranceCall ⟨initialInsurance 7 2, fun _ _ => 1000000000000⟩ (insuringAgain coverage)

theorem insuredAgain_reached (coverage : ℤ) : Reached (insuredAgain coverage) :=
  ⟨7, 2, _, insuringAgain coverage, by simp [insuringAgain, Along, SetsUpIdle], rfl⟩

/-- A reserve of `4500` times the exposure is priced by the laws. -/
theorem premiumLaws_of_ratioKept_healthy : PremiumLaws (insuredAgain 200000000) :=
  premiumLaws_of_ratioKept (by decide +kernel)

/-- A volatility of 80% and a correlation of 50%, for 30 days. -/
def usualTerms : PremiumTerms := ⟨1000000, coverage30d, 8000, 5000⟩

/-- The reserve of `429496` times the exposure reads as a shortage, and more is charged for it
than for the smaller one. -/
theorem larger_reserve_dearer : Reached (insuredAgain 19088744000) ∧
    ¬ PremiumLaws (insuredAgain 19088744000) := by
  refine ⟨insuredAgain_reached _, fun h => ?_⟩
  have hquote : PremiumQuote.effectiveRateBps <$> calculatePremium
      (insuredAgain 19088744000).store 1000000 coverage30d 8000 5000 = .ok 126 := by decide +kernel
  have hquote' : PremiumQuote.effectiveRateBps <$> calculatePremium
      (insuredAgain 200000000).store 1000000 coverage30d 8000 5000 = .ok 51 := by decide +kernel
  have hle := h.reserve (insuredAgain 200000000) usualTerms 126 51 (insuredAgain_reached _)
    ⟨by decide, by decide, by decide, by decide⟩ (by decide +kernel) (by decide +kernel)
    (map_eq_ok.mp hquote) (map_eq_ok.mp hquote')
  omega

end YieldEngine.Insurance
