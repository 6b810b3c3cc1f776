import YieldEngine.Host
import YieldEngine.Rounding

/-! # Dynamic pricing of the actuary

The actuary scales a base premium with the health of the reserve: from a ratio of `150%` on by
the multiplier that governance has set, below it by the shortfall, up to twice the base.
`dynamicPricing` is the entrypoint and `updatePricingParams` the one that sets the multiplier.

Both branches are one multiplier of the base premium (`multiplierBps`, `dynamicPricing_value`).
The two know nothing of one another: the multiplier of a healthy reserve may exceed that of a
stressed one, and the ratio is narrowed to 32 bits before the branches are chosen.
`responds_iff` says at which two reserves the price falls as the reserve grows and keeps the
ceiling: at one base premium when the multipliers are in order up to what its rounding leaves
(`InOrder`), at all of them when the ratios and the multiplier of a healthy reserve are
(`RatiosInOrder`). -/

namespace YieldEngine.Actuary

open CheckedArith

/-- `ActuaryError`. -/
inductive ActuaryError where
  | unauthorized
  | notInitialized
  | baseMultiplierOutOfRange
  | reserveMarginOutOfRange
deriving DecidableEq, Repr

/-- The outcome of an actuary invocation. -/
abbrev ActuaryCall (α : Type) := Call ActuaryError α

def minReserveRatioBps : ℕ := 15000
def maxPremiumMultiplierBps : ℕ := 20000
def defaultReserveMarginBps : ℕ := 1000

/-- All four in basis points. -/
structure PricingParams where
  baseMultiplierBps : ℕ
  volSensitivityBps : ℕ
  correlationDiscountBps : ℕ
  reserveMarginBps : ℕ
deriving DecidableEq, Repr

def defaultPricingParams : PricingParams := ⟨10000, 10000, 10000, defaultReserveMarginBps⟩

/-- The instance storage that pricing reads. -/
structure ActuaryStore where
  admin : Option Address
  pricingParams : Option PricingParams
deriving DecidableEq, Repr

/-! ### Entrypoints -/

/-- `initialize`. -/
def initializeActuary (s : ActuaryStore) (admin : Address) : ActuaryStore :=
  { s with admin := some admin, pricingParams := some defaultPricingParams }

def ActuaryStore.getPricingParams (s : ActuaryStore) : PricingParams :=
  s.pricingParams.getD defaultPricingParams

/-- `update_pricing_params`. -/
def updatePricingParams (e : Env) (s : ActuaryStore) (admin : Address)
    (newParams : PricingParams) : ActuaryCall ActuaryStore := do
  e.requireAuth admin
  let storedAdmin ← orRaise s.admin (.contract .notInitialized)
  require (admin = storedAdmin) (.contract .unauthorized)
  require (5000 ≤ newParams.baseMultiplierBps ∧ newParams.baseMultiplierBps ≤ 30000)
    (.contract .baseMultiplierOutOfRange)
  require (500 ≤ newParams.reserveMarginBps ∧ newParams.reserveMarginBps ≤ 5000)
    (.contract .reserveMarginOutOfRange)
  pure { s with pricingParams := some newParams }

/-- The premium of a reserve at or above the minimum; the quotient is narrowed to 32 bits. -/
def healthyPremium (basePremiumBps baseMultiplierBps : ℕ) : ActuaryCall ℕ := do
  let scaled ← checkedU 64 (basePremiumBps * baseMultiplierBps : ℕ)
  pure (scaled.toNat / 10000 % 2 ^ 32)

/-- The premium of a reserve below the minimum. -/
def stressedPremium (basePremiumBps currentRatio : ℕ) : ActuaryCall ℕ := do
  let shortfall := minReserveRatioBps - currentRatio
  let scaled ← checkedU 64 (basePremiumBps * shortfall : ℕ)
  let increaseBps := scaled.toNat / 10000 % 2 ^ 32
  let stressed ← checkedU 32 (basePremiumBps + increaseBps : ℕ)
  let ceiling ← checkedU 32 (basePremiumBps * maxPremiumMultiplierBps : ℕ)
  pure (min stressed.toNat (ceiling.toNat / 10000))

/-- `dynamic_pricing`; the ratio is narrowed to 32 bits. -/
def dynamicPricing (s : ActuaryStore) (basePremiumBps : ℕ) (currentReserve activeCoverage : ℤ) :
    ActuaryCall ℕ :=
  if activeCoverage = 0 then pure basePremiumBps
  else do
    let scaled ← I128.mul currentReserve 10000
    let ratio ← I128.div scaled activeCoverage
    let currentRatio := (ratio % 2 ^ 32).toNat
    if minReserveRatioBps ≤ currentRatio then
      healthyPremium basePremiumBps s.getPricingParams.baseMultiplierBps
    else stressedPremium basePremiumBps currentRatio

/-! ### The multiplier -/

/-- What the base premium is multiplied with, in basis points, at a narrowed ratio. -/
def multiplierBps (baseMultiplierBps currentRatio : ℕ) : ℕ :=
  if minReserveRatioBps ≤ currentRatio then baseMultiplierBps
  else min (25000 - currentRatio) maxPremiumMultiplierBps

/-- The ratio of a reserve to the active coverage as pricing sees it. -/
def narrowRatio (currentReserve activeCoverage : ℤ) : ℕ :=
  ((currentReserve * 10000).tdiv activeCoverage % 2 ^ 32).toNat

theorem checkedU_of_lt {w n : ℕ} (h : n < 2 ^ w) :
    (checkedU w (n : ℤ) : ActuaryCall ℤ) = .ok (n : ℤ) :=
  checkedU_eq_ok.mpr ⟨⟨Int.natCast_nonneg n, by exact_mod_cast h⟩, rfl⟩

section premium
variable {base multiplier ratio : ℕ}

theorem healthyPremium_value (hbase : base ≤ 10000) (hmultiplier : multiplier ≤ 30000) :
    healthyPremium base multiplier = .ok (base * multiplier / 10000) := by
  have hproduct : base * multiplier ≤ 10000 * 30000 := Nat.mul_le_mul hbase hmultiplier
  unfold healthyPremium
  rw [checkedU_of_lt (hproduct.trans_lt (by norm_num)), ok_bind, Int.toNat_natCast,
    Nat.mod_eq_of_lt (by omega)]
  rfl

/-- The stressed premium is the base premium times the smaller of the two multipliers. -/
theorem stressedPremium_value (hbase : base ≤ 10000) (hratio : ratio < minReserveRatioBps) :
    stressedPremium base ratio =
      .ok (base * min (25000 - ratio) maxPremiumMultiplierBps / 10000) := by
  unfold minReserveRatioBps at hratio
  have hproduct : base * (15000 - ratio) ≤ 10000 * 15000 := Nat.mul_le_mul hbase (by omega)
  have hincrease : base + base * (15000 - ratio) / 10000 = base * (25000 - ratio) / 10000 := by
    rw [show 25000 - ratio = (15000 - ratio) + 10000 by omega, Nat.mul_add,
      Nat.add_mul_div_right _ _ (by norm_num)]
    omega
  unfold stressedPremium minReserveRatioBps maxPremiumMultiplierBps
  dsimp only
  rw [checkedU_of_lt (hproduct.trans_lt (by norm_num)), ok_bind, Int.toNat_natCast,
    Nat.mod_eq_of_lt (by omega), checkedU_of_lt (by omega), ok_bind, checkedU_of_lt (by omega),
    ok_bind, Int.toNat_natCast, Int.toNat_natCast, hincrease]
  rcases le_total (25000 - ratio) 20000 with hle | hle
  · have hpremium := Nat.div_le_div_right (c := 10000) (Nat.mul_le_mul_left base hle)
    rw [min_eq_left hle, min_eq_left hpremium]
    rfl
  · have hpremium := Nat.div_le_div_right (c := 10000) (Nat.mul_le_mul_left base hle)
    rw [min_eq_right hle, min_eq_right hpremium]
    rfl

/-- The price is the base premium times the multiplier, and pricing does not trap. -/
theorem dynamicPricing_value {s : ActuaryStore} {reserve coverage : ℤ} (hbase : base ≤ 10000)
    (hmultiplier : s.getPricingParams.baseMultiplierBps ≤ 30000) (hcoverage : 0 < coverage)
    (hreserve : 0 ≤ reserve) (hfits : Fits 128 (reserve * 10000)) :
    dynamicPricing s base reserve coverage =
      .ok (base * multiplierBps s.getPricingParams.baseMultiplierBps
        (narrowRatio reserve coverage) / 10000) := by
  have hscaled : 0 ≤ reserve * 10000 := by omega
  have hratio : Fits 128 ((reserve * 10000).tdiv coverage) :=
    hfits.of_le (Rounding.tdiv_nonneg hscaled hcoverage) (Int.tdiv_le_self _ hscaled)
  unfold dynamicPricing
  rw [if_neg hcoverage.ne', I128.mul_of_fits hfits, ok_bind,
    I128.div_of_fits hcoverage.ne' hratio, ok_bind, ← narrowRatio]
  dsimp only
  unfold multiplierBps
  split_ifs with hhealthy
  · exact healthyPremium_value hbase hmultiplier
  · exact stressedPremium_value hbase (not_le.mp hhealthy)

end premium

/-! ### Response to the reserve -/

/-- Both reserves are priced, the larger one not above the smaller one, and neither above twice
the base premium. -/
def RespondsAt (s : ActuaryStore) (base : ℕ) (coverage reserve reserve' : ℤ) : Prop :=
  ∃ price price', dynamicPricing s base reserve coverage = .ok price ∧
    dynamicPricing s base reserve' coverage = .ok price' ∧
    price' ≤ price ∧ price ≤ 2 * base ∧ price' ≤ 2 * base

/-- The second multiplier adds less than what rounding at the first leaves, and the first keeps
the ceiling up to less than a basis point. -/
def InOrder (base multiplier multiplier' : ℕ) : Prop :=
  base * multiplier' + base * multiplier % 10000 < base * multiplier + 10000 ∧
    base * multiplier < (2 * base + 1) * 10000

instance (base multiplier multiplier' : ℕ) : Decidable (InOrder base multiplier multiplier') :=
  inferInstanceAs (Decidable (_ ∧ _))

/-- Two narrowed ratios under the multiplier of a healthy reserve.  From a healthy reserve on the
multiplier keeps the ceiling, and a second ratio below the minimum, which only the narrowing
leaves, is not dearer.  From a stressed reserve the second ratio is not smaller, unless the first
is at the ceiling, or it is healthy at a multiplier that the first one reaches. -/
def RatiosInOrder (baseMultiplierBps currentRatio currentRatio' : ℕ) : Prop :=
  if minReserveRatioBps ≤ currentRatio then
    baseMultiplierBps ≤ maxPremiumMultiplierBps ∧
      (currentRatio' < minReserveRatioBps → 25000 ≤ baseMultiplierBps + currentRatio' ∨
        baseMultiplierBps = maxPremiumMultiplierBps)
  else
    (currentRatio' < minReserveRatioBps → currentRatio ≤ currentRatio' ∨ currentRatio ≤ 5000) ∧
      (minReserveRatioBps ≤ currentRatio' →
        baseMultiplierBps ≤ maxPremiumMultiplierBps ∧ baseMultiplierBps + currentRatio ≤ 25000)

instance (baseMultiplierBps currentRatio currentRatio' : ℕ) :
    Decidable (RatiosInOrder baseMultiplierBps currentRatio currentRatio') :=
  inferInstanceAs (Decidable (ite _ _ _))

theorem inOrder_iff {base m m' : ℕ} :
    InOrder base m m' ↔ base * m' / 10000 ≤ base * m / 10000 ∧ base * m / 10000 ≤ 2 * base := by
  unfold InOrder
  omega

/-- The multipliers are in order at every base premium when they are so themselves. -/
theorem inOrder_all_iff {m m' : ℕ} :
    (∀ base ≤ 10000, InOrder base m m') ↔ m' ≤ m ∧ m ≤ 20000 := by
  constructor
  · intro h
    obtain ⟨hlevel, hceiling⟩ := h 10000 le_rfl
    omega
  · rintro ⟨hm, hceiling⟩ base -
    have hbase := Nat.mul_le_mul_left base hm
    have htwice := Nat.mul_le_mul_left base hceiling
    unfold InOrder
    omega

/-- The multipliers of two ratios are in order when the ratios are. -/
theorem ratiosInOrder_iff {baseMultiplier ratio ratio' : ℕ} :
    RatiosInOrder baseMultiplier ratio ratio' ↔
      multiplierBps baseMultiplier ratio' ≤ multiplierBps baseMultiplier ratio ∧
        multiplierBps baseMultiplier ratio ≤ 20000 := by
  unfold RatiosInOrder multiplierBps minReserveRatioBps maxPremiumMultiplierBps
  split_ifs <;> omega

/-- Over all ratios a larger reserve has the smaller multiplier exactly when the multiplier of a
healthy reserve is at most the one just below the minimum. -/
theorem multiplierBps_antitone_iff {baseMultiplier : ℕ} :
    (∀ ratio ratio', ratio ≤ ratio' →
      multiplierBps baseMultiplier ratio' ≤ multiplierBps baseMultiplier ratio) ↔
    baseMultiplier ≤ 10001 := by
  unfold multiplierBps minReserveRatioBps maxPremiumMultiplierBps
  constructor
  · intro h
    exact h 14999 15000 (by norm_num)
  · intro hle ratio ratio' hratio
    split_ifs <;> omega

theorem updatePricingParams_accepts {e : Env} {s s' : ActuaryStore} {admin : Address}
    {params : PricingParams} (h : updatePricingParams e s admin params = .ok s') :
    s'.getPricingParams = params ∧ params.baseMultiplierBps ≤ 30000 := by
  simp only [updatePricingParams, bind_eq_ok, require_eq_ok, exists_const, pure_eq_ok] at h
  obtain ⟨_, -, _, -, -, ⟨-, hhigh⟩, -, rfl⟩ := h
  exact ⟨rfl, hhigh⟩

/-- Under parameters that governance could set, pricing responds to two reserves exactly when
their multipliers are in order, and for all base premiums exactly when their ratios are. -/
theorem responds_iff {e : Env} {s s' : ActuaryStore} {admin : Address} {params : PricingParams}
    {coverage reserve reserve' : ℤ} (hset : updatePricingParams e s admin params = .ok s')
    (hcoverage : 0 < coverage) (hreserve : 0 ≤ reserve) (hless : reserve ≤ reserve')
    (hfits : Fits 128 (reserve' * 10000)) :
    (∀ base ≤ 10000, RespondsAt s' base coverage reserve reserve' ↔
      InOrder base (multiplierBps params.baseMultiplierBps (narrowRatio reserve coverage))
        (multiplierBps params.baseMultiplierBps (narrowRatio reserve' coverage))) ∧
    ((∀ base ≤ 10000, RespondsAt s' base coverage reserve reserve') ↔
      RatiosInOrder params.baseMultiplierBps (narrowRatio reserve coverage)
        (narrowRatio reserve' coverage)) := by
  obtain ⟨rfl, hmultiplier⟩ := updatePricingParams_accepts hset
  have hone : ∀ base ≤ 10000, RespondsAt s' base coverage reserve reserve' ↔
      InOrder base
        (multiplierBps s'.getPricingParams.baseMultiplierBps (narrowRatio reserve coverage))
        (multiplierBps s'.getPricingParams.baseMultiplierBps (narrowRatio reserve' coverage)) := by
    intro base hbase
    have hprice := dynamicPricing_value hbase hmultiplier hcoverage hreserve
      (hfits.of_le (by omega) (by omega))
    have hprice' := dynamicPricing_value hbase hmultiplier hcoverage (hreserve.trans hless) hfits
    rw [inOrder_iff]
    constructor
    · rintro ⟨price, price', hok, hok', hle, hceiling, -⟩
      obtain rfl := Except.ok.inj (hprice.symm.trans hok)
      obtain rfl := Except.ok.inj (hprice'.symm.trans hok')
      exact ⟨hle, hceiling⟩
    · rintro ⟨hle, hceiling⟩
      exact ⟨_, _, hprice, hprice', hle, hceiling, hle.trans hceiling⟩
  refine ⟨hone, ?_⟩
  rw [ratiosInOrder_iff, ← inOrder_all_iff]
  exact forall₂_congr hone

/-- Governance raises the multiplier of a healthy reserve to three times the base premium. -/
def threefold : PricingParams := ⟨30000, 10000, 10000, 1000⟩

def threefoldStore : ActuaryStore := { admin := some 7, pricingParams := some threefold }

/-- With the default parameters a reserve of `150%` costs no more than one of `140%`. -/
theorem responds_iff_default :
    RespondsAt ⟨some 7, some defaultPricingParams⟩ 100 1000000 1400000 1500000 := by
  have hset : updatePricingParams ⟨9, [7], 0⟩ (initializeActuary ⟨none, none⟩ 7) 7
      defaultPricingParams = .ok ⟨some 7, some defaultPricingParams⟩ := by decide
  have hresponds := @responds_iff _ _ _ _ _ 1000000 1400000 1500000 hset (by norm_num) (by norm_num)
    (by norm_num) (by decide)
  exact hresponds.2.mpr (by decide) 100 (by norm_num)

/-- Under the threefold multiplier a reserve of `160%` is priced at three times the base, and one
of `140%` at `110%` of it. -/
theorem healthy_reserve_dearer :
    updatePricingParams ⟨9, [7], 0⟩ (initializeActuary ⟨none, none⟩ 7) 7 threefold =
        .ok threefoldStore ∧
      ¬ RespondsAt threefoldStore 100 1000000 1400000 1600000 := by
  refine ⟨by decide, ?_⟩
  rintro ⟨price, price', hprice, hprice', hle, -⟩
  have hstressed : dynamicPricing threefoldStore 100 1400000 1000000 = .ok 110 := by decide
  have hhealthy : dynamicPricing threefoldStore 100 1600000 1000000 = .ok 300 := by decide
  obtain rfl := Except.ok.inj (hstressed.symm.trans hprice)
  obtain rfl := Except.ok.inj (hhealthy.symm.trans hprice')
  omega

/-- Under the default parameters a reserve of `2^32` basis points of the coverage is priced as an
empty one. -/
example : dynamicPricing ⟨some 7, some defaultPricingParams⟩ 100 4294967296 10000 = .ok 200 := by
  decide

end YieldEngine.Actuary
