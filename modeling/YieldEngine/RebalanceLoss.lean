import YieldEngine.RebalanceState
import YieldEngine.RootCurve

/-! # Impermanent loss of the rebalance engine

`calculateImpermanentLoss` evaluates `1 - 2·√r / (1 + r)` in basis points, for the current price
over the price at entry.  The fraction never exceeds `10000` (`term_le`), so the loss is what it
leaves of `10000` (`calculateImpermanentLoss_value`).

The ratio, its root and the quotient are truncated one after the other, and between two
neighbouring ratios the root may stay while the denominator grows, or grow by more than it should.
`loss_ordered_iff` says which pairs of prices come out in the wrong order: those that a whole
basis point of the truncated fraction separates. -/

namespace YieldEngine.Rebalance

open CheckedArith IntegerRoot RootCurve

/-! ### Square root -/

/-- Division on `u128`, which cannot overflow. -/
def u128Div (a b : ℤ) : RebalanceCall ℤ := if b = 0 then .error .divByZero else pure (a.tdiv b)

theorem u128Div_eq_ok {a b quotient : ℤ} :
    u128Div a b = .ok quotient ↔ b ≠ 0 ∧ a.tdiv b = quotient := by
  unfold u128Div
  split_ifs with hzero
  · simp [hzero]
  · simp [hzero, pure_eq_ok]

/-- The rounds of `isqrt`, at most `fuel` of them. -/
def isqrtRounds (n : ℤ) : ℕ → ℤ → ℤ → RebalanceCall ℤ
  | 0, x, _ => pure x
  | fuel + 1, x, y =>
      if y < x then do
        let quotient ← u128Div n y
        let sum ← checkedU 128 (y + quotient)
        isqrtRounds n fuel y (sum.tdiv 2)
      else pure x

/-- `isqrt` on `u128`.  The estimate falls each round, so `n` rounds are enough. -/
def isqrt (n : ℤ) : RebalanceCall ℤ :=
  if n ≤ 1 then pure n else isqrtRounds n n.toNat n ((n + 1).tdiv 2)

theorem isqrtRounds_value {n root : ℤ} :
    ∀ (fuel : ℕ) {x y : ℤ}, isqrtRounds n fuel x y = .ok root → root = newton n fuel x y := by
  intro fuel
  induction fuel with
  | zero =>
      intro x y h
      simp only [isqrtRounds, pure_eq_ok] at h
      simp [newton, h]
  | succ fuel ih =>
      intro x y h
      simp only [isqrtRounds, ite_eq_ok, bind_eq_ok, u128Div_eq_ok, checkedU_eq_ok,
        pure_eq_ok] at h
      unfold newton
      obtain ⟨hlt, _, ⟨-, rfl⟩, _, ⟨-, rfl⟩, hrest⟩ | ⟨hge, rfl⟩ := h
      · rw [if_pos hlt]
        exact ih hrest
      · rw [if_neg hge]

/-- A returning `isqrt` has found the integer square root. -/
theorem isqrt_isRoot {n root : ℤ} (hn : 0 ≤ n) (h : isqrt n = .ok root) : IsRoot n root := by
  simp only [isqrt, ite_eq_ok, pure_eq_ok] at h
  obtain ⟨hle, rfl⟩ | ⟨hgt, hrounds⟩ := h
  · exact ⟨hn, by nlinarith, by nlinarith⟩
  · rw [isqrtRounds_value _ hrounds]
    exact newton_self_isRoot (by omega)

/-! ### The loss -/

/-- `calculate_impermanent_loss`, of ratios at scale `10000`; `0` where a ratio is missing.  Past
the guard the ratio is not negative, so it is the `u128` it is cast to. -/
def calculateImpermanentLoss (priceRatio initialPriceRatio : ℤ) : RebalanceCall ℕ :=
  if priceRatio ≤ 0 ∨ initialPriceRatio ≤ 0 then pure 0
  else do
    let scaled ← I128.mul priceRatio 10000
    let rScaled ← I128.div scaled initialPriceRatio
    let radicand ← checkedU 128 (rScaled * 10000)
    let sqrtRScaled ← isqrt radicand
    let denominator ← checkedU 128 (rScaled + 10000)
    let twoSqrt ← checkedU 128 (sqrtRScaled * 2)
    let numerator ← checkedU 128 (twoSqrt * 10000)
    let term ← u128Div numerator denominator
    let ilBp := max 0 (10000 - term)
    pure (min ilBp 10000).toNat

/-- The current price over the price at entry, at scale `10000`. -/
def scaledRatio (entry price : ℤ) : ℤ := (price * 10000).tdiv entry

/-- The fraction of the value kept is at least `level` basis points, by the truncated formula; a
price that is not positive counts as no loss. -/
def KeepsBps (entry price level : ℤ) : Prop :=
  price ≤ 0 ∨
    Reaches 20000 (scaledRatio entry price * 10000) (scaledRatio entry price + 10000) level

instance (entry price level : ℤ) : Decidable (KeepsBps entry price level) :=
  inferInstanceAs (Decidable (_ ∨ _))

/-- A basis point that the price `far` keeps and the price `near` does not. -/
def LossMisordered (entry near far : ℤ) : Prop :=
  ∃ level, 0 < level ∧ level ≤ 10000 ∧ ¬ KeepsBps entry near level ∧ KeepsBps entry far level

/-- The root of the formula is at most the mean of the ratio and one. -/
theorem two_mul_root_le {ratio root : ℤ} (hratio : 0 ≤ ratio) (h : IsRoot (ratio * 10000) root) :
    2 * root ≤ ratio + 10000 := by
  have hlower := h.lower
  by_contra hlt
  -- the square of the mean is at least the product
  nlinarith [mul_self_nonneg (ratio - 10000)]

theorem term_le {ratio root : ℤ} (hratio : 0 ≤ ratio) (h : IsRoot (ratio * 10000) root) :
    (20000 * root).tdiv (ratio + 10000) ≤ 10000 := by
  have hmean := two_mul_root_le hratio h
  rw [← Int.lt_add_one_iff, Rounding.tdiv_lt_iff (by linarith [h.nonneg]) (by omega)]
  omega

/-- The loss is what the fraction leaves of `10000`, and the fraction reaches the levels that the
price keeps. -/
theorem calculateImpermanentLoss_value {entry price : ℤ} {loss : ℕ} (hentry : 0 < entry)
    (h : calculateImpermanentLoss price entry = .ok loss) :
    ∃ term, term ≤ 10000 ∧ (loss : ℤ) = 10000 - term ∧ 0 ≤ term ∧
      ∀ level, 0 < level → level ≤ 10000 → (KeepsBps entry price level ↔ level ≤ term) := by
  unfold calculateImpermanentLoss at h
  by_cases hprice : price ≤ 0
  · rw [if_pos (.inl hprice), pure_eq_ok] at h
    obtain rfl := h
    exact ⟨10000, le_rfl, rfl, by norm_num, fun level _ hle => iff_of_true (.inl hprice) hle⟩
  · rw [if_neg (by omega)] at h
    simp only [bind_eq_ok, I128.mul_eq_ok, I128.div_eq_ok, checkedU_eq_ok, u128Div_eq_ok,
      pure_eq_ok] at h
    obtain ⟨_, ⟨-, rfl⟩, ratio, ⟨-, -, hscaled⟩, _, ⟨-, rfl⟩, root, hsqrt, _, ⟨-, rfl⟩, _,
      ⟨-, rfl⟩, _, ⟨-, rfl⟩, _, ⟨-, rfl⟩, rfl⟩ := h
    obtain rfl : scaledRatio entry price = ratio := hscaled
    have hratio : 0 ≤ scaledRatio entry price := Rounding.tdiv_nonneg (by omega) hentry
    have hroot := isqrt_isRoot (by omega) hsqrt
    have hle := term_le hratio hroot
    have hnonneg := quotient_nonneg (by norm_num : (0 : ℤ) < 20000)
      (show 0 < scaledRatio entry price + 10000 by omega) hroot
    refine ⟨_, hle, ?_, hnonneg, fun level hpos _ => ?_⟩
    · rw [show root * 2 * 10000 = 20000 * root by ring]
      omega
    · rw [KeepsBps, or_iff_right hprice]
      exact reaches_iff (by norm_num) (by omega) hpos.le hroot

/-- Two prices lose in the order of their divergence exactly when they are not misordered. -/
theorem loss_ordered_iff {entry near far : ℤ} {lossNear lossFar : ℕ} (hentry : 0 < entry)
    (hnear : calculateImpermanentLoss near entry = .ok lossNear)
    (hfar : calculateImpermanentLoss far entry = .ok lossFar) :
    lossNear ≤ lossFar ↔ ¬ LossMisordered entry near far := by
  obtain ⟨termNear, hleNear, hlossNear, hnonneg, hkeepsNear⟩ :=
    calculateImpermanentLoss_value hentry hnear
  obtain ⟨termFar, hleFar, hlossFar, -, hkeepsFar⟩ := calculateImpermanentLoss_value hentry hfar
  constructor
  · rintro hle ⟨level, hpos, hbound, hnot, hkeeps⟩
    rw [hkeepsNear level hpos hbound] at hnot
    rw [hkeepsFar level hpos hbound] at hkeeps
    omega
  · intro hordered
    by_contra hlt
    -- the fraction of the farther price is a level that separates the two
    refine hordered ⟨termFar, by omega, hleFar, ?_, ?_⟩
    · rw [hkeepsNear termFar (by omega) hleFar]
      omega
    · rw [hkeepsFar termFar (by omega) hleFar]

/-- Positive prices are in order when the fractions of the truncated roots are. -/
theorem not_lossMisordered_of_cross {entry near far rootNear rootFar : ℤ} (hentry : 0 < entry)
    (hnear : 0 < near) (hfar : 0 < far)
    (hrootNear : IsRoot (scaledRatio entry near * 10000) rootNear)
    (hrootFar : IsRoot (scaledRatio entry far * 10000) rootFar)
    (hcross : rootFar * (scaledRatio entry near + 10000) ≤
      rootNear * (scaledRatio entry far + 10000)) : ¬ LossMisordered entry near far := by
  have hnear0 : 0 ≤ scaledRatio entry near := Rounding.tdiv_nonneg (by omega) hentry
  have hfar0 : 0 ≤ scaledRatio entry far := Rounding.tdiv_nonneg (by omega) hentry
  rintro ⟨level, hpos, -, hnot, hkeeps⟩
  refine hnot (.inr (reaches_of_cross (by norm_num) (by omega) (by omega) hrootNear hrootFar hcross
    hpos.le (hkeeps.resolve_left (by omega))))

/-- A price that has doubled loses at least as much as one that has risen by a half. -/
theorem loss_ordered_iff_doubled : ∃ near far : ℕ,
    calculateImpermanentLoss 15000 10000 = .ok near ∧
      calculateImpermanentLoss 20000 10000 = .ok far ∧ near ≤ far := by
  have hnear : calculateImpermanentLoss 15000 10000 = .ok 203 := by decide +kernel
  have hfar : calculateImpermanentLoss 20000 10000 = .ok 572 := by decide +kernel
  have hordered : ¬ LossMisordered 10000 15000 20000 :=
    not_lossMisordered_of_cross (by norm_num) (by norm_num) (by norm_num)
      (show IsRoot 150000000 12247 from ⟨by norm_num, by norm_num, by norm_num⟩)
      (show IsRoot 200000000 14142 from ⟨by norm_num, by norm_num, by norm_num⟩) (by decide)
  exact ⟨_, _, hnear, hfar, (loss_ordered_iff (by norm_num) hnear hfar).mpr hordered⟩

/-- Above an entry price of 1 the loss at `1.4991` is larger than the one at `1.4992`. -/
theorem loss_falls_as_price_rises :
    ¬ ∀ (entry near far : ℤ) (lossNear lossFar : ℕ), 0 < entry →
      (entry ≤ near ∧ near ≤ far ∨ far ≤ near ∧ near ≤ entry) →
      calculateImpermanentLoss near entry = .ok lossNear →
      calculateImpermanentLoss far entry = .ok lossFar → lossNear ≤ lossFar := by
  intro hall
  have hle := hall 10000 14991 14992 203 202 (by norm_num) (by norm_num) (by decide +kernel)
    (by decide +kernel)
  exact absurd hle (by norm_num)

/-- Below it the order is lost from the first steps on. -/
example : calculateImpermanentLoss 9998 10000 = .ok 2 ∧
    calculateImpermanentLoss 9997 10000 = .ok 1 := by
  decide +kernel

end YieldEngine.Rebalance
