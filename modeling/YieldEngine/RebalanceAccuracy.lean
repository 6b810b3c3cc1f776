import YieldEngine.RebalanceLoss
import YieldEngine.WhileLoops
import Mathlib.Analysis.SpecialFunctions.Sqrt

/-! # Accuracy of the impermanent loss

At a scaled ratio `r` the exact loss is `10000 - 20000·√(10000·r) / (10000 + r)` basis points
(`exactLoss`).  The contract truncates the root and then the quotient, so it keeps less than what is
exact: what it loses is at least the exact loss, and less than three basis points above it
(`NearExact`).

`isqrt` goes through Newton's method from above, whose estimates fall; no step of it leaves the word
(`newtonRound_falls`).  Of the steps around it only the two products can:
`calculateImpermanentLoss_accurate` says that the call returns exactly when they fit. -/

namespace YieldEngine.Rebalance

open CheckedArith IntegerRoot WhileLoops

/-! ### Square root -/

/-- The variables of the loop of `isqrt`. -/
structure Estimate where
  x : ℤ
  y : ℤ
deriving DecidableEq

def newtonRound (n : ℤ) (s : Estimate) : RebalanceCall Estimate := do
  let quotient ← u128Div n s.y
  let sum ← checkedU 128 (s.y + quotient)
  pure ⟨s.y, sum.tdiv 2⟩

/-- `isqrt`, with its rounds counted. -/
def isqrtLoop (n : ℤ) (rounds : ℕ) : RebalanceCall (Option ℤ) :=
  if n ≤ 1 then pure (some n)
  else Option.map Estimate.x <$>
    whileLoop (fun s => decide (s.y < s.x)) (newtonRound n) rounds ⟨n, (n + 1).tdiv 2⟩

section root
variable {n : ℤ}

/-- An estimate from above, not below the root, and the next one. -/
structure Estimates (n : ℤ) (s : Estimate) : Prop where
  pos : 0 < s.x
  le : s.x ≤ n
  above : n < (s.x + 1) * (s.x + 1)
  next : s.y = nextEstimate n s.x

theorem Estimates.start (hn : 1 < n) : Estimates n ⟨n, (n + 1).tdiv 2⟩ where
  pos := by dsimp only; omega
  le := le_rfl
  above := by dsimp only; nlinarith
  next := by rw [nextEstimate, Int.tdiv_self (by omega)]

/-- A round stays within the word. -/
theorem newtonRound_falls (hn : 1 < n) (hfits : n < 2 ^ 128) {s : Estimate} (h : Estimates n s)
    (hlt : s.y < s.x) : ∃ s', newtonRound n s = .ok s' ∧ Estimates n s' ∧
      s'.x.toNat < s.x.toNat := by
  obtain ⟨x, y⟩ := s
  obtain ⟨hpos, hle, -, hnext⟩ := h
  dsimp only at hpos hle hlt hnext ⊢
  have hy : 0 < y := hnext ▸ nextEstimate_pos hpos hle
  have habove : n < (y + 1) * (y + 1) := hnext ▸ lt_nextEstimate_succ_sq (by omega) hpos
  have hhalf : 2 * y ≤ n + 1 := hnext ▸ two_mul_nextEstimate_le hpos hle
  have hquotient : 0 ≤ n.tdiv y := Rounding.tdiv_nonneg (by omega) hy
  have hsum : y + n.tdiv y < 2 ^ 128 := by
    have hbound := add_tdiv_le hy (show y ≤ n by omega)
    by_cases hone : y = 1
    · subst hone
      omega
    · -- from 2 on the quotient is at most the half as well
      obtain ⟨-, hmul, -⟩ := Rounding.tdiv_bounds (show 0 ≤ n by omega) hy
      have htwice := mul_le_mul_of_nonneg_left (show 2 ≤ y by omega) hquotient
      omega
  have hround : newtonRound n ⟨x, y⟩ = .ok ⟨y, nextEstimate n y⟩ := by
    have hdiv : u128Div n y = .ok (n.tdiv y) := if_neg hy.ne'
    have hadd : (checkedU 128 (y + n.tdiv y) : RebalanceCall ℤ) = .ok (y + n.tdiv y) :=
      if_pos ⟨by omega, hsum⟩
    unfold newtonRound
    dsimp only
    rw [hdiv, ok_bind, hadd]
    rfl
  exact ⟨_, hround, ⟨hy, by dsimp only; omega, habove, rfl⟩, by dsimp only; omega⟩

/-- `n` rounds find the root of every `u128`. -/
theorem isqrtLoop_isRoot (hfits : FitsU 128 n) {rounds : ℕ} (hrounds : n.toNat ≤ rounds) :
    ∃ root, isqrtLoop n rounds = .ok (some root) ∧ IsRoot n root := by
  have hn : 0 ≤ n := hfits.1
  unfold isqrtLoop
  split_ifs with hsmall
  · exact ⟨n, rfl, hn, by nlinarith, by nlinarith⟩
  · have hround : ∀ s, Estimates n s → decide (s.y < s.x) = true →
        ∃ s', newtonRound n s = .ok s' ∧ Estimates n s' ∧ s'.x.toNat < s.x.toNat :=
      fun s hs htest => newtonRound_falls (by omega) hfits.2 hs (of_decide_eq_true htest)
    have hstart : Estimates n ⟨n, (n + 1).tdiv 2⟩ := Estimates.start (by omega)
    obtain ⟨⟨x, y⟩, hloop, hs, hdone⟩ := whileLoop_ends_of_falls hround hstart hrounds
    obtain ⟨hpos, -, habove, hnext⟩ := hs
    dsimp only at hpos habove hnext
    have hstays : x ≤ y := not_lt.mp (of_decide_eq_false hdone)
    rw [hloop]
    exact ⟨x, rfl, isRoot_of_le_nextEstimate (by omega) hpos habove (hnext ▸ hstays)⟩

/-- A loop that ends has gone through the rounds of `isqrt`. -/
theorem isqrtRounds_of_whileLoop {s' : Estimate} : ∀ (rounds : ℕ) (s : Estimate),
    whileLoop (fun s => decide (s.y < s.x)) (newtonRound n) rounds s = .ok (some s') →
      isqrtRounds n rounds s.x s.y = .ok s'.x := by
  intro rounds
  induction rounds with
  | zero =>
      intro s h
      simp only [whileLoop, decide_eq_true_eq, pure_eq_ok] at h
      split_ifs at h with hlt
      obtain rfl := Option.some.inj h
      rfl
  | succ rounds ih =>
      intro s h
      simp only [whileLoop, decide_eq_true_eq, ite_eq_ok, bind_eq_ok, pure_eq_ok] at h
      unfold isqrtRounds
      obtain ⟨hlt, s₁, hround, hrest⟩ | ⟨hge, hs⟩ := h
      · simp only [newtonRound, bind_eq_ok, pure_eq_ok] at hround
        obtain ⟨quotient, hquotient, sum, hsum, rfl⟩ := hround
        rw [if_pos hlt, hquotient, ok_bind, hsum, ok_bind]
        exact ih _ hrest
      · obtain rfl := Option.some.inj hs
        rw [if_neg hge]
        rfl

/-- `isqrt` finds the root of every `u128`. -/
theorem isqrt_returns (hfits : FitsU 128 n) : ∃ root, isqrt n = .ok root ∧ IsRoot n root := by
  obtain ⟨root, hloop, hroot⟩ := isqrtLoop_isRoot hfits le_rfl
  refine ⟨root, ?_, hroot⟩
  unfold isqrtLoop at hloop
  unfold isqrt
  split_ifs at hloop ⊢ with hsmall
  · simpa only [pure_eq_ok, Option.some.injEq] using hloop
  · obtain ⟨result, hresult, hsome⟩ := map_eq_ok.mp hloop
    obtain ⟨s, rfl, rfl⟩ := Option.map_eq_some_iff.mp hsome
    exact isqrtRounds_of_whileLoop n.toNat ⟨n, (n + 1).tdiv 2⟩ hresult

end root

/-! ### The loss -/

/-- The square of the fraction of the value that is kept at the scaled ratio `r`, in basis
points. -/
def keptSq (r : ℤ) : ℚ := 20000 ^ 2 * (10000 * r) / (10000 + r) ^ 2

/-- A loss that is not below the exact one and less than three basis points above it. -/
structure NearExact (r loss : ℤ) : Prop where
  le_whole : loss ≤ 10000
  at_least : ((10000 - loss : ℤ) : ℚ) ^ 2 ≤ keptSq r
  below : keptSq r < ((10003 - loss : ℤ) : ℚ) ^ 2

/-- The loss at the scaled ratio `r`, in basis points. -/
noncomputable def exactLoss (r : ℤ) : ℝ := 10000 - 20000 * √(10000 * r) / (10000 + r)

theorem sq_exactLoss {r : ℤ} (hr : 0 ≤ r) : (10000 - exactLoss r) ^ 2 = (keptSq r : ℝ) := by
  have hr' : (0 : ℝ) ≤ 10000 * r := by positivity
  unfold exactLoss keptSq
  rw [sub_sub_cancel, div_pow, mul_pow, Real.sq_sqrt hr']
  push_cast
  rfl

/-- The squares compare what is kept. -/
theorem nearExact_iff {r loss : ℤ} (hr : 0 ≤ r) :
    NearExact r loss ↔ exactLoss r ≤ loss ∧ loss < exactLoss r + 3 ∧ loss ≤ 10000 := by
  have hkept : 0 ≤ 10000 - exactLoss r := by
    unfold exactLoss
    rw [sub_sub_cancel]
    positivity
  have hcast : ∀ level : ℤ, (((level : ℚ) ^ 2 : ℚ) : ℝ) = (level : ℝ) ^ 2 := by
    intro level
    push_cast
    rfl
  have hlower : 0 ≤ 10000 - loss →
      (((10000 - loss : ℤ) : ℚ) ^ 2 ≤ keptSq r ↔ exactLoss r ≤ loss) := by
    intro hle
    have hle' : (0 : ℝ) ≤ (10000 - loss : ℤ) := by exact_mod_cast hle
    rw [← Rat.cast_le (K := ℝ), hcast, ← sq_exactLoss hr, sq_le_sq₀ hle' hkept]
    push_cast
    constructor <;> intro h <;> linarith
  have hupper : 0 ≤ 10000 - loss →
      (keptSq r < ((10003 - loss : ℤ) : ℚ) ^ 2 ↔ loss < exactLoss r + 3) := by
    intro hle
    have hle' : (0 : ℝ) ≤ (10003 - loss : ℤ) := by exact_mod_cast (by omega : 0 ≤ 10003 - loss)
    rw [← Rat.cast_lt (K := ℝ), hcast, ← sq_exactLoss hr, sq_lt_sq₀ hkept hle']
    push_cast
    constructor <;> intro h <;> linarith
  constructor
  · rintro ⟨hwhole, hleast, hbelow⟩
    exact ⟨(hlower (by omega)).mp hleast, (hupper (by omega)).mp hbelow, hwhole⟩
  · rintro ⟨hleast, hbelow, hwhole⟩
    exact ⟨hwhole, (hlower (by omega)).mpr hleast, (hupper (by omega)).mpr hbelow⟩

section loss
variable {r root : ℤ}

/-- Truncating the root and the quotient takes less than three basis points from what is kept. -/
theorem nearExact_term (hr : 0 ≤ r) (hroot : IsRoot (r * 10000) root) :
    NearExact r (10000 - (20000 * root).tdiv (r + 10000)) := by
  have hq : 0 < r + 10000 := by omega
  have hwide : 0 ≤ 20000 * root := by linarith [hroot.nonneg]
  obtain ⟨hterm, hlower, hupper⟩ := Rounding.tdiv_bounds hwide hq
  generalize (20000 * root).tdiv (r + 10000) = term at *
  have hq' : (0 : ℚ) < (10000 + r) ^ 2 := by
    have hpos : (0 : ℚ) < 10000 + r := by exact_mod_cast (by omega : 0 < 10000 + r)
    positivity
  refine ⟨by omega, ?_, ?_⟩
  · have hsq : (term * (r + 10000)) ^ 2 ≤ (20000 * root) ^ 2 :=
      pow_le_pow_left₀ (mul_nonneg hterm hq.le) hlower 2
    have hscaled : term ^ 2 * (10000 + r) ^ 2 ≤ 20000 ^ 2 * (10000 * r) := by
      linarith [hroot.lower]
    rw [keptSq, le_div_iff₀ hq', sub_sub_cancel]
    exact_mod_cast hscaled
  · -- two more units of the divisor are one more unit of the root
    have hnext : 20000 * (root + 1) ≤ (term + 3) * (r + 10000) := by linarith
    have hsq : (20000 * (root + 1)) ^ 2 ≤ ((term + 3) * (r + 10000)) ^ 2 :=
      pow_le_pow_left₀ (by omega) hnext 2
    have hscaled : 20000 ^ 2 * (10000 * r) < (term + 3) ^ 2 * (10000 + r) ^ 2 := by
      linarith [hroot.upper]
    rw [keptSq, div_lt_iff₀ hq', show 10003 - (10000 - term) = term + 3 by ring]
    exact_mod_cast hscaled

/-- The call with its two products in the word. -/
theorem calculateImpermanentLoss_eq {entry price : ℤ} (hprice : 0 < price) (hentry : 0 < entry)
    (hscaled : Fits 128 (price * 10000)) (hradicand : FitsU 128 (scaledRatio entry price * 10000))
    (hroot : IsRoot (scaledRatio entry price * 10000) root)
    (hsqrt : isqrt (scaledRatio entry price * 10000) = .ok root) :
    calculateImpermanentLoss price entry =
      .ok (10000 - (20000 * root).tdiv (scaledRatio entry price + 10000)).toNat := by
  have hratio : 0 ≤ scaledRatio entry price := Rounding.tdiv_nonneg (by omega) hentry
  obtain ⟨-, hmul, -⟩ := Rounding.tdiv_bounds (show 0 ≤ price * 10000 by omega) hentry
  have hle : scaledRatio entry price ≤ price * 10000 := by
    have hone := mul_le_mul_of_nonneg_left (show 1 ≤ entry by omega) hratio
    unfold scaledRatio at *
    omega
  have hterm := term_le hratio hroot
  have hmean := two_mul_root_le hratio hroot
  have hroot0 := hroot.nonneg
  have hsmall : root < 2 ^ 64 := by
    rw [hroot.lt_iff (by norm_num)]
    exact hradicand.2.trans_eq (by norm_num)
  have hwide : scaledRatio entry price * 10000 < 2 ^ 128 := hradicand.2
  have hfits : ∀ x : ℤ, 0 ≤ x → x < 2 ^ 128 → (checkedU 128 x : RebalanceCall ℤ) = .ok x :=
    fun x h0 hlt => if_pos ⟨h0, hlt⟩
  have hdiv : u128Div (root * 2 * 10000) (scaledRatio entry price + 10000) =
      .ok ((20000 * root).tdiv (scaledRatio entry price + 10000)) := by
    rw [show 20000 * root = root * 2 * 10000 by ring]
    exact if_neg (by omega)
  have hnonneg : 0 ≤ (20000 * root).tdiv (scaledRatio entry price + 10000) :=
    Rounding.tdiv_nonneg (by omega) (by omega)
  have hfold : (price * 10000).tdiv entry = scaledRatio entry price := rfl
  unfold calculateImpermanentLoss
  rw [if_neg (by omega), I128.mul_of_fits hscaled, ok_bind,
    I128.div_of_fits hentry.ne' (hscaled.of_le hratio hle), ok_bind, hfold,
    hfits _ (by omega) hwide, ok_bind, hsqrt, ok_bind, hfits _ (by omega) (by omega), ok_bind,
    hfits _ (by omega) (by omega), ok_bind, hfits _ (by omega) (by omega), ok_bind, hdiv, ok_bind]
  refine congrArg Except.ok ?_
  omega

/-- The call returns exactly when its two products are in the word. -/
theorem calculateImpermanentLoss_returns_iff {entry price : ℤ} (hprice : 0 < price)
    (hentry : 0 < entry) : (∃ loss, calculateImpermanentLoss price entry = .ok loss) ↔
      Fits 128 (price * 10000) ∧ FitsU 128 (scaledRatio entry price * 10000) := by
  constructor
  · rintro ⟨loss, h⟩
    rw [calculateImpermanentLoss, if_neg (by omega)] at h
    simp only [bind_eq_ok, I128.mul_eq_ok, I128.div_eq_ok, checkedU_eq_ok] at h
    obtain ⟨_, ⟨hscaled, rfl⟩, _, ⟨-, -, rfl⟩, _, ⟨hradicand, -⟩, -⟩ := h
    exact ⟨hscaled, hradicand⟩
  · rintro ⟨hscaled, hradicand⟩
    obtain ⟨root, hsqrt, hroot⟩ := isqrt_returns hradicand
    exact ⟨_, calculateImpermanentLoss_eq hprice hentry hscaled hradicand hroot hsqrt⟩

theorem calculateImpermanentLoss_nearExact {entry price : ℤ} {loss : ℕ} (hprice : 0 < price)
    (hentry : 0 < entry) (h : calculateImpermanentLoss price entry = .ok loss) :
    NearExact (scaledRatio entry price) loss := by
  obtain ⟨hscaled, hradicand⟩ := (calculateImpermanentLoss_returns_iff hprice hentry).mp ⟨loss, h⟩
  obtain ⟨root, hsqrt, hroot⟩ := isqrt_returns hradicand
  have hratio : 0 ≤ scaledRatio entry price := Rounding.tdiv_nonneg (by omega) hentry
  have hterm := term_le hratio hroot
  rw [calculateImpermanentLoss_eq hprice hentry hscaled hradicand hroot hsqrt] at h
  obtain rfl := Except.ok.inj h
  rw [Int.toNat_of_nonneg (by omega)]
  exact nearExact_term hratio hroot

end loss

/-- The loss is returned exactly when the scaled price and the radicand are in their words, and is
then near the exact one; the root is found in the whole range of the word. -/
theorem calculateImpermanentLoss_accurate :
    (∀ price entry r : ℤ, 0 < price → 0 < entry → r = price * 10000 / entry →
      ((∃ loss, calculateImpermanentLoss price entry = .ok loss) ↔
        Fits 128 (price * 10000) ∧ FitsU 128 (r * 10000)) ∧
      ∀ loss : ℕ, calculateImpermanentLoss price entry = .ok loss → NearExact r loss) ∧
    ∀ n : ℤ, FitsU 128 n → ∃ root, IsGreatest {x : ℤ | x * x ≤ n} root ∧ isqrt n = .ok root ∧
      ∀ rounds, n.toNat ≤ rounds → isqrtLoop n rounds = .ok (some root) := by
  constructor
  · rintro price entry r hprice hentry rfl
    have hfloor : price * 10000 / entry = scaledRatio entry price :=
      (Int.tdiv_eq_ediv_of_nonneg (by omega)).symm
    rw [hfloor]
    exact ⟨calculateImpermanentLoss_returns_iff hprice hentry,
      fun loss => calculateImpermanentLoss_nearExact hprice hentry⟩
  · intro n hfits
    obtain ⟨root, hsqrt, hroot⟩ := isqrt_returns hfits
    refine ⟨root, hroot.isGreatest, hsqrt, fun rounds hrounds => ?_⟩
    obtain ⟨root', hloop, hroot'⟩ := isqrtLoop_isRoot hfits hrounds
    rw [hloop, hroot.unique hroot']

/-- A price that has doubled. -/
theorem calculateImpermanentLoss_accurate_doubled :
    (∃ loss, calculateImpermanentLoss 20000 10000 = .ok loss) ∧ NearExact 20000 572 :=
  have h := calculateImpermanentLoss_accurate.1 20000 10000 20000 (by decide) (by decide) rfl
  ⟨h.1.mpr (by decide), h.2 572 (by decide +kernel)⟩

/-- The price is scaled in the signed word: of two equal prices that are large enough nothing is
computed, though the radicand is small. -/
theorem scaled_price_overflows :
    ¬ ∀ price entry r : ℤ, Fits 128 price → Fits 128 entry → 0 < price → 0 < entry →
      r = price * 10000 / entry → FitsU 128 (r * 10000) →
      ∃ loss, calculateImpermanentLoss price entry = .ok loss ∧ NearExact r loss := by
  intro h
  obtain ⟨loss, hloss, -⟩ := h (2 ^ 126) (2 ^ 126) 10000 (by decide) (by decide) (by decide)
    (by decide) (by decide) (by decide)
  have hoverflow : calculateImpermanentLoss (2 ^ 126) (2 ^ 126) = .error .overflow := by
    decide +kernel
  rw [hoverflow] at hloss
  cases hloss

end YieldEngine.Rebalance
