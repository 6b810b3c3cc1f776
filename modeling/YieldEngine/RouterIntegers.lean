import YieldEngine.RouterAmounts
import YieldEngine.Rounding
import YieldEngine.WhileLoops

/-! # Integer helpers of the swap router

`scale_bps` splits an amount at the divisor so that no product leaves the word, and `isqrt` compares
`mid` with `n / mid` instead of squaring it.  `scaleBps_eq` and `isqrtLoop_eq` say that both compute
what they stand for, over the whole range of the word.

The loop of `isqrt` is modelled here with each operation checked, and its value is the function the
rest of the router is modelled with. -/

namespace YieldEngine.Router

open CheckedArith IntegerRoot WhileLoops

/-! ### Scaling by basis points -/

section scaling
variable {amount : ℤ} {bps : ℕ}

/-- The two products of the split are the floor of the whole product. -/
theorem scaledBps_eq_ediv (hamount : 0 ≤ amount) : scaledBps amount bps = amount * bps / 10000 := by
  have hpart : 0 ≤ amount % 10000 * bps :=
    mul_nonneg (Int.emod_nonneg _ (by decide)) (Int.natCast_nonneg bps)
  have hsplit : amount * bps = amount % 10000 * bps + amount / 10000 * bps * 10000 := by
    conv_lhs => rw [← Int.emod_add_mul_ediv amount 10000]
    ring
  unfold scaledBps bpsDivisor
  rw [Int.tdiv_eq_ediv_of_nonneg hamount, Int.tmod_eq_emod_of_nonneg hamount,
    Int.tdiv_eq_ediv_of_nonneg hpart, hsplit, Int.add_mul_ediv_right _ _ (by decide), add_comm]

/-- A share is at most the amount. -/
theorem scaledBps_mem (hamount : 0 ≤ amount) (hbps : bps ≤ 10000) :
    0 ≤ scaledBps amount bps ∧ scaledBps amount bps ≤ amount := by
  have hbps' : (bps : ℤ) ≤ 10000 := by exact_mod_cast hbps
  have hle := mul_le_mul_of_nonneg_left hbps' hamount
  rw [scaledBps_eq_ediv hamount]
  exact ⟨Int.ediv_nonneg (mul_nonneg hamount (Int.natCast_nonneg bps)) (by decide),
    Int.ediv_le_of_le_mul (by decide) hle⟩

/-- No step of the split leaves the word. -/
theorem scaleBps_eq (hamount : 0 ≤ amount) (hfits : Fits 128 amount) (hbps : bps ≤ 10000) :
    scaleBps amount bps = .ok (amount * bps / 10000) := by
  have hbps' : (bps : ℤ) ≤ 10000 := by exact_mod_cast hbps
  have hbps0 := Int.natCast_nonneg bps
  have hquotient : 0 ≤ amount.tdiv bpsDivisor := Rounding.tdiv_nonneg hamount (by decide)
  have hremainder : 0 ≤ amount.tmod bpsDivisor := Int.tmod_nonneg _ hamount
  have hremainder' : amount.tmod bpsDivisor < 10000 := Int.tmod_lt_of_pos _ (by decide)
  have hdecomposed : amount.tmod 10000 + 10000 * amount.tdiv 10000 = amount :=
    Int.tmod_add_mul_tdiv amount 10000
  have hwhole := mul_le_mul_of_nonneg_left hbps' hquotient
  have hpart := mul_le_mul_of_nonneg_left hbps' hremainder
  have hpart0 := mul_nonneg hremainder hbps0
  obtain ⟨hrest0, hrest, -⟩ := Rounding.tdiv_bounds hpart0 (show 0 < bpsDivisor by decide)
  obtain ⟨hshare0, hshare⟩ := scaledBps_mem hamount hbps
  have hvalue : scaledBps amount bps = amount * bps / 10000 := scaledBps_eq_ediv hamount
  rw [← hvalue]
  unfold scaledBps bpsDivisor at *
  unfold scaleBps bpsDivisor
  rw [I128.mul_of_fits (hfits.of_le (mul_nonneg hquotient hbps0) (by omega)), ok_bind,
    I128.mul_of_fits (.of_lt hpart0 (by omega)), ok_bind,
    I128.div_of_fits (by decide) (.of_lt hrest0 (by omega)), ok_bind,
    I128.add_of_fits (hfits.of_le hshare0 hshare)]

/-- What the slippage leaves and the slippage itself are at most the amount. -/
theorem scaledBps_add_le (hbps : bps ≤ 10000) :
    amount * (10000 - bps : ℕ) / 10000 + amount * bps / 10000 ≤ amount := by
  have hparts : amount * (10000 - bps : ℕ) + amount * bps = amount * 10000 := by
    push_cast [Nat.cast_sub hbps]
    ring
  omega

theorem calculateMinimumOutput_eq (hamount : 0 ≤ amount) (hfits : Fits 128 amount)
    (hbps : bps ≤ maxSlippageBps) :
    calculateMinimumOutput amount bps = .ok (amount * (10000 - bps : ℕ) / 10000) := by
  have hvalid : requireValidSlippage bps = .ok () := if_pos hbps
  rw [calculateMinimumOutput, hvalid, ok_bind]
  exact scaleBps_eq hamount hfits (Nat.sub_le _ _)

end scaling

/-! ### Square root -/

/-- The variables of the loop of `isqrt`. -/
structure Bisection where
  low : ℤ
  high : ℤ
  result : ℤ
deriving DecidableEq

def bisectionRound (n : ℤ) (b : Bisection) : RouterCall Bisection := do
  let width ← I128.sub b.high b.low
  let half ← I128.div width 2
  let mid ← I128.add b.low half
  let quotient ← I128.div n mid
  if mid ≤ quotient then do
    let low ← I128.add mid 1
    pure { b with low, result := mid }
  else do
    let high ← I128.sub mid 1
    pure { b with high }

/-- `PoolInfo::isqrt`, with its rounds counted. -/
def isqrtLoop (n : ℤ) (rounds : ℕ) : RouterCall (Option ℤ) :=
  if n ≤ 1 then pure (some n)
  else Option.map Bisection.result <$>
    whileLoop (fun b => decide (b.low ≤ b.high)) (bisectionRound n) rounds ⟨1, n, 1⟩

section root
variable {n : ℤ}

/-- The root is bracketed, and the interval lies between 1 and the number. -/
structure BracketedBy (n : ℤ) (b : Bisection) : Prop where
  bracket : Bracket n b.low b.high b.result
  high_le : b.high ≤ n

/-- A round stays within the word and leaves at most half of the interval. -/
theorem bisectionRound_halves (hfits : Fits 128 n) {b : Bisection} (h : BracketedBy n b)
    (hle : b.low ≤ b.high) : ∃ b', bisectionRound n b = .ok b' ∧ BracketedBy n b' ∧
      2 * (b'.high - b'.low + 1).toNat ≤ (b.high - b.low + 1).toNat := by
  obtain ⟨low, high, result⟩ := b
  obtain ⟨hbracket, hhigh⟩ := h
  dsimp only at hbracket hhigh hle ⊢
  have hone := hbracket.one_le
  have hbound : n < 2 ^ 127 := hfits.2
  obtain ⟨hlow', hhigh', habove, hbelow⟩ := mid_halves hle
  have hquotient : 0 ≤ n.tdiv (mid low high) ∧ n.tdiv (mid low high) ≤ n := by
    have hpos : 0 < mid low high := by omega
    obtain ⟨hnonneg, hmul, -⟩ := Rounding.tdiv_bounds hbracket.nonneg hpos
    refine ⟨hnonneg, ?_⟩
    have hle' := mul_le_mul_of_nonneg_left (show 1 ≤ mid low high by omega) hnonneg
    omega
  have hhalf : 0 ≤ (high - low).tdiv 2 := Rounding.tdiv_nonneg (by omega) (by decide)
  have hmid : low + (high - low).tdiv 2 = mid low high := rfl
  unfold bisectionRound
  dsimp only
  rw [I128.sub_of_fits (.of_lt (by omega) (by omega)), ok_bind,
    I128.div_of_fits (by decide) (.of_lt hhalf (by omega)), ok_bind,
    I128.add_of_fits (.of_lt (by omega) (by omega)), ok_bind, hmid,
    I128.div_of_fits (by omega) (hfits.of_le hquotient.1 hquotient.2), ok_bind]
  split_ifs with htest
  · have hnext : mid low high + 1 < 2 ^ 127 := by
      by_contra hlarge
      -- the middle is the largest word only if the number is, and its square is above it
      have hsq := (le_tdiv_iff_sq_le hbracket.nonneg (by omega)).mp htest
      have hdouble := mul_le_mul_of_nonneg_right (show 2 ≤ mid low high by omega)
        (show 0 ≤ mid low high by omega)
      omega
    rw [I128.add_of_fits (.of_lt (by omega) hnext)]
    exact ⟨_, rfl, ⟨hbracket.above hle htest, hhigh⟩, by dsimp only; omega⟩
  · rw [I128.sub_of_fits (.of_lt (by omega) (by omega))]
    exact ⟨_, rfl, ⟨hbracket.below hle htest, by dsimp only; omega⟩, by dsimp only; omega⟩

/-- 127 rounds find the root of every word. -/
theorem isqrtLoop_isRoot (hn : 0 ≤ n) (hfits : Fits 128 n) {rounds : ℕ} (hrounds : 127 ≤ rounds) :
    ∃ root, isqrtLoop n rounds = .ok (some root) ∧ IsRoot n root := by
  unfold isqrtLoop
  split_ifs with hsmall
  · exact ⟨n, rfl, hn, by nlinarith, by nlinarith⟩
  · have hstart : BracketedBy n ⟨1, n, 1⟩ :=
      ⟨⟨le_rfl, by norm_num, by dsimp only; omega, by dsimp only; omega, by dsimp only; nlinarith⟩,
        le_rfl⟩
    have hsize : (n - 1 + 1).toNat < 2 ^ rounds := by
      have hpow : 2 ^ 127 ≤ 2 ^ rounds := Nat.pow_le_pow_right (by norm_num) hrounds
      have hbound : n < 2 ^ 127 := hfits.2
      omega
    have hend : ∀ b : Bisection, BracketedBy n b → (b.high - b.low + 1).toNat = 0 →
        decide (b.low ≤ b.high) = false := by
      intro b _ hempty
      exact decide_eq_false (by omega)
    obtain ⟨b, hloop, hb, hdone⟩ := whileLoop_ends_of_halves
      (fun b hb hempty => hend b hb hempty)
      (fun b hb htest => bisectionRound_halves hfits hb (of_decide_eq_true htest)) hstart hsize
    rw [hloop]
    exact ⟨b.result, rfl, hb.bracket.isRoot (not_le.mp (of_decide_eq_false hdone))⟩

/-- The loop computes the root that the router is modelled with. -/
theorem isqrtLoop_eq (hn : 0 ≤ n) (hfits : Fits 128 n) {rounds : ℕ} (hrounds : 127 ≤ rounds) :
    isqrtLoop n rounds = .ok (some (isqrt n)) := by
  obtain ⟨root, hloop, hroot⟩ := isqrtLoop_isRoot hn hfits hrounds
  rw [hloop, hroot.unique (isqrt_isRoot hn hfits)]

end root

/-- Scaling computes the floor of the product, what is left and the slippage are at most the amount
together, and the square root is found, over the whole range of the word. -/
theorem integer_helpers_exact :
    (∀ (amount : ℤ) (bps : ℕ), 0 ≤ amount → Fits 128 amount → bps ≤ 10000 →
      scaleBps amount bps = .ok (amount * bps / 10000)) ∧
    (∀ (amount : ℤ) (slippageBps : ℕ), 0 ≤ amount → Fits 128 amount →
      slippageBps ≤ maxSlippageBps →
      ∃ minimum share, calculateMinimumOutput amount slippageBps = .ok minimum ∧
        scaleBps amount slippageBps = .ok share ∧ minimum + share ≤ amount) ∧
    ∀ n : ℤ, 0 ≤ n → Fits 128 n → ∃ root, IsGreatest {x : ℤ | x * x ≤ n} root ∧
      ∀ rounds, 127 ≤ rounds → isqrtLoop n rounds = .ok (some root) := by
  refine ⟨fun amount bps => scaleBps_eq, fun amount slippageBps hamount hfits hslippage => ?_,
    fun n hn hfits => ?_⟩
  · have hbps : slippageBps ≤ 10000 := hslippage.trans (by decide)
    exact ⟨_, _, calculateMinimumOutput_eq hamount hfits hslippage, scaleBps_eq hamount hfits hbps,
      scaledBps_add_le hbps⟩
  · exact ⟨isqrt n, (isqrt_isRoot hn hfits).isGreatest, fun rounds => isqrtLoop_eq hn hfits⟩

/-- The largest word is scaled and its root found. -/
theorem integer_helpers_exact_largest :
    scaleBps (2 ^ 127 - 1) 10000 = .ok (2 ^ 127 - 1) ∧
      (∃ root, IsGreatest {x : ℤ | x * x ≤ 2 ^ 127 - 1} root) :=
  ⟨integer_helpers_exact.1 (2 ^ 127 - 1) 10000 (by decide) (by decide) le_rfl,
    (integer_helpers_exact.2.2 (2 ^ 127 - 1) (by decide) (by decide)).imp fun _ h => h.1⟩

end YieldEngine.Router
