import YieldEngine.RouterState
import YieldEngine.IntegerRoot

/-! # Amounts of the swap router

The pure part of the router: the depth score that ranks pools, the constant-product output of
one pool, and the scaling by basis points.

The output of a pool is an option, since magnitudes outside the supported range give no quote
instead of an overflow.  The price impact is computed on 256-bit words, whose operations
trap. -/

namespace YieldEngine.Router

open CheckedArith IntegerRoot

/-! ### Depth of a pool -/

/-- `PoolInfo::isqrt`.  The interval halves each round, so 128 rounds decide every `i128`. -/
def isqrt (n : ℤ) : ℤ := if n ≤ 1 then n else bisect n 128 1 n 1

namespace PoolInfo

/-- The geometric mean of the reserves; unsupported pools score `0`. -/
def depthScore (pool : PoolInfo) : ℤ :=
  if pool.reserveA ≤ 0 ∨ pool.reserveB ≤ 0 ∨ 10000 ≤ pool.feeBps then 0
  else
    match I128.checkedMul pool.reserveA pool.reserveB with
    | some product => isqrt product
    | none => 0

end PoolInfo

/-- The root of every amount is found. -/
theorem isqrt_isRoot {n : ℤ} (hn : 0 ≤ n) (hfits : Fits 128 n) : IsRoot n (isqrt n) := by
  unfold isqrt
  split_ifs with h
  · exact ⟨hn, by nlinarith, by nlinarith⟩
  · have hbound : n < 2 ^ 127 := hfits.2
    exact bisect_isRoot 128 le_rfl (by omega) (by omega) (by omega) (by nlinarith) (by omega)

/-! ### Output of one pool -/

/-- The reserves a swap of `inputToken` pays into and out of. -/
def PoolInfo.directedReserves (pool : PoolInfo) (inputToken : Address) : Option (ℤ × ℤ) :=
  if pool.tokenA = inputToken then some (pool.reserveA, pool.reserveB)
  else if pool.tokenB = inputToken then some (pool.reserveB, pool.reserveA)
  else none

/-- The constant-product output `y·dx / (x + dx)` after the pool fee. -/
def calculateDirectSwapOutputForPool (pool : PoolInfo) (inputToken : Address)
    (inputAmount : ℤ) : Option ℤ := do
  let (reserveIn, reserveOut) ← pool.directedReserves inputToken
  if inputAmount ≤ 0 ∨ reserveIn ≤ 0 ∨ reserveOut ≤ 0 ∨ pool.tokenA = pool.tokenB ∨
      10000 ≤ pool.feeBps then
    none
  else
    let feeMultiplier := bpsDivisor - pool.feeBps
    let inputWithFee ← I128.checkedMul inputAmount feeMultiplier
    let numerator ← I128.checkedMul inputWithFee reserveOut
    let scaledReserve ← I128.checkedMul reserveIn bpsDivisor
    let denominator ← I128.checkedAdd scaledReserve inputWithFee
    some (numerator.tdiv denominator)

/-- The same with the subtraction and the division as the source has them, which trap. -/
def outputForPoolTrapping (pool : PoolInfo) (inputToken : Address) (inputAmount : ℤ) :
    RouterCall (Option ℤ) :=
  match pool.directedReserves inputToken with
  | none => pure none
  | some (reserveIn, reserveOut) =>
      if inputAmount ≤ 0 ∨ reserveIn ≤ 0 ∨ reserveOut ≤ 0 ∨ pool.tokenA = pool.tokenB ∨
          10000 ≤ pool.feeBps then
        pure none
      else do
        let feeMultiplier ← I128.sub bpsDivisor pool.feeBps
        let terms := do
          let inputWithFee ← I128.checkedMul inputAmount feeMultiplier
          let numerator ← I128.checkedMul inputWithFee reserveOut
          let scaledReserve ← I128.checkedMul reserveIn bpsDivisor
          let denominator ← I128.checkedAdd scaledReserve inputWithFee
          some (numerator, denominator)
        match terms with
        | none => pure none
        | some (numerator, denominator) => some <$> I128.div numerator denominator

/-! ### Price impact -/

/-- `U256::from_u128` of a word. -/
def wide (value : ℤ) : ℤ := value % 2 ^ 128

/-- Output and price impact of one pool; `(0, 0)` where the pool gives no quote. -/
def calculateDirectSwap (pool : PoolInfo) (inputToken : Address) (inputAmount : ℤ) :
    RouterCall (ℤ × ℤ) :=
  match calculateDirectSwapOutputForPool pool inputToken inputAmount with
  | none => pure (0, 0)
  | some output => do
      let (reserveIn, reserveOut) :=
        if pool.tokenA = inputToken then (pool.reserveA, pool.reserveB)
        else (pool.reserveB, pool.reserveA)
      let paid ← checkedU 256 (wide output * wide reserveIn)
      let execution ← checkedU 256 (paid * wide bpsDivisor)
      let spot ← checkedU 256 (wide inputAmount * wide reserveOut)
      if spot = 0 then .error .divByZero
      else do
        let ratio := execution / spot
        require (FitsU 128 ratio) (.panic "called `Option::unwrap()` on a `None` value")
        let retained := min ratio bpsDivisor
        let impactBps ← I128.sub bpsDivisor retained
        pure (output, impactBps)

/-- A returning quote with price impact has the output of the pool, `0` where there is none. -/
theorem calculateDirectSwap_fst {pool : PoolInfo} {inputToken : Address} {inputAmount : ℤ}
    {r : ℤ × ℤ} (h : calculateDirectSwap pool inputToken inputAmount = .ok r) :
    r.1 = (calculateDirectSwapOutputForPool pool inputToken inputAmount).getD 0 := by
  unfold calculateDirectSwap at h
  cases hout : calculateDirectSwapOutputForPool pool inputToken inputAmount with
  | none =>
      rw [hout] at h
      simp only [pure_eq_ok] at h
      simp [← h]
  | some output =>
      rw [hout] at h
      simp only [bind_eq_ok, ite_eq_ok, pure_eq_ok] at h
      obtain ⟨_, -, _, -, _, -, ⟨-, h⟩ | ⟨-, _, -, _, -, rfl⟩⟩ := h
      · cases h
      · rfl

/-! ### Basis points -/

/-- `bps` of a nonnegative amount. -/
def scaleBps (amount : ℤ) (bps : ℕ) : RouterCall ℤ := do
  let whole ← I128.mul (amount.tdiv bpsDivisor) bps
  let part ← I128.mul (amount.tmod bpsDivisor) bps
  let rest ← I128.div part bpsDivisor
  I128.add whole rest

/-- The least output accepted at a slippage tolerance. -/
def calculateMinimumOutput (expected : ℤ) (slippageBps : ℕ) : RouterCall ℤ := do
  requireValidSlippage slippageBps
  scaleBps expected (10000 - slippageBps)

/-- The value of a scaling. -/
def scaledBps (amount : ℤ) (bps : ℕ) : ℤ :=
  amount.tdiv bpsDivisor * bps + (amount.tmod bpsDivisor * bps).tdiv bpsDivisor

theorem scaleBps_value {amount r : ℤ} {bps : ℕ} (h : scaleBps amount bps = .ok r) :
    r = scaledBps amount bps := by
  simp only [scaleBps, bind_eq_ok, I128.mul_eq_ok, I128.div_eq_ok, I128.add_eq_ok] at h
  obtain ⟨whole, ⟨-, rfl⟩, part, ⟨-, rfl⟩, rest, ⟨-, -, rfl⟩, -, rfl⟩ := h
  rfl

end YieldEngine.Router
