import YieldEngine.ConstantProduct
import YieldEngine.RouterSearch

/-! # The output and the price impact of one pool

A pool quotes an amount exactly when it trades the token, its figures are positive and the
numerator and the denominator of the output fit 128 bits (`Quotes`).  The output is then the
constant-product exchange of its reserves, from which `constant_product_law` takes the bounds,
the product law, the monotony and the round trip.  The subtraction and the division that the
function does not check never trap behind its guards (`outputForPoolTrapping_eq`).

The price impact is computed on 256-bit words without checks of its own.  What the output
function has checked bounds every product of it, so it never traps where there is an output
(`price_impact_defined`). -/

namespace YieldEngine.Router

open CheckedArith ConstantProduct

/-- The part of a payment the pool counts, out of `bpsDivisor`. -/
def PoolInfo.feeMultiplier (pool : PoolInfo) : ℤ := bpsDivisor - pool.feeBps

/-- The pool quotes the amount, against these reserves. -/
structure Quotes (pool : PoolInfo) (inputToken : Address) (amount reserveIn reserveOut : ℤ) :
    Prop where
  side : pool.directedReserves inputToken = some (reserveIn, reserveOut)
  amount_pos : 0 < amount
  reserveIn_pos : 0 < reserveIn
  reserveOut_pos : 0 < reserveOut
  distinct : pool.tokenA ≠ pool.tokenB
  fee : pool.feeBps < 10000
  numerator : amount * pool.feeMultiplier * reserveOut < 2 ^ 127
  denominator : reserveIn * bpsDivisor + amount * pool.feeMultiplier < 2 ^ 127

/-- The pool gives no quote: it does not trade the token, a figure is out of range, or the
numerator or the denominator of the output does not fit. -/
def Unquotable (pool : PoolInfo) (inputToken : Address) (amount : ℤ) : Prop :=
  ∀ reserveIn reserveOut, pool.directedReserves inputToken = some (reserveIn, reserveOut) →
    amount ≤ 0 ∨ reserveIn ≤ 0 ∨ reserveOut ≤ 0 ∨ pool.tokenA = pool.tokenB ∨
      10000 ≤ pool.feeBps ∨ 2 ^ 127 ≤ amount * pool.feeMultiplier * reserveOut ∨
      2 ^ 127 ≤ reserveIn * bpsDivisor + amount * pool.feeMultiplier

/-- The pool after `paid` of the input token has come in and `received` gone out. -/
def PoolInfo.traded (pool : PoolInfo) (inputToken : Address) (paid received : ℤ) : PoolInfo :=
  if pool.tokenA = inputToken then
    { pool with reserveA := pool.reserveA + paid, reserveB := pool.reserveB - received }
  else { pool with reserveA := pool.reserveA - received, reserveB := pool.reserveB + paid }

section quotes
variable {pool : PoolInfo} {inputToken : Address} {amount reserveIn reserveOut : ℤ}

theorem feeMultiplier_pos (hfee : pool.feeBps < 10000) : 0 < pool.feeMultiplier := by
  unfold PoolInfo.feeMultiplier bpsDivisor
  omega

theorem Quotes.terms (h : Quotes pool inputToken amount reserveIn reserveOut) :
    Terms bpsDivisor pool.feeMultiplier reserveIn reserveOut amount where
  reserveIn := h.reserveIn_pos
  reserveOut := h.reserveOut_pos
  payment := h.amount_pos.le
  counted := (feeMultiplier_pos h.fee).le
  fee := by
    unfold PoolInfo.feeMultiplier
    omega
  scale := by norm_num [bpsDivisor]

theorem Quotes.counted_pos (h : Quotes pool inputToken amount reserveIn reserveOut) :
    0 < amount * pool.feeMultiplier := mul_pos h.amount_pos (feeMultiplier_pos h.fee)

/-- The numerator bounds its first factor, and the denominator its first summand, so that all
four checks of the source pass. -/
theorem Quotes.fits (h : Quotes pool inputToken amount reserveIn reserveOut) :
    Fits 128 (amount * pool.feeMultiplier) ∧
      Fits 128 (amount * pool.feeMultiplier * reserveOut) ∧
      Fits 128 (reserveIn * bpsDivisor) ∧
      Fits 128 (reserveIn * bpsDivisor + amount * pool.feeMultiplier) := by
  have hcounted := h.counted_pos
  have hscaled : 0 < reserveIn * bpsDivisor := mul_pos h.reserveIn_pos h.terms.scale
  have hnumerator : 0 < amount * pool.feeMultiplier * reserveOut :=
    mul_pos hcounted h.reserveOut_pos
  have hfits : Fits 128 (amount * pool.feeMultiplier * reserveOut) :=
    (fits_iff_lt hnumerator.le).mpr h.numerator
  have hsum : Fits 128 (reserveIn * bpsDivisor + amount * pool.feeMultiplier) :=
    (fits_iff_lt (Int.add_pos hscaled hcounted).le).mpr h.denominator
  refine ⟨hfits.of_le hcounted.le ?_, hfits, hsum.of_le hscaled.le ?_, hsum⟩
  · exact le_mul_of_one_le_right hcounted.le h.reserveOut_pos
  · omega

/-- The output of a pool is the exchange of its reserves, where the pool quotes. -/
theorem output_eq_some_iff {out : ℤ} :
    calculateDirectSwapOutputForPool pool inputToken amount = some out ↔
      ∃ reserveIn reserveOut, Quotes pool inputToken amount reserveIn reserveOut ∧
        out = exchange bpsDivisor pool.feeMultiplier reserveIn reserveOut amount := by
  have hdivided : ∀ {reserveIn reserveOut : ℤ},
      Terms bpsDivisor pool.feeMultiplier reserveIn reserveOut amount →
      (amount * pool.feeMultiplier * reserveOut).tdiv
        (reserveIn * bpsDivisor + amount * pool.feeMultiplier) =
      exchange bpsDivisor pool.feeMultiplier reserveIn reserveOut amount := by
    intro reserveIn reserveOut h
    rw [Int.tdiv_eq_ediv_of_nonneg]
    · rfl
    · exact mul_nonneg (mul_nonneg h.payment h.counted) h.reserveOut.le
  unfold calculateDirectSwapOutputForPool
  simp only [Option.bind_eq_bind, Option.bind_eq_some_iff, Prod.exists]
  constructor
  · rintro ⟨reserveIn, reserveOut, hside, h⟩
    split_ifs at h with hguards
    push Not at hguards
    obtain ⟨hamount, hin, hout, hdistinct, hfee⟩ := hguards
    simp only [Option.bind_eq_some_iff, I128.checkedMul_eq_some, I128.checkedAdd_eq_some,
      Option.some.injEq] at h
    obtain ⟨_, ⟨-, rfl⟩, _, ⟨hnumerator, rfl⟩, _, ⟨-, rfl⟩, _, ⟨hdenominator, rfl⟩, rfl⟩ := h
    have hquotes : Quotes pool inputToken amount reserveIn reserveOut :=
      ⟨hside, hamount, hin, hout, hdistinct, hfee, hnumerator.2, hdenominator.2⟩
    exact ⟨reserveIn, reserveOut, hquotes, hdivided hquotes.terms⟩
  · rintro ⟨reserveIn, reserveOut, h, rfl⟩
    obtain ⟨hcounted, hnumerator, hscaled, hdenominator⟩ := h.fits
    refine ⟨reserveIn, reserveOut, h.side, ?_⟩
    have hguards : ¬ (amount ≤ 0 ∨ reserveIn ≤ 0 ∨ reserveOut ≤ 0 ∨ pool.tokenA = pool.tokenB ∨
        10000 ≤ pool.feeBps) := by
      push Not
      exact ⟨h.amount_pos, h.reserveIn_pos, h.reserveOut_pos, h.distinct, h.fee⟩
    rw [if_neg hguards]
    simp only [Option.bind_eq_some_iff, I128.checkedMul_eq_some, I128.checkedAdd_eq_some,
      Option.some.injEq]
    exact ⟨_, ⟨hcounted, rfl⟩, _, ⟨hnumerator, rfl⟩, _, ⟨hscaled, rfl⟩, _, ⟨hdenominator, rfl⟩,
      hdivided h.terms⟩

/-- There is no output exactly where the pool gives no quote. -/
theorem output_eq_none_iff : calculateDirectSwapOutputForPool pool inputToken amount = none ↔
    Unquotable pool inputToken amount := by
  constructor
  · intro hnone reserveIn reserveOut hside
    by_contra hquotable
    push Not at hquotable
    obtain ⟨hamount, hin, hout, hdistinct, hfee, hnumerator, hdenominator⟩ := hquotable
    have hsome := output_eq_some_iff.mpr ⟨reserveIn, reserveOut,
      ⟨hside, hamount, hin, hout, hdistinct, hfee, hnumerator, hdenominator⟩, rfl⟩
    rw [hnone] at hsome
    cases hsome
  · intro hunquotable
    cases hout : calculateDirectSwapOutputForPool pool inputToken amount with
    | none => rfl
    | some out =>
        obtain ⟨reserveIn, reserveOut, h, -⟩ := output_eq_some_iff.mp hout
        rcases hunquotable reserveIn reserveOut h.side with
          hamount | hin | hpos | hsame | hfee | hnumerator | hdenominator
        · exact absurd hamount h.amount_pos.not_ge
        · exact absurd hin h.reserveIn_pos.not_ge
        · exact absurd hpos h.reserveOut_pos.not_ge
        · exact absurd hsame h.distinct
        · exact absurd hfee h.fee.not_ge
        · exact absurd hnumerator h.numerator.not_ge
        · exact absurd hdenominator h.denominator.not_ge

/-- A pool quotes against one pair of reserves. -/
theorem Quotes.same_side {amount' reserveIn' reserveOut' : ℤ} {pool' : PoolInfo}
    (h : Quotes pool inputToken amount reserveIn reserveOut)
    (h' : Quotes pool' inputToken amount' reserveIn' reserveOut')
    (hpool : pool'.directedReserves inputToken = pool.directedReserves inputToken) :
    reserveIn' = reserveIn ∧ reserveOut' = reserveOut := by
  have hsides := h'.side.symm.trans (hpool.trans h.side)
  exact Prod.mk.inj (Option.some.inj hsides)

end quotes

/-! ### The law of one pool -/

/-- The reserves a pool is left with are those of the way back. -/
theorem traded_directedReserves {pool : PoolInfo} {inputToken outputToken : Address}
    {reserveIn reserveOut : ℤ}
    (hside : pool.directedReserves inputToken = some (reserveIn, reserveOut))
    (hdistinct : pool.tokenA ≠ pool.tokenB) (hnext : pool.nextToken inputToken = some outputToken)
    (paid received : ℤ) :
    (pool.traded inputToken paid received).directedReserves outputToken =
      some (reserveOut - received, reserveIn + paid) := by
  unfold PoolInfo.directedReserves at hside
  unfold PoolInfo.nextToken at hnext
  unfold PoolInfo.directedReserves PoolInfo.traded
  split_ifs at hside hnext with hA hB
  · obtain rfl := Option.some.inj hnext
    obtain ⟨rfl, rfl⟩ := Prod.mk.inj (Option.some.inj hside)
    rw [if_pos hA, if_neg hdistinct, if_pos rfl]
  · obtain rfl := Option.some.inj hnext
    obtain ⟨rfl, rfl⟩ := Prod.mk.inj (Option.some.inj hside)
    rw [if_neg hA, if_pos rfl]

/-- What is known of an output: its bounds, the product law, and how it compares with the
output of other amounts, of other fees and of the way back. -/
structure OutputLaw (pool : PoolInfo) (inputToken : Address) (amount out reserveIn reserveOut : ℤ) :
    Prop where
  side : pool.directedReserves inputToken = some (reserveIn, reserveOut)
  nonneg : 0 ≤ out
  kept : out < reserveOut
  product : reserveIn * reserveOut ≤ (reserveIn + amount) * (reserveOut - out)
  amounts : ∀ amount' out', amount ≤ amount' →
    calculateDirectSwapOutputForPool pool inputToken amount' = some out' → out ≤ out'
  fees : ∀ feeBps out', pool.feeBps ≤ feeBps →
    calculateDirectSwapOutputForPool { pool with feeBps := feeBps } inputToken amount = some out' →
      out' ≤ out
  back : ∀ outputToken returned, pool.nextToken inputToken = some outputToken →
    calculateDirectSwapOutputForPool (pool.traded inputToken amount out) outputToken out =
      some returned → returned ≤ amount

theorem outputLaw {pool : PoolInfo} {inputToken : Address} {amount out : ℤ}
    (h : calculateDirectSwapOutputForPool pool inputToken amount = some out) :
    ∃ reserveIn reserveOut, OutputLaw pool inputToken amount out reserveIn reserveOut := by
  obtain ⟨reserveIn, reserveOut, hquotes, rfl⟩ := output_eq_some_iff.mp h
  have hterms := hquotes.terms
  refine ⟨reserveIn, reserveOut, hquotes.side, hterms.exchange_nonneg, hterms.exchange_lt,
    hterms.product_le, ?_, ?_, ?_⟩
  · intro amount' out' hle hout'
    obtain ⟨_, _, hquotes', rfl⟩ := output_eq_some_iff.mp hout'
    obtain ⟨rfl, rfl⟩ := hquotes.same_side hquotes' rfl
    exact hterms.exchange_mono (mul_le_mul_of_nonneg_right hle hterms.counted)
  · intro feeBps out' hle hout'
    obtain ⟨_, _, hquotes', rfl⟩ := output_eq_some_iff.mp hout'
    obtain ⟨rfl, rfl⟩ := hquotes.same_side hquotes' rfl
    apply hquotes'.terms.exchange_mono
    apply mul_le_mul_of_nonneg_left _ hterms.payment
    unfold PoolInfo.feeMultiplier
    dsimp only
    omega
  · intro outputToken returned hnext hreturned
    obtain ⟨_, _, hback, rfl⟩ := output_eq_some_iff.mp hreturned
    have hsides := traded_directedReserves hquotes.side hquotes.distinct hnext amount
      (exchange bpsDivisor pool.feeMultiplier reserveIn reserveOut amount)
    obtain ⟨rfl, rfl⟩ := Prod.mk.inj (Option.some.inj (hback.side.symm.trans hsides))
    have hfee : (pool.traded inputToken amount
        (exchange bpsDivisor pool.feeMultiplier reserveIn reserveOut amount)).feeMultiplier =
        pool.feeMultiplier := by
      unfold PoolInfo.feeMultiplier PoolInfo.traded
      split_ifs <;> rfl
    rw [hfee]
    exact hterms.round_trip_le

/-- Behind the guards the subtraction of the fee fits, and so does a quotient of two products
that do. -/
theorem outputForPoolTrapping_eq (pool : PoolInfo) (inputToken : Address) (amount : ℤ) :
    outputForPoolTrapping pool inputToken amount =
      .ok (calculateDirectSwapOutputForPool pool inputToken amount) := by
  unfold outputForPoolTrapping calculateDirectSwapOutputForPool
  cases hside : pool.directedReserves inputToken with
  | none => rfl
  | some reserves =>
      obtain ⟨reserveIn, reserveOut⟩ := reserves
      simp only [Option.bind_eq_bind, Option.bind_some]
      split_ifs with hguards
      · rfl
      push Not at hguards
      obtain ⟨hamount, hin, hout, -, hfee⟩ := hguards
      have hsub : Fits 128 (bpsDivisor - pool.feeBps) := by
        unfold bpsDivisor
        exact .of_lt (by omega) (by omega)
      rw [I128.sub_of_fits hsub, ok_bind]
      cases hcounted : I128.checkedMul amount (bpsDivisor - pool.feeBps) with
      | none => rfl
      | some counted =>
          simp only [Option.bind_some]
          cases hnumerator : I128.checkedMul counted reserveOut with
          | none => rfl
          | some numerator =>
              simp only [Option.bind_some]
              cases hscaled : I128.checkedMul reserveIn bpsDivisor with
              | none => rfl
              | some scaled =>
                  simp only [Option.bind_some]
                  cases hsum : I128.checkedAdd scaled counted with
                  | none => rfl
                  | some denominator =>
                      obtain ⟨-, rfl⟩ := I128.checkedMul_eq_some.mp hcounted
                      obtain ⟨hfits, rfl⟩ := I128.checkedMul_eq_some.mp hnumerator
                      obtain ⟨-, rfl⟩ := I128.checkedMul_eq_some.mp hscaled
                      obtain ⟨-, rfl⟩ := I128.checkedAdd_eq_some.mp hsum
                      have hpaid : 0 < amount * (bpsDivisor - pool.feeBps) :=
                        mul_pos hamount (feeMultiplier_pos hfee)
                      have hpositive : 0 < reserveIn * bpsDivisor +
                          amount * (bpsDivisor - pool.feeBps) :=
                        add_pos (mul_pos hin (by decide)) hpaid
                      simp only [Option.bind_some]
                      rw [I128.div_of_fits hpositive.ne' (hfits.tdiv hpositive)]
                      rfl

/-- The call never traps, there is no output exactly where the pool cannot quote, and every
output obeys the law. -/
theorem constant_product_law (pool : PoolInfo) (inputToken : Address) (amount : ℤ) :
    outputForPoolTrapping pool inputToken amount =
      .ok (calculateDirectSwapOutputForPool pool inputToken amount) ∧
    (calculateDirectSwapOutputForPool pool inputToken amount = none ↔
      Unquotable pool inputToken amount) ∧
    ∀ out, calculateDirectSwapOutputForPool pool inputToken amount = some out →
      ∃ reserveIn reserveOut, OutputLaw pool inputToken amount out reserveIn reserveOut :=
  ⟨outputForPoolTrapping_eq pool inputToken amount, output_eq_none_iff, fun _ h => outputLaw h⟩

/-- What the deep pool gives for 1000 obeys the law. -/
theorem constant_product_law_deepPool :
    calculateDirectSwapOutputForPool deepPool 1 1000 = some 999 ∧
      ∃ reserveIn reserveOut, OutputLaw deepPool 1 1000 999 reserveIn reserveOut :=
  ⟨by decide, (constant_product_law deepPool 1 1000).2.2 999 (by decide)⟩

example : calculateDirectSwapOutputForPool (deepPool.traded 1 1000 999) 2 999 = some 999 := by
  decide

/-! ### The price impact -/

/-- The price impact of an output in basis points: how far the rate realised stays below the
spot rate of the reserves. -/
def impactBps (amount out reserveIn reserveOut : ℤ) : ℤ :=
  bpsDivisor - out * reserveIn * bpsDivisor / (amount * reserveOut)

/-- What the computation of a price impact relies on, and between what bounds it ends. -/
structure ImpactLaw (pool : PoolInfo) (amount out reserveIn reserveOut : ℤ) : Prop where
  paid : FitsU 256 (out * reserveIn)
  execution : FitsU 256 (out * reserveIn * bpsDivisor)
  spot : FitsU 256 (amount * reserveOut)
  divisor : amount * reserveOut ≠ 0
  ratio : FitsU 128 (out * reserveIn * bpsDivisor / (amount * reserveOut))
  above_fee : pool.feeBps < impactBps amount out reserveIn reserveOut
  at_most_whole : impactBps amount out reserveIn reserveOut ≤ 10000

theorem Quotes.impactLaw {pool : PoolInfo} {inputToken : Address}
    {amount reserveIn reserveOut : ℤ} (h : Quotes pool inputToken amount reserveIn reserveOut) :
    ImpactLaw pool amount (exchange bpsDivisor pool.feeMultiplier reserveIn reserveOut amount)
      reserveIn reserveOut := by
  have hterms := h.terms
  have hspot : 0 < amount * reserveOut := mul_pos h.amount_pos h.reserveOut_pos
  have hbelow := hterms.ratio_lt h.counted_pos
  have hnonneg := hterms.exchange_nonneg
  set out := exchange bpsDivisor pool.feeMultiplier reserveIn reserveOut amount
  have hpaid : 0 ≤ out * reserveIn := mul_nonneg hnonneg hterms.reserveIn.le
  have hscaled : out * reserveIn ≤ out * reserveIn * bpsDivisor :=
    le_mul_of_one_le_right hpaid (by norm_num [bpsDivisor])
  -- the products stay below the numerator that the output function has checked
  have hnumerator : amount * reserveOut * pool.feeMultiplier < 2 ^ 127 := by
    calc amount * reserveOut * pool.feeMultiplier
        = amount * pool.feeMultiplier * reserveOut := by ring
      _ < 2 ^ 127 := h.numerator
  have hspot_le : amount * reserveOut ≤ amount * reserveOut * pool.feeMultiplier :=
    le_mul_of_one_le_right hspot.le (feeMultiplier_pos h.fee)
  have hratio : 0 ≤ out * reserveIn * bpsDivisor / (amount * reserveOut) :=
    Int.ediv_nonneg (hpaid.trans hscaled) hspot.le
  have hratio_lt : out * reserveIn * bpsDivisor / (amount * reserveOut) < pool.feeMultiplier := by
    apply Int.ediv_lt_of_lt_mul hspot
    rw [mul_comm pool.feeMultiplier]
    exact hbelow
  have hmultiplier : pool.feeMultiplier = 10000 - (pool.feeBps : ℤ) := rfl
  refine ⟨⟨hpaid, ?_⟩, ⟨hpaid.trans hscaled, ?_⟩, ⟨hspot.le, ?_⟩, hspot.ne', ⟨hratio, ?_⟩, ?_, ?_⟩
  · omega
  · omega
  · omega
  · omega
  · unfold impactBps bpsDivisor at *
    omega
  · unfold impactBps bpsDivisor at *
    omega

/-- A magnitude of 127 bits is itself as a wide word. -/
theorem wide_of_nonneg {value : ℤ} (h0 : 0 ≤ value) (h : value < 2 ^ 127) : wide value = value :=
  Int.emod_eq_of_lt h0 (by omega)

/-- What a pool quotes with are numbers of 127 bits. -/
theorem Quotes.narrow {pool : PoolInfo} {inputToken : Address}
    {amount reserveIn reserveOut : ℤ} (h : Quotes pool inputToken amount reserveIn reserveOut) :
    reserveIn < 2 ^ 127 ∧ reserveOut < 2 ^ 127 ∧ amount < 2 ^ 127 := by
  obtain ⟨hcounted, hnumerator, hscaled, -⟩ := h.fits
  refine ⟨?_, ?_, ?_⟩
  · have hbound := hscaled.2
    have hpositive := h.reserveIn_pos
    unfold bpsDivisor at hbound
    omega
  · have hle : 1 * reserveOut ≤ amount * pool.feeMultiplier * reserveOut :=
      mul_le_mul_of_nonneg_right h.counted_pos h.reserveOut_pos.le
    have hbound := hnumerator.2
    omega
  · have hle : amount * 1 ≤ amount * pool.feeMultiplier :=
      mul_le_mul_of_nonneg_left (feeMultiplier_pos h.fee) h.amount_pos.le
    have hbound := hcounted.2
    omega

/-- The sides that the price impact reads are those the pool quotes with. -/
theorem Quotes.sides {pool : PoolInfo} {inputToken : Address} {amount reserveIn reserveOut : ℤ}
    (h : Quotes pool inputToken amount reserveIn reserveOut) :
    (if pool.tokenA = inputToken then (pool.reserveA, pool.reserveB)
      else (pool.reserveB, pool.reserveA)) = (reserveIn, reserveOut) := by
  have hside := h.side
  unfold PoolInfo.directedReserves at hside
  split_ifs at hside ⊢ <;> exact Option.some.inj hside

/-- A pool that quotes an amount prices it without a trap. -/
theorem Quotes.calculateDirectSwap_eq_ok {pool : PoolInfo} {inputToken : Address}
    {amount reserveIn reserveOut out : ℤ}
    (hquotes : Quotes pool inputToken amount reserveIn reserveOut)
    (hout : calculateDirectSwapOutputForPool pool inputToken amount = some out)
    (hexchange : out = exchange bpsDivisor pool.feeMultiplier reserveIn reserveOut amount) :
    calculateDirectSwap pool inputToken amount =
      .ok (out, impactBps amount out reserveIn reserveOut) := by
  have hlaw := hquotes.impactLaw
  have hterms := hquotes.terms
  have hnonneg := hterms.exchange_nonneg
  have hkept := hterms.exchange_lt
  rw [← hexchange] at hlaw hnonneg hkept
  obtain ⟨hin, hreserve, hamount⟩ := hquotes.narrow
  have habove := hlaw.above_fee
  have hwhole := hlaw.at_most_whole
  unfold impactBps bpsDivisor at habove hwhole
  have hretained : out * reserveIn * bpsDivisor / (amount * reserveOut) ≤ bpsDivisor := by
    unfold bpsDivisor
    omega
  unfold calculateDirectSwap
  rw [hout]
  dsimp only
  rw [hquotes.sides, wide_of_nonneg hquotes.reserveIn_pos.le hin,
    wide_of_nonneg hquotes.amount_pos.le hamount, wide_of_nonneg hnonneg (hkept.trans hreserve),
    wide_of_nonneg hquotes.reserveOut_pos.le hreserve, wide_of_nonneg hterms.scale.le (by decide)]
  simp only [bind_eq_ok, checkedU_eq_ok, require_eq_ok, I128.sub_eq_ok, pure_eq_ok, ite_eq_ok]
  refine ⟨_, ⟨hlaw.paid, rfl⟩, _, ⟨hlaw.execution, rfl⟩, _, ⟨hlaw.spot, rfl⟩, .inr
    ⟨hlaw.divisor, (), hlaw.ratio, _, ⟨?_, rfl⟩, ?_⟩⟩
  · rw [min_eq_left hretained]
    unfold bpsDivisor
    exact .of_lt (by omega) (by omega)
  · rw [min_eq_left hretained]
    rfl

/-- Where a pool gives an output, the price impact is computed without a trap; it lies above
the fee of the pool. -/
theorem price_impact_defined {pool : PoolInfo} {inputToken : Address} {amount out : ℤ}
    (h : calculateDirectSwapOutputForPool pool inputToken amount = some out) :
    ∃ reserveIn reserveOut, pool.directedReserves inputToken = some (reserveIn, reserveOut) ∧
      calculateDirectSwap pool inputToken amount =
        .ok (out, impactBps amount out reserveIn reserveOut) ∧
      ImpactLaw pool amount out reserveIn reserveOut := by
  obtain ⟨reserveIn, reserveOut, hquotes, hout⟩ := output_eq_some_iff.mp h
  have hlaw := hquotes.impactLaw
  rw [← hout] at hlaw
  exact ⟨reserveIn, reserveOut, hquotes.side, hquotes.calculateDirectSwap_eq_ok h hout, hlaw⟩

theorem price_impact_defined_deepPool :
    ∃ reserveIn reserveOut, deepPool.directedReserves 1 = some (reserveIn, reserveOut) ∧
      calculateDirectSwap deepPool 1 1000 =
        .ok (999, impactBps 1000 999 reserveIn reserveOut) ∧
      ImpactLaw deepPool 1000 999 reserveIn reserveOut :=
  price_impact_defined (by decide)

example : calculateDirectSwap deepPool 1 1000 = .ok (999, 10) := by decide

end YieldEngine.Router
