import YieldEngine.InitializeOnce
import YieldEngine.InsuranceCoverage

/-! # Settling a policy

A policy is sold on the terms the buyer names and settled months later.  The purchase checks the
coverage and the premium, but takes the start price as it is; the claim then squares it, divides
by it, and multiplies the coverage by the loss.  `InRange` is what the claim needs of the two
numbers, and `computes_iff` says that it needs no less: a policy on other terms has a price at
which its compensation cannot be computed.

`policy_settles_iff` is this over runs.  Whatever happens between a purchase and the first claim
that settles the policy, the claim of the owner goes through at every price, up to the transfer,
exactly when the policy was sold in range.  What the claim takes off the books always fits:
`Insured` is kept by every run in which the contract is not initialised again over an open
policy. -/

namespace YieldEngine.Insurance

open CheckedArith IntegerRoot InsuranceClient Transact

/-- A reserve ratio of `10^12`. -/
def maxPriceRatio : ℤ := 10 ^ 12

/-- The start price and the coverage are such that a claim can compute with them. -/
structure InRange (start coverage : ℤ) : Prop where
  positive : 0 < start
  square : Fits 128 (start * start)
  covered : Fits 128 (coverage * 1000000)

/-! ### The compensation -/

/-- The last step of a compensation: the part `loss` of the coverage. -/
def coveredLoss (coverage loss : ℤ) : InsuranceCall ℤ := do
  let covered ← I128.mul coverage loss
  I128.div covered 1000000

section compensation
variable {policy : InsurancePolicy} {current : ℤ}

theorem currentSq_le (hcurrent : 0 < current) (hle : current ≤ maxPriceRatio) :
    current * current ≤ 10 ^ 24 := by
  calc current * current ≤ maxPriceRatio * maxPriceRatio :=
        mul_le_mul hle hle hcurrent.le (hcurrent.le.trans hle)
    _ = 10 ^ 24 := by norm_num [maxPriceRatio]

theorem priceRatio_le (start : ℤ) (hcurrent : 0 < current) (hle : current ≤ maxPriceRatio) :
    priceRatio start current ≤ 10 ^ 30 := by
  have hsq := currentSq_le hcurrent hle
  have hscaled : (0 : ℤ) ≤ current * current * 1000000 := by positivity
  have hquotient := Int.tdiv_le_self (start * start) hscaled
  unfold priceRatio
  omega

/-- Up to the multiplication by the coverage nothing overflows, once the start price and its
square are in range. -/
theorem ilCompensation_eq (hstart : 0 < policy.startPriceRatio)
    (hsquare : Fits 128 (policy.startPriceRatio * policy.startPriceRatio))
    (hcurrent : 0 < current) (hle : current ≤ maxPriceRatio) :
    ilCompensation policy current =
      if lossScaled (priceRatio policy.startPriceRatio current) ≤ 0 then pure 0
      else coveredLoss policy.coverageAmount
        (lossScaled (priceRatio policy.startPriceRatio current)) := by
  have hratio := priceRatio_nonneg hstart current
  have hbound := priceRatio_le policy.startPriceRatio hcurrent hle
  have hsq := currentSq_le hcurrent hle
  have hsq0 := mul_pos hcurrent hcurrent
  obtain ⟨root, hsqrt⟩ := sqrtScaled_returns (hbound.trans_lt (by norm_num))
  have hroot := sqrtScaled_isRoot hratio hsqrt
  have hroot0 := hroot.nonneg
  have hrootle : root < 10 ^ 15 + 1 := (hroot.lt_iff (by norm_num)).mpr (by omega)
  have hden := denominator_pos hratio
  have hthousandths := Int.tdiv_le_self 1000 hratio
  have hthousandths0 := Rounding.tdiv_nonneg hratio (show (0 : ℤ) < 1000 by norm_num)
  have hil0 := il_nonneg hratio hroot0
  have hil := Int.tdiv_le_self (1000 + (priceRatio policy.startPriceRatio current).tdiv 1000)
    (show 0 ≤ 2 * root * 1000000 by omega)
  rw [lossScaled_of_root hratio hroot]
  simp only [ilCompensation, ilQuotient]
  -- the price ratio, where only the square of the start price may overflow
  rw [require, if_pos hstart, ok_bind, I128.mul_of_fits (.of_lt hsq0.le (by omega)), ok_bind,
    I128.mul_of_fits (.of_lt (by omega) (by omega)), ok_bind, I128.mul_of_fits hsquare, ok_bind,
    I128.div_of_fits (mul_pos hstart hstart).ne' (.of_lt hratio (hbound.trans_lt (by norm_num))),
    ok_bind, ← priceRatio]
  -- its root, and the quotient of the loss formula
  rw [hsqrt, ok_bind, I128.mul_of_fits (.of_lt (by omega) (by omega)), ok_bind,
    I128.mul_of_fits (.of_lt (by omega) (by omega)), ok_bind,
    I128.div_of_fits (by norm_num) (.of_lt hthousandths0 (by omega)), ok_bind,
    I128.add_of_fits (.of_lt hden.le (by omega)), ok_bind, if_pos hden,
    I128.div_of_fits hden.ne' (.of_lt hil0 (by omega)), ok_bind]
  by_cases hnone : 1000000 ≤
      (2 * root * 1000000).tdiv (1000 + (priceRatio policy.startPriceRatio current).tdiv 1000)
  · rw [if_pos hnone, if_pos (by omega)]
  · rw [if_neg hnone, if_neg (by omega), I128.sub_of_fits (.of_lt (by omega) (by omega)), ok_bind]
    rfl

/-- The square root of a large price ratio is small against it, and the whole coverage is lost. -/
theorem lossScaled_of_large {ratio : ℤ} (hratio : 10 ^ 24 ≤ ratio) :
    lossScaled ratio = 1000000 := by
  have hroot := newton_self_isRoot (show 0 < ratio by omega)
  rw [lossScaled, ← hroot.eq_sqrt]
  generalize newton ratio ratio.toNat ratio ((ratio + 1).tdiv 2) = root at hroot
  have hlarge : 10 ^ 12 ≤ root := by
    rw [← not_lt, hroot.lt_iff (by norm_num)]
    omega
  have hlower := hroot.lower
  have hquotient : 2 * root * 1000000 < 1000 + ratio / 1000 := by
    by_contra hge
    -- the square of the root would be at most a multiple of the root
    have hsq : root * root ≤ 2000000000 * root := by omega
    have hscaled : 10 ^ 12 * root ≤ root * root := mul_le_mul_of_nonneg_right hlarge (by omega)
    omega
  rw [Int.ediv_eq_zero_of_lt (by omega) hquotient]
  rfl

theorem lossScaled_le {ratio : ℤ} (hratio : 0 ≤ ratio) : lossScaled ratio ≤ 1000000 := by
  have hquotient : 0 ≤ 2 * (Nat.sqrt ratio.toNat : ℤ) * 1000000 / (1000 + ratio / 1000) :=
    Int.ediv_nonneg (by positivity) (by omega)
  unfold lossScaled
  omega

/-- On every start price in range some price makes the whole coverage the compensation. -/
theorem exists_total_loss {start : ℤ} (hstart : 0 < start) :
    ∃ current, 0 < current ∧ current ≤ maxPriceRatio ∧
      lossScaled (priceRatio start current) = 1000000 := by
  rcases le_or_gt start 1000 with hsmall | hlarge
  · refine ⟨maxPriceRatio, by norm_num [maxPriceRatio], le_rfl, lossScaled_of_large ?_⟩
    have hsq : start * start ≤ 1000 * 1000 := mul_le_mul hsmall hsmall hstart.le (by norm_num)
    rw [priceRatio, Rounding.le_tdiv_iff (by norm_num [maxPriceRatio]) (mul_pos hstart hstart)]
    norm_num [maxPriceRatio]
    omega
  · refine ⟨1, by norm_num, by norm_num [maxPriceRatio], ?_⟩
    have hsq : 1001 * 1001 ≤ start * start := mul_le_mul hlarge hlarge (by norm_num) hstart.le
    have hratio : priceRatio start 1 = 0 := by
      rw [priceRatio, Int.tdiv_eq_ediv_of_nonneg (by norm_num)]
      exact Int.ediv_eq_zero_of_lt (by norm_num) (by omega)
    rw [hratio]
    rfl

theorem ilCompensation_checks {compensation : ℤ}
    (h : ilCompensation policy current = .ok compensation) :
    0 < policy.startPriceRatio ∧ Fits 128 (policy.startPriceRatio * policy.startPriceRatio) := by
  simp only [ilCompensation, bind_eq_ok, require_eq_ok, exists_const, I128.mul_eq_ok] at h
  obtain ⟨hstart, _, -, _, -, _, ⟨hsquare, -⟩, -⟩ := h
  exact ⟨hstart, hsquare⟩

theorem coveredLoss_returns {coverage loss : ℤ} (h0 : 0 ≤ coverage * loss)
    (h : Fits 128 (coverage * loss)) : ∃ covered, coveredLoss coverage loss = .ok covered := by
  have hle := Int.tdiv_le_self 1000000 h0
  have hdivided := Rounding.tdiv_nonneg h0 (show (0 : ℤ) < 1000000 by norm_num)
  refine ⟨(coverage * loss).tdiv 1000000, ?_⟩
  rw [coveredLoss, I128.mul_of_fits h, ok_bind,
    I128.div_of_fits (by norm_num) (h.of_le hdivided hle)]

/-- A claim can compute the compensation of a policy at every price exactly when the policy is
in range. -/
theorem computes_iff (hcovers : 0 < policy.coverageAmount) :
    (∀ current, 0 < current → current ≤ maxPriceRatio →
      ∃ compensation, ilCompensation policy current = .ok compensation) ↔
    InRange policy.startPriceRatio policy.coverageAmount := by
  constructor
  · intro hall
    obtain ⟨_, hunit⟩ := hall 1 (by norm_num) (by norm_num [maxPriceRatio])
    obtain ⟨hstart, hsquare⟩ := ilCompensation_checks hunit
    obtain ⟨current, hcurrent, hle, hloss⟩ := exists_total_loss hstart
    obtain ⟨compensation, h⟩ := hall current hcurrent hle
    rw [ilCompensation_eq hstart hsquare hcurrent hle, hloss, if_neg (by norm_num)] at h
    obtain ⟨_, hcovered, -⟩ := bind_eq_ok.mp h
    exact ⟨hstart, hsquare, (I128.mul_eq_ok.mp hcovered).1⟩
  · rintro ⟨hstart, hsquare, hcovered⟩ current hcurrent hle
    rw [ilCompensation_eq hstart hsquare hcurrent hle]
    split_ifs with hnone
    · exact ⟨0, rfl⟩
    · have hpositive := mul_pos hcovers (not_le.mp hnone)
      have hloss := lossScaled_le (priceRatio_nonneg hstart current)
      exact coveredLoss_returns hpositive.le
        (hcovered.of_le hpositive.le (mul_le_mul_of_nonneg_left hloss hcovers.le))

end compensation

/-! ### What every run keeps -/

/-- The books a claim is taken off: they fit, they balance, and the open policies are counted and
numbered below the next one. -/
structure Insured (w : InsuranceWorld) : Prop where
  balanced : Balanced w.store.getReservePoolInternal
  collected : Fits 128 w.store.getReservePoolInternal.totalPremiumsCollected
  paid : 0 ≤ w.store.getReservePoolInternal.totalClaimsPaid
  active : Fits 128 w.store.getReservePoolInternal.activeCoverage
  counted : SortedMap.total openCoverage w.store.policies ≤
    w.store.getReservePoolInternal.activeCoverage
  filed : ∀ id policy, w.store.policies.get id = some policy →
    policy.policyId = id ∧ 0 < policy.coverageAmount
  below : ∀ id policy, w.store.policies.get id = some policy → policy.claimed = false →
    id < w.store.nextPolicyId.getD 0

section insured
variable {w w' : InsuranceWorld} {e : Env}

theorem Insured.openCoverage_nonneg (hw : Insured w) (id : ℕ) (policy : InsurancePolicy)
    (hstored : w.store.policies.get id = some policy) : 0 ≤ openCoverage policy := by
  have hcovers := (hw.filed id policy hstored).2
  unfold openCoverage
  split_ifs
  · exact le_rfl
  · exact hcovers.le

/-- An open policy is counted. -/
theorem Insured.coverage_le (hw : Insured w) {id : ℕ} {policy : InsurancePolicy}
    (hstored : w.store.policies.get id = some policy) (hopen : policy.claimed = false) :
    policy.coverageAmount ≤ w.store.getReservePoolInternal.activeCoverage := by
  have hpart := SortedMap.le_total openCoverage w.store.policies hw.openCoverage_nonneg hstored
  rw [openCoverage, hopen, if_neg Bool.false_ne_true] at hpart
  exact hpart.trans hw.counted

/-- What a returning purchase adds to the books still fits. -/
theorem purchase_fits {buyer : Address} {coverageAmount : ℤ} {coveragePeriod : ℕ} {ratio : ℤ}
    {volatility correlation : ℕ} {autoRenew : Bool} {token : Address} {id : ℕ}
    (h : purchaseInsurance e w buyer coverageAmount coveragePeriod ratio volatility correlation
      autoRenew token = .ok (id, w')) :
    Fits 128 w'.store.getReservePoolInternal.totalPremiumsCollected ∧
      Fits 128 w'.store.getReservePoolInternal.activeCoverage := by
  simp only [purchaseInsurance, bind_eq_ok, nextPolicyId, collectPremium, pure_eq_ok,
    Prod.mk.injEq, I128.add_eq_ok] at h
  obtain ⟨_, -, _, -, _, -, quote, -, _, -, ledger, -, _, -, expiry, -, _,
    ⟨_, ⟨hcollected, rfl⟩, _, ⟨-, rfl⟩, _, ⟨hactive, rfl⟩, count, -, rfl⟩, rfl, rfl⟩ := h
  exact ⟨hcollected, hactive⟩

theorem Insured.of_same (hw : Insured w) (hpolicies : w'.store.policies = w.store.policies)
    (hnext : w'.store.nextPolicyId = w.store.nextPolicyId)
    (hreserve : w'.store.reservePool = w.store.reservePool) : Insured w' := by
  have hsame := getReservePoolInternal_congr hreserve
  obtain ⟨hbalanced, hcollected, hpaid, hactive, hcounted, hfiled, hbelow⟩ := hw
  constructor <;> simp only [hsame, hpolicies, hnext] <;> assumption

/-- The entry that a purchase writes holds no open policy. -/
theorem Insured.entry_free {policy : InsurancePolicy} (hw : Insured w)
    (h : PurchaseFacts e w w' policy) (old : InsurancePolicy)
    (hold : w.store.policies.get policy.policyId = some old) : old.claimed = true := by
  cases hclaimed : old.claimed with
  | true => rfl
  | false =>
      have hbelow := hw.below _ old hold hclaimed
      have hid := h.id
      omega

theorem PurchaseFacts.insured {policy : InsurancePolicy} (hw : Insured w)
    (h : PurchaseFacts e w w' policy) (hbalanced : Balanced w'.store.getReservePoolInternal)
    (hcollected : Fits 128 w'.store.getReservePoolInternal.totalPremiumsCollected)
    (hactive : Fits 128 w'.store.getReservePoolInternal.activeCoverage) : Insured w' := by
  have hid := h.id
  refine ⟨hbalanced, hcollected, ?_, hactive, ?_, fun id other hget => ?_,
    fun id other hget hopen => ?_⟩
  · rw [getReservePoolInternal_eq h.reserve]
    exact hw.paid
  · rw [getReservePoolInternal_eq h.reserve, h.total (hw.entry_free h)]
    exact Int.add_le_add_right hw.counted _
  · rw [h.sold, SortedMap.get_set] at hget
    split_ifs at hget with hsold
    · obtain rfl := Option.some.inj hget
      exact ⟨hsold.symm, h.covers⟩
    · exact hw.filed id other hget
  · rw [h.next, Option.getD_some]
    rw [h.sold, SortedMap.get_set] at hget
    split_ifs at hget with hsold
    · omega
    · have hbelow := hw.below id other hget hopen
      omega

theorem SettlementFacts.insured {claimant : Address} {policyId : ℕ}
    {current payout compensation : ℤ} {policy : InsurancePolicy} (hw : Insured w)
    (h : SettlementFacts e w w' claimant policyId current payout policy compensation)
    (hbalanced : Balanced w'.store.getReservePoolInternal) : Insured w' := by
  obtain ⟨hown, hcovers⟩ := hw.filed _ _ h.stored
  have htotal := h.total hown
  have hcounted := hw.counted
  have hfiled : ∀ id other, w'.store.policies.get id = some other →
      other.policyId = id ∧ 0 < other.coverageAmount := by
    intro id other hget
    rw [h.settled, SortedMap.get_set] at hget
    split_ifs at hget with hsettled
    · obtain rfl := Option.some.inj hget
      exact ⟨hsettled.symm, hcovers⟩
    · exact hw.filed id other hget
  have hbelow : ∀ id other, w'.store.policies.get id = some other → other.claimed = false →
      id < w'.store.nextPolicyId.getD 0 := by
    intro id other hget hopen
    rw [h.next]
    rw [h.settled, SortedMap.get_set] at hget
    split_ifs at hget with hsettled
    · obtain rfl := Option.some.inj hget
      cases hopen
    · exact hw.below id other hget hopen
  cases h.payment with
  | nothing hpayout hledger hreserve =>
      have hsame := getReservePoolInternal_congr hreserve
      refine ⟨hbalanced, hsame ▸ hw.collected, hsame ▸ hw.paid, hsame ▸ hw.active, ?_, hfiled,
        hbelow⟩
      rw [hsame]
      omega
  | paid hpayout hledger hreserve =>
      have hcoverage := hw.coverage_le h.stored h.isOpen
      have hpaid := hw.paid
      refine ⟨hbalanced, ?_, ?_, ?_, ?_, hfiled, hbelow⟩ <;>
        rw [getReservePoolInternal_eq hreserve] <;> simp only [ReservePool.paying]
      · exact hw.collected
      · omega
      · exact hw.active.of_le (by omega) (by omega)
      · omega

theorem insured_step {event : InsuranceEvent} (hw : Insured w)
    (h : insuranceStep w event = .ok w') : Insured w' := by
  cases event with
  | tokens ledger =>
      obtain rfl := pure_eq_ok.mp h
      exact hw.of_same rfl rfl rfl
  | call e action =>
      have heffect := exec_effect h
      have hbalanced := kept_balanced hw.balanced heffect
      cases heffect with
      | kept hmanages hledger hpolicies hnext hreserve =>
          exact hw.of_same hpolicies hnext hreserve
      | purchased hreturned hquote hfacts =>
          obtain ⟨hcollected, hactive⟩ := purchase_fits hreturned
          exact hfacts.insured hw hbalanced hcollected hactive
      | settled hreturned hfacts => exact hfacts.insured hw hbalanced

end insured

/-! ### One claim -/

/-- What a claim of a compensation pays out of the reserve. -/
def due (w : InsuranceWorld) (compensation : ℤ) : ℤ :=
  if compensation ≤ 0 then 0 else min compensation w.store.getReservePoolInternal.currentReserve

/-- The token pays the amount out to the owner of the policy. -/
def Transfers (e : Env) (w : InsuranceWorld) (policy : InsurancePolicy) (amount : ℤ) : Prop :=
  ∃ ledger, (Ledger.transfer e w.ledger policy.coverageToken e.contract policy.owner amount :
    InsuranceCall Ledger) = .ok ledger

/-- The claim of the owner computes a compensation, and returns what is due of it if the token
transfers that amount. -/
def SettlesAt (e : Env) (w : InsuranceWorld) (id : ℕ) (policy : InsurancePolicy) (current : ℤ) :
    Prop :=
  ∃ compensation, ilCompensation policy current = .ok compensation ∧
    ((0 < due w compensation → Transfers e w policy (due w compensation)) →
      ∃ w', claimIlCompensation e w policy.owner id current = .ok (due w compensation, w'))

/-- The policy can be settled by its owner from its expiry on, at every price. -/
def Settles (w : InsuranceWorld) (id : ℕ) (policy : InsurancePolicy) : Prop :=
  ∀ e current, e.Authorized policy.owner → policy.expiry ≤ e.timestamp → 0 < current →
    current ≤ maxPriceRatio → SettlesAt e w id policy current

section claim
variable {w : InsuranceWorld} {e : Env} {id : ℕ} {policy : InsurancePolicy}

/-- What a payout takes off the books fits, when the policy is open. -/
theorem payClaim_returns (hw : Insured w) (hstored : w.store.policies.get id = some policy)
    (hopen : policy.claimed = false) {payout : ℤ}
    (hle : payout ≤ w.store.getReservePoolInternal.currentReserve)
    (htransfer : 0 < payout → Transfers e w policy payout) :
    ∃ w', payClaim e w policy.owner policy payout = .ok w' := by
  have hbooks := hw.balanced.books
  have hpaid := hw.paid
  have hcoverage := hw.coverage_le hstored hopen
  have hcovers := (hw.filed id policy hstored).2
  unfold payClaim
  by_cases hpayout : 0 < payout
  · obtain ⟨ledger, hledger⟩ := htransfer hpayout
    dsimp only
    rw [if_pos hpayout, hledger, ok_bind,
      I128.add_of_fits (hw.collected.of_le (by omega) (by omega)), ok_bind,
      I128.sub_of_fits (hw.collected.of_le (by omega) (by omega)), ok_bind,
      I128.sub_of_fits (hw.active.of_le (by omega) (by omega)), ok_bind]
    exact ⟨_, rfl⟩
  · rw [if_neg hpayout]
    exact ⟨w, rfl⟩

/-- Once its compensation is computed, the claim of an expired open policy goes through. -/
theorem settlesAt_of_computed (hw : Insured w) (hstored : w.store.policies.get id = some policy)
    (hopen : policy.claimed = false) (hauth : e.Authorized policy.owner)
    (hexpired : policy.expiry ≤ e.timestamp) {current compensation : ℤ}
    (hcomputed : ilCompensation policy current = .ok compensation) :
    SettlesAt e w id policy current := by
  refine ⟨compensation, hcomputed, fun htransfer => ?_⟩
  have hauthorised : (e.requireAuth policy.owner : InsuranceCall Unit) = .ok () :=
    require_eq_ok.mpr hauth
  have hread : w.store.getPolicy id = .ok policy := orRaise_eq_ok.mpr hstored
  unfold claimIlCompensation
  rw [hauthorised, ok_bind, hread, ok_bind, require, if_pos hopen, ok_bind, require, if_pos rfl,
    ok_bind, require, if_pos hexpired, ok_bind, hcomputed, ok_bind]
  unfold due at htransfer ⊢
  by_cases hnone : compensation ≤ 0
  · rw [if_pos hnone, if_pos hnone]
    exact ⟨_, rfl⟩
  · rw [if_neg hnone] at htransfer ⊢
    obtain ⟨w', hpaid⟩ := payClaim_returns hw hstored hopen (min_le_right _ _) htransfer
    dsimp only
    rw [hpaid, ok_bind, if_neg hnone]
    exact ⟨_, rfl⟩

/-- An open policy can be settled exactly when it is in range. -/
theorem settles_iff_inRange (hw : Insured w) (hstored : w.store.policies.get id = some policy)
    (hopen : policy.claimed = false) :
    Settles w id policy ↔ InRange policy.startPriceRatio policy.coverageAmount := by
  rw [← computes_iff (hw.filed id policy hstored).2]
  constructor
  · intro hsettles current hcurrent hle
    obtain ⟨compensation, hcomputed, -⟩ := hsettles ⟨0, [policy.owner], policy.expiry⟩ current
      (.inr List.mem_cons_self) le_rfl hcurrent hle
    exact ⟨compensation, hcomputed⟩
  · intro hcomputes e current hauth hexpired hcurrent hle
    obtain ⟨compensation, hcomputed⟩ := hcomputes current hcurrent hle
    exact settlesAt_of_computed hw hstored hopen hauth hexpired hcomputed

end claim

/-! ### Runs -/

/-- A call of the contract, `initialize` included. -/
def insuranceCall : InsuranceWorld → InsuranceSetup ⊕ InsuranceEvent →
    InsuranceCall InsuranceWorld :=
  either initializeCall insuranceStep

/-- The contract is not initialised over an open policy. -/
def SetsUpIdle (w : InsuranceWorld) : InsuranceSetup ⊕ InsuranceEvent → Prop
  | .inl _ => ∀ id policy, w.store.policies.get id = some policy → policy.claimed = true
  | .inr _ => True

/-- The call is not a claim that settles the policy `settled`. -/
def LeavesOpen (settled : ℕ) (w : InsuranceWorld) : InsuranceSetup ⊕ InsuranceEvent → Prop
  | .inr (.call e (.claimIlCompensation claimant policyId current)) =>
      policyId = settled → ∀ r, claimIlCompensation e w claimant policyId current ≠ .ok r
  | _ => True

section runs
variable {w w' : InsuranceWorld}

theorem insuranceCall_insured {c : InsuranceSetup ⊕ InsuranceEvent} (hw : Insured w)
    (hc : SetsUpIdle w c) (h : insuranceCall w c = .ok w') : Insured w' := by
  cases c with
  | inl setup =>
      obtain rfl := pure_eq_ok.mp h
      have hnone : ∀ id policy, w.store.policies.get id = some policy → openCoverage policy = 0 :=
        fun id policy hstored => if_pos (hc id policy hstored)
      have hempty : Fits 128 0 := by decide
      refine ⟨⟨rfl, le_rfl⟩, hempty, le_rfl, hempty,
        (SortedMap.total_eq_zero openCoverage _ hnone).le, hw.filed,
        fun id policy hstored hopen => ?_⟩
      rw [hc id policy hstored] at hopen
      cases hopen
  | inr event => exact insured_step hw h

/-- An open policy stays as it is until a claim settles it. -/
theorem insuranceCall_open {c : InsuranceSetup ⊕ InsuranceEvent} {id : ℕ}
    {policy : InsurancePolicy} (hw : Insured w) (hstored : w.store.policies.get id = some policy)
    (hopen : policy.claimed = false) (hidle : SetsUpIdle w c) (hc : LeavesOpen id w c)
    (h : insuranceCall w c = .ok w') : w'.store.policies.get id = some policy := by
  cases c with
  | inl setup =>
      rw [hidle id policy hstored] at hopen
      cases hopen
  | inr event =>
      cases event with
      | tokens ledger =>
          obtain rfl := pure_eq_ok.mp h
          exact hstored
      | call e action =>
          cases exec_effect h with
          | kept hmanages hledger hpolicies hnext hreserve => rwa [hpolicies]
          | purchased hreturned hquote hfacts =>
              have hbelow := hw.below id policy hstored hopen
              have hid := hfacts.id
              rw [hfacts.sold, SortedMap.get_set_ne _ _ (by omega)]
              exact hstored
          | settled hreturned hfacts =>
              have hother : _ ≠ id := fun hsame => hc hsame _ hreturned
              have hown := (hw.filed _ _ hfacts.stored).1
              rw [hfacts.settled, SortedMap.get_set_ne _ _ (by omega)]
              exact hstored

theorem insuranceCall_insured_open {id : ℕ} {policy : InsurancePolicy}
    (hopen : policy.claimed = false) (calls : List (InsuranceSetup ⊕ InsuranceEvent))
    (hw : Insured w) (hstored : w.store.policies.get id = some policy)
    (hcalls : Along insuranceCall (fun v c => SetsUpIdle v c ∧ LeavesOpen id v c) w calls) :
    Insured (run insuranceCall w calls) ∧
      (run insuranceCall w calls).store.policies.get id = some policy := by
  have hstep : ∀ v c v', (Insured v ∧ v.store.policies.get id = some policy) →
      (SetsUpIdle v c ∧ LeavesOpen id v c) → insuranceCall v c = .ok v' →
      Insured v' ∧ v'.store.policies.get id = some policy := by
    rintro v c v' ⟨hv, hkept⟩ ⟨hidle, hleaves⟩ h
    exact ⟨insuranceCall_insured hv hidle h, insuranceCall_open hv hkept hopen hidle hleaves h⟩
  exact run_invariant_along hstep calls w ⟨hw, hstored⟩ hcalls

end runs

theorem insured_initial (admin reserveToken : Address) (ledger : Ledger) :
    Insured ⟨initialInsurance admin reserveToken, ledger⟩ where
  balanced := ⟨rfl, le_rfl⟩
  collected := show Fits 128 0 by decide
  paid := le_rfl
  active := show Fits 128 0 by decide
  counted := le_rfl
  filed := nofun
  below := nofun

/-- A policy sold in any state can be settled in every later state, up to the claim that settles
it, exactly when the start price and the coverage it was sold on are in range. -/
theorem policy_settles_iff (admin reserveToken : Address) (ledger : Ledger)
    {before after : List (InsuranceSetup ⊕ InsuranceEvent)} {e : Env} {buyer : Address}
    {coverageAmount : ℤ} {coveragePeriod : ℕ} {ratio : ℤ} {volatility correlation : ℕ}
    {autoRenew : Bool} {token : Address} {id : ℕ} {w : InsuranceWorld}
    (hbefore : Along insuranceCall SetsUpIdle ⟨initialInsurance admin reserveToken, ledger⟩ before)
    (hsold : purchaseInsurance e
      (run insuranceCall ⟨initialInsurance admin reserveToken, ledger⟩ before) buyer coverageAmount
      coveragePeriod ratio volatility correlation autoRenew token = .ok (id, w))
    (hafter : Along insuranceCall (fun v c => SetsUpIdle v c ∧ LeavesOpen id v c) w after) :
    ∃ policy, w.store.policies.get id = some policy ∧ policy.owner = buyer ∧
      policy.expiry = e.timestamp + coveragePeriod ∧
      (Settles (run insuranceCall w after) id policy ↔ InRange ratio coverageAmount) := by
  have hstart : Insured (run insuranceCall ⟨initialInsurance admin reserveToken, ledger⟩ before) :=
    run_invariant_along (fun _ _ _ hv hidle h => insuranceCall_insured hv hidle h) before _
      (insured_initial admin reserveToken ledger) hbefore
  have hcall : insuranceStep
      (run insuranceCall ⟨initialInsurance admin reserveToken, ledger⟩ before)
      (.call e (.purchaseInsurance buyer coverageAmount coveragePeriod ratio volatility correlation
        autoRenew token)) = .ok w := map_eq_ok.mpr ⟨(id, w), hsold, rfl⟩
  obtain ⟨quote, -, hfacts⟩ := purchase_facts hsold
  have hstored : w.store.policies.get id = some (soldPolicy e id buyer coverageAmount
      quote.premiumAmount coveragePeriod ratio autoRenew token) := by
    rw [hfacts.sold]
    exact SortedMap.get_set_self _ _ _
  obtain ⟨hinsured, hkept⟩ :=
    insuranceCall_insured_open rfl after (insured_step hstart hcall) hstored hafter
  exact ⟨_, hstored, rfl, rfl, settles_iff_inRange hinsured hkept rfl⟩

/-- Holder 5 insures 10000 for a week at the start price `ratio`. -/
def weekAt (ratio : ℤ) : InsuranceCall (ℕ × InsuranceWorld) :=
  purchaseInsurance ⟨9, [5], 0⟩ insuredWorld 5 10000 coverage7d ratio 0 0 false 2

/-- A policy sold at price 1 can be settled, also after the tokens have moved. -/
theorem policy_settles_iff_weekAt : ∃ id w policy, weekAt 1000000 = .ok (id, w) ∧
    w.store.policies.get id = some policy ∧
    Settles (run insuranceCall w [.inr (.tokens fun _ _ => 20000)]) id policy := by
  obtain ⟨⟨id, w⟩, hsold⟩ := returns_of_isOk (show (weekAt 1000000).isOk by decide)
  have hbefore : Along insuranceCall SetsUpIdle insuredWorld [] := trivial
  have hafter : Along insuranceCall (fun v c => SetsUpIdle v c ∧ LeavesOpen id v c) w
      [.inr (.tokens fun _ _ => 20000)] := ⟨⟨trivial, trivial⟩, trivial⟩
  obtain ⟨policy, hstored, -, -, hiff⟩ :=
    policy_settles_iff 7 2 (fun _ _ => 1000) hbefore hsold hafter
  exact ⟨id, w, policy, hsold, hstored, hiff.mpr ⟨by decide, by decide, by decide⟩⟩

/-- Initialised again over the open policy of holder 5, the contract sells its number to
holder 6. -/
example : Prod.fst <$> claimIlCompensation ⟨9, [5], coverage7d⟩ (run insuranceCall insuredWorld [
    .inr (.call ⟨9, [5], 0⟩ (.purchaseInsurance 5 10000 coverage7d 1000000 0 0 false 2)),
    .inl ⟨7, 2⟩,
    .inr (.call ⟨9, [6], 0⟩ (.purchaseInsurance 6 10000 coverage7d 1000000 0 0 false 2))]) 5 0
      1000000 = .error (.raised (.contract .notPolicyOwner)) := by
  decide +kernel

/-- A policy is sold at price 0, and the claim of its owner is refused for that price. -/
theorem sold_without_settlement : (weekAt 0).isOk ∧ (do
    let (id, w) ← weekAt 0
    Prod.fst <$> claimIlCompensation ⟨9, [5], coverage7d⟩ w 5 id 1000000) =
      .error (.raised (.contract .invalidStartPriceRatio)) := by
  decide +kernel

end YieldEngine.Insurance
