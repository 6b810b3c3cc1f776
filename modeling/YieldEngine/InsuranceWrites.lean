import YieldEngine.InsuranceRuns

/-! # What an entrypoint of the insurance writes

The returning calls of the insurance, classified (`Effect`): a purchase sells one policy and
takes its premium into the reserve, a claim settles one policy and may pay for it, and the
other calls leave the books alone.  Results about runs split on `Effect`, never on the code of
an entrypoint.

`Kept` is what every run keeps: each policy is stored under its own id, below the next one,
with a positive coverage, and the reserve is what the premiums exceed the payouts by. -/

namespace YieldEngine.Insurance

open CheckedArith

/-! ### Purchase -/

/-- What a returning purchase has checked and done. -/
structure PurchaseFacts (e : Env) (w w' : InsuranceWorld) (policy : InsurancePolicy) : Prop where
  authorized : e.Authorized policy.owner
  id : policy.policyId = w.store.nextPolicyId.getD 0
  isOpen : policy.claimed = false
  covers : 0 < policy.coverageAmount
  premium : 0 < policy.premiumPaid
  paid : (Ledger.transfer e w.ledger policy.coverageToken policy.owner e.contract
    policy.premiumPaid : InsuranceCall Ledger) = .ok w'.ledger
  next : w'.store.nextPolicyId = some (policy.policyId + 1)
  sold : w'.store.policies = w.store.policies.set policy.policyId policy
  reserve : w'.store.reservePool =
    some ⟨w.store.getReservePoolInternal.totalPremiumsCollected + policy.premiumPaid,
      w.store.getReservePoolInternal.totalClaimsPaid,
      w.store.getReservePoolInternal.currentReserve + policy.premiumPaid,
      w.store.getReservePoolInternal.activeCoverage + policy.coverageAmount,
      w.store.getReservePoolInternal.policyCount + 1⟩

/-- The policy a purchase sells, for the premium it is quoted. -/
def soldPolicy (e : Env) (id : ℕ) (buyer : Address) (coverageAmount premium : ℤ)
    (coveragePeriod : ℕ) (ratio : ℤ) (autoRenew : Bool) (token : Address) : InsurancePolicy :=
  ⟨id, buyer, coverageAmount, premium, ratio, e.timestamp, e.timestamp + coveragePeriod, token,
    false, autoRenew⟩

theorem checkedU_natCast {w n : ℕ} {x : ℤ} (h : (checkedU w (n : ℤ) : InsuranceCall ℤ) = .ok x) :
    x.toNat = n := by
  obtain ⟨-, rfl⟩ := checkedU_eq_ok.mp h
  exact Int.toNat_natCast n

theorem purchase_facts {e : Env} {w w' : InsuranceWorld} {buyer : Address} {coverageAmount : ℤ}
    {coveragePeriod : ℕ} {ratio : ℤ} {volatility correlation : ℕ} {autoRenew : Bool}
    {token : Address} {id : ℕ}
    (h : purchaseInsurance e w buyer coverageAmount coveragePeriod ratio volatility correlation
      autoRenew token = .ok (id, w')) :
    ∃ quote, calculatePremium w.store coverageAmount coveragePeriod volatility correlation =
        .ok quote ∧
      PurchaseFacts e w w' (soldPolicy e id buyer coverageAmount quote.premiumAmount
        coveragePeriod ratio autoRenew token) := by
  simp only [purchaseInsurance, bind_eq_ok, Env.requireAuth, require_eq_ok, exists_const,
    nextPolicyId, collectPremium, pure_eq_ok, Prod.mk.injEq, I128.add_eq_ok] at h
  obtain ⟨hauth, -, hcovers, quote, hquote, hpremium, ledger, hpaid, _, ⟨next, hnext, rfl⟩,
    expiry, hexpiry, _, ⟨_, ⟨-, rfl⟩, _, ⟨-, rfl⟩, _, ⟨-, rfl⟩, count, hcount, rfl⟩, rfl, rfl⟩ := h
  have hid : next.toNat = w.store.nextPolicyId.getD 0 + 1 :=
    checkedU_natCast (by exact_mod_cast hnext)
  have hend : expiry.toNat = e.timestamp + coveragePeriod :=
    checkedU_natCast (by exact_mod_cast hexpiry)
  refine ⟨quote, hquote, ⟨hauth, rfl, rfl, hcovers, hpremium, hpaid, ?_, ?_, ?_⟩⟩
  · exact congrArg some hid
  · simp only [InsuranceStore.setReservePool, InsuranceStore.savePolicy, soldPolicy, hend]
  · have hsold : count.toNat = w.store.getReservePoolInternal.policyCount + 1 :=
      checkedU_natCast (by exact_mod_cast hcount)
    simp only [InsuranceStore.setReservePool, hsold, soldPolicy]
    rfl

/-! ### Claim -/

/-- The reserve after a payout for `policy`. -/
def ReservePool.paying (reserve : ReservePool) (policy : InsurancePolicy) (payout : ℤ) :
    ReservePool :=
  { reserve with
    totalClaimsPaid := reserve.totalClaimsPaid + payout
    currentReserve := reserve.currentReserve - payout
    activeCoverage := reserve.activeCoverage - policy.coverageAmount }

/-- What a returning claim has paid: nothing, or `payout` out of the reserve. -/
inductive Payment (e : Env) (w : InsuranceWorld) (policy : InsurancePolicy) (payout : ℤ)
    (w' : InsuranceWorld) : Prop
  | nothing (hpayout : payout ≤ 0) (hledger : w'.ledger = w.ledger)
      (hreserve : w'.store.reservePool = w.store.reservePool)
  | paid (hpayout : 0 < payout)
      (hledger : (Ledger.transfer e w.ledger policy.coverageToken e.contract policy.owner payout :
        InsuranceCall Ledger) = .ok w'.ledger)
      (hreserve : w'.store.reservePool =
        some (w.store.getReservePoolInternal.paying policy payout))

/-- What a returning claim has checked, settled and paid. -/
structure SettlementFacts (e : Env) (w w' : InsuranceWorld) (claimant : Address) (policyId : ℕ)
    (current payout : ℤ) (policy : InsurancePolicy) (compensation : ℤ) : Prop
    extends ClaimFacts e w w' claimant policyId current payout policy compensation where
  next : w'.store.nextPolicyId = w.store.nextPolicyId
  payment : Payment e w policy payout w'

theorem payClaim_payment {e : Env} {w w' : InsuranceWorld} {policy : InsurancePolicy} {payout : ℤ}
    (h : payClaim e w policy.owner policy payout = .ok w') :
    w'.store.nextPolicyId = w.store.nextPolicyId ∧ Payment e w policy payout w' := by
  simp only [payClaim, ite_eq_ok, bind_eq_ok, pure_eq_ok, I128.add_eq_ok, I128.sub_eq_ok] at h
  obtain ⟨hpositive, _, hledger, _, ⟨-, rfl⟩, _, ⟨-, rfl⟩, _, ⟨-, rfl⟩, rfl⟩ | ⟨hnone, rfl⟩ := h
  · exact ⟨rfl, .paid hpositive hledger rfl⟩
  · exact ⟨rfl, .nothing (not_lt.mp hnone) rfl rfl⟩

theorem settlement_facts {e : Env} {w w' : InsuranceWorld} {claimant : Address} {policyId : ℕ}
    {current payout : ℤ}
    (h : claimIlCompensation e w claimant policyId current = .ok (payout, w')) :
    ∃ policy compensation,
      SettlementFacts e w w' claimant policyId current payout policy compensation := by
  obtain ⟨policy, compensation, hfacts⟩ := claim_facts h
  simp only [claimIlCompensation, bind_eq_ok, Env.requireAuth, require_eq_ok, exists_const,
    InsuranceStore.getPolicy, orRaise_eq_ok, ite_eq_ok, pure_eq_ok, Prod.mk.injEq] at h
  obtain ⟨-, policy', hpolicy, -, rfl, -, compensation', -, hrest⟩ := h
  obtain rfl : policy = policy' := Option.some.inj (hfacts.stored.symm.trans hpolicy)
  obtain ⟨-, rfl, rfl⟩ | ⟨-, paid, hpaid, rfl, rfl⟩ := hrest
  · exact ⟨policy, compensation, hfacts, rfl, .nothing le_rfl rfl rfl⟩
  · obtain ⟨hnext, hpayment⟩ := payClaim_payment hpaid
    refine ⟨policy, compensation, hfacts, hnext, ?_⟩
    cases hpayment with
    | nothing hpayout hledger hreserve => exact .nothing hpayout hledger hreserve
    | paid hpayout hledger hreserve => exact .paid hpayout hledger hreserve

/-! ### Calls -/

/-- The call only concerns the code of the contract. -/
def InsuranceAction.Manages : InsuranceAction → Prop
  | .upgrade _ => True
  | .migrate _ => True
  | _ => False

/-- What a returning invocation has done. -/
inductive Effect (w : InsuranceWorld) (e : Env) : InsuranceAction → InsuranceWorld → Prop
  | kept {action : InsuranceAction} {w' : InsuranceWorld} (hmanages : action.Manages)
      (hledger : w'.ledger = w.ledger)
      (hpolicies : w'.store.policies = w.store.policies)
      (hnext : w'.store.nextPolicyId = w.store.nextPolicyId)
      (hreserve : w'.store.reservePool = w.store.reservePool) : Effect w e action w'
  | purchased {buyer : Address} {coverageAmount : ℤ} {coveragePeriod : ℕ} {ratio : ℤ}
      {volatility correlation : ℕ} {autoRenew : Bool} {token : Address} {id : ℕ}
      {quote : PremiumQuote} {w' : InsuranceWorld}
      (hreturned : purchaseInsurance e w buyer coverageAmount coveragePeriod ratio volatility
        correlation autoRenew token = .ok (id, w'))
      (hquote : calculatePremium w.store coverageAmount coveragePeriod volatility correlation =
        .ok quote)
      (hfacts : PurchaseFacts e w w' (soldPolicy e id buyer coverageAmount quote.premiumAmount
        coveragePeriod ratio autoRenew token)) :
      Effect w e (.purchaseInsurance buyer coverageAmount coveragePeriod ratio volatility
        correlation autoRenew token) w'
  | settled {claimant : Address} {policyId : ℕ} {current payout compensation : ℤ}
      {policy : InsurancePolicy} {w' : InsuranceWorld}
      (hreturned : claimIlCompensation e w claimant policyId current = .ok (payout, w'))
      (hfacts : SettlementFacts e w w' claimant policyId current payout policy compensation) :
      Effect w e (.claimIlCompensation claimant policyId current) w'

theorem exec_effect {e : Env} {w w' : InsuranceWorld} {action : InsuranceAction}
    (h : exec w (e, action) = .ok w') : Effect w e action w' := by
  cases action with
  | upgrade admin =>
      obtain ⟨s, hs, rfl⟩ := map_eq_ok.mp h
      obtain ⟨_, -, hs⟩ := bind_eq_ok.mp hs
      obtain rfl := pure_eq_ok.mp hs
      exact .kept trivial rfl rfl rfl rfl
  | migrate admin =>
      obtain ⟨r, hr, rfl⟩ := map_eq_ok.mp h
      obtain ⟨_, -, hr⟩ := bind_eq_ok.mp hr
      obtain rfl := pure_eq_ok.mp hr
      exact .kept trivial rfl rfl rfl rfl
  | purchaseInsurance buyer coverageAmount coveragePeriod ratio volatility correlation autoRenew
      token =>
      obtain ⟨⟨id, w₁⟩, hreturned, rfl⟩ := map_eq_ok.mp h
      obtain ⟨quote, hquote, hfacts⟩ := purchase_facts hreturned
      exact .purchased hreturned hquote hfacts
  | claimIlCompensation claimant policyId current =>
      obtain ⟨⟨payout, w₁⟩, hreturned, rfl⟩ := map_eq_ok.mp h
      obtain ⟨policy, compensation, hfacts⟩ := settlement_facts hreturned
      exact .settled hreturned hfacts

/-! ### What every run keeps -/

/-- A policy is stored under its own id, which has been given out, and covers something. -/
structure Filed (s : InsuranceStore) (id : ℕ) (policy : InsurancePolicy) : Prop where
  own : policy.policyId = id
  below : id < s.nextPolicyId.getD 0
  covers : 0 < policy.coverageAmount

structure WellFiled (s : InsuranceStore) : Prop where
  next : ∃ next, s.nextPolicyId = some next
  filed : ∀ id policy, s.policies.get id = some policy → Filed s id policy

/-- The reserve is what the premiums exceed the payouts by. -/
structure Balanced (reserve : ReservePool) : Prop where
  books : reserve.currentReserve = reserve.totalPremiumsCollected - reserve.totalClaimsPaid
  nonneg : 0 ≤ reserve.currentReserve

structure Kept (w : InsuranceWorld) : Prop where
  filed : WellFiled w.store
  balanced : Balanced w.store.getReservePoolInternal

/-- The next id is free. -/
theorem WellFiled.next_free {s : InsuranceStore} (h : WellFiled s) :
    s.policies.get (s.nextPolicyId.getD 0) = none := by
  cases hget : s.policies.get (s.nextPolicyId.getD 0) with
  | none => rfl
  | some policy => exact absurd (h.filed _ _ hget).below (lt_irrefl _)

theorem SettlementFacts.payout_le {e : Env} {w w' : InsuranceWorld} {claimant : Address}
    {policyId : ℕ} {current payout compensation : ℤ} {policy : InsurancePolicy}
    (h : SettlementFacts e w w' claimant policyId current payout policy compensation)
    (hpayout : 0 < payout) :
    payout ≤ compensation ∧ payout ≤ w.store.getReservePoolInternal.currentReserve := by
  have hcapped := h.capped
  split_ifs at hcapped with hnone
  · exact absurd hcapped hpayout.ne'
  · rw [hcapped]
    exact ⟨min_le_left _ _, min_le_right _ _⟩

theorem kept_filed {w w' : InsuranceWorld} {e : Env} {action : InsuranceAction}
    (hw : WellFiled w.store) (h : Effect w e action w') : WellFiled w'.store := by
  obtain ⟨⟨next, hnext⟩, hfiled⟩ := hw
  cases h with
  | kept hmanages hledger hpolicies hsame hreserve =>
      refine ⟨⟨next, hsame.trans hnext⟩, fun id policy hget => ?_⟩
      rw [hpolicies] at hget
      obtain ⟨hown, hbelow, hcovers⟩ := hfiled id policy hget
      exact ⟨hown, hsame ▸ hbelow, hcovers⟩
  | purchased hreturned hquote hfacts =>
      have hnow := hfacts.id
      refine ⟨⟨_, hfacts.next⟩, fun id policy hget => ?_⟩
      rw [hfacts.sold, SortedMap.get_set] at hget
      split_ifs at hget with hsold
      · obtain rfl := Option.some.inj hget
        refine ⟨hsold.symm, ?_, hfacts.covers⟩
        rw [hfacts.next, Option.getD_some]
        omega
      · obtain ⟨hown, hbelow, hcovers⟩ := hfiled id policy hget
        refine ⟨hown, ?_, hcovers⟩
        rw [hfacts.next, Option.getD_some]
        omega
  | settled hreturned hfacts =>
      refine ⟨⟨next, hfacts.next.trans hnext⟩, fun id policy hget => ?_⟩
      rw [hfacts.settled, SortedMap.get_set] at hget
      split_ifs at hget with hsettled
      · obtain rfl := Option.some.inj hget
        obtain ⟨hown, hbelow, hcovers⟩ := hfiled _ _ hfacts.stored
        refine ⟨hsettled.symm, ?_, hcovers⟩
        rwa [hfacts.next, hsettled, hown]
      · obtain ⟨hown, hbelow, hcovers⟩ := hfiled id policy hget
        exact ⟨hown, hfacts.next ▸ hbelow, hcovers⟩

theorem getReservePoolInternal_eq {s : InsuranceStore} {reserve : ReservePool}
    (h : s.reservePool = some reserve) : s.getReservePoolInternal = reserve := by
  rw [InsuranceStore.getReservePoolInternal, h, Option.getD_some]

theorem getReservePoolInternal_congr {s s' : InsuranceStore}
    (h : s'.reservePool = s.reservePool) :
    s'.getReservePoolInternal = s.getReservePoolInternal := by
  rw [InsuranceStore.getReservePoolInternal, h, InsuranceStore.getReservePoolInternal]

theorem kept_balanced {w w' : InsuranceWorld} {e : Env} {action : InsuranceAction}
    (hw : Balanced w.store.getReservePoolInternal) (h : Effect w e action w') :
    Balanced w'.store.getReservePoolInternal := by
  have hbooks := hw.books
  have hnonneg := hw.nonneg
  cases h with
  | kept hmanages hledger hpolicies hsame hreserve => rwa [getReservePoolInternal_congr hreserve]
  | purchased hreturned hquote hfacts =>
      have hpremium := hfacts.premium
      rw [getReservePoolInternal_eq hfacts.reserve]
      constructor
      · simp only
        omega
      · simp only
        omega
  | settled hreturned hfacts =>
      cases hfacts.payment with
      | nothing hpayout hledger hreserve => rwa [getReservePoolInternal_congr hreserve]
      | paid hpayout hledger hreserve =>
          have hle := (hfacts.payout_le hpayout).2
          rw [getReservePoolInternal_eq hreserve]
          constructor
          · simp only [ReservePool.paying]
            omega
          · simp only [ReservePool.paying]
            omega

theorem kept_step {w w' : InsuranceWorld} {event : InsuranceEvent} (hw : Kept w)
    (h : insuranceStep w event = .ok w') : Kept w' := by
  cases event with
  | call e action =>
      exact ⟨kept_filed hw.filed (exec_effect h), kept_balanced hw.balanced (exec_effect h)⟩
  | tokens ledger =>
      obtain rfl := pure_eq_ok.mp h
      exact ⟨hw.filed, hw.balanced⟩

theorem kept_initial (admin reserveToken : Address) (ledger : Ledger) :
    Kept ⟨initialInsurance admin reserveToken, ledger⟩ where
  filed := ⟨⟨0, rfl⟩, nofun⟩
  balanced := ⟨rfl, le_rfl⟩

theorem kept_run (admin reserveToken : Address) (ledger : Ledger)
    (events : List InsuranceEvent) :
    Kept (Transact.run insuranceStep ⟨initialInsurance admin reserveToken, ledger⟩ events) :=
  Transact.run_invariant (fun _ _ _ hw h => kept_step hw h) events
    (kept_initial admin reserveToken ledger)

end YieldEngine.Insurance
