import YieldEngine.InsuranceWrites

/-! # The backing of the reserve

`current_reserve` is one counter for the premiums of all policies, less their payouts.  A
premium is paid in the token its buyer names, and a payout in the token of its policy; the
reserve token set at `initialize` is stored and never read.  The counter always balances
(`kept_run`), but what it counts is spread over the tokens named.

`reserve_backed_iff` decides over runs when the contract's balance of the configured token
covers the counter: exactly while every purchase is paid in that token by somebody else, or
finds a surplus that its premium fits into. -/

namespace YieldEngine.Insurance

open CheckedArith Transact

/-- The contract's balance of the token covers the reserve. -/
def Backed (reserveToken insurer : Address) (w : InsuranceWorld) : Prop :=
  w.store.getReservePoolInternal.currentReserve ≤ w.ledger reserveToken insurer

instance (reserveToken insurer : Address) (w : InsuranceWorld) :
    Decidable (Backed reserveToken insurer w) := inferInstanceAs (Decidable (_ ≤ _))

/-- Every invocation runs at `insurer`, and token movements outside the contract never take
from its balance of the token. -/
def Admissible (reserveToken insurer : Address) (w : InsuranceWorld) : InsuranceEvent → Prop
  | .call e _ => e.contract = insurer
  | .tokens ledger => w.ledger reserveToken insurer ≤ ledger reserveToken insurer

/-- If the event is a purchase, it is paid in the token by somebody else, or the balance covers
the quoted premium as well. -/
def KeepsBacked (reserveToken insurer : Address) (w : InsuranceWorld) : InsuranceEvent → Prop
  | .call _ (.purchaseInsurance buyer coverageAmount coveragePeriod _ volatility correlation _
      token) =>
      (token = reserveToken ∧ buyer ≠ insurer) ∨
        ∀ quote, calculatePremium w.store coverageAmount coveragePeriod volatility correlation =
          .ok quote → w.store.getReservePoolInternal.currentReserve + quote.premiumAmount ≤
            w.ledger reserveToken insurer
  | _ => True

/-! ### One call -/

section step
variable {reserveToken insurer : Address} {w w' : InsuranceWorld}

/-- A premium paid in the token by somebody else is received in full. -/
theorem PurchaseFacts.balance_paid {e : Env} {policy : InsurancePolicy}
    (h : PurchaseFacts e w w' policy) (htoken : policy.coverageToken = reserveToken)
    (howner : policy.owner ≠ e.contract) : w'.ledger reserveToken e.contract =
      w.ledger reserveToken e.contract + policy.premiumPaid := by
  subst htoken
  exact Ledger.transfer_received h.paid (Ne.symm howner)

/-- Any other premium leaves the balance as it is. -/
theorem PurchaseFacts.balance_other {e : Env} {policy : InsurancePolicy}
    (h : PurchaseFacts e w w' policy)
    (hother : ¬ (policy.coverageToken = reserveToken ∧ policy.owner ≠ e.contract)) :
    w'.ledger reserveToken e.contract = w.ledger reserveToken e.contract := by
  by_cases htoken : policy.coverageToken = reserveToken
  · have howner : policy.owner = e.contract := by
      by_contra hpayer
      exact hother ⟨htoken, hpayer⟩
    have htransfer := h.paid
    rw [howner] at htransfer
    obtain ⟨-, -, hledger⟩ := Ledger.transfer_eq_ok.mp htransfer
    rw [← hledger, htoken, Ledger.credit_self, Ledger.credit_self]
    omega
  · exact Ledger.transfer_other h.paid (Ne.symm htoken) _

/-- A payout takes no more out of the balance than out of the reserve. -/
theorem Payment.balance {e : Env} {policy : InsurancePolicy} {payout : ℤ}
    (h : Payment e w policy payout w') (reserveToken : Address) :
    w'.store.getReservePoolInternal.currentReserve - w.store.getReservePoolInternal.currentReserve ≤
      w'.ledger reserveToken e.contract - w.ledger reserveToken e.contract := by
  cases h with
  | nothing hpayout hledger hreserve =>
      rw [getReservePoolInternal_congr hreserve, hledger]
      omega
  | paid hpayout hledger hreserve =>
      rw [getReservePoolInternal_eq hreserve]
      simp only [ReservePool.paying]
      by_cases htoken : policy.coverageToken = reserveToken
      · have hcost := Ledger.transfer_paid_le hledger
        rw [htoken] at hcost
        omega
      · have hsame := Ledger.transfer_other hledger (Ne.symm htoken) e.contract
        omega

/-- A returning call keeps the reserve backed when it meets the condition. -/
theorem insuranceStep_backed_iff {event : InsuranceEvent}
    (hbacked : Backed reserveToken insurer w) (hevent : Admissible reserveToken insurer w event)
    (h : insuranceStep w event = .ok w') :
    Backed reserveToken insurer w' ↔ KeepsBacked reserveToken insurer w event := by
  unfold Backed at hbacked ⊢
  cases event with
  | tokens ledger =>
      obtain rfl := pure_eq_ok.mp h
      exact iff_of_true (hbacked.trans hevent) trivial
  | call e action =>
      obtain rfl : e.contract = insurer := hevent
      cases exec_effect h with
      | kept hmanages hledger hpolicies hnext hreserve =>
          rw [getReservePoolInternal_congr hreserve, hledger]
          apply iff_of_true hbacked
          cases action with
          | upgrade admin => trivial
          | migrate admin => trivial
          | _ => exact hmanages.elim
      | @purchased buyer coverageAmount coveragePeriod _ volatility correlation _ token _ quote _
          hreturned hquote hfacts =>
          have hcondition : (∀ quote', calculatePremium w.store coverageAmount coveragePeriod
              volatility correlation = .ok quote' →
              w.store.getReservePoolInternal.currentReserve + quote'.premiumAmount ≤
                w.ledger reserveToken e.contract) ↔
              w.store.getReservePoolInternal.currentReserve + quote.premiumAmount ≤
                w.ledger reserveToken e.contract := by
            rw [hquote]
            exact ⟨fun hfits => hfits quote rfl, fun hfits quote' hsame =>
              Except.ok.inj hsame ▸ hfits⟩
          simp only [KeepsBacked]
          rw [hcondition, getReservePoolInternal_eq hfacts.reserve]
          by_cases hpaid : token = reserveToken ∧ buyer ≠ e.contract
          · rw [hfacts.balance_paid hpaid.1 hpaid.2]
            apply iff_of_true _ (.inl hpaid)
            simp only
            omega
          · rw [hfacts.balance_other hpaid]
            exact (or_iff_right hpaid).symm
      | settled hreturned hfacts =>
          have hpaid := hfacts.payment.balance reserveToken
          exact iff_of_true (by omega) trivial

end step

/-! ### Runs -/

/-- Over every run after one `initialize`, the reserve is what the premiums exceed the payouts
by and is not negative; and the balance of the configured token covers it in every state if and
only if every purchase of the run that returns meets the condition. -/
theorem reserve_backed_iff (admin reserveToken insurer : Address) (ledger : Ledger)
    (h0 : 0 ≤ ledger reserveToken insurer) (events : List InsuranceEvent)
    (hevents : Along insuranceStep (Admissible reserveToken insurer)
      ⟨initialInsurance admin reserveToken, ledger⟩ events) :
    (∀ before, Balanced (run insuranceStep ⟨initialInsurance admin reserveToken, ledger⟩
      before).store.getReservePoolInternal) ∧
    ((∀ before, before <+: events → Backed reserveToken insurer
        (run insuranceStep ⟨initialInsurance admin reserveToken, ledger⟩ before)) ↔
      Along insuranceStep (fun w event => ∀ w', insuranceStep w event = .ok w' →
          KeepsBacked reserveToken insurer w event)
        ⟨initialInsurance admin reserveToken, ledger⟩ events) := by
  have hstart : Backed reserveToken insurer ⟨initialInsurance admin reserveToken, ledger⟩ := h0
  have hstep : ∀ w event w', Backed reserveToken insurer w →
      Admissible reserveToken insurer w event → insuranceStep w event = .ok w' →
      (Backed reserveToken insurer w' ↔ KeepsBacked reserveToken insurer w event) :=
    fun w event w' => insuranceStep_backed_iff
  constructor
  · exact fun before => (kept_run admin reserveToken ledger before).balanced
  · exact run_invariant_iff_along hstep events _ hstart hevents

/-- A contract of admin 7 and reserve token 2; only holder 5 has any tokens. -/
def backedWorld : InsuranceWorld :=
  ⟨initialInsurance 7 2, fun _ holder => if holder = 5 then 1000 else 0⟩

/-- Holder 5 insures 10000 for a week at price 1, for a premium in `token`. -/
def premiumIn (token : Address) : InsuranceEvent :=
  .call ⟨9, [5], 0⟩ (.purchaseInsurance 5 10000 coverage7d 1000000 0 0 false token)

/-- The price has doubled after the week. -/
def doubledClaim : InsuranceEvent := .call ⟨9, [5], coverage7d⟩ (.claimIlCompensation 5 0 2000000)

theorem reserve_backed_iff_reserveToken :
    Backed 2 9 (run insuranceStep backedWorld [premiumIn 2, doubledClaim]) := by
  have hiff := (reserve_backed_iff 7 2 9 backedWorld.ledger le_rfl [premiumIn 2, doubledClaim]
    ⟨rfl, rfl, trivial⟩).2
  refine hiff.mpr ⟨fun _ _ => ?_, fun _ _ => trivial, trivial⟩ _ List.prefix_rfl
  exact .inl ⟨rfl, by decide⟩

/-- A premium in token 3 is counted, and the contract holds nothing of its reserve token. -/
theorem premium_in_other_token :
    Along insuranceStep (Admissible 2 9) backedWorld [premiumIn 3] ∧
      (run insuranceStep backedWorld [premiumIn 3]).store.getReservePoolInternal.currentReserve =
        50 ∧
      (run insuranceStep backedWorld [premiumIn 3]).ledger 2 9 = 0 := by
  refine ⟨⟨rfl, trivial⟩, by decide +kernel, by decide +kernel⟩

end YieldEngine.Insurance
