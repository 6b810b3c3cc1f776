import YieldEngine.InsuranceEstimate
import YieldEngine.InsuranceWrites

/-! # Active coverage

`active_coverage` is what prices a premium: the reserve ratio is the reserve over it.  A
purchase adds the coverage of its policy.  A claim retires the policy, but takes its coverage
off only where it pays something; a claim without compensation, and one against an empty
reserve, leave it counted.

`active_coverage_iff` decides over runs when the cell is the sum of the open coverages
(`Exact`): exactly while every claim that settles a policy pays. -/

namespace YieldEngine.Insurance

open CheckedArith IntegerRoot InsuranceClient Transact

/-- What a policy contributes to the exposure. -/
def openCoverage (policy : InsurancePolicy) : ℤ :=
  if policy.claimed = true then 0 else policy.coverageAmount

/-- The active coverage is the sum over the open policies. -/
def Exact (s : InsuranceStore) : Prop :=
  s.getReservePoolInternal.activeCoverage = SortedMap.total openCoverage s.policies

instance (s : InsuranceStore) : Decidable (Exact s) := inferInstanceAs (Decidable (_ = _))

/-- The loss at a price ratio, both at scale `1000000`. -/
def lossScaled (ratio : ℤ) : ℤ :=
  1000000 - 2 * (Nat.sqrt ratio.toNat : ℤ) * 1000000 / (1000 + ratio / 1000)

/-- The loss at the current price makes at least one unit of the coverage. -/
def Compensates (policy : InsurancePolicy) (current : ℤ) : Prop :=
  1000000 ≤ policy.coverageAmount * lossScaled (priceRatio policy.startPriceRatio current)

/-- If the event is a claim, there is something to pay and something to pay it with. -/
def PaysOut (w : InsuranceWorld) : InsuranceEvent → Prop
  | .call _ (.claimIlCompensation _ policyId current) =>
      ∀ policy, w.store.policies.get policyId = some policy → Compensates policy current ∧
        0 < w.store.getReservePoolInternal.currentReserve
  | _ => True

/-! ### The compensation of a claim -/

/-- The loss as the contract computes it. -/
theorem lossScaled_of_root {ratio root : ℤ} (hratio : 0 ≤ ratio) (hroot : IsRoot ratio root) :
    lossScaled ratio = 1000000 - (2 * root * 1000000).tdiv (1000 + ratio.tdiv 1000) := by
  have hnumerator : 0 ≤ 2 * root * 1000000 := by linarith [hroot.nonneg]
  rw [lossScaled, ← hroot.eq_sqrt, Int.tdiv_eq_ediv_of_nonneg hratio,
    Int.tdiv_eq_ediv_of_nonneg hnumerator]

theorem compensationAt_pos_iff {coverage ratio root : ℤ} (hcoverage : 0 < coverage)
    (hratio : 0 ≤ ratio) (hroot : IsRoot ratio root) :
    0 < compensationAt coverage ratio root ↔ 1000000 ≤ coverage * lossScaled ratio := by
  rw [lossScaled_of_root hratio hroot]
  simp only [compensationAt]
  split_ifs with hnone
  · have hle := mul_nonpos_of_nonneg_of_nonpos hcoverage.le
      (show 1000000 - (2 * root * 1000000).tdiv (1000 + ratio.tdiv 1000) ≤ 0 by omega)
    exact iff_of_false (lt_irrefl 0) (by omega)
  · have hsum := mul_nonneg hcoverage.le
      (show 0 ≤ 1000000 - (2 * root * 1000000).tdiv (1000 + ratio.tdiv 1000) by omega)
    rw [← Int.add_one_le_iff, zero_add, Rounding.le_tdiv_iff hsum (by norm_num), one_mul]

theorem SettlementFacts.compensation_pos_iff {e : Env} {w w' : InsuranceWorld}
    {claimant : Address} {policyId : ℕ} {current payout compensation : ℤ}
    {policy : InsurancePolicy}
    (h : SettlementFacts e w w' claimant policyId current payout policy compensation)
    (hcovers : 0 < policy.coverageAmount) : 0 < compensation ↔ Compensates policy current := by
  obtain ⟨hstart, root, hroot, rfl⟩ := ilCompensation_value h.computed
  exact compensationAt_pos_iff hcovers (priceRatio_nonneg hstart current) hroot

/-- A settled claim pays when there is something to pay and something to pay it with. -/
theorem SettlementFacts.payout_pos_iff {e : Env} {w w' : InsuranceWorld} {claimant : Address}
    {policyId : ℕ} {current payout compensation : ℤ} {policy : InsurancePolicy}
    (h : SettlementFacts e w w' claimant policyId current payout policy compensation)
    (hcovers : 0 < policy.coverageAmount) :
    0 < payout ↔ PaysOut w (.call e (.claimIlCompensation claimant policyId current)) := by
  have honly : PaysOut w (.call e (.claimIlCompensation claimant policyId current)) ↔
      Compensates policy current ∧ 0 < w.store.getReservePoolInternal.currentReserve := by
    constructor
    · exact fun hpays => hpays policy h.stored
    · intro hpays policy' hstored
      obtain rfl : policy = policy' := Option.some.inj (h.stored.symm.trans hstored)
      exact hpays
  rw [honly, ← h.compensation_pos_iff hcovers, h.capped]
  split_ifs with hnone
  · exact iff_of_false (lt_irrefl 0) fun hpays => absurd hpays.1 (not_lt.mpr hnone)
  · rw [lt_min_iff]

/-! ### One call -/

theorem PurchaseFacts.entry_free {e : Env} {w w' : InsuranceWorld} {policy : InsurancePolicy}
    (h : PurchaseFacts e w w' policy) (hw : WellFiled w.store) (old : InsurancePolicy)
    (hold : w.store.policies.get policy.policyId = some old) : old.claimed = true := by
  rw [h.id, hw.next_free] at hold
  cases hold

/-- The policy sold is counted, if its entry holds no open policy. -/
theorem PurchaseFacts.total {e : Env} {w w' : InsuranceWorld} {policy : InsurancePolicy}
    (h : PurchaseFacts e w w' policy)
    (hfree : ∀ old, w.store.policies.get policy.policyId = some old → old.claimed = true) :
    SortedMap.total openCoverage w'.store.policies =
      SortedMap.total openCoverage w.store.policies + policy.coverageAmount := by
  have hold : ((w.store.policies.get policy.policyId).map openCoverage).getD 0 = 0 := by
    cases hget : w.store.policies.get policy.policyId with
    | none => rfl
    | some old => exact if_pos (hfree old hget)
  rw [h.sold, SortedMap.total_set, hold, openCoverage, h.isOpen]
  simp

/-- The policy settled is counted no more. -/
theorem SettlementFacts.total {e : Env} {w w' : InsuranceWorld} {claimant : Address}
    {policyId : ℕ} {current payout compensation : ℤ} {policy : InsurancePolicy}
    (h : SettlementFacts e w w' claimant policyId current payout policy compensation)
    (hown : policy.policyId = policyId) :
    SortedMap.total openCoverage w'.store.policies =
      SortedMap.total openCoverage w.store.policies - policy.coverageAmount := by
  rw [h.settled, SortedMap.total_set, hown, h.stored, Option.map_some, Option.getD_some,
    openCoverage, h.isOpen]
  simp [openCoverage]

/-- A returning call keeps the active coverage exact when, as a claim, it pays. -/
theorem insuranceStep_exact_iff {w w' : InsuranceWorld} {event : InsuranceEvent} (hw : Kept w)
    (hexact : Exact w.store) (h : insuranceStep w event = .ok w') :
    Exact w'.store ↔ PaysOut w event := by
  unfold Exact at hexact ⊢
  cases event with
  | tokens ledger =>
      obtain rfl := pure_eq_ok.mp h
      exact iff_of_true hexact trivial
  | call e action =>
      cases exec_effect h with
      | kept hmanages hledger hpolicies hnext hreserve =>
          rw [getReservePoolInternal_congr hreserve, hpolicies]
          apply iff_of_true hexact
          cases action with
          | upgrade admin => trivial
          | migrate admin => trivial
          | _ => exact hmanages.elim
      | purchased hreturned hquote hfacts =>
          apply iff_of_true _ trivial
          rw [getReservePoolInternal_eq hfacts.reserve, hfacts.total (hfacts.entry_free hw.filed),
            ← hexact]
      | settled hreturned hfacts =>
          obtain ⟨hown, -, hcovers⟩ := hw.filed.filed _ _ hfacts.stored
          rw [← hfacts.payout_pos_iff hcovers, hfacts.total hown, ← hexact]
          cases hfacts.payment with
          | nothing hpayout hledger hreserve =>
              rw [getReservePoolInternal_congr hreserve]
              apply iff_of_false
              · omega
              · exact not_lt.mpr hpayout
          | paid hpayout hledger hreserve =>
              rw [getReservePoolInternal_eq hreserve]
              exact iff_of_true rfl hpayout

/-! ### Runs -/

/-- Over every run after one `initialize`, the active coverage is exact in every state if and
only if every claim of the run that returns pays something. -/
theorem active_coverage_iff (admin reserveToken : Address) (ledger : Ledger)
    (events : List InsuranceEvent) :
    (∀ before, before <+: events →
      Exact (run insuranceStep ⟨initialInsurance admin reserveToken, ledger⟩ before).store) ↔
    Along insuranceStep (fun w event => ∀ w', insuranceStep w event = .ok w' → PaysOut w event)
      ⟨initialInsurance admin reserveToken, ledger⟩ events := by
  have hstep : ∀ w event w', Kept w ∧ Exact w.store → insuranceStep w event = .ok w' →
      ((Kept w' ∧ Exact w'.store) ↔ PaysOut w event) := by
    intro w event w' hw h
    rw [← insuranceStep_exact_iff hw.1 hw.2 h]
    exact and_iff_right (kept_step hw.1 h)
  have hkept := kept_run admin reserveToken ledger
  refine Iff.trans ?_ (run_invariant_iff hstep events
    ⟨initialInsurance admin reserveToken, ledger⟩ ⟨hkept [], rfl⟩)
  exact ⟨fun h before hbefore => ⟨hkept before, h before hbefore⟩,
    fun h before hbefore => (h before hbefore).2⟩

/-- A contract of admin 7 and reserve token 2; everybody holds 1000 of every token. -/
def insuredWorld : InsuranceWorld := ⟨initialInsurance 7 2, fun _ _ => 1000⟩

/-- Holder 5 insures 10000 for a week at price 1, and claims after it at the same price. -/
def claimWithoutLoss : List InsuranceEvent :=
  [.call ⟨9, [5], 0⟩ (.purchaseInsurance 5 10000 coverage7d 1000000 0 0 false 2),
    .call ⟨9, [5], coverage7d⟩ (.claimIlCompensation 5 0 1000000)]

/-- A settled policy without a loss stays in the active coverage. -/
theorem settled_policy_counted :
    ¬ Exact (run insuranceStep insuredWorld claimWithoutLoss).store := by
  decide +kernel

end YieldEngine.Insurance
