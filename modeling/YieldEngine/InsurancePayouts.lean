import YieldEngine.InsuranceEstimate
import YieldEngine.InsuranceWrites

/-! # Payouts within the terms of a policy

`payoutLog` is the history of a run: the payouts it made, each with the policy it was for.
`saleLog` lists the ids of the policies sold.

One payout keeps to the terms of a stored policy that is still open, and settles it
(`settlement_within`).  Over runs, a settled policy stays settled, so no policy is paid for
twice; an id given out is below the next one, so none is given out twice; and what is stored
under an id changes in its `claimed` mark only (`terms_kept`).  `payouts_spec` collects these
for every run after one `initialize`. -/

namespace YieldEngine.Insurance

open CheckedArith InsuranceClient Transact

/-! ### Histories -/

structure Payout where
  policyId : ℕ
  amount : ℤ

/-- The payout of a returning claim, where it is not zero. -/
def payoutRecord (w : InsuranceWorld) : InsuranceEvent → List Payout
  | .call e (.claimIlCompensation claimant policyId current) =>
      match claimIlCompensation e w claimant policyId current with
      | .ok (payout, _) => if payout = 0 then [] else [⟨policyId, payout⟩]
      | .error _ => []
  | _ => []

def payoutLog : InsuranceWorld → List InsuranceEvent → List Payout :=
  ghostLog insuranceStep payoutRecord

/-- The id a returning purchase gives out. -/
def saleRecord (w : InsuranceWorld) : InsuranceEvent → List ℕ
  | .call e (.purchaseInsurance buyer coverageAmount coveragePeriod ratio volatility correlation
      autoRenew token) =>
      match purchaseInsurance e w buyer coverageAmount coveragePeriod ratio volatility correlation
        autoRenew token with
      | .ok (id, _) => [id]
      | .error _ => []
  | _ => []

def saleLog : InsuranceWorld → List InsuranceEvent → List ℕ := ghostLog insuranceStep saleRecord

/-- A policy without its `claimed` mark. -/
def InsurancePolicy.terms (policy : InsurancePolicy) : InsurancePolicy :=
  { policy with claimed := false }

/-- The policy stored under `id` has these terms. -/
def HasTerms (s : InsuranceStore) (id : ℕ) (terms : InsurancePolicy) : Prop :=
  ∃ policy, s.policies.get id = some policy ∧ policy.terms = terms

/-- The payout goes to the owner of an open policy, who authorised the call, after its expiry
and within its coverage. -/
structure WithinTerms (e : Env) (w w' : InsuranceWorld) (claimant : Address) (policyId : ℕ)
    (payout : ℤ) (policy : InsurancePolicy) : Prop where
  stored : w.store.policies.get policyId = some policy
  isOpen : policy.claimed = false
  owned : policy.owner = claimant
  authorized : e.Authorized claimant
  expired : policy.expiry ≤ e.timestamp
  positive : 0 < payout
  covered : payout ≤ policy.coverageAmount
  paid : (Ledger.transfer e w.ledger policy.coverageToken e.contract policy.owner payout :
    InsuranceCall Ledger) = .ok w'.ledger

/-! ### One call -/

section step
variable {e : Env} {w w' : InsuranceWorld} {claimant : Address} {policyId : ℕ}
  {current payout compensation : ℤ} {policy : InsurancePolicy}

theorem SettlementFacts.payout_nonneg (hw : Kept w)
    (h : SettlementFacts e w w' claimant policyId current payout policy compensation) :
    0 ≤ payout := by
  have hreserve := hw.balanced.nonneg
  rw [h.capped]
  split_ifs with hnone
  · exact le_rfl
  · exact le_min (by omega) hreserve

theorem settlement_within (hw : Kept w)
    (h : SettlementFacts e w w' claimant policyId current payout policy compensation)
    (hpayout : payout ≠ 0) : WithinTerms e w w' claimant policyId payout policy := by
  have hnonneg := h.payout_nonneg hw
  have hpositive : 0 < payout := by omega
  have hcovers := (hw.filed.filed _ _ h.stored).covers
  obtain ⟨hstart, root, hroot, hvalue⟩ := ilCompensation_value h.computed
  have hcompensation : compensation ≤ policy.coverageAmount := by
    rw [hvalue]
    exact compensationAt_le hcovers.le (priceRatio_nonneg hstart current) hroot.nonneg
  refine ⟨h.stored, h.isOpen, h.owned, h.authorized, h.expired, hpositive,
    (h.payout_le hpositive).1.trans hcompensation, ?_⟩
  cases h.payment with
  | nothing hnone hledger hreserve => exact absurd hpositive (not_lt.mpr hnone)
  | paid hpaid hledger hreserve => exact hledger

/-- What is paid in total grows by the payout. -/
theorem SettlementFacts.total_paid (hw : Kept w)
    (h : SettlementFacts e w w' claimant policyId current payout policy compensation) :
    w'.store.getReservePoolInternal.totalClaimsPaid =
      w.store.getReservePoolInternal.totalClaimsPaid + payout := by
  cases h.payment with
  | nothing hnone hledger hreserve =>
      have hnonneg := h.payout_nonneg hw
      rw [getReservePoolInternal_congr hreserve]
      omega
  | paid hpaid hledger hreserve =>
      rw [getReservePoolInternal_eq hreserve]
      rfl

/-- A sale leaves the policies sold before alone, as its id is new. -/
theorem PurchaseFacts.get_of_stored (hw : Kept w) {sold : InsurancePolicy}
    (h : PurchaseFacts e w w' sold) {id : ℕ} (hstored : w.store.policies.get id = some policy) :
    w'.store.policies.get id = some policy := by
  have hbelow := (hw.filed.filed _ _ hstored).below
  have hid := h.id
  rw [h.sold, SortedMap.get_set_ne _ _ (by omega)]
  exact hstored

/-- A settlement marks its policy, and leaves the others alone. -/
theorem SettlementFacts.get_eq (hw : Kept w)
    (h : SettlementFacts e w w' claimant policyId current payout policy compensation) (id : ℕ) :
    w'.store.policies.get id =
      if id = policyId then some { policy with claimed := true } else w.store.policies.get id := by
  have hown := (hw.filed.filed _ _ h.stored).own
  rw [h.settled, hown, SortedMap.get_set]

end step

/-- A returning call keeps the terms stored under an id. -/
theorem terms_step {w w' : InsuranceWorld} {event : InsuranceEvent} {id : ℕ}
    {terms : InsurancePolicy} (hw : Kept w) (hterms : HasTerms w.store id terms)
    (h : insuranceStep w event = .ok w') : HasTerms w'.store id terms := by
  obtain ⟨policy, hstored, hpolicy⟩ := hterms
  cases event with
  | tokens ledger =>
      obtain rfl := pure_eq_ok.mp h
      exact ⟨policy, hstored, hpolicy⟩
  | call e action =>
      cases exec_effect h with
      | kept hmanages hledger hpolicies hnext hreserve =>
          exact ⟨policy, hpolicies ▸ hstored, hpolicy⟩
      | purchased hreturned hquote hfacts =>
          exact ⟨policy, hfacts.get_of_stored hw hstored, hpolicy⟩
      | @settled _ policyId _ _ _ settled _ hreturned hfacts =>
          rw [HasTerms, hfacts.get_eq hw]
          split_ifs with hsame
          · subst hsame
            obtain rfl : policy = settled := Option.some.inj (hstored.symm.trans hfacts.stored)
            exact ⟨_, rfl, hpolicy⟩
          · exact ⟨policy, hstored, hpolicy⟩

/-! ### Runs -/

/-- Over a run, what is stored under an id changes in its `claimed` mark only. -/
theorem terms_kept {w : InsuranceWorld} (hw : Kept w) {id : ℕ} {terms : InsurancePolicy}
    (hterms : HasTerms w.store id terms) (events : List InsuranceEvent) :
    HasTerms (run insuranceStep w events).store id terms := by
  have hstep : ∀ v event v', Kept v ∧ HasTerms v.store id terms →
      insuranceStep v event = .ok v' → Kept v' ∧ HasTerms v'.store id terms :=
    fun v event v' hv h => ⟨kept_step hv.1 h, terms_step hv.1 hv.2 h⟩
  exact (run_invariant hstep events ⟨hw, hterms⟩).2

/-- The ids in the log are below the next one, and none occurs twice. -/
structure Numbered (log : List ℕ) (w : InsuranceWorld) : Prop where
  kept : Kept w
  nodup : log.Nodup
  below : ∀ id ∈ log, id < w.store.nextPolicyId.getD 0

theorem numbered_step {log : List ℕ} {w w' : InsuranceWorld} {event : InsuranceEvent}
    (hw : Numbered log w) (h : insuranceStep w event = .ok w') :
    Numbered (log ++ saleRecord w event) w' := by
  obtain ⟨hkept, hnodup, hbelow⟩ := hw
  have hkept' := kept_step hkept h
  -- whatever is not a purchase sells nothing and keeps the next id
  have hsilent : saleRecord w event = [] → w'.store.nextPolicyId = w.store.nextPolicyId →
      Numbered (log ++ saleRecord w event) w' := by
    intro hnone hnext
    rw [hnone, List.append_nil]
    exact ⟨hkept', hnodup, hnext ▸ hbelow⟩
  cases event with
  | tokens ledger =>
      obtain rfl := pure_eq_ok.mp h
      exact hsilent rfl rfl
  | call e action =>
      cases exec_effect h with
      | kept hmanages hledger hpolicies hnext hreserve =>
          apply hsilent _ hnext
          cases action with
          | upgrade admin => rfl
          | migrate admin => rfl
          | _ => exact hmanages.elim
      | @purchased _ _ _ _ _ _ _ _ id _ _ hreturned hquote hfacts =>
          have hid : id = w.store.nextPolicyId.getD 0 := hfacts.id
          simp only [saleRecord, hreturned]
          refine ⟨hkept', ?_, ?_⟩
          · rw [List.nodup_append_comm]
            refine List.nodup_cons.mpr ⟨fun hsold => ?_, hnodup⟩
            have := hbelow id hsold
            omega
          · intro sold hsold
            have hnext : w'.store.nextPolicyId = some (id + 1) := hfacts.next
            rw [hnext, Option.getD_some]
            rcases List.mem_append.mp hsold with hold | hnew
            · have := hbelow sold hold
              omega
            · rw [List.mem_singleton.mp hnew]
              omega
      | settled hreturned hfacts => exact hsilent rfl hfacts.next

/-- The policies in the log are settled, none twice, and what was paid is their sum. -/
structure PaidOnce (log : List Payout) (w : InsuranceWorld) : Prop where
  kept : Kept w
  nodup : (log.map Payout.policyId).Nodup
  settled : ∀ payout ∈ log, ∃ policy,
    w.store.policies.get payout.policyId = some policy ∧ policy.claimed = true
  total : w.store.getReservePoolInternal.totalClaimsPaid = (log.map Payout.amount).sum

/-- A policy that is still open is not in the log. -/
theorem PaidOnce.not_paid {log : List Payout} {w : InsuranceWorld} {policyId : ℕ}
    {policy : InsurancePolicy} (hw : PaidOnce log w)
    (hstored : w.store.policies.get policyId = some policy) (hopen : policy.claimed = false) :
    ∀ paid ∈ log, paid.policyId ≠ policyId := by
  intro paid hmem hsame
  obtain ⟨settled, hget, hclaimed⟩ := hw.settled paid hmem
  rw [hsame, hstored] at hget
  rw [← Option.some.inj hget, hopen] at hclaimed
  cases hclaimed

/-- A settlement adds its payout, where it is not zero. -/
theorem PaidOnce.settle {log : List Payout} {e : Env} {w w' : InsuranceWorld} {claimant : Address}
    {policyId : ℕ} {current payout compensation : ℤ} {policy : InsurancePolicy}
    (hw : PaidOnce log w)
    (h : SettlementFacts e w w' claimant policyId current payout policy compensation)
    (hkept : Kept w') :
    PaidOnce (log ++ if payout = 0 then [] else [⟨policyId, payout⟩]) w' := by
  have hothers := hw.not_paid h.stored h.isOpen
  have hpaid := h.total_paid hw.kept
  have htotal := hw.total
  have hkeeps : ∀ paid ∈ log, ∃ settled,
      w'.store.policies.get paid.policyId = some settled ∧ settled.claimed = true := by
    intro paid hmem
    rw [h.get_eq hw.kept, if_neg (hothers paid hmem)]
    exact hw.settled paid hmem
  split_ifs with hzero
  · rw [List.append_nil]
    exact ⟨hkept, hw.nodup, hkeeps, by omega⟩
  · refine ⟨hkept, ?_, ?_, ?_⟩
    · rw [List.map_append, List.map_singleton, List.nodup_append_comm]
      refine List.nodup_cons.mpr ⟨fun hmem => ?_, hw.nodup⟩
      obtain ⟨paid, hpaid, hsame⟩ := List.mem_map.mp hmem
      exact hothers paid hpaid hsame
    · intro paid hmem
      rcases List.mem_append.mp hmem with hold | hnew
      · exact hkeeps paid hold
      · rw [List.mem_singleton.mp hnew, h.get_eq hw.kept, if_pos rfl]
        exact ⟨_, rfl, rfl⟩
    · rw [List.map_append, List.sum_append, List.map_singleton, List.sum_singleton, hpaid, htotal]

theorem paidOnce_step {log : List Payout} {w w' : InsuranceWorld} {event : InsuranceEvent}
    (hw : PaidOnce log w) (h : insuranceStep w event = .ok w') :
    PaidOnce (log ++ payoutRecord w event) w' := by
  have hkept' := kept_step hw.kept h
  cases event with
  | tokens ledger =>
      obtain rfl := pure_eq_ok.mp h
      have hrecord : payoutRecord w (.tokens ledger) = [] := rfl
      rw [hrecord, List.append_nil]
      exact ⟨hkept', hw.nodup, hw.settled, hw.total⟩
  | call e action =>
      cases exec_effect h with
      | kept hmanages hledger hpolicies hnext hreserve =>
          have hrecord : payoutRecord w (.call e action) = [] := by
            cases action with
            | claimIlCompensation _ _ _ => exact hmanages.elim
            | _ => rfl
          rw [hrecord, List.append_nil]
          exact ⟨hkept', hw.nodup, hpolicies ▸ hw.settled,
            (congrArg _ (getReservePoolInternal_congr hreserve)).trans hw.total⟩
      | purchased hreturned hquote hfacts =>
          simp only [payoutRecord, List.append_nil]
          refine ⟨hkept', hw.nodup, fun payout hpayout => ?_, ?_⟩
          · obtain ⟨policy, hstored, hclaimed⟩ := hw.settled payout hpayout
            exact ⟨policy, hfacts.get_of_stored hw.kept hstored, hclaimed⟩
          · rw [getReservePoolInternal_eq hfacts.reserve]
            exact hw.total
      | @settled claimant policyId current payout _ policy _ hreturned hfacts =>
          have hrecord : payoutRecord w (.call e (.claimIlCompensation claimant policyId current)) =
              if payout = 0 then [] else [⟨policyId, payout⟩] := by
            simp only [payoutRecord, hreturned]
          rw [hrecord]
          exact hw.settle hfacts hkept'

/-- Every payout after one `initialize` is within the terms of its policy; no policy is paid
for twice and no id given out twice; the terms stored under an id stay; and the total paid is
the sum of the payouts. -/
theorem payouts_spec (admin reserveToken : Address) (ledger : Ledger) :
    let start : InsuranceWorld := ⟨initialInsurance admin reserveToken, ledger⟩
    (∀ before e claimant policyId current payout w',
      claimIlCompensation e (run insuranceStep start before) claimant policyId current =
        .ok (payout, w') → payout ≠ 0 →
      ∃ policy, WithinTerms e (run insuranceStep start before) w' claimant policyId payout
        policy) ∧
    ∀ events, ((payoutLog start events).map Payout.policyId).Nodup ∧
      (saleLog start events).Nodup ∧
      (∀ before id policy, before <+: events →
        (run insuranceStep start before).store.policies.get id = some policy →
        HasTerms (run insuranceStep start events).store id policy.terms) ∧
      (run insuranceStep start events).store.getReservePoolInternal.totalClaimsPaid =
        ((payoutLog start events).map Payout.amount).sum := by
  intro start
  have hkept : ∀ before, Kept (run insuranceStep start before) :=
    kept_run admin reserveToken ledger
  constructor
  · intro before e claimant policyId current payout w' h hpayout
    obtain ⟨policy, compensation, hfacts⟩ := settlement_facts h
    exact ⟨policy, settlement_within (hkept before) hfacts hpayout⟩
  · intro events
    have hpaid : PaidOnce (payoutLog start events) (run insuranceStep start events) :=
      run_log_invariant (fun _ _ _ _ hw _ h => paidOnce_step hw h) events start []
        ⟨hkept [], List.nodup_nil, nofun, rfl⟩ (along_true events start)
    have hsold : Numbered (saleLog start events) (run insuranceStep start events) :=
      run_log_invariant (fun _ _ _ _ hw _ h => numbered_step hw h) events start []
        ⟨hkept [], List.nodup_nil, nofun⟩ (along_true events start)
    refine ⟨hpaid.nodup, hsold.nodup, ?_, hpaid.total⟩
    rintro before id policy ⟨after, rfl⟩ hstored
    rw [run_append]
    exact terms_kept (hkept before) ⟨policy, hstored, rfl⟩ after

end YieldEngine.Insurance
