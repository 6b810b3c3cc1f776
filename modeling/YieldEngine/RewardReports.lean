import YieldEngine.RewardRuns
import YieldEngine.Tally

/-! # What a claim reports

`claim_rewards` adds the net rewards up by token in one map and returns another, which it
creates empty and never writes.  What a report should say is `ReportsPayouts`: the tally of the
net rewards by token.  The report is right exactly for the claim of no stream at all
(`claim_report_iff`).

The payouts a report is compared with are the tokens the call moves: the balance of the user
rises by the sum of the net rewards in each token (`claimRewards_received`). -/

namespace YieldEngine.Rewards

open CheckedArith SortedMap

/-- The net rewards paid, under their tokens. -/
def payoutAmounts (payouts : List ClaimPayout) : List (Address × ℤ) :=
  payouts.map fun p => (p.token, p.netReward)

/-- The reported map has exactly the tokens paid, each with the total net reward. -/
def ReportsPayouts (report : ClaimReport) : Prop :=
  Tallies report.claimedAmounts (payoutAmounts report.payouts)

section claim
variable {e : Env} {streams : List RewardStream} {treasury swapRouter user : Address}
  {convertTo : Option Address}

/-! ### The payouts are the tokens moved -/

theorem payTreasuryFee_other {l l' : Ledger} {token holder : Address} {fee : ℤ}
    (h : payTreasuryFee e l token treasury fee = .ok l') (hcontract : holder ≠ e.contract)
    (htreasury : holder ≠ treasury) (t : Address) : l' t holder = l t holder := by
  simp only [payTreasuryFee, ite_eq_ok, pure_eq_ok, Ledger.transfer_eq_ok] at h
  obtain ⟨-, -, -, rfl⟩ | ⟨-, rfl⟩ := h
  · rw [Ledger.credit_of_ne_holder _ _ _ _ htreasury, Ledger.credit_of_ne_holder _ _ _ _ hcontract]
  · rfl

/-- One round pays the net reward to the user. -/
theorem claimStream_received {w w' : RewardWorld} {i : ℕ} {payout : ClaimPayout}
    (h : claimStream e streams treasury swapRouter user convertTo w i = .ok (w', payout))
    (hcontract : user ≠ e.contract) (htreasury : user ≠ treasury) (t : Address) :
    w'.ledger t user = w.ledger t user + if payout.token = t then payout.netReward else 0 := by
  simp only [claimStream, bind_eq_ok, pure_eq_ok, require_eq_ok, exists_const, I128.mul_eq_ok,
    I128.div_eq_ok, I128.sub_eq_ok, Prod.mk.injEq] at h
  obtain ⟨stream, -, -, -, fee, -, treasuryFee, -, net, -, -, l₁, h₁, l₂, h₂, s, -, rfl, rfl⟩ := h
  show l₂ t user = _
  rw [payTreasuryFee_other h₂ hcontract htreasury]
  split_ifs with ht
  · subst ht
    exact Ledger.transfer_received h₁ hcontract
  · rw [Ledger.transfer_other h₁ (Ne.symm ht), add_zero]

theorem claimStreams_received {is : List ℕ} {w : RewardWorld} {totals : SortedMap Address ℤ}
    {r : RewardWorld × List ClaimPayout}
    (h : claimStreams e streams treasury swapRouter user convertTo is w totals = .ok r)
    (hcontract : user ≠ e.contract) (htreasury : user ≠ treasury) (t : Address) :
    r.1.ledger t user = w.ledger t user + sumAt t (payoutAmounts r.2) := by
  induction is generalizing w totals r with
  | nil =>
      obtain rfl := pure_eq_ok.mp h
      exact (add_zero _).symm
  | cons i rest ih =>
      simp only [claimStreams, bind_eq_ok, pure_eq_ok] at h
      obtain ⟨⟨w₁, payout⟩, h₁, total, -, r₂, h₂, rfl⟩ := h
      have hround := claimStream_received h₁ hcontract htreasury t
      calc r₂.1.ledger t user = w₁.ledger t user + sumAt t (payoutAmounts r₂.2) := ih h₂
        _ = w.ledger t user + sumAt t (payoutAmounts (payout :: r₂.2)) := by
          rw [hround, add_assoc]
          rfl

/-- Each stream of a returning claim is paid out, in order. -/
theorem claimStreams_indices {is : List ℕ} {w : RewardWorld} {totals : SortedMap Address ℤ}
    {r : RewardWorld × List ClaimPayout}
    (h : claimStreams e streams treasury swapRouter user convertTo is w totals = .ok r) :
    r.2.map ClaimPayout.streamIndex = is := by
  induction is generalizing w totals r with
  | nil =>
      obtain rfl := pure_eq_ok.mp h
      rfl
  | cons i rest ih =>
      simp only [claimStreams, bind_eq_ok, pure_eq_ok] at h
      obtain ⟨⟨w₁, payout⟩, h₁, total, -, r₂, h₂, rfl⟩ := h
      obtain ⟨-, hstream, -, -⟩ := claimStream_ok h₁
      rw [List.map_cons, hstream, ih h₂]

end claim

/-! ### The report -/

section report
variable {e : Env} {w w' : RewardWorld} {user vault : Address} {streamIndices : List ℕ}
  {convertTo : Option Address} {report : ClaimReport}

/-- The tokens a claim moves to its user are the net rewards of its payouts. -/
theorem claimRewards_received
    (h : claimRewards e w user vault streamIndices convertTo = .ok (w', report))
    (hcontract : user ≠ e.contract) (htreasury : w.store.treasury ≠ some user) (t : Address) :
    w'.ledger t user = w.ledger t user + sumAt t (payoutAmounts report.payouts) := by
  simp only [claimRewards, bind_eq_ok, pure_eq_ok, Prod.mk.injEq] at h
  obtain ⟨-, -, -, -, treasury, htr, swapRouter, -, r, hc, rfl, rfl⟩ := h
  have hne : user ≠ treasury := by
    rintro rfl
    exact htreasury (orRaise_eq_ok.mp htr)
  exact claimStreams_received hc hcontract hne t

/-- The report of a returning claim is right exactly when nothing was claimed. -/
theorem claim_report_iff
    (h : claimRewards e w user vault streamIndices convertTo = .ok (w', report)) :
    ReportsPayouts report ↔ streamIndices = [] := by
  simp only [claimRewards, bind_eq_ok, pure_eq_ok, Prod.mk.injEq] at h
  obtain ⟨-, -, -, -, treasury, -, swapRouter, -, r, hc, rfl, rfl⟩ := h
  have hindices := claimStreams_indices hc
  have hreport : ReportsPayouts ⟨.empty, r.2⟩ ↔ r.2 = [] :=
    tallies_empty_iff.trans List.map_eq_nil_iff
  rw [hreport, ← hindices, List.map_eq_nil_iff]

end report

/-- A distributor whose user 5 has a hundred units pending in its one stream. -/
def accruedWorld : RewardWorld :=
  Transact.run rewardStep ⟨initialRewards 7 8 6, fun _ _ => 1000⟩
    [.call ⟨9, [7], 0⟩ (.addRewardStream 7 1 1 7 0), .call ⟨9, [], 100⟩ (.updateRewards 5 4 1 7)]

/-- The claim of stream 0 returns. -/
theorem accruedWorld_claim :
    (claimRewards ⟨9, [], 100⟩ accruedWorld 5 4 [0] none).isOk = true := by decide

theorem claim_report_iff_accruedWorld :
    ∃ w' report, claimRewards ⟨9, [], 100⟩ accruedWorld 5 4 [0] none = .ok (w', report) ∧
      (ReportsPayouts report ↔ [0] = []) := by
  obtain ⟨⟨w', report⟩, h⟩ := returns_of_isOk accruedWorld_claim
  exact ⟨w', report, h, claim_report_iff h⟩

/-- A hundred units of the token 1 are paid out and none are reported. -/
theorem claim_reports_nothing :
    ∃ w' report, claimRewards ⟨9, [], 100⟩ accruedWorld 5 4 [0] none = .ok (w', report) ∧
      report.payouts = [⟨0, 1, 100, 0⟩] ∧ ¬ ReportsPayouts report := by
  refine ⟨_, _, rfl, by decide, ?_⟩
  intro h
  have hkey := h 1
  exact absurd hkey (by decide)

end YieldEngine.Rewards
