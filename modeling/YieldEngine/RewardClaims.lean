import YieldEngine.RewardReports

/-! # Claims of some of the streams

A returning claim pays every listed stream in full (`claimRewards_pays`).  Paying a stream out
needs nothing that another payout could have provided: its record is its own, the balance of
the contract only falls, and the totals only grow.  A claim therefore also returns for the
streams a filter keeps (`claimRewards_filter`). -/

namespace YieldEngine.Rewards

open CheckedArith SortedMap

/-- The fee on a pending amount. -/
def treasuryFeeOn (pending : ℤ) : ℤ := (pending * treasuryFeeBps).tdiv bpsDivisor

theorem treasuryFeeOn_bounds {pending : ℤ} (h : 0 < pending) :
    0 ≤ treasuryFeeOn pending ∧ treasuryFeeOn pending < pending := by
  have hfee : treasuryFeeOn pending = pending * 25 / 10000 :=
    Int.tdiv_eq_ediv_of_nonneg (by unfold treasuryFeeBps; omega)
  rw [hfee]
  omega

/-- What a transfer takes from the contract's own balance. -/
def outflow (e : Env) (payee : Address) (amount : ℤ) : ℤ :=
  if payee = e.contract then 0 else amount

theorem transfer_outflow {e : Env} {l l' : Ledger} {token payee : Address} {amount : ℤ}
    (h : (l.transfer e token e.contract payee amount : RewardCall Ledger) = .ok l')
    (t : Address) :
    l' t e.contract = l t e.contract - if t = token then outflow e payee amount else 0 := by
  obtain ⟨-, -, rfl⟩ := Ledger.transfer_eq_ok.mp h
  unfold outflow
  by_cases ht : t = token
  · subst ht
    rw [if_pos rfl]
    split_ifs with hp
    · subst hp
      rw [Ledger.credit_self, Ledger.credit_self]
      omega
    · rw [Ledger.credit_of_ne_holder _ _ _ _ (Ne.symm hp), Ledger.credit_self]
      omega
  · rw [if_neg ht, Ledger.credit_of_ne_token _ _ _ _ ht, Ledger.credit_of_ne_token _ _ _ _ ht,
      sub_zero]

/-! ### One round -/

section round
variable {e : Env} {streams : List RewardStream} {treasury swapRouter user : Address}

/-- What a round takes from the contract's balance in the stream's token. -/
def roundOutflow (e : Env) (treasury user : Address) (pending : ℤ) : ℤ :=
  outflow e user (pending - treasuryFeeOn pending) + outflow e treasury (treasuryFeeOn pending)

theorem roundOutflow_nonneg {pending : ℤ} (h : 0 < pending) :
    0 ≤ roundOutflow e treasury user pending := by
  obtain ⟨h0, hlt⟩ := treasuryFeeOn_bounds h
  unfold roundOutflow outflow
  split_ifs <;> omega

/-- The payout of a pending amount. -/
def payoutOf (i : ℕ) (stream : RewardStream) (pending : ℤ) : ClaimPayout :=
  ⟨i, stream.token, pending - treasuryFeeOn pending, treasuryFeeOn pending⟩

/-- The record of the user in stream `i`, with nothing pending any more. -/
def settled (e : Env) (s : RewardStore) (user : Address) (i : ℕ) : RewardStore :=
  s.setUserRewardDebt user i
    { s.getUserRewardDebt user i with pendingRewards := 0, lastClaimTimestamp := e.timestamp }

/-- Everything a round has checked and done. -/
structure RoundFacts (e : Env) (streams : List RewardStream) (treasury user : Address)
    (w : RewardWorld) (i : ℕ) (pending : ℤ) (stream : RewardStream) (w' : RewardWorld)
    (payout : ClaimPayout) : Prop where
  listed : streams[i]? = some stream
  inTime : stream.claimDeadline = 0 ∨ e.timestamp ≤ stream.claimDeadline
  pos : 0 < pending
  fits : Fits 128 (pending * treasuryFeeBps)
  covered : pending ≤ w.ledger stream.token e.contract
  payout : payout = payoutOf i stream pending
  store : w'.store = settled e w.store user i
  balance : ∀ t, w'.ledger t e.contract = w.ledger t e.contract -
    if t = stream.token then roundOutflow e treasury user pending else 0

theorem payTreasuryFee_outflow {l l' : Ledger} {token : Address} {fee : ℤ} (hfee : 0 ≤ fee)
    (h : payTreasuryFee e l token treasury fee = .ok l') (t : Address) :
    l' t e.contract = l t e.contract - if t = token then outflow e treasury fee else 0 := by
  simp only [payTreasuryFee, ite_eq_ok, pure_eq_ok] at h
  obtain ⟨-, hpaid⟩ | ⟨hzero, rfl⟩ := h
  · exact transfer_outflow hpaid t
  · have h0 : fee = 0 := by omega
    subst h0
    simp [outflow]

/-- What a returning round without conversion has checked and done. -/
theorem claimStream_facts {w w' : RewardWorld} {i : ℕ} {payout : ClaimPayout}
    (h : claimStream e streams treasury swapRouter user none w i = .ok (w', payout)) :
    ∃ stream, RoundFacts e streams treasury user w i
      (w.store.getUserRewardDebt user i).pendingRewards stream w' payout := by
  simp only [claimStream, bind_eq_ok, pure_eq_ok, require_eq_ok, exists_const, I128.mul_eq_ok,
    I128.div_eq_ok, I128.sub_eq_ok, Prod.mk.injEq, orRaise_eq_ok] at h
  obtain ⟨stream, hlisted, hopen, hpos, _, ⟨hfits, rfl⟩, _, ⟨-, -, rfl⟩, _, ⟨-, rfl⟩, hcovered,
    l₁, h₁, l₂, h₂, s, hs, rfl, rfl⟩ := h
  obtain rfl := convertReward_ok hs
  refine ⟨stream, hlisted, hopen, hpos, hfits, hcovered, rfl, rfl, fun t => ?_⟩
  have hfee := (treasuryFeeOn_bounds hpos).1
  show l₂ t e.contract = _
  rw [payTreasuryFee_outflow hfee h₂ t, transfer_outflow h₁ t, sub_sub]
  congr 1
  split_ifs
  · rfl
  · exact add_zero 0

namespace RoundFacts
variable {w w' : RewardWorld} {i : ℕ} {pending : ℤ} {stream : RewardStream} {payout : ClaimPayout}

theorem payout_token (h : RoundFacts e streams treasury user w i pending stream w' payout) :
    payout.token = stream.token := by
  rw [h.payout]
  rfl

theorem netReward_pos (h : RoundFacts e streams treasury user w i pending stream w' payout) :
    0 < payout.netReward := by
  rw [h.payout]
  exact sub_pos.mpr (treasuryFeeOn_bounds h.pos).2

/-- A round leaves the records of the other streams alone. -/
theorem others (h : RoundFacts e streams treasury user w i pending stream w' payout) {j : ℕ}
    (hne : i ≠ j) : w'.store.getUserRewardDebt user j = w.store.getUserRewardDebt user j := by
  rw [h.store, settled, RewardStore.getUserRewardDebt_set_ne]
  rintro ⟨-, rfl⟩
  exact hne rfl

theorem outflow (h : RoundFacts e streams treasury user w i pending stream w' payout)
    (t : Address) : w'.ledger t e.contract = w.ledger t e.contract -
      if t = payout.token then roundOutflow e treasury user pending else 0 := by
  rw [h.payout_token]
  exact h.balance t

end RoundFacts

/-- A round whose checks pass returns. -/
theorem claimStream_returns {w : RewardWorld} {i : ℕ} {stream : RewardStream} {pending : ℤ}
    (hlisted : streams[i]? = some stream)
    (hopen : stream.claimDeadline = 0 ∨ e.timestamp ≤ stream.claimDeadline)
    (hpending : (w.store.getUserRewardDebt user i).pendingRewards = pending) (hpos : 0 < pending)
    (hfits : Fits 128 (pending * treasuryFeeBps))
    (hcovered : pending ≤ w.ledger stream.token e.contract) :
    ∃ r, claimStream e streams treasury swapRouter user none w i = .ok r := by
  obtain ⟨hfee, hlt⟩ := treasuryFeeOn_bounds hpos
  have hfit := hfits.of_le hpos.le (by unfold treasuryFeeBps; omega)
  have hnet : 0 ≤ pending - treasuryFeeOn pending := by omega
  obtain ⟨l₁, h₁⟩ : ∃ l₁, (w.ledger.transfer e stream.token e.contract user
      (pending - treasuryFeeOn pending) : RewardCall Ledger) = .ok l₁ :=
    ⟨_, Ledger.transfer_eq_ok.mpr ⟨.inl rfl, ⟨hnet, by omega⟩, rfl⟩⟩
  have hrest : treasuryFeeOn pending ≤ l₁ stream.token e.contract := by
    rw [transfer_outflow h₁, if_pos rfl]
    unfold outflow
    split_ifs <;> omega
  obtain ⟨l₂, h₂⟩ : ∃ l₂, payTreasuryFee e l₁ stream.token treasury (treasuryFeeOn pending) =
      .ok l₂ := by
    unfold payTreasuryFee
    split_ifs with hzero
    · exact ⟨_, Ledger.transfer_eq_ok.mpr ⟨.inl rfl, ⟨hfee, hrest⟩, rfl⟩⟩
    · exact ⟨l₁, rfl⟩
  refine ⟨(⟨settled e w.store user i, l₂⟩, payoutOf i stream pending), ?_⟩
  simp only [claimStream, bind_eq_ok, pure_eq_ok, require_eq_ok, exists_const, I128.mul_eq_ok,
    I128.div_eq_ok, I128.sub_eq_ok, orRaise_eq_ok, hpending]
  exact ⟨stream, hlisted, hopen, hpos, _, ⟨hfits, rfl⟩, _, ⟨by decide, hfit.of_le hfee hlt.le, rfl⟩,
    _, ⟨hfit.of_le hnet (sub_le_self _ hfee), rfl⟩, hcovered, l₁, h₁, l₂, h₂, _, rfl, rfl⟩

end round

/-! ### A returning claim pays every listed stream -/

section claim
variable {e : Env} {streams : List RewardStream} {treasury swapRouter user : Address}

theorem claimStreams_positive {is : List ℕ} {w : RewardWorld} {totals : SortedMap Address ℤ}
    {r : RewardWorld × List ClaimPayout}
    (h : claimStreams e streams treasury swapRouter user none is w totals = .ok r) :
    ∀ p ∈ r.2, 0 < p.netReward + p.treasuryFee := by
  induction is generalizing w totals r with
  | nil =>
      obtain rfl := pure_eq_ok.mp h
      simp
  | cons i rest ih =>
      simp only [claimStreams, bind_eq_ok, pure_eq_ok] at h
      obtain ⟨⟨w₁, payout⟩, h₁, total, -, r₂, h₂, rfl⟩ := h
      obtain ⟨hpos, -, hpaid, -⟩ := claimStream_ok h₁
      intro p hp
      rcases List.mem_cons.mp hp with rfl | hp
      · rw [hpaid]
        exact hpos
      · exact ih h₂ p hp

/-- A stream with a payout has been paid something. -/
theorem paidFor_pos {payouts : List ClaimPayout}
    (hpos : ∀ p ∈ payouts, 0 < p.netReward + p.treasuryFee) {i : ℕ}
    (hi : i ∈ payouts.map ClaimPayout.streamIndex) : 0 < paidFor i payouts := by
  obtain ⟨p, hp, rfl⟩ := List.mem_map.mp hi
  have hnonneg : ∀ x ∈ payouts.map fun q =>
      if q.streamIndex = p.streamIndex then q.netReward + q.treasuryFee else 0, 0 ≤ x := by
    intro x hx
    obtain ⟨q, hq, rfl⟩ := List.mem_map.mp hx
    split_ifs
    · exact (hpos q hq).le
    · exact le_rfl
  have hle := List.single_le_sum hnonneg (p.netReward + p.treasuryFee)
    (List.mem_map.mpr ⟨p, hp, if_pos rfl⟩)
  exact (hpos p hp).trans_le hle

/-- The contract holds no less, and the totals are no larger, where fewer streams were paid. -/
structure Ahead (e : Env) (l l₂ : Ledger) (totals totals₂ : SortedMap Address ℤ) : Prop where
  ledger : ∀ t, l t e.contract ≤ l₂ t e.contract
  totals_nonneg : ∀ t, 0 ≤ (totals₂.get t).getD 0
  totals_le : ∀ t, (totals₂.get t).getD 0 ≤ (totals.get t).getD 0

section ahead
variable {l l₂ l' l₂' : Ledger} {totals totals₂ : SortedMap Address ℤ} {token : Address}
  {amount flow : ℤ}

/-- Both claims pay out the same stream. -/
theorem Ahead.pay (h : Ahead e l l₂ totals totals₂)
    (hl : ∀ t, l' t e.contract = l t e.contract - if t = token then flow else 0)
    (hl₂ : ∀ t, l₂' t e.contract = l₂ t e.contract - if t = token then flow else 0)
    (hamount : 0 ≤ amount) :
    Ahead e l' l₂' (totals.set token ((totals.get token).getD 0 + amount))
      (totals₂.set token ((totals₂.get token).getD 0 + amount)) := by
  refine ⟨fun t => ?_, fun t => ?_, fun t => ?_⟩
  · rw [hl t, hl₂ t]
    exact sub_le_sub_right (h.ledger t) _
  · rw [SortedMap.get_set]
    split_ifs
    · exact add_nonneg (h.totals_nonneg token) hamount
    · exact h.totals_nonneg t
  · rw [SortedMap.get_set, SortedMap.get_set]
    split_ifs
    · exact Int.add_le_add_right (h.totals_le token) amount
    · exact h.totals_le t

/-- Only the first claim pays out a stream. -/
theorem Ahead.skip (h : Ahead e l l₂ totals totals₂)
    (hl : ∀ t, l' t e.contract = l t e.contract - if t = token then flow else 0)
    (hflow : 0 ≤ flow) (hamount : 0 ≤ amount) :
    Ahead e l' l₂ (totals.set token ((totals.get token).getD 0 + amount)) totals₂ := by
  refine ⟨fun t => ?_, h.totals_nonneg, fun t => ?_⟩
  · have hledger := h.ledger t
    rw [hl t]
    split_ifs <;> omega
  · rw [SortedMap.get_set]
    split_ifs with ht
    · have hle := h.totals_le token
      rw [ht, Option.getD_some]
      omega
    · exact h.totals_le t

end ahead

/-- A round that returns also returns, with the same payout, where fewer streams were paid. -/
theorem claimStream_ahead {w w₁ w₂ : RewardWorld} {totals totals₂ : SortedMap Address ℤ} {i : ℕ}
    {payout : ClaimPayout} {stream : RewardStream}
    (facts : RoundFacts e streams treasury user w i
      (w.store.getUserRewardDebt user i).pendingRewards stream w₁ payout)
    (hdebt : w₂.store.getUserRewardDebt user i = w.store.getUserRewardDebt user i)
    (hahead : Ahead e w.ledger w₂.ledger totals totals₂) :
    ∃ w₃, claimStream e streams treasury swapRouter user none w₂ i = .ok (w₃, payout) ∧
      RoundFacts e streams treasury user w₂ i (w.store.getUserRewardDebt user i).pendingRewards
        stream w₃ payout := by
  obtain ⟨⟨w₃, payout₃⟩, h₃⟩ : ∃ r₃, claimStream e streams treasury swapRouter user none w₂ i =
      .ok r₃ :=
    claimStream_returns facts.listed facts.inTime (by rw [hdebt]) facts.pos facts.fits
      (facts.covered.trans (hahead.ledger stream.token))
  obtain ⟨stream₃, facts₃⟩ := claimStream_facts h₃
  rw [hdebt] at facts₃
  obtain rfl : stream = stream₃ := Option.some.inj (facts.listed.symm.trans facts₃.listed)
  obtain rfl : payout₃ = payout := facts₃.payout.trans facts.payout.symm
  exact ⟨w₃, h₃, facts₃⟩

/-- A claim that returns also returns for the streams a filter keeps, from a state that has
paid less. -/
theorem claimStreams_filter {keep : ℕ → Bool} {is : List ℕ} (hdistinct : is.Nodup)
    {w w₂ : RewardWorld} {totals totals₂ : SortedMap Address ℤ}
    {r : RewardWorld × List ClaimPayout}
    (h : claimStreams e streams treasury swapRouter user none is w totals = .ok r)
    (hdebts : ∀ i ∈ is, keep i = true →
      w₂.store.getUserRewardDebt user i = w.store.getUserRewardDebt user i)
    (hahead : Ahead e w.ledger w₂.ledger totals totals₂) :
    ∃ r₂, claimStreams e streams treasury swapRouter user none (is.filter keep) w₂ totals₂ =
      .ok r₂ := by
  induction is generalizing w w₂ totals totals₂ r with
  | nil => exact ⟨_, rfl⟩
  | cons i rest ih =>
      obtain ⟨hnew, hrest⟩ := List.nodup_cons.mp hdistinct
      simp only [claimStreams, bind_eq_ok, I128.add_eq_ok] at h
      obtain ⟨⟨w₁, payout⟩, h₁, _, ⟨hfits, rfl⟩, ⟨w', payouts⟩, h₂, -⟩ := h
      obtain ⟨stream, facts⟩ := claimStream_facts h₁
      have hlater : ∀ j ∈ rest, i ≠ j := by
        rintro j hj rfl
        exact hnew hj
      have hdebts₁ : ∀ j ∈ rest, keep j = true →
          w₂.store.getUserRewardDebt user j = w₁.store.getUserRewardDebt user j := by
        intro j hj hk
        rw [facts.others (hlater j hj)]
        exact hdebts j (List.mem_cons_of_mem i hj) hk
      by_cases hkeep : keep i = true
      · rw [List.filter_cons_of_pos hkeep]
        obtain ⟨w₃, h₃, facts₃⟩ :=
          claimStream_ahead facts (hdebts i List.mem_cons_self hkeep) hahead
        have hsum : Fits 128 ((totals₂.get payout.token).getD 0 + payout.netReward) := by
          have hle := hahead.totals_le payout.token
          have hnonneg := hahead.totals_nonneg payout.token
          have hnet := facts.netReward_pos
          exact hfits.of_le (by omega) (Int.add_le_add_right hle _)
        have hdebts₃ : ∀ j ∈ rest, keep j = true →
            w₃.store.getUserRewardDebt user j = w₁.store.getUserRewardDebt user j := by
          intro j hj hk
          rw [facts₃.others (hlater j hj)]
          exact hdebts₁ j hj hk
        have hahead₃ := hahead.pay facts.outflow facts₃.outflow facts.netReward_pos.le
        obtain ⟨⟨w₄, payouts₄⟩, h₄⟩ := ih hrest h₂ hdebts₃ hahead₃
        refine ⟨(w₄, payout :: payouts₄), ?_⟩
        simp only [claimStreams, bind_eq_ok, I128.add_eq_ok, pure_eq_ok]
        exact ⟨_, h₃, _, ⟨hsum, rfl⟩, _, h₄, rfl⟩
      · rw [List.filter_cons_of_neg hkeep]
        exact ih hrest h₂ hdebts₁
          (hahead.skip facts.outflow (roundOutflow_nonneg facts.pos) facts.netReward_pos.le)

end claim

section claims
variable {e : Env} {w w' : RewardWorld} {user vault : Address} {streamIndices : List ℕ}

/-- A returning claim pays each listed stream in full. -/
theorem claimRewards_pays {report : ClaimReport}
    (h : claimRewards e w user vault streamIndices none = .ok (w', report)) {i : ℕ}
    (hi : i ∈ streamIndices) :
    0 < (w.store.getUserRewardDebt user i).pendingRewards ∧
      paidFor i report.payouts = (w.store.getUserRewardDebt user i).pendingRewards := by
  have hfacts := claimRewards_facts h
  simp only [claimRewards, bind_eq_ok, pure_eq_ok, Prod.mk.injEq] at h
  obtain ⟨-, -, -, -, treasury, -, swapRouter, -, r, hc, rfl, rfl⟩ := h
  rw [← claimStreams_indices hc] at hi
  have hpaid := paidFor_pos (claimStreams_positive hc) hi
  rcases hfacts.pays i with ⟨-, hzero⟩ | ⟨hpos, -, hall⟩
  · exact absurd hzero (ne_of_gt hpaid)
  · exact ⟨hpos, hall⟩

/-- A claim that returns also returns for the streams a filter keeps. -/
theorem claimRewards_filter {r : RewardWorld × ClaimReport} (hdistinct : streamIndices.Nodup)
    (h : claimRewards e w user vault streamIndices none = .ok r) (keep : ℕ → Bool) :
    ∃ r₂, claimRewards e w user vault (streamIndices.filter keep) none = .ok r₂ := by
  simp only [claimRewards, bind_eq_ok, pure_eq_ok] at h
  obtain ⟨_, hemergency, _, hpaused, treasury, htreasury, swapRouter, hrouter, r, hc, -⟩ := h
  obtain ⟨⟨w₂, payouts⟩, h₂⟩ := claimStreams_filter hdistinct hc (fun _ _ _ => rfl)
    (⟨fun _ => le_rfl, fun _ => le_rfl, fun _ => le_rfl⟩ : Ahead e w.ledger w.ledger .empty .empty)
  refine ⟨(w₂, ⟨.empty, payouts⟩), ?_⟩
  simp only [claimRewards, bind_eq_ok, pure_eq_ok]
  exact ⟨_, hemergency, _, hpaused, _, htreasury, _, hrouter, _, h₂, rfl⟩

end claims

end YieldEngine.Rewards
