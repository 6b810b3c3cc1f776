import YieldEngine.KeyedLoops
import YieldEngine.ProtocolGovernor

/-! # What the governor does to its proposals

`GovernanceProposal.advance` is what one pass of `update_proposal_states` makes of a proposal, and
`updateProposalStates_ok` says that the loop does just that to each of the numbered proposals.  The
loop stops only at a proposal that is missing or whose numbers do not fit, and then advances
none (`updateProposalStates_returns_iff`).

`Effect` lists what a returning call of each kind has checked and written. -/

namespace YieldEngine.ProtocolGovernor

open CheckedArith KeyedLoops

namespace GovernanceProposal

/-- The proposal with one more vote. -/
def voted (p : GovernanceProposal) (voter : Address) (support : Bool) (amount : ℤ) :
    GovernanceProposal :=
  if support then
    { p with votesFor := p.votesFor + amount, forVoters := p.forVoters.set voter amount }
  else
    { p with
      votesAgainst := p.votesAgainst + amount
      againstVoters := p.againstVoters.set voter amount }

/-- The votes needed for a quorum. -/
def quorumOf (supply : ℤ) : ℤ := (supply * quorumPercentage).tdiv 10000

/-- A quorum voted and most of it in favour. -/
def Passes (p : GovernanceProposal) (supply : ℤ) : Prop :=
  quorumOf supply ≤ p.votesFor + p.votesAgainst ∧ p.votesAgainst < p.votesFor

instance (p : GovernanceProposal) (supply : ℤ) : Decidable (p.Passes supply) :=
  inferInstanceAs (Decidable (_ ∧ _))

/-- The proposal after one pass of `update_proposal_states`. -/
def advance (now : ℕ) (supply : ℤ) (p : GovernanceProposal) : GovernanceProposal :=
  match p.state with
  | .pending => if p.startTime ≤ now then { p with state := .active } else p
  | .active =>
      if p.endTime ≤ now then
        { p with state := if p.Passes supply then .succeeded else .defeated }
      else p
  | .queued => if p.eta + gracePeriod ≤ now then { p with state := .expired } else p
  | _ => p

/-- The numbers a pass computes for the proposal fit. -/
def Settles (now : ℕ) (supply : ℤ) (p : GovernanceProposal) : Prop :=
  (p.state = .active → p.endTime ≤ now →
    Fits 128 (p.votesFor + p.votesAgainst) ∧ Fits 128 (supply * quorumPercentage)) ∧
  (p.state = .queued → FitsU 64 (p.eta + gracePeriod : ℕ))

end GovernanceProposal

open GovernanceProposal

/-! ### One pass over all proposals -/

section update
variable {e : GovEnv} {token : GovernanceToken.Store} {s s' : Store} {id : ℕ}

theorem hasPassed_eq_ok {passed : Bool} :
    s.hasPassed token id = .ok passed ↔ ∃ p, s.proposals.get id = some p ∧
      s.governanceToken.isSome ∧ Fits 128 (p.votesFor + p.votesAgainst) ∧
        Fits 128 (token.totalSupply * quorumPercentage) ∧
          passed = decide (p.Passes token.totalSupply) := by
  simp only [Store.hasPassed, Store.hasQuorum, Store.getProposal, Store.getGovernanceToken,
    bind_eq_ok, orRaise_eq_ok, I128.add_eq_ok, I128.mul_eq_ok, I128.div_eq_ok, pure_eq_ok,
    Option.isSome_iff_exists]
  constructor
  · rintro ⟨p, hp, _, ⟨q, hq, a, ha, _, ⟨hvotes, rfl⟩, _, ⟨hsupply, rfl⟩, _, ⟨-, -, rfl⟩, rfl⟩, rfl⟩
    rw [hp] at hq
    obtain rfl := Option.some.inj hq
    refine ⟨p, hp, ⟨a, ha⟩, hvotes, hsupply, ?_⟩
    rw [← Bool.decide_and]
    rfl
  · rintro ⟨p, hp, ⟨a, ha⟩, hvotes, hsupply, rfl⟩
    refine ⟨p, hp, _, ⟨p, hp, a, ha, _, ⟨hvotes, rfl⟩, _, ⟨hsupply, rfl⟩, _,
      ⟨by decide, hsupply.tdiv (by decide), rfl⟩, rfl⟩, ?_⟩
    rw [← Bool.decide_and]
    rfl

/-- One round of the loop. -/
theorem updateProposal_eq_ok (hgov : s.governanceToken.isSome) :
    updateProposal e token s id = .ok s' ↔ ∃ p, s.proposals.get id = some p ∧
      p.Settles e.timestamp token.totalSupply ∧
        s' = s.setProposal id (p.advance e.timestamp token.totalSupply) := by
  have hkept : ∀ p, s.proposals.get id = some p → s.setProposal id p = s := by
    intro p hp
    rw [Store.setProposal, (SortedMap.set_eq_self_iff _ _ _).mpr hp]
  simp only [updateProposal, Store.getProposal, bind_eq_ok, orRaise_eq_ok]
  refine exists_congr fun p => and_congr_right fun hp => ?_
  unfold Settles advance
  cases hstate : p.state with
  | pending =>
      by_cases hnow : p.startTime ≤ e.timestamp
      · simp only [reduceCtorEq, false_imp_iff, and_self, true_and, ge_iff_le, if_pos hnow,
          pure_eq_ok]
        exact eq_comm
      · simp only [reduceCtorEq, false_imp_iff, and_self, true_and, ge_iff_le, if_neg hnow,
          pure_eq_ok, hkept p hp]
        exact eq_comm
  | active =>
      by_cases hnow : p.endTime ≤ e.timestamp
      · simp only [reduceCtorEq, false_imp_iff, and_true, true_imp_iff, ge_iff_le, if_pos hnow,
          forall_prop_of_true hnow, bind_eq_ok, hasPassed_eq_ok, pure_eq_ok]
        constructor
        · rintro ⟨_, ⟨q, hq, -, hvotes, hsupply, rfl⟩, rfl⟩
          rw [hp] at hq
          obtain rfl := Option.some.inj hq
          exact ⟨⟨hvotes, hsupply⟩, by simp only [decide_eq_true_eq]⟩
        · rintro ⟨⟨hvotes, hsupply⟩, rfl⟩
          exact ⟨_, ⟨p, hp, hgov, hvotes, hsupply, rfl⟩, by simp only [decide_eq_true_eq]⟩
      · simp only [reduceCtorEq, false_imp_iff, and_true, true_and, ge_iff_le, if_neg hnow,
          forall_prop_of_false hnow, implies_true, pure_eq_ok, hkept p hp]
        exact eq_comm
  | queued =>
      simp only [reduceCtorEq, false_imp_iff, true_and, true_imp_iff, bind_eq_ok, checkedU_eq_ok]
      constructor
      · rintro ⟨_, ⟨hfits, rfl⟩, hbranch⟩
        refine ⟨hfits, ?_⟩
        by_cases hnow : p.eta + gracePeriod ≤ e.timestamp
        · rw [Int.toNat_natCast, if_pos hnow] at hbranch
          rw [if_pos hnow]
          exact (pure_eq_ok.mp hbranch).symm
        · rw [Int.toNat_natCast, if_neg hnow] at hbranch
          rw [if_neg hnow, hkept p hp]
          exact (pure_eq_ok.mp hbranch).symm
      · rintro ⟨hfits, rfl⟩
        refine ⟨_, ⟨hfits, rfl⟩, ?_⟩
        by_cases hnow : p.eta + gracePeriod ≤ e.timestamp
        · rw [Int.toNat_natCast, if_pos hnow, if_pos hnow]
          rfl
        · rw [Int.toNat_natCast, if_neg hnow, if_neg hnow, hkept p hp]
          rfl
  | _ =>
      simp only [reduceCtorEq, false_imp_iff, and_self, true_and, pure_eq_ok, hkept p hp]
      exact eq_comm

/-- The rounds keep to the proposal they are for. -/
theorem updateProposal_pointwise (e : GovEnv) (token : GovernanceToken.Store)
    (hgov : s.governanceToken.isSome) :
    Pointwise (updateProposal e token) (fun s id => s.proposals.get id)
      (fun t => ∃ proposals, t = { s with proposals := proposals })
      (fun _ o => ∃ p, o = some p ∧ p.Settles e.timestamp token.totalSupply)
      (fun _ o => o.map (advance e.timestamp token.totalSupply)) where
  returns := by
    rintro _ id ⟨proposals, rfl⟩
    constructor
    · rintro ⟨s', h⟩
      obtain ⟨p, hp, hsettles, -⟩ :=
        (updateProposal_eq_ok (s := { s with proposals := proposals }) hgov).mp h
      exact ⟨p, hp, hsettles⟩
    · rintro ⟨p, hp, hsettles⟩
      exact ⟨_, (updateProposal_eq_ok (s := { s with proposals := proposals }) hgov).mpr
        ⟨p, hp, hsettles, rfl⟩⟩
  keeps := by
    rintro _ id s' ⟨proposals, rfl⟩ h
    obtain ⟨p, -, -, rfl⟩ :=
      (updateProposal_eq_ok (s := { s with proposals := proposals }) hgov).mp h
    exact ⟨_, rfl⟩
  own := by
    rintro _ id s' ⟨proposals, rfl⟩ h
    obtain ⟨p, hp, -, rfl⟩ :=
      (updateProposal_eq_ok (s := { s with proposals := proposals }) hgov).mp h
    rw [hp]
    exact SortedMap.get_set_self _ _ _
  other := by
    rintro _ id s' ⟨proposals, rfl⟩ h j hj
    obtain ⟨p, -, -, rfl⟩ :=
      (updateProposal_eq_ok (s := { s with proposals := proposals }) hgov).mp h
    exact SortedMap.get_set_ne _ _ hj

/-- A returning pass has advanced each numbered proposal and nothing else. -/
theorem updateProposalStates_ok (hgov : s.governanceToken.isSome)
    (h : updateProposalStates e token s = .ok s') :
    (∃ proposals, s' = { s with proposals := proposals }) ∧
      ∀ id, s'.proposals.get id =
        if 1 ≤ id ∧ id ≤ s.count then
          (s.proposals.get id).map (advance e.timestamp token.totalSupply)
        else s.proposals.get id := by
  have hloop := updateProposal_pointwise e token hgov
  have hstart : ∃ proposals, s = { s with proposals := proposals } := ⟨_, rfl⟩
  refine ⟨hloop.loop_keeps _ hstart h, fun id => ?_⟩
  have hnodup : (List.range' 1 s.count).Nodup := List.nodup_range'
  rw [hloop.cell_eq hnodup hstart h id]
  simp only [List.mem_range'_1]
  congr 1
  rw [eq_iff_iff]
  omega

/-- A pass returns exactly when every numbered proposal exists and its numbers fit. -/
theorem updateProposalStates_returns_iff (hgov : s.governanceToken.isSome) :
    (∃ s', updateProposalStates e token s = .ok s') ↔ ∀ id, 1 ≤ id → id ≤ s.count →
      ∃ p, s.proposals.get id = some p ∧ p.Settles e.timestamp token.totalSupply := by
  have hloop := updateProposal_pointwise e token hgov
  have hnodup : (List.range' 1 s.count).Nodup := List.nodup_range'
  rw [updateProposalStates, hloop.returns_iff hnodup ⟨_, rfl⟩]
  simp only [List.mem_range'_1]
  constructor
  · intro h id hpos hle
    exact h id ⟨hpos, by omega⟩
  · rintro h id ⟨hpos, hlt⟩
    exact h id hpos (by omega)

end update

/-! ### The other entrypoints -/

/-- What a returning call has checked and written. -/
inductive Effect (e : GovEnv) (token : GovernanceToken.Store) (escrow : VotingEscrow.Store)
    (s : Store) : Action → Store → Prop
  | propose {proposer : Address} {description : String} {callData : List CallData}
      {votingDuration : ℕ} {p : GovernanceProposal} (hauth : proposer ∈ e.auths)
      (hpower : proposalThreshold ≤ escrow.power e.timestamp proposer)
      (hlength : description.utf8ByteSize ≤ maxProposalDescriptionLength)
      (hp : GovernanceProposal.new proposer description callData e.timestamp votingDuration
        e.sequence = .ok p) :
      Effect e token escrow s (.propose proposer description callData votingDuration)
        { s.setProposal (s.count + 1) p with proposalCount := some (s.count + 1) }
  | vote {voter : Address} {id : ℕ} {support : Bool} {amount : ℤ} {p : GovernanceProposal}
      (hauth : voter ∈ e.auths) (hp : s.proposals.get id = some p)
      (hactive : (p.activated e.timestamp).isActive e.timestamp = true)
      (hpower : amount ≤ escrow.power e.timestamp voter) :
      Effect e token escrow s (.vote voter id support amount)
        (s.setProposal id ((p.activated e.timestamp).voted voter support amount))
  | queue {id : ℕ} {p : GovernanceProposal} (hp : s.proposals.get id = some p)
      (hstate : p.state = .succeeded) :
      Effect e token escrow s (.queue id)
        (s.setProposal id
          { p with eta := e.timestamp + timelockDelay, queued := true, state := .queued })
  | execute {id : ℕ} {p : GovernanceProposal} (hp : s.proposals.get id = some p)
      (hstate : p.state = .queued) (heta : p.eta ≤ e.timestamp) (hnew : p.executed = false) :
      Effect e token escrow s (.execute id)
        (s.setProposal id { p with executed := true, state := .executed })
  | cancel {id : ℕ} {p : GovernanceProposal} (hp : s.proposals.get id = some p)
      (hstate : p.state = .pending ∨ p.state = .active) :
      Effect e token escrow s (.cancel id)
        (s.setProposal id { p with canceled := true, state := .canceled })
  | updateProposalStates {s' : Store} (h : updateProposalStates e token s = .ok s') :
      Effect e token escrow s .updateProposalStates s'
  | setPerformanceFee {fee : ℕ} (hrange : minPerformanceFee ≤ fee ∧ fee ≤ maxPerformanceFee) :
      Effect e token escrow s (.setPerformanceFee fee) { s with performanceFee := some fee }
  | setWithdrawalFee {fee : ℕ} (hrange : minWithdrawalFee ≤ fee ∧ fee ≤ maxWithdrawalFee) :
      Effect e token escrow s (.setWithdrawalFee fee) { s with withdrawalFee := some fee }
  | setRebalanceThreshold {threshold : ℕ}
      (hrange : minRebalanceThreshold ≤ threshold ∧ threshold ≤ maxRebalanceThreshold) :
      Effect e token escrow s (.setRebalanceThreshold threshold)
        { s with rebalanceThreshold := some threshold }
  | setInsuranceReserveTarget {target : ℕ}
      (hrange : minInsuranceReserve ≤ target ∧ target ≤ maxInsuranceReserve) :
      Effect e token escrow s (.setInsuranceReserveTarget target)
        { s with insuranceReserveTarget := some target }

section effects
variable {e : GovEnv} {token : GovernanceToken.Store} {escrow : VotingEscrow.Store} {s s' : Store}

theorem requireRange_eq_ok {value low high : ℕ} {msg : String} {u : Unit} :
    requireRange value low high msg = .ok u ↔ low ≤ value ∧ value ≤ high := by
  rw [requireRange, require_eq_ok]
  omega

theorem vote_effect {voter : Address} {id : ℕ} {support : Bool} {amount : ℤ}
    (h : vote e escrow s voter id support amount = .ok s') :
    Effect e token escrow s (.vote voter id support amount) s' := by
  simp only [vote, Store.getProposal, bind_eq_ok, GovEnv.requireAuth_eq_ok, orRaise_eq_ok,
    require_eq_ok, exists_const] at h
  obtain ⟨hauth, p, hp, hstate, htime, _, -, power, hpower, hle, hbooked⟩ := h
  rw [VotingEscrow.getVotingPower_ok hpower] at hle
  have hactive : (p.activated e.timestamp).isActive e.timestamp = true := by
    have hperiod := not_or.mp htime
    rw [isActive, decide_eq_true_eq]
    exact ⟨hstate, not_lt.mp hperiod.1, not_le.mp hperiod.2⟩
  have heffect : Effect e token escrow s (.vote voter id support amount)
      (s.setProposal id ((p.activated e.timestamp).voted voter support amount)) :=
    .vote hauth hp hactive hle
  cases support with
  | true =>
      simp only [if_true, bind_eq_ok, I128.add_eq_ok, pure_eq_ok] at hbooked
      obtain ⟨_, ⟨-, rfl⟩, rfl⟩ := hbooked
      exact heffect
  | false =>
      simp only [Bool.false_eq_true, if_false, bind_eq_ok, I128.add_eq_ok, pure_eq_ok] at hbooked
      obtain ⟨_, ⟨-, rfl⟩, rfl⟩ := hbooked
      exact heffect

theorem exec_effect {a : Action} (h : exec e token escrow s a = .ok s') :
    Effect e token escrow s a s' := by
  cases a with
  | propose proposer description callData votingDuration =>
      simp only [exec, propose, map_eq_ok, bind_eq_ok, GovEnv.requireAuth_eq_ok, require_eq_ok,
        checkedU_eq_ok, pure_eq_ok, exists_const] at h
      obtain ⟨_, ⟨hauth, _, -, power, hpower, hle, hlength, _, ⟨-, rfl⟩, p, hp, rfl⟩, rfl⟩ := h
      rw [VotingEscrow.getVotingPower_ok hpower] at hle
      exact .propose hauth hle hlength hp
  | vote voter id support amount => exact vote_effect h
  | queue id =>
      simp only [exec, queue, Store.getProposal, map_eq_ok, bind_eq_ok, orRaise_eq_ok,
        require_eq_ok, checkedU_eq_ok, pure_eq_ok, exists_const] at h
      obtain ⟨_, ⟨p, hp, hstate, _, ⟨-, rfl⟩, rfl⟩, rfl⟩ := h
      exact .queue hp hstate
  | execute id =>
      simp only [exec, execute, Store.getProposal, bind_eq_ok, orRaise_eq_ok, require_eq_ok,
        pure_eq_ok, exists_const] at h
      obtain ⟨p, hp, hstate, heta, hnew, rfl⟩ := h
      exact .execute hp hstate heta hnew
  | cancel id =>
      simp only [exec, cancel, Store.getProposal, bind_eq_ok, orRaise_eq_ok, require_eq_ok,
        pure_eq_ok, exists_const] at h
      obtain ⟨p, hp, hstate, rfl⟩ := h
      exact .cancel hp hstate
  | updateProposalStates => exact .updateProposalStates h
  | setPerformanceFee fee =>
      obtain ⟨_, hrange, h⟩ := bind_eq_ok.mp h
      obtain rfl := pure_eq_ok.mp h
      exact .setPerformanceFee (requireRange_eq_ok.mp hrange)
  | setWithdrawalFee fee =>
      obtain ⟨_, hrange, h⟩ := bind_eq_ok.mp h
      obtain rfl := pure_eq_ok.mp h
      exact .setWithdrawalFee (requireRange_eq_ok.mp hrange)
  | setRebalanceThreshold threshold =>
      obtain ⟨_, hrange, h⟩ := bind_eq_ok.mp h
      obtain rfl := pure_eq_ok.mp h
      exact .setRebalanceThreshold (requireRange_eq_ok.mp hrange)
  | setInsuranceReserveTarget target =>
      obtain ⟨_, hrange, h⟩ := bind_eq_ok.mp h
      obtain rfl := pure_eq_ok.mp h
      exact .setInsuranceReserveTarget (requireRange_eq_ok.mp hrange)

end effects
end YieldEngine.ProtocolGovernor
