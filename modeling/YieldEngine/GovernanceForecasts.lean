import YieldEngine.DecidedProposals
import YieldEngine.LockCommitments
import YieldEngine.JsNumber

/-! # What the client foretells

The governance client computes for itself what the contracts decide: the voting power of a lock, its
boost, and whether a proposal has passed.  Amounts are bigints, times and shares are numbers; the
divisions of the boost are exact.

`outcome_is_foretold`: once the voting on a proposal is over, whatever is called and whenever a
pass decides it, the decision is what `hasProposalPassed` says of its votes and the supply at that
pass.  The estimate of the voting power leaves out what was delegated (`power_is_estimate`), and the
estimate of the boost does not depend on the lock at all (`boost_estimate_const`). -/

namespace YieldEngine.GovernanceClient

/-- The default of `maxDuration`: four years. -/
def maxDuration : ℤ := 4 * 365 * 24 * 60 * 60

/-- The default of `quorumPercentage`, in basis points. -/
def defaultQuorumPercentage : ℤ := 400

/-- `calculateVotingPower`; `BigInt` throws on a number that is not whole, and division by zero
throws. -/
def calculateVotingPower (amount : ℤ) (lockEnd currentTime maxDuration : JsNumber) :
    Except String ℤ :=
  if lockEnd.le currentTime then .ok 0
  else
    match (lockEnd.sub currentTime).toBigInt, maxDuration.toBigInt with
    | some remainingTime, some duration =>
        if duration = 0 then .error "Division by zero"
        else .ok ((amount * remainingTime).tdiv duration)
    | _, _ => .error "The number cannot be converted to a BigInt because it is not an integer"

/-- `calculateBoostMultiplier`. -/
def calculateBoostMultiplier (lockDuration maxDuration : ℚ) : ℚ :=
  let durationFactor := lockDuration / maxDuration * 10000
  let boost := 10000 + durationFactor * 1500 / 10000
  min boost 2500

/-- What `hasProposalPassed` returns. -/
structure Outcome where
  quorumReached : Bool
  passed : Bool
deriving DecidableEq, Repr

/-- `hasProposalPassed`. -/
def hasProposalPassed (votesFor votesAgainst totalSupply quorumPercentage : ℤ) : Outcome :=
  let totalVotes := votesFor + votesAgainst
  let quorumRequired := (totalSupply * quorumPercentage).tdiv 10000
  { quorumReached := quorumRequired ≤ totalVotes
    passed := quorumRequired ≤ totalVotes && votesAgainst < votesFor }

end YieldEngine.GovernanceClient

namespace YieldEngine.Governance

open CheckedArith Transact ProtocolGovernor GovernanceClient

/-! ### Estimates for a lock -/

/-- The voting power of a lock that runs is the estimate and what was delegated to its owner. -/
theorem power_is_estimate {s : VotingEscrow.Store} {e : GovEnv} {user : Address} {power : ℤ}
    (hlocked : s.lockedAmount user ≠ 0) (h : s.getVotingPower e user = .ok power) :
    ∃ estimate, calculateVotingPower (s.lockedAmount user) (.ofInt (s.lockEnd user))
        (.ofInt e.timestamp) (.ofInt maxDuration) = .ok estimate ∧
      power = estimate + if s.lockEnd user ≤ e.timestamp then 0 else s.delegatedTo.amount user := by
  have hvalue := VotingEscrow.getVotingPower_ok h
  unfold VotingEscrow.Store.power at hvalue
  unfold calculateVotingPower
  rw [JsNumber.le_ofInt, JsNumber.sub_ofInt, JsNumber.toBigInt_ofInt, JsNumber.toBigInt_ofInt]
  by_cases hended : s.lockEnd user ≤ e.timestamp
  · rw [if_pos (.inl hended)] at hvalue
    rw [if_pos (by simpa using hended), if_pos hended]
    exact ⟨0, rfl, hvalue⟩
  · rw [if_neg (not_or.mpr ⟨hended, hlocked⟩), Nat.cast_sub (not_le.mp hended).le] at hvalue
    rw [if_neg (by simpa using hended), if_neg hended]
    exact ⟨_, rfl, hvalue⟩

/-- The estimate of the boost is the cap, which lies below what the boost starts from. -/
theorem boost_estimate_const {lockDuration duration : ℚ} (hlock : 0 ≤ lockDuration)
    (hduration : 0 ≤ duration) : calculateBoostMultiplier lockDuration duration = 2500 := by
  have hfactor : 0 ≤ lockDuration / duration * 10000 :=
    mul_nonneg (div_nonneg hlock hduration) (by norm_num)
  unfold calculateBoostMultiplier
  apply min_eq_right
  linarith

/-! ### The outcome of a proposal -/

/-- The client and the contract count the same votes against the same quorum. -/
theorem passed_iff_passes (p : GovernanceProposal) (supply : ℤ) :
    (hasProposalPassed p.votesFor p.votesAgainst supply defaultQuorumPercentage).passed = true ↔
      p.Passes supply := by
  rw [hasProposalPassed, Bool.and_eq_true, decide_eq_true_iff, decide_eq_true_iff]
  rfl

variable {d : Deployment} {w w' : World} {e : GovEnv} {a : Action} {id : ℕ}
  {p : GovernanceProposal}

/-- The state that a pass gives a proposal whose voting is over. -/
def foretold (p : GovernanceProposal) (supply : ℤ) : ProposalState :=
  if (hasProposalPassed p.votesFor p.votesAgainst supply defaultQuorumPercentage).passed then
    .succeeded
  else .defeated

/-- The proposal is on record as `p`. -/
structure OnRecord (id : ℕ) (p : GovernanceProposal) (w : World) : Prop where
  token : w.governor.governanceToken.isSome
  numbered : 1 ≤ id ∧ id ≤ w.governor.count
  stored : w.governor.proposals.get id = some p

theorem OnRecord.kept (h : OnRecord id p w)
    (htoken : w'.governor.governanceToken = w.governor.governanceToken)
    (hcount : w.governor.count ≤ w'.governor.count)
    (hcell : w'.governor.proposals.get id = w.governor.proposals.get id) : OnRecord id p w' :=
  ⟨by rw [htoken]; exact h.token, ⟨h.numbered.1, h.numbered.2.trans hcount⟩,
    hcell.trans h.stored⟩

/-- Once the voting on an active proposal is over, only a pass and its cancelation touch it, and the
pass decides it as foretold. -/
theorem step_undecided (h : Step d w e a w') (hs : OnRecord id p w) (hactive : p.state = .active)
    (hlate : p.endTime ≤ e.timestamp) (hcancel : a ≠ .governor (.cancel id)) :
    OnRecord id p w' ∨ a = .governor .updateProposalStates ∧
      OnRecord id { p with state := foretold p w.token.totalSupply } w' := by
  have hstored := hs.stored
  cases h with
  | governor h =>
      cases h with
      | propose _ _ _ _ =>
          have hle := hs.numbered.2
          refine .inl (hs.kept rfl (Nat.le_succ _) (SortedMap.get_set_ne _ _ ?_))
          omega
      | @vote voter i support amount q _ hq hopen _ =>
          refine .inl (hs.kept rfl le_rfl (SortedMap.get_set_ne _ _ ?_))
          rintro rfl
          obtain rfl := Option.some.inj (hstored.symm.trans hq)
          obtain ⟨-, -, -, hearly⟩ := activated_eq hopen
          omega
      | @queue i q hq hstate =>
          refine .inl (hs.kept rfl le_rfl (SortedMap.get_set_ne _ _ ?_))
          rintro rfl
          obtain rfl := Option.some.inj (hstored.symm.trans hq)
          rw [hactive] at hstate
          cases hstate
      | @execute i q hq hstate _ _ =>
          refine .inl (hs.kept rfl le_rfl (SortedMap.get_set_ne _ _ ?_))
          rintro rfl
          obtain rfl := Option.some.inj (hstored.symm.trans hq)
          rw [hactive] at hstate
          cases hstate
      | @cancel i q hq _ =>
          refine .inl (hs.kept rfl le_rfl (SortedMap.get_set_ne _ _ ?_))
          rintro rfl
          exact hcancel rfl
      | updateProposalStates hpass =>
          obtain ⟨⟨proposals, rfl⟩, hcells⟩ := updateProposalStates_ok hs.token hpass
          refine .inr ⟨rfl, hs.token, hs.numbered, ?_⟩
          rw [hcells id, if_pos hs.numbered, hstored, Option.map_some]
          simp only [GovernanceProposal.advance, hactive, if_pos hlate, foretold, passed_iff_passes]
      | _ => exact .inl (hs.kept rfl le_rfl rfl)
  | _ => exact .inl (hs.kept rfl le_rfl rfl)

/-- What a decided proposal can become. -/
theorem decided_outcome {supply : ℤ} {state : ProposalState}
    (h : Relation.ReflTransGen Moves (foretold p supply) state) :
    if (hasProposalPassed p.votesFor p.votesAgainst supply defaultQuorumPercentage).passed then
      state ∈ [ProposalState.succeeded, .queued, .executed, .expired]
    else state = .defeated := by
  unfold foretold at h
  split_ifs at h ⊢
  · induction h with
    | refl => decide
    | tail _ hmove ih =>
        cases hmove with
        | cancel hopen => rcases hopen with rfl | rfl <;> simp at ih
        | _ => simp_all
  · cases Relation.ReflTransGen.cases_head h with
    | inl heq => exact heq.symm
    | inr hnext =>
        obtain ⟨c, hmove, -⟩ := hnext
        cases hmove with
        | cancel hopen => rcases hopen with hopen | hopen <;> cases hopen

/-- A pass of the run has decided the proposal `p`, as the client foretells it from the votes and the
supply at that pass, and `q` is what has become of it. -/
def DecidedIn (d : Deployment) (w : World) (calls : List (GovEnv × Action))
    (p q : GovernanceProposal) : Prop :=
  ∃ before e after, calls = before ++ (e, .governor .updateProposalStates) :: after ∧
    q.votesFor = p.votesFor ∧ q.votesAgainst = p.votesAgainst ∧
    if (hasProposalPassed p.votesFor p.votesAgainst (run (exec d) w before).token.totalSupply
        defaultQuorumPercentage).passed then
      q.state ∈ [ProposalState.succeeded, .queued, .executed, .expired]
    else q.state = .defeated

theorem DecidedIn.cons {calls : List (GovEnv × Action)} {c : GovEnv × Action}
    {q : GovernanceProposal} (h : DecidedIn d (commit (exec d) w c) calls p q) :
    DecidedIn d w (c :: calls) p q := by
  obtain ⟨before, e, after, rfl, hvotes⟩ := h
  exact ⟨c :: before, e, after, rfl, hvotes⟩

/-- What follows a pass that has decided the proposal. -/
theorem decided_at_once {supply : ℤ} (calls : List (GovEnv × Action))
    (h : OnRecord id { p with state := foretold p supply } w) :
    ∃ q, (run (exec d) w calls).governor.proposals.get id = some q ∧
      q.votesFor = p.votesFor ∧ q.votesAgainst = p.votesAgainst ∧
      Relation.ReflTransGen Moves (foretold p supply) q.state := by
  have hstart : Followed id { p with state := foretold p supply } w :=
    ⟨h.token, h.numbered.2, _, h.stored, .refl _⟩
  have hrun : Followed id { p with state := foretold p supply } (run (exec d) w calls) :=
    run_invariant (fun _ _ _ hs hcall => step_followed (exec_step hcall) hs) calls hstart
  obtain ⟨q, hq, hfollows⟩ := hrun.stored
  have hstage : 2 ≤ (foretold p supply).stage := by
    unfold foretold
    split_ifs <;> decide
  obtain ⟨hfor, hagainst, -, -⟩ := hfollows.votes hstage
  exact ⟨q, hq, hfor, hagainst, hfollows.moves⟩

/-- From the end of the voting on an active proposal on, over every run that does not cancel it, it
is as it was, or some pass has decided it as the client foretells. -/
theorem outcome_is_foretold (d : Deployment) (hactive : p.state = .active)
    (calls : List (GovEnv × Action))
    (hcalls : ∀ c ∈ calls, p.endTime ≤ c.1.timestamp ∧ c.2 ≠ .governor (.cancel id)) {w : World}
    (hrecord : OnRecord id p w) :
    ∃ q, (run (exec d) w calls).governor.proposals.get id = some q ∧
      (q = p ∨ DecidedIn d w calls p q) := by
  induction calls generalizing w with
  | nil => exact ⟨p, hrecord.stored, .inl rfl⟩
  | cons c calls ih =>
      have hrest : ∀ c' ∈ calls, p.endTime ≤ c'.1.timestamp ∧ c'.2 ≠ .governor (.cancel id) :=
        fun c' hc' => hcalls c' (List.mem_cons_of_mem c hc')
      have hundecided : OnRecord id p (commit (exec d) w c) →
          ∃ q, (run (exec d) w (c :: calls)).governor.proposals.get id = some q ∧
            (q = p ∨ DecidedIn d w (c :: calls) p q) := by
        intro hnext
        obtain ⟨q, hq, hq'⟩ := ih hrest hnext
        exact ⟨q, hq, hq'.imp_right DecidedIn.cons⟩
      cases hcall : exec d w c with
      | error f =>
          rw [commit_of_error hcall] at hundecided
          exact hundecided hrecord
      | ok w' =>
          rw [commit_of_ok hcall] at hundecided
          obtain ⟨hlate, hcancel⟩ := hcalls c List.mem_cons_self
          rcases step_undecided (exec_step hcall) hrecord hactive hlate hcancel with
            hnext | ⟨hpass, hdecided⟩
          · exact hundecided hnext
          · obtain ⟨q, hq, hfor, hagainst, hmoves⟩ := decided_at_once calls hdecided
            refine ⟨q, ?_, .inr ⟨[], c.1, calls, ?_, hfor, hagainst, decided_outcome hmoves⟩⟩
            · rw [run_cons, commit_of_ok hcall]
              exact hq
            · rw [← hpass]
              rfl

theorem outcome_is_foretold_sample :
    let v := run (exec sampleDeployment) sampleWorld (sampleVotes.take 3)
    ∃ p, v.governor.proposals.get 1 = some p ∧
      ∃ q, (run (exec sampleDeployment) v (sampleVotes.drop 3)).governor.proposals.get 1 = some q ∧
        (q = p ∨ DecidedIn sampleDeployment v (sampleVotes.drop 3) p q) := by
  intro v
  have hsome : (v.governor.proposals.get 1).isSome := by decide +kernel
  obtain ⟨p, hp⟩ := Option.isSome_iff_exists.mp hsome
  have hfields : ∀ p', v.governor.proposals.get 1 = some p' →
      p'.state = .active ∧ p'.endTime = 100 := by
    intro p' hp'
    obtain rfl := Option.some.inj hp'
    decide +kernel
  obtain ⟨hactive, hend⟩ := hfields p hp
  refine ⟨p, hp, outcome_is_foretold sampleDeployment hactive _ ?_
    ⟨by decide +kernel, by decide +kernel, hp⟩⟩
  intro c hc
  rw [hend]
  simp only [sampleVotes, List.drop_succ_cons, List.drop_zero, List.mem_cons, List.not_mem_nil,
    or_false] at hc
  rcases hc with rfl | rfl | rfl <;> exact ⟨by decide, fun h => by cases h⟩

end YieldEngine.Governance
