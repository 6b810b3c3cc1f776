import Mathlib.Logic.Relation
import YieldEngine.GovernorRuns

/-! # What becomes of a proposal

From any state on, whatever is called in whatever order, the record of a proposal moves forward only
(`record_follows`): its terms never change, its votes do not change once it is decided, and a
record that has come to its end does not change at all.

So a queued proposal cannot be stopped: until its time runs out it stays as it is or has been executed,
and anyone can execute it once its timelock is over (`queued_can_be_executed`).  The pass over the
proposals advances all of them or none (`pass_returns_iff`). -/

namespace YieldEngine.ProtocolGovernor

open CheckedArith

/-- One move of the state of a proposal. -/
inductive Moves : ProposalState → ProposalState → Prop
  | start : Moves .pending .active
  | cancel {state : ProposalState} (hopen : state = .pending ∨ state = .active) :
      Moves state .canceled
  | fail : Moves .active .defeated
  | succeed : Moves .active .succeeded
  | queue : Moves .succeeded .queued
  | expire : Moves .queued .expired
  | execute : Moves .queued .executed

/-- How far a proposal has come; nothing moves on from the last stage. -/
def ProposalState.stage : ProposalState → ℕ
  | .pending => 0
  | .active => 1
  | .succeeded => 2
  | .queued => 3
  | .canceled => 4
  | .defeated => 4
  | .expired => 4
  | .executed => 4

theorem Moves.stage_lt {a b : ProposalState} (h : Moves a b) : a.stage < b.stage := by
  cases h with
  | cancel hopen => rcases hopen with rfl | rfl <;> decide
  | _ => decide

theorem stage_le {a b : ProposalState} (h : Relation.ReflTransGen Moves a b) :
    a.stage ≤ b.stage := by
  induction h with
  | refl => exact le_rfl
  | tail _ hstep ih => exact ih.trans hstep.stage_lt.le

/-- The record `p` may become `q`. -/
structure Follows (p q : GovernanceProposal) : Prop where
  moves : Relation.ReflTransGen Moves p.state q.state
  terms : q.proposer = p.proposer ∧ q.description = p.description ∧ q.callData = p.callData ∧
    q.startTime = p.startTime ∧ q.endTime = p.endTime ∧ q.snapshotBlock = p.snapshotBlock
  votes : 2 ≤ p.state.stage → q.votesFor = p.votesFor ∧ q.votesAgainst = p.votesAgainst ∧
    q.forVoters = p.forVoters ∧ q.againstVoters = p.againstVoters
  eta : 3 ≤ p.state.stage → q.eta = p.eta
  final : p.state.stage = 4 → q = p

theorem Follows.refl (p : GovernanceProposal) : Follows p p :=
  ⟨.refl, ⟨rfl, rfl, rfl, rfl, rfl, rfl⟩, fun _ => ⟨rfl, rfl, rfl, rfl⟩, fun _ => rfl, fun _ => rfl⟩

theorem Follows.trans {p q r : GovernanceProposal} (h : Follows p q) (h' : Follows q r) :
    Follows p r where
  moves := h.moves.trans h'.moves
  terms := by
    obtain ⟨h1, h2, h3, h4, h5, h6⟩ := h.terms
    rw [← h1, ← h2, ← h3, ← h4, ← h5, ← h6]
    exact h'.terms
  votes := by
    intro hstage
    obtain ⟨h1, h2, h3, h4⟩ := h.votes hstage
    rw [← h1, ← h2, ← h3, ← h4]
    exact h'.votes (hstage.trans (stage_le h.moves))
  eta := by
    intro hstage
    rw [← h.eta hstage]
    exact h'.eta (hstage.trans (stage_le h.moves))
  final := by
    intro hstage
    obtain rfl := h.final hstage
    exact h'.final hstage

/-- A move that leaves the terms, from a state where what it changes may change. -/
theorem Follows.of_moves {p q : GovernanceProposal} (h : Moves p.state q.state)
    (hterms : q.proposer = p.proposer ∧ q.description = p.description ∧
      q.callData = p.callData ∧ q.startTime = p.startTime ∧ q.endTime = p.endTime ∧
        q.snapshotBlock = p.snapshotBlock)
    (hvotes : q.votesFor = p.votesFor ∧ q.votesAgainst = p.votesAgainst ∧
      q.forVoters = p.forVoters ∧ q.againstVoters = p.againstVoters)
    (heta : 3 ≤ p.state.stage → q.eta = p.eta) : Follows p q := by
  refine ⟨.single h, hterms, fun _ => hvotes, heta, fun hfinal => ?_⟩
  have hlt := h.stage_lt
  have hmost : q.state.stage ≤ 4 := by cases q.state <;> decide
  omega

theorem follows_voted {p : GovernanceProposal} {now : ℕ}
    (hactive : (p.activated now).isActive now = true) (voter : Address) (support : Bool)
    (amount : ℤ) : Follows p ((p.activated now).voted voter support amount) := by
  obtain ⟨hactivated, hopen, -⟩ := Governance.activated_eq hactive
  rw [hactivated]
  have hmoves : Relation.ReflTransGen Moves p.state .active := by
    rcases hopen with h | h <;> rw [h]
    exact .single .start
  have hearly : p.state.stage ≤ 1 := by
    rcases hopen with h | h <;> rw [h] <;> decide
  cases support with
  | true =>
      exact ⟨hmoves, ⟨rfl, rfl, rfl, rfl, rfl, rfl⟩, fun _ => by omega, fun _ => by omega,
        fun _ => by omega⟩
  | false =>
      exact ⟨hmoves, ⟨rfl, rfl, rfl, rfl, rfl, rfl⟩, fun _ => by omega, fun _ => by omega,
        fun _ => by omega⟩

theorem follows_advance (p : GovernanceProposal) (now : ℕ) (supply : ℤ) :
    Follows p (p.advance now supply) := by
  unfold GovernanceProposal.advance
  cases hstate : p.state with
  | pending =>
      dsimp only
      split_ifs with h
      · exact .of_moves (by rw [hstate]; exact .start) ⟨rfl, rfl, rfl, rfl, rfl, rfl⟩
          ⟨rfl, rfl, rfl, rfl⟩ fun _ => rfl
      · exact .refl p
  | active =>
      dsimp only
      split_ifs with h hpasses
      · exact .of_moves (by rw [hstate]; exact .succeed) ⟨rfl, rfl, rfl, rfl, rfl, rfl⟩
          ⟨rfl, rfl, rfl, rfl⟩ fun _ => rfl
      · exact .of_moves (by rw [hstate]; exact .fail) ⟨rfl, rfl, rfl, rfl, rfl, rfl⟩
          ⟨rfl, rfl, rfl, rfl⟩ fun _ => rfl
      · exact .refl p
  | queued =>
      dsimp only
      split_ifs with h
      · exact .of_moves (by rw [hstate]; exact .expire) ⟨rfl, rfl, rfl, rfl, rfl, rfl⟩
          ⟨rfl, rfl, rfl, rfl⟩ fun _ => rfl
      · exact .refl p
  | _ => exact .refl p

section effects
variable {e : GovEnv} {token : GovernanceToken.Store} {escrow : VotingEscrow.Store}
  {s s' : Store} {a : Action} {id j : ℕ} {p q p' : GovernanceProposal}

theorem follows_setProposal (hp : s.proposals.get id = some p) (hj : s.proposals.get j = some p')
    (h : Follows p' q) : ∃ r, (s.setProposal j q).proposals.get id = some r ∧ Follows p r := by
  rw [Store.setProposal, SortedMap.get_set]
  split_ifs with hid
  · subst hid
    obtain rfl := Option.some.inj (hp.symm.trans hj)
    exact ⟨q, rfl, h⟩
  · exact ⟨p, hp, .refl p⟩

/-- A call makes of a proposal something that may follow it. -/
theorem Effect.follows (h : Effect e token escrow s a s') (hgov : s.governanceToken.isSome)
    (hid : id ≤ s.count) (hp : s.proposals.get id = some p) :
    ∃ q, s'.proposals.get id = some q ∧ Follows p q := by
  cases h with
  | propose _ _ _ _ =>
      refine ⟨p, ?_, .refl p⟩
      rw [← hp]
      exact SortedMap.get_set_ne _ _ (by omega)
  | vote _ hj hactive _ => exact follows_setProposal hp hj (follows_voted hactive _ _ _)
  | queue hj hstate =>
      exact follows_setProposal hp hj (.of_moves (by rw [hstate]; exact .queue)
        ⟨rfl, rfl, rfl, rfl, rfl, rfl⟩ ⟨rfl, rfl, rfl, rfl⟩
          fun hstage => absurd hstage (by rw [hstate]; decide))
  | execute hj hstate _ _ =>
      exact follows_setProposal hp hj (.of_moves (by rw [hstate]; exact .execute)
        ⟨rfl, rfl, rfl, rfl, rfl, rfl⟩ ⟨rfl, rfl, rfl, rfl⟩ fun _ => rfl)
  | cancel hj hstate =>
      exact follows_setProposal hp hj (.of_moves (.cancel hstate)
        ⟨rfl, rfl, rfl, rfl, rfl, rfl⟩ ⟨rfl, rfl, rfl, rfl⟩ fun _ => rfl)
  | updateProposalStates h =>
      obtain ⟨-, hcells⟩ := updateProposalStates_ok hgov h
      rw [hcells id, hp]
      split_ifs
      · exact ⟨_, rfl, follows_advance p _ _⟩
      · exact ⟨p, rfl, .refl p⟩
  | _ => exact ⟨p, hp, .refl p⟩

/-- The governor keeps its token, and its numbers grow. -/
theorem Effect.grows (h : Effect e token escrow s a s') (hgov : s.governanceToken.isSome) :
    s'.governanceToken = s.governanceToken ∧ s.count ≤ s'.count := by
  cases h with
  | propose _ _ _ _ => exact ⟨rfl, Nat.le_succ _⟩
  | updateProposalStates h =>
      obtain ⟨⟨proposals, rfl⟩, -⟩ := updateProposalStates_ok hgov h
      exact ⟨rfl, le_rfl⟩
  | _ => exact ⟨rfl, le_rfl⟩

end effects
end YieldEngine.ProtocolGovernor

namespace YieldEngine.Governance

open CheckedArith Transact SortedMap ProtocolGovernor

variable {d : Deployment} {w w' : World} {id : ℕ}

/-- The record stored under `id` has followed from `p`. -/
structure Followed (id : ℕ) (p : GovernanceProposal) (w : World) : Prop where
  token : w.governor.governanceToken.isSome
  numbered : id ≤ w.governor.count
  stored : ∃ q, w.governor.proposals.get id = some q ∧ Follows p q

theorem step_followed {p : GovernanceProposal} {e : GovEnv} {a : Action} (h : Step d w e a w')
    (hs : Followed id p w) : Followed id p w' := by
  cases h with
  | governor h =>
      obtain ⟨q, hq, hpq⟩ := hs.stored
      obtain ⟨r, hr, hqr⟩ := h.follows hs.token hs.numbered hq
      obtain ⟨htoken, hcount⟩ := h.grows hs.token
      exact ⟨by rw [htoken]; exact hs.token, hs.numbered.trans hcount, r, hr, hpq.trans hqr⟩
  | _ => exact ⟨hs.token, hs.numbered, hs.stored⟩

/-- From any state, over every run, a proposal stays on record and moves forward only: its terms
stay, its votes stay once it is decided, its time of execution stays once it is queued, and nothing
changes it once it is canceled, defeated, expired or executed. -/
theorem record_follows (d : Deployment) {w : World} {p : GovernanceProposal}
    (htoken : w.governor.governanceToken.isSome) (hnumbered : id ≤ w.governor.count)
    (hp : w.governor.proposals.get id = some p) (calls : List (GovEnv × Action)) :
    ∃ q, (run (exec d) w calls).governor.proposals.get id = some q ∧
      Relation.ReflTransGen Moves p.state q.state ∧
      (q.proposer = p.proposer ∧ q.description = p.description ∧ q.callData = p.callData ∧
        q.startTime = p.startTime ∧ q.endTime = p.endTime ∧ q.snapshotBlock = p.snapshotBlock) ∧
      (2 ≤ p.state.stage → q.votesFor = p.votesFor ∧ q.votesAgainst = p.votesAgainst ∧
        q.forVoters = p.forVoters ∧ q.againstVoters = p.againstVoters) ∧
      (3 ≤ p.state.stage → q.eta = p.eta) ∧ (p.state.stage = 4 → q = p) := by
  have hstart : Followed id p w := ⟨htoken, hnumbered, p, hp, .refl p⟩
  have hrun : Followed id p (run (exec d) w calls) :=
    run_invariant (fun _ _ _ hs hcall => step_followed (exec_step hcall) hs) calls hstart
  obtain ⟨q, hq, hpq⟩ := hrun.stored
  exact ⟨q, hq, hpq.moves, hpq.terms, hpq.votes, hpq.eta, hpq.final⟩

theorem record_follows_sample :
    ∃ p, (run (exec sampleDeployment) sampleWorld (sampleVotes.take 4)).governor.proposals.get 1 =
        some p ∧ ∃ q, (run (exec sampleDeployment) (run (exec sampleDeployment) sampleWorld
          (sampleVotes.take 4)) (sampleVotes.drop 4)).governor.proposals.get 1 = some q ∧
      Relation.ReflTransGen Moves p.state q.state ∧
      (q.proposer = p.proposer ∧ q.description = p.description ∧ q.callData = p.callData ∧
        q.startTime = p.startTime ∧ q.endTime = p.endTime ∧ q.snapshotBlock = p.snapshotBlock) ∧
      (2 ≤ p.state.stage → q.votesFor = p.votesFor ∧ q.votesAgainst = p.votesAgainst ∧
        q.forVoters = p.forVoters ∧ q.againstVoters = p.againstVoters) ∧
      (3 ≤ p.state.stage → q.eta = p.eta) ∧ (p.state.stage = 4 → q = p) := by
  have hsome : ((run (exec sampleDeployment) sampleWorld
      (sampleVotes.take 4)).governor.proposals.get 1).isSome := by decide +kernel
  obtain ⟨p, hp⟩ := Option.isSome_iff_exists.mp hsome
  exact ⟨p, hp, record_follows sampleDeployment (by decide +kernel) (by decide +kernel) hp _⟩

/-! ### Queued proposals -/

/-- The queued proposal `q` is untouched or has been executed. -/
structure Waiting (id : ℕ) (q : GovernanceProposal) (w : World) : Prop where
  token : w.governor.governanceToken.isSome
  numbered : id ≤ w.governor.count
  stored : w.governor.proposals.get id = some q ∨
    w.governor.proposals.get id = some { q with executed := true, state := .executed }

theorem step_waiting {q : GovernanceProposal} {c : GovEnv × Action} (h : Step d w c.1 c.2 w')
    (hqueued : q.state = .queued) (htime : c.1.timestamp < q.eta + gracePeriod)
    (hs : Waiting id q w) : Waiting id q w' := by
  obtain ⟨e, a⟩ := c
  cases h with
  | governor h =>
      obtain ⟨htoken, hcount⟩ := h.grows hs.token
      refine ⟨by rw [htoken]; exact hs.token, hs.numbered.trans hcount, ?_⟩
      rcases hs.stored with hq | hq
      · -- a call that is none for a queued proposal leaves this one
        have hleft : ∀ {j : ℕ} {p r : GovernanceProposal}, w.governor.proposals.get j = some p →
            p.state ≠ .queued →
              (w.governor.setProposal j r).proposals.get id = some q := by
          intro j p r hj hstate
          rw [← hq]
          refine get_set_ne _ _ ?_
          rintro rfl
          obtain rfl := Option.some.inj (hq.symm.trans hj)
          exact hstate hqueued
        cases h with
        | propose _ _ _ _ =>
            refine .inl ?_
            rw [← hq]
            have hle := hs.numbered
            exact get_set_ne _ _ (by omega)
        | vote _ hj hactive _ =>
            obtain ⟨-, hopen, -⟩ := activated_eq hactive
            exact .inl (hleft hj (by rcases hopen with h | h <;> rw [h] <;> decide))
        | queue hj hstate => exact .inl (hleft hj (by rw [hstate]; decide))
        | @execute j p hj _ _ _ =>
            by_cases hid : id = j
            · subst hid
              obtain rfl := Option.some.inj (hq.symm.trans hj)
              exact .inr (get_set_self _ _ _)
            · exact .inl ((get_set_ne _ _ hid).trans hq)
        | cancel hj hstate =>
            exact .inl (hleft hj (by rcases hstate with h | h <;> rw [h] <;> decide))
        | updateProposalStates h =>
            obtain ⟨-, hcells⟩ := updateProposalStates_ok hs.token h
            have hearly : q.advance e.timestamp w.token.totalSupply = q := by
              simp only [GovernanceProposal.advance, hqueued, if_neg (not_le.mpr htime)]
            rw [hcells id, hq, Option.map_some, hearly, ite_self]
            exact .inl rfl
        | _ => exact .inl hq
      · obtain ⟨r, hr, hfollows⟩ := h.follows hs.token hs.numbered hq
        obtain rfl := hfollows.final rfl
        exact .inr hr
  | _ => exact ⟨hs.token, hs.numbered, hs.stored⟩

/-- In every reachable state, over every run before its time runs out, a queued proposal is
untouched or has been executed; as long as it is untouched, anyone can execute it once its
timelock is over. -/
theorem queued_can_be_executed {e : GovEnv} {p : Parties} {w : World} (d : Deployment)
    (h : deployed e d p = .ok w) (calls : List (GovEnv × Action)) (id : ℕ) {q : GovernanceProposal}
    (hq : (run (exec d) w calls).governor.proposals.get id = some q) (hqueued : q.state = .queued)
    (later : List (GovEnv × Action))
    (htime : ∀ c ∈ later, c.1.timestamp < q.eta + gracePeriod) :
    let v := run (exec d) w (calls ++ later)
    let done := { q with executed := true, state := .executed }
    v.governor.proposals.get id = some done ∨
      v.governor.proposals.get id = some q ∧ ∀ e' : GovEnv, q.eta ≤ e'.timestamp →
        exec d v (e', .governor (.execute id)) =
          .ok { v with governor := v.governor.setProposal id done } := by
  have hbooks := books_of_run h calls id
  have hstart : Waiting id q (run (exec d) w calls) := by
    have hnumbered := (hbooks.numbered id).mp (by rw [hq]; rfl)
    exact ⟨hbooks.token, hnumbered.2, .inl hq⟩
  have hrun : Waiting id q (run (exec d) (run (exec d) w calls) later) :=
    run_invariant_along (Q := fun _ c => c.1.timestamp < q.eta + gracePeriod)
      (fun _ _ _ hs hc hcall => step_waiting (exec_step hcall) hqueued hc hs) later _ hstart
      (along_of_forall later _ htime)
  intro v done
  have hv : v = run (exec d) (run (exec d) w calls) later := run_append w calls later
  rw [← hv] at hrun
  rcases hrun.stored with huntouched | hdone
  · refine .inr ⟨huntouched, fun e' heta => ?_⟩
    have hnew : q.executed = false := by
      rw [← Bool.not_eq_true, (hbooks.trail q hq).flagged.executed, hqueued]
      decide
    have hcall : execute e' v.governor id = .ok (v.governor.setProposal id done) := by
      simp only [execute, Store.getProposal, bind_eq_ok, orRaise_eq_ok, require_eq_ok, pure_eq_ok,
        exists_const]
      exact ⟨q, huntouched, hqueued, heta, hnew, rfl⟩
    simp only [exec, ProtocolGovernor.exec, hcall]
    rfl
  · exact .inl hdone

theorem queued_can_be_executed_sample :
    ∃ q, ((run (exec sampleDeployment) sampleWorld (sampleVotes.take 5)).governor.proposals.get 1 =
        some q ∧ q.state = .queued) ∧
      let v := run (exec sampleDeployment) sampleWorld (sampleVotes.take 5 ++
        [(⟨[3], 7, 0⟩, .governor (.cancel 1)), (⟨[], 9, 0⟩, .governor .updateProposalStates)])
      let done := { q with executed := true, state := .executed }
      v.governor.proposals.get 1 = some done ∨
        v.governor.proposals.get 1 = some q ∧ ∀ e' : GovEnv, q.eta ≤ e'.timestamp →
          exec sampleDeployment v (e', .governor (.execute 1)) =
            .ok { v with governor := v.governor.setProposal 1 done } := by
  have hsome : ((run (exec sampleDeployment) sampleWorld
      (sampleVotes.take 5)).governor.proposals.get 1).isSome := by decide +kernel
  obtain ⟨q, hq⟩ := Option.isSome_iff_exists.mp hsome
  have hfields : ∀ q', (run (exec sampleDeployment) sampleWorld
      (sampleVotes.take 5)).governor.proposals.get 1 = some q' →
        q'.state = .queued ∧ q'.eta = 172900 := by
    intro q' hq'
    obtain rfl := Option.some.inj hq'
    decide +kernel
  obtain ⟨hqueued, heta⟩ := hfields q hq
  refine ⟨q, ⟨hq, hqueued⟩,
    queued_can_be_executed sampleDeployment sampleWorld_deployed _ 1 hq hqueued _ ?_⟩
  rw [heta]
  decide

/-! ### The pass over the proposals -/

/-- In every reachable state a pass returns exactly when the numbers of every proposal on record fit,
so never for want of a proposal; it then advances each of them once. -/
theorem pass_returns_iff {e : GovEnv} {p : Parties} {w : World} (d : Deployment)
    (h : deployed e d p = .ok w) (calls : List (GovEnv × Action)) (e' : GovEnv) :
    let v := run (exec d) w calls
    ((∃ v', exec d v (e', .governor .updateProposalStates) = .ok v') ↔
      ∀ id q, v.governor.proposals.get id = some q →
        q.Settles e'.timestamp v.token.totalSupply) ∧
      ∀ v', exec d v (e', .governor .updateProposalStates) = .ok v' → ∀ id,
        v'.governor.proposals.get id = (v.governor.proposals.get id).map
          (GovernanceProposal.advance e'.timestamp v.token.totalSupply) := by
  intro v
  have hbooks := books_of_run h calls 0
  have hnumbered : ∀ i, (v.governor.proposals.get i).isSome ↔ 1 ≤ i ∧ i ≤ v.governor.count :=
    hbooks.numbered
  constructor
  · have hpass : (∃ v', exec d v (e', .governor .updateProposalStates) = .ok v') ↔
        ∃ s', updateProposalStates e' v.token v.governor = .ok s' := by
      simp only [exec, ProtocolGovernor.exec, map_eq_ok]
      constructor
      · rintro ⟨_, s', hs', _⟩
        exact ⟨s', hs'⟩
      · rintro ⟨s', hs'⟩
        exact ⟨_, s', hs', rfl⟩
    rw [hpass, updateProposalStates_returns_iff hbooks.token]
    constructor
    · intro hall id q hq
      obtain ⟨hpos, hle⟩ := (hnumbered id).mp (by rw [hq]; rfl)
      obtain ⟨p', hp', hsettles⟩ := hall id hpos hle
      obtain rfl := Option.some.inj (hq.symm.trans hp')
      exact hsettles
    · intro hall id hpos hle
      obtain ⟨q, hq⟩ := Option.isSome_iff_exists.mp ((hnumbered id).mpr ⟨hpos, hle⟩)
      exact ⟨q, hq, hall id q hq⟩
  · intro v' hcall id
    obtain ⟨s', hs', rfl⟩ := map_eq_ok.mp hcall
    obtain ⟨-, hcells⟩ := updateProposalStates_ok hbooks.token hs'
    refine (hcells id).trans ?_
    split_ifs with hid
    · rfl
    · have hnone : v.governor.proposals.get id = none := by
        rw [← Option.not_isSome_iff_eq_none, hnumbered]
        exact hid
      rw [hnone]
      rfl

theorem pass_returns_iff_sample :
    let v := run (exec sampleDeployment) sampleWorld (sampleVotes.take 3)
    ((∃ v', exec sampleDeployment v (⟨[], 100, 0⟩, .governor .updateProposalStates) = .ok v') ↔
      ∀ id q, v.governor.proposals.get id = some q → q.Settles 100 v.token.totalSupply) ∧
      ∀ v', exec sampleDeployment v (⟨[], 100, 0⟩, .governor .updateProposalStates) = .ok v' →
        ∀ id, v'.governor.proposals.get id = (v.governor.proposals.get id).map
          (GovernanceProposal.advance 100 v.token.totalSupply) :=
  pass_returns_iff sampleDeployment sampleWorld_deployed _ _

end YieldEngine.Governance
