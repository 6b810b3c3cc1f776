import YieldEngine.GovernorRuns

/-! # Voting again

A vote is checked against the power of the voter and takes nothing off it, it may be repeated, and
its amount may be negative.  So one voter decides the tallies of an open proposal: whoever has any
power can bring either side to any value that fits, and whoever has none can still bring it down
(`any_tally_reached`).  A pass over the proposals may then stop at this one, for the sum of its sides
need not fit. -/

namespace YieldEngine.Governance

open CheckedArith Transact SortedMap ProtocolGovernor GovernanceProposal

/-- The proposal `q` is stored under `id` and takes votes of `voter` within `power`. -/
structure TakesVotes (e : GovEnv) (voter : Address) (id : ℕ) (power : ℤ) (w : World)
    (q : GovernanceProposal) : Prop where
  signed : voter ∈ e.auths
  escrow : w.governor.votingEscrow.isSome
  stored : w.governor.proposals.get id = some q
  active : (q.activated e.timestamp).isActive e.timestamp = true
  power : w.escrow.getVotingPower e voter = .ok power

variable {d : Deployment} {w : World} {e : GovEnv} {voter : Address} {id : ℕ} {power : ℤ}
  {q : GovernanceProposal} {support : Bool} {amount : ℤ}

theorem vote_eq_ok (h : TakesVotes e voter id power w q) (hle : amount ≤ power)
    (hfits : Fits 128 (tally q support + amount)) :
    vote e w.escrow w.governor voter id support amount =
      .ok (w.governor.setProposal id ((q.activated e.timestamp).voted voter support amount)) := by
  obtain ⟨a, ha⟩ := Option.isSome_iff_exists.mp h.escrow
  obtain ⟨hactivated, hopen, hperiod⟩ := activated_eq h.active
  simp only [vote, Store.getProposal, Store.getVotingEscrow, bind_eq_ok, GovEnv.requireAuth_eq_ok,
    orRaise_eq_ok, require_eq_ok, exists_const]
  refine ⟨h.signed, q, h.stored, ?_⟩
  rw [hactivated]
  have hopened : ¬ (e.timestamp < q.startTime ∨ e.timestamp ≥ q.endTime) := by omega
  refine ⟨rfl, hopened, a, ha, power, h.power, hle, ?_⟩
  cases support with
  | true =>
      rw [if_pos rfl, show q.votesFor = tally q true from rfl, I128.add_of_fits hfits]
      rfl
  | false =>
      rw [if_neg Bool.false_ne_true, show q.votesAgainst = tally q false from rfl,
        I128.add_of_fits hfits]
      rfl

/-- A vote leaves the proposal open, with the amount added to its side. -/
theorem TakesVotes.vote (h : TakesVotes e voter id power w q) (d : Deployment) (support : Bool)
    (amount : ℤ) (hle : amount ≤ power) (hfits : Fits 128 (tally q support + amount)) :
    ∃ v q', exec d w (e, .governor (.vote voter id support amount)) = .ok v ∧
      TakesVotes e voter id power v q' ∧ (q'.state = .active ∧ q'.endTime = q.endTime) ∧
        tally q' support = tally q support + amount ∧ tally q' (!support) = tally q (!support) := by
  obtain ⟨hactivated, hopen, hperiod⟩ := activated_eq h.active
  have hcall : exec d w (e, .governor (.vote voter id support amount)) =
      .ok { w with
        governor := w.governor.setProposal id
          ((q.activated e.timestamp).voted voter support amount) } := by
    simp only [exec, ProtocolGovernor.exec, vote_eq_ok h hle hfits]
    rfl
  refine ⟨_, _, hcall, ⟨h.signed, h.escrow, get_set_self _ _ _, ?_, h.power⟩, ?_, ?_, ?_⟩
  · rw [hactivated]
    cases support with
    | true => simp [voted, activated, isActive, hperiod]
    | false => simp [voted, activated, isActive, hperiod]
  · rw [hactivated]
    cases support with
    | true => exact ⟨rfl, rfl⟩
    | false => exact ⟨rfl, rfl⟩
  · rw [hactivated]
    cases support with
    | true => rfl
    | false => rfl
  · rw [hactivated]
    cases support with
    | true => rfl
    | false => rfl

/-- The votes of one voter, one after another. -/
def votes (e : GovEnv) (voter : Address) (id : ℕ) (support : Bool) (amounts : List ℤ) :
    List (GovEnv × Action) :=
  amounts.map fun amount => (e, .governor (.vote voter id support amount))

/-- The voter can bring a side of the proposal to `target` by voting, and leave the other. -/
def Reaches (d : Deployment) (e : GovEnv) (voter : Address) (id : ℕ) (power : ℤ) (w : World)
    (q : GovernanceProposal) (support : Bool) (target : ℤ) : Prop :=
  ∃ amounts q', TakesVotes e voter id power
      (run (exec d) w (votes e voter id support amounts)) q' ∧
    (q'.state = .active ∧ q'.endTime = q.endTime) ∧ tally q' support = target ∧
      tally q' (!support) = tally q (!support)

/-- One vote, which may be negative. -/
theorem TakesVotes.reaches_below (h : TakesVotes e voter id power w q) (d : Deployment)
    (support : Bool) {target : ℤ} (htarget : Fits 128 target)
    (hle : target ≤ tally q support + power) : Reaches d e voter id power w q support target := by
  obtain ⟨v, q', hcall, hnext, htime, hown, hother⟩ := h.vote d support
    (target - tally q support) (by omega) (by rwa [add_sub_cancel])
  refine ⟨[target - tally q support], q', ?_, htime, by rw [hown, add_sub_cancel], hother⟩
  rw [votes, List.map_singleton, run_cons, run_nil, commit_of_ok hcall]
  exact hnext

/-- As many votes of all his power as are needed, and a last one. -/
theorem TakesVotes.reaches {w : World} {q : GovernanceProposal}
    (h : TakesVotes e voter id power w q) (d : Deployment) (support : Bool) (hpos : 0 < power)
    (hfits : Fits 128 (tally q support)) {target : ℤ} (htarget : Fits 128 target) :
    Reaches d e voter id power w q support target := by
  by_cases hlast : target ≤ tally q support + power
  · exact h.reaches_below d support htarget hlast
  · have hlow := hfits.1
    have hhigh := htarget.2
    obtain ⟨v, q', hcall, hnext, htime, hown, hother⟩ := h.vote d support power le_rfl
      ⟨by omega, by omega⟩
    obtain ⟨amounts, q'', hend, hsame, htally, hkept⟩ :=
      hnext.reaches d support hpos ⟨by omega, by omega⟩ htarget
    refine ⟨power :: amounts, q'', ?_, ⟨hsame.1, hsame.2.trans htime.2⟩, htally,
      hkept.trans hother⟩
    rw [votes, List.map_cons, run_cons, commit_of_ok hcall]
    exact hend
termination_by (target - tally q support).toNat
decreasing_by omega

/-- From any state, a voter whose votes an open proposal takes brings a side to any target that fits
by voting alone, and leaves the other side: any target at all when he has some power, and any
target up to one vote of his power otherwise. -/
theorem any_tally_reached (d : Deployment) {w : World} {q : GovernanceProposal}
    (h : TakesVotes e voter id power w q) (support : Bool) (hfits : Fits 128 (tally q support))
    (target : ℤ) (htarget : Fits 128 target)
    (hreach : 0 < power ∨ target ≤ tally q support + power) :
    ∃ amounts q', TakesVotes e voter id power
        (run (exec d) w (votes e voter id support amounts)) q' ∧
      (q'.state = .active ∧ q'.endTime = q.endTime) ∧ tally q' support = target ∧
        tally q' (!support) = tally q (!support) := by
  rcases hreach with hpos | hle
  · exact h.reaches d support hpos hfits htarget
  · exact h.reaches_below d support htarget hle

/-- The state after the proposal of the run above was made. -/
def sampleProposed : World := run (exec sampleDeployment) sampleWorld (sampleVotes.take 2)

theorem sampleProposed_takesVotes :
    ∃ q, TakesVotes ⟨[2], 1, 0⟩ 2 1 999999992072552 sampleProposed q ∧
      tally q true = 0 ∧ tally q false = 0 ∧ q.endTime = 100 := by
  have hsome : (sampleProposed.governor.proposals.get 1).isSome := by decide +kernel
  obtain ⟨q, hq⟩ := Option.isSome_iff_exists.mp hsome
  have hfields : ∀ q', sampleProposed.governor.proposals.get 1 = some q' →
      (q'.activated 1).isActive 1 = true ∧ q'.votesFor = 0 ∧ q'.votesAgainst = 0 ∧
        q'.endTime = 100 := by
    intro q' hq'
    obtain rfl := Option.some.inj hq'
    decide +kernel
  obtain ⟨hactive, hfor, hagainst, hend⟩ := hfields q hq
  exact ⟨q, ⟨by decide, by decide +kernel, hq, hactive, by rfl⟩, hfor, hagainst, hend⟩

theorem any_tally_reached_sample :
    ∃ q, (sampleProposed.governor.proposals.get 1 = some q ∧ tally q true = 0) ∧
      ∃ amounts q', TakesVotes ⟨[2], 1, 0⟩ 2 1 999999992072552
          (run (exec sampleDeployment) sampleProposed (votes ⟨[2], 1, 0⟩ 2 1 true amounts)) q' ∧
        (q'.state = .active ∧ q'.endTime = q.endTime) ∧ tally q' true = 2 ^ 126 ∧
          tally q' (!true) = tally q (!true) := by
  obtain ⟨q, h, hfor, -, -⟩ := sampleProposed_takesVotes
  exact ⟨q, ⟨h.stored, hfor⟩, any_tally_reached sampleDeployment h true (by rw [hfor]; decide)
    (2 ^ 126) (by decide) (.inl (by decide))⟩

/-! ### A pass that stops -/

/-- The voting on the proposal numbered `id` ends at `ending`, and its sides do not add up. -/
structure Jammed (id ending : ℕ) (w : World) : Prop where
  token : w.governor.governanceToken.isSome
  numbered : 1 ≤ id ∧ id ≤ w.governor.count
  stored : ∃ q, w.governor.proposals.get id = some q ∧ q.state = .active ∧ q.endTime = ending ∧
    ¬ Fits 128 (q.votesFor + q.votesAgainst)

theorem Jammed.no_pass {ending : ℕ} (h : Jammed id ending w) (hlate : ending ≤ e.timestamp) :
    ∀ s', updateProposalStates e w.token w.governor ≠ .ok s' := by
  intro s' hpass
  obtain ⟨q, hq, hactive, hending, hbig⟩ := h.stored
  obtain ⟨p, hp, hsettles⟩ :=
    (updateProposalStates_returns_iff h.token).mp ⟨s', hpass⟩ id h.numbered.1 h.numbered.2
  obtain rfl := Option.some.inj (hq.symm.trans hp)
  exact hbig (hsettles.1 hactive (hending ▸ hlate)).1

/-- What leaves the governor alone, or writes another proposal only. -/
theorem Jammed.kept {ending : ℕ} {w' : World} (h : Jammed id ending w)
    (htoken : w'.governor.governanceToken = w.governor.governanceToken)
    (hcount : w.governor.count ≤ w'.governor.count)
    (hcell : w'.governor.proposals.get id = w.governor.proposals.get id) : Jammed id ending w' := by
  refine ⟨by rw [htoken]; exact h.token, ⟨h.numbered.1, h.numbered.2.trans hcount⟩, ?_⟩
  rw [hcell]
  exact h.stored

/-- Only canceling the proposal unjams it. -/
theorem step_jammed {ending : ℕ} {w' : World} {c : GovEnv × Action} (h : Step d w c.1 c.2 w')
    (hlate : ending ≤ c.1.timestamp) (hcancel : c.2 ≠ .governor (.cancel id))
    (hs : Jammed id ending w) : Jammed id ending w' := by
  obtain ⟨e, a⟩ := c
  obtain ⟨q, hq, hactive, hending, -⟩ := hs.stored
  cases h with
  | governor h =>
      cases h with
      | propose _ _ _ _ =>
          have hle := hs.numbered.2
          refine hs.kept rfl (Nat.le_succ _) (get_set_ne _ _ ?_)
          omega
      | @vote voter i support amount p _ hp hopen _ =>
          refine hs.kept rfl le_rfl (get_set_ne _ _ ?_)
          rintro rfl
          obtain rfl := Option.some.inj (hq.symm.trans hp)
          obtain ⟨-, -, -, hearly⟩ := activated_eq hopen
          omega
      | @queue i p hp hstate =>
          refine hs.kept rfl le_rfl (get_set_ne _ _ ?_)
          rintro rfl
          obtain rfl := Option.some.inj (hq.symm.trans hp)
          rw [hactive] at hstate
          cases hstate
      | @execute i p hp hstate _ _ =>
          refine hs.kept rfl le_rfl (get_set_ne _ _ ?_)
          rintro rfl
          obtain rfl := Option.some.inj (hq.symm.trans hp)
          rw [hactive] at hstate
          cases hstate
      | @cancel i p hp _ =>
          refine hs.kept rfl le_rfl (get_set_ne _ _ ?_)
          rintro rfl
          exact hcancel rfl
      | updateProposalStates h => exact absurd h (hs.no_pass hlate _)
      | _ => exact hs.kept rfl le_rfl rfl
  | _ => exact hs.kept rfl le_rfl rfl

theorem run_jammed {ending : ℕ} (later : List (GovEnv × Action))
    (hlater : ∀ c ∈ later, ending ≤ c.1.timestamp ∧ c.2 ≠ .governor (.cancel id))
    (h : Jammed id ending w) : Jammed id ending (run (exec d) w later) :=
  run_invariant_along
    (Q := fun _ c => ending ≤ c.1.timestamp ∧ c.2 ≠ .governor (.cancel id))
    (fun _ _ _ hs hc hcall => step_jammed (exec_step hcall) hc.1 hc.2 hs) later w h
    (along_of_forall later w hlater)

/-- Votes write their proposal only. -/
theorem run_votes (d : Deployment) (e : GovEnv) (voter : Address) (id : ℕ) (support : Bool)
    (amounts : List ℤ) (w : World) :
    (run (exec d) w (votes e voter id support amounts)).governor.governanceToken =
        w.governor.governanceToken ∧
      (run (exec d) w (votes e voter id support amounts)).governor.count = w.governor.count := by
  refine run_invariant_along
    (Q := fun _ c => ∃ amount, c = (e, Action.governor (.vote voter id support amount)))
    (I := fun v : World => v.governor.governanceToken = w.governor.governanceToken ∧
      v.governor.count = w.governor.count) ?_ _ _ ⟨rfl, rfl⟩ ?_
  · rintro v _ v' ⟨htoken, hcount⟩ ⟨amount, rfl⟩ hcall
    have hstep := exec_step hcall
    dsimp only at hstep
    cases hstep with
    | governor h =>
        cases h with
        | vote _ _ _ _ => exact ⟨htoken, hcount⟩
  · apply along_of_forall
    intro c hc
    obtain ⟨amount, -, rfl⟩ := List.mem_map.mp hc
    exact ⟨amount, rfl⟩

/-- Any voter with some power, voting alone on a proposal that takes his votes, can bring about that
from the end of its voting period on no pass over the proposals returns, whatever others call and in
whatever order, until that proposal is canceled. -/
theorem passes_jammed (d : Deployment) {w : World} {q : GovernanceProposal}
    (h : TakesVotes e voter id power w q) (hpos : 0 < power)
    (htoken : w.governor.governanceToken.isSome) (hnumbered : 1 ≤ id ∧ id ≤ w.governor.count)
    (hfor : Fits 128 (tally q true)) (hagainst : Fits 128 (tally q false)) :
    ∃ amounts against, ∀ later : List (GovEnv × Action),
      (∀ c ∈ later, q.endTime ≤ c.1.timestamp ∧ c.2 ≠ .governor (.cancel id)) →
        ∀ e' v, q.endTime ≤ e'.timestamp →
          exec d (run (exec d) w (votes e voter id true amounts ++
            votes e voter id false against ++ later)) (e', .governor .updateProposalStates) ≠
              .ok v := by
  obtain ⟨amounts, q', hnext, ⟨-, htime⟩, hall, hsame⟩ :=
    h.reaches d true hpos hfor (by decide : Fits 128 (2 ^ 127 - 1))
  have hagainst' : Fits 128 (tally q' false) := by
    rw [show tally q' false = tally q false from hsame]
    exact hagainst
  obtain ⟨against, q'', hend, ⟨hactive, htime'⟩, hone, hkept⟩ :=
    hnext.reaches d false hpos hagainst' (by decide : Fits 128 1)
  refine ⟨amounts, against, fun later hlater e' v he' => ?_⟩
  have hboth : tally q'' true + tally q'' false = 2 ^ 127 := by
    rw [hone, show tally q'' true = tally q' true from hkept, hall]
    rfl
  obtain ⟨htoken1, hcount1⟩ := run_votes d e voter id true amounts w
  obtain ⟨htoken2, hcount2⟩ := run_votes d e voter id false against
    (run (exec d) w (votes e voter id true amounts))
  have hjammed : Jammed id q.endTime (run (exec d) (run (exec d) w (votes e voter id true amounts))
      (votes e voter id false against)) := by
    refine ⟨by rw [htoken2, htoken1]; exact htoken, by rw [hcount2, hcount1]; exact hnumbered,
      q'', hend.stored, hactive, htime'.trans htime, fun hfits => ?_⟩
    rw [show q''.votesFor + q''.votesAgainst = 2 ^ 127 from hboth] at hfits
    exact absurd hfits (by decide)
  rw [run_append, run_append]
  intro hpass
  obtain ⟨s', hs', -⟩ := map_eq_ok.mp hpass
  exact (run_jammed later hlater hjammed).no_pass he' s' hs'

theorem passes_jammed_sample :
    ∃ q, sampleProposed.governor.proposals.get 1 = some q ∧ ∃ amounts against,
      ∀ later : List (GovEnv × Action),
        (∀ c ∈ later, q.endTime ≤ c.1.timestamp ∧ c.2 ≠ .governor (.cancel 1)) →
          ∀ e' v, q.endTime ≤ e'.timestamp →
            exec sampleDeployment (run (exec sampleDeployment) sampleProposed
              (votes ⟨[2], 1, 0⟩ 2 1 true amounts ++ votes ⟨[2], 1, 0⟩ 2 1 false against ++ later))
                (e', .governor .updateProposalStates) ≠ .ok v := by
  obtain ⟨q, h, hfor, hagainst, -⟩ := sampleProposed_takesVotes
  exact ⟨q, h.stored, passes_jammed sampleDeployment h (by decide) (by decide +kernel)
    (by decide +kernel) (by rw [hfor]; decide) (by rw [hagainst]; decide)⟩

end YieldEngine.Governance
