import YieldEngine.ProposalTrail

/-! # Proposals over whole runs

After every run the proposals are exactly those numbered from one to the count, and each of them has
come to its record by its trail (`Books`, `books_of_run`).  So an executed proposal was certified
after its voting period, against the supply of that time, and waited for its timelock
(`executed_was_certified`).

The tallies are the sums of the accepted ballots, repeated ones included; the maps of voters hold
one ballot of each voter, so that they account for a tally exactly when nobody voted twice
(`tallies_are_ballots`). -/

namespace YieldEngine.Governance

open CheckedArith Transact SortedMap ProtocolGovernor

variable {d : Deployment} {w w' : World}

/-- The proposals are numbered up to the count, and `log` has led to the one numbered `id`. -/
structure Books (id : ℕ) (log : List Event) (w : World) : Prop where
  numbered : ∀ i, (w.governor.proposals.get i).isSome ↔ 1 ≤ i ∧ i ≤ w.governor.count
  token : w.governor.governanceToken.isSome
  trail : ∀ p, w.governor.proposals.get id = some p → Trail p log
  unused : w.governor.proposals.get id = none → log = []

section step
variable {id : ℕ} {log : List Event}

/-- A call that writes one of the proposals. -/
theorem Books.set (hs : Books id log w) {j : ℕ} {p q : GovernanceProposal} {more : List Event}
    (hp : w.governor.proposals.get j = some p) (hown : id = j → Trail p log → Trail q (log ++ more))
    (hother : id ≠ j → more = []) :
    Books id (log ++ more) { w with governor := w.governor.setProposal j q } := by
  refine ⟨fun i => ?_, hs.token, fun p' hp' => ?_, fun hnone => ?_⟩
  · rw [← show _ ↔ 1 ≤ i ∧ i ≤ (w.governor.setProposal j q).count from hs.numbered i]
    simp only [Store.setProposal, get_set]
    split_ifs with hij
    · simp [hij, hp]
    · rfl
  · simp only [Store.setProposal, get_set] at hp'
    split_ifs at hp' with hid
    · obtain rfl := Option.some.inj hp'
      exact hown hid (hs.trail p (hid ▸ hp))
    · rw [hother hid, List.append_nil]
      exact hs.trail p' hp'
  · simp only [Store.setProposal, get_set] at hnone
    split_ifs at hnone with hid
    rw [hother hid, List.append_nil]
    exact hs.unused hnone

/-- A call that leaves the proposals. -/
theorem Books.kept (hs : Books id log w) (hproposals : w'.governor.proposals = w.governor.proposals)
    (hcount : w'.governor.count = w.governor.count)
    (htoken : w'.governor.governanceToken = w.governor.governanceToken) : Books id (log ++ []) w' := by
  rw [List.append_nil]
  refine ⟨?_, ?_, ?_, ?_⟩
  · rw [hproposals, hcount]
    exact hs.numbered
  · rw [htoken]
    exact hs.token
  · rw [hproposals]
    exact hs.trail
  · rw [hproposals]
    exact hs.unused

theorem effect_books {e : GovEnv} {a : ProtocolGovernor.Action} {s : Store}
    (h : Effect e w.token w.escrow w.governor a s) (hs : Books id log w) :
    Books id (log ++ events id w (e, .governor a)) { w with governor := s } := by
  cases h with
  | @propose proposer description callData duration p _ _ _ hp =>
      have hfree : w.governor.proposals.get (w.governor.count + 1) = none := by
        rw [← Option.not_isSome_iff_eq_none, hs.numbered]
        omega
      have hget : ∀ i, (w.governor.proposals.set (w.governor.count + 1) p).get i =
          if i = w.governor.count + 1 then some p else w.governor.proposals.get i :=
        fun i => get_set _ _ i _
      refine ⟨fun i => ?_, hs.token, fun p' hp' => ?_, fun hnone => ?_⟩
      · change ((w.governor.proposals.set (w.governor.count + 1) p).get i).isSome ↔
          1 ≤ i ∧ i ≤ w.governor.count + 1
        have hold := hs.numbered i
        rw [hget]
        split_ifs with hi
        · simp [hi]
        · rw [hold]
          omega
      · simp only [Store.setProposal, hget, events] at hp' ⊢
        split_ifs at hp' ⊢ with hid
        · obtain rfl := Option.some.inj hp'
          rw [hs.unused (hid ▸ hfree)]
          exact trail_new hp
        · rw [List.append_nil]
          exact hs.trail p' hp'
      · simp only [Store.setProposal, hget, events] at hnone ⊢
        split_ifs at hnone ⊢ with hid
        rw [List.append_nil]
        exact hs.unused hnone
  | vote _ hp hactive hpower =>
      refine hs.set hp (fun hid htrail => ?_) fun hid => if_neg hid
      simp only [events, if_pos hid]
      exact trail_voted htrail hactive hpower
  | queue hp hstate =>
      refine hs.set hp (fun hid htrail => ?_) fun hid => if_neg hid
      simp only [events, if_pos hid]
      exact trail_queued htrail hstate
  | execute hp hstate heta _ =>
      refine hs.set hp (fun hid htrail => ?_) fun hid => if_neg hid
      simp only [events, if_pos hid]
      exact trail_executed htrail hstate heta
  | cancel hp hstate =>
      refine hs.set hp (fun hid htrail => ?_) fun hid => if_neg hid
      simp only [events, if_pos hid]
      exact trail_canceled htrail hstate
  | updateProposalStates h =>
      obtain ⟨⟨proposals, rfl⟩, hcells⟩ := updateProposalStates_ok hs.token h
      have hgone : ∀ i, ¬ (1 ≤ i ∧ i ≤ w.governor.count) →
          w.governor.proposals.get i = none := by
        intro i hi
        rw [← hs.numbered] at hi
        exact Option.not_isSome_iff_eq_none.mp hi
      have hget : ∀ i, proposals.get i =
          (w.governor.proposals.get i).map (GovernanceProposal.advance e.timestamp
            w.token.totalSupply) := by
        intro i
        rw [hcells]
        split_ifs with hi
        · rfl
        · rw [hgone i hi]
          rfl
      refine ⟨fun i => ?_, hs.token, fun q hq => ?_, fun hnone => ?_⟩
      · simp only [hget, Option.isSome_map]
        exact hs.numbered i
      · rw [hget] at hq
        obtain ⟨p, hp, rfl⟩ := Option.map_eq_some_iff.mp hq
        simp only [events, hp]
        exact trail_advanced (hs.trail p hp) _
      · rw [hget, Option.map_eq_none_iff] at hnone
        simp only [events, hnone, List.append_nil]
        exact hs.unused hnone
  | _ => exact hs.kept rfl rfl rfl

theorem step_books {c : GovEnv × Action} (h : Step d w c.1 c.2 w') (hs : Books id log w) :
    Books id (log ++ events id w c) w' := by
  obtain ⟨e, a⟩ := c
  cases h with
  | governor h => exact effect_books h hs
  | _ => exact hs.kept rfl rfl rfl

end step

theorem deployed_governor {e : GovEnv} {p : Parties} (h : deployed e d p = .ok w) :
    w.governor.proposals = SortedMap.empty ∧ w.governor.count = 0 ∧
      w.governor.governanceToken = some d.token := by
  obtain ⟨-, -, -, hgovernor, -, -⟩ := deployed_ok h
  simp only [initializeGovernor, bind_eq_ok, require_eq_ok, pure_eq_ok, exists_const] at hgovernor
  rw [← hgovernor.2]
  exact ⟨rfl, rfl, rfl⟩

theorem books_of_run {e : GovEnv} {p : Parties} (h : deployed e d p = .ok w)
    (calls : List (GovEnv × Action)) (id : ℕ) :
    Books id (ghostLog (exec d) (events id) w calls) (run (exec d) w calls) := by
  obtain ⟨hempty, hcount, htoken⟩ := deployed_governor h
  have hstart : Books id [] w := by
    refine ⟨fun i => ?_, by rw [htoken]; rfl, fun p hp => ?_, fun _ => rfl⟩
    · rw [hempty, get_empty, hcount]
      simp
      omega
    · rw [hempty, get_empty] at hp
      cases hp
  exact run_log_invariant (Q := fun _ _ => True)
    (fun _ _ _ _ hs _ hcall => step_books (exec_step hcall) hs) calls w [] hstart
    (along_true calls w)

/-! ### Executed proposals -/

/-- When an `execute` of a proposal returned in a run, the proposal was opened, took its ballots in
its voting period, was certified after it by a quorum of the supply and a majority, was queued, was
executed at least two days later, and nothing happened to it since. -/
theorem executed_was_certified {e : GovEnv} {p : Parties} {w : World} (d : Deployment)
    (h : deployed e d p = .ok w) (calls : List (GovEnv × Action)) (id last : ℕ)
    (hlast : .executed last ∈ ghostLog (exec d) (events id) w calls) :
    ∃ q ballots supply time start,
      (run (exec d) w calls).governor.proposals.get id = some q ∧
      q.state = .executed ∧ q.executed = true ∧ q.canceled = false ∧
      ghostLog (exec d) (events id) w calls = .opened q.startTime ::
        (ballots.map .voted ++ [.certified supply time, .queued start, .executed last]) ∧
      (∀ b ∈ ballots, q.startTime ≤ b.time ∧ b.time < q.endTime ∧ b.amount ≤ b.power) ∧
      q.endTime ≤ time ∧ (supply * 400).tdiv 10000 ≤ (ballots.map Ballot.amount).sum ∧
      ((side false ballots).map Prod.snd).sum < ((side true ballots).map Prod.snd).sum ∧
      start + 172800 ≤ last := by
  have hbooks := books_of_run h calls id
  generalize ghostLog (exec d) (events id) w calls = log at hlast hbooks
  generalize run (exec d) w calls = v at hbooks
  cases hq : v.governor.proposals.get id with
  | none =>
      rw [hbooks.unused hq] at hlast
      cases hlast
  | some q =>
      obtain ⟨htallied, hphase, hflagged⟩ := hbooks.trail q hq
      rename_i ballots rest
      have hrest : .executed last ∈ rest := by simpa using hlast
      cases hphase with
      | @executed supply time start last' hstate hend hpasses heta hwaited =>
          obtain rfl : last = last' := by simpa using hrest
          have hcanceled : q.canceled = false := by
            rw [← Bool.not_eq_true, hflagged.canceled, hstate]
            decide
          obtain ⟨hquorum, hmajority⟩ := hpasses
          rw [htallied.votesFor, htallied.votesAgainst] at hquorum hmajority
          refine ⟨q, ballots, supply, time, start, rfl, hstate, hflagged.executed.mpr hstate,
            hcanceled, rfl, htallied.valid, hend, ?_, hmajority, heta ▸ hwaited⟩
          rwa [← sum_sides]
      | _ => simp at hrest

/-- Account `2` locks a tenth of the supply, proposes, votes and has the proposal executed. -/
def sampleVotes : List (GovEnv × Action) :=
  [(⟨[2], 0, 0⟩, .escrow (.createLock 2 1000000000000000 126144000)),
    (⟨[2], 0, 0⟩, .governor (.propose 2 "lower the fee" [] 100)),
    (⟨[2], 1, 0⟩, .governor (.vote 2 1 true 500000000000000)),
    (⟨[], 100, 0⟩, .governor .updateProposalStates),
    (⟨[], 100, 0⟩, .governor (.queue 1)),
    (⟨[], 172900, 0⟩, .governor (.execute 1))]

theorem executed_was_certified_sample :
    let v := run (exec sampleDeployment) sampleWorld sampleVotes
    let log := ghostLog (exec sampleDeployment) (events 1) sampleWorld sampleVotes
    .executed 172900 ∈ log ∧ ∃ q ballots supply time start,
      v.governor.proposals.get 1 = some q ∧
      q.state = .executed ∧ q.executed = true ∧ q.canceled = false ∧
      log = .opened q.startTime ::
        (ballots.map .voted ++ [.certified supply time, .queued start, .executed 172900]) ∧
      (∀ b ∈ ballots, q.startTime ≤ b.time ∧ b.time < q.endTime ∧ b.amount ≤ b.power) ∧
      q.endTime ≤ time ∧ (supply * 400).tdiv 10000 ≤ (ballots.map Ballot.amount).sum ∧
      ((side false ballots).map Prod.snd).sum < ((side true ballots).map Prod.snd).sum ∧
      start + 172800 ≤ 172900 := by
  have hlast : .executed 172900 ∈
      ghostLog (exec sampleDeployment) (events 1) sampleWorld sampleVotes := by decide +kernel
  exact ⟨hlast,
    executed_was_certified sampleDeployment sampleWorld_deployed sampleVotes 1 172900 hlast⟩

/-! ### Tallies -/

/-- The accepted ballots among the events. -/
def ballotsOf (log : List Event) : List Ballot :=
  log.filterMap fun event => match event with
    | .voted b => some b
    | _ => none

theorem Trail.tallied {q : GovernanceProposal} {log : List Event} (h : Trail q log) :
    Tallied q (ballotsOf log) := by
  obtain ⟨htallied, hphase, -⟩ := h
  rename_i ballots rest
  have hrest : ballotsOf rest = [] := by
    cases hphase with
    | _ => rfl
  have hballots : ballotsOf (ballots.map .voted) = ballots := by
    rw [ballotsOf, List.filterMap_map]
    exact List.filterMap_some
  have hlog : ballotsOf (.opened q.startTime :: (ballots.map .voted ++ rest)) = ballots := by
    change ballotsOf (ballots.map .voted ++ rest) = ballots
    rw [ballotsOf, List.filterMap_append]
    change ballotsOf (ballots.map .voted) ++ ballotsOf rest = ballots
    rw [hballots, hrest, List.append_nil]
  rwa [hlog]

/-- The tally of a side. -/
def tally (q : GovernanceProposal) (support : Bool) : ℤ :=
  if support then q.votesFor else q.votesAgainst

/-- The voters of a side. -/
def voters (q : GovernanceProposal) (support : Bool) : SortedMap Address ℤ :=
  if support then q.forVoters else q.againstVoters

theorem Tallied.tally_eq {q : GovernanceProposal} {ballots : List Ballot} (h : Tallied q ballots)
    (support : Bool) : tally q support = ((side support ballots).map Prod.snd).sum ∧
      voters q support = overwrite (side support ballots) := by
  cases support with
  | true => exact ⟨h.votesFor, h.forVoters⟩
  | false => exact ⟨h.votesAgainst, h.againstVoters⟩

/-- In every state of every run, each side of a proposal has the sum of its accepted ballots, each of
them cast in the voting period and within the power of the voter at that time.  Its map of
voters holds no more than that if the ballots are positive, and all of it exactly when nobody voted
twice on the side. -/
theorem tallies_are_ballots {e : GovEnv} {p : Parties} {w : World} (d : Deployment)
    (h : deployed e d p = .ok w) (calls : List (GovEnv × Action)) (number : ℕ)
    {q : GovernanceProposal} (hq : (run (exec d) w calls).governor.proposals.get number = some q) :
    let ballots := ballotsOf (ghostLog (exec d) (events number) w calls)
    (∀ b ∈ ballots, q.startTime ≤ b.time ∧ b.time < q.endTime ∧ b.amount ≤ b.power) ∧
      ∀ support, tally q support = ((side support ballots).map Prod.snd).sum ∧
        ((∀ b ∈ ballots, 0 < b.amount) →
          (voters q support).total id ≤ tally q support ∧
            ((voters q support).total id = tally q support ↔
              ((side support ballots).map Prod.fst).Nodup)) := by
  have htallied := ((books_of_run h calls number).trail q hq).tallied
  refine ⟨htallied.valid, fun support => ?_⟩
  obtain ⟨htally, hvoters⟩ := htallied.tally_eq support
  refine ⟨htally, fun hpos => ?_⟩
  rw [htally, hvoters]
  apply total_overwrite_le
  intro entry hentry
  obtain ⟨b, hb, rfl⟩ := List.mem_map.mp hentry
  exact hpos b (List.mem_of_mem_filter hb)

theorem tallies_are_ballots_sample :
    ∃ q, (run (exec sampleDeployment) sampleWorld sampleVotes).governor.proposals.get 1 =
        some q ∧
      let ballots := ballotsOf (ghostLog (exec sampleDeployment) (events 1) sampleWorld sampleVotes)
      (∀ b ∈ ballots, q.startTime ≤ b.time ∧ b.time < q.endTime ∧ b.amount ≤ b.power) ∧
        ∀ support, tally q support = ((side support ballots).map Prod.snd).sum ∧
          ((∀ b ∈ ballots, 0 < b.amount) →
            (voters q support).total id ≤ tally q support ∧
              ((voters q support).total id = tally q support ↔
                ((side support ballots).map Prod.fst).Nodup)) := by
  have hsome : ((run (exec sampleDeployment) sampleWorld sampleVotes).governor.proposals.get
      1).isSome := by decide +kernel
  obtain ⟨q, hq⟩ := Option.isSome_iff_exists.mp hsome
  exact ⟨q, hq, tallies_are_ballots sampleDeployment sampleWorld_deployed sampleVotes 1 hq⟩

end YieldEngine.Governance
