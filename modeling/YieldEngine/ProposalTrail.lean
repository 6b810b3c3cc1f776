import YieldEngine.GovernanceRuns

/-! # The trail of a proposal

`events id` notes what the calls of a run did to the proposal numbered `id`, and `Trail` relates
these notes to the record the governor keeps: its tallies are the accepted ballots, each of them cast
in the voting period and within the power of the voter at that time, and its state tells which
steps followed the ballots, in which order and at which times (`Phase`).

The lemmas are one for each change the governor makes of a proposal: `trail_new`, `trail_voted`,
`trail_queued`, `trail_executed`, `trail_canceled` and `trail_advanced`. -/

namespace YieldEngine.Governance

open CheckedArith Transact SortedMap ProtocolGovernor

/-- An accepted vote. -/
structure Ballot where
  voter : Address
  support : Bool
  amount : ℤ
  /-- The power of the voter at that time. -/
  power : ℤ
  time : ℕ
deriving DecidableEq, Repr

/-- What happens to a proposal; passing and failing are decided against a supply of the token. -/
inductive Event where
  | opened (time : ℕ)
  | voted (ballot : Ballot)
  | canceled (time : ℕ)
  | rejected (supply : ℤ) (time : ℕ)
  | certified (supply : ℤ) (time : ℕ)
  | queued (time : ℕ)
  | expired (time : ℕ)
  | executed (time : ℕ)
deriving DecidableEq, Repr

/-- What one pass of `update_proposal_states` does to a proposal, apart from activating it. -/
def advanceEvents (now : ℕ) (supply : ℤ) (p : GovernanceProposal) : List Event :=
  match p.state with
  | .active =>
      if p.endTime ≤ now then
        [if p.Passes supply then .certified supply now else .rejected supply now]
      else []
  | .queued => if p.eta + gracePeriod ≤ now then [.expired now] else []
  | _ => []

/-- What a call does to the proposal numbered `id`. -/
def events (id : ℕ) (w : World) (c : GovEnv × Action) : List Event :=
  match c.2 with
  | .governor (.propose _ _ _ _) =>
      if id = w.governor.count + 1 then [.opened c.1.timestamp] else []
  | .governor (.vote voter i support amount) =>
      if id = i then
        [.voted ⟨voter, support, amount, w.escrow.power c.1.timestamp voter, c.1.timestamp⟩]
      else []
  | .governor (.queue i) => if id = i then [.queued c.1.timestamp] else []
  | .governor (.execute i) => if id = i then [.executed c.1.timestamp] else []
  | .governor (.cancel i) => if id = i then [.canceled c.1.timestamp] else []
  | .governor .updateProposalStates =>
      match w.governor.proposals.get id with
      | some p => advanceEvents c.1.timestamp w.token.totalSupply p
      | none => []
  | _ => []

/-! ### The record and its trail -/

/-- The amounts voted on one side, by voter. -/
def side (support : Bool) (ballots : List Ballot) : List (Address × ℤ) :=
  (ballots.filter fun b => b.support = support).map fun b => (b.voter, b.amount)

/-- The record holds these ballots. -/
structure Tallied (p : GovernanceProposal) (ballots : List Ballot) : Prop where
  votesFor : p.votesFor = ((side true ballots).map Prod.snd).sum
  votesAgainst : p.votesAgainst = ((side false ballots).map Prod.snd).sum
  forVoters : p.forVoters = overwrite (side true ballots)
  againstVoters : p.againstVoters = overwrite (side false ballots)
  valid : ∀ b ∈ ballots, p.startTime ≤ b.time ∧ b.time < p.endTime ∧ b.amount ≤ b.power

/-- What has followed the ballots, by the state of the proposal. -/
inductive Phase (p : GovernanceProposal) : List Event → Prop
  | voting (hstate : p.state = .pending ∨ p.state = .active) : Phase p []
  | canceled {time : ℕ} (hstate : p.state = .canceled) : Phase p [.canceled time]
  | defeated {supply : ℤ} {time : ℕ} (hstate : p.state = .defeated) (hend : p.endTime ≤ time)
      (hfails : ¬ p.Passes supply) : Phase p [.rejected supply time]
  | succeeded {supply : ℤ} {time : ℕ} (hstate : p.state = .succeeded) (hend : p.endTime ≤ time)
      (hpasses : p.Passes supply) : Phase p [.certified supply time]
  | queued {supply : ℤ} {time start : ℕ} (hstate : p.state = .queued) (hend : p.endTime ≤ time)
      (hpasses : p.Passes supply) (heta : p.eta = start + timelockDelay) :
      Phase p [.certified supply time, .queued start]
  | expired {supply : ℤ} {time start last : ℕ} (hstate : p.state = .expired)
      (hend : p.endTime ≤ time) (hpasses : p.Passes supply) (heta : p.eta = start + timelockDelay)
      (hlate : p.eta + gracePeriod ≤ last) :
      Phase p [.certified supply time, .queued start, .expired last]
  | executed {supply : ℤ} {time start last : ℕ} (hstate : p.state = .executed)
      (hend : p.endTime ≤ time) (hpasses : p.Passes supply) (heta : p.eta = start + timelockDelay)
      (hwaited : p.eta ≤ last) : Phase p [.certified supply time, .queued start, .executed last]

/-- The flags repeat what the state says. -/
structure Flagged (p : GovernanceProposal) : Prop where
  canceled : p.canceled = true ↔ p.state = .canceled
  queued : p.queued = true ↔ p.state = .queued ∨ p.state = .expired ∨ p.state = .executed
  executed : p.executed = true ↔ p.state = .executed

/-- These events have led to the record `p`. -/
inductive Trail (p : GovernanceProposal) : List Event → Prop
  | mk {ballots : List Ballot} {rest : List Event} (htallied : Tallied p ballots)
      (hphase : Phase p rest) (hflagged : Flagged p) :
      Trail p (.opened p.startTime :: (ballots.map .voted ++ rest))

theorem Trail.flagged {p : GovernanceProposal} {log : List Event} (h : Trail p log) : Flagged p := by
  cases h with
  | mk _ _ hflagged => exact hflagged

/-! ### One step of one proposal -/

section steps
variable {p : GovernanceProposal} {log : List Event} {now : ℕ}

theorem Trail.append {q : GovernanceProposal} {ballots : List Ballot} {rest more : List Event}
    (hstart : q.startTime = p.startTime) (htallied : Tallied q ballots)
    (hphase : Phase q (rest ++ more)) (hflagged : Flagged q) :
    Trail q ((.opened p.startTime :: (ballots.map .voted ++ rest)) ++ more) := by
  have htrail := Trail.mk htallied hphase hflagged
  rw [hstart, ← List.append_assoc] at htrail
  exact htrail

/-- A proposal that has just been made. -/
theorem trail_new {proposer : Address} {description : String} {callData : List CallData}
    {duration snapshot : ℕ}
    (h : GovernanceProposal.new proposer description callData now duration snapshot = .ok p) :
    Trail p [.opened now] := by
  simp only [GovernanceProposal.new, bind_eq_ok, checkedU_eq_ok, pure_eq_ok] at h
  obtain ⟨_, ⟨-, rfl⟩, rfl⟩ := h
  have hnone : ∀ b ∈ ([] : List Ballot), now ≤ b.time ∧ b.time < ((now + duration : ℕ) : ℤ).toNat ∧
      b.amount ≤ b.power := fun _ hb => by cases hb
  exact @Trail.mk _ [] [] ⟨rfl, rfl, rfl, rfl, hnone⟩ (.voting (.inl rfl))
    ⟨by simp, by simp, by simp⟩

/-- A proposal that takes a vote is open for it. -/
theorem activated_eq (h : (p.activated now).isActive now = true) :
    p.activated now = { p with state := .active } ∧ (p.state = .pending ∨ p.state = .active) ∧
      p.startTime ≤ now ∧ now < p.endTime := by
  unfold GovernanceProposal.activated at h ⊢
  split_ifs at h ⊢ with hpending
  · simp only [GovernanceProposal.isActive, decide_eq_true_eq, true_and] at h
    exact ⟨rfl, .inl hpending.2, h⟩
  · simp only [GovernanceProposal.isActive, decide_eq_true_eq] at h
    refine ⟨?_, .inr h.1, h.2⟩
    obtain ⟨hactive, -⟩ := h
    cases p
    simp_all

theorem side_concat (support : Bool) (ballots : List Ballot) (b : Ballot) :
    side support (ballots ++ [b]) =
      side support ballots ++ if b.support = support then [(b.voter, b.amount)] else [] := by
  unfold side
  rw [List.filter_append, List.map_append]
  split_ifs with hb <;> simp [hb]

/-- Every ballot is on one of the sides. -/
theorem sum_sides (ballots : List Ballot) :
    ((side true ballots).map Prod.snd).sum + ((side false ballots).map Prod.snd).sum =
      (ballots.map Ballot.amount).sum := by
  induction ballots with
  | nil => rfl
  | cons b ballots ih =>
      rw [List.map_cons, List.sum_cons, ← ih]
      cases hb : b.support with
      | true =>
          simp [side, hb]
          ring
      | false =>
          simp [side, hb]
          ring

/-- One more ballot. -/
theorem Tallied.voted {ballots : List Ballot} (h : Tallied p ballots) {b : Ballot}
    (hvalid : p.startTime ≤ b.time ∧ b.time < p.endTime ∧ b.amount ≤ b.power) :
    Tallied (({ p with state := .active } : GovernanceProposal).voted b.voter b.support b.amount)
      (ballots ++ [b]) := by
  have hall : ∀ b' ∈ ballots ++ [b],
      p.startTime ≤ b'.time ∧ b'.time < p.endTime ∧ b'.amount ≤ b'.power := by
    intro b' hb'
    rcases List.mem_append.mp hb' with hb' | hb'
    · exact h.valid b' hb'
    · obtain rfl := List.mem_singleton.mp hb'
      exact hvalid
  obtain ⟨voter, support, amount, power, time⟩ := b
  cases support with
  | true =>
      refine ⟨?_, ?_, ?_, ?_, hall⟩
      · simp [GovernanceProposal.voted, side_concat, h.votesFor]
      · simp [GovernanceProposal.voted, side_concat, h.votesAgainst]
      · simp [GovernanceProposal.voted, side_concat, h.forVoters, overwrite_concat]
      · simp [GovernanceProposal.voted, side_concat, h.againstVoters]
  | false =>
      refine ⟨?_, ?_, ?_, ?_, hall⟩
      · simp [GovernanceProposal.voted, side_concat, h.votesFor]
      · simp [GovernanceProposal.voted, side_concat, h.votesAgainst]
      · simp [GovernanceProposal.voted, side_concat, h.forVoters]
      · simp [GovernanceProposal.voted, side_concat, h.againstVoters, overwrite_concat]

/-- A proposal still open has no events after its ballots. -/
theorem Phase.eq_nil {rest : List Event} (h : Phase p rest)
    (hstate : p.state = .pending ∨ p.state = .active) : rest = [] := by
  cases h with
  | voting _ => rfl
  | _ => simp_all

theorem voted_state (voter : Address) (support : Bool) (amount : ℤ) :
    (p.voted voter support amount).state = p.state ∧
      (p.voted voter support amount).startTime = p.startTime ∧
        (Flagged p → Flagged (p.voted voter support amount)) := by
  unfold GovernanceProposal.voted
  split_ifs
  · exact ⟨rfl, rfl, fun h => ⟨h.canceled, h.queued, h.executed⟩⟩
  · exact ⟨rfl, rfl, fun h => ⟨h.canceled, h.queued, h.executed⟩⟩

/-- The flags of a proposal still open are down. -/
theorem Flagged.activated (h : Flagged p) (hstate : p.state = .pending ∨ p.state = .active) :
    Flagged { p with state := .active } := by
  have hdown : p.canceled = false ∧ p.queued = false ∧ p.executed = false := by
    simp only [← Bool.not_eq_true, h.canceled, h.queued, h.executed]
    rcases hstate with hstate | hstate <;> simp [hstate]
  obtain ⟨hcanceled, hqueued, hexecuted⟩ := hdown
  exact ⟨by simp [hcanceled], by simp [hqueued], by simp [hexecuted]⟩

/-- The decision leaves the flags down. -/
theorem Flagged.closed (h : Flagged { p with state := .active })
    {state : ProposalState} (hstate : state = .defeated ∨ state = .succeeded) :
    Flagged { p with state := state } := by
  obtain ⟨hcanceled, hqueued, hexecuted⟩ := h
  simp only [reduceCtorEq, or_self, iff_false, Bool.not_eq_true] at hcanceled hqueued hexecuted
  rcases hstate with rfl | rfl <;> exact ⟨by simpa, by simpa, by simpa⟩

theorem trail_voted (h : Trail p log) (hactive : (p.activated now).isActive now = true)
    {voter : Address} {support : Bool} {amount power : ℤ} (hpower : amount ≤ power) :
    Trail ((p.activated now).voted voter support amount)
      (log ++ [.voted ⟨voter, support, amount, power, now⟩]) := by
  obtain ⟨hactivated, hstate, hperiod⟩ := activated_eq hactive
  cases h with
  | @mk ballots rest htallied hphase hflagged =>
      obtain rfl := hphase.eq_nil hstate
      have hnew := htallied.voted (b := ⟨voter, support, amount, power, now⟩)
        ⟨hperiod.1, hperiod.2, hpower⟩
      obtain ⟨hvoted, hstart, hflags⟩ :=
        @voted_state { p with state := .active } voter support amount
      have htrail := Trail.mk hnew (.voting (.inr hvoted)) (hflags (hflagged.activated hstate))
      rw [hactivated]
      rw [hstart] at htrail
      simpa using htrail

/-- A change of the state that is no vote. -/
theorem Trail.move {q : GovernanceProposal} {more : List Event} (h : Trail p log)
    (hsame : q.startTime = p.startTime ∧ ∀ ballots, Tallied p ballots → Tallied q ballots)
    (hphase : ∀ rest, Phase p rest → Phase q (rest ++ more)) (hflagged : Flagged p → Flagged q) :
    Trail q (log ++ more) := by
  cases h with
  | mk htallied hp hf => exact .append hsame.1 (hsame.2 _ htallied) (hphase _ hp) (hflagged hf)

theorem trail_queued (h : Trail p log) (hstate : p.state = .succeeded) :
    Trail { p with eta := now + timelockDelay, queued := true, state := .queued }
      (log ++ [.queued now]) := by
  refine h.move ⟨rfl, fun _ ht => ⟨ht.1, ht.2, ht.3, ht.4, ht.5⟩⟩ ?_ ?_
  · intro rest hphase
    cases hphase with
    | succeeded _ hend hpasses => exact .queued rfl hend hpasses rfl
    | _ => simp_all
  · intro hflags
    refine ⟨?_, by simp, ?_⟩
    · simpa [hstate] using hflags.canceled
    · simpa [hstate] using hflags.executed

theorem trail_executed (h : Trail p log) (hstate : p.state = .queued) (heta : p.eta ≤ now) :
    Trail { p with executed := true, state := .executed } (log ++ [.executed now]) := by
  refine h.move ⟨rfl, fun _ ht => ⟨ht.1, ht.2, ht.3, ht.4, ht.5⟩⟩ ?_ ?_
  · intro rest hphase
    cases hphase with
    | queued _ hend hpasses hstart => exact .executed rfl hend hpasses hstart heta
    | _ => simp_all
  · intro hflags
    refine ⟨?_, ?_, by simp⟩
    · simpa [hstate] using hflags.canceled
    · simpa [hstate] using hflags.queued

theorem trail_canceled (h : Trail p log) (hstate : p.state = .pending ∨ p.state = .active) :
    Trail { p with canceled := true, state := .canceled } (log ++ [.canceled now]) := by
  refine h.move ⟨rfl, fun _ ht => ⟨ht.1, ht.2, ht.3, ht.4, ht.5⟩⟩ ?_ ?_
  · intro rest hphase
    rw [hphase.eq_nil hstate]
    exact .canceled rfl
  · intro hflags
    obtain ⟨-, hqueued, hexecuted⟩ := hflags.activated hstate
    exact ⟨by simp, by simpa using hqueued, by simpa using hexecuted⟩

theorem trail_advanced (h : Trail p log) (supply : ℤ) :
    Trail (p.advance now supply) (log ++ advanceEvents now supply p) := by
  have hnothing : Trail p (log ++ []) := by rwa [List.append_nil]
  unfold GovernanceProposal.advance advanceEvents
  cases hstate : p.state with
  | pending =>
      dsimp only
      split_ifs with hnow
      · refine h.move ⟨rfl, fun _ ht => ⟨ht.1, ht.2, ht.3, ht.4, ht.5⟩⟩ ?_
          fun hflags => hflags.activated (.inl hstate)
        intro rest hphase
        rw [hphase.eq_nil (.inl hstate)]
        exact .voting (.inr rfl)
      · exact hnothing
  | active =>
      dsimp only
      split_ifs with hend hpasses
      · refine h.move ⟨rfl, fun _ ht => ⟨ht.1, ht.2, ht.3, ht.4, ht.5⟩⟩ ?_
          fun hflags => (hflags.activated (.inr hstate)).closed (.inr rfl)
        intro rest hphase
        rw [hphase.eq_nil (.inr hstate)]
        exact .succeeded rfl hend hpasses
      · refine h.move ⟨rfl, fun _ ht => ⟨ht.1, ht.2, ht.3, ht.4, ht.5⟩⟩ ?_
          fun hflags => (hflags.activated (.inr hstate)).closed (.inl rfl)
        intro rest hphase
        rw [hphase.eq_nil (.inr hstate)]
        exact .defeated rfl hend hpasses
      · exact hnothing
  | queued =>
      dsimp only
      split_ifs with hlate
      · refine h.move ⟨rfl, fun _ ht => ⟨ht.1, ht.2, ht.3, ht.4, ht.5⟩⟩ ?_ ?_
        · intro rest hphase
          cases hphase with
          | queued _ hend hpasses hstart => exact .expired rfl hend hpasses hstart hlate
          | _ => simp_all
        · intro hflags
          refine ⟨?_, ?_, ?_⟩
          · simpa [hstate] using hflags.canceled
          · simpa [hstate] using hflags.queued
          · simpa [hstate] using hflags.executed
      · exact hnothing
  | _ => exact hnothing

end steps
end YieldEngine.Governance
