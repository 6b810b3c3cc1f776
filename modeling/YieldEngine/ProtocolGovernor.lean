import YieldEngine.VotingEscrow

/-! # The protocol governor

`ProtocolGovernor` keeps numbered proposals, takes votes weighted by the voting escrow, and moves a
proposal through its states.  `update_proposal_states` visits every proposal; whether one passed is
decided there, from the supply of the token at that time.  Executing a proposal is bookkeeping: its
call data is not run here.

`Effect` says for each entrypoint what a returning call has checked and written, and
`updateProposalStates_ok` that the loop advances each proposal once and on its own. -/

namespace YieldEngine.ProtocolGovernor

open CheckedArith

/-! ### Parameters -/

def quorumPercentage : ℤ := 400
def timelockDelay : ℕ := 172800
def proposalThreshold : ℤ := 100000000
def maxProposalDescriptionLength : ℕ := 280

def minPerformanceFee : ℕ := 500
def maxPerformanceFee : ℕ := 1500
def defaultPerformanceFee : ℕ := 1000

def minWithdrawalFee : ℕ := 10
def maxWithdrawalFee : ℕ := 100
def defaultWithdrawalFee : ℕ := 10

def minRebalanceThreshold : ℕ := 100
def maxRebalanceThreshold : ℕ := 500
def defaultRebalanceThreshold : ℕ := 200

def minInsuranceReserve : ℕ := 10000
def maxInsuranceReserve : ℕ := 20000
def defaultInsuranceReserve : ℕ := 15000

/-- `7 * 24 * 60 * 60`. -/
def gracePeriod : ℕ := 604800

/-! ### Proposals -/

inductive ProposalState where
  | pending
  | active
  | canceled
  | defeated
  | succeeded
  | queued
  | expired
  | executed
deriving DecidableEq, Repr

/-- A host value, which the governor stores without looking at it. -/
abbrev Val := BitVec 64

structure CallData where
  contractAddress : Address
  functionName : String
  args : List Val
deriving DecidableEq, Repr

structure GovernanceProposal where
  proposer : Address
  description : String
  callData : List CallData
  votesFor : ℤ
  votesAgainst : ℤ
  eta : ℕ
  startTime : ℕ
  endTime : ℕ
  snapshotBlock : ℕ
  state : ProposalState
  forVoters : SortedMap Address ℤ
  againstVoters : SortedMap Address ℤ
  canceled : Bool
  queued : Bool
  executed : Bool

/-- `GovernanceProposal::new`; the voting period must end within the clock. -/
def GovernanceProposal.new (proposer : Address) (description : String) (callData : List CallData)
    (startTime duration snapshotBlock : ℕ) : GovCall GovernanceProposal := do
  let endTime ← checkedU 64 (startTime + duration : ℕ)
  pure {
    proposer := proposer
    description := description
    callData := callData
    votesFor := 0
    votesAgainst := 0
    eta := 0
    startTime := startTime
    endTime := endTime.toNat
    snapshotBlock := snapshotBlock
    state := .pending
    forVoters := SortedMap.empty
    againstVoters := SortedMap.empty
    canceled := false
    queued := false
    executed := false }

/-- `is_active`. -/
def GovernanceProposal.isActive (p : GovernanceProposal) (currentTime : ℕ) : Bool :=
  p.state = .active ∧ p.startTime ≤ currentTime ∧ currentTime < p.endTime

/-- The first step of `vote`: a pending proposal whose period has begun becomes active. -/
def GovernanceProposal.activated (p : GovernanceProposal) (currentTime : ℕ) :
    GovernanceProposal :=
  if currentTime ≥ p.startTime ∧ p.state = .pending then { p with state := .active } else p

/-! ### Storage -/

/-- The storage of the governor. -/
structure Store where
  proposals : SortedMap ℕ GovernanceProposal
  proposalCount : Option ℕ
  timelock : Option Address
  admin : Option Address
  emergencyMultisig : Option (List Address)
  governanceToken : Option Address
  votingEscrow : Option Address
  performanceFee : Option ℕ
  withdrawalFee : Option ℕ
  rebalanceThreshold : Option ℕ
  insuranceReserveTarget : Option ℕ

namespace Store

/-- The storage of a deployed contract before its first invocation. -/
def fresh : Store :=
  ⟨SortedMap.empty, none, none, none, none, none, none, none, none, none, none⟩

variable (s : Store)

/-- `governance_token`; `unwrap` of a missing cell traps. -/
def getGovernanceToken : GovCall Address :=
  orRaise s.governanceToken (.panic "called `Option::unwrap()` on a `None` value")

/-- `voting_escrow`; `unwrap` of a missing cell traps. -/
def getVotingEscrow : GovCall Address :=
  orRaise s.votingEscrow (.panic "called `Option::unwrap()` on a `None` value")

def count : ℕ := s.proposalCount.getD 0

/-- `get_proposal`. -/
def getProposal (proposalId : ℕ) : GovCall GovernanceProposal :=
  orRaise (s.proposals.get proposalId) (.panic "proposal not found")

/-- `set_proposal`. -/
def setProposal (proposalId : ℕ) (proposal : GovernanceProposal) : Store :=
  { s with proposals := s.proposals.set proposalId proposal }

/-- `get_proposal_state`. -/
def getProposalState (proposalId : ℕ) : GovCall ProposalState :=
  GovernanceProposal.state <$> s.getProposal proposalId

def getPerformanceFee : ℕ := s.performanceFee.getD defaultPerformanceFee

def getWithdrawalFee : ℕ := s.withdrawalFee.getD defaultWithdrawalFee

def getRebalanceThreshold : ℕ := s.rebalanceThreshold.getD defaultRebalanceThreshold

def getInsuranceReserveTarget : ℕ := s.insuranceReserveTarget.getD defaultInsuranceReserve

/-- `has_quorum`: against the supply of the token at the time of the call. -/
def hasQuorum (token : GovernanceToken.Store) (proposalId : ℕ) : GovCall Bool := do
  let proposal ← s.getProposal proposalId
  let _ ← s.getGovernanceToken
  let totalVotes ← I128.add proposal.votesFor proposal.votesAgainst
  let scaled ← I128.mul token.totalSupply quorumPercentage
  let quorumRequired ← I128.div scaled 10000
  pure (quorumRequired ≤ totalVotes)

/-- `has_passed`. -/
def hasPassed (token : GovernanceToken.Store) (proposalId : ℕ) : GovCall Bool := do
  let proposal ← s.getProposal proposalId
  let quorum ← s.hasQuorum token proposalId
  pure (quorum && proposal.votesAgainst < proposal.votesFor)

end Store

/-! ### Entrypoints -/

/-- `initialize`. -/
def initializeGovernor (s : Store) (timelock admin : Address) (emergencyMultisig : List Address)
    (governanceToken votingEscrow : Address) : GovCall Store := do
  require (emergencyMultisig.length = 5) (.panic "emergency multisig must have exactly 5 members")
  pure { s with
    timelock := some timelock
    admin := some admin
    emergencyMultisig := some emergencyMultisig
    governanceToken := some governanceToken
    votingEscrow := some votingEscrow
    proposalCount := some 0
    performanceFee := some defaultPerformanceFee
    withdrawalFee := some defaultWithdrawalFee
    rebalanceThreshold := some defaultRebalanceThreshold
    insuranceReserveTarget := some defaultInsuranceReserve }

section entrypoints
variable (e : GovEnv) (token : GovernanceToken.Store) (escrow : VotingEscrow.Store) (s : Store)

/-- `propose`, returning the number of the proposal. -/
def propose (proposer : Address) (description : String) (callData : List CallData)
    (votingDuration : ℕ) : GovCall (Store × ℕ) := do
  e.requireAuth proposer
  let _ ← s.getVotingEscrow
  let votingPower ← escrow.getVotingPower e proposer
  require (proposalThreshold ≤ votingPower) (.panic "insufficient voting power to propose")
  require (description.utf8ByteSize ≤ maxProposalDescriptionLength)
    (.panic "proposal description too long")
  let proposalId ← checkedU 32 (s.count + 1 : ℕ)
  let proposal ← GovernanceProposal.new proposer description callData e.timestamp votingDuration
    e.sequence
  pure ({ s.setProposal proposalId.toNat proposal with proposalCount := some proposalId.toNat },
    proposalId.toNat)

/-- `vote`; a later vote of the same voter adds to the tally and replaces his entry. -/
def vote (voter : Address) (proposalId : ℕ) (support : Bool) (amount : ℤ) : GovCall Store := do
  e.requireAuth voter
  let stored ← s.getProposal proposalId
  let proposal := stored.activated e.timestamp
  require (proposal.state = .active) (.panic "proposal is not active")
  require (¬ (e.timestamp < proposal.startTime ∨ e.timestamp ≥ proposal.endTime))
    (.panic "voting period has ended")
  let _ ← s.getVotingEscrow
  let voterPower ← escrow.getVotingPower e voter
  require (amount ≤ voterPower) (.panic "insufficient voting power")
  if support then do
    let votesFor ← I128.add proposal.votesFor amount
    pure (s.setProposal proposalId { proposal with
      votesFor := votesFor
      forVoters := proposal.forVoters.set voter amount })
  else do
    let votesAgainst ← I128.add proposal.votesAgainst amount
    pure (s.setProposal proposalId { proposal with
      votesAgainst := votesAgainst
      againstVoters := proposal.againstVoters.set voter amount })

/-- `queue`, returning the time of execution. -/
def queue (proposalId : ℕ) : GovCall (Store × ℕ) := do
  let proposal ← s.getProposal proposalId
  require (proposal.state = .succeeded) (.panic "proposal has not succeeded")
  let eta ← checkedU 64 (e.timestamp + timelockDelay : ℕ)
  pure (s.setProposal proposalId { proposal with
    eta := eta.toNat, queued := true, state := .queued }, eta.toNat)

/-- `execute`. -/
def execute (proposalId : ℕ) : GovCall Store := do
  let proposal ← s.getProposal proposalId
  require (proposal.state = .queued) (.panic "proposal is not queued")
  require (proposal.eta ≤ e.timestamp) (.panic "timelock period not elapsed")
  require (proposal.executed = false) (.panic "proposal already executed")
  pure (s.setProposal proposalId { proposal with executed := true, state := .executed })

/-- `cancel`. -/
def cancel (proposalId : ℕ) : GovCall Store := do
  let proposal ← s.getProposal proposalId
  require (proposal.state = .pending ∨ proposal.state = .active)
    (.panic "cannot cancel proposal in current state")
  pure (s.setProposal proposalId { proposal with canceled := true, state := .canceled })

/-- The round of `update_proposal_states` for one proposal. -/
def updateProposal (s : Store) (proposalId : ℕ) : GovCall Store := do
  let proposal ← s.getProposal proposalId
  match proposal.state with
  | .pending =>
      if e.timestamp ≥ proposal.startTime then
        pure (s.setProposal proposalId { proposal with state := .active })
      else pure s
  | .active =>
      if e.timestamp ≥ proposal.endTime then do
        let passed ← s.hasPassed token proposalId
        pure (s.setProposal proposalId { proposal with
          state := if passed then .succeeded else .defeated })
      else pure s
  | .queued => do
      let expiry ← checkedU 64 (proposal.eta + gracePeriod : ℕ)
      if e.timestamp ≥ expiry.toNat then
        pure (s.setProposal proposalId { proposal with state := .expired })
      else pure s
  | _ => pure s

/-- `update_proposal_states`. -/
def updateProposalStates : GovCall Store :=
  (List.range' 1 s.count).foldlM (updateProposal e token) s

/-- A parameter outside its range is refused. -/
def requireRange (value low high : ℕ) (msg : String) : GovCall Unit :=
  require (¬ (value < low ∨ value > high)) (.panic msg)

/-- `set_performance_fee`. -/
def setPerformanceFee (fee : ℕ) : GovCall Store := do
  requireRange fee minPerformanceFee maxPerformanceFee "performance fee out of range"
  pure { s with performanceFee := some fee }

/-- `set_withdrawal_fee`. -/
def setWithdrawalFee (fee : ℕ) : GovCall Store := do
  requireRange fee minWithdrawalFee maxWithdrawalFee "withdrawal fee out of range"
  pure { s with withdrawalFee := some fee }

/-- `set_rebalance_threshold`. -/
def setRebalanceThreshold (threshold : ℕ) : GovCall Store := do
  requireRange threshold minRebalanceThreshold maxRebalanceThreshold
    "rebalance threshold out of range"
  pure { s with rebalanceThreshold := some threshold }

/-- `set_insurance_reserve_target`. -/
def setInsuranceReserveTarget (target : ℕ) : GovCall Store := do
  requireRange target minInsuranceReserve maxInsuranceReserve
    "insurance reserve target out of range"
  pure { s with insuranceReserveTarget := some target }

/-- The round of `verify_emergency_signers` for one signer. -/
def countSigner (multisig : List Address) (valid : ℕ) (signer : Address) : GovCall ℕ := do
  e.requireAuth signer
  pure (if signer ∈ multisig then valid + 1 else valid)

/-- `verify_emergency_signers`. -/
def verifyEmergencySigners (signers : List Address) : GovCall Unit := do
  let multisig ← orRaise s.emergencyMultisig
    (.panic "called `Option::unwrap()` on a `None` value")
  let validSignatures ← signers.foldlM (countSigner e multisig) 0
  require (3 ≤ validSignatures) (.panic "insufficient signatures for emergency action")

/-- `emergency_pause`. -/
def emergencyPause (signers : List Address) : GovCall Unit := verifyEmergencySigners e s signers

/-- `emergency_unpause`. -/
def emergencyUnpause (signers : List Address) : GovCall Unit := verifyEmergencySigners e s signers

/-- The writing entrypoints other than `initialize`. -/
inductive Action where
  | propose (proposer : Address) (description : String) (callData : List CallData)
      (votingDuration : ℕ)
  | vote (voter : Address) (proposalId : ℕ) (support : Bool) (amount : ℤ)
  | queue (proposalId : ℕ)
  | execute (proposalId : ℕ)
  | cancel (proposalId : ℕ)
  | updateProposalStates
  | setPerformanceFee (fee : ℕ)
  | setWithdrawalFee (fee : ℕ)
  | setRebalanceThreshold (threshold : ℕ)
  | setInsuranceReserveTarget (target : ℕ)
deriving DecidableEq, Repr

def exec : Action → GovCall Store
  | .propose proposer description callData votingDuration =>
      Prod.fst <$> propose e escrow s proposer description callData votingDuration
  | .vote voter proposalId support amount => vote e escrow s voter proposalId support amount
  | .queue proposalId => Prod.fst <$> queue e s proposalId
  | .execute proposalId => execute e s proposalId
  | .cancel proposalId => cancel s proposalId
  | .updateProposalStates => updateProposalStates e token s
  | .setPerformanceFee fee => setPerformanceFee s fee
  | .setWithdrawalFee fee => setWithdrawalFee s fee
  | .setRebalanceThreshold threshold => setRebalanceThreshold s threshold
  | .setInsuranceReserveTarget target => setInsuranceReserveTarget s target

end entrypoints

end YieldEngine.ProtocolGovernor
