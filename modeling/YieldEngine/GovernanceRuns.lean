import YieldEngine.EmergencyMultisig
import YieldEngine.FeeDistributor
import YieldEngine.GovernorEffects

/-! # Runs of the governance contracts

The six governance contracts side by side (`World`), at the addresses of a `Deployment`.  A call
goes to one of them; the token also moves inside calls to the staking contract and the escrow, and
the distributor and the governor read the others.

`Step` says which storages a returning call leaves.  Runs start where every contract has been
initialised (`deployed`).  The source leaves `initialize` open to anyone in all six contracts, a
second time too: it starts the books of a contract afresh, beside whatever contracts its caller
names.  It is not an `Action`; the runs are what happens from one initialization to the next.  The
contracts do not sign: a transaction is authorised by accounts (`Unsigned`). -/

namespace YieldEngine.Governance

open CheckedArith Transact

/-- The addresses of the token and of the contracts that hold tokens. -/
structure Deployment where
  token : Address
  staking : Address
  escrow : Address
  distinct : staking ≠ escrow

/-- The storages of the governance contracts. -/
structure World where
  token : GovernanceToken.Store
  staking : StakingContract.Store
  fees : FeeDistributor.Store
  governor : ProtocolGovernor.Store
  escrow : VotingEscrow.Store
  multisig : EmergencyMultisig.Store

/-- The contracts before they are initialised. -/
def World.fresh : World := ⟨.fresh, .fresh, .fresh, .fresh, .fresh, .fresh⟩

/-- Whom the contracts are initialised with. -/
structure Parties where
  admin : Address
  communityWallet : Address
  teamWallet : Address
  treasuryWallet : Address
  liquidityMiningWallet : Address
  timelock : Address
  members : List Address
  required : ℕ

namespace Parties
variable (p : Parties)

/-- The wallets of the first allocation. -/
def wallets : List Address :=
  [p.communityWallet, p.teamWallet, p.treasuryWallet, p.liquidityMiningWallet]

end Parties

/-- The storages after each contract was initialised, on fresh storage and with the addresses of
the deployment. -/
def deployed (e : GovEnv) (d : Deployment) (p : Parties) : GovCall World := do
  let token ← GovernanceToken.initializeToken e .fresh p.admin p.communityWallet p.teamWallet
    p.treasuryWallet p.liquidityMiningWallet
  let governor ← ProtocolGovernor.initializeGovernor .fresh p.timelock p.admin p.members d.token
    d.escrow
  let multisig ← EmergencyMultisig.initializeMultisig .fresh p.members p.required
  pure {
    token := token
    staking := StakingContract.initializeStaking .fresh d.token
    fees := FeeDistributor.initializeDistributor e .fresh p.treasuryWallet d.staking
    governor := governor
    escrow := VotingEscrow.initializeEscrow .fresh d.token
    multisig := multisig }

/-- A call of one of the contracts other than `initialize`. -/
inductive Action where
  | token (a : GovernanceToken.Action)
  | staking (a : StakingContract.Action)
  | fees (a : FeeDistributor.Action)
  | governor (a : ProtocolGovernor.Action)
  | escrow (a : VotingEscrow.Action)
  | multisig (a : EmergencyMultisig.Action)

def exec (d : Deployment) (w : World) (c : GovEnv × Action) : GovCall World :=
  match c.2 with
  | .token a => (fun t => { w with token := t }) <$> GovernanceToken.exec c.1 w.token a
  | .staking a =>
      (fun r => { w with token := r.1, staking := r.2 }) <$>
        StakingContract.exec d.staking c.1 w.token w.staking a
  | .fees a => (fun s => { w with fees := s }) <$> FeeDistributor.exec c.1 w.staking w.fees a
  | .governor a =>
      (fun s => { w with governor := s }) <$>
        ProtocolGovernor.exec c.1 w.token w.escrow w.governor a
  | .escrow a =>
      (fun r => { w with token := r.1, escrow := r.2 }) <$>
        VotingEscrow.exec d.escrow c.1 w.token w.escrow a
  | .multisig a => (fun s => { w with multisig := s }) <$> EmergencyMultisig.exec c.1 w.multisig a

/-- What a returning call leaves, by the contract it went to. -/
inductive Step (d : Deployment) (w : World) (e : GovEnv) : Action → World → Prop
  | token {a : GovernanceToken.Action} {token : GovernanceToken.Store}
      (h : GovernanceToken.Returns e w.token a token) :
      Step d w e (.token a) { w with token := token }
  | staking {a : StakingContract.Action} {token : GovernanceToken.Store}
      {staking : StakingContract.Store}
      (h : StakingContract.Effect d.staking e w.token w.staking a token staking) :
      Step d w e (.staking a) { w with token := token, staking := staking }
  | fees {a : FeeDistributor.Action} {fees : FeeDistributor.Store}
      (h : FeeDistributor.exec e w.staking w.fees a = .ok fees) :
      Step d w e (.fees a) { w with fees := fees }
  | governor {a : ProtocolGovernor.Action} {governor : ProtocolGovernor.Store}
      (h : ProtocolGovernor.Effect e w.token w.escrow w.governor a governor) :
      Step d w e (.governor a) { w with governor := governor }
  | escrow {a : VotingEscrow.Action} {token : GovernanceToken.Store} {escrow : VotingEscrow.Store}
      (h : VotingEscrow.Effect d.escrow e w.token w.escrow a token escrow) :
      Step d w e (.escrow a) { w with token := token, escrow := escrow }
  | multisig {a : EmergencyMultisig.Action} {multisig : EmergencyMultisig.Store}
      (h : EmergencyMultisig.exec e w.multisig a = .ok multisig) :
      Step d w e (.multisig a) { w with multisig := multisig }

theorem exec_step {d : Deployment} {w w' : World} {c : GovEnv × Action}
    (h : exec d w c = .ok w') : Step d w c.1 c.2 w' := by
  obtain ⟨e, a⟩ := c
  cases a with
  | token a =>
      obtain ⟨t, ht, rfl⟩ := map_eq_ok.mp h
      exact .token (GovernanceToken.exec_returns ht)
  | staking a =>
      obtain ⟨r, hr, rfl⟩ := map_eq_ok.mp h
      exact .staking (StakingContract.exec_effect hr)
  | fees a =>
      obtain ⟨s, hs, rfl⟩ := map_eq_ok.mp h
      exact .fees hs
  | governor a =>
      obtain ⟨s, hs, rfl⟩ := map_eq_ok.mp h
      exact .governor (ProtocolGovernor.exec_effect hs)
  | escrow a =>
      obtain ⟨r, hr, rfl⟩ := map_eq_ok.mp h
      exact .escrow (VotingEscrow.exec_effect hr)
  | multisig a =>
      obtain ⟨s, hs, rfl⟩ := map_eq_ok.mp h
      exact .multisig hs

/-- What the contracts are initialised to. -/
theorem deployed_ok {e : GovEnv} {d : Deployment} {p : Parties} {w : World}
    (h : deployed e d p = .ok w) :
    GovernanceToken.initializeToken e .fresh p.admin p.communityWallet p.teamWallet
        p.treasuryWallet p.liquidityMiningWallet = .ok w.token ∧
      w.staking = StakingContract.initializeStaking .fresh d.token ∧
      w.fees = FeeDistributor.initializeDistributor e .fresh p.treasuryWallet d.staking ∧
      ProtocolGovernor.initializeGovernor .fresh p.timelock p.admin p.members d.token d.escrow =
        .ok w.governor ∧
      w.escrow = VotingEscrow.initializeEscrow .fresh d.token ∧
      EmergencyMultisig.initializeMultisig .fresh p.members p.required = .ok w.multisig := by
  simp only [deployed, bind_eq_ok, pure_eq_ok] at h
  obtain ⟨token, htoken, governor, hgovernor, multisig, hmultisig, rfl⟩ := h
  exact ⟨htoken, rfl, rfl, hgovernor, rfl, hmultisig⟩

/-- The deployment the witnesses start from: accounts `1` to `6`, contracts from `100` on. -/
def sampleDeployment : Deployment := ⟨100, 101, 102, by decide⟩

def sampleParties : Parties := ⟨1, 2, 3, 4, 5, 6, [1, 2, 3, 4, 5], 3⟩

def sampleEnv : GovEnv := ⟨[1, 2, 3, 4, 5], 0, 0⟩

/-- The storages it is deployed with. -/
def sampleWorld : World :=
  match deployed sampleEnv sampleDeployment sampleParties with
  | .ok w => w
  | .error _ => .fresh

theorem sampleWorld_deployed :
    deployed sampleEnv sampleDeployment sampleParties = .ok sampleWorld := rfl

/-- No contract signs the transaction. -/
def Unsigned (d : Deployment) (e : GovEnv) : Prop := d.staking ∉ e.auths ∧ d.escrow ∉ e.auths

instance (d : Deployment) (e : GovEnv) : Decidable (Unsigned d e) :=
  inferInstanceAs (Decidable (_ ∧ _))

end YieldEngine.Governance
