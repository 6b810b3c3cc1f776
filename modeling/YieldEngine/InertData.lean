import YieldEngine.GovernanceRuns

/-! # What the contracts store and never use

The token records allowances, delegates and the vesting of the team, the escrow the supply at times,
the multisig the pending transactions.  No call looks at any of it (`exec_core`), so two states that
differ there only stay alike over every run, and every call fares alike in them
(`inert_data`).  An allowance cannot be spent and the tokens of the team are not held back. -/

namespace YieldEngine

open CheckedArith

/-! ### The parts that matter -/

namespace GovernanceToken

/-- The storage without the allowances, the delegates and the vesting. -/
def Store.core (s : Store) : Store :=
  { s with
    allowances := SortedMap.empty
    delegates := SortedMap.empty
    teamVesting := SortedMap.empty }

variable (e : GovEnv) (s : Store)

theorem transfer_core (sender recipient : Address) (amount : ℤ) :
    transfer e s.core sender recipient amount =
      Store.core <$> transfer e s sender recipient amount := by
  simp only [transfer, map_bind, map_pure]
  rfl

theorem exec_core (a : Action) : Store.core <$> exec e s.core a = Store.core <$> exec e s a := by
  cases a with
  | transfer sender recipient amount =>
      simp only [exec, transfer_core, Functor.map_map]
      rfl
  | mint admin recipient amount =>
      simp only [exec, mint, map_bind, map_pure]
      rfl
  | burn sender amount =>
      simp only [exec, burn, map_bind, map_pure]
      rfl
  | delegate sender recipient =>
      simp only [exec, delegate, map_bind, map_pure]
      rfl
  | approve sender spender amount =>
      simp only [exec, approve, map_bind, map_pure]
      rfl

end GovernanceToken

namespace StakingContract

/-- The storage without the times the stakes began. -/
def Store.core (s : Store) : Store := { s with stakeStarts := SortedMap.empty }

theorem exec_core (staking : Address) (e : GovEnv) (token : GovernanceToken.Store) (s : Store)
    (a : Action) : Prod.map GovernanceToken.Store.core Store.core <$>
        exec staking e token.core s.core a =
      Prod.map GovernanceToken.Store.core Store.core <$> exec staking e token s a := by
  cases a with
  | stake user amount =>
      simp only [exec, stake, GovernanceToken.transfer_core, bind_map_left, map_bind, map_pure]
      rfl
  | unstake user amount =>
      simp only [exec, unstake, GovernanceToken.transfer_core, bind_map_left, map_bind, map_pure]
      rfl
  | claimRewards user =>
      simp only [exec, claimRewards, GovernanceToken.transfer_core, apply_ite, bind_map_left,
        map_bind, map_pure]
      rfl

end StakingContract

namespace VotingEscrow

/-- The storage without the supply at times. -/
def Store.core (s : Store) : Store := { s with supplyAt := SortedMap.empty }

theorem exec_core (escrow : Address) (e : GovEnv) (token : GovernanceToken.Store) (s : Store)
    (a : Action) : Prod.map GovernanceToken.Store.core Store.core <$>
        exec escrow e token.core s.core a =
      Prod.map GovernanceToken.Store.core Store.core <$> exec escrow e token s a := by
  cases a with
  | createLock user amount duration =>
      simp only [exec, createLock, GovernanceToken.transfer_core, bind_map_left, map_bind, map_pure]
      rfl
  | increaseLock user amount =>
      simp only [exec, increaseLock, GovernanceToken.transfer_core, bind_map_left, map_bind,
        map_pure]
      rfl
  | extendLock user newDuration =>
      simp only [exec, extendLock, map_bind, map_pure]
      rfl
  | withdraw user =>
      simp only [exec, withdraw, GovernanceToken.transfer_core, bind_map_left, map_bind, map_pure]
      rfl
  | delegate sender recipient amount =>
      simp only [exec, delegate, map_bind, map_pure]
      rfl

end VotingEscrow

namespace EmergencyMultisig

/-- The storage without the pending transactions. -/
def Store.core (s : Store) : Store := { s with pendingTx := fun _ _ => none }

theorem exec_core (e : GovEnv) (s : Store) (a : Action) :
    Store.core <$> exec e s.core a = Store.core <$> exec e s a := by
  cases a with
  | submitEmergencyTx proposer target data =>
      simp only [exec, submitEmergencyTx, map_bind, map_pure]
      rfl
  | confirmTx confirmer txId =>
      simp only [exec, confirmTx, map_bind, map_pure]
      rfl

end EmergencyMultisig

namespace FeeDistributor

/-- The storage without what `initialize` noted of the distribution. -/
def Store.core (s : Store) : Store :=
  { s with accumulatedFeesPerStake := none, lastDistributionTime := none }

theorem recordWeekStart_core (s : Store) (week : ℕ) :
    recordWeekStart s.core week = Store.core <$> recordWeekStart s week := by
  unfold recordWeekStart
  by_cases hnone : (s.weekStarts.get week).isNone
  · rw [if_pos hnone, if_pos (show (s.core.weekStarts.get week).isNone from hnone), map_bind]
    rfl
  · rw [if_neg hnone, if_neg (show ¬ (s.core.weekStarts.get week).isNone from hnone)]
    rfl

theorem exec_core (e : GovEnv) (staking : StakingContract.Store) (s : Store) (a : Action) :
    Store.core <$> exec e staking.core s.core a = Store.core <$> exec e staking s a := by
  cases a with
  | collectFees caller amount =>
      simp only [exec, collectFees, map_bind, map_pure]
      refine bind_congr fun _ => bind_congr fun _ => bind_congr fun _ => bind_congr fun total => ?_
      refine (congrArg (· >>= _) (recordWeekStart_core { s with totalFeesCollected := some total }
        (currentWeek e))).trans ?_
      rw [bind_map_left]
      rfl
  | claimWeek user week =>
      simp only [exec, claimWeek, apply_ite, map_bind, map_pure]
      rfl

end FeeDistributor

namespace ProtocolGovernor

/-- The storage without the timelock and the admin. -/
def Store.core (s : Store) : Store := { s with timelock := none, admin := none }

variable (e : GovEnv) (token : GovernanceToken.Store) (escrow : VotingEscrow.Store) (s : Store)

theorem updateProposal_core (id : ℕ) : updateProposal e token.core s.core id =
    Store.core <$> updateProposal e token s id := by
  simp only [updateProposal, map_bind]
  refine bind_congr fun p => ?_
  cases p.state with
  | pending =>
      by_cases hnow : e.timestamp ≥ p.startTime
      · simp only [if_pos hnow]
        rfl
      · simp only [if_neg hnow]
        rfl
  | active =>
      by_cases hnow : e.timestamp ≥ p.endTime
      · simp only [if_pos hnow, map_bind]
        rfl
      · simp only [if_neg hnow]
        rfl
  | queued =>
      simp only [map_bind]
      refine bind_congr fun expiry => ?_
      by_cases hnow : e.timestamp ≥ expiry.toNat
      · simp only [if_pos hnow]
        rfl
      · simp only [if_neg hnow]
        rfl
  | _ => rfl

theorem exec_core (a : Action) : exec e token.core escrow.core s.core a =
    Store.core <$> exec e token escrow s a := by
  cases a with
  | propose proposer description callData duration =>
      simp only [exec, propose, map_bind, map_pure]
      rfl
  | vote voter id support amount =>
      simp only [exec, vote, apply_ite, map_bind, map_pure]
      rfl
  | queue id =>
      simp only [exec, queue, map_bind, map_pure]
      rfl
  | execute id =>
      simp only [exec, execute, map_bind, map_pure]
      rfl
  | cancel id =>
      simp only [exec, cancel, map_bind, map_pure]
      rfl
  | updateProposalStates => exact KeyedLoops.foldlM_map (updateProposal_core e token) _ s
  | setPerformanceFee fee =>
      simp only [exec, setPerformanceFee, map_bind, map_pure]
      rfl
  | setWithdrawalFee fee =>
      simp only [exec, setWithdrawalFee, map_bind, map_pure]
      rfl
  | setRebalanceThreshold threshold =>
      simp only [exec, setRebalanceThreshold, map_bind, map_pure]
      rfl
  | setInsuranceReserveTarget target =>
      simp only [exec, setInsuranceReserveTarget, map_bind, map_pure]
      rfl

end ProtocolGovernor

namespace Governance

open Transact

/-- The part of the storages that matters. -/
def World.core (w : World) : World where
  token := w.token.core
  staking := w.staking.core
  fees := w.fees.core
  governor := w.governor.core
  escrow := w.escrow.core
  multisig := w.multisig.core

/-- A call does in the part that matters what it does in all of it. -/
theorem exec_core (d : Deployment) (w : World) (c : GovEnv × Action) :
    World.core <$> exec d w.core c = World.core <$> exec d w c := by
  obtain ⟨e, a⟩ := c
  cases a with
  | token a =>
      have h := congrArg (fun x => (fun t => { w.core with token := t }) <$> x)
        (GovernanceToken.exec_core e w.token a)
      simp only [Functor.map_map] at h
      simp only [exec, Functor.map_map]
      exact h
  | staking a =>
      have h := congrArg (fun x => (fun r : GovernanceToken.Store × StakingContract.Store =>
        { w.core with token := r.1, staking := r.2 }) <$> x)
        (StakingContract.exec_core d.staking e w.token w.staking a)
      simp only [Functor.map_map] at h
      simp only [exec, Functor.map_map]
      exact h
  | fees a =>
      have h := congrArg (fun x => (fun s => { w.core with fees := s }) <$> x)
        (FeeDistributor.exec_core e w.staking w.fees a)
      simp only [Functor.map_map] at h
      simp only [exec, Functor.map_map]
      exact h
  | governor a =>
      have h := ProtocolGovernor.exec_core e w.token w.escrow w.governor a
      simp only [exec, Functor.map_map]
      refine (congrArg (_ <$> ·) h).trans ?_
      rw [Functor.map_map]
      rfl
  | escrow a =>
      have h := congrArg (fun x => (fun r : GovernanceToken.Store × VotingEscrow.Store =>
        { w.core with token := r.1, escrow := r.2 }) <$> x)
        (VotingEscrow.exec_core d.escrow e w.token w.escrow a)
      simp only [Functor.map_map] at h
      simp only [exec, Functor.map_map]
      exact h
  | multisig a =>
      have h := congrArg (fun x => (fun s => { w.core with multisig := s }) <$> x)
        (EmergencyMultisig.exec_core e w.multisig a)
      simp only [Functor.map_map] at h
      simp only [exec, Functor.map_map]
      exact h

/-- States that differ only in the allowances, the delegates and the vesting of the token, in when
stakes began, in the supply of the escrow at times, in the pending transactions of the multisig, in
the timelock and the admin of the governor and in what the distributor noted of its distribution
do so after every run, and every call then does alike in them or fails alike. -/
theorem inert_data (d : Deployment) (w v : World) (h : w.core = v.core)
    (calls : List (GovEnv × Action)) :
    (run (exec d) w calls).core = (run (exec d) v calls).core ∧
      ∀ c, World.core <$> exec d (run (exec d) w calls) c =
        World.core <$> exec d (run (exec d) v calls) c := by
  have hcall : ∀ w v : World, ∀ c, w.core = v.core →
      World.core <$> exec d w c = World.core <$> exec d v c := by
    intro w v c hwv
    rw [← exec_core d w, ← exec_core d v, hwv]
  have hrun := @run_view _ _ _ (exec d) _ World.core hcall calls w v h
  exact ⟨hrun, fun c => hcall _ _ c hrun⟩

theorem inert_data_sample :
    let v := run (exec sampleDeployment) sampleWorld
      [(⟨[2], 0, 0⟩, .token (.approve 2 3 70)), (⟨[2], 0, 0⟩, .token (.delegate 2 3))]
    let calls := [(⟨[3], 1, 0⟩, Action.token (.transfer 3 5 20))]
    (run (exec sampleDeployment) v calls).core = (run (exec sampleDeployment) sampleWorld calls).core ∧
      ∀ c, World.core <$> exec sampleDeployment (run (exec sampleDeployment) v calls) c =
        World.core <$> exec sampleDeployment (run (exec sampleDeployment) sampleWorld calls) c := by
  intro v calls
  have h : v.core = sampleWorld.core := by rfl
  exact inert_data sampleDeployment v sampleWorld h calls

end Governance

end YieldEngine
