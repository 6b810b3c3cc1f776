import YieldEngine.InsuranceRuns
import YieldEngine.RebalanceRuns
import YieldEngine.RewardRuns
import YieldEngine.VaultWrites

/-! # Initialising a contract again

`initialize` sets up a contract on fresh storage and is meant to work once.  The reward
distributor keeps a mark and refuses a second call.  The vault, the rebalance engine and the
insurance contract keep none: anybody may call `initialize` on them at any time, and it writes
the initial values over the accounts of the contract, while what is stored per user or per
policy stays.

For each contract `initializeCall` is the entrypoint as a call of its own, and `Repeats` the
condition under which a further call changes nothing: its arguments are the stored ones, and
the contract is as if unused.  `initialize_again_iff` decides it in every state of every run
after the first `initialize`. -/

namespace YieldEngine

open CheckedArith Transact

/-! ### The vault -/

namespace Vault

/-- The arguments of `initialize`, and the environment it is called in. -/
structure VaultSetup where
  env : Env
  info : VaultInfo
  admin : Address
  treasury : Address

def initializeCall (w : World) (c : VaultSetup) : VaultCall World :=
  pure { w with store := w.store.initialized c.env c.info c.admin c.treasury }

/-- The call repeats the stored arguments in the second of the last harvest, and the vault is
running and unused: no shares and no tokens recorded, no action ever queued, and the
emergency settings and the delay untouched. -/
structure Repeats (w : World) (c : VaultSetup) : Prop where
  info : w.store.vaultInfo = some c.info
  admin : w.store.admin = some c.admin
  treasury : w.store.treasury = some c.treasury
  running : w.store.paused = some false
  delay : w.store.timelockDelay = some defaultTimelockDelay
  queue : w.store.nextActionId = some 1
  signers : w.store.emergencySigners = some []
  threshold : w.store.emergencyThreshold = some 3
  metrics : w.store.metrics = some ⟨0, 0, 0, 0, 0, c.env.timestamp⟩
  version : w.store.version = some storageVersion

theorem initializeCall_idle_iff (w : World) (c : VaultSetup) :
    commit initializeCall w c = w ↔ Repeats w c := by
  have hcall : initializeCall w c =
      .ok { w with store := w.store.initialized c.env c.info c.admin c.treasury } := rfl
  rw [commit_of_ok hcall]
  constructor
  · intro h
    have hstore := congrArg World.store h
    exact ⟨(congrArg VaultStore.vaultInfo hstore).symm, (congrArg VaultStore.admin hstore).symm,
      (congrArg VaultStore.treasury hstore).symm, (congrArg VaultStore.paused hstore).symm,
      (congrArg VaultStore.timelockDelay hstore).symm,
      (congrArg VaultStore.nextActionId hstore).symm,
      (congrArg VaultStore.emergencySigners hstore).symm,
      (congrArg VaultStore.emergencyThreshold hstore).symm,
      (congrArg VaultStore.metrics hstore).symm, (congrArg VaultStore.version hstore).symm⟩
  · rintro ⟨hinfo, hadmin, htreasury, hrunning, hdelay, hqueue, hsigners, hthreshold, hmetrics,
      hversion⟩
    obtain ⟨s, l⟩ := w
    cases s
    simp only at *
    subst hinfo hadmin htreasury hrunning hdelay hqueue hsigners hthreshold hmetrics hversion
    rfl

end Vault

/-! ### The rebalance engine -/

namespace Rebalance

def initializeCall (w : World) (admin : Address) : RebalanceCall World :=
  pure { w with store := initializeRebalance w.store admin }

/-- The call repeats the stored admin, and the engine is running and unused: no strategy was
ever created, no rebalance recorded, no feed published, and its settings are the defaults. -/
structure Repeats (w : World) (admin : Address) : Prop where
  admin : w.store.admin = some admin
  running : w.store.paused = some false
  next : w.store.nextStrategyId = some 1
  strategies : w.store.strategies = some SortedMap.empty
  history : w.store.history = some []
  feeds : w.store.poolApy = some SortedMap.empty
  keepers : w.store.apyKeepers = some []
  age : w.store.maxApyAge = some defaultMaxApyAge
  slippage : w.store.maxSlippageBps = some defaultMaxSlippageBps
  version : w.store.version = some storageVersion

theorem initializeCall_idle_iff (w : World) (admin : Address) :
    commit initializeCall w admin = w ↔ Repeats w admin := by
  have hcall : initializeCall w admin =
      .ok { w with store := initializeRebalance w.store admin } := rfl
  rw [commit_of_ok hcall]
  constructor
  · intro h
    have hstore := congrArg World.store h
    exact ⟨(congrArg RebalanceStore.admin hstore).symm,
      (congrArg RebalanceStore.paused hstore).symm,
      (congrArg RebalanceStore.nextStrategyId hstore).symm,
      (congrArg RebalanceStore.strategies hstore).symm,
      (congrArg RebalanceStore.history hstore).symm,
      (congrArg RebalanceStore.poolApy hstore).symm,
      (congrArg RebalanceStore.apyKeepers hstore).symm,
      (congrArg RebalanceStore.maxApyAge hstore).symm,
      (congrArg RebalanceStore.maxSlippageBps hstore).symm,
      (congrArg RebalanceStore.version hstore).symm⟩
  · rintro ⟨hadmin, hrunning, hnext, hstrategies, hhistory, hfeeds, hkeepers, hage, hslippage,
      hversion⟩
    obtain ⟨s, l⟩ := w
    cases s
    simp only at *
    subst hadmin hrunning hnext hstrategies hhistory hfeeds hkeepers hage hslippage hversion
    rfl

end Rebalance

/-! ### The insurance contract -/

namespace Insurance

/-- The arguments of `initialize`. -/
structure InsuranceSetup where
  admin : Address
  reserveToken : Address

def initializeCall (w : InsuranceWorld) (c : InsuranceSetup) : InsuranceCall InsuranceWorld :=
  pure { w with store := initializeInsurance w.store c.admin c.reserveToken }

/-- The call repeats the stored arguments, and the contract is unused: no policy was ever sold
and the reserve is empty. -/
structure Repeats (w : InsuranceWorld) (c : InsuranceSetup) : Prop where
  admin : w.store.admin = some c.admin
  token : w.store.reserveToken = some c.reserveToken
  next : w.store.nextPolicyId = some 0
  reserve : w.store.reservePool = some ReservePool.empty
  version : w.store.version = some storageVersion

theorem initializeCall_idle_iff (w : InsuranceWorld) (c : InsuranceSetup) :
    commit initializeCall w c = w ↔ Repeats w c := by
  have hcall : initializeCall w c =
      .ok { w with store := initializeInsurance w.store c.admin c.reserveToken } := rfl
  rw [commit_of_ok hcall]
  constructor
  · intro h
    have hstore := congrArg InsuranceWorld.store h
    exact ⟨(congrArg InsuranceStore.admin hstore).symm,
      (congrArg InsuranceStore.reserveToken hstore).symm,
      (congrArg InsuranceStore.nextPolicyId hstore).symm,
      (congrArg InsuranceStore.reservePool hstore).symm,
      (congrArg InsuranceStore.version hstore).symm⟩
  · rintro ⟨hadmin, htoken, hnext, hreserve, hversion⟩
    obtain ⟨s, l⟩ := w
    cases s
    simp only at *
    subst hadmin htoken hnext hreserve hversion
    rfl

end Insurance

/-! ### The reward distributor -/

namespace Rewards

/-- The arguments of `initialize`. -/
structure RewardSetup where
  admin : Address
  treasury : Address
  swapRouter : Address

def initializeCall (w : RewardWorld) (c : RewardSetup) : RewardCall RewardWorld :=
  (fun s => { w with store := s }) <$> initializeRewards w.store c.admin c.treasury c.swapRouter

/-- The mark of a first `initialize`. -/
def Marked (w : RewardWorld) : Prop := w.store.initialized = some true

theorem marked_step {w w' : RewardWorld} {event : RewardEvent} (hw : Marked w)
    (h : rewardStep w event = .ok w') : Marked w' := by
  cases event with
  | tokens ledger =>
      obtain rfl := pure_eq_ok.mp h
      exact hw
  | call e action =>
      obtain ⟨⟨w₁, payouts⟩, hexec, rfl⟩ := map_eq_ok.mp h
      cases exec_effect hexec with
      | update hu => exact (updateRewards_streams hu).2.trans hw
      | claim _ _ hinit => exact hinit.trans hw
      | other _ _ hs => exact hs.initialized.trans hw

/-- A marked distributor refuses to be initialised again. -/
theorem initializeCall_of_marked {w : RewardWorld} (hw : Marked w) (c : RewardSetup) :
    initializeCall w c = .error (.raised (.contract .alreadyInitialized)) := by
  rw [initializeCall, initializeRewards, hw]
  rfl

theorem marked_either {w w' : RewardWorld} {c : RewardSetup ⊕ RewardEvent} (hw : Marked w)
    (h : either initializeCall rewardStep w c = .ok w') : Marked w' := by
  cases c with
  | inl c =>
      rw [either, Sum.elim_inl, initializeCall_of_marked hw] at h
      cases h
  | inr event => exact marked_step hw h

end Rewards

/-! ### All four -/

/-- In every state of every run after a first `initialize`, a further one changes nothing if
and only if it repeats the stored arguments on an unused contract; for the reward distributor
it never changes anything. -/
theorem initialize_again_iff (e : Env) (info : Vault.VaultInfo)
    (admin treasury swapRouter reserveToken : Address) (ledger : Ledger) :
    IdleExactly Vault.initializeCall Vault.vaultStep Vault.Repeats
        (Vault.initialWorld e info admin treasury ledger) ∧
      IdleExactly Rebalance.initializeCall Rebalance.rebalanceStep Rebalance.Repeats
        ⟨Rebalance.initialRebalance admin, ledger⟩ ∧
      IdleExactly Insurance.initializeCall Insurance.insuranceStep Insurance.Repeats
        ⟨Insurance.initialInsurance admin reserveToken, ledger⟩ ∧
      IdleExactly Rewards.initializeCall Rewards.rewardStep (fun _ _ => True)
        ⟨Rewards.initialRewards admin treasury swapRouter, ledger⟩ := by
  refine ⟨idleExactly_of_iff Vault.initializeCall_idle_iff _,
    idleExactly_of_iff Rebalance.initializeCall_idle_iff _,
    idleExactly_of_iff Insurance.initializeCall_idle_iff _, ?_⟩
  intro calls c
  have hmarked : Rewards.Marked (run (either Rewards.initializeCall Rewards.rewardStep)
      ⟨Rewards.initialRewards admin treasury swapRouter, ledger⟩ calls) := by
    apply run_invariant
    · intro w event w' hw h
      exact Rewards.marked_either hw h
    · rfl
  apply iff_of_true _ trivial
  exact commit_of_error (Rewards.initializeCall_of_marked hmarked c)

/-- User 5 holds 20 shares when a stranger initialises the vault again: the total shares are
zero, the admin is the stranger, and the position is still there. -/
theorem initialized_by_stranger :
    let held := Transact.run Vault.vaultStep Vault.openedVault
      [.call ⟨9, [5], 1⟩ (.deposit 5 10 10 0)]
    let reset := Transact.commit Vault.initializeCall held
      ⟨⟨9, [], 2⟩, Vault.twoTokenVault 0, 6, 6⟩
    held.store.storedMetrics.totalShares = 20 ∧ reset.store.storedMetrics.totalShares = 0 ∧
      held.store.admin = some 7 ∧ reset.store.admin = some 6 ∧
      (reset.store.getUserPosition 5).shares = 20 := by decide

end YieldEngine
