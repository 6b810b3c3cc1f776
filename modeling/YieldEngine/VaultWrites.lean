import YieldEngine.VaultRuns

/-! # What an entrypoint of the vault writes

`execAdmin_written` classifies the returning calls of every entrypoint that neither deposits,
withdraws nor harvests: a call queues a proposal, executes or cancels a queued action, or
writes the cells of one immediate setting (`Written`).  Each constructor carries the guards
the call has passed and the store it leaves.  What such calls keep or change is proved by a
case split on `Written`, never by unfolding an entrypoint.

`VaultInvocation` adds `initialize` to the entrypoints, for statements about every function
an outsider can invoke. -/

namespace YieldEngine.Vault

open CheckedArith

/-! ### Queued actions -/

/-- The proposer and the payload of a proposing call. -/
def VaultAction.proposal : VaultAction → Option (Address × PendingAdminAction)
  | .proposeSetMinDepositAmounts admin minA minB => some (admin, .minDepositAmounts minA minB)
  | .proposeSetMinWithdrawShares admin minShares => some (admin, .minWithdrawShares minShares)
  | .proposeSetPrices admin priceA priceB => some (admin, .prices priceA priceB)
  | .proposeSetTreasury admin treasury => some (admin, .treasury treasury)
  | .proposeSetTimelockDelay admin delay => some (admin, .timelockDelay delay)
  | _ => none

/-- The cells an applied action writes, up to the revaluation of the metrics. -/
def PendingAdminAction.write (s : VaultStore) : PendingAdminAction → VaultStore
  | .prices priceA priceB => { s with priceA := some priceA, priceB := some priceB }
  | .minDepositAmounts minA minB => { s with minDepositA := some minA, minDepositB := some minB }
  | .minWithdrawShares minShares => { s with minWithdrawShares := some minShares }
  | .treasury address => { s with treasury := some address }
  | .timelockDelay delay => { s with timelockDelay := some delay }

/-- The id the next proposal gets. -/
def VaultStore.nextId (s : VaultStore) : ℕ := s.nextActionId.getD 1

/-- The time at which an action proposed now becomes executable. -/
def VaultStore.dueTime (e : Env) (s : VaultStore) : ℕ :=
  min (e.timestamp + s.getTimelockDelay) u64Max

/-- The queue entry a proposal makes. -/
def VaultStore.nextEntry (e : Env) (s : VaultStore) (proposer : Address)
    (payload : PendingAdminAction) : PendingAction :=
  ⟨s.nextId, payload, proposer, s.dueTime e⟩

/-- The store after a proposal. -/
def VaultStore.queued (e : Env) (s : VaultStore) (proposer : Address)
    (payload : PendingAdminAction) : VaultStore :=
  { s with
    nextActionId := some (s.nextId + 1)
    pendingActions := some (s.getPendingActions.set s.nextId (s.nextEntry e proposer payload)) }

/-- The store after taking an action out of the queue. -/
def VaultStore.dequeued (s : VaultStore) (actionId : ℕ) : VaultStore :=
  { s with pendingActions := some (s.getPendingActions.remove actionId) }

/-- A metrics record with the shares and the token totals of the stored one. -/
def VaultStore.Revalued (s : VaultStore) (metrics : VaultMetrics) : Prop :=
  metrics.totalShares = s.storedMetrics.totalShares ∧
    metrics.totalAmountA = s.storedMetrics.totalAmountA ∧
    metrics.totalAmountB = s.storedMetrics.totalAmountB

theorem enqueue_ok {e : Env} {s : VaultStore} {proposer : Address} {payload : PendingAdminAction}
    {r : VaultStore × ℕ} (h : enqueue e s proposer payload = .ok r) :
    r = (s.queued e proposer payload, s.nextId) := by
  simp only [enqueue, nextActionId, bind_eq_ok, pure_eq_ok, checkedU_eq_ok] at h
  obtain ⟨_, ⟨_, ⟨-, rfl⟩, rfl⟩, rfl⟩ := h
  rfl

theorem applyPrices_ok {s s' : VaultStore} {priceA priceB : ℤ}
    (h : applyPrices s priceA priceB = .ok s') :
    ∃ metrics, s.Revalued metrics ∧
      s' = { s with priceA := some priceA, priceB := some priceB, metrics := some metrics } := by
  simp only [applyPrices, bind_eq_ok, pure_eq_ok] at h
  obtain ⟨metrics, hm, rfl⟩ := h
  obtain ⟨h1, h2, h3⟩ := VaultStore.getMetrics_totals hm
  exact ⟨metrics, ⟨h1, h2, h3⟩, rfl⟩

/-- An applied action writes its own cells, and the metrics only to revalue them. -/
theorem applyAction_ok {s s' : VaultStore} {payload : PendingAdminAction}
    (h : applyAction s payload = .ok s') :
    ∃ metrics, s' = { payload.write s with metrics := metrics } ∧
      (metrics = s.metrics ∨ ∃ m, metrics = some m ∧ s.Revalued m) := by
  cases payload with
  | prices priceA priceB =>
      obtain ⟨m, hm, rfl⟩ := applyPrices_ok h
      exact ⟨some m, rfl, .inr ⟨m, rfl, hm⟩⟩
  | minDepositAmounts minA minB =>
      obtain rfl := pure_eq_ok.mp h
      exact ⟨s.metrics, rfl, .inl rfl⟩
  | minWithdrawShares minShares =>
      obtain rfl := pure_eq_ok.mp h
      exact ⟨s.metrics, rfl, .inl rfl⟩
  | treasury treasury =>
      obtain ⟨_, -, h⟩ := bind_eq_ok.mp h
      obtain rfl := pure_eq_ok.mp h
      exact ⟨s.metrics, rfl, .inl rfl⟩
  | timelockDelay delay =>
      obtain rfl := pure_eq_ok.mp h
      exact ⟨s.metrics, rfl, .inl rfl⟩

theorem requireAdmin_eq_ok {s : VaultStore} {caller : Address} {u : Unit} :
    s.requireAdmin caller = .ok u ↔ s.admin = some caller := by
  simp only [VaultStore.requireAdmin, VaultStore.getAdmin, bind_eq_ok, orRaise_eq_ok,
    require_eq_ok]
  constructor
  · rintro ⟨admin, h, rfl⟩
    exact h
  · intro h
    exact ⟨caller, h, rfl⟩

/-! ### The classification -/

/-- What a returning call has checked and the store it has left. -/
inductive Written (e : Env) (s : VaultStore) : VaultAction → VaultStore → Prop
  | propose {action : VaultAction} {admin : Address} {payload : PendingAdminAction}
      (hproposal : action.proposal = some (admin, payload)) (hadmin : s.admin = some admin) :
      Written e s action (s.queued e admin payload)
  | execute {admin : Address} {actionId : ℕ} {entry : PendingAction}
      {metrics : Option VaultMetrics} (hadmin : s.admin = some admin)
      (hentry : s.getPendingActions.get actionId = some entry)
      (hdue : entry.executableAt ≤ e.timestamp)
      (hmetrics : metrics = s.metrics ∨ ∃ m, metrics = some m ∧ s.Revalued m) :
      Written e s (.executePendingAction admin actionId)
        { entry.action.write (s.dequeued actionId) with metrics := metrics }
  | cancel {admin : Address} {actionId : ℕ} {entry : PendingAction}
      (hadmin : s.admin = some admin) (hentry : s.getPendingActions.get actionId = some entry) :
      Written e s (.cancelPendingAction admin actionId) (s.dequeued actionId)
  | setPrices {admin : Address} {priceA priceB : ℤ} {metrics : VaultMetrics}
      (hadmin : s.admin = some admin) (hmetrics : s.Revalued metrics) :
      Written e s (.setPrices admin priceA priceB)
        { s with priceA := some priceA, priceB := some priceB, metrics := some metrics }
  | setWithdrawPacing {admin : Address} {userMaxBps vaultMaxBps windowSeconds : ℕ}
      (hadmin : s.admin = some admin) :
      Written e s (.setWithdrawPacing admin userMaxBps vaultMaxBps windowSeconds)
        { s with withdrawPacing := some ⟨userMaxBps, vaultMaxBps, windowSeconds⟩ }
  | pause {admin : Address} (hadmin : s.admin = some admin) :
      Written e s (.pause admin) { s with paused := some true }
  | unpause {admin : Address} (hadmin : s.admin = some admin) :
      Written e s (.unpause admin) { s with paused := some false }
  | upgrade {admin : Address} (hadmin : s.admin = some admin) : Written e s (.upgrade admin) s
  | migrate {admin : Address} (hadmin : s.admin = some admin) :
      Written e s (.migrate admin) { s with version := some storageVersion }
  | setEmergencySigners {admin : Address} {signers : List Address}
      (hadmin : s.admin = some admin) :
      Written e s (.setEmergencySigners admin signers) { s with emergencySigners := some signers }
  | setEmergencyThreshold {admin : Address} {threshold : ℕ} (hadmin : s.admin = some admin) :
      Written e s (.setEmergencyThreshold admin threshold)
        { s with emergencyThreshold := some threshold }
  | emergencyPause {signers : List Address} :
      Written e s (.emergencyPause signers) { s with paused := some true }
  | emergencyUnpause {signers : List Address} :
      Written e s (.emergencyUnpause signers) { s with paused := some false }

/-- The calls that move value: they are classified by their own lemmas. -/
def VaultAction.MovesValue : VaultAction → Prop
  | .deposit .. | .withdraw .. | .harvest .. => True
  | _ => False

theorem executePendingAction_written {e : Env} {s s' : VaultStore} {admin : Address}
    {actionId : ℕ} (h : executePendingAction e s admin actionId = .ok s') :
    Written e s (.executePendingAction admin actionId) s' := by
  simp only [executePendingAction, bind_eq_ok, requireAdmin_eq_ok, orRaise_eq_ok, require_eq_ok,
    exists_const] at h
  obtain ⟨hadmin, entry, hentry, hdue, h⟩ := h
  obtain ⟨metrics, rfl, hmetrics⟩ := applyAction_ok h
  exact .execute hadmin hentry hdue hmetrics

theorem cancelPendingAction_written {e : Env} {s s' : VaultStore} {admin : Address}
    {actionId : ℕ} (h : cancelPendingAction s admin actionId = .ok s') :
    Written e s (.cancelPendingAction admin actionId) s' := by
  simp only [cancelPendingAction, bind_eq_ok, requireAdmin_eq_ok, require_eq_ok, exists_const,
    pure_eq_ok] at h
  obtain ⟨hadmin, hsome, rfl⟩ := h
  obtain ⟨entry, hentry⟩ := Option.isSome_iff_exists.mp hsome
  exact .cancel hadmin hentry

/-- Every returning call that does not move value writes what `Written` says. -/
theorem execAdmin_written {e : Env} {s s' : VaultStore} {action : VaultAction}
    (hkind : ¬ action.MovesValue) (h : execAdmin e s action = .ok s') : Written e s action s' := by
  cases action with
  | deposit user amountA amountB minShares => exact absurd trivial hkind
  | withdraw user shares minAmountA minAmountB => exact absurd trivial hkind
  | harvest caller => exact absurd trivial hkind
  | executePendingAction admin actionId => exact executePendingAction_written h
  | cancelPendingAction admin actionId => exact cancelPendingAction_written h
  | setPrices admin priceA priceB =>
      simp only [execAdmin, setPrices, bind_eq_ok, requireAdmin_eq_ok, exists_const] at h
      obtain ⟨hadmin, -, -, h⟩ := h
      obtain ⟨metrics, hmetrics, rfl⟩ := applyPrices_ok h
      exact .setPrices hadmin hmetrics
  | emergencyPause signers =>
      simp only [execAdmin, emergencyPause, bind_eq_ok, pure_eq_ok] at h
      obtain ⟨-, -, rfl⟩ := h
      exact .emergencyPause
  | emergencyUnpause signers =>
      simp only [execAdmin, emergencyUnpause, bind_eq_ok, pure_eq_ok] at h
      obtain ⟨-, -, rfl⟩ := h
      exact .emergencyUnpause
  | proposeSetMinDepositAmounts admin minA minB =>
      simp only [execAdmin, proposeSetMinDepositAmounts, map_eq_ok, bind_eq_ok,
        requireAdmin_eq_ok, exists_const] at h
      obtain ⟨r, ⟨hadmin, -, -, -, -, hr⟩, rfl⟩ := h
      exact enqueue_ok hr ▸ .propose rfl hadmin
  | proposeSetMinWithdrawShares admin minShares =>
      simp only [execAdmin, proposeSetMinWithdrawShares, map_eq_ok, bind_eq_ok,
        requireAdmin_eq_ok, exists_const] at h
      obtain ⟨r, ⟨hadmin, -, -, hr⟩, rfl⟩ := h
      exact enqueue_ok hr ▸ .propose rfl hadmin
  | proposeSetPrices admin priceA priceB =>
      simp only [execAdmin, proposeSetPrices, map_eq_ok, bind_eq_ok, requireAdmin_eq_ok,
        exists_const] at h
      obtain ⟨r, ⟨hadmin, -, -, hr⟩, rfl⟩ := h
      exact enqueue_ok hr ▸ .propose rfl hadmin
  | proposeSetTreasury admin treasury =>
      simp only [execAdmin, proposeSetTreasury, map_eq_ok, bind_eq_ok, requireAdmin_eq_ok,
        exists_const] at h
      obtain ⟨r, ⟨hadmin, hr⟩, rfl⟩ := h
      exact enqueue_ok hr ▸ .propose rfl hadmin
  | proposeSetTimelockDelay admin delay =>
      simp only [execAdmin, proposeSetTimelockDelay, map_eq_ok, bind_eq_ok, requireAdmin_eq_ok,
        exists_const] at h
      obtain ⟨r, ⟨hadmin, hr⟩, rfl⟩ := h
      exact enqueue_ok hr ▸ .propose rfl hadmin
  | setWithdrawPacing admin userMaxBps vaultMaxBps windowSeconds =>
      simp only [execAdmin, setWithdrawPacing, bind_eq_ok, requireAdmin_eq_ok, exists_const,
        pure_eq_ok] at h
      obtain ⟨hadmin, -, -, -, -, -, -, rfl⟩ := h
      exact .setWithdrawPacing hadmin
  | pause admin =>
      simp only [execAdmin, pause, bind_eq_ok, requireAdmin_eq_ok, exists_const, pure_eq_ok] at h
      obtain ⟨hadmin, rfl⟩ := h
      exact .pause hadmin
  | unpause admin =>
      simp only [execAdmin, unpause, bind_eq_ok, requireAdmin_eq_ok, exists_const, pure_eq_ok] at h
      obtain ⟨hadmin, rfl⟩ := h
      exact .unpause hadmin
  | upgrade admin =>
      simp only [execAdmin, upgrade, bind_eq_ok, requireAdmin_eq_ok, exists_const, pure_eq_ok] at h
      obtain ⟨hadmin, rfl⟩ := h
      exact .upgrade hadmin
  | migrate admin =>
      simp only [execAdmin, migrate, map_eq_ok, bind_eq_ok, requireAdmin_eq_ok, exists_const,
        pure_eq_ok] at h
      obtain ⟨_, ⟨hadmin, rfl⟩, rfl⟩ := h
      exact .migrate hadmin
  | setEmergencySigners admin signers =>
      simp only [execAdmin, setEmergencySigners, bind_eq_ok, requireAdmin_eq_ok, exists_const,
        pure_eq_ok] at h
      obtain ⟨hadmin, rfl⟩ := h
      exact .setEmergencySigners hadmin
  | setEmergencyThreshold admin threshold =>
      simp only [execAdmin, setEmergencyThreshold, bind_eq_ok, requireAdmin_eq_ok, exists_const,
        pure_eq_ok] at h
      obtain ⟨hadmin, -, -, rfl⟩ := h
      exact .setEmergencyThreshold hadmin

/-! ### Every function an outsider can invoke -/

/-- An invocation of `initialize` or of another writing entrypoint. -/
inductive VaultInvocation where
  | initializeVault (info : VaultInfo) (admin treasury : Address)
  | entrypoint (action : VaultAction)
deriving DecidableEq, Repr

/-- `initialize` with the tokens and rates of `info`, on storage in any state. -/
def VaultStore.initialized (e : Env) (s : VaultStore) (info : VaultInfo)
    (admin treasury : Address) : VaultStore :=
  initializeVault e s admin info.name info.tokenA info.tokenB info.poolId info.strategyId
    info.feeRate info.harvestFee info.withdrawalFee treasury

/-- One invocation, `initialize` included. -/
def invoke (w : World) (c : Env × VaultInvocation) : VaultCall World :=
  match c.2 with
  | .initializeVault info admin treasury =>
      pure { w with store := w.store.initialized c.1 info admin treasury }
  | .entrypoint action => exec w (c.1, action)

end YieldEngine.Vault
