import YieldEngine.VaultEffects

/-! # How the economic parameters of the vault move

The economic parameters (`Parameters`) are the prices, the minimum deposits, the minimum
withdrawal, the treasury and the timelock delay.  The timelock promises depositors that one
of them changes only when an action naming it has waited out its delay in the queue
(`MovedByTimelock`).  `movedByTimelock_iff` decides, for every returning invocation in every
state, whether the promise is kept: `set_prices` writes prices at once and `initialize`
rewrites the treasury and the delay, every other entrypoint keeps it. -/

namespace YieldEngine.Vault

open CheckedArith

/-- The economic parameters. -/
structure Parameters where
  prices : ℤ × ℤ
  minDepositAmounts : ℤ × ℤ
  minWithdrawShares : ℤ
  treasury : Option Address
  timelockDelay : ℕ
deriving DecidableEq, Repr

def VaultStore.parameters (s : VaultStore) : Parameters where
  prices := s.getPrices
  minDepositAmounts := s.getMinDepositAmounts
  minWithdrawShares := s.getMinWithdrawShares
  treasury := s.treasury
  timelockDelay := s.getTimelockDelay

/-- The one parameter a queued action names takes the value in that action. -/
def PendingAdminAction.applyTo (p : Parameters) : PendingAdminAction → Parameters
  | .prices priceA priceB => { p with prices := (priceA, priceB) }
  | .minDepositAmounts minA minB => { p with minDepositAmounts := (minA, minB) }
  | .minWithdrawShares minShares => { p with minWithdrawShares := minShares }
  | .treasury address => { p with treasury := some address }
  | .timelockDelay delay => { p with timelockDelay := delay }

/-- If a parameter differs after the call, the call executed a queued action that had become
executable, and the parameters are those the action makes of the old ones. -/
def MovedByTimelock (e : Env) (c : VaultInvocation) (s s' : VaultStore) : Prop :=
  s'.parameters ≠ s.parameters → ∃ admin actionId entry,
    c = .entrypoint (.executePendingAction admin actionId) ∧
      s.getPendingActions.get actionId = some entry ∧ entry.executableAt ≤ e.timestamp ∧
      s'.parameters = entry.action.applyTo s.parameters

/-- The calls that write a parameter past the queue write the value it has. -/
def VaultInvocation.RepeatsParameters (s : VaultStore) : VaultInvocation → Prop
  | .initializeVault _ _ treasury =>
      s.treasury = some treasury ∧ s.getTimelockDelay = defaultTimelockDelay
  | .entrypoint (.setPrices _ priceA priceB) => s.getPrices = (priceA, priceB)
  | .entrypoint _ => True

/-! ### Single calls -/

theorem parameters_write (s : VaultStore) (payload : PendingAdminAction)
    (metrics : Option VaultMetrics) :
    ({ payload.write s with metrics := metrics } : VaultStore).parameters =
      payload.applyTo s.parameters := by
  cases payload <;> rfl

theorem parameters_movedOnly {s s' : VaultStore} (h : MovedOnly s s') :
    s'.parameters = s.parameters := by
  obtain ⟨_, _, _, _, _, rfl⟩ := h
  rfl

/-- The promise about a call that executes nothing is that it keeps the parameters. -/
theorem movedByTimelock_iff_eq {e : Env} {c : VaultInvocation} {s s' : VaultStore}
    (hc : ∀ admin actionId, c ≠ .entrypoint (.executePendingAction admin actionId)) :
    MovedByTimelock e c s s' ↔ s'.parameters = s.parameters := by
  constructor
  · intro h
    by_contra hne
    obtain ⟨admin, actionId, _, heq, -⟩ := h hne
    exact hc admin actionId heq
  · intro h hne
    exact absurd h hne

theorem movedByTimelock_written {e : Env} {s s' : VaultStore} {action : VaultAction}
    (h : Written e s action s') :
    MovedByTimelock e (.entrypoint action) s s' ↔
      VaultInvocation.RepeatsParameters s (.entrypoint action) := by
  cases h with
  | execute hadmin hentry hdue hmetrics =>
      exact iff_of_true (fun _ => ⟨_, _, _, rfl, hentry, hdue, parameters_write _ _ _⟩) trivial
  | @setPrices admin priceA priceB metrics hadmin hmetrics =>
      rw [movedByTimelock_iff_eq (by simp)]
      refine Iff.trans (b := { s.parameters with prices := (priceA, priceB) } = s.parameters)
        Iff.rfl ?_
      simp [VaultStore.parameters, VaultInvocation.RepeatsParameters, eq_comm]
  | propose hproposal hadmin =>
      refine iff_of_true (fun hne => absurd rfl hne) ?_
      cases action <;> trivial
  | _ => exact iff_of_true (fun hne => absurd rfl hne) trivial

/-! ### Any call -/

/-- A returning invocation moves the parameters by the timelock only, exactly when a call that
writes a parameter directly writes the value it has. -/
theorem movedByTimelock_iff {e : Env} {w w' : World} {c : VaultInvocation}
    (h : invoke w (e, c) = .ok w') :
    MovedByTimelock e c w.store w'.store ↔ c.RepeatsParameters w.store := by
  cases c with
  | initializeVault info admin treasury =>
      obtain rfl := pure_eq_ok.mp h
      rw [movedByTimelock_iff_eq (by simp)]
      refine Iff.trans (b := { w.store.parameters with
        treasury := some treasury, timelockDelay := defaultTimelockDelay } = w.store.parameters)
        Iff.rfl ?_
      simp [VaultStore.parameters, VaultInvocation.RepeatsParameters, eq_comm]
  | entrypoint action =>
      have h : exec w (e, action) = .ok w' := h
      by_cases hkind : action.MovesValue
      · have hkept := parameters_movedOnly (exec_movedOnly hkind h)
        refine iff_of_true (fun hne => absurd hkept hne) ?_
        cases action <;> first | exact hkind.elim | trivial
      · obtain ⟨s, hs, rfl⟩ := exec_admin hkind h
        exact movedByTimelock_written (execAdmin_written hkind hs)

/-- The vault with a change of the prices queued. -/
def queuedVault : World :=
  Transact.run vaultStep openedVault [.call ⟨9, [7], 2⟩ (.proposeSetPrices 7 3 4)]

/-- The queued prices are written once their delay has passed. -/
theorem movedByTimelock_queuedVault :
    ∃ w', invoke queuedVault (⟨9, [7], 172802⟩, .entrypoint (.executePendingAction 7 1)) = .ok w' ∧
      w'.store.parameters ≠ queuedVault.store.parameters ∧
      MovedByTimelock ⟨9, [7], 172802⟩ (.entrypoint (.executePendingAction 7 1))
        queuedVault.store w'.store :=
  ⟨_, rfl, by decide, (movedByTimelock_iff rfl).mpr trivial⟩

/-- The admin changes the prices in one call, with nothing queued. -/
theorem prices_set_at_once :
    Reachable (twoTokenVault 0) openedVault ∧
      ∃ w', invoke openedVault (⟨9, [7], 2⟩, .entrypoint (.setPrices 7 3 4)) = .ok w' ∧
        ¬ MovedByTimelock ⟨9, [7], 2⟩ (.entrypoint (.setPrices 7 3 4)) openedVault.store
          w'.store := by
  refine ⟨⟨_, _, _, _, [], rfl⟩, _, rfl, fun h => ?_⟩
  obtain ⟨_, _, _, heq, -⟩ := h (by decide)
  cases heq

end YieldEngine.Vault
