import YieldEngine.VaultParameters
import YieldEngine.DelayQueue

/-! # The timelock of the vault is a delay queue

`queueOf` reads the queue of a store: the next id, the waiting actions with the time each
becomes executable, and the delay in force.  Every returning invocation of the vault makes one
step of that delay queue (`vaultStep_refines`), and `timelockLog` is the log of a run: what
each call that returned has proposed, executed or cancelled.  The promises of the timelock are
then those of a disciplined log (`timelock_protocol`). -/

namespace YieldEngine.Vault

open CheckedArith DelayQueue

/-- The delay an action sets when it is executed. -/
def PendingAdminAction.retimes : PendingAdminAction → Option ℕ
  | .timelockDelay delay => some delay
  | _ => none

/-- A queued action as a ticket. -/
def PendingAction.ticket (entry : PendingAction) : Ticket PendingAdminAction :=
  ⟨entry.action, entry.executableAt⟩

/-- The delay queue of a store. -/
def queueOf (s : VaultStore) : Queue PendingAdminAction where
  nextId := s.nextId
  pending := fun id => (s.getPendingActions.get id).map PendingAction.ticket
  delay := s.getTimelockDelay

/-- What a returning event adds to the log, from the state it is made in. -/
def queueRecord (w : World) : VaultEvent → List (Entry PendingAdminAction)
  | .call e (.executePendingAction _ actionId) =>
      match w.store.getPendingActions.get actionId with
      | some entry => [.executed actionId entry.action e.timestamp]
      | none => []
  | .call _ (.cancelPendingAction _ actionId) => [.cancelled actionId]
  | .call e action =>
      match action.proposal with
      | some (_, payload) =>
          [.proposed w.store.nextId payload e.timestamp w.store.getTimelockDelay]
      | none => []
  | .tokens _ => []

/-- The log of a run. -/
def timelockLog : World → List VaultEvent → List (Entry PendingAdminAction) :=
  Transact.ghostLog vaultStep queueRecord

/-! ### One call is one step of the queue -/

theorem queueOf_queued (e : Env) (s : VaultStore) (admin : Address)
    (payload : PendingAdminAction) :
    queueOf (s.queued e admin payload) = { queueOf s with
      nextId := (queueOf s).nextId + 1
      pending := Function.update (queueOf s).pending (queueOf s).nextId
        (some ⟨payload, min (e.timestamp + (queueOf s).delay) u64Max⟩) } := by
  have hpending : (queueOf (s.queued e admin payload)).pending =
      Function.update (queueOf s).pending s.nextId
        (some ⟨payload, min (e.timestamp + s.getTimelockDelay) u64Max⟩) := by
    funext id
    change ((s.getPendingActions.set s.nextId (s.nextEntry e admin payload)).get id).map _ = _
    rw [SortedMap.get_set]
    by_cases hid : id = s.nextId
    · rw [if_pos hid, hid, Function.update_self]
      rfl
    · rw [if_neg hid, Function.update_of_ne hid]
      rfl
  rw [queueOf, Queue.mk.injEq]
  exact ⟨rfl, hpending, rfl⟩

/-- Removing an action empties its place in the queue. -/
theorem queueOf_of_removed {s s' : VaultStore} {actionId : ℕ}
    (hnext : s'.nextId = s.nextId)
    (hqueue : s'.getPendingActions = s.getPendingActions.remove actionId) :
    queueOf s' = { queueOf s with
      pending := Function.update (queueOf s).pending actionId none
      delay := s'.getTimelockDelay } := by
  have hpending : (queueOf s').pending = Function.update (queueOf s).pending actionId none := by
    funext id
    change (s'.getPendingActions.get id).map _ = _
    rw [hqueue]
    by_cases hid : id = actionId
    · rw [hid, SortedMap.get_remove_self, Function.update_self]
      rfl
    · rw [SortedMap.get_remove_ne _ hid, Function.update_of_ne hid]
      rfl
  rw [queueOf, Queue.mk.injEq]
  exact ⟨hnext, hpending, rfl⟩

theorem pending_queueOf {s : VaultStore} {actionId : ℕ} {entry : PendingAction}
    (h : s.getPendingActions.get actionId = some entry) :
    (queueOf s).pending actionId = some entry.ticket := by
  change (s.getPendingActions.get actionId).map _ = _
  rw [h]
  rfl

theorem written_refines {e : Env} {w : World} {s' : VaultStore} {action : VaultAction}
    (h : Written e w.store action s') :
    Step u64Max PendingAdminAction.retimes (queueOf w.store) (queueRecord w (.call e action))
      (queueOf s') := by
  cases h with
  | @propose action admin payload hproposal hadmin =>
      have hrecord : queueRecord w (.call e action) =
          [.proposed w.store.nextId payload e.timestamp w.store.getTimelockDelay] := by
        cases action <;> simp_all [VaultAction.proposal, queueRecord]
      rw [hrecord, queueOf_queued]
      exact .propose _ payload e.timestamp
  | @execute admin actionId entry metrics hadmin hentry hdue hmetrics =>
      have hrecord : queueRecord w (.call e (.executePendingAction admin actionId)) =
          [.executed actionId entry.action e.timestamp] := by
        simp [queueRecord, hentry]
      have hqueue : queueOf { entry.action.write (w.store.dequeued actionId) with
          metrics := metrics } = { queueOf w.store with
            pending := Function.update (queueOf w.store).pending actionId none
            delay := (entry.action.retimes).getD (queueOf w.store).delay } := by
        cases entry.action <;> exact queueOf_of_removed rfl rfl
      rw [hrecord, hqueue]
      exact .execute _ actionId entry.ticket e.timestamp (pending_queueOf hentry) hdue
  | @cancel admin actionId entry hadmin hentry =>
      have hqueue : queueOf (w.store.dequeued actionId) = { queueOf w.store with
          pending := Function.update (queueOf w.store).pending actionId none } :=
        queueOf_of_removed rfl rfl
      rw [hqueue]
      exact .cancel _ actionId entry.ticket (pending_queueOf hentry)
  | _ => exact .idle _

/-- A returning event of a run is one step of the delay queue. -/
theorem vaultStep_refines {w w' : World} {event : VaultEvent} (h : vaultStep w event = .ok w') :
    Step u64Max PendingAdminAction.retimes (queueOf w.store) (queueRecord w event)
      (queueOf w'.store) := by
  cases event with
  | tokens ledger =>
      obtain rfl := pure_eq_ok.mp h
      exact .idle _
  | call e action =>
      have h : exec w (e, action) = .ok w' := h
      by_cases hkind : action.MovesValue
      · obtain ⟨_, _, _, _, _, hs⟩ := exec_movedOnly hkind h
        have hqueue : queueOf w'.store = queueOf w.store := by
          rw [hs]
          rfl
        have hrecord : queueRecord w (.call e action) = [] := by
          cases action <;> first | exact hkind.elim | rfl
        rw [hqueue, hrecord]
        exact .idle _
      · obtain ⟨s, hs, rfl⟩ := exec_admin hkind h
        exact written_refines (execAdmin_written hkind hs)

/-! ### Runs -/

/-- A run of the vault is a run of the delay queue with the log of the run. -/
theorem run_refines (w : World) (events : List VaultEvent) :
    Runs u64Max PendingAdminAction.retimes (queueOf w.store) (timelockLog w events)
      (queueOf (Transact.run vaultStep w events).store) := by
  have hstep : ∀ log w₁ event w₂,
      Runs u64Max PendingAdminAction.retimes (queueOf w.store) log (queueOf w₁.store) → True →
      vaultStep w₁ event = .ok w₂ →
      Runs u64Max PendingAdminAction.retimes (queueOf w.store) (log ++ queueRecord w₁ event)
        (queueOf w₂.store) := fun _ _ _ _ hlog _ h => hlog.step (vaultStep_refines h)
  exact Transact.run_log_invariant hstep events w [] .start (Transact.along_true events w)

/-- Executing an action gives the parameters its payload, and nothing else. -/
theorem executed_applies {w w' : World} {event : VaultEvent} (h : vaultStep w event = .ok w')
    {actionId : ℕ} {payload : PendingAdminAction} {time : ℕ}
    (hrecord : queueRecord w event = [.executed actionId payload time]) :
    w'.store.parameters = payload.applyTo w.store.parameters := by
  cases event with
  | tokens ledger => cases hrecord
  | call e action =>
      cases action with
      | executePendingAction admin i =>
          have hkind : ¬ (VaultAction.executePendingAction admin i).MovesValue := id
          obtain ⟨s, hs, rfl⟩ := exec_admin hkind h
          cases execAdmin_written hkind hs with
          | propose hproposal _ => cases hproposal
          | @execute _ _ entry _ _ hentry _ _ =>
              simp only [queueRecord, hentry, List.cons.injEq, Entry.executed.injEq] at hrecord
              obtain ⟨⟨-, rfl, -⟩, -⟩ := hrecord
              exact parameters_write _ _ _
      | _ => simp [queueRecord, VaultAction.proposal] at hrecord

/-- The promises of the timelock about a state `w` reached with the log `log`. -/
structure TimelockProtocol (log : List (Entry PendingAdminAction)) (w : World) : Prop where
  /-- An executed action was proposed exactly once, earlier and under the delay then in force,
  and runs no sooner than that delay allows; nothing else settles its id. -/
  executed : ∀ before id payload time after, log = before ++ .executed id payload time :: after →
    (∃ earlier t d later, before = earlier ++ .proposed id payload t d :: later ∧
        d = delayAfter PendingAdminAction.retimes defaultTimelockDelay earlier ∧
        min (t + d) u64Max ≤ time) ∧
      (proposedIds log).count id = 1 ∧ id ∉ settledIds before ∧ id ∉ settledIds after
  /-- No id is proposed twice. -/
  ids : (proposedIds log).Nodup
  /-- A proposal waits out the delay executed last before it. -/
  delays : ∀ before id payload t d after, log = before ++ .proposed id payload t d :: after →
    d = delayAfter PendingAdminAction.retimes defaultTimelockDelay before
  /-- What waits in the queue was proposed, is not settled, and becomes executable at its
  proposal time plus the delay of that time. -/
  waiting : ∀ id entry, w.store.getPendingActions.get id = some entry → id ∉ settledIds log ∧
    ∃ t d, .proposed id entry.action t d ∈ log ∧ entry.executableAt = min (t + d) u64Max
  /-- An execution makes the parameters those its payload asks for. -/
  applies : ∀ event w', vaultStep w event = .ok w' → ∀ id payload time,
    queueRecord w event = [.executed id payload time] →
      w'.store.parameters = payload.applyTo w.store.parameters
  /-- A rejected call leaves the queue as it is. -/
  rejects : ∀ event fault, vaultStep w event = .error fault →
    (Transact.commit vaultStep w event).store.getPendingActions = w.store.getPendingActions

/-- Every run after one `initialize` keeps the protocol of the timelock. -/
theorem timelock_protocol (e : Env) (info : VaultInfo) (admin treasury : Address)
    (ledger : Ledger) (events : List VaultEvent) :
    TimelockProtocol (timelockLog (initialWorld e info admin treasury ledger) events)
      (Transact.run vaultStep (initialWorld e info admin treasury ledger) events) := by
  obtain ⟨hlog, hqueue⟩ := Runs.disciplined (fun _ => rfl)
    (run_refines (initialWorld e info admin treasury ledger) events)
  exact {
    executed := fun before id payload time after h => hlog.executed h
    ids := hlog.proposed_nodup
    delays := fun before id payload t d after h => (hlog.justified h).2.2
    waiting := fun id entry h =>
      (hqueue.pending id entry.action entry.executableAt).mp (pending_queueOf h)
    applies := fun event w' h id payload time hrecord => executed_applies h hrecord
    rejects := fun event fault h => by rw [Transact.commit_of_error h] }

end YieldEngine.Vault
