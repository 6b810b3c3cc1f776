import YieldEngine.RouterAttempts
import YieldEngine.Transact

/-! # Runs of the swap router

`RouterAction` lists the entrypoints that write storage or move tokens, other than `initialize`,
and `exec` executes one of them.  The router keeps no mark of its `initialize`, so a run may call
it again (`RouterEvent.setup`).

The queue of pending swaps is written in two places only.  `swap_with_retry` adds an entry on a
path that ends in `Err`, which the host undoes, and `retry_failed_swaps` writes back what is
left of the queue.  So in every state of every run the queue is empty (`nonePending_run`). -/

namespace YieldEngine.Router

open CheckedArith

/-- One invocation of the router. -/
inductive RouterAction where
  | addPool (admin poolAddress tokenA tokenB : Address) (feeBps : ℕ) (isStableSwap : Bool)
  | updatePoolReserves (poolAddress : Address) (reserveA reserveB : ℤ)
  | removePool (admin poolAddress : Address)
  | swap (user inputToken outputToken : Address) (inputAmount minOutput : ℤ)
      (path : List Address) (recipient : Option Address)
  | swapWithRetry (user inputToken outputToken : Address) (inputAmount minOutput : ℤ)
      (maxRetries : ℕ)
  | updateDefaultSlippage (admin : Address) (newSlippageBps : ℕ)
  | updateTreasury (admin newTreasury : Address)
  | pause (admin : Address)
  | unpause (admin : Address)
  | pauseOracle (admin : Address)
  | unpauseOracle (admin : Address)
  | retryFailedSwaps (admin : Address)
deriving DecidableEq, Repr

/-- The storage part of an invocation that trades nothing. -/
def execStore (s : RouterStore) : RouterAction → RouterCall RouterStore
  | .addPool admin poolAddress tokenA tokenB feeBps isStableSwap =>
      addPool s admin poolAddress tokenA tokenB feeBps isStableSwap
  | .updatePoolReserves poolAddress reserveA reserveB =>
      updatePoolReserves s poolAddress reserveA reserveB
  | .removePool admin poolAddress => removePool s admin poolAddress
  | .updateDefaultSlippage admin newSlippageBps => updateDefaultSlippage s admin newSlippageBps
  | .updateTreasury admin newTreasury => updateTreasury s admin newTreasury
  | .pause admin => pause s admin
  | .unpause admin => unpause s admin
  | .pauseOracle admin => pauseOracle s admin
  | .unpauseOracle admin => unpauseOracle s admin
  | .swap .. | .swapWithRetry .. | .retryFailedSwaps _ => pure s

def exec (e : Env) (w : RouterWorld) : RouterAction → RouterCall RouterWorld
  | .swap user inputToken outputToken inputAmount minOutput path recipient => do
      let (_, s, l) ← swap e w.store w.ledger user inputToken outputToken inputAmount minOutput
        path recipient
      pure ⟨s, l⟩
  | .swapWithRetry user inputToken outputToken inputAmount minOutput maxRetries =>
      Prod.snd <$> rolledBack (swapWithRetry e w user inputToken outputToken inputAmount minOutput
        maxRetries)
  | .retryFailedSwaps admin => Prod.snd <$> retryFailedSwaps e w admin
  | action => (fun s => { w with store := s }) <$> execStore w.store action

/-- What happens around a deployed router: an invocation, `initialize` included, or token
movements outside it. -/
inductive RouterEvent where
  | setup (admin treasury xlmToken : Address)
  | call (e : Env) (action : RouterAction)
  | tokens (ledger : Ledger)

def routerStep (w : RouterWorld) : RouterEvent → RouterCall RouterWorld
  | .setup admin treasury xlmToken =>
      pure { w with store := initializeRouter w.store admin treasury xlmToken }
  | .call e action => exec e w action
  | .tokens ledger => pure { w with ledger := ledger }

/-- The storage after `initialize` on fresh storage. -/
def initialRouter (admin treasury xlmToken : Address) : RouterStore :=
  initializeRouter .fresh admin treasury xlmToken

/-! ### What one invocation does -/

/-- The invocation trades. -/
def RouterAction.Trades : RouterAction → Prop
  | .swap .. => True
  | .swapWithRetry .. => True
  | .retryFailedSwaps _ => True
  | _ => False

/-- What a returning invocation writes into the pause flag. -/
def RouterAction.setsPaused : RouterAction → Option Bool
  | .pause _ => some true
  | .unpause _ => some false
  | _ => none

/-- What an invocation on an empty queue leaves alone: the queue, the pause flag but for
`pause` and `unpause`, and that every pool is under its own address. -/
structure Framed (s s' : RouterStore) (action : RouterAction) : Prop where
  queue : s'.getPending = s.getPending
  paused : s'.paused = action.setsPaused.or s.paused
  keyed : KeyedByAddress s.getPools → KeyedByAddress s'.getPools

theorem execStore_framed {s s' : RouterStore} {action : RouterAction}
    (h : execStore s action = .ok s') : Framed s s' action := by
  cases action with
  | addPool admin poolAddress tokenA tokenB feeBps isStableSwap =>
      have hkeyed : KeyedByAddress s.getPools → KeyedByAddress s'.getPools :=
        fun hkeyed => addPool_keyed hkeyed h
      simp only [execStore, addPool, bind_eq_ok, pure_eq_ok] at h
      obtain ⟨_, -, _, -, rfl⟩ := h
      exact ⟨rfl, rfl, hkeyed⟩
  | updatePoolReserves poolAddress reserveA reserveB =>
      have hkeyed : KeyedByAddress s.getPools → KeyedByAddress s'.getPools :=
        fun hkeyed => updatePoolReserves_keyed hkeyed h
      simp only [execStore, updatePoolReserves, bind_eq_ok] at h
      obtain ⟨_, -, h⟩ := h
      cases hget : s.getPools.get poolAddress with
      | none =>
          rw [hget] at h
          exact (raise_eq_ok.mp h).elim
      | some pool =>
          rw [hget] at h
          obtain rfl := pure_eq_ok.mp h
          exact ⟨rfl, rfl, hkeyed⟩
  | removePool admin poolAddress =>
      have hkeyed : KeyedByAddress s.getPools → KeyedByAddress s'.getPools :=
        fun hkeyed => removePool_keyed hkeyed h
      simp only [execStore, removePool, bind_eq_ok, pure_eq_ok] at h
      obtain ⟨_, -, _, -, rfl⟩ := h
      exact ⟨rfl, rfl, hkeyed⟩
  | updateDefaultSlippage admin newSlippageBps =>
      simp only [execStore, updateDefaultSlippage, bind_eq_ok, pure_eq_ok] at h
      obtain ⟨_, -, _, -, rfl⟩ := h
      exact ⟨rfl, rfl, id⟩
  | swap | swapWithRetry | retryFailedSwaps =>
      obtain rfl := pure_eq_ok.mp h
      exact ⟨rfl, rfl, id⟩
  | _ =>
      obtain ⟨_, -, h⟩ := bind_eq_ok.mp h
      obtain rfl := pure_eq_ok.mp h
      exact ⟨rfl, rfl, id⟩

theorem Counted.framed {s s' : RouterStore} (h : Counted s s') {action : RouterAction}
    (hflag : action.setsPaused = none) : Framed s s' action := by
  refine ⟨?_, ?_, fun hkeyed => ?_⟩
  · rw [RouterStore.getPending, h.queue, RouterStore.getPending]
  · rw [hflag]
    exact h.paused
  · rwa [RouterStore.getPools, h.pools]

section trades
variable {e : Env} {w w' : RouterWorld} {user inputToken outputToken : Address}
  {inputAmount minOutput : ℤ}

/-- An executed attempt is a counted swap. -/
theorem trySwap_counted {r : ℤ × RouterWorld}
    (h : trySwap e w user inputToken outputToken inputAmount minOutput = .ok (.ok r)) :
    Counted w.store r.2.store := by
  obtain ⟨path, kind, -, -, hswap⟩ := trySwap_executed h
  exact swap_counted hswap

/-- A `swap_with_retry` that is not undone is an executed attempt. -/
theorem swapWithRetry_kept_iff {maxRetries : ℕ} {output : ℤ} :
    rolledBack (swapWithRetry e w user inputToken outputToken inputAmount minOutput maxRetries) =
        .ok (output, w') ↔
      trySwap e w user inputToken outputToken inputAmount minOutput = .ok (.ok (output, w')) := by
  simp only [rolledBack, swapWithRetry, bind_eq_ok]
  constructor
  · rintro ⟨⟨result, v⟩, ⟨attempt, hattempt, hqueue⟩, hresult⟩
    cases attempt with
    | ok r =>
        obtain ⟨rfl, rfl⟩ := Prod.mk.inj (pure_eq_ok.mp hqueue)
        obtain ⟨rfl, rfl⟩ := Prod.mk.inj (pure_eq_ok.mp hresult)
        exact hattempt
    | error err =>
        obtain ⟨s, -, hqueue⟩ := bind_eq_ok.mp hqueue
        obtain ⟨rfl, rfl⟩ := Prod.mk.inj (pure_eq_ok.mp hqueue)
        exact (raise_eq_ok.mp hresult).elim
  · intro h
    exact ⟨(.ok output, w'), ⟨_, h, rfl⟩, rfl⟩

/-- Retrying an empty queue writes the empty queue. -/
theorem retryFailedSwaps_of_empty {admin : Address} {retried : ℕ}
    (hempty : w.store.getPending = SortedMap.empty)
    (h : retryFailedSwaps e w admin = .ok (retried, w')) :
    w' = { w with store := { w.store with pendingSwap := some SortedMap.empty } } := by
  simp only [retryFailedSwaps, bind_eq_ok, hempty] at h
  obtain ⟨_, -, ⟨v, remaining, count⟩, hloop, h⟩ := h
  obtain ⟨rfl, rfl, rfl⟩ : w = v ∧ SortedMap.empty = remaining ∧ 0 = count := by
    have hnothing := pure_eq_ok.mp hloop
    simpa only [Prod.mk.injEq] using hnothing
  exact (Prod.mk.inj (pure_eq_ok.mp h)).2.symm

end trades

theorem exec_framed {e : Env} {w w' : RouterWorld} {action : RouterAction}
    (hempty : w.store.getPending = SortedMap.empty) (h : exec e w action = .ok w') :
    Framed w.store w'.store action := by
  cases action with
  | swap user inputToken outputToken inputAmount minOutput path recipient =>
      obtain ⟨⟨net, s, l⟩, hswap, h⟩ := bind_eq_ok.mp h
      obtain rfl := pure_eq_ok.mp h
      exact (swap_counted hswap).framed rfl
  | swapWithRetry user inputToken outputToken inputAmount minOutput maxRetries =>
      obtain ⟨⟨output, v⟩, hkept, rfl⟩ := map_eq_ok.mp h
      exact (trySwap_counted (swapWithRetry_kept_iff.mp hkept)).framed rfl
  | retryFailedSwaps admin =>
      obtain ⟨⟨retried, v⟩, hretried, rfl⟩ := map_eq_ok.mp h
      obtain rfl := retryFailedSwaps_of_empty hempty hretried
      exact ⟨hempty.symm, rfl, id⟩
  | _ =>
      obtain ⟨s, hs, rfl⟩ := map_eq_ok.mp h
      exact execStore_framed hs

/-! ### Runs -/

/-- The queue is empty. -/
def NonePending (w : RouterWorld) : Prop := w.store.getPending = SortedMap.empty

theorem nonePending_step {w w' : RouterWorld} {event : RouterEvent} (hw : NonePending w)
    (h : routerStep w event = .ok w') : NonePending w' := by
  cases event with
  | setup admin treasury xlmToken =>
      obtain rfl := pure_eq_ok.mp h
      exact hw
  | call e action => exact (exec_framed hw h).queue.trans hw
  | tokens ledger =>
      obtain rfl := pure_eq_ok.mp h
      exact hw

/-- In every state of every run nothing is pending. -/
theorem nonePending_run (admin treasury xlmToken : Address) (ledger : Ledger)
    (events : List RouterEvent) : NonePending
      (Transact.run routerStep ⟨initialRouter admin treasury xlmToken, ledger⟩ events) :=
  Transact.run_invariant (fun _ _ _ hw h => nonePending_step hw h) events rfl

/-- In every state of every run each pool is stored under its own address. -/
theorem keyed_run (admin treasury xlmToken : Address) (ledger : Ledger)
    (events : List RouterEvent) : KeyedByAddress
      (Transact.run routerStep
        ⟨initialRouter admin treasury xlmToken, ledger⟩ events).store.getPools := by
  have hstep : ∀ (w : RouterWorld) (event : RouterEvent) (w' : RouterWorld),
      NonePending w ∧ KeyedByAddress w.store.getPools → routerStep w event = .ok w' →
        NonePending w' ∧ KeyedByAddress w'.store.getPools := by
    rintro w event w' ⟨hempty, hkeyed⟩ h
    refine ⟨nonePending_step hempty h, ?_⟩
    cases event with
    | setup admin treasury xlmToken =>
        obtain rfl := pure_eq_ok.mp h
        exact keyed_empty
    | call e action => exact (exec_framed hempty h).keyed hkeyed
    | tokens ledger =>
        obtain rfl := pure_eq_ok.mp h
        exact hkeyed
  have hstart : NonePending ⟨initialRouter admin treasury xlmToken, ledger⟩ := rfl
  exact (Transact.run_invariant hstep events ⟨hstart, keyed_empty⟩).2

end YieldEngine.Router
