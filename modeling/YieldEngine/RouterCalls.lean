import YieldEngine.RouterRoutes

/-! # Entrypoints of the swap router

The entrypoints around `swap`: swapping along the best route with a queue for what could not be
swapped (`swapWithRetry`, `retryFailedSwaps`), the settings, and the two pause flags.

A function of the source that returns a `Result` is a computation of an `Except` value; the
computation itself fails where the source traps.  An entrypoint that ends in `Err` is undone by
the host as one that traps (`rolledBack`). -/

namespace YieldEngine.Router

open CheckedArith

/-- The router's storage and the token balances. -/
structure RouterWorld where
  store : RouterStore
  ledger : Ledger

/-- An invocation that ends in `Err` fails, and nothing it wrote is kept. -/
def rolledBack {α : Type} (call : RouterCall (Except SwapError α × RouterWorld)) :
    RouterCall (α × RouterWorld) := do
  let (result, w) ← call
  match result with
  | .ok value => pure (value, w)
  | .error err => raise (.contract err)

/-! ### Attempts and the queue -/

/-- `try_swap`: refused before anything moves, or swapped along the best route. -/
def trySwap (e : Env) (w : RouterWorld) (user inputToken outputToken : Address)
    (inputAmount minOutput : ℤ) : RouterCall (Except SwapError (ℤ × RouterWorld)) := do
  let (path, _) ← findBestPath w.store inputToken outputToken inputAmount
  if path.pools = [] then pure (.error .noPoolFound)
  else do
    let expectedOutput ← calculatePathOutput w.store path.tokens inputAmount
    if expectedOutput < minOutput then pure (.error .slippageExceeded)
    else do
      let (output, s, l) ← swap e w.store w.ledger user inputToken outputToken inputAmount
        minOutput path.tokens none
      pure (.ok (output, ⟨s, l⟩))

/-- The pending swaps; an unwritten cell stands for none. -/
def RouterStore.getPending (s : RouterStore) : SortedMap ℕ PendingSwap :=
  s.pendingSwap.getD SortedMap.empty

/-- `queue_swap_for_retry`. -/
def queueSwapForRetry (e : Env) (s : RouterStore) (user inputToken outputToken : Address)
    (inputAmount minOutput : ℤ) (maxRetries : ℕ) : RouterCall RouterStore := do
  let (swapId, s) ← getNextSwapId s
  let pendingSwap : PendingSwap :=
    { swapId := swapId
      user := user
      inputToken := inputToken
      outputToken := outputToken
      inputAmount := inputAmount
      minOutput := minOutput
      retryCount := 0
      maxRetries := maxRetries
      timestamp := e.timestamp }
  pure { s with pendingSwap := some (s.getPending.set swapId pendingSwap) }

/-- `swap_with_retry`, before the host looks at its result. -/
def swapWithRetry (e : Env) (w : RouterWorld) (user inputToken outputToken : Address)
    (inputAmount minOutput : ℤ) (maxRetries : ℕ) :
    RouterCall (Except SwapError ℤ × RouterWorld) := do
  let attempt ← trySwap e w user inputToken outputToken inputAmount minOutput
  match attempt with
  | .ok (output, w) => pure (.ok output, w)
  | .error _ => do
      let s ← queueSwapForRetry e w.store user inputToken outputToken inputAmount minOutput
        maxRetries
      pure (.error .transferFailed, { w with store := s })

/-- The loop of `retry_failed_swaps` over the entries not tried yet, with the entries kept and
the number of swaps retried so far. -/
def retryLoop (e : Env) : List (ℕ × PendingSwap) → RouterWorld → SortedMap ℕ PendingSwap → ℕ →
    RouterCall (RouterWorld × SortedMap ℕ PendingSwap × ℕ)
  | [], w, remaining, retried => pure (w, remaining, retried)
  | (swapId, pending) :: rest, w, remaining, retried => do
      let attempt ← trySwap e w pending.user pending.inputToken pending.outputToken
        pending.inputAmount pending.minOutput
      match attempt with
      | .ok (_, w) => do
          let retried ← checkedU 32 (retried + 1)
          retryLoop e rest w remaining retried.toNat
      | .error _ => do
          let retryCount ← checkedU 32 (pending.retryCount + 1)
          let pending := { pending with retryCount := retryCount.toNat }
          if pending.retryCount < pending.maxRetries then
            retryLoop e rest w (remaining.set swapId pending) retried
          else retryLoop e rest w remaining retried

/-- `retry_failed_swaps`, returning the number of swaps retried. -/
def retryFailedSwaps (e : Env) (w : RouterWorld) (admin : Address) :
    RouterCall (ℕ × RouterWorld) := do
  w.store.requireAdmin admin
  let (w, remaining, retried) ← retryLoop e w.store.getPending.entries w SortedMap.empty 0
  pure (retried, { w with store := { w.store with pendingSwap := some remaining } })

/-! ### Settings -/

/-- `get_protocol_stats`: the swaps, their volume and their fees. -/
def RouterStore.getProtocolStats (s : RouterStore) : ℕ × ℤ × ℤ :=
  (s.totalSwaps.getD 0, s.totalVolume.getD 0, s.totalFees.getD 0)

section settings
variable (s : RouterStore) (admin : Address)

/-- `update_default_slippage`. -/
def updateDefaultSlippage (newSlippageBps : ℕ) : RouterCall RouterStore := do
  s.requireAdmin admin
  requireValidSlippage newSlippageBps
  pure { s with defaultSlippage := some newSlippageBps }

/-- `update_treasury`. -/
def updateTreasury (newTreasury : Address) : RouterCall RouterStore := do
  s.requireAdmin admin
  pure { s with treasury := some newTreasury }

/-- `pause`. -/
def pause : RouterCall RouterStore := do
  s.requireAdmin admin
  pure { s with paused := some true }

/-- `unpause`. -/
def unpause : RouterCall RouterStore := do
  s.requireAdmin admin
  pure { s with paused := some false }

/-- `pause_oracle`. -/
def pauseOracle : RouterCall RouterStore := do
  s.requireAdmin admin
  pure { s with oraclePaused := some true }

/-- `unpause_oracle`. -/
def unpauseOracle : RouterCall RouterStore := do
  s.requireAdmin admin
  pure { s with oraclePaused := some false }

/-- `require_not_paused`; no entrypoint calls it. -/
def RouterStore.requireNotPaused : RouterCall Unit :=
  requireOr (s.paused.getD false = false) "Unauthorized"

end settings
end YieldEngine.Router
