import YieldEngine.RouterRuns

/-! # Trading while paused

`pause` writes a flag and `require_not_paused` reads it, but no entrypoint calls
`require_not_paused`.  While paused the router trades as before: `paused_trades_iff` says, for
every state of every run in which the last of the pause calls was `pause`, that an invocation
leaves the balances and the statistics alone exactly when it would not trade anyway. -/

namespace YieldEngine.Router

open CheckedArith Transact

/-- What a returning pause call has written. -/
def pauseRecord : RouterEvent → List Bool
  | .call _ action => action.setsPaused.toList
  | .setup .. => []
  | .tokens _ => []

/-- What the returning pause calls of a run have written, in order. -/
def pauseLog : RouterWorld → List RouterEvent → List Bool :=
  ghostLog routerStep fun _ => pauseRecord

/-- No token has moved, and the statistics are the same. -/
def Untouched (w w' : RouterWorld) : Prop :=
  w'.ledger = w.ledger ∧ w'.store.getProtocolStats = w.store.getProtocolStats

/-- A swap fails one of its checks, and a swap with retry finds no route or fails one of the
checks along it. -/
def Idle (e : Env) (w : RouterWorld) : RouterAction → Prop
  | .swap user inputToken outputToken inputAmount minOutput path recipient =>
      ¬ CanSwap e w.store w.ledger user inputToken outputToken inputAmount minOutput path recipient
  | .swapWithRetry user inputToken outputToken inputAmount minOutput _ =>
      ¬ Executable e w user inputToken outputToken inputAmount minOutput
  | _ => True

/-! ### One invocation -/

theorem Counted.touches {w w' : RouterWorld} (h : Counted w.store w'.store) : ¬ Untouched w w' := by
  rintro ⟨-, hstats⟩
  have hswaps := h.swaps
  rw [hstats] at hswaps
  omega

/-- What decides whether a call returns, and returns only after a counted swap, decides whether
it touches anything. -/
theorem untouched_iff {e : Env} {w : RouterWorld} {action : RouterAction} {P : Prop}
    (hreturns : (∃ w', exec e w action = .ok w') ↔ P)
    (hcounted : ∀ w', exec e w action = .ok w' → Counted w.store w'.store) :
    Untouched w (commit routerStep w (.call e action)) ↔ ¬ P := by
  rw [← hreturns]
  cases h : exec e w action with
  | ok w' =>
      have hcall : routerStep w (.call e action) = .ok w' := h
      rw [commit_of_ok hcall]
      apply iff_of_false (hcounted w' h).touches
      exact fun hfails => hfails ⟨w', rfl⟩
  | error fault =>
      have hcall : routerStep w (.call e action) = .error fault := h
      rw [commit_of_error hcall]
      apply iff_of_true ⟨rfl, rfl⟩
      rintro ⟨w', hw'⟩
      cases hw'

/-- A trading invocation leaves everything alone when it is idle; nothing is pending. -/
theorem trade_untouched_iff {e : Env} {w : RouterWorld} (hw : NonePending w)
    {action : RouterAction} (htrades : action.Trades) :
    Untouched w (commit routerStep w (.call e action)) ↔ Idle e w action := by
  cases action with
  | swap user inputToken outputToken inputAmount minOutput path recipient =>
      apply untouched_iff
      · rw [← swap_returns_iff]
        simp only [exec, bind_eq_ok, pure_eq_ok]
        constructor
        · rintro ⟨_, r, hr, -⟩
          exact ⟨r, hr⟩
        · rintro ⟨r, hr⟩
          exact ⟨_, r, hr, rfl⟩
      · intro w' h
        obtain ⟨⟨net, s, l⟩, hswap, h⟩ := bind_eq_ok.mp h
        obtain rfl := pure_eq_ok.mp h
        exact swap_counted hswap
  | swapWithRetry user inputToken outputToken inputAmount minOutput maxRetries =>
      apply untouched_iff
      · rw [← trySwap_executes_iff]
        simp only [exec, map_eq_ok]
        constructor
        · rintro ⟨_, ⟨output, v⟩, hkept, rfl⟩
          exact ⟨_, swapWithRetry_kept_iff.mp hkept⟩
        · rintro ⟨⟨output, v⟩, hr⟩
          exact ⟨v, (output, v), swapWithRetry_kept_iff.mpr hr, rfl⟩
      · intro w' h
        obtain ⟨⟨output, v⟩, hkept, rfl⟩ := map_eq_ok.mp h
        exact trySwap_counted (swapWithRetry_kept_iff.mp hkept)
  | retryFailedSwaps admin =>
      apply iff_of_true _ trivial
      have hkept : ∀ w', exec e w (.retryFailedSwaps admin) = .ok w' → Untouched w w' := by
        intro w' h
        obtain ⟨⟨retried, v⟩, hretried, rfl⟩ := map_eq_ok.mp h
        obtain rfl := retryFailedSwaps_of_empty hw hretried
        exact ⟨rfl, rfl⟩
      exact commit_invariant (I := Untouched w) ⟨rfl, rfl⟩ hkept
  | _ => exact htrades.elim

/-! ### Runs -/

/-- Nothing is pending, and the pause flag is what was written last. -/
structure Flagged (log : List Bool) (w : RouterWorld) : Prop where
  pending : NonePending w
  flag : ∀ b, log.getLast? = some b → w.store.paused = some b

theorem flagged_step {log : List Bool} {w w' : RouterWorld} {event : RouterEvent}
    (hw : Flagged log w) (h : routerStep w event = .ok w') :
    Flagged (log ++ pauseRecord event) w' := by
  refine ⟨nonePending_step hw.pending h, ?_⟩
  cases event with
  | setup admin treasury xlmToken =>
      obtain rfl := pure_eq_ok.mp h
      rw [pauseRecord, List.append_nil]
      exact hw.flag
  | tokens ledger =>
      obtain rfl := pure_eq_ok.mp h
      rw [pauseRecord, List.append_nil]
      exact hw.flag
  | call e action =>
      rw [pauseRecord, (exec_framed hw.pending h).paused]
      cases action.setsPaused with
      | none =>
          rw [Option.toList_none, List.append_nil, Option.none_or]
          exact hw.flag
      | some c =>
          intro b hb
          rw [Option.toList_some, List.getLast?_concat] at hb
          rw [Option.some_or, hb]

/-- The pause flag is what the last pause call has written. -/
theorem flagged_run (admin treasury xlmToken : Address) (ledger : Ledger)
    (events : List RouterEvent) :
    Flagged (pauseLog ⟨initialRouter admin treasury xlmToken, ledger⟩ events)
      (run routerStep ⟨initialRouter admin treasury xlmToken, ledger⟩ events) :=
  run_log_invariant (fun _ _ _ _ hw _ h => flagged_step hw h) events _ [] ⟨rfl, nofun⟩
    (along_true events _)

/-- In every state of every run in which the last of the pause calls was `pause`, a trading
invocation leaves the balances and the statistics alone if and only if it is idle. -/
theorem paused_trades_iff (admin treasury xlmToken : Address) (ledger : Ledger)
    (events : List RouterEvent)
    (hpaused : (pauseLog ⟨initialRouter admin treasury xlmToken, ledger⟩ events).getLast? =
      some true) :
    let w := run routerStep ⟨initialRouter admin treasury xlmToken, ledger⟩ events
    w.store.paused = some true ∧ ∀ e action, action.Trades →
      (Untouched w (commit routerStep w (.call e action)) ↔ Idle e w action) := by
  intro w
  have hflagged := flagged_run admin treasury xlmToken ledger events
  refine ⟨hflagged.flag true hpaused, ?_⟩
  intro e action htrades
  exact trade_untouched_iff hflagged.pending htrades

/-- Admin 8 adds the deep pool and pauses the router. -/
def pausedEvents : List RouterEvent :=
  [.call ⟨7, [8], 0⟩ (.addPool 8 10 1 2 0 false),
    .call ⟨7, [], 0⟩ (.updatePoolReserves 10 1000000 1000000), .call ⟨7, [8], 0⟩ (.pause 8)]

/-- A swap of nothing is turned down. -/
theorem paused_trades_iff_nothing :
    let w := run routerStep ⟨initialRouter 8 9 5, flushLedger⟩ pausedEvents
    Untouched w (commit routerStep w (.call swapEnv (.swap 3 1 2 0 997 [1, 2] none))) := by
  have hlast : (pauseLog ⟨initialRouter 8 9 5, flushLedger⟩ pausedEvents).getLast? =
      some true := by decide
  have hiff := (paused_trades_iff 8 9 5 flushLedger pausedEvents hlast).2
  refine (hiff swapEnv (.swap 3 1 2 0 997 [1, 2] none) trivial).mpr ?_
  rintro ⟨output, fee, haccepted⟩
  exact absurd haccepted.input_pos (lt_irrefl 0)

/-- While paused, user 3 swaps 1000 of token 1 for token 2. -/
theorem paused_router_trades :
    let w := run routerStep ⟨initialRouter 8 9 5, flushLedger⟩ pausedEvents
    (pauseLog ⟨initialRouter 8 9 5, flushLedger⟩ pausedEvents).getLast? = some true ∧
      w.store.paused = some true ∧
      ¬ Untouched w (commit routerStep w (.call swapEnv (.swap 3 1 2 1000 997 [1, 2] none))) := by
  refine ⟨by decide, by decide, fun huntouched => ?_⟩
  have hstats := congrArg Prod.fst huntouched.2
  revert hstats
  decide

end YieldEngine.Router
