import YieldEngine.Transact
import Mathlib.Algebra.Order.Field.Rat
import Mathlib.Data.Rat.Floor
import Mathlib.Logic.Function.Basic

/-! # Backoff of keeper loops

`KeeperBackoff` counts the consecutive failures of a keeper's task and, from a threshold on,
skips the ticks until `nextAttemptAt`.  Its state lives in memory and is saved through a store,
from which the first tick restores it.

A tick waits for the store, for its task, and once for `init` even if there is nothing to load,
so ticks interleave at these points: a tick is a machine that stops at each of its awaits
(`TickPhase`).  The store carries a request out at some time between the call and the reply
(`Action.serve`).  Numbers are exact rationals; in a stored record `none` stands for a field
that is not a finite number, or not a string. -/

namespace YieldEngine.Backoff

/-! ### The policy -/

structure BackoffPolicy where
  /-- Delay after the first failure that triggers backoff, in ms. -/
  baseMs : ℚ
  maxMs : ℚ
  /-- Multiplier applied per additional failure. -/
  factor : ℚ
  /-- Consecutive failures tolerated before backoff starts. -/
  startAfterFailures : ℚ
  /-- Fraction of the delay randomized. -/
  jitterRatio : ℚ
deriving DecidableEq, Repr

def defaultBackoffPolicy : BackoffPolicy where
  baseMs := 5000
  maxMs := 300000
  factor := 2
  startAfterFailures := 2
  jitterRatio := 1 / 5

/-- The part of a policy the caller gives. -/
structure PolicyOptions where
  baseMs : Option ℚ
  maxMs : Option ℚ
  factor : Option ℚ
  startAfterFailures : Option ℚ
  jitterRatio : Option ℚ

/-- The defaults, overwritten by what the caller gives. -/
def PolicyOptions.withDefaults (options : PolicyOptions) : BackoffPolicy where
  baseMs := options.baseMs.getD defaultBackoffPolicy.baseMs
  maxMs := options.maxMs.getD defaultBackoffPolicy.maxMs
  factor := options.factor.getD defaultBackoffPolicy.factor
  startAfterFailures := options.startAfterFailures.getD defaultBackoffPolicy.startAfterFailures
  jitterRatio := options.jitterRatio.getD defaultBackoffPolicy.jitterRatio

def validatePolicy (p : BackoffPolicy) : Except String BackoffPolicy :=
  if ¬ 0 < p.baseMs ∨ ¬ p.baseMs ≤ p.maxMs ∨ ¬ 1 ≤ p.factor then
    .error "Invalid backoff policy: need baseMs > 0, maxMs >= baseMs, factor >= 1"
  else if p.startAfterFailures.den ≠ 1 ∨ p.startAfterFailures < 1 then
    .error "Invalid backoff policy: startAfterFailures must be an integer >= 1"
  else if p.jitterRatio < 0 ∨ 1 < p.jitterRatio then
    .error "Invalid backoff policy: jitterRatio must be between 0 and 1"
  else .ok p

/-- The default policy passes its own check. -/
theorem validatePolicy_default :
    validatePolicy defaultBackoffPolicy = .ok defaultBackoffPolicy := by
  decide +kernel

/-- Delay in ms for the given number of consecutive failures, `0` below the threshold.  The
exponent is whole, as the threshold of a validated policy is. -/
def backoffDelayMs (failures : ℕ) (policy : BackoffPolicy) (random : ℚ) : ℚ :=
  if (failures : ℚ) < policy.startAfterFailures then 0
  else
    let exponent := ⌊(failures : ℚ) - policy.startAfterFailures⌋.toNat
    let raw := min policy.maxMs (policy.baseMs * policy.factor ^ exponent)
    -- Jitter only shortens the delay.
    let jittered := raw * (1 - policy.jitterRatio * random)
    max 1 (⌊jittered + 1 / 2⌋ : ℚ)

/-! ### The state -/

structure BackoffState where
  consecutiveFailures : ℕ
  /-- Time before which no task is started; `0` when there is no wait. -/
  nextAttemptAt : ℚ
  lastError : Option String
  updatedAt : ℚ
deriving DecidableEq, Repr

def emptyState : BackoffState := ⟨0, 0, none, 0⟩

/-- A record as the store returns it. -/
structure StoredState where
  consecutiveFailures : Option ℚ
  nextAttemptAt : Option ℚ
  lastError : Option String
  updatedAt : Option ℚ
deriving DecidableEq, Repr

/-- The record that `save` stores. -/
def BackoffState.record (state : BackoffState) : StoredState where
  consecutiveFailures := some state.consecutiveFailures
  nextAttemptAt := some state.nextAttemptAt
  lastError := state.lastError
  updatedAt := some state.updatedAt

structure KeeperBackoff where
  policy : BackoffPolicy
  state : BackoffState
  loaded : Bool
deriving DecidableEq, Repr

/-- The constructor. -/
def newKeeperBackoff (options : PolicyOptions) : Except String KeeperBackoff :=
  (validatePolicy options.withDefaults).map fun policy => ⟨policy, emptyState, false⟩

/-- The state `init` makes of a loaded record: repaired, and never waiting longer than
`maxMs`. -/
def BackoffPolicy.repair (policy : BackoffPolicy) (stored : StoredState) (now : ℚ) :
    BackoffState where
  consecutiveFailures := (stored.consecutiveFailures.elim 0 fun failures => max 0 ⌊failures⌋).toNat
  nextAttemptAt := max 0 (min (stored.nextAttemptAt.getD 0) (now + policy.maxMs))
  lastError := stored.lastError
  updatedAt := stored.updatedAt.getD 0

/-- Milliseconds the keeper must still wait. -/
def KeeperBackoff.remainingMs (keeper : KeeperBackoff) (now : ℚ) : ℚ :=
  max 0 (keeper.state.nextAttemptAt - now)

/-- The state after a success, `none` where there is nothing to reset. -/
def KeeperBackoff.recordSuccess (keeper : KeeperBackoff) (now : ℚ) : Option BackoffState :=
  if keeper.state.consecutiveFailures = 0 ∧ keeper.state.nextAttemptAt = 0 then none
  else some ⟨0, 0, none, now⟩

/-- The delay a failure recorded now causes. -/
def KeeperBackoff.failureDelayMs (keeper : KeeperBackoff) (random : ℚ) : ℚ :=
  backoffDelayMs (keeper.state.consecutiveFailures + 1) keeper.policy random

/-- The state after a failure. -/
def KeeperBackoff.recordFailure (keeper : KeeperBackoff) (now : ℚ) (error : String)
    (random : ℚ) : BackoffState where
  consecutiveFailures := keeper.state.consecutiveFailures + 1
  nextAttemptAt :=
    if 0 < keeper.failureDelayMs random then now + keeper.failureDelayMs random else 0
  lastError := some (String.ofList (error.toList.take 300))
  updatedAt := now

/-! ### Ticks -/

/-- A value that is thrown, by the text `recordFailure` records of it: the message of an `Error`,
and what `String` makes of anything else.  Where that throws there is no text, only the text of
what is thrown instead. -/
structure Rejection where
  text : Except String String
deriving DecidableEq

/-- What a tick reports; a tick whose promise rejects reports `thrown`. -/
inductive TickResult (T : Type) where
  | ranOk (value : T)
  | ranFailed (error : Rejection) (delayMs : ℚ)
  | skipped (waitMs : ℚ)
  | thrown (error : Rejection)

/-- What a tick that saves the state has recorded. -/
inductive Recorded (T : Type) where
  | success (value : T) (afterFailures : ℕ)
  | failure (error : Rejection) (delayMs : ℚ)

/-- The await a tick waits at. -/
inductive TickPhase (T : Type) where
  | finished (result : Option (TickResult T))
  /-- `load` is called. -/
  | loading
  /-- The store has read its record. -/
  | loaded (answer : Option StoredState)
  /-- `init` has returned. -/
  | entering
  | running
  /-- `save` is called. -/
  | saving (state : BackoffState) (recorded : Recorded T)
  /-- The store has written the record. -/
  | saved (recorded : Recorded T)

/-- What happened to the tasks. -/
inductive Event where
  | started (now : ℚ)
  /-- A failure is recorded that sets the given `nextAttemptAt`. -/
  | failed (nextAttemptAt : ℚ)
  | succeeded
deriving DecidableEq, Repr

structure World (T : Type) where
  keeper : KeeperBackoff
  ticks : ℕ → TickPhase T
  store : Option StoredState
  /-- The clock in milliseconds since the epoch. -/
  now : ℚ
  /-- What happened so far, the newest event first. -/
  log : List Event

variable {T : Type}

/-- A keeper before its first tick. -/
def initialWorld (keeper : KeeperBackoff) (store : Option StoredState) (now : ℚ) : World T :=
  ⟨keeper, fun _ => .finished none, store, now, []⟩

def World.setTick (w : World T) (i : ℕ) (phase : TickPhase T) : World T :=
  { w with ticks := Function.update w.ticks i phase }

/-- The keeper's state is replaced, and the event that causes it is noted. -/
def World.record (w : World T) (state : BackoffState) (event : Event) : World T :=
  { w with keeper := { w.keeper with state := state }, log := event :: w.log }

/-- `tick` is called: the first one loads the stored state. -/
def World.callTick (w : World T) (i : ℕ) : World T :=
  if w.keeper.loaded then w.setTick i .entering
  else { w with keeper := { w.keeper with loaded := true } }.setTick i .loading

/-- The rest of `init` once the store has answered. -/
def World.restore (w : World T) (i : ℕ) : Option StoredState → World T
  | none => w.setTick i .entering
  | some stored =>
      { w with keeper := { w.keeper with state := w.keeper.policy.repair stored w.now } }.setTick i
        .entering

/-- The wait is checked, and the task started where it is over. -/
def World.enter (w : World T) (i : ℕ) : World T :=
  let waitMs := w.keeper.remainingMs w.now
  if 0 < waitMs then w.setTick i (.finished (some (.skipped waitMs)))
  else { w with log := .started w.now :: w.log }.setTick i .running

/-- The task of tick `i` resolves. -/
def World.succeed (w : World T) (i : ℕ) (value : T) : World T :=
  match w.keeper.recordSuccess w.now with
  | none => (w.record w.keeper.state .succeeded).setTick i (.finished (some (.ranOk value)))
  | some state =>
      (w.record state .succeeded).setTick i
        (.saving state (.success value w.keeper.state.consecutiveFailures))

/-- The `catch` block of tick `i`: a failure is recorded if it has a text. -/
def World.fail (w : World T) (i : ℕ) (error : Rejection) (random : ℚ) : World T :=
  match error.text with
  | .error thrown => w.setTick i (.finished (some (.thrown ⟨.ok thrown⟩)))
  | .ok text =>
      let state := w.keeper.recordFailure w.now text random
      (w.record state (.failed state.nextAttemptAt)).setTick i
        (.saving state (.failure error (w.keeper.failureDelayMs random)))

/-- The rest of a tick once its result is recorded and the save has settled: the callback is
called and may throw. -/
def World.afterSave (w : World T) (i : ℕ) (callback : Except Rejection Unit) (random : ℚ) :
    Recorded T → World T
  | .success value afterFailures =>
      if w.keeper.policy.startAfterFailures ≤ afterFailures then
        match callback with
        | .ok () => w.setTick i (.finished (some (.ranOk value)))
        -- Still inside the `try` block of the task.
        | .error thrown => w.fail i thrown random
      else w.setTick i (.finished (some (.ranOk value)))
  | .failure error delayMs =>
      if 0 < delayMs then
        match callback with
        | .ok () => w.setTick i (.finished (some (.ranFailed error delayMs)))
        | .error thrown => w.setTick i (.finished (some (.thrown thrown)))
      else w.setTick i (.finished (some (.ranFailed error delayMs)))

inductive Action (T : Type) where
  /-- Time passes. -/
  | pass (ms : ℚ)
  /-- `tick` is called. -/
  | call (i : ℕ)
  /-- The store carries out the request tick `i` waits for. -/
  | serve (i : ℕ)
  /-- The store's promise settles. -/
  | reply (i : ℕ) (resolved : Bool) (callback : Except Rejection Unit) (random : ℚ)
  /-- Tick `i` goes on after `init`. -/
  | enter (i : ℕ)
  /-- The task of tick `i` settles. -/
  | settle (i : ℕ) (outcome : Except Rejection T) (random : ℚ)

/-- One step; an error where the action cannot happen. -/
def step (w : World T) : Action T → Except Unit (World T)
  | .pass ms => if 0 ≤ ms then .ok { w with now := w.now + ms } else .error ()
  | .call i =>
      match w.ticks i with
      | .finished _ => .ok (w.callTick i)
      | _ => .error ()
  | .serve i =>
      match w.ticks i with
      | .loading => .ok (w.setTick i (.loaded w.store))
      | .saving state recorded =>
          .ok ({ w with store := some state.record }.setTick i (.saved recorded))
      | _ => .error ()
  | .reply i resolved callback random =>
      match w.ticks i, resolved with
      | .loading, false => .ok (w.restore i none)
      | .loaded _, false => .ok (w.restore i none)
      | .loaded answer, true => .ok (w.restore i answer)
      -- A save that rejects may have written its record or not.
      | .saving _ recorded, false => .ok (w.afterSave i callback random recorded)
      | .saved recorded, _ => .ok (w.afterSave i callback random recorded)
      | _, _ => .error ()
  | .enter i =>
      match w.ticks i with
      | .entering => .ok (w.enter i)
      | _ => .error ()
  | .settle i outcome random =>
      match w.ticks i, outcome with
      | .running, .ok value => .ok (w.succeed i value)
      | .running, .error error => .ok (w.fail i error random)
      | _, _ => .error ()

end YieldEngine.Backoff
