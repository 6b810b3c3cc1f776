import YieldEngine.KeeperCheckpoint
import YieldEngine.Transact
import Mathlib.Data.Rat.Defs
import Mathlib.Algebra.Order.Field.Rat

/-! # The auto-rebalancer

`run` of the auto-rebalancer restores the keeper's state on the first run, checks the cooldown,
saves its state, scans, simulates, executes, saves again and notifies.  Every one of these
steps but the check waits for a promise, so a run is a machine that stops at each of its awaits
(`RunPhase`) and goes on when the promise settles (`advance`).  Any number of runs may be under
way on one keeper, and the process may be killed at any moment; the next process is a new keeper
on the same store.

A settled promise is rejected or resolved, and where the run decides on the result, the reply
says how: whether a profitable opportunity is left, whether the simulation is profitable, whether
the execution reports success.  The results a run returns and its log are not modelled, as no
run reads them; neither is the report of the lag monitor, which is only logged. -/

namespace YieldEngine.Rebalancer

open Keeper

/-! ### The keeper -/

structure RebalancerConfig where
  cooldownHours : ℚ

def RebalancerConfig.cooldownMs (config : RebalancerConfig) : ℚ :=
  config.cooldownHours * 60 * 60 * 1000

def stateKeyLastExecutionTime : String := "lastExecutionTimeMs"
def stateKeyLastConsumedMinute : String := "lastConsumedMinute"

/-- What one keeper holds in memory. -/
structure AutoRebalancer where
  /-- Time of the last successful execution in milliseconds; `0` when none. -/
  lastExecutionTime : ℤ
  lastConsumedMinute : ℤ
  stateRestored : Bool
deriving DecidableEq, Repr

/-- The constructor. -/
def newRebalancer : AutoRebalancer := ⟨0, -1, false⟩

/-- The execution time a loaded checkpoint gives, `current` where it has none. -/
def restoredTime (loaded : Option KeeperCheckpoint) (current : ℤ) : ℤ :=
  ((loaded.bind KeeperCheckpoint.metadata).bind
    (fun metadata => metadata.numberAt stateKeyLastExecutionTime)).getD current

/-- The rest of `restoreState` once the store has answered. -/
def AutoRebalancer.restoreState (keeper : AutoRebalancer) (loaded : Option KeeperCheckpoint) :
    AutoRebalancer where
  lastExecutionTime := restoredTime loaded keeper.lastExecutionTime
  lastConsumedMinute := ((loaded.bind KeeperCheckpoint.metadata).bind
    (fun metadata => metadata.numberAt stateKeyLastConsumedMinute)).getD keeper.lastConsumedMinute
  stateRestored := true

/-- The checkpoint `persistState` saves. -/
def AutoRebalancer.persistedState (keeper : AutoRebalancer) (now : ℕ) : KeeperCheckpoint :=
  createStateCheckpoint now
    ((Metadata.empty.set stateKeyLastExecutionTime (.number keeper.lastExecutionTime)).set
      stateKeyLastConsumedMinute (.number keeper.lastConsumedMinute))

/-- The cooldown window has elapsed. -/
def AutoRebalancer.isReadyForRebalance (keeper : AutoRebalancer) (config : RebalancerConfig)
    (now : ℕ) : Bool :=
  if keeper.lastExecutionTime = 0 then true
  else config.cooldownMs ≤ (now : ℚ) - keeper.lastExecutionTime

/-! ### Runs and processes -/

/-- The await a run waits at. -/
inductive RunPhase where
  | finished
  /-- The store is being read; the run will see the state at the call. -/
  | loading (loaded : Option KeeperCheckpoint)
  | checkingLag
  | savingSlot (checkpoint : KeeperCheckpoint)
  | scanning
  | simulating
  /-- `executeArbitrage` was called at the given time. -/
  | executing (startedAt : ℕ)
  | savingResult (checkpoint : KeeperCheckpoint)
  | notifying

/-- How a promise settles. -/
inductive Reply where
  | rejected
  | resolved (goesOn : Bool)
deriving DecidableEq, Repr

structure World where
  keeper : AutoRebalancer
  runs : ℕ → RunPhase
  store : Option KeeperCheckpoint
  /-- The clock in milliseconds since the epoch. -/
  now : ℕ
  /-- The start times of the executions that reported success. -/
  successes : List ℕ

def World.setRun (w : World) (i : ℕ) (phase : RunPhase) : World :=
  { w with runs := Function.update w.runs i phase }

/-- The first process on an empty store. -/
def initialWorld (now : ℕ) : World := ⟨newRebalancer, fun _ => .finished, none, now, []⟩

/-- The start of `run`: the state is restored unless a run has done so. -/
def World.startRun (w : World) (i : ℕ) : World :=
  w.setRun i (if w.keeper.stateRestored then .checkingLag else .loading w.store)

/-- Run `i` goes on from the await it waits at.  A rejection ends the run. -/
def advance (config : RebalancerConfig) (w : World) (i : ℕ) (goesOn : Bool) : RunPhase → World
  | .finished => w
  | .loading loaded =>
      { w with keeper := w.keeper.restoreState loaded }.setRun i .checkingLag
  | .checkingLag =>
      if w.keeper.isReadyForRebalance config w.now then
        w.setRun i (.savingSlot (w.keeper.persistedState w.now))
      else w.setRun i .finished
  | .savingSlot checkpoint => { w with store := some checkpoint }.setRun i .scanning
  | .scanning => w.setRun i (if goesOn then .simulating else .finished)
  | .simulating => w.setRun i (if goesOn then .executing w.now else .finished)
  | .executing startedAt =>
      if goesOn then
        let keeper := { w.keeper with lastExecutionTime := w.now }
        { w with
          keeper := keeper
          successes := startedAt :: w.successes }.setRun i
            (.savingResult (keeper.persistedState w.now))
      else w.setRun i .finished
  | .savingResult checkpoint => { w with store := some checkpoint }.setRun i .notifying
  | .notifying => w.setRun i .finished

inductive Action where
  /-- The clock moves on. -/
  | tick (ms : ℕ)
  /-- `run` is called. -/
  | call (i : ℕ)
  /-- The promise run `i` waits for settles. -/
  | settle (i : ℕ) (reply : Reply)
  /-- The process is killed, and a new one started. -/
  | kill
deriving DecidableEq, Repr

/-- One step; an error where the action cannot happen. -/
def step (config : RebalancerConfig) (w : World) : Action → Except Unit World
  | .tick ms => .ok { w with now := w.now + ms }
  | .call i =>
      match w.runs i with
      | .finished => .ok (w.startRun i)
      | _ => .error ()
  | .settle i .rejected => .ok (w.setRun i .finished)
  | .settle i (.resolved goesOn) => .ok (advance config w i goesOn (w.runs i))
  | .kill => .ok { w with keeper := newRebalancer, runs := fun _ => .finished }

/-- Any two executions that report success are started at least a cooldown apart. -/
def Spaced (config : RebalancerConfig) (w : World) : Prop :=
  w.successes.Pairwise (fun later earlier : ℕ => config.cooldownMs ≤ |(later : ℚ) - earlier|)

end YieldEngine.Rebalancer
