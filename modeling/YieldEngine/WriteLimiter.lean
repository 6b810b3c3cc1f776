import YieldEngine.JsNumber
import YieldEngine.Transact

/-! # The write rate limiter

`WriteRateLimiter` paces the starts of queued tasks and bounds how many run at once.  Its code
runs in synchronous pieces: a call of `schedule`, the piece of the drain loop up to its next
`await` or up to the call of a task, and the callbacks of a task's promise.  An `Event` is one
such piece, and `step` what it does; the events may come in any order in which they can happen.

An event begins at the time the state shows and ends at its own time `later`, so that the clock
may move between two readings of one piece.

A task that is called may schedule further tasks before it returns its promise, or throw
(`Kind.threw`): then the drain loop is left, its flag is reset, and nothing else is. -/

namespace YieldEngine.Limiter

/-! ### Options -/

structure Config where
  minIntervalMs : JsNumber
  maxConcurrent : JsNumber
  maxQueue : JsNumber
deriving DecidableEq, Repr

/-- The constructor, up to the injected clock and sleep; `none` is an option left out. -/
def Config.create (minIntervalMs maxConcurrent maxQueue : Option JsNumber) :
    Except String Config :=
  let minIntervalMs := minIntervalMs.getD (.ofNat 0)
  let maxConcurrent := maxConcurrent.getD (.ofNat 1)
  let maxQueue := maxQueue.getD (.ofNat 1000)
  if minIntervalMs.lt (.ofNat 0) then .error "minIntervalMs must be non-negative"
  else if maxConcurrent.lt (.ofNat 1) then .error "maxConcurrent must be at least 1"
  else if maxQueue.lt (.ofNat 1) then .error "maxQueue must be at least 1"
  else .ok ⟨minIntervalMs, maxConcurrent, maxQueue⟩

/-! ### State -/

/-- Where the drain loop is. -/
inductive Phase where
  /-- `draining` is false. -/
  | idle
  /-- The loop awaits a sleep that was begun at `since`. -/
  | sleeping (since : ℚ) (wait : JsNumber)
  /-- The loop has called the task of an entry, and the call has not returned. -/
  | calling (id : ℕ)
deriving DecidableEq, Repr

/-- What happened to the submissions.  An accepted one is named by its number. -/
inductive Note (V E : Type) where
  | accepted (id : ℕ)
  /-- A submission is rejected while this many entries are queued. -/
  | refused (queued : ℕ)
  | started (id : ℕ) (time : ℚ)
  /-- The promise that `schedule` returned is resolved or rejected. -/
  | answered (id : ℕ) (result : Except E V)

structure State (V E : Type) where
  clock : ℚ
  queue : List ℕ
  inFlight : ℕ
  lastStart : JsNumber
  phase : Phase
  submitted : ℕ
  completed : ℕ
  failed : ℕ
  rejected : ℕ
  throttled : ℕ
  /-- The called tasks whose promises are pending. -/
  pending : List ℕ
  /-- The answered tasks whose last callback has not run. -/
  finishing : List ℕ
  /-- What happened so far, oldest first. -/
  log : List (Note V E)

/-- `stats`. -/
structure Stats where
  submitted : ℕ
  completed : ℕ
  failed : ℕ
  rejected : ℕ
  throttled : ℕ
  inFlight : ℕ
  queued : ℕ
deriving DecidableEq, Repr

variable {V E : Type}

/-- A limiter as it is constructed. -/
def initialState (clock : ℚ) : State V E where
  clock := clock
  queue := []
  inFlight := 0
  lastStart := .infinite true
  phase := .idle
  submitted := 0
  completed := 0
  failed := 0
  rejected := 0
  throttled := 0
  pending := []
  finishing := []
  log := []

namespace State
variable (config : Config) (later : ℚ) (s : State V E)

def stats : Stats where
  submitted := s.submitted
  completed := s.completed
  failed := s.failed
  rejected := s.rejected
  throttled := s.throttled
  inFlight := s.inFlight
  queued := s.queue.length

/-- The end of the loop. -/
def stop : State V E := { s with phase := .idle, clock := later }

/-- The body of the loop from `queue.shift()` up to the call of the task in `run`. -/
def start : State V E :=
  match s.queue with
  | [] => s.stop later
  | id :: queue =>
      { s with
        queue := queue
        lastStart := .finite later
        inFlight := s.inFlight + 1
        phase := .calling id
        log := s.log ++ [.started id later]
        clock := later }

/-- `this.minIntervalMs - (this.now() - this.lastStart)`. -/
def wait : JsNumber := config.minIntervalMs.sub ((JsNumber.finite s.clock).sub s.lastStart)

/-- The head of the loop, up to the sleep or the call of the task. -/
def loop : State V E :=
  if s.queue ≠ [] ∧ (JsNumber.ofNat s.inFlight).lt config.maxConcurrent = true then
    if (JsNumber.ofNat 0).lt (s.wait config) then
      { s with
        throttled := s.throttled + 1
        phase := .sleeping s.clock (s.wait config)
        clock := later }
    else s.start later
  else s.stop later

/-- `drain`. -/
def drain : State V E :=
  match s.phase with
  | .idle => s.loop config later
  | _ => { s with clock := later }

/-- `schedule`. -/
def schedule : State V E :=
  if config.maxQueue.le (.ofNat s.queue.length) then
    { s with
      rejected := s.rejected + 1
      log := s.log ++ [.refused s.queue.length]
      clock := later }
  else
    let queued : State V E := { s with
      submitted := s.submitted + 1
      queue := s.queue ++ [s.submitted]
      log := s.log ++ [.accepted s.submitted] }
    queued.drain config later

/-- The `then` or `catch` callback of a task's promise. -/
def answer (id : ℕ) (result : Except E V) : State V E :=
  { s with
    completed := if result.isOk then s.completed + 1 else s.completed
    failed := if result.isOk then s.failed else s.failed + 1
    pending := s.pending.erase id
    finishing := s.finishing ++ [id]
    log := s.log ++ [.answered id result]
    clock := later }

/-- The `finally` callback. -/
def release (id : ℕ) : State V E :=
  let released : State V E :=
    { s with inFlight := s.inFlight - 1, finishing := s.finishing.erase id }
  released.drain config later

end State

/-! ### Events -/

inductive Kind (V E : Type) where
  /-- Time passes. -/
  | pass
  /-- `schedule` is called. -/
  | schedule
  /-- The sleep of the drain loop returns. -/
  | wake
  /-- The called task returns a promise. -/
  | returned
  /-- The called task throws. -/
  | threw (error : E)
  /-- The promise of a task settles. -/
  | settled (id : ℕ) (result : Except E V)
  /-- The `finally` callback of a task runs. -/
  | released (id : ℕ)

/-- What happens, and the time at its end. -/
structure Event (V E : Type) where
  kind : Kind V E
  later : ℚ

/-- One event; an error where it cannot happen. -/
def step (config : Config) (s : State V E) (e : Event V E) : Except Unit (State V E) :=
  if e.later < s.clock then .error ()
  else
    match e.kind with
    | .pass => .ok { s with clock := e.later }
    | .schedule => .ok (s.schedule config e.later)
    | .wake =>
        match s.phase with
        | .sleeping since wait =>
            -- A sleep returns only once the clock has advanced by its argument.
            if wait.le (.finite (s.clock - since)) then .ok (s.start e.later) else .error ()
        | _ => .error ()
    | .returned =>
        match s.phase with
        | .calling id =>
            let returned : State V E := { s with pending := s.pending ++ [id] }
            .ok (returned.loop config e.later)
        | _ => .error ()
    | .threw _ =>
        match s.phase with
        | .calling _ => .ok (s.stop e.later)
        | _ => .error ()
    | .settled id result =>
        if id ∈ s.pending then .ok (s.answer e.later id result) else .error ()
    | .released id =>
        if id ∈ s.finishing then .ok (s.release config e.later id) else .error ()

end YieldEngine.Limiter
