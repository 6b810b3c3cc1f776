import YieldEngine.CheckpointFormat
import YieldEngine.Transact
import Mathlib.Algebra.Order.Floor.Ring
import Mathlib.Data.Rat.Floor
import Mathlib.Logic.Function.Basic

/-! # The lag of an RPC node

A keeper measures how far the head of its RPC node is ahead of the highest ledger it has processed.
`RpcLagMonitor` holds this ledger, the marker; it is raised by the ledgers the keeper records and by
the checkpoint it restores, and `persist` hands a checkpoint made from it to the store.

Loads, saves and checks are promises.  A load gives what the store holds at one moment and a save
replaces it at one moment, as the contract of the stores asks; between a call and this moment, and
between this moment and the answer, anything may happen.  `System` is any number of keepers on one
store with what is under way between them, and `step` is one event of it, rejected where it cannot
happen or where the call throws.  The text of a number is a parameter. -/

namespace YieldEngine.RpcSync

open Checkpoint

/-! ### Measuring the lag -/

def ledgerCloseTimeSeconds : JsNumber := .ofNat 5
def defaultWarningLedgers : JsNumber := .ofNat 5
def defaultCriticalLedgers : JsNumber := .ofNat 20

inductive LagSeverity where
  | ok
  | warning
  | critical
deriving DecidableEq, Repr

structure RpcLagThresholds where
  warningLedgers : Option JsNumber
  criticalLedgers : Option JsNumber
deriving DecidableEq, Repr

structure RpcLagOptions extends RpcLagThresholds where
  ledgerCloseTimeSeconds : Option JsNumber
deriving DecidableEq, Repr

structure RpcLagReport where
  processedLedger : JsNumber
  headLedger : JsNumber
  lagLedgers : ℤ
  lagSeconds : JsNumber
  severity : LagSeverity
  message : String
  /-- Milliseconds since the epoch. -/
  checkedAt : JsNumber
deriving DecidableEq, Repr

/-- The ledgers from one to another, none when the other is behind. -/
def lagOf (processed head : ℚ) : ℤ := max 0 (⌊head⌋ - ⌊processed⌋)

def computeLedgerLag (processedLedger headLedger : JsNumber) : Except String ℤ :=
  match processedLedger, headLedger with
  | .finite processed, .finite head => .ok (lagOf processed head)
  | _, _ => .error "ledger sequences must be finite numbers"

def classifyLag (lagLedgers : ℤ) (thresholds : RpcLagThresholds) : Except String LagSeverity :=
  let warning := thresholds.warningLedgers.getD defaultWarningLedgers
  let critical := thresholds.criticalLedgers.getD defaultCriticalLedgers
  if warning.lt (.ofNat 0) || critical.lt (.ofNat 0) then
    .error "lag thresholds must be non-negative"
  else if critical.lt warning then
    .error "criticalLedgers must be greater than or equal to warningLedgers"
  else if critical.le (.ofInt lagLedgers) then .ok .critical
  else if warning.le (.ofInt lagLedgers) then .ok .warning
  else .ok .ok

section report
variable (text : JsNumber → String)

def formatLagMessage (processedLedger headLedger : JsNumber) (lagLedgers : ℤ)
    (lagSeconds : JsNumber) (severity : LagSeverity) : String :=
  let base := s!"RPC node head is {text (.ofInt lagLedgers)} ledger(s) (~{text lagSeconds}s) " ++
    "ahead of the last processed ledger " ++
    s!"(processed={text processedLedger}, head={text headLedger})"
  match severity with
  | .ok => s!"{base}; within tolerance"
  | .warning => s!"{base}; node is noticeably behind"
  | .critical => s!"{base}; node is critically behind, keeper decisions may be stale"

/-- The rest of `checkRpcLag` once the node has answered with its head. -/
def checkRpcLag (options : RpcLagOptions) (processedLedger headLedger now : JsNumber) :
    Except String RpcLagReport := do
  let lagLedgers ← computeLedgerLag processedLedger headLedger
  let severity ← classifyLag lagLedgers options.toRpcLagThresholds
  let lagSeconds := (JsNumber.ofInt lagLedgers).mul
    (options.ledgerCloseTimeSeconds.getD ledgerCloseTimeSeconds)
  .ok ⟨processedLedger, headLedger, lagLedgers, lagSeconds, severity,
    formatLagMessage text processedLedger headLedger lagLedgers lagSeconds severity, now⟩

end report

/-! ### The marker -/

theorem isLedgerSequence_eq_some {q : ℚ} {n : ℕ}
    (h : isLedgerSequence (.number (.finite q)) = some n) : (n : ℚ) = q := by
  simp only [isLedgerSequence] at h
  split_ifs at h with hwhole
  obtain rfl := Option.some.inj h
  obtain ⟨hint, hpos⟩ := Bool.and_eq_true_iff.mp hwhole
  have hnum : 0 ≤ q.num := Rat.num_nonneg.mpr (of_decide_eq_true hpos)
  have hden : q.den = 1 := by simpa [Rat.isInt] using hint
  rw [← Int.cast_natCast, Int.toNat_of_nonneg hnum, Rat.coe_int_num_of_den_eq_one hden]

structure RpcLagMonitor where
  processedLedger : ℚ
deriving DecidableEq, Repr

namespace RpcLagMonitor

/-- The constructor. -/
def create : RpcLagMonitor := ⟨0⟩

/-- Never moves the marker backwards. -/
def recordProcessedLedger (m : RpcLagMonitor) (sequence : JsNumber) :
    Except String RpcLagMonitor :=
  match sequence with
  | .finite q => .ok (if m.processedLedger < q then ⟨q⟩ else m)
  | _ => .error "ledger sequence must be a finite number"

/-- The rest of `restore` once the store has answered; it returns whether there was a checkpoint. -/
def restore (m : RpcLagMonitor) (loaded : Option KeeperCheckpoint) :
    Except String (RpcLagMonitor × Bool) :=
  match loaded with
  | none => .ok (m, false)
  | some checkpoint =>
      (·, true) <$> m.recordProcessedLedger (.ofInt (max 0 checkpoint.lastProcessedLedger))

/-- The checkpoint that `persist` hands to the store. -/
def persist (m : RpcLagMonitor) (now : JsNumber) : Except String KeeperCheckpoint :=
  createCheckpoint (.finite (m.processedLedger + 1)) now none

/-- The marker raised to a ledger. -/
def raised (m : RpcLagMonitor) (q : ℚ) : RpcLagMonitor := ⟨max m.processedLedger q⟩

theorem recordProcessedLedger_finite (m : RpcLagMonitor) (q : ℚ) :
    m.recordProcessedLedger (.finite q) = .ok (m.raised q) := by
  rw [recordProcessedLedger, raised]
  by_cases h : m.processedLedger < q
  · rw [if_pos h, max_eq_right h.le]
  · rw [if_neg h, max_eq_left (not_lt.mp h)]

theorem recordProcessedLedger_eq_ok {m m' : RpcLagMonitor} {sequence : JsNumber} :
    m.recordProcessedLedger sequence = .ok m' ↔ ∃ q, sequence = .finite q ∧ m' = m.raised q := by
  cases sequence with
  | finite q =>
      rw [recordProcessedLedger_finite]
      simp [eq_comm]
  | _ => simp [recordProcessedLedger]

/-- A restored checkpoint raises the marker to its ledger. -/
theorem restore_some (m : RpcLagMonitor) (c : KeeperCheckpoint) :
    m.restore (some c) = .ok (m.raised (max 0 c.lastProcessedLedger : ℤ), true) := by
  rw [restore, JsNumber.ofInt, recordProcessedLedger_finite]
  rfl

/-- A checkpoint is made of a whole marker, and says that the marker is processed. -/
theorem persist_eq_ok {m : RpcLagMonitor} {now : JsNumber} {c : KeeperCheckpoint}
    (h : m.persist now = .ok c) : (c.lastProcessedLedger : ℚ) = m.processedLedger := by
  unfold persist createCheckpoint at h
  split at h
  · cases h
  · cases h
  · rename_i n t hn ht
    obtain rfl := Except.ok.inj h
    push_cast
    rw [isLedgerSequence_eq_some hn, add_sub_cancel_right]

end RpcLagMonitor

/-! ### Health -/

/-- `KeeperHealthTracker`; its fields are the metrics it gives. -/
structure KeeperHealthTracker where
  /-- Milliseconds since the epoch, `0` when no run has succeeded. -/
  lastSuccessfulRunMs : JsNumber
  errorCount : ℕ
  queueDepth : ℤ
  lastSeverity : Option LagSeverity
deriving DecidableEq, Repr

namespace KeeperHealthTracker

def create : KeeperHealthTracker := ⟨.ofNat 0, 0, 0, none⟩

def recordSuccess (t : KeeperHealthTracker) (now : JsNumber) : KeeperHealthTracker :=
  { t with lastSuccessfulRunMs := now }

def recordError (t : KeeperHealthTracker) : KeeperHealthTracker :=
  { t with errorCount := t.errorCount + 1 }

def setQueueDepth (t : KeeperHealthTracker) (depth : JsNumber) :
    Except String KeeperHealthTracker :=
  match depth with
  | .finite q => .ok { t with queueDepth := max 0 ⌊q⌋ }
  | _ => .error "queue depth must be a finite number"

def recordSeverity (t : KeeperHealthTracker) (severity : LagSeverity) : KeeperHealthTracker :=
  { t with lastSeverity := some severity }

/-- What `checkWithHealth` makes of the outcome of its check, which it passes on. -/
def checkWithHealth (t : KeeperHealthTracker) (outcome : Except String RpcLagReport)
    (now : JsNumber) : KeeperHealthTracker :=
  match outcome with
  | .ok report => (t.recordSuccess now).recordSeverity report.severity
  | .error _ => t.recordError

/-- The tracker after a sequence of checks. -/
def checksWithHealth (t : KeeperHealthTracker)
    (checks : List (Except String RpcLagReport × JsNumber)) : KeeperHealthTracker :=
  checks.foldl (fun t check => t.checkWithHealth check.1 check.2) t

/-- The tracker counts the checks that failed, and has the severity of the last one that did not. -/
theorem checksWithHealth_metrics (checks : List (Except String RpcLagReport × JsNumber)) :
    ∀ t : KeeperHealthTracker,
      (t.checksWithHealth checks).errorCount =
          t.errorCount + checks.countP (fun check => !check.1.isOk) ∧
        (t.checksWithHealth checks).lastSeverity =
          ((checks.filterMap (·.1.toOption)).getLast?.map RpcLagReport.severity).or
            t.lastSeverity := by
  induction checks with
  | nil => exact fun t => ⟨rfl, by simp [checksWithHealth]⟩
  | cons check checks ih =>
      intro t
      obtain ⟨outcome, now⟩ := check
      obtain ⟨hcount, hseverity⟩ := ih (t.checkWithHealth outcome now)
      unfold checksWithHealth at hcount hseverity ⊢
      rw [List.foldl_cons, hcount, hseverity]
      cases outcome with
      | error message =>
          refine ⟨?_, by simp [Except.toOption, checkWithHealth, recordError]⟩
          rw [List.countP_cons_of_pos (by rfl)]
          simp only [checkWithHealth, recordError]
          omega
      | ok report =>
          refine ⟨by simp [Except.isOk, Except.toBool, checkWithHealth, recordSeverity,
            recordSuccess], ?_⟩
          have hcons : ((Except.ok report, now) :: checks).filterMap (·.1.toOption) =
              report :: checks.filterMap (·.1.toOption) := List.filterMap_cons_some rfl
          rw [hcons, List.getLast?_cons]
          cases (checks.filterMap (·.1.toOption)).getLast? with
          | none => simp [checkWithHealth, recordSeverity]
          | some later => simp

end KeeperHealthTracker

/-! ### Keepers on one store -/

/-- Keepers by their numbers, and what is under way: the loads that have read the store, the saves
handed to it, and the checks waiting for the node. -/
structure System where
  store : Option KeeperCheckpoint
  monitors : ℕ → RpcLagMonitor
  loads : List (ℕ × Option KeeperCheckpoint)
  saves : List KeeperCheckpoint
  /-- With the ledger that was processed when the check was called. -/
  checks : List (ℕ × ℚ)

/-- Keepers that have done nothing yet. -/
def System.initial (store : Option KeeperCheckpoint) : System :=
  ⟨store, fun _ => .create, [], [], []⟩

inductive Event where
  /-- The process of a keeper is killed, and a new one started. -/
  | start (i : ℕ)
  | record (i : ℕ) (sequence : JsNumber)
  /-- The load of a `restore` reads the store. -/
  | read (i : ℕ)
  /-- The load is answered. -/
  | restored (k : ℕ)
  | persist (i : ℕ) (now : JsNumber)
  /-- A save takes place. -/
  | saved (k : ℕ)
  /-- A save is rejected, or cut off with its process. -/
  | lost (k : ℕ)
  | clear
  /-- `check` asks the node for its head. -/
  | check (i : ℕ)
  /-- The node answers. -/
  | answered (k : ℕ)
deriving DecidableEq, Repr

def System.setMonitor (s : System) (i : ℕ) (m : RpcLagMonitor) : System :=
  { s with monitors := Function.update s.monitors i m }

/-- One event; an error where it cannot happen, and where the call throws. -/
def step (s : System) : Event → Except String System
  | .start i =>
      .ok { s.setMonitor i .create with
        loads := s.loads.filter (·.1 ≠ i)
        checks := s.checks.filter (·.1 ≠ i) }
  | .record i sequence => s.setMonitor i <$> (s.monitors i).recordProcessedLedger sequence
  | .read i => .ok { s with loads := s.loads ++ [(i, s.store)] }
  | .restored k =>
      match s.loads[k]? with
      | none => .error "no such load"
      | some (i, loaded) =>
          (fun m => { s.setMonitor i m.1 with loads := s.loads.eraseIdx k }) <$>
            (s.monitors i).restore loaded
  | .persist i now =>
      (fun c => { s with saves := s.saves ++ [c] }) <$> (s.monitors i).persist now
  | .saved k =>
      match s.saves[k]? with
      | none => .error "no such save"
      | some c => .ok { s with store := some c, saves := s.saves.eraseIdx k }
  | .lost k => .ok { s with saves := s.saves.eraseIdx k }
  | .clear => .ok { s with store := none }
  | .check i => .ok { s with checks := s.checks ++ [(i, (s.monitors i).processedLedger)] }
  | .answered k => .ok { s with checks := s.checks.eraseIdx k }

/-- What a check returns that the node answers with its head. -/
def System.report (text : JsNumber → String) (options : RpcLagOptions) (s : System) (k : ℕ)
    (head now : JsNumber) : Except String RpcLagReport :=
  match s.checks[k]? with
  | none => .error "no such check"
  | some (_, processed) => checkRpcLag text options (.finite processed) head now

/-- What an event that takes place does. -/
inductive Step (s : System) : Event → System → Prop
  | start (i : ℕ) : Step s (.start i)
      { s.setMonitor i .create with
        loads := s.loads.filter (·.1 ≠ i)
        checks := s.checks.filter (·.1 ≠ i) }
  | record (i : ℕ) (q : ℚ) :
      Step s (.record i (.finite q)) (s.setMonitor i ((s.monitors i).raised q))
  | read (i : ℕ) : Step s (.read i) { s with loads := s.loads ++ [(i, s.store)] }
  | restoredNothing {k i : ℕ} (h : s.loads[k]? = some (i, none)) :
      Step s (.restored k) { s with loads := s.loads.eraseIdx k }
  | restored {k i : ℕ} {c : KeeperCheckpoint} (h : s.loads[k]? = some (i, some c)) :
      Step s (.restored k)
        { s.setMonitor i ((s.monitors i).raised (max 0 c.lastProcessedLedger : ℤ)) with
          loads := s.loads.eraseIdx k }
  | persist {i : ℕ} {now : JsNumber} {c : KeeperCheckpoint}
      (h : (c.lastProcessedLedger : ℚ) = (s.monitors i).processedLedger) :
      Step s (.persist i now) { s with saves := s.saves ++ [c] }
  | saved {k : ℕ} {c : KeeperCheckpoint} (h : s.saves[k]? = some c) :
      Step s (.saved k) { s with store := some c, saves := s.saves.eraseIdx k }
  | lost (k : ℕ) : Step s (.lost k) { s with saves := s.saves.eraseIdx k }
  | clear : Step s .clear { s with store := none }
  | check (i : ℕ) : Step s (.check i)
      { s with checks := s.checks ++ [(i, (s.monitors i).processedLedger)] }
  | answered (k : ℕ) : Step s (.answered k) { s with checks := s.checks.eraseIdx k }

theorem step_cases {s s' : System} {e : Event} (h : step s e = .ok s') : Step s e s' := by
  cases e with
  | start i =>
      obtain rfl := Except.ok.inj h
      exact .start i
  | record i sequence =>
      simp only [step] at h
      cases hm : (s.monitors i).recordProcessedLedger sequence with
      | error message =>
          rw [hm] at h
          cases h
      | ok m =>
          rw [hm] at h
          obtain rfl := Except.ok.inj h
          obtain ⟨q, rfl, rfl⟩ := RpcLagMonitor.recordProcessedLedger_eq_ok.mp hm
          exact .record i q
  | read i =>
      obtain rfl := Except.ok.inj h
      exact .read i
  | restored k =>
      simp only [step] at h
      split at h
      · cases h
      · rename_i i loaded hload
        cases loaded with
        | none =>
            obtain rfl := Except.ok.inj h
            dsimp only [System.setMonitor]
            rw [Function.update_eq_self]
            exact .restoredNothing hload
        | some c =>
            rw [RpcLagMonitor.restore_some] at h
            obtain rfl := Except.ok.inj h
            exact .restored hload
  | persist i now =>
      simp only [step] at h
      cases hc : (s.monitors i).persist now with
      | error message =>
          rw [hc] at h
          cases h
      | ok c =>
          rw [hc] at h
          obtain rfl := Except.ok.inj h
          exact .persist (RpcLagMonitor.persist_eq_ok hc)
  | saved k =>
      simp only [step] at h
      split at h
      · cases h
      · rename_i c hsave
        obtain rfl := Except.ok.inj h
        exact .saved hsave
  | lost k =>
      obtain rfl := Except.ok.inj h
      exact .lost k
  | clear =>
      obtain rfl := Except.ok.inj h
      exact .clear
  | check i =>
      obtain rfl := Except.ok.inj h
      exact .check i
  | answered k =>
      obtain rfl := Except.ok.inj h
      exact .answered k

end YieldEngine.RpcSync
