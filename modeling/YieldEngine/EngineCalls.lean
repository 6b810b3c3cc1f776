import YieldEngine.Host
import YieldEngine.SortedMap
import YieldEngine.Transact

/-! # The umbrella engine contract

`StellarLiquidityYieldEngine` keeps the admin, the addresses of the two registries, a pause
flag, a circuit-breaker flag and the emergency audit history.  `EngineStore` is its storage,
followed by its entrypoints as functions from the storage an invocation starts with to the
storage it leaves.  `EngineAction` lists the writing entrypoints other than `initialize`. -/

namespace YieldEngine.Engine

open CheckedArith

/-- `EngineError`. -/
inductive EngineError where
  | unauthorized
  | paused
  | notInitialized
deriving DecidableEq, Repr

/-- The outcome of an engine invocation. -/
abbrev EngineCall (α : Type) := Call EngineError α

/-- A single append-only emergency audit record. -/
structure EmergencyRecord where
  index : ℕ
  action : String
  admin : Address
  timestamp : ℕ
deriving DecidableEq, Repr

/-- `upgrade::STORAGE_VERSION`. -/
def storageVersion : ℕ := 1

/-- The storage of the engine; the audit records are stored under their index. -/
structure EngineStore where
  admin : Option Address
  strategyRegistry : Option Address
  rewardDistributor : Option Address
  paused : Option Bool
  circuitTripped : Option Bool
  version : Option ℕ
  emergencyHistoryLen : Option ℕ
  emergencyHistoryItem : SortedMap ℕ EmergencyRecord

namespace EngineStore

/-- The storage of a deployed contract before its first invocation. -/
def fresh : EngineStore where
  admin := none
  strategyRegistry := none
  rewardDistributor := none
  paused := none
  circuitTripped := none
  version := none
  emergencyHistoryLen := none
  emergencyHistoryItem := SortedMap.empty

variable (s : EngineStore)

def isPaused : Bool := s.paused.getD false

def isCircuitBreakerTripped : Bool := s.circuitTripped.getD false

def getAdmin : EngineCall Address := orRaise s.admin (.contract .notInitialized)

def getStrategyRegistry : EngineCall Address :=
  orRaise s.strategyRegistry (.contract .notInitialized)

def getRewardDistributor : EngineCall Address :=
  orRaise s.rewardDistributor (.contract .notInitialized)

def getEmergencyHistoryLen : ℕ := s.emergencyHistoryLen.getD 0

/-- `get_emergency_record`; `unwrap` of a missing item traps. -/
def getEmergencyRecord (index : ℕ) : EngineCall EmergencyRecord := do
  require (index < s.getEmergencyHistoryLen) (.panic "emergency history index out of bounds")
  orRaise (s.emergencyHistoryItem.get index)
    (.panic "called `Option::unwrap()` on a `None` value")

def requireNotPaused : EngineCall Unit := require (s.isPaused = false) (.contract .paused)

def requireAdmin (caller : Address) : EngineCall Unit := do
  let admin ← s.getAdmin
  require (caller = admin) (.contract .unauthorized)

end EngineStore

/-! ### Entrypoints -/

/-- `initialize`. -/
def initializeEngine (s : EngineStore) (admin strategyRegistry rewardDistributor : Address) :
    EngineStore :=
  { s with
    admin := some admin
    strategyRegistry := some strategyRegistry
    rewardDistributor := some rewardDistributor
    paused := some false
    version := some storageVersion }

/-- `append_emergency_record`. -/
def appendEmergencyRecord (e : Env) (s : EngineStore) (action : String) (admin : Address) :
    EngineCall EngineStore := do
  let index := s.getEmergencyHistoryLen
  let next ← checkedU 32 (index + 1)
  pure { s with
    emergencyHistoryItem := s.emergencyHistoryItem.set index ⟨index, action, admin, e.timestamp⟩
    emergencyHistoryLen := some next.toNat }

/-- `upgrade`: the new code takes effect after this invocation, storage is kept. -/
def upgrade (s : EngineStore) (admin : Address) : EngineCall EngineStore := do
  s.requireAdmin admin
  pure s

/-- `migrate`, returning the version replaced. -/
def migrate (s : EngineStore) (admin : Address) : EngineCall (EngineStore × ℕ) := do
  s.requireAdmin admin
  pure ({ s with version := some storageVersion }, s.version.getD 0)

/-- `pause`. -/
def pause (e : Env) (s : EngineStore) (admin : Address) : EngineCall EngineStore := do
  s.requireAdmin admin
  appendEmergencyRecord e { s with paused := some true } "pause" admin

/-- `unpause`. -/
def unpause (e : Env) (s : EngineStore) (admin : Address) : EngineCall EngineStore := do
  s.requireAdmin admin
  appendEmergencyRecord e { s with paused := some false } "unpause" admin

/-- `trip_circuit_breaker`. -/
def tripCircuitBreaker (s : EngineStore) (admin : Address) : EngineCall EngineStore := do
  s.requireAdmin admin
  pure { s with circuitTripped := some true, paused := some true }

/-- `reset_circuit_breaker`. -/
def resetCircuitBreaker (s : EngineStore) (admin : Address) : EngineCall EngineStore := do
  s.requireAdmin admin
  pure { s with circuitTripped := some false, paused := some false }

/-- `update_admin`. -/
def updateAdmin (s : EngineStore) (currentAdmin newAdmin : Address) : EngineCall EngineStore := do
  s.requireAdmin currentAdmin
  pure { s with admin := some newAdmin }

/-- `update_strategy_registry`. -/
def updateStrategyRegistry (s : EngineStore) (admin newStrategyRegistry : Address) :
    EngineCall EngineStore := do
  s.requireAdmin admin
  s.requireNotPaused
  pure { s with strategyRegistry := some newStrategyRegistry }

/-- `update_reward_distributor`. -/
def updateRewardDistributor (s : EngineStore) (admin newRewardDistributor : Address) :
    EngineCall EngineStore := do
  s.requireAdmin admin
  s.requireNotPaused
  pure { s with rewardDistributor := some newRewardDistributor }

/-! ### Runs -/

/-- One invocation of the engine. -/
inductive EngineAction where
  | upgrade (admin : Address)
  | migrate (admin : Address)
  | pause (admin : Address)
  | unpause (admin : Address)
  | tripCircuitBreaker (admin : Address)
  | resetCircuitBreaker (admin : Address)
  | updateAdmin (currentAdmin newAdmin : Address)
  | updateStrategyRegistry (admin newStrategyRegistry : Address)
  | updateRewardDistributor (admin newRewardDistributor : Address)
deriving DecidableEq, Repr

def exec (s : EngineStore) (c : Env × EngineAction) : EngineCall EngineStore :=
  match c.2 with
  | .upgrade admin => upgrade s admin
  | .migrate admin => Prod.fst <$> migrate s admin
  | .pause admin => pause c.1 s admin
  | .unpause admin => unpause c.1 s admin
  | .tripCircuitBreaker admin => tripCircuitBreaker s admin
  | .resetCircuitBreaker admin => resetCircuitBreaker s admin
  | .updateAdmin currentAdmin newAdmin => updateAdmin s currentAdmin newAdmin
  | .updateStrategyRegistry admin newStrategyRegistry =>
      updateStrategyRegistry s admin newStrategyRegistry
  | .updateRewardDistributor admin newRewardDistributor =>
      updateRewardDistributor s admin newRewardDistributor

/-- The storage after `initialize` on fresh storage. -/
def initialEngine (admin strategyRegistry rewardDistributor : Address) : EngineStore :=
  initializeEngine .fresh admin strategyRegistry rewardDistributor

/-! ### What a returning call writes -/

/-- The storage with one more audit record. -/
def EngineStore.noted (s : EngineStore) (e : Env) (action : String) (admin : Address) :
    EngineStore :=
  { s with
    emergencyHistoryItem := s.emergencyHistoryItem.set s.getEmergencyHistoryLen
      ⟨s.getEmergencyHistoryLen, action, admin, e.timestamp⟩
    emergencyHistoryLen := some (s.getEmergencyHistoryLen + 1) }

theorem appendEmergencyRecord_ok {e : Env} {s s' : EngineStore} {action : String}
    {admin : Address} (h : appendEmergencyRecord e s action admin = .ok s') :
    s' = s.noted e action admin := by
  simp only [appendEmergencyRecord, bind_eq_ok, checkedU_eq_ok, pure_eq_ok] at h
  obtain ⟨_, ⟨-, rfl⟩, rfl⟩ := h
  rfl

/-- The storage a returning call leaves. -/
def written (e : Env) (s : EngineStore) : EngineAction → EngineStore
  | .upgrade _ => s
  | .migrate _ => { s with version := some storageVersion }
  | .pause admin => { s with paused := some true }.noted e "pause" admin
  | .unpause admin => { s with paused := some false }.noted e "unpause" admin
  | .tripCircuitBreaker _ => { s with circuitTripped := some true, paused := some true }
  | .resetCircuitBreaker _ => { s with circuitTripped := some false, paused := some false }
  | .updateAdmin _ newAdmin => { s with admin := some newAdmin }
  | .updateStrategyRegistry _ newStrategyRegistry =>
      { s with strategyRegistry := some newStrategyRegistry }
  | .updateRewardDistributor _ newRewardDistributor =>
      { s with rewardDistributor := some newRewardDistributor }

theorem exec_written {s s' : EngineStore} {c : Env × EngineAction} (h : exec s c = .ok s') :
    s' = written c.1 s c.2 := by
  obtain ⟨e, action⟩ := c
  cases action with
  | pause admin =>
      obtain ⟨-, -, h⟩ := bind_eq_ok.mp h
      exact appendEmergencyRecord_ok h
  | unpause admin =>
      obtain ⟨-, -, h⟩ := bind_eq_ok.mp h
      exact appendEmergencyRecord_ok h
  | migrate admin =>
      obtain ⟨r, hr, rfl⟩ := map_eq_ok.mp h
      obtain ⟨-, -, hr⟩ := bind_eq_ok.mp hr
      obtain rfl := pure_eq_ok.mp hr
      rfl
  | updateStrategyRegistry admin newStrategyRegistry =>
      obtain ⟨-, -, h⟩ := bind_eq_ok.mp h
      obtain ⟨-, -, h⟩ := bind_eq_ok.mp h
      exact (pure_eq_ok.mp h).symm
  | updateRewardDistributor admin newRewardDistributor =>
      obtain ⟨-, -, h⟩ := bind_eq_ok.mp h
      obtain ⟨-, -, h⟩ := bind_eq_ok.mp h
      exact (pure_eq_ok.mp h).symm
  | _ =>
      obtain ⟨-, -, h⟩ := bind_eq_ok.mp h
      exact (pure_eq_ok.mp h).symm

end YieldEngine.Engine
