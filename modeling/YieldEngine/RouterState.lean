import YieldEngine.Host
import YieldEngine.SortedMap

/-! # Storage of the swap router

The records of the swap router, the cells it keeps in instance storage (`RouterStore`), its
error codes, and the getters with their defaults.  The pools are a map by address, visited in
key order; `KeyedByAddress` says that every pool is stored under its own address.

A failed requirement panics with the name of the error.  Contract events and the record of a
completed swap, which is built and dropped, are not modelled: nothing reads them. -/

namespace YieldEngine.Router

open CheckedArith

/-- `SwapError`. -/
inductive SwapError where
  | insufficientBalance
  | insufficientOutput
  | slippageExceeded
  | invalidPath
  | noPoolFound
  | poolInsufficientLiquidity
  | invalidSlippage
  | transferFailed
  | unauthorized
  | invalidToken
  | poolExists
  | poolNotFound
deriving DecidableEq, Repr

/-- The outcome of a router invocation. -/
abbrev RouterCall (α : Type) := Call SwapError α

structure PoolInfo where
  poolAddress : Address
  tokenA : Address
  tokenB : Address
  reserveA : ℤ
  reserveB : ℤ
  feeBps : ℕ
  isStableSwap : Bool
deriving DecidableEq, Repr

/-- Tokens are listed input first; one pool for each pair of consecutive tokens. -/
structure SwapPath where
  tokens : List Address
  pools : List Address
  expectedOutput : ℤ
  priceImpactBps : ℤ
deriving DecidableEq, Repr

inductive RouteType where
  | direct
  | xlmHop
  | multiHop
deriving DecidableEq, Repr

structure SwapQuote where
  path : SwapPath
  inputAmount : ℤ
  minimumOutput : ℤ
  expectedOutput : ℤ
  priceImpactBps : ℤ
  protocolFee : ℤ
  routeType : RouteType
deriving DecidableEq, Repr

/-- A failed swap queued for retry. -/
structure PendingSwap where
  swapId : ℕ
  user : Address
  inputToken : Address
  outputToken : Address
  inputAmount : ℤ
  minOutput : ℤ
  retryCount : ℕ
  maxRetries : ℕ
  timestamp : ℕ
deriving DecidableEq, Repr

/-! ### Constants -/

def maxPathLength : ℕ := 3
def maxSlippageBps : ℕ := 100
def defaultMaxSlippageBps : ℕ := maxSlippageBps
def protocolTreasuryFeeBps : ℕ := 25
def bpsDivisor : ℤ := 10000

/-! ### Storage -/

/-- The instance storage of the router. -/
structure RouterStore where
  admin : Option Address
  treasury : Option Address
  xlmToken : Option Address
  defaultSlippage : Option ℕ
  nextSwapId : Option ℕ
  pools : Option (SortedMap Address PoolInfo)
  oraclePaused : Option Bool
  paused : Option Bool
  pendingSwap : Option (SortedMap ℕ PendingSwap)
  totalSwaps : Option ℕ
  totalVolume : Option ℤ
  totalFees : Option ℤ

/-- `require!` without an environment panics with the name of the error. -/
def requireOr (c : Prop) [Decidable c] (name : String) : RouterCall Unit := require c (.panic name)

theorem requireOr_eq_ok {c : Prop} [Decidable c] {name : String} {u : Unit} :
    requireOr c name = .ok u ↔ c := require_eq_ok

namespace RouterStore

/-- The storage of a deployed contract before its first invocation. -/
def fresh : RouterStore where
  admin := none
  treasury := none
  xlmToken := none
  defaultSlippage := none
  nextSwapId := none
  pools := none
  oraclePaused := none
  paused := none
  pendingSwap := none
  totalSwaps := none
  totalVolume := none
  totalFees := none

variable (s : RouterStore)

def getAdmin : RouterCall Address := orRaise s.admin (.panic "admin not configured")

def getTreasury : RouterCall Address := orRaise s.treasury (.panic "treasury not configured")

def getXlmToken : RouterCall Address :=
  orRaise s.xlmToken (.panic "called `Option::unwrap()` on a `None` value")

def getPools : SortedMap Address PoolInfo := s.pools.getD SortedMap.empty

def requireAdmin (caller : Address) : RouterCall Unit := do
  let admin ← s.getAdmin
  requireOr (caller = admin) "Unauthorized"

def requireOracleNotPaused : RouterCall Unit :=
  requireOr (s.oraclePaused.getD false = false) "Unauthorized"

end RouterStore

def requireValidSlippage (slippageBps : ℕ) : RouterCall Unit :=
  requireOr (slippageBps ≤ maxSlippageBps) "InvalidSlippage"

def RouterStore.getDefaultSlippage (s : RouterStore) : RouterCall ℕ := do
  let slippage := s.defaultSlippage.getD defaultMaxSlippageBps
  requireValidSlippage slippage
  pure slippage

/-! ### Pool management -/

/-- `initialize`. -/
def initializeRouter (s : RouterStore) (admin treasury xlmToken : Address) : RouterStore :=
  { s with
    admin := some admin
    treasury := some treasury
    xlmToken := some xlmToken
    defaultSlippage := some defaultMaxSlippageBps
    nextSwapId := some 1
    pools := some SortedMap.empty
    oraclePaused := some false }

def addPool (s : RouterStore) (admin poolAddress tokenA tokenB : Address) (feeBps : ℕ)
    (isStableSwap : Bool) : RouterCall RouterStore := do
  s.requireAdmin admin
  requireOr (s.getPools.contains poolAddress = false) "PoolExists"
  let pool : PoolInfo :=
    { poolAddress := poolAddress
      tokenA := tokenA
      tokenB := tokenB
      reserveA := 0
      reserveB := 0
      feeBps := feeBps
      isStableSwap := isStableSwap }
  pure { s with pools := some (s.getPools.set poolAddress pool) }

def updatePoolReserves (s : RouterStore) (poolAddress : Address) (reserveA reserveB : ℤ) :
    RouterCall RouterStore := do
  s.requireOracleNotPaused
  match s.getPools.get poolAddress with
  | some pool =>
      let pool := { pool with reserveA := reserveA, reserveB := reserveB }
      pure { s with pools := some (s.getPools.set poolAddress pool) }
  | none => raise (.contract .noPoolFound)

def removePool (s : RouterStore) (admin poolAddress : Address) : RouterCall RouterStore := do
  s.requireAdmin admin
  requireOr (s.getPools.contains poolAddress = true) "PoolNotFound"
  pure { s with pools := some (s.getPools.remove poolAddress) }

/-- Every pool is stored under its own address. -/
def KeyedByAddress (pools : SortedMap Address PoolInfo) : Prop :=
  ∀ address pool, pools.get address = some pool → pool.poolAddress = address

theorem keyed_empty : KeyedByAddress SortedMap.empty := by
  intro address pool h
  simp at h

theorem KeyedByAddress.set {pools : SortedMap Address PoolInfo} (hkeyed : KeyedByAddress pools)
    (pool : PoolInfo) : KeyedByAddress (pools.set pool.poolAddress pool) := by
  intro address p h
  rw [SortedMap.get_set] at h
  split_ifs at h with ha
  · cases h
    exact ha.symm
  · exact hkeyed address p h

/-- A pool found by iteration is the one stored under its address. -/
theorem KeyedByAddress.get_of_mem {pools : SortedMap Address PoolInfo}
    (hkeyed : KeyedByAddress pools) {pool : PoolInfo} (hmem : pool ∈ pools.values) :
    pools.get pool.poolAddress = some pool := by
  obtain ⟨⟨address, p⟩, hp, rfl⟩ := List.mem_map.mp hmem
  have hget := (pools.get_eq_some_iff address p).mpr hp
  rw [hkeyed address p hget]
  exact hget

theorem mem_values_of_get {pools : SortedMap Address PoolInfo} {address : Address}
    {pool : PoolInfo} (h : pools.get address = some pool) : pool ∈ pools.values :=
  List.mem_map.mpr ⟨(address, pool), (pools.get_eq_some_iff address pool).mp h, rfl⟩

theorem addPool_keyed {s s' : RouterStore} {admin poolAddress tokenA tokenB : Address} {feeBps : ℕ}
    {isStableSwap : Bool} (hkeyed : KeyedByAddress s.getPools)
    (h : addPool s admin poolAddress tokenA tokenB feeBps isStableSwap = .ok s') :
    KeyedByAddress s'.getPools := by
  simp only [addPool, bind_eq_ok, requireOr_eq_ok, pure_eq_ok] at h
  obtain ⟨-, -, -, -, rfl⟩ := h
  exact hkeyed.set ⟨poolAddress, tokenA, tokenB, 0, 0, feeBps, isStableSwap⟩

theorem updatePoolReserves_keyed {s s' : RouterStore} {poolAddress : Address}
    {reserveA reserveB : ℤ} (hkeyed : KeyedByAddress s.getPools)
    (h : updatePoolReserves s poolAddress reserveA reserveB = .ok s') :
    KeyedByAddress s'.getPools := by
  simp only [updatePoolReserves, bind_eq_ok] at h
  obtain ⟨-, -, h⟩ := h
  cases hget : s.getPools.get poolAddress with
  | none =>
      rw [hget] at h
      exact (raise_eq_ok.mp h).elim
  | some pool =>
      rw [hget] at h
      obtain rfl := pure_eq_ok.mp h
      have haddress := hkeyed poolAddress pool hget
      subst haddress
      exact hkeyed.set { pool with reserveA := reserveA, reserveB := reserveB }

theorem removePool_keyed {s s' : RouterStore} {admin poolAddress : Address}
    (hkeyed : KeyedByAddress s.getPools) (h : removePool s admin poolAddress = .ok s') :
    KeyedByAddress s'.getPools := by
  simp only [removePool, bind_eq_ok, requireOr_eq_ok, pure_eq_ok] at h
  obtain ⟨-, -, -, -, rfl⟩ := h
  intro address pool hget
  exact hkeyed address pool (SortedMap.get_of_get_remove hget)

end YieldEngine.Router
