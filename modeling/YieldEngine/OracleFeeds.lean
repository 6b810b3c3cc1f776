import YieldEngine.Host
import YieldEngine.SortedMap

/-! # The oracle registry

The records of the oracle registry, its storage and its entrypoints.  A feed keeps the last ten
observations, the addresses that may publish, its own freshness threshold and possibly the pool
whose feed stands in for it.

No entrypoint asks for an authorisation: the admin and the feeder of a call are the addresses
that the call names, and they are compared with the stored ones.

Contract events are not modelled: no function of the registry reads them. -/

namespace YieldEngine.Oracle

open CheckedArith

/-- `OracleError`. -/
inductive OracleError where
  | unauthorized
  | feedNotFound
  | feedAlreadyExists
  | notAuthorisedFeeder
  | noFreshObservation
  | feederAlreadyAuthorised
  | feederNotFound
deriving DecidableEq, Repr

/-- The outcome of an invocation of the oracle registry. -/
abbrev OracleCall (α : Type) := Call OracleError α

structure PriceObservation where
  price : ℤ
  timestamp : ℕ
deriving DecidableEq, Repr

structure OracleFeed where
  poolAddress : Address
  authorisedFeeders : List Address
  freshnessThresholdSecs : ℕ
  observations : List PriceObservation
  hasFallback : Bool
  /-- Meaningful only with `hasFallback`. -/
  fallbackPool : Address
deriving DecidableEq, Repr

def maxObservations : ℕ := 10
def defaultFreshnessSecs : ℕ := 300

/-! ### Storage -/

/-- The instance storage of the registry. -/
structure OracleStore where
  admin : Option Address
  feeds : Option (SortedMap Address OracleFeed)

namespace OracleStore
variable (s : OracleStore)

def loadFeeds : SortedMap Address OracleFeed := s.feeds.getD SortedMap.empty

def saveFeeds (feeds : SortedMap Address OracleFeed) : OracleStore :=
  { s with feeds := some feeds }

def loadAdmin : OracleCall Address := orRaise s.admin (.panic "oracle registry not initialised")

def checkAdmin (caller : Address) : OracleCall Unit := do
  let admin ← s.loadAdmin
  require (caller = admin) (.contract .unauthorized)

/-- The feed of a pool, as every entrypoint but `register_feed` looks it up. -/
def loadFeed (poolAddress : Address) : OracleCall OracleFeed :=
  orRaise (s.loadFeeds.get poolAddress) (.contract .feedNotFound)

@[simp] theorem loadFeeds_saveFeeds (feeds : SortedMap Address OracleFeed) :
    (s.saveFeeds feeds).loadFeeds = feeds := rfl

@[simp] theorem admin_saveFeeds (feeds : SortedMap Address OracleFeed) :
    (s.saveFeeds feeds).admin = s.admin := rfl

end OracleStore

/-! ### Feed management -/

variable (e : Env) (s : OracleStore)

/-- `initialize`: it writes both cells of the storage. -/
def initializeOracle (admin : Address) : OracleStore := ⟨some admin, some SortedMap.empty⟩

/-- `register_feed`: a threshold of zero asks for the default. -/
def registerFeed (admin poolAddress : Address) (initialFeeders : List Address)
    (freshnessThresholdSecs : ℕ) (fallbackPool : Address) (hasFallback : Bool) :
    OracleCall OracleStore := do
  s.checkAdmin admin
  require (s.loadFeeds.contains poolAddress = false) (.contract .feedAlreadyExists)
  let threshold :=
    if freshnessThresholdSecs = 0 then defaultFreshnessSecs else freshnessThresholdSecs
  pure (s.saveFeeds (s.loadFeeds.set poolAddress
    { poolAddress, authorisedFeeders := initialFeeders, freshnessThresholdSecs := threshold
      observations := [], hasFallback, fallbackPool }))

/-- `set_freshness_threshold`: here zero is a threshold like any other. -/
def setFreshnessThreshold (admin poolAddress : Address) (freshnessThresholdSecs : ℕ) :
    OracleCall OracleStore := do
  s.checkAdmin admin
  let feed ← s.loadFeed poolAddress
  pure (s.saveFeeds (s.loadFeeds.set poolAddress { feed with freshnessThresholdSecs }))

/-- `get_freshness_threshold`. -/
def getFreshnessThreshold (poolAddress : Address) : OracleCall ℕ :=
  OracleFeed.freshnessThresholdSecs <$> s.loadFeed poolAddress

/-- `add_feeder`. -/
def addFeeder (admin poolAddress feeder : Address) : OracleCall OracleStore := do
  s.checkAdmin admin
  let feed ← s.loadFeed poolAddress
  require (feeder ∉ feed.authorisedFeeders) (.contract .feederAlreadyAuthorised)
  pure (s.saveFeeds (s.loadFeeds.set poolAddress
    { feed with authorisedFeeders := feed.authorisedFeeders ++ [feeder] }))

/-- `remove_feeder`: every occurrence of the feeder goes. -/
def removeFeeder (admin poolAddress feeder : Address) : OracleCall OracleStore := do
  s.checkAdmin admin
  let feed ← s.loadFeed poolAddress
  require (feeder ∈ feed.authorisedFeeders) (.contract .feederNotFound)
  pure (s.saveFeeds (s.loadFeeds.set poolAddress
    { feed with authorisedFeeders := feed.authorisedFeeders.filter fun f => f ≠ feeder }))

/-- `get_feeders`. -/
def getFeeders (poolAddress : Address) : OracleCall (List Address) :=
  OracleFeed.authorisedFeeders <$> s.loadFeed poolAddress

/-- `set_fallback_feed`. -/
def setFallbackFeed (admin poolAddress fallbackPool : Address) (hasFallback : Bool) :
    OracleCall OracleStore := do
  s.checkAdmin admin
  let feed ← s.loadFeed poolAddress
  pure (s.saveFeeds (s.loadFeeds.set poolAddress { feed with fallbackPool, hasFallback }))

/-! ### Prices -/

/-- The window after one more observation: a full window loses its oldest one first. -/
def appendObservation (observations : List PriceObservation) (obs : PriceObservation) :
    List PriceObservation :=
  (if maxObservations ≤ observations.length then observations.drop 1 else observations) ++ [obs]

/-- `publish_price`. -/
def publishPrice (feeder poolAddress : Address) (price : ℤ) : OracleCall OracleStore := do
  let feed ← s.loadFeed poolAddress
  require (feeder ∈ feed.authorisedFeeders) (.contract .notAuthorisedFeeder)
  pure (s.saveFeeds (s.loadFeeds.set poolAddress
    { feed with observations := appendObservation feed.observations ⟨price, e.timestamp⟩ }))

/-- `get_observations`. -/
def getObservations (poolAddress : Address) : OracleCall (List PriceObservation) :=
  OracleFeed.observations <$> s.loadFeed poolAddress

/-- `latest_fresh_price`: the scan runs backwards to the first fresh observation. -/
def latestFreshPrice (feed : OracleFeed) (now : ℕ) : Option ℤ :=
  (feed.observations.reverse.find? fun obs =>
    now - obs.timestamp ≤ feed.freshnessThresholdSecs).map PriceObservation.price

/-- The price of the fallback, when there is one, it is registered and it is fresh. -/
def fallbackPrice (feed : OracleFeed) (now : ℕ) : Option ℤ :=
  if feed.hasFallback then
    (s.loadFeeds.get feed.fallbackPool).bind fun fallbackFeed => latestFreshPrice fallbackFeed now
  else none

/-- `get_price`. -/
def getPrice (poolAddress : Address) : OracleCall ℤ := do
  let feed ← s.loadFeed poolAddress
  orRaise ((latestFreshPrice feed e.timestamp).or (fallbackPrice s feed e.timestamp))
    (.contract .noFreshObservation)

end YieldEngine.Oracle
