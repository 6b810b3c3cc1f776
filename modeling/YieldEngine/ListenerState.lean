import YieldEngine.KeeperCheckpoint
import YieldEngine.PagedLog

/-! # The contract event listener

The listener follows the chain's events page by page.  It keeps two positions, a ledger
(`cursor`) and the paging token of the last event of a full page (`pagingCursor`), and writes
both into a checkpoint: the ledger as the resume point, the token into the metadata.

The RPC it polls (`rpcAnswer`) shows the events up to its latest ledger.  What it shows is
final, so the chain is given by the events each ledger has or will have.

The skipped-action log and the error handlers are not modelled, and of the handlers only what a raw
one receives: while no handler throws, the others change nothing of it, nor of the position.
`ListenerHandlers` is about handlers that throw. -/

namespace YieldEngine.Listener

open Keeper PagedLog

/-! ### Events, requests and responses -/

/-- The fields of an event the listener reads; a raw handler receives the rest unread. -/
structure RawContractEvent where
  contractId : String
  ledger : ℕ
  id : Option String
deriving DecidableEq, Repr

structure GetEventsFilter where
  type : String
  contractIds : Option (List String)
  topics : Option (List (List String))
deriving DecidableEq, Repr

structure GetEventsRequest where
  startLedger : Option ℕ
  cursor : Option String
  filters : List GetEventsFilter
  limit : ℕ
deriving DecidableEq, Repr

structure GetEventsResponse where
  events : List RawContractEvent
  latestLedger : ℕ
deriving DecidableEq, Repr

/-! ### Configuration and state -/

/-- `rpcFilter` without contract ids. -/
structure RpcFilter where
  type : Option String
  topics : Option (List (List String))

structure ListenerConfig where
  contractAddresses : Option (List String)
  startLedger : ℕ
  pageSize : Option ℕ
  rpcFilter : Option RpcFilter
  /-- Whether a checkpoint store is configured. -/
  store : Bool
  autoRestore : Option Bool
  persistOnPoll : Option Bool
  checkpointMetadata : Option Metadata

def defaultPageSize : ℕ := 200

def eventCursorKey : String := "eventCursor"

/-- The number of events requested per poll. -/
def ListenerConfig.limit (config : ListenerConfig) : ℕ := config.pageSize.getD defaultPageSize

/-- The lower-cased allow-list. -/
def ListenerConfig.allowedAddresses (config : ListenerConfig) : List String :=
  ((config.contractAddresses.getD []).map String.toLower).eraseDups

/-- What one listener keeps in memory. -/
structure ListenerState where
  cursor : ℕ
  pagingCursor : Option String
  restoreAttempted : Bool
deriving DecidableEq, Repr

/-- The constructor. -/
def newListener (config : ListenerConfig) : ListenerState := ⟨config.startLedger, none, false⟩

/-! ### Durable state -/

/-- The paging cursor a checkpoint carries. -/
def storedCursor (checkpoint : KeeperCheckpoint) : Option String :=
  checkpoint.metadata.bind (fun metadata => metadata.stringAt eventCursorKey)

def restore (config : ListenerConfig) (store : Option KeeperCheckpoint) (l : ListenerState) :
    ListenerState :=
  let l := { l with restoreAttempted := true }
  if config.store then
    match store with
    | none => l
    | some checkpoint =>
        { l with
          cursor := max config.startLedger checkpoint.nextLedger
          pagingCursor :=
            if config.startLedger ≤ checkpoint.nextLedger then storedCursor checkpoint else none }
  else l

def restoreIfNeeded (config : ListenerConfig) (store : Option KeeperCheckpoint)
    (l : ListenerState) : ListenerState :=
  if config.store = false ∨ l.restoreAttempted ∨ config.autoRestore = some false then l
  else restore config store l

/-- The checkpoint `persist` writes. -/
def persistedCheckpoint (config : ListenerConfig) (l : ListenerState) (now : ℕ) :
    KeeperCheckpoint :=
  let metadata := match l.pagingCursor with
    | some token =>
        some ((config.checkpointMetadata.getD Metadata.empty).set eventCursorKey (.string token))
    | none => config.checkpointMetadata
  createCheckpoint l.cursor now metadata

/-- `persistIfEnabled` writes. -/
def ListenerConfig.persists (config : ListenerConfig) : Bool :=
  config.store && config.persistOnPoll != some false

/-! ### Polling -/

def buildRequest (config : ListenerConfig) (l : ListenerState) : GetEventsRequest :=
  let filter : GetEventsFilter :=
    { type := (config.rpcFilter.bind RpcFilter.type).getD "contract"
      contractIds := if config.allowedAddresses = [] then none else some config.allowedAddresses
      topics := config.rpcFilter.bind RpcFilter.topics }
  { startLedger := if l.pagingCursor = none then some l.cursor else none
    cursor := l.pagingCursor
    filters := [filter]
    limit := config.limit }

def isAllowed (config : ListenerConfig) (contractId : String) : Bool :=
  config.allowedAddresses = [] ∨ contractId.toLower ∈ config.allowedAddresses

/-- The paging token of an event; an empty id is none. -/
def pagingToken (event : RawContractEvent) : Option String := event.id.filter (fun id => id ≠ "")

/-- Move past a page whose consumed events reach `highestEventLedger`. -/
def advanceCursor (config : ListenerConfig) (l : ListenerState) (events : List RawContractEvent)
    (highestEventLedger : ℤ) (latestLedger : ℕ) : ListenerState :=
  let drained := events.length < config.limit
  let pagingCursor := if drained then none else events.getLast?.bind pagingToken
  let consumedThrough :=
    if drained then max highestEventLedger latestLedger else highestEventLedger
  let next := consumedThrough + 1
  { l with
    pagingCursor := pagingCursor
    cursor := if 0 ≤ consumedThrough ∧ (l.cursor : ℤ) < next then next.toNat else l.cursor }

/-- The higher of the highest ledger so far and an event's ledger. -/
def keepHighest (highest : ℤ) (event : RawContractEvent) : ℤ :=
  if (event.ledger : ℤ) > highest then event.ledger else highest

/-- The highest ledger of the events, `-1` when there is none. -/
def highestLedger (events : List RawContractEvent) : ℤ := events.foldl keepHighest (-1)

/-- The listener after a page, and the events it passed to the raw handlers. -/
def processResponse (config : ListenerConfig) (l : ListenerState) (response : GetEventsResponse) :
    ListenerState × List RawContractEvent :=
  let passed := response.events.filter (fun event => isAllowed config event.contractId)
  (advanceCursor config l response.events (highestLedger passed) response.latestLedger, passed)

/-! ### The chain behind the RPC -/

/-- The events of every ledger, each with an id of its own. -/
structure Chain where
  events : ℕ → List RawContractEvent
  ledger_eq : ∀ n event, event ∈ events n → event.ledger = n
  id_ne : ∀ n event, event ∈ events n → ∃ id, event.id = some id ∧ id ≠ ""
  id_unique : ∀ bound, ((between events 0 bound).map RawContractEvent.id).Nodup

/-- The chain as a log of events by ledger. -/
def Chain.log (chain : Chain) : Log RawContractEvent (Option String) where
  items := chain.events
  slot := RawContractEvent.ledger
  name := RawContractEvent.id
  slotted := chain.ledger_eq
  named := chain.id_unique

/-- Whether an event passes the contract filter of a request. -/
def matchesFilters (filters : List GetEventsFilter) (event : RawContractEvent) : Bool :=
  filters.all fun filter => (filter.contractIds.map (fun ids => ids.contains event.contractId)).getD
    true

/-- The answer to a request when the chain is final up to `latestLedger`: the first events
from the requested position on.  An unknown cursor is an error. -/
def rpcAnswer (chain : Chain) (latestLedger : ℕ) (request : GetEventsRequest) :
    Option GetEventsResponse :=
  let page := fun (events : List RawContractEvent) =>
    some ⟨(events.filter (matchesFilters request.filters)).take request.limit, latestLedger⟩
  match request.cursor, request.startLedger with
  | some id, _ =>
      let visible := between chain.events 0 (latestLedger + 1)
      if some id ∈ visible.map RawContractEvent.id then
        page (following RawContractEvent.id (some id) visible)
      else none
  | none, some start => page (between chain.events start (latestLedger + 1))
  | none, none => none

end YieldEngine.Listener
