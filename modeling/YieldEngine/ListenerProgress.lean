import Mathlib.Data.Int.Order.Basic
import YieldEngine.ListenerState

/-! # Progress on full pages

After a full page the listener continues after the token of its last event, or, where that event
has no id, from the ledger after the highest event that passed the address filter.  A page whose
events are all filtered out and whose last event has no id leaves only the ledger it had.

`PastFirst` says that the next request is behind the first event of the page.  `full_page_moves_iff`
decides it for every listener, every allow-list and every full page.  While it holds, what the node
has left shrinks with every full page (`rest_shrinks`), so that a backlog is drained after at most
as many polls as it has events (`backlog_drained`). -/

namespace YieldEngine.Listener

open PagedLog

/-- A full page of events in ledger order, none of them before the requested ledger. -/
structure FullPage (config : ListenerConfig) (l : ListenerState)
    (events : List RawContractEvent) : Prop where
  full : events.length = config.limit
  ordered : events.Pairwise (fun event later => event.ledger ≤ later.ledger)
  from_cursor : l.pagingCursor = none → ∀ event ∈ events, l.cursor ≤ event.ledger

/-- The position of the request is behind the first event of the page: the token of one of its
events, or a later ledger. -/
def PastFirst (events : List RawContractEvent) (request : GetEventsRequest) : Prop :=
  match request.cursor with
  | some token => ∃ event ∈ events, event.id = some token
  | none => ∃ start, request.startLedger = some start ∧
      ∀ first, events.head? = some first → first.ledger < start

/-- The last event has an id, or some event passes the address filter, or the ledger of the
listener is behind the page already. -/
def MovesOn (config : ListenerConfig) (l : ListenerState) (events : List RawContractEvent) :
    Prop :=
  events.getLast?.bind pagingToken ≠ none ∨
    (∃ event ∈ events, isAllowed config event.contractId = true) ∨
    ∃ first, events.head? = some first ∧ first.ledger < l.cursor

variable {config : ListenerConfig} {l : ListenerState} {events : List RawContractEvent}

theorem pagingToken_eq_some {event : RawContractEvent} {token : String}
    (h : pagingToken event = some token) : event.id = some token :=
  (Option.filter_eq_some_iff.mp h).1

/-- The highest ledger is that of an event, and no event is above it. -/
theorem highestLedger_spec :
    ∀ (events : List RawContractEvent) (highest : ℤ),
      highest ≤ events.foldl keepHighest highest ∧
        (∀ event ∈ events, (event.ledger : ℤ) ≤ events.foldl keepHighest highest) ∧
        (events.foldl keepHighest highest = highest ∨
          ∃ event ∈ events, events.foldl keepHighest highest = event.ledger) := by
  intro events
  induction events with
  | nil => exact fun _ => ⟨le_rfl, nofun, .inl rfl⟩
  | cons event events ih =>
      intro highest
      obtain ⟨hle, hall, hattained⟩ := ih (keepHighest highest event)
      have hkeep : highest ≤ keepHighest highest event ∧
          (event.ledger : ℤ) ≤ keepHighest highest event ∧
          (keepHighest highest event = highest ∨ keepHighest highest event = event.ledger) := by
        unfold keepHighest
        split_ifs <;> omega
      refine ⟨hkeep.1.trans hle, ?_, ?_⟩
      · intro other hother
        rcases List.mem_cons.mp hother with rfl | hother
        · exact hkeep.2.1.trans hle
        · exact hall other hother
      · rcases hattained with hsame | ⟨other, hother, heq⟩
        · rcases hkeep.2.2 with hold | hnew
          · exact .inl (hsame.trans hold)
          · exact .inr ⟨event, List.mem_cons_self, hsame.trans hnew⟩
        · exact .inr ⟨other, List.mem_cons_of_mem _ hother, heq⟩

/-- The listener after a full page. -/
theorem processResponse_full (h : FullPage config l events) (latest : ℕ) :
    (processResponse config l ⟨events, latest⟩).1.pagingCursor = events.getLast?.bind pagingToken ∧
      ((processResponse config l ⟨events, latest⟩).1.cursor : ℤ) = max (l.cursor : ℤ)
        (highestLedger (events.filter fun event => isAllowed config event.contractId) + 1) := by
  have hdrained : ¬ events.length < config.limit := by
    rw [h.full]
    exact lt_irrefl _
  have hlow := (highestLedger_spec (events.filter fun event => isAllowed config event.contractId)
    (-1)).1
  unfold processResponse advanceCursor
  simp only [if_neg hdrained, true_and]
  unfold highestLedger
  split_ifs <;> omega

/-- With a token of the last event the next request is behind the page. -/
theorem past_of_token (h : FullPage config l events) (latest : ℕ) {token : String}
    (htoken : events.getLast?.bind pagingToken = some token) :
    PastFirst events (buildRequest config (processResponse config l ⟨events, latest⟩).1) := by
  obtain ⟨hpaging, -⟩ := processResponse_full h latest
  obtain ⟨last, hlast, hname⟩ := Option.bind_eq_some_iff.mp htoken
  unfold PastFirst
  simp only [buildRequest, hpaging, htoken]
  exact ⟨last, List.mem_of_getLast? hlast, pagingToken_eq_some hname⟩

/-- Without one it is behind the first event when a kept event moves the ledger, or when the ledger
is behind that event already. -/
theorem past_iff_of_no_token (h : FullPage config l events) (latest : ℕ)
    (htoken : events.getLast?.bind pagingToken = none) {first : RawContractEvent}
    (hfirst : events.head? = some first) (hleast : ∀ event ∈ events, first.ledger ≤ event.ledger) :
    PastFirst events (buildRequest config (processResponse config l ⟨events, latest⟩).1) ↔
      (∃ event ∈ events, isAllowed config event.contractId = true) ∨ first.ledger < l.cursor := by
  obtain ⟨hpaging, hcursor⟩ := processResponse_full h latest
  obtain ⟨hlow, hall, hattained⟩ :=
    highestLedger_spec (events.filter fun event => isAllowed config event.contractId) (-1)
  rw [← highestLedger] at hlow hall hattained
  unfold PastFirst
  simp only [buildRequest, hpaging, htoken, if_true, Option.some.injEq, hfirst, exists_eq_left',
    forall_eq']
  constructor
  · intro hpast
    rcases hattained with hnone | ⟨event, hevent, -⟩
    · exact .inr (by omega)
    · exact .inl ⟨event, List.mem_filter.mp hevent⟩
  · rintro (⟨event, hevent, hallowed⟩ | hbehind)
    · have hhighest := hall event (List.mem_filter.mpr ⟨hevent, hallowed⟩)
      have hfrom := hleast event hevent
      omega
    · omega

/-- A full page has a first event, and none of its events is before that one. -/
theorem FullPage.first (hlimit : 1 ≤ config.limit) (h : FullPage config l events) :
    ∃ first, events.head? = some first ∧ ∀ event ∈ events, first.ledger ≤ event.ledger := by
  obtain ⟨hfull, hordered, -⟩ := h
  cases events with
  | nil => exact absurd (hfull ▸ hlimit) (by simp)
  | cons first others =>
      refine ⟨first, rfl, fun event hevent => ?_⟩
      rcases List.mem_cons.mp hevent with rfl | hevent
      · exact le_rfl
      · exact (List.pairwise_cons.mp hordered).1 event hevent

theorem past_iff_movesOn (hlimit : 1 ≤ config.limit) (h : FullPage config l events) (latest : ℕ) :
    PastFirst events (buildRequest config (processResponse config l ⟨events, latest⟩).1) ↔
      MovesOn config l events := by
  obtain ⟨first, hfirst, hleast⟩ := h.first hlimit
  unfold MovesOn
  cases htoken : events.getLast?.bind pagingToken with
  | some token => exact iff_of_true (past_of_token h latest htoken) (.inl (by simp))
  | none =>
      rw [past_iff_of_no_token h latest htoken hfirst hleast]
      simp only [ne_eq, not_true_eq_false, false_or, hfirst, Option.some.injEq, exists_eq_left']

/-- The next request is behind the first event of a full page exactly when the page lets the
listener move on. -/
theorem full_page_moves_iff (hlimit : 1 ≤ config.limit) (h : FullPage config l events)
    (latest : ℕ) :
    PastFirst events (buildRequest config (processResponse config l ⟨events, latest⟩).1) ↔
      MovesOn config l events :=
  past_iff_movesOn hlimit h latest

/-! ### Draining a backlog -/

/-- What a node with the given events left has for a request. -/
def rest (backlog : List RawContractEvent) (request : GetEventsRequest) : List RawContractEvent :=
  match request.cursor, request.startLedger with
  | some token, _ => following RawContractEvent.id (some token) backlog
  | none, some start => backlog.filter (fun event => start ≤ event.ledger)
  | none, none => []

/-- The events in ledger order, those with an id with one of their own. -/
structure Backlog (backlog : List RawContractEvent) : Prop where
  ordered : backlog.Pairwise (fun event later => event.ledger ≤ later.ledger)
  named : backlog.Pairwise (fun event later => event.id = later.id → event.id = none)

/-- What a listener still has to read of a backlog. -/
def unread (config : ListenerConfig) (backlog : List RawContractEvent) (l : ListenerState) :
    List RawContractEvent := rest backlog (buildRequest config l)

/-- The listener after a poll of a node with a backlog. -/
def pollBacklog (config : ListenerConfig) (backlog : List RawContractEvent) (latest : ℕ)
    (l : ListenerState) : ListenerState :=
  (processResponse config l ⟨(unread config backlog l).take config.limit, latest⟩).1

section backlog
variable {backlog : List RawContractEvent}

/-- In ledger order the events from a ledger on are the end of the list. -/
theorem filter_suffix (start : ℕ)
    (hordered : backlog.Pairwise (fun event later => event.ledger ≤ later.ledger)) :
    backlog.filter (fun event => start ≤ event.ledger) <:+ backlog := by
  induction backlog with
  | nil => exact List.suffix_rfl
  | cons event backlog ih =>
      obtain ⟨hfirst, hrest⟩ := List.pairwise_cons.mp hordered
      by_cases hstart : start ≤ event.ledger
      · have hall : (event :: backlog).filter (fun event => start ≤ event.ledger) =
            event :: backlog := by
          refine List.filter_eq_self.mpr fun other hother => decide_eq_true ?_
          rcases List.mem_cons.mp hother with rfl | hother
          · exact hstart
          · exact hstart.trans (hfirst other hother)
        exact ⟨[], hall⟩
      · rw [List.filter_cons_of_neg (by simpa using hstart)]
        exact (ih hrest).trans (List.suffix_cons event backlog)

theorem rest_suffix (h : Backlog backlog) (request : GetEventsRequest) :
    rest backlog request <:+ backlog := by
  unfold rest
  split
  · exact (List.tail_suffix _).trans (List.dropWhile_suffix _)
  · exact filter_suffix _ h.ordered
  · exact List.nil_suffix

/-- The page a node returns to a listener is in ledger order and not before its ledger. -/
theorem fullPage_take (h : Backlog backlog)
    (hfull : config.limit ≤ (unread config backlog l).length) :
    FullPage config l ((unread config backlog l).take config.limit) where
  full := by rw [List.length_take, min_eq_left hfull]
  ordered := (h.ordered.sublist (rest_suffix h _).sublist).sublist (List.take_sublist _ _)
  from_cursor := by
    intro hnone event hevent
    have hmem := List.mem_of_mem_take hevent
    simp only [unread, rest, buildRequest, hnone, if_true] at hmem
    simpa using List.of_mem_filter hmem

/-- After a token there is less left than before, if the token is that of an event that was left. -/
theorem following_shorter (h : Backlog backlog) {before left : List RawContractEvent}
    (hsplit : before ++ left = backlog) {event : RawContractEvent} (hevent : event ∈ left)
    {token : String} (hname : event.id = some token) :
    (following RawContractEvent.id (some token) backlog).length < left.length := by
  obtain ⟨skipped, others, hothers⟩ := List.append_of_mem hevent
  have hwhole : backlog = (before ++ skipped) ++ event :: others := by
    rw [← hsplit, hothers, List.append_assoc]
  -- no earlier event has the id of the token
  have hfresh : event.id ∉ (before ++ skipped).map RawContractEvent.id := by
    intro hdouble
    obtain ⟨earlier, hearlier, hsame⟩ := List.mem_map.mp hdouble
    have hnamed := hwhole ▸ h.named
    have hnone := (List.pairwise_append.mp hnamed).2.2 earlier hearlier event
      List.mem_cons_self hsame
    rw [hsame, hname] at hnone
    cases hnone
  rw [hwhole, ← hname, following_append hfresh, hothers]
  simp
  omega

/-- From a ledger behind the first event that was left there is less left than before. -/
theorem from_ledger_shorter (h : Backlog backlog) {before others : List RawContractEvent}
    {first : RawContractEvent} (hsplit : before ++ first :: others = backlog) {start : ℕ}
    (hbehind : first.ledger < start) :
    (backlog.filter fun event => start ≤ event.ledger).length < (first :: others).length := by
  have hcross := (List.pairwise_append.mp (hsplit ▸ h.ordered)).2.2
  have hnone : before.filter (fun event => start ≤ event.ledger) = [] := by
    refine List.filter_eq_nil_iff.mpr fun event hevent => ?_
    have hle := hcross event hevent first List.mem_cons_self
    simp
    omega
  rw [← hsplit, List.filter_append, hnone, List.nil_append,
    List.filter_cons_of_neg (by simp; omega)]
  exact (List.length_filter_le _ _).trans_lt (by simp)

/-- With every full page that the listener moves past, less is left. -/
theorem rest_shrinks (hlimit : 1 ≤ config.limit) (h : Backlog backlog) (latest : ℕ)
    (hfull : config.limit ≤ (unread config backlog l).length)
    (hmoves : MovesOn config l ((unread config backlog l).take config.limit)) :
    (unread config backlog (pollBacklog config backlog latest l)).length <
      (unread config backlog l).length := by
  have hpage := fullPage_take h hfull
  have hpast := (past_iff_movesOn hlimit hpage latest).mpr hmoves
  obtain ⟨first, hfirst, -⟩ := hpage.first hlimit
  obtain ⟨before, hsplit⟩ := rest_suffix h (buildRequest config l)
  rw [← pollBacklog] at hpast
  rw [← unread] at hsplit
  unfold PastFirst at hpast
  rw [unread, rest]
  cases hcursor : (buildRequest config (pollBacklog config backlog latest l)).cursor with
  | some token =>
      rw [hcursor] at hpast
      obtain ⟨event, hevent, hname⟩ := hpast
      exact following_shorter h hsplit (List.mem_of_mem_take hevent) hname
  | none =>
      rw [hcursor] at hpast
      obtain ⟨start, hstart, hbehind⟩ := hpast
      have hlower := hbehind first hfirst
      rw [List.head?_take, if_neg (by omega)] at hfirst
      obtain ⟨others, hothers⟩ := List.head?_eq_some_iff.mp hfirst
      rw [hothers] at hsplit ⊢
      rw [hstart]
      exact from_ledger_shorter h hsplit hlower

/-- While the full pages let the listener move on, a backlog of `n` events is drained after at most
`n` polls: the page of the next poll is not full. -/
theorem backlog_drained (hlimit : 1 ≤ config.limit) (h : Backlog backlog) (latest : ℕ)
    (hmoves : ∀ l, config.limit ≤ (unread config backlog l).length →
      MovesOn config l ((unread config backlog l).take config.limit)) :
    ∀ (n : ℕ) (l : ListenerState), (unread config backlog l).length ≤ n →
      ∃ polls ≤ n, (unread config backlog
        ((pollBacklog config backlog latest)^[polls] l)).length < config.limit := by
  intro n
  induction n with
  | zero => exact fun l hle => ⟨0, le_rfl, by simpa using hle.trans_lt hlimit⟩
  | succ n ih =>
      intro l hle
      by_cases hfull : config.limit ≤ (unread config backlog l).length
      · have hless := rest_shrinks hlimit h latest hfull (hmoves l hfull)
        obtain ⟨polls, hpolls, hdrained⟩ := ih (pollBacklog config backlog latest l) (by omega)
        exact ⟨polls + 1, by omega, by rwa [Function.iterate_succ_apply]⟩
      · exact ⟨0, by omega, by simpa using hfull⟩

end backlog

/-- A listener for contract `C`, one event a page. -/
def narrowConfig : ListenerConfig where
  contractAddresses := some ["C"]
  startLedger := 1
  pageSize := some 1
  rpcFilter := none
  store := false
  autoRestore := none
  persistOnPoll := none
  checkpointMetadata := none

/-- A page with an event of another contract is left behind by its id. -/
theorem full_page_moves_iff_named : PastFirst [⟨"D", 5, some "e1"⟩]
    (buildRequest narrowConfig
      (processResponse narrowConfig ⟨5, none, false⟩ ⟨[⟨"D", 5, some "e1"⟩], 9⟩).1) :=
  (full_page_moves_iff (by decide) ⟨rfl, List.pairwise_singleton _ _, by simp⟩ 9).mpr
    (.inl (by decide))

/-- Without an id the same page is requested again. -/
theorem page_requested_again :
    buildRequest narrowConfig
        (processResponse narrowConfig ⟨5, none, false⟩ ⟨[⟨"D", 5, none⟩], 9⟩).1 =
      buildRequest narrowConfig ⟨5, none, false⟩ ∧
    ¬ PastFirst [⟨"D", 5, none⟩] (buildRequest narrowConfig
      (processResponse narrowConfig ⟨5, none, false⟩ ⟨[⟨"D", 5, none⟩], 9⟩).1) := by
  have hsame : buildRequest narrowConfig
      (processResponse narrowConfig ⟨5, none, false⟩ ⟨[⟨"D", 5, none⟩], 9⟩).1 =
      buildRequest narrowConfig ⟨5, none, false⟩ := by decide +kernel
  refine ⟨hsame, ?_⟩
  rw [hsame]
  rintro ⟨start, hstart, hbehind⟩
  obtain rfl : 5 = start := Option.some.inj hstart
  exact absurd (hbehind _ rfl) (lt_irrefl 5)

end YieldEngine.Listener
