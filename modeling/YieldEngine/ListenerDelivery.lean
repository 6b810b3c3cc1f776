import YieldEngine.ListenerRuns

/-! # Exactly-once delivery

`Fits` says that a pair of a ledger and a paging token resumes exactly after what was
delivered.  The listener in memory and the checkpoint in the store both fit, at every moment a
restart can happen (`Tracks`): a page that was not full moves the ledger behind it, a full one
leaves the token of its last event, and the checkpoint carries the two over.

The token is carried in the operator's own metadata record.  A string the operator keeps under
its key is taken for a token once there is none to overwrite it, so the events are delivered
once and in order in every run of a configuration that keeps no string there
(`delivers_once`). -/

namespace YieldEngine.Listener

open Keeper PagedLog

/-- The position of a reader with the two cursors. -/
def position (cursor : ℕ) (pagingCursor : Option String) : Position (Option String) :=
  match pagingCursor with
  | some token => .after (some token)
  | none => .slot cursor

/-- The cursors resume exactly after what was delivered. -/
structure Fits (config : ListenerConfig) (chain : Chain) (latest : ℕ)
    (delivered : List RawContractEvent) (cursor : ℕ) (pagingCursor : Option String) : Prop where
  resumes : Resumes chain.log config.startLedger delivered (position cursor pagingCursor)
  start_le : config.startLedger ≤ cursor
  cursor_le : pagingCursor ≠ none → cursor ≤ latest + 1

/-- The listener polls with its durable state on, without an allow-list, and keeps no string
under the reserved metadata key. -/
structure Regular (config : ListenerConfig) : Prop where
  store : config.store = true
  restores : config.autoRestore ≠ some false
  persists : config.persistOnPoll ≠ some false
  no_allow_list : config.contractAddresses.getD [] = []
  page_pos : 1 ≤ config.limit
  no_reserved_key : config.checkpointMetadata.bind (fun m => m.stringAt eventCursorKey) = none

variable {config : ListenerConfig} {chain : Chain} {latest latest' : ℕ}
  {delivered : List RawContractEvent} {cursor : ℕ} {pagingCursor : Option String}

theorem Fits.mono (h : Fits config chain latest delivered cursor pagingCursor)
    (hle : latest ≤ latest') : Fits config chain latest' delivered cursor pagingCursor :=
  ⟨h.resumes, h.start_le, fun hne => (h.cursor_le hne).trans (by omega)⟩

/-- A new listener fits an empty history. -/
theorem fits_new (config : ListenerConfig) (chain : Chain) (latest : ℕ) :
    Fits config chain latest [] config.startLedger none :=
  ⟨⟨le_rfl, by simp⟩, le_rfl, fun h => absurd rfl h⟩

/-! ### The checkpoint carries the position -/

theorem storedCursor_persisted (hregular : Regular config) (l : ListenerState) (now : ℕ) :
    storedCursor (persistedCheckpoint config l now) = l.pagingCursor := by
  unfold storedCursor persistedCheckpoint createCheckpoint
  cases hpaging : l.pagingCursor with
  | none => exact hregular.no_reserved_key
  | some token => simp [Metadata.stringAt]

/-- Restoring a checkpoint that fits gives a listener that fits. -/
theorem fits_restore (hregular : Regular config) {checkpoint : KeeperCheckpoint}
    {l : ListenerState} (h : Fits config chain latest delivered checkpoint.nextLedger
      (storedCursor checkpoint)) :
    Fits config chain latest delivered (restore config (some checkpoint) l).cursor
      (restore config (some checkpoint) l).pagingCursor := by
  simp only [restore, hregular.store, if_true, if_pos h.start_le, max_eq_right h.start_le]
  exact h

/-! ### A page continues the delivery -/

/-- Without an allow-list every event passes and no contract filter is sent. -/
theorem allowedAddresses_nil (hregular : Regular config) : config.allowedAddresses = [] := by
  simp [ListenerConfig.allowedAddresses, hregular.no_allow_list]

theorem filter_isAllowed (hregular : Regular config) (events : List RawContractEvent) :
    events.filter (fun event => isAllowed config event.contractId) = events := by
  simp [isAllowed, allowedAddresses_nil hregular]

/-- The answer is the first events of what remains on the chain. -/
theorem rpcAnswer_eq (hregular : Regular config) {l : ListenerState} {response : GetEventsResponse}
    (h : rpcAnswer chain latest (buildRequest config l) = some response) :
    response.latestLedger = latest ∧ response.events =
      (remaining chain.log (latest + 1) (position l.cursor l.pagingCursor)).take config.limit := by
  have hmatch : ∀ event, matchesFilters (buildRequest config l).filters event = true := by
    intro event
    simp [matchesFilters, buildRequest, allowedAddresses_nil hregular]
  unfold rpcAnswer at h
  simp only [List.filter_eq_self.mpr (fun event _ => hmatch event)] at h
  cases hpaging : l.pagingCursor with
  | none =>
      simp only [buildRequest, hpaging, if_true, Option.some.injEq] at h
      subst h
      exact ⟨rfl, rfl⟩
  | some token =>
      simp only [buildRequest, hpaging] at h
      split_ifs at h
      obtain rfl := Option.some.inj h
      exact ⟨rfl, rfl⟩

theorem highestLedger_le {events : List RawContractEvent} :
    ∀ {highest : ℤ}, highest ≤ latest → (∀ event ∈ events, event.ledger ≤ latest) →
      events.foldl keepHighest highest ≤ latest := by
  induction events with
  | nil =>
      intro highest hle _
      exact hle
  | cons event events ih =>
      intro highest hle hevents
      have hevent := hevents event List.mem_cons_self
      refine ih ?_ (fun e he => hevents e (List.mem_cons_of_mem _ he))
      unfold keepHighest
      split_ifs <;> omega

/-- A page that was not full moves the ledger behind the latest one. -/
theorem advance_drained {l : ListenerState} {events : List RawContractEvent} {highest : ℤ}
    (hshort : events.length < config.limit) (hle : highest ≤ latest) :
    (advanceCursor config l events highest latest).pagingCursor = none ∧
      (advanceCursor config l events highest latest).cursor = max l.cursor (latest + 1) := by
  have hmax : max highest (latest : ℤ) = latest := Int.max_eq_right hle
  simp only [advanceCursor, hshort, if_true, hmax, true_and]
  split_ifs <;> omega

/-- A full page leaves the token of its last event. -/
theorem advance_full {l : ListenerState} {events : List RawContractEvent} {highest : ℤ}
    {event : RawContractEvent} {id : String}
    (hfull : ¬ (events ++ [event]).length < config.limit) (hid : event.id = some id)
    (hne : id ≠ "") (hle : highest ≤ latest) :
    (advanceCursor config l (events ++ [event]) highest latest).pagingCursor = some id ∧
      l.cursor ≤ (advanceCursor config l (events ++ [event]) highest latest).cursor ∧
      (advanceCursor config l (events ++ [event]) highest latest).cursor ≤
        max l.cursor (latest + 1) := by
  have htoken : pagingToken event = some id := by simp [pagingToken, hid, hne]
  simp only [advanceCursor, hfull, if_false, List.getLast?_append, List.getLast?_singleton,
    Option.some_or, Option.bind_some, htoken, true_and]
  constructor <;> split_ifs <;> omega

theorem drainedTo_position {bound : ℕ} (h : pagingCursor ≠ none → cursor ≤ bound) :
    drainedTo bound (position cursor pagingCursor) = max cursor bound := by
  cases pagingCursor with
  | none => rfl
  | some token => exact (max_eq_right (h (by simp))).symm

section page
variable {l : ListenerState} {page : List RawContractEvent}

/-- After a page with all that remained, the ledger resumes behind the latest one. -/
theorem fits_drained (hfits : Fits config chain latest delivered l.cursor l.pagingCursor)
    (hbound : ∀ event ∈ delivered, chain.log.slot event < latest' + 1) (hle : latest ≤ latest')
    (hpage : page = remaining chain.log (latest' + 1) (position l.cursor l.pagingCursor))
    (hshort : page.length < config.limit) (hhighest : highestLedger page ≤ latest') :
    Fits config chain latest' (delivered ++ page)
        (advanceCursor config l page (highestLedger page) latest').cursor
        (advanceCursor config l page (highestLedger page) latest').pagingCursor ∧
      between chain.events config.startLedger (latest' + 1) <+: delivered ++ page := by
  obtain ⟨hnone, hnext⟩ := advance_drained (l := l) hshort hhighest
  have hcursor : l.pagingCursor ≠ none → l.cursor ≤ latest' + 1 :=
    fun hne => (hfits.cursor_le hne).trans (by omega)
  have hto := drainedTo_position hcursor
  have hdrain := hfits.resumes.drain hbound
  rw [← hpage, hto] at hdrain
  rw [hnone, hnext]
  refine ⟨⟨hdrain, hdrain.1, fun h => absurd rfl h⟩, ?_⟩
  rw [hdrain.2]
  exact between_prefix chain.events (le_max_right _ _)

/-- After a page that was cut off, the token resumes after its last event. -/
theorem fits_full (hfits : Fits config chain latest delivered l.cursor l.pagingCursor)
    (hbound : ∀ event ∈ delivered, chain.log.slot event < latest' + 1) (hle : latest ≤ latest')
    (hlimit : 1 ≤ config.limit)
    (hpage : page <+: remaining chain.log (latest' + 1) (position l.cursor l.pagingCursor))
    (hfull : ¬ page.length < config.limit) (hhighest : highestLedger page ≤ latest') :
    Fits config chain latest' (delivered ++ page)
      (advanceCursor config l page (highestLedger page) latest').cursor
      (advanceCursor config l page (highestLedger page) latest').pagingCursor := by
  rcases List.eq_nil_or_concat page with rfl | ⟨init, event, rfl⟩
  · exact absurd hlimit (by simpa using hfull)
  · rw [List.concat_eq_append] at *
    have hlast : event ∈ init ++ [event] := by simp
    obtain ⟨n, hn, hmem⟩ := mem_remaining (hpage.subset hlast)
    obtain ⟨id, hid, hne⟩ := chain.id_ne n event hmem
    obtain ⟨htoken, hlo, hhi⟩ := advance_full (l := l) hfull hid hne hhighest
    have hcut := hfits.resumes.cut hbound hpage
    have hname : chain.log.name event = some id := hid
    rw [hname] at hcut
    rw [htoken]
    refine ⟨hcut, hfits.start_le.trans hlo, fun _ => hhi.trans (max_le ?_ le_rfl)⟩
    -- a page from a ledger on has no event before it
    cases hpaging : l.pagingCursor with
    | some token => exact (hfits.cursor_le (by simp [hpaging])).trans (by omega)
    | none =>
        rw [hpaging] at hpage
        obtain ⟨k, hk, hk', -⟩ := (mem_between chain.events).mp (hpage.subset hlast)
        omega

/-- Processing a page continues the delivery: the cursors fit what is delivered then, nothing
beyond the latest ledger is, and everything up to it is when the page was not full. -/
theorem fits_processResponse (hregular : Regular config) {response : GetEventsResponse}
    (hfits : Fits config chain latest delivered l.cursor l.pagingCursor)
    (hseen : ∀ event ∈ delivered, event.ledger ≤ latest) (hle : latest ≤ latest')
    (hanswer : rpcAnswer chain latest' (buildRequest config l) = some response) :
    Fits config chain latest' (delivered ++ (processResponse config l response).2)
        (processResponse config l response).1.cursor
        (processResponse config l response).1.pagingCursor ∧
      (∀ event ∈ delivered ++ (processResponse config l response).2, event.ledger ≤ latest') ∧
      (response.events.length < config.limit →
        between chain.events config.startLedger (latest' + 1) <+:
          delivered ++ (processResponse config l response).2) := by
  obtain ⟨hlatest, hpage⟩ := rpcAnswer_eq hregular hanswer
  have hbound : ∀ event ∈ delivered, chain.log.slot event < latest' + 1 := by
    intro event hevent
    exact Nat.lt_succ_of_le ((hseen event hevent).trans hle)
  have hcut : response.events <+:
      remaining chain.log (latest' + 1) (position l.cursor l.pagingCursor) := by
    rw [hpage]
    exact List.take_prefix _ _
  have hpage_le : ∀ event ∈ response.events, event.ledger ≤ latest' := by
    intro event hevent
    obtain ⟨n, hn, hmem⟩ := mem_remaining (hcut.subset hevent)
    rw [chain.ledger_eq n event hmem]
    omega
  have hhighest : highestLedger response.events ≤ latest' :=
    highestLedger_le (by omega) hpage_le
  have hseen' : ∀ event ∈ delivered ++ response.events, event.ledger ≤ latest' := by
    intro event hevent
    rcases List.mem_append.mp hevent with hevent | hevent
    · exact (hseen event hevent).trans hle
    · exact hpage_le event hevent
  simp only [processResponse, filter_isAllowed hregular, hlatest]
  by_cases hshort : response.events.length < config.limit
  · have hall : response.events =
        remaining chain.log (latest' + 1) (position l.cursor l.pagingCursor) := by
      rw [hpage, List.length_take] at hshort
      rw [hpage, List.take_of_length_le (by omega)]
    obtain ⟨hnext, hcaught⟩ := fits_drained hfits hbound hle hall hshort hhighest
    exact ⟨hnext, hseen', fun _ => hcaught⟩
  · have hnext := fits_full hfits hbound hle hregular.page_pos hcut hshort hhighest
    exact ⟨hnext, hseen', fun h => absurd h hshort⟩

end page

/-! ### Every run -/

/-- The checkpoint a restart will find: the stored one, or the one being stored. -/
def World.durable (w : World) : Option KeeperCheckpoint :=
  match w.phase with
  | .saving checkpoint => some checkpoint
  | _ => w.store

/-- The durable checkpoint fits; without one nothing was delivered. -/
def DurableFits (config : ListenerConfig) (chain : Chain) (latest : ℕ)
    (delivered : List RawContractEvent) : Option KeeperCheckpoint → Prop
  | some checkpoint =>
      Fits config chain latest delivered checkpoint.nextLedger (storedCursor checkpoint)
  | none => delivered = []

/-- Whatever the listener resumes from fits what was delivered: its own cursors once it has
restored, and the durable checkpoint always. -/
structure Tracks (config : ListenerConfig) (chain : Chain) (w : World) : Prop where
  seen : ∀ event ∈ w.delivered, event.ledger ≤ w.latestLedger
  unrestored : w.listener.restoreAttempted = false → w.listener = newListener config
  active : w.listener.restoreAttempted = true →
    Fits config chain w.latestLedger w.delivered w.listener.cursor w.listener.pagingCursor
  durable : DurableFits config chain w.latestLedger w.delivered w.durable
  fetching : ∀ request, w.phase = .fetching request →
    w.listener.restoreAttempted = true ∧ request = buildRequest config w.listener
  caught_up : ∀ latest ∈ w.drained,
    between chain.events config.startLedger (latest + 1) <+: w.delivered

theorem tracks_initial (config : ListenerConfig) (chain : Chain) :
    Tracks config chain (initialWorld config) where
  seen := by simp [initialWorld]
  unrestored := fun _ => rfl
  active := by simp [initialWorld, newListener]
  durable := rfl
  fetching := by simp [initialWorld]
  caught_up := by simp [initialWorld]

theorem Tracks.delivers {w : World} (h : Tracks config chain w) : DeliversOnce config chain w where
  in_order := by
    have hdurable := h.durable
    cases hcase : w.durable with
    | some checkpoint =>
        rw [hcase] at hdurable
        exact hdurable.resumes.isPrefix
    | none =>
        rw [hcase] at hdurable
        exact ⟨0, hdurable ▸ List.nil_prefix⟩
  caught_up := h.caught_up

/-- After the restore of its first poll a listener fits. -/
theorem fits_restoreIfNeeded (hregular : Regular config) {w : World}
    (h : Tracks config chain w) (hidle : w.phase = .idle) :
    (restoreIfNeeded config w.store w.listener).restoreAttempted = true ∧
      Fits config chain w.latestLedger w.delivered
        (restoreIfNeeded config w.store w.listener).cursor
        (restoreIfNeeded config w.store w.listener).pagingCursor := by
  cases hattempted : w.listener.restoreAttempted with
  | true =>
      have hskip : restoreIfNeeded config w.store w.listener = w.listener := by
        simp [restoreIfNeeded, hattempted]
      rw [hskip]
      exact ⟨hattempted, h.active hattempted⟩
  | false =>
      have hrestore : restoreIfNeeded config w.store w.listener =
          restore config w.store (newListener config) := by
        rw [h.unrestored hattempted]
        simp [restoreIfNeeded, hregular.store, hregular.restores, newListener]
      have hdurable := h.durable
      rw [hrestore]
      rw [World.durable, hidle] at hdurable
      cases hstore : w.store with
      | none =>
          rw [hstore] at hdurable
          simp only [DurableFits] at hdurable
          rw [hdurable]
          simp only [restore, hregular.store, if_true]
          exact ⟨trivial, fits_new config chain w.latestLedger⟩
      | some checkpoint =>
          rw [hstore] at hdurable
          exact ⟨by simp [restore, hregular.store], fits_restore hregular hdurable⟩

/-- Every step keeps track of the position. -/
theorem tracks_step (hregular : Regular config) {w w' : World} (h : Tracks config chain w)
    (hstep : Steps config chain w w') : Tracks config chain w' := by
  have hdurable := h.durable
  cases hstep with
  | call => exact ⟨h.seen, h.unrestored, h.active, hdurable, h.fetching, h.caught_up⟩
  | start hidle =>
      obtain ⟨hattempted, hfits⟩ := fits_restoreIfNeeded hregular h hidle
      rw [World.durable, hidle] at hdurable
      refine ⟨h.seen, fun hnot => ?_, fun _ => hfits, hdurable, ?_, h.caught_up⟩
      · exact absurd (hattempted.symm.trans hnot) (by simp)
      · intro request hrequest
        exact ⟨hattempted, (Phase.fetching.inj hrequest).symm⟩
  | fail hfetching =>
      rw [World.durable, hfetching] at hdurable
      exact ⟨h.seen, h.unrestored, h.active, hdurable, by simp [World.finish], h.caught_up⟩
  | @answer request response latest now hfetching hle hanswer =>
      obtain ⟨hattempted, rfl⟩ := h.fetching request hfetching
      obtain ⟨hfits, hseen, hcaught⟩ :=
        fits_processResponse hregular (h.active hattempted) h.seen hle hanswer
      obtain ⟨hlatest, -⟩ := rpcAnswer_eq hregular hanswer
      have hpersists : config.persists = true := by
        simp [ListenerConfig.persists, hregular.store, hregular.persists]
      simp only [World.receive, hpersists, if_true, hlatest]
      refine ⟨hseen, fun hnot => ?_, fun _ => hfits, ?_, by simp, ?_⟩
      · exact absurd (hattempted.symm.trans hnot) (by simp)
      · simp only [World.durable, DurableFits, storedCursor_persisted hregular]
        exact hfits
      · intro l hl
        split_ifs at hl with hshort
        · rcases List.mem_cons.mp hl with rfl | hl
          · exact hcaught hshort
          · exact (h.caught_up l hl).trans (List.prefix_append _ _)
        · exact (h.caught_up l hl).trans (List.prefix_append _ _)
  | saved hsaving =>
      rw [World.durable, hsaving] at hdurable
      exact ⟨h.seen, h.unrestored, h.active, hdurable, by simp [World.finish], h.caught_up⟩
  | restart hidle =>
      rw [World.durable, hidle] at hdurable
      refine ⟨h.seen, fun _ => rfl, ?_, hdurable, by simp, h.caught_up⟩
      intro hattempted
      cases hattempted

/-- In every run of a regular configuration every event is delivered once, and in order. -/
theorem delivers_once (hregular : Regular config) (chain : Chain) (actions : List Action) :
    DeliversOnce config chain (Transact.run (step config chain) (initialWorld config) actions) := by
  have htracks : Tracks config chain
      (Transact.run (step config chain) (initialWorld config) actions) :=
    Transact.run_invariant (fun w _ w' hw hstep => tracks_step hregular hw (step_steps hstep))
      actions (tracks_initial config chain)
  exact htracks.delivers

/-! ### Two events in one ledger -/

/-- The events of ledger `1`. -/
def firstEvents : List RawContractEvent := [⟨"C", 1, some "e1"⟩, ⟨"C", 1, some "e2"⟩]

theorem between_firstEvents (bound : ℕ) :
    between (fun n => if n = 1 then firstEvents else []) 0 bound =
      if 1 < bound then firstEvents else [] := by
  induction bound with
  | zero => rfl
  | succ bound ih =>
      rw [← between_append _ (Nat.zero_le bound) (Nat.le_succ bound), ih]
      rcases lt_trichotomy bound 1 with h | rfl | h
      · obtain rfl : bound = 0 := by omega
        rfl
      · rfl
      · have hlast :
            between (fun n => if n = 1 then firstEvents else []) bound (bound + 1) = [] := by
          simp [between, show bound ≠ 1 by omega]
        rw [hlast, if_pos h, if_pos (by omega), List.append_nil]

/-- A chain with two events in ledger `1` and none elsewhere. -/
def shortChain : Chain where
  events n := if n = 1 then firstEvents else []
  ledger_eq := by
    intro n event h
    by_cases hn : n = 1
    · subst hn
      have hall : ∀ event ∈ firstEvents, event.ledger = 1 := by decide
      exact hall event h
    · simp [hn] at h
  id_ne := by
    intro n event h
    by_cases hn : n = 1
    · subst hn
      rcases List.mem_cons.mp h with rfl | h
      · exact ⟨"e1", rfl, by decide⟩
      · obtain rfl := List.mem_singleton.mp h
        exact ⟨"e2", rfl, by decide⟩
    · simp [hn] at h
  id_unique := by
    intro bound
    rw [between_firstEvents]
    split_ifs <;> decide

/-- A listener of the chain from ledger `1` on with the given metadata. -/
def shortConfig (metadata : Option Metadata) : ListenerConfig where
  contractAddresses := none
  startLedger := 1
  pageSize := some 5
  rpcFilter := none
  store := true
  autoRestore := none
  persistOnPoll := none
  checkpointMetadata := metadata

/-- A poll, a restart of the process, and another poll. -/
def pollTwice : List Action :=
  [.call, .start, .answer 1 10, .saved, .restart, .call, .start, .answer 1 20]

theorem delivers_once_pollTwice : DeliversOnce (shortConfig none) shortChain
    (Transact.run (step (shortConfig none) shortChain) (initialWorld (shortConfig none))
      pollTwice) :=
  delivers_once ⟨rfl, by decide, by decide, rfl, by decide, rfl⟩ shortChain pollTwice

/-- The operator keeps the text `e1` under the key of the paging token. -/
def keyedConfig : ListenerConfig :=
  shortConfig (some (Metadata.empty.set eventCursorKey (.string "e1")))

/-- The second process takes the operator's text for a token and delivers `e2` again. -/
theorem delivered_twice : ¬ DeliversOnce keyedConfig shortChain
    (Transact.run (step keyedConfig shortChain) (initialWorld keyedConfig) pollTwice) := by
  intro h
  exact absurd h.nodup (by decide)

end YieldEngine.Listener
