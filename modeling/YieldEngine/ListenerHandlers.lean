import YieldEngine.Dispatch
import YieldEngine.ListenerAllowList

/-! # Handlers that throw

The handlers of a listener are plain callbacks.  A page is dispatched event by event, first to the
raw handlers and then to the handlers of the event's name, and nothing catches what one of them
throws before `runPoll` does: the rest of the page is dropped, the position stays where it was, and
nothing is saved (`HandlerWorld.receive`).

Without a throw the runs are those of the listener alone, and every handler receives the events
that are meant for it.  `handlers_isolated_iff` says that nothing less will do: a poll on which
any handler throws does not move past its page. -/

namespace YieldEngine.Listener

open Keeper PagedLog Transact Dispatch

/-! ### Handlers -/

inductive KnownEventName where
  | deposit
  | withdraw
  | harvest
  | pause
  | unpause
  | proposal
  | execution
  | failure
  | distribution
  | claim
  | expiry
deriving DecidableEq, Repr

def KnownEventName.text : KnownEventName → String
  | deposit => "deposit"
  | withdraw => "withdraw"
  | harvest => "harvest"
  | pause => "pause"
  | unpause => "unpause"
  | proposal => "proposal"
  | execution => "execution"
  | failure => "failure"
  | distribution => "distribution"
  | claim => "claim"
  | expiry => "expiry"

def knownEventNames : List KnownEventName :=
  [.deposit, .withdraw, .harvest, .pause, .unpause, .proposal, .execution, .failure,
    .distribution, .claim, .expiry]

/-- An element of a topic, as far as the listener looks at it. -/
inductive TopicValue where
  | string (text : String)
  | other
deriving DecidableEq, Repr

/-- `extractEventName`, of a topic that is an array or not. -/
def extractEventName : Option (List TopicValue) → Option KnownEventName
  | some (.string first :: _) => knownEventNames.find? (fun name => name.text = first)
  | _ => none

/-- Every known name is recognised by its text. -/
theorem extractEventName_text (name : KnownEventName) (rest : List TopicValue) :
    extractEventName (some (.string name.text :: rest)) = some name := by
  cases name <;> rfl

/-- A handler in one of the sets it was registered in. -/
inductive Registration (H : Type) where
  | raw (handler : H)
  | typed (name : KnownEventName) (handler : H)
deriving DecidableEq

/-- The registered handlers, each set in registration order. -/
structure Handlers (H : Type) where
  raw : List H
  typed : KnownEventName → List H
  raw_nodup : raw.Nodup
  typed_nodup : ∀ name, (typed name).Nodup

/-- The handlers with what they are called on: the topic of an event, which is its own like its
id, and whether a handler throws on an event at the given page. -/
structure Consumers (H : Type) extends Handlers H where
  topic : RawContractEvent → Option (List TopicValue)
  throws : ℕ → Registration H → RawContractEvent → Bool

section handlers
variable {H : Type}

def Handlers.Registered (handlers : Handlers H) : Registration H → Prop
  | .raw handler => handler ∈ handlers.raw
  | .typed name handler => handler ∈ handlers.typed name

/-- The handlers called for an event, raw ones first. -/
def Consumers.calls (c : Consumers H) (event : RawContractEvent) : List (Registration H) :=
  c.raw.map .raw ++
    match extractEventName (c.topic event) with
    | some name => (c.typed name).map (.typed name)
    | none => []

/-- The events meant for a handler. -/
def Consumers.meant (c : Consumers H) : Registration H → RawContractEvent → Bool
  | .raw _, _ => true
  | .typed name _, event => extractEventName (c.topic event) = some name

theorem Consumers.calls_nodup (c : Consumers H) (event : RawContractEvent) :
    (c.calls event).Nodup := by
  unfold Consumers.calls
  refine List.nodup_append.mpr ⟨c.raw_nodup.map fun _ _ h => Registration.raw.inj h, ?_, ?_⟩
  · cases extractEventName (c.topic event) with
    | none => exact List.nodup_nil
    | some name => exact (c.typed_nodup name).map fun _ _ h => (Registration.typed.inj h).2
  · intro r hr r' hr'
    obtain ⟨handler, -, rfl⟩ := List.mem_map.mp hr
    cases hname : extractEventName (c.topic event) with
    | none => simp [hname] at hr'
    | some name =>
        rw [hname] at hr'
        obtain ⟨handler', -, rfl⟩ := List.mem_map.mp hr'
        exact fun h => by cases h

/-- A registered handler is called for the events meant for it. -/
theorem Consumers.mem_calls_iff (c : Consumers H) {r : Registration H}
    (hr : c.toHandlers.Registered r) (event : RawContractEvent) :
    r ∈ c.calls event ↔ c.meant r event = true := by
  unfold Consumers.calls Consumers.meant
  cases r with
  | raw handler =>
      have hmem : handler ∈ c.raw := hr
      simp [hmem]
  | typed name handler =>
      have hmem : handler ∈ c.typed name := hr
      cases hname : extractEventName (c.topic event) with
      | none => simp [hname]
      | some name' =>
          simp only [hname, List.mem_append, List.mem_map, reduceCtorEq, and_false, exists_false,
            false_or, Registration.typed.injEq, decide_eq_true_eq, Option.some.injEq]
          constructor
          · rintro ⟨handler', -, rfl, rfl⟩
            rfl
          · rintro rfl
            exact ⟨handler, hmem, rfl, rfl⟩

/-! ### Polling -/

/-- The world of a listener with what its handlers were called with, and the pages so far. -/
structure HandlerWorld (H : Type) where
  base : World
  received : List (Registration H × RawContractEvent)
  pages : ℕ

/-- The world after a page that a handler threw on. -/
def World.abort (config : ListenerConfig) (w : World) (response : GetEventsResponse) : World :=
  { w with
    latestLedger := response.latestLedger
    drained :=
      if response.events.length < config.limit then response.latestLedger :: w.drained
      else w.drained }.finish

/-- The events of a page that pass the address filter. -/
def passed (config : ListenerConfig) (response : GetEventsResponse) : List RawContractEvent :=
  response.events.filter (fun event => isAllowed config event.contractId)

def HandlerWorld.receive (config : ListenerConfig) (c : Consumers H) (w : HandlerWorld H)
    (response : GetEventsResponse) (now : ℕ) : HandlerWorld H :=
  let (called, threw) := page c.calls (c.throws w.pages) (passed config response)
  { base := if threw then w.base.abort config response else w.base.receive config response now
    received := w.received ++ called
    pages := w.pages + 1 }

/-- One step; every action but the answer to a request is that of the listener. -/
def handlerStep (config : ListenerConfig) (c : Consumers H) (chain : Chain)
    (w : HandlerWorld H) : Action → Except Unit (HandlerWorld H)
  | .answer latestLedger now =>
      match w.base.phase with
      | .fetching request =>
          if w.base.latestLedger ≤ latestLedger then
            match rpcAnswer chain latestLedger request with
            | some response => .ok (w.receive config c response now)
            | none => .error ()
          else .error ()
      | _ => .error ()
  | action => (fun base => { w with base := base }) <$> step config chain w.base action

def initialHandlers (config : ListenerConfig) : HandlerWorld H := ⟨initialWorld config, [], 0⟩

/-! ### What is asked of a run -/

/-- No handler throws on the page of the answer. -/
def Quiet (config : ListenerConfig) (c : Consumers H) (chain : Chain) (w : HandlerWorld H) :
    Action → Prop
  | .answer latest _ => ∀ request response, w.base.phase = .fetching request →
      w.base.latestLedger ≤ latest → rpcAnswer chain latest request = some response →
      ∀ event ∈ passed config response, ∀ r ∈ c.calls event, c.throws w.pages r event = false
  | _ => True

/-- The answer moves the position of the listener past its page. -/
def MovesPast (config : ListenerConfig) (c : Consumers H) (chain : Chain) (w : HandlerWorld H) :
    Action → Prop
  | .answer latest now => ∀ request response w', w.base.phase = .fetching request →
      rpcAnswer chain latest request = some response →
      handlerStep config c chain w (.answer latest now) = .ok w' →
      w'.base.listener = (processResponse config w.base.listener response).1
  | _ => True

/-- The handler has received the events meant for it among those the node selects, each once and in
order, and up to the head of the chain after a page that was not full. -/
structure DeliveredTo (config : ListenerConfig) (c : Consumers H) (chain : Chain) [DecidableEq H]
    (r : Registration H) (w : HandlerWorld H) : Prop where
  in_order : ∃ bound, receivedBy r w.received <+:
    (between (chain.select (requested config)).events config.startLedger bound).filter (c.meant r)
  caught_up : ∀ latest ∈ w.base.drained,
    (between (chain.select (requested config)).events config.startLedger (latest + 1)).filter
      (c.meant r) <+: receivedBy r w.received

end handlers

/-! ### A page moves the position -/

/-- A page with an event on it changes the position of the listener. -/
theorem processResponse_moves {config : ListenerConfig} {chain : Chain}
    (hregular : Regular config) {w : World} (h : Tracks config chain w)
    (hrestored : w.listener.restoreAttempted = true) {latest : ℕ} (hle : w.latestLedger ≤ latest)
    {response : GetEventsResponse}
    (hanswer : rpcAnswer chain latest (buildRequest config w.listener) = some response)
    (hne : response.events ≠ []) : (processResponse config w.listener response).1 ≠ w.listener := by
  intro hsame
  obtain ⟨hfits, -, -⟩ :=
    fits_processResponse hregular (h.active hrestored) h.seen hle hanswer
  rw [hsame] at hfits
  have hnone := (h.active hrestored).resumes.more_eq_nil hfits.resumes
  simp only [processResponse, filter_isAllowed hregular] at hnone
  exact hne hnone

/-! ### Runs -/

section runs
variable {H : Type} {config : ListenerConfig} {c : Consumers H} {chain : Chain}
  {w w' : HandlerWorld H}

/-- The listener is where it is without handlers, and the handlers were called for every event it
has delivered. -/
structure Undisturbed (config : ListenerConfig) (c : Consumers H) (chain : Chain)
    (w : HandlerWorld H) : Prop where
  tracked : ∃ w₀, Tracks (passAll config) (chain.select (requested config)) w₀ ∧
    w.base = mirror config w₀
  called : w.received = allCalls c.calls w.base.delivered

theorem undisturbed_initial (config : ListenerConfig) (c : Consumers H) (chain : Chain) :
    Undisturbed config c chain (initialHandlers config) :=
  ⟨⟨initialWorld (passAll config), tracks_initial _ _, rfl⟩, rfl⟩

theorem receive_delivered (config : ListenerConfig) (w : World) (response : GetEventsResponse)
    (now : ℕ) :
    (w.receive config response now).delivered = w.delivered ++ passed config response := by
  unfold World.receive
  dsimp only
  split_ifs <;> rfl

theorem receive_listener (config : ListenerConfig) (w : World) (response : GetEventsResponse)
    (now : ℕ) : (w.receive config response now).listener =
      (processResponse config w.listener response).1 := by
  unfold World.receive
  dsimp only
  split_ifs <;> rfl

/-- A returning answer has processed a page. -/
theorem answer_ok {latest now : ℕ}
    (h : handlerStep config c chain w (.answer latest now) = .ok w') :
    ∃ request response, w.base.phase = .fetching request ∧ w.base.latestLedger ≤ latest ∧
      rpcAnswer chain latest request = some response ∧ w' = w.receive config c response now ∧
      step config chain w.base (.answer latest now) = .ok (w.base.receive config response now) := by
  cases hphase : w.base.phase with
  | idle => simp [handlerStep, hphase] at h
  | saving checkpoint => simp [handlerStep, hphase] at h
  | fetching request =>
      simp only [handlerStep, hphase] at h
      split_ifs at h with hle
      cases hanswer : rpcAnswer chain latest request with
      | none =>
          rw [hanswer] at h
          cases h
      | some response =>
          rw [hanswer] at h
          obtain rfl := Except.ok.inj h
          exact ⟨request, response, rfl, hle, hanswer, rfl, by simp [step, hphase, hle, hanswer]⟩

/-- Only an answer delivers anything. -/
theorem step_delivered {w w' : World} {action : Action}
    (hother : ∀ latest now, action ≠ .answer latest now) (h : step config chain w action = .ok w') :
    w'.delivered = w.delivered := by
  cases action with
  | answer latest now => exact absurd rfl (hother latest now)
  | call =>
      obtain rfl := Except.ok.inj h
      rfl
  | start =>
      cases hphase : w.phase <;> simp only [step, hphase] at h <;> try cases h
      split_ifs at h
      obtain rfl := Except.ok.inj h
      rfl
  | fail =>
      cases hphase : w.phase <;> simp only [step, hphase] at h <;> cases h
      rfl
  | saved =>
      cases hphase : w.phase <;> simp only [step, hphase] at h <;> cases h
      rfl
  | restart =>
      cases hphase : w.phase <;> simp only [step, hphase] at h <;> cases h
      rfl

/-- A step on which no handler throws is a step of the listener, and calls every handler for what
it delivers. -/
theorem handlerStep_quiet {action : Action} (hquiet : Quiet config c chain w action)
    (h : handlerStep config c chain w action = .ok w') :
    step config chain w.base action = .ok w'.base ∧ ∃ events,
      w'.base.delivered = w.base.delivered ++ events ∧
        w'.received = w.received ++ allCalls c.calls events := by
  by_cases hanswer : ∃ latest now, action = .answer latest now
  · obtain ⟨latest, now, rfl⟩ := hanswer
    obtain ⟨request, response, hphase, hle, hrpc, rfl, hstep⟩ := answer_ok h
    have hpage := page_of_quiet (hquiet request response hphase hle hrpc)
    simp only [HandlerWorld.receive, hpage, Bool.false_eq_true, if_false]
    exact ⟨hstep, passed config response, receive_delivered config w.base response now, rfl⟩
  · have hother : ∀ latest now, action ≠ .answer latest now :=
      fun latest now heq => hanswer ⟨latest, now, heq⟩
    have hlift : handlerStep config c chain w action =
        (fun base => { w with base := base }) <$> step config chain w.base action := by
      cases action with
      | answer latest now => exact absurd rfl (hother latest now)
      | _ => rfl
    rw [hlift] at h
    cases hstep : step config chain w.base action with
    | error fault =>
        rw [hstep] at h
        cases h
    | ok base =>
        rw [hstep] at h
        obtain rfl := Except.ok.inj h
        exact ⟨rfl, [], by rw [List.append_nil, step_delivered hother hstep], by simp [allCalls]⟩

theorem Undisturbed.step (hregular : Regular (passAll config)) {action : Action}
    (hw : Undisturbed config c chain w) (hquiet : Quiet config c chain w action)
    (h : handlerStep config c chain w action = .ok w') : Undisturbed config c chain w' := by
  obtain ⟨⟨w₀, htracks, hbase⟩, hcalled⟩ := hw
  obtain ⟨hstep, events, hdelivered, hreceived⟩ := handlerStep_quiet hquiet h
  refine ⟨?_, by rw [hreceived, hcalled, hdelivered, allCalls_append]⟩
  rw [hbase, step_mirror action htracks] at hstep
  cases hstep₀ : Listener.step (passAll config) (chain.select (requested config)) w₀ action with
  | error fault =>
      rw [hstep₀] at hstep
      cases hstep
  | ok w₁ =>
      rw [hstep₀] at hstep
      exact ⟨w₁, tracks_step hregular htracks (step_steps hstep₀), (Except.ok.inj hstep).symm⟩

/-- An undisturbed listener moves past every page with an event on it. -/
theorem Undisturbed.moves (hregular : Regular (passAll config)) (hw : Undisturbed config c chain w)
    {latest : ℕ} {request : GetEventsRequest} {response : GetEventsResponse}
    (hphase : w.base.phase = .fetching request) (hle : w.base.latestLedger ≤ latest)
    (hanswer : rpcAnswer chain latest request = some response) (hne : response.events ≠ []) :
    (processResponse config w.base.listener response).1 ≠ w.base.listener := by
  obtain ⟨⟨w₀, htracks, hbase⟩, -⟩ := hw
  rw [hbase] at hphase hle ⊢
  cases hphase₀ : w₀.phase with
  | idle => simp [mirror, hphase₀] at hphase
  | saving checkpoint => simp [mirror, hphase₀] at hphase
  | fetching request₀ =>
      obtain ⟨hrestored, rfl⟩ := htracks.fetching request₀ hphase₀
      obtain rfl : buildRequest config w₀.listener = request := by
        simpa [mirror, hphase₀] using hphase
      rw [rpcAnswer_select (tokenShown_of_tracks htracks hrestored hle)] at hanswer
      have hmoves := processResponse_moves hregular htracks hrestored hle hanswer hne
      rw [← processResponse_passAll (requested_of_answer hanswer)] at hmoves
      exact hmoves

/-- A page that a handler throws on leaves the listener where it was. -/
theorem receive_threw {response : GetEventsResponse} {now : ℕ}
    (h : (page c.calls (c.throws w.pages) (passed config response)).2 = true) :
    (w.receive config c response now).base.listener = w.base.listener := by
  unfold HandlerWorld.receive
  dsimp only
  rw [if_pos h]
  rfl

/-- The position moves past a page exactly when no handler throws on it. -/
theorem movesPast_iff (hregular : Regular (passAll config)) (action : Action)
    (hw : Undisturbed config c chain w) :
    MovesPast config c chain w action ↔ Quiet config c chain w action := by
  cases action with
  | answer latest now =>
      constructor
      · intro hmoves request response hphase hle hrpc
        have hstep : handlerStep config c chain w (.answer latest now) =
            .ok (w.receive config c response now) := by
          simp [handlerStep, hphase, hle, hrpc]
        have hmoved := hmoves request response _ hphase hrpc hstep
        by_contra hloud
        have hthrew : (page c.calls (c.throws w.pages) (passed config response)).2 = true := by
          rw [page_failed_iff]
          by_contra hnone
          refine hloud fun event hevent r hr => ?_
          rw [← Bool.not_eq_true]
          exact fun hthrows => hnone ⟨event, hevent, r, hr, hthrows⟩
        -- the page is not empty, so its position is another one
        obtain ⟨event, hevent, -⟩ := page_failed_iff.mp hthrew
        have hne : response.events ≠ [] := List.ne_nil_of_mem (List.mem_of_mem_filter hevent)
        rw [receive_threw hthrew] at hmoved
        exact hw.moves hregular hphase hle hrpc hne hmoved.symm
      · intro hquiet request response w' hphase hrpc hstep
        obtain ⟨request', response', hphase', hle, hrpc', rfl, -⟩ := answer_ok hstep
        obtain rfl : request = request' := Phase.fetching.inj (hphase.symm.trans hphase')
        obtain rfl : response = response' := Option.some.inj (hrpc.symm.trans hrpc')
        have hpage := page_of_quiet (hquiet request response hphase hle hrpc)
        simp only [HandlerWorld.receive, hpage, Bool.false_eq_true, if_false]
        exact receive_listener config w.base response now
  | call => exact Iff.rfl
  | start => exact Iff.rfl
  | fail => exact Iff.rfl
  | saved => exact Iff.rfl
  | restart => exact Iff.rfl

theorem Undisturbed.delivers [DecidableEq H] (hw : Undisturbed config c chain w)
    {r : Registration H} (hr : c.toHandlers.Registered r) : DeliveredTo config c chain r w := by
  obtain ⟨⟨w₀, htracks, hbase⟩, hcalled⟩ := hw
  have hreceived : receivedBy r w.received = w₀.delivered.filter (c.meant r) := by
    rw [hcalled, received_eq c.calls_nodup (c.mem_calls_iff hr), hbase]
    rfl
  constructor
  · obtain ⟨bound, hinitial⟩ := htracks.delivers.in_order
    rw [hreceived]
    exact ⟨bound, hinitial.filter _⟩
  · intro latest hlatest
    rw [hbase] at hlatest
    rw [hreceived]
    exact (htracks.caught_up latest hlatest).filter _

/-- Every handler receives the events meant for it, each once and in order, and every answered poll
moves past its page, in exactly the runs in which no handler throws. -/
theorem handlers_isolated_iff [DecidableEq H] (hregular : Regular (passAll config))
    (c : Consumers H) (chain : Chain) (actions : List Action) :
    ((∀ r, c.toHandlers.Registered r →
        DeliveredTo config c chain r
          (run (handlerStep config c chain) (initialHandlers config) actions)) ∧
      Along (handlerStep config c chain) (MovesPast config c chain) (initialHandlers config)
        actions) ↔
    Along (handlerStep config c chain) (Quiet config c chain) (initialHandlers config) actions := by
  have hinitial := undisturbed_initial config c chain
  have hkept : ∀ w action w', Undisturbed config c chain w → Quiet config c chain w action →
      handlerStep config c chain w action = .ok w' → Undisturbed config c chain w' :=
    fun _ _ _ hw hquiet h => hw.step hregular hquiet h
  have hdecides : ∀ w action, Undisturbed config c chain w →
      (MovesPast config c chain w action ↔ Quiet config c chain w action) :=
    fun _ action hw => movesPast_iff hregular action hw
  rw [along_iff_of_invariant hdecides hkept actions _ hinitial]
  refine and_iff_right_of_imp fun hquiet r hr => ?_
  exact (run_invariant_along hkept actions _ hinitial hquiet).delivers hr

end runs

/-- A raw handler that never throws, and a handler of deposits that throws on every page before
the one numbered `from`. -/
def twoHandlers (quietFrom : ℕ) : Consumers ℕ where
  raw := [1]
  typed name := if name = .deposit then [2] else []
  raw_nodup := by decide
  typed_nodup name := by
    split_ifs <;> decide
  topic _ := some [.string "deposit"]
  throws n r _ := r = .typed .deposit 2 ∧ n < quietFrom

/-- A poll without a throw. -/
def polledOnce : HandlerWorld ℕ :=
  run (handlerStep (shortConfig none) (twoHandlers 0) shortChain)
    (initialHandlers (shortConfig none)) [.call, .start, .answer 1 10]

/-- It brings both events of the short chain to both handlers. -/
theorem handlers_isolated_iff_quiet :
    DeliveredTo (shortConfig none) (twoHandlers 0) shortChain (.raw 1) polledOnce ∧
      DeliveredTo (shortConfig none) (twoHandlers 0) shortChain (.typed .deposit 2) polledOnce := by
  have hregular : Regular (passAll (shortConfig none)) :=
    ⟨rfl, by decide, by decide, rfl, by decide, rfl⟩
  have hquiet := ((handlers_isolated_iff hregular (twoHandlers 0) shortChain
    [.call, .start, .answer 1 10]).mpr ?_).1
  · exact ⟨hquiet (.raw 1) (by simp [twoHandlers, Handlers.Registered]),
      hquiet (.typed .deposit 2) (by simp [twoHandlers, Handlers.Registered])⟩
  · refine ⟨trivial, trivial, ?_, trivial⟩
    intro request response _ _ _ event _ r _
    simp [twoHandlers]

/-- Two polls, the first of them with a handler that throws on the first event of its page. -/
def pollAgain : List Action := [.call, .start, .answer 1 10, .call, .start, .answer 1 20]

def polledAgain : HandlerWorld ℕ :=
  run (handlerStep (shortConfig none) (twoHandlers 1) shortChain)
    (initialHandlers (shortConfig none)) pollAgain

/-- The raw handler, which never throws, receives the first event again on the second poll. -/
theorem event_received_again :
    ¬ DeliveredTo (shortConfig none) (twoHandlers 1) shortChain (.raw 1) polledAgain := by
  rintro ⟨⟨bound, hfirst⟩, -⟩
  have hreceived : receivedBy (.raw 1) polledAgain.received =
      firstEvents.take 1 ++ firstEvents := by decide +kernel
  have hmeant : (twoHandlers 1).meant (.raw 1) = fun _ => true := rfl
  rw [hreceived, hmeant, List.filter_true] at hfirst
  have hall : DeliversOnce (shortConfig none) (shortChain.select (requested (shortConfig none)))
      { initialWorld (shortConfig none) with delivered := firstEvents.take 1 ++ firstEvents } :=
    ⟨⟨bound, hfirst⟩, nofun⟩
  exact absurd hall.nodup (by decide)

end YieldEngine.Listener
