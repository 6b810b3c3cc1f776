import YieldEngine.ListenerDelivery

/-! # The allow-list of the listener

The listener lower-cases the addresses it is configured with.  It sends the lower-cased list to
the node, which compares contract ids as they are, and compares the lower-cased id of what comes
back with the list.  The second filter passes whatever passed the first, so a listener with an
allow-list is a listener without one on the chain of the events that the node selects
(`step_mirror`, `run_mirror`).

What it delivers are therefore the events of the contracts in the lower-cased list
(`delivered_requested`).  `allow_list_selects_iff` compares that with the list as it was given:
the two agree exactly when no event of the chain tells them apart. -/

namespace YieldEngine.Listener

open Keeper PagedLog Transact

/-! ### Lower case -/

theorem toLower_not_upper (c : Char) :
    ¬ (c.toLower.val ≥ 'A'.val ∧ c.toLower.val ≤ 'Z'.val) := by
  unfold Char.toLower
  split_ifs with hupper
  · rintro ⟨-, hle⟩
    have hlow := UInt32.le_iff_toNat_le.mp hupper.1
    have hhigh := UInt32.le_iff_toNat_le.mp hupper.2
    have hlower := UInt32.le_iff_toNat_le.mp hle
    simp at hlow hhigh hlower
    omega
  · exact hupper

theorem toLower_toLower (s : String) : s.toLower.toLower = s.toLower := by
  unfold String.toLower
  rw [String.map_map]
  congr 1
  funext c
  exact dif_neg (toLower_not_upper c)

/-! ### The two filters -/

/-- The contract is in the list as it was configured. -/
def listed (config : ListenerConfig) (event : RawContractEvent) : Bool :=
  event.contractId ∈ config.contractAddresses.getD []

/-- The contract is in the list that is sent to the node; without a list every contract is. -/
def requested (config : ListenerConfig) (event : RawContractEvent) : Bool :=
  config.allowedAddresses = [] ∨ event.contractId ∈ config.allowedAddresses

/-- The configuration without its allow-list. -/
def passAll (config : ListenerConfig) : ListenerConfig := { config with contractAddresses := none }

/-- The chain of the events of a kind. -/
def Chain.select (chain : Chain) (p : RawContractEvent → Bool) : Chain where
  events n := (chain.events n).filter p
  ledger_eq n event h := chain.ledger_eq n event (List.mem_of_mem_filter h)
  id_ne n event h := chain.id_ne n event (List.mem_of_mem_filter h)
  id_unique bound := by
    rw [← filter_between]
    exact (chain.id_unique bound).sublist (List.filter_sublist.map _)

variable {config : ListenerConfig} {chain : Chain}

theorem passAll_allowed (config : ListenerConfig) : (passAll config).allowedAddresses = [] := rfl

theorem mem_allowedAddresses {address : String} :
    address ∈ config.allowedAddresses ↔
      address ∈ (config.contractAddresses.getD []).map String.toLower := by
  unfold ListenerConfig.allowedAddresses
  exact List.mem_eraseDups

/-- The lower-cased list has addresses when the list has. -/
theorem allowedAddresses_ne_nil (hlist : config.contractAddresses.getD [] ≠ []) :
    config.allowedAddresses ≠ [] := by
  obtain ⟨address, hmem⟩ := List.exists_mem_of_ne_nil _ hlist
  have hlower := mem_allowedAddresses.mpr (List.mem_map_of_mem (f := String.toLower) hmem)
  exact List.ne_nil_of_mem hlower

/-- What the node lets through, the listener does. -/
theorem isAllowed_of_requested {event : RawContractEvent} (h : requested config event = true) :
    isAllowed config event.contractId = true := by
  simp only [requested, isAllowed, decide_eq_true_eq] at h ⊢
  refine h.imp_right fun hmem => ?_
  obtain ⟨address, -, hlower⟩ := List.mem_map.mp (mem_allowedAddresses.mp hmem)
  rwa [← hlower, toLower_toLower, hlower]

theorem matchesFilters_buildRequest (l : ListenerState) (event : RawContractEvent) :
    matchesFilters (buildRequest config l).filters event = requested config event := by
  unfold matchesFilters buildRequest requested
  by_cases hnil : config.allowedAddresses = []
  · simp [hnil]
  · simp [hnil]

/-! ### One step -/

section mirror

/-- A world in which every pending request carries the filters of `config`. -/
def mirror (config : ListenerConfig) (w : World) : World :=
  { w with
    phase := match w.phase with
      | .fetching _ => .fetching (buildRequest config w.listener)
      | phase => phase }

/-- The token is the id of an event that the listener was shown. -/
def TokenShown (chain : Chain) (latest : ℕ) (l : ListenerState) : Prop :=
  ∀ token, l.pagingCursor = some token →
    some token ∈ (between chain.events 0 (latest + 1)).map RawContractEvent.id

/-- The node answers the request with the list as it answers one without on the selected chain. -/
theorem rpcAnswer_select {latest : ℕ} {l : ListenerState}
    (htoken : TokenShown (chain.select (requested config)) latest l) :
    rpcAnswer chain latest (buildRequest config l) =
      rpcAnswer (chain.select (requested config)) latest (buildRequest (passAll config) l) := by
  have hlist : matchesFilters (buildRequest config l).filters = requested config :=
    funext (matchesFilters_buildRequest l)
  have hall : matchesFilters (buildRequest (passAll config) l).filters = fun _ => true :=
    funext fun event => by simp [matchesFilters_buildRequest, requested, passAll_allowed]
  have hselect : ∀ a b, between (chain.select (requested config)).events a b =
      (between chain.events a b).filter (requested config) :=
    fun a b => (filter_between chain.events (requested config) a b).symm
  unfold rpcAnswer
  rw [hlist, hall]
  cases hpaging : l.pagingCursor with
  | none =>
      simp only [buildRequest, hpaging, if_true, hselect, List.filter_true]
      rfl
  | some token =>
      have hshown := htoken token hpaging
      rw [hselect] at hshown
      have hvisible : some token ∈
          (between chain.events 0 (latest + 1)).map RawContractEvent.id :=
        (List.filter_sublist.map _).subset hshown
      simp only [buildRequest, hpaging, hselect, List.filter_true, if_pos hshown, if_pos hvisible]
      rw [following_filter (chain.id_unique _) hshown]
      rfl

/-- Every event of an answer on the selected chain is selected. -/
theorem requested_of_answer {latest : ℕ} {request : GetEventsRequest}
    {response : GetEventsResponse}
    (h : rpcAnswer (chain.select (requested config)) latest request = some response) :
    ∀ event ∈ response.events, requested config event = true := by
  have hselect : ∀ a b, ∀ event ∈ between (chain.select (requested config)).events a b,
      requested config event = true := by
    intro a b event hevent
    obtain ⟨n, -, -, hmem⟩ := (mem_between _).mp hevent
    exact List.of_mem_filter hmem
  unfold rpcAnswer at h
  intro event hevent
  cases hcursor : request.cursor with
  | some token =>
      rw [hcursor] at h
      dsimp only at h
      split_ifs at h
      obtain rfl := Option.some.inj h
      have hmem := List.mem_of_mem_filter (List.mem_of_mem_take hevent)
      exact hselect _ _ event ((List.dropWhile_suffix _).subset (List.mem_of_mem_tail hmem))
  | none =>
      rw [hcursor] at h
      cases hstart : request.startLedger with
      | some start =>
          rw [hstart] at h
          obtain rfl := Option.some.inj h
          exact hselect _ _ event (List.mem_of_mem_filter (List.mem_of_mem_take hevent))
      | none =>
          rw [hstart] at h
          cases h

/-- A page that the node has selected is processed as one without a list. -/
theorem processResponse_passAll {l : ListenerState} {response : GetEventsResponse}
    (h : ∀ event ∈ response.events, requested config event = true) :
    processResponse config l response = processResponse (passAll config) l response := by
  have hpass : response.events.filter (fun event => isAllowed config event.contractId) =
      response.events :=
    List.filter_eq_self.mpr fun event hevent => isAllowed_of_requested (h event hevent)
  have hall : response.events.filter (fun event => isAllowed (passAll config) event.contractId) =
      response.events := by
    simp [isAllowed, passAll_allowed]
  unfold processResponse
  rw [hpass, hall]
  rfl

theorem receive_mirror (w : World) {response : GetEventsResponse} (now : ℕ)
    (h : ∀ event ∈ response.events, requested config event = true) :
    World.receive config (mirror config w) response now =
      mirror config (World.receive (passAll config) w response now) := by
  have hlimit : (passAll config).limit = config.limit := rfl
  have hpersists : (passAll config).persists = config.persists := rfl
  have hlistener : (mirror config w).listener = w.listener := rfl
  unfold World.receive
  rw [hlistener, processResponse_passAll h, hlimit, hpersists]
  dsimp only
  split_ifs <;> rfl

theorem tokenShown_of_tracks {w : World} {latest : ℕ}
    (h : Tracks (passAll config) chain w) (hrestored : w.listener.restoreAttempted = true)
    (hle : w.latestLedger ≤ latest) : TokenShown chain latest w.listener := by
  intro token hpaging
  have hresumes := (h.active hrestored).resumes
  rw [hpaging] at hresumes
  obtain ⟨before, event, hdelivered, hname, hinitial⟩ := hresumes
  have hseen := h.seen event (by rw [hdelivered]; simp)
  have hmem : event ∈ between chain.events config.startLedger (event.ledger + 1) :=
    hinitial.subset (by rw [hdelivered]; simp)
  obtain ⟨n, -, hn, hevent⟩ := (mem_between chain.events).mp hmem
  exact List.mem_map.mpr ⟨event, (mem_between chain.events).mpr ⟨n, by omega, by omega, hevent⟩,
    hname⟩

/-- A step with an allow-list is a step without one on the selected chain. -/
theorem step_mirror {w : World} (action : Action)
    (h : Tracks (passAll config) (chain.select (requested config)) w) :
    step config chain (mirror config w) action =
      mirror config <$> step (passAll config) (chain.select (requested config)) w action := by
  cases action with
  | call => rfl
  | start =>
      unfold step mirror
      cases hphase : w.phase with
      | idle =>
          dsimp only
          split_ifs <;> rfl
      | fetching request => rfl
      | saving checkpoint => rfl
  | fail =>
      unfold step mirror
      cases hphase : w.phase <;> rfl
  | answer latest now =>
      unfold step mirror
      cases hphase : w.phase with
      | idle => rfl
      | saving checkpoint => rfl
      | fetching request =>
          obtain ⟨hrestored, rfl⟩ := h.fetching request hphase
          dsimp only
          split_ifs with hle
          · rw [rpcAnswer_select (tokenShown_of_tracks h hrestored hle)]
            cases hanswer : rpcAnswer (chain.select (requested config)) latest
                (buildRequest (passAll config) w.listener) with
            | none => rfl
            | some response =>
                exact congrArg Except.ok (receive_mirror w now (requested_of_answer hanswer))
          · rfl
  | saved =>
      unfold step mirror
      cases hphase : w.phase <;> rfl
  | restart =>
      unfold step mirror
      cases hphase : w.phase <;> rfl

/-- A run with an allow-list is the run without one on the selected chain. -/
theorem run_mirror (hregular : Regular (passAll config)) (chain : Chain)
    (actions : List Action) :
    run (step config chain) (initialWorld config) actions =
      mirror config (run (step (passAll config) (chain.select (requested config)))
        (initialWorld (passAll config)) actions) :=
  run_map_along (Q := fun _ _ => True)
    (fun _ _ _ ht _ hstep => tracks_step hregular ht (step_steps hstep))
    (fun _ action ht _ => step_mirror action ht) actions
    (tracks_initial (passAll config) (chain.select (requested config))) (along_true _ _)

end mirror

/-! ### What is delivered -/

/-- Once a poll has drained the chain, the events up to its head are delivered and no others. -/
theorem Tracks.delivered_eq {w : World} (h : Tracks config chain w)
    (hdrained : w.latestLedger ∈ w.drained) :
    w.delivered = between chain.events config.startLedger (w.latestLedger + 1) := by
  obtain ⟨rest, hrest⟩ := h.caught_up _ hdrained
  obtain ⟨bound, hinitial⟩ := h.delivers.in_order
  have hnone : rest = [] := by
    rw [List.eq_nil_iff_forall_not_mem]
    intro event hevent
    have hdelivered : event ∈ w.delivered := by
      rw [← hrest]
      exact List.mem_append_right _ hevent
    have hseen := h.seen event hdelivered
    obtain ⟨n, hn, -, hmem⟩ := (mem_between chain.events).mp (hinitial.subset hdelivered)
    have hledger := chain.ledger_eq n event hmem
    -- an event up to the head is among those delivered already, and it has one name
    have hfirst : event ∈ between chain.events config.startLedger (w.latestLedger + 1) :=
      (mem_between chain.events).mpr ⟨n, hn, by omega, hmem⟩
    have hnodup := h.delivers.nodup
    rw [← hrest, List.map_append] at hnodup
    exact (List.nodup_append.mp hnodup).2.2 _ (List.mem_map_of_mem hfirst) _
      (List.mem_map_of_mem hevent) rfl
  rw [← hrest, hnone, List.append_nil]

/-- After a poll that has drained the chain, what was delivered are the events up to its head that
the node selects. -/
theorem delivered_requested (hregular : Regular (passAll config)) (chain : Chain)
    (actions : List Action)
    (hdrained : (run (step config chain) (initialWorld config) actions).latestLedger ∈
      (run (step config chain) (initialWorld config) actions).drained) :
    (run (step config chain) (initialWorld config) actions).delivered =
      (between chain.events config.startLedger
        ((run (step config chain) (initialWorld config) actions).latestLedger + 1)).filter
        (requested config) := by
  have htracks : Tracks (passAll config) (chain.select (requested config))
      (run (step (passAll config) (chain.select (requested config)))
        (initialWorld (passAll config)) actions) :=
    run_invariant (fun _ _ _ hw hstep => tracks_step hregular hw (step_steps hstep)) actions
      (tracks_initial _ _)
  rw [run_mirror hregular] at hdrained ⊢
  rw [filter_between]
  exact htracks.delivered_eq hdrained

/-- With an allow-list what is delivered, once the chain is drained, are the events of the listed
contracts exactly when lower case takes none of them away and adds none. -/
theorem allow_list_selects_iff (hregular : Regular (passAll config))
    (hlist : config.contractAddresses.getD [] ≠ []) (chain : Chain) (actions : List Action)
    (hdrained : (run (step config chain) (initialWorld config) actions).latestLedger ∈
      (run (step config chain) (initialWorld config) actions).drained) :
    (run (step config chain) (initialWorld config) actions).delivered =
        (between chain.events config.startLedger
          ((run (step config chain) (initialWorld config) actions).latestLedger + 1)).filter
          (listed config) ↔
      ∀ event ∈ between chain.events config.startLedger
          ((run (step config chain) (initialWorld config) actions).latestLedger + 1),
        (event.contractId ∈ config.contractAddresses.getD [] ↔
          event.contractId ∈ (config.contractAddresses.getD []).map String.toLower) := by
  rw [delivered_requested hregular chain actions hdrained]
  generalize between chain.events config.startLedger _ = events
  have hnonempty := allowedAddresses_ne_nil hlist
  have hrequested : ∀ event, requested config event = true ↔
      event.contractId ∈ (config.contractAddresses.getD []).map String.toLower := by
    intro event
    simp only [requested, decide_eq_true_eq, or_iff_right hnonempty, mem_allowedAddresses]
  have hlisted : ∀ event, listed config event = true ↔
      event.contractId ∈ config.contractAddresses.getD [] := fun event => decide_eq_true_iff
  constructor
  · intro heq event hevent
    have hmem : event ∈ events.filter (requested config) ↔ event ∈ events.filter (listed config) :=
      heq ▸ Iff.rfl
    simp only [List.mem_filter, hevent, true_and, hrequested, hlisted] at hmem
    exact hmem.symm
  · intro hagree
    refine List.filter_congr fun event hevent => ?_
    rw [Bool.eq_iff_iff, hrequested, hlisted]
    exact (hagree event hevent).symm

/-- A listener of the short chain for one contract. -/
def listConfig (address : String) : ListenerConfig :=
  { shortConfig none with contractAddresses := some [address] }

/-- The world after two polls of it. -/
def polledFor (address : String) : World :=
  run (step (listConfig address) shortChain) (initialWorld (listConfig address)) pollTwice

/-- A contract that has no events on the chain is selected. -/
theorem allow_list_selects_iff_absent : (polledFor "D").delivered =
    (between shortChain.events 1 ((polledFor "D").latestLedger + 1)).filter
      (listed (listConfig "D")) :=
  (allow_list_selects_iff ⟨rfl, by decide, by decide, rfl, by decide, rfl⟩ (by decide) shortChain
    pollTwice (by decide +kernel)).mpr (by decide +kernel)

/-- The events of contract `C` are not delivered to a listener for `C`. -/
theorem listed_contract_not_delivered :
    (polledFor "C").latestLedger ∈ (polledFor "C").drained ∧ (polledFor "C").delivered = [] ∧
      (between shortChain.events 1 ((polledFor "C").latestLedger + 1)).filter
        (listed (listConfig "C")) = firstEvents := by
  decide +kernel

end YieldEngine.Listener
