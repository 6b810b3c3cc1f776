import YieldEngine.BoundedLog
import YieldEngine.OracleFeeds
import YieldEngine.Transact

/-! # What the oracle serves

`OracleAction` lists the entrypoints that write storage, other than `initialize`; the history
of a run is the sequence of its successful publications.

`oracle_spec`: in every run with non-decreasing timestamps the window of a feed holds the last
ten of its publications, every publication named a feeder that the admin had authorised and not
removed since (`AuthorisedSince`), and `get_price` serves the newest observation of the feed if
it is fresh, else that of the fallback (`Serves`).  The source searches the whole window for a
fresh observation; the newest one decides because the window is in order of time. -/

namespace YieldEngine.Oracle

open CheckedArith Transact BoundedLog

inductive OracleAction where
  | registerFeed (admin poolAddress : Address) (initialFeeders : List Address)
      (freshnessThresholdSecs : ℕ) (fallbackPool : Address) (hasFallback : Bool)
  | setFreshnessThreshold (admin poolAddress : Address) (freshnessThresholdSecs : ℕ)
  | addFeeder (admin poolAddress feeder : Address)
  | removeFeeder (admin poolAddress feeder : Address)
  | setFallbackFeed (admin poolAddress fallbackPool : Address) (hasFallback : Bool)
  | publishPrice (feeder poolAddress : Address) (price : ℤ)
deriving DecidableEq, Repr

structure Invocation where
  env : Env
  action : OracleAction

def exec (s : OracleStore) (c : Invocation) : OracleCall OracleStore :=
  match c.action with
  | .registerFeed admin poolAddress initialFeeders freshnessThresholdSecs fallbackPool
      hasFallback =>
      registerFeed s admin poolAddress initialFeeders freshnessThresholdSecs fallbackPool
        hasFallback
  | .setFreshnessThreshold admin poolAddress freshnessThresholdSecs =>
      setFreshnessThreshold s admin poolAddress freshnessThresholdSecs
  | .addFeeder admin poolAddress feeder => addFeeder s admin poolAddress feeder
  | .removeFeeder admin poolAddress feeder => removeFeeder s admin poolAddress feeder
  | .setFallbackFeed admin poolAddress fallbackPool hasFallback =>
      setFallbackFeed s admin poolAddress fallbackPool hasFallback
  | .publishPrice feeder poolAddress price => publishPrice c.env s feeder poolAddress price

/-! ### Histories -/

structure Publication where
  pool : Address
  feeder : Address
  observation : PriceObservation
deriving DecidableEq, Repr

/-- The publication a call makes when it returns. -/
def publication (_ : OracleStore) (c : Invocation) : List Publication :=
  match c.action with
  | .publishPrice feeder poolAddress price => [⟨poolAddress, feeder, price, c.env.timestamp⟩]
  | _ => []

/-- The observations published for a pool, oldest first. -/
def publishedFor (pool : Address) (log : List Publication) : List PriceObservation :=
  (log.filter fun p => p.pool = pool).map Publication.observation

/-- The timestamps of the calls do not decrease. -/
def Chronological (calls : List Invocation) : Prop :=
  (calls.map fun c => c.env.timestamp).Pairwise (· ≤ ·)

instance (calls : List Invocation) : Decidable (Chronological calls) :=
  inferInstanceAs (Decidable (List.Pairwise _ _))

/-- The call makes the feeder an authorised one of the pool, in the name of the admin. -/
def Authorises (admin pool feeder : Address) (c : Invocation) : Prop :=
  match c.action with
  | .registerFeed a poolAddress initialFeeders _ _ _ =>
      a = admin ∧ poolAddress = pool ∧ feeder ∈ initialFeeders
  | .addFeeder a poolAddress f => a = admin ∧ poolAddress = pool ∧ f = feeder
  | _ => False

def Revokes (pool feeder : Address) (c : Invocation) : Prop :=
  match c.action with
  | .removeFeeder _ poolAddress f => poolAddress = pool ∧ f = feeder
  | _ => False

/-- In the run from `s` the admin authorised the feeder and no removal of it returned since. -/
def AuthorisedSince (admin pool feeder : Address) (s : OracleStore) (calls : List Invocation) :
    Prop :=
  Since exec (fun _ c => Authorises admin pool feeder c) (fun _ c => ¬ Revokes pool feeder c) s
    calls

/-! ### Windows and feeders -/

/-- The stored observations of a pool; none without a feed. -/
def OracleStore.window (s : OracleStore) (pool : Address) : List PriceObservation :=
  ((s.loadFeeds.get pool).map OracleFeed.observations).getD []

/-- The authorised feeders of a pool; none without a feed. -/
def OracleStore.feeders (s : OracleStore) (pool : Address) : List Address :=
  ((s.loadFeeds.get pool).map OracleFeed.authorisedFeeders).getD []

/-- The storage `s'` is `s` with the feed `new` written. -/
structure Writes (s s' : OracleStore) (pool : Address) (new : OracleFeed) : Prop where
  feeds : s'.loadFeeds = s.loadFeeds.set pool new
  admin : s'.admin = s.admin

/-- What a returning call does. -/
inductive Effect (s s' : OracleStore) : Invocation → Prop where
  | registered {e admin pool initialFeeders threshold fallbackPool hasFallback new}
      (writes : Writes s s' pool new) (isAdmin : s.admin = some admin)
      (unused : s.loadFeeds.get pool = none) (feeders : new.authorisedFeeders = initialFeeders)
      (empty : new.observations = []) : Effect s s'
        ⟨e, .registerFeed admin pool initialFeeders threshold fallbackPool hasFallback⟩
  | added {e admin pool feeder old new} (writes : Writes s s' pool new)
      (isAdmin : s.admin = some admin) (stored : s.loadFeeds.get pool = some old)
      (feeders : new.authorisedFeeders = old.authorisedFeeders ++ [feeder])
      (observations : new.observations = old.observations) :
      Effect s s' ⟨e, .addFeeder admin pool feeder⟩
  | removed {e admin pool feeder old new} (writes : Writes s s' pool new)
      (stored : s.loadFeeds.get pool = some old)
      (feeders : new.authorisedFeeders = old.authorisedFeeders.filter fun f => f ≠ feeder)
      (observations : new.observations = old.observations) :
      Effect s s' ⟨e, .removeFeeder admin pool feeder⟩
  | published {e pool feeder price old new} (writes : Writes s s' pool new)
      (stored : s.loadFeeds.get pool = some old) (authorised : feeder ∈ old.authorisedFeeders)
      (feeders : new.authorisedFeeders = old.authorisedFeeders)
      (observations : new.observations =
        appendObservation old.observations ⟨price, e.timestamp⟩) :
      Effect s s' ⟨e, .publishPrice feeder pool price⟩
  | configured {c pool old new} (writes : Writes s s' pool new)
      (stored : s.loadFeeds.get pool = some old)
      (feeders : new.authorisedFeeders = old.authorisedFeeders)
      (observations : new.observations = old.observations)
      (silent : publication s c = []) (quiet : ∀ pool feeder, ¬ Revokes pool feeder c) :
      Effect s s' c

theorem checkAdmin_eq_ok {s : OracleStore} {caller : Address} {u : Unit} :
    s.checkAdmin caller = .ok u ↔ s.admin = some caller := by
  simp only [OracleStore.checkAdmin, OracleStore.loadAdmin, bind_eq_ok, orRaise_eq_ok,
    require_eq_ok]
  constructor
  · rintro ⟨admin, hadmin, rfl⟩
    exact hadmin
  · intro h
    exact ⟨caller, h, rfl⟩

/-- Every returning call has one of the effects. -/
theorem exec_effect {s s' : OracleStore} {c : Invocation} (h : exec s c = .ok s') :
    Effect s s' c := by
  obtain ⟨e, action⟩ := c
  cases action with
  | registerFeed admin poolAddress initialFeeders freshnessThresholdSecs fallbackPool
      hasFallback =>
      simp only [exec, registerFeed, bind_eq_ok, checkAdmin_eq_ok, require_eq_ok, pure_eq_ok,
        exists_const, SortedMap.contains, Option.isSome_eq_false_iff,
        Option.isNone_iff_eq_none] at h
      obtain ⟨hadmin, hunused, rfl⟩ := h
      exact .registered ⟨rfl, rfl⟩ hadmin hunused rfl rfl
  | setFreshnessThreshold admin poolAddress freshnessThresholdSecs =>
      simp only [exec, setFreshnessThreshold, OracleStore.loadFeed, bind_eq_ok, orRaise_eq_ok,
        pure_eq_ok] at h
      obtain ⟨-, -, feed, hfeed, rfl⟩ := h
      exact .configured ⟨rfl, rfl⟩ hfeed rfl rfl rfl fun _ _ => id
  | addFeeder admin poolAddress feeder =>
      simp only [exec, addFeeder, OracleStore.loadFeed, bind_eq_ok, checkAdmin_eq_ok,
        orRaise_eq_ok, require_eq_ok, pure_eq_ok, exists_const] at h
      obtain ⟨hadmin, feed, hfeed, -, rfl⟩ := h
      exact .added ⟨rfl, rfl⟩ hadmin hfeed rfl rfl
  | removeFeeder admin poolAddress feeder =>
      simp only [exec, removeFeeder, OracleStore.loadFeed, bind_eq_ok, checkAdmin_eq_ok,
        orRaise_eq_ok, require_eq_ok, pure_eq_ok, exists_const] at h
      obtain ⟨-, feed, hfeed, -, rfl⟩ := h
      exact .removed ⟨rfl, rfl⟩ hfeed rfl rfl
  | setFallbackFeed admin poolAddress fallbackPool hasFallback =>
      simp only [exec, setFallbackFeed, OracleStore.loadFeed, bind_eq_ok, orRaise_eq_ok,
        pure_eq_ok] at h
      obtain ⟨-, -, feed, hfeed, rfl⟩ := h
      exact .configured ⟨rfl, rfl⟩ hfeed rfl rfl rfl fun _ _ => id
  | publishPrice feeder poolAddress price =>
      simp only [exec, publishPrice, OracleStore.loadFeed, bind_eq_ok, orRaise_eq_ok,
        require_eq_ok, pure_eq_ok, exists_const] at h
      obtain ⟨feed, hfeed, hauth, rfl⟩ := h
      exact .published ⟨rfl, rfl⟩ hfeed hauth rfl rfl

section effects
variable {s s' : OracleStore} {pool : Address} {feed new : OracleFeed}

theorem Writes.window (h : Writes s s' pool new) (p : Address) :
    s'.window p = if p = pool then new.observations else s.window p := by
  rw [OracleStore.window, h.feeds, SortedMap.get_set]
  split_ifs with hp
  · rfl
  · rfl

theorem Writes.feeders (h : Writes s s' pool new) (p : Address) :
    s'.feeders p = if p = pool then new.authorisedFeeders else s.feeders p := by
  rw [OracleStore.feeders, h.feeds, SortedMap.get_set]
  split_ifs with hp
  · rfl
  · rfl

theorem window_of_stored (h : s.loadFeeds.get pool = some feed) :
    s.window pool = feed.observations := by rw [OracleStore.window, h]; rfl

theorem feeders_of_stored (h : s.loadFeeds.get pool = some feed) :
    s.feeders pool = feed.authorisedFeeders := by rw [OracleStore.feeders, h]; rfl

theorem window_of_unused (h : s.loadFeeds.get pool = none) : s.window pool = [] := by
  rw [OracleStore.window, h]
  rfl

theorem exec_admin {c : Invocation} (h : exec s c = .ok s') : s'.admin = s.admin := by
  cases exec_effect h with
  | registered writes => exact writes.admin
  | added writes => exact writes.admin
  | removed writes => exact writes.admin
  | published writes => exact writes.admin
  | configured writes => exact writes.admin

/-- A publication that returns names an authorised feeder. -/
theorem publishPrice_authorised {e : Env} {feeder : Address} {price : ℤ}
    (h : publishPrice e s feeder pool price = .ok s') : feeder ∈ s.feeders pool := by
  simp only [publishPrice, OracleStore.loadFeed, bind_eq_ok, orRaise_eq_ok, require_eq_ok,
    exists_const] at h
  obtain ⟨feed, hfeed, hauth, -⟩ := h
  rw [feeders_of_stored hfeed]
  exact hauth

/-! ### Authorised feeders -/

/-- A feeder is authorised after a call because the admin authorised it by the call, or because
it was before and the call does not remove it. -/
theorem feeder_step {admin feeder : Address} {c : Invocation} (h : exec s c = .ok s')
    (hadmin : s'.admin = some admin) (hmem : feeder ∈ s'.feeders pool) :
    Authorises admin pool feeder c ∨ (feeder ∈ s.feeders pool ∧ ¬ Revokes pool feeder c) := by
  rw [exec_admin h] at hadmin
  cases exec_effect h with
  | @registered _ a k initialFeeders _ _ _ _ writes isAdmin _ feeders =>
      rw [writes.feeders] at hmem
      split_ifs at hmem with hk
      · rw [feeders] at hmem
        exact .inl ⟨Option.some.inj (isAdmin.symm.trans hadmin), hk.symm, hmem⟩
      · exact .inr ⟨hmem, not_false⟩
  | @added _ a k f _ _ writes isAdmin stored feeders =>
      rw [writes.feeders] at hmem
      split_ifs at hmem with hk
      · rw [feeders, List.mem_append, List.mem_singleton] at hmem
        obtain hold | hnew := hmem
        · rw [hk, feeders_of_stored stored]
          exact .inr ⟨hold, not_false⟩
        · exact .inl ⟨Option.some.inj (isAdmin.symm.trans hadmin), hk.symm, hnew.symm⟩
      · exact .inr ⟨hmem, not_false⟩
  | @removed _ _ k f _ _ writes stored feeders =>
      rw [writes.feeders] at hmem
      split_ifs at hmem with hk
      · rw [feeders, List.mem_filter, decide_eq_true_iff] at hmem
        rw [hk, feeders_of_stored stored]
        exact .inr ⟨hmem.1, fun hrevokes => hmem.2 hrevokes.2.symm⟩
      · exact .inr ⟨hmem, fun hrevokes => hk hrevokes.1.symm⟩
  | @published _ k _ _ _ _ writes stored _ feeders =>
      refine .inr ⟨?_, not_false⟩
      rw [writes.feeders] at hmem
      split_ifs at hmem with hk
      · rw [hk, feeders_of_stored stored, ← feeders]
        exact hmem
      · exact hmem
  | @configured _ k _ _ writes stored feeders _ _ quiet =>
      refine .inr ⟨?_, quiet pool feeder⟩
      rw [writes.feeders] at hmem
      split_ifs at hmem with hk
      · rw [hk, feeders_of_stored stored, ← feeders]
        exact hmem
      · exact hmem

/-! ### The windows -/

/-- The window of every pool holds the last ten of its publications. -/
def Windows (log : List Publication) (s : OracleStore) : Prop :=
  ∀ pool, s.window pool = (publishedFor pool log).rtake maxObservations

theorem appendObservation_eq_push {observations : List PriceObservation}
    (h : observations.length ≤ maxObservations) (obs : PriceObservation) :
    appendObservation observations obs = push maxObservations observations obs := by
  unfold appendObservation
  split_ifs with hfull
  · have hlength : observations.length = maxObservations := le_antisymm h hfull
    rw [push, List.rtake, List.length_append, List.length_singleton, hlength,
      Nat.add_sub_cancel_left, List.drop_append_of_le_length (by rw [hlength]; decide)]
  · rw [push, rtake_of_length_le]
    rw [List.length_append, List.length_singleton]
    omega

theorem publishedFor_append (pool : Address) (log more : List Publication) :
    publishedFor pool (log ++ more) = publishedFor pool log ++ publishedFor pool more := by
  rw [publishedFor, List.filter_append, List.map_append]
  rfl

/-- A write that leaves the window of its pool as it is. -/
theorem Windows.write {log : List Publication} (hs : Windows log s) (h : Writes s s' pool new)
    (hsame : new.observations = s.window pool) : Windows log s' := by
  intro p
  rw [h.window]
  split_ifs with hp
  · rw [hp, hsame, hs pool]
  · exact hs p

theorem windows_step {log : List Publication} {c : Invocation} (hs : Windows log s)
    (h : exec s c = .ok s') : Windows (log ++ publication s c) s' := by
  cases exec_effect h with
  | registered writes _ unused _ empty =>
      rw [publication, List.append_nil]
      exact hs.write writes (empty.trans (window_of_unused unused).symm)
  | added writes _ stored _ observations =>
      rw [publication, List.append_nil]
      exact hs.write writes (observations.trans (window_of_stored stored).symm)
  | removed writes stored _ observations =>
      rw [publication, List.append_nil]
      exact hs.write writes (observations.trans (window_of_stored stored).symm)
  | configured writes stored _ observations silent =>
      rw [silent, List.append_nil]
      exact hs.write writes (observations.trans (window_of_stored stored).symm)
  | @published e k feeder price old new writes stored _ _ observations =>
      intro p
      rw [publication, publishedFor_append, writes.window]
      split_ifs with hp
      · subst hp
        have hold : old.observations = (publishedFor p log).rtake maxObservations :=
          (window_of_stored stored).symm.trans (hs p)
        have hlength : old.observations.length ≤ maxObservations := by
          rw [hold, length_rtake]
          exact Nat.min_le_left _ _
        rw [observations, appendObservation_eq_push hlength, hold, push_rtake]
        simp [publishedFor]
      · have hne : ¬ k = p := fun heq => hp heq.symm
        rw [hs p]
        simp [publishedFor, hne]

end effects

/-! ### Reading a price -/

/-- The newest observation of the feed has the price, and its age is within the threshold. -/
def NewestFresh (feed : OracleFeed) (now : ℕ) (price : ℤ) : Prop :=
  ∃ obs, feed.observations.getLast? = some obs ∧
    now - obs.timestamp ≤ feed.freshnessThresholdSecs ∧ obs.price = price

/-- The price of the pool's own feed, or else that of its fallback. -/
def Serves (s : OracleStore) (now : ℕ) (pool : Address) (price : ℤ) : Prop :=
  ∃ feed, s.loadFeeds.get pool = some feed ∧
    (NewestFresh feed now price ∨ (∀ p, ¬ NewestFresh feed now p) ∧ feed.hasFallback = true ∧
      ∃ fallbackFeed, s.loadFeeds.get feed.fallbackPool = some fallbackFeed ∧
        NewestFresh fallbackFeed now price)

/-- The observations of every feed are in order of time. -/
def InOrder (s : OracleStore) : Prop :=
  ∀ pool, ((s.window pool).map PriceObservation.timestamp).Pairwise (· ≤ ·)

section reading
variable {s : OracleStore} {feed : OracleFeed} {now : ℕ}

/-- In a window in order of time the scan finds the newest observation or nothing. -/
theorem latestFreshPrice_eq_some {price : ℤ}
    (h : (feed.observations.map PriceObservation.timestamp).Pairwise (· ≤ ·)) :
    latestFreshPrice feed now = some price ↔ NewestFresh feed now price := by
  have hup : feed.observations.Pairwise fun older newer =>
      decide (now - older.timestamp ≤ feed.freshnessThresholdSecs) = true →
        decide (now - newer.timestamp ≤ feed.freshnessThresholdSecs) = true := by
    refine (List.pairwise_map.mp h).imp fun {older newer} hle hfresh => ?_
    simp only [decide_eq_true_eq] at hfresh ⊢
    omega
  rw [latestFreshPrice, find?_reverse_of_upward hup, NewestFresh, Option.map_eq_some_iff]
  simp only [Option.filter_eq_some_iff, decide_eq_true_eq, and_assoc]

theorem latestFreshPrice_eq_none
    (h : (feed.observations.map PriceObservation.timestamp).Pairwise (· ≤ ·)) :
    latestFreshPrice feed now = none ↔ ∀ p, ¬ NewestFresh feed now p := by
  simp only [← latestFreshPrice_eq_some h, Option.eq_none_iff_forall_ne_some, ne_eq]

/-- The price that is served is the specified one; in every other case the call fails. -/
theorem getPrice_eq_ok {e : Env} {pool : Address} {price : ℤ} (h : InOrder s) :
    getPrice e s pool = .ok price ↔ Serves s e.timestamp pool price := by
  have hordered {p : Address} {f : OracleFeed} (hf : s.loadFeeds.get p = some f) :
      (f.observations.map PriceObservation.timestamp).Pairwise (· ≤ ·) := by
    rw [← window_of_stored hf]
    exact h p
  have hfallback (f : OracleFeed) : fallbackPrice s f e.timestamp = some price ↔
      f.hasFallback = true ∧ ∃ fallbackFeed,
        s.loadFeeds.get f.fallbackPool = some fallbackFeed ∧
          NewestFresh fallbackFeed e.timestamp price := by
    unfold fallbackPrice
    split_ifs with hhas
    · rw [Option.bind_eq_some_iff, hhas, eq_self_iff_true, true_and]
      refine exists_congr fun fallbackFeed => and_congr_right fun hget => ?_
      exact latestFreshPrice_eq_some (hordered hget)
    · exact iff_of_false nofun fun hno => hhas hno.1
  simp only [getPrice, OracleStore.loadFeed, bind_eq_ok, orRaise_eq_ok]
  refine exists_congr fun feed => and_congr_right fun hget => ?_
  rw [Option.or_eq_some_iff, hfallback, latestFreshPrice_eq_some (hordered hget),
    latestFreshPrice_eq_none (hordered hget)]

end reading

/-! ### Runs -/

section runs
variable (admin : Address) (calls : List Invocation)

/-- The publications of a run of a registry initialised by `admin`. -/
def publicationLog : List Publication := ghostLog exec publication (initializeOracle admin) calls

theorem run_windows :
    Windows (publicationLog admin calls) (run exec (initializeOracle admin) calls) := by
  have hinitial : Windows [] (initializeOracle admin) := fun _ => rfl
  exact run_log_invariant (Q := fun _ _ => True) (fun log s c s' hs _ h => windows_step hs h)
    calls _ [] hinitial (along_true calls _)

theorem run_inOrder (hclock : Chronological calls) :
    InOrder (run exec (initializeOracle admin) calls) := by
  intro pool
  rw [run_windows admin calls pool]
  -- the window is a part of the history, and the history follows the calls
  have hlog : ((publicationLog admin calls).map fun p => p.observation.timestamp).Sublist
      (calls.map fun c => c.env.timestamp) := by
    apply ghostLog_sublist
    intro s c
    cases hc : c.action with
    | publishPrice feeder poolAddress price => simp [publication, hc]
    | _ => simp [publication, hc]
  have hpool : ((publishedFor pool (publicationLog admin calls)).map
      PriceObservation.timestamp).Sublist
      ((publicationLog admin calls).map fun p => p.observation.timestamp) := by
    rw [publishedFor, List.map_map]
    exact List.filter_sublist.map _
  have hwindow := (rtake_suffix maxObservations
    (publishedFor pool (publicationLog admin calls))).sublist.map PriceObservation.timestamp
  exact hclock.sublist (hwindow.trans (hpool.trans hlog))

theorem run_admin : (run exec (initializeOracle admin) calls).admin = some admin := by
  apply run_invariant (I := fun s : OracleStore => s.admin = some admin)
  · intro s c s' hs h
    exact (exec_admin h).trans hs
  · rfl

variable {admin calls}

theorem authorisedSince_of_mem {pool feeder : Address}
    (hmem : feeder ∈ (run exec (initializeOracle admin) calls).feeders pool) :
    AuthorisedSince admin pool feeder (initializeOracle admin) calls := by
  apply since_of_step (A := fun s : OracleStore => s.admin = some admin ∧ feeder ∈ s.feeders pool)
  · rintro ⟨-, hnone⟩
    cases hnone
  · rintro s c s' h ⟨hadmin, hfeeder⟩
    obtain hauth | ⟨hbefore, hquiet⟩ := feeder_step h hadmin hfeeder
    · exact .inl hauth
    · exact .inr ⟨⟨(exec_admin h).symm.trans hadmin, hbefore⟩, hquiet⟩
  · exact ⟨run_admin admin calls, hmem⟩

end runs

/-- For every run after `initialize` with non-decreasing timestamps: every window holds the
last ten publications of its pool; every publication that returned named a feeder that was
authorised at that moment, by a call of the admin that no removal followed; and a call of
`get_price` returns exactly the specified price. -/
theorem oracle_spec (admin : Address) (calls : List Invocation) (hclock : Chronological calls) :
    (∀ pool feed, (run exec (initializeOracle admin) calls).loadFeeds.get pool = some feed →
        feed.observations =
          (publishedFor pool (publicationLog admin calls)).rtake maxObservations) ∧
      (∀ before after e s' feeder pool price,
        calls = before ++ ⟨e, .publishPrice feeder pool price⟩ :: after →
        publishPrice e (run exec (initializeOracle admin) before) feeder pool price = .ok s' →
          feeder ∈ (run exec (initializeOracle admin) before).feeders pool ∧
            AuthorisedSince admin pool feeder (initializeOracle admin) before) ∧
      ∀ e pool price, getPrice e (run exec (initializeOracle admin) calls) pool = .ok price ↔
        Serves (run exec (initializeOracle admin) calls) e.timestamp pool price := by
  refine ⟨fun pool feed hfeed => ?_, ?_, fun e pool price => ?_⟩
  · rw [← window_of_stored hfeed]
    exact run_windows admin calls pool
  · intro before after e s' feeder pool price _ hreturns
    have hmem := publishPrice_authorised hreturns
    exact ⟨hmem, authorisedSince_of_mem hmem⟩
  · exact getPrice_eq_ok (run_inOrder admin calls hclock)

/-- Two feeds, the second the fallback of the first, with one observation each. -/
def twoFeeds : List Invocation :=
  [⟨⟨9, [], 1⟩, .registerFeed 7 1 [5] 100 2 true⟩, ⟨⟨9, [], 2⟩, .registerFeed 7 2 [6] 0 2 false⟩,
    ⟨⟨9, [], 10⟩, .publishPrice 5 1 40⟩, ⟨⟨9, [], 20⟩, .publishPrice 6 2 41⟩]

/-- At time 110 the first feed is fresh still; at time 111 its fallback is served. -/
theorem oracle_spec_twoFeeds :
    Serves (run exec (initializeOracle 7) twoFeeds) 110 1 40 ∧
      Serves (run exec (initializeOracle 7) twoFeeds) 111 1 41 :=
  ⟨((oracle_spec 7 twoFeeds (by decide)).2.2 ⟨9, [], 110⟩ 1 40).mp rfl,
    ((oracle_spec 7 twoFeeds (by decide)).2.2 ⟨9, [], 111⟩ 1 41).mp rfl⟩

end YieldEngine.Oracle
