import YieldEngine.WriteLimiter
import Mathlib.Data.List.Chain
import Mathlib.Data.List.Perm.Basic

/-! # The paced queue

`Paced` is what a paced queue promises in every state: order and spacing of the starts, the two
bounds, refusals only when full, an answer for every task that has settled, a slot for no other
task than those in flight, and no entry left behind by an idle drain loop.

`limiter_paced` proves it for every run in which no task throws when it is called, for whole
limits and an interval that is a number.  `Kept` is the part of the invariant that does not
depend on where the drain loop is; each piece of the loop takes it to `Good`. -/

namespace YieldEngine.Limiter

open Transact

variable {V E : Type}

/-! ### Histories -/

section histories
variable (log : List (Note V E))

def acceptedIds : List ℕ :=
  log.filterMap fun note => match note with
    | .accepted id => some id
    | _ => none

def starts : List (ℕ × ℚ) :=
  log.filterMap fun note => match note with
    | .started id time => some (id, time)
    | _ => none

def startedIds : List ℕ := (starts log).map Prod.fst

def startTimes : List ℚ := (starts log).map Prod.snd

def answers : List (ℕ × Except E V) :=
  log.filterMap fun note => match note with
    | .answered id result => some (id, result)
    | _ => none

/-- The numbers of queued entries at which submissions were rejected. -/
def refusals : List ℕ :=
  log.filterMap fun note => match note with
    | .refused queued => some queued
    | _ => none

end histories

/-- The result of a task that an event brings: its promise settles, or it throws when called. -/
def outcome (s : State V E) (e : Event V E) : List (ℕ × Except E V) :=
  match e.kind, s.phase with
  | .settled id result, _ => [(id, result)]
  | .threw error, .calling id => [(id, .error error)]
  | _, _ => []

/-- The task that the drain loop is calling. -/
def Phase.called : Phase → List ℕ
  | .calling id => [id]
  | _ => []

/-- The tasks that were started and whose last callback has not run. -/
def State.tasksInFlight (s : State V E) : List ℕ := s.phase.called ++ s.pending ++ s.finishing

/-- The accounts of a paced queue while the tasks `called` are being called, after tasks with
the given results. -/
structure Accounts (config : Config) (results : List (ℕ × Except E V)) (called : List ℕ)
    (s : State V E) : Prop where
  /-- Every accepted submission has a number of its own. -/
  accepted : acceptedIds s.log = List.range s.submitted
  /-- Tasks are started in the order of submission, and the others are queued in this order. -/
  order : startedIds s.log ++ s.queue = acceptedIds s.log
  spaced : (startTimes s.log).IsChain fun t t' => config.minIntervalMs.le (.finite (t' - t)) = true
  concurrent : (JsNumber.ofNat s.inFlight).le config.maxConcurrent = true
  queued : (JsNumber.ofNat s.queue.length).le config.maxQueue = true
  refused : ∀ n ∈ refusals s.log, config.maxQueue.le (.ofNat n) = true
  /-- Every task that has a result passes it on to its caller. -/
  answered : answers s.log = results
  /-- The started tasks are those being called, those pending and those with a result. -/
  started : (startedIds s.log).Perm (called ++ s.pending ++ results.map Prod.fst)
  /-- A slot is taken for the tasks in flight and no others. -/
  slots : s.inFlight = (called ++ s.pending ++ s.finishing).length

/-- What a paced queue promises. -/
structure Paced (config : Config) (results : List (ℕ × Except E V)) (s : State V E) : Prop where
  accounts : Accounts config results s.phase.called s
  /-- With no task in flight an idle limiter has nothing queued. -/
  drained : s.phase = .idle → s.tasksInFlight = [] → s.queue = []

/-! ### The invariant -/

/-- The time of the last start; negative infinity before the first. -/
def lastOf (times : List ℚ) : JsNumber := times.getLast?.elim (.infinite true) .finite

/-- The invariant up to the place of the drain loop. -/
structure Kept (config : Config) (results : List (ℕ × Except E V)) (called : List ℕ)
    (s : State V E) : Prop where
  accounts : Accounts config results called s
  last : s.lastStart = lastOf (startTimes s.log)

/-- The loop sleeps with a free slot, for what is left of the interval. -/
def SleepsRight (config : Config) (s : State V E) : Prop :=
  ∀ since wait, s.phase = .sleeping since wait →
    (JsNumber.ofNat s.inFlight).lt config.maxConcurrent = true ∧
      wait = config.minIntervalMs.sub ((JsNumber.finite since).sub s.lastStart)

structure Good (config : Config) (results : List (ℕ × Except E V)) (s : State V E) : Prop where
  kept : Kept config results s.phase.called s
  sleeping : SleepsRight config s
  /-- An idle loop has left an entry only for want of a slot. -/
  idle : s.phase = .idle → s.queue ≠ [] →
    ¬ (JsNumber.ofNat s.inFlight).lt config.maxConcurrent = true

/-- The interval is a number, and the limits are whole. -/
structure Config.Regular (config : Config) : Prop where
  interval : config.minIntervalMs ≠ .nan
  concurrent : config.maxConcurrent.IsWhole
  queue : config.maxQueue.IsWhole

/-! ### The drain loop -/

section pieces
variable {config : Config} {results : List (ℕ × Except E V)} {called : List ℕ} {s : State V E}
  {later : ℚ}

/-- What the accounts say does not depend on the clock, the phase and the other counters. -/
theorem Kept.congr {s' : State V E} (h : Kept config results called s) (hlog : s'.log = s.log)
    (hqueue : s'.queue = s.queue) (hinFlight : s'.inFlight = s.inFlight)
    (hpending : s'.pending = s.pending) (hfinishing : s'.finishing = s.finishing)
    (hsubmitted : s'.submitted = s.submitted) (hlast : s'.lastStart = s.lastStart) :
    Kept config results called s' := by
  obtain ⟨⟨h1, h2, h3, h4, h5, h6, h7, h8, h9⟩, h10⟩ := h
  constructor
  · constructor <;> simp only [hlog, hqueue, hinFlight, hpending, hfinishing, hsubmitted] <;>
      assumption
  · rw [hlast, hlog]
    exact h10

theorem stop_good (h : Kept config results [] s)
    (hidle : s.queue ≠ [] → ¬ (JsNumber.ofNat s.inFlight).lt config.maxConcurrent = true) :
    Good config results (s.stop later) where
  kept := h.congr rfl rfl rfl rfl rfl rfl rfl
  sleeping := nofun
  idle := fun _ => hidle

/-- Starting the next task in a free slot, once the interval since the last start is over. -/
theorem start_good (hconfig : config.Regular) (h : Kept config results [] s)
    (hslot : (JsNumber.ofNat s.inFlight).lt config.maxConcurrent = true)
    (hspace : ∀ t, s.lastStart = .finite t →
      config.minIntervalMs.le (.finite (later - t)) = true) :
    Good config results (s.start later) := by
  unfold State.start
  cases hqueue : s.queue with
  | nil => exact stop_good h fun hne => absurd hqueue hne
  | cons id queue =>
      obtain ⟨haccounts, hlast⟩ := h
      have hids : startedIds (s.log ++ [.started id later]) = startedIds s.log ++ [id] := by
        simp [startedIds, starts]
      have htimes : startTimes (s.log ++ [.started id later]) = startTimes s.log ++ [later] := by
        simp [startTimes, starts]
      refine ⟨⟨⟨?_, ?_, ?_, ?_, ?_, ?_, ?_, ?_, ?_⟩, ?_⟩, nofun, nofun⟩
      · simpa [acceptedIds] using haccounts.accepted
      · have horder := haccounts.order
        rw [hqueue] at horder
        rw [hids, List.append_assoc, List.singleton_append, horder]
        simp [acceptedIds]
      · rw [htimes]
        refine haccounts.spaced.append (List.isChain_singleton later) fun t ht t' ht' => ?_
        obtain rfl : later = t' := by simpa using ht'
        apply hspace t
        rw [hlast, lastOf, ht]
        rfl
      · exact JsNumber.le_of_lt_whole hconfig.concurrent hslot
      · refine JsNumber.ofNat_le_mono ?_ haccounts.queued
        rw [hqueue, List.length_cons]
        exact Nat.le_succ _
      · simpa [refusals] using haccounts.refused
      · simpa [answers] using haccounts.answered
      · rw [hids]
        exact (haccounts.started.append_right [id]).trans List.perm_append_comm
      · have hslots := haccounts.slots
        simp only [List.nil_append, List.length_append] at hslots
        simp only [Phase.called, List.length_append, List.length_singleton, hslots]
        omega
      · rw [htimes, lastOf, List.getLast?_concat]
        rfl

/-- The loop goes to sleep, starts a task or stops. -/
theorem loop_good (hconfig : config.Regular) (h : Kept config results [] s)
    (hlater : s.clock ≤ later) : Good config results (s.loop config later) := by
  unfold State.loop
  split_ifs with hgo hwait
  · refine ⟨h.congr rfl rfl rfl rfl rfl rfl rfl, ?_, nofun⟩
    rintro since wait hphase
    obtain ⟨rfl, rfl⟩ := Phase.sleeping.inj hphase
    exact ⟨hgo.2, rfl⟩
  · apply start_good hconfig h hgo.2
    intro t ht
    apply JsNumber.le_of_no_wait hconfig.interval hlater
    rw [State.wait, ht] at hwait
    exact hwait
  · exact stop_good h fun hne hslot => hgo ⟨hne, hslot⟩

theorem drain_of_idle (h : s.phase = .idle) : s.drain config later = s.loop config later := by
  simp only [State.drain, h]

/-- A drain that finds the loop at work leaves it alone. -/
theorem drain_of_busy (h : s.phase ≠ .idle) :
    s.drain config later = { s with clock := later } := by
  unfold State.drain
  split
  · contradiction
  · rfl

theorem drain_good (hconfig : config.Regular) (h : Kept config results s.phase.called s)
    (hsleeping : SleepsRight config s) (hlater : s.clock ≤ later) :
    Good config results (s.drain config later) := by
  by_cases hidle : s.phase = .idle
  · rw [drain_of_idle hidle]
    rw [hidle] at h
    exact loop_good hconfig h hlater
  · rw [drain_of_busy hidle]
    exact ⟨h.congr rfl rfl rfl rfl rfl rfl rfl, hsleeping, fun hphase => absurd hphase hidle⟩

/-! ### The events -/

theorem schedule_good (hconfig : config.Regular) (h : Good config results s)
    (hlater : s.clock ≤ later) : Good config results (s.schedule config later) := by
  obtain ⟨⟨haccounts, hlast⟩, hsleeping, hidle⟩ := h
  unfold State.schedule
  split_ifs with hfull
  · refine ⟨⟨⟨?_, ?_, ?_, haccounts.concurrent, haccounts.queued, ?_, ?_, ?_, haccounts.slots⟩,
      ?_⟩, hsleeping, hidle⟩
    · simpa [acceptedIds] using haccounts.accepted
    · simpa [acceptedIds, startedIds, starts] using haccounts.order
    · simpa [startTimes, starts] using haccounts.spaced
    · intro n hn
      rw [refusals, List.filterMap_append, List.mem_append] at hn
      obtain hn | hn := hn
      · exact haccounts.refused n hn
      · obtain rfl : n = s.queue.length := by simpa using hn
        exact hfull
    · simpa [answers] using haccounts.answered
    · simpa [startedIds, starts] using haccounts.started
    · simpa [startTimes, starts] using hlast
  · have hnew : acceptedIds (s.log ++ [.accepted s.submitted]) =
        acceptedIds s.log ++ [s.submitted] := by simp [acceptedIds]
    have hsame : startedIds (s.log ++ [.accepted s.submitted]) = startedIds s.log := by
      simp [startedIds, starts]
    refine drain_good hconfig ?_ hsleeping hlater
    refine ⟨⟨?_, ?_, ?_, haccounts.concurrent, ?_, ?_, ?_, ?_, haccounts.slots⟩, ?_⟩
    · rw [hnew, haccounts.accepted, List.range_succ]
    · rw [hsame, hnew, ← haccounts.order, List.append_assoc]
    · simpa [startTimes, starts] using haccounts.spaced
    · rw [List.length_append, List.length_singleton]
      exact JsNumber.le_of_lt_whole hconfig.queue (JsNumber.lt_of_not_le_whole hconfig.queue hfull)
    · simpa [refusals] using haccounts.refused
    · simpa [answers] using haccounts.answered
    · rw [hsame]
      exact haccounts.started
    · simpa [startTimes, starts] using hlast

/-- A settled promise is passed on, and keeps its slot until the last callback. -/
theorem answer_good {id : ℕ} {result : Except E V} (h : Good config results s)
    (hid : id ∈ s.pending) :
    Good config (results ++ [(id, result)]) (s.answer later id result) := by
  obtain ⟨⟨haccounts, hlast⟩, hsleeping, hidle⟩ := h
  refine ⟨⟨⟨?_, ?_, ?_, haccounts.concurrent, haccounts.queued, ?_, ?_, ?_, ?_⟩, ?_⟩, hsleeping,
    hidle⟩
  · simpa [State.answer, acceptedIds] using haccounts.accepted
  · simpa [State.answer, acceptedIds, startedIds, starts] using haccounts.order
  · simpa [State.answer, startTimes, starts] using haccounts.spaced
  · simpa [State.answer, refusals] using haccounts.refused
  · have hnew : answers (s.log ++ [.answered id result]) = answers s.log ++ [(id, result)] := by
      simp [answers]
    rw [State.answer, hnew, haccounts.answered]
  · have hsame : startedIds (s.log ++ [.answered id result]) = startedIds s.log := by
      simp [startedIds, starts]
    have hmoved : (s.phase.called ++ s.pending ++ results.map Prod.fst).Perm
        (s.phase.called ++ s.pending.erase id ++ (results ++ [(id, result)]).map Prod.fst) := by
      rw [List.map_append, List.append_assoc, List.append_assoc]
      refine List.Perm.append_left _ ?_
      calc (s.pending ++ results.map Prod.fst).Perm
            (id :: s.pending.erase id ++ results.map Prod.fst) :=
            (List.perm_cons_erase hid).append_right _
        List.Perm _ (s.pending.erase id ++ (results.map Prod.fst ++ [id])) := by
            rw [← List.append_assoc]
            exact (List.perm_append_singleton id _).symm
    rw [State.answer, hsame]
    exact haccounts.started.trans hmoved
  · have hslots := haccounts.slots
    have hpos := List.length_pos_of_mem hid
    simp only [State.answer, List.length_append, List.length_erase_of_mem hid,
      List.length_singleton] at hslots ⊢
    omega
  · simpa [State.answer, startTimes, starts] using hlast

/-- The last callback of a task frees its slot. -/
theorem release_good {id : ℕ} (hconfig : config.Regular) (h : Good config results s)
    (hid : id ∈ s.finishing) (hlater : s.clock ≤ later) :
    Good config results (s.release config later id) := by
  obtain ⟨⟨haccounts, hlast⟩, hsleeping, -⟩ := h
  refine drain_good hconfig ?_ ?_ hlater
  · refine ⟨⟨haccounts.accepted, haccounts.order, haccounts.spaced, ?_, haccounts.queued,
      haccounts.refused, haccounts.answered, haccounts.started, ?_⟩, hlast⟩
    · exact JsNumber.ofNat_le_mono (Nat.sub_le _ 1) haccounts.concurrent
    · have hslots := haccounts.slots
      have hpos := List.length_pos_of_mem hid
      simp only [List.length_append, List.length_erase_of_mem hid] at hslots ⊢
      omega
  · intro since wait hphase
    obtain ⟨hslot, hwait⟩ := hsleeping since wait hphase
    exact ⟨JsNumber.ofNat_lt_mono (Nat.sub_le _ 1) hslot, hwait⟩

/-- The sleep returns, and the next task is started. -/
theorem wake_good {since : ℚ} {wait : JsNumber} (hconfig : config.Regular)
    (h : Good config results s) (hphase : s.phase = .sleeping since wait)
    (hslept : wait.le (.finite (s.clock - since)) = true) (hlater : s.clock ≤ later) :
    Good config results (s.start later) := by
  obtain ⟨hslot, hwait⟩ := h.sleeping since wait hphase
  have hkept := h.kept
  rw [hphase] at hkept
  apply start_good hconfig hkept hslot
  intro t ht
  rw [hwait, ht] at hslept
  exact JsNumber.le_of_waited hlater hslept

/-- The called task returns a promise, and the loop goes on. -/
theorem returned_good {id : ℕ} (hconfig : config.Regular) (h : Good config results s)
    (hphase : s.phase = .calling id) (hlater : s.clock ≤ later) :
    Good config results
      (State.loop config later { s with pending := s.pending ++ [id] }) := by
  obtain ⟨haccounts, hlast⟩ := h.kept
  rw [hphase] at haccounts
  refine loop_good hconfig ?_ hlater
  refine ⟨⟨haccounts.accepted, haccounts.order, haccounts.spaced, haccounts.concurrent,
    haccounts.queued, haccounts.refused, haccounts.answered, ?_, ?_⟩, hlast⟩
  · refine haccounts.started.trans (List.Perm.append_right _ ?_)
    exact (List.perm_append_singleton id s.pending).symm
  · have hslots := haccounts.slots
    simp only [Phase.called, List.length_append, List.length_singleton, List.length_nil]
      at hslots ⊢
    omega

/-- Every event but a task that throws when it is called keeps the invariant. -/
theorem step_good {e : Event V E} {s' : State V E} (hconfig : config.Regular)
    (h : Good config results s) (hcall : ∀ error, e.kind ≠ .threw error)
    (hstep : step config s e = .ok s') : Good config (results ++ outcome s e) s' := by
  obtain ⟨kind, later⟩ := e
  simp only [step] at hstep
  split_ifs at hstep with hclock
  have hlater : s.clock ≤ later := not_lt.mp hclock
  cases kind with
  | pass =>
      obtain rfl := Except.ok.inj hstep
      rw [outcome, List.append_nil]
      exact ⟨h.kept.congr rfl rfl rfl rfl rfl rfl rfl, h.sleeping, h.idle⟩
  | schedule =>
      obtain rfl := Except.ok.inj hstep
      rw [outcome, List.append_nil]
      exact schedule_good hconfig h hlater
  | wake =>
      cases hphase : s.phase with
      | sleeping since wait =>
          simp only [hphase] at hstep
          split_ifs at hstep with hslept
          obtain rfl := Except.ok.inj hstep
          rw [outcome, List.append_nil]
          exact wake_good hconfig h hphase hslept hlater
      | idle => simp [hphase] at hstep
      | calling id => simp [hphase] at hstep
  | returned =>
      cases hphase : s.phase with
      | calling id =>
          simp only [hphase] at hstep
          obtain rfl := Except.ok.inj hstep
          rw [outcome, List.append_nil]
          exact returned_good hconfig h hphase hlater
      | idle => simp [hphase] at hstep
      | sleeping since wait => simp [hphase] at hstep
  | threw error => exact absurd rfl (hcall error)
  | settled id result =>
      simp only at hstep
      split_ifs at hstep with hid
      obtain rfl := Except.ok.inj hstep
      exact answer_good h hid
  | released id =>
      simp only at hstep
      split_ifs at hstep with hid
      obtain rfl := Except.ok.inj hstep
      rw [outcome, List.append_nil]
      exact release_good hconfig h hid hlater

theorem Good.paced (hconfig : config.Regular)
    (hmax : ¬ config.maxConcurrent.lt (.ofNat 1) = true) (h : Good config results s) :
    Paced config results s := by
  refine ⟨h.kept.accounts, fun hphase hnone => ?_⟩
  have hzero : s.inFlight = 0 := by
    rw [h.kept.accounts.slots]
    exact congrArg List.length hnone
  by_contra hqueue
  apply h.idle hphase hqueue
  rw [hzero]
  exact JsNumber.zero_lt_whole hconfig.concurrent hmax

end pieces

/-! ### Runs -/

theorem initial_good {config : Config} (hconfig : config.Regular) (clock : ℚ) :
    Good config ([] : List (ℕ × Except E V)) (initialState clock) where
  kept :=
    { accounts :=
        { accepted := rfl
          order := rfl
          spaced := List.isChain_nil
          concurrent := JsNumber.zero_le_whole hconfig.concurrent
          queued := JsNumber.zero_le_whole hconfig.queue
          refused := nofun
          answered := rfl
          started := List.Perm.refl _
          slots := rfl }
      last := rfl }
  sleeping := nofun
  idle := fun _ hne => absurd rfl hne

/-- An accepted configuration has room for a task. -/
theorem Config.room_of_create {minIntervalMs maxConcurrent maxQueue : Option JsNumber}
    {config : Config} (h : Config.create minIntervalMs maxConcurrent maxQueue = .ok config) :
    ¬ config.maxConcurrent.lt (.ofNat 1) = true := by
  simp only [Config.create] at h
  split_ifs at h with hinterval hconcurrent hqueue
  obtain rfl := Except.ok.inj h
  exact hconcurrent

/-- For every accepted configuration whose limits are whole and whose interval is a number, and
for every run in which no task throws when it is called, the limiter is a paced queue. -/
theorem limiter_paced (minIntervalMs maxConcurrent maxQueue : Option JsNumber) (config : Config)
    (hcreate : Config.create minIntervalMs maxConcurrent maxQueue = .ok config)
    (hconfig : config.Regular) (clock : ℚ) (events : List (Event V E))
    (hcalls : ∀ e ∈ events, ∀ error, e.kind ≠ .threw error) :
    Paced config (ghostLog (step config) outcome (initialState clock) events)
      (run (step config) (initialState clock) events) := by
  apply Good.paced hconfig (Config.room_of_create hcreate)
  exact run_log_invariant (Q := fun _ e => ∀ error, e.kind ≠ .threw error)
    (fun results s e s' h hcall hstep => step_good hconfig h hcall hstep) events _ []
    (initial_good hconfig clock) (along_of_forall events _ hcalls)

/-- The configuration of a limiter without options. -/
def defaultConfig : Config := ⟨.ofNat 0, .ofNat 1, .ofNat 1000⟩

/-- Two submissions; the task of the first returns a promise, which rejects. -/
def rejectedTask : List (Event Unit String) :=
  [⟨.schedule, 1⟩, ⟨.returned, 1⟩, ⟨.schedule, 2⟩, ⟨.settled 0 (.error "refused"), 3⟩,
    ⟨.released 0, 3⟩]

theorem limiter_paced_rejectedTask :
    Paced defaultConfig (ghostLog (step defaultConfig) outcome (initialState 0) rejectedTask)
      (run (step defaultConfig) (initialState 0) rejectedTask) := by
  apply limiter_paced none none none defaultConfig (by decide +kernel)
  · exact ⟨nofun, .inr ⟨1, rfl⟩, .inr ⟨1000, rfl⟩⟩
  · simp [rejectedTask]

/-- Two submissions; the task of the first throws when it is called. -/
def thrownTask : List (Event Unit String) := [⟨.schedule, 1⟩, ⟨.threw "refused", 1⟩, ⟨.schedule, 2⟩]

/-- The first caller never gets an answer and the slot is lost: with no task in flight and an
idle loop the second submission stays in the queue. -/
theorem thrown_task_loses_slot :
    Config.create none none none = .ok defaultConfig ∧
      (run (step defaultConfig) (initialState 0) thrownTask).phase = .idle ∧
      (run (step defaultConfig) (initialState 0) thrownTask).tasksInFlight = [] ∧
      (run (step defaultConfig) (initialState 0) thrownTask).queue = [1] ∧
      (run (step defaultConfig) (initialState 0) thrownTask).inFlight = 1 ∧
      ¬ Paced defaultConfig (ghostLog (step defaultConfig) outcome (initialState 0) thrownTask)
        (run (step defaultConfig) (initialState 0) thrownTask) := by
  have hphase : (run (step defaultConfig) (initialState 0) thrownTask).phase = .idle := by
    decide +kernel
  have hnone : (run (step defaultConfig) (initialState 0) thrownTask).tasksInFlight = [] := by
    decide +kernel
  have hqueue : (run (step defaultConfig) (initialState 0) thrownTask).queue = [1] := by
    decide +kernel
  refine ⟨by decide +kernel, hphase, hnone, hqueue, by decide +kernel, fun hpaced => ?_⟩
  rw [hpaced.drained hphase hnone] at hqueue
  cases hqueue

/-- The constructor accepts a fractional bound, and the limiter passes it: two tasks are in
flight under a bound of one and a half. -/
example :
    let config : Config := ⟨.ofNat 0, .finite (3 / 2), .ofNat 1000⟩
    let events : List (Event Unit String) :=
      [⟨.schedule, 1⟩, ⟨.returned, 1⟩, ⟨.schedule, 2⟩, ⟨.returned, 2⟩]
    Config.create none (some (.finite (3 / 2))) none = .ok config ∧
      (run (step config) (initialState 0) events).inFlight = 2 := by decide +kernel

end YieldEngine.Limiter
