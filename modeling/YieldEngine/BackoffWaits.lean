import YieldEngine.BackoffRuns
import Mathlib.Tactic.NormNum

/-! # The waits of keeper backoff

The keeper's state follows the log of its tasks: the wait in force is the one the last recorded
result has set, and the counter holds the failures since the last success (`waitAfter`,
`failuresAfter`), both on top of the stored state.  `waits_run` shows that no task is started
before the stored wait is over nor before the wait in force is, whatever the ticks interleave.

A result recorded late replaces a wait that is still running, as `replaced_waits` shows: one
success ends the wait, and a later failure sets its own.  It also shows why the load must not
be overtaken: the first tick marks the state as loaded before the store has answered, so until
then the other ticks go by the empty state. -/

namespace YieldEngine.Backoff

variable {T : Type} {stored : Option BackoffState} {w : World T} {i : ℕ}

/-! ### What the log says -/

/-- The wait in force after the events of a log that starts with the wait `base`. -/
def waitAfter (base : ℚ) : List Event → ℚ
  | [] => base
  | .started _ :: log => waitAfter base log
  | .failed nextAttemptAt :: _ => nextAttemptAt
  | .succeeded :: _ => 0

/-- The failures recorded since the last success, on top of `base` where there is none. -/
def failuresAfter (base : ℕ) : List Event → ℕ
  | [] => base
  | .started _ :: log => failuresAfter base log
  | .failed _ :: log => failuresAfter base log + 1
  | .succeeded :: _ => 0

/-- Every task is started when the stored wait is over, and the wait in force is. -/
def WaitsKept (base : ℚ) : List Event → Prop
  | [] => True
  | .started now :: log => base ≤ now ∧ waitAfter base log ≤ now ∧ WaitsKept base log
  | .failed _ :: log => WaitsKept base log
  | .succeeded :: log => WaitsKept base log

/-- Every task is started when the stored wait and all waits set before are over. -/
def AllWaitsKept (base : ℚ) : List Event → Prop
  | [] => True
  | .started now :: log =>
      base ≤ now ∧ (∀ nextAttemptAt, .failed nextAttemptAt ∈ log → nextAttemptAt ≤ now) ∧
        AllWaitsKept base log
  | .failed _ :: log => AllWaitsKept base log
  | .succeeded :: log => AllWaitsKept base log

def Event.IsResult : Event → Prop
  | .started _ => False
  | .failed _ => True
  | .succeeded => True

/-- A task result is recorded. -/
def Resulted (log : List Event) : Prop := ∃ event ∈ log, event.IsResult

theorem resulted_started {now : ℚ} {log : List Event} :
    Resulted (.started now :: log) ↔ Resulted log := by
  simp [Resulted, Event.IsResult]

theorem resulted_cons (event : Event) (h : event.IsResult) (log : List Event) :
    Resulted (event :: log) := ⟨event, List.mem_cons_self, h⟩

theorem waitsKept_result {base : ℚ} {event : Event} (h : event.IsResult) {log : List Event} :
    WaitsKept base (event :: log) ↔ WaitsKept base log := by
  cases event with
  | started now => exact h.elim
  | failed nextAttemptAt => exact Iff.rfl
  | succeeded => exact Iff.rfl

/-! ### Stored states -/

/-- A stored wait lies neither before the epoch nor further ahead than a delay can. -/
def BackoffState.WellFormed (state : BackoffState) (policy : BackoffPolicy) (now : ℚ) : Prop :=
  0 ≤ state.nextAttemptAt ∧ state.nextAttemptAt ≤ now + policy.maxMs

/-- A state whose wait the repair keeps is restored as it was saved. -/
theorem repair_record_of_kept {state : BackoffState} {policy : BackoffPolicy} {now : ℚ}
    (hnext : max 0 (min state.nextAttemptAt (now + policy.maxMs)) = state.nextAttemptAt) :
    policy.repair state.record now = state := by
  have hfailures : (max 0 ⌊((state.consecutiveFailures : ℕ) : ℚ)⌋).toNat =
      state.consecutiveFailures := by
    rw [Int.floor_natCast]
    omega
  cases state
  simp only [BackoffPolicy.repair, BackoffState.record, Option.elim_some, Option.getD_some]
  exact congrArg₂ (fun failures next => BackoffState.mk failures next _ _) hfailures hnext

/-- A well-formed state is restored as it was saved. -/
theorem repair_record {state : BackoffState} {policy : BackoffPolicy} {now : ℚ}
    (h : state.WellFormed policy now) : policy.repair state.record now = state := by
  apply repair_record_of_kept
  rw [min_eq_left h.2, max_eq_right h.1]

/-- So is a state without a wait. -/
theorem repair_record_of_zero {state : BackoffState} {policy : BackoffPolicy} {now : ℚ}
    (h : state.nextAttemptAt = 0) : policy.repair state.record now = state := by
  apply repair_record_of_kept
  rw [h]
  exact max_eq_left (min_le_left _ _)

/-- The state a keeper starts from: the stored one, the empty one if there is none. -/
def restored (stored : Option BackoffState) : BackoffState := stored.getD emptyState

/-- The state is what the log leaves of the stored one. -/
def BackoffState.Follows (state : BackoffState) (stored : Option BackoffState)
    (log : List Event) : Prop :=
  state.nextAttemptAt = waitAfter (restored stored).nextAttemptAt log ∧
    state.consecutiveFailures = failuresAfter (restored stored).consecutiveFailures log

/-- Before the first result the stored state counts. -/
theorem follows_of_not_resulted (stored : Option BackoffState) {log : List Event}
    (h : ¬ Resulted log) : (restored stored).Follows stored log := by
  induction log with
  | nil => exact ⟨rfl, rfl⟩
  | cons event log ih =>
      cases event with
      | started now => exact ih fun hlog => h (resulted_started.mpr hlog)
      | failed nextAttemptAt =>
          exact absurd (resulted_cons (.failed nextAttemptAt) trivial log) h
      | succeeded => exact absurd (resulted_cons .succeeded trivial log) h

/-! ### Runs in which the load is not overtaken -/

/-- The stored state is being loaded. -/
def TickPhase.Restoring : TickPhase T → Prop
  | .loading => True
  | .loaded (some _) => True
  | _ => False

def TickPhase.Finished : TickPhase T → Prop
  | .finished _ => True
  | _ => False

/-- The store is reliable, and while the stored state is being loaded no task is started before
the stored wait is over and no task settles. -/
def Undisturbed (stored : Option BackoffState) (w : World T) : Action T → Prop
  | .reply _ resolved _ _ => resolved = true
  | .enter i =>
      match w.ticks i with
      | .entering => w.keeper.remainingMs w.now = 0 → (∃ j, (w.ticks j).Restoring) →
          (restored stored).nextAttemptAt ≤ w.now
      | _ => True
  | .settle i _ _ =>
      match w.ticks i with
      | .running => ∀ j, ¬ (w.ticks j).Restoring
      | _ => True
  | _ => True

/-! ### What the ticks rely on -/

/-- What a tick that is under way may rely on. -/
def TickPhase.Allowed (stored : Option BackoffState) (now : ℚ) (log : List Event) :
    TickPhase T → Prop
  | .loaded answer => answer = stored.map BackoffState.record
  | .running => (restored stored).nextAttemptAt ≤ now
  | .saving _ _ => Resulted log
  | .saved _ => Resulted log
  | _ => True

theorem TickPhase.Allowed.mono {phase : TickPhase T} {now now' : ℚ} {log log' : List Event}
    (hnow : now ≤ now') (hlog : Resulted log → Resulted log')
    (h : phase.Allowed stored now log) : phase.Allowed stored now' log' := by
  cases phase with
  | running => exact h.trans hnow
  | saving state recorded => exact hlog h
  | saved recorded => exact hlog h
  | loaded answer => exact h
  | _ => trivial

theorem TickPhase.Finished.allowed {phase : TickPhase T} (h : phase.Finished) {now : ℚ}
    {log : List Event} : phase.Allowed stored now log := by
  cases phase with
  | finished result => trivial
  | _ => exact h.elim

theorem TickPhase.Finished.not_restoring {phase : TickPhase T} (h : phase.Finished) :
    ¬ phase.Restoring := by
  cases phase with
  | finished result => exact id
  | _ => exact h.elim

/-- No result is recorded, and memory and store are as at the start. -/
structure Untouched (stored : Option BackoffState) (w : World T) : Prop where
  state : w.keeper.state = emptyState
  log : ¬ Resulted w.log
  store : w.store = stored.map BackoffState.record

/-- The waits are kept, and but for a load under way the keeper's state follows the log. -/
structure Sound (stored : Option BackoffState) (w : World T) : Prop where
  kept : WaitsKept (restored stored).nextAttemptAt w.log
  wellFormed : ∀ state ∈ stored, state.WellFormed w.keeper.policy w.now
  fresh : w.keeper.loaded = false → Untouched stored w ∧ ∀ i, (w.ticks i).Finished
  restoring : ∀ i, (w.ticks i).Restoring →
    Untouched stored w ∧ ∀ j, (w.ticks j).Restoring → j = i
  follows : w.keeper.loaded = true → (∀ i, ¬ (w.ticks i).Restoring) →
    w.keeper.state.Follows stored w.log
  allowed : ∀ i, (w.ticks i).Allowed stored w.now w.log
  resulted : Resulted w.log → (restored stored).nextAttemptAt ≤ w.now

theorem sound_initial {keeper : KeeperBackoff} {now : ℚ} (hstate : keeper.state = emptyState)
    (hloaded : keeper.loaded = false)
    (hstored : ∀ state ∈ stored, state.WellFormed keeper.policy now) :
    Sound stored (initialWorld (T := T) keeper (stored.map BackoffState.record) now) where
  kept := trivial
  wellFormed := hstored
  fresh := fun _ => ⟨⟨hstate, by simp [initialWorld, Resulted], rfl⟩, fun _ => trivial⟩
  restoring := fun _ h => h.elim
  follows := fun h => by cases hloaded.symm.trans h
  allowed := fun _ => trivial
  resulted := fun h => by simp [initialWorld, Resulted] at h

/-! ### One step -/

/-- What holds of all ticks after a move holds of the new phase and of the other ticks. -/
theorem World.forall_setTick (P : ℕ → TickPhase T → Prop) {phase : TickPhase T} :
    (∀ j, P j ((w.setTick i phase).ticks j)) ↔ P i phase ∧ ∀ j, j ≠ i → P j (w.ticks j) :=
  Function.forall_update_iff w.ticks P

/-- A tick that has not finished belongs to a keeper that has called `load`. -/
theorem Sound.loaded (h : Sound stored w) {phase : TickPhase T} (hphase : w.ticks i = phase)
    (hunfinished : ¬ phase.Finished) : w.keeper.loaded = true := by
  by_contra hnot
  have hfinished := (h.fresh (by simpa using hnot)).2 i
  rw [hphase] at hfinished
  exact hunfinished hfinished

/-- Once a result is recorded, the load is over. -/
theorem Sound.not_restoring (h : Sound stored w) (hresulted : Resulted w.log) (j : ℕ) :
    ¬ (w.ticks j).Restoring := fun hj => (h.restoring j hj).1.log hresulted

/-- A tick may move to any phase the invariant allows it; where it ends the load, the keeper
holds the state it was to restore. -/
theorem Sound.setTick (h : Sound stored w) (hloaded : w.keeper.loaded = true)
    {phase : TickPhase T} (hrestoring : phase.Restoring → (w.ticks i).Restoring)
    (hallowed : phase.Allowed stored w.now w.log)
    (hends : (w.ticks i).Restoring → ¬ phase.Restoring → w.keeper.state = restored stored) :
    Sound stored (w.setTick i phase) where
  kept := h.kept
  wellFormed := h.wellFormed
  fresh := fun hnot => absurd (hloaded.symm.trans hnot) (by simp)
  restoring := by
    have hold : ∀ j, ((w.setTick i phase).ticks j).Restoring → (w.ticks j).Restoring :=
      (World.forall_setTick fun j p => p.Restoring → (w.ticks j).Restoring).mpr
        ⟨hrestoring, fun _ _ => id⟩
    intro j hj
    obtain ⟨⟨hstate, hlog, hstore⟩, hone⟩ := h.restoring j (hold j hj)
    exact ⟨⟨hstate, hlog, hstore⟩, fun k hk => hone k (hold k hk)⟩
  follows := by
    intro _ hnone
    obtain ⟨hphase, hothers⟩ := (World.forall_setTick fun _ p => ¬ p.Restoring).mp hnone
    by_cases hi : (w.ticks i).Restoring
    · have hstate : (w.setTick i phase).keeper.state = restored stored := hends hi hphase
      rw [hstate]
      exact follows_of_not_resulted stored (h.restoring i hi).1.log
    · refine h.follows hloaded fun j => ?_
      by_cases hji : j = i
      · rwa [hji]
      · exact hothers j hji
  allowed := (World.forall_setTick fun _ p => p.Allowed stored w.now w.log).mpr
    ⟨hallowed, fun j _ => h.allowed j⟩
  resulted := h.resulted

/-- A tick that does not load the state may move to any other phase it is allowed. -/
theorem Sound.move (h : Sound stored w) (hloaded : w.keeper.loaded = true)
    (hi : ¬ (w.ticks i).Restoring) {phase : TickPhase T} (hphase : ¬ phase.Restoring)
    (hallowed : phase.Allowed stored w.now w.log) : Sound stored (w.setTick i phase) :=
  h.setTick hloaded (fun hp => absurd hp hphase) hallowed fun hp => absurd hp hi

/-- The first tick starts the load. -/
theorem Sound.firstCall (h : Sound stored w) (hnot : w.keeper.loaded = false) :
    Sound stored ({ w with keeper := { w.keeper with loaded := true } }.setTick i .loading) := by
  obtain ⟨⟨hstate, hlog, hstore⟩, hfinished⟩ := h.fresh hnot
  set called : World T := { w with keeper := { w.keeper with loaded := true } }
  have hone : ∀ j, ((called.setTick i .loading).ticks j).Restoring → j = i :=
    (World.forall_setTick fun j p => p.Restoring → j = i).mpr
      ⟨fun _ => rfl, fun j _ hj => absurd hj (hfinished j).not_restoring⟩
  refine ⟨h.kept, h.wellFormed, nofun, fun j hj => ?_, fun _ hnone => ?_, ?_, h.resulted⟩
  · exact ⟨⟨hstate, hlog, hstore⟩, fun k hk => (hone k hk).trans (hone j hj).symm⟩
  · exact absurd trivial ((World.forall_setTick fun _ p => ¬ p.Restoring).mp hnone).1
  · exact (World.forall_setTick fun _ p => p.Allowed stored w.now w.log).mpr
      ⟨trivial, fun j _ => (hfinished j).allowed⟩

/-- The store reads the record of the load. -/
theorem Sound.read (h : Sound stored w) (hphase : w.ticks i = .loading) :
    Sound stored (w.setTick i (.loaded w.store)) := by
  have hi : (w.ticks i).Restoring := by
    rw [hphase]
    trivial
  obtain ⟨⟨hstate, -, hstore⟩, -⟩ := h.restoring i hi
  refine h.setTick (h.loaded hphase id) (fun _ => hi) hstore fun _ hends => ?_
  cases stored with
  | none => exact hstate
  | some state =>
      rw [hstore] at hends
      exact absurd trivial hends

/-- The store writes a record, as results are recorded. -/
theorem Sound.write (h : Sound stored w) (hresulted : Resulted w.log)
    (store : Option StoredState) : Sound stored { w with store := store } where
  kept := h.kept
  wellFormed := h.wellFormed
  fresh := fun hnot => absurd hresulted (h.fresh hnot).1.log
  restoring := fun j hj => absurd hj (h.not_restoring hresulted j)
  follows := h.follows
  allowed := h.allowed
  resulted := h.resulted

/-- The answer to the load makes the keeper's state the one it was saved with. -/
theorem Sound.restore (h : Sound stored w) {answer : Option StoredState}
    (hphase : w.ticks i = .loaded answer) : Sound stored (w.restore i answer) := by
  have hloaded := h.loaded hphase id
  obtain rfl : answer = stored.map BackoffState.record := by
    have hallowed := h.allowed i
    rwa [hphase] at hallowed
  cases stored with
  | none => exact h.move hloaded (by simp [hphase, TickPhase.Restoring]) id trivial
  | some state =>
      have hi : (w.ticks i).Restoring := by
        rw [hphase]
        trivial
      obtain ⟨⟨-, hlog, -⟩, hone⟩ := h.restoring i hi
      have hrepair : w.keeper.policy.repair state.record w.now = state :=
        repair_record (h.wellFormed state rfl)
      have hnone : ∀ j, ¬ ((w.restore i (some state.record)).ticks j).Restoring :=
        (World.forall_setTick fun _ p => ¬ p.Restoring).mpr ⟨id, fun j hji hj => hji (hone j hj)⟩
      refine ⟨h.kept, h.wellFormed, fun hnot => ?_, fun j hj => absurd hj (hnone j),
        fun _ _ => ?_, ?_, h.resulted⟩
      · exact absurd (hloaded.symm.trans hnot) (by simp)
      · show (w.keeper.policy.repair state.record w.now).Follows (some state) w.log
        rw [hrepair]
        exact follows_of_not_resulted (some state) hlog
      · exact (World.forall_setTick fun _ p => p.Allowed (some state) w.now w.log).mpr
          ⟨trivial, fun j _ => h.allowed j⟩

/-- A result is recorded: the keeper's state follows the log. -/
theorem Sound.record (h : Sound stored w) (hloaded : w.keeper.loaded = true)
    (hnone : ∀ j, ¬ (w.ticks j).Restoring) (hwait : (restored stored).nextAttemptAt ≤ w.now)
    {state : BackoffState} {event : Event} (hevent : event.IsResult)
    (hfollows : state.Follows stored (event :: w.log)) : Sound stored (w.record state event) where
  kept := (waitsKept_result hevent).mpr h.kept
  wellFormed := h.wellFormed
  fresh := fun hnot => absurd (hloaded.symm.trans hnot) (by simp)
  restoring := fun j hj => absurd hj (hnone j)
  follows := fun _ _ => hfollows
  allowed := fun j => (h.allowed j).mono le_rfl fun _ => resulted_cons event hevent w.log
  resulted := fun _ => hwait

/-- A failure is recorded, or the tick ends without a record. -/
theorem Sound.fail (h : Sound stored w) (hloaded : w.keeper.loaded = true)
    (hnone : ∀ j, ¬ (w.ticks j).Restoring) (hwait : (restored stored).nextAttemptAt ≤ w.now)
    (error : Rejection) (random : ℚ) : Sound stored (w.fail i error random) := by
  unfold World.fail
  cases error.text with
  | error thrown => exact h.move hloaded (hnone i) id trivial
  | ok text =>
      have hfollows := h.follows hloaded hnone
      have hrecord : Sound stored (w.record (w.keeper.recordFailure w.now text random)
          (.failed (w.keeper.recordFailure w.now text random).nextAttemptAt)) :=
        h.record hloaded hnone hwait trivial ⟨rfl, congrArg (· + 1) hfollows.2⟩
      exact hrecord.move hloaded (hnone i) id (resulted_cons (.failed _) trivial w.log)

/-- A success is recorded. -/
theorem Sound.succeed (h : Sound stored w) (hloaded : w.keeper.loaded = true)
    (hnone : ∀ j, ¬ (w.ticks j).Restoring) (hwait : (restored stored).nextAttemptAt ≤ w.now)
    (value : T) : Sound stored (w.succeed i value) := by
  unfold World.succeed KeeperBackoff.recordSuccess
  split_ifs with hreset
  · have hrecord : Sound stored (w.record w.keeper.state .succeeded) :=
      h.record hloaded hnone hwait trivial ⟨hreset.2, hreset.1⟩
    exact hrecord.move hloaded (hnone i) id trivial
  · have hrecord : Sound stored (w.record ⟨0, 0, none, w.now⟩ .succeeded) :=
      h.record hloaded hnone hwait trivial ⟨rfl, rfl⟩
    exact hrecord.move hloaded (hnone i) id (resulted_cons .succeeded trivial w.log)

/-- The rest of a tick whose result is recorded. -/
theorem Sound.afterSave (h : Sound stored w) (hloaded : w.keeper.loaded = true)
    (hresulted : Resulted w.log) (callback : Except Rejection Unit) (random : ℚ)
    (recorded : Recorded T) : Sound stored (w.afterSave i callback random recorded) := by
  have hnone := h.not_restoring hresulted
  have hfinish : ∀ result, Sound stored (w.setTick i (.finished result)) := fun result =>
    h.move hloaded (hnone i) id trivial
  cases recorded with
  | success value afterFailures =>
      simp only [World.afterSave]
      split_ifs
      · cases callback with
        | ok _ => exact hfinish _
        | error thrown => exact h.fail hloaded hnone (h.resulted hresulted) thrown random
      · exact hfinish _
  | failure error delayMs =>
      simp only [World.afterSave]
      split_ifs
      · cases callback with
        | ok _ => exact hfinish _
        | error thrown => exact hfinish _
      · exact hfinish _

theorem remainingMs_eq_zero_iff {keeper : KeeperBackoff} {now : ℚ} :
    keeper.remainingMs now = 0 ↔ keeper.state.nextAttemptAt ≤ now := by
  rw [KeeperBackoff.remainingMs, max_eq_left_iff, sub_nonpos]

/-- A task is started when both waits are over. -/
theorem Sound.start (h : Sound stored w) (hwait : (restored stored).nextAttemptAt ≤ w.now)
    (hafter : waitAfter (restored stored).nextAttemptAt w.log ≤ w.now) :
    Sound stored { w with log := .started w.now :: w.log } where
  kept := ⟨hwait, hafter, h.kept⟩
  wellFormed := h.wellFormed
  fresh := by
    intro hnot
    obtain ⟨⟨hstate, hlog, hstore⟩, hfinished⟩ := h.fresh hnot
    exact ⟨⟨hstate, mt resulted_started.mp hlog, hstore⟩, hfinished⟩
  restoring := by
    intro j hj
    obtain ⟨⟨hstate, hlog, hstore⟩, hone⟩ := h.restoring j hj
    exact ⟨⟨hstate, mt resulted_started.mp hlog, hstore⟩, hone⟩
  follows := h.follows
  allowed := fun j => (h.allowed j).mono le_rfl resulted_started.mpr
  resulted := fun hlog => h.resulted (resulted_started.mp hlog)

/-- Where the keeper's wait is over, both waits are. -/
theorem Sound.waits_over (h : Sound stored w) (hloaded : w.keeper.loaded = true)
    (hstate : w.keeper.state.nextAttemptAt ≤ w.now)
    (hload : (∃ j, (w.ticks j).Restoring) → (restored stored).nextAttemptAt ≤ w.now) :
    (restored stored).nextAttemptAt ≤ w.now ∧
      waitAfter (restored stored).nextAttemptAt w.log ≤ w.now := by
  by_cases hrestoring : ∃ j, (w.ticks j).Restoring
  · have hwait := hload hrestoring
    obtain ⟨j, hj⟩ := hrestoring
    have hsame := (follows_of_not_resulted stored (h.restoring j hj).1.log).1
    exact ⟨hwait, hsame ▸ hwait⟩
  · have hafter := (h.follows hloaded (not_exists.mp hrestoring)).1 ▸ hstate
    refine ⟨?_, hafter⟩
    by_cases hlog : Resulted w.log
    · exact h.resulted hlog
    · rwa [← (follows_of_not_resulted stored hlog).1] at hafter

/-- The check of the wait. -/
theorem Sound.enter (h : Sound stored w) (hphase : w.ticks i = .entering)
    (hquiet : Undisturbed stored w (.enter i)) : Sound stored (w.enter i) := by
  have hloaded := h.loaded hphase id
  have hi : ¬ (w.ticks i).Restoring := by simp [hphase, TickPhase.Restoring]
  simp only [Undisturbed, hphase] at hquiet
  simp only [World.enter]
  split_ifs with hlong
  · exact h.move hloaded hi id trivial
  · have hover : w.keeper.remainingMs w.now = 0 :=
      le_antisymm (not_lt.mp hlong) (le_max_left _ _)
    obtain ⟨hwait, hafter⟩ :=
      h.waits_over hloaded (remainingMs_eq_zero_iff.mp hover) (hquiet hover)
    exact (h.start hwait hafter).move hloaded hi id hwait

/-- Time passes. -/
theorem Sound.pass (h : Sound stored w) {ms : ℚ} (hms : 0 ≤ ms) :
    Sound stored { w with now := w.now + ms } := by
  have hlater : w.now ≤ w.now + ms := le_add_of_nonneg_right hms
  refine ⟨h.kept, fun state hstate => ?_, fun hnot => ?_, fun j hj => ?_, h.follows,
    fun j => (h.allowed j).mono hlater id, fun hlog => (h.resulted hlog).trans hlater⟩
  · obtain ⟨hnonneg, hle⟩ := h.wellFormed state hstate
    exact ⟨hnonneg, hle.trans (add_le_add_left hlater _)⟩
  · obtain ⟨⟨hstate, hlog, hstore⟩, hfinished⟩ := h.fresh hnot
    exact ⟨⟨hstate, hlog, hstore⟩, hfinished⟩
  · obtain ⟨⟨hstate, hlog, hstore⟩, hone⟩ := h.restoring j hj
    exact ⟨⟨hstate, hlog, hstore⟩, hone⟩

/-- Every undisturbed step keeps the invariant. -/
theorem sound_step {w' : World T} {action : Action T} (h : Sound stored w)
    (hquiet : Undisturbed stored w action) (hstep : step w action = .ok w') :
    Sound stored w' := by
  cases action with
  | pass ms =>
      simp only [step] at hstep
      split_ifs at hstep with hms
      obtain rfl := Except.ok.inj hstep
      exact h.pass hms
  | call i =>
      cases hphase : w.ticks i <;> simp only [step, hphase] at hstep <;> cases hstep
      unfold World.callTick
      cases hloaded : w.keeper.loaded with
      | true => exact h.move hloaded (by simp [hphase, TickPhase.Restoring]) id trivial
      | false => exact h.firstCall hloaded
  | serve i =>
      have hallowed := h.allowed i
      cases hphase : w.ticks i <;> simp only [step, hphase] at hstep <;> cases hstep
      case serve.loading.refl => exact h.read hphase
      case serve.saving.refl state recorded =>
        rw [hphase] at hallowed
        have hresulted : Resulted w.log := hallowed
        exact (h.write hresulted (some state.record)).move (h.loaded hphase id)
          (h.not_restoring hresulted i) id hresulted
  | reply i resolved callback random =>
      obtain rfl : resolved = true := hquiet
      have hallowed := h.allowed i
      cases hphase : w.ticks i <;> simp only [step, hphase] at hstep <;> cases hstep
      case reply.loaded.refl answer => exact h.restore hphase
      case reply.saved.refl recorded =>
        rw [hphase] at hallowed
        exact h.afterSave (h.loaded hphase id) hallowed callback random recorded
  | enter i =>
      cases hphase : w.ticks i <;> simp only [step, hphase] at hstep <;> cases hstep
      exact h.enter hphase hquiet
  | settle i outcome random =>
      have hallowed := h.allowed i
      cases hphase : w.ticks i <;> simp only [step, hphase] at hstep <;>
        cases outcome <;> cases hstep
      all_goals
        simp only [Undisturbed, hphase] at hquiet
        rw [hphase] at hallowed
      case settle.running.ok.refl value =>
        exact h.succeed (h.loaded hphase id) hquiet hallowed value
      case settle.running.error.refl error =>
        exact h.fail (h.loaded hphase id) hquiet hallowed error random

/-- In every run on a reliable store whose load is not overtaken, no task is started before the
stored wait is over, nor before the wait the last recorded result has set; and when all ticks
have finished, the counter holds the failures recorded since the last success, the stored ones
included where there is none. -/
theorem waits_run {options : PolicyOptions} {keeper : KeeperBackoff} {now : ℚ}
    (hnew : newKeeperBackoff options = .ok keeper)
    (hstored : ∀ state ∈ stored, state.WellFormed keeper.policy now) (actions : List (Action T))
    (hquiet : Transact.Along step (Undisturbed stored)
      (initialWorld keeper (stored.map BackoffState.record) now) actions) :
    let w := Transact.run step (initialWorld keeper (stored.map BackoffState.record) now) actions
    WaitsKept (restored stored).nextAttemptAt w.log ∧
      (w.keeper.loaded = true → (∀ i, (w.ticks i).Finished) →
        w.keeper.state.consecutiveFailures =
          failuresAfter (restored stored).consecutiveFailures w.log) := by
  intro w
  have hkeeper : keeper.state = emptyState ∧ keeper.loaded = false := by
    unfold newKeeperBackoff at hnew
    cases hpolicy : validatePolicy options.withDefaults <;> rw [hpolicy] at hnew <;> cases hnew
    exact ⟨rfl, rfl⟩
  have hsound : Sound stored w :=
    Transact.run_invariant_along (fun v action v' hv hq hstep => sound_step hv hq hstep) actions _
      (sound_initial hkeeper.1 hkeeper.2 hstored) hquiet
  refine ⟨hsound.kept, fun hloaded hfinished => ?_⟩
  exact (hsound.follows hloaded fun j => (hfinished j).not_restoring).2

/-! ### Two ticks at a time -/

def defaultOptions : PolicyOptions := ⟨none, none, none, none, none⟩

def defaultKeeper : KeeperBackoff := ⟨defaultBackoffPolicy, emptyState, false⟩

/-- Every delay may be cut down to a millisecond. -/
def jitteryOptions : PolicyOptions := ⟨none, none, some 1, none, some 1⟩

def jitteryKeeper : KeeperBackoff :=
  ⟨{ defaultBackoffPolicy with factor := 1, jitterRatio := 1 }, emptyState, false⟩

def failedOnce : BackoffState := ⟨1, 0, none, 0⟩

def waiting : BackoffState := ⟨3, 5000, none, 0⟩

/-- Tick `i` restores the state and starts its task. -/
def firstTick (i : ℕ) : List (Action Unit) :=
  [.call i, .serve i, .reply i true (.ok ()) 0, .enter i]

def timedOut : Rejection := ⟨.ok "timeout"⟩

/-- The task of tick `0` fails while that of tick `1` is running; `last` is the result of tick
`1`, and half a second later tick `2` is called. -/
def overlapping (last : Action Unit) : List (Action Unit) :=
  firstTick 0 ++ [.call 1, .enter 1, .settle 0 (.error timedOut) 0, last, .pass 500, .call 2,
    .enter 2]

/-- While tick `0` is loading the state, tick `1` starts its task, and fails. -/
def overtaking : List (Action Unit) :=
  [.call 0, .serve 0, .call 1, .enter 1, .settle 1 (.error timedOut) 0, .serve 1,
    .reply 1 true (.ok ()) 0, .reply 0 true (.ok ()) 0, .enter 0]

/-- The world after a run from a stored state. -/
def runFrom (keeper : KeeperBackoff) (state : BackoffState) (actions : List (Action Unit)) :
    World Unit :=
  Transact.run step (initialWorld keeper ((some state).map BackoffState.record) 1000) actions

theorem wellFormed_failedOnce : failedOnce.WellFormed defaultBackoffPolicy 1000 :=
  ⟨by decide, by decide +kernel⟩

theorem wellFormed_waiting : waiting.WellFormed defaultBackoffPolicy 1000 :=
  ⟨by decide, by decide +kernel⟩

/-- Tick `0` restores a wait until 5000 and skips its task; tick `1` comes when the wait is over. -/
def waitedOut : List (Action Unit) :=
  firstTick 0 ++ [.pass 4000, .call 1, .enter 1, .settle 1 (.error timedOut) 0, .serve 1,
    .reply 1 true (.ok ()) 0]

theorem waits_run_waiting :
    let w := runFrom defaultKeeper waiting waitedOut
    w.log = [.failed 25000, .started 5000] ∧ WaitsKept 5000 w.log ∧
      (w.keeper.loaded = true → (∀ i, (w.ticks i).Finished) →
        w.keeper.state.consecutiveFailures = failuresAfter 3 w.log) := by
  have hnew : newKeeperBackoff defaultOptions = .ok defaultKeeper := by decide +kernel
  have hstored : ∀ state ∈ some waiting, state.WellFormed defaultKeeper.policy 1000 := by
    rintro _ ⟨⟩
    exact wellFormed_waiting
  refine ⟨by decide +kernel, waits_run hnew hstored waitedOut
    ⟨trivial, trivial, rfl, ?_, trivial, trivial, ?_, ?_, trivial, rfl, trivial⟩⟩
  · with_unfolding_all exact fun hover => absurd hover (by decide +kernel)
  · with_unfolding_all exact fun _ _ => by decide +kernel
  · with_unfolding_all exact fun j => match j with
      | 0 => id
      | 1 => id
      | _ + 2 => id

theorem not_allWaitsKept {base now : ℚ} (next : ℚ) {log : List Event} (hlt : now < next)
    (hmem : .failed next ∈ log) : ¬ AllWaitsKept base (.started now :: log) :=
  fun h => absurd (h.2.1 next hmem) (not_le.mpr hlt)

/-- Task `2` is started at 1500 although a failure has set the wait until 6000: in the first run
a success has been recorded since, in the second a failure with a wait until 1050.  In the
third run the stored wait until 5000 is not kept, and the failure recorded is lost. -/
theorem replaced_waits :
    (newKeeperBackoff defaultOptions = .ok defaultKeeper ∧
      newKeeperBackoff jitteryOptions = .ok jitteryKeeper ∧
      failedOnce.WellFormed defaultBackoffPolicy 1000 ∧
      waiting.WellFormed defaultBackoffPolicy 1000) ∧
    ¬ AllWaitsKept 0 (runFrom defaultKeeper failedOnce
      (overlapping (.settle 1 (.ok ()) 0))).log ∧
    ¬ AllWaitsKept 0 (runFrom jitteryKeeper failedOnce
      (overlapping (.settle 1 (.error timedOut) (99 / 100)))).log ∧
    ¬ AllWaitsKept 5000 (runFrom defaultKeeper waiting overtaking).log ∧
    (runFrom defaultKeeper waiting overtaking).keeper.state.consecutiveFailures ≠
      failuresAfter 3 (runFrom defaultKeeper waiting overtaking).log := by
  have hsuccess : (runFrom defaultKeeper failedOnce (overlapping (.settle 1 (.ok ()) 0))).log =
      [.started 1500, .succeeded, .failed 6000, .started 1000, .started 1000] := by
    decide +kernel
  have hfailure : (runFrom jitteryKeeper failedOnce
      (overlapping (.settle 1 (.error timedOut) (99 / 100)))).log =
      [.started 1500, .failed 1050, .failed 6000, .started 1000, .started 1000] := by
    decide +kernel
  have hearly : (runFrom defaultKeeper waiting overtaking).log =
      [.failed 0, .started 1000] := by
    decide +kernel
  rw [hsuccess, hfailure, hearly]
  refine ⟨⟨by decide +kernel, by decide +kernel, wellFormed_failedOnce, wellFormed_waiting⟩,
    not_allWaitsKept 6000 (by norm_num) (by simp),
    not_allWaitsKept 6000 (by norm_num) (by simp), fun h => ?_, by decide +kernel⟩
  exact absurd h.1 (by norm_num)

end YieldEngine.Backoff
