import YieldEngine.BackoffRestart

/-! # A tick that no other one interrupts

The ticks of `BackoffRuns` stop at each of their awaits.  Where one of them goes through all of its
steps while no other tick moves, the keeper, the store and the result are those of the tick that
runs by itself (`run_alone`). -/

namespace YieldEngine.Backoff

open Transact

variable {T : Type}

/-- The result in which a report, or what is thrown instead of one, appears there. -/
def tickResult : Except Rejection (TickReport T) → TickResult T
  | .ok (.ok value) => .ranOk value
  | .ok (.waiting waitMs) => .skipped waitMs
  | .ok (.failed error delayMs) => .ranFailed error delayMs
  | .error thrown => .thrown thrown

/-- The tick is called, and loads the state if that has not been done. -/
def loading (i : ℕ) (ms : ℚ) : List (Action T) :=
  [.pass ms, .call i, .serve i, .reply i true (.ok ()) 0]

/-- The wait is checked. -/
def checking (i : ℕ) (ms : ℚ) : List (Action T) := [.pass ms, .enter i]

/-- The task settles, and what is recorded is saved. -/
def settling (i : ℕ) (ms : ℚ) (outcome : Except Rejection T) (random : ℚ) : List (Action T) :=
  [.pass ms, .settle i outcome random, .serve i, .reply i true (.ok ()) random]

/-- All steps of a tick. -/
def Turn.steps (turn : Turn T) (i : ℕ) (since : ℚ) : List (Action T) :=
  loading i (turn.loadAt - since) ++ (checking i (turn.checkAt - turn.loadAt) ++
    settling i (turn.recordAt - turn.checkAt) turn.task turn.random)

theorem Keeping.init_store (s : Keeping) (env : TickEnv T) : (s.init env).store = s.store := by
  unfold Keeping.init
  split_ifs
  · rfl
  · cases s.store <;> rfl
  · rfl

section alone
variable {w : World T} {i : ℕ} {turn : Turn T}

/-- The keeper restores its state once, as `init` does. -/
theorem run_loading {result : Option (TickResult T)} (hfinished : w.ticks i = .finished result)
    {ms : ℚ} (hms : 0 ≤ ms) (hload : w.now + ms = turn.loadAt) :
    run step w (loading i ms) =
      { w with keeper := (Keeping.init ⟨w.keeper, w.store⟩ turn.env).keeper,
               now := turn.loadAt }.setTick i .entering := by
  obtain ⟨keeper, ticks, store, now, log⟩ := w
  dsimp only at hfinished hload
  cases hloaded : keeper.loaded with
  | true =>
      simp [loading, commit, step, hms, hfinished, hload, World.callTick, hloaded, Keeping.init,
        World.setTick]
  | false =>
      cases store <;>
        simp [loading, commit, step, hms, hfinished, hload, World.callTick, hloaded, Keeping.init,
          World.setTick, World.restore, Turn.env]

/-- A tick that has to wait ends at its check. -/
theorem run_checking_of_wait (hentering : w.ticks i = .entering) {ms : ℚ} (hms : 0 ≤ ms)
    (hcheck : w.now + ms = turn.checkAt) (hwait : 0 < w.keeper.remainingMs turn.checkAt) :
    run step w (checking i ms) = { w with now := turn.checkAt }.setTick i
      (.finished (some (.skipped (w.keeper.remainingMs turn.checkAt)))) := by
  simp [checking, commit, step, hms, hentering, hcheck, World.enter, hwait]

theorem run_checking_of_run (hentering : w.ticks i = .entering) {ms : ℚ} (hms : 0 ≤ ms)
    (hcheck : w.now + ms = turn.checkAt) (hrun : w.keeper.remainingMs turn.checkAt = 0) :
    run step w (checking i ms) =
      { w with now := turn.checkAt, log := .started turn.checkAt :: w.log }.setTick i .running := by
  simp [checking, commit, step, hms, hentering, hcheck, World.enter, hrun]

/-- A tick that has finished is not moved by what would have ended it. -/
theorem run_settling_of_finished {result : Option (TickResult T)}
    (hfinished : w.ticks i = .finished result) {ms : ℚ} (hms : 0 ≤ ms)
    (outcome : Except Rejection T) (random : ℚ) :
    run step w (settling i ms outcome random) = { w with now := w.now + ms } := by
  simp [settling, commit, step, hms, hfinished]

/-- The task resolves. -/
theorem run_settling_of_ok (hrunning : w.ticks i = .running) {ms : ℚ} (hms : 0 ≤ ms)
    (hrecord : w.now + ms = turn.recordAt) (value : T) (random : ℚ) :
    let w' := run step w (settling i ms (.ok value) random)
    (⟨w'.keeper, w'.store⟩ : Keeping) = (⟨w.keeper, w.store⟩ : Keeping).afterSuccess turn.env ∧
      w'.ticks i = .finished (some (.ranOk value)) := by
  intro w'
  have hclock : turn.env.successAt = turn.recordAt := rfl
  simp only [Keeping.afterSuccess, hclock]
  cases hstate : w.keeper.recordSuccess turn.recordAt with
  | none =>
      simp [w', settling, commit, step, hms, hrunning, hrecord, World.succeed, hstate,
        World.setTick, World.record]
  | some state =>
      by_cases hrecover : w.keeper.policy.startAfterFailures ≤ w.keeper.state.consecutiveFailures
      all_goals
        simp [w', settling, commit, step, hms, hrunning, hrecord, World.succeed, hstate,
          World.setTick, World.record, World.afterSave, hrecover, Keeping.persist, Turn.env]

/-- The task rejects with a text. -/
theorem run_settling_of_error (hrunning : w.ticks i = .running) {ms : ℚ} (hms : 0 ≤ ms)
    (hrecord : w.now + ms = turn.recordAt) {error : Rejection} {text : String}
    (htext : error.text = .ok text) :
    let w' := run step w (settling i ms (.error error) turn.random)
    (⟨w'.keeper, w'.store⟩ : Keeping) =
        (⟨w.keeper, w.store⟩ : Keeping).afterFailure turn.env text ∧
      w'.ticks i = .finished (some (.ranFailed error (w.keeper.failureDelayMs turn.random))) := by
  intro w'
  by_cases hdelay : 0 < w.keeper.failureDelayMs turn.random
  all_goals
    simp [w', settling, commit, step, hms, hrunning, hrecord, World.fail, htext, World.setTick,
      World.record, World.afterSave, hdelay, Keeping.afterFailure, Keeping.persist, Turn.env]

/-- The task rejects without one. -/
theorem run_settling_of_no_text (hrunning : w.ticks i = .running) {ms : ℚ} (hms : 0 ≤ ms)
    {error : Rejection} {thrown : String} (htext : error.text = .error thrown) (random : ℚ) :
    let w' := run step w (settling i ms (.error error) random)
    (⟨w'.keeper, w'.store⟩ : Keeping) = ⟨w.keeper, w.store⟩ ∧
      w'.ticks i = .finished (some (.thrown ⟨.ok thrown⟩)) := by
  simp [settling, commit, step, hms, hrunning, World.fail, htext, World.setTick]

/-- The world when the tick has loaded the state. -/
def World.entered (w : World T) (i : ℕ) (turn : Turn T) : World T :=
  { w with keeper := (Keeping.init ⟨w.keeper, w.store⟩ turn.env).keeper,
           now := turn.loadAt }.setTick i .entering

/-- A tick goes on from the world in which it has loaded the state. -/
theorem run_steps {result : Option (TickResult T)} (hfinished : w.ticks i = .finished result)
    (hturn : turn.Regular w.now) :
    run step w (turn.steps i w.now) =
      run step (run step (w.entered i turn) (checking i (turn.checkAt - turn.loadAt)))
        (settling i (turn.recordAt - turn.checkAt) turn.task turn.random) := by
  have hload := run_loading hfinished (sub_nonneg.mpr hturn.loadAt)
    (add_sub_cancel w.now turn.loadAt)
  rw [World.entered, ← hload, ← run_append, ← run_append]
  rfl

theorem World.entered_ticks (w : World T) (i : ℕ) (turn : Turn T) :
    (w.entered i turn).ticks i = .entering := Function.update_self i _ _

/-- Keeper and store of the loaded world are those that `init` leaves. -/
theorem World.entered_keeping (w : World T) (i : ℕ) (turn : Turn T) :
    (⟨(w.entered i turn).keeper, (w.entered i turn).store⟩ : Keeping) =
      Keeping.init ⟨w.keeper, w.store⟩ turn.env :=
  congrArg (Keeping.mk _) (Keeping.init_store ⟨w.keeper, w.store⟩ turn.env).symm

/-- Keeper, store and result are those of a tick that runs by itself. -/
def World.EndsAs (w : World T) (i : ℕ) (ticked : Except Rejection (TickReport T) × Keeping) :
    Prop :=
  (⟨w.keeper, w.store⟩ : Keeping) = ticked.2 ∧ w.ticks i = .finished (some (tickResult ticked.1))

/-- The world when the task has been started. -/
def World.started (w : World T) (i : ℕ) (turn : Turn T) : World T :=
  { w with now := turn.checkAt, log := .started turn.checkAt :: w.log }.setTick i .running

theorem World.started_ticks (w : World T) (i : ℕ) (turn : Turn T) :
    (w.started i turn).ticks i = .running := Function.update_self i _ _

/-- A tick that has to wait does not start its task. -/
theorem run_alone_of_wait {result : Option (TickResult T)}
    (hfinished : w.ticks i = .finished result) (hturn : turn.Regular w.now)
    (hwait : 0 < (Keeping.init ⟨w.keeper, w.store⟩ turn.env).keeper.remainingMs turn.checkAt) :
    (run step w (turn.steps i w.now)).EndsAs i (Keeping.tick ⟨w.keeper, w.store⟩ turn.env) := by
  have hchecked := run_checking_of_wait (w.entered_ticks i turn) (sub_nonneg.mpr hturn.checkAt)
    (add_sub_cancel turn.loadAt turn.checkAt) hwait
  rw [run_steps hfinished hturn, hchecked,
    run_settling_of_finished (Function.update_self i _ _) (sub_nonneg.mpr hturn.recordAt),
    tick_of_wait hwait]
  exact ⟨w.entered_keeping i turn, Function.update_self i _ _⟩

/-- A tick without a wait starts its task, which settles after that. -/
theorem run_steps_of_run {result : Option (TickResult T)}
    (hfinished : w.ticks i = .finished result) (hturn : turn.Regular w.now)
    (hrun : (Keeping.init ⟨w.keeper, w.store⟩ turn.env).keeper.remainingMs turn.checkAt = 0) :
    run step w (turn.steps i w.now) = run step ((w.entered i turn).started i turn)
      (settling i (turn.recordAt - turn.checkAt) turn.task turn.random) := by
  have hchecked := run_checking_of_run (w.entered_ticks i turn) (sub_nonneg.mpr hturn.checkAt)
    (add_sub_cancel turn.loadAt turn.checkAt) hrun
  rw [run_steps hfinished hturn, hchecked, World.started]

/-- A tick that no other one interrupts leaves keeper and store as the tick that runs by itself
does, and has its result. -/
theorem run_alone (hvalid : 1 ≤ w.keeper.policy.startAfterFailures)
    {result : Option (TickResult T)} (hfinished : w.ticks i = .finished result)
    (hturn : turn.Regular w.now) :
    (run step w (turn.steps i w.now)).EndsAs i (Keeping.tick ⟨w.keeper, w.store⟩ turn.env) := by
  set s : Keeping := ⟨w.keeper, w.store⟩
  by_cases hwait : 0 < (s.init turn.env).keeper.remainingMs turn.checkAt
  · exact run_alone_of_wait hfinished hturn hwait
  · have hrun : (s.init turn.env).keeper.remainingMs turn.checkAt = 0 :=
      le_antisymm (not_lt.mp hwait) (le_max_left _ _)
    have htick : s.tick turn.env = _ := tick_of_run hvalid hrun
    have hsame : turn.env.task = turn.task := rfl
    have hkeeping := w.entered_keeping i turn
    have hrunning := (w.entered i turn).started_ticks i turn
    have hms := sub_nonneg.mpr hturn.recordAt
    have hrecord : turn.checkAt + (turn.recordAt - turn.checkAt) = turn.recordAt :=
      add_sub_cancel turn.checkAt turn.recordAt
    rw [run_steps_of_run hfinished hturn hrun]
    cases htask : turn.task with
    | ok value =>
        have hquiet : (s.init turn.env).recoverCall turn.env = .ok () :=
          recoverCall_ok_iff.mpr fun _ => rfl
        obtain ⟨hkept, hend⟩ := run_settling_of_ok hrunning hms hrecord value turn.random
        simp only [hsame, htask, hquiet] at htick
        rw [htick]
        exact ⟨hkept.trans (congrArg (Keeping.afterSuccess · turn.env) hkeeping), hend⟩
    | error error =>
        have hquiet : (s.init turn.env).backoffCall turn.env = .ok () :=
          backoffCall_ok_iff.mpr fun _ => rfl
        simp only [hsame, htask] at htick
        rw [htick]
        cases htext : error.text with
        | ok text =>
            obtain ⟨hkept, hend⟩ := run_settling_of_error hrunning hms hrecord htext
            rw [reportFailure_run htext, hquiet]
            exact ⟨hkept.trans (congrArg (Keeping.afterFailure · turn.env text) hkeeping), hend⟩
        | error thrown =>
            obtain ⟨hkept, hend⟩ := run_settling_of_no_text hrunning hms htext turn.random
            rw [reportFailure_run_of_no_text _ _ htext]
            exact ⟨hkept.trans hkeeping, hend⟩

end alone

end YieldEngine.Backoff
