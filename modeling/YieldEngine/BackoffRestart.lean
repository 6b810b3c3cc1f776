import YieldEngine.BackoffTick
import YieldEngine.BackoffWaits
import YieldEngine.SilentCalls

/-! # Restarts between ticks

Ticks that do not overlap, over a store that does what it is asked to, and callbacks that do not
throw.  Between two ticks the keeper may be replaced by a new one over the same store
(`Move.restart`); the next tick of the new keeper restores the state.

The keeper that is never replaced needs no store: what it does is a function of its state
(`Turn.stateAfter`).  The keeper over its store does the same as long as the stored state is
restored as it was saved, which the cap of the delays and the order of the clock ensure
(`simulates`).  Times before the epoch do no harm: every tick waits
then. -/

namespace YieldEngine.Backoff

open SilentCalls

variable {T : Type}

/-! ### Runs -/

/-- A tick by itself: the clock when the state is restored, when the wait is checked and when the
result is recorded, the random number, and what the task does. -/
structure Turn (T : Type) where
  loadAt : ℚ
  checkAt : ℚ
  recordAt : ℚ
  random : ℚ
  task : Except Rejection T
deriving DecidableEq

/-- The store is reliable, and no callback throws. -/
def Turn.env (turn : Turn T) : TickEnv T where
  loadAt := turn.loadAt
  checkAt := turn.checkAt
  successAt := turn.recordAt
  failureAt := turn.recordAt
  random := turn.random
  task := turn.task
  loads := true
  savesSuccess := true
  savesFailure := true
  onRecover := .ok ()
  onBackoff := .ok ()

inductive Move (T : Type) where
  | tick (turn : Turn T)
  /-- The keeper is replaced by a new one over the same store. -/
  | restart

/-- What is seen of a tick: its report, and the state it leaves. -/
structure Seen (T : Type) where
  turn : Turn T
  report : Except Rejection (TickReport T)
  state : BackoffState
deriving DecidableEq

/-- A move of the keeper `fresh` that the constructor makes, or of one in its place. -/
def Keeping.move (fresh : KeeperBackoff) (s : Keeping) : Move T → Option (Seen T) × Keeping
  | .tick turn =>
      (some ⟨turn, (s.tick turn.env).1, (s.tick turn.env).2.keeper.state⟩, (s.tick turn.env).2)
  | .restart => (none, { s with keeper := fresh })

/-- What is seen of a run that starts with an empty store. -/
def seenOf (fresh : KeeperBackoff) (moves : List (Move T)) : List (Seen T) :=
  answers (Keeping.move fresh) ⟨fresh, none⟩ moves

def Move.turn? : Move T → Option (Turn T)
  | .tick turn => some turn
  | .restart => none

/-! ### The keeper that is never replaced -/

namespace Turn

/-- The state after a turn. -/
def stateAfter (turn : Turn T) (policy : BackoffPolicy) (state : BackoffState) : BackoffState :=
  let keeper : KeeperBackoff := ⟨policy, state, true⟩
  if 0 < keeper.remainingMs turn.checkAt then state
  else
    match turn.task with
    | .ok _ => (keeper.recordSuccess turn.recordAt).getD state
    | .error error =>
        match error.text with
        | .ok text => keeper.recordFailure turn.recordAt text turn.random
        | .error _ => state

def report (turn : Turn T) (policy : BackoffPolicy) (state : BackoffState) :
    Except Rejection (TickReport T) :=
  let keeper : KeeperBackoff := ⟨policy, state, true⟩
  if 0 < keeper.remainingMs turn.checkAt then .ok (.waiting (keeper.remainingMs turn.checkAt))
  else
    match turn.task with
    | .ok value => .ok (.ok value)
    | .error error =>
        match error.text with
        | .ok _ => .ok (.failed error (keeper.failureDelayMs turn.random))
        | .error thrown => .error ⟨.ok thrown⟩

end Turn

/-- The state of the keeper that is never replaced, and the clock at its last tick. -/
structure Standing where
  state : BackoffState
  since : ℚ

def Standing.turn (policy : BackoffPolicy) (standing : Standing) (turn : Turn T) :
    Seen T × Standing :=
  (⟨turn, turn.report policy standing.state, turn.stateAfter policy standing.state⟩,
    ⟨turn.stateAfter policy standing.state, turn.recordAt⟩)

/-! ### Delays -/

section delays
variable {policy : BackoffPolicy} {failures : ℕ} {random : ℚ}

/-- Rounding does not pass a whole number. -/
theorem round_le_whole {x m : ℚ} (hwhole : m.den = 1) (hle : x ≤ m) :
    (⌊x + 1 / 2⌋ : ℚ) ≤ m := by
  have hm : (m.num : ℚ) = m := (Rat.den_eq_one_iff m).mp hwhole
  rw [← hm] at hle ⊢
  have hfloor : ⌊x + 1 / 2⌋ ≤ m.num := Int.floor_le_iff.mpr (by linarith)
  exact_mod_cast hfloor

/-- A delay is capped, where the cap is a whole number of milliseconds. -/
theorem backoffDelayMs_le (hvalid : policy.Valid) (hwhole : policy.maxMs.den = 1)
    (hrandom : 0 ≤ random) : backoffDelayMs failures policy random ≤ policy.maxMs := by
  have hpos : 0 < policy.maxMs := hvalid.base.trans_le hvalid.maximum
  unfold backoffDelayMs
  split_ifs
  · exact hpos.le
  · set raw := min policy.maxMs (policy.baseMs *
      policy.factor ^ ⌊(failures : ℚ) - policy.startAfterFailures⌋.toNat)
    have hraw : 0 ≤ raw :=
      le_min hpos.le (mul_nonneg hvalid.base.le (pow_nonneg (zero_le_one.trans hvalid.factor) _))
    have hcut : 0 ≤ policy.jitterRatio * random := mul_nonneg hvalid.jitter_nonneg hrandom
    have hjittered : raw * (1 - policy.jitterRatio * random) ≤ policy.maxMs :=
      (mul_le_of_le_one_right hraw (by linarith)).trans (min_le_left _ _)
    have hone : 1 ≤ policy.maxMs := by
      have hm : (policy.maxMs.num : ℚ) = policy.maxMs := (Rat.den_eq_one_iff _).mp hwhole
      rw [← hm] at hpos ⊢
      exact_mod_cast hpos
    exact max_le hone (round_le_whole hwhole hjittered)

theorem one_le_backoffDelayMs (hreached : policy.startAfterFailures ≤ failures) :
    1 ≤ backoffDelayMs failures policy random := by
  unfold backoffDelayMs
  rw [if_neg (not_lt.mpr hreached)]
  exact le_max_left _ _

/-- Without jitter more failures do not cause a shorter delay. -/
theorem backoffDelayMs_mono (hvalid : policy.Valid) (hjitter : policy.jitterRatio = 0)
    {failures' : ℕ} (hle : failures ≤ failures') (random random' : ℚ) :
    backoffDelayMs failures policy random ≤ backoffDelayMs failures' policy random' := by
  have hcast : (failures : ℚ) ≤ failures' := Nat.cast_le.mpr hle
  by_cases hreached : policy.startAfterFailures ≤ failures
  · have hexponent : ⌊(failures : ℚ) - policy.startAfterFailures⌋.toNat ≤
        ⌊(failures' : ℚ) - policy.startAfterFailures⌋.toNat :=
      Int.toNat_le_toNat (Int.floor_le_floor (by linarith))
    have hpower := pow_le_pow_right₀ hvalid.factor hexponent
    have hraw := min_le_min_left policy.maxMs (mul_le_mul_of_nonneg_left hpower hvalid.base.le)
    unfold backoffDelayMs
    rw [if_neg (not_lt.mpr hreached), if_neg (not_lt.mpr (hreached.trans hcast))]
    simp only [hjitter, zero_mul, sub_zero, mul_one]
    refine max_le_max_left 1 (Int.cast_le.mpr (Int.floor_le_floor ?_))
    linarith
  · have hzero : backoffDelayMs failures policy random = 0 := by
      unfold backoffDelayMs
      exact if_pos (not_le.mp hreached)
    rw [hzero]
    unfold backoffDelayMs
    split_ifs
    · exact le_rfl
    · exact zero_le_one.trans (le_max_left _ _)

end delays

/-! ### The two keepers -/

/-- A keeper with the policy, as the constructor makes it. -/
def BackoffPolicy.keeper (policy : BackoffPolicy) : KeeperBackoff := ⟨policy, emptyState, false⟩

theorem newKeeperBackoff_ok {options : PolicyOptions} {fresh : KeeperBackoff}
    (h : newKeeperBackoff options = .ok fresh) :
    fresh = fresh.policy.keeper ∧ fresh.policy.Valid := by
  unfold newKeeperBackoff at h
  cases hpolicy : validatePolicy options.withDefaults with
  | error message =>
      rw [hpolicy] at h
      cases h
  | ok policy =>
      rw [hpolicy] at h
      obtain rfl := Except.ok.inj h
      obtain ⟨rfl, hvalid⟩ := validatePolicy_ok hpolicy
      exact ⟨rfl, hvalid⟩

/-- There is no wait, or one that is well-formed at the given time. -/
def BackoffState.Kept (state : BackoffState) (policy : BackoffPolicy) (now : ℚ) : Prop :=
  state.nextAttemptAt = 0 ∨ state.WellFormed policy now

/-- The keeper of a run is new or has restored the state; the store holds it, too, unless
nothing has been saved. -/
structure Carries (policy : BackoffPolicy) (s : Keeping) (standing : Standing) : Prop where
  kept : standing.state.Kept policy standing.since
  keeper : s.keeper = policy.keeper ∨ s.keeper = ⟨policy, standing.state, true⟩
  store : s.store = some standing.state.record ∨ s.store = none ∧ standing.state = emptyState

/-- Times that do not decrease, and a random number from 0 up to 1. -/
structure Turn.Regular (turn : Turn T) (since : ℚ) : Prop where
  loadAt : since ≤ turn.loadAt
  checkAt : turn.loadAt ≤ turn.checkAt
  recordAt : turn.checkAt ≤ turn.recordAt
  random_nonneg : 0 ≤ turn.random
  random_lt : turn.random < 1

section kept
variable {state : BackoffState} {policy : BackoffPolicy} {now : ℚ}

theorem BackoffState.Kept.later {later : ℚ} (h : state.Kept policy now) (hle : now ≤ later) :
    state.Kept policy later :=
  h.imp_right fun ⟨hnonneg, hmax⟩ => ⟨hnonneg, hmax.trans (by linarith)⟩

theorem BackoffState.Kept.repair (h : state.Kept policy now) :
    policy.repair state.record now = state :=
  h.elim repair_record_of_zero repair_record

/-- No task is started before the epoch. -/
theorem BackoffState.Kept.nonneg (h : state.Kept policy now) : 0 ≤ state.nextAttemptAt :=
  h.elim (fun hzero => hzero.ge) fun hwellFormed => hwellFormed.1

/-- The state a failure is recorded with. -/
theorem kept_recordFailure (hvalid : policy.Valid) (hwhole : policy.maxMs.den = 1) {random : ℚ}
    (hnow : 0 ≤ now) (hrandom : 0 ≤ random) (text : String) :
    ((⟨policy, state, true⟩ : KeeperBackoff).recordFailure now text random).Kept policy now := by
  have hle : (⟨policy, state, true⟩ : KeeperBackoff).failureDelayMs random ≤ policy.maxMs :=
    backoffDelayMs_le hvalid hwhole hrandom
  by_cases hdelay : 0 < (⟨policy, state, true⟩ : KeeperBackoff).failureDelayMs random
  · refine .inr ?_
    rw [KeeperBackoff.recordFailure, if_pos hdelay]
    exact ⟨by linarith, by linarith⟩
  · exact .inl (if_neg hdelay)

end kept

section twins
variable {policy : BackoffPolicy} {s : Keeping} {standing : Standing} {turn : Turn T}

/-- At its next tick the keeper has restored the state. -/
theorem Carries.init (h : Carries policy s standing) (hload : standing.since ≤ turn.loadAt) :
    s.init turn.env = ⟨⟨policy, standing.state, true⟩, s.store⟩ := by
  obtain ⟨keeper, store⟩ := s
  obtain hnew | hrestored := h.keeper
  · obtain rfl : keeper = policy.keeper := hnew
    obtain hsaved | ⟨hnone, hempty⟩ := h.store
    · obtain rfl : store = some standing.state.record := hsaved
      have hrepair := (h.kept.later hload).repair
      simp [Keeping.init, BackoffPolicy.keeper, Turn.env, hrepair]
    · obtain rfl : store = none := hnone
      simp [Keeping.init, BackoffPolicy.keeper, Turn.env, hempty]
  · obtain rfl : keeper = ⟨policy, standing.state, true⟩ := hrestored
    simp [Keeping.init]

theorem Carries.policy_eq (h : Carries policy s standing) : s.keeper.policy = policy := by
  obtain hnew | hrestored := h.keeper
  · rw [hnew]
    rfl
  · rw [hrestored]

/-- Over a reliable store a state is saved with the one in memory. -/
theorem carries_persist {state state' : BackoffState} {store : Option StoredState} {now : ℚ}
    (hkept : state.Kept policy now) :
    Carries policy (Keeping.persist ⟨⟨policy, state', true⟩, store⟩ state true) ⟨state, now⟩ :=
  ⟨hkept, .inr rfl, .inl rfl⟩

/-- The keeper that has restored the state keeps it where it records nothing. -/
theorem Carries.wait (h : Carries policy s standing) {now : ℚ} (hnow : standing.since ≤ now) :
    Carries policy ⟨⟨policy, standing.state, true⟩, s.store⟩ ⟨standing.state, now⟩ :=
  ⟨h.kept.later hnow, .inr rfl, h.store⟩

/-- A success that changes nothing is not saved. -/
theorem Carries.afterSuccess (h : Carries policy s standing)
    (hlater : standing.since ≤ turn.recordAt) {keeper : KeeperBackoff}
    (hkeeper : keeper = ⟨policy, standing.state, true⟩) :
    let state := (keeper.recordSuccess turn.recordAt).getD standing.state
    ((⟨keeper, s.store⟩ : Keeping).afterSuccess turn.env).keeper.state = state ∧
      Carries policy ((⟨keeper, s.store⟩ : Keeping).afterSuccess turn.env)
        ⟨state, turn.recordAt⟩ := by
  subst hkeeper
  unfold Keeping.afterSuccess
  have hclock : turn.env.successAt = turn.recordAt := rfl
  simp only [hclock]
  cases hrecord : (⟨policy, standing.state, true⟩ : KeeperBackoff).recordSuccess turn.recordAt with
  | none => exact ⟨rfl, h.wait hlater⟩
  | some reset =>
      have hreset : reset = ⟨0, 0, none, turn.recordAt⟩ := by
        unfold KeeperBackoff.recordSuccess at hrecord
        split_ifs at hrecord
        exact (Option.some.inj hrecord).symm
      subst hreset
      exact ⟨rfl, carries_persist (.inl rfl)⟩

/-- A tick does what the keeper that is never replaced does. -/
theorem Carries.tick (h : Carries policy s standing) (hvalid : policy.Valid)
    (hwhole : policy.maxMs.den = 1) (hturn : turn.Regular standing.since) :
    (s.tick turn.env).1 = turn.report policy standing.state ∧
      (s.tick turn.env).2.keeper.state = turn.stateAfter policy standing.state ∧
      Carries policy (s.tick turn.env).2
        ⟨turn.stateAfter policy standing.state, turn.recordAt⟩ := by
  have hinit := h.init hturn.loadAt
  have hlater := hturn.loadAt.trans (hturn.checkAt.trans hturn.recordAt)
  unfold Turn.report Turn.stateAfter
  by_cases hwait : 0 < (⟨policy, standing.state, true⟩ : KeeperBackoff).remainingMs turn.checkAt
  · have htick : s.tick turn.env = _ := tick_of_wait (by rw [hinit]; exact hwait)
    rw [htick, hinit, if_pos hwait, if_pos hwait]
    exact ⟨rfl, rfl, h.wait hlater⟩
  · have hover : (⟨policy, standing.state, true⟩ : KeeperBackoff).remainingMs turn.checkAt = 0 :=
      le_antisymm (not_lt.mp hwait) (le_max_left _ _)
    have hnow : 0 ≤ turn.recordAt :=
      (h.kept.nonneg.trans (remainingMs_eq_zero_iff.mp hover)).trans hturn.recordAt
    have htick : s.tick turn.env = _ :=
      tick_of_run (h.policy_eq ▸ hvalid.threshold) (by rw [hinit]; exact hover)
    have htask : turn.env.task = turn.task := rfl
    rw [if_neg hwait, if_neg hwait, htick, hinit]
    simp only [htask]
    cases turn.task with
    | ok value =>
        have hquiet : (⟨⟨policy, standing.state, true⟩, s.store⟩ : Keeping).recoverCall turn.env =
            .ok () := recoverCall_ok_iff.mpr fun _ => rfl
        obtain ⟨hstate, hcarries⟩ := h.afterSuccess hlater rfl
        simp only [hquiet]
        exact ⟨trivial, hstate, hcarries⟩
    | error error =>
        dsimp only
        cases htext : error.text with
        | error thrown =>
            rw [reportFailure_run_of_no_text _ _ htext]
            exact ⟨rfl, rfl, h.wait hlater⟩
        | ok text =>
            have hquiet : (⟨⟨policy, standing.state, true⟩, s.store⟩ : Keeping).backoffCall
                turn.env = .ok () := backoffCall_ok_iff.mpr fun _ => rfl
            rw [reportFailure_run htext, hquiet]
            exact ⟨rfl, rfl,
              carries_persist (kept_recordFailure hvalid hwhole hnow hturn.random_nonneg text)⟩

end twins

/-! ### What a run shows -/

/-- The tick did not run its task. -/
def Seen.waited (seen : Seen T) : Bool :=
  match seen.report with
  | .ok (.waiting _) => true
  | _ => false

/-- The failures since the last success, of which there were `failures` before the tick. -/
def Seen.failuresAfter (seen : Seen T) (failures : ℕ) : ℕ :=
  if seen.waited then failures
  else
    match seen.turn.task with
    | .ok _ => 0
    | .error _ => failures + 1

/-- What a tick does to the state before it, after so many failures since the last success. -/
structure Seen.Lawful (policy : BackoffPolicy) (before : BackoffState) (failures : ℕ)
    (seen : Seen T) : Prop where
  runs_iff : seen.waited = false ↔ before.nextAttemptAt ≤ seen.turn.checkAt
  waits : seen.waited = true → seen.state = before
  counts : seen.state.consecutiveFailures = seen.failuresAfter failures
  resets : seen.waited = false → ∀ value, seen.turn.task = .ok value → seen.state.nextAttemptAt = 0
  below : seen.waited = false → ∀ error, seen.turn.task = .error error →
    (failures + 1 : ℕ) < policy.startAfterFailures → seen.state.nextAttemptAt = 0
  delays : seen.waited = false → ∀ error, seen.turn.task = .error error →
    policy.startAfterFailures ≤ (failures + 1 : ℕ) → ∃ delayMs,
      seen.state.nextAttemptAt = seen.turn.recordAt + delayMs ∧ 1 ≤ delayMs ∧
        delayMs ≤ policy.maxMs ∧ delayMs = backoffDelayMs (failures + 1) policy seen.turn.random

/-- Every tick of a run is lawful; the state and the failures before it are those after the tick
before. -/
def Lawful (policy : BackoffPolicy) : BackoffState → ℕ → List (Seen T) → Prop
  | _, _, [] => True
  | before, failures, seen :: later =>
      seen.Lawful policy before failures ∧
        Lawful policy seen.state (seen.failuresAfter failures) later

/-- What the task rejects with has a text. -/
def Turn.HasText (turn : Turn T) : Prop :=
  ∀ error, turn.task = .error error → ∃ text, error.text = .ok text

/-- The turns follow one another on the clock. -/
def InOrder : ℚ → List (Turn T) → Prop
  | _, [] => True
  | since, turn :: later => turn.Regular since ∧ InOrder turn.recordAt later

section runs
variable {policy : BackoffPolicy}

theorem remainingMs_pos_iff {keeper : KeeperBackoff} {now : ℚ} :
    0 < keeper.remainingMs now ↔ now < keeper.state.nextAttemptAt := by
  simp [KeeperBackoff.remainingMs]

theorem waited_iff {turn : Turn T} {state after : BackoffState} :
    (⟨turn, turn.report policy state, after⟩ : Seen T).waited = true ↔
      turn.checkAt < state.nextAttemptAt := by
  have hpos : 0 < (⟨policy, state, true⟩ : KeeperBackoff).remainingMs turn.checkAt ↔
      turn.checkAt < state.nextAttemptAt := remainingMs_pos_iff
  rw [← hpos]
  by_cases hwait : 0 < (⟨policy, state, true⟩ : KeeperBackoff).remainingMs turn.checkAt
  · have hreport : turn.report policy state = .ok (.waiting _) := if_pos hwait
    simp [Seen.waited, hreport, hwait]
  · have hreport : turn.report policy state = _ := if_neg hwait
    refine iff_of_false ?_ hwait
    rw [Seen.waited, hreport]
    cases turn.task with
    | ok value => simp
    | error error => cases htext : error.text <;> simp [htext]

theorem stateAfter_of_wait {turn : Turn T} {state : BackoffState}
    (hwait : turn.checkAt < state.nextAttemptAt) : turn.stateAfter policy state = state :=
  if_pos (remainingMs_pos_iff.mpr hwait)

theorem stateAfter_of_success {turn : Turn T} {state : BackoffState}
    (hrun : state.nextAttemptAt ≤ turn.checkAt) {value : T} (htask : turn.task = .ok value) :
    (turn.stateAfter policy state).consecutiveFailures = 0 ∧
      (turn.stateAfter policy state).nextAttemptAt = 0 := by
  unfold Turn.stateAfter KeeperBackoff.recordSuccess
  rw [if_neg (mt remainingMs_pos_iff.mp (not_lt.mpr hrun)), htask]
  dsimp only
  split_ifs with hreset
  · exact hreset
  · exact ⟨rfl, rfl⟩

theorem stateAfter_of_failure {turn : Turn T} {state : BackoffState}
    (hrun : state.nextAttemptAt ≤ turn.checkAt) {error : Rejection}
    (htask : turn.task = .error error) {text : String} (htext : error.text = .ok text) :
    turn.stateAfter policy state =
      (⟨policy, state, true⟩ : KeeperBackoff).recordFailure turn.recordAt text turn.random := by
  unfold Turn.stateAfter
  rw [if_neg (mt remainingMs_pos_iff.mp (not_lt.mpr hrun)), htask]
  simp only [htext]

/-- A tick that waits keeps the laws. -/
theorem lawful_of_waited {before : BackoffState} {failures : ℕ} {seen : Seen T}
    (hwaited : seen.waited = true) (hwait : seen.turn.checkAt < before.nextAttemptAt)
    (hstate : seen.state = before) (hfailures : before.consecutiveFailures = failures) :
    seen.Lawful policy before failures where
  runs_iff := iff_of_false (by simp [hwaited]) (not_le.mpr hwait)
  waits := fun _ => hstate
  counts := by rw [hstate, Seen.failuresAfter, if_pos hwaited, hfailures]
  resets := fun hran => absurd hwaited (by simp [hran])
  below := fun hran => absurd hwaited (by simp [hran])
  delays := fun hran => absurd hwaited (by simp [hran])

theorem stateAfter_of_no_text {turn : Turn T} {state : BackoffState} {error : Rejection}
    (htask : turn.task = .error error) {thrown : String} (htext : error.text = .error thrown) :
    turn.stateAfter policy state = state := by
  unfold Turn.stateAfter
  rw [htask]
  simp only [htext, ite_self]

section ran
variable {before : BackoffState} {failures : ℕ} {seen : Seen T}

theorem failuresAfter_of_failure (hran : seen.waited = false) {error : Rejection}
    (htask : seen.turn.task = .error error) : seen.failuresAfter failures = failures + 1 := by
  rw [Seen.failuresAfter, hran, htask]
  rfl

/-- A success that is recorded keeps the laws. -/
theorem lawful_of_success (hran : seen.waited = false)
    (hrun : before.nextAttemptAt ≤ seen.turn.checkAt) {value : T}
    (htask : seen.turn.task = .ok value) (hfailures : seen.state.consecutiveFailures = 0)
    (hnext : seen.state.nextAttemptAt = 0) : seen.Lawful policy before failures where
  runs_iff := iff_of_true hran hrun
  waits := fun hwaited => absurd hwaited (by simp [hran])
  counts := by rw [hfailures, Seen.failuresAfter, hran, htask]; rfl
  resets := fun _ _ _ => hnext
  below := fun _ _ herror => by cases htask.symm.trans herror
  delays := fun _ _ herror => by cases htask.symm.trans herror

/-- A failure that is recorded keeps the laws. -/
theorem lawful_of_failure (hvalid : policy.Valid) (hwhole : policy.maxMs.den = 1)
    (hrandom : 0 ≤ seen.turn.random) (hran : seen.waited = false)
    (hrun : before.nextAttemptAt ≤ seen.turn.checkAt) {error : Rejection}
    (htask : seen.turn.task = .error error) {text : String}
    (hstate : seen.state = (⟨policy, before, true⟩ : KeeperBackoff).recordFailure
      seen.turn.recordAt text seen.turn.random) :
    seen.Lawful policy before before.consecutiveFailures where
  runs_iff := iff_of_true hran hrun
  waits := fun hwaited => absurd hwaited (by simp [hran])
  counts := by rw [hstate, failuresAfter_of_failure hran htask]; rfl
  resets := fun _ _ hvalue => by cases htask.symm.trans hvalue
  below := by
    intro _ _ _ hbelow
    rw [hstate]
    exact if_neg (mt backoffDelayMs_pos_iff.mp (not_le.mpr hbelow))
  delays := by
    intro _ _ _ hreached
    rw [hstate]
    exact ⟨_, if_pos (backoffDelayMs_pos_iff.mpr hreached), one_le_backoffDelayMs hreached,
      backoffDelayMs_le hvalid hwhole hrandom, rfl⟩

/-- A failure that is not recorded does not. -/
theorem not_lawful_of_unrecorded (hran : seen.waited = false) {error : Rejection}
    (htask : seen.turn.task = .error error) (hstate : seen.state = before) :
    ¬ seen.Lawful policy before before.consecutiveFailures := by
  intro h
  have hsame := h.counts
  rw [hstate, failuresAfter_of_failure hran htask] at hsame
  omega

end ran

/-- The keeper that is never replaced keeps the laws, but for a failure that has no text. -/
theorem lawful_turn_iff (hvalid : policy.Valid) (hwhole : policy.maxMs.den = 1)
    (standing : Standing) {turn : Turn T} (hrandom : 0 ≤ turn.random) :
    (standing.turn policy turn).1.Lawful policy standing.state
        standing.state.consecutiveFailures ↔
      ((standing.turn policy turn).1.waited = false → turn.HasText) := by
  have hwaited : (standing.turn policy turn).1.waited = true ↔ _ := waited_iff
  by_cases hwait : turn.checkAt < standing.state.nextAttemptAt
  · have hseen := hwaited.mpr hwait
    refine iff_of_true (lawful_of_waited hseen hwait (stateAfter_of_wait hwait) rfl) fun hran => ?_
    exact absurd hseen (by simp [hran])
  have hrun := not_lt.mp hwait
  have hran : (standing.turn policy turn).1.waited = false :=
    Bool.eq_false_iff.mpr (mt hwaited.mp hwait)
  rw [forall_prop_of_true hran]
  cases htask : turn.task with
  | ok value =>
      obtain ⟨hfailures, hnext⟩ : (turn.stateAfter policy standing.state).consecutiveFailures = 0 ∧
          (turn.stateAfter policy standing.state).nextAttemptAt = 0 :=
        stateAfter_of_success hrun htask
      exact iff_of_true (lawful_of_success hran hrun htask hfailures hnext)
        fun error herror => by cases htask.symm.trans herror
  | error error =>
      cases htext : error.text with
      | error thrown =>
          refine iff_of_false
            (not_lawful_of_unrecorded hran htask (stateAfter_of_no_text htask htext)) fun h => ?_
          obtain ⟨text, hsome⟩ := h error htask
          cases htext.symm.trans hsome
      | ok text =>
          have hlawful := lawful_of_failure hvalid hwhole hrandom hran hrun htask
            (stateAfter_of_failure hrun htask htext)
          refine iff_of_true hlawful fun other hother => ?_
          cases htask.symm.trans hother
          exact ⟨text, htext⟩

/-- Failures that have a text are all there is to the laws. -/
theorem lawful_answers_iff (hvalid : policy.Valid) (hwhole : policy.maxMs.den = 1)
    (turns : List (Turn T)) : ∀ standing : Standing,
      Admitted (Standing.turn policy) (fun standing turn => turn.Regular standing.since) standing
        turns →
      (Lawful policy standing.state standing.state.consecutiveFailures
          (allAnswers (Standing.turn policy) standing turns) ↔
        ∀ seen ∈ allAnswers (Standing.turn policy) standing turns,
          seen.waited = false → seen.turn.HasText) := by
  refine allAnswers_along
    (fun (standing : Standing) answers =>
      Lawful policy standing.state standing.state.consecutiveFailures answers ↔
        ∀ seen ∈ answers, seen.waited = false → seen.turn.HasText)
    (fun _ => iff_of_true trivial fun _ h => absurd h List.not_mem_nil)
    (fun standing turn later hturn hlater => ?_) turns
  have hhead := lawful_turn_iff hvalid hwhole standing hturn.random_nonneg
  rw [List.forall_mem_cons, Lawful]
  constructor
  · rintro ⟨hlawful, htail⟩
    exact ⟨hhead.mp hlawful, hlater.mp (hlawful.counts ▸ htail)⟩
  · rintro ⟨htext, htail⟩
    have hlawful := hhead.mpr htext
    exact ⟨hlawful, hlawful.counts ▸ hlater.mpr htail⟩

/-- A keeper over a reliable store does what the keeper that is never replaced does; a restart is
not seen. -/
theorem simulates (hvalid : policy.Valid) (hwhole : policy.maxMs.den = 1) :
    Simulates (Keeping.move policy.keeper) (Standing.turn (T := T) policy) Move.turn?
      (fun standing turn => turn.Regular standing.since) (Carries policy) where
  seen := by
    rintro s standing (turn | _) _ hcarries ⟨⟩ hturn
    obtain ⟨hreport, hstate, hnext⟩ := hcarries.tick hvalid hwhole hturn
    exact ⟨by simp only [Keeping.move, Standing.turn, hreport, hstate], hnext⟩
  silent := by
    rintro s standing (_ | _) hcarries ⟨⟩
    exact ⟨rfl, hcarries.kept, .inl rfl, hcarries.store⟩

theorem admitted_of_inOrder (turns : List (Turn T)) : ∀ standing : Standing,
    InOrder standing.since turns →
      Admitted (Standing.turn policy) (fun standing turn => turn.Regular standing.since) standing
        turns := by
  induction turns with
  | nil => exact fun _ _ => trivial
  | cons turn turns ih => exact fun _ horder => ⟨horder.1, ih _ horder.2⟩

end runs

/-- Every tick keeps the laws, replacing the keeper between ticks changes nothing of what is seen,
and without jitter the delays do not decrease. -/
structure Transparent (fresh : KeeperBackoff) (moves : List (Move T)) : Prop where
  lawful : Lawful fresh.policy emptyState 0 (seenOf fresh moves)
  unseen : seenOf fresh moves = seenOf fresh (moves.filter fun move => move.turn?.isSome)
  ordered : fresh.policy.jitterRatio = 0 → ∀ {failures failures' : ℕ} (random random' : ℚ),
    failures ≤ failures' → backoffDelayMs failures fresh.policy random ≤
      backoffDelayMs failures' fresh.policy random'

/-- A turn at one moment. -/
def turnAt (now : ℚ) (task : Except Rejection Unit) : Turn Unit := ⟨now, now, now, 0, task⟩

def timeout : Except Rejection Unit := .error timedOut

/-- Two failures, a restart, a tick that waits, another restart, and a success. -/
def outage : List (Move Unit) :=
  [.tick (turnAt 1000 timeout), .tick (turnAt 2000 timeout), .restart,
    .tick (turnAt 6000 (.ok ())), .restart, .tick (turnAt 7000 (.ok ()))]

theorem regular_turnAt {since now : ℚ} (h : since ≤ now) (task : Except Rejection Unit) :
    (turnAt now task).Regular since :=
  ⟨h, le_rfl, le_rfl, le_rfl, one_pos⟩

/-- A task that rejects with a value without a text. -/
def mute : List (Move Unit) := [.tick (turnAt 1000 (.error ⟨.error "no primitive value"⟩))]

end YieldEngine.Backoff
