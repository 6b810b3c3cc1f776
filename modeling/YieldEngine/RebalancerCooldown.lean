import YieldEngine.RebalancerRuns
import Mathlib.Tactic.Linarith

/-! # The cooldown of the auto-rebalancer

The time of the last success is known to the keeper once it has restored its state, and to the
store before that (`knownTime`).  A run that has passed the cooldown check relies on this time
until its execution is reported, so the executions that report success are a cooldown apart as
long as the known time does not change behind its back.

It does when a second run passes the check before the first one has reported, when a run that
began before a success loads the state of the time before it, and when the process is killed
before the state is saved.  `spaced_run` shows that these are the only ways, but for a success
at time zero, which is taken for none. -/

namespace YieldEngine.Rebalancer

open Keeper

/-! ### Runs that leave the known time alone -/

/-- The run has passed its cooldown check, and its execution has not been reported. -/
def RunPhase.Committed : RunPhase → Prop
  | .savingSlot _ => True
  | .scanning => True
  | .simulating => True
  | .executing _ => True
  | _ => False

/-- The step does not invalidate a cooldown check.
* A run passes the check only while no other run is committed.
* State loaded into a keeper that has restored already is not older than what it knows.
* The process is killed only while the store holds what the keeper knows.
* A success is not reported at time zero. -/
def Undisturbed (config : RebalancerConfig) (w : World) : Action → Prop
  | .settle i (.resolved goesOn) =>
      match w.runs i with
      | .checkingLag => w.keeper.isReadyForRebalance config w.now = true →
          ∀ j, j ≠ i → ¬ (w.runs j).Committed
      | .loading loaded => w.keeper.stateRestored = true →
          restoredTime loaded w.keeper.lastExecutionTime = w.keeper.lastExecutionTime
      | .executing _ => goesOn = true → 0 < w.now
      | _ => True
  | .kill => w.keeper.stateRestored = true →
      restoredTime w.store 0 = w.keeper.lastExecutionTime
  | _ => True

/-! ### What the runs rely on -/

/-- The time of the last success as the keeper knows it or will restore it. -/
def knownTime (w : World) : ℤ :=
  if w.keeper.stateRestored then w.keeper.lastExecutionTime else restoredTime w.store 0

/-- A run of a keeper that has not restored yet has not come further than the load. -/
def RunPhase.Early (store : Option KeeperCheckpoint) : RunPhase → Prop
  | .finished => True
  | .loading loaded => loaded = store
  | _ => False

/-- The successes are spaced and known, and the run that may add one has passed the check
against the known time. -/
structure Cool (config : RebalancerConfig) (w : World) : Prop where
  spaced : Spaced config w
  known : ∀ t ∈ w.successes, (t : ℤ) ≤ knownTime w ∧ knownTime w ≠ 0
  past : ∀ t ∈ w.successes, t ≤ w.now
  unrestored : w.keeper.stateRestored = false →
    w.keeper.lastExecutionTime = 0 ∧ ∀ i, (w.runs i).Early w.store
  committed_one : ∀ i j, (w.runs i).Committed → (w.runs j).Committed → i = j
  ready : ∀ i, (w.runs i).Committed → w.keeper.isReadyForRebalance config w.now = true
  started : ∀ i t, w.runs i = .executing t →
    t ≤ w.now ∧ w.keeper.isReadyForRebalance config t = true

variable {config : RebalancerConfig} {w : World} {i : ℕ}

theorem isReady_iff {keeper : AutoRebalancer} {t : ℕ} :
    keeper.isReadyForRebalance config t = true ↔ keeper.lastExecutionTime = 0 ∨
      config.cooldownMs ≤ (t : ℚ) - keeper.lastExecutionTime := by
  unfold AutoRebalancer.isReadyForRebalance
  split_ifs with h <;> simp [h]

/-- Being ready lasts. -/
theorem isReady_mono {keeper : AutoRebalancer} {t t' : ℕ} (hle : t ≤ t')
    (h : keeper.isReadyForRebalance config t = true) :
    keeper.isReadyForRebalance config t' = true := by
  have hle' : (t : ℚ) ≤ t' := by exact_mod_cast hle
  rw [isReady_iff] at h ⊢
  refine h.imp_right fun hready => ?_
  linarith

/-- A committed run belongs to a keeper that has restored its state. -/
theorem Cool.restored (h : Cool config w) (hcommitted : (w.runs i).Committed) :
    w.keeper.stateRestored = true := by
  by_contra hnot
  have hearly := (h.unrestored (by simpa using hnot)).2 i
  cases hphase : w.runs i <;> simp_all [RunPhase.Committed, RunPhase.Early]

theorem cool_initial (now : ℕ) : Cool config (initialWorld now) where
  spaced := List.Pairwise.nil
  known := by simp [initialWorld]
  past := by simp [initialWorld]
  unrestored := fun _ => ⟨rfl, fun _ => trivial⟩
  committed_one := fun _ _ h => h.elim
  ready := fun _ h => h.elim
  started := by simp [initialWorld]

/-! ### One step -/

/-- A run may move to any phase that is not committed; to a committed one when no other run is
and the keeper is ready. -/
theorem Cool.setRun (h : Cool config w) {phase : RunPhase}
    (hcommitted : phase.Committed → (∀ j, j ≠ i → ¬ (w.runs j).Committed) ∧
      w.keeper.isReadyForRebalance config w.now = true)
    (hstarted : ∀ t, phase = .executing t →
      t ≤ w.now ∧ w.keeper.isReadyForRebalance config t = true)
    (hearly : w.keeper.stateRestored = false → phase.Early w.store) :
    Cool config (w.setRun i phase) where
  spaced := h.spaced
  known := h.known
  past := h.past
  unrestored := fun hnot => ⟨(h.unrestored hnot).1,
    (Function.forall_update_iff w.runs fun _ p => p.Early w.store).mpr
      ⟨hearly hnot, fun j _ => (h.unrestored hnot).2 j⟩⟩
  committed_one := by
    intro j k hj hk
    by_cases hji : j = i <;> by_cases hki : k = i
    · rw [hji, hki]
    · subst hji
      simp only [World.setRun, Function.update_self, Function.update_of_ne hki] at hj hk
      exact absurd hk ((hcommitted hj).1 k hki)
    · subst hki
      simp only [World.setRun, Function.update_self, Function.update_of_ne hji] at hj hk
      exact absurd hj ((hcommitted hk).1 j hji)
    · simp only [World.setRun, Function.update_of_ne hji, Function.update_of_ne hki] at hj hk
      exact h.committed_one j k hj hk
  ready := (Function.forall_update_iff w.runs fun _ p => p.Committed →
      w.keeper.isReadyForRebalance config w.now = true).mpr
    ⟨fun hc => (hcommitted hc).2, fun j _ => h.ready j⟩
  started := (Function.forall_update_iff w.runs fun _ p => ∀ t, p = .executing t →
      t ≤ w.now ∧ w.keeper.isReadyForRebalance config t = true).mpr
    ⟨hstarted, fun j _ => h.started j⟩

/-- A run may end at any time. -/
theorem Cool.finish (h : Cool config w) : Cool config (w.setRun i .finished) :=
  h.setRun (fun hcommitted => hcommitted.elim) (fun _ heq => by cases heq) (fun _ => trivial)

/-- Readiness depends on the keeper's time only. -/
theorem isReady_congr {keeper keeper' : AutoRebalancer} {t : ℕ}
    (h : keeper'.lastExecutionTime = keeper.lastExecutionTime) :
    keeper'.isReadyForRebalance config t = keeper.isReadyForRebalance config t := by
  simp [AutoRebalancer.isReadyForRebalance, h]

/-- Loading the state makes the known time the keeper's. -/
theorem Cool.load (h : Cool config w) {loaded : Option KeeperCheckpoint}
    (hphase : w.runs i = .loading loaded)
    (hfresh : w.keeper.stateRestored = true →
      restoredTime loaded w.keeper.lastExecutionTime = w.keeper.lastExecutionTime) :
    Cool config { w with keeper := w.keeper.restoreState loaded } := by
  cases hrestored : w.keeper.stateRestored with
  | true =>
      have htime : (w.keeper.restoreState loaded).lastExecutionTime = w.keeper.lastExecutionTime :=
        hfresh hrestored
      have hknown : knownTime { w with keeper := w.keeper.restoreState loaded } = knownTime w := by
        simp only [knownTime, hrestored, if_true]
        exact htime
      refine ⟨h.spaced, hknown ▸ h.known, h.past, (fun hnot => by cases hnot),
        h.committed_one, ?_, ?_⟩
      · intro j hj
        exact (isReady_congr htime).trans (h.ready j hj)
      · intro j t hj
        exact ⟨(h.started j t hj).1, (isReady_congr htime).trans (h.started j t hj).2⟩
  | false =>
      obtain ⟨hzero, hearly⟩ := h.unrestored hrestored
      obtain rfl : loaded = w.store := by
        have hi := hearly i
        rwa [hphase] at hi
      have hknown : knownTime { w with keeper := w.keeper.restoreState w.store } = knownTime w := by
        simp [knownTime, hrestored, AutoRebalancer.restoreState, hzero]
      refine ⟨h.spaced, hknown ▸ h.known, h.past, (fun hnot => by cases hnot),
        h.committed_one, ?_, ?_⟩
      · intro j hj
        exact absurd (h.restored hj) (by simp [hrestored])
      · intro j t hj
        have hj' := hearly j
        rw [hj] at hj'
        exact hj'.elim

/-- A save leaves the known time alone, as the keeper has restored its state. -/
theorem Cool.save (h : Cool config w) (hrestored : w.keeper.stateRestored = true)
    (checkpoint : KeeperCheckpoint) : Cool config { w with store := some checkpoint } where
  spaced := h.spaced
  known := by simpa [knownTime, hrestored] using h.known
  past := h.past
  unrestored := fun hnot => absurd (hrestored.symm.trans hnot) (by simp)
  committed_one := h.committed_one
  ready := h.ready
  started := h.started

/-- A run beyond the load belongs to a keeper that has restored its state. -/
theorem Cool.restored_of_not_early (h : Cool config w) (hphase : ¬ (w.runs i).Early w.store) :
    w.keeper.stateRestored = true := by
  by_contra hnot
  exact hphase ((h.unrestored (by simpa using hnot)).2 i)

/-- A run of a keeper that has restored its state moves to a phase other than an execution. -/
theorem Cool.goOn (h : Cool config w) (hrestored : w.keeper.stateRestored = true)
    {phase : RunPhase} (hexecution : ∀ t, phase ≠ .executing t)
    (hcommitted : phase.Committed → (∀ j, j ≠ i → ¬ (w.runs j).Committed) ∧
      w.keeper.isReadyForRebalance config w.now = true) : Cool config (w.setRun i phase) :=
  h.setRun hcommitted (fun t ht => absurd ht (hexecution t))
    (fun hnot => absurd (hrestored.symm.trans hnot) (by simp))

/-- A reported success is a cooldown later than every earlier one. -/
theorem Cool.success (h : Cool config w) {startedAt : ℕ} (hphase : w.runs i = .executing startedAt)
    (hpos : 0 < w.now) : Cool config (advance config w i true (.executing startedAt)) := by
  have hcommitted : (w.runs i).Committed := by
    rw [hphase]
    trivial
  have hrestored := h.restored hcommitted
  obtain ⟨hstarted, hready⟩ := h.started i startedAt hphase
  have hnone : ∀ j, ¬ ((Function.update w.runs i (.savingResult (AutoRebalancer.persistedState
      { w.keeper with lastExecutionTime := w.now } w.now))) j).Committed := by
    intro j hj
    by_cases hji : j = i
    · subst hji
      simp [RunPhase.Committed] at hj
    · rw [Function.update_of_ne hji] at hj
      exact hji (h.committed_one j i hj hcommitted)
  have hknown : knownTime (advance config w i true (.executing startedAt)) = w.now := by
    simp [advance, World.setRun, knownTime, hrestored]
  refine ⟨?_, ?_, ?_, ?_, ?_, ?_, ?_⟩
  · refine List.pairwise_cons.mpr ⟨fun t ht => ?_, h.spaced⟩
    obtain ⟨hle, hne⟩ := h.known t ht
    have hkeeper : knownTime w = w.keeper.lastExecutionTime := if_pos hrestored
    rw [hkeeper] at hle hne
    have hgap := (isReady_iff.mp hready).resolve_left hne
    have hle' : (t : ℚ) ≤ w.keeper.lastExecutionTime := by exact_mod_cast hle
    calc config.cooldownMs ≤ (startedAt : ℚ) - w.keeper.lastExecutionTime := hgap
      _ ≤ (startedAt : ℚ) - t := by linarith
      _ ≤ |(startedAt : ℚ) - t| := le_abs_self _
  · intro t ht
    rw [hknown]
    refine ⟨?_, by exact_mod_cast hpos.ne'⟩
    rcases List.mem_cons.mp ht with rfl | ht
    · exact_mod_cast hstarted
    · exact_mod_cast h.past t ht
  · intro t ht
    rcases List.mem_cons.mp ht with rfl | ht
    · exact hstarted
    · exact h.past t ht
  · intro hnot
    exact absurd (show w.keeper.stateRestored = false from hnot) (by simp [hrestored])
  · intro j k hj _
    exact absurd hj (hnone j)
  · intro j hj
    exact absurd hj (hnone j)
  · intro j t hj
    refine absurd ?_ (hnone j)
    have hj' : Function.update w.runs i (.savingResult (AutoRebalancer.persistedState
        { w.keeper with lastExecutionTime := w.now } w.now)) j = .executing t := hj
    rw [hj']
    trivial

/-- A settled promise keeps the successes spaced. -/
theorem cool_advance (h : Cool config w) {goesOn : Bool}
    (hquiet : Undisturbed config w (.settle i (.resolved goesOn))) :
    Cool config (advance config w i goesOn (w.runs i)) := by
  have hlone : (w.runs i).Committed → (∀ j, j ≠ i → ¬ (w.runs j).Committed) ∧
      w.keeper.isReadyForRebalance config w.now = true := by
    intro hcommitted
    exact ⟨fun j hj hcommitted' => hj (h.committed_one j i hcommitted' hcommitted),
      h.ready i hcommitted⟩
  cases hphase : w.runs i with
  | finished => exact h
  | loading loaded =>
      simp only [Undisturbed, hphase] at hquiet
      exact (h.load hphase hquiet).setRun (fun hc => hc.elim) (fun t ht => by cases ht)
        (fun hnot => by cases hnot)
  | checkingLag =>
      simp only [Undisturbed, hphase] at hquiet
      have hrestored := h.restored_of_not_early (i := i) (by simp [hphase, RunPhase.Early])
      simp only [advance]
      split_ifs with hready
      · exact h.goOn hrestored (fun _ => nofun) (fun _ => ⟨hquiet hready, hready⟩)
      · exact h.finish
  | savingSlot checkpoint =>
      rw [hphase] at hlone
      have hrestored := h.restored_of_not_early (i := i) (by simp [hphase, RunPhase.Early])
      exact (h.save hrestored checkpoint).goOn hrestored (fun _ => nofun) (fun _ => hlone trivial)
  | scanning =>
      rw [hphase] at hlone
      have hrestored := h.restored_of_not_early (i := i) (by simp [hphase, RunPhase.Early])
      simp only [advance]
      split_ifs
      · exact h.goOn hrestored (fun _ => nofun) (fun _ => hlone trivial)
      · exact h.finish
  | simulating =>
      rw [hphase] at hlone
      have hrestored := h.restored_of_not_early (i := i) (by simp [hphase, RunPhase.Early])
      simp only [advance]
      split_ifs
      · refine h.setRun (fun _ => hlone trivial) (fun t ht => ?_)
          (fun hnot => absurd (hrestored.symm.trans hnot) (by simp))
        cases ht
        exact ⟨le_rfl, (hlone trivial).2⟩
      · exact h.finish
  | executing startedAt =>
      cases goesOn with
      | true =>
          simp only [Undisturbed, hphase] at hquiet
          exact h.success hphase (hquiet trivial)
      | false => exact h.finish
  | savingResult checkpoint =>
      have hrestored := h.restored_of_not_early (i := i) (by simp [hphase, RunPhase.Early])
      exact (h.save hrestored checkpoint).goOn hrestored (fun _ => nofun) (fun hc => hc.elim)
  | notifying => exact h.finish

/-- Every undisturbed step keeps the successes spaced. -/
theorem cool_step {w' : World} {action : Action} (h : Cool config w)
    (hquiet : Undisturbed config w action) (hstep : step config w action = .ok w') :
    Cool config w' := by
  cases action with
  | tick ms =>
      obtain rfl := Except.ok.inj hstep
      refine ⟨h.spaced, h.known, ?_, h.unrestored, h.committed_one, ?_, ?_⟩
      · intro t ht
        exact (h.past t ht).trans (Nat.le_add_right _ _)
      · intro j hj
        exact isReady_mono (Nat.le_add_right _ _) (h.ready j hj)
      · intro j t hj
        exact ⟨(h.started j t hj).1.trans (Nat.le_add_right _ _), (h.started j t hj).2⟩
  | call i =>
      cases hphase : w.runs i <;> simp only [step, hphase] at hstep <;> cases hstep
      cases hrestored : w.keeper.stateRestored with
      | true =>
          simp only [World.startRun, hrestored, if_true]
          exact h.setRun (fun hc => hc.elim) (fun t ht => by cases ht)
            (fun hnot => absurd (hrestored.symm.trans hnot) (by simp))
      | false =>
          simp only [World.startRun, hrestored, Bool.false_eq_true, if_false]
          exact h.setRun (fun hc => hc.elim) (fun t ht => by cases ht) (fun _ => rfl)
  | settle i reply =>
      cases reply with
      | rejected =>
          obtain rfl := Except.ok.inj hstep
          exact h.finish
      | resolved goesOn =>
          obtain rfl := Except.ok.inj hstep
          exact cool_advance h hquiet
  | kill =>
      obtain rfl := Except.ok.inj hstep
      have hknown : knownTime { w with keeper := newRebalancer, runs := fun _ => .finished } =
          knownTime w := by
        cases hrestored : w.keeper.stateRestored with
        | true => simpa [knownTime, newRebalancer, hrestored] using hquiet hrestored
        | false => simp [knownTime, newRebalancer, hrestored]
      refine ⟨h.spaced, hknown ▸ h.known, h.past, fun _ => ⟨rfl, fun _ => trivial⟩, ?_, ?_, ?_⟩
      · intro j k hj
        exact hj.elim
      · intro j hj
        exact hj.elim
      · intro j t hj
        cases hj

/-- In every run that leaves the known time alone, the executions that report success are a
cooldown apart. -/
theorem spaced_run (config : RebalancerConfig) (now : ℕ) (actions : List Action)
    (hquiet : Transact.Along (step config) (Undisturbed config) (initialWorld now) actions) :
    Spaced config (Transact.run (step config) (initialWorld now) actions) := by
  have hcool : Cool config (Transact.run (step config) (initialWorld now) actions) :=
    Transact.run_invariant_along (fun w action w' hw hq hstep => cool_step hw hq hstep)
      actions (initialWorld now) (cool_initial now) hquiet
  exact hcool.spaced

/-! ### A cooldown of one hour -/

def hourly : RebalancerConfig := ⟨1⟩

/-- The promise run `i` waits for resolves, and the run goes on. -/
def goOn (i : ℕ) : Action := .settle i (.resolved true)

/-- Where only run `0` is under way, no other run is committed. -/
theorem not_committed_of_lone {runs : ℕ → RunPhase} (h : ∀ j, runs (j + 1) = .finished) {j : ℕ}
    (hj : j ≠ 0) : ¬ (runs j).Committed := by
  cases j with
  | zero => exact absurd rfl hj
  | succ j =>
      rw [h j]
      exact id

/-- A run that executes, and an hour later another one. -/
def hourApart : List Action :=
  [.call 0, goOn 0, goOn 0, goOn 0, goOn 0, goOn 0, goOn 0, goOn 0, goOn 0, .tick 3600000,
    .call 0, goOn 0, goOn 0, goOn 0, goOn 0, goOn 0]

theorem spaced_run_hourly :
    (Transact.run (step hourly) (initialWorld 5) hourApart).successes = [3600005, 5] ∧
      Spaced hourly (Transact.run (step hourly) (initialWorld 5) hourApart) := by
  refine ⟨by decide +kernel, spaced_run hourly 5 _ ⟨trivial, (fun h => by cases h),
    (fun _ j hj => not_committed_of_lone (fun _ => rfl) hj), trivial, trivial, trivial,
    (fun _ => by decide), trivial, trivial, trivial, trivial,
    (fun _ j hj => not_committed_of_lone (fun _ => rfl) hj), ?_, ?_, ?_, ?_, trivial⟩⟩
  · with_unfolding_all exact trivial
  · with_unfolding_all exact trivial
  · with_unfolding_all exact trivial
  · with_unfolding_all exact fun _ => by decide +kernel

/-- The second run passes the check while the first one is saving its slot. -/
def overlapping : List Action :=
  [.call 0, goOn 0, goOn 0, .call 1, goOn 1, goOn 0, goOn 0, goOn 0, goOn 0, goOn 1, goOn 1, goOn 1,
    goOn 1]

/-- The process is killed while the success is being saved, and runs again. -/
def killed : List Action :=
  [.call 0, goOn 0, goOn 0, goOn 0, goOn 0, goOn 0, goOn 0, .kill,
    .call 0, goOn 0, goOn 0, goOn 0, goOn 0, goOn 0, goOn 0]

theorem not_spaced_of_twice {w : World} (h : w.successes = [5, 5]) : ¬ Spaced hourly w := by
  intro hspaced
  rw [Spaced, h] at hspaced
  norm_num [hourly, RebalancerConfig.cooldownMs] at hspaced

/-- Both times two executions that start at time 5 report success. -/
theorem executed_twice : 0 < hourly.cooldownMs ∧
    ¬ Spaced hourly (Transact.run (step hourly) (initialWorld 5) overlapping) ∧
    ¬ Spaced hourly (Transact.run (step hourly) (initialWorld 5) killed) :=
  ⟨by norm_num [hourly, RebalancerConfig.cooldownMs], not_spaced_of_twice (by decide),
    not_spaced_of_twice (by decide)⟩

end YieldEngine.Rebalancer
