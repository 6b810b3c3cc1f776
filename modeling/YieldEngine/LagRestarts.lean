import YieldEngine.LagReports

/-! # A keeper that comes back

The store only protects a keeper that goes by an order: it restores before it persists, waits for a
save before the next one and before it is replaced, and is the only one to persist.  The other
keepers may do anything else.  Under this order the stored position never goes back, and a restored
keeper that calls a check is told of no greater lag than from any position stored by then
(`stored_never_goes_back`).  A process that persists before it restores takes the position back to
the start (`persist_unrestored`). -/

namespace YieldEngine.RpcSync

open Checkpoint Transact

variable {s s' : System} {e : Event} {es : List Event} {i : ℕ} {ready : Bool}

/-- The highest ledger that is stored as processed, `-1` when nothing is. -/
def position (store : Option KeeperCheckpoint) : ℤ :=
  store.elim (-1) KeeperCheckpoint.lastProcessedLedger

/-- The process of the keeper has restored, as far as it had before the event. -/
def nextReady (i : ℕ) (ready : Bool) (s : System) : Event → Bool
  | .start j => if j = i then false else ready
  | .restored k => ready || s.loads[k]?.any (·.1 = i)
  | _ => ready

/-- The system, and whether the process of the keeper has restored. -/
def watched (i : ℕ) (t : Bool × System) (e : Event) : Except String (Bool × System) :=
  (nextReady i t.1 t.2 e, ·) <$> step t.2 e

/-- The order that the keeper goes by. -/
def InOrder (i : ℕ) (t : Bool × System) : Event → Prop
  | .start j => j = i → t.2.saves = []
  | .persist j _ => j = i ∧ t.1 = true ∧ t.2.saves = []
  | .clear => False
  | _ => True

/-! ### What the order keeps -/

/-- Before the keeper has restored nothing is saved, and its loads are up to date; after it, its
marker is ahead of what is stored and what is being saved. -/
structure Steady (i : ℕ) (ready : Bool) (s : System) : Prop where
  nonneg : 0 ≤ (s.monitors i).processedLedger
  single : s.saves.length ≤ 1
  saving : ∀ c ∈ s.saves, position s.store ≤ c.lastProcessedLedger ∧
    (c.lastProcessedLedger : ℚ) ≤ (s.monitors i).processedLedger
  ahead : ready = true → (position s.store : ℚ) ≤ (s.monitors i).processedLedger
  fresh : ready = false → s.saves = [] ∧ ∀ loaded, (i, loaded) ∈ s.loads → loaded = s.store

theorem steady_initial (i : ℕ) (c₀ : Option KeeperCheckpoint) :
    Steady i false (System.initial c₀) :=
  ⟨le_rfl, Nat.zero_le _, fun c h => (by cases h), fun h => (by cases h),
    fun _ => ⟨rfl, fun loaded h => (by cases h)⟩⟩

/-- Events that raise the marker and leave the store, the saves and the loads to be as they were. -/
theorem Steady.kept (h : Steady i ready s) (hstore : s'.store = s.store)
    (hsaves : s'.saves.Sublist s.saves)
    (hmarker : (s.monitors i).processedLedger ≤ (s'.monitors i).processedLedger)
    (hloads : ready = false → ∀ loaded, (i, loaded) ∈ s'.loads → loaded = s.store) :
    Steady i ready s' := by
  refine ⟨h.nonneg.trans hmarker, hsaves.length_le.trans h.single, fun c hc => ?_,
    fun hready => ?_, fun hready => ?_⟩
  · obtain ⟨hstored, hmark⟩ := h.saving c (hsaves.subset hc)
    rw [hstore]
    exact ⟨hstored, hmark.trans hmarker⟩
  · rw [hstore]
    exact (h.ahead hready).trans hmarker
  · rw [hstore]
    exact ⟨List.sublist_nil.mp ((h.fresh hready).1 ▸ hsaves), hloads hready⟩

theorem position_le_restoredLedger (c : KeeperCheckpoint) :
    (position (some c) : ℚ) ≤ restoredLedger c :=
  Int.cast_le.mpr (le_max_right _ _)

/-- What is stored is behind a marker that has taken it in. -/
theorem position_le_marker {store : Option KeeperCheckpoint} {m : RpcLagMonitor}
    (hpos : 0 ≤ m.processedLedger) (h : ∀ c, store = some c → restoredLedger c ≤ m.processedLedger) :
    (position store : ℚ) ≤ m.processedLedger := by
  cases store with
  | none =>
      have hnone : ((position none : ℤ) : ℚ) = -1 := by norm_num [position]
      rw [hnone]
      linarith
  | some c => exact (position_le_restoredLedger c).trans (h c rfl)

/-- The answer to a load of the keeper makes it ready. -/
theorem Steady.answered {k j : ℕ} {loaded : Option KeeperCheckpoint} (h : Steady i ready s)
    (hload : s.loads[k]? = some (j, loaded)) (hstore : s'.store = s.store)
    (hsaves : s'.saves = s.saves) (hloads : s'.loads = s.loads.eraseIdx k)
    (hmarker : (s.monitors i).processedLedger ≤ (s'.monitors i).processedLedger)
    (htaken : j = i → ∀ c, loaded = some c → restoredLedger c ≤ (s'.monitors i).processedLedger) :
    Steady i (nextReady i ready s (.restored k)) s' := by
  have hready : nextReady i ready s (.restored k) = (ready || decide (j = i)) := by
    simp [nextReady, hload]
  have hkept : Steady i ready s' := by
    refine h.kept hstore (by rw [hsaves]) hmarker fun hready other hother => ?_
    rw [hloads] at hother
    exact (h.fresh hready).2 other (List.mem_of_mem_eraseIdx hother)
  rw [hready]
  by_cases hj : j = i
  · subst hj
    rw [decide_eq_true rfl, Bool.or_true]
    refine ⟨hkept.nonneg, hkept.single, hkept.saving, fun _ => ?_, fun h => (by cases h)⟩
    cases ready with
    | true => exact hkept.ahead rfl
    | false =>
        refine position_le_marker hkept.nonneg fun c hc => htaken rfl c ?_
        rw [(h.fresh rfl).2 loaded (List.mem_of_getElem? hload), ← hstore, hc]
  · rwa [decide_eq_false hj, Bool.or_false]

/-- A save that takes place was the only one, and was ahead of what was stored. -/
theorem Steady.saved {k : ℕ} {c : KeeperCheckpoint} (h : Steady i ready s)
    (hsave : s.saves[k]? = some c) :
    Steady i ready { s with store := some c, saves := s.saves.eraseIdx k } ∧
      position s.store ≤ c.lastProcessedLedger := by
  obtain ⟨hstored, hmark⟩ := h.saving c (List.mem_of_getElem? hsave)
  obtain ⟨hk, -⟩ := List.getElem?_eq_some_iff.mp hsave
  have hnone : s.saves.eraseIdx k = [] := by
    have hlength := List.length_eraseIdx_of_lt hk
    have hsingle := h.single
    exact List.eq_nil_of_length_eq_zero (by omega)
  refine ⟨⟨h.nonneg, by simp [hnone], by simp [hnone], fun _ => hmark, fun hready => ?_⟩, hstored⟩
  rw [(h.fresh hready).1] at hk
  cases hk

theorem steady_step (h : Steady i ready s) (hstep : Step s e s') (hq : InOrder i (ready, s) e) :
    Steady i (nextReady i ready s e) s' ∧ position s.store ≤ position s'.store := by
  have hmarker : e ≠ .start i →
      (s.monitors i).processedLedger ≤ (s'.monitors i).processedLedger := marker_le_step hstep
  cases hstep with
  | start j =>
      refine ⟨?_, le_rfl⟩
      by_cases hj : j = i
      · subst hj
        have hsaves : s.saves = [] := hq rfl
        have hmem : ∀ loaded, (j, loaded) ∉ s.loads.filter (·.1 ≠ j) := by simp
        have hnone : ∀ c, c ∉ s.saves := by simp [hsaves]
        simp only [nextReady, if_pos]
        exact ⟨by simp [System.setMonitor, RpcLagMonitor.create], h.single,
          fun c hc => absurd hc (hnone c), fun h => (by cases h),
          fun _ => ⟨hsaves, fun loaded hload => absurd hload (hmem loaded)⟩⟩
      · simp only [nextReady, if_neg hj]
        exact h.kept rfl (List.Sublist.refl _) (hmarker (by simpa using hj))
          fun hready loaded hload => (h.fresh hready).2 loaded (List.mem_filter.mp hload).1
  | record j q =>
      exact ⟨h.kept rfl (List.Sublist.refl _) (hmarker (by simp)) fun hready => (h.fresh hready).2,
        le_rfl⟩
  | read j =>
      refine ⟨h.kept rfl (List.Sublist.refl _) (hmarker (by simp)) fun hready loaded hload => ?_,
        le_rfl⟩
      rcases List.mem_append.mp hload with hold | hnew
      · exact (h.fresh hready).2 loaded hold
      · exact congrArg Prod.snd (List.mem_singleton.mp hnew)
  | @restoredNothing k j hload =>
      exact ⟨h.answered hload rfl rfl rfl le_rfl fun _ c hc => (by cases hc), le_rfl⟩
  | @restored k j c hload =>
      refine ⟨h.answered hload rfl rfl rfl (hmarker (by simp)) ?_, le_rfl⟩
      rintro rfl c' hc'
      obtain rfl := Option.some.inj hc'
      simp [System.setMonitor, RpcLagMonitor.raised, restoredLedger]
  | @persist j now c hc =>
      obtain ⟨rfl, rfl, hsaves⟩ := hq
      have hstored : position s.store ≤ c.lastProcessedLedger := by
        have hahead := h.ahead rfl
        rw [← hc] at hahead
        exact Int.cast_le.mp hahead
      dsimp only at hsaves
      refine ⟨⟨h.nonneg, by simp [hsaves], ?_, h.ahead, fun h => (by cases h)⟩, le_rfl⟩
      rw [hsaves, List.nil_append]
      intro c' hc'
      obtain rfl := List.mem_singleton.mp hc'
      exact ⟨hstored, hc.le⟩
  | @saved k c hsave => exact h.saved hsave
  | lost k =>
      exact ⟨h.kept rfl (List.eraseIdx_sublist _ _) (hmarker (by simp))
        fun hready => (h.fresh hready).2, le_rfl⟩
  | clear => exact hq.elim
  | check j =>
      exact ⟨h.kept rfl (List.Sublist.refl _) le_rfl fun hready => (h.fresh hready).2, le_rfl⟩
  | answered k =>
      exact ⟨h.kept rfl (List.Sublist.refl _) le_rfl fun hready => (h.fresh hready).2, le_rfl⟩

/-! ### Runs in order -/

/-- Watching a keeper does not change what happens. -/
theorem run_watched (i : ℕ) (es : List Event) (t : Bool × System) :
    run step t.2 es = (run (watched i) t es).2 := by
  refine run_map_along (f := Prod.snd) (I := fun _ => True) (Q := fun _ _ => True)
    (fun _ _ _ _ _ _ => trivial) (fun t e _ _ => ?_) es trivial (along_true es t)
  unfold watched
  cases step t.2 e with
  | ok s => rfl
  | error message => rfl

theorem watched_step {t t' : Bool × System} (h : watched i t e = .ok t') :
    Step t.2 e t'.2 ∧ t'.1 = nextReady i t.1 t.2 e := by
  unfold watched at h
  cases hs : step t.2 e with
  | error message =>
      rw [hs] at h
      cases h
  | ok s =>
      rw [hs] at h
      obtain rfl := Except.ok.inj h
      exact ⟨step_cases hs, rfl⟩

/-- Along a run in order the invariant holds and what is stored only moves on. -/
theorem steady_run {t : Bool × System} (h : Steady i t.1 t.2)
    (horder : Along (watched i) (InOrder i) t es) :
    Steady i (run (watched i) t es).1 (run (watched i) t es).2 ∧
      position t.2.store ≤ position (run (watched i) t es).2.store := by
  refine run_invariant_along (I := fun u : Bool × System =>
    Steady i u.1 u.2 ∧ position t.2.store ≤ position u.2.store) ?_ es t ⟨h, le_rfl⟩ horder
  rintro u e u' ⟨hsteady, hmoved⟩ hq hcall
  obtain ⟨hstep, hready⟩ := watched_step hcall
  obtain ⟨hnext, hmoves⟩ := steady_step hsteady hstep hq
  rw [hready]
  exact ⟨hnext, hmoved.trans hmoves⟩

/-- A check that is called is answered with the ledger processed then. -/
theorem report_of_check (s : System) (i : ℕ) (text : JsNumber → String) (options : RpcLagOptions)
    (head now : JsNumber) :
    (commit step s (.check i)).report text options s.checks.length head now =
      checkRpcLag text options (.finite (s.monitors i).processedLedger) head now := by
  have hcall : step s (.check i) =
      .ok { s with checks := s.checks ++ [(i, (s.monitors i).processedLedger)] } := rfl
  have hlast : (s.checks ++ [(i, (s.monitors i).processedLedger)])[s.checks.length]? =
      some (i, (s.monitors i).processedLedger) := List.getElem?_concat_length
  rw [commit_of_ok hcall, System.report, hlast]

/-- While the keeper goes by the order, what is stored never goes back, whatever the others do; and
once its process has restored, a check called then reports no greater lag than any position stored
so far. -/
theorem stored_never_goes_back (i : ℕ) (c₀ : Option KeeperCheckpoint) (es : List Event)
    (h : Along (watched i) (InOrder i) (false, System.initial c₀) es) :
    ∀ before, before <+: es →
      position (run step (System.initial c₀) before).store ≤
          position (run step (System.initial c₀) es).store ∧
        ((run (watched i) (false, System.initial c₀) es).1 = true →
          ∀ text options head now report,
            (run step (System.initial c₀) (es ++ [.check i])).report text options
              (run step (System.initial c₀) es).checks.length head now = .ok report →
            ∃ top, head = .finite top ∧ report.lagLedgers ≤
              lagOf (position (run step (System.initial c₀) before).store) top) := by
  rintro before ⟨after, rfl⟩
  obtain ⟨hfirst, hrest⟩ := (along_append _ _ _).mp h
  obtain ⟨hbefore, -⟩ := steady_run (steady_initial i c₀) hfirst
  obtain ⟨hafter, hmoved⟩ := steady_run hbefore hrest
  rw [← run_append] at hafter hmoved
  have hwatched := run_watched i (before ++ after) (false, System.initial c₀)
  rw [run_watched i before (false, System.initial c₀), hwatched]
  refine ⟨hmoved, fun hready text options head now report hreport => ?_⟩
  rw [run_append, run_cons, run_nil, hwatched, report_of_check] at hreport
  obtain ⟨hlag, -⟩ := checkRpcLag_eq_ok hreport
  cases head with
  | finite top =>
      have hstored := (Int.cast_le (R := ℚ).mpr hmoved).trans (hafter.ahead hready)
      exact ⟨top, rfl, (Except.ok.inj hlag).symm.trans_le (lagOf_anti hstored top)⟩
  | _ => cases hlag

/-- A keeper restores, saves its ledger and is replaced; the next one restores it. -/
def sampleLives : List Event :=
  [.read 0, .restored 0, .record 0 (.ofNat 10), .persist 0 (.ofNat 1000), .saved 0, .start 0,
    .record 1 (.ofNat 99), .read 0, .restored 0]

theorem stored_never_goes_back_sample :
    position (run step (System.initial none) []).store ≤
        position (run step (System.initial none) sampleLives).store ∧
      ∃ top, JsNumber.ofNat 15 = .finite top ∧ sampleReport.lagLedgers ≤
        lagOf (position (run step (System.initial none) []).store) top := by
  have hsteady := stored_never_goes_back 0 none sampleLives
    ⟨trivial, trivial, trivial, ⟨rfl, by decide +kernel, by decide +kernel⟩, trivial,
      fun _ => by decide +kernel, trivial, trivial, trivial, trivial⟩ [] List.nil_prefix
  exact ⟨hsteady.1, hsteady.2 (by decide +kernel) (fun _ => "") noOptions (.ofNat 15)
    (.ofNat 2000) sampleReport (by decide +kernel)⟩

/-- A process that persists before it has restored takes the store back to the first ledger. -/
theorem persist_unrestored (i : ℕ) (c₀ : Option KeeperCheckpoint) (now : ℚ) :
    position (run step (System.initial c₀) [.persist i (.finite now), .saved 0]).store = 0 := by
  have hpersist : RpcLagMonitor.create.persist (.finite now) = .ok ⟨1, 0, rfl, now, none⟩ := by
    have hone := isLedgerSequence_natCast 1
    rw [Nat.cast_one] at hone
    rw [RpcLagMonitor.persist, RpcLagMonitor.create, zero_add, createCheckpoint, hone]
    rfl
  have hcall : step (System.initial c₀) (.persist i (.finite now)) =
      .ok { System.initial c₀ with saves := [⟨1, 0, rfl, now, none⟩] } := by
    rw [step, System.initial, hpersist]
    rfl
  rw [run_cons, commit_of_ok hcall]
  rfl

end YieldEngine.RpcSync
