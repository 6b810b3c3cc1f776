import YieldEngine.LagMonitor

/-! # What a lag report says

Markers, loads, saves and the store pass ledgers around, and none of them makes one up: whatever is
in the system has been recorded by some keeper (`known_of_run`).  A marker only goes back when its
process is replaced (`raised_le_marker`).  So every report is measured from a ledger that was
recorded before the check was called, and from none that is below what the keeper itself knew
(`report_is_of_a_record`). -/

namespace YieldEngine.RpcSync

open Checkpoint Transact

variable {c₀ : Option KeeperCheckpoint} {s s' : System} {e : Event} {es : List Event} {i : ℕ}

/-- The ledger of a checkpoint as a marker takes it. -/
def restoredLedger (c : KeeperCheckpoint) : ℚ := (max 0 c.lastProcessedLedger : ℤ)

/-! ### Where ledgers come from -/

/-- The ledgers that keepers have recorded. -/
def recordedLedgers (es : List Event) : List ℚ :=
  es.filterMap fun
    | .record _ (.finite q) => some q
    | _ => none

/-- The ledgers that may be around: none, the one stored first, and the recorded ones. -/
def sources (c₀ : Option KeeperCheckpoint) (es : List Event) : List ℚ :=
  0 :: (c₀.map restoredLedger).toList ++ recordedLedgers es

/-- Every ledger in the system is one of `K`. -/
structure Known (K : List ℚ) (s : System) : Prop where
  store : ∀ c, s.store = some c → restoredLedger c ∈ K
  monitors : ∀ i, (s.monitors i).processedLedger ∈ K ∧ 0 ≤ (s.monitors i).processedLedger
  loads : ∀ i c, (i, some c) ∈ s.loads → restoredLedger c ∈ K
  saves : ∀ c ∈ s.saves, restoredLedger c ∈ K

theorem known_initial : Known (sources c₀ es) (System.initial c₀) := by
  refine ⟨?_, fun i => ⟨?_, le_rfl⟩, fun i c h => (by cases h), fun c h => (by cases h)⟩
  · rintro c rfl
    simp [sources]
  · simp [sources, System.initial, RpcLagMonitor.create]

theorem Known.raised {K : List ℚ} (h : Known K s) (i : ℕ) {q : ℚ} (hq : q ∈ K) :
    ((s.monitors i).raised q).processedLedger ∈ K ∧
      0 ≤ ((s.monitors i).raised q).processedLedger := by
  obtain ⟨hm, hpos⟩ := h.monitors i
  refine ⟨?_, hpos.trans (le_max_left _ _)⟩
  unfold RpcLagMonitor.raised
  rcases max_choice (s.monitors i).processedLedger q with hmax | hmax
  · rwa [hmax]
  · rwa [hmax]

theorem Known.setMonitor {K : List ℚ} (h : Known K s) (i : ℕ) {m : RpcLagMonitor}
    (hm : m.processedLedger ∈ K ∧ 0 ≤ m.processedLedger) : Known K (s.setMonitor i m) := by
  refine ⟨h.store, fun j => ?_, h.loads, h.saves⟩
  by_cases hj : j = i
  · subst hj
    simpa [System.setMonitor] using hm
  · simpa [System.setMonitor, hj] using h.monitors j

theorem known_step {K : List ℚ} (hzero : 0 ∈ K) (h : Known K s) (hstep : Step s e s')
    (he : ∀ q ∈ recordedLedgers [e], q ∈ K) : Known K s' := by
  cases hstep with
  | start i =>
      have hset := h.setMonitor i (m := .create) ⟨hzero, le_rfl⟩
      exact ⟨hset.store, hset.monitors, fun j c hmem => hset.loads j c (List.mem_filter.mp hmem).1,
        hset.saves⟩
  | record i q => exact h.setMonitor i (h.raised i (he q (by simp [recordedLedgers])))
  | read i =>
      refine ⟨h.store, h.monitors, fun j c hmem => ?_, h.saves⟩
      rcases List.mem_append.mp hmem with hold | hnew
      · exact h.loads j c hold
      · exact h.store c (congrArg Prod.snd (List.mem_singleton.mp hnew)).symm
  | restoredNothing _ =>
      exact ⟨h.store, h.monitors, fun j c hmem => h.loads j c (List.mem_of_mem_eraseIdx hmem),
        h.saves⟩
  | @restored k i c hload =>
      have hset := h.setMonitor i (h.raised i (h.loads i c (List.mem_of_getElem? hload)))
      exact ⟨hset.store, hset.monitors,
        fun j c' hmem => hset.loads j c' (List.mem_of_mem_eraseIdx hmem), hset.saves⟩
  | @persist i now c hc =>
      refine ⟨h.store, h.monitors, h.loads, fun c' hmem => ?_⟩
      rcases List.mem_append.mp hmem with hold | hnew
      · exact h.saves c' hold
      · obtain rfl := List.mem_singleton.mp hnew
        obtain ⟨hm, hpos⟩ := h.monitors i
        rw [← hc] at hm hpos
        rwa [restoredLedger, max_eq_right (Int.cast_nonneg_iff.mp hpos)]
  | @saved k c hsave =>
      refine ⟨?_, h.monitors, h.loads, fun c' hmem => h.saves c' (List.mem_of_mem_eraseIdx hmem)⟩
      rintro c' hc'
      obtain rfl := Option.some.inj hc'
      exact h.saves c (List.mem_of_getElem? hsave)
  | lost k =>
      exact ⟨h.store, h.monitors, h.loads, fun c' hmem => h.saves c' (List.mem_of_mem_eraseIdx hmem)⟩
  | clear => exact ⟨fun c hc => (by cases hc), h.monitors, h.loads, h.saves⟩
  | check i => exact ⟨h.store, h.monitors, h.loads, h.saves⟩
  | answered k => exact ⟨h.store, h.monitors, h.loads, h.saves⟩

theorem known_of_run (c₀ : Option KeeperCheckpoint) (es : List Event) :
    Known (sources c₀ es) (run step (System.initial c₀) es) := by
  refine run_invariant_along (Q := fun _ e => ∀ q ∈ recordedLedgers [e], q ∈ sources c₀ es)
    (fun s e s' h he hstep => known_step ?_ h (step_cases hstep) he) es _ known_initial ?_
  · exact List.mem_cons_self
  · refine along_of_forall es _ fun e he q hq => List.mem_append_right _ ?_
    obtain ⟨e', he', hsome⟩ := List.mem_filterMap.mp hq
    obtain rfl := List.mem_singleton.mp he'
    exact List.mem_filterMap.mpr ⟨e', he, hsome⟩

/-! ### What a keeper knows -/

/-- The keeper is told of a ledger, by a record of it or by a checkpoint it restores. -/
def Told (s : System) (i : ℕ) (q : ℚ) (e : Event) : Prop :=
  e = .record i (.finite q) ∨
    ∃ k c, e = .restored k ∧ s.loads[k]? = some (i, some c) ∧ q = restoredLedger c

/-- The keeper was told of a ledger after its process was started last. -/
def ToldSince (c₀ : Option KeeperCheckpoint) (i : ℕ) (q : ℚ) (es : List Event) : Prop :=
  ∃ before e after, es = before ++ e :: after ∧ .start i ∉ after ∧
    Told (run step (System.initial c₀) before) i q e

theorem told_le_marker {q : ℚ} (htold : Told s i q e) :
    q ≤ ((commit step s e).monitors i).processedLedger := by
  obtain rfl | ⟨k, c, rfl, hload, rfl⟩ := htold
  · have hcall : step s (.record i (.finite q)) =
        .ok (s.setMonitor i ((s.monitors i).raised q)) := by
      rw [step, RpcLagMonitor.recordProcessedLedger_finite]
      rfl
    rw [commit_of_ok hcall]
    simp [System.setMonitor, RpcLagMonitor.raised]
  · have hcall : step s (.restored k) =
        .ok { s.setMonitor i ((s.monitors i).raised (restoredLedger c)) with
          loads := s.loads.eraseIdx k } := by
      simp only [step, hload, RpcLagMonitor.restore_some]
      rfl
    rw [commit_of_ok hcall]
    simp [System.setMonitor, RpcLagMonitor.raised]

theorem marker_le_raised (m : RpcLagMonitor) (q : ℚ) :
    m.processedLedger ≤ (m.raised q).processedLedger := le_max_left _ _

theorem marker_le_setMonitor {j : ℕ} {m : RpcLagMonitor}
    (h : (s.monitors j).processedLedger ≤ m.processedLedger) :
    (s.monitors i).processedLedger ≤ ((s.setMonitor j m).monitors i).processedLedger := by
  by_cases hj : i = j
  · subst hj
    simpa [System.setMonitor] using h
  · simp [System.setMonitor, hj]

/-- Only a new process takes the marker back. -/
theorem marker_le_step (hstep : Step s e s') (he : e ≠ .start i) :
    (s.monitors i).processedLedger ≤ (s'.monitors i).processedLedger := by
  cases hstep with
  | start j =>
      have hj : i ≠ j := fun hij => he (hij ▸ rfl)
      simp [System.setMonitor, hj]
  | record j q => exact marker_le_setMonitor (marker_le_raised _ q)
  | restored _ => exact marker_le_setMonitor (marker_le_raised _ _)
  | _ => exact le_rfl

theorem told_le_of_toldSince {q : ℚ} (h : ToldSince c₀ i q es) :
    q ≤ ((run step (System.initial c₀) es).monitors i).processedLedger := by
  obtain ⟨before, e, after, rfl, hafter, htold⟩ := h
  rw [run_append, run_cons]
  refine run_invariant_along (Q := fun _ e => e ≠ .start i)
    (I := fun s => q ≤ (s.monitors i).processedLedger)
    (fun s e s' h he hstep => h.trans (marker_le_step (step_cases hstep) he)) after _
    (told_le_marker htold) (along_of_forall after _ fun e he => ?_)
  rintro rfl
  exact hafter he

/-! ### Reports -/

/-- A check under way was called with the marker of that time, by the process that still runs. -/
theorem check_called {p : ℚ} (h : (i, p) ∈ (run step (System.initial c₀) es).checks) :
    ∃ before after, es = before ++ .check i :: after ∧ .start i ∉ after ∧
      p = ((run step (System.initial c₀) before).monitors i).processedLedger := by
  have hsince : Since step
      (fun s e => e = .check i ∧ p = (s.monitors i).processedLedger) (fun _ e => e ≠ .start i)
      (System.initial c₀) es := by
    refine since_of_step (A := fun s => (i, p) ∈ s.checks) (by simp [System.initial]) ?_ es h
    intro s e s' hstep hmem
    cases step_cases hstep with
    | start j =>
        obtain ⟨hold, hne⟩ := List.mem_filter.mp hmem
        refine .inr ⟨hold, ?_⟩
        rintro ⟨rfl⟩
        simp at hne
    | check j =>
        rcases List.mem_append.mp hmem with hold | hnew
        · exact .inr ⟨hold, by simp⟩
        · obtain ⟨rfl, rfl⟩ := Prod.mk.inj (List.mem_singleton.mp hnew)
          exact .inl ⟨rfl, rfl⟩
    | answered k => exact .inr ⟨List.mem_of_mem_eraseIdx hmem, by simp⟩
    | _ => exact .inr ⟨hmem, by simp⟩
  obtain ⟨before, a, after, s', rfl, ⟨rfl, hp⟩, -, halong⟩ := hsince
  refine ⟨before, after, rfl, fun hstart => ?_, hp⟩
  exact forall_of_along (P := fun e => e ≠ .start i)
    (fun s e he heq => he (heq ▸ ⟨_, rfl⟩) heq) after _ halong _ hstart rfl

theorem checkRpcLag_eq_ok {text : JsNumber → String} {options : RpcLagOptions}
    {processed head now : JsNumber} {report : RpcLagReport}
    (h : checkRpcLag text options processed head now = .ok report) :
    computeLedgerLag processed head = .ok report.lagLedgers ∧
      classifyLag report.lagLedgers options.toRpcLagThresholds = .ok report.severity := by
  unfold checkRpcLag at h
  cases hlag : computeLedgerLag processed head with
  | error message =>
      rw [hlag] at h
      cases h
  | ok lag =>
      rw [hlag] at h
      cases hseverity : classifyLag lag options.toRpcLagThresholds with
      | error message =>
          simp only [bind, Except.bind, hseverity] at h
          cases h
      | ok severity =>
          simp only [bind, Except.bind, hseverity] at h
          obtain rfl := Except.ok.inj h
          exact ⟨rfl, hseverity⟩

theorem lagOf_anti {p q : ℚ} (h : p ≤ q) (head : ℚ) : lagOf q head ≤ lagOf p head :=
  max_le_max_left 0 (sub_le_sub_left (Int.floor_le_floor h) _)

/-- Every report is measured from a ledger that was recorded before the check was called, and from
none below what the keeper was told before that by a process it still runs. -/
theorem report_is_of_a_record (text : JsNumber → String) (options : RpcLagOptions)
    (c₀ : Option KeeperCheckpoint) (es : List Event) (k : ℕ) (head now : JsNumber)
    (report : RpcLagReport)
    (h : (run step (System.initial c₀) es).report text options k head now = .ok report) :
    ∃ i before after top, es = before ++ .check i :: after ∧ .start i ∉ after ∧
      head = .finite top ∧ (∃ q ∈ sources c₀ before, report.lagLedgers = lagOf q top) ∧
      (∀ q, ToldSince c₀ i q before → report.lagLedgers ≤ lagOf q top) ∧
      classifyLag report.lagLedgers options.toRpcLagThresholds = .ok report.severity := by
  unfold System.report at h
  split at h
  · cases h
  · rename_i i p hcheck
    obtain ⟨before, after, hes, hafter, rfl⟩ := check_called (List.mem_of_getElem? hcheck)
    obtain ⟨hlag, hseverity⟩ := checkRpcLag_eq_ok h
    cases head with
    | finite top =>
        have hlag' := Except.ok.inj hlag
        refine ⟨i, before, after, top, hes, hafter, rfl, ⟨_, ?_, hlag'.symm⟩, fun q hq => ?_,
          hseverity⟩
        · exact ((known_of_run c₀ before).monitors i).1
        · rw [← hlag']
          exact lagOf_anti (told_le_of_toldSince hq) top
    | _ => cases hlag

/-- A keeper is replaced by another one, which restores its checkpoint before it checks. -/
def sampleHandover : List Event :=
  [.record 0 (.ofNat 10), .persist 0 (.ofNat 1000), .saved 0, .read 1, .restored 0, .check 1,
    .record 1 (.ofNat 12)]

def noOptions : RpcLagOptions := ⟨⟨none, none⟩, none⟩

def sampleReport : RpcLagReport where
  processedLedger := .ofNat 10
  headLedger := .ofNat 15
  lagLedgers := 5
  lagSeconds := .ofNat 25
  severity := .warning
  message := formatLagMessage (fun _ => "") (.ofNat 10) (.ofNat 15) 5 (.ofNat 25) .warning
  checkedAt := .ofNat 2000

theorem report_is_of_a_record_sample :
    ∃ i before after top, sampleHandover = before ++ .check i :: after ∧ .start i ∉ after ∧
      JsNumber.ofNat 15 = .finite top ∧
      (∃ q ∈ sources none before, sampleReport.lagLedgers = lagOf q top) ∧
      (∀ q, ToldSince none i q before → sampleReport.lagLedgers ≤ lagOf q top) ∧
      classifyLag sampleReport.lagLedgers noOptions.toRpcLagThresholds =
        .ok sampleReport.severity :=
  report_is_of_a_record (fun _ => "") noOptions none sampleHandover 0 (.ofNat 15)
    (.ofNat 2000) sampleReport (by decide +kernel)

end YieldEngine.RpcSync
