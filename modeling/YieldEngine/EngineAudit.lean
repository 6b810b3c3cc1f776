import YieldEngine.EngineCalls

/-! # The emergency audit history

The engine keeps an audit record of emergency interventions, each stored under its index, and
a counter of them.  `Auditable` is what every run keeps: below the counter every index holds a
record that carries it.  A call either leaves the history alone or adds one record at the end,
so what an index holds is never changed (`run_appendOnly`).  `initialize` may be called again at
any time and does not touch the history.

An intervention is a call that halts or resumes the engine (`intervention`).  Two of the four
set the flags themselves, without the record that `pause` and `unpause` append
(`recorded_iff`); `audit_spec` decides over whole runs which of them are on record. -/

namespace YieldEngine.Engine

open CheckedArith Transact

/-! ### Runs with further calls of `initialize` -/

/-- The arguments of `initialize`. -/
structure EngineSetup where
  admin : Address
  strategyRegistry : Address
  rewardDistributor : Address

def initializeCall (s : EngineStore) (c : EngineSetup) : EngineCall EngineStore :=
  pure (initializeEngine s c.admin c.strategyRegistry c.rewardDistributor)

/-- One invocation of any writing entrypoint. -/
def engineStep : EngineStore → EngineSetup ⊕ (Env × EngineAction) → EngineCall EngineStore :=
  either initializeCall exec

/-- The action and the admin of an emergency intervention. -/
def intervention : EngineAction → Option (String × Address)
  | .pause admin => some ("pause", admin)
  | .unpause admin => some ("unpause", admin)
  | .tripCircuitBreaker admin => some ("trip_circuit_breaker", admin)
  | .resetCircuitBreaker admin => some ("reset_circuit_breaker", admin)
  | _ => none

/-- The call moves the circuit breaker. -/
def EngineAction.MovesBreaker : EngineAction → Prop
  | .tripCircuitBreaker _ => True
  | .resetCircuitBreaker _ => True
  | _ => False

/-- From `s` to `s'` exactly the record of this action was appended. -/
def Appended (s s' : EngineStore) (action : String) (admin : Address) (timestamp : ℕ) : Prop :=
  s'.getEmergencyHistoryLen = s.getEmergencyHistoryLen + 1 ∧
    s'.getEmergencyRecord s.getEmergencyHistoryLen =
      .ok ⟨s.getEmergencyHistoryLen, action, admin, timestamp⟩

/-- If the call is an intervention, its record was appended. -/
def Recorded (s s' : EngineStore) : EngineSetup ⊕ (Env × EngineAction) → Prop
  | .inl _ => True
  | .inr (e, action) => ∀ name admin, intervention action = some (name, admin) →
      Appended s s' name admin e.timestamp

/-! ### What every run keeps -/

/-- Every index below the counter holds a record that carries it. -/
def Auditable (s : EngineStore) : Prop :=
  ∀ i < s.getEmergencyHistoryLen, ∃ r, s.getEmergencyRecord i = .ok r ∧ r.index = i

/-- The history of `s` is a prefix of that of `s'`. -/
structure Extends (s s' : EngineStore) : Prop where
  longer : s.getEmergencyHistoryLen ≤ s'.getEmergencyHistoryLen
  kept : ∀ i < s.getEmergencyHistoryLen, s'.getEmergencyRecord i = s.getEmergencyRecord i

theorem Extends.refl (s : EngineStore) : Extends s s := ⟨le_rfl, fun _ _ => rfl⟩

theorem Extends.trans {s t u : EngineStore} (h : Extends s t) (h' : Extends t u) :
    Extends s u where
  longer := h.longer.trans h'.longer
  kept := by
    intro i hi
    rw [h'.kept i (hi.trans_le h.longer), h.kept i hi]

/-- A record is read where it is stored below the counter. -/
theorem getEmergencyRecord_eq_ok {s : EngineStore} {i : ℕ} {r : EmergencyRecord} :
    s.getEmergencyRecord i = .ok r ↔
      i < s.getEmergencyHistoryLen ∧ s.emergencyHistoryItem.get i = some r := by
  simp only [EngineStore.getEmergencyRecord, bind_eq_ok, require_eq_ok, orRaise_eq_ok,
    exists_const]

theorem getEmergencyRecord_of_lt {s : EngineStore} {i : ℕ} (h : i < s.getEmergencyHistoryLen) :
    s.getEmergencyRecord i = orRaise (s.emergencyHistoryItem.get i)
      (.panic "called `Option::unwrap()` on a `None` value") := by
  rw [EngineStore.getEmergencyRecord, require, if_pos h]
  rfl

section noted
variable (s : EngineStore) (e : Env) (action : String) (admin : Address)

theorem noted_appended : Appended s (s.noted e action admin) action admin e.timestamp := by
  refine ⟨rfl, getEmergencyRecord_eq_ok.mpr ⟨?_, ?_⟩⟩
  · exact Nat.lt_succ_self _
  · exact SortedMap.get_set_self _ _ _

/-- Older records are read as before. -/
theorem noted_older {i : ℕ} (hi : i < s.getEmergencyHistoryLen) :
    (s.noted e action admin).getEmergencyRecord i = s.getEmergencyRecord i := by
  have hitem : (s.noted e action admin).emergencyHistoryItem.get i =
      s.emergencyHistoryItem.get i := SortedMap.get_set_ne _ _ (Nat.ne_of_lt hi)
  have hlonger : i < (s.noted e action admin).getEmergencyHistoryLen :=
    hi.trans (Nat.lt_succ_self _)
  rw [getEmergencyRecord_of_lt hlonger, getEmergencyRecord_of_lt hi, hitem]

theorem noted_extends : Extends s (s.noted e action admin) :=
  ⟨Nat.le_succ _, fun _ hi => noted_older s e action admin hi⟩

end noted

/-! ### One call -/

/-- What a returning call does to the history: one record more, or nothing. -/
inductive HistoryWrite (s s' : EngineStore) : EngineSetup ⊕ (Env × EngineAction) → Prop
  | appended {e : Env} {action : EngineAction} {name : String} {admin : Address}
      (hname : intervention action = some (name, admin)) (hquiet : ¬ action.MovesBreaker)
      (hextends : Extends s s') (hrecord : Appended s s' name admin e.timestamp) :
      HistoryWrite s s' (.inr (e, action))
  | silent {c : EngineSetup ⊕ (Env × EngineAction)}
      (hsame : s'.getEmergencyHistoryLen = s.getEmergencyHistoryLen ∧
        ∀ i, s'.getEmergencyRecord i = s.getEmergencyRecord i)
      (hnone : ∀ e action, c = .inr (e, action) → ¬ action.MovesBreaker →
        intervention action = none) : HistoryWrite s s' c

theorem engineStep_history {s s' : EngineStore} {c : EngineSetup ⊕ (Env × EngineAction)}
    (h : engineStep s c = .ok s') : HistoryWrite s s' c := by
  cases c with
  | inl setup =>
      obtain rfl := pure_eq_ok.mp h
      exact .silent ⟨rfl, fun _ => rfl⟩ (fun _ _ h => by cases h)
  | inr call =>
      obtain ⟨e, action⟩ := call
      have h : exec s (e, action) = .ok s' := h
      obtain rfl := exec_written h
      cases action with
      | pause admin =>
          have hextends := noted_extends { s with paused := some true } e "pause" admin
          exact .appended rfl id ⟨hextends.longer, hextends.kept⟩
            (noted_appended { s with paused := some true } e "pause" admin)
      | unpause admin =>
          have hextends := noted_extends { s with paused := some false } e "unpause" admin
          exact .appended rfl id ⟨hextends.longer, hextends.kept⟩
            (noted_appended { s with paused := some false } e "unpause" admin)
      | tripCircuitBreaker admin =>
          refine .silent ⟨rfl, fun _ => rfl⟩ fun _ _ heq hquiet => ?_
          cases heq
          exact absurd trivial hquiet
      | resetCircuitBreaker admin =>
          refine .silent ⟨rfl, fun _ => rfl⟩ fun _ _ heq hquiet => ?_
          cases heq
          exact absurd trivial hquiet
      | _ =>
          refine .silent ⟨rfl, fun _ => rfl⟩ fun _ _ heq _ => ?_
          cases heq
          rfl

theorem HistoryWrite.extends {s s' : EngineStore} {c : EngineSetup ⊕ (Env × EngineAction)}
    (h : HistoryWrite s s' c) : Extends s s' := by
  cases h with
  | appended _ _ hextends _ => exact hextends
  | silent hsame _ => exact ⟨hsame.1.ge, fun i _ => hsame.2 i⟩

theorem HistoryWrite.auditable {s s' : EngineStore} {c : EngineSetup ⊕ (Env × EngineAction)}
    (h : HistoryWrite s s' c) (hs : Auditable s) : Auditable s' := by
  intro i hi
  cases h with
  | appended _ _ hextends hrecord =>
      obtain ⟨hlen, hnew⟩ := hrecord
      rw [hlen] at hi
      rcases Nat.lt_succ_iff_lt_or_eq.mp hi with hold | rfl
      · rw [hextends.kept i hold]
        exact hs i hold
      · exact ⟨_, hnew, rfl⟩
  | silent hsame _ =>
      rw [hsame.1] at hi
      rw [hsame.2 i]
      exact hs i hi

/-- A returning intervention is on record if and only if it does not move the breaker. -/
theorem recorded_iff {s s' : EngineStore} {c : EngineSetup ⊕ (Env × EngineAction)}
    (h : engineStep s c = .ok s') :
    Recorded s s' c ↔ ∀ e action, c = .inr (e, action) → ¬ action.MovesBreaker := by
  cases engineStep_history h with
  | @appended e action name admin hname hquiet hextends hrecord =>
      apply iff_of_true
      · intro name' admin' hname'
        rw [hname] at hname'
        cases hname'
        exact hrecord
      · intro _ _ heq
        cases heq
        exact hquiet
  | silent hsame hnone =>
      cases c with
      | inl setup => exact iff_of_true trivial (fun _ _ h => by cases h)
      | inr call =>
          obtain ⟨e, action⟩ := call
          constructor
          · intro hrecorded e' action' heq hmoves
            cases heq
            have hunchanged : ∀ name admin, ¬ Appended s s' name admin e.timestamp := by
              intro name admin hrecord
              have hlen := hrecord.1
              rw [hsame.1] at hlen
              omega
            cases action with
            | tripCircuitBreaker admin => exact hunchanged _ _ (hrecorded _ _ rfl)
            | resetCircuitBreaker admin => exact hunchanged _ _ (hrecorded _ _ rfl)
            | _ => exact hmoves
          · intro hquiet name admin hname
            rw [hnone e action rfl (hquiet e action rfl)] at hname
            cases hname

/-! ### Runs -/

theorem commit_extends (s : EngineStore) (c : EngineSetup ⊕ (Env × EngineAction)) :
    Extends s (commit engineStep s c) :=
  commit_invariant (.refl s) fun _ h => (engineStep_history h).extends

theorem run_extends (calls : List (EngineSetup ⊕ (Env × EngineAction))) :
    ∀ s, Extends s (run engineStep s calls) := by
  induction calls with
  | nil => exact Extends.refl
  | cons c calls ih =>
      intro s
      exact (commit_extends s c).trans (ih _)

theorem run_auditable (admin strategyRegistry rewardDistributor : Address)
    (calls : List (EngineSetup ⊕ (Env × EngineAction))) :
    Auditable (run engineStep (initialEngine admin strategyRegistry rewardDistributor) calls) := by
  apply run_invariant
  · intro s c s' hs h
    exact (engineStep_history h).auditable hs
  · intro i hi
    exact absurd hi (Nat.not_lt_zero i)

/-- In every run after `initialize`: below the counter every index holds a record that carries
it, and whatever follows keeps these records and does not lower the counter; and every
intervention that returns is on record if and only if none of them moves the breaker. -/
theorem audit_spec (admin strategyRegistry rewardDistributor : Address)
    (calls : List (EngineSetup ⊕ (Env × EngineAction))) :
    (∀ before after, calls = before ++ after →
      Auditable (run engineStep (initialEngine admin strategyRegistry rewardDistributor) before) ∧
      Extends (run engineStep (initialEngine admin strategyRegistry rewardDistributor) before)
        (run engineStep (initialEngine admin strategyRegistry rewardDistributor) calls)) ∧
    (Along engineStep (fun s c => ∀ s', engineStep s c = .ok s' → Recorded s s' c)
        (initialEngine admin strategyRegistry rewardDistributor) calls ↔
      Along engineStep (fun s c => ∀ s', engineStep s c = .ok s' →
          ∀ e action, c = .inr (e, action) → ¬ action.MovesBreaker)
        (initialEngine admin strategyRegistry rewardDistributor) calls) := by
  constructor
  · rintro before after rfl
    refine ⟨run_auditable _ _ _ before, ?_⟩
    rw [run_append]
    exact run_extends after _
  · apply along_congr
    intro s c
    exact forall₂_congr fun s' h => recorded_iff h

/-- The admin trips the breaker and resets it; nothing is on record. -/
theorem trip_not_recorded :
    let opened := initialEngine 7 1 2
    let tripped := run engineStep opened [.inr (⟨9, [7], 5⟩, .tripCircuitBreaker 7)]
    tripped.isCircuitBreakerTripped = true ∧
      tripped.getEmergencyHistoryLen = opened.getEmergencyHistoryLen ∧
      ¬ Recorded opened tripped (.inr (⟨9, [7], 5⟩, .tripCircuitBreaker 7)) := by
  refine ⟨rfl, rfl, fun h => ?_⟩
  exact absurd (h "trip_circuit_breaker" 7 rfl).1 (by decide)

end YieldEngine.Engine
