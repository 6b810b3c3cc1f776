import YieldEngine.EngineCalls

/-! # Halting the engine

A tripped circuit breaker is meant to halt the engine until an admin resets it.  `Halted` is
that invariant: whenever the breaker is tripped, the contract is paused.  The breaker and the
pause flag are written by four entrypoints; `unpause` clears the pause flag without looking at
the breaker, and `exec_halted_iff` says that it is the only call to break the invariant.

`halted_run_iff` decides the invariant over whole runs, and `halted_until_reset` is the promise
made to users: from a trip on, whatever else is called, the contract stays paused until a
reset, as long as nobody unpauses a tripped contract. -/

namespace YieldEngine.Engine

open CheckedArith

/-- A tripped breaker keeps the contract paused. -/
def Halted (s : EngineStore) : Prop := s.isCircuitBreakerTripped = true → s.isPaused = true

instance (s : EngineStore) : Decidable (Halted s) := inferInstanceAs (Decidable (_ → _))

/-- The call is not an `unpause` of a tripped contract. -/
def KeepsHalt (s : EngineStore) (c : Env × EngineAction) : Prop :=
  ∀ admin, c.2 = .unpause admin → s.isCircuitBreakerTripped = false

/-! ### What a call does to the two flags -/

/-- The two flags after a returning call. -/
inductive Flags (s : EngineStore) : EngineAction → EngineStore → Prop
  | pause {admin : Address} {s' : EngineStore} (hpaused : s'.isPaused = true)
      (htripped : s'.isCircuitBreakerTripped = s.isCircuitBreakerTripped) :
      Flags s (.pause admin) s'
  | unpause {admin : Address} {s' : EngineStore} (hpaused : s'.isPaused = false)
      (htripped : s'.isCircuitBreakerTripped = s.isCircuitBreakerTripped) :
      Flags s (.unpause admin) s'
  | trip {admin : Address} {s' : EngineStore} (hpaused : s'.isPaused = true)
      (htripped : s'.isCircuitBreakerTripped = true) : Flags s (.tripCircuitBreaker admin) s'
  | reset {admin : Address} {s' : EngineStore} (hpaused : s'.isPaused = false)
      (htripped : s'.isCircuitBreakerTripped = false) : Flags s (.resetCircuitBreaker admin) s'
  | kept {action : EngineAction} {s' : EngineStore} (hpaused : s'.isPaused = s.isPaused)
      (htripped : s'.isCircuitBreakerTripped = s.isCircuitBreakerTripped)
      (hunpause : ∀ admin, action ≠ .unpause admin)
      (htrip : ∀ admin, action ≠ .tripCircuitBreaker admin) : Flags s action s'

theorem exec_flags {s s' : EngineStore} {c : Env × EngineAction} (h : exec s c = .ok s') :
    Flags s c.2 s' := by
  obtain ⟨e, action⟩ := c
  obtain rfl := exec_written h
  cases action with
  | pause admin => exact .pause rfl rfl
  | unpause admin => exact .unpause rfl rfl
  | tripCircuitBreaker admin => exact .trip rfl rfl
  | resetCircuitBreaker admin => exact .reset rfl rfl
  | _ => exact .kept rfl rfl (fun _ h => by cases h) (fun _ h => by cases h)

/-- A returning call keeps the invariant unless it unpauses a tripped contract. -/
theorem exec_halted_iff {s s' : EngineStore} {c : Env × EngineAction} (hs : Halted s)
    (h : exec s c = .ok s') : Halted s' ↔ KeepsHalt s c := by
  obtain ⟨e, action⟩ := c
  unfold Halted KeepsHalt
  cases exec_flags h with
  | @pause admin _ hpaused htripped =>
      apply iff_of_true
      · intro _
        exact hpaused
      · intro _ h
        cases h
  | @unpause admin _ hpaused htripped =>
      rw [hpaused, htripped]
      constructor
      · intro h _ _
        cases ht : s.isCircuitBreakerTripped with
        | false => rfl
        | true => cases h ht
      · intro h ht
        rw [h admin rfl] at ht
        cases ht
  | @trip admin _ hpaused htripped =>
      apply iff_of_true
      · intro _
        exact hpaused
      · intro _ h
        cases h
  | @reset admin _ hpaused htripped =>
      apply iff_of_true
      · intro ht
        rw [htripped] at ht
        cases ht
      · intro _ h
        cases h
  | @kept _ _ hpaused htripped hunpause htrip =>
      apply iff_of_true
      · rw [hpaused, htripped]
        exact hs
      · intro admin h
        exact absurd h (hunpause admin)

/-! ### Runs -/

/-- Over every run after `initialize`, every state is halted while tripped if and only if no
returning `unpause` of the run meets a tripped breaker. -/
theorem halted_run_iff (admin strategyRegistry rewardDistributor : Address)
    (calls : List (Env × EngineAction)) :
    (∀ before, before <+: calls → Halted (Transact.run exec
      (initialEngine admin strategyRegistry rewardDistributor) before)) ↔
    Transact.Along exec (fun s c => ∀ s', exec s c = .ok s' → KeepsHalt s c)
      (initialEngine admin strategyRegistry rewardDistributor) calls := by
  apply Transact.run_invariant_iff
  · intro s c s' hs h
    exact exec_halted_iff hs h
  · intro h
    cases h

/-- From a trip on, calls that neither reset the breaker nor unpause leave the contract
tripped and paused. -/
theorem halted_until_reset (calls : List (Env × EngineAction))
    (hcalls : ∀ c ∈ calls, ∀ admin, c.2 ≠ .unpause admin ∧ c.2 ≠ .resetCircuitBreaker admin) :
    ∀ s : EngineStore, s.isCircuitBreakerTripped = true → s.isPaused = true →
      (Transact.run exec s calls).isCircuitBreakerTripped = true ∧
        (Transact.run exec s calls).isPaused = true := by
  induction calls with
  | nil =>
      intro s htripped hpaused
      exact ⟨htripped, hpaused⟩
  | cons c calls ih =>
      intro s htripped hpaused
      rw [Transact.run_cons]
      have hc := hcalls c List.mem_cons_self
      have hrest := ih fun d hd => hcalls d (List.mem_cons_of_mem _ hd)
      cases h : exec s c with
      | error x =>
          rw [Transact.commit_of_error h]
          exact hrest s htripped hpaused
      | ok s' =>
          rw [Transact.commit_of_ok h]
          obtain ⟨e, action⟩ := c
          cases exec_flags h with
          | pause hp ht => exact hrest s' (ht.trans htripped) hp
          | unpause => exact absurd rfl (hc _).1
          | trip hp ht => exact hrest s' ht hp
          | reset => exact absurd rfl (hc _).2
          | kept hp ht => exact hrest s' (ht.trans htripped) (hp.trans hpaused)

/-- An admin unpauses while the breaker is tripped. -/
theorem unpaused_while_tripped :
    ¬ Halted (Transact.run exec (initialEngine 7 1 2)
      [(⟨9, [7], 1⟩, .tripCircuitBreaker 7), (⟨9, [7], 2⟩, .unpause 7)]) := by decide

end YieldEngine.Engine
