import YieldEngine.GovernanceRuns

/-! # The parameters of the protocol

The governor keeps four parameters, each with a range and a default.  A setter checks the range and
nothing else, so anyone sets a parameter to any value of its range at any time: after every run a
parameter is the value set last, or its default (`parameter_is_last_set`). -/

namespace YieldEngine.Governance

open CheckedArith Transact ProtocolGovernor

/-- The parameters of the protocol. -/
inductive Parameter where
  | performanceFee
  | withdrawalFee
  | rebalanceThreshold
  | insuranceReserveTarget
deriving DecidableEq, Repr

namespace Parameter

/-- The least value. -/
def low : Parameter → ℕ
  | performanceFee => minPerformanceFee
  | withdrawalFee => minWithdrawalFee
  | rebalanceThreshold => minRebalanceThreshold
  | insuranceReserveTarget => minInsuranceReserve

/-- The greatest value. -/
def high : Parameter → ℕ
  | performanceFee => maxPerformanceFee
  | withdrawalFee => maxWithdrawalFee
  | rebalanceThreshold => maxRebalanceThreshold
  | insuranceReserveTarget => maxInsuranceReserve

/-- The value it is initialised to. -/
def initial : Parameter → ℕ
  | performanceFee => defaultPerformanceFee
  | withdrawalFee => defaultWithdrawalFee
  | rebalanceThreshold => defaultRebalanceThreshold
  | insuranceReserveTarget => defaultInsuranceReserve

/-- Its getter. -/
def read (s : Store) : Parameter → ℕ
  | performanceFee => s.getPerformanceFee
  | withdrawalFee => s.getWithdrawalFee
  | rebalanceThreshold => s.getRebalanceThreshold
  | insuranceReserveTarget => s.getInsuranceReserveTarget

/-- The call of its setter. -/
def set (value : ℕ) : Parameter → ProtocolGovernor.Action
  | performanceFee => .setPerformanceFee value
  | withdrawalFee => .setWithdrawalFee value
  | rebalanceThreshold => .setRebalanceThreshold value
  | insuranceReserveTarget => .setInsuranceReserveTarget value

theorem initial_mem (x : Parameter) : x.low ≤ x.initial ∧ x.initial ≤ x.high := by
  cases x <;> decide

end Parameter

/-- The value a call sets a parameter to. -/
def settings (x : Parameter) (_ : World) (c : GovEnv × Action) : List ℕ :=
  match c.2, x with
  | .governor (.setPerformanceFee fee), .performanceFee => [fee]
  | .governor (.setWithdrawalFee fee), .withdrawalFee => [fee]
  | .governor (.setRebalanceThreshold threshold), .rebalanceThreshold => [threshold]
  | .governor (.setInsuranceReserveTarget target), .insuranceReserveTarget => [target]
  | _, _ => []

variable {d : Deployment} {w w' : World} {x : Parameter}

/-- What a returning call does to a parameter. -/
theorem step_parameter {c : GovEnv × Action} (h : Step d w c.1 c.2 w')
    (htoken : w.governor.governanceToken.isSome) :
    w'.governor.governanceToken = w.governor.governanceToken ∧
      (settings x w c = [] ∧ x.read w'.governor = x.read w.governor ∨
        ∃ value, settings x w c = [value] ∧ x.read w'.governor = value ∧
          x.low ≤ value ∧ value ≤ x.high) := by
  obtain ⟨e, a⟩ := c
  cases h with
  | governor h =>
      cases h with
      | @setPerformanceFee fee hrange =>
          cases x with
          | performanceFee => exact ⟨rfl, .inr ⟨fee, rfl, rfl, hrange⟩⟩
          | _ => exact ⟨rfl, .inl ⟨rfl, rfl⟩⟩
      | @setWithdrawalFee fee hrange =>
          cases x with
          | withdrawalFee => exact ⟨rfl, .inr ⟨fee, rfl, rfl, hrange⟩⟩
          | _ => exact ⟨rfl, .inl ⟨rfl, rfl⟩⟩
      | @setRebalanceThreshold threshold hrange =>
          cases x with
          | rebalanceThreshold => exact ⟨rfl, .inr ⟨threshold, rfl, rfl, hrange⟩⟩
          | _ => exact ⟨rfl, .inl ⟨rfl, rfl⟩⟩
      | @setInsuranceReserveTarget target hrange =>
          cases x with
          | insuranceReserveTarget => exact ⟨rfl, .inr ⟨target, rfl, rfl, hrange⟩⟩
          | _ => exact ⟨rfl, .inl ⟨rfl, rfl⟩⟩
      | updateProposalStates h =>
          obtain ⟨⟨proposals, rfl⟩, -⟩ := updateProposalStates_ok htoken h
          cases x <;> exact ⟨rfl, .inl ⟨rfl, rfl⟩⟩
      | _ => cases x <;> exact ⟨rfl, .inl ⟨rfl, rfl⟩⟩
  | _ => cases x <;> exact ⟨rfl, .inl ⟨rfl, rfl⟩⟩

/-- The parameter `x` has been set to the values `log`. -/
structure Tracked (x : Parameter) (log : List ℕ) (w : World) : Prop where
  token : w.governor.governanceToken.isSome
  last : x.read w.governor = log.getLast?.getD x.initial
  range : x.low ≤ x.read w.governor ∧ x.read w.governor ≤ x.high

theorem step_tracked {log : List ℕ} {c : GovEnv × Action} (h : Step d w c.1 c.2 w')
    (hs : Tracked x log w) : Tracked x (log ++ settings x w c) w' := by
  obtain ⟨hsame, ⟨hnone, hkept⟩ | ⟨value, hset, hnow, hvalue⟩⟩ :=
    step_parameter (x := x) h hs.token
  · rw [hnone, List.append_nil]
    exact ⟨by rw [hsame]; exact hs.token, hkept ▸ hs.last, hkept ▸ hs.range⟩
  · rw [hset]
    exact ⟨by rw [hsame]; exact hs.token, by rw [hnow, List.getLast?_append]; rfl, hnow ▸ hvalue⟩

/-- A setter looks at the value only. -/
theorem set_returns_iff (d : Deployment) (w : World) (e : GovEnv) (x : Parameter) (value : ℕ) :
    (∃ w', exec d w (e, .governor (x.set value)) = .ok w') ↔ x.low ≤ value ∧ value ≤ x.high := by
  cases x <;> simp only [exec, ProtocolGovernor.exec, Parameter.set, Parameter.low, Parameter.high,
    setPerformanceFee, setWithdrawalFee, setRebalanceThreshold, setInsuranceReserveTarget,
    map_eq_ok, bind_eq_ok, requireRange_eq_ok, pure_eq_ok, exists_const]
  all_goals
    constructor
    · rintro ⟨_, _, ⟨hrange, -⟩, -⟩
      exact hrange
    · exact fun hrange => ⟨_, _, ⟨hrange, rfl⟩, rfl⟩

/-- After every run each parameter is the value set last, or its default where none was set, and it
is in its range; anyone can then set it to any value of the range, and to no other. -/
theorem parameter_is_last_set {e : GovEnv} {p : Parties} {w : World} (d : Deployment)
    (h : deployed e d p = .ok w) (calls : List (GovEnv × Action)) (x : Parameter) :
    let v := run (exec d) w calls
    x.read v.governor = (ghostLog (exec d) (settings x) w calls).getLast?.getD x.initial ∧
      (x.low ≤ x.read v.governor ∧ x.read v.governor ≤ x.high) ∧
        ∀ e' value, (∃ v', exec d v (e', .governor (x.set value)) = .ok v') ↔
          x.low ≤ value ∧ value ≤ x.high := by
  have hstart : w.governor.governanceToken.isSome ∧ x.read w.governor = x.initial := by
    obtain ⟨-, -, -, hgovernor, -, -⟩ := deployed_ok h
    simp only [initializeGovernor, bind_eq_ok, require_eq_ok, pure_eq_ok, exists_const] at hgovernor
    rw [← hgovernor.2]
    cases x <;> exact ⟨rfl, rfl⟩
  have hfirst : Tracked x [] w :=
    ⟨hstart.1, hstart.2, by rw [hstart.2]; exact x.initial_mem⟩
  have hrun : Tracked x (ghostLog (exec d) (settings x) w calls) (run (exec d) w calls) :=
    run_log_invariant (Q := fun _ _ => True)
      (fun _ _ _ _ hs _ hcall => step_tracked (exec_step hcall) hs) calls w [] hfirst
      (along_true calls w)
  exact ⟨hrun.last, hrun.range, fun e' value => set_returns_iff d _ e' x value⟩

theorem parameter_is_last_set_sample :
    let calls := [(⟨[], 0, 0⟩, .governor (.setPerformanceFee 500)),
      (⟨[6], 1, 0⟩, .governor (.setPerformanceFee 1501))]
    let v := run (exec sampleDeployment) sampleWorld calls
    Parameter.performanceFee.read v.governor =
        (ghostLog (exec sampleDeployment) (settings .performanceFee) sampleWorld calls).getLast?.getD
          Parameter.performanceFee.initial ∧
      (Parameter.performanceFee.low ≤ Parameter.performanceFee.read v.governor ∧
        Parameter.performanceFee.read v.governor ≤ Parameter.performanceFee.high) ∧
        ∀ e' value, (∃ v', exec sampleDeployment v
            (e', .governor (Parameter.performanceFee.set value)) = .ok v') ↔
          Parameter.performanceFee.low ≤ value ∧ value ≤ Parameter.performanceFee.high :=
  parameter_is_last_set sampleDeployment sampleWorld_deployed _ .performanceFee

end YieldEngine.Governance
