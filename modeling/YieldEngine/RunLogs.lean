import YieldEngine.BoundedLog
import YieldEngine.Transact

/-! # Bounded logs of a run

A system keeps the newest entries of a log of its calls, and some calls start the log afresh.  By
`newest_iff` it keeps the newest of all entries in every state of a run exactly when every call that
starts the log afresh finds it empty. -/

namespace RunLogs

open Transact BoundedLog

variable {σ α β ε : Type}

/-- `kept` is a log of at most `limit` entries: a returning call appends what `record` notes of it,
and those in `Fresh` leave an empty log. -/
structure Logging (step : σ → α → Except ε σ) (record : σ → α → List β)
    (kept : σ → Option (List β)) (Fresh : α → Prop) (limit : ℕ) : Prop where
  fresh : ∀ s a s', Fresh a → step s a = .ok s' → kept s' = some [] ∧ record s a = []
  append : ∀ s a s' log, ¬ Fresh a → step s a = .ok s' → kept s = some log →
    kept s' = some ((record s a).foldl (push limit) log)

section logging
variable {step : σ → α → Except ε σ} {record : σ → α → List β} {kept : σ → Option (List β)}
  {Fresh : α → Prop} {limit : ℕ}

/-- A returning call keeps the newest of all entries exactly when it does not drop any. -/
theorem Logging.step_iff (h : Logging step record kept Fresh limit) {log : List β} {s s' : σ}
    {a : α} (hs : kept s = some (log.rtake limit)) (hcall : step s a = .ok s') :
    kept s' = some ((log ++ record s a).rtake limit) ↔ (Fresh a → kept s = some []) := by
  by_cases hfresh : Fresh a
  · obtain ⟨hempty, hnone⟩ := h.fresh s a s' hfresh hcall
    rw [hempty, hnone, List.append_nil, ← hs]
    exact ⟨fun heq _ => heq.symm, fun heq => (heq hfresh).symm⟩
  · refine iff_of_true ?_ fun hf => absurd hf hfresh
    have hshort : (log.rtake limit).length ≤ limit := by
      rw [length_rtake]
      exact Nat.min_le_left _ _
    rw [h.append s a s' _ hfresh hcall hs, foldl_push hshort, rtake_append_rtake le_rfl]

/-- Where every call that starts the log afresh returns, the newest of all entries are kept in every
state of a run exactly when each of these calls finds an empty log. -/
theorem newest_iff (h : Logging step record kept Fresh limit)
    (hreturns : ∀ s a, Fresh a → ∃ s', step s a = .ok s') {s : σ} (h0 : kept s = some [])
    (as : List α) :
    (∀ before, before <+: as →
        kept (run step s before) = some ((ghostLog step record s before).rtake limit)) ↔
      Along step (fun s a => Fresh a → kept s = some []) s as := by
  have hempty : ([] : List β).rtake limit = [] := rtake_of_length_le (Nat.zero_le limit)
  have hrun := run_log_invariant_iff (I := fun log s => kept s = some (log.rtake limit))
    (Q := fun s a => Fresh a → kept s = some []) (fun log s a s' => h.step_iff) as s
    (h0.trans (congrArg some hempty.symm))
  refine hrun.trans (along_congr (fun s a => ⟨fun hall hfresh => ?_, fun hall _ _ => hall⟩) as s)
  obtain ⟨s', hs'⟩ := hreturns s a hfresh
  exact hall s' hs' hfresh

end logging

end RunLogs
