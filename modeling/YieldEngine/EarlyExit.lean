import Mathlib.Data.List.Basic

/-! # Loops that are left early

`loop body fuel round` runs the rounds `round`, `round + 1`, … of a loop.  A round goes on and
leaves a note, or it stops the loop with a result.  The fuel bounds the number of rounds.

`loop_ends` says what a loop that ends has done, `loop_isSome` that it ends where some round within
reach stops it. -/

namespace EarlyExit

variable {N R : Type}

/-- What a round does. -/
inductive Step (N R : Type) where
  | again (note : N)
  | stop (result : R)

/-- A loop that has ended: the notes in order, the last round, and its result. -/
structure Run (N R : Type) where
  notes : List N
  last : ℕ
  result : R
deriving DecidableEq

def loop (body : ℕ → Step N R) : ℕ → ℕ → Option (Run N R)
  | 0, _ => none
  | fuel + 1, round =>
      match body round with
      | .stop result => some ⟨[], round, result⟩
      | .again note =>
          (loop body fuel (round + 1)).map fun run => { run with notes := note :: run.notes }

/-- The last round stops the loop, all rounds before it go on, and their notes are taken. -/
structure Ends (body : ℕ → Step N R) (round : ℕ) (run : Run N R) : Prop where
  le_last : round ≤ run.last
  stops : body run.last = .stop run.result
  goes_on : ∀ j, round ≤ j → j < run.last → ∃ note ∈ run.notes, body j = .again note
  noted : ∀ note ∈ run.notes, ∃ j, round ≤ j ∧ j < run.last ∧ body j = .again note

variable {body : ℕ → Step N R}

theorem loop_ends {fuel : ℕ} : ∀ {round : ℕ} {run : Run N R},
    loop body fuel round = some run → Ends body round run := by
  induction fuel with
  | zero =>
      intro round run h
      cases h
  | succ fuel ih =>
      intro round run h
      unfold loop at h
      cases hbody : body round with
      | stop result =>
          rw [hbody] at h
          obtain rfl := Option.some.inj h
          exact ⟨Nat.le_refl round, hbody, fun j hj hlt => absurd hj (Nat.not_le.mpr hlt), by simp⟩
      | again note =>
          rw [hbody] at h
          obtain ⟨rest, hrest, rfl⟩ := Option.map_eq_some_iff.mp h
          obtain ⟨hle, hstops, hon, hnoted⟩ := ih hrest
          refine ⟨Nat.le_of_succ_le hle, hstops, fun j hj hlt => ?_, ?_⟩
          · obtain rfl | hlater := Nat.eq_or_lt_of_le hj
            · exact ⟨note, List.mem_cons_self, hbody⟩
            · obtain ⟨other, hmem, hother⟩ := hon j hlater hlt
              exact ⟨other, List.mem_cons_of_mem note hmem, hother⟩
          · refine List.forall_mem_cons.mpr ⟨⟨round, Nat.le_refl round, hle, hbody⟩, ?_⟩
            intro other hother
            obtain ⟨j, hj, hlt, hother⟩ := hnoted other hother
            exact ⟨j, by omega, hlt, hother⟩

/-- A loop ends where some round within reach stops it. -/
theorem loop_isSome {fuel : ℕ} : ∀ {round k : ℕ} {result : R}, round ≤ k → k < round + fuel →
    body k = .stop result → ∃ run, loop body fuel round = some run := by
  induction fuel with
  | zero =>
      intro round k result hle hlt
      omega
  | succ fuel ih =>
      intro round k result hle hlt hstop
      unfold loop
      cases hbody : body round with
      | stop other => exact ⟨_, rfl⟩
      | again note =>
          have hne : round ≠ k := by
            rintro rfl
            cases hbody.symm.trans hstop
          obtain ⟨rest, hrest⟩ := @ih (round + 1) k result (by omega) (by omega) hstop
          exact ⟨_, congrArg (Option.map _) hrest⟩

end EarlyExit
