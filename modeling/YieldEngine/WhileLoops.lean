import Mathlib.Data.Nat.Basic
import Mathlib.Tactic.Ring

/-! # While loops that may stop with an error

`whileLoop test body rounds` goes through `while test do body` as long as there are rounds left.
The body may stop with an error; `none` is a loop that would need more rounds.

`whileLoop_ends` is the rule of total correctness: an invariant with the number of rounds that are
enough.  In the special cases the rounds are bounded by a variant that falls each round
(`whileLoop_ends_of_falls`), or by the logarithm of one that halves (`whileLoop_ends_of_halves`). -/

namespace WhileLoops

variable {ε σ : Type}

def whileLoop (test : σ → Bool) (body : σ → Except ε σ) : ℕ → σ → Except ε (Option σ)
  | 0, s => pure (if test s then none else some s)
  | rounds + 1, s => if test s then body s >>= whileLoop test body rounds else pure (some s)

section rules
variable {test : σ → Bool} {body : σ → Except ε σ}

/-- An invariant for every number of rounds left: a round keeps it with one round fewer, and with no
round left the test fails. -/
theorem whileLoop_ends {I : ℕ → σ → Prop} (hend : ∀ s, I 0 s → test s = false)
    (hbody : ∀ n s, I (n + 1) s → test s = true → ∃ s', body s = .ok s' ∧ I n s') :
    ∀ rounds s, I rounds s →
      ∃ n s', whileLoop test body rounds s = .ok (some s') ∧ I n s' ∧ test s' = false := by
  intro rounds
  induction rounds with
  | zero =>
      intro s h
      refine ⟨0, s, ?_, h, hend s h⟩
      rw [whileLoop, hend s h]
      rfl
  | succ rounds ih =>
      intro s h
      unfold whileLoop
      cases htest : test s with
      | false => exact ⟨rounds + 1, s, rfl, h, htest⟩
      | true =>
          obtain ⟨s', hs', hinv⟩ := hbody rounds s h htest
          rw [if_pos rfl, hs']
          exact ih s' hinv

/-- The variant falls each round. -/
theorem whileLoop_ends_of_falls {Inv : σ → Prop} {variant : σ → ℕ}
    (hbody : ∀ s, Inv s → test s = true →
      ∃ s', body s = .ok s' ∧ Inv s' ∧ variant s' < variant s)
    {rounds : ℕ} {s : σ} (h : Inv s) (hrounds : variant s ≤ rounds) :
    ∃ s', whileLoop test body rounds s = .ok (some s') ∧ Inv s' ∧ test s' = false := by
  have hend : ∀ s, Inv s ∧ variant s ≤ 0 → test s = false := by
    rintro s ⟨hs, hle⟩
    by_contra htest
    obtain ⟨s', -, -, hlt⟩ := hbody s hs (by simpa using htest)
    omega
  have hstep : ∀ n s, Inv s ∧ variant s ≤ n + 1 → test s = true →
      ∃ s', body s = .ok s' ∧ Inv s' ∧ variant s' ≤ n := by
    rintro n s ⟨hs, hle⟩ htest
    obtain ⟨s', hs', hinv, hlt⟩ := hbody s hs htest
    exact ⟨s', hs', hinv, by omega⟩
  obtain ⟨n, s', hs', ⟨hinv, -⟩, htest⟩ := whileLoop_ends
    (I := fun n s => Inv s ∧ variant s ≤ n) hend hstep rounds s ⟨h, hrounds⟩
  exact ⟨s', hs', hinv, htest⟩

/-- The variant halves each round, and the loop ends where it is zero. -/
theorem whileLoop_ends_of_halves {Inv : σ → Prop} {variant : σ → ℕ}
    (hend : ∀ s, Inv s → variant s = 0 → test s = false)
    (hbody : ∀ s, Inv s → test s = true →
      ∃ s', body s = .ok s' ∧ Inv s' ∧ 2 * variant s' ≤ variant s)
    {rounds : ℕ} {s : σ} (h : Inv s) (hrounds : variant s < 2 ^ rounds) :
    ∃ s', whileLoop test body rounds s = .ok (some s') ∧ Inv s' ∧ test s' = false := by
  have hstop : ∀ s, Inv s ∧ variant s < 2 ^ 0 → test s = false := by
    rintro s ⟨hs, hlt⟩
    exact hend s hs (Nat.lt_one_iff.mp hlt)
  have hstep : ∀ n s, Inv s ∧ variant s < 2 ^ (n + 1) → test s = true →
      ∃ s', body s = .ok s' ∧ Inv s' ∧ variant s' < 2 ^ n := by
    rintro n s ⟨hs, hlt⟩ htest
    obtain ⟨s', hs', hinv, hhalf⟩ := hbody s hs htest
    rw [pow_succ] at hlt
    exact ⟨s', hs', hinv, by omega⟩
  obtain ⟨n, s', hs', ⟨hinv, -⟩, htest⟩ := whileLoop_ends
    (I := fun n s => Inv s ∧ variant s < 2 ^ n) hstop hstep rounds s ⟨h, hrounds⟩
  exact ⟨s', hs', hinv, htest⟩

end rules

end WhileLoops
