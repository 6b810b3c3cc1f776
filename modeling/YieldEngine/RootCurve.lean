import YieldEngine.IntegerRoot
import YieldEngine.Rounding
import Mathlib.Data.Int.ConditionallyCompleteOrder

/-! # Curves over an integer root

A program evaluates a curve such as `2·√r / (1 + r)` on integers as a truncated quotient of the
integer root: `⌊scale·⌊√radicand⌋ / divisor⌋`.  The root and the quotient are truncated apart from
one another, so such a curve need not be monotone where the real one is.

`Reaches` says without the root that the curve reaches a level (`reaches_iff`).  `reaches_of_cross`
is the condition under which truncation keeps the order of two points: the fractions of the
truncated roots do.
`antitone_lt_iff` is for what is computed from the curve afterwards: an antitone function of it
falls between two points where it has a step. -/

namespace RootCurve

open IntegerRoot Rounding

/-- The truncated quotient `scale·⌊√radicand⌋ / divisor` is at least `level`. -/
def Reaches (scale radicand divisor level : ℤ) : Prop :=
  ceilDiv (level * divisor) scale * ceilDiv (level * divisor) scale ≤ radicand

instance (scale radicand divisor level : ℤ) :
    Decidable (Reaches scale radicand divisor level) := inferInstanceAs (Decidable (_ ≤ _))

section curve
variable {scale radicand divisor root level : ℤ}

theorem quotient_nonneg (hscale : 0 < scale) (hdivisor : 0 < divisor)
    (hroot : IsRoot radicand root) : 0 ≤ (scale * root).tdiv divisor :=
  tdiv_nonneg (mul_nonneg hscale.le hroot.nonneg) hdivisor

theorem reaches_iff (hscale : 0 < scale) (hdivisor : 0 < divisor) (hlevel : 0 ≤ level)
    (hroot : IsRoot radicand root) :
    Reaches scale radicand divisor level ↔ level ≤ (scale * root).tdiv divisor := by
  have hceil : 0 ≤ ceilDiv (level * divisor) scale := by
    have hprod := mul_nonneg hlevel hdivisor.le
    have hlt : -1 < ceilDiv (level * divisor) scale := (lt_ceilDiv_iff hscale).mpr (by omega)
    omega
  rw [le_tdiv_iff (mul_nonneg hscale.le hroot.nonneg) hdivisor, mul_comm scale root,
    ← ceilDiv_le_iff hscale, ← not_lt, hroot.lt_iff hceil, not_lt]
  rfl

/-- What a higher level needs, a lower one needs. -/
theorem Reaches.mono {lower : ℤ} (hscale : 0 < scale) (hdivisor : 0 < divisor)
    (hroot : IsRoot radicand root) (hlower : 0 ≤ lower) (hle : lower ≤ level)
    (h : Reaches scale radicand divisor level) : Reaches scale radicand divisor lower := by
  rw [reaches_iff hscale hdivisor (hlower.trans hle) hroot] at h
  rw [reaches_iff hscale hdivisor hlower hroot]
  exact hle.trans h

end curve

section order
variable {scale radicand radicand' divisor divisor' root root' : ℤ}

/-- Where the fractions of the truncated roots are in order, the levels reached are. -/
theorem reaches_of_cross {level : ℤ} (hscale : 0 < scale) (hdivisor : 0 < divisor)
    (hdivisor' : 0 < divisor') (hroot : IsRoot radicand root) (hroot' : IsRoot radicand' root')
    (hcross : root' * divisor ≤ root * divisor') (hlevel : 0 ≤ level)
    (h : Reaches scale radicand' divisor' level) : Reaches scale radicand divisor level := by
  rw [reaches_iff hscale hdivisor' hlevel hroot',
    le_tdiv_iff (mul_nonneg hscale.le hroot'.nonneg) hdivisor'] at h
  rw [reaches_iff hscale hdivisor hlevel hroot,
    le_tdiv_iff (mul_nonneg hscale.le hroot.nonneg) hdivisor]
  refine le_of_mul_le_mul_right ?_ hdivisor'
  calc level * divisor * divisor' = level * divisor' * divisor := by ring
    _ ≤ scale * root' * divisor := mul_le_mul_of_nonneg_right h hdivisor.le
    _ = scale * (root' * divisor) := by ring
    _ ≤ scale * (root * divisor') := mul_le_mul_of_nonneg_left hcross hscale.le
    _ = scale * root * divisor' := by ring

end order

/-! ### Functions of the curve -/

/-- A function that is lower at the end of an interval falls at some point of it. -/
theorem exists_step {f : ℤ → ℤ} {x : ℤ} (n : ℕ) (h : f (x + n) < f x) :
    ∃ m, x < m ∧ m ≤ x + n ∧ f m < f (m - 1) := by
  induction n with
  | zero => simp at h
  | succ n ih =>
      by_cases hlast : f (x + (n + 1 : ℕ)) < f (x + n)
      · refine ⟨x + (n + 1 : ℕ), by omega, le_rfl, ?_⟩
        rwa [show x + ((n + 1 : ℕ) : ℤ) - 1 = x + n by push_cast; ring]
      · obtain ⟨m, hlow, hhigh, hstep⟩ := ih (by omega)
        exact ⟨m, hlow, by omega, hstep⟩

/-- An antitone function is lower at one of two points when it has a step between them. -/
theorem antitone_lt_iff {f : ℤ → ℤ} (hf : Antitone f) {x y : ℤ} :
    f y < f x ↔ ∃ m, x < m ∧ m ≤ y ∧ f m < f (m - 1) := by
  constructor
  · intro hlt
    have hxy : x < y := by
      by_contra hge
      have hle := hf (not_lt.mp hge)
      omega
    obtain ⟨n, rfl⟩ := Int.le.dest hxy.le
    exact exists_step n hlt
  · rintro ⟨m, hlow, hhigh, hstep⟩
    have hbefore := hf (show x ≤ m - 1 by omega)
    have hafter := hf hhigh
    omega

end RootCurve
