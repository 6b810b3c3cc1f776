import Mathlib.Tactic.Ring
import Mathlib.Tactic.Linarith
import Mathlib.Algebra.Order.Ring.Int
import Mathlib.Algebra.Order.BigOperators.Group.List
import Mathlib.Data.Rat.Cast.Order
import Mathlib.Tactic.FieldSimp

/-! # Truncated quotients of non-negative integers

Integer programs divide with truncation towards zero (`Int.tdiv`).  On a non-negative
dividend and a positive divisor this is the floor, and `tdiv_bounds` is the pair of
inequalities that determines it.  The other lemmas bound proportions `q * a / s` of an
amount `a`, the form in which shares of a pool are computed. -/

namespace Rounding

theorem tdiv_bounds {a b : ℤ} (ha : 0 ≤ a) (hb : 0 < b) :
    0 ≤ a.tdiv b ∧ a.tdiv b * b ≤ a ∧ a < (a.tdiv b + 1) * b := by
  rw [Int.tdiv_eq_ediv_of_nonneg ha]
  refine ⟨Int.ediv_nonneg ha hb.le, Int.ediv_mul_le a hb.ne', ?_⟩
  have h := Int.lt_ediv_add_one_mul_self a hb
  linarith

theorem tdiv_nonneg {a b : ℤ} (ha : 0 ≤ a) (hb : 0 < b) : 0 ≤ a.tdiv b := (tdiv_bounds ha hb).1

theorem tdiv_lt_iff {a b x : ℤ} (ha : 0 ≤ a) (hb : 0 < b) : a.tdiv b < x ↔ a < x * b := by
  rw [Int.tdiv_eq_ediv_of_nonneg ha]
  exact Int.ediv_lt_iff_lt_mul hb

theorem le_tdiv_iff {a b x : ℤ} (ha : 0 ≤ a) (hb : 0 < b) : x ≤ a.tdiv b ↔ x * b ≤ a := by
  rw [Int.tdiv_eq_ediv_of_nonneg ha]
  exact Int.le_ediv_iff_mul_le hb

/-- The quotients of parts are together at most that of the whole, and less by fewer than there are
parts. -/
theorem sum_tdiv_bounds {b : ℤ} (hb : 0 < b) : ∀ {xs : List ℤ}, (∀ x ∈ xs, 0 ≤ x) →
    (xs.map (·.tdiv b)).sum ≤ xs.sum.tdiv b ∧
      xs.sum.tdiv b ≤ (xs.map (·.tdiv b)).sum + (xs.length - 1 : ℕ)
  | [], _ => by simp
  | [x], _ => by simp
  | x :: y :: xs, h => by
      have hx := h x List.mem_cons_self
      have hrest : ∀ z ∈ y :: xs, 0 ≤ z := fun z hz => h z (List.mem_cons_of_mem x hz)
      obtain ⟨hlo, hhi⟩ := sum_tdiv_bounds hb hrest
      obtain ⟨-, hxlo, hxhi⟩ := tdiv_bounds hx hb
      obtain ⟨-, hslo, hshi⟩ := tdiv_bounds (List.sum_nonneg hrest) hb
      have hsum := add_nonneg hx (List.sum_nonneg hrest)
      rw [List.map_cons, List.sum_cons, List.sum_cons, List.length_cons, Nat.add_sub_cancel]
      have hbelow : x.tdiv b + (y :: xs).sum.tdiv b ≤ (x + (y :: xs).sum).tdiv b := by
        rw [le_tdiv_iff hsum hb, add_mul]
        exact add_le_add hxlo hslo
      have habove : (x + (y :: xs).sum).tdiv b < x.tdiv b + (y :: xs).sum.tdiv b + 2 := by
        rw [tdiv_lt_iff hsum hb]
        linarith
      rw [List.length_cons, Nat.add_sub_cancel] at hhi
      rw [List.length_cons]
      push_cast
      constructor <;> omega

/-- The quotient rounded up. -/
def ceilDiv (a b : ℤ) : ℤ := -(-a / b)

theorem lt_ceilDiv_iff {a b x : ℤ} (hb : 0 < b) : x < ceilDiv a b ↔ x * b < a := by
  have h : -a / b < -x ↔ -a < -x * b := Int.ediv_lt_iff_lt_mul hb
  unfold ceilDiv
  constructor
  · intro hlt
    linarith [h.mp (by omega)]
  · intro hlt
    linarith [h.mpr (by linarith)]

theorem ceilDiv_le_iff {a b x : ℤ} (hb : 0 < b) : ceilDiv a b ≤ x ↔ a ≤ x * b := by
  simpa only [not_lt] using not_congr (lt_ceilDiv_iff (a := a) (x := x) hb)

/-- Two amounts within a bound are equal when they reach the same thresholds. -/
theorem eq_iff_thresholds {a b bound : ℤ} (ha : 0 ≤ a) (hb : 0 ≤ b) (hab : a ≤ bound)
    (hbb : b ≤ bound) : a = b ↔ ∀ m, 1 ≤ m → m ≤ bound → (m ≤ a ↔ m ≤ b) := by
  constructor
  · rintro rfl m - -
    rfl
  · intro h
    apply le_antisymm
    · by_contra hlt
      have hle := (h a (by omega) hab).mp le_rfl
      omega
    · by_contra hlt
      have hle := (h b (by omega) hbb).mpr le_rfl
      omega

/-- A part of at most the whole of a non-negative amount is at most the amount. -/
theorem part_le {q a s : ℤ} (ha : 0 ≤ a) (hq : 0 ≤ q) (hqs : q ≤ s) (hs : 0 < s) :
    (q * a).tdiv s ≤ a := by
  have h : q * a ≤ s * a := mul_le_mul_of_nonneg_right hqs ha
  have hb := (tdiv_bounds (mul_nonneg hq ha) hs).2.1
  refine le_of_mul_le_mul_right ?_ hs
  linarith [mul_comm s a]

theorem part_nonneg {q a s : ℤ} (ha : 0 ≤ a) (hq : 0 ≤ q) (hs : 0 < s) :
    0 ≤ (q * a).tdiv s := tdiv_nonneg (mul_nonneg hq ha) hs

/-- A rate of at most one takes at most the amount. -/
theorem rate_le {a r b : ℤ} (ha : 0 ≤ a) (hr : 0 ≤ r) (hrb : r ≤ b) (hb : 0 < b) :
    (a * r).tdiv b ≤ a := by
  rw [mul_comm]
  exact part_le ha hr hrb hb

/-- Truncation moves a quotient by at most one, whatever the sign of the dividend. -/
theorem tdiv_near (a : ℤ) {b : ℤ} (hb : 0 < b) : |((a.tdiv b : ℤ) : ℚ) - a / b| ≤ 1 := by
  have hb' : (0 : ℚ) < b := by exact_mod_cast hb
  have hnonneg : ∀ a : ℤ, 0 ≤ a → |((a.tdiv b : ℤ) : ℚ) - a / b| ≤ 1 := by
    intro a ha
    obtain ⟨-, hlo, hhi⟩ := tdiv_bounds ha hb
    have hlo' : ((a.tdiv b : ℤ) : ℚ) ≤ a / b := by
      rw [le_div_iff₀ hb']
      exact_mod_cast hlo
    have hhi' : (a : ℚ) / b ≤ ((a.tdiv b : ℤ) : ℚ) + 1 := by
      rw [div_le_iff₀ hb']
      exact_mod_cast hhi.le
    rw [abs_le]
    constructor <;> linarith
  rcases le_total 0 a with ha | ha
  · exact hnonneg a ha
  · have h := hnonneg (-a) (neg_nonneg.mpr ha)
    rw [Int.neg_tdiv] at h
    push_cast at h
    rw [neg_div, neg_sub_neg, abs_sub_comm] at h
    exact h

end Rounding
