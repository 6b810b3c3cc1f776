import YieldEngine.JsNumber
import Mathlib.Algebra.Order.Round
import Mathlib.Data.Int.Log
import Mathlib.Data.Rat.Floor
import Mathlib.Tactic.Positivity

/-! # Rounding to doubles

A product or a sum of JavaScript is the exact one rounded to a double: to a multiple of the last of
53 binary places (`place`), the even one of two that are equally near (`nearest`), and to an
infinity beyond the largest double.  Whole numbers up to `2^53` are doubles, so rounding does not
take a number past one of them (`natCast_le_nearest`, `nearest_le_natCast`). -/

namespace Doubles

/-- The whole number nearest to `x`, the even one of two. -/
def roundEven (x : ℚ) : ℤ :=
  if x < ⌊x⌋ + 1 / 2 ∨ x = ⌊x⌋ + 1 / 2 ∧ ⌊x⌋ % 2 = 0 then ⌊x⌋ else ⌊x⌋ + 1

/-- The last of the 53 binary places of a double near `x`; the places end at `2^(-1074)`. -/
def place (x : ℚ) : ℚ := 2 ^ (max (Int.log 2 |x|) (-1022) - 52)

/-- The double nearest to `x`, where there is no largest one. -/
def nearest (x : ℚ) : ℚ := roundEven (x / place x) * place x

/-- A number of JavaScript with the rounding of its finite value. -/
def round : JsNumber → JsNumber
  | .finite q => if |nearest q| < 2 ^ 1024 then .finite (nearest q) else .infinite (q < 0)
  | x => x

/-- `*`. -/
def mul (x y : JsNumber) : JsNumber := round (x.mul y)

/-! ### Whole numbers -/

theorem le_roundEven {x : ℚ} {n : ℤ} (h : (n : ℚ) ≤ x) : n ≤ roundEven x := by
  have hfloor : n ≤ ⌊x⌋ := Int.le_floor.mpr h
  unfold roundEven
  split_ifs
  · exact hfloor
  · omega

theorem roundEven_le {x : ℚ} {n : ℤ} (h : x ≤ n) : roundEven x ≤ n := by
  have hfloor : ⌊x⌋ ≤ n := by exact_mod_cast (Int.floor_le x).trans h
  unfold roundEven
  split_ifs with hdown
  · exact hfloor
  · -- What is rounded up is not whole.
    have hne : ⌊x⌋ ≠ n := by
      rintro rfl
      exact hdown (.inl (h.trans_lt (by linarith)))
    omega

theorem place_pos (x : ℚ) : 0 < place x := zpow_pos two_pos _

/-- Rounding does not take a number past a multiple of its last place. -/
theorem le_nearest {x : ℚ} {k : ℤ} (h : k * place x ≤ x) : k * place x ≤ nearest x := by
  refine mul_le_mul_of_nonneg_right (Int.cast_le.mpr (le_roundEven ?_)) (place_pos x).le
  exact (le_div_iff₀ (place_pos x)).mpr h

theorem nearest_le {x : ℚ} {k : ℤ} (h : x ≤ k * place x) : nearest x ≤ k * place x := by
  refine mul_le_mul_of_nonneg_right (Int.cast_le.mpr (roundEven_le ?_)) (place_pos x).le
  exact (div_le_iff₀ (place_pos x)).mpr h

/-- Where the last place is not above 1, whole numbers are multiples of it. -/
theorem natCast_eq_mul_place {x : ℚ} (h : max (Int.log 2 |x|) (-1022) ≤ 52) (n : ℕ) :
    ∃ k : ℤ, (n : ℚ) = k * place x := by
  obtain ⟨d, hd⟩ := Int.eq_ofNat_of_zero_le (sub_nonneg.mpr h)
  refine ⟨n * 2 ^ d, ?_⟩
  have hplace : place x = (2 ^ d)⁻¹ := by
    have hexponent : max (Int.log 2 |x|) (-1022) - 52 = -(d : ℤ) := by omega
    rw [place, hexponent, zpow_neg, zpow_natCast]
  rw [hplace]
  push_cast
  field_simp

/-- The last place is above 1 for large numbers only, among them the powers of 2. -/
theorem two_pow_le_abs {x : ℚ} (h : ¬ max (Int.log 2 |x|) (-1022) ≤ 52) :
    ∃ k : ℤ, (2 : ℚ) ^ 53 ≤ k * place x ∧ k * place x ≤ |x| := by
  have hlog : 53 ≤ Int.log 2 |x| := by omega
  have hne : |x| ≠ 0 := by
    intro hzero
    rw [hzero, Int.log_zero_right] at hlog
    omega
  have hpower : ((2 ^ 52 : ℤ) : ℚ) * place x = 2 ^ Int.log 2 |x| := by
    have hsum : Int.log 2 |x| = 52 + (Int.log 2 |x| - 52) := by omega
    rw [place, max_eq_left (by omega), hsum, zpow_add₀ two_ne_zero, ← hsum]
    norm_num
  refine ⟨2 ^ 52, ?_, ?_⟩
  · rw [hpower]
    calc (2 : ℚ) ^ 53 = 2 ^ (53 : ℤ) := by norm_num
      _ ≤ 2 ^ Int.log 2 |x| := zpow_le_zpow_right₀ one_le_two hlog
  · rw [hpower]
    exact_mod_cast Int.zpow_log_le_self one_lt_two (lt_of_le_of_ne (abs_nonneg x) hne.symm)

theorem natCast_le_nearest {x : ℚ} {n : ℕ} (hn : n ≤ 2 ^ 53) (h : (n : ℚ) ≤ x) :
    (n : ℚ) ≤ nearest x := by
  by_cases hplace : max (Int.log 2 |x|) (-1022) ≤ 52
  · obtain ⟨k, hk⟩ := natCast_eq_mul_place hplace n
    rw [hk] at h ⊢
    exact le_nearest h
  · obtain ⟨k, hlarge, hle⟩ := two_pow_le_abs hplace
    rw [abs_of_nonneg (n.cast_nonneg.trans h)] at hle
    exact (le_trans (by exact_mod_cast hn) hlarge).trans (le_nearest hle)

theorem nearest_le_natCast {x : ℚ} {n : ℕ} (hn : n ≤ 2 ^ 53) (h : x ≤ n) : nearest x ≤ n := by
  by_cases hplace : max (Int.log 2 |x|) (-1022) ≤ 52
  · obtain ⟨k, hk⟩ := natCast_eq_mul_place hplace n
    rw [hk] at h ⊢
    exact nearest_le h
  · obtain ⟨k, hlarge, hle⟩ := two_pow_le_abs hplace
    have hsmall : (n : ℚ) ≤ 2 ^ 53 := by exact_mod_cast hn
    rcases abs_cases x with ⟨habs, -⟩ | ⟨habs, hneg⟩
    · -- A large number up to `n` is `n` itself.
      rw [habs] at hle
      have hk : (n : ℚ) = k * place x := le_antisymm (hsmall.trans hlarge) (hle.trans h)
      rw [hk] at h ⊢
      exact nearest_le h
    · have hzero : nearest x ≤ ((0 : ℤ) : ℚ) * place x := nearest_le (by simpa using hneg.le)
      rw [Int.cast_zero, zero_mul] at hzero
      exact hzero.trans n.cast_nonneg

/-! ### Rounded numbers and whole limits -/

theorem round_le_ofNat {x : ℚ} {n : ℕ} (hn : n ≤ 2 ^ 53) (h : x ≤ n) :
    (round (.finite x)).le (.ofNat n) = true := by
  have hle := nearest_le_natCast hn h
  simp only [round]
  split_ifs with hfinite
  · exact decide_eq_true hle
  · -- A number up to `n` is too large for a double only below zero.
    have hneg : x < 0 := by
      by_contra hnonneg
      have hzero : (0 : ℚ) ≤ nearest x := by
        exact_mod_cast natCast_le_nearest (Nat.zero_le _) (by simpa using hnonneg)
      have hsmall : (n : ℚ) ≤ 2 ^ 53 := by exact_mod_cast hn
      have hpowers : (2 : ℚ) ^ 53 < 2 ^ 1024 := pow_lt_pow_right₀ one_lt_two (by decide)
      rw [abs_of_nonneg hzero] at hfinite
      exact hfinite ((hle.trans hsmall).trans_lt hpowers)
    rw [decide_eq_true hneg]
    rfl

theorem ofNat_le_round {x : ℚ} {n : ℕ} (hn : n ≤ 2 ^ 53) (h : (n : ℚ) ≤ x) :
    (JsNumber.ofNat n).le (round (.finite x)) = true := by
  simp only [round]
  split_ifs
  · exact decide_eq_true (natCast_le_nearest hn h)
  · have hnonneg : ¬ x < 0 := not_lt.mpr (n.cast_nonneg.trans h)
    rw [decide_eq_false hnonneg]
    rfl

end Doubles
