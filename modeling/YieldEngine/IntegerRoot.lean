import Mathlib.Tactic.Ring
import Mathlib.Tactic.Linarith
import Mathlib.Data.Int.Order.Basic
import Mathlib.Data.Nat.Sqrt

/-! # Integer square roots

`IsRoot n r` says that `r` is the integer square root of `n`.  Two loops compute it: bisection
(`bisect`), whose interval halves each round, and Newton's method from above (`newton`), whose
estimate falls each round.  Both count their rounds with fuel; `bisect_isRoot` and
`newton_isRoot` say how much is enough. -/

namespace IntegerRoot

/-- `r` is the integer square root of `n`. -/
structure IsRoot (n r : ℤ) : Prop where
  nonneg : 0 ≤ r
  lower : r * r ≤ n
  upper : n < (r + 1) * (r + 1)

/-- The root is below `x` exactly when the square of `x` is above `n`. -/
theorem IsRoot.lt_iff {n r x : ℤ} (h : IsRoot n r) (hx : 0 ≤ x) : r < x ↔ n < x * x := by
  constructor
  · intro hlt
    exact h.upper.trans_le (mul_self_le_mul_self (by linarith [h.nonneg]) hlt)
  · intro hlt
    by_contra hle
    have hsq := mul_self_le_mul_self hx (not_lt.mp hle)
    linarith [h.lower]

theorem IsRoot.mono {n n' r r' : ℤ} (h : IsRoot n r) (h' : IsRoot n' r') (hle : n ≤ n') :
    r ≤ r' := by
  by_contra hlt
  have hbelow := (h'.lt_iff h.nonneg).mp (not_le.mp hlt)
  have hlower := h.lower
  omega

/-- The root is the largest number whose square is at most `n`. -/
theorem IsRoot.isGreatest {n r : ℤ} (h : IsRoot n r) : IsGreatest {x : ℤ | x * x ≤ n} r := by
  refine ⟨h.lower, fun x hx => ?_⟩
  have hsq : x * x ≤ n := hx
  by_contra hlt
  have hbelow := (h.lt_iff (h.nonneg.trans (not_le.mp hlt).le)).mp (not_le.mp hlt)
  omega

/-- Two roots of one number are the same. -/
theorem IsRoot.unique {n r r' : ℤ} (h : IsRoot n r) (h' : IsRoot n r') : r = r' :=
  le_antisymm (h.mono h' le_rfl) (h'.mono h le_rfl)

/-- The integer square root is that of the natural numbers. -/
theorem IsRoot.eq_sqrt {n r : ℤ} (h : IsRoot n r) : r = (Nat.sqrt n.toNat : ℤ) := by
  have hn : 0 ≤ n := le_trans (mul_self_nonneg r) h.lower
  obtain ⟨r, rfl⟩ := Int.eq_ofNat_of_zero_le h.nonneg
  obtain ⟨n, rfl⟩ := Int.eq_ofNat_of_zero_le hn
  have hlower : r * r ≤ n := by exact_mod_cast h.lower
  have hupper : n < (r + 1) * (r + 1) := by exact_mod_cast h.upper
  rw [Int.toNat_natCast]
  exact congrArg Nat.cast (Nat.eq_sqrt.mpr ⟨hlower, hupper⟩)

/-! ### Bisection -/

/-- The middle of an interval, computed without the sum of its ends. -/
def mid (low high : ℤ) : ℤ := low + (high - low).tdiv 2

/-- The root is at least `result`, which is next to `low`, and at most `high`. -/
structure Bracket (n low high result : ℤ) : Prop where
  one_le : 1 ≤ low
  next_to : low ≤ result + 1
  ordered : low ≤ high + 1
  lower : result * result ≤ n
  upper : n < (high + 1) * (high + 1)

section bracket
variable {n low high result : ℤ}

/-- Of an interval that is not empty the middle leaves at most the half, on either side. -/
theorem mid_halves (hle : low ≤ high) : low ≤ mid low high ∧ mid low high ≤ high ∧
    2 * (high - mid low high) ≤ high - low + 1 ∧ 2 * (mid low high - low) ≤ high - low + 1 := by
  have hhalf : (high - low).tdiv 2 = (high - low) / 2 := Int.tdiv_eq_ediv_of_nonneg (by omega)
  unfold mid
  omega

/-- The test of a round compares the square of the middle with the number. -/
theorem le_tdiv_iff_sq_le {m : ℤ} (hn : 0 ≤ n) (hm : 0 < m) : m ≤ n.tdiv m ↔ m * m ≤ n := by
  rw [Int.tdiv_eq_ediv_of_nonneg hn]
  exact Int.le_ediv_iff_mul_le hm

theorem Bracket.nonneg (h : Bracket n low high result) : 0 ≤ n :=
  (mul_self_nonneg result).trans h.lower

theorem Bracket.above (h : Bracket n low high result) (hle : low ≤ high)
    (htest : mid low high ≤ n.tdiv (mid low high)) :
    Bracket n (mid low high + 1) high (mid low high) := by
  obtain ⟨hlow, hhigh, -, -⟩ := mid_halves hle
  have hone := h.one_le
  exact ⟨by omega, le_rfl, by omega, (le_tdiv_iff_sq_le h.nonneg (by omega)).mp htest, h.upper⟩

theorem Bracket.below (h : Bracket n low high result) (hle : low ≤ high)
    (htest : ¬ mid low high ≤ n.tdiv (mid low high)) :
    Bracket n low (mid low high - 1) result := by
  obtain ⟨hlow, -, -, -⟩ := mid_halves hle
  have hone := h.one_le
  refine ⟨hone, h.next_to, by omega, h.lower, ?_⟩
  rw [sub_add_cancel]
  exact not_le.mp (mt (le_tdiv_iff_sq_le h.nonneg (by omega)).mpr htest)

/-- In an empty interval the result is the root. -/
theorem Bracket.isRoot (h : Bracket n low high result) (hempty : high < low) : IsRoot n result := by
  obtain ⟨hone, hnext, hordered, hlower, hupper⟩ := h
  refine ⟨by omega, hlower, hupper.trans_le ?_⟩
  exact mul_self_le_mul_self (by omega) (by omega)

end bracket

/-- At most `fuel` rounds of bisection between `low` and `high`, with the best root so far. -/
def bisect (n : ℤ) : ℕ → ℤ → ℤ → ℤ → ℤ
  | 0, _, _, result => result
  | fuel + 1, low, high, result =>
      if low ≤ high then
        let mid := low + (high - low).tdiv 2
        if mid ≤ n.tdiv mid then bisect n fuel (mid + 1) high mid
        else bisect n fuel low (mid - 1) result
      else result

/-- The bisection keeps the root between `result` and `high`; the interval halves each round. -/
theorem bisect_isRoot {n : ℤ} :
    ∀ (fuel : ℕ) {low high result : ℤ}, 1 ≤ low → low ≤ result + 1 → low ≤ high + 1 →
      result * result ≤ n → n < (high + 1) * (high + 1) → high - low + 1 < 2 ^ fuel →
      IsRoot n (bisect n fuel low high result) := by
  intro fuel
  induction fuel with
  | zero =>
      intro low high result hlow hresult hhigh hlo hhi hfuel
      rw [pow_zero] at hfuel
      exact Bracket.isRoot ⟨hlow, hresult, hhigh, hlo, hhi⟩ (by omega)
  | succ fuel ih =>
      intro low high result hlow hresult hhigh hlo hhi hfuel
      have h : Bracket n low high result := ⟨hlow, hresult, hhigh, hlo, hhi⟩
      unfold bisect
      by_cases hle : low ≤ high
      · obtain ⟨-, -, habove, hbelow⟩ := mid_halves hle
        have hpow : (2 : ℤ) ^ (fuel + 1) = 2 * 2 ^ fuel := by ring
        rw [if_pos hle]
        change IsRoot n (if mid low high ≤ n.tdiv (mid low high)
          then bisect n fuel (mid low high + 1) high (mid low high)
          else bisect n fuel low (mid low high - 1) result)
        split_ifs with htest
        · obtain ⟨h1, h2, h3, h4, h5⟩ := h.above hle htest
          exact ih h1 h2 h3 h4 h5 (by omega)
        · obtain ⟨h1, h2, h3, h4, h5⟩ := h.below hle htest
          exact ih h1 h2 h3 h4 h5 (by omega)
      · rw [if_neg hle]
        exact h.isRoot (not_le.mp hle)

/-! ### Newton's method -/

/-- The mean of an estimate and its quotient into `n`. -/
def nextEstimate (n s : ℤ) : ℤ := (s + n.tdiv s).tdiv 2

/-- At most `fuel` rounds of Newton's method: `s` is the estimate and `t` the next one. -/
def newton (n : ℤ) : ℕ → ℤ → ℤ → ℤ
  | 0, s, _ => s
  | fuel + 1, s, t => if t < s then newton n fuel t (nextEstimate n t) else s

/-- The next estimate is not below the root either. -/
theorem lt_nextEstimate_succ_sq {n s : ℤ} (hn : 0 < n) (hs : 0 < s) :
    n < (nextEstimate n s + 1) * (nextEstimate n s + 1) := by
  have hq : 0 ≤ n / s := Int.ediv_nonneg hn.le hs.le
  have hmod := Int.lt_ediv_add_one_mul_self n hs
  unfold nextEstimate
  rw [Int.tdiv_eq_ediv_of_nonneg hn.le, Int.tdiv_eq_ediv_of_nonneg (by omega)]
  have htwice : s + n / s + 1 ≤ 2 * ((s + n / s) / 2 + 1) := by omega
  generalize n / s = q at *
  generalize (s + q) / 2 = t at *
  -- the mean of `s` and `q + 1` is at least their geometric mean
  nlinarith [mul_self_le_mul_self (by omega : 0 ≤ s + q + 1) htwice, mul_self_nonneg (s - (q + 1))]

theorem nextEstimate_pos {n s : ℤ} (hs : 0 < s) (hle : s ≤ n) : 0 < nextEstimate n s := by
  have hq : 1 ≤ n / s := (Int.le_ediv_iff_mul_le hs).mpr (by omega)
  have hn : 0 ≤ n := by omega
  unfold nextEstimate
  rw [Int.tdiv_eq_ediv_of_nonneg hn, Int.tdiv_eq_ediv_of_nonneg (by omega)]
  omega

/-- An estimate that does not fall any more is the root. -/
theorem isRoot_of_le_nextEstimate {n s : ℤ} (hn : 0 < n) (hs : 0 < s)
    (hupper : n < (s + 1) * (s + 1)) (h : s ≤ nextEstimate n s) : IsRoot n s := by
  have hq : 0 ≤ n / s := Int.ediv_nonneg hn.le hs.le
  unfold nextEstimate at h
  rw [Int.tdiv_eq_ediv_of_nonneg hn.le, Int.tdiv_eq_ediv_of_nonneg (by omega)] at h
  exact ⟨hs.le, (Int.le_ediv_iff_mul_le hs).mp (by omega), hupper⟩

/-- The sum that a round halves stays below the number and one. -/
theorem add_tdiv_le {n s : ℤ} (hs : 0 < s) (hle : s ≤ n) : s + n.tdiv s ≤ n + 1 := by
  have hn : 0 ≤ n := by omega
  have hq : 1 ≤ n / s := (Int.le_ediv_iff_mul_le hs).mpr (by omega)
  have hmul := Int.mul_ediv_self_le (x := n) hs.ne'
  rw [Int.tdiv_eq_ediv_of_nonneg hn]
  nlinarith

/-- Every estimate after the number itself is at most half of it, rounded up. -/
theorem two_mul_nextEstimate_le {n s : ℤ} (hs : 0 < s) (hle : s ≤ n) :
    2 * nextEstimate n s ≤ n + 1 := by
  have hsum := add_tdiv_le hs hle
  have hq : 0 ≤ n / s := Int.ediv_nonneg (by omega) hs.le
  unfold nextEstimate
  rw [Int.tdiv_eq_ediv_of_nonneg (show 0 ≤ n by omega)] at hsum ⊢
  rw [Int.tdiv_eq_ediv_of_nonneg (by omega)]
  omega

/-- As many rounds as the estimate are enough, since it falls each round. -/
theorem newton_isRoot {n : ℤ} (hn : 0 < n) :
    ∀ (fuel : ℕ) {s : ℤ}, 0 < s → s ≤ n → s ≤ fuel → n < (s + 1) * (s + 1) →
      IsRoot n (newton n fuel s (nextEstimate n s)) := by
  intro fuel
  induction fuel with
  | zero =>
      intro s hs hle hfuel
      omega
  | succ fuel ih =>
      intro s hs hle hfuel hupper
      unfold newton
      split_ifs with h
      · exact ih (nextEstimate_pos hs hle) (by omega) (by omega) (lt_nextEstimate_succ_sq hn hs)
      · exact isRoot_of_le_nextEstimate hn hs hupper (not_lt.mp h)

/-- Newton's method started from the number itself. -/
theorem newton_self_isRoot {n : ℤ} (hn : 0 < n) :
    IsRoot n (newton n n.toNat n ((n + 1).tdiv 2)) := by
  have hstart : (n + 1).tdiv 2 = nextEstimate n n := by
    rw [nextEstimate, Int.tdiv_self hn.ne']
  rw [hstart]
  exact newton_isRoot hn n.toNat hn le_rfl (by omega) (by nlinarith)

end IntegerRoot
