import Mathlib.Algebra.Order.Ring.Rat
import Mathlib.Data.Rat.Cast.Order
import Mathlib.Data.Rat.Floor
import Mathlib.Tactic.Linarith

/-! # Numbers of JavaScript

A number is finite, infinite or not a number.  A finite one is an exact rational: sums,
differences and products are not rounded, as for whole numbers up to `2^53`.  A comparison with
something that is not a number is false.

`IsWhole x` says that a counter which is only raised while it is below `x` never passes `x`:
the number is a natural one, or positive infinity (`le_of_lt_whole`). -/

inductive JsNumber where
  | nan
  | infinite (negative : Bool)
  | finite (q : ℚ)
deriving DecidableEq, Repr

namespace JsNumber

/-- `<`. -/
def lt : JsNumber → JsNumber → Bool
  | .nan, _ | _, .nan => false
  | .infinite a, .infinite b => a && !b
  | .infinite a, .finite _ => a
  | .finite _, .infinite b => !b
  | .finite p, .finite q => p < q

/-- `<=`. -/
def le : JsNumber → JsNumber → Bool
  | .nan, _ | _, .nan => false
  | .infinite a, .infinite b => a || !b
  | .infinite a, .finite _ => a
  | .finite _, .infinite b => !b
  | .finite p, .finite q => p ≤ q

/-- `-`. -/
def sub : JsNumber → JsNumber → JsNumber
  | .nan, _ | _, .nan => .nan
  | .infinite a, .infinite b => if a = b then .nan else .infinite a
  | .infinite a, .finite _ => .infinite a
  | .finite _, .infinite b => .infinite !b
  | .finite p, .finite q => .finite (p - q)

/-- `*`. -/
def mul : JsNumber → JsNumber → JsNumber
  | .nan, _ | _, .nan => .nan
  | .infinite a, .infinite b => .infinite (a != b)
  | .infinite a, .finite q | .finite q, .infinite a =>
      if q = 0 then .nan else .infinite (a != decide (q < 0))
  | .finite p, .finite q => .finite (p * q)

/-- `Math.max`. -/
def max (x y : JsNumber) : JsNumber :=
  if x = .nan ∨ y = .nan then .nan else if x.le y then y else x

/-- `Math.min`. -/
def min (x y : JsNumber) : JsNumber :=
  if x = .nan ∨ y = .nan then .nan else if x.le y then x else y

/-- `Math.floor`. -/
def floor : JsNumber → JsNumber
  | .finite q => .finite ⌊q⌋
  | x => x

/-- A whole number of JavaScript. -/
def ofNat (n : ℕ) : JsNumber := .finite n

def ofInt (z : ℤ) : JsNumber := .finite z

/-- `Number.isSafeInteger`. -/
def isSafeInteger : JsNumber → Bool
  | .finite q => q.den = 1 ∧ |q.num| < 2 ^ 53
  | _ => false

/-- `BigInt` of a number, which throws unless it is whole. -/
def toBigInt : JsNumber → Option ℤ
  | .finite q => if q.den = 1 then some q.num else none
  | _ => none

/-! ### Whole numbers -/

section whole
variable (m n : ℤ)

@[simp] theorem ofNat_eq_ofInt (n : ℕ) : ofNat n = ofInt n := by simp [ofNat, ofInt]

@[simp] theorem lt_ofInt : (ofInt m).lt (ofInt n) = decide (m < n) := by simp [ofInt, lt]

@[simp] theorem le_ofInt : (ofInt m).le (ofInt n) = decide (m ≤ n) := by simp [ofInt, le]

@[simp] theorem sub_ofInt : (ofInt m).sub (ofInt n) = ofInt (m - n) := by simp [ofInt, sub]

@[simp] theorem mul_ofInt : (ofInt m).mul (ofInt n) = ofInt (m * n) := by simp [ofInt, mul]

@[simp] theorem max_ofInt : (ofInt m).max (ofInt n) = ofInt (Max.max m n) := by
  by_cases h : m ≤ n
  · simp [max, h, ofInt, le]
  · rw [max_eq_left (not_le.mp h).le]
    simp [max, h, ofInt, le]

@[simp] theorem isSafeInteger_ofInt : (ofInt m).isSafeInteger = decide (|m| < 2 ^ 53) := by
  simp [ofInt, isSafeInteger]

theorem isSafeInteger_natCast (n : ℕ) :
    (ofInt (n : ℤ)).isSafeInteger = true ↔ n < 2 ^ 53 := by
  rw [isSafeInteger_ofInt, decide_eq_true_iff, Nat.abs_cast]
  exact_mod_cast Iff.rfl

@[simp] theorem toBigInt_ofInt : (ofInt m).toBigInt = some m := by simp [ofInt, toBigInt]

@[simp] theorem ofInt_inj : ofInt m = ofInt n ↔ m = n := by simp [ofInt]

/-- A safe integer is a whole number. -/
theorem isSafeInteger_iff {x : JsNumber} :
    x.isSafeInteger = true ↔ ∃ z, x = ofInt z ∧ |z| < 2 ^ 53 := by
  constructor
  · intro h
    cases x with
    | nan => cases h
    | infinite negative => cases h
    | finite q =>
        obtain ⟨hden, hnum⟩ := of_decide_eq_true h
        exact ⟨q.num, congrArg finite (Rat.coe_int_num_of_den_eq_one hden).symm, hnum⟩
  · rintro ⟨z, rfl, hz⟩
    simpa using hz

end whole

/-! ### Upper bounds -/

/-- A minimum is not above its second argument. -/
theorem lt_min_right (x y : JsNumber) : y.lt (x.min y) = false := by
  unfold min
  split_ifs with hnan hle
  · cases y <;> rfl
  · cases x with
    | nan => cases hle
    | infinite a =>
        cases y with
        | nan => cases hle
        | infinite b => cases a <;> cases b <;> first | rfl | cases hle
        | finite q => cases a <;> first | rfl | cases hle
    | finite p =>
        cases y with
        | nan => cases hle
        | infinite b => cases b <;> first | rfl | cases hle
        | finite q =>
            simp only [le, lt, decide_eq_true_eq, decide_eq_false_iff_not, not_lt] at hle ⊢
            exact hle
  · cases y with
    | nan => rfl
    | infinite b => cases b <;> rfl
    | finite q => simp [lt]

/-- A number rounded down is above `q` when it has reached the next whole number. -/
theorem lt_floor (q : ℚ) (x : JsNumber) :
    (finite q).lt x.floor = (ofInt (⌊q⌋ + 1)).le x := by
  cases x with
  | nan => rfl
  | infinite negative => rfl
  | finite p =>
      have hiff : q < (⌊p⌋ : ℤ) ↔ ((⌊q⌋ + 1 : ℤ) : ℚ) ≤ p := by
        rw [← Int.le_floor, Int.add_one_le_iff, Int.floor_lt]
      exact decide_eq_decide.mpr hiff

/-! ### Limits of counters -/

/-- A natural number, or positive infinity. -/
def IsWhole (x : JsNumber) : Prop := x = .infinite false ∨ ∃ n, x = ofNat n

/-- Below a whole limit there is room for one more. -/
theorem le_of_lt_whole {x : JsNumber} (hx : IsWhole x) {n : ℕ} (h : (ofNat n).lt x = true) :
    (ofNat (n + 1)).le x = true := by
  obtain rfl | ⟨limit, rfl⟩ := hx
  · rfl
  · simp only [ofNat, lt, le, decide_eq_true_eq, Nat.cast_lt, Nat.cast_le] at h ⊢
    exact h

/-- What has not reached a whole limit is below it. -/
theorem lt_of_not_le_whole {x : JsNumber} (hx : IsWhole x) {n : ℕ}
    (h : ¬ x.le (ofNat n) = true) : (ofNat n).lt x = true := by
  obtain rfl | ⟨limit, rfl⟩ := hx
  · rfl
  · simp only [ofNat, lt, le, decide_eq_true_eq, Nat.cast_lt, Nat.cast_le, not_le] at h ⊢
    exact h

/-- A smaller counter is within the limit, too. -/
theorem ofNat_le_mono {x : JsNumber} {m n : ℕ} (hmn : m ≤ n) (h : (ofNat n).le x = true) :
    (ofNat m).le x = true := by
  cases x with
  | nan => cases h
  | infinite negative => exact h
  | finite q =>
      simp only [ofNat, le, decide_eq_true_eq] at h ⊢
      have hcast : (m : ℚ) ≤ n := Nat.cast_le.mpr hmn
      exact hcast.trans h

theorem ofNat_lt_mono {x : JsNumber} {m n : ℕ} (hmn : m ≤ n) (h : (ofNat n).lt x = true) :
    (ofNat m).lt x = true := by
  cases x with
  | nan => cases h
  | infinite negative => exact h
  | finite q =>
      simp only [ofNat, lt, decide_eq_true_eq] at h ⊢
      have hcast : (m : ℚ) ≤ n := Nat.cast_le.mpr hmn
      exact hcast.trans_lt h

/-- Zero is within every whole limit, and below one that is at least one. -/
theorem zero_le_whole {x : JsNumber} (hx : IsWhole x) : (ofNat 0).le x = true := by
  obtain rfl | ⟨limit, rfl⟩ := hx
  · rfl
  · simp only [ofNat, le, decide_eq_true_eq, Nat.cast_le]
    exact Nat.zero_le limit

theorem zero_lt_whole {x : JsNumber} (hx : IsWhole x) (h : ¬ x.lt (ofNat 1) = true) :
    (ofNat 0).lt x = true := by
  obtain rfl | ⟨limit, rfl⟩ := hx
  · rfl
  · simp only [ofNat, lt, decide_eq_true_eq, Nat.cast_lt] at h ⊢
    omega

/-! ### Intervals -/

/-- Once nothing is left of an interval, it has passed. -/
theorem le_of_no_wait {interval : JsNumber} (hinterval : interval ≠ .nan) {start now later : ℚ}
    (hlater : now ≤ later)
    (h : ¬ (ofNat 0).lt (interval.sub ((finite now).sub (finite start))) = true) :
    interval.le (.finite (later - start)) = true := by
  cases interval with
  | nan => exact absurd rfl hinterval
  | infinite negative =>
      cases negative with
      | true => rfl
      | false => exact absurd rfl h
  | finite q =>
      simp only [ofNat, sub, lt, le, decide_eq_true_eq, not_lt, Nat.cast_zero] at h ⊢
      linarith

/-- After waiting for what was left of an interval, it has passed. -/
theorem le_of_waited {interval : JsNumber} {start since now later : ℚ} (hlater : now ≤ later)
    (h : (interval.sub ((finite since).sub (finite start))).le (.finite (now - since)) = true) :
    interval.le (.finite (later - start)) = true := by
  cases interval with
  | nan => cases h
  | infinite negative => exact h
  | finite q =>
      simp only [sub, le, decide_eq_true_eq] at h ⊢
      linarith

end JsNumber
