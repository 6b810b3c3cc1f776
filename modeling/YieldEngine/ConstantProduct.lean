import Mathlib.Algebra.Order.Ring.Int
import Mathlib.Tactic.Linarith
import Mathlib.Tactic.Ring

/-! # Constant-product exchange

A pool holds reserves `x` and `y` of two tokens and sells the second for the first.  Of a
payment `d` it counts `k` parts out of `scale`, the rest is its fee, and it gives out
`exchange scale k x y d`: the most for which the product of the reserves, with the counted
part added to `x`, does not fall.  The output is rounded down.

The output depends on the payment and the fee through the counted part `d * k` alone, and
grows with it (`quotient_mono`).  What the pool gives leaves it with at least the product it
had (`product_le`); from this a trade forth and back does not gain (`round_trip_le`), and the
rate realised is below the spot rate by more than the fee (`ratio_lt`). -/

namespace ConstantProduct

/-- The output for the counted payment `i`, against the reserve `x` in the same scale. -/
def quotient (x y i : ℤ) : ℤ := i * y / (x + i)

/-- The output for a payment of `d`, of which `k` parts out of `scale` count. -/
def exchange (scale k x y d : ℤ) : ℤ := quotient (x * scale) y (d * k)

/-! ### Quotients -/

/-- A quotient is at most another when the products across are. -/
theorem ediv_le_ediv_of_cross {a b a' b' : ℤ} (hb : 0 < b) (hb' : 0 < b')
    (hcross : a * b' ≤ a' * b) : a / b ≤ a' / b' := by
  rw [Int.le_ediv_iff_mul_le hb']
  have hfloor : a / b * b ≤ a := Int.ediv_mul_le a hb.ne'
  have hscaled : a / b * b' * b ≤ a' * b :=
    calc a / b * b' * b = a / b * b * b' := by ring
      _ ≤ a * b' := mul_le_mul_of_nonneg_right hfloor hb'.le
      _ ≤ a' * b := hcross
  exact le_of_mul_le_mul_right hscaled hb

section quotient
variable {x y i : ℤ}

theorem quotient_nonneg (hx : 0 < x) (hy : 0 ≤ y) (hi : 0 ≤ i) : 0 ≤ quotient x y i := by
  apply Int.ediv_nonneg
  · exact mul_nonneg hi hy
  · omega

theorem quotient_mul_le (hx : 0 < x) (hi : 0 ≤ i) : quotient x y i * (x + i) ≤ i * y := by
  apply Int.ediv_mul_le
  omega

/-- The pool keeps a part of its reserve. -/
theorem quotient_lt (hx : 0 < x) (hy : 0 < y) (hi : 0 ≤ i) : quotient x y i < y := by
  have hreserve : 0 < x + i := by omega
  rw [quotient, Int.ediv_lt_iff_lt_mul hreserve]
  have hkept : 0 < y * x := mul_pos hy hx
  calc i * y < i * y + y * x := by omega
    _ = y * (x + i) := by ring

/-- More counted, more given. -/
theorem quotient_mono {i' : ℤ} (hx : 0 < x) (hy : 0 ≤ y) (hi : 0 ≤ i) (hle : i ≤ i') :
    quotient x y i ≤ quotient x y i' := by
  apply ediv_le_ediv_of_cross
  · omega
  · omega
  · have hgain : 0 ≤ y * x * (i' - i) := mul_nonneg (mul_nonneg hy hx.le) (by omega)
    calc i * y * (x + i') ≤ i * y * (x + i') + y * x * (i' - i) := by omega
      _ = i' * y * (x + i) := by ring

end quotient

/-! ### The exchange -/

/-- The terms of a trade: reserves on both sides, and a fee of at most the whole payment. -/
structure Terms (scale k x y d : ℤ) : Prop where
  reserveIn : 0 < x
  reserveOut : 0 < y
  payment : 0 ≤ d
  counted : 0 ≤ k
  fee : k ≤ scale
  scale : 0 < scale

namespace Terms
variable {scale k x y d : ℤ} (h : Terms scale k x y d)
include h

theorem exchange_nonneg : 0 ≤ exchange scale k x y d :=
  quotient_nonneg (mul_pos h.reserveIn h.scale) h.reserveOut.le (mul_nonneg h.payment h.counted)

theorem exchange_lt : exchange scale k x y d < y :=
  quotient_lt (mul_pos h.reserveIn h.scale) h.reserveOut (mul_nonneg h.payment h.counted)

/-- A larger payment, or a smaller fee, buys at least as much. -/
theorem exchange_mono {k' d' : ℤ} (hle : d * k ≤ d' * k') :
    exchange scale k x y d ≤ exchange scale k' x y d' :=
  quotient_mono (mul_pos h.reserveIn h.scale) h.reserveOut.le (mul_nonneg h.payment h.counted) hle

/-- The output is paid for by the counted part of the payment. -/
theorem exchange_mul_le :
    exchange scale k x y d * x * scale ≤ d * k * (y - exchange scale k x y d) := by
  have hquotient : exchange scale k x y d * (x * scale + d * k) ≤ d * k * y :=
    quotient_mul_le (mul_pos h.reserveIn h.scale) (mul_nonneg h.payment h.counted)
  calc exchange scale k x y d * x * scale
      = exchange scale k x y d * (x * scale + d * k) - d * k * exchange scale k x y d := by ring
    _ ≤ d * k * y - d * k * exchange scale k x y d := by omega
    _ = d * k * (y - exchange scale k x y d) := by ring

/-- The payment, counted in full, covers the output at the rate of the reserves left. -/
theorem exchange_paid : exchange scale k x y d * x ≤ d * (y - exchange scale k x y d) := by
  have hkept : 0 ≤ y - exchange scale k x y d := by
    have hlt := h.exchange_lt
    omega
  have hcounted : d * k * (y - exchange scale k x y d) ≤
      d * scale * (y - exchange scale k x y d) :=
    mul_le_mul_of_nonneg_right (mul_le_mul_of_nonneg_left h.fee h.payment) hkept
  apply le_of_mul_le_mul_right _ h.scale
  calc exchange scale k x y d * x * scale ≤ d * scale * (y - exchange scale k x y d) :=
        h.exchange_mul_le.trans hcounted
    _ = d * (y - exchange scale k x y d) * scale := by ring

/-- The product of the reserves does not fall. -/
theorem product_le : x * y ≤ (x + d) * (y - exchange scale k x y d) := by
  have hpaid := h.exchange_paid
  calc x * y = x * (y - exchange scale k x y d) + exchange scale k x y d * x := by ring
    _ ≤ x * (y - exchange scale k x y d) + d * (y - exchange scale k x y d) := by omega
    _ = (x + d) * (y - exchange scale k x y d) := by ring

/-- The terms of selling the output back to the pool. -/
theorem back : Terms scale k (y - exchange scale k x y d) (x + d) (exchange scale k x y d) where
  reserveIn := by
    have hlt := h.exchange_lt
    omega
  reserveOut := Int.add_pos_of_pos_of_nonneg h.reserveIn h.payment
  payment := h.exchange_nonneg
  counted := h.counted
  fee := h.fee
  scale := h.scale

/-- What is given out buys back at most what was paid for it. -/
theorem round_trip_le :
    exchange scale k (y - exchange scale k x y d) (x + d) (exchange scale k x y d) ≤ d := by
  have hkept := h.back.reserveIn
  have hreserve : 0 < (y - exchange scale k x y d) * scale + exchange scale k x y d * k :=
    Int.add_pos_of_pos_of_nonneg (mul_pos hkept h.scale) (mul_nonneg h.exchange_nonneg h.counted)
  apply Int.ediv_le_of_le_mul hreserve
  have hpaid : exchange scale k x y d * x * k ≤ d * (y - exchange scale k x y d) * scale :=
    calc exchange scale k x y d * x * k ≤ d * (y - exchange scale k x y d) * k :=
          mul_le_mul_of_nonneg_right h.exchange_paid h.counted
      _ ≤ d * (y - exchange scale k x y d) * scale :=
          mul_le_mul_of_nonneg_left h.fee (mul_nonneg h.payment hkept.le)
  calc exchange scale k x y d * k * (x + d)
      = exchange scale k x y d * x * k + d * (exchange scale k x y d * k) := by ring
    _ ≤ d * (y - exchange scale k x y d) * scale + d * (exchange scale k x y d * k) := by omega
    _ = d * ((y - exchange scale k x y d) * scale + exchange scale k x y d * k) := by ring

/-- The rate realised stays below the spot rate by more than the fee. -/
theorem ratio_lt (hcounted : 0 < d * k) :
    exchange scale k x y d * x * scale < d * y * k := by
  have hout := h.exchange_nonneg
  rcases hout.eq_or_lt with hzero | hpos
  · rw [← hzero, zero_mul, zero_mul]
    calc 0 < d * k * y := mul_pos hcounted h.reserveOut
      _ = d * y * k := by ring
  · have hgiven : 0 < d * k * exchange scale k x y d := mul_pos hcounted hpos
    calc exchange scale k x y d * x * scale ≤ d * k * (y - exchange scale k x y d) :=
          h.exchange_mul_le
      _ = d * y * k - d * k * exchange scale k x y d := by ring
      _ < d * y * k := by omega

end Terms

end ConstantProduct
