import YieldEngine.VaultSolvency
import Mathlib.Algebra.Order.Ring.Abs

/-! # A vault that divides without remainder

Holder `5` alone holds shares, there is as much of one token as of the other, and no price is
set.  Harvests add to both totals (`run_harvests`); a withdrawal redeems the exact proportion,
charges a fifth of its gain, and takes the whole amount off the recorded basis
(`withdraw_even`).  Every state is an `evenStore` again, so runs of any length are followed
without evaluating them. -/

namespace YieldEngine.Vault

open CheckedArith

/-! ### States -/

/-- The vault of holder `5`, with as much of one token as of the other. -/
def evenStore (time : ℕ) (shares total held basis : ℤ) : VaultStore :=
  { (initialWorld ⟨9, [], 0⟩ (twoTokenVault 2000) 7 8 fun _ _ => 0).store with
    metrics := some ⟨shares, total, total, 0, 0, 0⟩
    harvestSnapshot := some ⟨0, 0, 0⟩
    positions := SortedMap.empty.set 5 ⟨held, time, basis, basis⟩ }

/-- A withdrawal of `amount` in each token, whose fee is `fee` in each. -/
def evenPlan (time : ℕ) (shares total held basis amount fee : ℤ) : WithdrawPlan :=
  ⟨twoTokenVault 2000, ⟨shares, total, total, 0, 0, 0⟩, ⟨held, time, basis, basis⟩, amount, amount,
    0, 0, 2 * fee, fee, fee, amount - fee, amount - fee⟩

/-- A withdrawal of `q` shares that divides without remainder, with a gain of five fees in each
token. -/
structure EvenExit (shares total held basis q amount fee : ℤ) : Prop where
  q_pos : 0 < q
  q_le : q ≤ held
  held_le : held ≤ shares
  shares_le : shares ≤ 10 ^ 17
  amount_le : amount ≤ total
  total_le : total ≤ 10 ^ 17
  basis_ge : -10 ^ 17 ≤ basis
  basis_le : basis ≤ 10 ^ 17
  fee_pos : 0 < fee
  fee_le : 5 * fee ≤ 10 ^ 17
  fee_le_amount : fee ≤ amount
  part : q * total = amount * shares
  all : q = held → total = amount
  cost : basis * q = (amount - 5 * fee) * held

/-! ### What fits -/

theorem fits_of_bounds {x : ℤ} (hlo : -10 ^ 36 ≤ x) (hhi : x ≤ 10 ^ 36) : Fits 128 x :=
  ⟨by norm_num; omega, by norm_num; omega⟩

theorem fits_mul_of_abs_le {x y : ℤ} (hx : |x| ≤ 10 ^ 18) (hy : |y| ≤ 10 ^ 18) :
    Fits 128 (x * y) := by
  have hxy : |x * y| ≤ 10 ^ 36 :=
    calc |x * y| = |x| * |y| := abs_mul x y
      _ ≤ 10 ^ 18 * 10 ^ 18 := mul_le_mul hx hy (abs_nonneg y) (by norm_num)
      _ = 10 ^ 36 := by norm_num
  exact fits_of_bounds (abs_le.mp hxy).1 (abs_le.mp hxy).2

/-- A division without remainder. -/
theorem div_exact {x y z : ℤ} (hz : z ≠ 0) (hx : x = y * z) (hlo : -10 ^ 36 ≤ y)
    (hhi : y ≤ 10 ^ 36) : (I128.div x z : VaultCall ℤ) = .ok y := by
  have hdiv : x.tdiv z = y := by rw [hx, Int.mul_tdiv_cancel _ hz]
  rw [I128.div_of_fits hz (by rw [hdiv]; exact fits_of_bounds hlo hhi), hdiv]

theorem sub_of_bounds {x y : ℤ} (hlo : -10 ^ 36 ≤ x - y) (hhi : x - y ≤ 10 ^ 36) :
    (I128.sub x y : VaultCall ℤ) = .ok (x - y) := I128.sub_of_fits (fits_of_bounds hlo hhi)

theorem mul_zero_ok (x : ℤ) : (I128.mul x 0 : VaultCall ℤ) = .ok 0 := by
  rw [I128.mul_of_fits (by rw [mul_zero]; decide), mul_zero]

/-- Without prices nothing has a value. -/
theorem valueInUsd_unpriced (s : VaultStore) (hA : s.priceA = none) (hB : s.priceB = none) (a b : ℤ) :
    s.valueInUsd a b = .ok 0 := by
  have hA : s.getPriceA = 0 := by rw [VaultStore.getPriceA, hA]; rfl
  have hB : s.getPriceB = 0 := by rw [VaultStore.getPriceB, hB]; rfl
  rw [VaultStore.valueInUsd, hA, hB, mul_zero_ok, mul_zero_ok]
  rfl

section even
variable (time : ℕ) (shares total held basis : ℤ)

theorem getMetrics_even : (evenStore time shares total held basis).getMetrics =
    .ok ⟨shares, total, total, 0, 0, 0⟩ := by
  rw [VaultStore.getMetrics, valueInUsd_unpriced _ rfl rfl]
  rfl

/-! ### Harvests -/

/-- A harvest adds 1000 of each token. -/
theorem harvest_even (l : Ledger) (h0 : 0 ≤ total) (h : total ≤ 10 ^ 18) :
    harvest ⟨9, [], 0⟩ ⟨evenStore time shares total held basis, l⟩ 6 =
      .ok ⟨evenStore time shares (total + 1000) held basis, l⟩ := by
  have hsum : Fits 128 (total + 1000) := .of_lt (by omega) (by omega)
  have hreinvest : reinvest ⟨9, [], 0⟩ (evenStore time shares total held basis)
      ⟨shares, total, total, 0, 0, 0⟩ 1000 1000 =
        .ok (evenStore time shares (total + 1000) held basis) := by
    simp only [reinvest, bind_eq_ok, pure_eq_ok]
    exact ⟨0, valueInUsd_unpriced _ rfl rfl _ _, none, rfl, _, I128.add_of_fits hsum, _,
      I128.add_of_fits hsum, 0, valueInUsd_unpriced _ rfl rfl _ _, rfl⟩
  have hscaled : (I128.mul 1000 0 : VaultCall ℤ) = .ok 0 := rfl
  have hfee : (I128.div 0 bps : VaultCall ℤ) = .ok 0 := rfl
  have hnet : (I128.sub 1000 0 : VaultCall ℤ) = .ok 1000 := rfl
  simp only [harvest, bind_eq_ok, VaultStore.requireNotPaused_eq_ok,
    VaultStore.getVaultInfo_eq_ok, exists_const]
  refine ⟨rfl, twoTokenVault 2000, rfl, _, getMetrics_even _ _ _ _ _, ?_⟩
  rw [if_pos (.inl (by decide))]
  simp only [bind_eq_ok, pure_eq_ok]
  exact ⟨0, hscaled, 0, hfee, 0, hscaled, 0, hfee, 1000, hnet, 1000, hnet, _, hreinvest, l, rfl,
    rfl⟩

theorem run_harvests (l : Ledger) : ∀ (n : ℕ) (total : ℤ), 0 ≤ total → total + 1000 * n ≤ 10 ^ 18 →
    Transact.run vaultStep ⟨evenStore time shares total held basis, l⟩
        (List.replicate n (.call ⟨9, [], 0⟩ (.harvest 6))) =
      ⟨evenStore time shares (total + 1000 * n) held basis, l⟩
  | 0, total, _, _ => by
      rw [Nat.cast_zero, mul_zero, add_zero]
      rfl
  | n + 1, total, h0, hle => by
      push_cast at hle ⊢
      have hstep : vaultStep ⟨evenStore time shares total held basis, l⟩
          (.call ⟨9, [], 0⟩ (.harvest 6)) =
          .ok ⟨evenStore time shares (total + 1000) held basis, l⟩ :=
        harvest_even time shares total held basis l h0 (by omega)
      have hgrown : total + 1000 * ((n : ℤ) + 1) = total + 1000 + 1000 * n := by ring
      rw [List.replicate_succ, Transact.run_cons, Transact.commit, hstep, hgrown]
      exact run_harvests l n (total + 1000) (by omega) (by omega)

/-! ### One withdrawal -/

variable {q amount fee : ℤ} (h : EvenExit shares total held basis q amount fee)
include h

theorem redeemLeg_even : redeemLeg (decide (q = held)) q total shares = .ok amount := by
  obtain ⟨hq, hle, hheld, hshares, hamountle, htotal, -, -, hfee, -, hfeele, hpart, hall, -⟩ := h
  simp only [redeemLeg, bind_eq_ok]
  refine ⟨_, I128.mul_of_fits (fits_mul_of_abs_le (abs_le.mpr ⟨by omega, by omega⟩)
    (abs_le.mpr ⟨by omega, by omega⟩)), amount,
    div_exact (by omega) hpart (by omega) (by omega), ?_⟩
  by_cases hfull : q = held
  · rw [if_pos (decide_eq_true hfull), hall hfull]
    simp only [bind_eq_ok]
    refine ⟨amount - amount, sub_of_bounds (by omega) (by omega), ?_⟩
    rw [sub_self, if_pos (by decide),
      I128.add_of_fits (fits_of_bounds (by omega) (by omega)), add_zero]
  · rw [if_neg (by simpa using hfull)]
    rfl

theorem calculatePerformanceFee_even :
    calculatePerformanceFee (twoTokenVault 2000) ⟨held, time, basis, basis⟩ amount amount q =
      .ok (2 * fee) := by
  obtain ⟨hq, hle, hheld, hshares, hamountle, htotal, hbasis, hbasis', hfee, hgain, hfeele, -, -,
    hcost⟩ := h
  have hscaled : (I128.mul basis q : VaultCall ℤ) = .ok (basis * q) :=
    I128.mul_of_fits (fits_mul_of_abs_le (abs_le.mpr ⟨by omega, by omega⟩)
      (abs_le.mpr ⟨by omega, by omega⟩))
  have hcostLeg : (I128.div (basis * q) held : VaultCall ℤ) = .ok (amount - 5 * fee) :=
    div_exact (by omega) hcost (by omega) (by omega)
  have hheldpos : ¬ ((twoTokenVault 2000).feeRate = 0 ∨ held ≤ 0) := by
    rintro (hrate | hheld')
    · exact absurd hrate (by decide)
    · omega
  have hten : amount + amount - (amount - 5 * fee + (amount - 5 * fee)) = 10 * fee := by ring
  have hrate : (I128.mul (10 * fee) 2000 : VaultCall ℤ) = .ok (10 * fee * 2000) :=
    I128.mul_of_fits (fits_of_bounds (by omega) (by omega))
  have hfifth : 10 * fee * 2000 = 2 * fee * bps := by
    change 10 * fee * 2000 = 2 * fee * 10000
    ring
  rw [calculatePerformanceFee, if_neg hheldpos]
  simp only [bind_eq_ok]
  refine ⟨_, hscaled, _, hcostLeg, _, hscaled, _, hcostLeg, _,
    I128.add_of_fits (fits_of_bounds (by omega) (by omega)), _,
    I128.add_of_fits (fits_of_bounds (by omega) (by omega)), _,
    sub_of_bounds (by omega) (by omega), ?_⟩
  rw [hten, if_pos (by omega)]
  simp only [bind_eq_ok]
  exact ⟨_, hrate, div_exact (by decide) hfifth (by omega) (by omega)⟩

theorem performanceFeeA_even : performanceFeeA (2 * fee) amount amount = .ok fee := by
  obtain ⟨-, -, -, -, hamountle, htotal, -, -, hfee, hgain, hfeele, -, -, -⟩ := h
  simp only [performanceFeeA, bind_eq_ok]
  refine ⟨_, I128.add_of_fits (fits_of_bounds (by omega) (by omega)), ?_⟩
  rw [if_pos (by omega)]
  simp only [bind_eq_ok]
  exact ⟨_, I128.mul_of_fits (fits_mul_of_abs_le (abs_le.mpr ⟨by omega, by omega⟩)
    (abs_le.mpr ⟨by omega, by omega⟩)),
    div_exact (by omega) (by ring) (by omega) (by omega)⟩

/-- The holder redeems the proportion and pays a fifth of the gain, in equal parts. -/
theorem planWithdraw_even :
    planWithdraw (evenStore time shares total held basis) 5 q 0 0 =
      .ok (evenPlan time shares total held basis amount fee) := by
  have hredeem := redeemLeg_even shares total held basis h
  have hperf := calculatePerformanceFee_even time shares total held basis h
  have hperfA := performanceFeeA_even shares total held basis h
  obtain ⟨hq, hle, hheld, hshares, hamountle, htotal, hbasis, hbasis', hfee, hgain, hfeele, -, -,
    -⟩ := h
  have hnoFee : (I128.div 0 bps : VaultCall ℤ) = .ok 0 := rfl
  have hamount : 0 < amount := by omega
  have hpos : 0 < shares := by omega
  have hsub : (I128.sub amount 0 : VaultCall ℤ) = .ok amount := by
    rw [sub_of_bounds (by omega) (by omega), sub_zero]
  have hrest : (I128.sub amount fee : VaultCall ℤ) = .ok (amount - fee) :=
    sub_of_bounds (by omega) (by omega)
  have hhalf : (I128.sub (2 * fee) fee : VaultCall ℤ) = .ok fee := by
    rw [sub_of_bounds (by omega) (by omega), two_mul, add_sub_cancel_right]
  have hposition : (evenStore time shares total held basis).getUserPosition 5 =
      ⟨held, time, basis, basis⟩ := rfl
  simp only [planWithdraw, bind_eq_ok, require_eq_ok, pure_eq_ok, exists_const,
    VaultStore.requireNotPaused_eq_ok, VaultStore.getVaultInfo_eq_ok, hposition]
  exact ⟨rfl, hq, hq, twoTokenVault 2000, rfl, _, getMetrics_even _ _ _ _ _, hle, hpos, amount,
    hredeem, amount, hredeem, .inr (.inl hamount), 0, mul_zero_ok _, 0, hnoFee, 0,
    mul_zero_ok _, 0, hnoFee, 2 * fee, hperf, fee, hperfA, fee, hhalf, amount, hsub,
    amount - fee, hrest, amount, hsub, amount - fee, hrest, by omega, by omega, rfl⟩

omit h

/-- The vault sends what it holds. -/
theorem transfer_even {e : Env} {l : Ledger} (token payee : Address) (x : ℤ)
    (hcontract : e.contract = 9) (hpayee : payee ≠ 9) (h0 : 0 ≤ x) (hle : x ≤ l token 9) :
    ∃ l', (l.transfer e token e.contract payee x : VaultCall Ledger) = .ok l' ∧
      l' token 9 = l token 9 - x ∧ ∀ t ≠ token, l' t 9 = l t 9 := by
  refine ⟨_, Ledger.transfer_eq_ok.mpr ⟨.inl rfl, ⟨h0, hcontract ▸ hle⟩, rfl⟩, ?_, fun t ht => ?_⟩
  · rw [hcontract, Ledger.credit_of_ne_holder _ _ _ _ hpayee.symm, Ledger.credit_self]
    rfl
  · rw [Ledger.credit_of_ne_token _ _ _ _ ht, Ledger.credit_of_ne_token _ _ _ _ ht]

theorem payFees_even {e : Env} {s : VaultStore} {l : Ledger} (hcontract : e.contract = 9)
    (htreasury : s.treasury = some 8) (hA : fee ≤ l 1 9) (hB : fee ≤ l 2 9) (hfee : 0 < fee) :
    ∃ l', payFees e s l (twoTokenVault 2000) fee fee = .ok l' ∧ l' 1 9 = l 1 9 - fee ∧
      l' 2 9 = l 2 9 - fee := by
  obtain ⟨l₁, h₁, hA₁, hother₁⟩ := transfer_even 1 8 fee hcontract (by decide) hfee.le hA
  have hB₁ := hother₁ 2 (by decide)
  obtain ⟨l₂, h₂, hB₂, hother₂⟩ := transfer_even 2 8 fee hcontract (by decide) hfee.le (hB₁ ▸ hB)
  refine ⟨l₂, ?_, (hother₂ 1 (by decide)).trans hA₁, hB₂.trans (by rw [hB₁])⟩
  rw [payFees, if_pos (.inl hfee)]
  simp only [bind_eq_ok, VaultStore.getTreasury, orRaise_eq_ok, payFee, if_pos hfee]
  exact ⟨8, htreasury, l₁, h₁, h₂⟩

/-- The holder gets the rest of an amount, the treasury the fee. -/
theorem payOut_even {e : Env} {s : VaultStore} {l : Ledger} (hcontract : e.contract = 9)
    (htreasury : s.treasury = some 8) (hA : amount ≤ l 1 9) (hB : amount ≤ l 2 9)
    (hfee : 0 < fee) (hfeele : fee ≤ amount) :
    ∃ l', payOut e s l 5 (evenPlan time shares total held basis amount fee) = .ok l' ∧
      l' 1 9 = l 1 9 - amount ∧ l' 2 9 = l 2 9 - amount := by
  obtain ⟨l₁, h₁, hA₁, hother₁⟩ := transfer_even 1 5 (amount - fee) hcontract (by decide)
    (by omega) (by omega : _ ≤ l 1 9)
  have hB₁ := hother₁ 2 (by decide)
  obtain ⟨l₂, h₂, hB₂, hother₂⟩ := transfer_even 2 5 (amount - fee) hcontract (by decide)
    (by omega) (by omega : _ ≤ l₁ 2 9)
  have hA₂ := hother₂ 1 (by decide)
  obtain ⟨l₃, h₃, hA₃, hB₃⟩ := payFees_even hcontract htreasury (by omega : _ ≤ l₂ 1 9)
    (by omega : _ ≤ l₂ 2 9) hfee
  refine ⟨l₃, ?_, by omega, by omega⟩
  simp only [payOut, bind_eq_ok]
  exact ⟨l₁, h₁, l₂, h₂, l₃, h₃, rfl⟩

include h

/-- Two fees are paid, and the basis falls by the amount instead of by its cost. -/
theorem withdraw_even {e : Env} {l : Ledger} (hcontract : e.contract = 9) (hA : amount ≤ l 1 9)
    (hB : amount ≤ l 2 9) :
    ∃ l' plan, withdraw e ⟨evenStore time shares total held basis, l⟩ 5 q 0 0 =
        .ok (⟨evenStore e.timestamp (shares - q) (total - amount) (held - q) (basis - amount), l'⟩,
          plan) ∧
      plan.perfFee = 2 * fee ∧ l' 1 9 = l 1 9 - amount ∧ l' 2 9 = l 2 9 - amount := by
  have hplan := planWithdraw_even time shares total held basis h
  obtain ⟨hq, hle, hheld, hshares, hamountle, htotal, hbasis, hbasis', hfee, hgain, hfeele, -, -,
    -⟩ := h
  have htreasury : (evenStore e.timestamp (shares - q) (total - amount) (held - q)
      (basis - amount)).treasury = some 8 := rfl
  obtain ⟨l', hpay, hl'⟩ := payOut_even time shares total held basis hcontract htreasury hA hB hfee
    hfeele
  have hheldLeft : (I128.sub held q : VaultCall ℤ) = .ok (held - q) :=
    sub_of_bounds (by omega) (by omega)
  have hsharesLeft : (I128.sub shares q : VaultCall ℤ) = .ok (shares - q) :=
    sub_of_bounds (by omega) (by omega)
  have hbasisLeft : (I128.sub basis amount : VaultCall ℤ) = .ok (basis - amount) :=
    sub_of_bounds (by omega) (by omega)
  have htotalLeft : (I128.sub total amount : VaultCall ℤ) = .ok (total - amount) :=
    sub_of_bounds (by omega) (by omega)
  refine ⟨l', evenPlan time shares total held basis amount fee, ?_, rfl, hl'⟩
  simp only [withdraw, settleWithdraw, bind_eq_ok, pure_eq_ok]
  refine ⟨_, ⟨_, hplan, _, rfl, _, ?_, rfl⟩, l', hpay, rfl⟩
  simp only [retireShares, bind_eq_ok, pure_eq_ok]
  exact ⟨_, hheldLeft, _, hbasisLeft, _, hbasisLeft, _, hsharesLeft, _, htotalLeft, _, htotalLeft,
    0, valueInUsd_unpriced _ rfl rfl _ _, rfl⟩

end even

/-! ### A deposit that has grown -/

/-- Holder `5` owns a deposit of 2000, which `n` harvests have grown. -/
def grownWorld (n : ℕ) : World :=
  Transact.run vaultStep (initialWorld ⟨9, [], 0⟩ (twoTokenVault 2000) 7 8 fun _ _ => 10 ^ 20)
    (.call ⟨9, [5], 0⟩ (.deposit 5 1000 1000 0) ::
      List.replicate n (.call ⟨9, [], 0⟩ (.harvest 6)))

theorem grownWorld_even {n : ℕ} (h : n ≤ 10 ^ 12) :
    ∃ l : Ledger, grownWorld (n + 1) = ⟨evenStore 0 2000 (1000 * (n + 2)) 2000 1000, l⟩ ∧
      10 ^ 18 ≤ l 1 9 ∧ 10 ^ 18 ≤ l 2 9 := by
  have hfirst : ∃ l : Ledger, Transact.run vaultStep
      (initialWorld ⟨9, [], 0⟩ (twoTokenVault 2000) 7 8 fun _ _ => 10 ^ 20)
      [.call ⟨9, [5], 0⟩ (.deposit 5 1000 1000 0), .call ⟨9, [], 0⟩ (.harvest 6)] =
        ⟨evenStore 0 2000 2000 2000 1000, l⟩ ∧ 10 ^ 18 ≤ l 1 9 ∧ 10 ^ 18 ≤ l 2 9 :=
    ⟨_, rfl, by decide, by decide⟩
  obtain ⟨l, hfirst, hA, hB⟩ := hfirst
  have hsplit : grownWorld (n + 1) = Transact.run vaultStep
      (Transact.run vaultStep (initialWorld ⟨9, [], 0⟩ (twoTokenVault 2000) 7 8 fun _ _ => 10 ^ 20)
        [.call ⟨9, [5], 0⟩ (.deposit 5 1000 1000 0), .call ⟨9, [], 0⟩ (.harvest 6)])
      (List.replicate n (.call ⟨9, [], 0⟩ (.harvest 6))) := rfl
  have hgrown : (1000 * (n + 2) : ℤ) = 2000 + 1000 * n := by ring
  refine ⟨l, ?_, hA, hB⟩
  rw [hsplit, hfirst, run_harvests _ _ _ _ l n 2000 (by decide) (by omega), hgrown]

end YieldEngine.Vault
