import YieldEngine.VaultAccounting

/-! # The share price under deposits and withdrawals

The price of a share is the total it is a part of, over the shares outstanding; prices are
compared cross-multiplied (`PriceKept`).  A deposit rounds the minted shares down and never
lowers the price of the combined total (`deposit_price`).  A withdrawal rounds the redeemed
amounts down, but on a full exit also sweeps a rest of one unit: `redeemed_fair_iff` says
that it takes no more than its proportion of a total exactly when it does not clear a last
unit that the remaining shares back (`ClearsLastUnit`).

`sharePrice_spec` puts the two together for one call in a reachable state, and for any
sequence of calls by users other than a given holder. -/

namespace YieldEngine.Vault

open CheckedArith Rounding

/-- The part of a total `T` behind each of `S` shares is not smaller for `T'` and `S'`. -/
def PriceKept (T S T' S' : ℤ) : Prop := T * S' ≤ T' * S

theorem PriceKept.trans {T₁ S₁ T₂ S₂ T₃ S₃ : ℤ} (hS₁ : 0 ≤ S₁) (hS₂ : 0 < S₂) (hS₃ : 0 ≤ S₃)
    (h₁ : PriceKept T₁ S₁ T₂ S₂) (h₂ : PriceKept T₂ S₂ T₃ S₃) : PriceKept T₁ S₁ T₃ S₃ := by
  refine le_of_mul_le_mul_right ?_ hS₂
  calc T₁ * S₃ * S₂ = T₁ * S₂ * S₃ := by ring
    _ ≤ T₂ * S₁ * S₃ := mul_le_mul_of_nonneg_right h₁ hS₃
    _ = T₂ * S₃ * S₁ := by ring
    _ ≤ T₃ * S₂ * S₁ := mul_le_mul_of_nonneg_right h₂ hS₁
    _ = T₃ * S₁ * S₂ := by ring

/-! ### One deposit -/

theorem mintedShares_fair {S T v : ℤ} (hS : 0 < S) (hv : 0 ≤ v) :
    T * mintedShares S T v ≤ v * S := by
  unfold mintedShares
  rw [if_neg hS.ne']
  split_ifs with h
  · rw [mul_zero]
    exact mul_nonneg hv hS.le
  · have h1 := (tdiv_bounds (mul_nonneg hv hS.le) (not_le.mp h)).2.1
    rw [mul_comm]
    exact h1

theorem deposit_price {e : Env} {w w' : World} {user : Address} {amountA amountB shares : ℤ}
    (h : DepositFacts e w user amountA amountB w' shares)
    (hS : 0 < w.store.storedMetrics.totalShares) :
    PriceKept (w.store.storedMetrics.totalAmountA + w.store.storedMetrics.totalAmountB)
      w.store.storedMetrics.totalShares
      (w'.store.storedMetrics.totalAmountA + w'.store.storedMetrics.totalAmountB)
      w'.store.storedMetrics.totalShares := by
  have hfair := mintedShares_fair
    (T := w.store.storedMetrics.totalAmountA + w.store.storedMetrics.totalAmountB) hS
    (add_nonneg h.amountA_nonneg h.amountB_nonneg)
  rw [← h.shares_eq] at hfair
  unfold PriceKept
  rw [h.totalShares, h.totalAmountA, h.totalAmountB]
  linarith

/-! ### One withdrawal -/

/-- The shares left behind by `q` back a positive part of `T`, but at most one unit of it. -/
def ClearsLastUnit (T S q : ℤ) : Prop := 0 < T ∧ T * (S - q) ≤ S

instance (T S q : ℤ) : Decidable (ClearsLastUnit T S q) := inferInstanceAs (Decidable (_ ∧ _))

/-- A redeemed amount exceeds its proportion exactly when a full exit clears a last unit. -/
theorem redeemed_fair_iff {full : Bool} {q T S : ℤ} (hT : 0 ≤ T) (hq : 0 < q) (hqS : q < S) :
    redeemed full q T S * S ≤ T * q ↔ ¬ (full = true ∧ ClearsLastUnit T S q) := by
  have hS : 0 < S := hq.trans hqS
  obtain ⟨-, hlo, hhi⟩ := tdiv_bounds (mul_nonneg hq.le hT) hS
  unfold redeemed ClearsLastUnit dustThreshold
  by_cases hsweep : full = true ∧ T - (q * T).tdiv S ≤ 1
  · rw [if_pos hsweep]
    have hclear : T * (S - q) ≤ S := by
      have h1 : T * S ≤ ((q * T).tdiv S + 1) * S :=
        mul_le_mul_of_nonneg_right (by linarith [hsweep.2]) hS.le
      linarith [h1, hlo]
    constructor
    · rintro hle ⟨-, hpos, -⟩
      have : T * q < T * S := mul_lt_mul_of_pos_left hqS hpos
      omega
    · intro hn
      obtain rfl : T = 0 := by
        by_contra h0
        exact hn ⟨hsweep.1, lt_of_le_of_ne hT (Ne.symm h0), hclear⟩
      simp
  · rw [if_neg hsweep]
    refine iff_of_true (by linarith) ?_
    rintro ⟨hfull, -, hclear⟩
    refine hsweep ⟨hfull, ?_⟩
    have h1 : (T - 1) * S < ((q * T).tdiv S + 1) * S := by linarith
    have h2 := lt_of_mul_lt_mul_right h1 hS.le
    omega

/-- A full exit that leaves the other holders without the last unit of a token. -/
def SweepsOthers (s : VaultStore) (user : Address) (q : ℤ) : Prop :=
  q = (s.getUserPosition user).shares ∧
    (ClearsLastUnit s.storedMetrics.totalAmountA s.storedMetrics.totalShares q ∨
      ClearsLastUnit s.storedMetrics.totalAmountB s.storedMetrics.totalShares q)

instance (s : VaultStore) (user : Address) (q : ℤ) : Decidable (SweepsOthers s user q) :=
  inferInstanceAs (Decidable (_ ∧ _))

theorem priceKept_after_payment {T S q x : ℤ} : PriceKept T S (T - x) (S - q) ↔ x * S ≤ T * q := by
  unfold PriceKept
  constructor <;> intro h <;> linarith

theorem withdraw_price_iff {info : VaultInfo} {e : Env} {s s' : VaultStore} {user : Address}
    {q minA minB : ℤ} {plan : WithdrawPlan} (hsound : Sound info s)
    (h : SettleFacts e s user q minA minB s' plan) (hS : 0 < s'.storedMetrics.totalShares) :
    PriceKept s.storedMetrics.totalAmountA s.storedMetrics.totalShares
        s'.storedMetrics.totalAmountA s'.storedMetrics.totalShares ∧
      PriceKept s.storedMetrics.totalAmountB s.storedMetrics.totalShares
        s'.storedMetrics.totalAmountB s'.storedMetrics.totalShares ↔
    ¬ SweepsOthers s user q := by
  have hp := h.amounts
  have hqS : q < s.storedMetrics.totalShares := by
    rw [h.totalShares] at hS
    omega
  rw [h.totalShares, h.totalAmountA, h.totalAmountB, priceKept_after_payment,
    priceKept_after_payment, hp.amountA, hp.amountB, hp.totalShares, hp.totalAmountA,
    hp.totalAmountB, hp.position, redeemed_fair_iff hsound.totalA_nonneg hp.shares_pos hqS,
    redeemed_fair_iff hsound.totalB_nonneg hp.shares_pos hqS, decide_eq_true_eq]
  unfold SweepsOthers
  tauto

/-! ### Sequences of other users' calls -/

/-- A deposit or a withdrawal of a user other than `holder`. -/
def OthersTrade (holder : Address) : VaultEvent → Prop
  | .call _ (.deposit user ..) => user ≠ holder
  | .call _ (.withdraw user ..) => user ≠ holder
  | _ => False

/-- No withdrawal takes a last unit from the remaining holders. -/
def NoSweep (w : World) : VaultEvent → Prop
  | .call _ (.withdraw user q ..) => ¬ SweepsOthers w.store user q
  | _ => True

theorem getUserPosition_set_ne {s s' : VaultStore} {user holder : Address} {p : UserPosition}
    (h : s'.positions = s.positions.set user p) (hne : user ≠ holder) :
    s'.getUserPosition holder = s.getUserPosition holder := by
  unfold VaultStore.getUserPosition
  rw [h, SortedMap.get_set_ne _ _ hne.symm]

/-- The tokens behind each share, both tokens together, are not fewer in `w'` than in `w`. -/
def BackingKept (w w' : World) : Prop :=
  PriceKept (w.store.storedMetrics.totalAmountA + w.store.storedMetrics.totalAmountB)
    w.store.storedMetrics.totalShares
    (w'.store.storedMetrics.totalAmountA + w'.store.storedMetrics.totalAmountB)
    w'.store.storedMetrics.totalShares

/-- One call of another user keeps the holder's shares and the tokens behind them. -/
theorem othersTrade_step {info : VaultInfo} {w w' : World} {holder : Address} {event : VaultEvent}
    (hsound : Sound info w.store) (hsound' : Sound info w'.store)
    (hp : 0 < (w.store.getUserPosition holder).shares) (htrade : OthersTrade holder event)
    (hsweep : NoSweep w event) (hstep : vaultStep w event = .ok w') :
    0 < (w'.store.getUserPosition holder).shares ∧ BackingKept w w' := by
  have hS := hp.trans_le (hsound.shares_le holder)
  cases event with
  | tokens ledger => exact htrade.elim
  | call e action =>
      cases exec_effect hstep with
      | deposit user amountA amountB minShares shares ha hd =>
          subst ha
          exact ⟨by rwa [getUserPosition_set_ne hd.positions htrade], deposit_price hd hS⟩
      | withdraw user q minA minB plan ha hs hpay =>
          subst ha
          have hp' : 0 < (w'.store.getUserPosition holder).shares := by
            rwa [getUserPosition_set_ne hs.positions htrade]
          obtain ⟨hA, hB⟩ := (withdraw_price_iff hsound hs
            (hp'.trans_le (hsound'.shares_le holder))).mpr hsweep
          refine ⟨hp', ?_⟩
          unfold BackingKept PriceKept at *
          linarith
      | harvest caller info' ha hh =>
          subst ha
          exact htrade.elim
      | admin hs hledger =>
          refine ⟨?_, ?_⟩
          · rwa [VaultStore.getUserPosition, hs.positions]
          · unfold BackingKept
            rw [hs.totalShares, hs.totalAmountA, hs.totalAmountB]
            exact le_rfl

/-- One call changes the share price as stated, and no sequence of other users' calls lowers
the tokens behind a holder's shares. -/
theorem sharePrice_spec {info : VaultInfo} {w : World} (hreach : Reachable info w)
    (hrates : RatesBounded info) :
    (∀ e user amountA amountB minShares w' shares,
      deposit e w user amountA amountB minShares = .ok (w', shares) →
      0 < w.store.storedMetrics.totalShares → BackingKept w w') ∧
    (∀ e user q minA minB w' plan, withdraw e w user q minA minB = .ok (w', plan) →
      0 < w'.store.storedMetrics.totalShares →
      (PriceKept w.store.storedMetrics.totalAmountA w.store.storedMetrics.totalShares
          w'.store.storedMetrics.totalAmountA w'.store.storedMetrics.totalShares ∧
        PriceKept w.store.storedMetrics.totalAmountB w.store.storedMetrics.totalShares
          w'.store.storedMetrics.totalAmountB w'.store.storedMetrics.totalShares ↔
      ¬ SweepsOthers w.store user q)) ∧
    (∀ holder events, 0 < (w.store.getUserPosition holder).shares →
      Transact.Along vaultStep (fun w event => OthersTrade holder event ∧ NoSweep w event) w
        events → BackingKept w (Transact.run vaultStep w events)) := by
  have hsound := hreach.sound hrates.harvestFee
  refine ⟨fun e user amountA amountB minShares w' shares h hS => deposit_price (deposit_facts h) hS,
    fun e user q minA minB w' plan h hS => withdraw_price_iff hsound (withdraw_facts h).1 hS,
    fun holder events hp hevents => ?_⟩
  -- the holder keeps shares, so prices compare through every intermediate state
  refine (Transact.run_invariant_along (I := fun w' => Sound info w'.store ∧
    0 < (w'.store.getUserPosition holder).shares ∧ BackingKept w w') ?_ events w
    ⟨hsound, hp, le_rfl⟩ hevents).2.2
  rintro w₁ event w₂ ⟨hs₁, hp₁, hk⟩ ⟨htrade, hsweep⟩ hstep
  have hs₂ := sound_step hrates.harvestFee w₁ event w₂ hs₁ hstep
  obtain ⟨hp₂, hk₂⟩ := othersTrade_step hs₁ hs₂ hp₁ htrade hsweep hstep
  exact ⟨hs₂, hp₂, hk.trans hsound.totalShares_nonneg (hp₁.trans_le (hs₁.shares_le holder))
    hs₂.totalShares_nonneg hk₂⟩

/-- Holders `5` and `6` own half of the shares each; the vault holds one unit of token A. -/
def oneUnitWorld : World :=
  Transact.run vaultStep (initialWorld ⟨9, [], 0⟩ (twoTokenVault 0) 7 8 fun _ _ => 1000)
    [.call ⟨9, [5], 1⟩ (.deposit 5 1 9 0), .call ⟨9, [6], 2⟩ (.deposit 6 0 10 0)]

theorem oneUnitWorld_reachable : Reachable (twoTokenVault 0) oneUnitWorld :=
  ⟨_, _, _, _, _, rfl⟩

theorem sharePrice_spec_oneUnitWorld :
    BackingKept oneUnitWorld (Transact.run vaultStep oneUnitWorld
      [.call ⟨9, [6], 3⟩ (.withdraw 6 4 0 0), .call ⟨9, [6], 4⟩ (.deposit 6 30 0 0)]) :=
  (sharePrice_spec oneUnitWorld_reachable (by decide)).2.2 5 _ (by decide)
    ⟨⟨show (6 : Address) ≠ 5 by decide, show ¬ SweepsOthers _ _ _ by decide⟩,
      ⟨show (6 : Address) ≠ 5 by decide, trivial⟩, trivial⟩

/-- The exit of one holder takes the only unit of token A, half of which backs the other's
shares. -/
theorem last_unit_swept :
    Reachable (twoTokenVault 0) oneUnitWorld ∧ RatesBounded (twoTokenVault 0) ∧
      ∃ w' plan, withdraw ⟨9, [6], 3⟩ oneUnitWorld 6 10 0 0 = .ok (w', plan) ∧
        0 < w'.store.storedMetrics.totalShares ∧
        ¬ PriceKept oneUnitWorld.store.storedMetrics.totalAmountA
          oneUnitWorld.store.storedMetrics.totalShares
          w'.store.storedMetrics.totalAmountA w'.store.storedMetrics.totalShares :=
  ⟨⟨_, _, _, _, _, rfl⟩, by decide, _, _, rfl, by decide, show ¬ (_ ≤ _ : Prop) by decide⟩

end YieldEngine.Vault
