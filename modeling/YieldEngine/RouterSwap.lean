import YieldEngine.RouterAmounts

/-! # Executing a swap

`swap` prices the caller's path leg by leg, takes the input token from the user, and pays the
output token to the recipient and the protocol fee to the treasury.  The price comes from the
path (`chainedOutput`), the transfers use the tokens named next to it, and the minimum is
compared with the output before the fee.

`swap_facts` says what a returning swap has checked and moved.  `settles_iff` compares that
with the trade the caller asked for (`Settles`), whose payments are told by the balances before
and after them: it is settled exactly when the named tokens are the ends of the path, neither the
user nor the recipient is the router itself, and the minimum leaves room for the fee. -/

namespace YieldEngine.Router

open CheckedArith

/-! ### Pricing a path -/

/-- The pool trades `x` against `y`. -/
def PoolInfo.Joins (pool : PoolInfo) (x y : Address) : Prop :=
  (pool.tokenA = x ∧ pool.tokenB = y) ∨ (pool.tokenA = y ∧ pool.tokenB = x)

instance (pool : PoolInfo) (x y : Address) : Decidable (pool.Joins x y) :=
  inferInstanceAs (Decidable (_ ∨ _))

/-- The output of the first pool, in map order, that joins the two tokens. -/
def calculateSingleSwapOutput (s : RouterStore) (inputToken outputToken : Address)
    (inputAmount : ℤ) : RouterCall ℤ :=
  match s.getPools.values.find? (fun pool => pool.Joins inputToken outputToken) with
  | some pool => do
      let (output, _) ← calculateDirectSwap pool inputToken inputAmount
      pure output
  | none => pure 0

/-- Runs `leg` on each pair of consecutive tokens and feeds every output to the next leg. -/
def alongTokens (leg : Address → Address → ℤ → RouterCall ℤ) : List Address → ℤ → RouterCall ℤ
  | source :: target :: rest, amount => do
      let output ← leg source target amount
      alongTokens leg (target :: rest) output
  | _, amount => pure amount

def calculatePathOutput (s : RouterStore) (tokens : List Address) (inputAmount : ℤ) :
    RouterCall ℤ :=
  if tokens.length < 2 ∨ inputAmount ≤ 0 then pure 0
  else alongTokens (calculateSingleSwapOutput s) tokens inputAmount

/-- The pool contract is not called; the amount is calculated. -/
def executePoolSwap (s : RouterStore) (inputToken outputToken : Address) (inputAmount : ℤ) :
    RouterCall ℤ := calculateSingleSwapOutput s inputToken outputToken inputAmount

/-! ### Bookkeeping -/

/-- The next swap id and the store that has handed it out. -/
def getNextSwapId (s : RouterStore) : RouterCall (ℕ × RouterStore) := do
  let id := s.nextSwapId.getD 1
  let next ← checkedU 64 (id + 1)
  pure (id, { s with nextSwapId := some next.toNat })

/-- Counts a completed swap in the protocol statistics. -/
def recordSwap (s : RouterStore) (inputAmount protocolFee : ℤ) : RouterCall (ℕ × RouterStore) := do
  let (swapId, s) ← getNextSwapId s
  let totalSwaps ← checkedU 64 ((s.totalSwaps.getD 0 : ℕ) + 1)
  let totalVolume ← I128.add (s.totalVolume.getD 0) inputAmount
  let totalFees ← I128.add (s.totalFees.getD 0) protocolFee
  let s := { s with
    totalSwaps := some totalSwaps.toNat
    totalVolume := some totalVolume
    totalFees := some totalFees }
  pure (swapId, s)

/-! ### The swap -/

/-- The treasury's transfer, made only for a positive fee. -/
def payTreasury (e : Env) (l : Ledger) (token treasury : Address) (protocolFee : ℤ) :
    RouterCall Ledger :=
  if protocolFee > 0 then l.transfer e token e.contract treasury protocolFee else pure l

/-- Returns the output net of the protocol fee. -/
def swap (e : Env) (s : RouterStore) (l : Ledger) (user inputToken outputToken : Address)
    (inputAmount minOutput : ℤ) (path : List Address) (recipient : Option Address) :
    RouterCall (ℤ × RouterStore × Ledger) := do
  requireOr (0 < inputAmount) "InvalidPath"
  requireOr (0 < minOutput) "InvalidSlippage"
  requireOr (2 ≤ path.length) "InvalidPath"
  let treasury ← s.getTreasury
  let recipient := recipient.getD user
  let expectedOutput ← calculatePathOutput s path inputAmount
  requireOr (minOutput ≤ expectedOutput) "SlippageExceeded"
  let l ← l.transfer e inputToken user e.contract inputAmount
  let protocolFee ← scaleBps expectedOutput protocolTreasuryFeeBps
  let netOutput ← I128.sub expectedOutput protocolFee
  -- the amount that arrives at the end of the path is not used
  let _ ← alongTokens (executePoolSwap s) path inputAmount
  let l ← l.transfer e outputToken e.contract recipient netOutput
  let l ← payTreasury e l outputToken treasury protocolFee
  let (_, s) ← recordSwap s inputAmount protocolFee
  pure (netOutput, s, l)

/-! ### The chained output of a path -/

/-- The output of one leg; `0` where no pool joins the tokens or the pool gives no quote. -/
def legOutput (pools : SortedMap Address PoolInfo) (x y : Address) (amount : ℤ) : ℤ :=
  match pools.values.find? (fun pool => pool.Joins x y) with
  | some pool => (calculateDirectSwapOutputForPool pool x amount).getD 0
  | none => 0

/-- `amount` fed through the legs of a token path. -/
def chainedOutput (pools : SortedMap Address PoolInfo) : List Address → ℤ → ℤ
  | x :: y :: rest, amount => chainedOutput pools (y :: rest) (legOutput pools x y amount)
  | _, amount => amount

theorem calculateSingleSwapOutput_value {s : RouterStore} {x y : Address} {amount r : ℤ}
    (h : calculateSingleSwapOutput s x y amount = .ok r) : r = legOutput s.getPools x y amount := by
  unfold calculateSingleSwapOutput at h
  unfold legOutput
  cases hfind : s.getPools.values.find? (fun pool => pool.Joins x y) with
  | none =>
      rw [hfind] at h
      exact (pure_eq_ok.mp h).symm
  | some pool =>
      rw [hfind] at h
      simp only [bind_eq_ok, pure_eq_ok] at h
      obtain ⟨quote, hquote, rfl⟩ := h
      exact calculateDirectSwap_fst hquote

theorem alongTokens_value {s : RouterStore} {tokens : List Address} :
    ∀ {amount r : ℤ}, alongTokens (calculateSingleSwapOutput s) tokens amount = .ok r →
      r = chainedOutput s.getPools tokens amount := by
  induction tokens with
  | nil =>
      intro amount r h
      exact (pure_eq_ok.mp h).symm
  | cons x rest ih =>
      intro amount r h
      cases rest with
      | nil => exact (pure_eq_ok.mp h).symm
      | cons y rest =>
          simp only [alongTokens, bind_eq_ok] at h
          obtain ⟨output, hleg, h⟩ := h
          rw [chainedOutput, ← calculateSingleSwapOutput_value hleg]
          exact ih h

/-- A path that is priced at all is priced at its chained output. -/
theorem calculatePathOutput_value {s : RouterStore} {tokens : List Address} {amount r : ℤ}
    (hlen : 2 ≤ tokens.length) (hamount : 0 < amount)
    (h : calculatePathOutput s tokens amount = .ok r) :
    r = chainedOutput s.getPools tokens amount := by
  rw [calculatePathOutput, if_neg (by omega)] at h
  exact alongTokens_value h

/-! ### What a returning swap has done -/

/-- One payment; a payment of nothing changes nothing. -/
def pay (l : Ledger) (token payer payee : Address) (amount : ℤ) : Ledger :=
  (l.credit token payer (-amount)).credit token payee amount

theorem pay_zero (l : Ledger) (token payer payee : Address) : pay l token payer payee 0 = l := by
  simp [pay, Ledger.credit]

theorem payTreasury_eq_ok {e : Env} {l l' : Ledger} {token treasury : Address} {fee : ℤ}
    (hfee : 0 ≤ fee) (h : payTreasury e l token treasury fee = .ok l') :
    l' = pay l token e.contract treasury fee := by
  unfold payTreasury at h
  rcases ite_eq_ok.mp h with ⟨-, h⟩ | ⟨hzero, h⟩
  · obtain ⟨-, -, rfl⟩ := Ledger.transfer_eq_ok.mp h
    rfl
  · obtain rfl := pure_eq_ok.mp h
    obtain rfl : fee = 0 := by omega
    rw [pay_zero]

/-- The protocol fee of a nonnegative output: 25 of 10000, rounded down. -/
theorem protocolFee_eq {amount : ℤ} (h : 0 ≤ amount) :
    scaledBps amount protocolTreasuryFeeBps = amount / 400 := by
  unfold scaledBps bpsDivisor protocolTreasuryFeeBps
  rw [Int.tdiv_eq_ediv_of_nonneg h, Int.tmod_eq_emod_of_nonneg h,
    Int.tdiv_eq_ediv_of_nonneg (by omega)]
  omega

/-- The checks and payments of a returning swap. -/
structure SwapFacts (e : Env) (s : RouterStore) (l : Ledger) (user inputToken outputToken : Address)
    (inputAmount minOutput : ℤ) (path : List Address) (recipient : Option Address)
    (netOutput : ℤ) (l' : Ledger) (treasury : Address) : Prop where
  configured : s.treasury = some treasury
  input_pos : 0 < inputAmount
  min_pos : 0 < minOutput
  path_length : 2 ≤ path.length
  min_le : minOutput ≤ chainedOutput s.getPools path inputAmount
  net : netOutput = chainedOutput s.getPools path inputAmount -
    chainedOutput s.getPools path inputAmount / 400
  ledger : l' = pay (pay (pay l inputToken user e.contract inputAmount)
    outputToken e.contract (recipient.getD user) netOutput)
    outputToken e.contract treasury (chainedOutput s.getPools path inputAmount / 400)

theorem swap_facts {e : Env} {s s' : RouterStore} {l l' : Ledger}
    {user inputToken outputToken : Address} {inputAmount minOutput : ℤ} {path : List Address}
    {recipient : Option Address} {netOutput : ℤ}
    (h : swap e s l user inputToken outputToken inputAmount minOutput path recipient =
      .ok (netOutput, s', l')) :
    ∃ treasury, SwapFacts e s l user inputToken outputToken inputAmount minOutput path recipient
      netOutput l' treasury := by
  simp only [swap, bind_eq_ok, requireOr_eq_ok, RouterStore.getTreasury, orRaise_eq_ok,
    I128.sub_eq_ok, Ledger.transfer_eq_ok, pure_eq_ok, Prod.mk.injEq, exists_const] at h
  obtain ⟨hinput, hmin, hlen, treasury, htreasury, output, houtput, hle, l₁, ⟨-, -, rfl⟩, fee,
    hfee, net, ⟨-, rfl⟩, -, -, l₂, ⟨-, -, rfl⟩, l₃, hpaid, -, -, rfl, -, rfl⟩ := h
  obtain rfl := calculatePathOutput_value hlen hinput houtput
  have hnonneg : 0 ≤ chainedOutput s.getPools path inputAmount := by omega
  obtain rfl := (scaleBps_value hfee).trans (protocolFee_eq hnonneg)
  exact ⟨treasury, htreasury, hinput, hmin, hlen, hle, rfl, payTreasury_eq_ok (by omega) hpaid⟩

/-! ### The trade the caller asked for -/

/-- The balances after a payment: the payer has `amount` less than before, the payee has it more,
and every other balance is as it was. -/
structure Moved (l : Ledger) (token payer payee : Address) (amount : ℤ) (l' : Ledger) : Prop where
  paid : l' token payer = l token payer - amount
  received : l' token payee = l token payee + amount
  others : ∀ t a, t ≠ token ∨ a ≠ payer ∧ a ≠ payee → l' t a = l t a

theorem moved_pay (l : Ledger) (token : Address) {payer payee : Address} (amount : ℤ)
    (hne : payer ≠ payee) : Moved l token payer payee amount (pay l token payer payee amount) where
  paid := by
    rw [pay, Ledger.credit_of_ne_holder _ _ _ _ hne, Ledger.credit_self, sub_eq_add_neg]
  received := by
    rw [pay, Ledger.credit_self, Ledger.credit_of_ne_holder _ _ _ _ hne.symm]
  others := by
    rintro t a (ht | ⟨hpayer, hpayee⟩)
    · rw [pay, Ledger.credit_of_ne_token _ _ _ _ ht, Ledger.credit_of_ne_token _ _ _ _ ht]
    · rw [pay, Ledger.credit_of_ne_holder _ _ _ _ hpayee, Ledger.credit_of_ne_holder _ _ _ _ hpayer]

/-- Nobody moves a positive amount by paying himself. -/
theorem Moved.payer_ne_payee {l l' : Ledger} {token payer payee : Address} {amount : ℤ}
    (h : Moved l token payer payee amount l') (hpos : 0 < amount) : payer ≠ payee := by
  rintro rfl
  have hpaid := h.paid
  have hreceived := h.received
  omega

/-- The trade asked for is settled by paying out `received`: `inputToken` and `outputToken` are
the ends of the path, the input has moved from the user to the router, then `received`, which is
at least the minimum, from the router to the recipient, and with the fee due to the treasury this
is the whole chained output. -/
structure Settles (e : Env) (s : RouterStore) (l : Ledger) (user inputToken outputToken : Address)
    (inputAmount minOutput : ℤ) (path : List Address) (recipient : Option Address)
    (received : ℤ) (l' : Ledger) : Prop where
  first : path.head? = some inputToken
  last : path.getLast? = some outputToken
  minimum : minOutput ≤ received
  payments : ∃ taken paid, Moved l inputToken user e.contract inputAmount taken ∧
    Moved taken outputToken e.contract (recipient.getD user) received paid ∧
    ∃ treasury fee, s.treasury = some treasury ∧ 0 ≤ fee ∧
      received + fee = chainedOutput s.getPools path inputAmount ∧
      l' = pay paid outputToken e.contract treasury fee

/-- The output less its 25 basis points is at least `m` exactly when 399 of its 400 parts
exceed `m - 1`. -/
theorem fee_room_iff {m amount : ℤ} :
    m ≤ amount - amount / 400 ↔ 400 * (m - 1) < 399 * amount := by omega

/-- A returning swap settles the trade asked for exactly when the tokens named are the ends of
the path, the router neither pays itself nor is paid by itself, and the chained output leaves room
for the fee over the minimum. -/
theorem settles_iff {e : Env} {s s' : RouterStore} {l l' : Ledger}
    {user inputToken outputToken : Address} {inputAmount minOutput : ℤ} {path : List Address}
    {recipient : Option Address} {netOutput : ℤ}
    (h : swap e s l user inputToken outputToken inputAmount minOutput path recipient =
      .ok (netOutput, s', l')) :
    Settles e s l user inputToken outputToken inputAmount minOutput path recipient netOutput l' ↔
      path.head? = some inputToken ∧ path.getLast? = some outputToken ∧
        (user ≠ e.contract ∧ recipient.getD user ≠ e.contract) ∧
          400 * (minOutput - 1) < 399 * chainedOutput s.getPools path inputAmount := by
  obtain ⟨treasury, hfacts⟩ := swap_facts h
  constructor
  · intro hsettles
    have hmin := hsettles.minimum
    obtain ⟨taken, paid, htaken, hpaid, -⟩ := hsettles.payments
    refine ⟨hsettles.first, hsettles.last, ⟨htaken.payer_ne_payee hfacts.input_pos, ?_⟩, ?_⟩
    · exact (hpaid.payer_ne_payee (hfacts.min_pos.trans_le hmin)).symm
    · rw [hfacts.net] at hmin
      exact fee_room_iff.mp hmin
  · rintro ⟨hfirst, hlast, ⟨huser, hrecipient⟩, hroom⟩
    have hnonneg := hfacts.min_pos.le.trans hfacts.min_le
    refine ⟨hfirst, hlast, ?_, _, _, moved_pay l inputToken inputAmount huser,
      moved_pay _ outputToken netOutput hrecipient.symm, treasury, _, hfacts.configured, ?_, ?_,
      hfacts.ledger⟩
    · rw [hfacts.net]
      exact fee_room_iff.mpr hroom
    · exact Int.ediv_nonneg hnonneg (by norm_num)
    · rw [hfacts.net]
      ring

/-! ### A router with one pool -/

/-- A deep pool of tokens `1` and `2` without a pool fee. -/
def deepPool : PoolInfo := ⟨10, 1, 2, 1000000, 1000000, 0, false⟩

/-- A router with the one pool and the treasury `9`. -/
def onePoolRouter : RouterStore :=
  { RouterStore.fresh with
    treasury := some 9
    xlmToken := some 5
    pools := some (SortedMap.empty.set 10 deepPool) }

/-- The router is contract `7`; user `3` has authorised the call. -/
def swapEnv : Env := ⟨7, [3], 0⟩

/-- Everybody holds `1000000` of every token. -/
def flushLedger : Ledger := fun _ _ => 1000000

theorem settles_iff_onePoolRouter :
    ∃ r, swap swapEnv onePoolRouter flushLedger 3 1 2 1000 997 [1, 2] none = .ok r ∧
      (Settles swapEnv onePoolRouter flushLedger 3 1 2 1000 997 [1, 2] none r.1 r.2.2 ↔
        [1, 2].head? = some 1 ∧ [1, 2].getLast? = some 2 ∧ (3 ≠ 7 ∧ none.getD 3 ≠ 7) ∧
          400 * ((997 : ℤ) - 1) < 399 * chainedOutput onePoolRouter.getPools [1, 2] 1000) := by
  obtain ⟨r, hr⟩ := returns_of_isOk
    (show (swap swapEnv onePoolRouter flushLedger 3 1 2 1000 997 [1, 2] none).isOk by decide)
  exact ⟨r, hr, settles_iff hr⟩

/-- Paying with token `4` for a path of the tokens `1` and `2` buys token `2`; a minimum above the
output net of the fee is accepted; and the router as the user takes nothing in. -/
theorem foreign_token_accepted :
    (∃ r, swap swapEnv onePoolRouter flushLedger 3 4 2 1000 500 [1, 2] none = .ok r ∧
      ¬ Settles swapEnv onePoolRouter flushLedger 3 4 2 1000 500 [1, 2] none r.1 r.2.2) ∧
    (∃ r, swap swapEnv onePoolRouter flushLedger 3 1 2 1000 999 [1, 2] none = .ok r ∧
      ¬ Settles swapEnv onePoolRouter flushLedger 3 1 2 1000 999 [1, 2] none r.1 r.2.2) ∧
    ∃ r, swap swapEnv onePoolRouter flushLedger 7 1 2 1000 500 [1, 2] (some 3) = .ok r ∧
      ¬ Settles swapEnv onePoolRouter flushLedger 7 1 2 1000 500 [1, 2] (some 3) r.1 r.2.2 := by
  obtain ⟨r, hr⟩ := returns_of_isOk
    (show (swap swapEnv onePoolRouter flushLedger 3 4 2 1000 500 [1, 2] none).isOk by decide)
  obtain ⟨t, ht⟩ := returns_of_isOk
    (show (swap swapEnv onePoolRouter flushLedger 3 1 2 1000 999 [1, 2] none).isOk by decide)
  obtain ⟨v, hv⟩ := returns_of_isOk
    (show (swap swapEnv onePoolRouter flushLedger 7 1 2 1000 500 [1, 2] (some 3)).isOk by decide)
  refine ⟨⟨r, hr, fun h => absurd h.first (by decide)⟩, ⟨t, ht, fun h => ?_⟩, v, hv, fun h => ?_⟩
  · obtain ⟨treasury, hfacts⟩ := swap_facts ht
    have hmin := h.minimum
    rw [hfacts.net] at hmin
    exact absurd hmin (by decide)
  · obtain ⟨taken, -, htaken, -⟩ := h.payments
    exact htaken.payer_ne_payee (by decide) rfl

end YieldEngine.Router
