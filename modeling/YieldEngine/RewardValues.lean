import YieldEngine.RewardRuns
import YieldEngine.Tally

/-! # Pending rewards in dollars

`get_pending_rewards_with_usd` reads the pending amounts of a user in all streams and values
them.  The price of a token is the one the configured oracle reports, if it is positive, and
otherwise the caller's.  The oracle is another contract: `invoke oracle token` is the price its
`get_price` returns, if the invocation returns one.

The loop writes each amount and each value under the token of its stream, so that a stream
replaces what an earlier stream of the token has left there, while the total adds all values
up.  The three results agree exactly when no two streams with something pending pay the same
token (`pending_values_iff`). -/

namespace YieldEngine.Rewards

open CheckedArith SortedMap

/-- What `get_pending_rewards_with_usd` returns. -/
structure PendingValues where
  amounts : SortedMap Address ℤ
  usdValues : SortedMap Address ℤ
  totalUsd : ℤ

/-! ### Prices -/

section prices
variable (invoke : Address → Address → Option ℤ) (s : RewardStore)

/-- `query_oracle_price`. -/
def queryOraclePrice (oracle token : Address) : Option ℤ :=
  match invoke oracle token with
  | some price => if 0 < price then some price else none
  | none => none

/-- `get_token_usd_price`. -/
def getTokenUsdPrice (token : Address) : ℤ :=
  match s.priceOracle with
  | some oracle => (queryOraclePrice invoke oracle token).getD 0
  | none => 0

/-- `resolve_usd_price`. -/
def resolveUsdPrice (token : Address) (fallback : SortedMap Address ℤ) : ℤ :=
  match s.priceOracle with
  | some oracle =>
      match queryOraclePrice invoke oracle token with
      | some price => if 0 < price then price else (fallback.get token).getD 0
      | none => (fallback.get token).getD 0
  | none => (fallback.get token).getD 0

/-- The second look at the sign of an oracle price changes nothing: the price is the one
`get_token_usd_price` reports, or the caller's where that is zero. -/
theorem resolveUsdPrice_eq (token : Address) (fallback : SortedMap Address ℤ) :
    resolveUsdPrice invoke s token fallback =
      if 0 < getTokenUsdPrice invoke s token then getTokenUsdPrice invoke s token
      else (fallback.get token).getD 0 := by
  unfold resolveUsdPrice getTokenUsdPrice
  cases s.priceOracle with
  | none => rfl
  | some oracle =>
      cases hq : queryOraclePrice invoke oracle token with
      | none => simp [hq]
      | some price => simp [hq]

/-- `normalize_usd_value`. -/
def normalizeUsdValue (amount : ℤ) (decimals : ℕ) (price : ℤ) : RewardCall ℤ := do
  let divisor ← I128.pow 10 decimals
  let product ← I128.mul amount price
  I128.div product divisor

end prices

/-! ### The loop -/

section loop
variable (invoke : Address → Address → Option ℤ) (s : RewardStore) (user : Address)
  (prices : SortedMap Address ℤ)

/-- The rounds of `get_pending_rewards_with_usd` from stream `i` on. -/
def valueStreams : ℕ → List RewardStream → PendingValues → RewardCall PendingValues
  | _, [], values => pure values
  | i, stream :: rest, values =>
      let pending := (s.getUserRewardDebt user i).pendingRewards
      if 0 < pending then do
        let price := resolveUsdPrice invoke s stream.token prices
        let usdValue ← normalizeUsdValue pending stream.decimals price
        let totalUsd ← I128.add values.totalUsd usdValue
        valueStreams (i + 1) rest
          ⟨values.amounts.set stream.token pending, values.usdValues.set stream.token usdValue,
            totalUsd⟩
      else valueStreams (i + 1) rest values

/-- `get_pending_rewards_with_usd`. -/
def getPendingRewardsWithUsd (_vault : Address) (_userShares : ℤ) : RewardCall PendingValues :=
  valueStreams invoke s user prices 0 s.getStreams ⟨.empty, .empty, 0⟩

/-! ### What the results should be -/

/-- The streams from stream `i` on in which something is pending, with the pending amounts. -/
def pendingStreams : ℕ → List RewardStream → List (RewardStream × ℤ)
  | _, [] => []
  | i, stream :: rest =>
      if 0 < (s.getUserRewardDebt user i).pendingRewards then
        (stream, (s.getUserRewardDebt user i).pendingRewards) :: pendingStreams (i + 1) rest
      else pendingStreams (i + 1) rest

/-- The value of a pending amount. -/
def usdValueOf (p : RewardStream × ℤ) : ℤ :=
  (p.2 * resolveUsdPrice invoke s p.1.token prices).tdiv (10 ^ p.1.decimals)

/-- The pending amounts, under their tokens. -/
def pendingAmounts (pending : List (RewardStream × ℤ)) : List (Address × ℤ) :=
  pending.map fun p => (p.1.token, p.2)

/-- Their values, under their tokens. -/
def pendingUsd (pending : List (RewardStream × ℤ)) : List (Address × ℤ) :=
  pending.map fun p => (p.1.token, usdValueOf invoke s prices p)

/-- Amounts and values are added up by token, and the total is the sum of all values. -/
structure ValuesAgree (values : PendingValues) : Prop where
  amounts : Tallies values.amounts (pendingAmounts (pendingStreams s user 0 s.getStreams))
  usdValues : Tallies values.usdValues
    (pendingUsd invoke s prices (pendingStreams s user 0 s.getStreams))
  totalUsd : values.totalUsd = total id values.usdValues

end loop

section values
variable {invoke : Address → Address → Option ℤ} {s : RewardStore} {user : Address}
  {prices : SortedMap Address ℤ}

theorem normalizeUsdValue_ok {amount price value : ℤ} {decimals : ℕ}
    (h : normalizeUsdValue amount decimals price = .ok value) :
    value = (amount * price).tdiv (10 ^ decimals) := by
  simp only [normalizeUsdValue, bind_eq_ok, I128.pow_eq_ok, I128.mul_eq_ok, I128.div_eq_ok] at h
  obtain ⟨_, ⟨-, rfl⟩, _, ⟨-, rfl⟩, -, -, rfl⟩ := h
  rfl

/-- The rounds overwrite the two maps and add to the total. -/
theorem valueStreams_ok {i : ℕ} {streams : List RewardStream} {values r : PendingValues}
    (h : valueStreams invoke s user prices i streams values = .ok r) :
    r.amounts = (pendingAmounts (pendingStreams s user i streams)).foldl
        (fun m p => m.set p.1 p.2) values.amounts ∧
      r.usdValues = (pendingUsd invoke s prices (pendingStreams s user i streams)).foldl
        (fun m p => m.set p.1 p.2) values.usdValues ∧
      r.totalUsd = values.totalUsd +
        ((pendingUsd invoke s prices (pendingStreams s user i streams)).map Prod.snd).sum := by
  induction streams generalizing i values with
  | nil =>
      obtain rfl := pure_eq_ok.mp h
      exact ⟨rfl, rfl, (add_zero _).symm⟩
  | cons stream rest ih =>
      simp only [valueStreams, ite_eq_ok, bind_eq_ok, I128.add_eq_ok] at h
      unfold pendingStreams
      obtain ⟨hpos, value, hvalue, _, ⟨-, rfl⟩, hrest⟩ | ⟨hnone, hrest⟩ := h
      · obtain rfl := normalizeUsdValue_ok hvalue
        obtain ⟨hamounts, husd, htotal⟩ := ih hrest
        rw [if_pos hpos]
        refine ⟨hamounts, husd, ?_⟩
        rw [htotal, add_assoc]
        rfl
      · rw [if_neg hnone]
        exact ih hrest

theorem pendingStreams_pos {i : ℕ} {streams : List RewardStream} {p : RewardStream × ℤ}
    (hp : p ∈ pendingStreams s user i streams) : 0 < p.2 := by
  induction streams generalizing i with
  | nil => cases hp
  | cons stream rest ih =>
      unfold pendingStreams at hp
      split_ifs at hp with hpos
      · rcases List.mem_cons.mp hp with rfl | hp
        · exact hpos
        · exact ih hp
      · exact ih hp

/-- The results of a returning call agree exactly when the streams with something pending pay
different tokens. -/
theorem pending_values_iff {vault : Address} {userShares : ℤ} {values : PendingValues}
    (h : getPendingRewardsWithUsd invoke s user prices vault userShares = .ok values) :
    ValuesAgree invoke s user prices values ↔
      ((pendingStreams s user 0 s.getStreams).map fun p => p.1.token).Nodup := by
  obtain ⟨hamounts, husd, htotal⟩ := valueStreams_ok h
  have hkeys : (pendingAmounts (pendingStreams s user 0 s.getStreams)).map Prod.fst =
      (pendingStreams s user 0 s.getStreams).map fun p => p.1.token := by
    rw [pendingAmounts, List.map_map]
    rfl
  have hkeysUsd : (pendingUsd invoke s prices (pendingStreams s user 0 s.getStreams)).map
      Prod.fst = (pendingStreams s user 0 s.getStreams).map fun p => p.1.token := by
    rw [pendingUsd, List.map_map]
    rfl
  have hpos : ∀ q ∈ pendingAmounts (pendingStreams s user 0 s.getStreams), 0 < q.2 := by
    intro q hq
    obtain ⟨p, hp, rfl⟩ := List.mem_map.mp hq
    exact pendingStreams_pos hp
  constructor
  · intro hagree
    have htallies := hagree.amounts
    rw [hamounts] at htallies
    rw [← hkeys]
    exact (overwrite_tallies_iff hpos).mp htallies
  · intro hnodup
    have hnodupUsd := hnodup
    rw [← hkeysUsd] at hnodupUsd
    refine ⟨?_, ?_, ?_⟩
    · rw [hamounts]
      apply (overwrite_tallies_iff hpos).mpr
      rw [hkeys]
      exact hnodup
    · rw [husd]
      exact overwrite_tallies hnodupUsd
    · rw [htotal, husd, zero_add]
      exact (total_overwrite hnodupUsd).symm

end values

/-- A distributor with two streams of the tokens `token₁` and `token₂`, and what they have
accrued to user 5 at time 100. -/
def twoStreamStore (token₁ token₂ : Address) : RewardStore :=
  (Transact.run rewardStep ⟨initialRewards 7 8 6, fun _ _ => 1000⟩
    [.call ⟨9, [7], 0⟩ (.addRewardStream 7 token₁ 1 1 0),
      .call ⟨9, [7], 0⟩ (.addRewardStream 7 token₂ 2 1 0),
      .call ⟨9, [], 100⟩ (.updateRewards 5 4 1 7)]).store

/-- Both tokens are worth three dollars. -/
def threeDollars : SortedMap Address ℤ := (SortedMap.empty.set 1 300000000).set 2 300000000

theorem twoStreamStore_values :
    (getPendingRewardsWithUsd (fun _ _ => none) (twoStreamStore 1 2) 5 threeDollars 4 1).isOk =
      true := by decide +kernel

theorem pending_values_iff_two_tokens :
    ∃ values, getPendingRewardsWithUsd (fun _ _ => none) (twoStreamStore 1 2) 5 threeDollars 4 1 =
        .ok values ∧
      (ValuesAgree (fun _ _ => none) (twoStreamStore 1 2) 5 threeDollars values ↔
        ((pendingStreams (twoStreamStore 1 2) 5 0 (twoStreamStore 1 2).getStreams).map
          fun p => p.1.token).Nodup) := by
  obtain ⟨values, h⟩ := returns_of_isOk twoStreamStore_values
  exact ⟨values, h, pending_values_iff h⟩

/-- Of the hundred and the two hundred units pending in two streams of one token, two hundred
are reported; the total counts all three hundred. -/
theorem pending_values_lost :
    ∃ values, getPendingRewardsWithUsd (fun _ _ => none) (twoStreamStore 1 1) 5 threeDollars 4 1 =
        .ok values ∧
      values.amounts.get 1 = some 200 ∧ values.totalUsd = 9000000000 ∧
      ¬ ValuesAgree (fun _ _ => none) (twoStreamStore 1 1) 5 threeDollars values := by
  refine ⟨_, rfl, by decide +kernel, by decide +kernel, ?_⟩
  intro hagree
  have hkey := hagree.amounts 1
  exact absurd hkey (by decide +kernel)

end YieldEngine.Rewards
