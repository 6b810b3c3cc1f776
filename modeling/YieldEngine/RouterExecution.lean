import YieldEngine.RouterProduct

/-! # Quotes and what execution pays

A quote prices its route through the pools it has chosen; `swap` is given the tokens only and
takes, for every pair, the first pool in map order that joins it.  `HopsAgree` says that at
every hop the first pool pays, for the amount that arrives, what the quoted pool pays; so it does
where the quoted pool is the first one (`QuotesFirst`), and with it wherever at most one pool joins
a pair (`OnePoolPerPair`).  Then execution pays the quote (`PaysQuote`).  Where the hops before the
last one agree, it pays the quote only then (`pays_quote_iff`); after a hop that differs, rounding
may bring the two amounts together again. -/

namespace YieldEngine.Router

open CheckedArith Walks

/-! ### Pricing is total -/

/-- A hop is always priced, at the output of the first pool. -/
theorem calculateSingleSwapOutput_total (s : RouterStore) (x y : Address) (amount : ℤ) :
    calculateSingleSwapOutput s x y amount = .ok (legOutput s.getPools x y amount) := by
  unfold calculateSingleSwapOutput legOutput
  cases s.getPools.values.find? (fun pool => pool.Joins x y) with
  | none => rfl
  | some pool =>
      cases hout : calculateDirectSwapOutputForPool pool x amount with
      | none =>
          have hquote : calculateDirectSwap pool x amount = .ok (0, 0) := by
            unfold calculateDirectSwap
            rw [hout]
            rfl
          dsimp only
          rw [hquote, hout]
          rfl
      | some out =>
          obtain ⟨_, _, hquotes, hexchange⟩ := output_eq_some_iff.mp hout
          dsimp only
          rw [hquotes.calculateDirectSwap_eq_ok hout hexchange, hout]
          rfl

theorem alongTokens_total (s : RouterStore) (tokens : List Address) :
    ∀ amount, alongTokens (calculateSingleSwapOutput s) tokens amount =
      .ok (chainedOutput s.getPools tokens amount) := by
  induction tokens with
  | nil => exact fun _ => rfl
  | cons x rest ih =>
      intro amount
      cases rest with
      | nil => rfl
      | cons y rest =>
          rw [alongTokens, calculateSingleSwapOutput_total]
          exact ih _

theorem calculatePathOutput_total {s : RouterStore} {tokens : List Address} {amount : ℤ}
    (hlength : 2 ≤ tokens.length) (hamount : 0 < amount) :
    calculatePathOutput s tokens amount = .ok (chainedOutput s.getPools tokens amount) := by
  rw [calculatePathOutput, if_neg (by omega)]
  exact alongTokens_total s tokens amount

/-! ### The quoted route -/

/-- The output of one quoted hop; `0` where the pool does not trade it. -/
def quotedLeg (pools : SortedMap Address PoolInfo) (address x y : Address) (amount : ℤ) : ℤ :=
  match pools.get address with
  | some pool =>
      if pool.Joins x y then (calculateDirectSwapOutputForPool pool x amount).getD 0 else 0
  | none => 0

/-- At every hop the first pool that joins the tokens pays what the quoted pool pays, for the
amount that arrives. -/
def HopsAgree (pools : SortedMap Address PoolInfo) : List Address → List Address → ℤ → Prop
  | x :: y :: tokens, address :: rest, amount =>
      legOutput pools x y amount = quotedLeg pools address x y amount ∧
        HopsAgree pools (y :: tokens) rest (quotedLeg pools address x y amount)
  | _, _, _ => True

/-- `amount` fed through the quoted hops. -/
def quotedOutput (pools : SortedMap Address PoolInfo) : List Address → List Address → ℤ → ℤ
  | x :: y :: tokens, address :: rest, amount =>
      quotedOutput pools (y :: tokens) rest (quotedLeg pools address x y amount)
  | _, _, amount => amount

section route
variable {pools : SortedMap Address PoolInfo}

theorem output_of_nonpos {pool : PoolInfo} {x : Address} {amount : ℤ} (h : amount ≤ 0) :
    calculateDirectSwapOutputForPool pool x amount = none :=
  output_eq_none_iff.mpr fun _ _ _ => .inl h

theorem quotedLeg_zero (address x y : Address) : quotedLeg pools address x y 0 = 0 := by
  unfold quotedLeg
  split
  · rw [output_of_nonpos le_rfl]
    split_ifs <;> rfl
  · rfl

theorem quotedOutput_zero (tokens : List Address) :
    ∀ addresses, quotedOutput pools tokens addresses 0 = 0 := by
  induction tokens with
  | nil => exact fun _ => rfl
  | cons x rest ih =>
      intro addresses
      cases rest with
      | nil => rfl
      | cons y rest =>
          cases addresses with
          | nil => rfl
          | cons address addresses =>
              rw [quotedOutput, quotedLeg_zero]
              exact ih addresses

/-- A hop that does not fit makes the price `0`, as feeding `0` onwards does. -/
theorem outputAlong_eq (tokens : List Address) :
    ∀ addresses amount, outputAlong pools tokens addresses amount =
      quotedOutput pools tokens addresses amount := by
  induction tokens with
  | nil => exact fun _ _ => rfl
  | cons x rest ih =>
      intro addresses amount
      cases rest with
      | nil => rfl
      | cons y rest =>
          cases addresses with
          | nil => rfl
          | cons address addresses =>
              rw [outputAlong, quotedOutput]
              cases hget : pools.get address with
              | none =>
                  have hleg : quotedLeg pools address x y amount = 0 := by rw [quotedLeg, hget]
                  rw [hleg, quotedOutput_zero]
              | some pool =>
                  have hleg : quotedLeg pools address x y amount = if pool.Joins x y then
                      (calculateDirectSwapOutputForPool pool x amount).getD 0 else 0 := by
                    rw [quotedLeg, hget]
                  rw [hleg]
                  dsimp only
                  split_ifs with hjoins
                  · cases calculateDirectSwapOutputForPool pool x amount with
                    | none => exact (quotedOutput_zero _ _).symm
                    | some out => exact ih _ _
                  · exact (quotedOutput_zero _ _).symm

/-- Hops that agree chain to the same output. -/
theorem HopsAgree.output (tokens : List Address) :
    ∀ {addresses amount}, addresses.length + 1 = tokens.length →
      HopsAgree pools tokens addresses amount →
      chainedOutput pools tokens amount = quotedOutput pools tokens addresses amount := by
  induction tokens with
  | nil => exact fun h => by cases h
  | cons x rest ih =>
      intro addresses amount hlength hagree
      cases rest with
      | nil => rfl
      | cons y rest =>
          cases addresses with
          | nil => cases hlength
          | cons address addresses =>
              rw [chainedOutput, hagree.1, quotedOutput]
              exact ih (Nat.succ.inj hlength) hagree.2

/-- Where the hops before the last one agree, the outputs agree only if the last hop does. -/
theorem hopsAgree_of_output (tokens : List Address) :
    ∀ {addresses amount}, addresses.length + 1 = tokens.length →
      HopsAgree pools tokens.dropLast addresses.dropLast amount →
      chainedOutput pools tokens amount = quotedOutput pools tokens addresses amount →
      HopsAgree pools tokens addresses amount := by
  induction tokens with
  | nil => exact fun h => by cases h
  | cons x rest ih =>
      intro addresses amount hlength hbefore hsame
      cases rest with
      | nil => trivial
      | cons y rest =>
          cases addresses with
          | nil => cases hlength
          | cons address addresses =>
              cases addresses with
              | nil =>
                  obtain rfl : rest = [] := List.length_eq_zero_iff.mp (by simpa using hlength.symm)
                  exact ⟨hsame, trivial⟩
              | cons next addresses =>
                  cases rest with
                  | nil => cases hlength
                  | cons z rest =>
                      obtain ⟨hhop, hrest⟩ := hbefore
                      refine ⟨hhop, ih (Nat.succ.inj hlength) hrest ?_⟩
                      rw [chainedOutput, hhop] at hsame
                      exact hsame

end route

/-! ### One pool for a pair -/

/-- At most one stored pool joins a pair. -/
def OnePoolPerPair (pools : SortedMap Address PoolInfo) : Prop :=
  ∀ x y, ∀ pool ∈ pools.values, ∀ other ∈ pools.values,
    pool.Joins x y → other.Joins x y → pool = other

/-- At every hop the quoted pool is the first stored one that joins the tokens. -/
def QuotesFirst (pools : SortedMap Address PoolInfo) : List Address → List Address → Prop
  | x :: y :: tokens, address :: rest =>
      (∃ pool, pools.get address = some pool ∧
        pools.values.find? (fun p => p.Joins x y) = some pool) ∧
      QuotesFirst pools (y :: tokens) rest
  | _, _ => True

/-- The first pool pays what the quoted pool pays where it is the quoted pool. -/
theorem QuotesFirst.hopsAgree {pools : SortedMap Address PoolInfo} (tokens : List Address) :
    ∀ {addresses}, QuotesFirst pools tokens addresses →
      ∀ amount, HopsAgree pools tokens addresses amount := by
  induction tokens with
  | nil => exact fun _ _ => trivial
  | cons x rest ih =>
      intro addresses hfirst amount
      cases rest with
      | nil => trivial
      | cons y rest =>
          cases addresses with
          | nil => trivial
          | cons address addresses =>
              obtain ⟨⟨pool, hget, hfind⟩, hrest⟩ := hfirst
              have hjoins : pool.Joins x y := by simpa using List.find?_some hfind
              refine ⟨?_, ih hrest _⟩
              rw [legOutput, quotedLeg, hfind, hget]
              exact (if_pos hjoins).symm

/-- Where one pool at most joins a pair, a route goes through the first pools. -/
theorem quotesFirst_of_carries {pools : SortedMap Address PoolInfo} (hone : OnePoolPerPair pools)
    {tokens addresses : List Address} {amount output : ℤ}
    (h : Carries (PoolLeg pools) tokens addresses amount output) :
    QuotesFirst pools tokens addresses := by
  induction h with
  | done v a => trivial
  | @leg _ u v _ _ _ _ _ hleg hrest ih =>
      obtain ⟨pool, hget, hjoins, -, -⟩ := hleg
      refine ⟨⟨pool, hget, ?_⟩, ih⟩
      have hmem := mem_values_of_get hget
      cases hfind : pools.values.find? (fun p => p.Joins u v) with
      | none => exact absurd hjoins (by simpa using List.find?_eq_none.mp hfind pool hmem)
      | some first =>
          have hfirst : first.Joins u v := by simpa using List.find?_some hfind
          rw [hone u v first (List.mem_of_find?_eq_some hfind) pool hmem hfirst hjoins]

/-! ### The lengths of a quoted route -/

/-- What a search returns extends the visited tokens by one token for each pool; a search that
finds nothing leaves them as they were. -/
def Extends (visited : List Address) (r : Option FoundRoute × List Address) : Prop :=
  match r.1 with
  | some found => found.tokens.length = visited.length + found.pools.length
  | none => r.2 = visited

theorem tryCandidates_extends
    {search : Address → List Address → ℤ → Option FoundRoute × List Address}
    (hsearch : ∀ next visited amount, Extends visited (search next visited amount))
    (current target : Address) (amount : ℤ) (candidates : List (PoolInfo × Address)) :
    ∀ visited, Extends visited (tryCandidates search current target amount candidates visited) := by
  induction candidates with
  | nil => exact fun _ => rfl
  | cons candidate rest ih =>
      intro visited
      obtain ⟨pool, next⟩ := candidate
      rw [tryCandidates]
      cases (calculateDirectSwapOutputForPool pool current amount).filter (fun o => 0 < o) with
      | none => exact ih visited
      | some output =>
          dsimp only
          split_ifs with htarget
          · exact List.length_append
          · have hnext := hsearch next (visited ++ [next]) output
            cases hresult : search next (visited ++ [next]) output with
            | mk found left =>
                rw [hresult] at hnext
                cases found with
                | none =>
                    obtain rfl : left = visited ++ [next] := hnext
                    dsimp only
                    rw [List.dropLast_concat]
                    exact ih visited
                | some found =>
                    have hlength : found.tokens.length =
                      (visited ++ [next]).length + found.pools.length := hnext
                    rw [List.length_append, List.length_singleton] at hlength
                    change found.tokens.length = visited.length + (found.pools.length + 1)
                    omega

theorem bfsFindPath_extends (s : RouterStore) (target : Address) (hops : ℕ) :
    ∀ current visited amount,
      Extends visited (bfsFindPath s target hops current visited amount) := by
  induction hops with
  | zero => exact fun _ _ _ => rfl
  | succ hops ih =>
      intro current visited amount
      exact tryCandidates_extends ih current target amount _ visited

theorem searchedPath_length {s : RouterStore} {x y : Address} {amount : ℤ} {path : SwapPath}
    (h : (searchedPath s x y amount).1 = path) (hpools : path.pools ≠ []) :
    path.pools.length + 1 = path.tokens.length := by
  have hextends := bfsFindPath_extends s y maxPathLength x [x] amount
  unfold searchedPath findMultiHopPath at h
  unfold Extends at hextends
  cases hfound : (bfsFindPath s y maxPathLength x [x] amount).1 with
  | none =>
      rw [hfound] at h
      subst h
      exact absurd rfl hpools
  | some found =>
      rw [hfound] at h hextends
      subst h
      rw [List.length_singleton] at hextends
      change found.pools.length + 1 = found.tokens.length
      omega

/-- A best path with pools has a token more than pools, whichever strategy found it. -/
theorem findBestPath_length {s : RouterStore} {x y : Address} {amount : ℤ} {path : SwapPath}
    {routeType : RouteType} (h : findBestPath s x y amount = .ok (path, routeType))
    (hpools : path.pools ≠ []) : path.pools.length + 1 = path.tokens.length := by
  obtain ⟨xlm, -, h⟩ := bind_eq_ok.mp h
  cases hdirect : directPath s x y amount with
  | some direct =>
      rw [hdirect] at h
      obtain ⟨rfl, -⟩ := Prod.mk.inj (pure_eq_ok.mp h)
      simp only [directPath, Option.bind_eq_bind, Option.bind_eq_some_iff,
        Option.some.injEq] at hdirect
      obtain ⟨pool, -, output, -, rfl⟩ := hdirect
      rfl
  | none =>
      rw [hdirect] at h
      -- without a direct pool and without a hop, the path is a searched one
      have hsearched : (pure (searchedPath s x y amount) : RouterCall _) = .ok (path, routeType) →
          path.pools.length + 1 = path.tokens.length := fun h =>
        searchedPath_length (congrArg Prod.fst (pure_eq_ok.mp h)) hpools
      rcases ite_eq_ok.mp h with ⟨-, h⟩ | ⟨-, h⟩
      · obtain ⟨hop, hhop, h⟩ := bind_eq_ok.mp h
        cases hop with
        | none => exact hsearched h
        | some hopped =>
            obtain ⟨rfl, -⟩ := Prod.mk.inj (pure_eq_ok.mp h)
            obtain ⟨_, -, hhop⟩ := bind_eq_ok.mp hhop
            have hfound := pure_eq_ok.mp hhop
            simp only [Option.bind_eq_bind, Option.bind_eq_some_iff, Option.some.injEq] at hfound
            obtain ⟨_, -, _, -, _, -, _, -, rfl⟩ := hfound
            rfl
      · exact hsearched h

/-! ### Quotes -/

/-- A part of an amount that is not negative is at most the amount. -/
theorem scaledBps_le {amount : ℤ} {bps : ℕ} (h0 : 0 ≤ amount) (hbps : bps ≤ 10000) :
    scaledBps amount bps ≤ amount := by
  unfold scaledBps bpsDivisor
  have hrest : 0 ≤ amount % 10000 := Int.emod_nonneg _ (by norm_num)
  have hpart : 0 ≤ amount % 10000 * bps := mul_nonneg hrest (Int.natCast_nonneg _)
  rw [Int.tdiv_eq_ediv_of_nonneg h0, Int.tmod_eq_emod_of_nonneg h0,
    Int.tdiv_eq_ediv_of_nonneg hpart]
  have hwhole : amount / 10000 * bps ≤ amount / 10000 * 10000 :=
    mul_le_mul_of_nonneg_left (by omega) (by omega)
  have hsmall : amount % 10000 * bps ≤ amount % 10000 * 10000 :=
    mul_le_mul_of_nonneg_left (by omega) hrest
  omega

/-- What a returned quote says of its route. -/
structure QuoteFacts (s : RouterStore) (quote : SwapQuote) : Prop where
  input_pos : 0 < quote.inputAmount
  length : quote.path.pools.length + 1 = quote.path.tokens.length
  nonempty : 2 ≤ quote.path.tokens.length
  output : quote.expectedOutput =
    quotedOutput s.getPools quote.path.tokens quote.path.pools quote.inputAmount
  minimum : ∃ bps ≤ 10000, quote.minimumOutput = scaledBps quote.expectedOutput bps

/-- A returned quote carries the best path, the price of it and a minimum at some slippage. -/
theorem getQuote_route {s : RouterStore} {x y : Address} {amount : ℤ} {maxSlippage : Option ℕ}
    {quote : SwapQuote} (h : getQuote s x y amount maxSlippage = .ok quote) :
    (0 < amount ∧ x ≠ y) ∧ quote.inputAmount = amount ∧ quote.path.pools ≠ [] ∧
      (∃ routeType, findBestPath s x y amount = .ok (quote.path, routeType)) ∧
      quote.expectedOutput = calculateOutputAmount s quote.path amount ∧
      ∃ slippage, calculateMinimumOutput quote.expectedOutput slippage =
        .ok quote.minimumOutput := by
  obtain ⟨_, hguard, h⟩ := bind_eq_ok.mp h
  refine ⟨requireOr_eq_ok.mp hguard, ?_⟩
  cases maxSlippage <;>
  · simp only [bind_eq_ok, requireOr_eq_ok, pure_eq_ok] at h
    obtain ⟨slippage, -, _, -, ⟨path, routeType⟩, hpath, _, hpools, minimumOutput, hminimum, fee,
      -, rfl⟩ := h
    exact ⟨rfl, hpools, ⟨routeType, hpath⟩, rfl, slippage, hminimum⟩

theorem getQuote_facts {s : RouterStore} {x y : Address} {amount : ℤ} {maxSlippage : Option ℕ}
    {quote : SwapQuote} (h : getQuote s x y amount maxSlippage = .ok quote) :
    QuoteFacts s quote := by
  obtain ⟨⟨hamount, -⟩, rfl, hpools, ⟨_, hpath⟩, hexpected, slippage, hminimum⟩ :=
    getQuote_route h
  have hlength := findBestPath_length hpath hpools
  have hpos : 0 < quote.path.pools.length := List.length_pos_iff.mpr hpools
  simp only [calculateMinimumOutput, bind_eq_ok] at hminimum
  obtain ⟨_, -, hminimum⟩ := hminimum
  refine ⟨hamount, hlength, by omega, ?_, 10000 - slippage, Nat.sub_le _ _, scaleBps_value hminimum⟩
  have hfits : ¬ (quote.path.tokens.length ≠ quote.path.pools.length + 1 ∨
      quote.path.pools = []) := by
    push Not
    exact ⟨hlength.symm, hpools⟩
  rw [hexpected, calculateOutputAmount, if_neg hfits]
  exact outputAlong_eq quote.path.tokens quote.path.pools quote.inputAmount

theorem quotedLeg_nonneg (pools : SortedMap Address PoolInfo) (address x y : Address)
    (amount : ℤ) : 0 ≤ quotedLeg pools address x y amount := by
  unfold quotedLeg
  split
  · split_ifs
    · rename_i pool _ _
      cases hout : calculateDirectSwapOutputForPool pool x amount with
      | none => exact le_rfl
      | some out =>
          obtain ⟨_, _, hlaw⟩ := outputLaw hout
          exact hlaw.nonneg
    · exact le_rfl
  · exact le_rfl

theorem quotedOutput_nonneg {pools : SortedMap Address PoolInfo} (tokens : List Address) :
    ∀ {addresses amount}, 0 ≤ amount → 0 ≤ quotedOutput pools tokens addresses amount := by
  induction tokens with
  | nil => exact fun h => h
  | cons x rest ih =>
      intro addresses amount hamount
      cases rest with
      | nil => exact hamount
      | cons y rest =>
          cases addresses with
          | nil => exact hamount
          | cons address addresses => exact ih (quotedLeg_nonneg pools address x y amount)

/-- Execution pays the quote: along the quoted tokens the gross output is the one quoted, and
no swap along them with the quoted minimum is refused for slippage. -/
structure PaysQuote (s : RouterStore) (quote : SwapQuote) : Prop where
  output : calculatePathOutput s quote.path.tokens quote.inputAmount = .ok quote.expectedOutput
  accepted : ∀ (e : Env) (l : Ledger) (user inputToken outputToken : Address)
    (recipient : Option Address), Avoids (.raised (.panic "SlippageExceeded"))
      (swap e s l user inputToken outputToken quote.inputAmount quote.minimumOutput
        quote.path.tokens recipient)

theorem avoids_scaleBps {amount : ℤ} {bps : ℕ} {e : HostError SwapError} :
    Avoids (.raised e) (scaleBps amount bps) :=
  avoids_checked.bind fun _ _ => avoids_checked.bind fun _ _ =>
    I128.avoids_div.bind fun _ _ => avoids_checked

theorem avoids_transfer {e : Env} {l : Ledger} {token payer payee : Address} {amount : ℤ}
    {name : String} : Avoids (.raised (.panic name))
      (l.transfer e token payer payee amount : RouterCall Ledger) :=
  (avoids_require (.inr fun h => by cases h)).bind fun _ _ =>
    (avoids_require (.inr fun h => by cases h)).bind fun _ _ => avoids_ok

theorem avoids_recordSwap {s : RouterStore} {amount fee : ℤ} {e : HostError SwapError} :
    Avoids (.raised e) (recordSwap s amount fee) :=
  (avoids_checkedU.bind fun _ _ => avoids_ok).bind fun _ _ =>
    avoids_checkedU.bind fun _ _ => avoids_checked.bind fun _ _ =>
      avoids_checked.bind fun _ _ => avoids_ok

/-- The slippage check is the only source of its error. -/
theorem swap_avoids {e : Env} {s : RouterStore} {l : Ledger}
    {user inputToken outputToken : Address} {amount minOutput : ℤ} {path : List Address}
    {recipient : Option Address} (h : minOutput ≤ chainedOutput s.getPools path amount) :
    Avoids (.raised (.panic "SlippageExceeded"))
      (swap e s l user inputToken outputToken amount minOutput path recipient) := by
  unfold swap
  refine (avoids_require (.inr (by decide))).bind fun _ hinput => ?_
  refine (avoids_require (.inr (by decide))).bind fun _ _ => ?_
  refine (avoids_require (.inr (by decide))).bind fun _ hlength => ?_
  have htotal := calculatePathOutput_total (s := s) (requireOr_eq_ok.mp hlength)
    (requireOr_eq_ok.mp hinput)
  refine (avoids_orRaise (by decide)).bind fun treasury _ => ?_
  rw [htotal]
  refine avoids_ok.bind fun output houtput => ?_
  obtain rfl := Except.ok.inj houtput
  refine (avoids_require (.inl h)).bind fun _ _ => ?_
  refine avoids_transfer.bind fun _ _ => ?_
  refine avoids_scaleBps.bind fun fee _ => ?_
  refine avoids_checked.bind fun _ _ => ?_
  refine Avoids.bind ?_ fun _ _ => ?_
  · have hlegs := alongTokens_total s path amount
    change Avoids _ (alongTokens (calculateSingleSwapOutput s) path amount)
    rw [hlegs]
    exact avoids_ok
  refine avoids_transfer.bind fun _ _ => ?_
  refine Avoids.bind ?_ fun _ _ => avoids_recordSwap.bind fun _ _ => avoids_ok
  unfold payTreasury
  split_ifs
  · exact avoids_transfer
  · exact avoids_ok

/-- Execution pays the quote exactly when the route it prices comes to the quoted output. -/
theorem paysQuote_iff_output {s s' : RouterStore} {quote : SwapQuote} (hquote : QuoteFacts s quote)
    (hpools : s'.getPools = s.getPools) : PaysQuote s' quote ↔
      chainedOutput s.getPools quote.path.tokens quote.inputAmount =
        quotedOutput s.getPools quote.path.tokens quote.path.pools quote.inputAmount := by
  have htotal := calculatePathOutput_total (s := s') hquote.nonempty hquote.input_pos
  rw [hpools] at htotal
  constructor
  · intro hpays
    rw [← hquote.output]
    exact Except.ok.inj (htotal.symm.trans hpays.output)
  · intro hsame
    have hexpected := hsame.trans hquote.output.symm
    refine ⟨htotal.trans (congrArg Except.ok hexpected), fun e l user x y recipient => ?_⟩
    apply swap_avoids
    obtain ⟨bps, hbps, hminimum⟩ := hquote.minimum
    rw [hpools, hexpected, hminimum]
    apply scaledBps_le _ hbps
    rw [hquote.output]
    exact quotedOutput_nonneg _ hquote.input_pos.le

/-- On a map with at most one pool for a pair, a quote goes through the first pools. -/
theorem getQuote_first {s : RouterStore} {x y : Address} {amount : ℤ} {maxSlippage : Option ℕ}
    {quote : SwapQuote} (h : getQuote s x y amount maxSlippage = .ok quote)
    (hkeyed : KeyedByAddress s.getPools) (hone : OnePoolPerPair s.getPools) :
    QuotesFirst s.getPools quote.path.tokens quote.path.pools := by
  obtain ⟨⟨-, hne⟩, -, hpools, ⟨_, hpath⟩, -⟩ := getQuote_route h
  have hviable := (bestFor_of_findBestPath hkeyed hne hpath).viable hpools
  exact quotesFirst_of_carries hone hviable.carries

/-- Execution on the same pools pays the quote when the hops agree, as they do through the first
pools, and where a pair has one pool; where the hops before the last one agree, only then. -/
theorem pays_quote_iff {s s' : RouterStore} {x y : Address} {amount : ℤ}
    {maxSlippage : Option ℕ} {quote : SwapQuote}
    (h : getQuote s x y amount maxSlippage = .ok quote) (hpools : s'.getPools = s.getPools) :
    (HopsAgree s.getPools quote.path.tokens quote.path.pools quote.inputAmount →
      PaysQuote s' quote) ∧
    (HopsAgree s.getPools quote.path.tokens.dropLast quote.path.pools.dropLast
        quote.inputAmount →
      (PaysQuote s' quote ↔
        HopsAgree s.getPools quote.path.tokens quote.path.pools quote.inputAmount)) ∧
    (QuotesFirst s.getPools quote.path.tokens quote.path.pools → PaysQuote s' quote) ∧
    (KeyedByAddress s.getPools → OnePoolPerPair s.getPools → PaysQuote s' quote) := by
  have hquote := getQuote_facts h
  have hpays := paysQuote_iff_output hquote hpools
  have hagreed : HopsAgree s.getPools quote.path.tokens quote.path.pools quote.inputAmount →
      PaysQuote s' quote := fun hagree => hpays.mpr (hagree.output _ hquote.length)
  have hfirst : QuotesFirst s.getPools quote.path.tokens quote.path.pools → PaysQuote s' quote :=
    fun hfirst => hagreed (hfirst.hopsAgree _ _)
  refine ⟨hagreed, fun hbefore => ⟨fun hpaid => ?_, hagreed⟩, hfirst, ?_⟩
  · exact hopsAgree_of_output _ hquote.length hbefore (hpays.mp hpaid)
  · exact fun hkeyed hone => hfirst (getQuote_first h hkeyed hone)

/-- Where one pool joins the pair, execution pays the quote. -/
theorem pays_quote_iff_onePoolRouter :
    PaysQuote onePoolRouter ⟨⟨[1, 2], [10], 999, 0⟩, 1000, 989, 999, 0, 2, .direct⟩ := by
  have hquote : getQuote onePoolRouter 1 2 1000 none =
      .ok ⟨⟨[1, 2], [10], 999, 0⟩, 1000, 989, 999, 0, 2, .direct⟩ := by decide
  exact (pays_quote_iff hquote rfl).1 ⟨by decide, trivial⟩

/-- A shallow pool is stored before a deep one for the same pair. -/
def twoPoolRouter : RouterStore :=
  { RouterStore.fresh with
    treasury := some 9
    xlmToken := some 5
    pools := some ((SortedMap.empty.set 10 ⟨10, 1, 2, 1000, 1000, 0, false⟩).set 11
      ⟨11, 1, 2, 1000000, 1000000, 0, false⟩) }

/-- The quote prices the deep pool and execution the shallow one, so that a swap with the quoted
minimum is refused. -/
theorem quote_not_paid :
    ∃ quote, getQuote twoPoolRouter 1 2 100 none = .ok quote ∧ quote.expectedOutput = 99 ∧
      calculatePathOutput twoPoolRouter quote.path.tokens 100 = .ok 90 ∧
      ¬ PaysQuote twoPoolRouter quote := by
  refine ⟨⟨⟨[1, 2], [11], 99, 0⟩, 100, 98, 99, 0, 0, .direct⟩, by decide, rfl, by decide, ?_⟩
  intro hpays
  have hrefused : ∀ r, swap swapEnv twoPoolRouter flushLedger 3 1 2 100 98 [1, 2] none = r →
      r ≠ .error (.raised (.panic "SlippageExceeded")) := by
    rintro _ rfl
    exact hpays.accepted swapEnv flushLedger 3 1 2 none
  exact hrefused _ rfl rfl

/-- Two pools of a pair, and one in which what they pay for 40 comes to the same. -/
def coarseRouter : RouterStore :=
  { RouterStore.fresh with
    treasury := some 9
    xlmToken := some 2
    pools := some (((SortedMap.empty.set 10 ⟨10, 1, 2, 1000, 1000, 0, false⟩).set 11
      ⟨11, 1, 2, 2000, 2000, 0, false⟩).set 12 ⟨12, 2, 3, 1000, 100, 0, false⟩) }

example : ∃ quote, getQuote coarseRouter 1 3 40 none = .ok quote ∧
    quote.path.pools = [11, 12] ∧
    legOutput coarseRouter.getPools 1 2 40 ≠ quotedLeg coarseRouter.getPools 11 1 2 40 ∧
    calculatePathOutput coarseRouter quote.path.tokens 40 = .ok quote.expectedOutput :=
  ⟨⟨⟨[1, 2, 3], [11, 12], 3, 0⟩, 40, 2, 3, 0, 0, .xlmHop⟩, by decide, rfl, by decide, by decide⟩

end YieldEngine.Router
