import YieldEngine.RouterSwap
import YieldEngine.Walks

/-! # Routing

How the router chooses the path of a swap: the deepest pool of the pair, else a hop through
XLM, else a bounded depth-first search (`bfsFindPath`) that tries the deepest pools first, and
a path without pools where none is found.

The search passes its list of visited tokens in and out: a candidate is pushed before its
subtree is searched and popped when the subtree has no route.  `hopsLeft` counts down what
the source counts up as the depth. -/

namespace YieldEngine.Router

open CheckedArith Walks

/-! ### Direct pools and the XLM hop -/

/-- The pool gives a positive output. -/
def quotesPositive (pool : PoolInfo) (inputToken : Address) (inputAmount : ℤ) : Bool :=
  (calculateDirectSwapOutputForPool pool inputToken inputAmount).any (fun output => 0 < output)

/-- The better of the best pool so far, with its depth, and the next pool. -/
def keepDeeper (tokenA tokenB : Address) (inputAmount : ℤ) (best : Option PoolInfo × ℤ)
    (pool : PoolInfo) : Option PoolInfo × ℤ :=
  if pool.Joins tokenA tokenB ∧ best.2 < pool.depthScore ∧
      quotesPositive pool tokenA inputAmount then
    (some pool, pool.depthScore)
  else best

/-- The deepest pool of the pair that gives a positive output; pools of depth `0` do not
count. -/
def findDirectPath (s : RouterStore) (tokenA tokenB : Address) (inputAmount : ℤ) :
    Option PoolInfo :=
  (s.getPools.values.foldl (keepDeeper tokenA tokenB inputAmount) (none, 0)).1

/-- The two legs are chosen one after the other. -/
def findXlmHopPath (s : RouterStore) (inputToken outputToken : Address) (inputAmount : ℤ) :
    RouterCall (Option SwapPath) := do
  let xlm ← s.getXlmToken
  pure do
    let inputPool ← findDirectPath s inputToken xlm inputAmount
    let firstOutput ← calculateDirectSwapOutputForPool inputPool inputToken inputAmount
    let outputPool ← findDirectPath s xlm outputToken firstOutput
    let finalOutput ← calculateDirectSwapOutputForPool outputPool xlm firstOutput
    some ⟨[inputToken, xlm, outputToken], [inputPool.poolAddress, outputPool.poolAddress],
      finalOutput, 0⟩

/-! ### Depth-first search -/

/-- A route found by the search: its tokens, its pools and its output. -/
structure FoundRoute where
  tokens : List Address
  pools : List Address
  output : ℤ
deriving DecidableEq, Repr

/-- The token a pool of `current` trades it for. -/
def PoolInfo.nextToken (pool : PoolInfo) (current : Address) : Option Address :=
  if pool.tokenA = current then some pool.tokenB
  else if pool.tokenB = current then some pool.tokenA
  else none

/-- The pools of `current` that lead to a token not visited yet. -/
def poolCandidates (s : RouterStore) (current : Address) (visited : List Address) :
    List (PoolInfo × Address) :=
  s.getPools.values.filterMap fun pool =>
    match pool.nextToken current with
    | some next => if next ∈ visited then none else some (pool, next)
    | none => none

/-- The candidates with the deepest pools first. -/
def sortedCandidates (s : RouterStore) (current : Address) (visited : List Address) :
    List (PoolInfo × Address) :=
  bubbleSort (fun a b => a.1.depthScore < b.1.depthScore) (poolCandidates s current visited)

/-- The candidates in order, with `search` exploring the token a candidate leads to. -/
def tryCandidates (search : Address → List Address → ℤ → Option FoundRoute × List Address)
    (current target : Address) (amount : ℤ) :
    List (PoolInfo × Address) → List Address → Option FoundRoute × List Address
  | [], visited => (none, visited)
  | (pool, next) :: rest, visited =>
      match (calculateDirectSwapOutputForPool pool current amount).filter (fun o => 0 < o) with
      | none => tryCandidates search current target amount rest visited
      | some output =>
          if next = target then
            (some ⟨visited ++ [next], [pool.poolAddress], output⟩, visited)
          else
            match search next (visited ++ [next]) output with
            | (some found, visited') =>
                (some { found with pools := pool.poolAddress :: found.pools }, visited')
            | (none, visited') =>
                tryCandidates search current target amount rest visited'.dropLast

/-- A route from `current` to `target` over at most `hopsLeft` pools, and the visited tokens
as the search leaves them. -/
def bfsFindPath (s : RouterStore) (target : Address) :
    ℕ → Address → List Address → ℤ → Option FoundRoute × List Address
  | 0, _, visited, _ => (none, visited)
  | hopsLeft + 1, current, visited, amount =>
      tryCandidates (bfsFindPath s target hopsLeft) current target amount
        (sortedCandidates s current visited) visited

def findMultiHopPath (s : RouterStore) (inputToken outputToken : Address) (inputAmount : ℤ) :
    Option SwapPath :=
  (bfsFindPath s outputToken maxPathLength inputToken [inputToken] inputAmount).1.map
    fun found => ⟨found.tokens, found.pools, found.output, 0⟩

/-! ### The best path -/

/-- The direct path with its output. -/
def directPath (s : RouterStore) (inputToken outputToken : Address) (inputAmount : ℤ) :
    Option SwapPath := do
  let pool ← findDirectPath s inputToken outputToken inputAmount
  let output ← calculateDirectSwapOutputForPool pool inputToken inputAmount
  some ⟨[inputToken, outputToken], [pool.poolAddress], output, 0⟩

/-- The searched path, or a direct path without pools. -/
def searchedPath (s : RouterStore) (inputToken outputToken : Address) (inputAmount : ℤ) :
    SwapPath × RouteType :=
  match findMultiHopPath s inputToken outputToken inputAmount with
  | some path => (path, .multiHop)
  | none => (⟨[inputToken, outputToken], [], 0, 0⟩, .direct)

def findBestPath (s : RouterStore) (inputToken outputToken : Address) (inputAmount : ℤ) :
    RouterCall (SwapPath × RouteType) := do
  let xlm ← s.getXlmToken
  match directPath s inputToken outputToken inputAmount with
  | some path => pure (path, .direct)
  | none =>
      let hop ←
        if inputToken ≠ xlm ∧ outputToken ≠ xlm then
          findXlmHopPath s inputToken outputToken inputAmount
        else pure none
      match hop with
      | some path => pure (path, .xlmHop)
      | none => pure (searchedPath s inputToken outputToken inputAmount)

/-! ### Pricing the chosen path -/

/-- The legs of a path through its own pools; `0` where a leg does not fit. -/
def outputAlong (pools : SortedMap Address PoolInfo) : List Address → List Address → ℤ → ℤ
  | source :: target :: tokens, address :: rest, amount =>
      match pools.get address with
      | none => 0
      | some pool =>
          if pool.Joins source target then
            match calculateDirectSwapOutputForPool pool source amount with
            | none => 0
            | some output => outputAlong pools (target :: tokens) rest output
          else 0
  | _, _, amount => amount

def calculateOutputAmount (s : RouterStore) (path : SwapPath) (inputAmount : ℤ) : ℤ :=
  if path.tokens.length ≠ path.pools.length + 1 ∨ path.pools = [] then 0
  else outputAlong s.getPools path.tokens path.pools inputAmount

/-! ### Quotes -/

def getQuote (s : RouterStore) (inputToken outputToken : Address) (inputAmount : ℤ)
    (maxSlippage : Option ℕ) : RouterCall SwapQuote := do
  requireOr (0 < inputAmount ∧ inputToken ≠ outputToken) "InvalidPath"
  let slippage ← match maxSlippage with
    | some bps => pure bps
    | none => s.getDefaultSlippage
  requireValidSlippage slippage
  let (path, routeType) ← findBestPath s inputToken outputToken inputAmount
  requireOr (path.pools ≠ []) "NoPoolFound"
  let expectedOutput := calculateOutputAmount s path inputAmount
  let minimumOutput ← calculateMinimumOutput expectedOutput slippage
  let protocolFee ← scaleBps expectedOutput protocolTreasuryFeeBps
  pure
    { path := path
      inputAmount := inputAmount
      minimumOutput := minimumOutput
      expectedOutput := expectedOutput
      priceImpactBps := 0
      protocolFee := protocolFee
      routeType := routeType }

def getDirectQuote (s : RouterStore) (inputToken outputToken : Address) (inputAmount : ℤ) :
    RouterCall (Option SwapQuote) :=
  if inputAmount ≤ 0 ∨ inputToken = outputToken then pure none
  else
    match findDirectPath s inputToken outputToken inputAmount with
    | none => pure none
    | some pool => do
        let (expectedOutput, priceImpact) ← calculateDirectSwap pool inputToken inputAmount
        let slippage ← s.getDefaultSlippage
        let minimumOutput ← calculateMinimumOutput expectedOutput slippage
        let protocolFee ← scaleBps expectedOutput protocolTreasuryFeeBps
        pure <| some
          { path := ⟨[inputToken, outputToken], [pool.poolAddress], expectedOutput, priceImpact⟩
            inputAmount := inputAmount
            minimumOutput := minimumOutput
            expectedOutput := expectedOutput
            priceImpactBps := priceImpact
            protocolFee := protocolFee
            routeType := .direct }

end YieldEngine.Router
