import YieldEngine.RouterRoutes

/-! # The search is sound and complete

A viable route is a simple token path of at most three pools along which the amount stays
positive (`ViableRoute`).  The depth-first search returns either a completion of the tokens
visited so far or, with the visited tokens as it found them, the verdict that there is none
(`Verdict`); the verdict of a node follows from those of its candidates (`tryCandidates_tried`)
and holds by induction on the hops left (`bfsFindPath_verdict`).

`findBestPath_best` adds the direct pool and the hop through XLM: whichever strategy answers,
the path is viable, and none answers only where no route exists. -/

namespace YieldEngine.Router

open CheckedArith Walks

/-! ### Routes -/

/-- The pool stored at `address` trades `a` of `x` for a positive amount `b` of `y`. -/
def PoolLeg (pools : SortedMap Address PoolInfo) (address x y : Address) (a b : ℤ) : Prop :=
  ∃ pool, pools.get address = some pool ∧ pool.Joins x y ∧
    calculateDirectSwapOutputForPool pool x a = some b ∧ 0 < b

/-- A simple path between the tokens over at most three pools that carries `amount` to
`output`. -/
structure ViableRoute (pools : SortedMap Address PoolInfo) (source target : Address) (amount : ℤ)
    (tokens addresses : List Address) (output : ℤ) : Prop where
  first : tokens.head? = some source
  last : tokens.getLast? = some target
  simple : tokens.Nodup
  short : addresses.length ≤ maxPathLength
  carries : Carries (PoolLeg pools) tokens addresses amount output

/-- A viable route is priced at what it carries. -/
theorem outputAlong_of_carries {pools : SortedMap Address PoolInfo}
    {tokens addresses : List Address} {amount output : ℤ}
    (h : Carries (PoolLeg pools) tokens addresses amount output) :
    outputAlong pools tokens addresses amount = output := by
  induction h with
  | done v a => rfl
  | leg hstep hrest ih =>
      obtain ⟨pool, hget, hjoins, hout, -⟩ := hstep
      simp only [outputAlong, hget, if_pos hjoins, hout]
      exact ih

theorem calculateOutputAmount_of_carries {s : RouterStore} {path : SwapPath} {amount : ℤ}
    (hne : path.pools ≠ [])
    (h : Carries (PoolLeg s.getPools) path.tokens path.pools amount path.expectedOutput) :
    calculateOutputAmount s path amount = path.expectedOutput := by
  have hlen := h.length_eq
  rw [calculateOutputAmount, if_neg (by simp [hne, hlen])]
  exact outputAlong_of_carries h

/-! ### The direct pool -/

theorem quotesPositive_iff {pool : PoolInfo} {inputToken : Address} {inputAmount : ℤ} :
    quotesPositive pool inputToken inputAmount = true ↔
      ∃ output, calculateDirectSwapOutputForPool pool inputToken inputAmount = some output ∧
        0 < output := by
  unfold quotesPositive
  cases calculateDirectSwapOutputForPool pool inputToken inputAmount <;> simp

/-- The pool kept after a list of pools is the earlier one or a quoting pool of the list. -/
theorem keepDeeper_foldl {x y : Address} {amount : ℤ} {p : PoolInfo} :
    ∀ {l : List PoolInfo} {best : Option PoolInfo × ℤ},
      (l.foldl (keepDeeper x y amount) best).1 = some p →
      best.1 = some p ∨ (p ∈ l ∧ p.Joins x y ∧ quotesPositive p x amount = true) := by
  intro l
  induction l with
  | nil =>
      intro best h
      exact .inl h
  | cons q l ih =>
      intro best h
      rcases ih h with hq | ⟨hmem, hp⟩
      · unfold keepDeeper at hq
        split_ifs at hq with hcond
        · obtain rfl := Option.some.inj hq
          exact .inr ⟨List.mem_cons_self, hcond.1, hcond.2.2⟩
        · exact .inl hq
      · exact .inr ⟨List.mem_cons_of_mem q hmem, hp⟩

/-- The chosen pool joins the pair and gives a positive output. -/
theorem findDirectPath_leg {s : RouterStore} (hkeyed : KeyedByAddress s.getPools)
    {x y : Address} {amount : ℤ} {pool : PoolInfo} (h : findDirectPath s x y amount = some pool) :
    ∃ output, calculateDirectSwapOutputForPool pool x amount = some output ∧
      PoolLeg s.getPools pool.poolAddress x y amount output := by
  rcases keepDeeper_foldl h with hnone | ⟨hmem, hjoins, hpos⟩
  · cases hnone
  · obtain ⟨output, hout, h0⟩ := quotesPositive_iff.mp hpos
    exact ⟨output, hout, pool, hkeyed.get_of_mem hmem, hjoins, hout, h0⟩

theorem directPath_viable {s : RouterStore} (hkeyed : KeyedByAddress s.getPools)
    {x y : Address} {amount : ℤ} (hne : x ≠ y) {path : SwapPath}
    (h : directPath s x y amount = some path) :
    ViableRoute s.getPools x y amount path.tokens path.pools path.expectedOutput := by
  simp only [directPath, Option.bind_eq_bind, Option.bind_eq_some_iff, Option.some.injEq] at h
  obtain ⟨pool, hpool, output, hout, rfl⟩ := h
  obtain ⟨output', hout', hleg⟩ := findDirectPath_leg hkeyed hpool
  obtain rfl := Option.some.inj (hout.symm.trans hout')
  exact ⟨rfl, rfl, by simpa using hne, by simp [maxPathLength], .leg hleg (.done y _)⟩

/-! ### The hop through XLM -/

theorem findXlmHopPath_viable {s : RouterStore} (hkeyed : KeyedByAddress s.getPools)
    {xlm x y : Address} {amount : ℤ} (hne : x ≠ y) (hx : x ≠ xlm) (hy : y ≠ xlm) {path : SwapPath}
    (hxlm : s.xlmToken = some xlm) (h : findXlmHopPath s x y amount = .ok (some path)) :
    ViableRoute s.getPools x y amount path.tokens path.pools path.expectedOutput := by
  simp only [findXlmHopPath, RouterStore.getXlmToken, hxlm, bind_eq_ok, orRaise_eq_ok, pure_eq_ok,
    Option.some.injEq, exists_eq_left', Option.bind_eq_bind, Option.bind_eq_some_iff] at h
  obtain ⟨inPool, hin, first, hfirst, outPool, hout, final, hfinal, rfl⟩ := h
  obtain ⟨first', hfirst', hleg₁⟩ := findDirectPath_leg hkeyed hin
  obtain ⟨final', hfinal', hleg₂⟩ := findDirectPath_leg hkeyed hout
  obtain rfl := Option.some.inj (hfirst.symm.trans hfirst')
  obtain rfl := Option.some.inj (hfinal.symm.trans hfinal')
  refine ⟨rfl, rfl, ?_, by simp [maxPathLength], .leg hleg₁ (.leg hleg₂ (.done y _))⟩
  simp [hne, hx, hy.symm]

/-! ### The candidates of a token -/

theorem nextToken_eq_some_iff {pool : PoolInfo} {x y : Address} :
    pool.nextToken x = some y ↔ pool.Joins x y := by
  unfold PoolInfo.nextToken PoolInfo.Joins
  split_ifs with hA hB
  · subst hA
    constructor
    · intro h
      exact .inl ⟨rfl, Option.some.inj h⟩
    · rintro (⟨-, h⟩ | ⟨h, h'⟩)
      · rw [h]
      · rw [h', h]
  · subst hB
    simp [hA]
  · simp [hA, hB]

theorem mem_sortedCandidates {s : RouterStore} {current next : Address} {visited : List Address}
    {pool : PoolInfo} :
    (pool, next) ∈ sortedCandidates s current visited ↔
      pool ∈ s.getPools.values ∧ pool.Joins current next ∧ next ∉ visited := by
  unfold sortedCandidates poolCandidates
  rw [(bubbleSort_perm _ _).mem_iff, List.mem_filterMap]
  constructor
  · rintro ⟨p, hp, h⟩
    cases hnext : p.nextToken current with
    | none => simp [hnext] at h
    | some t =>
        simp only [hnext] at h
        split_ifs at h with hvis
        obtain ⟨rfl, rfl⟩ := Prod.mk.inj (Option.some.inj h)
        exact ⟨hp, nextToken_eq_some_iff.mp hnext, hvis⟩
  · rintro ⟨hp, hjoins, hvis⟩
    exact ⟨pool, hp, by simp [nextToken_eq_some_iff.mpr hjoins, hvis]⟩

/-! ### Completions of a partial path -/

/-- `rest` completes a partial path with the tokens `visited`, which ends in `current`, to the
target: a walk over at most `hops` pools on tokens not visited yet. -/
structure Completion (pools : SortedMap Address PoolInfo) (target : Address) (hops : ℕ)
    (current : Address) (visited : List Address) (amount : ℤ) (rest addresses : List Address)
    (output : ℤ) : Prop where
  carries : Carries (PoolLeg pools) (current :: rest) addresses amount output
  last : rest.getLast? = some target
  fresh : ∀ t ∈ rest, t ∉ visited
  simple : rest.Nodup
  short : addresses.length ≤ hops

section completions
variable {pools : SortedMap Address PoolInfo} {target : Address} {hops : ℕ}
  {current next address : Address} {visited rest addresses : List Address}
  {amount output between : ℤ}

/-- A leg to the target completes the path. -/
theorem Completion.arrive (hleg : PoolLeg pools address current target amount output)
    (hfresh : target ∉ visited) :
    Completion pools target (hops + 1) current visited amount [target] [address] output where
  carries := .leg hleg (.done target output)
  last := rfl
  fresh := by simpa using hfresh
  simple := List.nodup_singleton target
  short := by simp

/-- A leg and a completion from its end complete the path. -/
theorem Completion.extend (hleg : PoolLeg pools address current next amount between)
    (hfresh : next ∉ visited)
    (h : Completion pools target hops next (visited ++ [next]) between rest addresses output) :
    Completion pools target (hops + 1) current visited amount (next :: rest)
      (address :: addresses) output where
  carries := .leg hleg h.carries
  last := by
    cases rest with
    | nil => cases h.last
    | cons t rest => exact h.last
  fresh := by
    intro t ht
    rcases List.mem_cons.mp ht with rfl | ht
    · exact hfresh
    · exact fun hvis => h.fresh t ht (List.mem_append_left _ hvis)
  simple := List.nodup_cons.mpr ⟨fun hmem => h.fresh next hmem (by simp), h.simple⟩
  short := by simpa using h.short

/-- Every completion starts with a leg and either ends there or is completed from its end. -/
theorem Completion.split (h : Completion pools target (hops + 1) current visited amount rest
    addresses output) :
    ∃ address next between, PoolLeg pools address current next amount between ∧
      next ∉ visited ∧ (next = target ∨ ∃ rest' addresses',
        Completion pools target hops next (visited ++ [next]) between rest' addresses' output) := by
  obtain ⟨hcarries, hlast, hfresh, hsimple, hshort⟩ := h
  cases hcarries with
  | done => cases hlast
  | @leg address _ next rest addresses _ between _ hleg hrest =>
      refine ⟨address, next, between, hleg, hfresh next List.mem_cons_self, ?_⟩
      cases rest with
      | nil => exact .inl (Option.some.inj hlast)
      | cons t rest =>
          obtain ⟨hnext, hsimple⟩ := List.nodup_cons.mp hsimple
          refine .inr ⟨t :: rest, addresses, hrest, hlast, ?_, hsimple, by simpa using hshort⟩
          intro u hu hvis
          rcases List.mem_append.mp hvis with hvis | hvis
          · exact hfresh u (List.mem_cons_of_mem next hu) hvis
          · obtain rfl := List.mem_singleton.mp hvis
            exact hnext hu

theorem no_completion_zero : ¬ Completion pools target 0 current visited amount rest addresses
    output := by
  rintro ⟨hcarries, hlast, -, -, hshort⟩
  obtain rfl := List.length_eq_zero_iff.mp (Nat.le_zero.mp hshort)
  cases hcarries
  cases hlast

end completions

/-! ### Verdicts of the search -/

/-- A found route completes the visited tokens.  A failed search leaves them as they were, and
there is no completion. -/
def Verdict (pools : SortedMap Address PoolInfo) (target : Address) (hops : ℕ) (current : Address)
    (visited : List Address) (amount : ℤ) : Option FoundRoute × List Address → Prop
  | (some found, _) => ∃ rest, found.tokens = visited ++ rest ∧
      Completion pools target hops current visited amount rest found.pools found.output
  | (none, visited') => visited' = visited ∧ ∀ rest addresses output,
      ¬ Completion pools target hops current visited amount rest addresses output

/-- No completion starts with the candidate. -/
def Dead (pools : SortedMap Address PoolInfo) (target : Address) (hops : ℕ) (current : Address)
    (visited : List Address) (amount : ℤ) (candidate : PoolInfo × Address) : Prop :=
  ∀ between, calculateDirectSwapOutputForPool candidate.1 current amount = some between →
    0 < between → candidate.2 ≠ target ∧ ∀ rest addresses output,
      ¬ Completion pools target hops candidate.2 (visited ++ [candidate.2]) between rest addresses
        output

/-- A found route completes the visited tokens; after a failure every candidate is dead. -/
def Tried (pools : SortedMap Address PoolInfo) (target : Address) (hops : ℕ) (current : Address)
    (visited : List Address) (amount : ℤ) (candidates : List (PoolInfo × Address)) :
    Option FoundRoute × List Address → Prop
  | (some found, _) => ∃ rest, found.tokens = visited ++ rest ∧
      Completion pools target (hops + 1) current visited amount rest found.pools found.output
  | (none, visited') => visited' = visited ∧
      ∀ candidate ∈ candidates, Dead pools target hops current visited amount candidate

/-- A dead candidate leaves the verdict to the remaining ones. -/
theorem Tried.skip {pools : SortedMap Address PoolInfo} {target current : Address} {hops : ℕ}
    {visited : List Address} {amount : ℤ} {candidate : PoolInfo × Address}
    {candidates : List (PoolInfo × Address)} {result : Option FoundRoute × List Address}
    (hdead : Dead pools target hops current visited amount candidate)
    (h : Tried pools target hops current visited amount candidates result) :
    Tried pools target hops current visited amount (candidate :: candidates) result := by
  obtain ⟨result, visited'⟩ := result
  cases result with
  | some found => exact h
  | none => exact ⟨h.1, List.forall_mem_cons.mpr ⟨hdead, h.2⟩⟩

/-- Trying the candidates finds a completion, or shows that every candidate is dead. -/
theorem tryCandidates_tried {s : RouterStore} (hkeyed : KeyedByAddress s.getPools)
    (target current : Address) (amount : ℤ) (visited : List Address) {hops : ℕ}
    {search : Address → List Address → ℤ → Option FoundRoute × List Address}
    (hsearch : ∀ next visited amount,
      Verdict s.getPools target hops next visited amount (search next visited amount))
    {candidates : List (PoolInfo × Address)}
    (hvalid : ∀ pool next, (pool, next) ∈ candidates →
      pool ∈ s.getPools.values ∧ pool.Joins current next ∧ next ∉ visited) :
    Tried s.getPools target hops current visited amount candidates
      (tryCandidates search current target amount candidates visited) := by
  induction candidates with
  | nil => exact ⟨rfl, by simp⟩
  | cons candidate rest ih =>
      obtain ⟨pool, next⟩ := candidate
      obtain ⟨hmem, hjoins, hfresh⟩ := hvalid pool next List.mem_cons_self
      have hrest := ih (fun p n h => hvalid p n (List.mem_cons_of_mem _ h))
      unfold tryCandidates
      cases hout : (calculateDirectSwapOutputForPool pool current amount).filter
          (fun o => 0 < o) with
      | none =>
          refine Tried.skip ?_ hrest
          intro between hbetween hpos
          simp only [hbetween, Option.filter_some, decide_eq_true_eq, if_pos hpos] at hout
          cases hout
      | some output =>
          obtain ⟨houtput, hpos⟩ := Option.filter_eq_some_iff.mp hout
          have hleg : PoolLeg s.getPools pool.poolAddress current next amount output :=
            ⟨pool, hkeyed.get_of_mem hmem, hjoins, houtput, by simpa using hpos⟩
          by_cases htarget : next = target
          · subst htarget
            simp only [if_pos]
            exact ⟨[next], rfl, Completion.arrive hleg hfresh⟩
          · simp only [if_neg htarget]
            have hbelow := hsearch next (visited ++ [next]) output
            cases hresult : search next (visited ++ [next]) output with
            | mk result visited' =>
                rw [hresult] at hbelow
                cases result with
                | some found =>
                    obtain ⟨tail, htokens, hcompletion⟩ := hbelow
                    exact ⟨next :: tail, by simp [htokens], hcompletion.extend hleg hfresh⟩
                | none =>
                    obtain ⟨rfl, hnone⟩ := hbelow
                    simp only [List.dropLast_concat]
                    refine Tried.skip ?_ hrest
                    intro between hbetween _
                    obtain rfl := Option.some.inj (hbetween.symm.trans houtput)
                    exact ⟨htarget, hnone⟩

/-- The search is right about every partial path. -/
theorem bfsFindPath_verdict {s : RouterStore} (hkeyed : KeyedByAddress s.getPools)
    (target : Address) (hops : ℕ) : ∀ (current : Address) (visited : List Address) (amount : ℤ),
      Verdict s.getPools target hops current visited amount
        (bfsFindPath s target hops current visited amount) := by
  induction hops with
  | zero =>
      intro current visited amount
      exact ⟨rfl, fun _ _ _ => no_completion_zero⟩
  | succ hops ih =>
      intro current visited amount
      have htry := tryCandidates_tried hkeyed target current amount visited ih
        (fun pool next h => mem_sortedCandidates.mp h)
      unfold bfsFindPath
      cases hresult : tryCandidates (bfsFindPath s target hops) current target amount
          (sortedCandidates s current visited) visited with
      | mk result visited' =>
          rw [hresult] at htry
          cases result with
          | some found => exact htry
          | none =>
              refine ⟨htry.1, ?_⟩
              intro rest addresses output hcompletion
              obtain ⟨address, next, between, ⟨pool, hget, hjoins, hout, hpos⟩, hfresh, hend⟩ :=
                hcompletion.split
              have hmem := mem_sortedCandidates.mpr ⟨mem_values_of_get hget, hjoins, hfresh⟩
              obtain ⟨htarget, hnone⟩ := htry.2 _ hmem between hout hpos
              rcases hend with hnext | ⟨rest', addresses', hrest⟩
              · exact htarget hnext
              · exact hnone rest' addresses' output hrest

/-! ### The best path -/

/-- A simple route is a completion of its first token, and the other way round. -/
theorem viableRoute_iff {pools : SortedMap Address PoolInfo} {source target : Address}
    {amount output : ℤ} {tokens addresses : List Address} (hne : source ≠ target) :
    ViableRoute pools source target amount tokens addresses output ↔
      ∃ rest, tokens = [source] ++ rest ∧
        Completion pools target maxPathLength source [source] amount rest addresses output := by
  constructor
  · rintro ⟨hfirst, hlast, hsimple, hshort, hcarries⟩
    cases hcarries with
    | done v =>
        exact absurd ((Option.some.inj hfirst).symm.trans (Option.some.inj hlast)) hne
    | @leg _ u next rest _ _ _ _ hleg hrest =>
        obtain rfl := Option.some.inj hfirst
        obtain ⟨hsource, hsimple⟩ := List.nodup_cons.mp hsimple
        refine ⟨next :: rest, rfl, .leg hleg hrest, hlast, ?_, hsimple, hshort⟩
        intro t ht hvis
        obtain rfl := List.mem_singleton.mp hvis
        exact hsource ht
  · rintro ⟨rest, rfl, hcarries, hlast, hfresh, hsimple, hshort⟩
    refine ⟨rfl, ?_, ?_, hshort, hcarries⟩
    · rw [List.getLast?_append, hlast]
      rfl
    · exact List.nodup_cons.mpr ⟨fun hmem => hfresh source hmem List.mem_cons_self, hsimple⟩

theorem ViableRoute.pools_ne_nil {pools : SortedMap Address PoolInfo} {source target : Address}
    {amount output : ℤ} {tokens addresses : List Address} (hne : source ≠ target)
    (h : ViableRoute pools source target amount tokens addresses output) : addresses ≠ [] := by
  obtain ⟨rest, rfl, hcompletion⟩ := (viableRoute_iff hne).mp h
  cases rest with
  | nil => cases hcompletion.last
  | cons t rest => exact hcompletion.carries.ne_nil

theorem findMultiHopPath_spec {s : RouterStore} (hkeyed : KeyedByAddress s.getPools)
    {x y : Address} (hne : x ≠ y) (amount : ℤ) :
    match findMultiHopPath s x y amount with
    | some path => ViableRoute s.getPools x y amount path.tokens path.pools path.expectedOutput
    | none => ∀ tokens addresses output,
        ¬ ViableRoute s.getPools x y amount tokens addresses output := by
  have hverdict := bfsFindPath_verdict hkeyed y maxPathLength x [x] amount
  unfold findMultiHopPath
  cases hresult : bfsFindPath s y maxPathLength x [x] amount with
  | mk result visited =>
      rw [hresult] at hverdict
      cases result with
      | some found => exact (viableRoute_iff hne).mpr hverdict
      | none =>
          intro tokens addresses output hroute
          obtain ⟨rest, -, hcompletion⟩ := (viableRoute_iff hne).mp hroute
          exact hverdict.2 rest addresses output hcompletion

/-- The path answers the question for a route of the pair: it has pools exactly when a viable
route exists, and is then viable itself and priced at its chained output. -/
structure BestFor (s : RouterStore) (x y : Address) (amount : ℤ) (path : SwapPath) : Prop where
  complete : path.pools ≠ [] ↔ ∃ tokens addresses output,
    ViableRoute s.getPools x y amount tokens addresses output
  viable : path.pools ≠ [] →
    ViableRoute s.getPools x y amount path.tokens path.pools path.expectedOutput
  lengths : path.pools ≠ [] →
    path.pools.length + 1 = path.tokens.length ∧ path.tokens.length ≤ 4
  priced : path.pools ≠ [] → calculateOutputAmount s path amount = path.expectedOutput

/-- A viable path answers the question. -/
theorem ViableRoute.best {s : RouterStore} {x y : Address} {amount : ℤ} {path : SwapPath}
    (hne : x ≠ y)
    (h : ViableRoute s.getPools x y amount path.tokens path.pools path.expectedOutput) :
    BestFor s x y amount path where
  complete := ⟨fun _ => ⟨_, _, _, h⟩, fun _ => h.pools_ne_nil hne⟩
  viable := fun _ => h
  lengths := by
    intro _
    have hlen := h.carries.length_eq
    have hshort : path.pools.length ≤ 3 := h.short
    omega
  priced := fun hpools => calculateOutputAmount_of_carries hpools h.carries

/-- A path without pools answers the question where there is no route. -/
theorem best_of_no_route {s : RouterStore} {x y : Address} {amount : ℤ} {path : SwapPath}
    (hpools : path.pools = [])
    (hnone : ∀ tokens addresses output,
      ¬ ViableRoute s.getPools x y amount tokens addresses output) :
    BestFor s x y amount path where
  complete := by
    constructor
    · intro h
      exact absurd hpools h
    · rintro ⟨tokens, addresses, output, h⟩
      exact absurd h (hnone tokens addresses output)
  viable := fun h => absurd hpools h
  lengths := fun h => absurd hpools h
  priced := fun h => absurd hpools h

theorem searchedPath_best {s : RouterStore} (hkeyed : KeyedByAddress s.getPools) {x y : Address}
    (hne : x ≠ y) (amount : ℤ) : BestFor s x y amount (searchedPath s x y amount).1 := by
  have hspec := findMultiHopPath_spec hkeyed hne amount
  unfold searchedPath
  cases hmulti : findMultiHopPath s x y amount with
  | some path =>
      rw [hmulti] at hspec
      exact hspec.best hne
  | none =>
      rw [hmulti] at hspec
      exact best_of_no_route rfl hspec

/-- With XLM configured the hop is decided. -/
theorem findXlmHopPath_returns {s : RouterStore} {xlm : Address} (hxlm : s.xlmToken = some xlm)
    (x y : Address) (amount : ℤ) : ∃ hop, findXlmHopPath s x y amount = .ok hop := by
  simp only [findXlmHopPath, RouterStore.getXlmToken, hxlm]
  exact ⟨_, rfl⟩

/-- With XLM configured the path is decided. -/
theorem findBestPath_returns {s : RouterStore} {xlm : Address} (hxlm : s.xlmToken = some xlm)
    (x y : Address) (amount : ℤ) : ∃ r, findBestPath s x y amount = .ok r := by
  have hread : s.getXlmToken = .ok xlm := by
    rw [RouterStore.getXlmToken, hxlm]
    rfl
  obtain ⟨hop, hhop⟩ := findXlmHopPath_returns hxlm x y amount
  rw [findBestPath, hread, ok_bind]
  cases directPath s x y amount with
  | some path => exact ⟨_, rfl⟩
  | none =>
      split_ifs
      · rw [hhop]
        cases hop <;> exact ⟨_, rfl⟩
      · exact ⟨_, rfl⟩

/-- A path that is returned answers the question for a route, whichever strategy found it. -/
theorem bestFor_of_findBestPath {s : RouterStore} (hkeyed : KeyedByAddress s.getPools)
    {x y : Address} (hne : x ≠ y) {amount : ℤ} {path : SwapPath} {routeType : RouteType}
    (h : findBestPath s x y amount = .ok (path, routeType)) : BestFor s x y amount path := by
  obtain ⟨xlm, hread, h⟩ := bind_eq_ok.mp h
  have hxlm : s.xlmToken = some xlm := orRaise_eq_ok.mp hread
  cases hdirect : directPath s x y amount with
  | some direct =>
      rw [hdirect] at h
      obtain ⟨rfl, -⟩ := Prod.mk.inj (pure_eq_ok.mp h)
      exact (directPath_viable hkeyed hne hdirect).best hne
  | none =>
      rw [hdirect] at h
      have hsearched : (pure (searchedPath s x y amount) : RouterCall _) = .ok (path, routeType) →
          BestFor s x y amount path := by
        intro h
        have hbest := searchedPath_best hkeyed hne amount
        rw [pure_eq_ok.mp h] at hbest
        exact hbest
      rcases ite_eq_ok.mp h with ⟨htokens, h⟩ | ⟨-, h⟩
      · obtain ⟨hop, hhop, h⟩ := bind_eq_ok.mp h
        cases hop with
        | none => exact hsearched h
        | some hopped =>
            obtain ⟨rfl, -⟩ := Prod.mk.inj (pure_eq_ok.mp h)
            exact (findXlmHopPath_viable hkeyed hne htokens.1 htokens.2 hxlm hhop).best hne
      · exact hsearched h

/-- There is a best path, and it answers the question for a route. -/
theorem findBestPath_best {s : RouterStore} {xlm x y : Address} (amount : ℤ)
    (hxlm : s.xlmToken = some xlm) (hkeyed : KeyedByAddress s.getPools) (hne : x ≠ y) :
    ∃ path routeType, findBestPath s x y amount = .ok (path, routeType) ∧
      BestFor s x y amount path := by
  obtain ⟨⟨path, routeType⟩, hpath⟩ := findBestPath_returns hxlm x y amount
  exact ⟨path, routeType, hpath, bestFor_of_findBestPath hkeyed hne hpath⟩

/-- Two pools that lead from token `1` over token `2` to token `3`; a third one joins the ends
but has no reserves. -/
def twoHopRouter : RouterStore :=
  { RouterStore.fresh with
    xlmToken := some 5
    pools := some (((SortedMap.empty.set 10 ⟨10, 1, 2, 1000, 1000, 30, false⟩).set
      11 ⟨11, 3, 2, 1000, 1000, 30, false⟩).set 12 ⟨12, 1, 3, 0, 0, 30, false⟩) }

theorem findBestPath_best_twoHopRouter :
    ∃ path routeType, findBestPath twoHopRouter 1 3 100 = .ok (path, routeType) ∧
      BestFor twoHopRouter 1 3 100 path :=
  findBestPath_best 100 rfl
    (((keyed_empty.set ⟨10, 1, 2, 1000, 1000, 30, false⟩).set
      ⟨11, 3, 2, 1000, 1000, 30, false⟩).set ⟨12, 1, 3, 0, 0, 30, false⟩) (by decide)

example : (findBestPath twoHopRouter 1 3 100).map (fun r => (r.1.tokens, r.1.pools, r.2)) =
    .ok ([1, 2, 3], [10, 11], .multiHop) := by decide

end YieldEngine.Router
