import YieldEngine.RewardAcceptance

/-! # Auto-compounding

`execute_auto_compound` splits what is pending in each listed stream into a part to reinvest and
a part to claim; streams that are not enabled or have nothing pending are skipped.  It then
claims the whole list, each stream in full, and returns the parts to reinvest on top.

`SplitsPending` is what the call should do: each pending unit is paid or returned once, and a
skipped stream neither changes nor makes the call fail.  It does so exactly when there is
nothing to claim, when every listed stream is to be claimed in full, or when the other streams
do not pass the checks of the call (`execute_splits_iff`).  These checks are on the state before
it (`CompoundAccepted`), and the call returns exactly when they pass. -/

namespace YieldEngine.Rewards

open CheckedArith SortedMap

section split
variable (s : RewardStore) (user : Address)

/-- What the user has pending in stream `i`. -/
def pendingOf (i : ℕ) : ℤ := (s.getUserRewardDebt user i).pendingRewards

/-- Stream `i` is skipped: compounding is not enabled for its token or nothing is pending. -/
def skips (i : ℕ) : Bool :=
  match s.getStreams[i]? with
  | none => false
  | some stream =>
      decide ((s.getAutoCompoundConfig user stream.token).enabled = false ∨ pendingOf s user i ≤ 0)

/-- The listed streams that are not skipped. -/
def compounded (streamIndices : List ℕ) : List ℕ := streamIndices.filter fun i => !skips s user i

/-- The part of a pending amount to reinvest. -/
def reinvestPart (i : ℕ) : ℤ :=
  match s.getStreams[i]? with
  | none => 0
  | some stream =>
      pendingOf s user i * (s.getAutoCompoundConfig user stream.token).reinvestPercentage / 10000

/-- The positive parts to reinvest, under their tokens. -/
def reinvestAmounts (streamIndices : List ℕ) : List (Address × ℤ) :=
  (compounded s user streamIndices).filterMap fun i =>
    if 0 < reinvestPart s user i then
      s.getStreams[i]?.map fun stream => (stream.token, reinvestPart s user i)
    else none

/-- The positive parts to claim, under their tokens. -/
def claimAmounts (streamIndices : List ℕ) : List (Address × ℤ) :=
  (compounded s user streamIndices).filterMap fun i =>
    if 0 < pendingOf s user i - reinvestPart s user i then
      s.getStreams[i]?.map fun stream =>
        (stream.token, pendingOf s user i - reinvestPart s user i)
    else none

/-- Stream `i` can be split once the streams `done` have been: no amount leaves its range. -/
structure Splittable (done : List ℕ) (i : ℕ) (stream : RewardStream) : Prop where
  listed : s.getStreams[i]? = some stream
  product : Fits 128
    (pendingOf s user i * (s.getAutoCompoundConfig user stream.token).reinvestPercentage)
  rest : Fits 128 (pendingOf s user i - reinvestPart s user i)
  reinvested : 0 < reinvestPart s user i →
    Fits 128 (sumAt stream.token (reinvestAmounts s user (done ++ [i])))
  claimed : 0 < pendingOf s user i - reinvestPart s user i →
    Fits 128 (sumAt stream.token (claimAmounts s user (done ++ [i])))

/-- What is paid for a stream and the part of it returned for reinvestment make up the pending
amount; a skipped stream is left alone. -/
structure SplitOnce (streamIndices : List ℕ) (s' : RewardStore) (reinvest : SortedMap Address ℤ)
    (payouts : List ClaimPayout) : Prop where
  reinvested : Tallies reinvest (reinvestAmounts s user streamIndices)
  split : ∀ i ∈ compounded s user streamIndices,
    paidFor i payouts + reinvestPart s user i = pendingOf s user i
  skipped : ∀ i ∈ streamIndices, skips s user i = true →
    pendingOf s' user i = pendingOf s user i ∧ paidFor i payouts = 0

end split

/-- The checks of a call, on the state before it: the amounts of the listed streams can be
split, and if anything is to be claimed the list can be claimed. -/
structure CompoundAccepted (e : Env) (w : RewardWorld) (user : Address) (streamIndices : List ℕ) :
    Prop where
  emergency : w.store.isEmergency = false
  splittable : InTurn (fun done i => skips w.store user i = true ∨
    ∃ stream, Splittable w.store user done i stream) [] streamIndices
  claimable : (∀ i ∈ compounded w.store user streamIndices,
      pendingOf w.store user i ≤ reinvestPart w.store user i) ∨
    ClaimAccepted e w.store w.ledger user streamIndices

/-- The call splits each pending amount once, and does not fail because of skipped streams. -/
def SplitsPending (e : Env) (w : RewardWorld) (user vault : Address) (streamIndices : List ℕ) :
    Prop :=
  (∀ w' reinvest payouts,
    executeAutoCompound e w user vault streamIndices = .ok (w', reinvest, payouts) →
      SplitOnce w.store user streamIndices w'.store reinvest payouts) ∧
  ((executeAutoCompound e w user vault (compounded w.store user streamIndices)).isOk →
    (executeAutoCompound e w user vault streamIndices).isOk)

/-! ### The loop -/

section loop
variable {s : RewardStore} {user : Address}

theorem compounded_skipped {i : ℕ} (h : skips s user i = true) (rest : List ℕ) :
    compounded s user (i :: rest) = compounded s user rest :=
  List.filter_cons_of_neg (by rw [h]; decide)

theorem compounded_kept {i : ℕ} (h : skips s user i = false) (rest : List ℕ) :
    compounded s user (i :: rest) = i :: compounded s user rest :=
  List.filter_cons_of_pos (by rw [h]; rfl)

theorem compounded_append (is more : List ℕ) :
    compounded s user (is ++ more) = compounded s user is ++ compounded s user more :=
  List.filter_append ..

/-- A loop adds a positive amount to its token's entry, and nothing else. -/
def addPositive (m : SortedMap Address ℤ) (token : Address) (amount : ℤ) :
    SortedMap Address ℤ :=
  if 0 < amount then m.set token ((m.get token).getD 0 + amount) else m

theorem addAmount_eq_ok {m m' : SortedMap Address ℤ} {token : Address} {amount : ℤ} :
    addAmount m token amount = .ok m' ↔
      (0 < amount → Fits 128 ((m.get token).getD 0 + amount)) ∧
        addPositive m token amount = m' := by
  simp only [addAmount, addPositive, ite_eq_ok, bind_eq_ok, pure_eq_ok, I128.add_eq_ok]
  by_cases hpos : 0 < amount
  · simp only [hpos, if_true, not_true_eq_false, false_and, or_false, true_and, forall_const]
    constructor
    · rintro ⟨_, ⟨hfits, rfl⟩, h⟩
      exact ⟨hfits, h⟩
    · rintro ⟨hfits, h⟩
      exact ⟨_, ⟨hfits, rfl⟩, h⟩
  · simp [hpos]

/-- Skipped streams add nothing. -/
theorem splitStreams_skipped {i : ℕ} (h : skips s user i = true) (rest : List ℕ)
    (reinvest claim : SortedMap Address ℤ) :
    splitStreams s user (i :: rest) reinvest claim = splitStreams s user rest reinvest claim := by
  unfold skips at h
  cases hi : s.getStreams[i]? with
  | none =>
      rw [hi] at h
      cases h
  | some stream =>
      rw [hi] at h
      rw [splitStreams, hi]
      exact if_pos (of_decide_eq_true h)

section kept
variable {i : ℕ} {stream : RewardStream}

theorem not_skipped (hi : s.getStreams[i]? = some stream) (h : skips s user i = false) :
    ¬ ((s.getAutoCompoundConfig user stream.token).enabled = false ∨ pendingOf s user i ≤ 0) := by
  rw [skips, hi] at h
  exact of_decide_eq_false h

/-- A stream that exists and is not skipped has something pending. -/
theorem pending_pos (hi : s.getStreams[i]? = some stream) (h : skips s user i = false) :
    0 < pendingOf s user i :=
  not_le.mp fun hle => not_skipped hi h (.inr hle)

/-- The source divides towards zero; nothing here is negative. -/
theorem reinvestPart_tdiv (hi : s.getStreams[i]? = some stream) (h : skips s user i = false) :
    (pendingOf s user i *
      ((s.getAutoCompoundConfig user stream.token).reinvestPercentage : ℤ)).tdiv bpsDivisor =
        reinvestPart s user i := by
  rw [reinvestPart, hi, Int.tdiv_eq_ediv_of_nonneg]
  · rfl
  · exact mul_nonneg (pending_pos hi h).le (Int.natCast_nonneg _)

theorem reinvestPart_fits (hi : s.getStreams[i]? = some stream) (h : skips s user i = false)
    (hfits : Fits 128 (pendingOf s user i *
      ((s.getAutoCompoundConfig user stream.token).reinvestPercentage : ℤ))) :
    Fits 128 (reinvestPart s user i) := by
  have hproduct : 0 ≤ pendingOf s user i *
      ((s.getAutoCompoundConfig user stream.token).reinvestPercentage : ℤ) :=
    mul_nonneg (pending_pos hi h).le (Int.natCast_nonneg _)
  rw [reinvestPart, hi]
  exact hfits.of_le (Int.ediv_nonneg hproduct (by decide)) (Int.ediv_le_self _ hproduct)

/-- A stream that is not skipped exists, its amounts fit, and both parts are added. -/
theorem splitStreams_kept (h : skips s user i = false) {rest : List ℕ}
    {reinvest claim : SortedMap Address ℤ} {r : SortedMap Address ℤ × SortedMap Address ℤ} :
    splitStreams s user (i :: rest) reinvest claim = .ok r ↔
      ∃ stream, s.getStreams[i]? = some stream ∧
        Fits 128 (pendingOf s user i *
          (s.getAutoCompoundConfig user stream.token).reinvestPercentage) ∧
        Fits 128 (pendingOf s user i - reinvestPart s user i) ∧
        (0 < reinvestPart s user i →
          Fits 128 ((reinvest.get stream.token).getD 0 + reinvestPart s user i)) ∧
        (0 < pendingOf s user i - reinvestPart s user i → Fits 128
          ((claim.get stream.token).getD 0 + (pendingOf s user i - reinvestPart s user i))) ∧
        splitStreams s user rest (addPositive reinvest stream.token (reinvestPart s user i))
          (addPositive claim stream.token (pendingOf s user i - reinvestPart s user i)) =
            .ok r := by
  simp only [splitStreams, bind_eq_ok, orRaise_eq_ok, ite_eq_ok, I128.mul_eq_ok, I128.div_eq_ok,
    I128.sub_eq_ok, addAmount_eq_ok]
  constructor
  · rintro ⟨stream, hi, ⟨hskip, -⟩ | ⟨-, _, ⟨hproduct, rfl⟩, _, ⟨-, -, rfl⟩, _, ⟨hrest, rfl⟩, _,
      ⟨hreinvest, rfl⟩, _, ⟨hclaim, rfl⟩, hloop⟩⟩
    · exact absurd hskip (not_skipped hi h)
    · have hpart := reinvestPart_tdiv hi h
      unfold pendingOf at hpart
      rw [hpart] at hrest hreinvest hclaim hloop
      exact ⟨stream, hi, hproduct, hrest, hreinvest, hclaim, hloop⟩
  · rintro ⟨stream, hi, hproduct, hrest, hreinvest, hclaim, hloop⟩
    have hquotient := reinvestPart_fits hi h hproduct
    rw [← reinvestPart_tdiv hi h] at hquotient hrest hreinvest hclaim hloop
    exact ⟨stream, hi, .inr ⟨not_skipped hi h, _, ⟨hproduct, rfl⟩, _,
      ⟨by decide, hquotient, rfl⟩, _, ⟨hrest, rfl⟩, _, ⟨hreinvest, rfl⟩, _, ⟨hclaim, rfl⟩, hloop⟩⟩

end kept

/-- What the rounds of the streams `done` leave. -/
structure SplitSoFar (s : RewardStore) (user : Address) (done : List ℕ)
    (reinvest claim : SortedMap Address ℤ) : Prop where
  reinvested : Tallies reinvest (reinvestAmounts s user done)
  claimed : Tallies claim (claimAmounts s user done)

section rounds
variable {done is : List ℕ} {i : ℕ} {stream : RewardStream} {reinvest claim : SortedMap Address ℤ}

theorem splitSoFar_start : SplitSoFar s user [] .empty .empty := ⟨tallies_empty, tallies_empty⟩

theorem tallies_addPositive {m : SortedMap Address ℤ} {amounts : List (Address × ℤ)}
    (h : Tallies m amounts) (token : Address) (amount : ℤ) :
    Tallies (addPositive m token amount)
      (amounts ++ if 0 < amount then [(token, amount)] else []) := by
  unfold addPositive
  split_ifs
  · exact h.add token amount
  · rwa [List.append_nil]

theorem positive_kept (amount : ℕ → ℤ) (hi : s.getStreams[i]? = some stream) :
    ([i].filterMap fun i => if 0 < amount i then
      s.getStreams[i]?.map fun stream => (stream.token, amount i) else none) =
      if 0 < amount i then [(stream.token, amount i)] else [] := by
  by_cases hpos : 0 < amount i <;> simp [hpos, hi]

theorem reinvestAmounts_kept (hi : s.getStreams[i]? = some stream)
    (h : skips s user i = false) : reinvestAmounts s user (done ++ [i]) =
      reinvestAmounts s user done ++ if 0 < reinvestPart s user i then
        [(stream.token, reinvestPart s user i)] else [] := by
  rw [reinvestAmounts, compounded_append, compounded_kept h, List.filterMap_append]
  exact congrArg _ (positive_kept _ hi)

theorem claimAmounts_kept (hi : s.getStreams[i]? = some stream)
    (h : skips s user i = false) : claimAmounts s user (done ++ [i]) =
      claimAmounts s user done ++ if 0 < pendingOf s user i - reinvestPart s user i then
        [(stream.token, pendingOf s user i - reinvestPart s user i)] else [] := by
  rw [claimAmounts, compounded_append, compounded_kept h, List.filterMap_append]
  exact congrArg _ (positive_kept (fun i => pendingOf s user i - reinvestPart s user i) hi)

theorem SplitSoFar.skip (hsofar : SplitSoFar s user done reinvest claim)
    (h : skips s user i = true) : SplitSoFar s user (done ++ [i]) reinvest claim := by
  have hsame : compounded s user (done ++ [i]) = compounded s user done := by
    rw [compounded_append, compounded_skipped h]
    exact List.append_nil _
  constructor
  · rw [reinvestAmounts, hsame]
    exact hsofar.reinvested
  · rw [claimAmounts, hsame]
    exact hsofar.claimed

theorem SplitSoFar.keep (hsofar : SplitSoFar s user done reinvest claim)
    (hi : s.getStreams[i]? = some stream) (h : skips s user i = false) :
    SplitSoFar s user (done ++ [i]) (addPositive reinvest stream.token (reinvestPart s user i))
      (addPositive claim stream.token (pendingOf s user i - reinvestPart s user i)) := by
  constructor
  · rw [reinvestAmounts_kept hi h]
    exact tallies_addPositive hsofar.reinvested _ _
  · rw [claimAmounts_kept hi h]
    exact tallies_addPositive hsofar.claimed _ _

/-- A stream is splittable when what a round adds fits the entries of its token. -/
theorem SplitSoFar.splittable_iff (hsofar : SplitSoFar s user done reinvest claim)
    (h : skips s user i = false) :
    Splittable s user done i stream ↔ s.getStreams[i]? = some stream ∧
      Fits 128 (pendingOf s user i *
        (s.getAutoCompoundConfig user stream.token).reinvestPercentage) ∧
      Fits 128 (pendingOf s user i - reinvestPart s user i) ∧
      (0 < reinvestPart s user i →
        Fits 128 ((reinvest.get stream.token).getD 0 + reinvestPart s user i)) ∧
      (0 < pendingOf s user i - reinvestPart s user i → Fits 128
        ((claim.get stream.token).getD 0 + (pendingOf s user i - reinvestPart s user i))) := by
  have hreinvest (hi : s.getStreams[i]? = some stream) (hpos : 0 < reinvestPart s user i) :
      sumAt stream.token (reinvestAmounts s user (done ++ [i])) =
        (reinvest.get stream.token).getD 0 + reinvestPart s user i := by
    rw [reinvestAmounts_kept hi h, if_pos hpos, sumAt_append, sumAt_singleton, if_pos rfl,
      hsofar.reinvested.getD]
  have hclaim (hi : s.getStreams[i]? = some stream)
      (hpos : 0 < pendingOf s user i - reinvestPart s user i) :
      sumAt stream.token (claimAmounts s user (done ++ [i])) =
        (claim.get stream.token).getD 0 + (pendingOf s user i - reinvestPart s user i) := by
    rw [claimAmounts_kept hi h, if_pos hpos, sumAt_append, sumAt_singleton, if_pos rfl,
      hsofar.claimed.getD]
  constructor
  · rintro ⟨hi, hproduct, hrest, hreinvested, hclaimed⟩
    exact ⟨hi, hproduct, hrest, fun hpos => hreinvest hi hpos ▸ hreinvested hpos,
      fun hpos => hclaim hi hpos ▸ hclaimed hpos⟩
  · rintro ⟨hi, hproduct, hrest, hreinvested, hclaimed⟩
    exact ⟨hi, hproduct, hrest, fun hpos => (hreinvest hi hpos).symm ▸ hreinvested hpos,
      fun hpos => (hclaim hi hpos).symm ▸ hclaimed hpos⟩

/-- What the rounds leave: the tallies of the parts.  What is compounded exists and is positive. -/
theorem SplitSoFar.rounds {r : SortedMap Address ℤ × SortedMap Address ℤ}
    (hsofar : SplitSoFar s user done reinvest claim)
    (h : splitStreams s user is reinvest claim = .ok r) :
    SplitSoFar s user (done ++ is) r.1 r.2 ∧
      ∀ i ∈ compounded s user is, (s.getStreams[i]?).isSome ∧ 0 < pendingOf s user i := by
  induction is generalizing done reinvest claim with
  | nil =>
      obtain rfl := pure_eq_ok.mp h
      rw [List.append_nil]
      exact ⟨hsofar, by simp [compounded]⟩
  | cons i rest ih =>
      rw [List.append_cons]
      cases hskip : skips s user i with
      | true =>
          rw [splitStreams_skipped hskip] at h
          rw [compounded_skipped hskip]
          exact ih (hsofar.skip hskip) h
      | false =>
          obtain ⟨stream, hi, -, -, -, -, hloop⟩ := (splitStreams_kept hskip).mp h
          obtain ⟨hends, hpos⟩ := ih (hsofar.keep hi hskip) hloop
          have hsome : (s.getStreams[i]?).isSome := by
            rw [hi]
            rfl
          rw [compounded_kept hskip]
          exact ⟨hends, List.forall_mem_cons.mpr ⟨⟨hsome, pending_pos hi hskip⟩, hpos⟩⟩

/-- The rounds return exactly when every stream is skipped or splittable in turn. -/
theorem splitStreams_returns_iff (hsofar : SplitSoFar s user done reinvest claim) :
    (∃ r, splitStreams s user is reinvest claim = .ok r) ↔
      InTurn (fun done i => skips s user i = true ∨ ∃ stream, Splittable s user done i stream)
        done is := by
  induction is generalizing done reinvest claim with
  | nil => exact iff_of_true ⟨_, rfl⟩ trivial
  | cons i rest ih =>
      rw [InTurn]
      cases hskip : skips s user i with
      | true =>
          simp only [splitStreams_skipped hskip, true_or, true_and]
          exact ih (hsofar.skip hskip)
      | false =>
          simp only [splitStreams_kept hskip, hsofar.splittable_iff hskip, Bool.false_eq_true,
            false_or]
          constructor
          · rintro ⟨r, stream, hi, hproduct, hrest, hreinvest, hclaim, hloop⟩
            exact ⟨⟨stream, hi, hproduct, hrest, hreinvest, hclaim⟩,
              (ih (hsofar.keep hi hskip)).mp ⟨r, hloop⟩⟩
          · rintro ⟨⟨stream, hi, hproduct, hrest, hreinvest, hclaim⟩, hturn⟩
            obtain ⟨r, hloop⟩ := (ih (hsofar.keep hi hskip)).mpr hturn
            exact ⟨r, stream, hi, hproduct, hrest, hreinvest, hclaim, hloop⟩

/-- What a loop that returns leaves: the tally of the parts to reinvest, and something to claim
unless every stream is reinvested in full. -/
theorem splitStreams_ok {r : SortedMap Address ℤ × SortedMap Address ℤ}
    (h : splitStreams s user is .empty .empty = .ok r) :
    Tallies r.1 (reinvestAmounts s user is) ∧
      (r.2.entries = [] ↔
        ∀ i ∈ compounded s user is, pendingOf s user i ≤ reinvestPart s user i) ∧
      ∀ i ∈ compounded s user is, 0 < pendingOf s user i := by
  obtain ⟨hends, hpos⟩ := splitSoFar_start.rounds h
  rw [List.nil_append] at hends
  refine ⟨hends.reinvested, ?_, fun i hi => (hpos i hi).2⟩
  rw [hends.claimed.entries_eq_nil_iff, claimAmounts, List.filterMap_eq_nil_iff]
  refine forall₂_congr fun i hi => ?_
  obtain ⟨stream, hstream⟩ := Option.isSome_iff_exists.mp (hpos i hi).1
  rw [hstream]
  simp

end rounds

/-- Skipped streams make no difference to the loop. -/
theorem splitStreams_compounded (is : List ℕ) (reinvest claim : SortedMap Address ℤ) :
    splitStreams s user (compounded s user is) reinvest claim =
      splitStreams s user is reinvest claim := by
  induction is generalizing reinvest claim with
  | nil => rfl
  | cons i rest ih =>
      cases hskip : skips s user i with
      | true => rw [compounded_skipped hskip, ih, splitStreams_skipped hskip]
      | false =>
          rw [compounded_kept hskip]
          simp only [splitStreams, ih]

end loop

/-! ### The call -/

section call
variable {e : Env} {w w' : RewardWorld} {user vault : Address} {is : List ℕ}
  {reinvest : SortedMap Address ℤ} {payouts : List ClaimPayout}

/-- A returning call has claimed the list, unless there was nothing to claim. -/
theorem executeAutoCompound_eq_ok {r : RewardWorld × SortedMap Address ℤ × List ClaimPayout} :
    executeAutoCompound e w user vault is = .ok r ↔
      w.store.isEmergency = false ∧
        ∃ split, splitStreams w.store user is .empty .empty = .ok split ∧
        ((split.2.entries = [] ∧ (w, split.1, []) = r) ∨
          (split.2.entries ≠ [] ∧ ∃ claimed, claimRewards e w user vault is none = .ok claimed ∧
            (claimed.1, split.1, claimed.2.payouts) = r)) := by
  simp only [executeAutoCompound, RewardStore.requireNotEmergency, bind_eq_ok, require_eq_ok,
    exists_const, ite_eq_ok, pure_eq_ok]

/-- A call returns exactly when it is accepted. -/
theorem executeAutoCompound_returns_iff (hdistinct : is.Nodup) :
    (executeAutoCompound e w user vault is).isOk ↔ CompoundAccepted e w user is := by
  constructor
  · intro h
    obtain ⟨r, hr⟩ := returns_of_isOk h
    obtain ⟨hemergency, split, hsplit, hcases⟩ := executeAutoCompound_eq_ok.mp hr
    obtain ⟨-, hclaimed, -⟩ := splitStreams_ok hsplit
    refine ⟨hemergency, (splitStreams_returns_iff splitSoFar_start).mp ⟨split, hsplit⟩, ?_⟩
    obtain ⟨hnone, -⟩ | ⟨-, claimed, hclaim, -⟩ := hcases
    · exact .inl (hclaimed.mp hnone)
    · exact .inr ((claimRewards_returns_iff hdistinct).mp ⟨claimed, hclaim⟩)
  · rintro ⟨hemergency, hsplittable, hclaimable⟩
    obtain ⟨split, hsplit⟩ := (splitStreams_returns_iff splitSoFar_start).mpr hsplittable
    obtain ⟨-, hclaimed, -⟩ := splitStreams_ok hsplit
    have hreturns : ∃ r, executeAutoCompound e w user vault is = .ok r := by
      by_cases hnone : split.2.entries = []
      · exact ⟨_, executeAutoCompound_eq_ok.mpr ⟨hemergency, split, hsplit, .inl ⟨hnone, rfl⟩⟩⟩
      · have haccepted := hclaimable.resolve_left fun hall => hnone (hclaimed.mpr hall)
        obtain ⟨claimed, hclaim⟩ := (claimRewards_returns_iff hdistinct).mpr haccepted
        exact ⟨_, executeAutoCompound_eq_ok.mpr
          ⟨hemergency, split, hsplit, .inr ⟨hnone, claimed, hclaim, rfl⟩⟩⟩
    obtain ⟨r, hr⟩ := hreturns
    rw [hr]
    rfl

/-- A call that returns also returns for the streams that are not skipped. -/
theorem executeAutoCompound_compounded (hdistinct : is.Nodup)
    (h : (executeAutoCompound e w user vault is).isOk) :
    (executeAutoCompound e w user vault (compounded w.store user is)).isOk := by
  obtain ⟨r, hr⟩ := returns_of_isOk h
  obtain ⟨hemergency, split, hsplit, hcases⟩ := executeAutoCompound_eq_ok.mp hr
  have hreturns : ∃ r₂, executeAutoCompound e w user vault (compounded w.store user is) =
      .ok r₂ := by
    rw [← splitStreams_compounded] at hsplit
    obtain ⟨hnone, -⟩ | ⟨hsome, claimed, hclaim, -⟩ := hcases
    · exact ⟨_, executeAutoCompound_eq_ok.mpr ⟨hemergency, split, hsplit, .inl ⟨hnone, rfl⟩⟩⟩
    · obtain ⟨claimed₂, hclaim₂⟩ := claimRewards_filter hdistinct hclaim _
      exact ⟨_, executeAutoCompound_eq_ok.mpr
        ⟨hemergency, split, hsplit, .inr ⟨hsome, claimed₂, hclaim₂, rfl⟩⟩⟩
  obtain ⟨r₂, hr₂⟩ := hreturns
  rw [hr₂]
  rfl

/-- A call with nothing to claim pays nothing; it splits the pending amounts once exactly when
all that is pending in the streams it compounds is reinvested. -/
theorem splitOnce_unpaid
    (hreinvested : Tallies reinvest (reinvestAmounts w.store user is)) :
    SplitOnce w.store user is w.store reinvest [] ↔ ∀ i ∈ compounded w.store user is,
      reinvestPart w.store user i = pendingOf w.store user i := by
  constructor
  · intro hsplits i hi
    rw [← hsplits.split i hi]
    exact (zero_add _).symm
  · intro hall
    refine ⟨hreinvested, fun i hi => ?_, fun i _ _ => ⟨rfl, rfl⟩⟩
    rw [hall i hi]
    exact zero_add _

/-- A call that claims the list pays every listed stream in full; it splits the pending amounts
once exactly when no stream was to be skipped or reinvested. -/
theorem splitOnce_paid
    (hreinvested : Tallies reinvest (reinvestAmounts w.store user is))
    (hpays : ∀ i ∈ is, 0 < pendingOf w.store user i ∧
      paidFor i payouts = pendingOf w.store user i) :
    SplitOnce w.store user is w'.store reinvest payouts ↔
      ∀ i ∈ is, skips w.store user i = false ∧ reinvestPart w.store user i = 0 := by
  constructor
  · intro hsplits i hi
    obtain ⟨hpending, hpaid⟩ := hpays i hi
    cases hskip : skips w.store user i with
    | true =>
        have hnothing := (hsplits.skipped i hi hskip).2
        omega
    | false =>
        have hkept : i ∈ compounded w.store user is :=
          List.mem_filter.mpr ⟨hi, by rw [hskip]; rfl⟩
        have hsum := hsplits.split i hkept
        exact ⟨rfl, by omega⟩
  · intro hwhole
    refine ⟨hreinvested, fun i hi => ?_, fun i hi hskip => ?_⟩
    · have hlisted := (List.mem_filter.mp hi).1
      rw [(hpays i hlisted).2, (hwhole i hlisted).2, add_zero]
    · rw [(hwhole i hi).1] at hskip
      cases hskip

/-- A returning call splits the pending amounts once exactly when every stream that is not
skipped is reinvested in full, or every listed stream is claimed in full. -/
theorem splitOnce_iff
    (h : executeAutoCompound e w user vault is = .ok (w', reinvest, payouts)) :
    SplitOnce w.store user is w'.store reinvest payouts ↔
      (∀ i ∈ compounded w.store user is,
        reinvestPart w.store user i = pendingOf w.store user i) ∨
      ∀ i ∈ is, skips w.store user i = false ∧ reinvestPart w.store user i = 0 := by
  obtain ⟨-, split, hsplit, hcases⟩ := executeAutoCompound_eq_ok.mp h
  obtain ⟨hreinvested, hclaimed, hpos⟩ := splitStreams_ok hsplit
  obtain ⟨hnone, heq⟩ | ⟨hsome, ⟨w₁, report⟩, hclaim, heq⟩ := hcases
  · -- nothing is paid; a stream that is neither skipped nor reinvested would have been claimed
    obtain ⟨rfl, rfl, rfl⟩ : w = w' ∧ split.1 = reinvest ∧ [] = payouts := by simpa using heq
    have hle := hclaimed.mp hnone
    rw [splitOnce_unpaid hreinvested]
    refine (or_iff_left_of_imp fun hnothing i hi => ?_).symm
    have hzero := (hnothing i (List.mem_filter.mp hi).1).2
    have h1 := hle i hi
    have h2 := hpos i hi
    omega
  · -- every listed stream is paid in full, as there is something to claim
    obtain ⟨rfl, rfl, rfl⟩ : w₁ = w' ∧ split.1 = reinvest ∧ report.payouts = payouts := by
      simpa using heq
    rw [splitOnce_paid hreinvested fun i hi => claimRewards_pays hclaim hi]
    refine (or_iff_right fun hall => hsome (hclaimed.mpr fun i hi => ?_)).symm
    exact (hall i hi).ge

/-- The call splits what is pending once exactly when there is nothing to claim, when every
listed stream is to be claimed in full, or when the streams that are not skipped do not pass the
checks of a call. -/
theorem execute_splits_iff (hdistinct : is.Nodup) :
    SplitsPending e w user vault is ↔
      ((∀ i ∈ compounded w.store user is,
          reinvestPart w.store user i = pendingOf w.store user i) ∨
        ∀ i ∈ is, skips w.store user i = false ∧ reinvestPart w.store user i = 0) ∨
      ¬ CompoundAccepted e w user (compounded w.store user is) := by
  have hkept : (compounded w.store user is).Nodup := hdistinct.filter _
  have haccepted : (executeAutoCompound e w user vault (compounded w.store user is)).isOk ↔
      CompoundAccepted e w user (compounded w.store user is) :=
    executeAutoCompound_returns_iff hkept
  rw [← haccepted]
  constructor
  · rintro ⟨hsplits, hreturns⟩
    by_cases hok : (executeAutoCompound e w user vault (compounded w.store user is)).isOk
    · obtain ⟨⟨w', reinvest, payouts⟩, hr⟩ := returns_of_isOk (hreturns hok)
      exact .inl ((splitOnce_iff hr).mp (hsplits w' reinvest payouts hr))
    · exact .inr hok
  · rintro (hcond | hrefused)
    · refine ⟨fun w' reinvest payouts hr => (splitOnce_iff hr).mpr hcond, fun hok => ?_⟩
      rcases hcond with hall | hwhole
      · -- nothing is left to claim, so the call on the whole list does not claim
        obtain ⟨r, hr⟩ := returns_of_isOk hok
        obtain ⟨hemergency, split, hsplit, -⟩ := executeAutoCompound_eq_ok.mp hr
        rw [splitStreams_compounded] at hsplit
        obtain ⟨-, hclaimed, -⟩ := splitStreams_ok hsplit
        have hnone := hclaimed.mpr fun i hi => (hall i hi).ge
        rw [executeAutoCompound_eq_ok.mpr ⟨hemergency, split, hsplit, .inl ⟨hnone, rfl⟩⟩]
        rfl
      · have hsame : compounded w.store user is = is := by
          refine List.filter_eq_self.mpr fun i hi => ?_
          rw [(hwhole i hi).1]
          rfl
        rw [hsame] at hok
        exact hok
    · refine ⟨fun w' reinvest payouts hr => ?_, fun hok => absurd hok hrefused⟩
      exact absurd (executeAutoCompound_compounded hdistinct (by rw [hr]; rfl)) hrefused

end call

/-- User 5 has a hundred units pending and compounds `reinvestPercentage` of them. -/
def compoundingWorld (reinvestPercentage : ℕ) : RewardWorld :=
  Transact.run rewardStep accruedWorld
    [.call ⟨9, [5], 100⟩ (.setAutoCompoundConfig 5 1 reinvestPercentage true)]

/-- User 5 has a hundred units pending in each of two streams, and reinvests all of the first. -/
def halfEnabledWorld : RewardWorld :=
  Transact.run rewardStep ⟨initialRewards 7 8 6, fun _ _ => 1000⟩
    [.call ⟨9, [7], 0⟩ (.addRewardStream 7 1 1 7 0), .call ⟨9, [7], 0⟩ (.addRewardStream 7 2 1 7 0),
      .call ⟨9, [], 100⟩ (.updateRewards 5 4 1 7),
      .call ⟨9, [5], 100⟩ (.setAutoCompoundConfig 5 1 10000 true),
      .call ⟨9, [5], 100⟩ (.setAutoCompoundConfig 5 2 10000 false)]

/-- All of the enabled stream is reinvested and the disabled one is skipped. -/
theorem execute_splits_iff_halfEnabled :
    compounded halfEnabledWorld.store 5 [0, 1] = [0] ∧ pendingOf halfEnabledWorld.store 5 1 = 100 ∧
      SplitsPending ⟨9, [5], 100⟩ halfEnabledWorld 5 4 [0, 1] :=
  ⟨by decide, by decide, (execute_splits_iff (by decide)).mpr (.inl (.inl (by decide)))⟩

/-- Half of the hundred units is to be reinvested: all hundred are paid and fifty are returned
for reinvestment. -/
theorem compounds_twice :
    ∃ w' reinvest payouts,
      executeAutoCompound ⟨9, [5], 100⟩ (compoundingWorld 5000) 5 4 [0] =
          .ok (w', reinvest, payouts) ∧
        reinvest.get 1 = some 50 ∧ paidFor 0 payouts = 100 ∧
        ¬ SplitsPending ⟨9, [5], 100⟩ (compoundingWorld 5000) 5 4 [0] := by
  refine ⟨_, _, _, rfl, by decide, by decide, fun h => ?_⟩
  have hsplit := (h.1 _ _ _ rfl).split 0 (by decide)
  exact absurd hsplit (by decide)

end YieldEngine.Rewards
