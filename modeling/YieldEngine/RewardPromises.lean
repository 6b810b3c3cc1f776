import YieldEngine.PerShare
import YieldEngine.RewardBooks

/-! # What the distributor promises and what it emitted

Every user has books in every stream (`Registers`), and `registeredStep` keeps all of them
along a run.  What a stream has promised to a set of users is what claims have paid them plus
what is pending; it is backed while it is at most what the stream has distributed.

Two things can break this.  An update divides an emission by the stored total of one vault,
while the accumulator it grows is read with the shares of every vault; and an update counts
rewards again when the reward debt that is never written should have taken them off.
`Covered` says that an update does neither.  `promises_backed` is the result over whole runs:
the accounts of a stream, seen as accounts by an index per share, stay funded. -/

namespace YieldEngine.Rewards

open CheckedArith Rounding PerShare

/-- The books of every user in every stream. -/
abbrev Registers := Address → ℕ → Books

/-- The user's account in terms of the accumulator. -/
def Books.account (b : Books) : Account ℤ := ⟨b.earned, b.shares, b.accumulated⟩

instance (s : RewardStore) (i : ℕ) : Decidable (ActiveStream s i) :=
  decidable_of_iff _ activeStream_iff.symm

/-! ### Runs with registers -/

/-- The books after an invocation in `s` that ended in `s'` with `payouts`; an update reaches
the active streams only. -/
def observeAll (s s' : RewardStore) (payouts : List ClaimPayout) (books : Registers) :
    RewardAction → Registers
  | .updateRewards u _ userShares _ => fun user i =>
      if u = user ∧ ActiveStream s i then
        (books user i).afterUpdate userShares (s'.getAccumulatedRewardPerShare i)
      else books user i
  | .claimRewards u .. | .executeAutoCompound u .. => fun user i =>
      if u = user then (books user i).afterPayment (paidFor i payouts) else books user i
  | _ => books

section observe
variable {s s' : RewardStore} {payouts : List ClaimPayout} {books : Registers}
  {action : RewardAction}

theorem observeAll_claim {u : Address} (h : action.claimant = some u) :
    observeAll s s' payouts books action = fun user i =>
      if u = user then (books user i).afterPayment (paidFor i payouts) else books user i := by
  cases action with
  | claimRewards claimant vault is convertTo =>
      obtain rfl := Option.some.inj h
      rfl
  | executeAutoCompound claimant vault is =>
      obtain rfl := Option.some.inj h
      rfl
  | _ => cases h

theorem observeAll_other (hclaimant : action.claimant = none) (haccrues : ¬ action.Accrues) :
    observeAll s s' payouts books action = books := by
  cases action with
  | updateRewards => exact absurd trivial haccrues
  | claimRewards => cases hclaimant
  | executeAutoCompound => cases hclaimant
  | _ => rfl

end observe

/-- One event of a run, with the books of all users. -/
def registeredStep (t : RewardWorld × Registers) :
    RewardEvent → RewardCall (RewardWorld × Registers)
  | .call e action => do
      let (w, payouts) ← exec t.1 (e, action)
      pure (w, observeAll t.1.store w.store payouts t.2 action)
  | .tokens ledger => pure ({ t.1 with ledger := ledger }, t.2)

/-- What stream `i` has paid `users` or has pending for them. -/
def promised (t : RewardWorld × Registers) (i : ℕ) (users : Finset Address) : ℤ :=
  ∑ user ∈ users, ((t.2 user i).paid + (t.1.store.getUserRewardDebt user i).pendingRewards)

/-- No stream has promised more than it distributed. -/
def PromisesBacked (t : RewardWorld × Registers) : Prop :=
  ∀ i users, promised t i users ≤ t.1.store.distributed i

/-! ### The condition -/

/-- An update of an active stream counts nothing again, and what it emits is divided by a
total that covers the shares of all users. -/
structure CoveredStream (e : Env) (t : RewardWorld × Registers) (user vault : Address)
    (shares : ℤ) (d i : ℕ) (stream : RewardStream) : Prop where
  settled : (t.2 user i).staleDebt shares (accruedAt e t.1.store vault d i) ≤ 0
  rate : stream.lastUpdate < e.timestamp → 0 ≤ stream.ratePerSecond
  total : stream.lastUpdate < e.timestamp → 0 < stream.ratePerSecond →
    ∀ holders : Finset Address, ∑ holder ∈ holders, (t.2 holder i).shares ≤
      (refreshedVaultInfo t.1.store vault d).totalShares

/-- An update passes the share decimals `d` and a share balance, and covers every active
stream. -/
def Covered (d : ℕ) (t : RewardWorld × Registers) : RewardEvent → Prop
  | .call e (.updateRewards user vault shares decimals) =>
      decimals = d ∧ 0 ≤ shares ∧ ∀ i stream, t.1.store.getStreams[i]? = some stream →
        stream.isActive = true → CoveredStream e t user vault shares d i stream
  | _ => True

/-! ### One stream -/

/-- The records of a stream agree with the books, and its accounts are funded. -/
structure Backed (d i : ℕ) (t : RewardWorld × Registers) : Prop where
  rewardDebt : ∀ user, (t.1.store.getUserRewardDebt user i).rewardDebt = 0
  pending : ∀ user, (t.1.store.getUserRewardDebt user i).pendingRewards =
    (t.2 user i).pendingValue.tdiv (10 ^ d)
  shares : ∀ user, 0 ≤ (t.2 user i).shares
  mark : ∀ user, 0 ≤ (t.2 user i).accumulated ∧
    (t.2 user i).accumulated ≤ t.1.store.getAccumulatedRewardPerShare i
  law : ∀ user, 10 ^ d * (t.2 user i).paid + (t.2 user i).pendingValue ≤ (t.2 user i).earned
  funded : Funded (fun user => (t.2 user i).account) (t.1.store.getAccumulatedRewardPerShare i)
    (10 ^ d * t.1.store.distributed i)

/-- What the stream records of one user agrees with the user's books. -/
structure Agrees (d : ℕ) (debt : UserRewardDebt) (acc : ℤ) (b : Books) : Prop where
  rewardDebt : debt.rewardDebt = 0
  pending : debt.pendingRewards = b.pendingValue.tdiv (10 ^ d)
  shares : 0 ≤ b.shares
  mark : 0 ≤ b.accumulated ∧ b.accumulated ≤ acc
  law : 10 ^ d * b.paid + b.pendingValue ≤ b.earned

theorem backed_iff {d i : ℕ} {t : RewardWorld × Registers} :
    Backed d i t ↔ (∀ user, Agrees d (t.1.store.getUserRewardDebt user i)
        (t.1.store.getAccumulatedRewardPerShare i) (t.2 user i)) ∧
      Funded (fun user => (t.2 user i).account) (t.1.store.getAccumulatedRewardPerShare i)
        (10 ^ d * t.1.store.distributed i) := by
  constructor
  · intro h
    exact ⟨fun user => ⟨h.rewardDebt user, h.pending user, h.shares user, h.mark user, h.law user⟩,
      h.funded⟩
  · rintro ⟨h, hfunded⟩
    exact ⟨fun user => (h user).rewardDebt, fun user => (h user).pending,
      fun user => (h user).shares, fun user => (h user).mark, fun user => (h user).law, hfunded⟩

theorem staleDebt_law {b : Books} {shares acc : ℤ} {scale : ℤ}
    (hlaw : scale * b.paid + b.pendingValue ≤ b.earned) (hstale : b.staleDebt shares acc ≤ 0) :
    scale * b.paid + shares * acc ≤ b.earned + b.shares * (acc - b.accumulated) := by
  have hsame : b.staleDebt shares acc =
      shares * acc - b.shares * (acc - b.accumulated) - b.pendingValue := by
    unfold Books.staleDebt Books.pendingValue
    split_ifs <;> ring
  linarith

namespace Agrees
variable {d : ℕ} {debt debt' : UserRewardDebt} {acc acc' : ℤ} {b : Books}

theorem pendingValue_nonneg (h : Agrees d debt acc b) : 0 ≤ b.pendingValue := by
  unfold Books.pendingValue
  split_ifs
  · exact le_rfl
  · exact mul_nonneg h.shares h.mark.1

/-- A rounded pending amount is worth at most its exact value. -/
theorem pending_le_value (h : Agrees d debt acc b) :
    10 ^ d * debt.pendingRewards ≤ b.pendingValue := by
  have hscale : (0 : ℤ) < 10 ^ d := by positivity
  rw [h.pending, mul_comm]
  exact (tdiv_bounds h.pendingValue_nonneg hscale).2.1

/-- The accumulator may grow. -/
theorem grow (h : Agrees d debt acc b) (hacc : acc ≤ acc') : Agrees d debt acc' b :=
  ⟨h.rewardDebt, h.pending, h.shares, h.mark.imp_right hacc.trans', h.law⟩

/-- A claim pays what is pending, or nothing. -/
theorem pay (h : Agrees d debt acc b) {amount : ℤ} (hdebt : debt'.rewardDebt = debt.rewardDebt)
    (hpays : debt'.pendingRewards = debt.pendingRewards ∧ amount = 0 ∨
      0 < debt.pendingRewards ∧ debt'.pendingRewards = 0 ∧ amount = debt.pendingRewards) :
    Agrees d debt' acc (b.afterPayment amount) := by
  obtain ⟨hsame, rfl⟩ | ⟨hpos, hzero, rfl⟩ := hpays
  · have hbooks : b.afterPayment 0 = b := by simp [Books.afterPayment]
    rw [hbooks]
    exact ⟨hdebt.trans h.rewardDebt, hsame.trans h.pending, h.shares, h.mark, h.law⟩
  · have hsettled : (b.afterPayment debt.pendingRewards).pendingValue = 0 := by
      simp [Books.pendingValue, Books.afterPayment, hpos]
    refine ⟨hdebt.trans h.rewardDebt, ?_, h.shares, h.mark, ?_⟩
    · rw [hsettled, Int.zero_tdiv]
      exact hzero
    · have hvalue := h.pending_le_value
      have hlaw := h.law
      rw [hsettled]
      show 10 ^ d * (b.paid + debt.pendingRewards) + 0 ≤ b.earned
      linarith

/-- An update that counts nothing again makes what has been earned pending. -/
theorem update (h : Agrees d debt acc b) {shares : ℤ} (hacc : acc ≤ acc') (hshares : 0 ≤ shares)
    (hstale : b.staleDebt shares acc' ≤ 0) (hdebt : debt'.rewardDebt = 0)
    (hpending : debt'.pendingRewards = (shares * acc').tdiv (10 ^ d)) :
    Agrees d debt' acc' (b.afterUpdate shares acc') := by
  have hvalue : (b.afterUpdate shares acc').pendingValue = shares * acc' := by
    simp [Books.afterUpdate, Books.pendingValue]
  refine ⟨hdebt, ?_, hshares, ⟨(h.mark.1.trans h.mark.2).trans hacc, le_rfl⟩, ?_⟩
  · rw [hvalue]
    exact hpending
  · rw [hvalue]
    exact staleDebt_law h.law hstale

end Agrees

section stream
variable {d i : ℕ} {w w' : RewardWorld} {books : Registers}

theorem Backed.agrees (h : Backed d i (w, books)) (user : Address) :
    Agrees d (w.store.getUserRewardDebt user i) (w.store.getAccumulatedRewardPerShare i)
      (books user i) :=
  (backed_iff.mp h).1 user

/-- Funded accounts back the promises made to their users. -/
theorem Backed.promised_le (h : Backed d i (w, books)) (users : Finset Address) :
    promised (w, books) i users ≤ w.store.distributed i := by
  have hscale : (0 : ℤ) < 10 ^ d := by positivity
  have huser : ∀ user, 10 ^ d * ((books user i).paid +
      (w.store.getUserRewardDebt user i).pendingRewards) ≤
      (books user i).account.entitled (w.store.getAccumulatedRewardPerShare i) := by
    intro user
    have hlaw := h.law user
    have hpending := (h.agrees user).pending_le_value
    have hearned := (books user i).account.earned_le_entitled (h.shares user) (h.mark user).2
    simp only [Books.account] at hlaw hearned ⊢
    linarith
  apply le_of_mul_le_mul_left _ hscale
  calc 10 ^ d * promised (w, books) i users
      = ∑ user ∈ users, 10 ^ d * ((books user i).paid +
          (w.store.getUserRewardDebt user i).pendingRewards) := by
        rw [promised, Finset.mul_sum]
    _ ≤ ∑ user ∈ users,
          (books user i).account.entitled (w.store.getAccumulatedRewardPerShare i) :=
        Finset.sum_le_sum fun user _ => huser user
    _ ≤ 10 ^ d * w.store.distributed i := h.funded users

/-- Whatever leaves the records, the accumulator and the emission alone keeps a stream backed. -/
theorem Backed.frame (h : Backed d i (w, books))
    (hdebt : ∀ user, w'.store.getUserRewardDebt user i = w.store.getUserRewardDebt user i)
    (hacc : w'.store.getAccumulatedRewardPerShare i = w.store.getAccumulatedRewardPerShare i)
    (hdist : w'.store.distributed i = w.store.distributed i) : Backed d i (w', books) where
  rewardDebt := fun user => by simp only [hdebt user, h.rewardDebt user]
  pending := fun user => by simp only [hdebt user, h.pending user]
  shares := h.shares
  mark := fun user => by simpa only [hacc] using h.mark user
  law := h.law
  funded := by simpa only [hacc, hdist] using h.funded

/-- Only the books in the stream matter. -/
theorem Backed.congr_books {books' : Registers} (h : Backed d i (w, books))
    (hbooks : ∀ user, books' user i = books user i) : Backed d i (w, books') where
  rewardDebt := h.rewardDebt
  pending := fun user => by simpa only [hbooks user] using h.pending user
  shares := fun user => by simpa only [hbooks user] using h.shares user
  mark := fun user => by simpa only [hbooks user] using h.mark user
  law := fun user => by simpa only [hbooks user] using h.law user
  funded := by simpa only [hbooks] using h.funded

/-- A claim keeps a stream backed: it pays what was pending. -/
theorem Backed.claim {user : Address} {payouts : List ClaimPayout} (h : Backed d i (w, books))
    (hc : ClaimFacts w.store w'.store user payouts) :
    Backed d i (w', fun u j =>
      if user = u then (books u j).afterPayment (paidFor j payouts) else books u j) := by
  have hacc : w'.store.getAccumulatedRewardPerShare i = w.store.getAccumulatedRewardPerShare i := by
    rw [RewardStore.getAccumulatedRewardPerShare, hc.accumulated,
      RewardStore.getAccumulatedRewardPerShare]
  have hdist : w'.store.distributed i = w.store.distributed i := by
    rw [RewardStore.distributed, RewardStore.getStreams, hc.streams, RewardStore.distributed,
      RewardStore.getStreams]
  have hbooks : ∀ u, (if user = u then (books u i).afterPayment (paidFor i payouts)
      else books u i).account = (books u i).account := by
    intro u
    split_ifs <;> rfl
  refine backed_iff.mpr ⟨fun u => ?_, ?_⟩
  · show Agrees d (w'.store.getUserRewardDebt u i) (w'.store.getAccumulatedRewardPerShare i) _
    rw [hacc]
    by_cases hu : user = u
    · subst hu
      simp only [if_true]
      exact (h.agrees user).pay (hc.rewardDebt i) (hc.pays i)
    · simp only [if_neg hu]
      rw [hc.others u i fun hc => hu hc.symm]
      exact h.agrees u
  · have hfunded := h.funded.congr fun u =>
      congrArg (fun a => a.entitled (w.store.getAccumulatedRewardPerShare i)) (hbooks u)
    simpa only [hacc, hdist] using hfunded

/-- An emission divided by a total that covers all shares keeps the accounts funded. -/
theorem funded_accrued {accounts : Address → Account ℤ} {now : ℕ} {total acc : ℤ}
    {stream : RewardStream} (h : Funded accounts acc (10 ^ d * stream.totalDistributed))
    (hrate : stream.lastUpdate < now → 0 ≤ stream.ratePerSecond)
    (htotal : stream.lastUpdate < now → 0 < stream.ratePerSecond →
      ∀ holders : Finset Address, ∑ holder ∈ holders, (accounts holder).shares ≤ total) :
    acc ≤ accruedPerShare now total d stream acc ∧
      Funded accounts (accruedPerShare now total d stream acc)
        (10 ^ d * (accruedStream now total stream).totalDistributed) := by
  unfold accruedPerShare accruedStream
  split_ifs with hc
  · obtain ⟨helapsed, hpos⟩ := hc
    have hlate : stream.lastUpdate < now := by omega
    rcases (hrate hlate).eq_or_lt with hidle | hemits
    · rw [← hidle]
      simpa using h
    have hemitted : 0 ≤ stream.ratePerSecond * (now - stream.lastUpdate) :=
      mul_nonneg hemits.le helapsed.le
    have hscaled : 0 ≤ stream.ratePerSecond * (now - stream.lastUpdate) * 10 ^ d :=
      mul_nonneg hemitted (by positivity)
    obtain ⟨hgrowth, hround, -⟩ := tdiv_bounds hscaled hpos
    have hgrown : acc ≤ acc + (stream.ratePerSecond * (now - stream.lastUpdate) * 10 ^ d).tdiv
        total := le_add_of_nonneg_right hgrowth
    refine ⟨hgrown, ?_⟩
    rw [mul_add]
    apply h.accrue hgrown (htotal hlate hemits)
    rw [add_sub_cancel_left]
    linarith
  · exact ⟨le_rfl, h⟩

/-- A covered update keeps the stream it accrues backed. -/
theorem Backed.accrue {e : Env} {user vault : Address} {shares : ℤ} {stream : RewardStream}
    {s' : RewardStore} {pending : SortedMap ℕ ℤ} (h : Backed d i (w, books))
    (hi : w.store.getStreams[i]? = some stream) (hactive : stream.isActive = true)
    (hshares : 0 ≤ shares) (hcovered : CoveredStream e (w, books) user vault shares d i stream)
    (hu : updateRewards e w.store user vault shares d = .ok (s', pending)) :
    Backed d i ({ w with store := s' },
      fun u j => if user = u ∧ ActiveStream w.store j then
        (books u j).afterUpdate shares (s'.getAccumulatedRewardPerShare j)
      else books u j) := by
  have hstream : ActiveStream w.store i := ⟨stream, hi, hactive⟩
  obtain ⟨hacc, hdebt, hpending⟩ := updateRewards_own hu hi hactive
  obtain ⟨hothers, -⟩ := updateRewards_frame hu
  have hzero : (w.store.getUserRewardDebt user i).rewardDebt = 0 := h.rewardDebt user
  rw [hzero, sub_zero] at hpending
  have hdist : s'.distributed i = (accruedStream e.timestamp
      (refreshedVaultInfo w.store vault d).totalShares stream).totalDistributed := by
    simp [RewardStore.distributed, (updateRewards_streams hu).1, hi, hactive]
  have hemitted : w.store.distributed i = stream.totalDistributed := by
    simp [RewardStore.distributed, hi]
  have hfunded := h.funded
  simp only [hemitted] at hfunded
  obtain ⟨hgrowth, hgrown⟩ := funded_accrued hfunded hcovered.rate hcovered.total
  rw [← hacc] at hgrowth hgrown
  rw [← hdist] at hgrown
  have hstale := hcovered.settled
  rw [← accruedAt_eq hstream hu] at hstale
  have hbooks : ∀ u, (if user = u ∧ ActiveStream w.store i then
        (books u i).afterUpdate shares (s'.getAccumulatedRewardPerShare i) else books u i) =
      if user = u then (books u i).afterUpdate shares (s'.getAccumulatedRewardPerShare i)
        else books u i := by
    intro u
    simp only [hstream, and_true]
  refine backed_iff.mpr ⟨fun u => ?_, ?_⟩
  all_goals simp only [hbooks]
  · split_ifs with hu
    · subst hu
      exact (h.agrees user).update hgrowth hshares hstale (hdebt.trans hzero) hpending
    · rw [hothers u i fun hc => hu hc.symm]
      exact (h.agrees u).grow hgrowth
  · apply hgrown.congr
    intro u
    split_ifs
    · exact (books u i).account.entitled_settle _ _
    · rfl

/-- An update leaves a stream that is missing or inactive alone. -/
theorem Backed.skip {e : Env} {user vault : Address} {shares : ℤ} {decimals : ℕ}
    {s' : RewardStore} {pending : SortedMap ℕ ℤ} (h : Backed d i (w, books))
    (hinactive : ¬ ActiveStream w.store i)
    (hu : updateRewards e w.store user vault shares decimals = .ok (s', pending)) :
    Backed d i ({ w with store := s' }, books) := by
  have hi : ∀ stream, w.store.getStreams[i]? = some stream → ¬ stream.isActive = true := by
    intro stream hi hactive
    exact hinactive ⟨stream, hi, hactive⟩
  obtain ⟨hacc, hdebt⟩ := updateRewards_skip hu hi
  obtain ⟨hothers, -⟩ := updateRewards_frame hu
  refine h.frame (fun u => ?_) hacc ?_
  · by_cases hu : u = user
    · subst hu
      exact hdebt
    · exact hothers u i hu
  · cases hstream : w.store.getStreams[i]? with
    | none => simp [RewardStore.distributed, (updateRewards_streams hu).1, hstream]
    | some stream =>
        simp [RewardStore.distributed, (updateRewards_streams hu).1, hstream, hi stream hstream]

end stream

/-! ### Runs -/

/-- Every covered event keeps every stream backed. -/
theorem backed_step {d : ℕ} {t t' : RewardWorld × Registers} {event : RewardEvent}
    (h : ∀ i, Backed d i t) (hcovered : Covered d t event)
    (hstep : registeredStep t event = .ok t') : ∀ i, Backed d i t' := by
  obtain ⟨w, books⟩ := t
  intro i
  cases event with
  | tokens ledger =>
      obtain rfl := pure_eq_ok.mp hstep
      exact (h i).frame (fun _ => rfl) rfl rfl
  | call e action =>
      simp only [registeredStep, bind_eq_ok, pure_eq_ok] at hstep
      obtain ⟨⟨w', payouts⟩, hexec, rfl⟩ := hstep
      cases exec_effect hexec with
      | @update user vault shares decimals s' pending hu =>
          obtain ⟨rfl, hshares, hstreams⟩ := hcovered
          by_cases hactive : ActiveStream w.store i
          · obtain ⟨stream, hi, hact⟩ := hactive
            exact (h i).accrue hi hact hshares (hstreams i stream hi hact) hu
          · apply ((h i).skip hactive hu).congr_books
            intro u
            exact if_neg fun hc => hactive hc.2
      | claim hclaimant hfacts _ =>
          rw [observeAll_claim hclaimant]
          exact (h i).claim hfacts
      | other hclaimant haccrues hs =>
          rw [observeAll_other hclaimant haccrues]
          refine (h i).frame (fun user => ?_) ?_ (hs.distributed i)
          · rw [RewardStore.getUserRewardDebt, hs.debts, RewardStore.getUserRewardDebt]
          · rw [RewardStore.getAccumulatedRewardPerShare, hs.accumulated,
              RewardStore.getAccumulatedRewardPerShare]

theorem backed_initial (d i : ℕ) (admin treasury swapRouter : Address) (ledger : Ledger) :
    Backed d i (⟨initialRewards admin treasury swapRouter, ledger⟩, fun _ _ => .opening) where
  rewardDebt := fun _ => rfl
  pending := fun _ => by simp [Books.pendingValue, Books.opening]; rfl
  shares := fun _ => le_rfl
  mark := fun _ => ⟨le_rfl, le_rfl⟩
  law := fun _ => by simp [Books.pendingValue, Books.opening]
  funded := fun _ => by simp [Books.account, Books.opening, Account.entitled]; rfl

/-- After every run in which the updates that return are covered, no stream has promised more
than it distributed. -/
theorem promises_backed (d : ℕ) (admin treasury swapRouter : Address) (ledger : Ledger)
    (events : List RewardEvent)
    (hevents : Transact.Along registeredStep
      (fun t event => ∀ t', registeredStep t event = .ok t' → Covered d t event)
      (⟨initialRewards admin treasury swapRouter, ledger⟩, fun _ _ => .opening) events) :
    PromisesBacked (Transact.run registeredStep
      (⟨initialRewards admin treasury swapRouter, ledger⟩, fun _ _ => .opening) events) := by
  have hbacked : ∀ i, Backed d i (Transact.run registeredStep
      (⟨initialRewards admin treasury swapRouter, ledger⟩, fun _ _ => .opening) events) := by
    apply Transact.run_invariant_along (I := fun t => ∀ i, Backed d i t) _ events _ _ hevents
    · intro t event t' h hcovered hstep
      exact backed_step h (hcovered t' hstep) hstep
    · intro i
      exact backed_initial d i admin treasury swapRouter ledger
  intro i users
  exact (hbacked i).promised_le users

/-- A distributor without streams, and no books yet. -/
def openedDistributor : RewardWorld × Registers :=
  (⟨initialRewards 7 8 6, fun _ _ => 1000⟩, fun _ _ => .opening)

/-- The admin adds a stream at one unit per second at time 0. -/
def addingStream : RewardEvent := .call ⟨9, [7], 0⟩ (.addRewardStream 7 1 1 7 0)

/-- Somebody reports one share of `user` at time `now`. -/
def reporting (user : Address) (now : ℕ) : RewardEvent :=
  .call ⟨9, [], now⟩ (.updateRewards user 4 1 7)

/-- `user` claims from the stream at time `now`. -/
def claiming (user : Address) (now : ℕ) : RewardEvent :=
  .call ⟨9, [], now⟩ (.claimRewards user 4 [0] none)

/-- The distributor once its stream was added and, at time 0, the share of user 5 reported. -/
def reportedDistributor : RewardWorld × Registers :=
  Transact.run registeredStep openedDistributor [addingStream, reporting 5 0]

theorem reportedDistributor_shares (holders : Finset Address) :
    ∑ holder ∈ holders, (reportedDistributor.2 holder 0).shares ≤ 1 := by
  have hshares : ∀ holder, (reportedDistributor.2 holder 0).shares =
      if holder = 5 then 1 else 0 := by
    intro holder
    split_ifs with hholder
    · subst hholder
      decide
    · exact congrArg Books.shares (if_neg fun hc => hholder hc.1.symm)
  simp only [hshares, Finset.sum_ite_eq']
  split_ifs <;> decide

/-- The only share is reported before the first unit is emitted and rewarded once. -/
theorem promises_backed_one_share :
    PromisesBacked (Transact.run registeredStep openedDistributor
      [addingStream, reporting 5 0, reporting 5 100, claiming 5 100]) := by
  apply promises_backed 7
  refine ⟨fun _ _ => trivial, fun _ _ => ⟨rfl, by decide, ?_⟩, fun _ _ => ⟨rfl, by decide, ?_⟩,
    fun _ _ => trivial, trivial⟩
  · intro i stream hi _
    cases i with
    | zero =>
        obtain rfl := Option.some.inj hi
        exact ⟨by decide, by decide, fun hlate => absurd hlate (by decide)⟩
    | succ i => cases hi
  · intro i stream hi _
    cases i with
    | zero =>
        obtain rfl := Option.some.inj hi
        exact ⟨by decide, by decide, fun _ _ => reportedDistributor_shares⟩
    | succ i => cases hi

/-- A share whose rewards were claimed is rewarded for the same time again; and of two shares
in one vault each is rewarded with all that was emitted. -/
theorem promises_exceed_emission :
    ¬ PromisesBacked (Transact.run registeredStep openedDistributor
        [addingStream, reporting 5 0, reporting 5 100, claiming 5 100, reporting 5 100]) ∧
      ¬ PromisesBacked (Transact.run registeredStep openedDistributor
        [addingStream, reporting 5 0, reporting 6 0, reporting 5 100, reporting 6 100]) := by
  constructor
  · intro h
    exact absurd (h 0 {5}) (by decide)
  · intro h
    exact absurd (h 0 {5, 6}) (by decide)

end YieldEngine.Rewards
