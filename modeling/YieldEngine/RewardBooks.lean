import YieldEngine.RewardRuns
import YieldEngine.Rounding
import Mathlib.Algebra.Order.Field.Basic

/-! # What the distributor pays and what was earned

`Books` follows one user in one stream through a run of the distributor: the shares passed by
each `update_rewards` and the accumulator it leaves, what the user has earned on the shares
held between two updates (`earned`, in units of `10 ^ decimals`), and what claims have paid.

The distributor computes a pending amount as shares times accumulator less a reward debt, and
never writes that debt.  An update therefore counts again whatever the debt should have taken
off: the accumulator so far on every change of the shares, and the last amount once it has
been claimed.  This is the update's `staleDebt`.  In every run, what was paid plus what is
pending is what was earned plus the stale debts, up to one unit of rounding for each update
(`books_law`); it is what was earned in the runs in which no update that returns has a stale debt
(`paid_eq_earned`). -/

namespace YieldEngine.Rewards

open CheckedArith Rounding

/-! ### The books of one user in one stream -/

structure Books where
  /-- Updates of the user so far. -/
  updates : ℕ
  /-- The shares passed by the last update, and the accumulator it left. -/
  shares : ℤ
  accumulated : ℤ
  /-- The last pending amount has been claimed. -/
  claimed : Bool
  /-- The shares between two updates, times the growth of the accumulator. -/
  earned : ℤ
  stale : ℤ
  paid : ℤ

namespace Books

/-- The books before the user's first update. -/
def opening : Books := ⟨0, 0, 0, false, 0, 0, 0⟩

/-- What an update with `shares` counts although it was accrued or paid before. -/
def staleDebt (b : Books) (shares accumulated : ℤ) : ℤ :=
  (shares - b.shares) * accumulated + if b.claimed then b.shares * b.accumulated else 0

def afterUpdate (b : Books) (shares accumulated : ℤ) : Books where
  updates := b.updates + 1
  shares := shares
  accumulated := accumulated
  claimed := false
  earned := b.earned + b.shares * (accumulated - b.accumulated)
  stale := b.stale + b.staleDebt shares accumulated
  paid := b.paid

def afterPayment (b : Books) (amount : ℤ) : Books :=
  { b with claimed := b.claimed || decide (0 < amount), paid := b.paid + amount }

/-- The exact value of the pending amount, in units of `10 ^ decimals`. -/
def pendingValue (b : Books) : ℤ := if b.claimed then 0 else b.shares * b.accumulated

/-- One while a pending amount may still be rounded by a claim. -/
def unsettled (b : Books) : ℤ := if b.claimed = true ∨ b.updates = 0 then 0 else 1

end Books

/-! ### Runs with books -/

/-- The books after an invocation that ended in `s'` with `payouts`. -/
def observe (user : Address) (i : ℕ) (b : Books) (s' : RewardStore) (payouts : List ClaimPayout) :
    RewardAction → Books
  | .updateRewards u _ userShares _ =>
      if u = user then b.afterUpdate userShares (s'.getAccumulatedRewardPerShare i) else b
  | .claimRewards u .. | .executeAutoCompound u .. =>
      if u = user then b.afterPayment (paidFor i payouts) else b
  | _ => b

section observe
variable {user : Address} {i : ℕ} {b : Books} {s' : RewardStore} {payouts : List ClaimPayout}
  {action : RewardAction}

theorem observe_claim {u : Address} (h : action.claimant = some u) :
    observe user i b s' payouts action =
      if u = user then b.afterPayment (paidFor i payouts) else b := by
  cases action with
  | claimRewards claimant vault is convertTo =>
      obtain rfl := Option.some.inj h
      rfl
  | executeAutoCompound claimant vault is =>
      obtain rfl := Option.some.inj h
      rfl
  | _ => cases h

theorem observe_other (hclaimant : action.claimant = none) (haccrues : ¬ action.Accrues) :
    observe user i b s' payouts action = b := by
  cases action with
  | updateRewards => exact absurd trivial haccrues
  | claimRewards => cases hclaimant
  | executeAutoCompound => cases hclaimant
  | _ => rfl

end observe

/-- One event of a run, with the books of `user` in stream `i`. -/
def bookedStep (user : Address) (i : ℕ) (t : RewardWorld × Books) :
    RewardEvent → RewardCall (RewardWorld × Books)
  | .call e action => do
      let (w, payouts) ← exec t.1 (e, action)
      pure (w, observe user i t.2 w.store payouts action)
  | .tokens ledger => pure ({ t.1 with ledger := ledger }, t.2)

/-- The stream stays active and the user's updates pass the share decimals `d`. -/
def Steady (user : Address) (i d : ℕ) : RewardEvent → Prop
  | .call _ (.updateRewards u _ _ decimals) => u = user → decimals = d
  | .call _ (.deactivateStream _ j) => j ≠ i
  | _ => True

/-- The accumulator of stream `i` once an update for `vault` has accrued it. -/
def accruedAt (e : Env) (s : RewardStore) (vault : Address) (decimals i : ℕ) : ℤ :=
  match s.getStreams[i]? with
  | some stream => accruedPerShare e.timestamp (refreshedVaultInfo s vault decimals).totalShares
      decimals stream (s.getAccumulatedRewardPerShare i)
  | none => s.getAccumulatedRewardPerShare i

/-- The event is no update of the user with a stale debt. -/
def NoStaleDebt (user : Address) (i : ℕ) (t : RewardWorld × Books) : RewardEvent → Prop
  | .call e (.updateRewards u vault userShares decimals) =>
      u = user → t.2.staleDebt userShares (accruedAt e t.1.store vault decimals i) = 0
  | _ => True

/-- What claims have paid and what is pending is what was earned, up to one unit of rounding
for each update. -/
def PaysWhatWasEarned (user : Address) (i d : ℕ) (t : RewardWorld × Books) : Prop :=
  |10 ^ d * (t.2.paid + (t.1.store.getUserRewardDebt user i).pendingRewards) - t.2.earned| ≤
    10 ^ d * t.2.updates

instance (user : Address) (i d : ℕ) (t : RewardWorld × Books) :
    Decidable (PaysWhatWasEarned user i d t) := inferInstanceAs (Decidable (_ ≤ _))

/-! ### The law of the books -/

/-- The stored record agrees with the books, and the books with what was earned. -/
structure BooksHold (user : Address) (i d : ℕ) (t : RewardWorld × Books) : Prop where
  active : ActiveStream t.1.store i
  rewardDebt : (t.1.store.getUserRewardDebt user i).rewardDebt = 0
  pending : (t.1.store.getUserRewardDebt user i).pendingRewards =
    t.2.pendingValue.tdiv (10 ^ d)
  opening : t.2.updates = 0 → t.2.pendingValue = 0
  law : |10 ^ d * t.2.paid + t.2.pendingValue - t.2.earned - t.2.stale| ≤
    10 ^ d * (t.2.updates - t.2.unsettled)

theorem tdiv_scale_near (x : ℤ) (d : ℕ) : |10 ^ d * x.tdiv (10 ^ d) - x| ≤ 10 ^ d := by
  have hpos : (0 : ℤ) < 10 ^ d := by positivity
  have h := tdiv_near x hpos
  have hpos' : (0 : ℚ) < (10 : ℚ) ^ d := by positivity
  have h' : |(10 : ℚ) ^ d * (x.tdiv (10 ^ d) : ℤ) - x| ≤ 10 ^ d := by
    have hscale : (10 : ℚ) ^ d * (x.tdiv (10 ^ d) : ℤ) - x =
        10 ^ d * ((x.tdiv (10 ^ d) : ℤ) - x / ((10 ^ d : ℤ) : ℚ)) := by
      push_cast
      field_simp
    rw [hscale, abs_mul, abs_of_pos hpos']
    exact mul_le_of_le_one_right hpos'.le h
  exact_mod_cast h'

section law
variable {user : Address} {i d : ℕ} {w w' : RewardWorld} {b : Books}

theorem unsettled_bounds (b : Books) : 0 ≤ b.unsettled ∧ b.unsettled ≤ 1 := by
  unfold Books.unsettled
  split_ifs <;> simp

/-- Paid and pending amounts are what was earned and counted again, up to rounding. -/
theorem BooksHold.total {t : RewardWorld × Books} (h : BooksHold user i d t) :
    |10 ^ d * (t.2.paid + (t.1.store.getUserRewardDebt user i).pendingRewards) - t.2.earned -
      t.2.stale| ≤ 10 ^ d * t.2.updates := by
  obtain ⟨w, b⟩ := t
  have hlaw := h.law
  have hpend := h.pending
  simp only at hlaw hpend ⊢
  rw [hpend]
  by_cases hsettled : b.claimed = true ∨ b.updates = 0
  · have hzero : b.pendingValue = 0 := by
      rcases hsettled with hc | hu
      · simp [Books.pendingValue, hc]
      · exact h.opening hu
    rw [Books.unsettled, if_pos hsettled, sub_zero, hzero, add_zero] at hlaw
    rw [hzero, Int.zero_tdiv, add_zero]
    exact hlaw
  · have hround := tdiv_scale_near b.pendingValue d
    rw [Books.unsettled, if_neg hsettled] at hlaw
    rw [abs_le] at *
    constructor <;> linarith

/-- An update keeps the books: the pending amount is recomputed from the accumulator. -/
theorem booksHold_update (h : BooksHold user i d (w, b)) {shares acc : ℤ}
    (hactive : ActiveStream w'.store i)
    (hdebt : (w'.store.getUserRewardDebt user i).rewardDebt = 0)
    (hpend : (w'.store.getUserRewardDebt user i).pendingRewards =
      (shares * acc).tdiv (10 ^ d)) :
    BooksHold user i d (w', b.afterUpdate shares acc) := by
  have hlaw := h.law
  have hpos : (0 : ℤ) < 10 ^ d := by positivity
  obtain ⟨h0, -⟩ := unsettled_bounds b
  refine ⟨hactive, hdebt, hpend, fun hu => absurd hu (Nat.succ_ne_zero _), ?_⟩
  have hvalue : (b.afterUpdate shares acc).pendingValue = shares * acc := by
    simp [Books.pendingValue, Books.afterUpdate]
  have hunsettled : (b.afterUpdate shares acc).unsettled = 1 := by
    simp [Books.unsettled, Books.afterUpdate]
  have hsame : 10 ^ d * b.paid + shares * acc - (b.earned + b.shares * (acc - b.accumulated)) -
      (b.stale + b.staleDebt shares acc) =
      10 ^ d * b.paid + b.pendingValue - b.earned - b.stale := by
    unfold Books.staleDebt Books.pendingValue
    split_ifs <;> ring
  simp only [hvalue, hunsettled]
  simp only [Books.afterUpdate, hsame]
  push_cast
  refine hlaw.trans ?_
  nlinarith

/-- A claim keeps the books: it settles the pending amount or leaves it alone. -/
theorem booksHold_claim {payouts : List ClaimPayout} (h : BooksHold user i d (w, b))
    (hc : ClaimFacts w.store w'.store user payouts) :
    BooksHold user i d (w', b.afterPayment (paidFor i payouts)) := by
  have hactive : ActiveStream w'.store i := by
    simpa only [ActiveStream, RewardStore.getStreams, hc.streams] using h.active
  have hdebt := (hc.rewardDebt i).trans h.rewardDebt
  rcases hc.pays i with ⟨hsame, hnone⟩ | ⟨hpos, hzero, hpaid⟩
  · have hb : b.afterPayment (paidFor i payouts) = b := by simp [Books.afterPayment, hnone]
    rw [hb]
    exact ⟨hactive, hdebt, hsame.trans h.pending, h.opening, h.law⟩
  · have htotal := h.total
    have hvalue : (b.afterPayment (paidFor i payouts)).pendingValue = 0 := by
      simp [Books.pendingValue, Books.afterPayment, hpaid, hpos]
    have hsettled : (b.afterPayment (paidFor i payouts)).unsettled = 0 := by
      simp [Books.unsettled, Books.afterPayment, hpaid, hpos]
    refine ⟨hactive, hdebt, ?_, fun _ => hvalue, ?_⟩
    · simp only [hzero, hvalue, Int.zero_tdiv]
    · simp only [hvalue, hsettled, sub_zero, add_zero]
      simp only [Books.afterPayment, hpaid]
      exact htotal

/-- Whatever leaves the user's record and the stream alone keeps the books. -/
theorem booksHold_frame (h : BooksHold user i d (w, b))
    (hactive : ActiveStream w'.store i)
    (hdebt : w'.store.getUserRewardDebt user i = w.store.getUserRewardDebt user i) :
    BooksHold user i d (w', b) :=
  ⟨hactive, by simp only [hdebt, h.rewardDebt], by simp only [hdebt, h.pending], h.opening, h.law⟩

end law

/-! ### Runs -/

section runs
variable {user : Address} {i d : ℕ}

/-- Every event keeps the books. -/
theorem booksHold_step {t t' : RewardWorld × Books} {event : RewardEvent}
    (h : BooksHold user i d t) (hsteady : Steady user i d event)
    (hstep : bookedStep user i t event = .ok t') : BooksHold user i d t' := by
  obtain ⟨w, b⟩ := t
  cases event with
  | tokens ledger =>
      obtain rfl := pure_eq_ok.mp hstep
      exact booksHold_frame h h.active rfl
  | call e action =>
      simp only [bookedStep, bind_eq_ok, pure_eq_ok] at hstep
      obtain ⟨⟨w', payouts⟩, hexec, rfl⟩ := hstep
      cases exec_effect hexec with
      | @update u vault shares decimals s' pending hu =>
          obtain ⟨hothers, hmap⟩ := updateRewards_frame hu
          have hactive : ActiveStream s' i := by
            rw [activeStream_iff, hmap, ← activeStream_iff]
            exact h.active
          simp only [observe]
          split_ifs with huser
          · subst huser
            obtain rfl := hsteady rfl
            obtain ⟨stream, hi, hact⟩ := h.active
            obtain ⟨-, hdebt, hpend⟩ := updateRewards_own hu hi hact
            have h0 := h.rewardDebt
            simp only at h0
            rw [h0] at hdebt
            rw [h0, sub_zero] at hpend
            exact booksHold_update h hactive hdebt hpend
          · exact booksHold_frame h hactive (hothers user i (fun hc => huser hc.symm))
      | @claim _ _ u _ hclaimant hfacts _ =>
          rw [observe_claim hclaimant]
          split_ifs with huser
          · subst huser
            exact booksHold_claim h hfacts
          · refine booksHold_frame h ?_ (hfacts.others user i fun hc => huser hc.symm)
            simpa only [ActiveStream, RewardStore.getStreams, hfacts.streams] using h.active
      | other hclaimant haccrues hs =>
          rw [observe_other hclaimant haccrues]
          have hkeeps : KeepsStream action i := by
            rintro admin rfl
            exact hsteady rfl
          refine booksHold_frame h (hs.active i hkeeps h.active) ?_
          rw [RewardStore.getUserRewardDebt, hs.debts, RewardStore.getUserRewardDebt]

theorem accruedAt_eq {e : Env} {s s' : RewardStore} {vault : Address} {shares : ℤ} {decimals : ℕ}
    {pending : SortedMap ℕ ℤ} (hactive : ActiveStream s i)
    (h : updateRewards e s user vault shares decimals = .ok (s', pending)) :
    s'.getAccumulatedRewardPerShare i = accruedAt e s vault decimals i := by
  obtain ⟨stream, hi, hact⟩ := hactive
  rw [(updateRewards_own h hi hact).1, accruedAt, hi]

/-- An event without stale debt adds none to the books. -/
theorem stale_step {t t' : RewardWorld × Books} {event : RewardEvent} (h : BooksHold user i d t)
    (hstale : NoStaleDebt user i t event) (hstep : bookedStep user i t event = .ok t') :
    t'.2.stale = t.2.stale := by
  obtain ⟨w, b⟩ := t
  cases event with
  | tokens ledger =>
      obtain rfl := pure_eq_ok.mp hstep
      rfl
  | call e action =>
      simp only [bookedStep, bind_eq_ok, pure_eq_ok] at hstep
      obtain ⟨⟨w', payouts⟩, hexec, rfl⟩ := hstep
      cases exec_effect hexec with
      | @update u vault shares decimals s' pending hu =>
          simp only [observe]
          split_ifs with huser
          · subst huser
            have h0 := hstale rfl
            simp only at h0
            simp only [Books.afterUpdate, accruedAt_eq h.active hu, h0, add_zero]
          · rfl
      | claim hclaimant _ _ =>
          rw [observe_claim hclaimant]
          split_ifs <;> rfl
      | other hclaimant haccrues _ => rw [observe_other hclaimant haccrues]

theorem booksHold_opening {w : RewardWorld} (hactive : ActiveStream w.store i)
    (hnew : w.store.debts.get (toLex (user, i)) = none) :
    BooksHold user i d (w, .opening) := by
  have hdebt : w.store.getUserRewardDebt user i = ⟨user, i, 0, 0, 0⟩ := by
    rw [RewardStore.getUserRewardDebt, hnew]
    rfl
  refine ⟨hactive, by simp only [hdebt], ?_, fun _ => rfl, ?_⟩
  · simp [hdebt, Books.pendingValue, Books.opening]
  · simp [Books.pendingValue, Books.unsettled, Books.opening]

/-- In every run whose returning calls are steady, paid and pending amounts are what was earned plus
the stale debts. -/
theorem books_law {w : RewardWorld} (hactive : ActiveStream w.store i)
    (hnew : w.store.debts.get (toLex (user, i)) = none) (events : List RewardEvent)
    (hevents : Transact.Along (bookedStep user i)
      (fun t event => ∀ t', bookedStep user i t event = .ok t' → Steady user i d event)
      (w, .opening) events) :
    BooksHold user i d (Transact.run (bookedStep user i) (w, .opening) events) :=
  Transact.run_invariant_along (fun _ _ t' h hq hstep => booksHold_step h (hq t' hstep) hstep)
    events _ (booksHold_opening hactive hnew) hevents

/-- In a run in which no update that returns has a stale debt, paid and pending amounts are what
was earned. -/
theorem paid_eq_earned (user : Address) (i d : ℕ) {w : RewardWorld}
    (hactive : ActiveStream w.store i) (hnew : w.store.debts.get (toLex (user, i)) = none)
    (events : List RewardEvent)
    (hevents : Transact.Along (bookedStep user i)
      (fun t event => ∀ t', bookedStep user i t event = .ok t' →
        Steady user i d event ∧ NoStaleDebt user i t event) (w, .opening) events) :
    PaysWhatWasEarned user i d (Transact.run (bookedStep user i) (w, .opening) events) := by
  have hkept : ∀ t event t', BooksHold user i d t ∧ t.2.stale = 0 →
      (∀ t', bookedStep user i t event = .ok t' →
        Steady user i d event ∧ NoStaleDebt user i t event) →
      bookedStep user i t event = .ok t' → BooksHold user i d t' ∧ t'.2.stale = 0 := by
    rintro t event t' ⟨hholds, hzero⟩ hcovered hstep
    obtain ⟨hsteady, hstale⟩ := hcovered t' hstep
    exact ⟨booksHold_step hholds hsteady hstep, (stale_step hholds hstale hstep).trans hzero⟩
  obtain ⟨hholds, hstale⟩ := Transact.run_invariant_along hkept
    events _ ⟨booksHold_opening hactive hnew, rfl⟩ hevents
  have htotal := hholds.total
  rw [hstale, sub_zero] at htotal
  exact htotal

end runs

/-- A distributor with one stream of the token `1`, at one unit per second from time 0 on. -/
def oneStreamWorld : RewardWorld :=
  (Transact.run (bookedStep 5 0) (⟨initialRewards 7 8 6, fun _ _ => 1000⟩, .opening)
    [.call ⟨9, [7], 0⟩ (.addRewardStream 7 1 1 7 0)]).1

theorem oneStreamWorld_active : ActiveStream oneStreamWorld.store 0 := ⟨_, rfl, rfl⟩

theorem paid_eq_earned_oneStreamWorld :
    PaysWhatWasEarned 5 0 7 (Transact.run (bookedStep 5 0) (oneStreamWorld, .opening)
      [.call ⟨9, [], 0⟩ (.updateRewards 5 4 1 7), .call ⟨9, [], 100⟩ (.updateRewards 5 4 1 7),
        .call ⟨9, [], 100⟩ (.claimRewards 5 4 [0] none)]) :=
  paid_eq_earned 5 0 7 oneStreamWorld_active rfl _
    ⟨fun _ _ => ⟨fun _ => rfl, fun _ => rfl⟩, fun _ _ => ⟨fun _ => rfl, fun _ => rfl⟩,
      fun _ _ => ⟨trivial, trivial⟩, trivial⟩

/-- The hundred units claimed at time 100 become pending again with the next update. -/
theorem claimed_again :
    (ActiveStream oneStreamWorld.store 0 ∧ oneStreamWorld.store.debts.get (toLex (5, 0)) = none ∧
      Transact.Along (bookedStep 5 0) (fun _ event => Steady 5 0 7 event)
        (oneStreamWorld, .opening)
        [.call ⟨9, [], 0⟩ (.updateRewards 5 4 1 7), .call ⟨9, [], 100⟩ (.updateRewards 5 4 1 7),
          .call ⟨9, [], 100⟩ (.claimRewards 5 4 [0] none),
          .call ⟨9, [], 100⟩ (.updateRewards 5 4 1 7)]) ∧
    ¬ PaysWhatWasEarned 5 0 7 (Transact.run (bookedStep 5 0) (oneStreamWorld, .opening)
        [.call ⟨9, [], 0⟩ (.updateRewards 5 4 1 7), .call ⟨9, [], 100⟩ (.updateRewards 5 4 1 7),
          .call ⟨9, [], 100⟩ (.claimRewards 5 4 [0] none),
          .call ⟨9, [], 100⟩ (.updateRewards 5 4 1 7)]) :=
  ⟨⟨oneStreamWorld_active, rfl, fun _ => rfl, fun _ => rfl, trivial, fun _ => rfl, trivial⟩,
    by decide⟩

end YieldEngine.Rewards
