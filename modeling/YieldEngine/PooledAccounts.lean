import YieldEngine.Accounts

/-! # Accounts in a pool

A pool holds one stock for many accounts.  It keeps the accounts, a recorded total and the stock
(`Pool`), and changes by moves: a deposit, a withdrawal, an account opened anew over whatever it
held, and a gift, which comes in for no account.  Amounts are signed.

`after` runs a list of moves.  The books of such a run are exact: the stock is the record and the
gifts (`held_after`), the record is the accounts and what openings replaced (`recorded_after`), and
an account is what was put in less what was taken out and replaced (`amount_after`).  With amounts
that are not negative the pool stays `Sound`: it can pay out every account. -/

namespace PooledAccounts

open SortedMap

variable {κ : Type} [LinearOrder κ]

structure Pool (κ : Type) [LinearOrder κ] where
  accounts : SortedMap κ ℤ
  recorded : ℤ
  held : ℤ

inductive Move (κ : Type) where
  | deposit (k : κ) (x : ℤ)
  | withdraw (k : κ) (x : ℤ)
  | reopen (k : κ) (x : ℤ)
  | gift (x : ℤ)
deriving DecidableEq, Repr

namespace Pool

def apply (p : Pool κ) : Move κ → Pool κ
  | .deposit k x => ⟨p.accounts.credit k x, p.recorded + x, p.held + x⟩
  | .withdraw k x => ⟨p.accounts.credit k (-x), p.recorded - x, p.held - x⟩
  | .reopen k x => ⟨p.accounts.set k x, p.recorded + x, p.held + x⟩
  | .gift x => { p with held := p.held + x }

/-- The pool after a list of moves. -/
def after (p : Pool κ) (moves : List (Move κ)) : Pool κ := moves.foldl apply p

theorem after_append (p : Pool κ) (moves more : List (Move κ)) :
    p.after (moves ++ more) = (p.after moves).after more := List.foldl_append

theorem after_gifts (xs : List ℤ) : ∀ p : Pool κ,
    p.after (xs.map .gift) = { p with held := p.held + xs.sum } := by
  induction xs with
  | nil => exact fun p => by simp [after]
  | cons x xs ih =>
      intro p
      refine (ih (p.apply (.gift x))).trans ?_
      simp only [apply, List.sum_cons, add_assoc]

/-- What the openings of a run replaced, by account. -/
def replaced (p : Pool κ) : List (Move κ) → List (κ × ℤ)
  | [] => []
  | .reopen k x :: moves => (k, p.accounts.amount k) :: (p.apply (.reopen k x)).replaced moves
  | m :: moves => (p.apply m).replaced moves

end Pool

/-- What moves put into accounts. -/
def putIn : List (Move κ) → List (κ × ℤ)
  | [] => []
  | .deposit k x :: moves => (k, x) :: putIn moves
  | .reopen k x :: moves => (k, x) :: putIn moves
  | _ :: moves => putIn moves

/-- What they take out of accounts. -/
def takenOut : List (Move κ) → List (κ × ℤ)
  | [] => []
  | .withdraw k x :: moves => (k, x) :: takenOut moves
  | _ :: moves => takenOut moves

/-- What they bring in for no account. -/
def gifts : List (Move κ) → List ℤ
  | [] => []
  | .gift x :: moves => x :: gifts moves
  | _ :: moves => gifts moves

namespace Pool

/-! ### The books -/

theorem held_after (moves : List (Move κ)) : ∀ p : Pool κ,
    (p.after moves).held - (p.after moves).recorded = p.held - p.recorded + (gifts moves).sum := by
  induction moves with
  | nil => exact fun p => (add_zero _).symm
  | cons m moves ih =>
      intro p
      refine (ih (p.apply m)).trans ?_
      cases m with
      | gift x =>
          simp only [apply, gifts, List.sum_cons]
          ring
      | _ =>
          simp only [apply, gifts]
          ring

theorem recorded_after (moves : List (Move κ)) : ∀ p : Pool κ,
    (p.after moves).recorded - (p.after moves).accounts.total id =
      p.recorded - p.accounts.total id + ((p.replaced moves).map Prod.snd).sum := by
  induction moves with
  | nil => exact fun p => (add_zero _).symm
  | cons m moves ih =>
      intro p
      refine (ih (p.apply m)).trans ?_
      cases m with
      | deposit k x =>
          simp only [apply, replaced, total_credit]
          ring
      | withdraw k x =>
          simp only [apply, replaced, total_credit]
          ring
      | reopen k x =>
          simp only [apply, replaced, total_set_amount, List.map_cons, List.sum_cons]
          ring
      | gift x => rfl

/-- Where nothing is opened, nothing is replaced. -/
theorem replaced_eq_nil (moves : List (Move κ)) : (∀ m ∈ moves, ∀ k x, m ≠ .reopen k x) →
    ∀ p : Pool κ, p.replaced moves = [] := by
  induction moves with
  | nil => exact fun _ _ => rfl
  | cons m moves ih =>
      intro h p
      have hrest := ih fun m' hm' => h m' (List.mem_cons_of_mem m hm')
      cases m with
      | reopen k x => exact absurd rfl (h _ List.mem_cons_self k x)
      | _ => exact hrest _

theorem sumAt_cons (k j : κ) (x : ℤ) (amounts : List (κ × ℤ)) :
    sumAt k ((j, x) :: amounts) = (if j = k then x else 0) + sumAt k amounts := rfl

theorem amount_after (k : κ) (moves : List (Move κ)) : ∀ p : Pool κ,
    (p.after moves).accounts.amount k + sumAt k (takenOut moves) + sumAt k (p.replaced moves) =
      p.accounts.amount k + sumAt k (putIn moves) := by
  induction moves with
  | nil => exact fun p => by simp [after, takenOut, putIn, replaced, sumAt]
  | cons m moves ih =>
      intro p
      have hrest := ih (p.apply m)
      have hafter : p.after (m :: moves) = (p.apply m).after moves := rfl
      rw [hafter]
      cases m with
      | deposit j x =>
          simp only [apply, amount_credit] at hrest
          simp only [takenOut, putIn, replaced, sumAt_cons, apply]
          by_cases hj : k = j
          · subst hj
            simp only [if_true] at hrest ⊢
            omega
          · simp only [hj, Ne.symm hj, if_false] at hrest ⊢
            omega
      | withdraw j x =>
          simp only [apply, amount_credit] at hrest
          simp only [takenOut, putIn, replaced, sumAt_cons, apply]
          by_cases hj : k = j
          · subst hj
            simp only [if_true] at hrest ⊢
            omega
          · simp only [hj, Ne.symm hj, if_false] at hrest ⊢
            omega
      | reopen j x =>
          simp only [apply, amount_set] at hrest
          simp only [takenOut, putIn, replaced, sumAt_cons, apply]
          by_cases hj : k = j
          · subst hj
            simp only [if_true] at hrest ⊢
            omega
          · simp only [hj, Ne.symm hj, if_false] at hrest ⊢
            omega
      | gift x => exact hrest

/-! ### Pools that can pay -/

/-- No account is overdrawn, the record covers the accounts and the stock covers the record. -/
structure Sound (p : Pool κ) : Prop where
  amount_nonneg : ∀ k, 0 ≤ p.accounts.amount k
  total_le : p.accounts.total id ≤ p.recorded
  recorded_le : p.recorded ≤ p.held

/-- A move of an amount that is not negative and, in a withdrawal, is in the account. -/
def Fair (p : Pool κ) : Move κ → Prop
  | .deposit _ x => 0 ≤ x
  | .withdraw k x => x ≤ p.accounts.amount k
  | .reopen _ x => 0 ≤ x
  | .gift x => 0 ≤ x

theorem Sound.apply {p : Pool κ} (h : p.Sound) {m : Move κ} (hm : p.Fair m) :
    (p.apply m).Sound := by
  obtain ⟨hnonneg, htotal, hheld⟩ := h
  cases m with
  | deposit k x =>
      refine ⟨fun j => ?_, ?_, add_le_add_left hheld x⟩
      · rw [Pool.apply, amount_credit]
        split_ifs
        · exact add_nonneg (hnonneg k) hm
        · exact hnonneg j
      · rw [Pool.apply, total_credit]
        exact add_le_add_left htotal x
  | withdraw k x =>
      have hcovered : x ≤ p.accounts.amount k := hm
      refine ⟨fun j => ?_, ?_, by simpa only [Pool.apply] using sub_le_sub_right hheld x⟩
      · rw [Pool.apply, amount_credit]
        split_ifs
        · omega
        · exact hnonneg j
      · simp only [Pool.apply, total_credit]
        omega
  | reopen k x =>
      have hold := hnonneg k
      refine ⟨fun j => ?_, ?_, by simpa only [Pool.apply] using add_le_add_left hheld x⟩
      · rw [Pool.apply, amount_set]
        split_ifs
        · exact hm
        · exact hnonneg j
      · simp only [Pool.apply, total_set_amount]
        omega
  | gift x =>
      have hgift : 0 ≤ x := hm
      exact ⟨hnonneg, htotal, by simp only [Pool.apply]; omega⟩

theorem Sound.after_gifts {p : Pool κ} (h : p.Sound) {xs : List ℤ} (hxs : ∀ x ∈ xs, 0 ≤ x) :
    (p.after (xs.map .gift)).Sound := by
  have hsum := List.sum_nonneg hxs
  rw [Pool.after_gifts]
  exact ⟨h.amount_nonneg, h.total_le, h.recorded_le.trans (le_add_of_nonneg_right hsum)⟩

/-- A sound pool holds what any account does. -/
theorem Sound.amount_le_held {p : Pool κ} (h : p.Sound) (k : κ) :
    p.accounts.amount k ≤ p.held :=
  ((amount_le_total h.amount_nonneg k).trans h.total_le).trans h.recorded_le

end Pool
end PooledAccounts
