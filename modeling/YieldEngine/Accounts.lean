import YieldEngine.Tally

/-! # Accounts

A map of signed amounts kept by holder.  A holder without an entry has nothing, so the map is
read through `amount`; `credit` adds to one account.

`total id m` is the sum of all accounts.  `total_credit` says that a credit adds its amount to
it, from which conservation of transfers follows, and `amount_le_total` that no account exceeds
it while none is overdrawn. -/

namespace SortedMap

variable {κ : Type} [LinearOrder κ]

/-- What the map holds under a key, zero where it holds nothing. -/
def amount (m : SortedMap κ ℤ) (k : κ) : ℤ := (m.get k).getD 0

/-- Add to one account. -/
def credit (m : SortedMap κ ℤ) (k : κ) (x : ℤ) : SortedMap κ ℤ := m.set k (m.amount k + x)

@[simp] theorem amount_empty (k : κ) : (empty : SortedMap κ ℤ).amount k = 0 := rfl

theorem amount_set (m : SortedMap κ ℤ) (k j : κ) (x : ℤ) :
    (m.set k x).amount j = if j = k then x else m.amount j := by
  rw [amount, get_set]
  split_ifs with h
  · rfl
  · rfl

theorem amount_credit (m : SortedMap κ ℤ) (k j : κ) (x : ℤ) :
    (m.credit k x).amount j = if j = k then m.amount k + x else m.amount j :=
  amount_set m k j _

@[simp] theorem amount_credit_self (m : SortedMap κ ℤ) (k : κ) (x : ℤ) :
    (m.credit k x).amount k = m.amount k + x := by
  rw [amount_credit, if_pos rfl]

theorem amount_credit_of_ne (m : SortedMap κ ℤ) {k j : κ} (x : ℤ) (h : j ≠ k) :
    (m.credit k x).amount j = m.amount j := by
  rw [amount_credit, if_neg h]

theorem amount_credit_eq_add (m : SortedMap κ ℤ) (k j : κ) (x : ℤ) :
    (m.credit k x).amount j = m.amount j + if k = j then x else 0 := by
  rw [amount_credit]
  by_cases h : j = k
  · rw [if_pos h, if_pos h.symm, h]
  · rw [if_neg h, if_neg (Ne.symm h), add_zero]

/-! ### The sum of all accounts -/

theorem total_set_amount (m : SortedMap κ ℤ) (k : κ) (x : ℤ) :
    total id (m.set k x) = total id m - m.amount k + x := by
  rw [total_set, Option.map_id]
  rfl

theorem total_credit (m : SortedMap κ ℤ) (k : κ) (x : ℤ) :
    total id (m.credit k x) = total id m + x := by
  rw [credit, total_set_amount]
  ring

/-- An amount moved between two accounts stays in the sum. -/
theorem total_moved (m : SortedMap κ ℤ) (k j : κ) (x : ℤ) :
    total id ((m.credit k (-x)).credit j x) = total id m := by
  rw [total_credit, total_credit]
  ring

theorem amount_of_get {m : SortedMap κ ℤ} {k : κ} {x : ℤ} (h : m.get k = some x) :
    m.amount k = x := by
  rw [amount, h]
  rfl

theorem total_amounts_nonneg {m : SortedMap κ ℤ} (h : ∀ k, 0 ≤ m.amount k) : 0 ≤ total id m := by
  apply total_nonneg
  intro k x hx
  have hk := h k
  rwa [amount_of_get hx] at hk

/-- No account exceeds the sum while none is overdrawn. -/
theorem amount_le_total {m : SortedMap κ ℤ} (h : ∀ k, 0 ≤ m.amount k) (k : κ) :
    m.amount k ≤ total id m := by
  cases hk : m.get k with
  | none =>
      rw [amount, hk]
      exact total_amounts_nonneg h
  | some x =>
      rw [amount_of_get hk]
      apply le_total id m _ hk
      intro j y hy
      have hj := h j
      rwa [amount_of_get hy] at hj

/-- Nor do several of them together. -/
theorem sum_amounts_le_total {keys : List κ} (hnodup : keys.Nodup) :
    ∀ {m : SortedMap κ ℤ}, (∀ k, 0 ≤ m.amount k) → (keys.map m.amount).sum ≤ total id m := by
  induction keys with
  | nil => exact fun h => total_amounts_nonneg h
  | cons k keys ih =>
      intro m h
      obtain ⟨hk, hkeys⟩ := List.nodup_cons.mp hnodup
      have hrest : ∀ i, 0 ≤ (m.set k 0).amount i := by
        intro i
        rw [amount_set]
        split_ifs
        · exact le_rfl
        · exact h i
      have hsame : keys.map (m.set k 0).amount = keys.map m.amount := by
        apply List.map_congr_left
        intro j hj
        have hjk : j ≠ k := by
          rintro rfl
          exact hk hj
        rw [amount_set, if_neg hjk]
      have hle := ih hkeys hrest
      rw [hsame, total_set_amount] at hle
      rw [List.map_cons, List.sum_cons]
      omega

theorem amount_add_amount_le_total {m : SortedMap κ ℤ} (h : ∀ k, 0 ≤ m.amount k) {k j : κ}
    (hkj : k ≠ j) : m.amount k + m.amount j ≤ total id m := by
  have hnodup : [k, j].Nodup := by simp [hkj]
  simpa using sum_amounts_le_total hnodup h

/-- Parts of an amount weighed by distinct accounts, each at most its share, are together at most the
amount. -/
theorem sum_shares_le {m : SortedMap κ ℤ} (h : ∀ k, 0 ≤ m.amount k) (htotal : 0 < total id m)
    {x : ℤ} (hx : 0 ≤ x) {parts : List (κ × ℤ)} (hnodup : (parts.map Prod.fst).Nodup)
    (hparts : ∀ p ∈ parts, p.2 * total id m ≤ x * m.amount p.1) :
    (parts.map Prod.snd).sum ≤ x := by
  have hweighed : (parts.map Prod.snd).sum * total id m ≤
      x * ((parts.map Prod.fst).map m.amount).sum := by
    clear hnodup
    induction parts with
    | nil => simp
    | cons p parts ih =>
        have hp := hparts p List.mem_cons_self
        have hrest := ih fun q hq => hparts q (List.mem_cons_of_mem p hq)
        simp only [List.map_cons, List.sum_cons, add_mul, mul_add]
        omega
  have hall := Int.mul_le_mul_of_nonneg_left (sum_amounts_le_total hnodup h) hx
  exact Int.le_of_mul_le_mul_right (hweighed.trans hall) htotal

/-! ### Opening accounts -/

/-- An account opened with a positive amount holds one, and no other account holds anything. -/
theorem amount_overwrite {amounts : List (κ × ℤ)} (hpos : ∀ p ∈ amounts, 0 < p.2) (k : κ) :
    if k ∈ amounts.map Prod.fst then 0 < (overwrite amounts).amount k
      else (overwrite amounts).amount k = 0 := by
  induction amounts using List.reverseRecOn with
  | nil => rfl
  | append_singleton amounts p ih =>
      have hold := ih fun q hq => hpos q (List.mem_append_left _ hq)
      have hp := hpos p (by simp)
      rw [overwrite_concat, amount_set, List.map_append, List.map_singleton]
      by_cases hk : k = p.1
      · rw [if_pos hk, if_pos (by simp [hk])]
        exact hp
      · have hmem : k ∈ amounts.map Prod.fst ++ [p.1] ↔ k ∈ amounts.map Prod.fst := by simp [hk]
        rw [if_neg hk]
        simp only [hmem]
        exact hold

/-- Opening accounts one by one puts at most the sum of the opening amounts into them, and all of
it exactly when no account is opened twice: a later opening replaces a positive earlier one. -/
theorem total_overwrite_le {amounts : List (κ × ℤ)} (hpos : ∀ p ∈ amounts, 0 < p.2) :
    total id (overwrite amounts) ≤ (amounts.map Prod.snd).sum ∧
      (total id (overwrite amounts) = (amounts.map Prod.snd).sum ↔
        (amounts.map Prod.fst).Nodup) := by
  induction amounts using List.reverseRecOn with
  | nil => simp [overwrite]
  | append_singleton amounts p ih =>
      have hold : ∀ q ∈ amounts, 0 < q.2 := fun q hq => hpos q (List.mem_append_left _ hq)
      obtain ⟨hle, hiff⟩ := ih hold
      have hreplaced := amount_overwrite hold p.1
      rw [overwrite_concat, total_set_amount, List.map_append, List.sum_append, List.map_append,
        List.nodup_append_comm]
      simp only [List.map_cons, List.map_nil, List.sum_cons, List.sum_nil, add_zero,
        List.singleton_append, List.nodup_cons]
      split_ifs at hreplaced with hp
      · refine ⟨by omega, iff_of_false (by omega) fun h => h.1 hp⟩
      · rw [hreplaced]
        refine ⟨by omega, ?_⟩
        rw [← hiff]
        constructor
        · intro h
          exact ⟨hp, by omega⟩
        · rintro ⟨-, h⟩
          omega

end SortedMap
